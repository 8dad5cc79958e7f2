import DocScript.Proofs.EagerChecks
import DocScript.Proofs.Lasting
import DocScript.Proofs.Tables

/-!
# What a reset restores

A reset drops what programs have left behind. It cannot tell what the functions were when
the session was set up: it keeps those of the host that are still there. Programs define
functions under any name, so that the functions at any later time are an `Overlay` of those
at first, in which entries have given way to user functions and user functions have been
added. Hence a reset brings back the session as it was set up, but for the state of the
host, exactly if no function of the host has given way.

**Results.**
* `Function.Overlay.put`: a definition leads from one overlay to another.
* `Function.Overlay.find_natives`, `Function.Overlay.natives_eq_iff`: what is left of an
  overlay without its user functions.
* `Session.Lasting.served`: what lasts holds after every request.
* `reset_restores_iff`: when a reset restores the session.
-/

namespace DocScript

variable {H : Type}

namespace Function

/-- The functions of the host among others. -/
def natives (entries : List (String × Function H)) : List (String × Function H) :=
  entries.filter fun (_, function) => function.isNative

theorem natives_eq_nil
    {entries : List (String × Function H)} (h : ∀ entry ∈ entries, entry.2.isNative = false) :
    natives entries = [] :=
  List.filter_eq_nil_iff.mpr fun entry hentry => by simp [h entry hentry]

theorem natives_cons
    {entry : String × Function H} (h : entry.2.isNative = true)
    (entries : List (String × Function H)) :
    natives (entry :: entries) = entry :: natives entries :=
  List.filter_cons_of_pos h

theorem natives_cons_user
    (name : String) (params : Params) (body : Node) (entries : List (String × Function H)) :
    natives ((name, .user params body) :: entries) = natives entries :=
  List.filter_cons_of_neg Bool.false_ne_true

/-- Functions, and what has become of them by definitions of user functions. -/
inductive Overlay : List (String × Function H) → List (String × Function H) → Prop
  | added {entries : List (String × Function H)}
      (h : ∀ entry ∈ entries, entry.2.isNative = false) : Overlay [] entries
  | kept (name : String) (function : Function H) {base entries : List (String × Function H)}
      (h : Overlay base entries) : Overlay ((name, function) :: base) ((name, function) :: entries)
  | replaced (name : String) (function : Function H) (params : Params) (body : Node)
      {base entries : List (String × Function H)} (h : Overlay base entries) :
      Overlay ((name, function) :: base) ((name, .user params body) :: entries)

namespace Overlay

variable {base entries : List (String × Function H)}

theorem refl (base : List (String × Function H)) : Overlay base base := by
  induction base with
  | nil =>
      exact .added (List.forall_mem_nil _)
  | cons entry rest ih =>
      exact .kept entry.1 entry.2 ih

/-- A definition leads from one overlay to another. -/
theorem put (h : Overlay base entries) (name : String) (params : Params) (body : Node) :
    Overlay base (Table.put name (.user params body) entries) := by
  induction h with
  | @added entries husers =>
      have huser : (Function.user params body : Function H).isNative = false := rfl
      exact .added
        (Table.forall_insert (P := fun f : Function H => f.isNative = false) husers huser)
  | kept key function h ih =>
      rw [Table.put]
      split
      · exact .replaced key function params body h
      · exact .kept key function ih
  | replaced key function params' body' h ih =>
      rw [Table.put]
      split
      · exact .replaced key function params body h
      · exact .replaced key function params' body' ih

section Filter

variable (hnative : ∀ entry ∈ base, entry.2.isNative = true)
include hnative

/-- No function of the host has been added. -/
theorem natives_sublist (h : Overlay base entries) :
    (natives entries).Sublist base := by
  induction h with
  | added husers =>
      rw [natives_eq_nil husers]
  | kept name function h ih =>
      obtain ⟨hfunction, hbase⟩ := List.forall_mem_cons.mp hnative
      rw [natives_cons hfunction]
      exact (ih hbase).cons_cons _
  | replaced name function params body h ih =>
      obtain ⟨_, hbase⟩ := List.forall_mem_cons.mp hnative
      rw [natives_cons_user]
      exact (ih hbase).cons _

variable (hnodup : (base.map Prod.fst).Nodup)
include hnodup

/-- Without user functions, the names have what they had at first, and have it still. -/
theorem find_natives (h : Overlay base entries) (name : String) (function : Function H) :
    Table.find name (natives entries) = some function ↔
      Table.find name base = some function ∧ Table.find name entries = some function := by
  induction h with
  | added husers =>
      rw [natives_eq_nil husers]
      simp [Table.find]
  | kept key old h ih =>
      obtain ⟨hold, hbase⟩ := List.forall_mem_cons.mp hnative
      obtain ⟨_, hrest⟩ := List.nodup_cons.mp hnodup
      rw [natives_cons hold]
      simp only [Table.find]
      split
      · exact and_self_iff.symm
      · exact ih hbase hrest
  | replaced key old params body h ih =>
      obtain ⟨hold, hbase⟩ := List.forall_mem_cons.mp hnative
      obtain ⟨hnew, hrest⟩ := List.nodup_cons.mp hnodup
      rw [natives_cons_user]
      simp only [Table.find]
      split
      · rename_i hkey
        subst hkey
        -- The name is listed once at first, so nothing below can stand in for it.
        have hgone := fun hmem => hnew (((h.natives_sublist hbase).map Prod.fst).subset hmem)
        rw [Table.find_eq_none_of_notMem hgone]
        constructor
        · intro hnone
          cases hnone
        · rintro ⟨hfirst, hnow⟩
          cases hfirst
          cases hnow
          cases hold
      · exact ih hbase hrest

/-- Without user functions, all is as it was exactly if nothing has given way to one. -/
theorem natives_eq_iff (h : Overlay base entries) :
    natives entries = base ↔
      ∀ name ∈ base.map Prod.fst, ∀ params body,
        Table.find name entries ≠ some (.user params body) := by
  induction h with
  | added husers =>
      rw [natives_eq_nil husers]
      simp
  | @kept key old base entries h ih =>
      obtain ⟨hold, hbase⟩ := List.forall_mem_cons.mp hnative
      obtain ⟨hnew, hrest⟩ := List.nodup_cons.mp hnodup
      rw [natives_cons hold, List.cons_inj_right, ih hbase hrest, List.map_cons,
        List.forall_mem_cons]
      have hfirst : ∀ params body,
          Table.find key ((key, old) :: entries) ≠ some (.user params body) := by
        rintro params body huser
        rw [Table.find, if_pos rfl] at huser
        cases huser
        cases hold
      rw [and_iff_right hfirst]
      refine forall₂_congr fun name hname => ?_
      rw [Table.find, if_neg fun hkey : key = name => hnew (hkey ▸ hname)]
  | replaced key old params body h ih =>
      obtain ⟨_, hbase⟩ := List.forall_mem_cons.mp hnative
      rw [natives_cons_user]
      constructor
      · intro hall
        have hlength := (h.natives_sublist hbase).length_le
        rw [hall, List.length_cons] at hlength
        omega
      · intro hnone
        refine absurd ?_ (hnone key List.mem_cons_self params body)
        rw [Table.find, if_pos rfl]

end Filter

end Overlay

end Function

/-- What a session is asked once it has been set up. -/
inductive Request where
  | loadText (text : String)
  | runText (text : String)
  | runProgram (name : String)
  | evalDocument (document : Json)
  | runStatement (text : String)
  | importProgram (reference : String)
  | invoke (name : String) (args : List Value)

namespace Session

/-- The session that a request leaves behind, answered with a value or with a fault. -/
def serve (fuel : Nat) (s : Session H) : Request → Option (Session H)
  | .loadText text => some (s.loadText text).2
  | .runText text => (s.runText fuel text).map Prod.snd
  | .runProgram name => (s.runProgram fuel name).map Prod.snd
  | .evalDocument document => (s.evalDocument fuel document).map Prod.snd
  | .runStatement text => (s.runStatement fuel text).map Prod.snd
  | .importProgram reference => (s.importProgram fuel reference).map Prod.snd
  | .invoke name args => (s.invoke fuel name args).map Prod.snd

/-- One request leads from one session to the other. -/
def Served (s s' : Session H) : Prop :=
  ∃ fuel request, s.serve fuel request = some s'

namespace Lasting

variable {P : Session H → Prop} {fuel : Nat} {s s' : Session H}

/-- What an evaluation at the top leaves behind is what the evaluation does. -/
theorem of_answer
    {run : Run H} (hrun : ∀ outcome s', run = some (outcome, s') → P s')
    (h : run.answer.map Prod.snd = some s') : P s' := by
  obtain ⟨⟨outcome, s''⟩, hfinished, rfl⟩ : ∃ finished, run = some finished ∧ finished.2 = s' := by
    simpa [Run.answer] using h
  exact hrun outcome s'' hfinished

variable (hP : Lasting P)
include hP

/-- What lasts holds after a unit is loaded, or refused. -/
theorem loadText (hs : P s) (text : String) : P (s.loadText text).2 := by
  unfold Session.loadText
  cases Program.read text with
  | ok program =>
      exact hP.unaffected hs _ _ _ _ _
  | error fault =>
      exact hs

theorem runText
    {text : String} (hs : P s) (h : (s.runText fuel text).map Prod.snd = some s') : P s' := by
  have hloaded := hP.loadText hs text
  unfold Session.runText at h
  generalize s.loadText text = loaded at h hloaded
  obtain ⟨answer, s₁⟩ := loaded
  cases answer with
  | ok name =>
      exact of_answer (fun _ _ => hP.runProgram hloaded) h
  | error fault =>
      cases h
      exact hloaded

theorem evalDocument
    {document : Json} (hs : P s) (h : (s.evalDocument fuel document).map Prod.snd = some s') :
    P s' := by
  unfold Session.evalDocument at h
  cases hread : Node.ofJson document with
  | ok node =>
      simp only [hread] at h
      exact of_answer (fun _ _ => hP.eval hs) h
  | error fault =>
      simp only [hread] at h
      cases h
      exact hs

theorem runStatement
    {text : String} (hs : P s) (h : (s.runStatement fuel text).map Prod.snd = some s') :
    P s' := by
  unfold Session.runStatement at h
  cases hread : Node.read text with
  | ok node =>
      simp only [hread] at h
      exact of_answer (fun _ _ => hP.eval hs) h
  | error fault =>
      simp only [hread] at h
      cases h
      exact hs

/-- What lasts holds after every request. -/
theorem served (hs : P s) (h : s.Served s') : P s' := by
  obtain ⟨fuel, request, h⟩ := h
  cases request with
  | loadText text =>
      cases h
      exact hP.loadText hs text
  | runText text =>
      exact hP.runText hs h
  | runProgram name =>
      exact of_answer (fun _ _ => hP.runProgram hs) h
  | evalDocument document =>
      exact hP.evalDocument hs h
  | runStatement text =>
      exact hP.runStatement hs h
  | importProgram reference =>
      exact of_answer (fun _ _ => hP.importUnit hs) h
  | invoke name args =>
      exact of_answer (fun _ _ => hP.invoke hs) h

/-- What lasts holds after any run of requests. -/
theorem of_requests (hs : P s) (h : Relation.ReflTransGen Served s s') : P s' := by
  induction h with
  | refl =>
      exact hs
  | tail _ hserved ih =>
      exact hP.served ih hserved

end Lasting

/-- Registers functions of the host, one after the other. -/
def register (s : Session H) (natives : List (String × Native H)) : Session H :=
  natives.foldl (fun s (name, run) => s.define name (.native run)) s

/-- A session in which nothing has been run yet. -/
structure Untouched (s : Session H) : Prop where
  globals : s.globals = .empty
  scopes : s.scopes = .root
  programs : s.programs = .empty
  callDepth : s.callDepth = 0
  nodup : s.functions.names.Nodup
  native : ∀ entry ∈ s.functions.entries, entry.2.isNative = true

theorem untouched_fresh (host : H) (console : Console H) (loader : Loader) (limit : Nat) :
    (fresh host console loader limit).Untouched where
  globals := rfl
  scopes := rfl
  programs := rfl
  callDepth := rfl
  nodup := List.nodup_singleton _
  native := List.forall_mem_singleton.mpr rfl

theorem Untouched.define
    {s : Session H} (h : s.Untouched) (name : String) (run : Native H) :
    (s.define name (.native run)).Untouched where
  globals := h.globals
  scopes := h.scopes
  programs := h.programs
  callDepth := h.callDepth
  nodup := Table.nodup_names_insert h.nodup name _
  native :=
    have hrun : (Function.native run).isNative = true := rfl
    Table.forall_insert (P := fun f : Function H => f.isNative = true) h.native hrun

/-- A session stays untouched while functions of the host are registered. -/
theorem Untouched.register
    {s : Session H} (h : s.Untouched) (natives : List (String × Native H)) :
    (s.register natives).Untouched := by
  induction natives generalizing s with
  | nil =>
      exact h
  | cons native rest ih =>
      exact ih (h.define native.1 native.2)

/-- What programs cannot change of a session that was set up before. -/
structure RunsFrom (start s : Session H) : Prop where
  console : s.console = start.console
  loader : s.loader = start.loader
  maxCallDepth : s.maxCallDepth = start.maxCallDepth
  functions : Function.Overlay start.functions.entries s.functions.entries

theorem RunsFrom.refl (start : Session H) : start.RunsFrom start :=
  ⟨rfl, rfl, rfl, .refl _⟩

/--
No evaluation exchanges what a session is set up with, and definitions are laid over
functions.
-/
theorem lasting_runsFrom (start : Session H) : Lasting start.RunsFrom where
  unaffected h _ _ _ _ _ := ⟨h.console, h.loader, h.maxCallDepth, h.functions⟩
  define h name params body :=
    ⟨h.console, h.loader, h.maxCallDepth, h.functions.put name params body⟩

section Reset

variable {start s : Session H} (hstart : start.Untouched) (h : start.RunsFrom s)
include hstart h

/-- A reset leads back to the session before, but for the host and the functions. -/
theorem reset_eq : s.reset = { start with host := s.host, functions := s.reset.functions } := by
  simp only [reset, h.console, h.loader, h.maxCallDepth, hstart.globals, hstart.scopes,
    hstart.programs, hstart.callDepth]

/-- A reset restores a session just if no function of the host has been defined over. -/
theorem reset_eq_iff :
    s.reset = { start with host := s.host } ↔
      ∀ name ∈ start.functions.names, ∀ params body,
        s.functions.get? name ≠ some (.user params body) := by
  have hnatives := h.functions.natives_eq_iff hstart.native hstart.nodup
  refine Iff.trans ?_ hnatives
  constructor
  · intro hreset
    exact congrArg (fun s => s.functions.entries) hreset
  · intro hentries
    have hfunctions : s.reset.functions = start.functions := congrArg Table.mk hentries
    rw [reset_eq hstart h, hfunctions]

end Reset
end Session

/--
A reset leaves no variable, unit or running call and one frame without names. Of the
functions it leaves those that were registered before the first request and are still what
they were. So it restores the session as it was set up, but for the state of the host,
exactly if no name of a function of the host has been taken over by a program.
-/
theorem reset_restores_iff
    {host : H} {console : Console H} {loader : Loader} {limit : Nat}
    {natives : List (String × Native H)} {start s : Session H}
    (hstart : start = (Session.fresh host console loader limit).register natives)
    (hrequests : Relation.ReflTransGen Session.Served start s) :
    s.reset.globals = .empty ∧ s.reset.scopes = .root ∧ s.reset.callDepth = 0 ∧
    s.reset.programs = .empty ∧
    (∀ name params body, s.reset.functions.get? name ≠ some (.user params body)) ∧
    (∀ name function, s.reset.functions.get? name = some function ↔
      start.functions.get? name = some function ∧ s.functions.get? name = some function) ∧
    (s.reset = { start with host := s.host } ↔
      ∀ name ∈ start.functions.names, ∀ params body,
        s.functions.get? name ≠ some (.user params body)) := by
  have huntouched : start.Untouched := by
    rw [hstart]
    exact (Session.untouched_fresh host console loader limit).register natives
  have hruns := (Session.lasting_runsFrom start).of_requests (.refl start) hrequests
  have hfunctions := hruns.functions.find_natives huntouched.native huntouched.nodup
  refine ⟨rfl, rfl, rfl, rfl, ?_, hfunctions, Session.reset_eq_iff huntouched hruns⟩
  intro name params body huser
  obtain ⟨hfirst, _⟩ := (hfunctions name _).mp huser
  cases huntouched.native _ (Table.mem_of_find hfirst)

/-- A session with a function of the host besides `print`, which counts its arguments. -/
def Session.counting : Session Nat :=
  (Session.fresh 0 ⟨fun _ host => (.ok (), host), fun host => (.ok (), host)⟩
    (.ofTable .empty) 10).register [("count", fun _ args host => (.ok .null, host + args.length))]

/-- Defines `f` and sets `g`, then counts two arguments, and fails. -/
def Json.countingDocument : Json :=
  .array
    [.object [("def", .object [("code", .array []), ("name", .string "f")])],
      .object [("set", .object [("name", .string "g"), ("value", .null)])],
      .object [("call", .object [("args", .array [.null, .null]), ("name", .string "count")])],
      .object [("var", .string "missing")]]

theorem reset_restores_iff_counting :
    ∃ s, Session.counting.serve 5 (.evalDocument Json.countingDocument) = some s ∧
      s.globals.contains "g" = true ∧ s.functions.contains "f" = true ∧
      s.reset = { Session.counting with host := 2 } := by
  have hserve : ∃ s, Session.counting.serve 5 (.evalDocument Json.countingDocument) = some s ∧
      s.globals.contains "g" = true ∧ s.functions.contains "f" = true ∧ s.host = 2 ∧
      ∀ name ∈ Session.counting.functions.names, ∀ params body,
        s.functions.get? name ≠ some (.user params body) := by
    refine ⟨_, rfl, rfl, rfl, rfl, ?_⟩
    exact List.forall_mem_cons.mpr ⟨nofun, List.forall_mem_singleton.mpr nofun⟩
  obtain ⟨s, hserve, hglobal, hfunction, hhost, hintact⟩ := hserve
  obtain ⟨_, _, _, _, _, _, hiff⟩ := reset_restores_iff rfl (.single ⟨5, _, hserve⟩)
  have hreset := hiff.mpr hintact
  rw [hhost] at hreset
  exact ⟨s, hserve, hglobal, hfunction, hreset⟩

/-- A definition of `print`, after which a reset leaves no function of that name. -/
theorem reset_loses_replaced_print :
    ∃ s, Relation.ReflTransGen Session.Served Session.counting s ∧
      Session.counting.functions.contains "print" = true ∧
      s.reset.functions.contains "print" = false ∧
      s.reset ≠ { Session.counting with host := s.host } := by
  have hserve : ∃ s, Session.counting.serve 2
      (.runStatement "\x7b\"def\":\x7b\"name\":\"print\",\"code\":[]\x7d\x7d") = some s ∧
      s.reset.functions.contains "print" = false :=
    ⟨_, rfl, rfl⟩
  obtain ⟨s, hserve, hlost⟩ := hserve
  refine ⟨s, .single ⟨2, _, hserve⟩, rfl, hlost, fun hreset => ?_⟩
  rw [hreset] at hlost
  cases hlost

end DocScript
