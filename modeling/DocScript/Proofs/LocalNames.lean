import DocScript.Proofs.Lockstep
import Mathlib.Logic.Equiv.Basic

/-!
# The names of local variables do not matter

Local variables have names of their own, apart from those of global variables and of
functions. So they can be renamed throughout a session and a tree, as long as no two of
them are given the same name, and evaluation comes to the same. A new name may well be that
of a global variable or of a function.

Units are not renamed, so nothing may be imported on the way. Then evaluation asks neither
the loader nor the table of units, and leaves both as they are. This is part of the
invariant, in which the two sessions may have units of their own.

**Results.**
* `Lockstep.renaming`: where nothing is imported, evaluation keeps sessions renamed.
* `renaming_commutes`: evaluation commutes with renaming.
-/

namespace DocScript

/-- A tree that does not import a unit itself. -/
def Node.NoImport : Node → Prop
  | .imports _ => False
  | _ => True

/-- There is no import in a tree, nor in the code of functions that it defines. -/
def Node.ImportFree (node : Node) : Prop :=
  Everywhere Node.children Node.NoImport node

variable {H : Type}

/-- There is no import in the code of any function. -/
def Session.ImportFree (s : Session H) : Prop :=
  ∀ name params body, s.functions.get? name = some (.user params body) → body.ImportFree

theorem Session.ImportFree.define
    {s : Session H} (hs : s.ImportFree) {code : Node} (hcode : code.ImportFree)
    (name : String) (params : Params) : (s.define name (.user params code)).ImportFree := by
  intro other params' body hbody
  simp only [Session.define, Table.get?_insert, Function.update_apply] at hbody
  split at hbody
  · cases hbody
    exact hcode
  · exact hs other params' body hbody

theorem Session.get?_renameLocals (rename : String → String) (s : Session H) (name : String) :
    (s.renameLocals rename).functions.get? name =
      (s.functions.get? name).map (Function.renameLocals rename) :=
  Table.find_map_value _ name s.functions.entries

/--
A session without imports in its functions, beside itself with other names for local
variables. Each has the units of the session it started from.
-/
structure Session.RenamedTo (rename : String → String) (start start' s t : Session H) : Prop where
  importFree : s.ImportFree
  loader : s.loader = start.loader
  programs : s.programs = start.programs
  eq_renameLocals :
    t = { s.renameLocals rename with loader := start'.loader, programs := start'.programs }

/-- Where nothing is imported, evaluation keeps sessions renamed. -/
def Lockstep.renaming
    {rename : String → String} (hrename : Function.Injective rename) (start start' : Session H) :
    Lockstep H where
  rename := rename
  Allowed := Node.ImportFree
  Rel := Session.RenamedTo rename start start'
  allowed_child hnode hchild := hnode.of_mem hchild
  getGlobal := by
    rintro s _ ⟨_, _, _, rfl⟩ name
    rfl
  lookup := by
    rintro s _ ⟨_, _, _, rfl⟩ name
    exact s.scopes.lookup?_renameLocals hrename name
  atRoot := by
    rintro s _ ⟨_, _, _, rfl⟩
    exact s.scopes.atRoot_renameLocals rename
  calls := by
    rintro s _ ⟨_, _, _, rfl⟩
    exact ⟨rfl, rfl⟩
  unknown := by
    rintro s _ name ⟨_, _, _, rfl⟩ hnone
    exact (s.get?_renameLocals rename name).trans (by rw [hnone]; rfl)
  native := by
    rintro s _ name run ⟨hfree, hloader, hprograms, rfl⟩ hrun
    refine ⟨(s.get?_renameLocals rename name).trans (by rw [hrun]; rfl), fun args => ⟨rfl, ?_⟩⟩
    exact ⟨hfree, hloader, hprograms, rfl⟩
  user := by
    rintro s _ name params body ⟨hfree, _, _, rfl⟩ hbody
    exact ⟨hfree name params body hbody,
      (s.get?_renameLocals rename name).trans (by rw [hbody]; rfl)⟩
  setGlobal := by
    rintro s _ ⟨hfree, hloader, hprograms, rfl⟩ name value
    exact ⟨hfree, hloader, hprograms, rfl⟩
  setLocal := by
    rintro s _ ⟨hfree, hloader, hprograms, rfl⟩ name value
    refine ⟨hfree, hloader, hprograms, ?_⟩
    simp only [Session.setLocal, Session.renameLocals, Scopes.assign_renameLocals _ hrename]
  define := by
    rintro s _ body ⟨hfree, hloader, hprograms, rfl⟩ hbody name params
    refine ⟨hfree.define hbody name params, hloader, hprograms, ?_⟩
    have hput := Table.put_map_value (Function.renameLocals rename : Function H → Function H) name
      (.user params body) s.functions.entries
    simp only [Session.define, Session.renameLocals, Table.insert, Table.mapValues]
    rw [← hput]
    rfl
  enterScope := by
    rintro s _ ⟨hfree, hloader, hprograms, rfl⟩
    refine ⟨hfree, hloader, hprograms, ?_⟩
    simp only [Session.enterScope, Session.renameLocals, Scopes.push_renameLocals]
  closeScope := by
    rintro s _ ⟨hfree, hloader, hprograms, rfl⟩
    refine ⟨hfree, hloader, hprograms, ?_⟩
    simp only [Session.closeScope, Session.renameLocals, Scopes.pop_renameLocals]
  called := by
    rintro s _ ⟨hfree, hloader, hprograms, rfl⟩ bindings
    simp only [Session.called_eq]
    refine ⟨hfree, hloader, hprograms, ?_⟩
    simp only [Session.renameLocals, Scopes.pushBound_renameLocals _ hrename]
  exitCall := by
    rintro s _ ⟨hfree, hloader, hprograms, rfl⟩
    exact ⟨hfree, hloader, hprograms, rfl⟩
  load himports := himports.here.elim

/--
Evaluation commutes with a renaming of the local variables of a tree, of all functions and
of all frames: with the same fuel, both evaluations finish or neither does. Where they
finish, they come to the same outcome, but for the name of a local variable in the fault
that it is not bound; the session is the renamed one, so that global variables and the
state of the host are the same.
-/
theorem renaming_commutes
    {rename : String → String} (hrename : Function.Injective rename)
    {node : Node} (hnode : node.ImportFree)
    {s : Session H} (hs : s.ImportFree)
    (fuel : Nat) :
    (eval fuel node s = none ∧
      eval fuel (node.renameLocals rename) (s.renameLocals rename) = none) ∨
    ∃ outcome outcome' s', eval fuel node s = some (outcome, s') ∧
      eval fuel (node.renameLocals rename) (s.renameLocals rename) =
        some (outcome', s'.renameLocals rename) ∧
      (outcome' = outcome ∨ ∃ name, outcome = .failed (.unboundLocal name) ∧
        outcome' = .failed (.unboundLocal (rename name))) := by
  have hstart : s.RenamedTo rename s s (s.renameLocals rename) := ⟨hs, rfl, rfl, rfl⟩
  have hrun := (Lockstep.renaming hrename s s).eval_inLockstep fuel node s _ hnode hstart
  rcases hrun.cases_finished with hnone | ⟨outcome, outcome', s', t, heval, heval', hst, houtcome⟩
  · exact .inl hnone
  · obtain ⟨_, hloader, hprograms, rfl⟩ := hst
    rw [← hloader, ← hprograms] at heval'
    refine .inr ⟨outcome, outcome', s', heval, heval', ?_⟩
    cases houtcome with
    | same outcome =>
        exact .inl rfl
    | unbound name =>
        exact .inr ⟨name, rfl, rfl⟩

/-- A session with a global variable `g` and a function `f` of a parameter `x`. -/
def Session.parameterNamed : Session Unit where
  host := ()
  console := ⟨fun _ host => (.ok (), host), fun host => (.ok (), host)⟩
  loader := fun reference => .error (.notFound reference)
  globals := ⟨[("g", .list [.null])]⟩
  functions := ⟨[("f", .user (.fixed ["x"]) (.operation .add [.localVar "x" none, .var "g"]))]⟩

/-- Calls `f`, keeps the value in a local variable `x`, and asks for a local variable `f`. -/
def Node.callThenAsk : Node :=
  .block [.setLocal "x" (.call "f" [.list [.literal (.boolean true)]]), .localVar "f" none]

/-- `x` is given the name of the function, and `f` that of the parameter. -/
theorem renaming_commutes_swap :
    Function.Injective (Equiv.swap "x" "f") ∧ Node.callThenAsk.ImportFree ∧
    Session.parameterNamed.ImportFree ∧
    ∃ s', eval 5 Node.callThenAsk Session.parameterNamed =
        some (.failed (.unboundLocal "f"), s') ∧
      eval 5 (Node.callThenAsk.renameLocals (Equiv.swap "x" "f"))
          (Session.parameterNamed.renameLocals (Equiv.swap "x" "f")) =
        some (.failed (.unboundLocal "x"), s'.renameLocals (Equiv.swap "x" "f")) := by
  have hswap : Function.Injective (Equiv.swap "x" "f") := (Equiv.swap "x" "f").injective
  have hcall : (Node.call "f" [.list [.literal (.boolean true)]]).ImportFree := by
    refine .intro trivial (List.forall_mem_singleton.mpr (.intro trivial ?_))
    exact List.forall_mem_singleton.mpr (.leaf trivial rfl)
  have hnode : Node.callThenAsk.ImportFree := by
    refine .intro trivial (List.forall_mem_cons.mpr ⟨.intro trivial ?_, ?_⟩)
    · exact List.forall_mem_singleton.mpr hcall
    · exact List.forall_mem_singleton.mpr (.leaf trivial rfl)
  have hs : Session.parameterNamed.ImportFree := by
    intro name params body hbody
    cases List.mem_singleton.mp (Table.mem_of_find hbody)
    refine .intro trivial (List.forall_mem_cons.mpr ⟨.leaf trivial rfl, ?_⟩)
    exact List.forall_mem_singleton.mpr (.leaf trivial rfl)
  obtain ⟨s', heval⟩ : ∃ s', eval 5 Node.callThenAsk Session.parameterNamed =
      some (.failed (.unboundLocal "f"), s') := ⟨_, rfl⟩
  have htree : Node.callThenAsk.renameLocals (Equiv.swap "x" "f") =
      .block [.setLocal "f" (.call "f" [.list [.literal (.boolean true)]]),
        .localVar "x" none] := by
    simp [Node.callThenAsk, Node.renameLocals, Node.renameItems]
  have hsession : Session.parameterNamed.renameLocals (Equiv.swap "x" "f") =
      { Session.parameterNamed with
        functions := ⟨[("f", .user (.fixed ["f"])
          (.operation .add [.localVar "f" none, .var "g"]))]⟩ } := by
    simp [Session.parameterNamed, Session.renameLocals, Scopes.renameLocals, Scopes.root,
      Frame.renameLocals, Table.empty, Table.mapNames, Table.mapValues, Function.renameLocals,
      Params.renameLocals, Node.renameLocals, Node.renameItems]
  have houtcome : (eval 5 (Node.callThenAsk.renameLocals (Equiv.swap "x" "f"))
      (Session.parameterNamed.renameLocals (Equiv.swap "x" "f"))).map Prod.fst =
        some (.failed (.unboundLocal "x")) := by
    rw [htree, hsession]
    rfl
  refine ⟨hswap, hnode, hs, s', heval, ?_⟩
  rcases renaming_commutes hswap hnode hs 5 with ⟨hnone, _⟩ | ⟨_, _, _, hfirst, hsecond, _⟩
  · rw [heval] at hnone
    cases hnone
  · rw [heval] at hfirst
    cases hfirst
    rw [hsecond] at houtcome ⊢
    cases houtcome
    rfl

end DocScript
