import DocScript.CommandLine
import DocScript.Proofs.Balance
import DocScript.Proofs.Invariants
import DocScript.Proofs.Resetting
import DocScript.Proofs.ShellLines

/-!
# The shell outlives its lines

After a line the shell goes on, unless the line asks it to quit or the console fails that
replies go to. A fault of the console that programs write to, of a function of the host or
of a file is reported like any other. Between lines there is one frame, and no call is
running.

There is one fault that the program does not outlive: the extension of units contains a
slash, so that no file name can be made of it, and the first import that needs the extension
stops the program. A loader *fits* if it does not come to that. In a session whose loader
fits, no line meets with such a defect.

**Results.**
* `Loader.fits_ofTable`, `Loader.fits_ofDisk`: loaders that fit.
* `Session.persists_atRest`, `Session.persists_sound`: what lines leave in place.
* `Shell.respond_goesOn`, `Shell.handle_goesOn`, `Shell.handle_of_quits`: how a line is
  responded to, and how it is handled.
* `CommandLine.feed_append_quit`: what comes after the line that quits is not read.
* `shell_outlives_lines`: what holds of every line, in every shell that lines lead to.
-/

namespace DocScript

variable {H : Type}

section Defects

/-- A loader that can make a file name of every reference. -/
def Loader.Fits (loader : Loader) : Prop :=
  ∀ reference extension, loader reference ≠ .error (.unfitExtension extension)

theorem Loader.fits_ofTable (units : Table String) : (Loader.ofTable units).Fits := by
  intro reference extension h
  unfold Loader.ofTable at h
  split at h <;> cases h

/-- Files make up for a loader that fits unless their extension contains a slash. -/
theorem Loader.fits_ofDisk
    {extension : String} (hextension : Path.fitsFileName extension.toList = true)
    (disk : Disk) (root : String) : (Loader.ofDisk disk root extension).Fits := by
  intro reference other h
  have hpath : Loader.hasPath extension reference = true := by
    simp [Loader.hasPath, hextension]
  unfold Loader.ofDisk at h
  simp only [if_pos hpath] at h
  split at h <;> cases h

/-- A function of the host that does not blame how the program was set up. -/
def Native.Sound (run : Native H) : Prop :=
  ∀ console args host fault, (run console args host).1 = .error fault →
    (Fault.eval fault).isDefect = false

theorem Native.print_sound : Native.Sound (Native.print : Native H) := by
  intro console args host fault hfault
  unfold Native.print at hfault
  simp only at hfault
  split at hfault
  · cases hfault
    rfl
  · split at hfault
    · cases hfault
      rfl
    · cases hfault

/-- A user function, or one of the host that does not blame how the program was set up. -/
def Function.Sound : Function H → Prop
  | .native run => run.Sound
  | .user _ _ => True

/-- A session in which nothing blames how the program was set up. -/
structure Session.Sound (s : Session H) : Prop where
  loader : s.loader.Fits
  functions : ∀ entry ∈ s.functions.entries, entry.2.Sound

theorem Session.Sound.of_eq {s s' : Session H} (h : s.Sound)
    (hloader : s'.loader = s.loader) (hfunctions : s'.functions = s.functions) : s'.Sound := by
  refine ⟨?_, ?_⟩
  · rw [hloader]
    exact h.loader
  · rw [hfunctions]
    exact h.functions

theorem Session.Sound.define {s : Session H} (h : s.Sound) (name : String) (function : Function H)
    (hfunction : function.Sound) : (s.define name function).Sound :=
  ⟨h.loader, Table.forall_insert h.functions hfunction⟩

theorem Session.Sound.register {s : Session H} (h : s.Sound) {natives : List (String × Native H)}
    (hnatives : ∀ native ∈ natives, native.2.Sound) : (s.register natives).Sound := by
  induction natives generalizing s with
  | nil =>
      exact h
  | cons native rest ih =>
      obtain ⟨hfirst, hrest⟩ := List.forall_mem_cons.mp hnatives
      exact ih (h.define native.1 (.native native.2) hfirst) hrest

/-- Evaluation comes upon no defect where there is none. -/
def Invariant.sound : Invariant H where
  Holds := Session.Sound
  Fits _ _ := True
  Fault fault := (Fault.eval fault).isDefect = false
  Tree _ := True
  tree_child _ _ := trivial
  literal _ _ := trivial
  null _ := trivial
  list _ := trivial
  fold _ _ := trivial
  grown _ _ := trivial
  fault {fault} h := by
    cases fault with
    | importFailed reference source =>
        exact absurd rfl (h reference source)
    | _ =>
        rfl
  refused {s reference source} hs hrefused := by
    cases source with
    | unfitExtension extension =>
        exact absurd hrefused (hs.loader reference extension)
    | _ =>
        rfl
  getGlobal _ _ := trivial
  getLocal _ _ := trivial
  native {s name run args} hs hfunction _ := by
    have hsound : run.Sound := hs.functions _ (Table.mem_of_find hfunction)
    exact ⟨hs.of_eq rfl rfl, fun _ _ => trivial, fun fault => hsound _ _ _ fault⟩
  user _ _ := trivial
  setGlobal hs _ _ := hs.of_eq rfl rfl
  setLocal hs _ _ := hs.of_eq rfl rfl
  define {s code} hs _ name params :=
    ⟨hs.define name (.user params code) trivial, trivial⟩
  enterScope hs := hs.of_eq rfl rfl
  closeScope hs := hs.of_eq rfl rfl
  called hs _ := by
    rw [Session.called_eq]
    exact hs.of_eq rfl rfl
  exitCall hs := hs.of_eq rfl rfl
  loaded hs _ := ⟨hs.of_eq rfl rfl, fun _ _ => trivial⟩
  registered hs _ := ⟨hs.of_eq rfl rfl, fun _ _ => trivial⟩

theorem Session.Starts.keeps_sound {s : Session H} {run : Run H} (hstarts : s.Starts run)
    (hs : s.Sound) : Invariant.sound.Keeps run := by
  have hev (fuel : Nat) (node : Node) (hnode : Invariant.sound.Tree (H := H) node) (s : Session H)
      (hs : s.Sound) : Invariant.sound.Keeps (eval fuel node s) :=
    Invariant.sound.eval_keeps fuel hnode hs
  cases hstarts with
  | tree fuel hread =>
      exact Invariant.sound.eval_keeps fuel trivial hs
  | invoke fuel name args =>
      exact Invariant.invoke_keeps (hev fuel) name (fun _ _ => trivial) hs
  | importUnit fuel levels reference =>
      exact Invariant.importUnit_keeps (hev fuel) levels reference hs
  | runProgram fuel levels name =>
      exact Invariant.runProgram_keeps (hev fuel) levels name hs

theorem Session.persists_sound :
    Session.Persists (H := H) Session.Sound fun fault => (Fault.eval fault).isDefect = false where
  started hs hstarts hrun := by
    obtain ⟨hs', hadmits⟩ := (hstarts.keeps_sound hs).of_eq_some hrun
    refine ⟨hs', fun fault hfault => ?_⟩
    subst hfault
    exact hadmits
  undefined _ := rfl
  setGlobal hs _ _ := hs.of_eq rfl rfl
  addProgram hs _ := hs.of_eq rfl rfl
  reset hs := ⟨hs.loader, fun entry hentry => hs.functions entry (List.mem_filter.mp hentry).1⟩
  setHost hs _ := hs.of_eq rfl rfl

/-- A line is refused with no defect where evaluation comes upon none. -/
theorem Fault.OfLine.isDefect_eq_false {fault : Fault}
    (h : fault.OfLine fun source => (Fault.eval source).isDefect = false) :
    fault.isDefect = false := by
  cases h with
  | eval hsource =>
      exact hsource
  | _ =>
      rfl

end Defects

/-- Lines keep what says nothing. -/
theorem Session.persists_true :
    Session.Persists (H := H) (fun _ => True) fun _ => True where
  started _ _ _ := ⟨trivial, fun _ _ => trivial⟩
  undefined _ := trivial
  setGlobal _ _ _ := trivial
  addProgram _ _ := trivial
  reset _ := trivial
  setHost _ _ := trivial

section Rest

/-- A session between lines: there is one frame, and no call is running. -/
structure Session.AtRest (s : Session H) : Prop where
  depth : s.scopes.depth = 1
  callDepth : s.callDepth = 0

theorem Session.AtRest.of_restores {s s' : Session H} {run : Run H} {outcome : Outcome}
    (h : s.AtRest) (hrun : run.Restores s) (heq : run = some (outcome, s')) : s'.AtRest := by
  have hbalanced := hrun outcome s' heq
  exact ⟨hbalanced.frames.depth.trans h.depth, hbalanced.callDepth.trans h.callDepth⟩

theorem Session.persists_atRest :
    Session.Persists (H := H) Session.AtRest fun _ => True where
  started {s s' run outcome} hs hstarts hrun := by
    have hframe : 0 < s.scopes.depth := by
      rw [hs.depth]
      exact Nat.one_pos
    have hrestores : run.Restores s := by
      cases hstarts with
      | tree fuel hread =>
          exact eval_restores hframe fuel _
      | invoke fuel name args =>
          exact invoke_restores hframe fuel name args
      | importUnit fuel levels reference =>
          exact importUnit_restores hframe fuel levels reference
      | runProgram fuel levels name =>
          exact runProgram_restores hframe fuel levels name
    exact ⟨hs.of_restores hrestores hrun, fun _ _ => trivial⟩
  undefined _ := trivial
  setGlobal hs _ _ := ⟨hs.depth, hs.callDepth⟩
  addProgram hs _ := ⟨hs.depth, hs.callDepth⟩
  reset _ := ⟨rfl, rfl⟩
  setHost hs _ := ⟨hs.depth, hs.callDepth⟩

end Rest

/-- A text fails to be written with a fault, and leaves a host behind. -/
def Console.FailsWith (console : Console H) (fault : IoFault) (host' : H) : Prop :=
  ∃ text host, console.write text host = (.error fault, host')

namespace Shell

variable {fuel : Nat} {replies : Console H} {line : String}

section Handling

variable {P : Session H → Prop} {Q : EvalFault → Prop} (hP : Session.Persists P Q)
variable {shell : Shell H}

theorem failsWith_of_say {lines : List String} {fault : IoFault} {shell' : Shell H}
    (h : say replies lines shell = (.error fault, shell')) :
    replies.FailsWith fault shell'.session.host := by
  induction lines generalizing shell with
  | nil =>
      cases h
  | cons line rest ih =>
      rw [say] at h
      split at h
      · rename_i source host hwrite
        cases h
        exact ⟨_, _, hwrite⟩
      · exact ih h

/-- A defect is passed on as it is. -/
theorem settle_of_isDefect {fault : Fault} (hdefect : fault.isDefect = true) (shell : Shell H) :
    settle replies (.error fault) shell = (.error fault, shell) := by
  cases fault with
  | io source =>
      rfl
  | _ =>
      exact if_pos hdefect

include hP

theorem say_persists (replies : Console H) (hs : P shell.session) (lines : List String) :
    P (say replies lines shell).2.session := by
  induction lines generalizing shell with
  | nil =>
      exact hs
  | cons line rest ih =>
      rw [say]
      split
      · exact hP.setHost hs _
      · exact ih (hP.setHost hs _)

/-- A line that does not ask to quit is replied to, or refused, unless a reply fails. -/
theorem execute_goesOn (fuel : Nat) (replies : Console H) (hquits : ¬ Quits line)
    (hs : P shell.session) :
    (shell.execute fuel replies line = none → Unfinished fuel line shell) ∧
    ∀ result shell', shell.execute fuel replies line = some (result, shell') →
      P shell'.session ∧
      (result = .ok .continue ∨ (∃ fault, result = .error fault ∧ fault.OfLine Q) ∨
        ∃ fault, result = .error (.io fault) ∧ replies.FailsWith fault shell'.session.host) := by
  have hperform := perform_goesOn hP fuel hquits hs
  unfold execute
  generalize shell.perform fuel line = performed at hperform ⊢
  cases hperform with
  | unfinished h =>
      exact ⟨fun _ => h, fun _ _ heq => nomatch heq⟩
  | refused hs' hfault =>
      refine ⟨fun hnone => (nomatch hnone), fun result shell' heq => ?_⟩
      cases heq
      exact ⟨hs', .inr (.inl ⟨_, rfl, hfault⟩)⟩
  | @replied lines shell₁ hs₁ =>
      have hsaid := say_persists hP replies hs₁ lines
      simp only
      generalize hsay : say replies lines shell₁ = said at hsaid ⊢
      obtain ⟨answer, shell₂⟩ := said
      cases answer with
      | ok _ =>
          refine ⟨fun hnone => (nomatch hnone), fun result shell' heq => ?_⟩
          cases heq
          exact ⟨hsaid, .inl rfl⟩
      | error fault =>
          refine ⟨fun hnone => (nomatch hnone), fun result shell' heq => ?_⟩
          cases heq
          exact ⟨hsaid, .inr (.inr ⟨fault, rfl, failsWith_of_say hsay⟩)⟩

/-- The report of a fault that is no defect is written, unless it fails to be. -/
theorem settle_of_not_isDefect (hs : P shell.session) {fault : Fault} (hfault : fault.OfLine Q)
    (hdefect : ¬ fault.isDefect = true) {result : Except Fault Action} {shell' : Shell H}
    (h : settle replies (.error fault) shell = (result, shell')) :
    P shell'.session ∧ (result = .ok .continue ∨
      ∃ source, result = .error (.io source) ∧ replies.FailsWith source shell'.session.host) := by
  have hsaid := say_persists hP replies hs (faultLines fault shell)
  generalize hsay : say replies (faultLines fault shell) shell = said at hsaid
  obtain ⟨answer, shell₁⟩ := said
  cases answer with
  | ok _ =>
      have hsettle : settle replies (.error fault) shell = (.ok .continue, shell₁) := by
        cases hfault <;> simp only [settle, if_neg hdefect, hsay]
      cases hsettle.symm.trans h
      exact ⟨hsaid, .inl rfl⟩
  | error source =>
      have hsettle : settle replies (.error fault) shell = (.error (.io source), shell₁) := by
        cases hfault <;> simp only [settle, if_neg hdefect, hsay]
      cases hsettle.symm.trans h
      exact ⟨hsaid, .inr ⟨source, rfl, failsWith_of_say hsay⟩⟩

/--
A line that does not ask to quit is responded to by going on, unless it meets with a defect,
or a reply or a report fails.
-/
theorem respond_goesOn (fuel : Nat) (replies : Console H) (hquits : ¬ Quits line)
    (hs : P shell.session) :
    (shell.respond fuel replies line = none → Unfinished fuel line shell) ∧
    ∀ result shell', shell.respond fuel replies line = some (result, shell') →
      P shell'.session ∧
      (result = .ok .continue ∨
        (∃ fault, result = .error fault ∧ fault.OfLine Q ∧ fault.isDefect = true ∧
          shell.execute fuel replies line = some (.error fault, shell')) ∨
        ∃ fault, result = .error (.io fault) ∧ replies.FailsWith fault shell'.session.host) := by
  obtain ⟨hnone, hsome⟩ := execute_goesOn hP fuel replies hquits hs
  unfold respond
  refine ⟨fun h => hnone (Option.map_eq_none_iff.mp h), fun result shell' h => ?_⟩
  obtain ⟨⟨executed, shell₁⟩, hexecute, heq⟩ := Option.map_eq_some_iff.mp h
  obtain ⟨hs₁, hresult⟩ := hsome executed shell₁ hexecute
  rcases hresult with rfl | ⟨fault, rfl, hfault⟩ | ⟨fault, rfl, hfails⟩
  · cases heq
    exact ⟨hs₁, .inl rfl⟩
  · by_cases hdefect : fault.isDefect = true
    · cases (settle_of_isDefect hdefect shell₁).symm.trans heq
      exact ⟨hs₁, .inr (.inl ⟨fault, rfl, hfault, hdefect, hexecute⟩)⟩
    · obtain ⟨hs', hsettled⟩ := settle_of_not_isDefect hP hs₁ hfault hdefect heq
      exact ⟨hs', hsettled.imp_right .inr⟩
  · cases heq
    exact ⟨hs₁, .inr (.inr ⟨fault, rfl, hfails⟩)⟩

/--
A line that does not ask to quit is handled, unless a reply or a report fails. There is no
answer only where an evaluation does not finish, or at a defect.
-/
theorem handle_goesOn (fuel : Nat) (replies : Console H) (hquits : ¬ Quits line)
    (hs : P shell.session) :
    (shell.handle fuel replies line = none → Unfinished fuel line shell ∨
      ∃ fault shell', shell.respond fuel replies line = some (.error fault, shell') ∧
        fault.OfLine Q ∧ fault.isDefect = true) ∧
    ∀ result shell', shell.handle fuel replies line = some (result, shell') →
      P shell'.session ∧
      (result = .ok .continue ∨
        ∃ fault, result = .error fault ∧ replies.FailsWith fault shell'.session.host) := by
  obtain ⟨hnone, hsome⟩ := respond_goesOn hP fuel replies hquits hs
  unfold handle
  generalize shell.respond fuel replies line = responded at hnone hsome ⊢
  rcases responded with _ | ⟨answer, shell₁⟩
  · exact ⟨fun _ => .inl (hnone rfl), fun _ _ heq => nomatch heq⟩
  · obtain ⟨hs₁, hanswer⟩ := hsome answer shell₁ rfl
    rcases hanswer with rfl | ⟨fault, rfl, hfault, hdefect, _⟩ | ⟨fault, rfl, hfails⟩
    · refine ⟨fun hnone => (nomatch hnone), fun result shell' heq => ?_⟩
      cases heq
      exact ⟨hs₁, .inl rfl⟩
    · refine ⟨fun _ => .inr ⟨fault, shell₁, rfl, hfault, hdefect⟩, fun result shell' heq => ?_⟩
      cases hfault <;> cases heq
    · refine ⟨fun hnone => (nomatch hnone), fun result shell' heq => ?_⟩
      cases heq
      exact ⟨hs₁, .inr ⟨fault, rfl, hfails⟩⟩

end Handling

theorem execute_of_quits (hquits : Quits line) (shell : Shell H) :
    shell.execute fuel replies line = some (.ok .quit, shell) := by
  unfold execute
  rw [perform_of_quits hquits]
  rfl

theorem respond_of_quits (hquits : Quits line) (shell : Shell H) :
    shell.respond fuel replies line = some (.ok .quit, shell) := by
  unfold respond
  rw [execute_of_quits hquits]
  rfl

/-- The line that asks to quit is answered with `quit`, and nothing else happens. -/
theorem handle_of_quits (hquits : Quits line) (shell : Shell H) :
    shell.handle fuel replies line = some (.ok .quit, shell) := by
  unfold handle
  rw [respond_of_quits hquits]
  rfl

/-- A line goes without an answer only if it asks for too much, or meets with a defect. -/
theorem unfinished_or_defect {shell : Shell H} (h : shell.handle fuel replies line = none) :
    Unfinished fuel line shell ∨
      ∃ fault shell', shell.respond fuel replies line = some (.error fault, shell') ∧
        fault.isDefect = true := by
  have hquits : ¬ Quits line := fun hyes => nomatch (handle_of_quits hyes shell).symm.trans h
  rcases (handle_goesOn Session.persists_true fuel replies hquits trivial).1 h with
    hunfinished | ⟨fault, shell', hrespond, _, hdefect⟩
  · exact .inl hunfinished
  · exact .inr ⟨fault, shell', hrespond, hdefect⟩

theorem result_of_quits {shell shell' : Shell H} {result : Except IoFault Action}
    (h : shell.handle fuel replies line = some (result, shell')) (hquits : Quits line) :
    result = .ok .quit := by
  cases (handle_of_quits hquits shell).symm.trans h
  rfl

section Sound

variable {shell shell' : Shell H} (hs : shell.session.Sound)
include hs

/-- What is performed for a line never meets with a defect. -/
theorem not_isDefect_of_sound {fault : Fault}
    (h : shell.execute fuel replies line = some (.error fault, shell')) :
    fault.isDefect = false := by
  have hquits : ¬ Quits line := fun hyes => nomatch (execute_of_quits hyes shell).symm.trans h
  obtain ⟨_, hresult⟩ := (execute_goesOn Session.persists_sound fuel replies hquits hs).2 _ _ h
  rcases hresult with hok | ⟨source, herror, hfault⟩ | ⟨source, herror, _⟩
  · cases hok
  · cases herror
    exact hfault.isDefect_eq_false
  · cases herror
    rfl

/-- A line goes without an answer only if an evaluation that it asks for does not finish. -/
theorem unfinished_of_sound (h : shell.handle fuel replies line = none) :
    Unfinished fuel line shell := by
  have hquits : ¬ Quits line := fun hyes => nomatch (handle_of_quits hyes shell).symm.trans h
  rcases (handle_goesOn Session.persists_sound fuel replies hquits hs).1 h with
    hunfinished | ⟨fault, _, _, hfault, hdefect⟩
  · exact hunfinished
  · exact absurd hdefect (Bool.eq_false_iff.mp hfault.isDefect_eq_false)

theorem result_of_sound {result : Except IoFault Action}
    (h : shell.handle fuel replies line = some (result, shell')) (hquits : ¬ Quits line) :
    result = .ok .continue ∨
      ∃ fault, result = .error fault ∧ replies.FailsWith fault shell'.session.host :=
  ((handle_goesOn Session.persists_sound fuel replies hquits hs).2 result shell' h).2

end Sound

/-- A line leads from one shell to the other, however it is answered. -/
def Handled (replies : Console H) (shell shell' : Shell H) : Prop :=
  ∃ fuel line result, shell.handle fuel replies line = some (result, shell')

theorem Handled.persists {P : Session H → Prop} {Q : EvalFault → Prop}
    (hP : Session.Persists P Q) {shell shell' : Shell H} (h : Handled replies shell shell')
    (hs : P shell.session) : P shell'.session := by
  obtain ⟨fuel, line, result, h⟩ := h
  by_cases hquits : Quits line
  · rw [handle_of_quits hquits] at h
    cases h
    exact hs
  · exact ((handle_goesOn hP _ _ hquits hs).2 result shell' h).1

theorem persists_of_handled {P : Session H → Prop} {Q : EvalFault → Prop}
    (hP : Session.Persists P Q) {shell shell' : Shell H}
    (h : Relation.ReflTransGen (Handled replies) shell shell') (hs : P shell.session) :
    P shell'.session := by
  induction h with
  | refl =>
      exact hs
  | tail _ hhandled ih =>
      exact hhandled.persists hP ih

end Shell

namespace CommandLine

variable {fuel : Nat} {line : String} {shell : Shell String}

theorem not_failsWith (fault : IoFault) (output : String) : ¬ console.FailsWith fault output := by
  rintro ⟨text, before, h⟩
  cases h

theorem feedLine_of_quits (hquits : Shell.Quits line) :
    feedLine fuel shell line = some (.error ⟨0, shell.session.host, none⟩) := by
  unfold feedLine
  rw [Shell.respond_of_quits hquits]
  rfl

/-- A line ends the run only if it asks to quit, or meets with a defect. -/
theorem feedLine_eq_error {result : Result}
    (h : feedLine fuel shell line = some (.error result)) :
    Shell.Quits line ∧ result = ⟨0, shell.session.host, none⟩ ∨
    ∃ fault shell', shell.execute fuel console line = some (.error fault, shell') ∧
      fault.isDefect = true ∧ result = ⟨101, shell'.session.host, none⟩ := by
  by_cases hquits : Shell.Quits line
  · rw [feedLine_of_quits hquits] at h
    cases h
    exact .inl ⟨hquits, rfl⟩
  · right
    obtain ⟨⟨answer, shell'⟩, hrespond, heq⟩ := Option.map_eq_some_iff.mp h
    obtain ⟨_, hanswer⟩ :=
      (Shell.respond_goesOn Session.persists_true _ _ hquits trivial).2 _ _ hrespond
    rcases hanswer with rfl | ⟨fault, rfl, _, hdefect, hexecute⟩ | ⟨fault, rfl, hfails⟩
    · cases heq
    · refine ⟨fault, shell', hexecute, hdefect, ?_⟩
      rw [afterLine, Result.ofFault, if_pos hdefect] at heq
      exact (Except.error.inj heq).symm
    · exact absurd hfails (not_failsWith fault _)

/-- What comes after the line that quits is not read. -/
theorem feed_append_quit {bytes : Json.Bytes} (hline : Json.StringLiteral.decode? bytes = some line)
    (hquits : Shell.Quits line) (before after : List Json.Bytes) :
    feed fuel shell (before ++ bytes :: after) = feed fuel shell (before ++ [bytes]) := by
  induction before generalizing shell with
  | nil =>
      simp only [List.nil_append, feed, hline, feedLine_of_quits hquits]
  | cons first rest ih =>
      simp only [List.cons_append, feed, ih]

end CommandLine

/--
In every shell that lines lead to from a new one there is one frame, and no call is running.
The next line is answered unless an evaluation that it asks for does not finish: with `quit`
exactly if that is its first word, else by going on, or with the fault of the console that
replies go to. No line meets with a defect. In a shell of any other kind a line may also go
without an answer because it meets with one. When input is fed to a shell, nothing after the
line that quits has an effect, and nothing but such a line or a defect ends the run.
-/
theorem shell_outlives_lines
    {host : H} {console replies : Console H} {loader : Loader} {limit : Nat}
    {natives : List (String × Native H)} {disk : Disk} {settings : ShellSettings}
    {shell : Shell H}
    (hloader : loader.Fits) (hnatives : ∀ native ∈ natives, native.2.Sound)
    (hlines : Relation.ReflTransGen (Shell.Handled replies)
      (Shell.start ((Session.fresh host console loader limit).register natives) disk settings)
      shell) :
    (shell.session.scopes.depth = 1 ∧ shell.session.callDepth = 0) ∧
    (∀ fuel line,
      (shell.handle fuel replies line = none → shell.Unfinished fuel line) ∧
      (∀ result shell', shell.handle fuel replies line = some (result, shell') →
        (Shell.Quits line → result = .ok .quit) ∧
        (¬ Shell.Quits line → result = .ok .continue ∨
          ∃ fault, result = .error fault ∧ replies.FailsWith fault shell'.session.host)) ∧
      (∀ fault shell', shell.execute fuel replies line = some (.error fault, shell') →
        fault.isDefect = false)) ∧
    (∀ fuel (other : Shell H) line, other.handle fuel replies line = none →
      other.Unfinished fuel line ∨
        ∃ fault other', other.respond fuel replies line = some (.error fault, other') ∧
          fault.isDefect = true) ∧
    (∀ fuel (fed : Shell String) bytes line, Json.StringLiteral.decode? bytes = some line →
      Shell.Quits line → ∀ before after,
        CommandLine.feed fuel fed (before ++ bytes :: after) =
          CommandLine.feed fuel fed (before ++ [bytes])) ∧
    (∀ fuel (fed : Shell String) line result,
      CommandLine.feedLine fuel fed line = some (.error result) →
        Shell.Quits line ∧ result = ⟨0, fed.session.host, none⟩ ∨
        ∃ fault fed', fed.execute fuel CommandLine.console line = some (.error fault, fed') ∧
          fault.isDefect = true ∧ result = ⟨101, fed'.session.host, none⟩) := by
  have huntouched :=
    (Session.untouched_fresh host console loader limit).register natives
  have hsound : ((Session.fresh host console loader limit).register natives).Sound := by
    refine Session.Sound.register ⟨hloader, ?_⟩ hnatives
    exact List.forall_mem_singleton.mpr Native.print_sound
  have hrest := Shell.persists_of_handled Session.persists_atRest hlines
    ⟨congrArg Scopes.depth huntouched.scopes, huntouched.callDepth⟩
  have hsound' := Shell.persists_of_handled Session.persists_sound hlines hsound
  refine ⟨⟨hrest.depth, hrest.callDepth⟩, fun fuel line => ?_,
    fun fuel other line => Shell.unfinished_or_defect,
    fun fuel fed bytes line hline hquits => CommandLine.feed_append_quit hline hquits,
    fun fuel fed line result => CommandLine.feedLine_eq_error⟩
  refine ⟨Shell.unfinished_of_sound hsound', fun result shell' h => ?_,
    fun fault shell' => Shell.not_isDefect_of_sound hsound'⟩
  exact ⟨Shell.result_of_quits h, Shell.result_of_sound hsound' h⟩

/-- A shell whose programs cannot write anything. -/
def Shell.mute : Shell String :=
  Shell.start
    (Session.fresh "" ⟨fun _ host => (.error (.host "broken"), host), fun host => (.ok (), host)⟩
      (.ofTable .empty) 10)
    (fun _ => .error .notFound) {}

theorem shell_outlives_lines_mute :
    ∃ shell,
      Shell.mute.handle 5 CommandLine.console "\x7b\"call\":\"print\"\x7d" =
        some (.ok .continue, shell) ∧
      shell.session.scopes.depth = 1 ∧ shell.session.callDepth = 0 ∧
      ∀ result shell', shell.handle 5 CommandLine.console " quit now" = some (result, shell') →
        result = .ok .quit := by
  obtain ⟨shell, hline⟩ : ∃ shell,
      Shell.mute.handle 5 CommandLine.console "\x7b\"call\":\"print\"\x7d" =
        some (.ok .continue, shell) := ⟨_, rfl⟩
  have hlines : Relation.ReflTransGen (Shell.Handled CommandLine.console) Shell.mute shell :=
    .single ⟨5, _, _, hline⟩
  have hnatives : ∀ native ∈ ([] : List (String × Native String)), native.2.Sound :=
    List.forall_mem_nil _
  obtain ⟨⟨hdepth, hcalls⟩, hnext, _⟩ :=
    shell_outlives_lines (Loader.fits_ofTable .empty) hnatives hlines
  obtain ⟨_, hanswer, _⟩ := hnext 5 " quit now"
  exact ⟨shell, hline, hdepth, hcalls, fun result shell' h =>
    (hanswer result shell' h).1 (by decide)⟩

/-- A shell that loads units from files whose extension contains a slash. -/
def Shell.unfit : Shell String :=
  Shell.start (CommandLine.session { importExtension := "a/b" } fun _ => .error .notFound)
    (fun _ => .error .notFound) {}

/--
Where the extension does not fit, the line of an import is never answered, and ends the run.
The line after it has no effect, which it has on its own.
-/
theorem unfit_extension_ends_run :
    ¬ Shell.Quits "\x7b\"import\":\"x\"\x7d" ∧
    (∀ fuel, Shell.unfit.handle fuel CommandLine.console "\x7b\"import\":\"x\"\x7d" = none) ∧
    CommandLine.feed 5 Shell.unfit
        [Json.bytesOf "\x7b\"import\":\"x\"\x7d", Json.bytesOf "true"] =
      some ⟨101, "", none⟩ ∧
    CommandLine.feed 5 Shell.unfit [Json.bytesOf "true"] = some ⟨0, "true\n", none⟩ :=
  ⟨by decide, fun fuel => by rcases fuel with _ | _ | _ <;> rfl, rfl, rfl⟩

end DocScript
