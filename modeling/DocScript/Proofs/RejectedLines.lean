import DocScript.Proofs.ArgumentStreams
import DocScript.Proofs.BatchLines

/-!
# Rejected lines

A line is rejected when it is not understood: it is malformed, a command is not used as it
should be, or there is no file to load. Each command finds this out at a moment of its own,
some of them only after a file or a document has been read, but all of them before they have
done anything. A fault of evaluation is no rejection, even if it is about a malformed unit
that was imported, as much may have been done before.

The exception is the command `run`, which evaluates arguments before it has read all of them.
When one is malformed, those before it have been evaluated, and the function is not called.

**Results.**
* `Shell.perform_harmless`: a rejected line leaves the shell as it was, unless it is a `run`.
* `Shell.arguments_of_perform`: what a `run` with a malformed argument has done.
* `rejected_line_changes_nothing`: both, for lines as they are executed.
-/

namespace DocScript

variable {H : Type} {fuel : Nat} {s s' : Session H} {fault : Fault}

/-- A line that comes to this fault has not been understood. -/
def Fault.isRejection : Fault → Bool
  | .malformed _ => true
  | .usage _ => true
  | .load _ => true
  | _ => false

/-- Evaluation does not reject anything. -/
theorem Run.not_isRejection_of_answer {run : Run H} (h : run.answer = some (.error fault, s')) :
    fault.isRejection = false := by
  obtain ⟨⟨outcome, s₁⟩, -, heq⟩ := Option.map_eq_some_iff.mp h
  cases outcome <;> cases heq
  rfl

/-- A document is rejected before it is evaluated. -/
theorem Session.eq_of_evalDocument {document : Json}
    (h : s.evalDocument fuel document = some (.error fault, s'))
    (hfault : fault.isRejection = true) : s' = s := by
  unfold evalDocument at h
  split at h
  · rw [Run.not_isRejection_of_answer h] at hfault
    cases hfault
  · cases h
    rfl

theorem Session.eq_of_runStatement {text : String}
    (h : s.runStatement fuel text = some (.error fault, s'))
    (hfault : fault.isRejection = true) : s' = s := by
  unfold runStatement at h
  split at h
  · rw [Run.not_isRejection_of_answer h] at hfault
    cases hfault
  · cases h
    rfl

/-- A unit is registered after all of it has been read. -/
theorem Session.eq_of_loadFile {disk : Disk} {path : String}
    (h : s.loadFile disk path = (.error fault, s')) : s' = s := by
  unfold loadFile loadText at h
  split at h
  · split at h
    · cases h
    · cases h
      rfl
  · cases h
    rfl

namespace Shell

variable {shell shell' : Shell H} {line : String} {source : Malformed}

/-- What is rejected leaves the shell as it was. -/
def Harmless (shell : Shell H) (performed : Performed H) : Prop :=
  ∀ fault shell', performed = some (.error fault, shell') → fault.isRejection = true →
    shell' = shell

theorem reply_harmless (lines : List String) (shell' : Shell H) :
    shell.Harmless (reply lines shell') := by
  intro fault shell' h
  cases h

theorem none_harmless : shell.Harmless none := by
  intro fault shell' h
  cases h

theorem refuse_harmless (fault : Fault) : shell.Harmless (refuse fault shell) := by
  intro fault' shell' h hfault
  cases h
  rfl

theorem showAnswer_harmless {answer : Answer H Value}
    (h : ∀ fault s', answer = some (.error fault, s') → fault.isRejection = true →
      s' = shell.session) :
    shell.Harmless (showAnswer answer shell) := by
  rcases answer with _ | ⟨source | value, s'⟩
  · exact none_harmless
  · intro fault shell' heq hfault
    cases heq
    rw [h source s' rfl hfault]
  · exact reply_harmless _ _

theorem performEnv_harmless (args : List String) : shell.Harmless (performEnv args shell) := by
  unfold performEnv
  split
  · exact reply_harmless _ _
  · exact reply_harmless _ _
  · split
    · exact reply_harmless _ _
    · exact refuse_harmless _
  · exact reply_harmless _ _
  · exact refuse_harmless _
  · exact refuse_harmless _

theorem performSet_harmless (name json : String) :
    shell.Harmless (performSet fuel name json shell) := by
  unfold performSet
  split
  · exact refuse_harmless _
  · rename_i document _
    cases hanswer : shell.session.evalDocument fuel document with
    | none =>
        exact none_harmless
    | some answered =>
        obtain ⟨source | value, s'⟩ := answered
        · intro fault shell' heq hfault
          cases heq
          rw [Session.eq_of_evalDocument hanswer hfault]
        · exact reply_harmless _ _

theorem performVar_harmless (rest : List Char) :
    shell.Harmless (performVar fuel rest shell) := by
  unfold performVar
  simp only
  split
  · exact reply_harmless _ _
  · split
    · split
      · exact reply_harmless _ _
      · exact refuse_harmless _
    · exact refuse_harmless _
  · split
    · exact performSet_harmless _ _
    · exact refuse_harmless _
  · exact refuse_harmless _

theorem performLoad_harmless (args : List String) : shell.Harmless (performLoad args shell) := by
  unfold performLoad
  split
  · split
    · exact reply_harmless _ _
    · rename_i hload
      rw [Session.eq_of_loadFile hload]
      exact refuse_harmless _
  · exact refuse_harmless _

/-- Every command but one rejects a line before it does anything. -/
theorem performCommand_harmless {command : Command} (hrun : command ≠ .run) (rest : List Char) :
    shell.Harmless (performCommand fuel command rest shell) := by
  cases command with
  | quit =>
      intro fault shell' h
      cases h
  | help | reset | locals | func | list =>
      exact reply_harmless _ _
  | env =>
      exact performEnv_harmless _
  | var =>
      exact performVar_harmless rest
  | load =>
      exact performLoad_harmless _
  | runProg =>
      unfold performCommand
      simp only
      split
      · exact refuse_harmless _
      · refine showAnswer_harmless fun fault s' h hfault => ?_
        rw [Run.not_isRejection_of_answer h] at hfault
        cases hfault
  | run =>
      exact absurd rfl hrun

theorem perform_harmless (fuel : Nat) (shell : Shell H) (hrun : commandOf line ≠ some .run) :
    shell.Harmless (shell.perform fuel line) := by
  unfold perform
  simp only
  split
  · exact reply_harmless _ _
  · split
    · rename_i command hcommand
      exact performCommand_harmless (fun heq => hrun (heq ▸ hcommand)) _
    · exact showAnswer_harmless fun fault s' => Session.eq_of_runStatement

/-- What cannot be written is no rejection. -/
theorem perform_of_execute {console : Console H}
    (h : shell.execute fuel console line = some (.error fault, shell'))
    (hfault : fault.isRejection = true) :
    shell.perform fuel line = some (.error fault, shell') := by
  unfold execute at h
  split at h
  · cases h
  · rename_i hperform
    cases h
    exact hperform
  · split at h
    · cases h
    · cases h
      cases hfault

theorem execute_of_perform (h : shell.perform fuel line = some (.error fault, shell'))
    (console : Console H) : shell.execute fuel console line = some (.error fault, shell') := by
  unfold execute
  rw [h]

theorem exists_of_showAnswer {answer : Answer H Value}
    (h : showAnswer answer shell = some (.error fault, shell')) :
    ∃ s', answer = some (.error fault, s') ∧ shell' = { shell with session := s' } := by
  rcases answer with _ | ⟨source | value, s'⟩
  · cases h
  · cases h
    exact ⟨s', rfl, rfl⟩
  · cases h

/-- A malformed argument is found before the function is called. -/
theorem arguments_of_perform (hrun : commandOf line = some .run)
    (h : shell.perform fuel line = some (.error (.malformed source), shell')) :
    arguments fuel (argumentsOf line) ((argumentsOf line).length + 1) (argumentsOf line)
        shell.session = some (.error (.malformed source), shell'.session) ∧
      shell' = { shell with session := shell'.session } := by
  rw [perform_of_run hrun] at h
  split at h
  · cases h
  · obtain ⟨s', hanswer, rfl⟩ := exists_of_showAnswer h
    rcases Answer.andThen_eq_error hanswer with hargs | ⟨args, s₁, -, hinvoke⟩
    · exact ⟨hargs, rfl⟩
    · cases Run.not_isRejection_of_answer hinvoke

/-- No matter what function a line calls, it is not called if an argument is malformed. -/
theorem perform_of_arguments {line : String} (hrun : commandOf line = some .run)
    (hname : functionOf line ≠ "")
    (h : arguments fuel (argumentsOf line) ((argumentsOf line).length + 1) (argumentsOf line)
      shell.session = some (.error fault, s')) :
    shell.perform fuel line = some (.error fault, { shell with session := s' }) := by
  rw [perform_of_run hrun, if_neg hname, h]
  rfl

end Shell

/--
A line that is rejected changes nothing and has no reply, unless its first word is `run`. If it
is, and an argument is malformed, then the arguments before that one have been evaluated in
order, and nothing else has been done; it makes no difference which function was to be called.
-/
theorem rejected_line_changes_nothing {line : String} {shell shell' : Shell H} {fault : Fault}
    {fuel : Nat} {console : Console H}
    (h : shell.execute fuel console line = some (.error fault, shell')) :
    ((Text.words line.toList).head? ≠ some "run".toList → fault.isRejection = true →
      shell' = shell ∧
      ∀ console', shell.execute fuel console' line = some (.error fault, shell)) ∧
    ∀ source, (Text.words line.toList).head? = some "run".toList → fault = .malformed source →
      (∃ documents rest values,
        Json.Yields (Shell.argumentsOf line) documents rest ∧
        Json.NextRefused (Shell.argumentsOf line) rest source ∧
        shell.session.evalDocuments fuel documents = some (.ok values, shell'.session)) ∧
      shell' = { shell with session := shell'.session } ∧
      ∀ line' console', (Text.words line'.toList).head? = some "run".toList →
        Shell.functionOf line' ≠ "" → Shell.argumentsOf line' = Shell.argumentsOf line →
        shell.execute fuel console' line' = some (.error fault, shell') := by
  refine ⟨fun hword hfault => ?_, ?_⟩
  · have hrun : Shell.commandOf line ≠ some .run := fun hrun =>
      hword (Shell.commandOf_eq_some_iff.mp hrun)
    have hperform := Shell.perform_of_execute h hfault
    cases Shell.perform_harmless fuel shell hrun fault shell' hperform hfault
    exact ⟨rfl, Shell.execute_of_perform hperform⟩
  · rintro source hword rfl
    have hperform := Shell.perform_of_execute h rfl
    obtain ⟨hargs, hshell⟩ :=
      Shell.arguments_of_perform (Shell.commandOf_eq_some_iff.mpr hword) hperform
    obtain ⟨documents, rest, values, hyields, heval, hrefused⟩ := Shell.arguments_malformed hargs
    refine ⟨⟨documents, rest, values, hyields, hrefused, heval⟩, hshell,
      fun line' console' hword' hname htext => ?_⟩
    rw [hshell]
    refine Shell.execute_of_perform (Shell.perform_of_arguments ?_ hname ?_) console'
    · exact Shell.commandOf_eq_some_iff.mpr hword'
    · rw [htext]
      exact hargs

/-- Arguments of a call, of which the first sets a variable and the second is malformed. -/
def Shell.setThenUnknown : String :=
  "\x7b\"set\":\x7b\"name\":\"x\",\"value\":\"a\"\x7d\x7d \x7b\"unknown\":\"b\"\x7d"

theorem rejected_line_changes_nothing_setThenUnknown :
    Shell.apart.execute 4 Console.aside "\x7b\"unknown\":\"b\"\x7d" =
      some (.error (.malformed (.unknown "unknown")), Shell.apart) ∧
    ∃ shell,
      Shell.apart.execute 4 Console.aside ("run print " ++ Shell.setThenUnknown) =
        some (.error (.malformed (.unknown "unknown")), shell) ∧
      Shell.apart.execute 4 Console.aside ("run missing " ++ Shell.setThenUnknown) =
        some (.error (.malformed (.unknown "unknown")), shell) ∧
      shell.session.globals.get? "x" = some (.string "a") ∧ shell.session.host = ("", "") := by
  have hstatement : Shell.apart.execute 4 Console.aside "\x7b\"unknown\":\"b\"\x7d" =
      some (.error (.malformed (.unknown "unknown")), _) := rfl
  obtain ⟨-, hsame⟩ := (rejected_line_changes_nothing hstatement).1 (by decide) rfl
  -- Both lines have the same arguments, and each names a function.
  have htext : Shell.argumentsOf ("run print " ++ Shell.setThenUnknown) =
      Json.bytesOf Shell.setThenUnknown := rfl
  have htext' : Shell.argumentsOf ("run missing " ++ Shell.setThenUnknown) =
      Json.bytesOf Shell.setThenUnknown := rfl
  have hname : Shell.functionOf ("run print " ++ Shell.setThenUnknown) = "print" := rfl
  have hname' : Shell.functionOf ("run missing " ++ Shell.setThenUnknown) = "missing" := rfl
  have hargs : Shell.arguments 4 (Json.bytesOf Shell.setThenUnknown)
      ((Json.bytesOf Shell.setThenUnknown).length + 1) (Json.bytesOf Shell.setThenUnknown)
      Shell.apart.session = some (.error (.malformed (.unknown "unknown")),
        Shell.apart.session.setGlobal "x" (.string "a")) := rfl
  have hrun := Shell.execute_of_perform
    (Shell.perform_of_arguments rfl (by rw [hname]; decide) (htext.symm ▸ hargs)) Console.aside
  obtain ⟨-, -, hother⟩ := (rejected_line_changes_nothing hrun).2 _ rfl rfl
  have hrun' := hother ("run missing " ++ Shell.setThenUnknown) Console.aside rfl
    (by rw [hname']; decide) (htext'.trans htext.symm)
  exact ⟨hsame Console.aside, _, hrun, hrun', rfl, rfl⟩

end DocScript
