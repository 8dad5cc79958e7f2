import DocScript.Proofs.EagerChecks
import DocScript.Shell.Basic

/-!
# What a line of the shell does

A line is blank, a statement or a command, as its first word says. Whatever it is, the
session is left as some requests leave it, and the fault that a line is refused with is one
of evaluation, of reading the line, of a file or of the use of a command. So a property of
sessions that requests keep is kept by lines. Such properties are those that `Persists` is
about.

A line has no answer only if an evaluation that it asks for has none.

**Results.**
* `Text.words_eq`, `Text.head?_words`: the two ways of cutting a line agree on its first word.
* `Shell.commandOf_eq_some_iff`, `Shell.quits_iff`: when a line is a command, and when it asks
  the shell to quit.
* `Shell.perform_of_commandOf`: a command does what a line does that names it.
* `Shell.perform_goesOn`: what a line does that does not ask to quit.
-/

namespace DocScript

namespace Text

/-- Reading a word goes on to where it ends, and then the further words are read. -/
theorem wordsFrom_of_ne_nil {word : List Char} (hword : word ≠ []) (line : List Char) :
    wordsFrom word line = (word.reverse ++ headWord line) :: words (afterWord line) := by
  induction line generalizing word with
  | nil =>
      simp [wordsFrom, headWord, afterWord, hword]
  | cons c rest ih =>
      rw [wordsFrom]
      by_cases hblank : isBlank c = true
      · simp [headWord, afterWord, words, wordsFrom, hblank, hword]
      · rw [if_neg hblank, ih (List.cons_ne_nil c word)]
        simp [headWord, afterWord, hblank]

/-- The words of a line are the one that is cut off first, if there is one, and those after it. -/
theorem words_eq (line : List Char) :
    words line = if (splitWord line).1 = [] then []
      else (splitWord line).1 :: words (afterWord (trimStart line)) := by
  induction line with
  | nil =>
      rfl
  | cons c rest ih =>
      rw [words, wordsFrom]
      by_cases hblank : isBlank c = true
      · have htrim : trimStart (c :: rest) = trimStart rest := by
          simp [trimStart, hblank]
        rw [if_pos hblank, if_pos List.isEmpty_nil, splitWord, htrim]
        exact ih
      · have htrim : trimStart (c :: rest) = c :: rest := by
          simp [trimStart, hblank]
        rw [if_neg hblank, wordsFrom_of_ne_nil (List.cons_ne_nil c []), splitWord, htrim]
        simp [headWord, afterWord, hblank]

/-- The first of all words is the word that is cut off first, if there is one. -/
theorem head?_words (line : List Char) :
    (words line).head? = if (splitWord line).1 = [] then none else some (splitWord line).1 := by
  rw [words_eq]
  split
  · rfl
  · rfl

end Text

theorem Shell.Command.ofName?_eq_some_iff {name : String} {command : Shell.Command} :
    ofName? name = some command ↔ command.name = name := by
  constructor
  · intro h
    have hname := List.find?_some h
    exact of_decide_eq_true hname
  · rintro rfl
    exact ofName?_name command

variable {H : Type}

/-- A fault that a line is refused with, given the faults that evaluation comes to. -/
inductive Fault.OfLine (Q : EvalFault → Prop) : Fault → Prop
  | eval {fault : EvalFault} (h : Q fault) : OfLine Q (.eval fault)
  | malformed (source : Malformed) : OfLine Q (.malformed source)
  | unreadable (path : String) (source : IoFault) : OfLine Q (.load (.unreadable path source))
  | usage (source : UsageFault) : OfLine Q (.usage source)

/-- A property of sessions that a shell keeps, with the faults that evaluation comes to. -/
structure Session.Persists (P : Session H → Prop) (Q : EvalFault → Prop) : Prop where
  started {s s' : Session H} {run : Run H} {outcome : Outcome} :
    P s → s.Starts run → run = some (outcome, s') →
      P s' ∧ ∀ fault, outcome = .failed fault → Q fault
  undefined (name : String) : Q (.undefinedGlobal name)
  setGlobal {s : Session H} : P s → ∀ name value, P (s.setGlobal name value)
  addProgram {s : Session H} {text : String} {program : Program} :
    P s → Program.read text = .ok program → P (s.addProgram program)
  reset {s : Session H} : P s → P s.reset
  setHost {s : Session H} : P s → ∀ host, P { s with host }

namespace Session.Persists

variable {P : Session H → Prop} {Q : EvalFault → Prop} (hP : Persists P Q)
variable {fuel : Nat} {s s' : Session H}

include hP

theorem of_answer {run : Run H} {result : Except Fault Value} (hs : P s) (hstarts : s.Starts run)
    (h : run.answer = some (result, s')) :
    P s' ∧ ∀ fault, result = .error fault → fault.OfLine Q := by
  obtain ⟨⟨outcome, s''⟩, hrun, heq⟩ := Option.map_eq_some_iff.mp h
  cases heq
  obtain ⟨hs', hfault⟩ := hP.started hs hstarts hrun
  refine ⟨hs', fun fault herror => ?_⟩
  cases outcome with
  | failed source =>
      cases herror
      exact .eval (hfault source rfl)
  | _ =>
      cases herror

theorem evalDocument {document : Json} {result : Except Fault Value} (hs : P s)
    (h : s.evalDocument fuel document = some (result, s')) :
    P s' ∧ ∀ fault, result = .error fault → fault.OfLine Q := by
  unfold Session.evalDocument at h
  cases hread : Node.ofJson document with
  | ok node =>
      simp only [hread] at h
      exact hP.of_answer hs (.tree fuel hread) h
  | error source =>
      simp only [hread] at h
      cases h
      exact ⟨hs, fun fault herror => Except.error.inj herror ▸ .malformed source⟩

/-- A statement is evaluated as the document that its text stands for. -/
theorem runStatement {text : String} {result : Except Fault Value} (hs : P s)
    (h : s.runStatement fuel text = some (result, s')) :
    P s' ∧ ∀ fault, result = .error fault → fault.OfLine Q := by
  unfold Session.runStatement Node.read at h
  cases hread : Json.read text with
  | ok document =>
      simp only [hread] at h
      exact hP.evalDocument hs h
  | error source =>
      simp only [hread] at h
      cases h
      exact ⟨hs, fun fault herror => Except.error.inj herror ▸ .malformed _⟩

theorem loadText (hs : P s) (text : String) :
    P (s.loadText text).2 ∧ ∀ fault, (s.loadText text).1 = .error fault → fault.OfLine Q := by
  unfold Session.loadText
  cases hread : Program.read text with
  | ok program =>
      exact ⟨hP.addProgram hs hread, fun _ herror => nomatch herror⟩
  | error source =>
      exact ⟨hs, fun fault herror => Except.error.inj herror ▸ .malformed source⟩

/-- A file is read as a unit, or is to blame itself. -/
theorem loadFile (hs : P s) (disk : Disk) (path : String) :
    P (s.loadFile disk path).2 ∧
      ∀ fault, (s.loadFile disk path).1 = .error fault → fault.OfLine Q := by
  unfold Session.loadFile
  cases disk.readText path with
  | ok text =>
      exact hP.loadText hs text
  | error source =>
      exact ⟨hs, fun fault herror => Except.error.inj herror ▸ .unreadable path source⟩

end Session.Persists

namespace Shell

/-- The command that the first word of a line names. -/
def commandOf (line : String) : Option Command :=
  Command.ofName? (String.ofList (Text.splitWord line.toList).1)

/-- What follows the first word of a line. -/
def restOf (line : String) : List Char :=
  (Text.splitWord line.toList).2

/-- The first word of a line is the one that ends the shell. -/
def Quits (line : String) : Prop :=
  (Text.words line.toList).head? = some "quit".toList

instance (line : String) : Decidable (Quits line) :=
  inferInstanceAs (Decidable (_ = _))

/-- A line is a command when its first word names one. -/
theorem commandOf_eq_some_iff {line : String} {command : Command} :
    commandOf line = some command ↔
      (Text.words line.toList).head? = some command.name.toList := by
  have hname : commandOf line = some command ↔
      (Text.splitWord line.toList).1 = command.name.toList := by
    rw [commandOf, Command.ofName?_eq_some_iff, eq_comm, ← String.toList_inj,
      String.toList_ofList]
  rw [hname, Text.head?_words]
  split
  · rename_i hblank
    rw [hblank]
    cases command <;> simp [Command.name]
  · exact Option.some_inj.symm

/-- The command of a line whose first word is its name, and what it is given. -/
theorem commandOf_of_splitWord {line : String} {command : Command} {rest : List Char}
    (h : Text.splitWord line.toList = (command.name.toList, rest)) :
    commandOf line = some command ∧ restOf line = rest := by
  rw [commandOf, restOf, h, String.ofList_toList]
  exact ⟨command.ofName?_name, rfl⟩

/-- A line asks to quit just if its command is `quit`. -/
theorem quits_iff {line : String} : Quits line ↔ commandOf line = some .quit := by
  rw [commandOf_eq_some_iff]
  rfl

/-- An evaluation that a line asks for does not finish with the fuel that it is given. -/
inductive Unfinished (fuel : Nat) (line : String) (shell : Shell H) : Prop
  | statement
      (hword : commandOf line = none)
      (h : shell.session.runStatement fuel line = none)
  | program
      (hword : commandOf line = some .runProg)
      (h : shell.session.runProgram fuel
        (" ".intercalate ((Text.words (restOf line)).map String.ofList)) = none)
  | value {document : Json}
      (hword : commandOf line = some .var)
      (hread : Json.read
        (String.ofList (Text.splitWord (Text.splitWord (restOf line)).2).2) = .ok document)
      (h : shell.session.evalDocument fuel document = none)
  | arguments {text : Json.Bytes}
      (hword : commandOf line = some .run)
      (htext : text = Json.bytesOf (String.ofList (Text.splitWord (restOf line)).2))
      (h : Shell.arguments fuel text (text.length + 1) text shell.session = none)
  | call {text : Json.Bytes} {args : List Value} {s : Session H}
      (hword : commandOf line = some .run)
      (htext : text = Json.bytesOf (String.ofList (Text.splitWord (restOf line)).2))
      (hargs : Shell.arguments fuel text (text.length + 1) text shell.session = some (.ok args, s))
      (h : s.invoke fuel (String.ofList (Text.splitWord (restOf line)).1) args = none)

/-- A line after which the shell goes on: with a reply, or with a fault to report. -/
inductive GoesOn (P : Session H → Prop) (Q : EvalFault → Prop) (U : Prop) : Performed H → Prop
  | unfinished (h : U) : GoesOn P Q U none
  | replied {lines : List String} {shell : Shell H} (h : P shell.session) :
      GoesOn P Q U (some (.ok (.continue, lines), shell))
  | refused {fault : Fault} {shell : Shell H} (h : P shell.session) (hfault : fault.OfLine Q) :
      GoesOn P Q U (some (.error fault, shell))

section Performing

variable {P : Session H → Prop} {Q : EvalFault → Prop} {U : Prop}
variable {fuel : Nat} {line : String} {shell : Shell H}

theorem reply_goesOn (lines : List String) (hs : P shell.session) :
    GoesOn P Q U (reply lines shell) :=
  .replied hs

theorem refuse_goesOn {fault : Fault} (hs : P shell.session) (hfault : fault.OfLine Q) :
    GoesOn P Q U (refuse fault shell) :=
  .refused hs hfault

/-- A request to the session is answered, refused, or does not finish. -/
theorem showAnswer_goesOn {answer : Answer H Value}
    (hunfinished : answer = none → U)
    (hanswer : ∀ result s', answer = some (result, s') →
      P s' ∧ ∀ fault, result = .error fault → fault.OfLine Q) :
    GoesOn P Q U (showAnswer answer shell) := by
  unfold showAnswer
  cases answer with
  | none =>
      exact .unfinished (hunfinished rfl)
  | some finished =>
      obtain ⟨result, s'⟩ := finished
      obtain ⟨hs', hfault⟩ := hanswer result s' rfl
      cases result with
      | ok value =>
          exact .replied hs'
      | error fault =>
          exact .refused hs' (hfault fault rfl)

theorem performEnv_goesOn (args : List String) (hs : P shell.session) :
    GoesOn P Q U (performEnv args shell) := by
  unfold performEnv
  split
  · exact reply_goesOn _ hs
  · exact reply_goesOn _ hs
  · split
    · exact reply_goesOn _ hs
    · exact refuse_goesOn hs (.usage _)
  · exact reply_goesOn _ hs
  · exact refuse_goesOn hs (.usage _)
  · exact refuse_goesOn hs (.usage _)

variable (hP : Session.Persists P Q)

include hP

theorem performSet_goesOn (name : String) {json : String} (hs : P shell.session)
    (hunfinished : ∀ document, Json.read json = .ok document →
      shell.session.evalDocument fuel document = none → U) :
    GoesOn P Q U (performSet fuel name json shell) := by
  unfold performSet
  cases hread : Json.read json with
  | error fault =>
      exact refuse_goesOn hs (.malformed _)
  | ok document =>
      simp only
      cases hanswer : shell.session.evalDocument fuel document with
      | none =>
          exact .unfinished (hunfinished document hread hanswer)
      | some finished =>
          obtain ⟨result, s'⟩ := finished
          obtain ⟨hs', hfault⟩ := hP.evalDocument hs hanswer
          cases result with
          | ok value =>
              exact .replied (hP.setGlobal hs' name value)
          | error fault =>
              exact .refused hs' (hfault fault rfl)

theorem performVar_goesOn (hword : commandOf line = some .var) (hs : P shell.session) :
    GoesOn P Q (Unfinished fuel line shell) (performVar fuel (restOf line) shell) := by
  unfold performVar
  simp only
  split
  · exact reply_goesOn _ hs
  · split
    · cases hget : shell.session.getGlobal
          (String.ofList (Text.splitWord (Text.splitWord (restOf line)).2).1) with
      | ok value =>
          exact reply_goesOn _ hs
      | error fault =>
          unfold Session.getGlobal at hget
          split at hget
          · cases hget
          · cases hget
            exact refuse_goesOn hs (.eval (hP.undefined _))
    · exact refuse_goesOn hs (.usage _)
  · split
    · exact performSet_goesOn hP _ hs fun document hread hnone => .value hword hread hnone
    · exact refuse_goesOn hs (.usage _)
  · exact refuse_goesOn hs (.usage _)

theorem performLoad_goesOn (args : List String) (hs : P shell.session) :
    GoesOn P Q U (performLoad args shell) := by
  unfold performLoad
  split
  · rename_i path
    have hload := hP.loadFile hs shell.disk path
    generalize shell.session.loadFile shell.disk path = loaded at hload
    obtain ⟨result, s'⟩ := loaded
    obtain ⟨hs', hfault⟩ := hload
    cases result with
    | ok name =>
        exact .replied hs'
    | error fault =>
        exact .refused hs' (hfault fault rfl)
  · exact refuse_goesOn hs (.usage _)

/-- Each argument is evaluated in the session that the one before has left. -/
theorem arguments_persists {whole text : Json.Bytes} {rounds : Nat} {s s' : Session H}
    {result : Except Fault (List Value)} (hs : P s)
    (h : arguments fuel whole rounds text s = some (result, s')) :
    P s' ∧ ∀ fault, result = .error fault → fault.OfLine Q := by
  induction rounds generalizing text s s' result with
  | zero =>
      cases h
      exact ⟨hs, fun _ herror => nomatch herror⟩
  | succ rounds ih =>
      rw [arguments] at h
      split at h
      · cases h
        exact ⟨hs, fun fault herror => Except.error.inj herror ▸ .malformed _⟩
      · cases h
        exact ⟨hs, fun _ herror => nomatch herror⟩
      · rename_i document rest _
        cases hfirst : s.evalDocument fuel document with
        | none =>
            simp only [hfirst] at h
            cases h
        | some finished =>
            obtain ⟨first, s₁⟩ := finished
            obtain ⟨hs₁, hfault⟩ := hP.evalDocument hs hfirst
            simp only [hfirst] at h
            cases first with
            | error fault =>
                cases h
                exact ⟨hs₁, fun _ herror => Except.error.inj herror ▸ hfault fault rfl⟩
            | ok value =>
                cases hrest : arguments fuel whole rounds rest s₁ with
                | none =>
                    simp only [hrest] at h
                    cases h
                | some others =>
                    obtain ⟨values, s₂⟩ := others
                    obtain ⟨hs₂, hfault⟩ := ih hs₁ hrest
                    simp only [hrest] at h
                    cases values with
                    | error fault =>
                        cases h
                        exact ⟨hs₂, fun _ herror => Except.error.inj herror ▸ hfault fault rfl⟩
                    | ok values =>
                        cases h
                        exact ⟨hs₂, fun _ herror => nomatch herror⟩

theorem performRun_goesOn (hword : commandOf line = some .run) (hs : P shell.session) :
    GoesOn P Q (Unfinished fuel line shell) (performRun fuel (restOf line) shell) := by
  unfold performRun
  simp only
  generalize htext : Json.bytesOf (String.ofList (Text.splitWord (restOf line)).2) = text
  split
  · exact refuse_goesOn hs (.usage _)
  · cases hargs : arguments fuel text (text.length + 1) text shell.session with
    | none =>
        exact .unfinished (.arguments hword htext.symm hargs)
    | some finished =>
        obtain ⟨result, s'⟩ := finished
        obtain ⟨hs', hfault⟩ := arguments_persists hP hs hargs
        cases result with
        | error fault =>
            exact .refused hs' (hfault fault rfl)
        | ok args =>
            refine showAnswer_goesOn (fun hnone => .call hword htext.symm hargs hnone) ?_
            exact fun result s'' hanswer => hP.of_answer hs' (.invoke fuel _ args) hanswer

/-- Every command but `quit` goes on. -/
theorem performCommand_goesOn {command : Command} (hword : commandOf line = some command)
    (hquit : command ≠ .quit) (hs : P shell.session) :
    GoesOn P Q (Unfinished fuel line shell) (performCommand fuel command (restOf line) shell) := by
  cases command with
  | quit =>
      exact absurd rfl hquit
  | reset =>
      exact reply_goesOn _ (hP.reset hs)
  | env =>
      exact performEnv_goesOn _ hs
  | var =>
      exact performVar_goesOn hP hword hs
  | load =>
      exact performLoad_goesOn hP _ hs
  | runProg =>
      simp only [performCommand]
      split
      · exact refuse_goesOn hs (.usage _)
      · refine showAnswer_goesOn (fun hnone => .program hword hnone) ?_
        exact fun result s' hanswer => hP.of_answer hs (.runProgram fuel fuel _) hanswer
  | run =>
      exact performRun_goesOn hP hword hs
  | _ =>
      exact reply_goesOn _ hs

/-- A line that does not ask to quit leaves a session with the property, if it is answered. -/
theorem perform_goesOn (fuel : Nat) (hquits : ¬ Quits line) (hs : P shell.session) :
    GoesOn P Q (Unfinished fuel line shell) (shell.perform fuel line) := by
  rw [quits_iff] at hquits
  unfold perform
  simp only
  split
  · exact reply_goesOn _ hs
  · cases hword : commandOf line with
    | some command =>
        rw [commandOf] at hword
        simp only [hword]
        exact performCommand_goesOn hP hword (fun heq => hquits (heq ▸ hword)) hs
    | none =>
        rw [commandOf] at hword
        simp only [hword]
        refine showAnswer_goesOn (fun hnone => .statement hword hnone) ?_
        exact fun result s' hanswer => hP.runStatement hs hanswer

end Performing

/-- A line is performed by the command that its first word names. -/
theorem perform_of_commandOf {line : String} {command : Command}
    (hcommand : commandOf line = some command) (fuel : Nat) (shell : Shell H) :
    shell.perform fuel line = shell.performCommand fuel command (restOf line) := by
  rw [commandOf] at hcommand
  have hword : ¬ (Text.splitWord line.toList).1.isEmpty := by
    intro hempty
    rw [List.isEmpty_iff.mp hempty] at hcommand
    cases hcommand
  unfold perform
  simp only [hcommand, if_neg hword]
  rfl

/-- The line that asks to quit does nothing else. -/
theorem perform_of_quits {line : String} (hquits : Quits line) (fuel : Nat) (shell : Shell H) :
    shell.perform fuel line = some (.ok (.quit, []), shell) :=
  perform_of_commandOf (quits_iff.mp hquits) fuel shell

end Shell

end DocScript
