import DocScript.Proofs.Lockstep
import DocScript.Proofs.ReadTrees
import DocScript.Proofs.StatementLines

/-!
# A unit and the lines of its statements

Statements can be run as the code of a unit, or typed into the shell one by one. Both come
to the same, up to the first statement that fails. What differs is that the unit is entered
under its name among the units, and that the shell replies.

Neither can be seen by programs. Evaluation does not look up units by name. Replies go to a
place of their own: programs have a *view* of the host, which replies leave alone, and
functions of the host are respectful of it, that is, they neither look beyond it nor depend
on anything else. So the two evaluations run in lockstep.

**Results.**
* `Lockstep.sharing`: evaluation keeps sessions in agreement.
* `Shell.typed_matches`: statements in a block, and typed one by one.
* `Session.runText_of_code`: what a unit does that has nothing but code.
* `unit_agrees_with_shell`: running statements as a unit agrees with typing them.
-/

namespace DocScript

variable {H K : Type}

/-- A function of the host that does the same wherever the view of the host is the same. -/
def Native.Respects (view : H → K) (console : Console H) (run : Native H) : Prop :=
  ∀ args host host', view host = view host' →
    (run console args host).1 = (run console args host').1 ∧
    view (run console args host).2 = view (run console args host').2

/-- All functions of the host do the same wherever the view of the host is the same. -/
def Session.Respects (view : H → K) (s : Session H) : Prop :=
  ∀ name run, s.functions.get? name = some (.native run) → run.Respects view s.console

theorem Session.respects_id (s : Session H) : s.Respects id := by
  rintro name run _ args host _ rfl
  exact ⟨rfl, rfl⟩

/-- Sessions that differ in what is not viewed of the host, and in a unit of a given name. -/
def Session.AgreesWith (view : H → K) (own : String) (s t : Session H) : Prop :=
  ∃ host programs, t = { s with host, programs } ∧ view host = view s.host ∧
    ∀ name, name ≠ own → programs.get? name = s.programs.get? name

theorem Session.AgreesWith.setHost {view : H → K} {own : String} {s t : Session H}
    (h : s.AgreesWith view own t) {host' : H} (hview : view host' = view t.host) :
    s.AgreesWith view own { t with host := host' } := by
  obtain ⟨host, programs, rfl, hhost, hprograms⟩ := h
  exact ⟨host', programs, rfl, hview.trans hhost, hprograms⟩

/-- To enter a unit changes nothing but the entry of its name. -/
theorem Session.agreesWith_addProgram (view : H → K) (s : Session H) (program : Program) :
    (s.addProgram program).AgreesWith view program.name s := by
  refine ⟨s.host, s.programs, rfl, rfl, fun name hname => ?_⟩
  exact (Table.get?_insert_of_ne s.programs program hname).symm

section Sharing

variable (view : H → K) (own : String)

/-- Names of local variables stay, and sessions agree whose functions respect the view. -/
def Lockstep.sharing : Lockstep H where
  rename := id
  Allowed _ := True
  Rel s t := s.Respects view ∧ s.AgreesWith view own t
  allowed_child _ _ := trivial
  getGlobal := by
    rintro s _ ⟨_, host, programs, rfl, _⟩ name
    rfl
  lookup := by
    rintro s _ ⟨_, host, programs, rfl, _⟩ name
    rfl
  atRoot := by
    rintro s _ ⟨_, host, programs, rfl, _⟩
    rfl
  calls := by
    rintro s _ ⟨_, host, programs, rfl, _⟩
    exact ⟨rfl, rfl⟩
  unknown := by
    rintro s _ name ⟨_, host, programs, rfl, _⟩ hnone
    exact hnone
  native := by
    rintro s _ name run ⟨hrespects, host, programs, rfl, hview, hprograms⟩ hrun
    refine ⟨hrun, fun args => ?_⟩
    obtain ⟨hresult, hhost⟩ := hrespects name run hrun args host s.host hview
    exact ⟨hresult, hrespects, _, programs, rfl, hhost, hprograms⟩
  user := by
    rintro s _ name params body ⟨_, host, programs, rfl, _⟩ hbody
    rw [Params.renameLocals_id, Node.renameLocals_id]
    exact ⟨trivial, hbody⟩
  setGlobal := by
    rintro s _ ⟨hrespects, host, programs, rfl, hview, hprograms⟩ name value
    exact ⟨hrespects, host, programs, rfl, hview, hprograms⟩
  setLocal := by
    rintro s _ ⟨hrespects, host, programs, rfl, hview, hprograms⟩ name value
    exact ⟨hrespects, host, programs, rfl, hview, hprograms⟩
  define := by
    rintro s _ body ⟨hrespects, host, programs, rfl, hview, hprograms⟩ _ name params
    rw [Params.renameLocals_id, Node.renameLocals_id]
    refine ⟨fun other run hrun => ?_, host, programs, rfl, hview, hprograms⟩
    by_cases hother : other = name
    · subst hother
      rw [Session.define, Table.get?_insert_self] at hrun
      cases hrun
    · rw [Session.define, Table.get?_insert_of_ne _ _ hother] at hrun
      exact hrespects other run hrun
  enterScope := by
    rintro s _ ⟨hrespects, host, programs, rfl, hview, hprograms⟩
    exact ⟨hrespects, host, programs, rfl, hview, hprograms⟩
  closeScope := by
    rintro s _ ⟨hrespects, host, programs, rfl, hview, hprograms⟩
    exact ⟨hrespects, host, programs, rfl, hview, hprograms⟩
  called := by
    rintro s _ ⟨hrespects, host, programs, rfl, hview, hprograms⟩ bindings
    rw [Prod.map_id, List.map_id, Session.called_eq, Session.called_eq]
    exact ⟨hrespects, host, programs, rfl, hview, hprograms⟩
  exitCall := by
    rintro s _ ⟨hrespects, host, programs, rfl, hview, hprograms⟩
    exact ⟨hrespects, host, programs, rfl, hview, hprograms⟩
  load := by
    rintro _ s _ _ ⟨hrespects, host, programs, rfl, hview, hprograms⟩
    refine ⟨rfl, fun reference program _ => ⟨?_, fun statement _ => ?_⟩⟩
    · refine ⟨hrespects, host, programs.insert program.name program, rfl, hview, ?_⟩
      intro name hname
      change (programs.insert program.name program).get? name =
        (s.programs.insert program.name program).get? name
      rw [Table.get?_insert, Table.get?_insert, Function.update_apply, Function.update_apply,
        hprograms name hname]
    · exact ⟨trivial, statement.renameLocals_id⟩

variable {view own} {s t : Session H}

/-- Runs that come to the same, in sessions that agree. -/
inductive Run.AgreesWith (view : H → K) (own : String) : Run H → Run H → Prop
  | unfinished : AgreesWith view own none none
  | finished
      {outcome : Outcome} {s t : Session H}
      (hrespects : s.Respects view) (h : s.AgreesWith view own t) :
      AgreesWith view own (some (outcome, s)) (some (outcome, t))

theorem Run.InLockstep.agreesWith {run run' : Run H}
    (h : Run.InLockstep id (Lockstep.sharing view own).Rel run run') :
    run.AgreesWith view own run' := by
  cases h with
  | unfinished =>
      exact .unfinished
  | finished houtcome hst =>
      cases houtcome with
      | same outcome =>
          exact .finished hst.1 hst.2
      | unbound name =>
          exact .finished hst.1 hst.2

/-- Evaluation comes to the same in sessions that agree, and leaves sessions that agree. -/
theorem eval_agreesWith (hrespects : s.Respects view) (h : s.AgreesWith view own t)
    (fuel : Nat) (node : Node) :
    Run.AgreesWith view own (eval fuel node s) (eval fuel node t) := by
  have hrun := (Lockstep.sharing view own).eval_inLockstep fuel node s t trivial ⟨hrespects, h⟩
  rw [show node.renameLocals (Lockstep.sharing view own).rename = node from
    node.renameLocals_id] at hrun
  exact hrun.agreesWith

/-- So do the statements of a block. -/
theorem block_agreesWith (hrespects : s.Respects view) (h : s.AgreesWith view own t)
    (fuel : Nat) (last : Value) (nodes : List Node) :
    Run.AgreesWith view own (Eval.block (eval fuel) last nodes s)
      (Eval.block (eval fuel) last nodes t) := by
  have hsame : nodes.map (Node.renameLocals (Lockstep.sharing view own).rename) = nodes :=
    (Node.renameItems_eq_map id nodes).symm.trans (Node.renameItems_id nodes)
  have hallowed : ∀ node ∈ nodes, (Lockstep.sharing view own).Allowed node :=
    fun _ _ => trivial
  have hrun := Lockstep.block_inLockstep ((Lockstep.sharing view own).eval_inLockstep fuel)
    hallowed last ⟨hrespects, h⟩
  rw [hsame] at hrun
  exact hrun.agreesWith

end Sharing

section Typing

variable {view : H → K} {own : String} {replies : Console H} {shell : Shell H} {fuel : Nat}

/-- Replies that are always written, and that programs do not see. -/
def Console.Unseen (view : H → K) (console : Console H) : Prop :=
  ∀ text host, ∃ host', console.write text host = (.ok (), host') ∧ view host' = view host

/-- Replies are written, and all they change is what programs do not see. -/
theorem Shell.say_unseen (hreplies : replies.Unseen view) (lines : List String)
    (shell : Shell H) :
    ∃ host, say replies lines shell =
        (.ok (), { shell with session := { shell.session with host } }) ∧
      view host = view shell.session.host := by
  induction lines generalizing shell with
  | nil =>
      exact ⟨shell.session.host, rfl, rfl⟩
  | cons line rest ih =>
      obtain ⟨host, hwrite, hview⟩ := hreplies (line ++ "\n") shell.session.host
      obtain ⟨host', hsay, hview'⟩ := ih { shell with session := { shell.session with host } }
      refine ⟨host', ?_, hview'.trans hview⟩
      rw [say, hwrite]
      exact hsay

/--
Types lines into a shell, one after the other, up to the first that is refused. This gives
the fault that it is refused with, and the shell right after the line.
-/
def Shell.typed (fuel : Nat) (replies : Console H) :
    List String → Shell H → Option (Except Fault Unit × Shell H)
  | [], shell => some (.ok (), shell)
  | line :: rest, shell =>
      match shell.execute fuel replies line, shell.respond fuel replies line with
      | some (.ok _, _), some (.ok .continue, shell) => typed fuel replies rest shell
      | some (.error fault, _), some (_, shell) => some (.error fault, shell)
      | _, _ => none

theorem Session.runStatement_of_read {line : String} {document : Json} {node : Node}
    (hread : Json.read line = .ok document) (hnode : Node.ofJson document = .ok node)
    (s : Session H) : s.runStatement fuel line = (eval fuel node s).answer := by
  unfold Session.runStatement Node.read
  simp only [hread, hnode]
  rfl

/-- What typing a statement comes to, by what its evaluation comes to. -/
theorem Shell.typed_cons (fuel : Nat) (shell : Shell H) {line : String} {document : Json}
    {node : Node} (hreplies : replies.Unseen view) (hread : Json.read line = .ok document)
    (hnode : Node.ofJson document = .ok node) (rest : List String) :
    (eval fuel node shell.session = none ∧ shell.typed fuel replies (line :: rest) = none) ∨
    ∃ outcome s host, eval fuel node shell.session = some (outcome, s) ∧
      view host = view s.host ∧
      ((∃ fault, outcome = .failed fault ∧
          shell.typed fuel replies (line :: rest) =
            some (.error (.eval fault), { shell with session := { s with host } })) ∨
        (∀ fault, outcome ≠ .failed fault) ∧
          shell.typed fuel replies (line :: rest) =
            { shell with session := { s with host } }.typed fuel replies rest) := by
  have hperform := Shell.perform_of_read hread fuel shell
  rw [Session.runStatement_of_read hread hnode] at hperform
  simp only [typed, respond, execute, hperform]
  cases heval : eval fuel node shell.session with
  | none =>
      exact .inl ⟨rfl, rfl⟩
  | some finished =>
      obtain ⟨outcome, s⟩ := finished
      right
      cases outcome with
      | failed fault =>
          -- A defect is passed on without a report, so that the host is left as it is.
          by_cases hdefect : (Fault.eval fault).isDefect = true
          · refine ⟨_, s, s.host, rfl, rfl, .inl ⟨fault, rfl, ?_⟩⟩
            simp only [Run.answer, Option.map_some, Outcome.result, showAnswer, refuse, settle,
              if_pos hdefect]
          · obtain ⟨host, hsay, hview⟩ := Shell.say_unseen hreplies
              (faultLines (.eval fault) { shell with session := s }) { shell with session := s }
            refine ⟨_, s, host, rfl, hview, .inl ⟨fault, rfl, ?_⟩⟩
            simp only [Run.answer, Option.map_some, Outcome.result, showAnswer, refuse, settle,
              if_neg hdefect, hsay]
      | value v | returned v =>
          obtain ⟨host, hsay, hview⟩ := Shell.say_unseen hreplies (valueLines v)
            { shell with session := s }
          refine ⟨_, s, host, rfl, hview, .inr ⟨fun _ heq => (nomatch heq), ?_⟩⟩
          simp only [Run.answer, Option.map_some, Outcome.result, showAnswer, reply, settle, hsay]

/-- What a block comes to, and what comes of typing its statements. -/
inductive Shell.Matches (view : H → K) (own : String) :
    Run H → Option (Except Fault Unit × Shell H) → Prop
  | unfinished : Matches view own none none
  | accepted {v : Value} {s : Session H} {shell : Shell H}
      (h : s.AgreesWith view own shell.session) :
      Matches view own (some (.value v, s)) (some (.ok (), shell))
  | refused {fault : EvalFault} {s : Session H} {shell : Shell H}
      (h : s.AgreesWith view own shell.session) :
      Matches view own (some (.failed fault, s)) (some (.error (.eval fault), shell))
  /-- A block ends with a `return`, whatever may be typed after it. -/
  | returned {v : Value} {s : Session H} {typed : Option (Except Fault Unit × Shell H)} :
      Matches view own (some (.returned v, s)) typed

/--
Statements in a block and typed one by one go the same way, up to the first that fails or
returns.
-/
theorem Shell.typed_matches (fuel : Nat) (hreplies : replies.Unseen view)
    {lines : List String} {documents : List Json}
    (hlines : List.Forall₂ (fun line document => Json.read line = .ok document) lines documents)
    {nodes : List Node} (hnodes : Node.ofItems documents = .ok nodes)
    {s : Session H} (hrespects : s.Respects view) (h : s.AgreesWith view own shell.session)
    (last : Value) :
    Shell.Matches view own (Eval.block (eval fuel) last nodes s)
      (shell.typed fuel replies lines) := by
  induction hlines generalizing nodes s shell last with
  | nil =>
      cases hnodes
      exact .accepted h
  | @cons line document lines documents hread _ ih =>
      rw [Node.ofItems, bind_eq_ok_iff] at hnodes
      obtain ⟨node, hnode, htail⟩ := hnodes
      obtain ⟨rest, hrest, heq⟩ := bind_eq_ok_iff.mp htail
      cases heq
      have hrun := eval_agreesWith hrespects h fuel node
      rw [Eval.block]
      rcases Shell.typed_cons fuel shell hreplies hread hnode lines with
        ⟨hnone, htyped⟩ | ⟨outcome, t, host, heval, hview, hcases⟩
      · rw [hnone] at hrun
        generalize eval fuel node s = run at hrun ⊢
        cases hrun
        rw [htyped]
        exact .unfinished
      · rw [heval] at hrun
        generalize eval fuel node s = run at hrun ⊢
        cases hrun with
        | finished hrespects' h' =>
            rcases hcases with ⟨fault, rfl, htyped⟩ | ⟨hok, htyped⟩
            · rw [htyped]
              exact .refused (h'.setHost hview)
            · rw [htyped]
              cases outcome with
              | value v =>
                  exact ih hrest hrespects' (h'.setHost hview) v
              | returned v =>
                  exact .returned
              | failed fault =>
                  exact absurd rfl (hok fault)

end Typing

section Units

variable {fuel : Nat}

theorem Run.answer_settle (run : Run H) : run.settle.answer = run.answer := by
  rcases run with _ | ⟨outcome, s⟩
  · rfl
  · cases outcome <;> rfl

/-- A unit that has nothing but code is entered under its name, and its code runs as a block. -/
theorem Session.runText_of_code {text : String} {code : Json} {statements : List Node}
    (htext : Json.read text = .ok (.object [("code", code)]))
    (hcode : Program.statementsOf (some code) = .ok statements) (s : Session H) :
    s.runText fuel text =
      (Eval.block (eval fuel) .null statements
        (s.addProgram ⟨Program.defaultName, [], [], statements⟩)).answer := by
  have hread : Program.read text = .ok ⟨Program.defaultName, [], [], statements⟩ := by
    unfold Program.read
    rw [htext]
    simp only [Program.ofJson, bind_eq_ok_iff]
    exact ⟨_, rfl, _, rfl, _, rfl, statements, hcode, rfl⟩
  have hprogram : (s.addProgram ⟨Program.defaultName, [], [], statements⟩).programs.get?
      Program.defaultName = some ⟨Program.defaultName, [], [], statements⟩ :=
    Table.get?_insert_self _ _ _
  unfold Session.runText Session.loadText
  simp only [hread, Session.runProgram, Eval.runProgram, hprogram]
  exact Run.answer_settle _

/-- Answers with the same result, in sessions that agree. -/
inductive Answer.AgreesWith {α : Type} (view : H → K) (own : String) :
    Answer H α → Answer H α → Prop
  | unfinished : AgreesWith view own none none
  | answered {result : Except Fault α} {s t : Session H} (h : s.AgreesWith view own t) :
      AgreesWith view own (some (result, s)) (some (result, t))

/-- An answer without the value in it. -/
def Answer.effect {α : Type} (answer : Answer H α) : Answer H Unit :=
  answer.map fun (result, s) => (result.map fun _ => (), s)

theorem Run.AgreesWith.answer {view : H → K} {own : String} {run run' : Run H}
    (h : run.AgreesWith view own run') : Answer.AgreesWith view own run.answer run'.answer := by
  cases h with
  | unfinished =>
      exact .unfinished
  | finished _ h =>
      exact .answered h

/-- The statements of a unit are those of the block that its code stands for, or the code is one. -/
theorem Program.statementsOf_cases {code : Json} {node : Node}
    (hnode : Node.ofJson code = .ok node) :
    (∃ nodes, node = .block nodes ∧ Program.statementsOf (some code) = .ok nodes) ∨
    Program.statementsOf (some code) = .ok [node] := by
  cases code with
  | array items =>
      obtain ⟨nodes, hnodes, rfl⟩ := map_eq_ok_iff.mp hnode
      exact .inl ⟨nodes, rfl, hnodes⟩
  | _ =>
      exact .inr (congrArg (Except.map ([·])) hnode)

/-- A unit whose code is a document agrees with the document run as a statement. -/
theorem Session.runText_agreesWith_runStatement
    {code : Json} {node : Node} {text statement : String}
    (hnode : Node.ofJson code = .ok node) (hstatement : Json.read statement = .ok code)
    (htext : Json.read text = .ok (.object [("code", code)])) (s : Session H) :
    ∃ extra, ∀ fuel, Answer.AgreesWith id Program.defaultName (s.runText fuel text)
      (s.runStatement (fuel + extra) statement) := by
  have hrun (fuel : Nat) (statements : List Node) := block_agreesWith (Session.respects_id _)
    (s.agreesWith_addProgram id ⟨Program.defaultName, [], [], statements⟩) fuel .null statements
  rcases Program.statementsOf_cases hnode with ⟨nodes, rfl, hcode⟩ | hcode
  · -- To evaluate a block takes one more step than to evaluate its statements.
    refine ⟨1, fun fuel => ?_⟩
    rw [Session.runText_of_code htext hcode, Session.runStatement_of_read hstatement hnode]
    exact (hrun fuel nodes).answer
  · refine ⟨0, fun fuel => ?_⟩
    have hsingle := hrun fuel [node]
    simp only [Eval.block, Run.andThen_some_value] at hsingle
    rw [Session.runText_of_code htext hcode, Session.runStatement_of_read hstatement hnode]
    simp only [Eval.block, Run.andThen_some_value]
    exact hsingle.answer

end Units

/--
Statements that run as a unit agree with the same statements typed into a shell on the same
session, if replies never fail and none of the statements returns: neither finishes, or both
accept all of them, or both stop at the same statement with the same fault. The sessions are
then the same, but for the unit itself among the units and for what the replies have made of
the host. A unit with any document for its code, which may return, agrees in this way with
the document run as a statement: it comes to the same value or the same fault.
-/
theorem unit_agrees_with_shell :
    (∀ (view : H → K) (replies : Console H) (shell : Shell H) (lines : List String)
      (documents : List Json) (nodes : List Node) (text : String) (fuel : Nat),
      replies.Unseen view → shell.session.Respects view →
      List.Forall₂ (fun line document => Json.read line = .ok document) lines documents →
      Node.ofItems documents = .ok nodes →
      Json.read text = .ok (.object [("code", .array documents)]) →
      (∀ v s, Eval.block (eval fuel) .null nodes shell.session ≠ some (.returned v, s)) →
      Answer.AgreesWith view Program.defaultName (shell.session.runText fuel text).effect
        ((shell.typed fuel replies lines).map fun (result, shell) => (result, shell.session))) ∧
    ∀ (s : Session H) (code : Json) (node : Node) (text statement : String),
      Node.ofJson code = .ok node → Json.read statement = .ok code →
      Json.read text = .ok (.object [("code", code)]) →
      ∃ extra, ∀ fuel, Answer.AgreesWith id Program.defaultName (s.runText fuel text)
        (s.runStatement (fuel + extra) statement) := by
  constructor
  · intro view replies shell lines documents nodes text fuel hreplies hrespects hlines hnodes htext
      hreturn
    have hadded :=
      shell.session.agreesWith_addProgram view ⟨Program.defaultName, [], [], nodes⟩
    have hmatches := Shell.typed_matches fuel hreplies hlines hnodes
      (s := shell.session.addProgram ⟨Program.defaultName, [], [], nodes⟩) hrespects hadded .null
    have hblock := block_agreesWith
      (s := shell.session.addProgram ⟨Program.defaultName, [], [], nodes⟩) hrespects hadded fuel
      .null nodes
    rw [Session.runText_of_code htext hnodes]
    generalize Eval.block (eval fuel) .null nodes
      (shell.session.addProgram ⟨Program.defaultName, [], [], nodes⟩) = run at hmatches hblock ⊢
    generalize shell.typed fuel replies lines = typed at hmatches ⊢
    cases hmatches with
    | unfinished =>
        exact .unfinished
    | accepted h =>
        exact .answered h
    | refused h =>
        exact .answered h
    | returned =>
        -- The statements return as well where the unit has not been entered.
        generalize hblock' : Eval.block (eval fuel) .null nodes shell.session = run' at hblock
        cases hblock with
        | finished _ _ =>
            exact absurd hblock' (hreturn _ _)
  · intro s code node text statement hnode hstatement htext
    exact s.runText_agreesWith_runStatement hnode hstatement htext

/-- A shell on a host that keeps the output of programs and the replies apart. -/
def Shell.apart : Shell (String × String) :=
  Shell.start
    (Session.fresh ("", "")
      ⟨fun text host => (.ok (), (host.1 ++ text, host.2)), fun host => (.ok (), host)⟩
      (.ofTable .empty) 10)
    (fun _ => .error .notFound) {}

/-- Where its replies go. -/
def Console.aside : Console (String × String) :=
  ⟨fun text host => (.ok (), (host.1, host.2 ++ text)), fun host => (.ok (), host)⟩

/-- The only function of the host is `print`, which does not look at the replies. -/
theorem Shell.respects_apart : Shell.apart.session.Respects Prod.fst := by
  intro name run hrun args host host' hview
  cases List.mem_singleton.mp (Table.mem_of_find hrun)
  exact ⟨rfl, congrArg (· ++ (" ".intercalate (args.map Value.text) ++ "\n")) hview⟩

/-- Two statements, of which the second fails after the first has printed. -/
def Shell.printThenFail : List String :=
  ["\x7b\"call\":\x7b\"name\":\"print\",\"args\":[\"a\"]\x7d\x7d", "\x7b\"var\":\"missing\"\x7d"]

/-- The unit of the two statements. -/
def Program.printThenFailText : String :=
  "\x7b\"code\":[" ++ ",".intercalate Shell.printThenFail ++ "]\x7d"

theorem unit_agrees_with_shell_printThenFail :
    ∃ s shell,
      Shell.apart.session.runText 5 Program.printThenFailText =
        some (.error (.eval (.undefinedGlobal "missing")), s) ∧
      Shell.apart.typed 5 Console.aside Shell.printThenFail =
        some (.error (.eval (.undefinedGlobal "missing")), shell) ∧
      shell.session.host.1 = "a\n" ∧ s.AgreesWith Prod.fst Program.defaultName shell.session := by
  have hagrees := unit_agrees_with_shell.1 Prod.fst Console.aside Shell.apart Shell.printThenFail
    [.object [("call", .object [("args", .array [.string "a"]), ("name", .string "print")])],
      .object [("var", .string "missing")]]
    [.call "print" [.literal (.string "a")], .var "missing"]
    Program.printThenFailText 5 (fun _ _ => ⟨_, rfl, rfl⟩) Shell.respects_apart
    (.cons rfl (.cons rfl .nil)) rfl rfl (fun _ _ h => nomatch h)
  obtain ⟨s, hunit⟩ : ∃ s, Shell.apart.session.runText 5 Program.printThenFailText =
      some (.error (.eval (.undefinedGlobal "missing")), s) := ⟨_, rfl⟩
  obtain ⟨shell, htyped, hprinted⟩ : ∃ shell,
      Shell.apart.typed 5 Console.aside Shell.printThenFail =
        some (.error (.eval (.undefinedGlobal "missing")), shell) ∧
      shell.session.host.1 = "a\n" := ⟨_, rfl, rfl⟩
  rw [hunit, htyped] at hagrees
  cases hagrees with
  | answered h =>
      exact ⟨s, shell, hunit, htyped, hprinted, h⟩

end DocScript
