import DocScript.Proofs.LineCuts
import DocScript.Proofs.OperandOrder

/-!
# The arguments of a line

The command `run` takes its arguments from a text that holds documents one after the other.
It evaluates each before it reads the next, so the first thing that goes wrong decides what
is reported, be it in the text or in the evaluation, and what comes later is not looked at.

Reading and evaluation can be told apart all the same, since what is read does not depend on
what has been evaluated. `Json.Yields` is the reading of some documents and
`Session.evalDocuments` their evaluation. What a call does to its arguments is evaluation of
this kind, as long as none of them returns.

**Results.**
* `Json.Listed.yields_trim`: documents with white space between them are read one by one.
* `Shell.arguments_of_yields`: documents that have been read are evaluated one by one.
* `Shell.arguments_malformed`: what has been evaluated when a document cannot be read.
* `Shell.perform_of_run`: a function is called when its arguments have been evaluated.
* `Session.answer_all`: arguments of a call are evaluated in this way.
-/

namespace DocScript

namespace Json

/-- Documents that are read from a text one after the other, and what is left of it. -/
inductive Yields : Bytes → List Json → Bytes → Prop
  | nil (text : Bytes) :
      Yields text [] text
  | cons
      {text rest₁ rest : Bytes} {document : Json} {documents : List Json}
      (hnext : next text = .ok (some (document, rest₁)))
      (hmore : Yields rest₁ documents rest) :
      Yields text (document :: documents) rest

/-- White space of a document, as characters. -/
def spaceChars : List Char :=
  [' ', '\t', '\n', '\r']

/-- The texts of some documents, with white space before each of them. -/
inductive Listed : List Char → List Json → Prop
  | nil {spaces : List Char} (hspaces : ∀ c ∈ spaces, c ∈ spaceChars) :
      Listed spaces []
  | cons
      {spaces more : List Char} {text : String} {document : Json} {documents : List Json}
      (hsome : spaces ≠ [])
      (hspaces : ∀ c ∈ spaces, c ∈ spaceChars)
      (hread : read text = .ok document)
      (hmore : Listed more documents) :
      Listed (spaces ++ text.toList ++ more) (document :: documents)

section Reading

variable {text rest rest' : Bytes} {document : Json} {documents : List Json} {chars : List Char}

theorem skipSpace_skipSpace (text : Bytes) : skipSpace (skipSpace text) = skipSpace text := by
  obtain ⟨spaces, htext, hspaces⟩ := exists_dropWhile isSpace text
  exact (skipSpace_append hspaces _).symm.trans (congrArg skipSpace htext.symm)

/-- Only white space comes before a document. -/
theorem value_skipSpace {depth : Nat} :
    value depth (skipSpace text) = .ok (document, rest) ↔
      value depth text = .ok (document, rest) := by
  rw [value_eq_ok_iff, value_eq_ok_iff, skipSpace_skipSpace]

/-- A document that is no list, object or string must be told apart from what follows it. -/
theorem next_eq_some_iff :
    next text = .ok (some (document, rest)) ↔
      value maxDepth text = .ok (document, rest) ∧
        ((∃ b ∈ [Byte.openList, Byte.quote, Byte.openObject], (skipSpace text).head? = some b) ∨
          Halts (fun b => !endsDocument b) rest) := by
  rw [next, ← value_skipSpace]
  cases hskip : skipSpace text with
  | nil =>
      simp [value.eq_def, skipSpace]
  | cons b tail =>
      cases hvalue : value maxDepth (b :: tail) with
      | error stop =>
          simp [hvalue]
      | ok result =>
          obtain ⟨found, left⟩ := result
          simp only [hvalue]
          cases left <;> grind [Halts]

/-- What follows a document may be white space or nothing. -/
theorem next_of_value (h : value maxDepth text = .ok (document, rest))
    (hrest : ∀ b ∈ rest.head?, isSpace b = true) : next text = .ok (some (document, rest)) := by
  refine next_eq_some_iff.mpr ⟨h, .inr fun b hb => ?_⟩
  simp [endsDocument, hrest b hb]

theorem exists_of_next (h : next text = .ok (some (document, rest))) :
    ∃ lead b front, text = lead ++ (b :: front ++ rest) ∧ IsSpaces lead ∧ IsVisible b ∧
      EndsVisible (b :: front) ∧
      ∀ spaces rest', IsSpaces spaces → Replaces rest rest' →
        next (spaces ++ (b :: front ++ rest')) = .ok (some (document, rest')) := by
  obtain ⟨hvalue, hends⟩ := next_eq_some_iff.mp h
  obtain ⟨lead, b, front, rfl, hlead, hb, hvisible, hagain⟩ := exists_of_value hvalue
  refine ⟨lead, b, front, rfl, hlead, hb, hvisible, fun spaces rest' hspaces hrest => ?_⟩
  refine next_eq_some_iff.mpr ⟨hagain spaces rest' hspaces hrest, hends.imp ?_ ?_⟩
  · rw [skipSpace_append hlead, skipSpace_append hspaces, List.cons_append,
      skipSpace_of_isVisible hb, List.cons_append, skipSpace_of_isVisible hb]
    exact id
  · exact hrest.halts fun c hc => by simp [endsDocument, hc]

/-- Some documents take up a front part of the text, as one document does. -/
theorem Yields.exists_of_ne_nil (h : Yields text documents rest) (hsome : documents ≠ []) :
    ∃ lead b front, text = lead ++ (b :: front ++ rest) ∧ IsSpaces lead ∧ IsVisible b ∧
      EndsVisible (b :: front) ∧
      ∀ spaces rest', IsSpaces spaces → Replaces rest rest' →
        Yields (spaces ++ (b :: front ++ rest')) documents rest' := by
  induction h with
  | nil text =>
      exact absurd rfl hsome
  | cons hnext hmore ih =>
      obtain ⟨lead, b, front, rfl, hlead, hb, hvisible, hagain⟩ := exists_of_next hnext
      cases hmore with
      | nil =>
          exact ⟨lead, b, front, rfl, hlead, hb, hvisible, fun spaces rest' hspaces hrest =>
            .cons (hagain spaces rest' hspaces hrest) (.nil rest')⟩
      | cons hnext' hmore' =>
          obtain ⟨lead', b', front', rfl, hlead', -, hvisible', hagain'⟩ :=
            ih (List.cons_ne_nil _ _)
          refine ⟨lead, b, front ++ (lead' ++ b' :: front'), by simp, hlead, hb, ?_,
            fun spaces rest' hspaces hrest => ?_⟩
          · rw [← List.cons_append]
            exact (hvisible'.of_right (by simp)).of_right (by simp)
          · -- The white space between two documents belongs to the second.
            have hfirst := hagain spaces _ hspaces ((hrest.append (b' :: front')).append lead')
            rw [← List.cons_append, List.append_assoc, List.append_assoc]
            exact .cons hfirst (hagain' lead' rest' hlead' hrest)

/-- White space of a document takes one byte a character. -/
theorem utf8EncodeChar_of_space {c : Char} (h : c ∈ spaceChars) :
    ∃ b, String.utf8EncodeChar c = [b] ∧ isSpace b = true := by
  simp only [spaceChars, List.mem_cons, List.not_mem_nil, or_false] at h
  rcases h with rfl | rfl | rfl | rfl <;> exact ⟨_, rfl, rfl⟩

theorem IsSpaces.append (h : IsSpaces rest) (h' : IsSpaces rest') : IsSpaces (rest ++ rest') :=
  fun b hb => (List.mem_append.mp hb).elim (h b) (h' b)

theorem isSpaces_encode (h : ∀ c ∈ chars, c ∈ spaceChars) : IsSpaces (encode chars) := by
  intro b hb
  obtain ⟨c, hc, hbyte⟩ := List.mem_flatMap.mp hb
  obtain ⟨space, hone, hspace⟩ := utf8EncodeChar_of_space (h c hc)
  rw [hone, List.mem_singleton] at hbyte
  exact hbyte ▸ hspace

/-- After a text of a list comes white space, or nothing. -/
theorem Listed.isSpace_head (h : Listed chars documents) :
    ∀ b ∈ (encode chars).head?, isSpace b = true := by
  intro b hb
  cases h with
  | nil hspaces =>
      exact isSpaces_encode hspaces b (List.mem_of_head? hb)
  | cons hsome hspaces hread hmore =>
      obtain ⟨c, spaces, rfl⟩ := List.exists_cons_of_ne_nil hsome
      obtain ⟨space, hone, hspace⟩ := utf8EncodeChar_of_space (hspaces c List.mem_cons_self)
      rw [List.append_assoc, List.cons_append, encode_cons, hone] at hb
      cases hb
      exact hspace

/-- A list of texts is read text by text, and white space is left. -/
theorem Listed.yields (h : Listed chars documents) {spaces : Bytes} (hspaces : IsSpaces spaces) :
    ∃ rest, Yields (spaces ++ encode chars) documents rest ∧ IsSpaces rest := by
  induction h generalizing spaces with
  | @nil lead hlead =>
      exact ⟨spaces ++ encode lead, .nil _, hspaces.append (isSpaces_encode hlead)⟩
  | @cons lead more text document documents hsome hlead hread hmore ih =>
      obtain ⟨trail, hvalue, htrail⟩ := read_eq_ok_iff.mp hread
      obtain ⟨rest, hyields, hrest⟩ := ih htrail
      obtain ⟨inner, b, front, htext, hinner, -, -, hagain⟩ := exists_of_value hvalue
      -- The white space that ends the text and what comes after the text start with white space.
      have hends : ∀ b ∈ (trail ++ encode more).head?, isSpace b = true := by
        cases trail with
        | nil =>
            exact hmore.isSpace_head
        | cons c trail =>
            exact fun b hb => Option.mem_some.mp hb ▸ htrail c List.mem_cons_self
      have hbefore : IsSpaces (spaces ++ encode lead ++ inner) :=
        (hspaces.append (isSpaces_encode hlead)).append hinner
      have hnext := next_of_value (hagain _ _ hbefore (.inr hends)) hends
      refine ⟨rest, .cons ?_ hyields, hrest⟩
      rw [encode_append, encode_append, htext]
      simpa using hnext

/-- Trimming a list of texts leaves nothing over after the last of them. -/
theorem Listed.yields_trim (h : Listed chars documents) :
    Yields (encode (Text.trim chars)) documents [] := by
  obtain ⟨rest, hyields, hrest⟩ := h.yields isSpaces_nil
  by_cases hsome : documents = []
  · subst hsome
    cases hyields
    have htrim : Text.trim chars = [] := by
      rw [Text.trim, Text.trimStart_of_blank (blank_of_isSpaces hrest)]
      rfl
    rw [htrim]
    exact .nil []
  · obtain ⟨lead, b, front, hchars, hlead, hb, hvisible, hagain⟩ := hyields.exists_of_ne_nil hsome
    rw [encode_trim hlead hrest hb hvisible hchars]
    simpa using hagain [] [] isSpaces_nil (replaces_nil rest)

end Reading

end Json

variable {H α β : Type} {fuel rounds : Nat} {s s' : Session H} {documents : List Json}

/-- Goes on with what a request is answered with, unless it fails. -/
def Answer.andThen (answer : Answer H α) (next : α → Session H → Answer H β) : Answer H β :=
  match answer with
  | none => none
  | some (.error fault, s) => some (.error fault, s)
  | some (.ok a, s) => next a s

/-- Evaluates documents one after the other. -/
def Session.evalDocuments (fuel : Nat) : List Json → Session H → Answer H (List Value)
  | [], s => some (.ok [], s)
  | document :: rest, s =>
      Answer.andThen (s.evalDocument fuel document) fun value s =>
        Answer.andThen (evalDocuments fuel rest s) fun values s => some (.ok (value :: values), s)

/-- What is wrong with the next document of a text: it is no document, or it is no tree. -/
inductive Json.NextRefused (whole rest : Json.Bytes) : Malformed → Prop
  | text {stop : Stop} (h : next rest = .error stop) :
      NextRefused whole rest (.notJson (stop.toFault whole))
  | tree {document : Json} {beyond : Bytes} {source : Malformed}
      (h : next rest = .ok (some (document, beyond)))
      (htree : Node.ofJson document = .error source) :
      NextRefused whole rest source

theorem Answer.andThen_eq_error {answer : Answer H α} {next : α → Session H → Answer H β}
    {fault : Fault} (h : answer.andThen next = some (.error fault, s')) :
    answer = some (.error fault, s') ∨
      ∃ a s₁, answer = some (.ok a, s₁) ∧ next a s₁ = some (.error fault, s') := by
  rcases answer with _ | ⟨_ | a, s₁⟩
  · cases h
  · cases h
    exact .inl rfl
  · exact .inr ⟨a, s₁, rfl, h⟩

/-- Evaluation does not find a document malformed. -/
theorem Session.evalDocument_malformed {document : Json} {source : Malformed}
    (h : s.evalDocument fuel document = some (.error (.malformed source), s')) :
    Node.ofJson document = .error source ∧ s' = s := by
  unfold evalDocument at h
  cases hnode : Node.ofJson document with
  | error defect =>
      rw [hnode] at h
      cases h
      exact ⟨rfl, rfl⟩
  | ok node =>
      rw [hnode] at h
      obtain ⟨⟨outcome, s₁⟩, -, heq⟩ := Option.map_eq_some_iff.mp h
      cases outcome <;> cases heq

namespace Shell

variable {whole text rest : Json.Bytes}

theorem arguments_succ :
    arguments fuel whole (rounds + 1) text s =
      match Json.next text with
      | .error stop => some (.error (.malformed (.notJson (stop.toFault whole))), s)
      | .ok none => some (.ok [], s)
      | .ok (some (document, rest)) =>
          Answer.andThen (s.evalDocument fuel document) fun value s =>
            Answer.andThen (arguments fuel whole rounds rest s) fun values s =>
              some (.ok (value :: values), s) := by
  rw [arguments]
  rcases Json.next text with stop | _ | ⟨document, rest⟩
  · rfl
  · rfl
  · simp only [Answer.andThen]
    rcases s.evalDocument fuel document with _ | ⟨_ | value, s₁⟩
    · rfl
    · rfl
    · dsimp only
      rcases arguments fuel whole rounds rest s₁ with _ | ⟨_ | values, s₂⟩ <;> rfl

/-- When all of a text has been read as documents, they are evaluated in order. -/
theorem arguments_of_yields (h : Json.Yields text documents rest)
    (hend : Json.next rest = .ok none) (hrounds : documents.length < rounds) :
    arguments fuel whole rounds text s = s.evalDocuments fuel documents := by
  induction h generalizing rounds s with
  | nil text =>
      obtain ⟨rounds, rfl⟩ := Nat.exists_eq_add_of_lt hrounds
      rw [arguments_succ, hend]
      rfl
  | cons hnext hmore ih =>
      cases rounds with
      | zero =>
          cases hrounds
      | succ rounds =>
          rw [arguments_succ, hnext]
          simp only [ih hend (Nat.lt_of_succ_lt_succ hrounds)]
          rfl

/-- When a document is malformed, those before it have been evaluated, and nothing else. -/
theorem arguments_malformed {source : Malformed}
    (h : arguments fuel whole rounds text s = some (.error (.malformed source), s')) :
    ∃ documents rest values, Json.Yields text documents rest ∧
      s.evalDocuments fuel documents = some (.ok values, s') ∧
      Json.NextRefused whole rest source := by
  induction rounds generalizing text s with
  | zero =>
      cases h
  | succ rounds ih =>
      rw [arguments_succ] at h
      split at h
      · rename_i stop hnext
        cases h
        exact ⟨[], text, [], .nil text, rfl, .text hnext⟩
      · cases h
      · rename_i document rest hnext
        rcases Answer.andThen_eq_error h with hfirst | ⟨value, s₁, hfirst, hothers⟩
        · obtain ⟨htree, rfl⟩ := Session.evalDocument_malformed hfirst
          exact ⟨[], text, [], .nil text, rfl, .tree hnext htree⟩
        · rcases Answer.andThen_eq_error hothers with hothers | ⟨values, s₂, -, hcons⟩
          · obtain ⟨documents, rest', values, hyields, heval, hrefused⟩ := ih hothers
            refine ⟨document :: documents, rest', value :: values, .cons hnext hyields, ?_,
              hrefused⟩
            rw [Session.evalDocuments, hfirst]
            simp only [Answer.andThen, heval]
          · cases hcons

/-- The function that a line calls, when its first word is `run`. -/
def functionOf (line : String) : String :=
  String.ofList (Text.splitWord (restOf line)).1

/-- The text that the arguments of the call are read from. -/
def argumentsOf (line : String) : Json.Bytes :=
  Json.bytesOf (String.ofList (Text.splitWord (restOf line)).2)

/-- The arguments of a line are evaluated, and then the function is called. -/
theorem perform_of_run {line : String} (hrun : commandOf line = some .run) (fuel : Nat)
    (shell : Shell H) :
    shell.perform fuel line =
      if functionOf line = "" then refuse (.usage .run) shell
      else
        showAnswer
          ((arguments fuel (argumentsOf line) ((argumentsOf line).length + 1) (argumentsOf line)
            shell.session).andThen fun args s => s.invoke fuel (functionOf line) args)
          shell := by
  rw [perform_of_commandOf hrun, performCommand, performRun]
  simp only [functionOf, argumentsOf]
  generalize arguments fuel _ _ _ shell.session = answer
  refine if_congr Iff.rfl rfl ?_
  rcases answer with _ | ⟨_ | args, s⟩
  · rfl
  · rfl
  · rfl

end Shell

/-- The arguments of a call are evaluated one after the other, if none returns. -/
theorem Session.answer_all {nodes : List Node} {next : List Value → Session H → Run H}
    (hnodes : Node.ofItems documents = .ok nodes)
    (hreturns : ∀ v s', ¬ Stops nodes s (.returned v) s') (done : List Value) :
    (Eval.all (eval fuel) next done nodes s).answer =
      (s.evalDocuments fuel documents).andThen fun values s =>
        (next (done.reverse ++ values) s).answer := by
  induction documents generalizing nodes done s with
  | nil =>
      cases hnodes
      simp only [evalDocuments, Answer.andThen, Eval.all, List.append_nil]
  | cons document documents ih =>
      simp only [Node.ofItems, bind_eq_ok_iff] at hnodes
      obtain ⟨node, hnode, others, hothers, heq⟩ := hnodes
      cases heq
      have hdocument : s.evalDocument fuel document = (eval fuel node s).answer := by
        simp only [evalDocument, hnode, evalNode]
      rw [evalDocuments, hdocument, Eval.all]
      cases heval : eval fuel node s with
      | none =>
          rfl
      | some finished =>
          obtain ⟨outcome, s₁⟩ := finished
          cases outcome with
          | value v =>
              have hlater : ∀ w s₂, ¬ Stops others s₁ (.returned w) s₂ := fun w s₂ hstops =>
                hreturns w s₂ (.later ⟨fuel, heval⟩ hstops)
              rw [Run.andThen_value, ih hothers hlater]
              change _ = Answer.andThen (Answer.andThen (s₁.evalDocuments fuel documents) _) _
              rcases s₁.evalDocuments fuel documents with _ | ⟨_ | values, s₂⟩
              · rfl
              · rfl
              · simp [Answer.andThen]
          | failed fault =>
              rfl
          | returned v =>
              -- A return would end the call, and be a value to the shell.
              refine absurd (.here ⟨fuel, heval⟩ fun w hvalue => ?_) (hreturns v s₁)
              cases hvalue

end DocScript
