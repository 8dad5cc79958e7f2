import DocScript.Proofs.BatchLines
import DocScript.Proofs.Finishing
import DocScript.Proofs.LineCuts

/-!
# Setting a variable from the shell

The line `var set NAME T` and the construct that sets a variable are two ways to the same
change. The shell cuts the line into words three times, reads what is left as a document,
evaluates it and sets the variable itself; the construct is read as a tree, of which the
document is a part. They differ only where the document returns: to the shell the value that
is returned is a value like any other, and a construct that returns sets nothing.

**Results.**
* `Session.evalDocument_setConstruct`: what the construct does.
* `Shell.perform_var_set`, `Shell.execute_var_set`: what the shell does.
* `var_set_agrees_with_set_construct`: they agree.
-/

namespace DocScript

variable {H : Type} {name : String} {document : Json}

/-- The document of the construct that sets a variable. -/
def Json.setConstruct (name : String) (document : Json) : Json :=
  .object [("set", .object [("name", .string name), ("value", document)])]

/-- A document whose tree returns. -/
def Json.Returns (document : Json) (s : Session H) : Prop :=
  ∃ node v s', Node.ofJson document = .ok node ∧ Finishes node s (.returned v) s'

theorem Node.ofJson_setConstruct (name : String) (document : Json) :
    Node.ofJson (.setConstruct name document) = (Node.ofJson document).map (.set name) := by
  rw [Json.setConstruct, ofJson, ofConstruct_keyword (.inl rfl : Keyword.set.Names "set")]
  cases h : ofJson document <;>
    simp [ofKeyword, ofPayload, nameField, nodeField, Table.find, required, h, bind, Except.bind,
      Except.map, pure, Except.pure]

/-- What becomes of a session when a variable is set to a result, if it is a value. -/
def Session.setResult (name : String) (result : Except Fault Value) (s : Session H) :
    Session H :=
  match result with
  | .ok v => s.setGlobal name v
  | .error _ => s

/-- A document that does not return is evaluated, and then the variable is set. -/
theorem Session.evalDocument_setConstruct {s : Session H} (hreturns : ¬ document.Returns s)
    (fuel : Nat) (name : String) :
    s.evalDocument (fuel + 1) (.setConstruct name document) =
      (s.evalDocument fuel document).map fun (result, s) => (result, s.setResult name result) := by
  unfold evalDocument
  rw [Node.ofJson_setConstruct]
  cases hnode : Node.ofJson document with
  | error source =>
      rfl
  | ok node =>
      change ((eval fuel node s).andThen fun v s => some (.value v, s.setGlobal name v)).answer =
        (eval fuel node s).answer.map _
      cases heval : eval fuel node s with
      | none =>
          rfl
      | some finished =>
          obtain ⟨outcome, s'⟩ := finished
          cases outcome with
          | value v =>
              rfl
          | failed fault =>
              rfl
          | returned v =>
              exact absurd ⟨node, v, s', hnode, fuel, heval⟩ hreturns

namespace Shell

variable {fuel : Nat} {shell : Shell H} {line text : String}

variable {start gap₁ gap₂ gap₃ stop : List Char}

/-- The text of the document comes through the cutting of the line, but for blanks around it. -/
theorem perform_var_set
    (hline : line.toList =
      start ++ "var".toList ++ gap₁ ++ "set".toList ++ gap₂ ++ name.toList ++ gap₃ ++ text.toList
        ++ stop)
    (hstart : Text.Blank start) (hstop : Text.Blank stop)
    (hgaps : ∀ gap ∈ [gap₁, gap₂, gap₃], Text.IsGap gap) (hname : Text.IsWord name.toList)
    (hread : Json.read text = .ok document) (fuel : Nat) (shell : Shell H) :
    shell.perform fuel line =
      shell.performSet fuel name (String.ofList (Text.trim text.toList)) := by
  obtain ⟨hgap₁, hgap₂, hgap₃⟩ : Text.IsGap gap₁ ∧ Text.IsGap gap₂ ∧ Text.IsGap gap₃ := by
    simpa using hgaps
  simp only [List.append_assoc] at hline
  obtain ⟨hvar, hrest⟩ := @commandOf_of_splitWord line .var _ <|
    (congrArg Text.splitWord hline).trans
      (Text.splitWord_append hstart (by decide) (hgap₁.halts _))
  have hset := Text.splitWord_append hgap₁.2 (by decide : Text.IsWord "set".toList)
    (hgap₂.halts (name.toList ++ (gap₃ ++ (text.toList ++ stop))))
  have hcut := Text.splitWord_append hgap₂.2 hname (hgap₃.halts (text.toList ++ stop))
  rw [Text.trim_append hgap₃.2 hstop] at hcut
  have hjson : String.ofList (Text.trim text.toList) ≠ "" := by
    intro hempty
    have htrim := Json.read_trim hread
    rw [hempty] at htrim
    cases htrim
  have hword : name ≠ "" := fun hempty => hname.1 (by rw [hempty]; rfl)
  rw [perform_of_commandOf hvar, hrest, performCommand]
  simp only [performVar, Text.splitWord_trim, hset, hcut, String.ofList_toList]
  exact if_pos ⟨hword, hjson⟩

/-- There is nothing to reply, so the console plays no part. -/
theorem execute_var_set
    (hperform : shell.perform fuel line = shell.performSet fuel name text)
    (hread : Json.read text = .ok document) (console : Console H) :
    shell.execute fuel console line =
      (shell.session.evalDocument fuel document).map fun (result, s) =>
        (result.map fun _ => .continue, { shell with session := s.setResult name result }) := by
  unfold execute performSet at *
  rw [hperform]
  simp only [hread]
  rcases shell.session.evalDocument fuel document with _ | ⟨_ | v, s⟩
  · rfl
  · rfl
  · rfl

end Shell

/--
A variable can be set by a command or by a construct. Whatever blanks the line has between
its words and around them, the command has the effect of the construct and fails as it does,
and it replies with nothing. When it fails, what has been done is what the evaluation of the
document did.
-/
theorem var_set_agrees_with_set_construct
    {line name text : String} {document : Json} {start gap₁ gap₂ gap₃ stop : List Char}
    (hline : line.toList =
      start ++ "var".toList ++ gap₁ ++ "set".toList ++ gap₂ ++ name.toList ++ gap₃ ++ text.toList
        ++ stop)
    (hstart : Text.Blank start) (hstop : Text.Blank stop)
    (hgaps : ∀ gap ∈ [gap₁, gap₂, gap₃], Text.IsGap gap) (hname : Text.IsWord name.toList)
    (hread : Json.read text = .ok document) (shell : Shell H)
    (hreturns : ¬ document.Returns shell.session) (fuel : Nat) (console : Console H) :
    shell.execute fuel console line =
      (shell.session.evalDocument (fuel + 1) (.setConstruct name document)).map
        (fun (result, session) => (result.map fun _ => .continue, { shell with session })) ∧
    ∀ fault shell', shell.execute fuel console line = some (.error fault, shell') →
      shell.session.evalDocument fuel document = some (.error fault, shell'.session) := by
  have hperform := Shell.perform_var_set hline hstart hstop hgaps hname hread fuel shell
  rw [Shell.execute_var_set hperform (Json.read_trim hread),
    Session.evalDocument_setConstruct hreturns]
  refine ⟨by simp [Option.map_map, Function.comp_def], fun fault shell' h => ?_⟩
  obtain ⟨⟨result, s⟩, heval, heq⟩ := Option.map_eq_some_iff.mp h
  cases result with
  | error source =>
      cases heq
      exact heval
  | ok v =>
      cases heq

/-- Blanks of several kinds surround the words, and there are some in the document. -/
def Shell.setGreeting : String :=
  "\t\u3000var \u00a0set\u2003greeting  [ \"a  b\" , \"c\u3000\" ]\u2028 "

theorem var_set_agrees_with_set_construct_setGreeting :
    ∃ shell,
      Shell.apart.execute 4 Console.aside Shell.setGreeting = some (.ok .continue, shell) ∧
      shell.session.globals.get? "greeting" = some (.string "c\u3000") ∧
      shell.session.host = ("", "") := by
  have hline : Shell.setGreeting.toList =
      ['\t', '\u3000'] ++ "var".toList ++ [' ', '\u00a0'] ++ "set".toList ++ ['\u2003']
        ++ "greeting".toList ++ [' ', ' '] ++ "[ \"a  b\" , \"c\u3000\" ]".toList
        ++ ['\u2028', ' '] := rfl
  have hread : Json.read "[ \"a  b\" , \"c\u3000\" ]" =
      .ok (.array [.string "a  b", .string "c\u3000"]) := rfl
  have hreturns : ¬ (Json.array [.string "a  b", .string "c\u3000"]).Returns
      Shell.apart.session := by
    rintro ⟨node, v, s', hnode, hreturned⟩
    cases hnode
    have hvalue : Finishes (.block [.literal (.string "a  b"), .literal (.string "c\u3000")])
        Shell.apart.session (.value (.string "c\u3000")) Shell.apart.session := ⟨3, rfl⟩
    cases (hreturned.unique hvalue).1
  have hagrees := var_set_agrees_with_set_construct hline (by decide) (by decide) (by decide)
    (by decide) hread Shell.apart hreturns 4 Console.aside
  exact ⟨_, hagrees.1.trans rfl, rfl, rfl⟩

end DocScript
