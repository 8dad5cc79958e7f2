import DocScript.Proofs.ArgumentStreams
import DocScript.Proofs.BatchLines

/-!
# Calling a function from the shell

The line `run NAME` with documents after it and the construct that calls a function are two
ways to the same call. The shell reads and evaluates its arguments one by one and then calls
the function itself; the construct is read as a whole, is checked as a whole, and is a
statement like any other. When all documents are well-formed, there is nothing in the text for
the shell to stumble over between two evaluations, so it makes no difference that the construct
has been checked before. They differ only where an argument returns: a construct of which a
part returns calls nothing.

**Results.**
* `Json.Yields.length_le`: there are rounds enough for the documents of a text.
* `Shell.perform_run`: what the shell does.
* `run_agrees_with_call_construct`: the two agree.
-/

namespace DocScript

variable {H : Type} {name : String} {documents : List Json} {nodes : List Node}

/-- The document of the construct that calls a function. -/
def Json.callConstruct (name : String) (documents : List Json) : Json :=
  .object [("call", .object [("args", .array documents), ("name", .string name)])]

theorem Node.ofJson_callConstruct (name : String) (hnodes : ofItems documents = .ok nodes) :
    ofJson (.callConstruct name documents) = .ok (.call name nodes) := by
  rw [Json.callConstruct, ofJson, ofConstruct_keyword (.inl rfl : Keyword.call.Names "call")]
  simp [ofKeyword, ofPayload, nameField, argsField, Table.find, optional, hnodes, bind,
    Except.bind, Except.map, pure, Except.pure]

namespace Json

variable {text rest : Bytes} {chars : List Char}

/-- Every document takes at least a byte. -/
theorem Yields.length_le (h : Yields text documents rest) :
    documents.length + rest.length ≤ text.length := by
  induction h with
  | nil text =>
      simp
  | cons hnext hmore ih =>
      obtain ⟨lead, b, front, rfl, -⟩ := exists_of_next hnext
      simp only [List.length_append, List.length_cons] at ih ⊢
      omega

theorem isBlank_of_space {c : Char} (h : c ∈ spaceChars) : Text.isBlank c = true := by
  simp only [spaceChars, List.mem_cons, List.not_mem_nil, or_false] at h
  rcases h with rfl | rfl | rfl | rfl <;> rfl

/-- A list of texts is told apart from a word before it. -/
theorem Listed.halts (h : Listed chars documents) :
    Halts (fun c => !Text.isBlank c) chars := by
  cases h with
  | nil hspaces =>
      exact Text.halts_of_blank fun c hc => isBlank_of_space (hspaces c hc)
  | cons hsome hspaces hread hmore =>
      rw [List.append_assoc]
      exact Text.IsGap.halts ⟨hsome, fun c hc => isBlank_of_space (hspaces c hc)⟩ _

end Json

namespace Shell

variable {fuel : Nat} {shell : Shell H} {line : String} {start gap args : List Char}

/-- The arguments are evaluated one by one, and then the function is called. -/
theorem perform_run
    (hline : line.toList = start ++ "run".toList ++ gap ++ name.toList ++ args)
    (hstart : Text.Blank start) (hgap : Text.IsGap gap) (hname : Text.IsWord name.toList)
    (hargs : Json.Listed args documents) :
    shell.perform fuel line =
      showAnswer ((shell.session.evalDocuments fuel documents).andThen fun values s =>
        s.invoke fuel name values) shell := by
  simp only [List.append_assoc] at hline
  obtain ⟨hrun, hrest⟩ := @commandOf_of_splitWord line .run _ <|
    (congrArg Text.splitWord hline).trans
      (Text.splitWord_append hstart (by decide) (hgap.halts _))
  have hcut : Text.splitWord (restOf line) = (name.toList, Text.trim args) := by
    rw [hrest, Text.splitWord_trim, Text.splitWord_append hgap.2 hname hargs.halts]
  have hfunction : functionOf line = name := by
    rw [functionOf, hcut, String.ofList_toList]
  have htext : argumentsOf line = Json.encode (Text.trim args) := by
    rw [argumentsOf, hcut, Json.bytesOf_eq, String.toList_ofList]
  have hword : name ≠ "" := fun hempty => hname.1 (by rw [hempty]; rfl)
  have hyields := hargs.yields_trim
  have hrounds := Nat.lt_succ_of_le (Nat.le_of_add_right_le hyields.length_le)
  rw [perform_of_run hrun, hfunction, if_neg hword, htext,
    arguments_of_yields hyields rfl hrounds]

theorem execute_congr {fuel' : Nat} {line' : String}
    (h : shell.perform fuel line = shell.perform fuel' line') (console : Console H) :
    shell.execute fuel console line = shell.execute fuel' console line' := by
  simp only [execute, h]

end Shell

/--
A function can be called by a command or by a construct. For arguments that are well-formed
and do not return, the two lines have the same reply, the same fault and the same effect. The
statement takes one more step, for the construct around its arguments.
-/
theorem run_agrees_with_call_construct
    {line call name : String} {start gap args : List Char} {documents : List Json}
    {nodes : List Node}
    (hline : line.toList = start ++ "run".toList ++ gap ++ name.toList ++ args)
    (hstart : Text.Blank start) (hgap : Text.IsGap gap) (hname : Text.IsWord name.toList)
    (hargs : Json.Listed args documents) (hnodes : Node.ofItems documents = .ok nodes)
    (hcall : Json.read call = .ok (.callConstruct name documents)) (shell : Shell H)
    (hreturns : ∀ v s, ¬ Stops nodes shell.session (.returned v) s) (fuel : Nat)
    (console : Console H) :
    shell.execute fuel console line = shell.execute (fuel + 1) console call := by
  have hnode := Node.ofJson_callConstruct name hnodes
  have hall : (Eval.all (eval fuel) (Eval.invoke (eval fuel) name) [] nodes shell.session).answer
      = _ := Session.answer_all hnodes hreturns []
  refine Shell.execute_congr ?_ console
  rw [Shell.perform_run hline hstart hgap hname hargs, Shell.perform_of_read hcall,
    Session.runStatement_of_read hcall hnode]
  exact congrArg (Shell.showAnswer · shell) hall.symm

/-- A line with two arguments, the second of which is an operation. -/
def Shell.runPrint : String :=
  " run \u3000print \"a  b\"\n\t\x7b\"+\":[\"c\", \"d\"]\x7d "

/-- The statement for the same call. -/
def Shell.callPrint : String :=
  "\x7b\"call\":\x7b\"name\":\"print\",\"args\":[\"a  b\",\x7b\"+\":[\"c\",\"d\"]\x7d]\x7d\x7d"

theorem run_agrees_with_call_construct_runPrint :
    ∃ shell, Shell.apart.execute 4 Console.aside Shell.runPrint = some (.ok .continue, shell) ∧
      Shell.apart.execute 5 Console.aside Shell.callPrint = some (.ok .continue, shell) ∧
      shell.session.host = ("a  b cd\n", "") := by
  have hline : Shell.runPrint.toList =
      [' '] ++ "run".toList ++ [' ', '\u3000'] ++ "print".toList
        ++ ([' '] ++ "\"a  b\"".toList
          ++ (['\n', '\t'] ++ "\x7b\"+\":[\"c\", \"d\"]\x7d".toList ++ [' '])) := rfl
  have hargs : Json.Listed _ [.string "a  b", .object [("+", .array [.string "c", .string "d"])]] :=
    .cons (List.cons_ne_nil ' ' []) (by simp [Json.spaceChars]) (rfl : Json.read "\"a  b\"" = _)
      (.cons (List.cons_ne_nil '\n' ['\t']) (by simp [Json.spaceChars])
        (rfl : Json.read "\x7b\"+\":[\"c\", \"d\"]\x7d" = _)
        (@Json.Listed.nil [' '] (by simp [Json.spaceChars])))
  have hreturns : ∀ v s, ¬ Stops
      [.literal (.string "a  b"),
        .operation .add [.literal (.string "c"), .literal (.string "d")]]
      Shell.apart.session (.returned v) s := by
    intro v s hstops
    have hvalues : Finishes (.list
        [.literal (.string "a  b"),
          .operation .add [.literal (.string "c"), .literal (.string "d")]])
        Shell.apart.session (.value (.list [.string "a  b", .string "cd"])) Shell.apart.session :=
      ⟨3, rfl⟩
    have hlist := (finishes_list_iff_stops hstops.ne_value).mpr hstops
    cases (hlist.unique hvalues).1
  have hagrees := run_agrees_with_call_construct hline (by decide) (by decide) (by decide) hargs
    rfl (rfl : Json.read Shell.callPrint = _) Shell.apart hreturns 4 Console.aside
  exact ⟨_, hagrees.trans rfl, rfl, rfl⟩

end DocScript
