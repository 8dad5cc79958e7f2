import DocScript.Proofs.Finishing

/-!
# Operands first, then the operator or the function

A list, an operation and a call evaluate their trees in the same way: one after the other,
each once, and what is done with the values is done after the last of them has one. So no
operator stops early, and a pair of operands that does not fit is found only when all
operands have had their effects.

Trees that are evaluated one after the other all have values, which is `Values`, or one of
them comes to something else and ends the evaluation, which is `Stops`. Both are said
without what comes after, and the three constructs differ in what comes after alone.

**Results.**
* `Eval.all_cases`: trees have values, or one of them ends the evaluation.
* `Values.finishes_iff`, `Stops.finishes`, `Finishes.operands_cases`: what a construct comes
  to that evaluates its trees first.
* `operands_before_application`: operations and calls agree with lists on their operands.
-/

namespace DocScript

open Filter

variable {H : Type}

/-- One of several trees that are evaluated one after the other comes to no value. -/
inductive Stops : List Node → Session H → Outcome → Session H → Prop
  | here
      {node : Node} {rest : List Node} {outcome : Outcome} {s s₁ : Session H}
      (hnode : Finishes node s outcome s₁)
      (hstop : ∀ v, outcome ≠ .value v) :
      Stops (node :: rest) s outcome s₁
  | later
      {node : Node} {rest : List Node} {v : Value} {outcome : Outcome} {s s₁ s₂ : Session H}
      (hfirst : Finishes node s (.value v) s₁)
      (hrest : Stops rest s₁ outcome s₂) :
      Stops (node :: rest) s outcome s₂

/-- With enough fuel, a call with given arguments comes to an outcome and leaves a session. -/
def CallFinishes (name : String) (args : List Value) (s : Session H) (outcome : Outcome)
    (s' : Session H) : Prop :=
  ∃ fuel, Eval.invoke (eval fuel) name args s = some (outcome, s')

/--
What an operator makes of values: they are combined from the left, starting with the first,
and the first pair that does not fit is a fault.
-/
def Operator.outcome (op : Operator) (first : Value) (rest : List Value) : Outcome :=
  match rest.foldlM op.apply first with
  | .ok v => .value v
  | .error mismatch => .failed (.mismatch mismatch)

theorem Operator.fold_eq_foldlM (op : Operator) (start : Value) (operands : List Value) :
    op.fold start operands = operands.foldlM op.apply start := by
  induction operands generalizing start with
  | nil =>
      rfl
  | cons operand rest ih =>
      rw [fold, List.foldlM_cons]
      cases op.apply start operand with
      | ok combined =>
          exact ih combined
      | error mismatch =>
          rfl

theorem Eval.combine_cons (op : Operator) (first : Value) (rest : List Value) (s : Session H) :
    combine op (first :: rest) s = some (op.outcome first rest, s) := by
  rw [combine, Operator.fold_eq_foldlM, Operator.outcome]
  cases rest.foldlM op.apply first <;> rfl

section Trees

variable {nodes : List Node} {s s' : Session H} {outcome : Outcome}

theorem Stops.ne_value (h : Stops nodes s outcome s') (v : Value) : outcome ≠ .value v := by
  induction h with
  | here _ hstop =>
      exact hstop v
  | later _ _ ih =>
      exact ih

theorem Values.length_eq {vs : List Value} (h : Values nodes s vs s') :
    vs.length = nodes.length := by
  induction h with
  | nil =>
      rfl
  | cons _ _ ih =>
      rw [List.length_cons, List.length_cons, ih]

/--
Trees that are evaluated one after the other have values, which something is done with, or
one of them comes to something else, which ends the evaluation. In either case this does not
depend on what would be done with the values.
-/
theorem Eval.all_cases (fuel : Nat) (nodes : List Node) (done : List Value) (s : Session H) :
    (∀ next, all (eval fuel) next done nodes s = none) ∨
    (∃ vs s₁, Values nodes s vs s₁ ∧
      ∀ next, all (eval fuel) next done nodes s = next (done.reverse ++ vs) s₁) ∨
    (∃ outcome s₁, Stops nodes s outcome s₁ ∧
      ∀ next, all (eval fuel) next done nodes s = some (outcome, s₁)) := by
  induction nodes generalizing done s with
  | nil =>
      refine .inr (.inl ⟨[], s, .nil, fun next => ?_⟩)
      rw [all, List.append_nil]
  | cons node rest ih =>
      simp only [all]
      cases hnode : eval fuel node s with
      | none =>
          exact .inl fun next => rfl
      | some finished =>
          obtain ⟨outcome, s₁⟩ := finished
          cases outcome with
          | value v =>
              simp only [Run.andThen_value]
              rcases ih (v :: done) s₁ with
                hnone | ⟨vs, s₂, hvalues, hall⟩ | ⟨outcome, s₂, hstops, hall⟩
              · exact .inl hnone
              · refine .inr (.inl ⟨v :: vs, s₂, .cons ⟨fuel, hnode⟩ hvalues, fun next => ?_⟩)
                rw [hall, List.reverse_cons, List.append_assoc, List.singleton_append]
              · exact .inr (.inr ⟨outcome, s₂, .later ⟨fuel, hnode⟩ hstops, hall⟩)
          | returned v =>
              exact .inr (.inr ⟨_, s₁, .here ⟨fuel, hnode⟩ (by simp), fun next => rfl⟩)
          | failed fault =>
              exact .inr (.inr ⟨_, s₁, .here ⟨fuel, hnode⟩ (by simp), fun next => rfl⟩)

theorem Stops.eventually_all (h : Stops nodes s outcome s') (done : List Value)
    (next : Nat → List Value → Session H → Run H) :
    ∀ᶠ fuel in atTop, Eval.all (eval fuel) (next fuel) done nodes s = some (outcome, s') := by
  induction h generalizing done with
  | @here node rest outcome s s₁ hnode hstop =>
      filter_upwards [hnode.eventually] with fuel hnode
      rw [Eval.all, hnode]
      cases outcome with
      | value v =>
          exact absurd rfl (hstop v)
      | returned v =>
          rfl
      | failed fault =>
          rfl
  | @later node rest v outcome s s₁ s₂ hfirst _ ih =>
      filter_upwards [hfirst.eventually, ih (v :: done)] with fuel hnode hrest
      rw [Eval.all, hnode, Run.andThen_value, hrest]

end Trees

section Constructs

variable {node : Node} {operands : List Node} {next : Nat → List Value → Session H → Run H}
variable {s s' : Session H} {outcome : Outcome}
-- A construct that evaluates its operands first, and then does something with their values.
variable (hnode : ∀ fuel s,
  eval (fuel + 1) node s = Eval.all (eval fuel) (next fuel) [] operands s)

include hnode

theorem Stops.finishes (h : Stops operands s outcome s') : Finishes node s outcome s' := by
  obtain ⟨fuel, hall⟩ := (h.eventually_all [] next).exists
  exact ⟨fuel + 1, (hnode fuel s).trans hall⟩

/-- Where all operands have values, a construct comes to what it does with them. -/
theorem Values.finishes_iff {vs : List Value} {s₁ : Session H} (h : Values operands s vs s₁) :
    Finishes node s outcome s' ↔ ∀ᶠ fuel in atTop, next fuel vs s₁ = some (outcome, s') := by
  have hall := h.eventually_all [] [] next
  simp only [List.append_nil, Eval.all, List.reverse_reverse] at hall
  refine ⟨fun hfinishes => ?_, fun hnext => ?_⟩
  · filter_upwards [hall, (tendsto_add_atTop_nat 1).eventually hfinishes.eventually]
      with fuel hall heval
    rw [← hall, ← hnode, heval]
  · obtain ⟨fuel, hall, hnext⟩ := (hall.and hnext).exists
    exact ⟨fuel + 1, by rw [hnode, hall, hnext]⟩

/-- A construct that finishes has evaluated all its operands, or one of them has ended it. -/
theorem Finishes.operands_cases (h : Finishes node s outcome s') :
    (∃ vs s₁, Values operands s vs s₁) ∨ Stops operands s outcome s' := by
  obtain ⟨fuel, heval⟩ := h
  cases fuel with
  | zero =>
      cases heval
  | succ fuel =>
      rw [hnode] at heval
      rcases Eval.all_cases fuel operands [] s with
        hnone | ⟨vs, s₁, hvalues, _⟩ | ⟨outcome, s₁, hstops, hall⟩
      · rw [hnone] at heval
        cases heval
      · exact .inl ⟨vs, s₁, hvalues⟩
      · rw [hall] at heval
        cases heval
        exact .inr hstops

end Constructs

section Lists

variable {items : List Node} {s s₁ : Session H}

/-- A list has a value exactly if its items have values one after the other. -/
theorem finishes_list_iff_values {v : Value} :
    Finishes (.list items) s (.value v) s₁ ↔ ∃ vs, v = .list vs ∧ Values items s vs s₁ := by
  refine ⟨fun h => ?_, ?_⟩
  · rcases h.operands_cases (fun fuel s => rfl) with ⟨vs, s₂, hvalues⟩ | hstops
    · obtain ⟨fuel, hnext⟩ := ((hvalues.finishes_iff fun fuel s => rfl).mp h).exists
      cases hnext
      exact ⟨vs, rfl, hvalues⟩
    · exact absurd rfl (hstops.ne_value v)
  · rintro ⟨vs, rfl, hvalues⟩
    exact (hvalues.finishes_iff fun fuel s => rfl).mpr (.of_forall fun fuel => rfl)

/-- A list comes to something else exactly if one of its items does. -/
theorem finishes_list_iff_stops {outcome : Outcome} (hstop : ∀ v, outcome ≠ .value v) :
    Finishes (.list items) s outcome s₁ ↔ Stops items s outcome s₁ := by
  refine ⟨fun h => ?_, fun h => h.finishes fun fuel s => rfl⟩
  rcases h.operands_cases (fun fuel s => rfl) with ⟨vs, s₂, hvalues⟩ | hstops
  · obtain ⟨fuel, hnext⟩ := ((hvalues.finishes_iff fun fuel s => rfl).mp h).exists
    cases hnext
    exact absurd rfl (hstop _)
  · exact hstops

/-- A list finishes if its items have values, or if one of them comes to something else. -/
theorem exists_finishes_list {outcome : Outcome}
    (h : (∃ vs s₁, Values items s vs s₁) ∨ Stops items s outcome s₁) :
    ∃ outcome s₁, Finishes (.list items) s outcome s₁ := by
  rcases h with ⟨vs, s₂, hvalues⟩ | hstops
  · exact ⟨_, s₂, finishes_list_iff_values.mpr ⟨vs, rfl, hvalues⟩⟩
  · exact ⟨outcome, s₁, (finishes_list_iff_stops hstops.ne_value).mpr hstops⟩

end Lists

/-- A call comes to the same with any large amount of fuel. -/
theorem callFinishes_iff_eventually
    {name : String} {args : List Value} {s s' : Session H} {outcome : Outcome} :
    CallFinishes name args s outcome s' ↔
      ∀ᶠ fuel in atTop, Eval.invoke (eval fuel) name args s = some (outcome, s') := by
  refine ⟨?_, fun h => h.exists⟩
  rintro ⟨fuel, hcall⟩
  filter_upwards [eventually_ge_atTop fuel] with fuel' hfuel
  exact Eval.invoke_mono hfuel hcall

/--
Operands are evaluated once each and in order, before any operator or function is applied to
their values. So an operation and a call agree with the list of their operands: where the
list has a value, the operation folds the operator over the items and leaves the same
session, and the call comes to what the function does with the items in that session. Where
the list ends with a `return` or a fault, so do the operation and the call, and where it
never ends, neither do they.
-/
theorem operands_before_application
    (op : Operator) (name : String) (first : Node) (rest : List Node) (s : Session H) :
    (∀ v s₁, Finishes (.list (first :: rest)) s (.value v) s₁ ↔
      ∃ vs, v = .list vs ∧ Values (first :: rest) s vs s₁) ∧
    (∀ vs s₁, Finishes (.list (first :: rest)) s (.value (.list vs)) s₁ →
      (∃ w ws, vs = w :: ws ∧
        Finishes (.operation op (first :: rest)) s (op.outcome w ws) s₁) ∧
      ∀ outcome s', Finishes (.call name (first :: rest)) s outcome s' ↔
        CallFinishes name vs s₁ outcome s') ∧
    (∀ outcome s₁, (∀ v, outcome ≠ .value v) →
      Finishes (.list (first :: rest)) s outcome s₁ →
      Finishes (.operation op (first :: rest)) s outcome s₁ ∧
      Finishes (.call name (first :: rest)) s outcome s₁) ∧
    ((∀ outcome s₁, ¬ Finishes (.list (first :: rest)) s outcome s₁) →
      ∀ outcome s₁, ¬ Finishes (.operation op (first :: rest)) s outcome s₁ ∧
        ¬ Finishes (.call name (first :: rest)) s outcome s₁) := by
  refine ⟨fun v s₁ => finishes_list_iff_values, fun vs s₁ hlist => ?_,
    fun outcome s₁ hstop hlist => ?_, fun hnever outcome s₁ => ⟨fun h => ?_, fun h => ?_⟩⟩
  · obtain ⟨_, heq, hvalues⟩ := finishes_list_iff_values.mp hlist
    cases heq
    refine ⟨?_, fun outcome s' => ?_⟩
    · obtain ⟨w, ws, rfl⟩ := List.exists_cons_of_length_eq_add_one hvalues.length_eq
      refine ⟨w, ws, rfl, (hvalues.finishes_iff fun fuel s => rfl).mpr ?_⟩
      exact .of_forall fun fuel => Eval.combine_cons op w ws s₁
    · rw [callFinishes_iff_eventually]
      exact hvalues.finishes_iff fun fuel s => rfl
  · have hstops := (finishes_list_iff_stops hstop).mp hlist
    exact ⟨hstops.finishes fun fuel s => rfl, hstops.finishes fun fuel s => rfl⟩
  · obtain ⟨outcome, s₂, hlist⟩ := exists_finishes_list (h.operands_cases fun fuel s => rfl)
    exact hnever outcome s₂ hlist
  · obtain ⟨outcome, s₂, hlist⟩ := exists_finishes_list (h.operands_cases fun fuel s => rfl)
    exact hnever outcome s₂ hlist

/-- Operands that set variables, to values that cannot be added. -/
def Node.settingOperands : List Node :=
  [.set "x" (.literal (.boolean true)), .set "y" (.literal (.string "a"))]

/-- The operands do not fit, and both variables are set all the same. -/
theorem operands_before_application_settingOperands :
    ∃ s₁, Finishes (.list Node.settingOperands) Session.quiet
        (.value (.list [.boolean true, .string "a"])) s₁ ∧
      s₁.globals = ⟨[("x", .boolean true), ("y", .string "a")]⟩ ∧
      Finishes (.operation .add Node.settingOperands) Session.quiet
        (.failed (.mismatch ⟨.add, .boolean, .string⟩)) s₁ ∧
      Finishes (.call "print" Node.settingOperands) Session.quiet (.value .null) s₁ := by
  have hlist : Finishes (.list Node.settingOperands) Session.quiet
      (.value (.list [.boolean true, .string "a"])) _ := ⟨3, rfl⟩
  obtain ⟨_, happlied, _⟩ := operands_before_application .add "print"
    (.set "x" (.literal (.boolean true))) [.set "y" (.literal (.string "a"))] Session.quiet
  obtain ⟨⟨w, ws, hvs, hadd⟩, hcall⟩ := happlied _ _ hlist
  cases hvs
  exact ⟨_, hlist, rfl, hadd, (hcall _ _).mpr ⟨0, rfl⟩⟩

end DocScript
