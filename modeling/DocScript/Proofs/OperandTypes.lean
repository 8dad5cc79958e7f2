import DocScript.Proofs.ValueOrder

/-!
# Operands that are refused

An operator that does not combine two values names their types in its fault. For most
operators the types are indeed what the fault depends on. An order, however, is missing for two
reasons: the types may not fit, or one of two values that fit may be an undefined number, such
as zero divided by zero. The operators that ask for an order do not tell the two apart. They
refuse an undefined number with a fault that names the types of two numbers.

So what an operator refuses is known exactly: what the table of types has no entry for, and
for a comparison the undefined numbers besides. Two pairs of values of the same types are both
refused or both combined, unless a comparison meets an undefined number in just one of them.

**Results.**
* `Value.order_eq_none_of_anyUndefined`: undefined numbers have no order.
* `Operator.apply_eq_error_iff`: which values an operator refuses, and with which fault.
* `refusals_follow_types_iff`: when values of the same types are treated alike.
* `undefined_quotient_refused`: two numbers that a comparison refuses.
-/

namespace DocScript

theorem ValueType.text_inj {t u : ValueType} : t.text = u.text ↔ t = u := by
  refine ⟨?_, congrArg ValueType.text⟩
  cases t <;> cases u <;> decide

namespace Value

/-- One of two values is an undefined number. -/
def AnyUndefined (left right : Value) : Prop :=
  left.isUndefined = true ∨ right.isUndefined = true

instance (left right : Value) : Decidable (AnyUndefined left right) :=
  inferInstanceAs (Decidable (_ ∨ _))

variable {left right : Value}

theorem not_anyUndefined_iff :
    ¬ AnyUndefined left right ↔ left.isUndefined = false ∧ right.isUndefined = false := by
  rw [AnyUndefined, not_or, Bool.not_eq_true, Bool.not_eq_true]

theorem isUndefined_of_rank {rank : List Int} (h : left.rank? = some rank) :
    left.isUndefined = false := by
  cases left with
  | number x =>
      change unpackedRank? x.toModel.unpack = some rank at h
      change x.toModel.unpack.isNaN = false
      cases hnumber : x.toModel.unpack with
      | notANumber =>
          rw [hnumber] at h
          cases h
      | infinity | zero | finite =>
          rfl
  | _ =>
      rfl

/-- Undefined numbers have no order, whatever they are compared with. -/
theorem order_eq_none_of_anyUndefined (h : AnyUndefined left right) : left.order right = none := by
  cases horder : left.order right with
  | none =>
      rfl
  | some ordering =>
      refine absurd h (not_anyUndefined_iff.mpr ?_)
      rcases order_eq_some_iff.mp horder with ⟨s, t, rfl, rfl, -⟩ | ⟨k, l, hk, hl, -⟩
      · exact ⟨rfl, rfl⟩
      · exact ⟨isUndefined_of_rank hk, isUndefined_of_rank hl⟩

end Value

namespace Operator

/-- An operator does not combine two values. -/
def Refuses (op : Operator) (left right : Value) : Prop :=
  ∃ mismatch, op.apply left right = .error mismatch

variable {op : Operator} {left right left' right' : Value} {mismatch : Mismatch}

theorem apply_of_anyUndefined (hop : op.isComparison) (h : Value.AnyUndefined left right) :
    op.apply left right = .error ⟨op, left.type, right.type⟩ := by
  cases op with
  | lt | gt =>
      simp only [apply, Value.order_eq_none_of_anyUndefined h]
  | _ =>
      cases hop

/--
An operator refuses values of types that it has no entry for; a comparison refuses undefined
numbers besides. The fault names the types in either case.
-/
theorem apply_eq_error_iff :
    op.apply left right = .error mismatch ↔
      mismatch = ⟨op, left.type, right.type⟩ ∧
      (op.resultType? left.type right.type = none ∨
        op.isComparison ∧ Value.AnyUndefined left right) := by
  constructor
  · intro h
    refine ⟨apply_eq_error h, ?_⟩
    by_cases hundefined : op.isComparison ∧ Value.AnyUndefined left right
    · exact .inr hundefined
    · refine .inl (resultType?_of_apply_eq_error (fun hop => ?_) h)
      exact Value.not_anyUndefined_iff.mp fun hany => hundefined ⟨hop, hany⟩
  · rintro ⟨rfl, hnone | ⟨hop, hundefined⟩⟩
    · cases happly : op.apply left right with
      | ok v =>
          rw [type_of_apply happly] at hnone
          cases hnone
      | error mismatch =>
          rw [apply_eq_error happly]
    · exact apply_of_anyUndefined hop hundefined

theorem refuses_iff :
    op.Refuses left right ↔
      op.resultType? left.type right.type = none ∨
        op.isComparison ∧ Value.AnyUndefined left right := by
  simp only [Refuses, apply_eq_error_iff, exists_eq_left]

/-- Only a number can be undefined, so an undefined number that fits has a number to meet. -/
theorem isNumeric_of_anyUndefined (hop : op.isComparison) (h : Value.AnyUndefined left right)
    (hfits : op.resultType? left.type right.type ≠ none) :
    left.type.isNumeric ∧ right.type.isNumeric := by
  have htype {v : Value} (hv : v.isUndefined = true) : v.type ≠ .string := by
    intro hstring
    cases v <;> cases hstring
    cases hv
  have htypes : left.type = .string ∧ right.type = .string ∨
      left.type.isNumeric ∧ right.type.isNumeric := by
    by_contra hnot
    exact hfits (by rw [resultType?_of_isComparison hop, if_neg hnot])
  refine htypes.resolve_left fun hstrings => ?_
  rcases h with hleft | hright
  · exact htype hleft hstrings.1
  · exact htype hright hstrings.2

theorem resultType?_of_isNumeric (hop : op.isComparison) (hleft : left.type.isNumeric)
    (hright : right.type.isNumeric) : op.resultType? left.type right.type = some .boolean := by
  rw [resultType?_of_isComparison hop, if_pos (.inr ⟨hleft, hright⟩)]

/-- Where an undefined number makes no difference, types alone decide. -/
theorem refuses_iff_of_types (hleft : left.type = left'.type) (hright : right.type = right'.type) :
    (op.Refuses left right ↔ op.Refuses left' right') ↔
      (op.isComparison → left.type.isNumeric → right.type.isNumeric →
        (Value.AnyUndefined left right ↔ Value.AnyUndefined left' right')) := by
  rw [refuses_iff, refuses_iff, ← hleft, ← hright]
  constructor
  · intro h hop hl hr
    simpa [resultType?_of_isNumeric hop hl hr, hop] using h
  · intro h
    by_cases hfits : op.resultType? left.type right.type = none
    · simp [hfits]
    · simp only [hfits, false_or]
      refine and_congr_right fun hop => ⟨fun hundefined => ?_, fun hundefined => ?_⟩
      · obtain ⟨hl, hr⟩ := isNumeric_of_anyUndefined hop hundefined hfits
        exact (h hop hl hr).mp hundefined
      · rw [hleft, hright] at hfits
        obtain ⟨hl, hr⟩ := isNumeric_of_anyUndefined hop hundefined hfits
        rw [← hleft] at hl
        rw [← hright] at hr
        exact (h hop hl hr).mpr hundefined

/-- What a comparison does not refuse it makes a boolean of. -/
theorem exists_boolean_iff (hop : op.isComparison) :
    (∃ b, op.apply left right = .ok (.boolean b)) ↔ ¬ op.Refuses left right := by
  constructor
  · rintro ⟨b, hok⟩ ⟨mismatch, herror⟩
    rw [hok] at herror
    cases herror
  · intro hrefuses
    cases happly : op.apply left right with
    | error mismatch =>
        exact absurd ⟨mismatch, happly⟩ hrefuses
    | ok v =>
        have htype := type_of_apply happly
        rw [resultType?_of_isComparison hop] at htype
        split at htype
        · obtain ⟨b, rfl⟩ := Value.eq_boolean_of_type (Option.some.inj htype).symm
          exact ⟨b, rfl⟩
        · cases htype

end Operator

/--
Whether an operator refuses two values depends on their types, undefined numbers apart. Of two
pairs with the same names of types, both are refused or none is, exactly unless the operator
compares by order, both sides have numbers, and an undefined number is in one of the pairs and
not in the other. In particular a comparison of two numbers is a boolean just if both numbers
are defined.
-/
theorem refusals_follow_types_iff (op : Operator) :
    (∀ left right left' right' : Value, left.type.text = left'.type.text →
      right.type.text = right'.type.text →
      ((op.Refuses left right ↔ op.Refuses left' right') ↔
        (op.isComparison → left.type.isNumeric → right.type.isNumeric →
          (Value.AnyUndefined left right ↔ Value.AnyUndefined left' right')))) ∧
    (op.isComparison → ∀ x y : Float,
      (∃ b, op.apply (.number x) (.number y) = .ok (.boolean b)) ↔
        x.isNaN = false ∧ y.isNaN = false) := by
  refine ⟨fun left right left' right' hleft hright => ?_, fun hop x y => ?_⟩
  · exact Operator.refuses_iff_of_types (ValueType.text_inj.mp hleft) (ValueType.text_inj.mp hright)
  · have hfits : op.resultType? (Value.number x).type (Value.number y).type = some .boolean :=
      Operator.resultType?_of_isNumeric hop rfl rfl
    rw [Operator.exists_boolean_iff hop, Operator.refuses_iff, hfits]
    simp only [hop, reduceCtorEq, false_or, true_and]
    exact Value.not_anyUndefined_iff

theorem refusals_follow_types_iff_undefinedQuotient :
    ¬ (Operator.gt.Refuses (.boolean true) (.number (0 / 0)) ↔
      Operator.gt.Refuses (.boolean false) (.number 1)) ∧
    (Operator.gt.Refuses (.string "a") (.number (0 / 0)) ↔
      Operator.gt.Refuses (.string "b") (.number 1)) ∧
    ∃ b, Operator.gt.apply (.number 0.5) (.number 1) = .ok (.boolean b) := by
  obtain ⟨htypes, hnumbers⟩ := refusals_follow_types_iff .gt
  refine ⟨fun halike => ?_, ?_, ?_⟩
  · have hsame := (htypes (.boolean true) (.number (0 / 0)) (.boolean false) (.number 1)
      rfl rfl).mp halike rfl rfl rfl
    exact absurd (hsame.mp (by decide)) (by decide)
  · exact (htypes _ _ _ _ rfl rfl).mpr fun _ hstring => nomatch hstring
  · exact (hnumbers rfl 0.5 1).mpr (by decide)

/-- Zero divided by zero, compared with one. -/
def Node.undefinedComparison : Node :=
  .operation .lt
    [.operation .div [.literal (.number 0), .literal (.number 0)], .literal (.number 1)]

/--
A comparison of two numbers that is refused, where zero in place of the undefined number is
not. A program gets there by itself, and the fault then says that numbers cannot be compared
with numbers.
-/
theorem undefined_quotient_refused :
    (Value.number (0 / 0)).type.text = (Value.number 0).type.text ∧
    Operator.lt.Refuses (.number (0 / 0)) (.number 1) ∧
    ¬ Operator.lt.Refuses (.number 0) (.number 1) ∧
    (∀ b, Operator.lt.apply (.number (0 / 0)) (.number 1) ≠ .ok (.boolean b)) ∧
    eval 3 Node.undefinedComparison Session.quiet =
      some (.failed (.mismatch ⟨.lt, .number, .number⟩), Session.quiet) := by
  have hundefined : Operator.lt.apply (.number (0 / 0)) (.number 1) =
      .error ⟨.lt, .number, .number⟩ := by
    rfl
  have hdefined : Operator.lt.apply (.number 0) (.number 1) = .ok (.boolean true) := by
    rfl
  refine ⟨rfl, ⟨_, hundefined⟩, ?_, fun b hok => ?_, rfl⟩
  · rintro ⟨mismatch, herror⟩
    rw [hdefined] at herror
    cases herror
  · rw [hundefined] at hok
    cases hok

end DocScript
