import DocScript.Proofs.OperandOrder

/-!
# Operators on many operands

An operator is folded over its operands from the left. What it makes of many operands cannot
be seen from what it makes of two, as the value that is carried along may change its type: a
comparison turns the first two operands into a boolean, which the third is compared with.

Which operands fit is a matter of types. `Operator.resultType?` is the table of the types
that an operator takes, with the type of what it makes of them, and folding the table over
the types of the operands tells how the fold of the operator goes. Undefined numbers apart,
which have no order, the two agree. On types the fold is easily seen through: after its first
step the type stays as it is, so the step says what each of the later operands has to be.

**Results.**
* `Operator.type_of_fold`, `Operator.fold_typed`: a fold of values and the fold of their types.
* `Operator.foldlM_resultType?_of_stays`: a fold of types after its first step.
* `Operator.fold_cases`: the operand that a fold fails at.
* `operators_fold_in_closed_form`: what each operator makes of a list of operands.
-/

namespace DocScript

open Float.Model (UnpackedFloat)

/-- Types whose values have a number, where booleans count as zero and one. -/
def ValueType.isNumeric : ValueType → Bool
  | .boolean | .number => true
  | _ => false

/-- Types whose values are added to values of the same type. -/
def ValueType.isAdditive : ValueType → Bool
  | .number | .string | .list => true
  | _ => false

namespace Value

/-- A number that is undefined, and so has no order. -/
def isUndefined : Value → Bool
  | .number x => x.isNaN
  | _ => false

/-- Values that are all of one type. -/
def AllOfType (type : ValueType) (values : List Value) : Prop :=
  ∀ v ∈ values, v.type = type

instance (type : ValueType) (values : List Value) : Decidable (AllOfType type values) :=
  inferInstanceAs (Decidable (∀ v ∈ values, v.type = type))

theorem eq_boolean_of_type {v : Value} (h : v.type = .boolean) : ∃ b, v = .boolean b := by
  cases v <;> cases h
  exact ⟨_, rfl⟩

section Order

theorem unpacked_compare_swap (a b : UnpackedFloat) :
    b.compare a = (a.compare b).map Ordering.swap := by
  cases a with
  | notANumber =>
      cases b <;> rfl
  | infinity s =>
      cases b with
      | infinity t =>
          cases s <;> cases t <;> rfl
      | _ =>
          cases s <;> rfl
  | zero s =>
      cases b with
      | infinity t | finite t =>
          cases t <;> rfl
      | _ =>
          rfl
  | finite s m e =>
      cases b with
      | infinity t =>
          cases s <;> cases t <;> rfl
      | finite t n f =>
          have hswap : (compare f e).then (compare n m) =
              ((compare e f).then (compare m n)).swap := by
            rw [Ordering.swap_then, Int.compare_swap, Nat.compare_swap]
          cases s with
          | positive =>
              cases t with
              | positive =>
                  exact congrArg some hswap
              | negative =>
                  rfl
          | negative =>
              cases t with
              | positive =>
                  rfl
              | negative =>
                  -- Of numbers below zero, the one with the larger magnitude is the smaller.
                  exact congrArg (some ·.swap) hswap
      | _ =>
          cases s <;> rfl

theorem unpacked_compare_isSome {a b : UnpackedFloat} (ha : a.isNaN = false)
    (hb : b.isNaN = false) : (a.compare b).isSome := by
  cases a with
  | notANumber =>
      cases ha
  | infinity s | zero s | finite s =>
      cases b with
      | notANumber =>
          cases hb
      | infinity t | zero t | finite t =>
          cases s <;> cases t <;> rfl

theorem lt_iff_compare {x y : Float} :
    x < y ↔ x.toModel.unpack.compare y.toModel.unpack = some .lt := by
  change decide (x.toModel.lt y.toModel = true) = true ↔ _
  simp [Float.Model.lt, UnpackedFloat.lt]

theorem beq_iff_compare {x y : Float} :
    (x == y) = true ↔ x.toModel.unpack.compare y.toModel.unpack = some .eq := by
  change (x.toModel.unpack.compare y.toModel.unpack == some .eq) = true ↔ _
  simp

/-- Of two numbers that are not undefined, one is smaller or they are the same. -/
theorem isSome_orderNumbers {x y : Float} (hx : x.isNaN = false) (hy : y.isNaN = false) :
    (orderNumbers x y).isSome := by
  obtain ⟨ordering, hcompare⟩ := Option.isSome_iff_exists.mp (unpacked_compare_isSome hx hy)
  have hswap := unpacked_compare_swap x.toModel.unpack y.toModel.unpack
  unfold orderNumbers
  simp only [lt_iff_compare, beq_iff_compare, hswap, hcompare]
  cases ordering <;> rfl

/-- Only strings have an order, and values that have a number. -/
theorem types_of_order {a b : Value} {ordering : Ordering} (h : a.order b = some ordering) :
    a.type = .string ∧ b.type = .string ∨ a.type.isNumeric ∧ b.type.isNumeric := by
  cases a <;> cases b <;> simp [order, numeric?] at h <;> simp [type, ValueType.isNumeric]

/-- Strings have an order, and so have values with a number that is not undefined. -/
theorem isSome_order {a b : Value} (ha : a.isUndefined = false) (hb : b.isUndefined = false)
    (h : a.type = .string ∧ b.type = .string ∨ a.type.isNumeric ∧ b.type.isNumeric) :
    (a.order b).isSome := by
  have hzero : (0 : Float).isNaN = false := by decide
  have hone : (1 : Float).isNaN = false := by decide
  have hflag (p : Bool) : (if p then 1 else 0 : Float).isNaN = false := by
    cases p
    · exact hzero
    · exact hone
  cases a <;> cases b <;> simp [type, ValueType.isNumeric] at h <;> simp [order, numeric?]
  · exact isSome_orderNumbers (hflag _) hb
  · exact isSome_orderNumbers ha (hflag _)
  · exact isSome_orderNumbers ha hb

end Order

end Value

namespace Operator

/-- The operators that ask for an order. -/
def isComparison : Operator → Bool
  | .lt | .gt => true
  | _ => false

/-- The operators that keep the type of their operands. -/
def isArithmetic : Operator → Bool
  | .add | .sub | .mul | .div => true
  | _ => false

/-- What an arithmetic operator does with numbers. -/
def onNumbers? : Operator → Option (Float → Float → Float)
  | .add => some (· + ·)
  | .sub => some (· - ·)
  | .mul => some (· * ·)
  | .div => some (· / ·)
  | _ => none

/-- The type of what an operator makes of two values of given types, if the types fit. -/
def resultType? (op : Operator) (left right : ValueType) : Option ValueType :=
  match op with
  | .add => if right = left ∧ left.isAdditive then some left else none
  | .sub | .mul | .div => if right = .number ∧ left = .number then some .number else none
  | .eq | .ne | .and | .or => some .boolean
  | .lt | .gt =>
      if left = .string ∧ right = .string ∨ left.isNumeric ∧ right.isNumeric then some .boolean
      else none

/-- The type of the value that is carried along, after some operands have been combined. -/
def carriedType (op : Operator) (first : ValueType) (combined : List Value) : ValueType :=
  if combined = [] ∨ op.isArithmetic then first else .boolean

variable {op : Operator} {left right v : Value} {mismatch : Mismatch}

section Pairs

/-- The operators that ask for an order take strings, and values that have a number. -/
theorem resultType?_of_isComparison (hop : op.isComparison) (left right : ValueType) :
    op.resultType? left right =
      if left = .string ∧ right = .string ∨ left.isNumeric ∧ right.isNumeric then some .boolean
      else none := by
  cases op with
  | lt | gt =>
      rfl
  | _ =>
      cases hop

theorem apply_eq_error (h : op.apply left right = .error mismatch) :
    mismatch = ⟨op, left.type, right.type⟩ := by
  cases op with
  | eq | ne | and | or =>
      cases h
  | add =>
      cases left <;> cases right <;> cases h <;> rfl
  | sub | mul | div =>
      cases left <;> cases right <;> cases h <;> rfl
  | lt | gt =>
      simp only [apply] at h
      split at h <;> cases h
      rfl

/-- Values that an operator combines fit one another, and the table tells the type they come to. -/
theorem type_of_apply (h : op.apply left right = .ok v) :
    op.resultType? left.type right.type = some v.type := by
  cases op with
  | eq | ne | and | or =>
      cases h
      rfl
  | add | sub | mul | div =>
      cases left <;> cases right <;> cases h <;> rfl
  | lt | gt =>
      simp only [apply] at h
      split at h <;> cases h
      rename_i horder
      exact if_pos (Value.types_of_order horder)

/-- Values that an operator does not combine do not fit one another, undefined numbers apart. -/
theorem resultType?_of_apply_eq_error
    (hdefined : op.isComparison → left.isUndefined = false ∧ right.isUndefined = false)
    (h : op.apply left right = .error mismatch) :
    op.resultType? left.type right.type = none := by
  cases op with
  | eq | ne | and | or =>
      cases h
  | add | sub | mul | div =>
      cases left <;> cases right <;> cases h <;> rfl
  | lt | gt =>
      obtain ⟨hleft, hright⟩ := hdefined rfl
      simp only [apply] at h
      split at h <;> cases h
      rename_i hnone
      refine if_neg fun hfits => ?_
      have horder := Value.isSome_order hleft hright hfits
      rw [hnone] at horder
      cases horder

end Pairs

section Folds

variable {first : Value} {rest : List Value}

theorem fold_cons_of_ok {operand combined : Value} (h : op.apply first operand = .ok combined)
    (rest : List Value) : op.fold first (operand :: rest) = op.fold combined rest := by
  rw [fold, h]

theorem fold_cons_of_error {operand : Value} (h : op.apply first operand = .error mismatch)
    (rest : List Value) : op.fold first (operand :: rest) = .error mismatch := by
  rw [fold, h]

/-- What a fold has combined is where the fold of further operands starts. -/
theorem fold_append_of_ok {operands : List Value} (h : op.fold first operands = .ok v)
    (more : List Value) : op.fold first (operands ++ more) = op.fold v more := by
  induction operands generalizing first with
  | nil =>
      cases h
      rfl
  | cons operand rest ih =>
      cases happly : op.apply first operand with
      | ok combined =>
          rw [fold_cons_of_ok happly] at h
          rw [List.cons_append, fold_cons_of_ok happly, ih h]
      | error mismatch =>
          rw [fold_cons_of_error happly] at h
          cases h

/-- The types go the way of the values, as long as these are combined. -/
theorem type_of_fold (h : op.fold first rest = .ok v) :
    (rest.map Value.type).foldlM op.resultType? first.type = some v.type := by
  induction rest generalizing first with
  | nil =>
      cases h
      rfl
  | cons operand rest ih =>
      cases happly : op.apply first operand with
      | ok combined =>
          rw [fold_cons_of_ok happly] at h
          rw [List.map_cons, List.foldlM_cons, type_of_apply happly]
          exact ih h
      | error mismatch =>
          rw [fold_cons_of_error happly] at h
          cases h

/-- A value of a comparison is a boolean, and so not undefined. -/
theorem isUndefined_of_apply (hop : op.isComparison) (h : op.apply left right = .ok v) :
    v.isUndefined = false := by
  cases op with
  | lt | gt =>
      simp only [apply] at h
      split at h <;> cases h
      rfl
  | _ =>
      cases hop

/-- A fold of values fails where the fold of their types does, undefined numbers apart. -/
theorem fold_typed
    (hdefined : op.isComparison →
      first.isUndefined = false ∧ ∀ operand ∈ rest, operand.isUndefined = false) :
    (∃ v, op.fold first rest = .ok v) ↔
      ((rest.map Value.type).foldlM op.resultType? first.type).isSome := by
  refine ⟨fun ⟨v, h⟩ => by rw [type_of_fold h]; rfl, fun h => ?_⟩
  induction rest generalizing first with
  | nil =>
      exact ⟨first, rfl⟩
  | cons operand rest ih =>
      cases happly : op.apply first operand with
      | ok combined =>
          rw [List.map_cons, List.foldlM_cons, type_of_apply happly] at h
          rw [fold_cons_of_ok happly]
          refine ih (fun hop => ?_) h
          exact ⟨isUndefined_of_apply hop happly,
            fun later hlater => (hdefined hop).2 later (List.mem_cons_of_mem _ hlater)⟩
      | error mismatch =>
          have hnone := resultType?_of_apply_eq_error
            (fun hop => ⟨(hdefined hop).1, (hdefined hop).2 operand List.mem_cons_self⟩) happly
          rw [List.map_cons, List.foldlM_cons, hnone] at h
          cases h

/-- The operand that a fold fails at is the first that the value before it is not combined with. -/
theorem fold_cases (op : Operator) (first : Value) (rest : List Value) :
    (∃ v, op.fold first rest = .ok v) ∨
    ∃ before operand after carried,
      rest = before ++ operand :: after ∧ op.fold first before = .ok carried ∧
      op.apply carried operand = .error ⟨op, carried.type, operand.type⟩ := by
  induction rest generalizing first with
  | nil =>
      exact .inl ⟨first, rfl⟩
  | cons operand rest ih =>
      cases happly : op.apply first operand with
      | ok combined =>
          rcases ih combined with ⟨v, hfold⟩ | ⟨before, other, after, carried, heq, hfold, herror⟩
          · exact .inl ⟨v, by rw [fold_cons_of_ok happly, hfold]⟩
          · refine .inr ⟨operand :: before, other, after, carried, by rw [heq]; rfl, ?_, herror⟩
            rw [fold_cons_of_ok happly, hfold]
      | error mismatch =>
          refine .inr ⟨[], operand, rest, first, rfl, rfl, ?_⟩
          rw [happly, apply_eq_error happly]

end Folds

section Types

variable {type next : ValueType} {later : List ValueType}

/-- A fold of types that stays with a type asks the same of each of the operands. -/
theorem foldlM_resultType?_of_stays {fits : ValueType → Bool}
    (hstays : ∀ t, op.resultType? type t = if fits t then some type else none)
    (later : List ValueType) :
    later.foldlM op.resultType? type = if later.all fits then some type else none := by
  induction later with
  | nil =>
      rfl
  | cons t later ih =>
      rw [List.foldlM_cons, hstays, List.all_cons]
      by_cases hfits : fits t
      · simpa [hfits] using ih
      · simp [hfits]

theorem foldlM_resultType?_add :
    ((next :: later).foldlM Operator.add.resultType? type).isSome ↔
      type.isAdditive ∧ ∀ t ∈ next :: later, t = type := by
  by_cases htype : type.isAdditive
  · have hstays : ∀ t, Operator.add.resultType? type t =
        if decide (t = type) then some type else none := by
      simp [resultType?, htype]
    rw [foldlM_resultType?_of_stays hstays]
    simp [htype]
  · simp [List.foldlM_cons, resultType?, htype]

theorem foldlM_resultType?_arithmetic (hop : op ∈ [Operator.sub, .mul, .div]) :
    ((next :: later).foldlM op.resultType? type).isSome ↔
      type = .number ∧ ∀ t ∈ next :: later, t = .number := by
  have htable : ∀ t u, op.resultType? t u =
      if u = .number ∧ t = .number then some .number else none := by
    simp only [List.mem_cons, List.not_mem_nil, or_false] at hop
    rcases hop with rfl | rfl | rfl <;> exact fun _ _ => rfl
  by_cases htype : type = .number
  · have hstays : ∀ t, op.resultType? .number t =
        if decide (t = .number) then some .number else none := by
      simp [htable]
    rw [htype, foldlM_resultType?_of_stays hstays]
    simp
  · simp [List.foldlM_cons, htable, htype]

theorem foldlM_resultType?_equality (hop : op ∈ [Operator.eq, .ne]) :
    (next :: later).foldlM op.resultType? type = some .boolean := by
  have htable : ∀ t u, op.resultType? t u = some .boolean := by
    simp only [List.mem_cons, List.not_mem_nil, or_false] at hop
    rcases hop with rfl | rfl <;> exact fun _ _ => rfl
  have hstays : ∀ t, op.resultType? .boolean t =
      if (fun _ => true) t then some .boolean else none := by
    simp [htable]
  rw [List.foldlM_cons, htable]
  simpa using foldlM_resultType?_of_stays hstays later

theorem foldlM_resultType?_comparison (hop : op ∈ [Operator.lt, .gt]) :
    (next :: later).foldlM op.resultType? type =
      if (type = .string ∧ next = .string ∨ type.isNumeric ∧ next.isNumeric) ∧
        later.all ValueType.isNumeric then some .boolean else none := by
  have hcomparison : op.isComparison := by
    simp only [List.mem_cons, List.not_mem_nil, or_false] at hop
    rcases hop with rfl | rfl <;> rfl
  have htable := resultType?_of_isComparison hcomparison
  have hstays : ∀ t, op.resultType? .boolean t =
      if ValueType.isNumeric t then some .boolean else none := by
    have hboolean : ValueType.isNumeric .boolean = true := rfl
    simp [htable, hboolean]
  rw [List.foldlM_cons, htable]
  by_cases hfirst : type = .string ∧ next = .string ∨ type.isNumeric ∧ next.isNumeric
  · simpa [hfirst] using foldlM_resultType?_of_stays hstays later
  · simp [hfirst]

/-- An arithmetic operator keeps the type of its operands; any other makes booleans. -/
theorem eq_of_resultType? {result : ValueType} (h : op.resultType? type next = some result) :
    result = if op.isArithmetic then type else .boolean := by
  cases op with
  | eq | ne | and | or =>
      cases h
      rfl
  | add | sub | mul | div | lt | gt =>
      simp only [resultType?] at h
      split at h <;> cases h
      simp_all [isArithmetic]

end Types

section Values

variable {first second : Value} {rest : List Value}

/-- The type of the value that a fold carries along, as far as it gets. -/
theorem type_carried {carried : Value} (h : op.fold first rest = .ok carried) :
    carried.type = op.carriedType first.type rest := by
  induction rest generalizing first with
  | nil =>
      cases h
      rfl
  | cons operand rest ih =>
      cases happly : op.apply first operand with
      | ok combined =>
          rw [fold_cons_of_ok happly] at h
          rw [ih h, carriedType, carriedType, eq_of_resultType? (type_of_apply happly)]
          by_cases hop : op.isArithmetic <;> simp [hop]
      | error mismatch =>
          rw [fold_cons_of_error happly] at h
          cases h

/-- Operands of one kind, whose results are of that kind again. -/
theorem fold_map {α : Type} {wrap : α → Value} {f : α → α → α}
    (happly : ∀ a b, op.apply (wrap a) (wrap b) = .ok (wrap (f a b))) (a : α) (bs : List α) :
    op.fold (wrap a) (bs.map wrap) = .ok (wrap (bs.foldl f a)) := by
  induction bs generalizing a with
  | nil =>
      rfl
  | cons b bs ih =>
      rw [List.map_cons, fold_cons_of_ok (happly a b), ih, List.foldl_cons]

theorem fold_numbers {f : Float → Float → Float} (hop : op.onNumbers? = some f) (x : Float)
    (xs : List Float) : op.fold (.number x) (xs.map .number) = .ok (.number (xs.foldl f x)) := by
  refine fold_map (fun x y => ?_) x xs
  cases op <;> cases hop <;> rfl

theorem fold_strings (text : String) (texts : List String) :
    Operator.add.fold (.string text) (texts.map .string) =
      .ok (.string (String.join (text :: texts))) := by
  have hjoin : String.join (text :: texts) = texts.foldl (· ++ ·) text := by
    rw [String.join, List.foldl_cons, String.empty_append]
  rw [hjoin]
  exact fold_map (fun _ _ => rfl) text texts

theorem fold_lists (items : List Value) (lists : List (List Value)) :
    Operator.add.fold (.list items) (lists.map .list) =
      .ok (.list (items :: lists).flatten) := by
  have hflatten : (items :: lists).flatten = lists.foldl (· ++ ·) items := by
    rw [List.flatten_cons, List.foldl_append_eq_append, List.map_id']
  rw [hflatten]
  exact fold_map (fun _ _ => rfl) items lists

/-- A logical operator looks at nothing but which operands hold. -/
theorem fold_logical {f : Bool → Bool → Bool}
    (happly : ∀ v w, op.apply v w = .ok (.boolean (f v.truthy w.truthy)))
    (first second : Value) (rest : List Value) :
    op.fold first (second :: rest) =
      .ok (.boolean (((second :: rest).map Value.truthy).foldl f first.truthy)) := by
  induction rest generalizing first second with
  | nil =>
      rw [fold_cons_of_ok (happly first second)]
      rfl
  | cons third rest ih =>
      rw [fold_cons_of_ok (happly first second), ih]
      rfl

theorem fold_and (first second : Value) (rest : List Value) :
    Operator.and.fold first (second :: rest) =
      .ok (.boolean ((first :: second :: rest).all Value.truthy)) := by
  have hall (flags : List Bool) (b : Bool) : flags.foldl (· && ·) b = (b && flags.all id) := by
    induction flags generalizing b with
    | nil => simp
    | cons flag flags ih => simp [ih, Bool.and_assoc]
  rw [fold_logical (fun _ _ => rfl), hall, List.all_map]
  rfl

theorem fold_or (first second : Value) (rest : List Value) :
    Operator.or.fold first (second :: rest) =
      .ok (.boolean ((first :: second :: rest).any Value.truthy)) := by
  have hany (flags : List Bool) (b : Bool) : flags.foldl (· || ·) b = (b || flags.any id) := by
    induction flags generalizing b with
    | nil => simp
    | cons flag flags ih => simp [ih, Bool.or_assoc]
  rw [fold_logical (fun _ _ => rfl), hany, List.any_map]
  rfl

theorem exists_fold_add_iff :
    (∃ v, Operator.add.fold first (second :: rest) = .ok v) ↔
      Value.AllOfType .number (first :: second :: rest) ∨
      Value.AllOfType .string (first :: second :: rest) ∨
      Value.AllOfType .list (first :: second :: rest) := by
  have hadditive : ∀ t : ValueType, t.isAdditive ↔ t = .number ∨ t = .string ∨ t = .list := by
    intro t
    cases t <;> simp [ValueType.isAdditive]
  rw [fold_typed (fun hop => absurd hop (by decide)), List.map_cons, foldlM_resultType?_add,
    hadditive]
  simp only [Value.AllOfType, List.forall_mem_cons, List.forall_mem_map]
  grind

theorem exists_fold_arithmetic_iff (hop : op ∈ [Operator.sub, .mul, .div]) :
    (∃ v, op.fold first (second :: rest) = .ok v) ↔
      Value.AllOfType .number (first :: second :: rest) := by
  have hcomparison : ¬ op.isComparison := by
    simp only [List.mem_cons, List.not_mem_nil, or_false] at hop
    rcases hop with rfl | rfl | rfl <;> decide
  rw [fold_typed (fun h => absurd h hcomparison), List.map_cons,
    foldlM_resultType?_arithmetic hop]
  simp only [Value.AllOfType, List.forall_mem_cons, List.forall_mem_map]

theorem exists_fold_equality (hop : op ∈ [Operator.eq, .ne]) :
    ∃ b, op.fold first (second :: rest) = .ok (.boolean b) := by
  have hcomparison : ¬ op.isComparison := by
    simp only [List.mem_cons, List.not_mem_nil, or_false] at hop
    rcases hop with rfl | rfl <;> decide
  have htypes : ((second :: rest).map Value.type).foldlM op.resultType? first.type =
      some .boolean := foldlM_resultType?_equality hop
  obtain ⟨v, hfold⟩ := (fold_typed fun h => absurd h hcomparison).mpr (by rw [htypes]; rfl)
  rw [type_of_fold hfold, Option.some_inj] at htypes
  obtain ⟨b, rfl⟩ := Value.eq_boolean_of_type htypes
  exact ⟨b, hfold⟩

theorem exists_fold_comparison_iff (hop : op ∈ [Operator.lt, .gt])
    (hdefined : ∀ v ∈ first :: second :: rest, v.isUndefined = false) :
    (∃ v, op.fold first (second :: rest) = .ok v) ↔
      (first.type = .string ∧ second.type = .string ∨
        first.type.isNumeric ∧ second.type.isNumeric) ∧
      ∀ v ∈ rest, v.type.isNumeric := by
  obtain ⟨hfirst, hrest⟩ := List.forall_mem_cons.mp hdefined
  rw [fold_typed fun _ => ⟨hfirst, hrest⟩, List.map_cons, foldlM_resultType?_comparison hop]
  simp

/-- A comparison that comes to a value comes to a boolean. -/
theorem eq_boolean_of_fold_comparison (hop : op ∈ [Operator.lt, .gt])
    (h : op.fold first (second :: rest) = .ok v) : ∃ b, v = .boolean b := by
  refine Value.eq_boolean_of_type ?_
  rw [type_carried h, carriedType]
  simp only [List.mem_cons, List.not_mem_nil, or_false] at hop
  rcases hop with rfl | rfl <;> simp [isArithmetic]

end Values

end Operator

section Operations

variable {H : Type} {op : Operator} {first v : Value} {rest : List Value} {s : Session H}

theorem Eval.combine_eq_value_iff :
    combine op (first :: rest) s = some (.value v, s) ↔ op.fold first rest = .ok v := by
  rw [combine]
  cases op.fold first rest <;> simp

theorem Eval.combine_of_error {mismatch : Mismatch} (h : op.fold first rest = .error mismatch) :
    combine op (first :: rest) s = some (.failed (.mismatch mismatch), s) := by
  rw [combine, h]

end Operations

/--
What an operation comes to on operands that have been evaluated, the session aside, which
stays as it is. Two operands or more are added if they are all numbers, all strings or all
lists, and they are subtracted, multiplied or divided if they are all numbers. They can be
compared for equality, and connected logically, whatever they are. They can be compared by
order, if none is an undefined number, if the first two are strings or have numbers and all
others have numbers. A single operand is left as it is. Where an operation fails, there is a
first operand that does not fit what those before it have come to, and the fault names the
types of these two.
-/
theorem operators_fold_in_closed_form {H : Type} (s : Session H) :
    (∀ operands : List Value, 2 ≤ operands.length →
      ((∃ v, Eval.combine .add operands s = some (.value v, s)) ↔
        Value.AllOfType .number operands ∨ Value.AllOfType .string operands ∨
        Value.AllOfType .list operands) ∧
      (∀ op f x xs, Operator.onNumbers? op = some f → operands = (x :: xs).map .number →
        Eval.combine op operands s = some (.value (.number (xs.foldl f x)), s)) ∧
      (∀ texts : List String, operands = texts.map .string →
        Eval.combine .add operands s = some (.value (.string (String.join texts)), s)) ∧
      (∀ lists : List (List Value), operands = lists.map .list →
        Eval.combine .add operands s = some (.value (.list lists.flatten), s)) ∧
      (∀ op ∈ [Operator.sub, .mul, .div],
        (∃ v, Eval.combine op operands s = some (.value v, s)) ↔
          Value.AllOfType .number operands) ∧
      (∀ op ∈ [Operator.eq, .ne],
        ∃ b, Eval.combine op operands s = some (.value (.boolean b), s)) ∧
      Eval.combine .and operands s = some (.value (.boolean (operands.all Value.truthy)), s) ∧
      Eval.combine .or operands s = some (.value (.boolean (operands.any Value.truthy)), s) ∧
      (∀ op ∈ [Operator.lt, .gt], (∀ v ∈ operands, v.isUndefined = false) →
        ((∃ v, Eval.combine op operands s = some (.value v, s)) ↔
          (Value.AllOfType .string (operands.take 2) ∨
            ∀ v ∈ operands.take 2, v.type.isNumeric) ∧
          ∀ v ∈ operands.drop 2, v.type.isNumeric) ∧
        ∀ v, Eval.combine op operands s = some (.value v, s) → ∃ b, v = .boolean b)) ∧
    (∀ op v, Eval.combine op [v] s = some (.value v, s)) ∧
    ∀ op first rest,
      (∃ v, Eval.combine op (first :: rest) s = some (.value v, s)) ∨
      ∃ before operand after carried,
        rest = before ++ operand :: after ∧
        Eval.combine op (first :: before) s = some (.value carried, s) ∧
        carried.type = op.carriedType first.type before ∧
        (∀ v, Eval.combine op (first :: before ++ [operand]) s ≠ some (.value v, s)) ∧
        Eval.combine op (first :: rest) s =
          some (.failed (.mismatch ⟨op, carried.type, operand.type⟩), s) := by
  refine ⟨fun operands htwo => ?_, fun op v => rfl, fun op first rest => ?_⟩
  · obtain ⟨first, second, rest, rfl⟩ :
        ∃ first second rest, operands = first :: second :: rest := by
      match operands, htwo with
      | first :: second :: rest, _ => exact ⟨first, second, rest, rfl⟩
    simp only [Eval.combine_eq_value_iff]
    refine ⟨Operator.exists_fold_add_iff, fun op f x xs hop heq => ?_, fun texts heq => ?_,
      fun lists heq => ?_, fun op hop => Operator.exists_fold_arithmetic_iff hop,
      fun op hop => Operator.exists_fold_equality hop, Operator.fold_and first second rest,
      Operator.fold_or first second rest, fun op hop hdefined => ⟨?_, fun v h => ?_⟩⟩
    · obtain ⟨rfl, htail⟩ := List.cons.inj heq
      rw [htail]
      exact Operator.fold_numbers hop x xs
    · cases texts with
      | nil =>
          cases heq
      | cons text texts =>
          obtain ⟨rfl, htail⟩ := List.cons.inj heq
          rw [htail]
          exact Operator.fold_strings text texts
    · cases lists with
      | nil =>
          cases heq
      | cons items lists =>
          obtain ⟨rfl, htail⟩ := List.cons.inj heq
          rw [htail]
          exact Operator.fold_lists items lists
    · rw [Operator.exists_fold_comparison_iff hop hdefined]
      simp [Value.AllOfType]
    · exact Operator.eq_boolean_of_fold_comparison hop h
  · rcases op.fold_cases first rest with
      ⟨v, hfold⟩ | ⟨before, operand, after, carried, rfl, hfold, herror⟩
    · exact .inl ⟨v, Eval.combine_eq_value_iff.mpr hfold⟩
    · have hfails (more : List Value) : op.fold first (before ++ operand :: more) =
          .error ⟨op, carried.type, operand.type⟩ := by
        rw [Operator.fold_append_of_ok hfold, Operator.fold_cons_of_error herror]
      refine .inr ⟨before, operand, after, carried, rfl, Eval.combine_eq_value_iff.mpr hfold,
        Operator.type_carried hfold, fun v h => ?_, Eval.combine_of_error (hfails after)⟩
      rw [List.cons_append, Eval.combine_eq_value_iff, hfails []] at h
      cases h

/-- Strings, then a boolean and a number: the order of the first two meets the others. -/
def Value.mixedOperands : List Value :=
  [.string "a", .string "b", .boolean false, .number 1]

theorem operators_fold_in_closed_form_mixedOperands :
    (∃ b, Eval.combine .gt Value.mixedOperands Session.quiet =
      some (.value (.boolean b), Session.quiet)) ∧
    ∀ v, Eval.combine .add Value.mixedOperands Session.quiet ≠
      some (.value v, Session.quiet) := by
  obtain ⟨hadd, _, _, _, _, _, _, _, horder⟩ :=
    (operators_fold_in_closed_form Session.quiet).1 Value.mixedOperands (by decide)
  obtain ⟨hsucceeds, hboolean⟩ := horder .gt (by decide) (by decide)
  obtain ⟨v, hv⟩ := hsucceeds.mpr ⟨.inl (by decide), by decide⟩
  obtain ⟨b, rfl⟩ := hboolean v hv
  refine ⟨⟨b, hv⟩, fun w hw => ?_⟩
  rcases hadd.mp ⟨w, hw⟩ with h | h | h
  · exact absurd h (by decide)
  · exact absurd h (by decide)
  · exact absurd h (by decide)

end DocScript
