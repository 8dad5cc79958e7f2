import DocScript.Proofs.OperatorFolds
import Mathlib.Data.List.Forall2
import Mathlib.Data.Option.NAry

/-!
# Order and equality of values

Programs see an order of values and an equality of values, which are defined apart from each
other. A boolean meets a boolean as a boolean and a number as a number, and only at the top:
inside a list or a map it is equal to booleans only.

The order of numbers is that of their ranks. A rank is a sign followed by an exponent and a
significand, for numbers below zero with the signs turned round, and undefined numbers have
none. Ranks are compared from the left, and so have the laws of any order that is made up in
this way. All that is left to be seen is that a value is compared by its text or by a rank.

**Results.**
* `Value.orderNumbers_eq`, `Value.beq_iff_rank`: numbers are compared by their ranks.
* `Value.order_eq_some_iff`: values are compared by their texts or by their ranks.
* `Value.same_symm`, `Value.same_trans`: equality of shape, at any depth.
* `order_and_equality_cohere`: the laws of the order and the equality that programs see.
-/

namespace DocScript

open Float.Model (UnpackedFloat)

namespace Value

section Ranks

/-- The place of a number among all numbers. -/
def unpackedRank? : UnpackedFloat → Option (List Int)
  | .notANumber => none
  | .infinity .negative => some [-2]
  | .finite .negative m e _ => some [-1, -e, -m]
  | .zero _ => some [0]
  | .finite .positive m e _ => some [1, e, m]
  | .infinity .positive => some [2]

def numberRank? (x : Float) : Option (List Int) :=
  unpackedRank? x.toModel.unpack

theorem compare_neg (m n : Int) : compare (-m) (-n) = (compare m n).swap := by
  rw [← Int.compare_swap]
  simp only [compare, compareOfLessAndEq]
  grind

theorem compare_natCast (m n : Nat) : compare (m : Int) (n : Int) = compare m n := by
  simp only [compare, compareOfLessAndEq, Int.ofNat_lt, Int.natCast_inj]

/-- Numbers are compared by their ranks. -/
theorem unpacked_compare_eq (a b : UnpackedFloat) :
    a.compare b = Option.map₂ compare (unpackedRank? a) (unpackedRank? b) := by
  cases a with
  | notANumber =>
      cases b <;> rfl
  | infinity s =>
      cases b with
      | notANumber =>
          cases s <;> rfl
      | infinity t | zero t | finite t =>
          cases s <;> cases t <;> rfl
  | zero s =>
      cases b with
      | notANumber =>
          rfl
      | infinity t | zero t | finite t =>
          cases t <;> rfl
  | finite s m e =>
      cases b with
      | notANumber =>
          cases s <;> rfl
      | infinity t | zero t =>
          cases s <;> cases t <;> rfl
      | finite t n f =>
          cases s with
          | positive =>
              cases t with
              | positive =>
                  have hrank : compare [1, e, (m : Int)] [1, f, n] =
                      (compare e f).then (compare m n) := by
                    simp [List.compare_cons_cons, compare_natCast]
                  exact congrArg some hrank.symm
              | negative =>
                  rfl
          | negative =>
              cases t with
              | positive =>
                  rfl
              | negative =>
                  have hrank : compare [-1, -e, -(m : Int)] [-1, -f, -n] =
                      ((compare e f).then (compare m n)).swap := by
                    simp [List.compare_cons_cons, compare_natCast, compare_neg, Ordering.swap_then]
                  exact congrArg some hrank.symm

/-- Numbers are ordered by their ranks, and one without a rank is in no order. -/
theorem orderNumbers_eq (x y : Float) :
    orderNumbers x y = Option.map₂ compare (numberRank? x) (numberRank? y) := by
  have hswap := unpacked_compare_swap x.toModel.unpack y.toModel.unpack
  rw [numberRank?, numberRank?, ← unpacked_compare_eq]
  unfold orderNumbers
  simp only [lt_iff_compare, beq_iff_compare, hswap]
  cases x.toModel.unpack.compare y.toModel.unpack with
  | none =>
      rfl
  | some ordering =>
      cases ordering <;> rfl

/-- Numbers are the same if they have the same rank, so the signs of zero do not matter. -/
theorem beq_iff_rank {x y : Float} :
    (x == y) = true ↔ ∃ rank, numberRank? x = some rank ∧ numberRank? y = some rank := by
  rw [beq_iff_compare, unpacked_compare_eq, Option.map₂_eq_some_iff]
  constructor
  · rintro ⟨rank, other, hx, hy, heq⟩
    rw [Std.LawfulEqCmp.compare_eq_iff_eq] at heq
    exact ⟨rank, hx, heq ▸ hy⟩
  · rintro ⟨rank, hx, hy⟩
    exact ⟨rank, rank, hx, hy, Std.ReflCmp.compare_self⟩

/-- The place of a value among all values that have a number. -/
def rank? (v : Value) : Option (List Int) :=
  v.numeric?.bind numberRank?

end Ranks

section Orders

variable {a b c : Value} {ordering : Ordering} {rank : List Int}

theorem isNumeric_of_rank (h : a.rank? = some rank) : a.type.isNumeric := by
  cases a <;> first | rfl | cases h

/-- Booleans have the order of the numbers that they stand for. -/
theorem order_of_isNumeric (ha : a.type.isNumeric) (hb : b.type.isNumeric) :
    a.order b = Option.map₂ compare a.rank? b.rank? := by
  cases a with
  | boolean p =>
      cases b with
      | boolean q =>
          cases p <;> cases q <;> decide
      | number y =>
          exact orderNumbers_eq _ y
      | _ =>
          cases hb
  | number x =>
      cases b with
      | boolean q =>
          exact orderNumbers_eq x _
      | number y =>
          exact orderNumbers_eq x y
      | _ =>
          cases hb
  | _ =>
      cases ha

/-- Values are compared by their texts or by their ranks. -/
theorem order_eq_some_iff :
    a.order b = some ordering ↔
      (∃ s t, a = .string s ∧ b = .string t ∧ compare s t = ordering) ∨
      ∃ k l, a.rank? = some k ∧ b.rank? = some l ∧ compare k l = ordering := by
  constructor
  · intro h
    obtain ⟨ha, hb⟩ | ⟨ha, hb⟩ := types_of_order h
    · cases a <;> cases ha
      cases b <;> cases hb
      exact .inl ⟨_, _, rfl, rfl, Option.some.inj h⟩
    · rw [order_of_isNumeric ha hb] at h
      obtain ⟨k, l, hk, hl, hcompare⟩ := Option.map₂_eq_some_iff.mp h
      exact .inr ⟨k, l, hk, hl, hcompare⟩
  · rintro (⟨s, t, rfl, rfl, hcompare⟩ | ⟨k, l, hk, hl, hcompare⟩)
    · exact congrArg some hcompare
    · rw [order_of_isNumeric (isNumeric_of_rank hk) (isNumeric_of_rank hl)]
      exact Option.map₂_eq_some_iff.mpr ⟨k, l, hk, hl, hcompare⟩

theorem order_swap_of_eq_some (h : a.order b = some ordering) :
    b.order a = some ordering.swap := by
  rw [order_eq_some_iff] at h ⊢
  rcases h with ⟨s, t, ha, hb, rfl⟩ | ⟨k, l, ha, hb, rfl⟩
  · exact .inl ⟨t, s, hb, ha, Std.OrientedCmp.eq_swap⟩
  · exact .inr ⟨l, k, hb, ha, Std.OrientedCmp.eq_swap⟩

/-- The order of two values turned round is the order of the values turned round. -/
theorem order_swap (a b : Value) : b.order a = (a.order b).map .swap := by
  cases hab : a.order b with
  | some ordering =>
      exact order_swap_of_eq_some hab
  | none =>
      cases hba : b.order a with
      | none =>
          rfl
      | some ordering =>
          rw [order_swap_of_eq_some hba] at hab
          cases hab

/-- What is less than something less is less. -/
theorem order_lt_trans (hab : a.order b = some .lt) (hbc : b.order c = some .lt) :
    a.order c = some .lt := by
  rw [order_eq_some_iff] at hab hbc ⊢
  rcases hab with ⟨s, t, rfl, rfl, hst⟩ | ⟨k, l, hk, hl, hkl⟩
  · rcases hbc with ⟨_, u, ⟨⟩, rfl, htu⟩ | ⟨_, _, ⟨⟩, _⟩
    exact .inl ⟨s, u, rfl, rfl, Std.TransCmp.lt_trans hst htu⟩
  · rcases hbc with ⟨_, _, rfl, _⟩ | ⟨l', m, hl', hm, hlm⟩
    · cases hl
    · obtain rfl := Option.some.inj (hl.symm.trans hl')
      exact .inr ⟨k, m, hk, hm, Std.TransCmp.lt_trans hkl hlm⟩

/-- Values that compare as equal are a text and itself, or have one rank. -/
theorem eq_or_rank_of_order_eq (h : a.order b = some .eq) :
    a = b ∨ ∃ rank, a.rank? = some rank ∧ b.rank? = some rank := by
  rcases order_eq_some_iff.mp h with ⟨s, t, rfl, rfl, hst⟩ | ⟨k, l, hk, hl, hkl⟩
  · exact .inl (congrArg _ (Std.LawfulEqCmp.compare_eq_iff_eq.mp hst))
  · exact .inr ⟨k, hk, Std.LawfulEqCmp.compare_eq_iff_eq.mp hkl ▸ hl⟩

/-- Equal values are in the same order to any other. -/
theorem order_congr_left (h : a.order b = some .eq) (c : Value) : a.order c = b.order c := by
  rcases eq_or_rank_of_order_eq h with rfl | ⟨rank, ha, hb⟩
  · rfl
  · refine Option.ext fun ordering => ?_
    rw [order_eq_some_iff, order_eq_some_iff, ha, hb]
    have htext {v : Value} (hv : v.rank? = some rank) (s : String) : v ≠ .string s := by
      rintro rfl
      cases hv
    simp [htext ha, htext hb]

end Orders

section Shapes

/-- The values directly within a value. -/
def children : Value → List Value
  | .list items => items
  | .map entries => entries.map Prod.snd
  | _ => []

theorem sizeOf_lt_of_mem_children {v child : Value} (hchild : child ∈ v.children) :
    sizeOf child < sizeOf v := by
  cases v with
  | list items =>
      have hitem : child ∈ items := hchild
      have hsize := List.sizeOf_lt_of_mem hitem
      rw [list.sizeOf_spec]
      omega
  | map entries =>
      obtain ⟨⟨name, item⟩, hentry, rfl⟩ := List.mem_map.mp hchild
      have hsize := List.sizeOf_lt_of_mem hentry
      rw [Prod.mk.sizeOf_spec] at hsize
      rw [map.sizeOf_spec]
      change sizeOf item < _
      omega
  | _ =>
      cases hchild

theorem induction_on_children {motive : Value → Prop} (v : Value)
    (step : ∀ v, (∀ child ∈ v.children, motive child) → motive v) : motive v := by
  induction v using (measure (sizeOf : Value → Nat)).wf.induction with
  | h v ih =>
      exact step v fun child hchild => ih child (sizeOf_lt_of_mem_children hchild)

/-- Values of the same shape. -/
def Same (a b : Value) : Prop :=
  a.same b = true

/-- Entries of the same name and the same shape. -/
def SameEntry (a b : String × Value) : Prop :=
  a.1 = b.1 ∧ a.2.Same b.2

/-- Lists are the same if their items are, one by one. -/
theorem sameItems_iff {as bs : List Value} :
    sameItems as bs = true ↔ List.Forall₂ Same as bs := by
  induction as generalizing bs with
  | nil =>
      cases bs <;> simp [sameItems]
  | cons a as ih =>
      cases bs <;> simp [sameItems, ih, Same]

/-- Maps are the same if their entries are, one by one. -/
theorem sameEntries_iff {as bs : List (String × Value)} :
    sameEntries as bs = true ↔ List.Forall₂ SameEntry as bs := by
  induction as generalizing bs with
  | nil =>
      cases bs <;> simp [sameEntries]
  | cons a as ih =>
      cases bs <;> simp [sameEntries, ih, SameEntry, Same, and_assoc]

theorem same_cases {a b : Value} (h : a.Same b) :
    a = b ∨
    (∃ x y, a = .number x ∧ b = .number y ∧ (x == y) = true) ∨
    (∃ as bs, a = .list as ∧ b = .list bs ∧ List.Forall₂ Same as bs) ∨
    ∃ as bs, a = .map as ∧ b = .map bs ∧ List.Forall₂ SameEntry as bs := by
  cases a <;> cases b <;> simp_all [Same, same, sameItems_iff, sameEntries_iff]

theorem forall₂_comp {α : Type} {R S T : α → α → Prop} {as bs cs : List α}
    (h : ∀ a ∈ as, ∀ b c, R a b → S b c → T a c) (hab : List.Forall₂ R as bs)
    (hbc : List.Forall₂ S bs cs) : List.Forall₂ T as cs := by
  induction hab generalizing cs with
  | nil =>
      cases hbc
      exact .nil
  | cons hfirst _ ih =>
      cases hbc with
      | cons hnext hrest =>
          refine .cons (h _ List.mem_cons_self _ _ hfirst hnext) (ih ?_ hrest)
          exact fun a ha => h a (List.mem_cons_of_mem _ ha)

theorem beq_symm {x y : Float} (h : (x == y) = true) : (y == x) = true := by
  obtain ⟨rank, hx, hy⟩ := beq_iff_rank.mp h
  exact beq_iff_rank.mpr ⟨rank, hy, hx⟩

theorem beq_trans {x y z : Float} (hxy : (x == y) = true) (hyz : (y == z) = true) :
    (x == z) = true := by
  obtain ⟨rank, hx, hy⟩ := beq_iff_rank.mp hxy
  obtain ⟨rank', hy', hz⟩ := beq_iff_rank.mp hyz
  obtain rfl := Option.some.inj (hy.symm.trans hy')
  exact beq_iff_rank.mpr ⟨rank, hx, hz⟩

/-- To be the same does not depend on the side. -/
theorem same_symm {a b : Value} (h : a.Same b) : b.Same a := by
  induction a using induction_on_children generalizing b with
  | step a ih =>
      rcases same_cases h with rfl | ⟨x, y, rfl, rfl, hxy⟩ | ⟨as, bs, rfl, rfl, hitems⟩ |
        ⟨as, bs, rfl, rfl, hentries⟩
      · exact h
      · exact beq_symm hxy
      · refine sameItems_iff.mpr (List.Forall₂.flip ?_)
        refine List.Forall₂.imp ?_ ((List.forall₂_and_left as bs).mpr ⟨ih, hitems⟩)
        exact fun a b hab => hab.1 hab.2
      · refine sameEntries_iff.mpr (List.Forall₂.flip ?_)
        have hih (entry) (hentry : entry ∈ as) {v : Value} (hv : entry.2.Same v) : v.Same entry.2 :=
          ih entry.2 (List.mem_map_of_mem hentry) hv
        refine List.Forall₂.imp ?_ ((List.forall₂_and_left as bs).mpr ⟨hih, hentries⟩)
        exact fun a b hab => ⟨hab.2.1.symm, hab.1 hab.2.2⟩

/-- What is the same as one and the same value is the same. -/
theorem same_trans {a b c : Value} (hab : a.Same b) (hbc : b.Same c) : a.Same c := by
  induction a using induction_on_children generalizing b c with
  | step a ih =>
      rcases same_cases hab with rfl | ⟨x, y, rfl, rfl, hxy⟩ | ⟨as, bs, rfl, rfl, hitems⟩ |
        ⟨as, bs, rfl, rfl, hentries⟩
      · exact hbc
      · rcases same_cases hbc with rfl | ⟨_, z, ⟨⟩, rfl, hyz⟩ | ⟨_, _, ⟨⟩, _⟩ | ⟨_, _, ⟨⟩, _⟩
        · exact hab
        · exact beq_trans hxy hyz
      · rcases same_cases hbc with rfl | ⟨_, _, ⟨⟩, _⟩ | ⟨_, cs, ⟨⟩, rfl, hrest⟩ | ⟨_, _, ⟨⟩, _⟩
        · exact hab
        · refine sameItems_iff.mpr (forall₂_comp ?_ hitems hrest)
          exact fun a ha b c => ih a ha
      · rcases same_cases hbc with rfl | ⟨_, _, ⟨⟩, _⟩ | ⟨_, _, ⟨⟩, _⟩ | ⟨_, cs, ⟨⟩, rfl, hrest⟩
        · exact hab
        · refine sameEntries_iff.mpr (forall₂_comp ?_ hentries hrest)
          intro a ha b c hab hbc
          exact ⟨hab.1.trans hbc.1, ih a.2 (List.mem_map_of_mem ha) hab.2 hbc.2⟩

end Shapes

section Equality

variable {a b c : Value}

theorem type_eq_of_same (h : a.Same b) : a.type = b.type := by
  rcases same_cases h with rfl | ⟨_, _, rfl, rfl, _⟩ | ⟨_, _, rfl, rfl, _⟩ | ⟨_, _, rfl, rfl, _⟩
  all_goals rfl

/-- Booleans are equal as the numbers that they stand for. -/
theorem looseEq_of_isNumeric (ha : a.type.isNumeric) (hb : b.type.isNumeric) :
    a.looseEq b = true ↔ ∃ rank, a.rank? = some rank ∧ b.rank? = some rank := by
  cases a with
  | boolean p =>
      cases b with
      | boolean q =>
          have hflags : (p == q) = ((if p then 1 else 0 : Float) == if q then 1 else 0) := by
            cases p <;> cases q <;> decide
          change (p == q) = true ↔ _
          rw [hflags]
          exact beq_iff_rank
      | number y =>
          exact beq_iff_rank
      | _ =>
          cases hb
  | number x =>
      cases b with
      | boolean q =>
          exact beq_iff_rank
      | number y =>
          exact beq_iff_rank
      | _ =>
          cases hb
  | _ =>
      cases ha

theorem looseEq_of_not_isNumeric (h : a.type.isNumeric = false ∨ b.type.isNumeric = false) :
    a.looseEq b = a.same b := by
  cases a <;> cases b <;> simp_all [type, ValueType.isNumeric, looseEq]

/-- Values are equal by their ranks or by their shapes. -/
theorem looseEq_iff :
    a.looseEq b = true ↔
      (∃ rank, a.rank? = some rank ∧ b.rank? = some rank) ∨
      a.type.isNumeric = false ∧ a.Same b := by
  by_cases hnumeric : a.type.isNumeric = true ∧ b.type.isNumeric = true
  · rw [looseEq_of_isNumeric hnumeric.1 hnumeric.2]
    simp [hnumeric.1]
  · have hnot : a.type.isNumeric = false ∨ b.type.isNumeric = false := by
      simpa [imp_iff_not_or] using hnumeric
    rw [looseEq_of_not_isNumeric hnot]
    constructor
    · intro hsame
      have htype := type_eq_of_same hsame
      rw [← htype, or_self] at hnot
      exact .inr ⟨hnot, hsame⟩
    · rintro (⟨rank, ha, hb⟩ | ⟨-, hsame⟩)
      · exact absurd ⟨isNumeric_of_rank ha, isNumeric_of_rank hb⟩ hnumeric
      · exact hsame

theorem looseEq_symm (h : a.looseEq b = true) : b.looseEq a = true := by
  rcases looseEq_iff.mp h with ⟨rank, ha, hb⟩ | ⟨htype, hsame⟩
  · exact looseEq_iff.mpr (.inl ⟨rank, hb, ha⟩)
  · exact looseEq_iff.mpr (.inr ⟨type_eq_of_same hsame ▸ htype, same_symm hsame⟩)

/-- What is equal to one value is equal, across numbers and booleans too. -/
theorem looseEq_trans (hab : a.looseEq b = true) (hbc : b.looseEq c = true) :
    a.looseEq c = true := by
  rw [looseEq_iff] at hab hbc ⊢
  rcases hab with ⟨k, ha, hb⟩ | ⟨hatype, hab⟩
  · rcases hbc with ⟨l, hb', hc⟩ | ⟨hbtype, -⟩
    · obtain rfl := Option.some.inj (hb.symm.trans hb')
      exact .inl ⟨k, ha, hc⟩
    · rw [isNumeric_of_rank hb] at hbtype
      cases hbtype
  · rcases hbc with ⟨l, hb, -⟩ | ⟨-, hbc⟩
    · rw [type_eq_of_same hab, isNumeric_of_rank hb] at hatype
      cases hatype
    · exact .inr ⟨hatype, same_trans hab hbc⟩

/-- Where there is an order, equality is part of it. -/
theorem order_eq_iff_looseEq {ordering : Ordering} (h : a.order b = some ordering) :
    ordering = .eq ↔ a.looseEq b = true := by
  rcases order_eq_some_iff.mp h with ⟨s, t, rfl, rfl, rfl⟩ | ⟨k, l, ha, hb, rfl⟩
  · rw [Std.LawfulEqCmp.compare_eq_iff_eq]
    exact beq_iff_eq.symm
  · rw [Std.LawfulEqCmp.compare_eq_iff_eq, looseEq_of_isNumeric (isNumeric_of_rank ha)
      (isNumeric_of_rank hb), ha, hb]
    simp [eq_comm]

end Equality

end Value

namespace Operator

/-- The comparison that holds of values in a given order. -/
def ofOrdering : Ordering → Operator
  | .lt => .lt
  | .eq => .eq
  | .gt => .gt

/-- Of the three comparisons the one holds that the order is. -/
theorem apply_eq_true_iff {a b : Value} {ordering : Ordering} {op : Operator}
    (h : a.order b = some ordering) (hop : op ∈ [.lt, .eq, .gt]) :
    op.apply a b = .ok (.boolean true) ↔ op = ofOrdering ordering := by
  have hequal : a.looseEq b = decide (ordering = .eq) := by
    rw [Bool.eq_iff_iff, decide_eq_true_iff, Value.order_eq_iff_looseEq h]
  simp only [List.mem_cons, List.not_mem_nil, or_false] at hop
  rcases hop with rfl | rfl | rfl <;> cases ordering <;> simp [apply, ofOrdering, h, hequal]

/-- Where there is an order, just one of the three comparisons holds. -/
theorem existsUnique_holds {a b : Value} {ordering : Ordering} (h : a.order b = some ordering) :
    ∃! op : Operator, op ∈ [.lt, .eq, .gt] ∧ op.apply a b = .ok (.boolean true) := by
  have hmem : ofOrdering ordering ∈ [.lt, .eq, .gt] := by
    cases ordering <;> decide
  refine ⟨ofOrdering ordering, ⟨hmem, (apply_eq_true_iff h hmem).mpr rfl⟩, ?_⟩
  rintro op ⟨hop, hholds⟩
  exact (apply_eq_true_iff h hop).mp hholds

end Operator

/--
The order and the equality that programs see belong together. The order of two values turned
round is their order with its direction reversed; where there is one, it is equality just for
values that are equal, so that of `<`, `==` and `>` just one holds. To be less is transitive, and
values that compare as equal compare alike with all others, booleans and numbers mixed or not.
Equality is symmetric and transitive for values of all kinds.
-/
theorem order_and_equality_cohere :
    (∀ a b : Value, b.order a = (a.order b).map .swap) ∧
    (∀ (a b : Value) (ordering : Ordering), a.order b = some ordering →
      (ordering = .eq ↔ a.looseEq b = true) ∧
      ∃! op : Operator, op ∈ [.lt, .eq, .gt] ∧ op.apply a b = .ok (.boolean true)) ∧
    (∀ a b c : Value, a.order b = some .lt → b.order c = some .lt → a.order c = some .lt) ∧
    (∀ a b c : Value, a.order b = some .eq →
      a.order c = b.order c ∧ c.order a = c.order b) ∧
    (∀ a b : Value, a.looseEq b = true → b.looseEq a = true) ∧
    ∀ a b c : Value, a.looseEq b = true → b.looseEq c = true → a.looseEq c = true := by
  refine ⟨Value.order_swap, ?_, ?_, ?_, ?_, ?_⟩
  · intro a b ordering h
    exact ⟨Value.order_eq_iff_looseEq h, Operator.existsUnique_holds h⟩
  · intro a b c hab hbc
    exact Value.order_lt_trans hab hbc
  · intro a b c h
    have hleft := Value.order_congr_left h c
    refine ⟨hleft, ?_⟩
    rw [Value.order_swap a c, Value.order_swap b c, hleft]
  · intro a b h
    exact Value.looseEq_symm h
  · intro a b c hab hbc
    exact Value.looseEq_trans hab hbc

theorem order_and_equality_cohere_flags :
    (Value.boolean false).order (.number 0.5) = some .lt ∧
    (Value.number 0.5).order (.boolean true) = some .lt ∧
    (Value.boolean false).order (.boolean true) = some .lt ∧
    (Value.number (-0)).order (.boolean false) = some .eq ∧
    (Value.number (-0)).order (.number 0.5) = (Value.boolean false).order (.number 0.5) ∧
    (Value.list [.number 0]).looseEq (.list [.number (-0)]) = true ∧
    (Value.list [.number (-0)]).looseEq (.list [.number 0]) = true := by
  obtain ⟨-, -, htrans, hcongr, hsymm, -⟩ := order_and_equality_cohere
  have hbelow : (Value.boolean false).order (.number 0.5) = some .lt := by
    decide
  have habove : (Value.number 0.5).order (.boolean true) = some .lt := by
    decide
  have hzero : (Value.number (-0)).order (.boolean false) = some .eq := by
    decide
  have hlists : (Value.list [.number 0]).looseEq (.list [.number (-0)]) = true := by
    rfl
  exact ⟨hbelow, habove, htrans _ _ _ hbelow habove, hzero, (hcongr _ _ _ hzero).1, hlists,
    hsymm _ _ hlists⟩

end DocScript
