import Lisplet.Primitive.Arithmetic
import Lisplet.Primitive.Sequences
import Lisplet.Proofs.StableSort
import Mathlib.Algebra.Order.Group.Int
import Mathlib.Data.Prod.Lex
import Mathlib.Order.Compare

/-! # The natural order

Numbers have an order, and so have strings, but neither has one with the other, and NaN has none at
all.

* `Double.place`                where a double stands among the others, in a linear order
* `Value.Comparable`            the values that have an order between them
* `Value.Ascends`               the first of two such values is not the greater one
* `Primitive.naturalLess_ends`  the order that sorting goes by without a function, and
* `Primitive.exists_compareValues_eq`
                                the order that the function `<` tests, are this order -/

namespace Lisplet

/-! ## Doubles -/

namespace Double

open Float.Model

/-- Where a number stands: first by its kind, from negative infinity to infinity, and among finite
    numbers of one sign by exponent and mantissa.  Both zeros stand in the middle. -/
def place : UnpackedFloat → ℤ ×ₗ ℤ ×ₗ ℤ
  | .infinity .negative => toLex (-2, toLex (0, 0))
  | .finite .negative mantissa exponent _ => toLex (-1, toLex (-exponent, -mantissa))
  | .zero _ | .notANumber => toLex (0, toLex (0, 0))
  | .finite .positive mantissa exponent _ => toLex (1, toLex (exponent, mantissa))
  | .infinity .positive => toLex (2, toLex (0, 0))

/-- Pairs are compared by their first parts, then by their second. -/
private theorem compare_toLex {α β : Type} [Ord α] [Ord β] (a b : α) (c d : β) :
    compare (toLex (a, c)) (toLex (b, d)) = (compare a b).then (compare c d) := by
  rw [Prod.Lex.compare_def]
  rfl

/-- Negation turns a comparison round. -/
private theorem compare_neg (a b : ℤ) : compare (-a) (-b) = (compare a b).swap := by
  rw [← cmp_eq_compare, ← cmp_eq_compare, cmp_swap]
  exact StrictAnti.cmp_map_eq (fun _ _ h => Int.neg_lt_neg h) a b

/-- Natural numbers are compared as the integers they are. -/
private theorem compare_natCast (a b : ℕ) : compare (a : ℤ) b = compare a b := by
  rw [← cmp_eq_compare, ← cmp_eq_compare]
  exact StrictMono.cmp_map_eq (fun _ _ h => Int.ofNat_lt.2 h) a b

/-- Numbers are compared by their places. -/
private theorem compare_eq_place {u v : UnpackedFloat} (hu : u ≠ .notANumber)
    (hv : v ≠ .notANumber) : u.compare v = some (compare (place u) (place v)) := by
  -- one case for each pair of kinds and signs; only two finite numbers of one sign need more than
  -- `rfl`
  rcases u with (_ | _) | _ | _ | ⟨_ | _, m, e, hm⟩ <;>
    rcases v with (_ | _) | _ | _ | ⟨_ | _, m', e', hm'⟩ <;>
    first
    | exact absurd rfl hu
    | exact absurd rfl hv
    | dsimp only [UnpackedFloat.compare, place]
      simp only [compare_toLex, compare_neg, compare_natCast, Ordering.swap_then]
      rfl

/-- A double that is not NaN has a place. -/
private theorem unpack_ne_notANumber {x : Float} (h : x.isNaN = false) :
    x.toModel.unpack ≠ .notANumber := by
  intro hx
  rw [Float.isNaN, Float.Model.isNaN, hx] at h
  cases h

variable {x y : Float} (hx : x.isNaN = false) (hy : y.isNaN = false)
include hx hy

/-- Doubles are compared by their places. -/
theorem compare_unpack : x.toModel.unpack.compare y.toModel.unpack =
    some (compare (place x.toModel.unpack) (place y.toModel.unpack)) :=
  compare_eq_place (unpack_ne_notANumber hx) (unpack_ne_notANumber hy)

/-- The strict order of doubles is that of their places. -/
private theorem lt_iff_place : x < y ↔ place x.toModel.unpack < place y.toModel.unpack := by
  have hlt : x < y ↔ (x.toModel.unpack.compare y.toModel.unpack == some .lt) = true :=
    decide_eq_true_iff
  rw [hlt, compare_unpack hx hy, beq_iff_eq, Option.some.injEq, compare_lt_iff_lt]

/-- So is the other one. -/
private theorem le_iff_place : x ≤ y ↔ place x.toModel.unpack ≤ place y.toModel.unpack := by
  have hle : x ≤ y ↔ (x.toModel.unpack.compare y.toModel.unpack).any Ordering.isLE = true :=
    decide_eq_true_iff
  rw [hle, compare_unpack hx hy, Option.any_some, Ordering.isLE_iff_ne_gt]
  exact compare_le_iff_le

end Double

/-! ## Values -/

namespace Value

/-- Values that have an order between them: two numbers, neither of which is NaN, or two strings. -/
inductive Comparable : Value → Value → Prop where
  | numbers {x y : Float} (hx : x.isNaN = false) (hy : y.isNaN = false) :
      Comparable (number x) (number y)
  | strings (s t : String) : Comparable (string s) (string t)

/-- The first value goes before the second. -/
def before : Value → Value → Bool
  | number x, number y => decide (x < y)
  | string s, string t => decide (s < t)
  | _, _ => false

/-- The first value is not the greater one. -/
def Ascends : Value → Value → Prop
  | number x, number y => x ≤ y
  | string s, string t => s ≤ t
  | _, _ => False

namespace Comparable

variable {a b c : Value}

theorem symm (h : a.Comparable b) : b.Comparable a := by
  cases h with
  | numbers hx hy => exact .numbers hy hx
  | strings s t => exact .strings t s

/-- Values that have an order with a third one have one with each other. -/
theorem trans (h : a.Comparable b) (h' : b.Comparable c) : a.Comparable c := by
  cases h with
  | numbers hx _ => cases h' with | numbers _ hz => exact .numbers hx hz
  | strings s _ => cases h' with | strings _ u => exact .strings s u

/-- One of two values is not the greater one. -/
private theorem ascends_total (h : a.Comparable b) : a.Ascends b ∨ b.Ascends a := by
  cases h with
  | numbers hx hy =>
    simp only [Ascends, Double.le_iff_place hx hy, Double.le_iff_place hy hx]
    exact le_total _ _
  | strings s t => exact String.le_total s t

/-- The order is transitive. -/
private theorem ascends_trans (h : a.Comparable b) (h' : b.Comparable c) (hab : a.Ascends b)
    (hbc : b.Ascends c) : a.Ascends c := by
  cases h with
  | numbers hx hy =>
    cases h' with
    | numbers _ hz =>
      simp only [Ascends, Double.le_iff_place, hx, hy, hz] at hab hbc ⊢
      exact hab.trans hbc
  | strings s t => cases h' with | strings _ u => exact String.le_trans hab hbc

/-- To go before another value is not to come after it or stand beside it. -/
theorem before_iff (h : a.Comparable b) : a.before b = true ↔ ¬ b.Ascends a := by
  cases h with
  | numbers hx hy =>
    simp only [before, Ascends, decide_eq_true_eq, Double.lt_iff_place hx hy,
      Double.le_iff_place hy hx, not_le]
  | strings s t => simp only [before, Ascends, decide_eq_true_eq, String.not_le]

/-- All values of a list have an order between them if all of them are numbers, none of them NaN, or
    all of them are strings. -/
theorem forall_iff {xs : List Value} : (∀ a ∈ xs, ∀ b ∈ xs, a.Comparable b) ↔
    (∀ v ∈ xs, ∃ x, v = number x ∧ x.isNaN = false) ∨ ∀ v ∈ xs, ∃ s, v = string s := by
  constructor
  · intro h
    cases xs with
    | nil => exact .inl fun _ hv => nomatch hv
    | cons a xs =>
      -- all are of the kind of the first
      have ha : ∀ v ∈ a :: xs, a.Comparable v := h a List.mem_cons_self
      cases ha a List.mem_cons_self with
      | numbers =>
        refine .inl fun v hv => ?_
        cases ha v hv with | numbers _ hy => exact ⟨_, rfl, hy⟩
      | strings =>
        refine .inr fun v hv => ?_
        cases ha v hv with | strings _ t => exact ⟨t, rfl⟩
  · rintro (h | h) a ha b hb
    · obtain ⟨x, rfl, hx⟩ := h a ha
      obtain ⟨y, rfl, hy⟩ := h b hb
      exact .numbers hx hy
    · obtain ⟨s, rfl⟩ := h a ha
      obtain ⟨t, rfl⟩ := h b hb
      exact .strings s t

end Comparable

open MergeSort in
/-- The natural order is a strict weak order of values that have an order between them. -/
theorem orders_before {xs : List Value} (h : ∀ a ∈ xs, ∀ b ∈ xs, a.Comparable b) :
    Orders before xs :=
  .of_total (fun a ha b hb => (h a ha b hb).before_iff)
    (fun a ha b hb => (h a ha b hb).ascends_total)
    fun a ha b hb c hc => (h a ha b hb).ascends_trans (h b hb c hc)

end Value

/-! ## Comparisons of the language -/

namespace Primitive

variable {κ : Type} {a b : Value}

/-- Where there is an order, it is the answer. -/
theorem naturalLess_eq (h : a.Comparable b) :
    (naturalLess a b : Eval κ Bool) = pure (a.before b) := by
  cases h with
  | numbers hx hy =>
    simp only [naturalLess, hx, hy, Bool.or_self, Bool.false_eq_true, if_false, Value.before]
  | strings s t => rfl

/-- Values that have no order are refused. -/
private theorem exists_naturalLess_eq_fail (h : ¬ a.Comparable b) :
    ∃ e, (naturalLess a b : Eval κ Bool) = Eval.fail e := by
  unfold naturalLess
  split
  · next x y =>
    refine ⟨_, if_pos ?_⟩
    -- one of the two must be NaN
    cases hx : x.isNaN with
    | true => rfl
    | false => exact Bool.eq_true_of_not_eq_false fun hy => h (.numbers hx hy)
  · next s t => exact absurd (.strings s t) h
  · exact ⟨_, rfl⟩
  · exact ⟨_, rfl⟩

/-- A comparison by the natural order answers exactly where there is one, and changes nothing. -/
theorem naturalLess_ends (a b : Value) (m : Machine κ) :
    (naturalLess a b).Ends m (fun answer m' => (a.Comparable b ∧ answer = a.before b) ∧ m' = m)
      fun _ m' => m' = m := by
  by_cases h : a.Comparable b
  · rw [naturalLess_eq h]
    exact ⟨⟨h, rfl⟩, rfl⟩
  · obtain ⟨e, he⟩ := exists_naturalLess_eq_fail (κ := κ) h
    rw [he]
    exact rfl

/-- A comparison of numbers finds the smaller one. -/
private theorem any_isLT_compareNumbers (x y : Float) :
    (compareNumbers x y).any Ordering.isLT = decide (x < y) := by
  unfold compareNumbers
  by_cases hlt : x < y
  · simp [hlt]
  · by_cases heq : (x == y) = true <;> by_cases hgt : y < x <;> simp [hlt, heq, hgt]

/-- So does a comparison of strings. -/
private theorem isLT_compareStrings (s t : String) :
    (compareStrings s t).isLT = decide (s < t) := by
  unfold compareStrings
  by_cases hlt : s < t
  · simp [hlt]
  · by_cases heq : s = t <;> simp [hlt, heq]

/-- The order that `<` tests is the natural one. -/
theorem exists_compareValues_eq (h : a.Comparable b) :
    ∃ order, compareValues a b = .ok order ∧ order.any Ordering.isLT = a.before b := by
  cases h with
  | numbers hx hy => exact ⟨_, rfl, any_isLT_compareNumbers _ _⟩
  | strings s t => exact ⟨_, rfl, isLT_compareStrings s t⟩

end Primitive

end Lisplet
