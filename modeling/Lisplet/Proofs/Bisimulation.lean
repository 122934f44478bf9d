import Lisplet.Value.Equality
import Mathlib.Data.List.Forall2
import Mathlib.Order.Bounds.Basic

/-! # Equality is bisimilarity

Lists can contain themselves and each other, so there is no smallest sensible notion of equal
lists but a largest one: two values are equal unless a difference can be reached.  A relation
that never overlooks a difference is a *bisimulation*, and equality decides the greatest one.

Equality takes a pair of lists for equal while it is being compared.  That is sound because the
assumption is only used inside the comparison that will discharge it: `exists_upTo_of_equalWithin`
collects the pairs met on the way into a relation that is a bisimulation up to the pairs still
underway, and at the outermost comparison none are.  The same assumption makes the comparison
end: every list pair that is opened is a new one (`asks_wellFounded`). -/

namespace Lisplet.Value

/-- Equal values that are not lists.  Numbers compare as doubles, so NaN equals nothing and
    the two zeros are equal; closures are known by their code and library functions by name. -/
inductive EqualLeaves : Value → Value → Prop where
  | null : EqualLeaves .null .null
  | bool (b : Bool) : EqualLeaves (.bool b) (.bool b)
  | string (s : String) : EqualLeaves (.string s) (.string s)
  | number {x y : Float} (h : (x == y) = true) : EqualLeaves (.number x) (.number y)
  | closure (name name' : Option String) (code : ClosureRef) :
      EqualLeaves (.closure name code) (.closure name' code)
  | builtin (name : String) : EqualLeaves (.builtin name) (.builtin name)

/-- No difference shows between two values at first sight, and `R` relates what lies below:
    equal leaves, lists that share their storage, or lists of equal length with related
    elements. -/
inductive Matched (ls : Lists) (R : Value → Value → Prop) : Value → Value → Prop where
  | leaves {a b : Value} (h : EqualLeaves a b) : Matched ls R a b
  | shared (r : ListRef) : Matched ls R (.list r) (.list r)
  | elements {r s : ListRef} (h : List.Forall₂ R (ls.items r) (ls.items s)) :
      Matched ls R (.list r) (.list s)

/-- A relation that overlooks no difference. -/
def IsBisimulation (ls : Lists) (R : Value → Value → Prop) : Prop :=
  ∀ a b, R a b → Matched ls R a b

/-- A relation that overlooks no difference but those between lists that are being compared. -/
def IsBisimulationUpTo (ls : Lists) (underway : List (ListRef × ListRef))
    (R : Value → Value → Prop) : Prop :=
  ∀ a b, R a b → (∃ r s, (r, s) ∈ underway ∧ a = .list r ∧ b = .list s) ∨ Matched ls R a b

/-- The comparisons that the comparison of two lists asks for: those of their elements, while
    the lists themselves are underway. -/
inductive Asks (ls : Lists) : List (ListRef × ListRef) × Value × Value →
    List (ListRef × ListRef) × Value × Value → Prop where
  | element {underway : List (ListRef × ListRef)} {r s : ListRef} {x y : Value}
      (hnew : ¬(r = s ∨ (r, s) ∈ underway)) (hmem : (x, y) ∈ (ls.items r).zip (ls.items s)) :
      Asks ls ((r, s) :: underway, x, y) (underway, .list r, .list s)

theorem Matched.mono {ls : Lists} {R R' : Value → Value → Prop} {a b : Value}
    (h : Matched ls R a b) (hR : ∀ a b, R a b → R' a b) : Matched ls R' a b := by
  cases h with
  | leaves h => exact .leaves h
  | shared r => exact .shared r
  | elements h => exact .elements (h.imp hR)

/-! ## One step of the comparison -/

/-- The test on leaves is right. -/
private theorem sameLeaf_iff {a b : Value} : sameLeaf a b = true ↔ EqualLeaves a b := by
  constructor
  · intro h
    unfold sameLeaf at h
    split at h
    · exact .null
    · exact .number h
    · cases beq_iff_eq.1 h; exact .bool _
    · cases beq_iff_eq.1 h; exact .string _
    · cases beq_iff_eq.1 h; exact .closure ..
    · cases beq_iff_eq.1 h; exact .builtin _
    · cases h
  · intro h
    cases h with
    | number h => exact h
    | _ => simp [sameLeaf]

/-- A storage that does not exist counts as empty. -/
theorem items_eq_nil {ls : Lists} {r : ListRef} (h : ¬r.index < ls.size) : ls.items r = [] := by
  rw [Lists.items, Lists.cell, Array.getElem?_eq_none (Nat.not_lt.1 h)]
  rfl

/-- Of two lists that do not both exist, one is empty. -/
private theorem items_eq_nil_or {ls : Lists} {r s : ListRef}
    (h : ¬(r.index < ls.size ∧ s.index < ls.size)) : ls.items r = [] ∨ ls.items s = [] :=
  (Decidable.not_and_iff_or_not.1 h).imp items_eq_nil items_eq_nil

/-- Two lists are equal if they share their storage, are already being compared, or have equal
    elements in equal places. -/
private theorem equalWithin_list {ls : Lists} {underway : List (ListRef × ListRef)}
    {r s : ListRef} :
    equalWithin ls underway (.list r) (.list s) = true ↔
      (r = s ∨ (r, s) ∈ underway) ∨
        List.Forall₂ (fun x y => equalWithin ls ((r, s) :: underway) x y = true)
          (ls.items r) (ls.items s) := by
  rw [equalWithin, List.forall₂_iff_zip]
  by_cases hseen : r = s ∨ (r, s) ∈ underway
  · simp [hseen]
  · rw [dif_neg hseen]
    by_cases hvalid : r.index < ls.size ∧ s.index < ls.size
    · simp only [dif_pos hvalid, hseen, false_or, Bool.and_eq_true, beq_iff_eq, List.all_eq_true]
      exact and_congr_right fun _ => ⟨fun h x y hxy => h (x, y) hxy, fun h p hp => h hp⟩
    · -- one of the two is empty, so they are equal only if both are
      rw [dif_neg hvalid]
      obtain h | h := items_eq_nil_or hvalid
      · simp only [h, hseen, List.isEmpty_nil, Bool.true_and, List.isEmpty_iff, List.length_nil,
          List.zip_nil_left, List.not_mem_nil, false_implies, implies_true, and_true, false_or]
        rw [eq_comm (a := 0), List.length_eq_zero_iff]
      · simp [h, hseen]

/-- Unless both values are lists, leaves are compared. -/
private theorem equalWithin_eq_sameLeaf (ls : Lists) (underway : List (ListRef × ListRef))
    {a b : Value} (h : ∀ r s, a = .list r → b = .list s → False) :
    equalWithin ls underway a b = sameLeaf a b := by
  rw [equalWithin]
  exact h

/-- Induction along a comparison: what holds of the elements of two lists that are opened, with
    the two underway, holds of the lists. -/
private theorem comparison_induction (ls : Lists)
    {motive : List (ListRef × ListRef) → Value → Value → Prop}
    (seen : ∀ underway r s, r = s ∨ (r, s) ∈ underway → motive underway (.list r) (.list s))
    (opened : ∀ underway r s, ¬(r = s ∨ (r, s) ∈ underway) →
      (∀ x y, (x, y) ∈ (ls.items r).zip (ls.items s) → motive ((r, s) :: underway) x y) →
        motive underway (.list r) (.list s))
    (leaf : ∀ underway a b, (∀ r s, a = .list r → b = .list s → False) → motive underway a b)
    (underway : List (ListRef × ListRef)) (a b : Value) : motive underway a b := by
  induction underway, a, b using equalWithin.induct ls with
  | case1 underway r s hseen => exact seen underway r s hseen
  | case2 underway r s hseen _ ih => exact opened underway r s hseen fun x y _ => ih x y
  | case3 underway r s hseen hvalid =>
    -- no elements are asked for, so the lists count as opened all the same
    refine opened underway r s hseen fun x y hxy => ?_
    obtain h | h := items_eq_nil_or hvalid <;> simp [h] at hxy
  | case4 underway a b hleaf => exact leaf underway a b hleaf

/-- No comparison asks for others without end. -/
theorem asks_wellFounded (ls : Lists) : WellFounded (Asks ls) := by
  refine ⟨fun ⟨underway, a, b⟩ => ?_⟩
  induction underway, a, b using comparison_induction ls with
  | seen underway r s hseen =>
    refine ⟨_, fun c hc => ?_⟩
    cases hc with
    | element hnew => exact absurd hseen hnew
  | opened underway r s _ ih =>
    refine ⟨_, fun c hc => ?_⟩
    cases hc with
    | element _ hmem => exact ih _ _ hmem
  | leaf underway a b hleaf =>
    refine ⟨_, fun c hc => ?_⟩
    cases hc with
    | element => exact (hleaf _ _ rfl rfl).elim

/-! ## The whole comparison -/

/-- Equality overlooks nothing: a pair that it accepts lies in a relation that is a bisimulation
    up to the pairs underway. -/
theorem exists_upTo_of_equalWithin {ls : Lists} {underway : List (ListRef × ListRef)}
    {a b : Value} (h : equalWithin ls underway a b = true) :
    ∃ R, IsBisimulationUpTo ls underway R ∧ R a b := by
  induction underway, a, b using comparison_induction ls with
  | seen underway r s hseen =>
    refine ⟨fun a b => a = .list r ∧ b = .list s, ?_, rfl, rfl⟩
    rintro _ _ ⟨rfl, rfl⟩
    obtain rfl | hmem := hseen
    · exact .inr (.shared r)
    · exact .inl ⟨r, s, hmem, rfl, rfl⟩
  | opened underway r s hseen ih =>
    obtain ⟨hlen, helements⟩ := List.forall₂_iff_zip.1 ((equalWithin_list.1 h).resolve_left hseen)
    -- the pairs met below, together with the pair that is compared here
    let R : Value → Value → Prop := fun a b =>
      (∃ R, IsBisimulationUpTo ls ((r, s) :: underway) R ∧ R a b) ∨ (a = .list r ∧ b = .list s)
    have hpair : Matched ls R (.list r) (.list s) :=
      .elements (List.forall₂_iff_zip.2 ⟨hlen, fun hxy => .inl (ih _ _ hxy (helements hxy))⟩)
    refine ⟨R, ?_, .inr ⟨rfl, rfl⟩⟩
    rintro c d (⟨R', hR', hcd⟩ | ⟨rfl, rfl⟩)
    · obtain ⟨r', s', hmem, rfl, rfl⟩ | hmatched := hR' c d hcd
      · obtain heq | hmem := List.mem_cons.1 hmem
        · -- what this comparison assumed of its own pair is discharged here
          cases heq
          exact .inr hpair
        · exact .inl ⟨r', s', hmem, rfl, rfl⟩
      · exact .inr (hmatched.mono fun x y hxy => .inl ⟨R', hR', hxy⟩)
    · exact .inr hpair
  | leaf underway a b hleaf =>
    rw [equalWithin_eq_sameLeaf ls underway hleaf] at h
    exact ⟨EqualLeaves, fun c d hcd => .inr (.leaves hcd), sameLeaf_iff.1 h⟩

/-- Equality accepts everything that a bisimulation relates, whatever is underway. -/
theorem IsBisimulation.equalWithin {ls : Lists} {R : Value → Value → Prop}
    (hR : IsBisimulation ls R) (underway : List (ListRef × ListRef)) {a b : Value} (h : R a b) :
    equalWithin ls underway a b = true := by
  induction underway, a, b using comparison_induction ls with
  | seen underway r s hseen => exact equalWithin_list.2 (.inl hseen)
  | opened underway r s hseen ih =>
    -- of the three reasons to match, only related elements are left
    cases hR _ _ h with
    | leaves hleaf => cases hleaf
    | shared => exact absurd (.inl rfl) hseen
    | elements helements =>
      obtain ⟨hlen, hpairs⟩ := List.forall₂_iff_zip.1 helements
      refine equalWithin_list.2 (.inr (List.forall₂_iff_zip.2 ⟨hlen, fun hxy => ?_⟩))
      exact ih _ _ hxy (hpairs hxy)
  | leaf underway a b hleaf =>
    rw [equalWithin_eq_sameLeaf ls underway hleaf, sameLeaf_iff]
    cases hR a b h with
    | leaves h => exact h
    | shared r => exact (hleaf r r rfl rfl).elim
    | elements => exact (hleaf _ _ rfl rfl).elim

/-- With nothing underway, nothing is overlooked. -/
theorem IsBisimulationUpTo.isBisimulation {ls : Lists} {R : Value → Value → Prop}
    (h : IsBisimulationUpTo ls [] R) : IsBisimulation ls R := by
  intro a b hab
  obtain ⟨r, s, hmem, _⟩ | hmatched := h a b hab
  · cases hmem
  · exact hmatched

/-- Comparing values always ends, and equality is the greatest bisimulation: it overlooks no
    difference, and every relation that overlooks none relates equal values only. -/
theorem equal_isGreatest_bisimulation (ls : Lists) :
    WellFounded (Asks ls) ∧
      IsGreatest {R | IsBisimulation ls R} fun a b => a.equal ls b = true := by
  refine ⟨asks_wellFounded ls, ?_, ?_⟩
  · intro a b h
    obtain ⟨R, hR, hab⟩ := exists_upTo_of_equalWithin h
    -- `a` and `b` match along `R`, and all that `R` relates is equal
    exact (hR.isBisimulation a b hab).mono fun x y hxy => hR.isBisimulation.equalWithin [] hxy
  · intro R hR a b hab
    exact hR.equalWithin [] hab

/-- A list that contains itself equals each of two lists that contain each other. -/
example : equal ⟨#[#[.list ⟨0⟩], #[.list ⟨2⟩], #[.list ⟨1⟩]]⟩ (.list ⟨0⟩) (.list ⟨1⟩) = true := by
  cbv

end Lisplet.Value
