import Lisplet.MergeSort
import Lisplet.Proofs.Logic
import Mathlib.Data.List.Perm.Basic

/-! # What a merge sort can end with

A merge sort does nothing but ask whether one element goes before another.  `Sorts P xs zs` says
that `zs` is what the sort makes of `xs` if each question is answered in a way that `P` allows, and
leaves open where the answers come from.  So the facts about the result are facts about answers:

* `Sorts.perm`          whatever the answers, no element is lost or doubled
* `Sorts.pairwise`      answers that agree with a transitive relation give a list in that relation
* `Sorts.related`       every element has a part in the questions, and the questions link them all
* `Sorts.isStableSort`  answers that agree with a strict weak order give the stable sort

`sort_ends` ties the sort to its answers: it is the one rule for comparisons that have effects, that
can fail, or that do neither. -/

namespace Lisplet.MergeSort

variable {α β : Type} {P : α → α → Bool → Prop}

/-! ## Answers -/

/-- Merging the first two lists gives the third, with answers that `P` allows.  The question is
    always whether an element of the second list goes before one of the first. -/
inductive Merges (P : α → α → Bool → Prop) : List α → List α → List α → Prop where
  | no_left (ys : List α) : Merges P [] ys ys
  | no_right (xs : List α) : Merges P xs [] xs
  | right {x y : α} {xs ys zs : List α} (h : P y x true) (rest : Merges P (x :: xs) ys zs) :
      Merges P (x :: xs) (y :: ys) (y :: zs)
  | left {x y : α} {xs ys zs : List α} (h : P y x false) (rest : Merges P xs (y :: ys) zs) :
      Merges P (x :: xs) (y :: ys) (x :: zs)

/-- Sorting the first list gives the second, with answers that `P` allows. -/
inductive Sorts (P : α → α → Bool → Prop) : List α → List α → Prop where
  | short {xs : List α} (h : xs.length ≤ 1) : Sorts P xs xs
  | halves {xs left right zs : List α} (h : 1 < xs.length)
      (hleft : Sorts P (xs.take (xs.length / 2)) left)
      (hright : Sorts P (xs.drop (xs.length / 2)) right)
      (hmerge : Merges P left right zs) : Sorts P xs zs

/-- A merge loses and doubles nothing. -/
theorem Merges.perm {xs ys zs : List α} (h : Merges P xs ys zs) : zs.Perm (xs ++ ys) := by
  induction h with
  | no_left ys => exact .refl ys
  | no_right xs => simp
  | right _ _ ih => exact (ih.cons _).trans List.perm_middle.symm
  | left _ _ ih => exact ih.cons _

/-- No element is lost and none is doubled. -/
theorem Sorts.perm {xs zs : List α} (h : Sorts P xs zs) : zs.Perm xs := by
  induction h with
  | short => exact .refl _
  | halves _ _ _ hmerge ihLeft ihRight =>
    have hparts := hmerge.perm.trans (ihLeft.append ihRight)
    rwa [List.take_append_drop] at hparts

/-! ## Order -/

section Order

variable {all : List α} {R T : α → α → Prop}
  (htrans : ∀ a ∈ all, ∀ b ∈ all, ∀ c ∈ all, R a b → R b c → R a c)
include htrans

/-- If what is taken first goes before what is left, a merge of lists in order is in order. -/
theorem Merges.pairwise {xs ys zs : List α} (h : Merges P xs ys zs) (hxs : xs ⊆ all)
    (hys : ys ⊆ all) (htrue : ∀ x ∈ xs, ∀ y ∈ ys, P y x true → R y x)
    (hfalse : ∀ x ∈ xs, ∀ y ∈ ys, P y x false → R x y) (hleft : xs.Pairwise R)
    (hright : ys.Pairwise R) : zs.Pairwise R := by
  induction h with
  | no_left => exact hright
  | no_right => exact hleft
  | @right x y xs ys zs h rest ih =>
    obtain ⟨hy, hright'⟩ := List.pairwise_cons.1 hright
    have hyx : R y x := htrue x List.mem_cons_self y List.mem_cons_self h
    refine List.pairwise_cons.2 ⟨fun z hz => ?_, ?_⟩
    · -- what is left is the rest of the right list, or `x` and what comes after it
      obtain hz | hz := List.mem_append.1 (rest.perm.subset hz)
      · obtain rfl | hz' := List.mem_cons.1 hz
        · exact hyx
        · exact htrans y (hys List.mem_cons_self) x (hxs List.mem_cons_self) z (hxs hz) hyx
            ((List.pairwise_cons.1 hleft).1 z hz')
      · exact hy z hz
    · exact ih hxs (List.subset_of_cons_subset hys)
        (fun x hx y hy => htrue x hx y (List.mem_cons_of_mem _ hy))
        (fun x hx y hy => hfalse x hx y (List.mem_cons_of_mem _ hy)) hleft hright'
  | @left x y xs ys zs h rest ih =>
    obtain ⟨hx, hleft'⟩ := List.pairwise_cons.1 hleft
    have hxy : R x y := hfalse x List.mem_cons_self y List.mem_cons_self h
    refine List.pairwise_cons.2 ⟨fun z hz => ?_, ?_⟩
    · obtain hz | hz := List.mem_append.1 (rest.perm.subset hz)
      · exact hx z hz
      · obtain rfl | hz' := List.mem_cons.1 hz
        · exact hxy
        · exact htrans x (hxs List.mem_cons_self) y (hys List.mem_cons_self) z (hys hz) hxy
            ((List.pairwise_cons.1 hright).1 z hz')
    · exact ih (List.subset_of_cons_subset hxs) hys
        (fun x hx => htrue x (List.mem_cons_of_mem _ hx))
        (fun x hx => hfalse x (List.mem_cons_of_mem _ hx)) hleft' hright

/-- What the answers have to agree with: `R` is the order of the result, and `T` holds of elements
    that stood in this order before.  Only such elements are ever compared, the later with the
    earlier one. -/
theorem Sorts.pairwise {xs zs : List α} (h : Sorts P xs zs) (hxs : xs ⊆ all) (hT : xs.Pairwise T)
    (htrue : ∀ x ∈ all, ∀ y ∈ all, T x y → P y x true → R y x)
    (hfalse : ∀ x ∈ all, ∀ y ∈ all, T x y → P y x false → R x y) : zs.Pairwise R := by
  induction h with
  | @short xs hshort =>
    match xs, hshort with
    | [], _ => exact .nil
    | [x], _ => exact List.pairwise_singleton R x
  | @halves xs left right zs _ hleft hright hmerge ihLeft ihRight =>
    have hsubset : left ⊆ all := fun a ha => hxs (List.mem_of_mem_take (hleft.perm.subset ha))
    have hsubset' : right ⊆ all := fun a ha => hxs (List.mem_of_mem_drop (hright.perm.subset ha))
    -- the left half stood before the right one
    have hbefore : ∀ x ∈ left, ∀ y ∈ right, T x y := fun x hx y hy =>
      hT.rel_of_mem_take_of_mem_drop (hleft.perm.subset hx) (hright.perm.subset hy)
    refine hmerge.pairwise htrans hsubset hsubset'
      (fun x hx y hy => htrue x (hsubset hx) y (hsubset' hy) (hbefore x hx y hy))
      (fun x hx y hy => hfalse x (hsubset hx) y (hsubset' hy) (hbefore x hx y hy)) ?_ ?_
    · exact ihLeft (fun a ha => hxs (List.mem_of_mem_take ha)) hT.take
    · exact ihRight (fun a ha => hxs (List.mem_of_mem_drop ha)) hT.drop

end Order

/-! ## Links -/

section Links

variable {C : α → α → Prop} (hsymm : ∀ a b, C a b → C b a) (htrans : ∀ a b c, C a b → C b c → C a c)
  (hP : ∀ a b answer, P a b answer → C a b)
include hsymm htrans hP

/-- Lists that are linked inside are linked with each other by the first question of their merge.  A
    list of one element needs no link inside, since that element is the one that is asked for. -/
theorem Merges.related {xs ys zs : List α} (h : Merges P xs ys zs) (hxs : xs ≠ []) (hys : ys ≠ [])
    (hleft : xs.length ≤ 1 ∨ ∀ a ∈ xs, ∀ b ∈ xs, C a b)
    (hright : ys.length ≤ 1 ∨ ∀ a ∈ ys, ∀ b ∈ ys, C a b) :
    ∀ a ∈ xs ++ ys, ∀ b ∈ xs ++ ys, C a b := by
  -- any list that has an element `c` in it, known to be linked with itself
  have hall : ∀ {l : List α} {c : α}, c ∈ l → C c c →
      (l.length ≤ 1 ∨ ∀ a ∈ l, ∀ b ∈ l, C a b) → ∀ a ∈ l, C a c := by
    intro l c hc hcc hl a ha
    obtain hshort | hl := hl
    · match l, hshort with
      | [_], _ => rwa [List.mem_singleton.1 ha, ← List.mem_singleton.1 hc]
    · exact hl a ha c hc
  -- both lists have elements, so at least one question is asked
  have hlink : ∃ x ∈ xs, ∃ y ∈ ys, C y x := by
    cases h with
    | no_left => exact absurd rfl hxs
    | no_right => exact absurd rfl hys
    | right h => exact ⟨_, List.mem_cons_self, _, List.mem_cons_self, hP _ _ _ h⟩
    | left h => exact ⟨_, List.mem_cons_self, _, List.mem_cons_self, hP _ _ _ h⟩
  obtain ⟨x, hx, y, hy, hyx⟩ := hlink
  have hxx : C x x := htrans x y x (hsymm y x hyx) hyx
  have hyy : C y y := htrans y x y hyx (hsymm y x hyx)
  have htoX : ∀ a ∈ xs ++ ys, C a x := by
    intro a ha
    obtain ha | ha := List.mem_append.1 ha
    · exact hall hx hxx hleft a ha
    · exact htrans a y x (hall hy hyy hright a ha) hyx
  exact fun a ha b hb => htrans a x b (htoX a ha) (hsymm b x (htoX b hb))

/-- If questions are only answered for elements of one kind, a list of more than one element is
    sorted only if all of its elements are of one kind. -/
theorem Sorts.related {xs zs : List α} (h : Sorts P xs zs) :
    xs.length ≤ 1 ∨ ∀ a ∈ xs, ∀ b ∈ xs, C a b := by
  induction h with
  | short hshort => exact .inl hshort
  | @halves xs left right zs hlong hleft hright hmerge ihLeft ihRight =>
    right
    have hparts : (left ++ right).Perm xs := by
      have := hleft.perm.append hright.perm
      rwa [List.take_append_drop] at this
    have hlengthLeft := hleft.perm.length_eq
    have hlengthRight := hright.perm.length_eq
    rw [List.length_take] at hlengthLeft
    rw [List.length_drop] at hlengthRight
    -- neither half of a list of two or more is empty
    have hneLeft : left ≠ [] := List.ne_nil_of_length_pos (by omega)
    have hneRight : right ≠ [] := List.ne_nil_of_length_pos (by omega)
    have hrelated := hmerge.related hsymm htrans hP hneLeft hneRight
      (by simpa only [hleft.perm.length_eq, hleft.perm.mem_iff] using ihLeft)
      (by simpa only [hright.perm.length_eq, hright.perm.mem_iff] using ihRight)
    exact fun a ha b hb => hrelated a (hparts.mem_iff.2 ha) b (hparts.mem_iff.2 hb)

end Links

/-! ## Stability -/

/-- Neither element goes before the other. -/
def Tied (lt : α → α → Bool) (a b : α) : Prop := lt a b = false ∧ lt b a = false

/-- A strict weak order of the elements of a list. -/
structure Orders (lt : α → α → Bool) (xs : List α) : Prop where
  irrefl : ∀ a ∈ xs, lt a a = false
  trans : ∀ a ∈ xs, ∀ b ∈ xs, ∀ c ∈ xs, lt a b = true → lt b c = true → lt a c = true
  tied_trans : ∀ a ∈ xs, ∀ b ∈ xs, ∀ c ∈ xs, Tied lt a b → Tied lt b c → Tied lt a c

/-- Of two elements with their positions, the first may stand before the second: it is not the
    greater one, and if they are tied, it stood before it at the start. -/
def Precedes (lt : α → α → Bool) (p q : α × Nat) : Prop :=
  lt q.1 p.1 = false ∧ (lt p.1 q.1 = false → p.2 < q.2)

/-- The second list has the elements of the first one in an order in which no element is less than
    an earlier one and tied elements are as they were.  The elements are told apart by their
    positions, so that this says something of equal elements as well. -/
def IsStableSort (lt : α → α → Bool) (xs ys : List α) : Prop :=
  ∃ placed : List (α × Nat), placed.Perm xs.zipIdx ∧ placed.Pairwise (Precedes lt) ∧
    placed.map Prod.fst = ys

namespace IsStableSort

variable {lt : α → α → Bool} {xs ys ys' : List α}

/-- A stable sort has the same elements. -/
theorem perm (h : IsStableSort lt xs ys) : ys.Perm xs := by
  obtain ⟨placed, hperm, -, rfl⟩ := h
  simpa only [List.zipIdx_map_fst] using hperm.map Prod.fst

/-- No element is less than an earlier one. -/
theorem pairwise (h : IsStableSort lt xs ys) : ys.Pairwise fun a b => lt b a = false := by
  obtain ⟨placed, -, hplaced, rfl⟩ := h
  exact List.pairwise_map.2 (hplaced.imp And.left)

/-- There is nothing to sort in a list of at most one element. -/
theorem of_length_le_one (h : xs.length ≤ 1) : IsStableSort lt xs xs := by
  refine ⟨xs.zipIdx, .refl _, ?_, List.zipIdx_map_fst 0 xs⟩
  match xs, h with
  | [], _ => exact .nil
  | [x], _ => exact List.pairwise_singleton _ _

/-- There is only one stable sort of a list. -/
theorem unique (h : IsStableSort lt xs ys) (h' : IsStableSort lt xs ys') : ys = ys' := by
  obtain ⟨placed, hperm, hplaced, rfl⟩ := h
  obtain ⟨placed', hperm', hplaced', rfl⟩ := h'
  have hantisymm : ∀ p q, p ∈ placed → q ∈ placed' → Precedes lt p q → Precedes lt q p → p = q :=
    fun p q _ _ hpq hqp => absurd (hpq.2 hqp.1) (Nat.lt_asymm (hqp.2 hpq.1))
  rw [List.Perm.eq_of_pairwise hantisymm hplaced hplaced' (hperm.trans hperm'.symm)]

end IsStableSort

namespace Orders

variable {lt : α → α → Bool} {xs : List α}

/-- To be greater is a strict weak order where of any two elements one is not the greater one. -/
theorem of_total {le : α → α → Prop} (hlt : ∀ a ∈ xs, ∀ b ∈ xs, lt a b = true ↔ ¬ le b a)
    (htotal : ∀ a ∈ xs, ∀ b ∈ xs, le a b ∨ le b a)
    (htrans : ∀ a ∈ xs, ∀ b ∈ xs, ∀ c ∈ xs, le a b → le b c → le a c) : Orders lt xs := by
  have hnot : ∀ a ∈ xs, ∀ b ∈ xs, (lt a b = false ↔ le b a) := fun a ha b hb => by
    rw [← Bool.not_eq_true, hlt a ha b hb, Classical.not_not]
  refine ⟨fun a ha => ?_, fun a ha b hb c hc hab hbc => ?_, fun a ha b hb c hc hab hbc => ?_⟩
  · exact (hnot a ha a ha).2 ((htotal a ha a ha).elim id id)
  · rw [hlt a ha b hb] at hab
    rw [hlt b hb c hc] at hbc
    rw [hlt a ha c hc]
    intro hca
    exact hbc (htrans c hc a ha b hb hca ((htotal a ha b hb).resolve_right hab))
  · obtain ⟨hba, hab⟩ := hab
    obtain ⟨hcb, hbc⟩ := hbc
    rw [hnot _ ha _ hb] at hba
    rw [hnot _ hb _ ha] at hab
    rw [hnot _ hb _ hc] at hcb
    rw [hnot _ hc _ hb] at hbc
    exact ⟨(hnot a ha c hc).2 (htrans c hc b hb a ha hcb hba),
      (hnot c hc a ha).2 (htrans a ha b hb c hc hab hbc)⟩

variable (h : Orders lt xs)
include h

/-- Of two elements one goes before the other at most. -/
private theorem asymm {a b : α} (ha : a ∈ xs) (hb : b ∈ xs) (hab : lt a b = true) :
    lt b a = false := by
  rw [← Bool.not_eq_true]
  intro hba
  have haa := h.trans a ha b hb a ha hab hba
  rw [h.irrefl a ha] at haa
  cases haa

/-- An element that is not less than a second, which is not less than a third, is not less than the
    third. -/
private theorem not_lt_trans {a b c : α} (ha : a ∈ xs) (hb : b ∈ xs) (hc : c ∈ xs)
    (hba : lt b a = false) (hcb : lt c b = false) : lt c a = false := by
  rw [← Bool.not_eq_true]
  intro hca
  -- each of the two pairs is tied, since an order between them would contradict the assumptions
  have hab : lt a b = false := by
    rw [← Bool.not_eq_true]
    intro hab
    rw [h.trans c hc a ha b hb hca hab] at hcb
    cases hcb
  have hbc : lt b c = false := by
    rw [← Bool.not_eq_true]
    intro hbc
    rw [h.trans b hb c hc a ha hbc hca] at hba
    cases hba
  rw [(h.tied_trans a ha b hb c hc ⟨hab, hba⟩ ⟨hbc, hcb⟩).2] at hca
  cases hca

/-- What may stand before another element may stand before what comes after it. -/
private theorem precedes_trans {p q r : α × Nat} (hp : p.1 ∈ xs) (hq : q.1 ∈ xs) (hr : r.1 ∈ xs)
    (hpq : Precedes lt p q) (hqr : Precedes lt q r) : Precedes lt p r := by
  have hrp : lt r.1 p.1 = false := h.not_lt_trans hp hq hr hpq.1 hqr.1
  refine ⟨hrp, fun hpr => ?_⟩
  -- if the outer two are tied, so are the inner ones, and positions decide
  have hqp : lt p.1 q.1 = false := h.not_lt_trans hq hr hp hqr.1 hpr
  have hrq : lt q.1 r.1 = false := h.not_lt_trans hr hp hq hpr hpq.1
  exact Nat.lt_trans (hpq.2 hqp) (hqr.2 hrq)

end Orders

/-- A merge of labelled elements. -/
private theorem Merges.of_map {f : β → α} {ls rs : List β} {zs : List α}
    (h : Merges P (ls.map f) (rs.map f) zs) :
    ∃ ws, Merges (fun a b => P (f a) (f b)) ls rs ws ∧ ws.map f = zs := by
  generalize hxs : ls.map f = xs at h
  generalize hys : rs.map f = ys at h
  induction h generalizing ls rs with
  | no_left ys =>
    rw [List.map_eq_nil_iff.1 hxs]
    exact ⟨rs, .no_left rs, hys⟩
  | no_right xs =>
    rw [List.map_eq_nil_iff.1 hys]
    exact ⟨ls, .no_right ls, hxs⟩
  | right h _ ih =>
    obtain ⟨l, ls', rfl, rfl, rfl⟩ := List.map_eq_cons_iff.1 hxs
    obtain ⟨r, rs', rfl, rfl, rfl⟩ := List.map_eq_cons_iff.1 hys
    obtain ⟨ws, hws, rfl⟩ := ih List.map_cons rfl
    exact ⟨r :: ws, .right h hws, rfl⟩
  | left h _ ih =>
    obtain ⟨l, ls', rfl, rfl, rfl⟩ := List.map_eq_cons_iff.1 hxs
    obtain ⟨r, rs', rfl, rfl, rfl⟩ := List.map_eq_cons_iff.1 hys
    obtain ⟨ws, hws, rfl⟩ := ih rfl List.map_cons
    exact ⟨l :: ws, .left h hws, rfl⟩

/-- Elements can be given labels that no answer depends on. -/
private theorem Sorts.of_map {f : β → α} {ts : List β} {zs : List α} (h : Sorts P (ts.map f) zs) :
    ∃ ws, Sorts (fun a b => P (f a) (f b)) ts ws ∧ ws.map f = zs := by
  generalize hxs : ts.map f = xs at h
  induction h generalizing ts with
  | short hshort =>
    subst hxs
    exact ⟨ts, .short (by simpa using hshort), rfl⟩
  | halves hlong _ _ hmerge ihLeft ihRight =>
    subst hxs
    rw [List.length_map] at hlong ihLeft ihRight
    obtain ⟨ls, hls, rfl⟩ := ihLeft List.map_take
    obtain ⟨rs, hrs, rfl⟩ := ihRight List.map_drop
    obtain ⟨ws, hws, hmap⟩ := hmerge.of_map
    exact ⟨ws, .halves hlong hls hrs hws, hmap⟩

/-- Answers that agree with a strict weak order of the elements give the stable sort. -/
theorem Sorts.isStableSort {lt : α → α → Bool} {xs zs : List α} (horder : Orders lt xs)
    (h : Sorts (fun a b answer => answer = lt a b) xs zs) : IsStableSort lt xs zs := by
  -- each element is labelled with its position
  rw [← List.zipIdx_map_fst 0 xs] at h
  obtain ⟨placed, hplaced, hmap⟩ := h.of_map
  have hmem : ∀ p ∈ xs.zipIdx, p.1 ∈ xs := fun p hp => List.fst_mem_of_mem_zipIdx hp
  have hpositions : xs.zipIdx.Pairwise fun p q => p.2 < q.2 := by
    rw [← List.pairwise_map, List.zipIdx_map_snd]
    exact List.pairwise_lt_range'
  refine ⟨placed, hplaced.perm, ?_, hmap⟩
  refine hplaced.pairwise (T := fun p q => p.2 < q.2) ?_ (List.Subset.refl _) hpositions ?_ ?_
  · exact fun p hp q hq r hr => horder.precedes_trans (hmem p hp) (hmem q hq) (hmem r hr)
  · intro p hp q hq _ hlt
    refine ⟨horder.asymm (hmem q hq) (hmem p hp) hlt.symm, fun hnot => ?_⟩
    rw [hnot] at hlt
    cases hlt
  · exact fun p hp q hq hpositions hlt => ⟨hlt.symm, fun _ => hpositions⟩

/-! ## Where the answers come from -/

section Runs

variable {κ : Type} {less : α → α → Eval κ Bool} {J : Machine κ → Prop}
  {exit : Unwind → Machine κ → Prop} {m : Machine κ}

/-- What holds of each comparison holds of a merge. -/
private theorem mergeOnto_ends {done left right : List α}
    (hless : ∀ y ∈ right, ∀ x ∈ left, ∀ m, J m →
      (less y x).Ends m (fun answer m' => P y x answer ∧ J m') exit) (hm : J m) :
    (mergeOnto less done left right).Ends m
      (fun zs m' => (∃ merged, zs = done.reverse ++ merged ∧ Merges P left right merged) ∧ J m')
      exit := by
  fun_induction mergeOnto less done left right generalizing m with
  | case1 done ys => exact ⟨⟨ys, List.reverseAux_eq, .no_left ys⟩, hm⟩
  | case2 done xs => exact ⟨⟨xs, List.reverseAux_eq, .no_right xs⟩, hm⟩
  | case3 done x xs y ys ihRight ihLeft =>
    rw [Eval.ends_bind]
    refine (hless y List.mem_cons_self x List.mem_cons_self m hm).imp_post ?_
    rintro answer m₁ ⟨hanswer, hm₁⟩
    -- the answer says which list the next element is taken from
    cases answer with
    | true =>
      refine (ihRight (fun b hb => hless b (List.mem_cons_of_mem y hb)) hm₁).imp_post ?_
      rintro _ m₂ ⟨⟨merged, rfl, hmerged⟩, hm₂⟩
      exact ⟨⟨y :: merged, by simp, .right hanswer hmerged⟩, hm₂⟩
    | false =>
      refine (ihLeft (fun b hb a ha => hless b hb a (List.mem_cons_of_mem x ha)) hm₁).imp_post ?_
      rintro _ m₂ ⟨⟨merged, rfl, hmerged⟩, hm₂⟩
      exact ⟨⟨x :: merged, by simp, .left hanswer hmerged⟩, hm₂⟩

/-- What holds of each comparison holds of the whole sort.  `J` holds of the machine between the
    comparisons, `P` of the answers, and `exit` where a comparison does not come to an answer. -/
theorem sort_ends {xs : List α}
    (hless : ∀ a ∈ xs, ∀ b ∈ xs, ∀ m, J m →
      (less a b).Ends m (fun answer m' => P a b answer ∧ J m') exit) (hm : J m) :
    (sort less xs).Ends m (fun zs m' => Sorts P xs zs ∧ J m') exit := by
  fun_induction sort less xs generalizing m with
  | case1 xs hshort => exact ⟨.short hshort, hm⟩
  | case2 xs hlong ihLeft ihRight =>
    simp only [Eval.ends_bind]
    refine (ihLeft (fun a ha b hb => hless a (List.mem_of_mem_take ha) b
      (List.mem_of_mem_take hb)) hm).imp_post ?_
    rintro left m₁ ⟨hleft, hm₁⟩
    refine (ihRight (fun a ha b hb => hless a (List.mem_of_mem_drop ha) b
      (List.mem_of_mem_drop hb)) hm₁).imp_post ?_
    rintro right m₂ ⟨hright, hm₂⟩
    -- the halves are sorted by now, but they have the same elements
    have hcompare : ∀ y ∈ right, ∀ x ∈ left, ∀ m, J m →
        (less y x).Ends m (fun answer m' => P y x answer ∧ J m') exit := fun y hy x hx =>
      hless y (List.mem_of_mem_drop (hright.perm.subset hy)) x
        (List.mem_of_mem_take (hleft.perm.subset hx))
    refine (mergeOnto_ends hcompare hm₂).imp_post ?_
    rintro _ m₃ ⟨⟨zs, rfl, hzs⟩, hm₃⟩
    exact ⟨.halves (by omega) hleft hright hzs, hm₃⟩

end Runs

end Lisplet.MergeSort
