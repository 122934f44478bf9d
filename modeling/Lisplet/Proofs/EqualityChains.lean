import Lisplet.Proofs.Bisimulation
import Lisplet.Proofs.NaturalOrder
import Lisplet.Proofs.Outcomes
import Mathlib.Data.List.Chain

/-! # Chains of equal values

The function `=` takes any number of values and compares each of them with the next one only.  That
is enough, because equality is symmetric and transitive, on cyclic lists as well, although it is not
reflexive: NaN equals nothing, and a list that holds NaN equals itself but no copy of itself.

Both laws follow from equality being the greatest bisimulation.  The converse of a bisimulation is
one again.  Two bisimulations after each other need not be one: if the first relates two lists
because they are one and the same, their elements need not be related to themselves.  But together
with the two, it is.

* `Double.beq_iff_place`          when two doubles are equal
* `Value.equal_symm`,
  `Value.equal_trans`             the laws of equality
* `Registry.chain_iff_all_equal`    what `=` tells about its arguments -/

namespace Lisplet

/-! ## Doubles -/

namespace Double

open Float.Model

variable {x y z : Float}

/-- A double that is NaN has no place. -/
private theorem unpack_eq_notANumber (h : x.isNaN = true) : x.toModel.unpack = .notANumber := by
  cases hx : x.toModel.unpack with
  | notANumber => rfl
  | _ =>
    rw [Float.isNaN, Float.Model.isNaN, hx] at h
    cases h

/-- NaN has no order with anything. -/
private theorem compare_notANumber (u : UnpackedFloat) :
    UnpackedFloat.compare .notANumber u = none ∧ u.compare .notANumber = none := by
  cases u <;> exact ⟨rfl, rfl⟩

/-- Doubles are equal if neither is NaN and they stand in one place. -/
theorem beq_iff_place : (x == y) = true ↔
    x.isNaN = false ∧ y.isNaN = false ∧ place x.toModel.unpack = place y.toModel.unpack := by
  have hbeq : (x == y) = (x.toModel.unpack.compare y.toModel.unpack == some .eq) := rfl
  rw [hbeq, beq_iff_eq]
  cases hx : x.isNaN with
  | true =>
    rw [unpack_eq_notANumber hx, (compare_notANumber _).1]
    simp
  | false =>
    cases hy : y.isNaN with
    | true =>
      rw [unpack_eq_notANumber hy, (compare_notANumber _).2]
      simp
    | false =>
      rw [compare_unpack hx hy, Option.some.injEq, compare_eq_iff_eq]
      simp

/-- Equality of doubles is symmetric. -/
private theorem beq_symm (h : (x == y) = true) : (y == x) = true := by
  obtain ⟨hx, hy, hplace⟩ := beq_iff_place.1 h
  exact beq_iff_place.2 ⟨hy, hx, hplace.symm⟩

/-- And it is transitive. -/
private theorem beq_trans (h : (x == y) = true) (h' : (y == z) = true) : (x == z) = true := by
  obtain ⟨hx, -, hplace⟩ := beq_iff_place.1 h
  obtain ⟨-, hz, hplace'⟩ := beq_iff_place.1 h'
  exact beq_iff_place.2 ⟨hx, hz, hplace.trans hplace'⟩

end Double

/-! ## Values -/

namespace Value

theorem EqualLeaves.symm {a b : Value} (h : EqualLeaves a b) : EqualLeaves b a := by
  cases h with
  | null => exact .null
  | bool b => exact .bool b
  | string s => exact .string s
  | number h => exact .number (Double.beq_symm h)
  | closure name name' code => exact .closure name' name code
  | builtin name => exact .builtin name

theorem EqualLeaves.trans {a b c : Value} (h : EqualLeaves a b) (h' : EqualLeaves b c) :
    EqualLeaves a c := by
  cases h with
  | null => exact h'
  | bool b => exact h'
  | string s => exact h'
  -- only a number equals a number, and only a closure a closure
  | number h => cases h' with | number h' => exact .number (Double.beq_trans h h')
  | closure name _ code => cases h' with | closure _ name' _ => exact .closure name name' code
  | builtin name => exact h'

variable {ls : Lists} {R S : Value → Value → Prop} {a b c : Value}

/-- What matches does so the other way round. -/
theorem Matched.flip (h : Matched ls R a b) : Matched ls (fun x y => R y x) b a := by
  cases h with
  | leaves h => exact .leaves h.symm
  | shared r => exact .shared r
  | elements h => exact .elements h.flip

/-- Lists that are related element by element to a third one between them. -/
private theorem forall₂_comp {xs ys zs : List Value} (h : List.Forall₂ R xs ys)
    (h' : List.Forall₂ S ys zs) : List.Forall₂ (fun x z => ∃ y, R x y ∧ S y z) xs zs := by
  induction h generalizing zs with
  | nil =>
    cases h'
    exact .nil
  | cons hxy _ ih =>
    cases h' with
    | cons hyz h' => exact .cons ⟨_, hxy, hyz⟩ (ih h')

/-- What lies below is related by the one, by the other, or by the one after the other. -/
private theorem Matched.comp (h : Matched ls R a b) (h' : Matched ls S b c) :
    Matched ls (fun x z => R x z ∨ S x z ∨ ∃ y, R x y ∧ S y z) a c := by
  cases h with
  | leaves h =>
    cases h' with
    | leaves h' => exact .leaves (h.trans h')
    -- the first two are one and the same list, so only the second relation says anything
    | shared r => exact .leaves h
    | elements h' => cases h
  | shared r =>
    cases h' with
    | leaves h' => exact .leaves h'
    | shared => exact .shared r
    | elements h' => exact .elements (h'.imp fun _ _ hs => .inr (.inl hs))
  | elements h =>
    cases h' with
    | leaves h' => cases h'
    -- here it is the other way round
    | shared s => exact .elements (h.imp fun _ _ hr => .inl hr)
    | elements h' =>
      exact .elements ((forall₂_comp h h').imp fun _ _ hcomp => .inr (.inr hcomp))

/-- Equality is a bisimulation itself. -/
private theorem isBisimulation_equal (ls : Lists) :
    IsBisimulation ls fun a b => a.equal ls b = true := by
  intro a b h
  obtain ⟨R, hR, hab⟩ := exists_upTo_of_equalWithin h
  exact (hR.isBisimulation a b hab).mono fun x y hxy => hR.isBisimulation.equalWithin [] hxy

/-- Equality is symmetric. -/
theorem equal_symm (h : a.equal ls b = true) : b.equal ls a = true := by
  have hflip : IsBisimulation ls fun a b => b.equal ls a = true :=
    fun a b hba => (isBisimulation_equal ls b a hba).flip
  exact hflip.equalWithin [] h

/-- Equality is transitive. -/
theorem equal_trans (h : a.equal ls b = true) (h' : b.equal ls c = true) :
    a.equal ls c = true := by
  let E : Value → Value → Prop := fun a b => a.equal ls b = true
  have hE : IsBisimulation ls E := isBisimulation_equal ls
  -- lists that share their storage drop out, and then the elements are related directly
  have hcomp : IsBisimulation ls fun a c => E a c ∨ ∃ b, E a b ∧ E b c := by
    rintro a c (hac | ⟨b, hab, hbc⟩)
    · exact (hE a c hac).mono fun _ _ hxy => .inl hxy
    · refine ((hE a b hab).comp (hE b c hbc)).mono fun x z hxz => ?_
      obtain hxz | hxz | hxz := hxz
      · exact .inl hxz
      · exact .inl hxz
      · exact .inr hxz
  exact hcomp.equalWithin [] (.inr ⟨b, h, h'⟩)

end Value

/-! ## Chains -/

namespace Primitive

variable {κ : Type} {ls : Lists} {vs ws : List Value}

/-- The primitives of the names `=` and `==`. -/
private theorem run_of_equality_name {p : Primitive κ}
    (hp : p ∈ (Library.core.primitives : List (Primitive κ)))
    (hname : p.name = "=" ∨ p.name = "==") :
    p.arity = .atLeast 1 ∧ ∀ apply, p.run apply = allEqual := by
  revert p
  -- all others are out because of their names
  simp [Library.primitives, coreTable, variadic, unary, binary, circuit]

/-- The values are compared with their neighbours. -/
private theorem chainEqual_iff_isChain :
    chainEqual ls vs = true ↔ vs.IsChain fun a b => a.equal ls b = true := by
  fun_induction chainEqual ls vs with
  | case1 a b rest ih => rw [Bool.and_eq_true, ih, List.isChain_cons_cons]
  | case2 vs hshort =>
    -- there is no pair of neighbours
    match vs, hshort with
    | [], _ => simp
    | [a], _ => simp
    | a :: b :: rest, hshort => exact absurd rfl (hshort a b rest)

/-- If neighbours are equal, so are all. -/
private theorem chainEqual_iff_pairwise :
    chainEqual ls vs = true ↔ vs.Pairwise fun a b => a.equal ls b = true := by
  let _ : Trans (fun a b => Value.equal ls a b = true) (fun a b => Value.equal ls a b = true)
      (fun a b => Value.equal ls a b = true) := ⟨Value.equal_trans⟩
  rw [chainEqual_iff_isChain, List.isChain_iff_pairwise]

/-- The order of the values makes no difference. -/
private theorem chainEqual_eq_of_perm (h : ws.Perm vs) : chainEqual ls ws = chainEqual ls vs := by
  rw [Bool.eq_iff_iff, chainEqual_iff_pairwise, chainEqual_iff_pairwise]
  exact h.pairwise_iff Value.equal_symm

/-- Any two of the values are equal, whichever comes first. -/
private theorem chainEqual_iff_forall : chainEqual ls vs = true ↔
    ∀ i j (hi : i < vs.length) (hj : j < vs.length), i ≠ j →
      (vs[i]).equal ls vs[j] = true := by
  rw [chainEqual_iff_pairwise, List.pairwise_iff_getElem]
  constructor
  · intro h i j hi hj hne
    obtain hlt | hlt := Nat.lt_or_gt_of_ne hne
    · exact h i j hi hj hlt
    · exact Value.equal_symm (h j i hj hi hlt)
  · intro h i j hi hj hlt
    exact h i j hi hj (Nat.ne_of_lt hlt)

end Primitive

namespace Registry

variable {κ : Type}

/-- The function `=`, which is also called `==`, tells whether any two of its arguments are equal,
    although it compares neighbours only.  So their order makes no difference. -/
theorem chain_iff_all_equal {reg : Registry κ} {hosts : List (String × HostFunction κ)}
    {libraries : List Library} (hreg : reg = .ofLibraries hosts libraries) {name : String}
    (hname : name = "=" ∨ name = "==") (howner : reg.owner? name = some .core) (m : Machine κ)
    {vs : List Value} (hvs : vs ≠ []) :
    ∃ equal : Bool,
      (equal = true ↔ ∀ i j (hi : i < vs.length) (hj : j < vs.length), i ≠ j →
        (vs[i]).equal m.lists vs[j] = true) ∧
      ∀ ws, ws.Perm vs → ∀ o, reg.Concludes (·.apply (.builtin name) ws) m o ↔
        o = (.ok (.bool equal), m.silent) := by
  subst hreg
  obtain ⟨entry, hfind, hcore⟩ := Option.map_eq_some_iff.1 howner
  obtain ⟨p, hp, hpname, hfunction⟩ := exists_primitive_of_find? hfind (by simp [hcore])
  rw [hcore] at hp
  obtain ⟨harity, hrun⟩ := Primitive.run_of_equality_name hp (hpname ▸ hname)
  refine ⟨Primitive.chainEqual m.lists vs, Primitive.chainEqual_iff_forall, fun ws hws o => ?_⟩
  have hlen : p.arity.contains ws.length = true := by
    have hpos : 1 ≤ ws.length := hws.length_eq ▸ List.length_pos_iff.2 hvs
    simpa [harity, Arity.contains] using hpos
  refine concludes_apply_iff_of_returns hfind hfunction hlen fun apply m₀ hm₀ => ?_
  rw [hrun, ← Primitive.chainEqual_eq_of_perm hws, ← Machine.lists_eq_of_silent hm₀]
  rfl

/-- A list that contains itself and two lists that contain each other, in any order. -/
theorem chain_iff_all_equal_cyclic :
    ∃ (reg : Registry Unit) (m : Machine Unit) (vs : List Value),
      reg = .ofLibraries [] Library.all ∧ reg.owner? "=" = some .core ∧
      m.lists = ⟨#[#[.list ⟨0⟩], #[.list ⟨2⟩], #[.list ⟨1⟩]]⟩ ∧
      vs = [.list ⟨0⟩, .list ⟨1⟩, .list ⟨2⟩] ∧
      (∀ i j (hi : i < vs.length) (hj : j < vs.length), i ≠ j →
        (vs[i]).equal m.lists vs[j] = true) ∧
      ∀ ws, ws.Perm vs → ∀ o, reg.Concludes (·.apply (.builtin "=") ws) m o ↔
        o = (.ok (.bool true), m.silent) := by
  let m : Machine Unit :=
    { context := (), lists := ⟨#[#[.list ⟨0⟩], #[.list ⟨2⟩], #[.list ⟨1⟩]]⟩ }
  let vs : List Value := [.list ⟨0⟩, .list ⟨1⟩, .list ⟨2⟩]
  have hneighbours : Primitive.chainEqual m.lists vs = true := by cbv
  have hall := Primitive.chainEqual_iff_forall.1 hneighbours
  have howner : (ofLibraries [] Library.all : Registry Unit).owner? "=" = some .core := by rfl
  have hvs : vs ≠ [] := List.cons_ne_nil _ _
  obtain ⟨equal, hequal, hcall⟩ := chain_iff_all_equal rfl (.inl rfl) howner m hvs
  rw [hequal.2 hall] at hcall
  exact ⟨_, m, vs, rfl, howner, rfl, rfl, hall, hcall⟩

end Registry
end Lisplet
