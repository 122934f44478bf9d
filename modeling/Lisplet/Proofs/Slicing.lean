import Lisplet.Proofs.LibraryCalls
import Lisplet.Proofs.SafeAccess

/-! # Slices as windows

A slice has the elements whose positions lie in a window, whatever integers its bounds are.  So two
slices that meet at a bound have all the elements, and the same holds for the parts of a string.

* `Slice.position`             the position that a bound means
* `Slice.window`               the elements whose positions lie between two bounds
* `Slice.between_eq_window`    a slice has the elements of a window
* `Slice.between_append`       slices that meet have all the elements
* `Registry.slices_partition`  the same for the functions `slice`, `concat` and `substring` -/

namespace Lisplet

variable {κ : Type}

namespace Slice

/-- The position that a bound means in a sequence of `length` elements.  A negative bound counts
    from the end. -/
def position (k : Int) (length : Nat) : Int :=
  max 0 (min (if k < 0 then length + k else k) length)

/-- The elements whose positions lie from `first` up to, but not including, `last`. -/
def window {α : Type} (first last : Int) (xs : List α) : List α :=
  (xs.zipIdx.filter fun p => first ≤ p.2 ∧ p.2 < last).map Prod.fst

/-- A clamped bound as an integer. -/
private theorem coe_clamp (k : Int) (length : Nat) :
    (clamp k length : Int) = max 0 (min k length) := by
  unfold clamp
  omega

/-- A resolved bound is the position that is meant. -/
private theorem coe_resolve (k : Int) (length : Nat) :
    (resolve k length : Int) = position k length :=
  coe_clamp ..

/-- The start is a position of every sequence. -/
@[simp] theorem clamp_zero (length : Nat) : clamp 0 length = 0 := by
  simp [clamp]

/-- And it is not counted from the end. -/
@[simp] theorem resolve_zero (length : Nat) : resolve 0 length = 0 := clamp_zero length

/-- The positions are counted from `n` on. -/
private theorem window_from_eq_between {α : Type} (start stop n : Nat) (xs : List α) :
    ((xs.zipIdx n).filter fun p => (start : Int) ≤ p.2 ∧ (p.2 : Int) < stop).map Prod.fst =
      between (start - n) (stop - n) xs := by
  induction xs generalizing n with
  | nil => simp [between]
  | cons x xs ih =>
    have hrest := ih (n + 1)
    by_cases hstart : start ≤ n
    · by_cases hstop : n < stop
      · -- `x` lies in the window, and so do all that follow up to its end
        have hfirst : start - n = 0 := by omega
        have hlast : stop - n = stop - (n + 1) + 1 := by omega
        have hnext : start - (n + 1) = 0 := by omega
        simp_all [between, List.zipIdx_cons]
      · -- the window has ended before `x`
        have hlast : stop - n = 0 := by omega
        have hnext : stop - (n + 1) = 0 := by omega
        have hout : ¬ (n : Int) < stop := by omega
        simp_all [between, List.zipIdx_cons]
    · -- the window starts after `x`
      have hfirst : start - n = start - (n + 1) + 1 := by omega
      have hwidth : stop - n - (start - n) = stop - (n + 1) - (start - (n + 1)) := by omega
      have hout : ¬ (start : Int) ≤ n := by omega
      simp_all [between, List.zipIdx_cons]

/-- A slice has the elements of a window. -/
theorem between_eq_window {α : Type} (start stop : Nat) (xs : List α) :
    between start stop xs = window start stop xs :=
  (window_from_eq_between start stop 0 xs).symm

/-- The second slice goes on where the first one stops. -/
theorem between_append {α : Type} (k : Nat) (xs : List α) :
    between 0 k xs ++ between k xs.length xs = xs := by
  have hback : (xs.drop k).take (xs.length - k) = xs.drop k :=
    List.take_of_length_le (by simp)
  simp [between, hback]

/-- A slice from the start has as many elements as its bound says. -/
private theorem length_between_zero {α : Type} {k : Nat} {xs : List α} (h : k ≤ xs.length) :
    (between 0 k xs).length = k := by
  simp [between, h]

/-- A slice has elements of the sequence only. -/
private theorem between_subset {α : Type} (start stop : Nat) (xs : List α) :
    between start stop xs ⊆ xs :=
  List.Subset.trans (List.take_subset _ _) (List.drop_subset _ _)

end Slice

/-- A new list of elements of a list leaves that list as it is, even if there is no such list. -/
private theorem Machine.items_withList_of_subset {m : Machine κ} {r : ListRef} {xs : List Value}
    (h : xs ⊆ m.lists.items r) : (m.withList xs).lists.items r = m.lists.items r := by
  by_cases hlt : r.index < m.lists.size
  · exact items_withList_of_lt hlt xs
  · -- there is no such list, so it reads as empty, and the new one is empty too
    have hgone (v : Value) : v ∉ m.lists.cell r := fun hv => hlt (Lists.index_lt_of_mem_cell hv)
    have hempty : m.lists.items r = [] :=
      List.eq_nil_iff_forall_not_mem.2 fun v hv => hgone v (Array.mem_toList_iff.1 hv)
    have hxs : xs = [] := by simpa [hempty] using h
    rw [hempty]
    refine List.eq_nil_iff_forall_not_mem.2 fun v hv => ?_
    obtain hold | hnew := Lists.mem_cell_alloc (Array.mem_toList_iff.1 hv)
    · exact hgone v hold
    · simp [hxs] at hnew

namespace Registry

variable {hosts : List (String × HostFunction κ)} {libraries : List Library}

/-- The second bound may be missing, and is the end of the list then. -/
private theorem concludes_slice
    (howner : (ofLibraries hosts libraries).owner? "slice" = some .list) (m : Machine κ)
    (r : ListRef) {start : Value} {a : Int} (hstart : start.asInteger = .ok a)
    (stop : Option (Value × Int)) (hstop : ∀ p ∈ stop, p.1.asInteger = .ok p.2) :
    (ofLibraries hosts libraries).Concludes
      (·.apply (.builtin "slice") (.list r :: start :: (stop.map Prod.fst).toList)) m
      (.ok (.list m.lists.next), m.withList (Slice.between
        (Slice.resolve a (m.lists.items r).length)
        (stop.elim (m.lists.items r).length fun p => Slice.resolve p.2 (m.lists.items r).length)
        (m.lists.items r))) := by
  have hp : Primitive.binaryOptional "slice" Primitive.slice ∈
      (Library.list.primitives : List (Primitive κ)) := by
    simp [Library.primitives, Primitive.listTable]
  cases stop with
  | none =>
    refine concludes_primitive_ok hp howner rfl fun apply journal => ?_
    simp only [Primitive.binaryOptional, Primitive.slice, Option.map, Option.toList, hstart]
    rfl
  | some p =>
    have hstop : p.1.asInteger = .ok p.2 := hstop p rfl
    refine concludes_primitive_ok hp howner rfl fun apply journal => ?_
    simp only [Primitive.binaryOptional, Primitive.slice, Option.map, Option.toList, hstart,
      hstop]
    rfl

/-- The function `concat` makes a list of the elements of both lists. -/
private theorem concludes_concat
    (howner : (ofLibraries hosts libraries).owner? "concat" = some .list) (m : Machine κ)
    (r s : ListRef) :
    (ofLibraries hosts libraries).Concludes
      (·.apply (.builtin "concat") [.list r, .list s]) m
      (.ok (.list m.lists.next), m.withList (m.lists.items r ++ m.lists.items s)) := by
  have hp : Primitive.variadic "concat" 0 Primitive.concat ∈
      (Library.list.primitives : List (Primitive κ)) := by
    simp [Library.primitives, Primitive.listTable]
  refine concludes_primitive_ok hp howner rfl fun apply journal => ?_
  rw [← List.append_nil (m.lists.items s)]
  rfl

/-- The function `substring` cuts a string at positions that are not counted from the end. -/
private theorem concludes_substring
    (howner : (ofLibraries hosts libraries).owner? "substring" = some .string) (m : Machine κ)
    (s : String) {start : Value} {a : Int} (hstart : start.asInteger = .ok a)
    (stop : Option (Value × Int)) (hstop : ∀ p ∈ stop, p.1.asInteger = .ok p.2) :
    (ofLibraries hosts libraries).Concludes
      (·.apply (.builtin "substring") (.string s :: start :: (stop.map Prod.fst).toList)) m
      (.ok (.string (.ofList (Slice.between (Slice.clamp a s.toList.length)
        (stop.elim s.toList.length fun p => Slice.clamp p.2 s.toList.length) s.toList))),
        m.silent) := by
  have hp : Primitive.binaryOptional "substring" Primitive.substring ∈
      (Library.string.primitives : List (Primitive κ)) := by
    simp [Library.primitives, Primitive.stringTable]
  cases stop with
  | none =>
    refine concludes_primitive_ok hp howner rfl fun apply journal => ?_
    simp only [Primitive.binaryOptional, Primitive.substring, Option.map, Option.toList, hstart]
    rfl
  | some p =>
    have hstop : p.1.asInteger = .ok p.2 := hstop p rfl
    refine concludes_primitive_ok hp howner rfl fun apply journal => ?_
    simp only [Primitive.binaryOptional, Primitive.substring, Option.map, Option.toList, hstart,
      hstop]
    rfl

/-- The slices of a list up to a bound and from it on, one after the other. -/
private theorem concludes_concat_slices
    (hslice : (ofLibraries hosts libraries).owner? "slice" = some .list)
    (hconcat : (ofLibraries hosts libraries).owner? "concat" = some .list) (m : Machine κ)
    (r : ListRef) {zero bound : Value} {k : Int} (hzero : zero.asInteger = .ok 0)
    (hbound : bound.asInteger = .ok k) : ∃ (r' : ListRef) (m' : Machine κ),
      (ofLibraries hosts libraries).Concludes (fun ev => do
          let front ← ev.apply (.builtin "slice") [.list r, zero, bound]
          let back ← ev.apply (.builtin "slice") [.list r, bound]
          ev.apply (.builtin "concat") [front, back]) m (.ok (.list r'), m') ∧
        m'.lists.items r' = m.lists.items r := by
  have hreg := Simulation.registry_paired_untilExhausted hosts libraries
  have hsteady (f : Value) (args : List Value) := steady_apply hreg f args
  let xs := m.lists.items r
  let front := Slice.between 0 (Slice.resolve k xs.length) xs
  let back := Slice.between (Slice.resolve k xs.length) xs.length xs
  let m₁ := m.withList front
  let m₂ := m₁.withList back
  have hfirst := concludes_slice hslice m r hzero (some (bound, k)) (by simpa using hbound)
  rw [Slice.resolve_zero] at hfirst
  -- the first slice leaves the list as it is, so the second one is taken from the same elements
  have hkept : m₁.lists.items r = xs :=
    Machine.items_withList_of_subset (Slice.between_subset ..)
  have hsecond := concludes_slice hslice m₁ r hbound none nofun
  rw [hkept] at hsecond
  have hlt : m.lists.next.index < m₁.lists.size := by simp [m₁, Machine.withList, Lists.next]
  have hfront : m₂.lists.items m.lists.next = front :=
    (m₁.items_withList_of_lt hlt back).trans (m.items_withList_next front)
  have hback : m₂.lists.items m₁.lists.next = back := m₁.items_withList_next back
  -- each slice is where it was put, and they meet at the bound
  have hwhole := concludes_concat hconcat m₂ m.lists.next m₁.lists.next
  rw [hfront, hback, Slice.between_append] at hwhole
  refine ⟨m₂.lists.next, m₂.withList xs, ?_, m₂.items_withList_next xs⟩
  refine (hfirst.bind_iff (hsteady _ _) fun _ => (hsteady _ _).bind fun _ => hsteady _ _).2 ?_
  exact (hsecond.bind_iff (hsteady _ _) fun _ => hsteady _ _).2 hwhole

/-- Slices are partitions.  A slice has exactly the elements whose positions lie between its bounds,
    which are the bounds of machine arithmetic too.  The slices up to a bound and from it on
    concatenate to a list with the same elements, and the parts of a string up to a bound and from
    it on to the string; the first has as many characters as the bound says. -/
theorem slices_partition {reg : Registry κ} (hreg : reg = .ofLibraries hosts libraries)
    (hslice : reg.owner? "slice" = some .list) (hconcat : reg.owner? "concat" = some .list)
    (hsubstring : reg.owner? "substring" = some .string) (m : Machine κ) :
    (∀ (r : ListRef) (start stop : Value) (a b : Int), start.asInteger = .ok a →
      stop.asInteger = .ok b →
        reg.Concludes (·.apply (.builtin "slice") [.list r, start, stop]) m
          (.ok (.list m.lists.next), m.withList (Slice.window
            (Slice.position a (m.lists.items r).length)
            (Slice.position b (m.lists.items r).length) (m.lists.items r)))) ∧
    (∀ (xs : List Value) (a b : Int64), xs.length < 2 ^ 63 → ∃ start stop,
      Slice.resolveWord? a (.ofNat xs.length) = some start ∧
      Slice.resolveWord? b (.ofNat xs.length) = some stop ∧
      Slice.between start stop xs = Slice.window (Slice.position a.toInt xs.length)
        (Slice.position b.toInt xs.length) xs) ∧
    (∀ (r : ListRef) (zero bound : Value) (k : Int), zero.asInteger = .ok 0 →
      bound.asInteger = .ok k → ∃ (r' : ListRef) (m' : Machine κ),
        reg.Concludes (fun ev => do
            let front ← ev.apply (.builtin "slice") [.list r, zero, bound]
            let back ← ev.apply (.builtin "slice") [.list r, bound]
            ev.apply (.builtin "concat") [front, back]) m (.ok (.list r'), m') ∧
          m'.lists.items r' = m.lists.items r) ∧
    ∀ (s : String) (zero bound : Value) (k : Int), zero.asInteger = .ok 0 →
      bound.asInteger = .ok k → ∃ front back : String,
        reg.Concludes (·.apply (.builtin "substring") [.string s, zero, bound]) m
          (.ok (.string front), m.silent) ∧
        reg.Concludes (·.apply (.builtin "substring") [.string s, bound]) m
          (.ok (.string back), m.silent) ∧
        front ++ back = s ∧ (front.length : Int) = max 0 (min k s.length) := by
  subst hreg
  have hreg := Simulation.registry_paired_untilExhausted hosts libraries
  have hwindow (xs : List Value) (a b : Int) :
      Slice.between (Slice.resolve a xs.length) (Slice.resolve b xs.length) xs =
        Slice.window (Slice.position a xs.length) (Slice.position b xs.length) xs := by
    rw [Slice.between_eq_window, Slice.coe_resolve, Slice.coe_resolve]
  refine ⟨fun r start stop a b hstart hstop => ?_, fun xs a b hlen => ?_,
    fun r zero bound k hzero hbound => concludes_concat_slices hslice hconcat m r hzero hbound,
    fun s zero bound k hzero hbound => ?_⟩
  · rw [← hwindow]
    exact concludes_slice hslice m r hstart (some (stop, b)) (by simpa using hstop)
  · exact ⟨_, _, Slice.resolveWord?_eq a hlen, Slice.resolveWord?_eq b hlen, hwindow ..⟩
  · have hfront := concludes_substring hsubstring m s hzero (some (bound, k))
      (by simpa using hbound)
    have hback := concludes_substring hsubstring m s hbound none nofun
    rw [Slice.clamp_zero] at hfront
    refine ⟨_, _, hfront, hback, ?_, ?_⟩
    · -- the characters of the two parts are slices that meet
      rw [← String.ofList_append]
      exact (congrArg String.ofList (Slice.between_append ..)).trans String.ofList_toList
    · have hlength := Slice.length_between_zero (Slice.clamp_le k s.toList.length)
      rw [String.length_ofList, ← String.length_toList, ← Slice.coe_clamp]
      exact congrArg Nat.cast hlength

/-- A list is cut one before its end and at the limits of the integers, a string after a character
    of two bytes. -/
theorem slices_partition_at_limits :
    ∃ (reg : Registry Unit) (m : Machine Unit) (r : ListRef) (zero one low last : Value),
      reg = .ofLibraries [] Library.all ∧ reg.owner? "slice" = some .list ∧
      reg.owner? "concat" = some .list ∧ reg.owner? "substring" = some .string ∧
      m.lists.items r = [.null, .bool true, .string "é"] ∧ zero.asInteger = .ok 0 ∧
      one.asInteger = .ok 1 ∧ low.asInteger = .ok Double.minInt ∧ last.asInteger = .ok (-1) ∧
      reg.Concludes (·.apply (.builtin "slice") [.list r, low, last]) m
        (.ok (.list m.lists.next), m.withList [.null, .bool true]) ∧
      (∃ start stop, Slice.resolveWord? Int64.minValue (.ofNat 2) = some start ∧
        Slice.resolveWord? Int64.maxValue (.ofNat 2) = some stop ∧
        Slice.between start stop [Value.null, .null] = [.null, .null]) ∧
      (∃ (r' : ListRef) (m' : Machine Unit), reg.Concludes (fun ev => do
            let front ← ev.apply (.builtin "slice") [.list r, zero, last]
            let back ← ev.apply (.builtin "slice") [.list r, last]
            ev.apply (.builtin "concat") [front, back]) m (.ok (.list r'), m') ∧
          m'.lists.items r' = [.null, .bool true, .string "é"]) ∧
      ∃ front back : String,
        reg.Concludes (·.apply (.builtin "substring") [.string "éa", zero, one]) m
          (.ok (.string front), m.silent) ∧
        reg.Concludes (·.apply (.builtin "substring") [.string "éa", one]) m
          (.ok (.string back), m.silent) ∧
        front ++ back = "éa" ∧ (front.length : Int) = 1 := by
  let reg : Registry Unit := .ofLibraries [] Library.all
  let m : Machine Unit :=
    { context := (), lists := ⟨#[#[.null, .bool true, .string "é"]]⟩ }
  have hslice : reg.owner? "slice" = some .list := by rfl
  have hconcat : reg.owner? "concat" = some .list := by rfl
  have hsubstring : reg.owner? "substring" = some .string := by rfl
  have hzero := Value.asInteger_of_toInt? (x := Float.ofNat 0) (i := 0) (by decide +kernel)
  have hone := Value.asInteger_of_toInt? (x := Float.ofNat 1) (i := 1) (by decide +kernel)
  have hlow := Value.asInteger_of_toInt? (x := Float.neg (Float.ofNat (2 ^ 70)))
    (i := Double.minInt) (by decide +kernel)
  have hlast := Value.asInteger_of_toInt? (x := Float.neg (Float.ofNat 1)) (i := -1)
    (by decide +kernel)
  obtain ⟨hcuts, hwords, hwhole, hparts⟩ := slices_partition rfl hslice hconcat hsubstring m
  exact ⟨reg, m, ⟨0⟩, _, _, _, _, rfl, hslice, hconcat, hsubstring, rfl, hzero, hone, hlow, hlast,
    hcuts ⟨0⟩ _ _ _ _ hlow hlast, hwords [.null, .null] .minValue .maxValue (by decide),
    hwhole ⟨0⟩ _ _ _ hzero hlast, hparts "éa" _ _ _ hzero hone⟩

end Registry
end Lisplet
