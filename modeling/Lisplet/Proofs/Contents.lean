import Lisplet.Proofs.Confinement

/-! # What frames and lists hold

Properties of all bindings in all frames, and of all elements of all lists.  Such a property lasts
as long as whatever is bound, put into a new list or written into an old one has it.

* `Scopes.Holds`   all bindings have the property
* `Lists.Holds`    all elements have the property -/

namespace Lisplet

/-- A binding is the one that was made last, or an older one. -/
private theorem Bindings.mem_insert {bs : Bindings} {name : String} {v : Value} {b : String × Value}
    (h : b ∈ bs.insert name v) : b = (name, v) ∨ b ∈ bs := by
  induction bs with
  | nil => exact .inl (List.mem_singleton.1 h)
  | cons first rest ih =>
    obtain ⟨k, w⟩ := first
    unfold insert at h
    split at h
    · rename_i hk
      subst hk
      exact (List.mem_cons.1 h).imp_right (List.mem_cons_of_mem _)
    · obtain rfl | hrest := List.mem_cons.1 h
      · exact .inr List.mem_cons_self
      · exact (ih hrest).imp_right (List.mem_cons_of_mem _)

/-- The frames hold only bindings of `P`, those that are out of sight included. -/
def Scopes.Holds (P : String × Value → Prop) (s : Scopes) : Prop :=
  ∀ f, ∀ b ∈ (s.frame f).bindings, P b

namespace Scopes.Holds

variable {P : String × Value → Prop} {s : Scopes} {f : FrameRef} {name : String} {v : Value}

/-- At first there are no bindings. -/
theorem start : Scopes.start.Holds P := by
  intro f b hb
  have hempty : (Scopes.start.frame f).bindings = [] := by
    obtain ⟨i⟩ := f
    cases i <;> rfl
  rw [hempty] at hb
  cases hb

/-- What is found is among the bindings. -/
theorem of_get? (h : s.Holds P) (hget : s.get? f name = some v) : P (name, v) := by
  obtain ⟨g, -, hlookup⟩ := Option.bind_eq_some_iff.1 hget
  obtain ⟨older, rest, hbindings, -⟩ := List.lookup_eq_some_iff.1 hlookup
  exact h g (name, v) (by simp [hbindings])

/-- A new frame holds nothing. -/
theorem spawn (h : s.Holds P) : (s.spawn f).Holds P := by
  intro g b hb
  by_cases hg : g.index < (s.spawn f).frames.size
  · obtain ⟨-, hframe⟩ | ⟨-, hframe⟩ := frame_spawn_cases hg
    · rw [hframe] at hb
      exact h g b hb
    · rw [hframe] at hb
      cases hb
  · have hnone : (s.spawn f).frame g = {} := by simp [frame, hg]
    rw [hnone] at hb
    cases hb

/-- A binding is added, or takes the place of an older one. -/
theorem define (h : s.Holds P) (hv : P (name, v)) : (s.define f name v).Holds P := by
  intro g b hb
  by_cases hfg : f = g
  · subst hfg
    by_cases hf : f.index < s.frames.size
    · rw [frame_define_self hf] at hb
      obtain rfl | hold := Bindings.mem_insert hb
      · exact hv
      · exact h f b hold
    · -- there is no such frame, and none is made
      have hnone : (s.define f name v).frame f = {} := by simp [frame, size_define, hf]
      rw [hnone] at hb
      cases hb
  · rw [frame_define_of_ne s hfg] at hb
    exact h g b hb

end Scopes.Holds

/-- The lists hold only values of `P`. -/
def Lists.Holds (P : Value → Prop) (ls : Lists) : Prop := ∀ r, ∀ v ∈ ls.cell r, P v

namespace Lists.Holds

variable {P : Value → Prop} {ls : Lists}

/-- At first there are no lists. -/
theorem empty : Lists.Holds P {} := fun _ _ hv => by simp [cell] at hv

/-- A new list is added. -/
theorem alloc (h : ls.Holds P) {xs : Array Value} (hxs : ∀ v ∈ xs, P v) :
    (ls.alloc xs).Holds P :=
  fun r v hv => (mem_cell_alloc hv).elim (h r v) (hxs v)

/-- A list is written to. -/
theorem modify (h : ls.Holds P) {r : ListRef} {f : Array Value → Array Value}
    (hf : ∀ v ∈ f (ls.cell r), P v) : (ls.modify r f).Holds P :=
  fun s v hv => (mem_cell_modify hv).elim (h s v) (hf v)

end Lists.Holds

end Lisplet
