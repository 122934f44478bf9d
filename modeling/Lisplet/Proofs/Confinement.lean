import Lisplet.Proofs.Logic

/-! # Confinement

What an evaluation can do to the frames, and how it can unwind.

`s.Grows P s'` compares the frames before and after: frames are only added, every frame keeps
its place and its names, and only the frames in `P` gain names.  A frame that did not exist
before is free to gain names, which is what lets a body run in a frame of its own
(`Grows.of_spawn`).

`x.Confined P U` says that `x` always ends with frames that have grown in this sense, and
unwinds only in the ways of `U`.  There is one rule for each operation of the machine and for
each way of putting evaluations together.

A call of a function is `Sealed`: it adds no name to any old frame, lets no loop signal out,
and fails with a cause that can be reported as it is.  The run of a primitive is only `Tame`,
since the call around it has yet to say in which function a value of the wrong kind was met. -/

namespace Lisplet

/-! ## Ways to unwind -/

/-- Causes that a call can fail with.  A value of the wrong kind is reported together with the
    function it was given to; a text is read and libraries are chosen before anything is
    evaluated; and arities promise all arguments that are asked for. -/
def Error.IsSettled : Error → Prop
  | .mismatch _ | .unreadable _ | .config _ | .missingArgument => False
  | _ => True

/-- Only the signals of `S`, or a settled failure. -/
def Unwind.Settled (S : Signal → Prop) : Unwind → Prop
  | .signal s => S s
  | .failure e => e.IsSettled

/-- As `Settled`, or a value of the wrong kind that no function is named for yet. -/
def Unwind.Unpinned (S : Signal → Prop) : Unwind → Prop
  | .signal s => S s
  | .failure e => e.IsSettled ∨ ∃ cause, e = .mismatch cause

/-- A settled cause needs no function to be named. -/
theorem Unwind.Settled.unpinned {S : Signal → Prop} {u : Unwind} (h : u.Settled S) :
    u.Unpinned S := by
  cases u with
  | signal s => exact h
  | failure e => exact .inl h

theorem Unwind.Settled.imp {S T : Signal → Prop} {u : Unwind} (h : u.Settled S)
    (hST : ∀ s, S s → T s) : u.Settled T := by
  cases u with
  | signal s => exact hST s h
  | failure e => exact h

/-! ## What arities let through -/

namespace Arity

/-- An exact arity leaves one number. -/
theorem eq_of_exactly {n got : Nat} (h : (exactly n).contains got = true) : got = n := by
  simp only [exactly, contains, Bool.and_eq_true, decide_eq_true_eq] at h
  omega

/-- A least arity leaves the numbers from there on. -/
theorem le_of_atLeast {n got : Nat} (h : (atLeast n).contains got = true) : n ≤ got := by
  simpa only [contains, decide_eq_true_eq] using h

/-- One argument and an optional second. -/
theorem one_or_two {α : Type} {args : List α} (h : (between 1 2).contains args.length = true) :
    (∃ a, args = [a]) ∨ ∃ a b, args = [a, b] := by
  simp only [contains, Bool.and_eq_true, decide_eq_true_eq] at h
  match args, h with
  | [a], _ => exact .inl ⟨a, rfl⟩
  | [a, b], _ => exact .inr ⟨a, b, rfl⟩
  | [], h => simp only [List.length_nil] at h; omega
  | _ :: _ :: _ :: _, h => simp only [List.length_cons] at h; omega

/-- Two arguments and an optional third. -/
theorem two_or_three {α : Type} {args : List α} (h : (between 2 3).contains args.length = true) :
    (∃ a b, args = [a, b]) ∨ ∃ a b c, args = [a, b, c] := by
  simp only [contains, Bool.and_eq_true, decide_eq_true_eq] at h
  match args, h with
  | [a, b], _ => exact .inl ⟨a, b, rfl⟩
  | [a, b, c], _ => exact .inr ⟨a, b, c, rfl⟩
  -- the other lengths are not between two and three
  | [], h => simp only [List.length_nil] at h; omega
  | [_], h => simp only [List.length_cons, List.length_nil] at h; omega
  | _ :: _ :: _ :: _ :: _, h => simp only [List.length_cons] at h; omega

/-- As `one_or_two`, one further. -/
theorem one_to_three {α : Type} {args : List α} (h : 1 ≤ args.length ∧ args.length ≤ 3) :
    (∃ a, args = [a]) ∨ (∃ a b, args = [a, b]) ∨ ∃ a b c, args = [a, b, c] := by
  match args, h with
  | [a], _ => exact .inl ⟨a, rfl⟩
  | [a, b], _ => exact .inr (.inl ⟨a, b, rfl⟩)
  | [a, b, c], _ => exact .inr (.inr ⟨a, b, c, rfl⟩)
  | [], h => simp only [List.length_nil] at h; omega
  | _ :: _ :: _ :: _ :: _, h => simp only [List.length_cons] at h; omega

end Arity

/-! ## Frames that grow -/

/-- After a name was bound, it is bound, and so is what was bound before. -/
private theorem Bindings.binds_insert (bs : Bindings) (name other : String) (v : Value) :
    (bs.insert name v).binds other = true ↔ other = name ∨ bs.binds other = true := by
  by_cases h : other = name
  · subst h
    simp [binds]
  · simp [binds, lookup_insert_of_ne bs h, h]

namespace Scopes

/-- Frames that were added and names that were bound, the latter only in frames of `P` where
    the frame is an old one. -/
structure Grows (P : FrameRef → Prop) (s s' : Scopes) : Prop where
  /-- No frame is lost. -/
  size_le : s.frames.size ≤ s'.frames.size
  /-- An old frame is enclosed by the same frames as before. -/
  outer_eq : ∀ f : FrameRef, f.index < s.frames.size → (s'.frame f).outer = (s.frame f).outer
  /-- No frame loses a name. -/
  kept : ∀ f name, (s.frame f).bindings.binds name = true → (s'.frame f).bindings.binds name = true
  /-- An old frame gains names only if it is in `P`. -/
  gained : ∀ (f : FrameRef) (name : String), f.index < s.frames.size →
    (s'.frame f).bindings.binds name = true → (s.frame f).bindings.binds name = true ∨ P f

/-- A frame that binds a name exists. -/
theorem index_lt_of_binds {s : Scopes} {f : FrameRef} {name : String}
    (h : (s.frame f).bindings.binds name = true) : f.index < s.frames.size := by
  apply Nat.lt_of_not_le
  intro hle
  rw [frame, Array.getElem?_eq_none hle] at h
  exact absurd h (by simp [Bindings.binds])

/-- There is one more frame. -/
theorem size_spawn (s : Scopes) (f : FrameRef) :
    (s.spawn f).frames.size = s.frames.size + 1 := Array.size_push ..

/-- Binding a name adds no frame. -/
theorem size_define (s : Scopes) (f : FrameRef) (name : String) (v : Value) :
    (s.define f name v).frames.size = s.frames.size := Array.size_modify ..

/-- A frame in which something is found exists. -/
theorem index_lt_of_lookup {s : Scopes} {f : FrameRef} {name : String} {v : Value}
    (h : (s.frame f).bindings.lookup name = some v) : f.index < s.frames.size := by
  have hbinds : (s.frame f).bindings.binds name = true := by
    rw [Bindings.binds, h]
    rfl
  exact index_lt_of_binds hbinds

/-- A frame is an old one, or the new one. -/
theorem frame_spawn_cases {s : Scopes} {f g : FrameRef}
    (hg : g.index < (s.spawn f).frames.size) :
    g.index < s.frames.size ∧ (s.spawn f).frame g = s.frame g ∨
      g = s.next ∧ (s.spawn f).frame g = { outer := s.chain f } := by
  by_cases hlt : g.index < s.frames.size
  · exact .inl ⟨hlt, frame_spawn_of_lt hlt f⟩
  · rw [size_spawn] at hg
    have hindex : g.index = s.frames.size := by omega
    have hnext : g = s.next := congrArg FrameRef.mk hindex
    exact .inr ⟨hnext, hnext ▸ frame_spawn_next s f⟩

namespace Grows

variable {P Q : FrameRef → Prop} {s s' s'' : Scopes}

theorem refl (P : FrameRef → Prop) (s : Scopes) : s.Grows P s where
  size_le := Nat.le_refl _
  outer_eq _ _ := rfl
  kept _ _ h := h
  gained _ _ _ h := .inl h

theorem trans (h : s.Grows P s') (h' : s'.Grows P s'') : s.Grows P s'' where
  size_le := Nat.le_trans h.size_le h'.size_le
  outer_eq f hf := (h'.outer_eq f (Nat.lt_of_lt_of_le hf h.size_le)).trans (h.outer_eq f hf)
  kept f name hb := h'.kept f name (h.kept f name hb)
  gained f name hf hb := by
    -- a name that is new at the end is new in the second growth or in the first
    cases h'.gained f name (Nat.lt_of_lt_of_le hf h.size_le) hb with
    | inl hb' => exact h.gained f name hf hb'
    | inr hP => exact .inr hP

theorem mono (h : s.Grows P s') (hPQ : ∀ f, P f → Q f) : s.Grows Q s' :=
  { h with gained := fun f name hf hb => (h.gained f name hf hb).imp id (hPQ f) }

/-- What happens in a new frame does not show in the old ones. -/
theorem of_spawn {f : FrameRef} (h : (s.spawn f).Grows (fun g => P g ∨ g = s.next) s') :
    s.Grows P s' where
  size_le := by
    have := h.size_le
    simp only [spawn, Array.size_push] at this
    omega
  -- an old frame stands where it stood before the new one was added
  outer_eq g hg := by
    have hlt : g.index < (s.spawn f).frames.size := by simp [spawn]; omega
    rw [h.outer_eq g hlt, frame_spawn_of_lt hg]
  kept g name hb := by
    refine h.kept g name ?_
    rwa [frame_spawn_of_lt (index_lt_of_binds hb)]
  gained g name hg hb := by
    have hlt : g.index < (s.spawn f).frames.size := by simp [spawn]; omega
    obtain hb' | hP | rfl := h.gained g name hlt hb
    · rw [frame_spawn_of_lt hg] at hb'
      exact .inl hb'
    · exact .inr hP
    · -- the new frame is none of the old ones
      exact absurd hg (Nat.lt_irrefl _)

/-- Binding a name grows the frame it is bound in, and no frame at all where the name was
    bound already. -/
theorem define {f : FrameRef} {name : String} (h : (s.frame f).bindings.binds name = true ∨ P f)
    (v : Value) : s.Grows P (s.define f name v) where
  size_le := by simp [Scopes.define]
  outer_eq g _ := by
    have := chain_define s f g name v
    simpa [chain] using this
  kept g other hb := by
    -- the frame that is written to, or another one
    by_cases hfg : f = g
    · subst hfg
      rw [frame_define_self (index_lt_of_binds hb)]
      exact (Bindings.binds_insert ..).2 (.inr hb)
    · rwa [frame_define_of_ne s hfg]
  gained g other hg hb := by
    by_cases hfg : f = g
    · subst hfg
      rw [frame_define_self hg] at hb
      obtain rfl | hb' := (Bindings.binds_insert ..).1 hb
      · -- the very name that is bound here
        exact h
      · exact .inl hb'
    · rw [frame_define_of_ne s hfg] at hb
      exact .inl hb

end Grows

/-- The frame that holds a name binds it. -/
theorem binds_of_holder? {s : Scopes} {f g : FrameRef} {name : String}
    (h : s.holder? f name = some g) : (s.frame g).bindings.binds name = true := by
  have hfound := List.find?_some h
  exact hfound

end Scopes

/-! ## Confined evaluations -/

namespace Eval

variable {κ α β : Type}

/-- The evaluation lets names be added to the frames of `P` only, and unwinds only as `U`
    says, whatever machine it starts on. -/
def Confined (P : FrameRef → Prop) (U : Unwind → Prop) (x : Eval κ α) : Prop :=
  ∀ m, x.Ends m (fun _ m' => m.scopes.Grows P m'.scopes)
    (fun u m' => m.scopes.Grows P m'.scopes ∧ U u)

variable {P Q : FrameRef → Prop} {U V : Unwind → Prop} {x : Eval κ α}

theorem Confined.mono (h : x.Confined P U) (hP : ∀ f, P f → Q f) (hU : ∀ u, U u → V u) :
    x.Confined Q V := fun m =>
  (h m).imp (fun _ _ hg => hg.mono hP) (fun u _ hg => ⟨hg.1.mono hP, hU u hg.2⟩)

/-- More ways to unwind may be allowed. -/
theorem Confined.imp_exit (h : x.Confined P U) (hU : ∀ u, U u → V u) : x.Confined P V :=
  h.mono (fun _ hf => hf) hU

/-- From frames that have grown already, they grow further. -/
theorem Confined.further (h : x.Confined P U) {s : Scopes} {m : Machine κ}
    (hs : s.Grows P m.scopes) :
    x.Ends m (fun _ m' => s.Grows P m'.scopes) (fun u m' => s.Grows P m'.scopes ∧ U u) :=
  (h m).imp (fun _ _ hg => hs.trans hg) (fun _ _ hg => ⟨hs.trans hg.1, hg.2⟩)

/-- The machine that is left has frames that have grown, whatever the outcome. -/
theorem Confined.grows (h : x.Confined P U) (m : Machine κ) :
    m.scopes.Grows P (x.after m).scopes :=
  ((h m).imp (fun _ _ hg => hg) fun _ _ hg => hg.1).after

/-- An unwinding is one of those that are allowed. -/
theorem Confined.exit (h : x.Confined P U) {m m' : Machine κ} {u : Unwind}
    (hx : x m = .error u m') : U u :=
  ((h m).of_error hx).2

/-! ### Composition -/

@[simp] theorem confined_pure (a : α) : (pure a : Eval κ α).Confined P U := fun m =>
  (ends_pure a).2 (.refl P m.scopes)

theorem confined_throw {u : Unwind} (h : U u) : (throw u : Eval κ α).Confined P U := fun m =>
  (ends_throw u).2 ⟨.refl P m.scopes, h⟩

theorem confined_fail {e : Error} (h : U (.failure e)) : (fail e : Eval κ α).Confined P U :=
  confined_throw h

/-- Two steps that are confined are so one after the other. -/
theorem Confined.bind {y : Eval κ β} {f : β → Eval κ α} (hy : y.Confined P U)
    (hf : ∀ b, (f b).Confined P U) : (y >>= f).Confined P U := by
  intro m
  rw [ends_bind]
  exact (hy m).imp (fun b _ hg => (hf b).further hg) fun _ _ hg => hg

/-- As `Confined.bind`, with something known about the value that is handed on. -/
theorem Confined.bind_of {y : Eval κ β} {f : β → Eval κ α} {R : β → Prop} (hy : y.Confined P U)
    (hR : ∀ m, y.Ends m (fun b _ => R b) fun _ _ => True)
    (hf : ∀ b, R b → (f b).Confined P U) : (y >>= f).Confined P U := by
  intro m
  rw [ends_bind]
  exact ((hy m).and (hR m)).imp (fun b _ hg => (hf b hg.2).further hg.1) fun _ _ hg => hg.1

/-- A function of a value changes nothing. -/
theorem Confined.map {y : Eval κ β} (hy : y.Confined P U) (f : β → α) :
    (f <$> y).Confined P U := fun m => (ends_map y f).2 (hy m)

/-- A handler is confined on whatever machine it starts. -/
theorem Confined.tryCatch {handler : Unwind → Eval κ α} (hx : x.Confined P V)
    (hh : ∀ u, V u → (handler u).Confined P U) :
    (MonadExcept.tryCatch x handler).Confined P U := fun m =>
  (ends_tryCatch handler).2 ((hx m).imp (fun _ _ hg => hg) fun u _ hg => (hh u hg.2).further hg.1)

/-- One evaluation for each element of a list. -/
theorem Confined.mapM {xs : List β} {f : β → Eval κ α} (hf : ∀ b ∈ xs, (f b).Confined P U) :
    (xs.mapM f).Confined P U := by
  induction xs with
  | nil => exact confined_pure []
  | cons b xs ih =>
    -- the rest may start on another machine, which is why confinement speaks of all of them
    rw [List.mapM_cons]
    refine (hf b List.mem_cons_self).bind fun _ => ?_
    exact (ih fun c hc => hf c (List.mem_cons_of_mem b hc)).bind fun _ => confined_pure _

/-- A loop over a list with an accumulated value. -/
theorem Confined.foldlM {xs : List β} {f : α → β → Eval κ α}
    (hf : ∀ a, ∀ b ∈ xs, (f a b).Confined P U) (a : α) : (xs.foldlM f a).Confined P U := by
  induction xs generalizing a with
  | nil => exact confined_pure a
  | cons b xs ih =>
    rw [List.foldlM_cons]
    exact (hf a b List.mem_cons_self).bind fun a' =>
      ih (fun a c hc => hf a c (List.mem_cons_of_mem b hc)) a'

/-- A loop over a list for what it does to the machine. -/
theorem Confined.forM {xs : List β} {f : β → Eval κ PUnit}
    (hf : ∀ b ∈ xs, (f b).Confined P U) : (xs.forM f).Confined P U := by
  induction xs with
  | nil => exact confined_pure _
  | cons b xs ih =>
    exact (hf b List.mem_cons_self).bind fun _ => ih fun c hc => hf c (List.mem_cons_of_mem b hc)

/-! ### Operations of the machine -/

@[simp] theorem confined_get : (get : Eval κ (Machine κ)).Confined P U := fun m =>
  ends_get.2 (.refl P m.scopes)

/-- An operation on another part of the machine leaves the frames alone. -/
private theorem confined_modify {f : Machine κ → Machine κ} (h : ∀ m, (f m).scopes = m.scopes) :
    (modify f : Eval κ Unit).Confined P U := by
  intro m
  rw [ends_modify, h m]
  exact .refl P m.scopes

private theorem confined_modifyGet {f : Machine κ → α × Machine κ}
    (h : ∀ m, (f m).2.scopes = m.scopes) : (modifyGet f : Eval κ α).Confined P U := by
  intro m
  rw [ends_modifyGet, h m]
  exact .refl P m.scopes

@[simp] theorem confined_record (level : Level) (message : Machine κ → String) :
    (record level message).Confined P U := by
  refine confined_modify fun m => ?_
  unfold Machine.record
  split <;> rfl

@[simp] theorem confined_items (r : ListRef) : (items r : Eval κ (List Value)).Confined P U :=
  confined_get.bind fun _ => confined_pure _

@[simp] theorem confined_cell (r : ListRef) : (cell r : Eval κ (Array Value)).Confined P U :=
  confined_get.bind fun _ => confined_pure _

@[simp] theorem confined_newCell (elements : Array Value) :
    (newCell elements : Eval κ Value).Confined P U := confined_modifyGet fun _ => rfl

@[simp] theorem confined_newList (elements : List Value) :
    (newList elements : Eval κ Value).Confined P U := confined_newCell _

@[simp] theorem confined_modifyList (r : ListRef) (f : Array Value → Array Value) :
    (modifyList r f : Eval κ Unit).Confined P U := confined_modify fun _ => rfl

@[simp] theorem confined_print (line : String) : (print line : Eval κ Unit).Confined P U :=
  confined_modify fun _ => rfl

@[simp] theorem confined_newClosure (name : Option String) (c : Closure) :
    (newClosure name c : Eval κ Value).Confined P U := confined_modifyGet fun _ => rfl

/-- To look up the code of a closure touches no frame. -/
@[simp] theorem confined_code? (r : ClosureRef) :
    (code? r : Eval κ (Option Closure)).Confined P U := confined_get.bind fun _ => confined_pure _

/-- To look up a name touches no frame. -/
@[simp] theorem confined_get? (scope : FrameRef) (name : String) :
    (get? scope name : Eval κ (Option Value)).Confined P U :=
  confined_get.bind fun _ => confined_pure _

/-- The same, where a name without meaning is a failure. -/
theorem confined_lookup (scope : FrameRef) {name : String} (h : U (.failure (.unbound name))) :
    (lookup scope name : Eval κ Value).Confined P U := by
  refine (confined_get? scope name).bind fun
    | some v => confined_pure v
    | none => confined_fail h

/-- Binding a name is confined to its frame. -/
theorem confined_define {scope : FrameRef} (h : P scope) (name : String) (v : Value) :
    (define scope name v : Eval κ Unit).Confined P U := by
  intro m
  exact (ends_modify _).2 (.define (.inr h) v)

/-- An assignment adds no name to any frame: it goes to a frame that binds the name. -/
theorem confined_assign (scope : FrameRef) {name : String} (v : Value)
    (h : U (.failure (.unbound name))) : (assign scope name v : Eval κ Value).Confined P U := by
  intro m
  rw [Ends, assign_eq]
  cases hh : m.scopes.holder? scope name with
  | none => exact ⟨.refl P m.scopes, h⟩
  | some holder => exact .define (.inl (Scopes.binds_of_holder? hh)) v

/-- What runs in a new frame may add names to it. -/
theorem confined_spawn (scope : FrameRef) {f : FrameRef → Eval κ α}
    (h : ∀ inner, (f inner).Confined (fun g => P g ∨ g = inner) U) :
    (spawn scope >>= f).Confined P U := by
  intro m
  simp only [spawn, ends_bind, ends_modifyGet]
  -- `f` runs on the machine with the new frame; `of_spawn` takes its names out of sight again
  exact (h m.scopes.next _).imp (fun _ _ hg => hg.of_spawn) fun _ _ hg => ⟨hg.1.of_spawn, hg.2⟩

/-! ### Checks -/

variable {S : Signal → Prop}

/-- A value of the wrong kind has yet to be pinned on a function. -/
@[simp] theorem confined_expect (r : Except Mismatch α) :
    (expect r : Eval κ α).Confined P (Unwind.Unpinned S) := by
  cases r with
  | ok a => exact confined_pure a
  | error cause => exact confined_fail (.inr ⟨cause, rfl⟩)

/-- A wrong number of arguments is a cause that can be reported. -/
@[simp] theorem confined_checkArity (name : String) (arity : Arity) (got : Nat) :
    (checkArity name arity got : Eval κ Unit).Confined P (Unwind.Settled S) := by
  unfold checkArity
  split
  · exact confined_pure ()
  · exact confined_fail trivial

/-- A check that is passed tells that the number of arguments is accepted. -/
theorem ends_checkArity (name : String) (arity : Arity) (got : Nat) (m : Machine κ) :
    (checkArity name arity got : Eval κ Unit).Ends m
      (fun _ _ => arity.contains got = true) fun _ _ => True := by
  unfold checkArity
  split
  · assumption
  · trivial

/-- Once the function is named, a value of the wrong kind is a cause like any other. -/
theorem Confined.pinned {function : String} (h : x.Confined P (Unwind.Unpinned S)) :
    (pinned function x).Confined P (Unwind.Settled S) := by
  refine h.tryCatch fun u hu => ?_
  cases u with
  | signal s => exact confined_throw hu
  | failure e =>
    cases e with
    | mismatch cause => exact confined_fail trivial
    | _ =>
      -- every other cause is passed on, and it is not the one that had to be pinned
      obtain hs | ⟨cause, hc⟩ := hu
      · exact confined_throw hs
      · cases hc

/-! ### Calls -/

/-- No old frame gains a name, no loop signal gets out, and failures can be reported. -/
def Sealed (x : Eval κ α) : Prop := x.Confined (fun _ => False) (Unwind.Settled fun _ => False)

/-- As `Sealed`, but a value of the wrong kind may still have to be pinned on a function. -/
def Tame (x : Eval κ α) : Prop := x.Confined (fun _ => False) (Unwind.Unpinned fun _ => False)

/-- A sealed evaluation has nothing left to pin. -/
theorem Sealed.tame (h : x.Sealed) : x.Tame := h.imp_exit fun _ hu => hu.unpinned

/-- A call can be made anywhere. -/
theorem Sealed.confined (h : x.Sealed) : x.Confined P (Unwind.Settled S) :=
  h.mono (fun _ hf => hf.elim) fun _ hu => hu.imp fun _ hs => hs.elim

end Eval
end Lisplet
