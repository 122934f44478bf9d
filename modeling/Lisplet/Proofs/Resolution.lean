import Lisplet.Proofs.Confinement
import Mathlib.Logic.Relation

/-! # What names mean

Frames are made inside other frames, so they form a forest, and a name is looked for from a frame
outward.  A frame keeps the list of all frames around it, but that list is only a record of the way
outward: it is what walking from parent to parent gives (`Scopes.Nested`).  All statements here are
about that walk.

* `Scopes.Sees`       the way outward from a frame leads past no binding of a name
* `Scopes.Nearest`    the frame in which a name is found
* `Scopes.Changes`    who sees a new value, and that nobody else sees a difference
* `Machine.IsForest`  the machines that spawning, defining and assigning lead to

`Scopes.Nested.get?_eq` is the step outward: what a name means in a frame is its binding there, or
else what it means in the parent.  Every statement about meanings follows from it by induction on
the way outward. -/

namespace Lisplet

namespace Scopes

/-- The way outward from `f` leads to `g`, and no frame before `g` binds the name. -/
inductive Sees (s : Scopes) (name : String) : FrameRef → FrameRef → Prop where
  | here (f : FrameRef) : Sees s name f f
  | outward {f p g : FrameRef} (hfree : (s.frame f).bindings.binds name = false)
      (hparent : s.parent? f = some p) (hsees : Sees s name p g) : Sees s name f g

/-- On the way outward from `f`, the frame `g` is the first that binds the name. -/
def Nearest (s : Scopes) (name : String) (f g : FrameRef) : Prop :=
  s.Sees name f g ∧ (s.frame g).bindings.binds name = true

/-- The name has come to mean `v` in the frames of `P`.  No other name and no other frame has seen a
    change. -/
def Changes (s s' : Scopes) (name : String) (v : Value) (P : FrameRef → Prop) : Prop :=
  ∀ (g : FrameRef) (other : String), g.index < s.frames.size →
    (other = name ∧ P g → s'.get? g other = some v) ∧
    (¬ (other = name ∧ P g) → s'.get? g other = s.get? g other)

/-! ## Frames inside frames -/

/-- A frame is a root, or it was made in an older frame and is enclosed by what that sees around
    itself. -/
def Nested (s : Scopes) : Prop :=
  ∀ f : FrameRef, f.index < s.frames.size →
    (s.frame f).outer = [] ∨ ∃ p : FrameRef, p.index < f.index ∧ (s.frame f).outer = s.chain p

/-- The root is enclosed by nothing. -/
private theorem nested_start : start.Nested := by
  intro f hf
  have hroot : f = root := congrArg FrameRef.mk (Nat.lt_one_iff.1 hf)
  exact .inl (hroot ▸ rfl)

/-- Binding a name does not move a frame. -/
@[simp] theorem outer_define (s : Scopes) (f g : FrameRef) (name : String) (v : Value) :
    ((s.define f name v).frame g).outer = (s.frame g).outer := by
  have hchain := s.chain_define f g name v
  simpa only [chain, List.cons.injEq, true_and] using hchain

/-- So the parent stays the same. -/
@[simp] theorem parent?_define (s : Scopes) (f g : FrameRef) (name : String) (v : Value) :
    (s.define f name v).parent? g = s.parent? g := by
  simp only [parent?, outer_define]

/-- And the depth. -/
@[simp] theorem depth_define (s : Scopes) (f g : FrameRef) (name : String) (v : Value) :
    (s.define f name v).depth g = s.depth g := by
  simp only [depth, outer_define]

/-- No frame gets deeper because another one is made. -/
private theorem depth_spawn {s : Scopes} {g : FrameRef} (hg : g.index < s.frames.size)
    (f : FrameRef) : (s.spawn f).depth g = s.depth g := by
  simp only [depth, frame_spawn_of_lt hg]

/-- A name that is bound in the frame itself is found there. -/
theorem holder?_of_binds {s : Scopes} {f : FrameRef} {name : String}
    (h : (s.frame f).bindings.binds name = true) : s.holder? f name = some f :=
  List.find?_cons_of_pos h

namespace Nested

variable {s : Scopes} {f : FrameRef} {name : String}

/-- A new frame is enclosed by what its parent sees. -/
theorem spawn (hs : s.Nested) (hf : f.index < s.frames.size) : (s.spawn f).Nested := by
  intro g hg
  obtain ⟨hlt, hframe⟩ | ⟨rfl, hframe⟩ := frame_spawn_cases hg
  · rw [hframe]
    refine (hs g hlt).imp id fun ⟨p, hp, houter⟩ => ⟨p, hp, ?_⟩
    rw [houter, chain, chain, frame_spawn_of_lt (Nat.lt_trans hp hlt)]
  · -- the new frame is younger than all others
    refine .inr ⟨f, hf, ?_⟩
    rw [hframe, chain, chain, frame_spawn_of_lt hf]

/-- Binding a name leaves frames inside each other as they were. -/
theorem define (hs : s.Nested) (f : FrameRef) (name : String) (v : Value) :
    (s.define f name v).Nested := by
  intro g hg
  rw [size_define] at hg
  simpa only [outer_define, chain_define] using hs g hg

/-- A frame has nothing around it, or its parent and what is around the parent. -/
private theorem parent?_cases (hs : s.Nested) (hf : f.index < s.frames.size) :
    s.parent? f = none ∧ s.chain f = [f] ∨
      ∃ p : FrameRef, p.index < f.index ∧ s.parent? f = some p ∧ s.chain f = f :: s.chain p := by
  obtain houter | ⟨p, hp, houter⟩ := hs f hf
  · exact .inl ⟨by rw [parent?, houter]; rfl, by rw [chain, houter]⟩
  · exact .inr ⟨p, hp, by rw [parent?, houter]; rfl, by rw [chain, houter]⟩

/-- Parents exist. -/
private theorem parent_lt (hs : s.Nested) (hf : f.index < s.frames.size) {p : FrameRef}
    (hp : s.parent? f = some p) : p.index < s.frames.size := by
  obtain ⟨hnone, -⟩ | ⟨q, hq, hparent, -⟩ := hs.parent?_cases hf
  · rw [hnone] at hp
    cases hp
  · obtain rfl : q = p := Option.some.inj (hparent.symm.trans hp)
    omega

/-- Induction on the way outward. -/
private theorem induction_outward (hs : s.Nested) {motive : FrameRef → Prop}
    (step : ∀ f : FrameRef, f.index < s.frames.size →
      (∀ p, s.parent? f = some p → motive p) → motive f)
    (f : FrameRef) (hf : f.index < s.frames.size) : motive f := by
  -- parents are older, so they have smaller indices
  induction hindex : f.index using Nat.strongRecOn generalizing f with
  | ind n ih =>
    refine step f hf fun p hp => ?_
    obtain ⟨hnone, -⟩ | ⟨q, hq, hparent, -⟩ := hs.parent?_cases hf
    · rw [hnone] at hp
      cases hp
    · obtain rfl : q = p := Option.some.inj (hparent.symm.trans hp)
      exact ih q.index (hindex ▸ hq) q (Nat.lt_trans hq hf) rfl

/-- The depth of a frame is the length of the way outward. -/
private theorem depth_eq (hs : s.Nested) (hf : f.index < s.frames.size) :
    s.depth f = match s.parent? f with
      | none => 0
      | some p => s.depth p + 1 := by
  have hlength : ∀ g, s.depth g + 1 = (s.chain g).length := fun _ => rfl
  obtain ⟨hnone, hchain⟩ | ⟨p, -, hparent, hchain⟩ := hs.parent?_cases hf
  · have hf' := hlength f
    rw [hchain, List.length_singleton] at hf'
    rw [hnone]
    exact Nat.succ.inj hf'
  · have hf' := hlength f
    rw [hchain, List.length_cons, ← hlength p] at hf'
    rw [hparent]
    exact Nat.succ.inj hf'

/-! ## The step outward -/

/-- A name that the frame does not bind is looked for in the parent. -/
private theorem holder?_of_free (hs : s.Nested) (hf : f.index < s.frames.size)
    (h : (s.frame f).bindings.binds name = false) :
    s.holder? f name = (s.parent? f).bind fun p => s.holder? p name := by
  obtain ⟨hnone, hchain⟩ | ⟨p, -, hparent, hchain⟩ := hs.parent?_cases hf
  · rw [holder?, hchain, hnone, List.find?_cons, h]
    rfl
  · rw [holder?, hchain, hparent, List.find?_cons, h]
    rfl

/-- What a name means in a frame is its binding there, or else what it means in the parent. -/
theorem get?_eq (hs : s.Nested) (hf : f.index < s.frames.size) (name : String) :
    s.get? f name = ((s.frame f).bindings.lookup name).or
      ((s.parent? f).bind fun p => s.get? p name) := by
  cases hlookup : (s.frame f).bindings.lookup name with
  | some v =>
    have hbinds : (s.frame f).bindings.binds name = true := by rw [Bindings.binds, hlookup]; rfl
    rw [get?, holder?_of_binds hbinds, Option.bind_some, hlookup, Option.some_or]
  | none =>
    have hfree : (s.frame f).bindings.binds name = false := by rw [Bindings.binds, hlookup]; rfl
    rw [get?, hs.holder?_of_free hf hfree, Option.none_or, Option.bind_assoc]
    rfl

/-! ## The nearest frame -/

/-- The frame in which a name is found is the nearest that binds it. -/
private theorem nearest_of_holder? (hs : s.Nested) (hf : f.index < s.frames.size) {g : FrameRef}
    (h : s.holder? f name = some g) : s.Nearest name f g := by
  refine ⟨?_, binds_of_holder? h⟩
  -- by induction on the way outward: the search stops here, or goes on from the parent
  refine hs.induction_outward (motive := fun f => s.holder? f name = some g → s.Sees name f g)
    (fun f hf ih h => ?_) f hf h
  cases hbinds : (s.frame f).bindings.binds name with
  | true =>
    rw [holder?_of_binds hbinds] at h
    cases h
    exact .here _
  | false =>
    rw [hs.holder?_of_free hf hbinds] at h
    obtain ⟨p, hp, hg⟩ := Option.bind_eq_some_iff.1 h
    exact .outward hbinds hp (ih p hp hg)

/-- A frame that is seen without a binding before it decides what the name means. -/
private theorem get?_of_sees (hs : s.Nested) {g : FrameRef} {v : Value} (h : s.Sees name f g)
    (hf : f.index < s.frames.size) (hv : (s.frame g).bindings.lookup name = some v) :
    s.get? f name = some v := by
  induction h with
  | here f => rw [hs.get?_eq hf, hv, Option.some_or]
  | @outward f p g hfree hparent _ ih =>
    have hnone : (s.frame f).bindings.lookup name = none := by
      simpa [Bindings.binds] using hfree
    rw [hs.get?_eq hf, hnone, hparent, Option.none_or, Option.bind_some]
    exact ih (hs.parent_lt hf hparent) hv

/-- A name means its binding in the nearest frame that has one. -/
private theorem get?_eq_some_iff (hs : s.Nested) (hf : f.index < s.frames.size) {v : Value} :
    s.get? f name = some v ↔
      ∃ g, s.Nearest name f g ∧ (s.frame g).bindings.lookup name = some v := by
  constructor
  · intro h
    obtain ⟨g, hholder, hlookup⟩ := Option.bind_eq_some_iff.1 h
    exact ⟨g, hs.nearest_of_holder? hf hholder, hlookup⟩
  · rintro ⟨g, ⟨hsees, -⟩, hlookup⟩
    exact hs.get?_of_sees hsees hf hlookup

end Nested

/-! ## New bindings -/

variable {s : Scopes} {h : FrameRef} {name : String}

/-- A name that is bound in one frame changes nothing about other names, nor about that name in
    other frames. -/
theorem lookup_define_of_ne (s : Scopes) {f g : FrameRef} {name other : String}
    (hne : ¬ (other = name ∧ g = f)) (v : Value) :
    ((s.define f name v).frame g).bindings.lookup other = (s.frame g).bindings.lookup other := by
  by_cases hfg : f = g
  · subst hfg
    by_cases hf : f.index < s.frames.size
    · rw [frame_define_self hf]
      exact Bindings.lookup_insert_of_ne _ (fun heq => hne ⟨heq, rfl⟩) v
    · simp [define, frame, hf]
  · rw [frame_define_of_ne s hfg]

/-- A new binding does not get in the way of those who look for its own frame. -/
theorem Sees.define {g : FrameRef} (hsees : s.Sees name g h) (v : Value) :
    (s.define h name v).Sees name g h := by
  induction hsees with
  | here f => exact .here f
  | @outward f p k hfree hparent _ ih =>
    by_cases hfk : f = k
    · exact hfk ▸ .here f
    · refine .outward ?_ (by rwa [parent?_define]) ih
      rwa [frame_define_of_ne s (Ne.symm hfk)]

/-- Binding a name in a frame changes its meaning there and wherever that frame is seen without
    another binding before it. -/
private theorem Nested.changes_define (hs : s.Nested) (hh : h.index < s.frames.size) (v : Value) :
    s.Changes (s.define h name v) name v fun g => s.Sees name g h := by
  intro g other hg
  have hs' := hs.define h name v
  have hsize : ∀ k : FrameRef, k.index < s.frames.size →
      k.index < (s.define h name v).frames.size := fun k hk => by rwa [size_define]
  constructor
  · rintro ⟨rfl, hsees⟩
    refine hs'.get?_of_sees (hsees.define v) (hsize g hg) ?_
    rw [frame_define_self hh]
    exact Bindings.lookup_insert_self _ other v
  · -- on the way outward, the two forests are the same until the frame `h` is met
    refine hs.induction_outward (motive := fun g => ¬ (other = name ∧ s.Sees name g h) →
      (s.define h name v).get? g other = s.get? g other) (fun g hg ih hunseen => ?_) g hg
    have hlookup := s.lookup_define_of_ne
      (fun hgh => hunseen ⟨hgh.1, hgh.2 ▸ .here g⟩ : ¬ (other = name ∧ g = h)) v
    rw [hs'.get?_eq (hsize g hg), hs.get?_eq hg, hlookup, parent?_define]
    cases hbound : (s.frame g).bindings.lookup other with
    | some w => rfl
    | none =>
      cases hparent : s.parent? g with
      | none => rfl
      | some p =>
        -- to see the frame from the parent would be to see it from here
        refine ih p hparent fun hp => hunseen ⟨hp.1, ?_⟩
        refine .outward ?_ hparent hp.2
        rw [← hp.1, Bindings.binds, hbound]
        rfl

end Scopes

/-! ## Machines -/

namespace Machine

variable {κ : Type}

/-- One operation on existing frames, whether it succeeds or not. -/
inductive FrameStep : Machine κ → Machine κ → Prop where
  | spawn {m : Machine κ} {f : FrameRef} (hf : f.index < m.scopes.frames.size) :
      FrameStep m ((Eval.spawn f).after m)
  | define {m : Machine κ} {f : FrameRef} (hf : f.index < m.scopes.frames.size) (name : String)
      (v : Value) : FrameStep m ((Eval.define f name v).after m)
  | assign {m : Machine κ} {f : FrameRef} (hf : f.index < m.scopes.frames.size) (name : String)
      (v : Value) : FrameStep m ((Eval.assign f name v).after m)

/-- Machines whose frames come from operations on the root frame, any number of them and in any
    order. -/
def IsForest (m : Machine κ) : Prop :=
  ∃ m₀ : Machine κ, m₀.scopes = .start ∧ Relation.ReflTransGen FrameStep m₀ m

end Machine

namespace Eval

variable {κ : Type}

/-- An assignment binds the name again where it is found. -/
private theorem after_assign (f : FrameRef) (name : String) (v : Value) (m : Machine κ) :
    ((assign f name v).after m).scopes = match m.scopes.holder? f name with
      | some g => m.scopes.define g name v
      | none => m.scopes := by
  rw [after, assign_eq]
  cases m.scopes.holder? f name <;> rfl

end Eval

namespace Machine

variable {κ : Type} {m m' : Machine κ}

/-- Every operation leaves frames inside older frames. -/
private theorem FrameStep.nested (h : FrameStep m m') (hs : m.scopes.Nested) :
    m'.scopes.Nested := by
  cases h with
  | spawn hf => exact hs.spawn hf
  | define hf name v => exact hs.define _ name v
  | assign hf name v =>
    rw [Eval.after_assign]
    split
    · exact hs.define _ name v
    · exact hs

/-- No operation changes the depth of a frame. -/
private theorem FrameStep.depth_eq (h : FrameStep m m') {g : FrameRef}
    (hg : g.index < m.scopes.frames.size) : m'.scopes.depth g = m.scopes.depth g := by
  cases h with
  | spawn hf => exact Scopes.depth_spawn hg _
  | define hf name v => exact m.scopes.depth_define _ g name v
  | assign hf name v =>
    rw [Eval.after_assign]
    split
    · exact m.scopes.depth_define _ g name v
    · rfl

/-- So they are in every forest. -/
private theorem IsForest.nested (h : m.IsForest) : m.scopes.Nested := by
  obtain ⟨m₀, hstart, hsteps⟩ := h
  induction hsteps with
  | refl => exact hstart ▸ Scopes.nested_start
  | tail _ hstep ih => exact hstep.nested ih

end Machine

namespace Eval

variable {κ : Type} {m : Machine κ} {f : FrameRef}

/-- An assignment succeeds exactly if the name means something. -/
private theorem assign_succeeds_iff (name : String) (v : Value) :
    (∃ w m', assign f name v m = .ok w m') ↔ ∃ w, m.scopes.get? f name = some w := by
  rw [assign_eq]
  cases hholder : m.scopes.holder? f name with
  | some g =>
    -- the frame that holds the name binds it to something
    have hbinds := Scopes.binds_of_holder? hholder
    obtain ⟨w, hw⟩ := Option.isSome_iff_exists.1 hbinds
    refine ⟨fun _ => ⟨w, ?_⟩, fun _ => ⟨v, _, rfl⟩⟩
    rw [Scopes.get?, hholder, Option.bind_some, hw]
  | none =>
    constructor
    · rintro ⟨_, _, herror⟩
      cases herror
    · rintro ⟨w, hw⟩
      rw [Scopes.get?, hholder] at hw
      cases hw

/-- An assignment changes the meaning of the name wherever it was found in the same frame. -/
private theorem changes_of_assign (hs : m.scopes.Nested) (hf : f.index < m.scopes.frames.size)
    {name : String} {v w : Value} {m' : Machine κ} (h : assign f name v m = .ok w m') :
    ∃ g, m.scopes.Nearest name f g ∧
      m.scopes.Changes m'.scopes name v fun k => m.scopes.Nearest name k g := by
  rw [assign_eq] at h
  -- without a frame that holds the name the assignment would have failed
  cases hholder : m.scopes.holder? f name with
  | none =>
    rw [hholder] at h
    cases h
  | some g =>
    rw [hholder] at h
    cases h
    have hbinds := Scopes.binds_of_holder? hholder
    refine ⟨g, hs.nearest_of_holder? hf hholder, fun k other hk => ?_⟩
    -- the frame binds the name already, so to see it is to find the name there
    have hiff : m.scopes.Nearest name k g ↔ m.scopes.Sees name k g := and_iff_left hbinds
    simp only [hiff]
    exact hs.changes_define (Scopes.index_lt_of_binds hbinds) v k other hk

end Eval

namespace Machine

variable {κ : Type}

/-- How names resolve in any forest of frames.  A name means its binding in the nearest frame on the
    way outward that has one.  An assignment succeeds exactly if the name means something; it
    changes the meaning for all frames that find the name where the assigning frame finds it, and
    for no others, and where it fails nothing changes at all.  A definition changes the meaning for
    the frames that see its frame without a binding before it, and for no others.  The depth of a
    frame is the length of the way outward, and no operation changes it. -/
theorem names_resolve_outward {m : Machine κ} (h : m.IsForest) :
    (∀ (f : FrameRef) (name : String) (v : Value), f.index < m.scopes.frames.size →
      (m.scopes.get? f name = some v ↔
        ∃ g, m.scopes.Nearest name f g ∧ (m.scopes.frame g).bindings.lookup name = some v)) ∧
    (∀ (f : FrameRef) (name : String) (v : Value), f.index < m.scopes.frames.size →
      ((∃ w m', Eval.assign f name v m = .ok w m') ↔ ∃ w, m.scopes.get? f name = some w) ∧
      (∀ w m', Eval.assign f name v m = .ok w m' → ∃ g, m.scopes.Nearest name f g ∧
        m.scopes.Changes m'.scopes name v fun k => m.scopes.Nearest name k g) ∧
      ∀ u m', Eval.assign f name v m = .error u m' → m' = m) ∧
    (∀ (f : FrameRef) (name : String) (v : Value), f.index < m.scopes.frames.size →
      m.scopes.Changes ((Eval.define f name v).after m).scopes name v
        fun k => m.scopes.Sees name k f) ∧
    (∀ f : FrameRef, f.index < m.scopes.frames.size →
      m.scopes.depth f = match m.scopes.parent? f with
        | none => 0
        | some p => m.scopes.depth p + 1) ∧
    ∀ m', FrameStep m m' → ∀ g : FrameRef, g.index < m.scopes.frames.size →
      m'.scopes.depth g = m.scopes.depth g := by
  have hs := h.nested
  refine ⟨fun f name v hf => hs.get?_eq_some_iff hf, fun f name v hf => ⟨?_, ?_, ?_⟩,
    fun f name v hf => hs.changes_define hf v, fun f hf => hs.depth_eq hf,
    fun m' hstep g hg => hstep.depth_eq hg⟩
  · exact Eval.assign_succeeds_iff name v
  · exact fun w m' hassign => Eval.changes_of_assign hs hf hassign
  · -- an assignment fails only where nothing holds the name, before anything has changed
    intro u m' hassign
    rw [Eval.assign_eq] at hassign
    split at hassign
    · cases hassign
    · cases hassign
      rfl

/-- Two frames inside the root.  One of them binds a name of its own, and an assignment in the other
    changes what the root means by it. -/
theorem names_resolve_outward_siblings :
    ∃ m m' : Machine Unit, m.IsForest ∧ m.scopes.depth ⟨2⟩ = 1 ∧
      Eval.assign ⟨2⟩ "x" (.bool true) m = .ok (.bool true) m' ∧
      m'.scopes.get? Scopes.root "x" = some (.bool true) ∧
      m'.scopes.get? ⟨1⟩ "x" = some (.string "own") := by
  let m₁ : Machine Unit := (Eval.define Scopes.root "x" .null).after { context := () }
  let m₂ := (Eval.spawn Scopes.root).after m₁
  let m₃ := (Eval.spawn Scopes.root).after m₂
  let m₄ := (Eval.define ⟨1⟩ "x" (.string "own")).after m₃
  have hforest : m₄.IsForest := ⟨{ context := () }, rfl,
    .tail (.tail (.tail (.single (.define (by decide) _ _)) (.spawn (by decide)))
      (.spawn (by decide))) (.define (by decide) _ _)⟩
  obtain ⟨-, hassign, -, hdepth, -⟩ := names_resolve_outward hforest
  obtain ⟨g, hnearest, hchanges⟩ := (hassign ⟨2⟩ "x" (.bool true) (by decide)).2.1 _ _ rfl
  -- the way outward from the second frame ends at the root, which binds the name
  obtain rfl : g = Scopes.root := by
    obtain ⟨_ | ⟨_, hparent, _ | ⟨hfree, _, _⟩⟩, hbinds⟩ := hnearest
    · cases hbinds
    · exact (Option.some.inj hparent).symm
    · cases Option.some.inj hparent
      cases hfree
  have hroot := (hchanges Scopes.root "x" (by decide)).1 ⟨rfl, .here _, rfl⟩
  have hown := (hchanges ⟨1⟩ "x" (by decide)).2 fun ⟨_, hnearest, _⟩ => by
    cases hnearest with
    | outward hfree => cases hfree
  exact ⟨m₄, _, hforest, hdepth ⟨2⟩ (by decide), rfl, hroot, hown⟩

end Machine
end Lisplet
