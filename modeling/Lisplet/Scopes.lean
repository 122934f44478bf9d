import Lisplet.Value

/-! # Scopes

Names are bound in frames.  Every frame but the root is enclosed by others, and a name
means its binding in the nearest frame that has one.  Frames are only ever added.

* `chain`     a frame and the frames that enclose it, nearest first
* `holder?`   the nearest frame of the chain that binds a name
* `get?`      what a name means
* `define`    binds a name in one frame -/

namespace Lisplet

/-- The name of a frame. -/
structure FrameRef where
  index : Nat
deriving DecidableEq, Repr

/-- Names with their values, in the order in which the names were first bound. -/
abbrev Bindings := List (String × Value)

namespace Bindings

/-- Binds a name; a name that is bound already keeps its place. -/
def insert (name : String) (v : Value) : Bindings → Bindings
  | [] => [(name, v)]
  | (k, w) :: rest => if k = name then (k, v) :: rest else (k, w) :: insert name v rest

/-- Whether a name is bound. -/
def binds (bs : Bindings) (name : String) : Bool := (bs.lookup name).isSome

/-- A name means what it was bound to last. -/
@[simp] theorem lookup_insert_self (bs : Bindings) (name : String) (v : Value) :
    (bs.insert name v).lookup name = some v := by
  induction bs with
  | nil => simp [insert]
  | cons b rest ih =>
    obtain ⟨k, w⟩ := b
    by_cases h : k = name
    · simp [insert, h]
    · simp [insert, h, List.lookup_cons, ih, beq_eq_false_iff_ne.2 (Ne.symm h)]

/-- Binding a name leaves all other names alone. -/
theorem lookup_insert_of_ne (bs : Bindings) {name other : String} (h : other ≠ name) (v : Value) :
    (bs.insert name v).lookup other = bs.lookup other := by
  induction bs with
  | nil => simp [insert, List.lookup_cons, beq_eq_false_iff_ne.2 h]
  | cons b rest ih =>
    obtain ⟨k, w⟩ := b
    by_cases hk : k = name
    · subst hk
      simp [insert, List.lookup_cons, beq_eq_false_iff_ne.2 h]
    · simp only [insert, hk, if_false, List.lookup_cons, ih]

end Bindings

/-- One frame: the frames that enclose it, nearest first, and its own bindings. -/
structure Frame where
  outer : List FrameRef := []
  bindings : Bindings := []
deriving DecidableEq, Repr

/-- All frames. -/
structure Scopes where
  frames : Array Frame
deriving DecidableEq, Repr

namespace Scopes

/-- The frame that encloses all others. -/
def root : FrameRef := ⟨0⟩

/-- Only the root frame, with nothing bound. -/
def start : Scopes := ⟨#[{}]⟩

/-- The frame of a given name. -/
def frame (s : Scopes) (f : FrameRef) : Frame := s.frames[f.index]?.getD {}

/-- A frame and the frames that enclose it, nearest first. -/
def chain (s : Scopes) (f : FrameRef) : List FrameRef := f :: (s.frame f).outer

/-- The frame directly around a frame. -/
def parent? (s : Scopes) (f : FrameRef) : Option FrameRef := (s.frame f).outer.head?

/-- How many frames enclose a frame. -/
def depth (s : Scopes) (f : FrameRef) : Nat := (s.frame f).outer.length

/-- The frame that the next `spawn` hands out. -/
def next (s : Scopes) : FrameRef := ⟨s.frames.size⟩

/-- Adds an empty frame directly inside `f`, which is then called `s.next`. -/
def spawn (s : Scopes) (f : FrameRef) : Scopes := ⟨s.frames.push { outer := s.chain f }⟩

/-- The nearest frame on the chain of `f` that binds a name. -/
def holder? (s : Scopes) (f : FrameRef) (name : String) : Option FrameRef :=
  (s.chain f).find? fun g => (s.frame g).bindings.binds name

/-- What a name means in a frame. -/
def get? (s : Scopes) (f : FrameRef) (name : String) : Option Value :=
  (s.holder? f name).bind fun g => (s.frame g).bindings.lookup name

/-- Binds a name in one frame. -/
def define (s : Scopes) (f : FrameRef) (name : String) (v : Value) : Scopes :=
  ⟨s.frames.modify f.index fun fr => { fr with bindings := fr.bindings.insert name v }⟩

/-! ## What the operations do to a frame -/

/-- A new frame is empty and enclosed by the frame it was made in. -/
theorem frame_spawn_next (s : Scopes) (f : FrameRef) :
    (s.spawn f).frame s.next = { outer := s.chain f } := by
  simp [spawn, frame, next]

/-- A new frame leaves the existing ones alone. -/
theorem frame_spawn_of_lt {s : Scopes} {g : FrameRef} (h : g.index < s.frames.size)
    (f : FrameRef) : (s.spawn f).frame g = s.frame g := by
  simp [spawn, frame, Array.getElem?_push, Nat.ne_of_lt h]

/-- A name is bound in the frame it was bound in. -/
theorem frame_define_self {s : Scopes} {f : FrameRef} (h : f.index < s.frames.size)
    (name : String) (v : Value) :
    (s.define f name v).frame f =
      { s.frame f with bindings := (s.frame f).bindings.insert name v } := by
  simp [define, frame, Array.getElem_modify, h]

/-- Binding a name in one frame leaves all others alone. -/
theorem frame_define_of_ne (s : Scopes) {f g : FrameRef} (h : f ≠ g) (name : String) (v : Value) :
    (s.define f name v).frame g = s.frame g := by
  have hne : f.index ≠ g.index := fun he => h (by cases f; cases g; simp_all)
  simp [define, frame, Array.getElem?_modify, hne]

/-- No frame changes its place when a name is bound. -/
@[simp] theorem chain_define (s : Scopes) (f g : FrameRef) (name : String) (v : Value) :
    (s.define f name v).chain g = s.chain g := by
  by_cases h : f = g
  · subst h
    by_cases hf : f.index < s.frames.size
    · simp [chain, frame_define_self hf]
    · simp [chain, define, frame, hf]
  · simp [chain, frame_define_of_ne s h]

/-! ## Text -/

/-- The names bound in one frame, sorted. -/
def frameText (s : Scopes) (f : FrameRef) : String :=
  let names := ((s.frame f).bindings.map Prod.fst).mergeSort (fun a b => decide (a ≤ b))
  "\x7b" ++ " ".intercalate names ++ "\x7d"

/-- The names bound in a frame and the frames that enclose it, nearest first. -/
def text (s : Scopes) (f : FrameRef) : String :=
  " -> ".intercalate ((s.chain f).map s.frameText)

end Scopes
end Lisplet
