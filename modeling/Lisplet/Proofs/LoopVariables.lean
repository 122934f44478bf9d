import Lisplet.Proofs.Evaluation
import Lisplet.Proofs.Pairing
import Lisplet.Proofs.Resolution

/-! # Loop variables

After each pass a `for` loop assigns a new value to its variable.  An assignment looks for the name,
and much could have happened to it: the passes, the condition and the step are any expressions, and
the closures that they make may come back to the frame of the loop.  But no evaluation takes a name
away from a frame, so the search always ends where it starts, in the loop's own frame.

* `Evaluator.owningLoop`        the loop that writes its variable without looking for it
* `Evaluator.Rounds`            how a loop gets from one test of its condition to later ones
* `Evaluator.OwnsRound`         what a round does with the frames
* `Rounds.binds`                the frame of the loop keeps its variable
* `Form.forLoop_eq_owningLoop`  looking for the variable makes no difference
* `Form.for_owns_variable`      a `for` loop owns its variable -/

namespace Lisplet

open Eval

variable {κ : Type}

namespace Eval

variable {m : Machine κ} {frame : FrameRef} {name : String}
  (hbinds : (m.scopes.frame frame).bindings.binds name = true)
include hbinds

/-- A name that is bound in the frame itself is assigned there. -/
private theorem assign_of_binds (v : Value) :
    assign frame name v m = .ok v { m with scopes := m.scopes.define frame name v } := by
  rw [assign_eq, Scopes.holder?_of_binds hbinds]

variable {β : Type} {x : Eval κ β} {P : FrameRef → Prop} {U : Unwind → Prop} (hx : x.Confined P U)
include hx

/-- A confined evaluation takes no name away from a frame. -/
private theorem Confined.binds_of_ok {b : β} {m' : Machine κ} (h : x m = .ok b m') :
    (m'.scopes.frame frame).bindings.binds name = true :=
  ((hx m).of_ok h).kept frame name hbinds

/-- Whatever follows a confined evaluation may rely on a name of a frame. -/
theorem Confined.bind_congr {α : Type} {f g : β → Eval κ α}
    (hfg : ∀ b m₁, (m₁.scopes.frame frame).bindings.binds name = true → f b m₁ = g b m₁) :
    (x >>= f) m = (x >>= g) m := by
  cases h : x m with
  | ok b m₁ => rw [bind_ok h, bind_ok h, hfg b m₁ (Confined.binds_of_ok hbinds hx h)]
  | error u m₁ => rw [bind_error h, bind_error h]

end Eval

namespace Scopes

/-- The frames `s'` are `s` except for the value of one name in one frame, which had a value
    before. -/
structure Rebinds (s s' : Scopes) (f : FrameRef) (name : String) (v : Value) : Prop where
  binds : (s.frame f).bindings.binds name = true
  lookup_self : (s'.frame f).bindings.lookup name = some v
  lookup_of_ne : ∀ g other, ¬ (other = name ∧ g = f) →
    (s'.frame g).bindings.lookup other = (s.frame g).bindings.lookup other
  outer_eq : ∀ g, (s'.frame g).outer = (s.frame g).outer
  size_eq : s'.frames.size = s.frames.size

/-- A name is bound where it is defined. -/
private theorem binds_define {s : Scopes} {f : FrameRef} (h : f.index < s.frames.size)
    (name : String) (v : Value) : ((s.define f name v).frame f).bindings.binds name = true := by
  simp [frame_define_self h, Bindings.binds]

/-- A name that has a value already is given another. -/
private theorem rebinds_define {s : Scopes} {f : FrameRef} {name : String}
    (h : (s.frame f).bindings.binds name = true) (v : Value) :
    s.Rebinds (s.define f name v) f name v where
  binds := h
  lookup_self := by simp [frame_define_self (index_lt_of_binds h)]
  lookup_of_ne := fun g other hne => lookup_define_of_ne s hne v
  outer_eq := fun g => outer_define s f g name v
  size_eq := size_define s f name v

end Scopes

namespace Evaluator

/-- A `for` loop that writes its variable into its own frame, without looking for it. -/
def owningLoop (ev : Evaluator κ) (name : String) (condition step : Expr) (body : List Expr)
    (frame : FrameRef) (last : Value) : Nat → Eval κ Value
  | 0 => fail .exhausted
  | fuel + 1 => do
    if ← ev.test condition frame then
      match ← ev.pass body frame with
      | some v =>
        define frame name (← ev.eval step frame)
        ev.owningLoop name condition step body frame v fuel
      | none => return .null
    else return last

/-- What a pass makes of the end of its body: it takes both loop signals. -/
def absorb : EStateM.Result Unwind (Machine κ) Value →
    EStateM.Result Unwind (Machine κ) (Option Value)
  | .ok v m => .ok (some v) m
  | .error (.signal .breaking) m => .ok none m
  | .error (.signal .continuing) m => .ok (some .null) m
  | .error u m => .error u m

/-- A pass runs the body in a new frame and takes its signals. -/
private theorem pass_eq_absorb (ev : Evaluator κ) (body : List Expr) (frame : FrameRef)
    (m : Machine κ) :
    ev.pass body frame m = absorb (ev.body body m.scopes.next
      { m with scopes := m.scopes.spawn frame }) := by
  -- the body runs on the machine with the new frame
  refine (bind_ok rfl).trans ?_
  cases hbody : ev.body body m.scopes.next { m with scopes := m.scopes.spawn frame } with
  | ok v m₁ => exact tryCatch_ok (bind_ok hbody)
  | error u m₁ =>
    refine (tryCatch_error (bind_error hbody)).trans ?_
    match u with
    | .signal .breaking => rfl
    | .signal .continuing => rfl
    | .failure e => rfl

section Loops

variable {ev : Evaluator κ} {name : String} {condition step : Expr} {body : List Expr}
  {frame : FrameRef}

/-- The machines on which a `for` loop tests its condition, if it first does so on `start`.  The
    loop has come to `m` after `n` passes that were completed or continued, the last of them with
    the value `last`. -/
inductive Rounds (ev : Evaluator κ) (name : String) (condition step : Expr) (body : List Expr)
    (frame : FrameRef) (start : Machine κ) : Nat → Value → Machine κ → Prop
  | zero : Rounds ev name condition step body frame start 0 .null start
  | succ {n : Nat} {last v next w : Value} {m m₁ m₂ m₃ m₄ : Machine κ} :
      Rounds ev name condition step body frame start n last m →
      ev.test condition frame m = .ok true m₁ → ev.pass body frame m₁ = .ok (some v) m₂ →
      ev.eval step frame m₂ = .ok next m₃ → assign frame name next m₃ = .ok w m₄ →
      Rounds ev name condition step body frame start (n + 1) v m₄

/-- What a `for` loop does with the frames from the machine `m` on, on which its condition turned
    out to hold.  The pass runs in a new frame directly inside the frame of the loop; if it is
    completed or continued, and the step has a value, then that value is assigned, and nothing but
    the variable in the loop's own frame changes. -/
structure OwnsRound (ev : Evaluator κ) (name : String) (step : Expr) (body : List Expr)
    (frame : FrameRef) (m : Machine κ) : Prop where
  pass_eq : ev.pass body frame m = absorb (ev.body body m.scopes.next
    { m with scopes := m.scopes.spawn frame })
  pass_new : m.scopes.frames.size ≤ m.scopes.next.index
  pass_ne : m.scopes.next ≠ frame
  pass_parent : (m.scopes.spawn frame).parent? m.scopes.next = some frame
  pass_empty : ((m.scopes.spawn frame).frame m.scopes.next).bindings = []
  assigns : ∀ v m₁ next m₂, ev.pass body frame m = .ok (some v) m₁ →
    ev.eval step frame m₁ = .ok next m₂ →
      ∃ s, assign frame name next m₂ = .ok next { m₂ with scopes := s } ∧
        m₂.scopes.Rebinds s frame name next

/-- After some rounds, a loop goes on as a loop does that has this many passes less to make. -/
private theorem Rounds.forLoop_eq {start m : Machine κ} {n : Nat} {last : Value}
    (h : ev.Rounds name condition step body frame start n last m) (fuel : Nat) :
    ev.forLoop name condition step body frame .null (n + fuel) start =
      ev.forLoop name condition step body frame last fuel m := by
  induction h generalizing fuel with
  | zero => rw [Nat.zero_add]
  | succ _ htest hpass hstep hassign ih =>
    -- the fuel for the last round is left over from the rounds before it
    rw [Nat.add_right_comm, Nat.add_assoc, ih (fuel + 1)]
    rw [forLoop, bind_ok htest, if_pos rfl, bind_ok hpass]
    exact (bind_ok hstep).trans (bind_ok hassign)

variable (hev : ev.Lawful) {m : Machine κ}
  (hbinds : (m.scopes.frame frame).bindings.binds name = true)
include hev hbinds

/-- The condition takes no name away. -/
private theorem binds_of_test {m₁ : Machine κ} {holds : Bool}
    (htest : ev.test condition frame m = .ok holds m₁) :
    (m₁.scopes.frame frame).bindings.binds name = true :=
  (test_confined (hev.eval condition frame)).binds_of_ok hbinds htest

/-- A pass may define the variable anew, but in a frame of its own. -/
private theorem binds_of_pass {m₁ m₂ : Machine κ} {result : Option Value} {next : Value}
    (hpass : ev.pass body frame m = .ok result m₁) (hstep : ev.eval step frame m₁ = .ok next m₂) :
    (m₂.scopes.frame frame).bindings.binds name = true := by
  have hconfined : (ev.pass body frame).Confined (fun _ => False) (Unwind.Settled fun _ => False) :=
    pass_confined hev body frame
  exact (hev.eval step frame).binds_of_ok (hconfined.binds_of_ok hbinds hpass) hstep

/-- A round goes on in the frame of the loop as long as that has the variable. -/
private theorem ownsRound_of_binds : ev.OwnsRound name step body frame m where
  pass_eq := pass_eq_absorb ev body frame m
  pass_new := Nat.le_refl _
  pass_ne := fun h => absurd (Scopes.index_lt_of_binds hbinds) (by simp [← h, Scopes.next])
  pass_parent := by simp [Scopes.parent?, Scopes.frame_spawn_next, Scopes.chain]
  pass_empty := by simp [Scopes.frame_spawn_next]
  assigns := fun v m₁ next m₂ hpass hstep =>
    have hbinds₂ := binds_of_pass hev hbinds hpass hstep
    ⟨_, assign_of_binds hbinds₂ next, Scopes.rebinds_define hbinds₂ next⟩

omit hbinds in
/-- The frame of the loop keeps its variable. -/
theorem Rounds.binds {start : Machine κ} {n : Nat} {last : Value}
    (h : ev.Rounds name condition step body frame start n last m)
    (hstart : (start.scopes.frame frame).bindings.binds name = true) :
    (m.scopes.frame frame).bindings.binds name = true := by
  induction h with
  | zero => exact hstart
  | succ _ htest hpass hstep hassign ih =>
    have hbinds := binds_of_pass hev (binds_of_test hev ih htest) hpass hstep
    -- the assignment binds the variable in the same frame again
    rw [assign_of_binds hbinds] at hassign
    cases hassign
    exact Scopes.binds_define (Scopes.index_lt_of_binds hbinds) name _

/-- It makes no difference that the loop looks for its variable. -/
theorem forLoop_eq_owningLoop (last : Value) (fuel : Nat) :
    ev.forLoop name condition step body frame last fuel m =
      ev.owningLoop name condition step body frame last fuel m := by
  induction fuel generalizing m last with
  | zero => rfl
  | succ fuel ih =>
    have htest := test_confined (hev.eval condition frame)
    have hpass : (ev.pass body frame).Confined (fun _ => False) (Unwind.Settled fun _ => False) :=
      pass_confined hev body frame
    refine htest.bind_congr hbinds fun again m₁ hbinds₁ => ?_
    cases again with
    | false => rfl
    | true =>
      refine hpass.bind_congr hbinds₁ fun result m₂ hbinds₂ => ?_
      cases result with
      | none => rfl
      | some v =>
        -- condition, pass and step all leave the variable in its frame, so the assignment finds it
        -- there
        refine (hev.eval step frame).bind_congr hbinds₂ fun next m₃ hbinds₃ => ?_
        have hdefined := Scopes.binds_define (Scopes.index_lt_of_binds hbinds₃) name next
        refine (bind_ok (assign_of_binds hbinds₃ next)).trans ?_
        exact ih (m := { m₃ with scopes := m₃.scopes.define frame name next }) hdefined v

end Loops

end Evaluator

namespace Form

/-- A `for` loop that owns its variable, in its frame inside the current one. -/
def owningLoop (ev : Evaluator κ) (fuel : Nat) (scope : FrameRef) (binding condition step : Expr)
    (body : List Expr) : Eval κ Value := do
  let (name, initial) ← loopVariable binding
  let inner ← spawn scope
  define inner name (← ev.eval initial scope)
  ev.owningLoop name condition step body inner .null fuel

/-- The machine on which a `for` loop first tests its condition. -/
def loopStart (m₀ : Machine κ) (frame : FrameRef) (name : String) (first : Value) : Machine κ :=
  { m₀ with scopes := m₀.scopes.define frame name first }

section Loops

variable {ev : Evaluator κ}

/-- The loop is reached if its first value is, and begins where the value has been bound. -/
private theorem forLoop_of_initial {scope : FrameRef} {binding initial : Expr} {name : String}
    (hbinding : binding.parts? = some [.identifier name, initial]) {m m₀ : Machine κ}
    {first : Value}
    (hinitial : ev.eval initial scope { m with scopes := m.scopes.spawn scope } = .ok first m₀)
    (condition step : Expr) (body : List Expr) (fuel : Nat) :
    forLoop ev fuel scope binding condition step body m =
      ev.forLoop name condition step body m.scopes.next .null fuel
        (loopStart m₀ m.scopes.next name first) := by
  have hvariable : loopVariable binding m = .ok (name, initial) m := by
    rw [loopVariable, hbinding]
    rfl
  refine (bind_ok hvariable).trans ?_
  refine (bind_ok rfl).trans ?_
  refine (bind_ok hinitial).trans ?_
  exact bind_ok rfl

variable (hev : ev.Lawful) (scope : FrameRef)
include hev

/-- The frame of the loop was made before the first value, so it is there to bind the variable. -/
private theorem binds_loopStart {initial : Expr} {m m₀ : Machine κ} {first : Value}
    (hinitial : ev.eval initial scope { m with scopes := m.scopes.spawn scope } = .ok first m₀)
    (name : String) : ((loopStart m₀ m.scopes.next name first).scopes.frame
      m.scopes.next).bindings.binds name = true := by
  have hsize := ((hev.eval initial scope _).of_ok hinitial).size_le
  rw [Scopes.size_spawn] at hsize
  exact Scopes.binds_define hsize name first

/-- Nor does it to the form as a whole. -/
theorem forLoop_eq_owningLoop (binding condition step : Expr) (body : List Expr) (fuel : Nat) :
    forLoop ev fuel scope binding condition step body =
      owningLoop ev fuel scope binding condition step body := by
  funext m
  cases hvariable : (loopVariable binding : Eval κ (String × Expr)) m with
  | error u m₁ => exact (bind_error hvariable).trans (bind_error hvariable).symm
  | ok b m₁ =>
    obtain ⟨name, initial⟩ := b
    refine (bind_ok hvariable).trans (.trans ?_ (bind_ok hvariable).symm)
    -- both make the frame, and then evaluate the first value
    refine (bind_ok rfl).trans (.trans ?_ (bind_ok rfl).symm)
    cases hinitial : ev.eval initial scope { m₁ with scopes := m₁.scopes.spawn scope } with
    | error u m₀ => exact (bind_error hinitial).trans (bind_error hinitial).symm
    | ok first m₀ =>
      refine (bind_ok hinitial).trans (.trans ?_ (bind_ok hinitial).symm)
      exact Evaluator.forLoop_eq_owningLoop hev (binds_loopStart hev scope hinitial name) .null fuel

end Loops

/-- A `for` loop owns its variable.  It does what a loop does that writes the variable into its own
    frame.  Whenever its condition turns out to hold, whatever has been evaluated until then, a pass
    runs in a new frame directly inside the frame of the loop, and the assignment after it, if it
    comes to that, succeeds and changes nothing but the variable in the frame of the loop. -/
theorem for_owns_variable (hosts : List (String × HostFunction κ)) (libraries : List Library)
    (fuel : Nat) (scope : FrameRef) (binding condition step : Expr) (body : List Expr) :
    let ev : Evaluator κ := .withFuel (.ofLibraries hosts libraries) fuel
    let parts := binding :: condition :: step :: body
    (∀ passes, run ev passes scope .forLoop parts =
      owningLoop ev passes scope binding condition step body) ∧
    ∀ (name : String) (initial : Expr) (first last : Value) (m m₀ m' m₁ : Machine κ) (n : Nat),
      binding.parts? = some [.identifier name, initial] →
      ev.eval initial scope { m with scopes := m.scopes.spawn scope } = .ok first m₀ →
      ev.Rounds name condition step body m.scopes.next (loopStart m₀ m.scopes.next name first)
        n last m' →
      (∀ passes, run ev (n + passes) scope .forLoop parts m =
        ev.forLoop name condition step body m.scopes.next last passes m') ∧
      (ev.test condition m.scopes.next m' = .ok true m₁ →
        ev.OwnsRound name step body m.scopes.next m₁) := by
  have hlawful := Evaluator.withFuel_lawful (Registry.ofLibraries_lawful hosts libraries) fuel
  refine ⟨fun passes => forLoop_eq_owningLoop hlawful scope binding condition step body passes, ?_⟩
  intro name initial first last m m₀ m' m₁ n hbinding hinitial hrounds
  refine ⟨fun passes => ?_, fun htest => ?_⟩
  · exact (forLoop_of_initial hbinding hinitial condition step body (n + passes)).trans
      (hrounds.forLoop_eq passes)
  · have hstart := binds_loopStart hlawful scope hinitial name
    exact Evaluator.ownsRound_of_binds hlawful
      (Evaluator.binds_of_test hlawful (hrounds.binds hlawful hstart) htest)

/-- The loop `(for (i true) i "again" (let i "own"))` before its second pass, inside a frame that
    has a variable `i` too. -/
theorem for_owns_variable_shadowed :
    ∃ (ev : Evaluator Unit) (m m₀ m' m₁ m₂ m₃ : Machine Unit) (binding step shadow : Expr),
      ev = .withFuel (.ofLibraries [] Library.all) 9 ∧
      m.scopes.get? Scopes.root "i" = some .null ∧
      binding.parts? = some [.identifier "i", .bool true] ∧
      ev.eval (.bool true) Scopes.root { m with scopes := m.scopes.spawn Scopes.root } =
        .ok (.bool true) m₀ ∧
      ev.Rounds "i" (.identifier "i") step [shadow] ⟨1⟩ (loopStart m₀ ⟨1⟩ "i" (.bool true)) 1
        (.string "own") m' ∧
      ev.test (.identifier "i") ⟨1⟩ m' = .ok true m₁ ∧
      ev.pass [shadow] ⟨1⟩ m₁ = .ok (some (.string "own")) m₂ ∧
      ev.eval step ⟨1⟩ m₂ = .ok (.string "again") m₃ ∧
      (m₃.scopes.frame ⟨3⟩).bindings.lookup "i" = some (.string "own") ∧
      run ev 2 Scopes.root .forLoop [binding, .identifier "i", step, shadow] m =
        ev.forLoop "i" (.identifier "i") step [shadow] ⟨1⟩ (.string "own") 1 m' ∧
      ev.OwnsRound "i" step [shadow] ⟨1⟩ m₁ := by
  let ev : Evaluator Unit := .withFuel (.ofLibraries [] Library.all) 9
  let binding : Expr := .call [.identifier "i", .bool true]
  let step : Expr := .string "again"
  let shadow : Expr := .call [.identifier "let", .identifier "i", .string "own"]
  let machine (frames : List Frame) : Machine Unit := { context := (), scopes := ⟨frames.toArray⟩ }
  let outer : Frame := { bindings := [("i", .null)] }
  let loop (v : Value) : Frame := { outer := [⟨0⟩], bindings := [("i", v)] }
  let inner : Frame := { outer := [⟨1⟩, ⟨0⟩], bindings := [("i", .string "own")] }
  let m' := machine [outer, loop (.string "again"), inner]
  let m₂ := machine [outer, loop (.string "again"), inner, inner]
  have hinitial : ev.eval (.bool true) Scopes.root (machine [outer, { outer := [⟨0⟩] }]) =
      .ok (.bool true) (machine [outer, { outer := [⟨0⟩] }]) := rfl
  have hfirst : ev.pass [shadow] ⟨1⟩ (machine [outer, loop (.bool true)]) =
      .ok (some (.string "own")) (machine [outer, loop (.bool true), inner]) := rfl
  have hholds : ev.test (.identifier "i") ⟨1⟩ (machine [outer, loop (.bool true)]) =
      .ok true (machine [outer, loop (.bool true)]) := rfl
  have hassign : assign ⟨1⟩ "i" (.string "again") (machine [outer, loop (.bool true), inner]) =
      .ok (.string "again") m' := rfl
  have hrounds : ev.Rounds "i" (.identifier "i") step [shadow] ⟨1⟩
      (machine [outer, loop (.bool true)]) 1 (.string "own") m' :=
    .succ .zero hholds hfirst rfl hassign
  have htest : ev.test (.identifier "i") ⟨1⟩ m' = .ok true m' := rfl
  have hsecond : ev.pass [shadow] ⟨1⟩ m' = .ok (some (.string "own")) m₂ := rfl
  obtain ⟨-, howns⟩ := for_owns_variable (κ := Unit) [] Library.all 9 Scopes.root binding
    (.identifier "i") step [shadow]
  obtain ⟨hrest, hround⟩ := howns "i" (.bool true) (.bool true) (.string "own") (machine [outer])
    _ m' m' 1 rfl hinitial hrounds
  exact ⟨ev, machine [outer], _, m', m', m₂, m₂, binding, step, shadow, rfl, rfl, rfl, hinitial,
    hrounds, htest, hsecond, rfl, rfl, hrest 1, hround htest⟩

end Form
end Lisplet
