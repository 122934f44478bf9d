import Lisplet.Proofs.Fuel
import Lisplet.Proofs.Ownership

/-! # Outcomes

What a program comes to, apart from fuel and journals.

The *outcome* of an evaluation is the value that it ends with, or the cause of its unwinding,
together with the machine that it leaves.  A program is what is done with an evaluator, and it
*concludes* with an outcome if some amount of fuel leads to it.  To be given up is no outcome, so a
program that concludes with none is one that runs for ever.

Programs are *steady*: more fuel does not change an outcome, nor does a journal.  So there is never
more than one, and the rules for conclusions read like those of a semantics without fuel.

* `Eval.outcome`                   how an evaluation ends
* `Registry.Concludes`             how a program ends
* `Registry.Steady`                programs to which more fuel makes no difference
* `Registry.Concludes.unique`      a program has one outcome at most
* `Registry.concludes_bind_iff`    one program after the other
* `Registry.concludes_apply_iff_run`    calls of library functions -/

namespace Lisplet

open Eval

variable {κ α β : Type}

/-- A machine without its journal has none to lose. -/
theorem Machine.silent_silent (m : Machine κ) : m.silent.silent = m.silent := rfl

namespace Simulation

/-- Every expression may be evaluated on both sides. -/
theorem over_untilExhausted (e : Expr) : e.Over (untilExhausted κ).toVocabulary :=
  over_ofContext _ _ Unwind.IsExhausted.isFinal e

/-- Every value may be called on both sides. -/
theorem allows_untilExhausted (v : Value) : (untilExhausted κ).Allows v :=
  allows_ofContext _ _ Unwind.IsExhausted.isFinal v

end Simulation

/-! ## Evaluations -/

namespace Eval

/-- What an evaluation comes to: its value or the cause of its unwinding, and the machine that is
    left, apart from the journal. -/
def outcome (x : Eval κ α) (m : Machine κ) : Except Unwind α × Machine κ :=
  match x m with
  | .ok a m' => (.ok a, m'.silent)
  | .error u m' => (.error u, m'.silent)

variable {x : Eval κ α} {m m' : Machine κ}

/-- The outcome is a value exactly if the evaluation ends with it. -/
private theorem outcome_eq_ok_iff {a : α} {s : Machine κ} :
    x.outcome m = (.ok a, s) ↔ ∃ m', x m = .ok a m' ∧ m'.silent = s := by
  unfold outcome
  cases x m <;> simp

/-- The outcome is a cause exactly if the evaluation unwinds with it. -/
private theorem outcome_eq_error_iff {u : Unwind} {s : Machine κ} :
    x.outcome m = (.error u, s) ↔ ∃ m', x m = .error u m' ∧ m'.silent = s := by
  unfold outcome
  cases x m <;> simp

/-- An evaluation that ends with a value. -/
theorem outcome_of_ok {a : α} (h : x m = .ok a m') : x.outcome m = (.ok a, m'.silent) :=
  outcome_eq_ok_iff.2 ⟨m', h, rfl⟩

/-- An evaluation that unwinds. -/
private theorem outcome_of_error {u : Unwind} (h : x m = .error u m') :
    x.outcome m = (.error u, m'.silent) :=
  outcome_eq_error_iff.2 ⟨m', h, rfl⟩

/-- After a value the rest decides. -/
private theorem outcome_bind_of_ok {y : Eval κ β} {f : β → Eval κ α} {b : β} (h : y m = .ok b m') :
    (y >>= f).outcome m = (f b).outcome m' := by
  rw [outcome, bind_ok h, outcome]

/-- An unwinding leaves the rest out. -/
private theorem outcome_bind_of_error {y : Eval κ β} {f : β → Eval κ α} {u : Unwind}
    (h : y m = .error u m') : (y >>= f).outcome m = (.error u, m'.silent) :=
  outcome_of_error (bind_error h)

/-- Evaluations that end alike come to the same. -/
private theorem outcome_congr {y : Eval κ α} (h : x m = y m') : x.outcome m = y.outcome m' := by
  rw [outcome, h, outcome]

/-- An outcome is a statement about how the evaluation ends. -/
private theorem outcome_eq_iff_ends {o : Except Unwind α × Machine κ} :
    x.outcome m = o ↔ x.Ends m (fun a m' => o = (.ok a, m'.silent))
      fun u m' => o = (.error u, m'.silent) := by
  unfold outcome Ends
  cases x m <;> exact eq_comm

/-- A journal is no part of an outcome. -/
private theorem silent_outcome (x : Eval κ α) (m : Machine κ) :
    (x.outcome m).2.silent = (x.outcome m).2 := by
  unfold outcome
  cases x m <;> rfl

/-- On machines that differ in their journals at most, `y` ends as `x` does, unless `x` is given
    up. -/
abbrev Approximates (x y : Eval κ α) : Prop :=
  x.Paired (.untilExhausted κ) (fun _ => True) (fun _ => True) y

/-- What is given up is followed by anything. -/
theorem approximates_of_exhausted (y : Eval κ α) : (fail .exhausted).Approximates y :=
  paired_of_loses (fun _ => rfl) y

/-- An evaluation that is not given up has the outcome of any that follows it. -/
private theorem Approximates.outcome_eq {y : Eval κ α} (h : x.Approximates y)
    (hm : m'.silent = m.silent) (hkept : ∀ u, (x.outcome m).1 = .error u → ¬ u.IsExhausted) :
    y.outcome m' = x.outcome m := by
  have hends := h m m' (Simulation.related_untilExhausted_iff.2 hm)
  cases hx : x m with
  | ok a m₁ =>
    obtain ⟨m₂, hy, -, hm₂⟩ := hends.of_ok hx
    rw [outcome_of_ok hx, outcome_of_ok hy, Simulation.related_untilExhausted_iff.1 hm₂]
  | error u m₁ =>
    rw [outcome_of_error hx] at hkept
    obtain hlost | ⟨m₂, hy, -, hm₂⟩ := hends.of_error hx
    · -- the only way to lose the other evaluation is to be given up
      exact absurd hlost (hkept u rfl)
    · rw [outcome_of_error hx, outcome_of_error hy, Simulation.related_untilExhausted_iff.1 hm₂]

end Eval

/-! ## Programs -/

namespace Registry

variable {reg : Registry κ} {x y : Evaluator κ → Eval κ α} {m m' : Machine κ}
  {o : Except Unwind α × Machine κ}

/-- With some amount of fuel the program comes to the outcome, which is its own: the program is not
    given up. -/
def Concludes (reg : Registry κ) (x : Evaluator κ → Eval κ α) (m : Machine κ)
    (o : Except Unwind α × Machine κ) : Prop :=
  (∀ u, o.1 = .error u → ¬ u.IsExhausted) ∧ ∃ fuel, (x (.withFuel reg fuel)).outcome m = o

/-- More fuel makes no difference to the program, unless it is given up with less. -/
def Steady (reg : Registry κ) (x : Evaluator κ → Eval κ α) : Prop :=
  ∀ fuel fuel', fuel ≤ fuel' → (x (.withFuel reg fuel)).Approximates (x (.withFuel reg fuel'))

/-- A program concludes as another one does that it follows with enough fuel. -/
theorem Concludes.of_approximates (h : reg.Concludes x m o)
    (hxy : ∀ fuel, ∃ fuel', (x (.withFuel reg fuel)).Approximates (y (.withFuel reg fuel')))
    (hm : m'.silent = m.silent) : reg.Concludes y m' o := by
  obtain ⟨hkept, fuel, rfl⟩ := h
  obtain ⟨fuel', hfollows⟩ := hxy fuel
  exact ⟨hkept, fuel', hfollows.outcome_eq hm hkept⟩

/-- Journals do not matter. -/
theorem Steady.concludes_silent_iff (hx : reg.Steady x) (hm : m'.silent = m.silent) :
    reg.Concludes x m' o ↔ reg.Concludes x m o :=
  ⟨fun h => h.of_approximates (fun fuel => ⟨fuel, hx fuel fuel (Nat.le_refl _)⟩) hm.symm,
    fun h => h.of_approximates (fun fuel => ⟨fuel, hx fuel fuel (Nat.le_refl _)⟩) hm⟩

/-- Any amount of fuel from some on leads to the outcome, whatever the journal. -/
private theorem Concludes.exists_forall_ge (h : reg.Concludes x m o) (hx : reg.Steady x) :
    ∃ n, ∀ fuel, n ≤ fuel → ∀ m' : Machine κ, m'.silent = m.silent →
      (x (.withFuel reg fuel)).outcome m' = o := by
  obtain ⟨hkept, n, rfl⟩ := h
  exact ⟨n, fun fuel hle m' hm => (hx n fuel hle).outcome_eq hm hkept⟩

/-- A program concludes with one outcome at most. -/
theorem Concludes.unique {o' : Except Unwind α × Machine κ} (h : reg.Concludes x m o)
    (hx : reg.Steady x) (h' : reg.Concludes x m o') : o' = o := by
  obtain ⟨n, hn⟩ := h.exists_forall_ge hx
  obtain ⟨n', hn'⟩ := h'.exists_forall_ge hx
  have hle := Nat.le_max_left n n'
  have hle' := Nat.le_max_right n n'
  exact (hn' _ hle' m rfl).symm.trans (hn _ hle m rfl)

/-- An outcome has no journal. -/
theorem Concludes.silent_eq (h : reg.Concludes x m o) : o.2.silent = o.2 := by
  obtain ⟨-, fuel, rfl⟩ := h
  exact silent_outcome _ m

/-- A program that takes a step and goes on as another one concludes as the other one does. -/
theorem concludes_step_iff (hzero : x (.withFuel reg 0) = fail .exhausted)
    (hsucc : ∀ fuel, x (.withFuel reg (fuel + 1)) m = y (.withFuel reg fuel) m') :
    reg.Concludes x m o ↔ reg.Concludes y m' o := by
  refine and_congr_right fun hkept => ⟨fun ⟨fuel, h⟩ => ?_, fun ⟨fuel, h⟩ => ?_⟩
  · cases fuel with
    | zero =>
      -- without fuel the program would be given up
      have hlost : o = (.error (.failure .exhausted), m.silent) := by
        rw [← h, hzero]
        rfl
      exact absurd rfl (hkept _ (congrArg Prod.fst hlost))
    | succ fuel => exact ⟨fuel, h ▸ (outcome_congr (hsucc fuel)).symm⟩
  · exact ⟨fuel + 1, h ▸ outcome_congr (hsucc fuel)⟩

/-- A record at the start makes no difference. -/
theorem Steady.concludes_record_iff (hx : reg.Steady x) (level : Level)
    (message : Machine κ → String) :
    reg.Concludes (fun ev => record level message >>= fun _ => x ev) m o ↔
      reg.Concludes x m o :=
  hx.concludes_silent_iff (m.silent_record level message)

/-- A program that makes no use of its evaluator. -/
theorem concludes_iff_of_forall_outcome {last : Except Unwind α × Machine κ}
    (hkept : ∀ u, last.1 = .error u → ¬ u.IsExhausted) (h : ∀ ev, (x ev).outcome m = last) :
    reg.Concludes x m o ↔ o = last := by
  constructor
  · rintro ⟨-, fuel, rfl⟩
    exact h _
  · rintro rfl
    exact ⟨hkept, 0, h _⟩

/-- A program that makes no use of its evaluator and ends with a value. -/
theorem concludes_iff_of_outcome {a : α} {s : Machine κ}
    (h : ∀ ev, (x ev).outcome m = (.ok a, s)) : reg.Concludes x m o ↔ o = (.ok a, s) :=
  concludes_iff_of_forall_outcome nofun h

/-- A value is its own conclusion. -/
theorem concludes_pure_iff {a : α} :
    reg.Concludes (fun _ => pure a) m o ↔ o = (.ok a, m.silent) :=
  concludes_iff_of_outcome fun _ => rfl

theorem steady_pure (reg : Registry κ) (a : α) : reg.Steady fun _ => pure a :=
  fun _ _ _ => paired_pure trivial

/-- Steady programs are so one after the other. -/
theorem Steady.bind {x : Evaluator κ → Eval κ β} {f : β → Evaluator κ → Eval κ α}
    (hx : reg.Steady x) (hf : ∀ b, reg.Steady (f b)) :
    reg.Steady fun ev => x ev >>= fun b => f b ev :=
  fun fuel fuel' hle => (hx fuel fuel' hle).bind fun b _ => hf b fuel fuel' hle

/-- One program after the other: the second goes on where the first ended with a value, and is left
    out where it unwound. -/
theorem concludes_bind_iff {x : Evaluator κ → Eval κ β} {f : β → Evaluator κ → Eval κ α}
    (hx : reg.Steady x) (hf : ∀ b, reg.Steady (f b)) :
    reg.Concludes (fun ev => x ev >>= fun b => f b ev) m o ↔
      (∃ b m₁, reg.Concludes x m (.ok b, m₁) ∧ reg.Concludes (f b) m₁ o) ∨
        ∃ u, o.1 = .error u ∧ reg.Concludes x m (.error u, o.2) := by
  constructor
  · rintro ⟨hkept, fuel, rfl⟩
    cases hrun : x (.withFuel reg fuel) m with
    | ok b m₁ =>
      rw [outcome_bind_of_ok hrun] at hkept ⊢
      have hsecond : reg.Concludes (f b) m₁ ((f b (.withFuel reg fuel)).outcome m₁) :=
        ⟨hkept, fuel, rfl⟩
      -- an outcome has no journal, so the second program starts from a silent machine
      exact .inl ⟨b, m₁.silent, ⟨nofun, fuel, outcome_of_ok hrun⟩,
        ((hf b).concludes_silent_iff m₁.silent_silent).2 hsecond⟩
    | error u m₁ =>
      rw [outcome_bind_of_error hrun] at hkept ⊢
      -- the cause is that of the first program, which was not given up either
      refine .inr ⟨u, rfl, ?_, fuel, outcome_of_error hrun⟩
      rintro _ ⟨⟩
      exact hkept u rfl
  · rintro (⟨b, m₁, hfirst, hsecond⟩ | ⟨u, hu, hfirst⟩)
    · -- there is fuel enough for both
      obtain ⟨n, hn⟩ := hfirst.exists_forall_ge hx
      obtain ⟨n', hn'⟩ := hsecond.exists_forall_ge (hf b)
      obtain ⟨m₂, hrun, hm₂⟩ := outcome_eq_ok_iff.1 (hn _ (Nat.le_max_left n n') m rfl)
      refine ⟨hsecond.1, max n n', ?_⟩
      rw [outcome_bind_of_ok hrun]
      exact hn' _ (Nat.le_max_right n n') m₂ (hm₂ ▸ m₂.silent_silent.symm)
    · -- the fuel of the first program is enough, because the second is not reached
      obtain ⟨hkept, fuel, hrun⟩ := hfirst
      obtain ⟨m₁, hrun, hm₁⟩ := outcome_eq_error_iff.1 hrun
      refine ⟨fun u' hu' => ?_, fuel, ?_⟩
      · cases hu.symm.trans hu'
        exact hkept u rfl
      · rw [outcome_bind_of_error hrun, hm₁, ← hu]

section Bind

variable {x : Evaluator κ → Eval κ β} (hx : reg.Steady x)
include hx

/-- Both programs end with a value. -/
theorem concludes_bind_ok_iff {f : β → Evaluator κ → Eval κ α} (hf : ∀ b, reg.Steady (f b))
    {a : α} : reg.Concludes (fun ev => x ev >>= fun b => f b ev) m (.ok a, m') ↔
      ∃ b m₁, reg.Concludes x m (.ok b, m₁) ∧ reg.Concludes (f b) m₁ (.ok a, m') := by
  simp [concludes_bind_iff hx hf]

/-- One of the two programs unwinds. -/
theorem concludes_bind_error_iff {f : β → Evaluator κ → Eval κ α} (hf : ∀ b, reg.Steady (f b))
    {u : Unwind} : reg.Concludes (fun ev => x ev >>= fun b => f b ev) m (.error u, m') ↔
      (∃ b m₁, reg.Concludes x m (.ok b, m₁) ∧ reg.Concludes (f b) m₁ (.error u, m')) ∨
        reg.Concludes x m (.error u, m') := by
  simp [concludes_bind_iff hx hf]

/-- After a program that ends with a value, the second one decides. -/
theorem Concludes.bind_iff {f : β → Evaluator κ → Eval κ α} {b : β} {m₁ : Machine κ}
    (h : reg.Concludes x m (.ok b, m₁)) (hf : ∀ b, reg.Steady (f b)) :
    reg.Concludes (fun ev => x ev >>= fun b => f b ev) m o ↔ reg.Concludes (f b) m₁ o := by
  rw [concludes_bind_iff hx hf]
  constructor
  · rintro (⟨b', m₁', hx', hsecond⟩ | ⟨u, -, hx'⟩)
    · -- the first program does not unwind as well
      cases h.unique hx hx'
      exact hsecond
    · cases h.unique hx hx'
  · exact fun hsecond => .inl ⟨b, m₁, h, hsecond⟩

/-- The first program may be replaced by one that concludes in the same ways, and so may the second,
    where it is reached. -/
theorem concludes_bind_congr {y : Evaluator κ → Eval κ β} {f g : β → Evaluator κ → Eval κ α}
    (hy : reg.Steady y) (hf : ∀ b, reg.Steady (f b)) (hg : ∀ b, reg.Steady (g b))
    (hxy : ∀ o, reg.Concludes x m o ↔ reg.Concludes y m o)
    (hfg : ∀ b m₁, reg.Concludes x m (.ok b, m₁) →
      (reg.Concludes (f b) m₁ o ↔ reg.Concludes (g b) m₁ o)) :
    reg.Concludes (fun ev => x ev >>= fun b => f b ev) m o ↔
      reg.Concludes (fun ev => y ev >>= fun b => g b ev) m o := by
  rw [concludes_bind_iff hx hf, concludes_bind_iff hy hg]
  simp only [← hxy]
  refine or_congr_left (exists_congr fun b => exists_congr fun m₁ => ?_)
  exact and_congr_right (hfg b m₁)

/-- If both programs come to an end, so do the two together. -/
theorem exists_concludes_bind {f : β → Evaluator κ → Eval κ α} (hf : ∀ b, reg.Steady (f b))
    (hfirst : ∃ o, reg.Concludes x m o) (hsecond : ∀ b m₁, ∃ o, reg.Concludes (f b) m₁ o) :
    ∃ o, reg.Concludes (fun ev => x ev >>= fun b => f b ev) m o := by
  obtain ⟨⟨result, m₁⟩, hfirst⟩ := hfirst
  simp only [concludes_bind_iff hx hf]
  cases result with
  | ok b =>
    obtain ⟨o, ho⟩ := hsecond b m₁
    exact ⟨o, .inl ⟨b, m₁, hfirst, ho⟩⟩
  -- the second program is not reached
  | error u => exact ⟨(.error u, m₁), .inr ⟨u, rfl, hfirst⟩⟩

/-- A result may be changed afterwards. -/
theorem concludes_bind_pure_ok_iff {g : β → α} {a : α} :
    reg.Concludes (fun ev => x ev >>= fun b => pure (g b)) m (.ok a, m') ↔
      ∃ b, a = g b ∧ reg.Concludes x m (.ok b, m') := by
  rw [concludes_bind_ok_iff hx fun b => steady_pure reg (g b)]
  constructor
  · rintro ⟨b, m₁, hb, ha⟩
    cases concludes_pure_iff.1 ha
    exact ⟨b, rfl, hb.silent_eq.symm ▸ hb⟩
  · rintro ⟨b, rfl, hb⟩
    have hm' : m'.silent = m' := hb.silent_eq
    exact ⟨b, m', hb, concludes_pure_iff.2 (by rw [hm'])⟩

/-- A change of the result does not change how a program unwinds. -/
theorem concludes_bind_pure_error_iff {g : β → α} {u : Unwind} :
    reg.Concludes (fun ev => x ev >>= fun b => pure (g b)) m (.error u, m') ↔
      reg.Concludes x m (.error u, m') := by
  rw [concludes_bind_error_iff hx fun b => steady_pure reg (g b)]
  simp [concludes_pure_iff]

end Bind

/-! ## Evaluators -/

section Evaluators

variable (hreg : reg.Paired (.untilExhausted κ) reg)
include hreg

/-- An evaluator with more fuel follows one with less. -/
theorem withFuel_paired_of_le {fuel fuel' : Nat} (hle : fuel ≤ fuel') :
    (Evaluator.withFuel reg fuel).Paired (.untilExhausted κ) (.withFuel reg fuel') :=
  Evaluator.withFuel_paired_of_outlasts hreg (.inr ⟨hle, fun _ => rfl⟩)

/-- A program is steady if paired evaluators make no difference to it. -/
theorem steady_of_paired (h : ∀ {ev ev' : Evaluator κ}, ev.Paired (.untilExhausted κ) ev' →
    (x ev).Approximates (x ev')) : reg.Steady x :=
  fun _ _ hle => h (withFuel_paired_of_le hreg hle)

theorem steady_eval (e : Expr) (scope : FrameRef) : reg.Steady (·.eval e scope) :=
  steady_of_paired hreg fun hev =>
    (hev.eval _ e scope (Simulation.over_untilExhausted e) trivial).imp fun _ _ => trivial

theorem steady_sequence (es : List Expr) (scope : FrameRef) :
    reg.Steady (·.sequence es scope) :=
  fun fuel fuel' hle =>
    (Paired.mapM fun e _ => steady_eval hreg e scope fuel fuel' hle).imp fun _ _ => trivial

theorem steady_apply (callee : Value) (args : List Value) :
    reg.Steady (·.apply callee args) :=
  steady_of_paired hreg fun hev => (hev.apply _ callee args
    (Simulation.allows_untilExhausted callee)
    fun v _ => Simulation.allows_untilExhausted v).imp fun _ _ => trivial

end Evaluators

end Registry

/-! ## Library functions as values -/

/-- A call of a primitive comes to what the run comes to that it makes, apart from the name of the
    function in the cause of a failure. -/
theorem Primitive.exists_outcome_call (p : Primitive κ) (apply : Applier κ) {args : List Value}
    (hlen : p.arity.contains args.length = true) (m : Machine κ) :
    ∃ m₀ : Machine κ, m₀.silent = m.silent ∧ (p.call apply args).outcome m =
      ((p.run apply args).outcome m₀).map (Except.mapError (Unwind.named p.name)) id := by
  obtain ⟨m₀, hm₀, hcall⟩ := p.exists_ends_call hlen m
  refine ⟨m₀, hm₀, outcome_eq_iff_ends.2 ((hcall (outcome_eq_iff_ends.1 rfl)).imp ?_ ?_)⟩
  · rintro v m' ⟨m₁, hrun, hm'⟩
    rw [hrun, hm']
    rfl
  · rintro u m' ⟨u₁, m₁, hrun, rfl, hm'⟩
    rw [hrun, hm']
    rfl

namespace Registry

variable {reg : Registry κ} {name : String} {entry : Entry κ} {args : List Value} {m : Machine κ}
  {o : Except Unwind Value × Machine κ}

/-- What a name means that belongs to a library other than the host's. -/
theorem exists_primitive_of_find? {hosts : List (String × HostFunction κ)}
    {libraries : List Library} (h : (ofLibraries hosts libraries).find? name = some entry)
    (hlibrary : entry.library ≠ .ext) :
    ∃ p ∈ (entry.library.primitives : List (Primitive κ)), p.name = name ∧
      entry.function = .primitive p := by
  have hname := name_of_find? h
  have hmem := List.mem_of_find?_eq_some (mem_libraries_of_find? h).2
  unfold entriesOf at hmem
  split at hmem
  · -- functions of the host come under a library of their own
    exact absurd ‹_› hlibrary
  · obtain ⟨p, hp, hentry⟩ := List.mem_map.1 hmem
    exact ⟨p, hp, (congrArg Entry.name hentry).trans hname, (congrArg Entry.function hentry).symm⟩

/-- A call of a library function by its value takes a step to its entry. -/
theorem concludes_apply_builtin_iff (hfind : reg.find? name = some entry) :
    reg.Concludes (·.apply (.builtin name) args) m o ↔
      reg.Concludes (fun ev => entry.call ev.apply args) m o := by
  refine concludes_step_iff (y := fun ev => entry.call ev.apply args) rfl fun fuel => ?_
  simp only [Evaluator.withFuel, Evaluator.applyStep, hfind]

/-- A call of a library function does what its primitive does, if no cause needs the function's
    name. -/
theorem concludes_apply_iff_run {p : Primitive κ} {x : Evaluator κ → Eval κ Value}
    (hfind : reg.find? name = some entry) (hfunction : entry.function = .primitive p)
    (hlen : p.arity.contains args.length = true) (hx : reg.Steady x)
    (hrun : ∀ ev m₀, m₀.silent = m.silent → p.run ev.apply args m₀ = x ev m₀)
    (hnamed : ∀ fuel m₀ u m₁, x (.withFuel reg fuel) m₀ = .error u m₁ → u.named p.name = u) :
    reg.Concludes (·.apply (.builtin name) args) m o ↔ reg.Concludes x m o := by
  -- apart from journals a call differs from its run in the names of causes only
  have hcall : ∀ fuel, ∃ m₀ : Machine κ, m₀.silent = m.silent ∧
      (entry.call (Evaluator.withFuel reg fuel).apply args).outcome m =
        (x (.withFuel reg fuel)).outcome m₀ := by
    intro fuel
    obtain ⟨m₀, hm₀, hcall⟩ := p.exists_outcome_call (Evaluator.withFuel reg fuel).apply hlen m
    refine ⟨m₀, hm₀, ?_⟩
    simp only [Entry.call, hfunction, hcall, outcome_congr (hrun _ m₀ hm₀)]
    cases hend : x (.withFuel reg fuel) m₀ with
    | ok v m₁ =>
      rw [outcome_of_ok hend]
      rfl
    | error u m₁ =>
      rw [outcome_of_error hend]
      simp [Except.mapError, hnamed fuel m₀ u m₁ hend]
  rw [concludes_apply_builtin_iff hfind]
  refine and_congr_right fun hkept => exists_congr fun fuel => ?_
  obtain ⟨m₀, hm₀, houtcome⟩ := hcall fuel
  rw [houtcome]
  -- the run started from a machine with another journal, which makes no difference
  have hsame := hx fuel fuel (Nat.le_refl _)
  constructor
  · rintro rfl
    exact hsame.outcome_eq hm₀.symm hkept
  · rintro rfl
    exact hsame.outcome_eq hm₀ hkept

/-- A function that only looks at the machine. -/
theorem concludes_apply_iff_of_returns {p : Primitive κ} {v : Value}
    (hfind : reg.find? name = some entry) (hfunction : entry.function = .primitive p)
    (hlen : p.arity.contains args.length = true)
    (hrun : ∀ apply m₀, m₀.silent = m.silent → p.run apply args m₀ = .ok v m₀) :
    reg.Concludes (·.apply (.builtin name) args) m o ↔ o = (.ok v, m.silent) := by
  have hcall := concludes_apply_iff_run (o := o) hfind hfunction hlen (steady_pure reg v)
    (fun ev => hrun ev.apply) nofun
  exact hcall.trans concludes_pure_iff

end Registry
end Lisplet
