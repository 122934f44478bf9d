import Lisplet.Proofs.Evaluation
import Lisplet.Proofs.PairedEvaluation

/-! # Failures pass through

A value of the wrong kind is reported by the function that met it, and what calls that function
passes the report on as it is.

To say so of every call that is made on the way, evaluation is watched: each call that fails is
noted down, with the cause it failed for, before the failure goes on its way.  Watching changes
nothing that a program could see, and in a watched evaluation all notes have one cause, the one
for which the evaluation itself fails in the end.

* `Evaluator.watched`            evaluation with notes
* `Evaluator.watched_paired`     watched evaluation side by side with plain evaluation
* `Evaluator.failures_pass_untouched`   no failure is renamed on the way out -/

namespace Lisplet

open Eval

variable {κ : Type}

/-- What a call fails for is passed on by all that it passes. -/
theorem Unwind.Settled.isFinal {u : Unwind} (h : u.Settled fun _ => False) : u.IsFinal := by
  cases u with
  | signal s => exact h
  | failure e =>
    cases e with
    | mismatch cause => exact h
    | _ => trivial

/-! ## Watching -/

/-- A call that failed. -/
structure FailedCall where
  callee : Value
  args : List Value
  cause : Unwind

/-- The host's context together with the calls that have failed, last one first. -/
abbrev Watched (κ : Type) := κ × List FailedCall

/-- The machine before anything is noted. -/
def Machine.watched (m : Machine κ) : Machine (Watched κ) :=
  ⟨m.lists, m.scopes, m.closures, m.printed, (m.context, []), m.journal⟩

/-- The machine without the notes. -/
def Machine.unwatched (m : Machine (Watched κ)) : Machine κ :=
  ⟨m.lists, m.scopes, m.closures, m.printed, m.context.1, m.journal⟩

/-- A host function does not see the notes. -/
def HostFunction.watched (f : HostFunction κ) : HostFunction (Watched κ) := fun args h =>
  match f args ⟨h.lists, h.context.1⟩ with
  | .ok v h' => .ok v ⟨h'.lists, (h'.context, h.context.2)⟩
  | .error message h' => .error message ⟨h'.lists, (h'.context, h.context.2)⟩

/-- Notes a call down. -/
def Eval.note (call : FailedCall) : Eval (Watched κ) Unit :=
  modify fun m => { m with context := (m.context.1, call :: m.context.2) }

/-- Notes the calls that fail, whatever they fail for. -/
def Applier.noting (apply : Applier (Watched κ)) : Applier (Watched κ) := fun callee args =>
  tryCatch (apply callee args) fun u => do
    Eval.note ⟨callee, args, u⟩
    throw u

namespace Evaluator

/-- Evaluation as by `withFuel`, in which every call that fails is noted: calls in the program and
    calls that library functions make. -/
def watched (hostFunctions : List (String × HostFunction κ)) (libraries : List Library) :
    Nat → Evaluator (Watched κ)
  | 0 => ⟨fun _ _ => Eval.fail .exhausted, Applier.noting fun _ _ => Eval.fail .exhausted⟩
  | fuel + 1 =>
    let reg := .ofLibraries (hostFunctions.map fun f => (f.1, f.2.watched)) libraries
    ⟨fun e scope => evalStep reg (watched hostFunctions libraries fuel) fuel e scope,
      Applier.noting fun callee args =>
        applyStep reg (watched hostFunctions libraries fuel) callee args⟩

end Evaluator

/-- A call that fails is noted with its cause. -/
private theorem Applier.mem_of_noting {apply : Applier (Watched κ)} {callee : Value}
    {args : List Value} {m m' : Machine (Watched κ)} {u : Unwind}
    (h : apply.noting callee args m = .error u m') : ⟨callee, args, u⟩ ∈ m'.context.2 := by
  have hends : (apply.noting callee args).Ends m (fun _ _ => True)
      fun u m' => ⟨callee, args, u⟩ ∈ m'.context.2 := by
    simp only [noting, note, ends_tryCatch, ends_bind, ends_modify, ends_throw, List.mem_cons,
      true_or]
    unfold Ends
    split <;> trivial
  exact hends.of_error h

/-! ## Watching changes nothing -/

section Watching

variable {N : List FailedCall → Prop} {loses : Unwind → Watched κ → Prop}
  (hfinal : ∀ {u p}, loses u p → u.IsFinal)

/-- The same context on both sides, and what holds of the notes. -/
def Simulation.watching (N : List FailedCall → Prop) (loses : Unwind → Watched κ → Prop)
    (hfinal : ∀ {u p}, loses u p → u.IsFinal) : Simulation (Watched κ) κ :=
  ofContext (fun p k => k = p.1 ∧ N p.2) loses hfinal

/-- Every value may be met on both sides. -/
private theorem Simulation.allows_watching (v : Value) : (watching N loses hfinal).Allows v :=
  allows_ofContext _ _ _ v

/-- Machines are related if they differ in journals and notes at most. -/
private theorem Simulation.related_watching_iff {K : FrameRef → Prop} {m : Machine (Watched κ)}
    {m' : Machine κ} :
    (watching N loses hfinal).Related K m m' ↔
      m'.silent = m.unwatched.silent ∧ N m.context.2 := by
  simp only [watching, related_ofContext_iff, Machine.silent, Machine.unwatched,
    Machine.mk.injEq, and_true, and_assoc]

/-- Host functions neither see the notes nor change them. -/
private theorem HostFunction.watched_paired (f : HostFunction κ) :
    f.watched.Paired (.watching N loses hfinal) f := by
  rintro args ls ⟨_, notes⟩ k _ _ ⟨rfl, hnotes⟩
  unfold watched
  dsimp only
  cases f args ⟨ls, k⟩ with
  | ok v h => exact ⟨h.context, rfl, Simulation.allows_ofContext _ _ _ v, trivial, rfl, hnotes⟩
  | error message h => exact ⟨h.context, rfl, trivial, rfl, hnotes⟩

/-- A note goes with what holds of the notes already, or else the cause is lost once it is noted. -/
private theorem Applier.noting_paired {apply : Applier (Watched κ)} {apply' : Applier κ}
    (h : apply.Paired (.watching N loses hfinal) apply') (happly' : apply'.Sealed)
    (hlost : ∀ {k notes} (call : FailedCall), loses call.cause (k, notes) →
      loses call.cause (k, call :: notes))
    (hnoted : ∀ {k notes} (call : FailedCall), N notes → call.cause.IsFinal →
      N (call :: notes) ∨ loses call.cause (k, call :: notes)) :
    apply.noting.Paired (.watching N loses hfinal) apply' := by
  intro K callee args hcallee hargs m m' hm
  simp only [noting, note, ends_tryCatch, ends_bind, ends_modify, ends_throw]
  refine (h K callee args hcallee hargs m m' hm).imp (fun _ _ h => h) ?_
  rintro u m₁ (hu | ⟨m₂, hy, hu, hm₂⟩)
  · -- a call inside this one was noted before
    exact .inl (hlost ⟨callee, args, u⟩ hu)
  · -- the call fails on the plain side too, and not in a way that anything takes
    have hsettled := (happly' callee args).exit hy
    obtain ⟨hcontext, hnotes⟩ := hm₂.context
    obtain hnotes | hlost := hnoted ⟨callee, args, u⟩ hnotes hsettled.isFinal
    · exact .inr ⟨m₂, hy, hu, { hm₂ with context := ⟨hcontext, hnotes⟩ }⟩
    · exact .inl hlost

end Watching

namespace Evaluator

variable (hostFunctions : List (String × HostFunction κ)) (libraries : List Library)

/-- Watched evaluation side by side with plain evaluation. -/
theorem watched_paired {N : List FailedCall → Prop} {loses : Unwind → Watched κ → Prop}
    (hfinal : ∀ {u p}, loses u p → u.IsFinal)
    (hlost : ∀ {k notes} (call : FailedCall), loses call.cause (k, notes) →
      loses call.cause (k, call :: notes))
    (hnoted : ∀ {k notes} (call : FailedCall), N notes → call.cause.IsFinal →
      N (call :: notes) ∨ loses call.cause (k, call :: notes)) (fuel : Nat) :
    (watched hostFunctions libraries fuel).Paired (.watching N loses hfinal)
      (withFuel (.ofLibraries hostFunctions libraries) fuel) := by
  have hreg : (Registry.ofLibraries (hostFunctions.map fun f => (f.1, f.2.watched))
      libraries).Paired (.watching N loses hfinal) (.ofLibraries hostFunctions libraries) := by
    refine Registry.ofLibraries_paired (Simulation.isOpen_ofContext _ _ hfinal)
      (fun _ => trivial) ?_ libraries
    rw [List.forall₂_map_left_iff, List.forall₂_same]
    exact fun f _ => ⟨rfl, f.2.watched_paired hfinal⟩
  have hlawful := Registry.ofLibraries_lawful hostFunctions libraries
  induction fuel with
  | zero =>
    -- even a call for which no fuel is left is noted
    refine ⟨fun _ _ _ _ _ => paired_fail trivial, ?_⟩
    exact Applier.noting_paired hfinal (fun _ _ _ _ _ => paired_fail trivial)
      (withFuel_lawful hlawful 0).apply hlost hnoted
  | succ fuel ih =>
    refine ⟨fun _ _ _ he hscope => evalStep_paired ih hreg fuel he hscope, ?_⟩
    exact Applier.noting_paired hfinal
      (fun _ _ _ hcallee hargs => applyStep_paired ih hreg hcallee hargs)
      (withFuel_lawful hlawful (fuel + 1)).apply hlost hnoted

end Evaluator

/-! ## What the notes tell -/

/-- The watched evaluation `x` ends as the plain one `y` does.  If it ends with a value, no call has
    failed on the way; if it unwinds, then for the cause of each call that failed. -/
def Eval.PassesFailures {α : Type} (x : Eval (Watched κ) α) (y : Eval κ α) (m : Machine κ) : Prop :=
  x.Ends m.watched
    (fun a m₁ => (∃ m₂, y m = .ok a m₂ ∧ m₂.silent = m₁.unwatched.silent) ∧ m₁.context.2 = [])
    fun u m₁ => (∃ m₂, y m = .error u m₂ ∧ m₂.silent = m₁.unwatched.silent) ∧
      ∀ call ∈ m₁.context.2, call.cause = u

/-- There are notes, and they all have the one cause. -/
def Watched.Explains (u : Unwind) (p : Watched κ) : Prop :=
  u.IsFinal ∧ p.2 ≠ [] ∧ ∀ call ∈ p.2, call.cause = u

section Passing

variable {α : Type} {K : FrameRef → Prop} {Q : α → Prop} {x : Eval (Watched κ) α} {y : Eval κ α}

/-- Side by side with any notes, the plain evaluation ends alike.  Side by side without notes, a
    failure that has been noted is lost, and so its cause is kept. -/
private theorem Eval.passesFailures_of_paired
    (hplain : x.Paired (.watching (fun _ => True) (fun _ _ => False) False.elim) K Q y)
    (hnotes : x.Paired (.watching (· = []) Watched.Explains And.left) K Q y) (m : Machine κ) :
    x.PassesFailures y m := by
  have hstart : m.silent = m.watched.unwatched.silent := rfl
  have hends := (hplain m.watched m (Simulation.related_watching_iff _ |>.2 ⟨hstart, trivial⟩)).and
    (hnotes m.watched m (Simulation.related_watching_iff _ |>.2 ⟨hstart, rfl⟩))
  refine hends.imp ?_ ?_
  · rintro a m₁ ⟨⟨m₂, hy, _, hm₂⟩, ⟨_, _, _, hm₃⟩⟩
    exact ⟨⟨m₂, hy, ((Simulation.related_watching_iff _).1 hm₂).1⟩,
      ((Simulation.related_watching_iff _).1 hm₃).2⟩
  · rintro u m₁ ⟨hplain, hnotes⟩
    obtain ⟨m₂, hy, _, hm₂⟩ := hplain.resolve_left id
    refine ⟨⟨m₂, hy, ((Simulation.related_watching_iff _).1 hm₂).1⟩, ?_⟩
    -- a failure was noted, and all notes have its cause; or there are no notes
    obtain ⟨_, _, hcause⟩ | ⟨_, _, _, hm₃⟩ := hnotes
    · exact hcause
    · rw [((Simulation.related_watching_iff _).1 hm₃).2]
      exact fun call hcall => nomatch hcall

end Passing

namespace Evaluator

variable (hostFunctions : List (String × HostFunction κ)) (libraries : List Library) (fuel : Nat)
  (m : Machine κ)

/-- Values of the wrong kind are pinned where they are met, and failures of callbacks pass through
    untouched.  Neither evaluation nor a call ever fails with a cause that is not settled.  Whatever
    is evaluated or called, all calls that fail on the way, however deep inside library functions,
    fail for the one cause for which the evaluation or the call itself fails in the end; and each
    call that fails is among those that are noted. -/
theorem failures_pass_untouched :
    (∀ e scope cause m', (withFuel (.ofLibraries hostFunctions libraries) fuel).eval e scope m =
      .error (.failure cause) m' → cause.IsSettled) ∧
    (∀ callee args cause m',
      (withFuel (.ofLibraries hostFunctions libraries) fuel).apply callee args m =
        .error (.failure cause) m' → cause.IsSettled) ∧
    (∀ e scope, ((watched hostFunctions libraries fuel).eval e scope).PassesFailures
      ((withFuel (.ofLibraries hostFunctions libraries) fuel).eval e scope) m) ∧
    (∀ callee args, ((watched hostFunctions libraries fuel).apply callee args).PassesFailures
      ((withFuel (.ofLibraries hostFunctions libraries) fuel).apply callee args) m) ∧
    ∀ callee args m₁ u m₂,
      (watched hostFunctions libraries fuel).apply callee args m₁ = .error u m₂ →
        ⟨callee, args, u⟩ ∈ m₂.context.2 := by
  have hlawful := withFuel_lawful (Registry.ofLibraries_lawful hostFunctions libraries) fuel
  have hplain : (watched hostFunctions libraries fuel).Paired
      (.watching (fun _ => True) (fun _ _ => False) False.elim)
      (withFuel (.ofLibraries hostFunctions libraries) fuel) :=
    watched_paired _ _ _ (fun _ => False.elim) (fun _ _ _ => .inl trivial) fuel
  -- the first note that is made turns the run into a lost one, with its cause on record
  have hnotes : (watched hostFunctions libraries fuel).Paired
      (.watching (· = []) Watched.Explains And.left)
      (withFuel (.ofLibraries hostFunctions libraries) fuel) := by
    refine watched_paired _ _ _ (fun call h => ?_) (fun call hnone hfinal => .inr ?_) fuel
    · exact ⟨h.1, List.cons_ne_nil _ _, List.forall_mem_cons.2 ⟨rfl, h.2.2⟩⟩
    · exact ⟨hfinal, List.cons_ne_nil _ _, by simp [hnone]⟩
  refine ⟨fun e scope cause m' h => ?_, fun callee args cause m' h => ?_, fun e scope => ?_,
    fun callee args => ?_, fun callee args m₁ u m₂ h => ?_⟩
  · exact (hlawful.eval e scope).exit h
  · exact (hlawful.apply callee args).exit h
  · exact passesFailures_of_paired (hplain.eval (fun _ => True) e scope
      (Simulation.over_ofContext _ _ _ e) trivial)
      (hnotes.eval (fun _ => True) e scope (Simulation.over_ofContext _ _ _ e) trivial) m
  · exact passesFailures_of_paired
      (hplain.apply (fun _ => True) callee args (Simulation.allows_watching _ callee)
        fun v _ => Simulation.allows_watching _ v)
      (hnotes.apply (fun _ => True) callee args (Simulation.allows_watching _ callee)
        fun v _ => Simulation.allows_watching _ v) m
  · -- a call is noted by the evaluator of its own fuel
    cases fuel with
    | zero =>
      simp only [watched] at h
      exact Applier.mem_of_noting h
    | succ fuel =>
      simp only [watched] at h
      exact Applier.mem_of_noting h

/-- A callback of `map` adds to a string.  The call of the callback is noted, and the failure names
    `+` although it comes out of `map`. -/
theorem failures_pass_untouched_map :
    ∃ e m₁ m₂ call, Expr.parse "(map (lambda (x) (+ x)) [\"a\"])" = .ok [e] ∧
      (watched [] Library.all 9).eval e Scopes.root (Machine.watched { context := () }) =
        .error (.failure (.badArgument "+" .notNumber)) m₁ ∧
      call ∈ m₁.context.2 ∧ call.args = [.string "a"] ∧
      call.cause = .failure (.badArgument "+" .notNumber) ∧
      (withFuel (.ofLibraries [] Library.all) 9).eval e Scopes.root { context := () } =
        .error (.failure (.badArgument "+" .notNumber)) m₂ := by
  have hparse : Expr.parse "(map (lambda (x) (+ x)) [\"a\"])" = .ok [.call [.identifier "map",
      .call [.identifier "lambda", .call [.identifier "x"],
        .call [.identifier "+", .identifier "x"]], .list [.string "a"]]] := by rfl
  have hpass := (failures_pass_untouched [] Library.all 9 { context := () }).2.2.1
    (.call [.identifier "map", .call [.identifier "lambda", .call [.identifier "x"],
      .call [.identifier "+", .identifier "x"]], .list [.string "a"]]) Scopes.root
  obtain ⟨⟨m₂, hplain, _⟩, hcalls⟩ := hpass
  exact ⟨_, _, m₂, _, hparse, rfl, List.mem_cons_self, rfl, hcalls _ List.mem_cons_self, hplain⟩

end Evaluator
end Lisplet
