import Lisplet.Proofs.PairedEvaluation

/-! # Fuel

An evaluation that has used up its fuel is given up.  This is no outcome of the program: with more
fuel it would have gone on.  Any other outcome is the program's own, and no amount of fuel changes
it.

Only evaluation itself gives up.  A function of a library that calls no functions does what it does
whatever the fuel is.

* `Session.run_of_fuel_le`      more fuel does not change an outcome
* `Eval.Finishes`               the evaluation is never given up
* `Library.primitives_finish`   the functions of the libraries, apart from the list library -/

namespace Lisplet

open Eval

variable {κ : Type}

/-! ## More fuel -/

/-- The evaluation was given up. -/
def Unwind.IsExhausted (u : Unwind) : Prop := u = .failure .exhausted

/-- Nothing in a program can stop an evaluation from being given up. -/
theorem Unwind.IsExhausted.isFinal {u : Unwind} (h : u.IsExhausted) : u.IsFinal := by
  rw [h]
  trivial

/-- A failure of any other kind is the program's own. -/
theorem Unwind.not_isExhausted_failure {e : Error} (h : e ≠ .exhausted) :
    ¬ (failure e).IsExhausted :=
  fun he => h (Unwind.failure.inj he)

namespace Simulation

/-- The same machine on both sides, up to journals, until the first side gives up. -/
def untilExhausted (κ : Type) : Simulation κ κ :=
  ofContext (fun k k' => k' = k) (fun u _ => u.IsExhausted) Unwind.IsExhausted.isFinal

/-- Machines are related if only their journals differ. -/
theorem related_untilExhausted_iff {K : FrameRef → Prop} {m m' : Machine κ} :
    (untilExhausted κ).Related K m m' ↔ m'.silent = m.silent := by
  simp only [untilExhausted, related_ofContext_iff, Machine.silent, Machine.mk.injEq, and_true]

/-- The functions of a registry do the same on both sides until the first one gives up. -/
theorem registry_paired_untilExhausted (hosts : List (String × HostFunction κ))
    (libraries : List Library) :
    (Registry.ofLibraries hosts libraries).Paired (untilExhausted κ)
      (.ofLibraries hosts libraries) := by
  have hopen : (untilExhausted κ).IsOpen := isOpen_ofContext _ _ Unwind.IsExhausted.isFinal
  have hhosts : List.Forall₂ (fun f f' => f'.1 = f.1 ∧ f.2.Paired (untilExhausted κ) f'.2)
      hosts hosts :=
    List.forall₂_same.2 fun f _ =>
      ⟨rfl, f.2.paired_self (allows_ofContext _ _ _) (fun _ => trivial) Iff.rfl⟩
  exact Registry.ofLibraries_paired hopen (fun _ => trivial) hhosts libraries

end Simulation

/-- More fuel does not change the outcome of a run, nor what the run leaves behind. -/
theorem Session.run_of_fuel_le {s : Session κ} {hosts : List (String × HostFunction κ)}
    {libraries : List Library} (hreg : s.registry = .ofLibraries hosts libraries)
    {fuel fuel' : Nat} (hle : fuel ≤ fuel') {source : String}
    (h : ({ s with fuel }.run source).1 ≠ .error .exhausted) :
    ({ s with fuel := fuel' }.run source).1 = ({ s with fuel }.run source).1 ∧
      ({ s with fuel := fuel' }.run source).2.machine.silent =
        ({ s with fuel }.run source).2.machine.silent := by
  -- the run with less fuel goes first, and may be given up where the other one goes on
  have hpaired : s.registry.Paired (.untilExhausted κ) s.registry := by
    rw [hreg]
    exact Simulation.registry_paired_untilExhausted hosts libraries
  have houtlasts : (Simulation.untilExhausted κ).Outlasts fuel fuel' := .inr ⟨hle, fun _ => rfl⟩
  have hover : ∀ e : Expr, e.Over (Simulation.untilExhausted κ).toVocabulary :=
    Simulation.over_ofContext _ _ Unwind.IsExhausted.isFinal
  have hrun : (Evaluator.run (.withFuel s.registry fuel) source).Paired (.untilExhausted κ)
      (fun _ => True) (Simulation.untilExhausted κ).Allows
      (Evaluator.run (.withFuel s.registry fuel') source) :=
    Evaluator.run_paired (Evaluator.withFuel_paired_of_outlasts hpaired houtlasts) hover trivial
      source
  have hrelated : (Simulation.untilExhausted κ).Related (fun _ => True)
      { s with fuel }.machine { s with fuel := fuel' }.machine :=
    Simulation.related_untilExhausted_iff.2 rfl
  -- but it was not given up, so nothing is lost on the way
  have hkept : ∀ u, ({ s with fuel }.perform (Evaluator.run (.withFuel s.registry fuel) source)).1 =
      .error u → ¬ u.IsExhausted := by
    rintro u hu rfl
    exact h (congrArg (Except.mapError Unwind.toError) hu)
  obtain ⟨houtcome, hmachine, -⟩ := perform_paired hrun hrelated hkept
  exact ⟨congrArg (Except.mapError Unwind.toError) houtcome,
    Simulation.related_untilExhausted_iff.1 hmachine⟩

/-! ## Functions that call no functions -/

namespace Eval

variable {α β : Type}

/-- The evaluation is never given up. -/
def Finishes (x : Eval κ α) : Prop :=
  ∀ m, x.Ends m (fun _ _ => True) fun u _ => ¬ u.IsExhausted

private theorem finishes_pure (a : α) : (pure a : Eval κ α).Finishes := fun _ => trivial

/-- To fail for another reason is not to give up. -/
private theorem finishes_fail {e : Error} (h : e ≠ .exhausted) : (fail e : Eval κ α).Finishes :=
  fun _ => Unwind.not_isExhausted_failure h

/-- Two steps that finish do so one after the other. -/
theorem Finishes.bind {y : Eval κ β} {f : β → Eval κ α} (hy : y.Finishes)
    (hf : ∀ b, (f b).Finishes) : (y >>= f).Finishes := by
  intro m
  rw [ends_bind]
  exact (hy m).imp_post fun b m' _ => hf b m'

/-- A loop over a list has an end, so it finishes if its passes do. -/
theorem Finishes.foldlM {xs : List β} {f : α → β → Eval κ α} (hf : ∀ a b, (f a b).Finishes)
    (a : α) : (xs.foldlM f a).Finishes := by
  induction xs generalizing a with
  | nil => exact finishes_pure a
  | cons b xs ih =>
    rw [List.foldlM_cons]
    exact (hf a b).bind ih

private theorem finishes_get : (get : Eval κ (Machine κ)).Finishes := fun _ => trivial

private theorem finishes_modifyGet (f : Machine κ → α × Machine κ) :
    (modifyGet f : Eval κ α).Finishes := fun _ => trivial

/-- A value of the wrong kind is a failure of its own. -/
private theorem finishes_expect (r : Except Mismatch α) : (expect r : Eval κ α).Finishes := by
  cases r with
  | ok a => exact finishes_pure a
  | error cause => exact finishes_fail (by simp)

end Eval

namespace Primitive

/-- The primitive is never given up, whatever it is given. -/
def Finishes (p : Primitive κ) : Prop := ∀ apply args, (p.run apply args).Finishes

section Shapes

variable {name : String}

/-- A function of one argument finishes if its body does, and fails for want of the argument. -/
private theorem unary_finishes {f : Value → Eval κ Value} (h : ∀ a, (f a).Finishes) :
    (unary name f).Finishes := by
  intro apply args
  simp only [unary]
  split
  · exact h _
  · exact finishes_fail (by simp)

/-- A function of two arguments finishes if its body does. -/
private theorem binary_finishes {f : Value → Value → Eval κ Value} (h : ∀ a b, (f a b).Finishes) :
    (binary name f).Finishes := by
  intro apply args
  simp only [binary]
  split
  · exact h _ _
  · exact finishes_fail (by simp)

/-- A function with one optional argument finishes if its body does with and without it. -/
private theorem unaryOptional_finishes {f : Value → Option Value → Eval κ Value}
    (h : ∀ a b, (f a b).Finishes) : (unaryOptional name f).Finishes := by
  intro apply args
  simp only [unaryOptional]
  split
  · exact h _ none
  · exact h _ (some _)
  · exact finishes_fail (by simp)

/-- A function with two arguments and an optional third finishes if its body does. -/
private theorem binaryOptional_finishes {f : Value → Value → Option Value → Eval κ Value}
    (h : ∀ a b c, (f a b c).Finishes) : (binaryOptional name f).Finishes := by
  intro apply args
  simp only [binaryOptional]
  split
  · exact h _ _ none
  · exact h _ _ (some _)
  · exact finishes_fail (by simp)

/-- A question about a value is answered at once. -/
private theorem question_finishes (f : Value → Value) :
    (unary name fun v => return f v : Primitive κ).Finishes :=
  unary_finishes fun v => finishes_pure (f v)

end Shapes

/-- The core library, apart from the function that calls functions. -/
private theorem coreTable_finishes :
    ∀ p ∈ (coreTable : List (Primitive κ)), p.name ≠ "apply" → p.Finishes := by
  have hprint : ∀ values, (print values : Eval κ Value).Finishes :=
    fun _ => finishes_get.bind fun _ => (finishes_modifyGet _).bind fun _ => finishes_pure _
  have hequal : ∀ values, (allEqual values : Eval κ Value).Finishes :=
    fun _ => finishes_get.bind fun _ => finishes_pure _
  simp only [coreTable, List.forall_mem_cons, List.not_mem_nil, false_implies, implies_true,
    and_true]
  -- one proof for each entry of the table, in its order; the last one is `apply`
  exact ⟨fun _ _ => hprint,
    fun _ _ => hequal,
    fun _ _ => hequal,
    fun _ => binary_finishes fun _ _ => finishes_get.bind fun _ => finishes_pure _,
    fun _ => question_finishes _,
    fun _ _ _ => finishes_pure _,
    fun _ _ _ => finishes_pure _,
    fun _ => question_finishes _,
    fun _ => question_finishes _,
    fun _ => question_finishes _,
    fun _ => question_finishes _,
    fun hname => absurd rfl hname⟩

/-- A function of numbers finishes if its arithmetic does. -/
private theorem onNumbers_finishes {name : String} {least : Nat} {f : List Float → Eval κ Float}
    (h : ∀ xs, (f xs).Finishes) : (onNumbers name least f).Finishes :=
  fun _ _ => (finishes_expect _).bind fun xs => (h xs).bind fun _ => finishes_pure _

/-- A function of one number has no way to go on for ever. -/
private theorem onNumber_finishes (name : String) (f : Float → Float) :
    (onNumber name f : Primitive κ).Finishes :=
  unary_finishes fun _ => (finishes_expect _).bind fun _ => finishes_pure _

/-- A comparison of two values is decided at once. -/
private theorem comparison_finishes (name : String) (accept : Ordering → Bool) :
    (comparison name accept : Primitive κ).Finishes :=
  binary_finishes fun _ _ => (finishes_expect _).bind fun _ => finishes_pure _

/-- A difference is a number, or there was nothing to subtract from. -/
private theorem subtract_finishes (xs : List Float) : (subtract xs : Eval κ Float).Finishes := by
  unfold subtract
  split
  · exact finishes_fail (by simp)
  · exact finishes_pure _
  · exact finishes_pure _

/-- A quotient is a number, or else a division by zero. -/
private theorem divide_finishes (xs : List Float) : (divide xs : Eval κ Float).Finishes := by
  unfold divide
  split
  · exact finishes_fail (by simp)
  · -- each divisor in turn may be zero
    refine Finishes.foldlM (fun q y => ?_) _
    split
    · exact finishes_fail (by simp)
    · exact finishes_pure _

/-- A remainder is a number, or else a division by zero. -/
private theorem modulo_finishes (a b : Value) : (modulo a b : Eval κ Value).Finishes := by
  refine (finishes_expect _).bind fun x => (finishes_expect _).bind fun y => ?_
  split
  · exact finishes_fail (by simp)
  · exact finishes_pure _

private theorem mathTable_finishes : ∀ p ∈ (mathTable : List (Primitive κ)), p.Finishes := by
  simp only [mathTable, List.forall_mem_cons, List.not_mem_nil, false_implies, implies_true,
    and_true]
  exact ⟨onNumbers_finishes fun _ => finishes_pure _,
    onNumbers_finishes subtract_finishes,
    onNumbers_finishes fun _ => finishes_pure _,
    onNumbers_finishes divide_finishes,
    binary_finishes modulo_finishes,
    comparison_finishes _ _,
    comparison_finishes _ _,
    comparison_finishes _ _,
    comparison_finishes _ _,
    onNumbers_finishes fun _ => finishes_pure _,
    onNumbers_finishes fun _ => finishes_pure _,
    onNumber_finishes _ _,
    onNumber_finishes _ _,
    onNumber_finishes _ _,
    onNumber_finishes _ _,
    onNumber_finishes _ _,
    binary_finishes fun _ _ => (finishes_expect _).bind fun _ =>
      (finishes_expect _).bind fun _ => finishes_pure _⟩

/-- A number is written with a fixed number of places, unless there are too many of them. -/
private theorem toFixed_finishes (v : Value) (places : Option Value) :
    (toFixed v places : Eval κ Value).Finishes := by
  refine (finishes_expect _).bind fun x => ?_
  cases places with
  | none => exact finishes_pure _
  | some places =>
    refine (finishes_expect _).bind fun n => ?_
    split
    · exact finishes_pure _
    · exact finishes_fail (by simp)

private theorem numberTable_finishes : ∀ p ∈ (numberTable : List (Primitive κ)), p.Finishes := by
  simp only [numberTable, List.forall_mem_cons, List.not_mem_nil, false_implies, implies_true,
    and_true]
  exact ⟨question_finishes _,
    question_finishes _,
    unary_finishes fun _ => (finishes_expect _).bind fun _ => finishes_pure _,
    unary_finishes fun _ => (finishes_expect _).bind fun _ => finishes_pure _,
    unaryOptional_finishes toFixed_finishes⟩

/-- A function of the characters of a string is done after one look at them. -/
private theorem onChars_finishes (name : String) (f : List Char → Value) :
    (onChars name f : Primitive κ).Finishes :=
  unary_finishes fun _ => (finishes_expect _).bind fun _ => finishes_pure _

/-- A test on two strings is done after one look at them. -/
private theorem onTwoStrings_finishes (name : String) (test : List Char → List Char → Bool) :
    (onTwoStrings name test : Primitive κ).Finishes :=
  binary_finishes fun _ _ => (finishes_expect _).bind fun _ => (finishes_expect _).bind fun _ =>
    finishes_pure _

/-- A part of a string is cut out at once, with and without an end. -/
private theorem substring_finishes (text start : Value) (stop : Option Value) :
    (substring text start stop : Eval κ Value).Finishes := by
  refine (finishes_expect _).bind fun s => (finishes_expect _).bind fun i => ?_
  cases stop with
  | none => exact finishes_pure _
  | some stop => exact (finishes_expect _).bind fun j => finishes_pure _

/-- The pieces of a string are made in one step. -/
private theorem split_finishes (text separator : Value) :
    (split text separator : Eval κ Value).Finishes :=
  (finishes_expect _).bind fun _ => (finishes_expect _).bind fun _ => finishes_modifyGet _

/-- The texts of a list are put together in one step. -/
private theorem join_finishes (list separator : Value) :
    (join list separator : Eval κ Value).Finishes :=
  (finishes_expect _).bind fun _ => (finishes_expect _).bind fun _ =>
    finishes_get.bind fun _ => finishes_pure _

private theorem stringTable_finishes : ∀ p ∈ (stringTable : List (Primitive κ)), p.Finishes := by
  simp only [stringTable, List.forall_mem_cons, List.not_mem_nil, false_implies, implies_true,
    and_true]
  exact ⟨question_finishes _,
    fun _ _ => finishes_get.bind fun _ => finishes_pure _,
    unary_finishes fun _ => finishes_get.bind fun _ => finishes_pure _,
    onChars_finishes _ _,
    binaryOptional_finishes substring_finishes,
    onChars_finishes _ _,
    onChars_finishes _ _,
    onChars_finishes _ _,
    binary_finishes split_finishes,
    binary_finishes join_finishes,
    onTwoStrings_finishes _ _,
    onTwoStrings_finishes _ _,
    onTwoStrings_finishes _ _⟩

end Primitive

/-- Without the list library, there is only one function that calls functions, and it alone can be
    given up. -/
theorem Library.primitives_finish {l : Library} (hl : l ≠ .list) {p : Primitive κ}
    (hp : p ∈ l.primitives) (hname : p.name ≠ "apply") : p.Finishes := by
  cases l with
  | core => exact Primitive.coreTable_finishes p hp hname
  | math => exact Primitive.mathTable_finishes p hp
  | number => exact Primitive.numberTable_finishes p hp
  | list => exact absurd rfl hl
  | string => exact Primitive.stringTable_finishes p hp
  | ext => cases hp

end Lisplet
