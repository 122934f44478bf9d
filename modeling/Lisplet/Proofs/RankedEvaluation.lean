import Lisplet.Proofs.Ranking
import Lisplet.Session

/-! # Evaluation and the age of lists

Every construct of the language keeps machines ranked if the evaluation of its parts does, so
evaluation keeps them ranked if the functions of the libraries do.

* `Evaluator.Keeps`        the property of an evaluator
* `Form.run_keeps`         special forms
* `withFuel_keeps`         the induction over nested steps
* `Session.run_ranked`     what a run leaves behind -/

namespace Lisplet

open Eval

variable {κ : Type} {ρ : Ranking} {n : Nat}

namespace Evaluator

/-- Expressions have values that can be met, and so have calls. -/
structure Keeps (ρ : Ranking) (ev : Evaluator κ) : Prop where
  eval : ∀ n e scope, (ev.eval e scope).Keeps ρ n ρ.admits
  apply : ev.apply.Keeps ρ

/-- A constant can be met at any time. -/
private theorem keeps_atom {v : Value} (h : ∀ r, v ≠ .list r) :
    (pure v : Eval κ Value).Keeps ρ n ρ.admits :=
  keeps_pure fun _ _ => ρ.of_not_list h

private theorem keeps_null : (pure .null : Eval κ Value).Keeps ρ n ρ.admits := keeps_atom (by simp)

variable {ev : Evaluator κ} (h : ev.Keeps ρ)
include h

/-! ## Sequences -/

/-- The values of expressions that are evaluated in turn can be met after the last of them. -/
private theorem sequence_keeps (es : List Expr) (scope : FrameRef) :
    (ev.sequence es scope).Keeps ρ n fun k vs => ∀ v ∈ vs, ρ.admits k v :=
  .mapM fun k _ e _ => h.eval k e scope

/-- A body has the value of its last expression, or `null`. -/
private theorem body_keeps (es : List Expr) (scope : FrameRef) :
    (ev.body es scope).Keeps ρ n ρ.admits :=
  .foldlM (fun k _ _ _ e _ => h.eval k e scope) (ρ.of_not_list (by simp))

/-- A short circuit ends with a value that was met on the way. -/
private theorem shortCircuit_keeps (s : ShortCircuit) (scope : FrameRef) {last : Value}
    (hlast : ρ.admits n last) (es : List Expr) :
    (ev.shortCircuit s scope last es).Keeps ρ n ρ.admits := by
  -- the value so far may be older than what is evaluated next, never younger
  induction es generalizing n last with
  | nil => exact keeps_pure fun k hk => ρ.mono hk hlast
  | cons e es ih =>
    refine (h.eval n e scope).bind fun k _ v hv => ?_
    split
    · exact keeps_pure fun j hj => ρ.mono hj hv
    · exact ih hv

/-- A condition leaves nothing behind but its truth. -/
private theorem test_keeps (condition : Expr) (scope : FrameRef) :
    (ev.test condition scope).Keeps ρ n fun _ _ => True :=
  (h.eval n condition scope).bind fun _ _ _ _ => keeps_pure fun _ _ => trivial

/-! ## Closures -/

omit h in
/-- To turn a stray signal into a failure changes no machine. -/
private theorem contained_keeps {x : Eval κ Value} (hx : x.Keeps ρ n ρ.admits) :
    (contained x).Keeps ρ n ρ.admits := by
  refine hx.tryCatch fun u => ?_
  split
  · exact keeps_fail _
  · exact keeps_throw _

omit h in
/-- Parameters are bound to arguments that can be met. -/
private theorem bindAll_keeps (scope : FrameRef) (names : List String) {args : List Value}
    (hargs : ∀ v ∈ args, ρ.admits n v) :
    (bindAll scope names args : Eval κ Unit).Keeps ρ n fun _ _ => True := by
  refine .forM fun k hk b hb => keeps_define scope b.1 ?_
  exact ρ.mono hk (hargs b.2 (List.of_mem_zip hb).2)

/-- The call of a closure keeps machines ranked if its body does. -/
private theorem callClosure_keeps (name : Option String) (c : Closure) {args : List Value}
    (hargs : ∀ v ∈ args, ρ.admits n v) : (ev.callClosure name c args).Keeps ρ n ρ.admits := by
  refine (keeps_record _ _).bind fun k₁ h₁ _ _ => (keeps_checkArity _ _ _).bind fun k₂ h₂ _ _ => ?_
  refine (keeps_spawn _).bind fun k₃ h₃ scope _ => (keeps_record _ _).bind fun k₄ h₄ _ _ => ?_
  -- lists may have been made since the arguments were found, never lost
  have hle : n ≤ k₄ := by omega
  have hbind := bindAll_keeps (κ := κ) scope c.parameters.names
    fun v hv => ρ.mono hle (hargs v hv)
  refine hbind.bind fun k₅ _ _ _ => ?_
  refine (contained_keeps (body_keeps h c.body scope)).pinned.bind fun k₆ _ v hv => ?_
  exact (keeps_record _ _).bind fun k₇ h₇ _ _ => keeps_pure fun j hj =>
    ρ.mono (Nat.le_trans h₇ hj) hv

/-! ## Loops -/

/-- One pass of a loop ends with a value that can be met, or with none. -/
private theorem pass_keeps (body : List Expr) (scope : FrameRef) :
    (ev.pass body scope).Keeps ρ n fun k result => ∀ v ∈ result, ρ.admits k v := by
  refine (keeps_spawn scope).bind fun k _ inner _ => ?_
  refine ((body_keeps h body inner).map fun j v _ hv w hw => ?_).tryCatch fun u => ?_
  · exact Option.some.inj hw ▸ hv
  · -- breaking gives no value, continuing gives `null`, and failures pass
    split
    · exact keeps_pure fun _ _ v hv => nomatch hv
    · exact keeps_pure fun _ _ v hv => Option.some.inj hv ▸ ρ.of_not_list (by simp)
    · exact keeps_throw _

/-- A loop ends with the value of its last pass; the induction is on the passes that are left. -/
private theorem whileLoop_keeps (condition : Expr) (body : List Expr) (scope : FrameRef)
    {last : Value} (hlast : ρ.admits n last) (fuel : Nat) :
    (ev.whileLoop condition body scope last fuel).Keeps ρ n ρ.admits := by
  induction fuel generalizing n last with
  | zero => exact keeps_fail _
  | succ fuel ih =>
    refine (test_keeps h condition scope).bind fun k hk again _ => ?_
    split
    · -- another pass, with a value or broken off
      refine (pass_keeps h body scope).bind fun j _ result hresult => ?_
      cases result with
      | some v => exact ih (hresult v rfl)
      | none => exact keeps_null
    · exact keeps_pure fun j hj => ρ.mono (Nat.le_trans hk hj) hlast

/-- A loop that tests last makes its pass before each test. -/
private theorem doLoop_keeps (condition : Expr) (body : List Expr) (scope : FrameRef) (fuel : Nat) :
    (ev.doLoop condition body scope fuel).Keeps ρ n ρ.admits := by
  induction fuel generalizing n with
  | zero => exact keeps_fail _
  | succ fuel ih =>
    refine (pass_keeps h body scope).bind fun k _ result hresult => ?_
    cases result with
    | none => exact keeps_null
    | some v =>
      -- the test may make lists, and the value of the pass is as old as it was
      refine (test_keeps h condition scope).bind fun j hj again _ => ?_
      split
      · exact ih
      · exact keeps_pure fun i hi => ρ.mono (Nat.le_trans hj hi) (hresult v rfl)

/-- A counting loop gives its variable a new value after each pass. -/
private theorem forLoop_keeps (name : String) (condition step : Expr) (body : List Expr)
    (scope : FrameRef) {last : Value} (hlast : ρ.admits n last) (fuel : Nat) :
    (ev.forLoop name condition step body scope last fuel).Keeps ρ n ρ.admits := by
  induction fuel generalizing n last with
  | zero => exact keeps_fail _
  | succ fuel ih =>
    refine (test_keeps h condition scope).bind fun k hk again _ => ?_
    split
    · refine (pass_keeps h body scope).bind fun j hj result hresult => ?_
      cases result with
      | none => exact keeps_null
      | some v =>
        refine (h.eval j step scope).bind fun i hi next hnext => ?_
        refine (keeps_assign scope name hnext).bind fun l hl _ _ => ih ?_
        -- the value of the pass is kept while the loop variable gets its next one
        exact ρ.mono (Nat.le_trans hi hl) (hresult v rfl)
    · exact keeps_pure fun j hj => ρ.mono (Nat.le_trans hk hj) hlast

end Evaluator

/-! ## Special forms -/

namespace Form

/-- What is read off an expression does not touch the machine. -/
private theorem nameOf_keeps (k : Keyword) (e : Expr) :
    (nameOf k e : Eval κ String).Keeps ρ n fun _ _ => True := by
  unfold nameOf
  split
  · exact keeps_pure fun _ _ => trivial
  · exact keeps_fail _

/-- The names of parameters are read off without touching the machine. -/
private theorem mapM_nameOf_keeps (k : Keyword) (es : List Expr) :
    (es.mapM (nameOf k) : Eval κ (List String)).Keeps ρ n fun _ _ => True := by
  induction es generalizing n with
  | nil => exact keeps_pure fun _ _ => trivial
  | cons e es ih =>
    rw [List.mapM_cons]
    refine (nameOf_keeps k e).bind fun _ _ _ _ => ih.bind fun _ _ _ _ => ?_
    exact keeps_pure fun _ _ => trivial

/-- A number that is asked of a form leaves nothing behind. -/
private theorem numberIn_keeps (k : Keyword) (v : Value) :
    (numberIn k v : Eval κ Float).Keeps ρ n fun _ _ => True :=
  ((keeps_expect _).imp fun _ _ _ _ => trivial).pinned

/-- Parameters are read off without touching the machine. -/
private theorem parameters_keeps (k : Keyword) (e : Expr) :
    (parameters k e : Eval κ Parameters).Keeps ρ n fun _ _ => True := by
  unfold parameters
  -- a single name, or a list of names, or neither
  split
  · exact keeps_pure fun _ _ => trivial
  · split
    · exact (mapM_nameOf_keeps k _).bind fun _ _ _ _ => keeps_pure fun _ _ => trivial
    · exact keeps_fail _

/-- The variable of a loop is read off without touching the machine. -/
private theorem loopVariable_keeps (e : Expr) :
    (loopVariable e : Eval κ (String × Expr)).Keeps ρ n fun _ _ => True := by
  unfold loopVariable
  split
  · exact (nameOf_keeps _ _).bind fun _ _ _ _ => keeps_pure fun _ _ => trivial
  · exact keeps_fail _

/-- A function definition binds a closure, which is no list. -/
private theorem function_keeps (scope : FrameRef) (target ps : Expr) (body : List Expr) :
    (function scope target ps body : Eval κ Value).Keeps ρ n ρ.admits := by
  refine (nameOf_keeps _ target).bind fun _ _ name _ => ?_
  refine (parameters_keeps _ ps).bind fun _ _ ps _ => (keeps_record _ _).bind fun _ _ _ _ => ?_
  refine (keeps_newClosure _ _).bind fun k _ v hv => ?_
  exact (keeps_define scope name hv).bind fun j hj _ _ => keeps_pure fun i hi =>
    ρ.mono (Nat.le_trans hj hi) hv

/-- A function without a name is a closure, which is no list. -/
private theorem lambda_keeps (scope : FrameRef) (ps : Expr) (body : List Expr) :
    (lambda scope ps body : Eval κ Value).Keeps ρ n ρ.admits :=
  (parameters_keeps _ ps).bind fun _ _ _ _ => keeps_newClosure _ _

section Parts

variable {ev : Evaluator κ} (h : ev.Keeps ρ) (scope : FrameRef)
include h

/-- A new name is bound to a value that can be met. -/
private theorem letName_keeps (target e : Expr) :
    (letName ev scope target e).Keeps ρ n ρ.admits := by
  refine (nameOf_keeps _ target).bind fun k _ name _ => (h.eval k e scope).bind fun j _ v hv => ?_
  -- the value is bound later than it was found, which does no harm
  refine (keeps_record _ _).bind fun i hi _ _ => ?_
  refine (keeps_define scope name (ρ.mono hi hv)).bind fun l hl _ _ => keeps_pure fun l' hl' => ?_
  have hle : j ≤ l' := by omega
  exact ρ.mono hle hv

/-- A name that is bound already gets a value that can be met. -/
private theorem setName_keeps (target e : Expr) :
    (setName ev scope target e).Keeps ρ n ρ.admits := by
  refine (nameOf_keeps _ target).bind fun k _ name _ => (h.eval k e scope).bind fun j _ v hv => ?_
  exact (keeps_record _ _).bind fun i hi _ _ => keeps_assign scope name (ρ.mono hi hv)

/-- To add to a number or to take from it gives a number. -/
private theorem step_keeps (k : Keyword) (change : Float → Float → Float) (target : Expr)
    (amount : Option Expr) : (step k change ev scope target amount).Keeps ρ n ρ.admits := by
  refine (nameOf_keeps k target).bind fun _ _ name _ => ?_
  refine (keeps_lookup scope name).bind fun _ _ v _ => ?_
  refine (numberIn_keeps k v).bind fun _ _ current _ => ?_
  have hnumber : ∀ {j} x, ρ.admits j (.number x) := fun _ => ρ.of_not_list (by simp)
  cases amount with
  | none => exact keeps_assign scope name (hnumber _)
  | some e =>
    refine (h.eval _ e scope).bind fun _ _ v _ => (numberIn_keeps k v).bind fun _ _ delta _ => ?_
    exact keeps_assign scope name (hnumber _)

/-- A conditional has the value of the branch that is taken, or `null`. -/
private theorem ifElse_keeps (condition yes : Expr) (no : Option Expr) :
    (ifElse ev scope condition yes no).Keeps ρ n ρ.admits := by
  refine (Evaluator.test_keeps h condition scope).bind fun k _ holds _ => ?_
  split
  · exact h.eval k yes scope
  · cases no with
    | some e => exact h.eval k e scope
    | none => exact Evaluator.keeps_null

/-- A negated conditional has the value of its branch, or `null`. -/
private theorem unlessTrue_keeps (condition e : Expr) :
    (unlessTrue ev scope condition e).Keeps ρ n ρ.admits := by
  refine (Evaluator.test_keeps h condition scope).bind fun k _ holds _ => ?_
  split
  · exact Evaluator.keeps_null
  · exact h.eval k e scope

/-- A block runs its body in a frame of its own. -/
private theorem block_keeps (body : List Expr) : (block ev scope body).Keeps ρ n ρ.admits :=
  (keeps_spawn scope).bind fun _ _ inner _ => Evaluator.body_keeps h body inner

/-- A counting loop binds its variable in a frame of its own and goes on as `Evaluator.forLoop`
    does. -/
private theorem forLoop_keeps (binding condition step : Expr) (body : List Expr) (fuel : Nat) :
    (forLoop ev fuel scope binding condition step body).Keeps ρ n ρ.admits := by
  refine (loopVariable_keeps binding).bind fun _ _ variableAndInitial _ => ?_
  refine (keeps_spawn scope).bind fun k _ inner _ => ?_
  refine (h.eval k _ scope).bind fun j _ v hv => (keeps_define inner _ hv).bind fun i _ _ _ => ?_
  have hnull : ρ.admits i .null := ρ.of_not_list (by simp)
  exact Evaluator.forLoop_keeps h _ condition step body inner hnull fuel

/-- To throw a value leaves a ranked machine behind. -/
private theorem throwValue_keeps (e : Expr) : (throwValue ev scope e).Keeps ρ n ρ.admits :=
  (h.eval n e scope).bind fun _ _ _ _ => (keeps_record _ _).bind fun _ _ _ _ => keeps_fail _

/-- Every special form keeps machines ranked. -/
theorem run_keeps (fuel : Nat) (k : Keyword) (parts : List Expr) :
    (run ev fuel scope k parts).Keeps ρ n ρ.admits := by
  have hnull : ρ.admits n .null := ρ.of_not_list (by simp)
  unfold run
  -- in the order of the definition; the last case is left for other numbers of parts
  split
  · exact letName_keeps h scope _ _
  · exact setName_keeps h scope _ _
  · exact step_keeps h scope _ _ _ none
  · exact step_keeps h scope _ _ _ (some _)
  · exact step_keeps h scope _ _ _ none
  · exact step_keeps h scope _ _ _ (some _)
  · exact ifElse_keeps h scope _ _ none
  · exact ifElse_keeps h scope _ _ (some _)
  · exact unlessTrue_keeps h scope _ _
  · exact block_keeps h scope _
  · exact function_keeps scope _ _ _
  · exact lambda_keeps scope _ _
  · exact Evaluator.whileLoop_keeps h _ _ scope hnull fuel
  · exact Evaluator.doLoop_keeps h _ _ scope fuel
  · exact forLoop_keeps h scope _ _ _ _ fuel
  · exact keeps_throw _
  · exact throwValue_keeps h scope _
  · exact keeps_fail _

/-- So does a special form whose parts have been counted. -/
private theorem call_keeps (fuel : Nat) (k : Keyword) (parts : List Expr) :
    (call ev fuel scope k parts).Keeps ρ n ρ.admits :=
  (keeps_checkArity _ _ _).bind fun _ _ _ _ => run_keeps h scope fuel k parts

end Parts

end Form

/-! ## Steps of evaluation -/

namespace Evaluator

/-- What a name means can be met: it is bound, or a library function, which is no list. -/
private theorem meaning_keeps (reg : Registry κ) (scope : FrameRef) (name : String) :
    (meaning reg scope name).Keeps ρ n ρ.admits := by
  refine (keeps_get? scope name).bind fun k _ bound hbound => ?_
  cases bound with
  | some v => exact keeps_pure fun j hj => ρ.mono hj (hbound v rfl)
  | none =>
    dsimp only
    split
    · exact keeps_atom (by simp)
    · exact keeps_fail _

variable {ev : Evaluator κ} {reg : Registry κ} (hreg : reg.Keeps ρ) (h : ev.Keeps ρ)
include hreg h

/-- A library function that is called by its name gets the values of its arguments, or their
    expressions if it may stop early. -/
private theorem callDirectly_keeps {name : String} {entry : Entry κ}
    (hfind : reg.find? name = some entry) (args : List Expr) (scope : FrameRef) :
    (ev.callDirectly entry args scope).Keeps ρ n ρ.admits := by
  unfold callDirectly
  refine (keeps_record _ _).bind fun k _ _ _ => ?_
  split
  · rename_i s _
    -- without arguments the outcome is a constant
    have hempty : ρ.admits k s.empty := ρ.of_not_list (by cases s <;> simp [ShortCircuit.empty])
    exact shortCircuit_keeps h s scope hempty args
  · refine (sequence_keeps h args scope).bind fun j _ values hvalues => ?_
    exact hreg entry (List.mem_of_find?_eq_some hfind) ev.apply h.apply j values hvalues

/-- A call by name is a special form, a call of what the name is bound to, or a call of a library
    function. -/
private theorem callByName_keeps (fuel : Nat) (name : String) (args : List Expr)
    (scope : FrameRef) : (callByName reg ev fuel name args scope).Keeps ρ n ρ.admits := by
  refine (keeps_record _ _).bind fun _ _ _ _ => ?_
  -- a keyword is a special form, whatever else the name may mean
  split
  · exact Form.call_keeps h scope fuel _ args
  · refine (keeps_get? scope name).bind fun _ _ bound _ => ?_
    cases bound with
    | some callee =>
      exact (sequence_keeps h args scope).bind fun j _ values hvalues =>
        h.apply j callee values hvalues
    | none =>
      dsimp only
      split
      · rename_i entry hfind
        exact callDirectly_keeps hreg h hfind args scope
      · exact keeps_fail _

/-- One step of evaluation keeps machines ranked if the steps inside it do. -/
private theorem evalStep_keeps (fuel : Nat) (e : Expr) (scope : FrameRef) :
    (evalStep reg ev fuel e scope).Keeps ρ n ρ.admits := by
  unfold evalStep
  -- constants and names first, then lists, then the ways to call
  split
  · exact keeps_atom (by simp)
  · exact keeps_atom (by simp)
  · exact keeps_atom (by simp)
  · exact keeps_null
  · exact meaning_keeps reg scope _
  · refine (sequence_keeps h _ scope).bind fun k _ vs hvs => ?_
    exact (keeps_newList hvs).imp fun _ _ _ hv => hv.admits
  · exact keeps_null
  · exact callByName_keeps hreg h fuel _ _ scope
  · refine (h.eval n _ scope).bind fun k _ callee _ => ?_
    exact (sequence_keeps h _ scope).bind fun j _ values hvalues => h.apply j callee values hvalues

/-- One call of a value keeps machines ranked if the steps inside it do. -/
private theorem applyStep_keeps (callee : Value) {args : List Value}
    (hargs : ∀ v ∈ args, ρ.admits n v) : (applyStep reg ev callee args).Keeps ρ n ρ.admits := by
  unfold applyStep
  -- closures, library functions, and what cannot be called
  split
  · refine (keeps_code? _).bind fun k hk c _ => ?_
    cases c with
    | some c => exact callClosure_keeps h _ c fun v hv => ρ.mono hk (hargs v hv)
    | none => exact keeps_fail _
  · split
    · rename_i entry hfind
      exact hreg entry (List.mem_of_find?_eq_some hfind) ev.apply h.apply n args hargs
    · exact keeps_fail _
  · exact keeps_fail _

omit h in
/-- Evaluation keeps machines ranked if the functions of the libraries do. -/
theorem withFuel_keeps (fuel : Nat) : (withFuel reg fuel).Keeps ρ := by
  -- the steps inside a step have less fuel
  induction fuel with
  | zero => exact ⟨fun _ _ _ => keeps_fail _, fun _ _ _ _ => keeps_fail _⟩
  | succ fuel ih =>
    exact ⟨fun _ e scope => evalStep_keeps hreg ih fuel e scope,
      fun _ callee _ hargs => applyStep_keeps hreg ih callee hargs⟩

omit hreg in
/-- A text that is read and run keeps machines ranked. -/
theorem run_keeps (source : String) : (ev.run source).Keeps ρ n ρ.admits := by
  have hread : (Eval.read source : Eval κ (List Expr)).Keeps ρ n fun _ _ => True := by
    refine (keeps_record _ _).bind fun _ _ _ _ => ?_
    split
    · exact keeps_fail _
    · exact (keeps_record _ _).bind fun _ _ _ _ => keeps_pure fun _ _ => trivial
  refine hread.bind fun _ _ es _ => (keeps_record _ _).bind fun _ _ _ _ => ?_
  exact body_keeps h es _

end Evaluator

/-! ## Sessions -/

/-- The machine that a session ends with is the one that its evaluation leaves. -/
private theorem Session.machine_perform {α : Type} (s : Session κ) (x : Eval κ α) :
    (s.perform x).2.machine = x.after s.machine := by
  unfold perform Eval.after
  cases x s.machine <;> rfl

/-- A run leaves a ranked machine behind, whether it fails or not. -/
theorem Session.run_ranked {s : Session κ} (hreg : s.registry.Keeps ρ) (hm : s.machine.Ranked ρ)
    (source : String) : (s.run source).2.machine.Ranked ρ := by
  show (s.perform (s.evaluator.run source)).2.machine.Ranked ρ
  rw [machine_perform]
  have hrun := Evaluator.run_keeps (n := 0) (Evaluator.withFuel_keeps hreg s.fuel) source
  exact ((hrun s.machine hm (Nat.zero_le _)).imp (fun _ _ ha => ha.1) fun _ _ hu => hu.1).after

end Lisplet
