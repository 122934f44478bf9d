import Lisplet.Proofs.PairedLibraries
import Lisplet.Session

/-! # Evaluation side by side

Two evaluators that are paired stay paired through every construct of the language, so an
evaluation runs the same on both sides of a simulation whatever the program is.

* `Evaluator.Paired`             the property of two evaluators
* `Simulation.Outlasts`          how much fuel the second side needs
* `Form.call_paired`             special forms
* `withFuel_paired`              the induction over nested steps
* `Session.perform_paired`       what two sessions have in common at the end
* `Primitive.exists_ends_call`   a call in terms of the run that it makes, up to journals -/

namespace Lisplet

open Eval

variable {κ κ' : Type} {σ : Simulation κ κ'} {K : FrameRef → Prop}

/-- The second side can keep up: it has the same fuel, or more, if the simulation is lost when the
    first side gives up. -/
def Simulation.Outlasts (σ : Simulation κ κ') (fuel fuel' : Nat) : Prop :=
  fuel' = fuel ∨ fuel ≤ fuel' ∧ ∀ k, σ.loses (.failure .exhausted) k

namespace Simulation.Outlasts

variable {fuel fuel' : Nat}

/-- With the same fuel the second side can keep up. -/
theorem refl (fuel : Nat) : σ.Outlasts fuel fuel := .inl rfl

/-- After a step the second side can still keep up. -/
private theorem exists_eq_succ (h : σ.Outlasts (fuel + 1) fuel') :
    ∃ n, fuel' = n + 1 ∧ σ.Outlasts fuel n := by
  obtain rfl | ⟨hle, hlost⟩ := h
  · exact ⟨fuel, rfl, .refl fuel⟩
  · exact ⟨fuel' - 1, by omega, .inr ⟨by omega, hlost⟩⟩

/-- The first side has given up: so has the second, or it is left to itself. -/
private theorem paired_exhausted {α : Type} {Q : α → Prop} {y : Eval κ' α} (h : σ.Outlasts 0 fuel')
    (hy : fuel' = 0 → y = fail .exhausted) : (fail .exhausted : Eval κ α).Paired σ K Q y := by
  obtain rfl | ⟨-, hlost⟩ := h
  · rw [hy rfl]
    exact paired_fail trivial
  · exact paired_of_loses hlost y

end Simulation.Outlasts

namespace Evaluator

/-- Expressions over allowed names are evaluated alike in frames that are known, and functions are
    called alike. -/
structure Paired (σ : Simulation κ κ') (ev : Evaluator κ) (ev' : Evaluator κ') : Prop where
  eval : ∀ K e scope, e.Over σ.toVocabulary → K scope →
    (ev.eval e scope).Paired σ K σ.Allows (ev'.eval e scope)
  apply : ev.apply.Paired σ ev'.apply

variable {ev : Evaluator κ} {ev' : Evaluator κ'} (h : ev.Paired σ ev')
include h

/-! ## Sequences -/

/-- Expressions that are evaluated in turn have the same values. -/
private theorem sequence_paired {es : List Expr} (hes : ∀ e ∈ es, e.Over σ.toVocabulary)
    {scope : FrameRef} (hscope : K scope) :
    (ev.sequence es scope).Paired σ K (fun vs => ∀ v ∈ vs, σ.Allows v)
      (ev'.sequence es scope) :=
  .mapM fun e he => h.eval K e scope (hes e he) hscope

/-- A body has the same value. -/
theorem body_paired {es : List Expr} (hes : ∀ e ∈ es, e.Over σ.toVocabulary)
    {scope : FrameRef} (hscope : K scope) :
    (ev.body es scope).Paired σ K σ.Allows (ev'.body es scope) :=
  .foldlM (fun _ e he _ => h.eval K e scope (hes e he) hscope) trivial

/-- A short circuit stops at the same expression. -/
theorem shortCircuit_paired (s : ShortCircuit) {es : List Expr}
    (hes : ∀ e ∈ es, e.Over σ.toVocabulary) {scope : FrameRef} (hscope : K scope) {last : Value}
    (hlast : σ.Allows last) :
    (ev.shortCircuit s scope last es).Paired σ K σ.Allows (ev'.shortCircuit s scope last es) := by
  induction es generalizing last with
  | nil => exact paired_pure hlast
  | cons e es ih =>
    obtain ⟨he, hes⟩ := List.forall_mem_cons.1 hes
    refine (h.eval K e scope he hscope).bind fun v hv => ?_
    -- the value settles the outcome on both sides or on neither
    split
    · exact paired_pure hv
    · exact ih hes hv

/-- A condition holds on both sides or on neither. -/
theorem test_paired {condition : Expr} (hcondition : condition.Over σ.toVocabulary)
    {scope : FrameRef} (hscope : K scope) :
    (ev.test condition scope).Paired σ K (fun _ => True) (ev'.test condition scope) :=
  (h.eval K condition scope hcondition hscope).bind fun _ _ => paired_pure trivial

/-! ## Closures -/

omit h in
/-- A signal is turned into the same failure on both sides. -/
private theorem contained_paired {x : Eval κ Value} {y : Eval κ' Value}
    (hx : x.Paired σ K σ.Allows y) : (contained x).Paired σ K σ.Allows (contained y) := by
  refine hx.tryCatch (fun u hu => ?_) fun u m hu => ?_
  · -- a signal is replaced by a failure, a failure passes as it is
    cases u with
    | signal s => exact paired_fail trivial
    | failure e => exact paired_throw hu
  · -- what is lost is no signal
    cases u with
    | signal s => exact hu.elim
    | failure e => exact ⟨rfl, rfl⟩

omit h in
/-- Parameters are bound to the same arguments. -/
private theorem bindAll_paired {scope : FrameRef} (hscope : K scope) {names : List String}
    (hnames : ∀ name ∈ names, σ.allowsName name) {args : List Value}
    (hargs : ∀ v ∈ args, σ.Allows v) :
    (bindAll scope names args : Eval κ Unit).Paired σ K (fun _ => True)
      (bindAll scope names args) := by
  refine .forM trivial fun b hb => ?_
  obtain ⟨hname, hv⟩ := List.of_mem_zip hb
  exact paired_define hscope (hnames b.1 hname) (hargs b.2 hv)

/-- The call of a closure does the same if its body does, in a frame of the same name. -/
private theorem callClosure_paired (name : Option String) {c : Closure} (hc : c.Over σ.toVocabulary)
    (hscope : K c.scope) {args : List Value} (hargs : ∀ v ∈ args, σ.Allows v) :
    (ev.callClosure name c args).Paired σ K σ.Allows (ev'.callClosure name c args) := by
  refine (paired_record _ _ _ _).bind fun _ _ => (paired_checkArity _ _ _).bind fun _ _ => ?_
  refine paired_spawn hscope fun inner => (paired_record _ _ _ _).bind fun _ _ => ?_
  refine (bindAll_paired (.inr rfl) hc.1 hargs).bind fun _ _ => ?_
  refine ((contained_paired (body_paired h hc.2 (.inr rfl))).pinned _).bind fun v hv => ?_
  exact (paired_record _ _ _ _).bind fun _ _ => paired_pure hv

/-! ## Loops -/

/-- One pass of a loop ends alike: with the same value, broken off, or continued. -/
theorem pass_paired {body : List Expr} (hbody : ∀ e ∈ body, e.Over σ.toVocabulary)
    {scope : FrameRef} (hscope : K scope) :
    (ev.pass body scope).Paired σ K (fun result => ∀ v ∈ result, σ.Allows v)
      (ev'.pass body scope) := by
  refine paired_spawn hscope fun inner => ?_
  refine ((body_paired h hbody (.inr rfl)).map fun v hv w hw => ?_).tryCatch (fun u hu => ?_)
    fun u m hu => ?_
  · exact Option.some.inj hw ▸ hv
  · match u, hu with
    | .signal .breaking, _ => exact paired_pure fun v hv => nomatch hv
    | .signal .continuing, _ => exact paired_pure fun v hv => Option.some.inj hv ▸ trivial
    | .failure e, he => exact paired_throw he
  · -- a loop takes signals only, and a signal is never lost
    cases u with
    | signal s => exact hu.elim
    | failure e => exact ⟨rfl, rfl⟩

section Loops

variable {condition : Expr} (hcondition : condition.Over σ.toVocabulary) {body : List Expr}
  (hbody : ∀ e ∈ body, e.Over σ.toVocabulary) {scope : FrameRef} (hscope : K scope)
include hcondition hbody hscope

/-- A loop makes the same passes; the induction is on the fuel of the first side. -/
private theorem whileLoop_paired {last : Value} (hlast : σ.Allows last) {fuel fuel' : Nat}
    (hfuel : σ.Outlasts fuel fuel') :
    (ev.whileLoop condition body scope last fuel).Paired σ K σ.Allows
      (ev'.whileLoop condition body scope last fuel') := by
  induction fuel generalizing last fuel' with
  | zero => exact hfuel.paired_exhausted (by rintro rfl; rfl)
  | succ fuel ih =>
    obtain ⟨fuel', rfl, hrest⟩ := hfuel.exists_eq_succ
    refine (test_paired h hcondition hscope).bind fun again _ => ?_
    split
    · -- another pass on both sides, which may be broken off
      refine (pass_paired h hbody hscope).bind fun result hresult => ?_
      cases result with
      | some v => exact ih (hresult v rfl) hrest
      | none => exact paired_pure trivial
    · exact paired_pure hlast

/-- So does a loop that tests last. -/
private theorem doLoop_paired {fuel fuel' : Nat} (hfuel : σ.Outlasts fuel fuel') :
    (ev.doLoop condition body scope fuel).Paired σ K σ.Allows
      (ev'.doLoop condition body scope fuel') := by
  induction fuel generalizing fuel' with
  | zero => exact hfuel.paired_exhausted (by rintro rfl; rfl)
  | succ fuel ih =>
    obtain ⟨fuel', rfl, hrest⟩ := hfuel.exists_eq_succ
    refine (pass_paired h hbody hscope).bind fun result hresult => ?_
    cases result with
    | none => exact paired_pure trivial
    | some v =>
      refine (test_paired h hcondition hscope).bind fun again _ => ?_
      split
      · exact ih hrest
      · exact paired_pure (hresult v rfl)

/-- So does a counting loop, which gives its variable the same values. -/
private theorem forLoop_paired {name : String} (hname : σ.allowsName name) {step : Expr}
    (hstep : step.Over σ.toVocabulary) {last : Value} (hlast : σ.Allows last) {fuel fuel' : Nat}
    (hfuel : σ.Outlasts fuel fuel') :
    (ev.forLoop name condition step body scope last fuel).Paired σ K σ.Allows
      (ev'.forLoop name condition step body scope last fuel') := by
  induction fuel generalizing last fuel' with
  | zero => exact hfuel.paired_exhausted (by rintro rfl; rfl)
  | succ fuel ih =>
    obtain ⟨fuel', rfl, hrest⟩ := hfuel.exists_eq_succ
    refine (test_paired h hcondition hscope).bind fun again _ => ?_
    split
    · refine (pass_paired h hbody hscope).bind fun result hresult => ?_
      cases result with
      | none => exact paired_pure trivial
      | some v =>
        refine (h.eval K step scope hstep hscope).bind fun next hnext => ?_
        exact (paired_assign hscope hname hnext).bind fun _ _ => ih (hresult v rfl) hrest
    · exact paired_pure hlast

end Loops

end Evaluator

/-! ## Special forms -/

namespace Form

/-- The same name is read off, and it may be used. -/
private theorem nameOf_paired (k : Keyword) {e : Expr} (he : e.Over σ.toVocabulary) :
    (nameOf k e : Eval κ String).Paired σ K σ.allowsName (nameOf k e) := by
  cases e with
  | identifier name => exact paired_pure (Expr.over_identifier.1 he)
  | _ => exact paired_fail trivial

/-- The same number is asked for. -/
private theorem numberIn_paired (k : Keyword) (v : Value) :
    (numberIn k v : Eval κ Float).Paired σ K (fun _ => True) (numberIn k v) :=
  ((paired_expect _).imp fun _ _ => trivial).pinned _

/-- The parts of an expression in brackets use no other names. -/
private theorem over_of_parts? {V : Vocabulary} {e : Expr} {parts : List Expr} (he : e.Over V)
    (hparts : e.parts? = some parts) : ∀ part ∈ parts, part.Over V := by
  cases e with
  | call items =>
    cases hparts
    exact Expr.over_call.1 he
  | list items =>
    cases hparts
    exact Expr.over_list.1 he
  | _ => cases hparts

/-- The same parameters are read off. -/
private theorem parameters_paired (k : Keyword) {e : Expr} (he : e.Over σ.toVocabulary) :
    (parameters k e : Eval κ Parameters).Paired σ K
      (fun ps => ∀ name ∈ ps.names, σ.allowsName name) (parameters k e) := by
  unfold parameters
  -- a single name, or a list of names, or neither
  split
  · refine paired_pure fun name hname => ?_
    rw [List.mem_singleton.1 hname]
    exact Expr.over_identifier.1 he
  · split
    · rename_i parts hparts
      refine (Paired.mapM fun part hpart =>
        nameOf_paired k (over_of_parts? he hparts part hpart)).bind
        fun names hnames => paired_pure hnames
    · exact paired_fail trivial

/-- The same variable and the same initial expression are read off. -/
private theorem loopVariable_paired {e : Expr} (he : e.Over σ.toVocabulary) :
    (loopVariable e : Eval κ (String × Expr)).Paired σ K
      (fun b => σ.allowsName b.1 ∧ b.2.Over σ.toVocabulary) (loopVariable e) := by
  unfold loopVariable
  split
  · rename_i target initial hparts
    have hover := over_of_parts? he hparts
    refine (nameOf_paired _ (hover target (by simp))).bind fun name hname => ?_
    exact paired_pure ⟨hname, hover initial (by simp)⟩
  · exact paired_fail trivial

/-- The same closure is made and bound to the same name. -/
private theorem function_paired {scope : FrameRef} (hscope : K scope) {target ps : Expr}
    (htarget : target.Over σ.toVocabulary) (hps : ps.Over σ.toVocabulary) {body : List Expr}
    (hbody : ∀ e ∈ body, e.Over σ.toVocabulary) :
    (function scope target ps body : Eval κ Value).Paired σ K σ.Allows
      (function scope target ps body) := by
  refine (nameOf_paired _ htarget).bind fun name hname => ?_
  refine (parameters_paired _ hps).bind fun ps hps => (paired_record _ _ _ _).bind fun _ _ => ?_
  refine (paired_newClosure _ ⟨hps, hbody⟩ hscope).bind fun v hv => ?_
  exact (paired_define hscope hname hv).bind fun _ _ => paired_pure hv

/-- The same closure is made. -/
private theorem lambda_paired {scope : FrameRef} (hscope : K scope) {ps : Expr}
    (hps : ps.Over σ.toVocabulary) {body : List Expr} (hbody : ∀ e ∈ body, e.Over σ.toVocabulary) :
    (lambda scope ps body : Eval κ Value).Paired σ K σ.Allows (lambda scope ps body) :=
  (parameters_paired _ hps).bind fun _ hps => paired_newClosure _ ⟨hps, hbody⟩ hscope

section Parts

variable {ev : Evaluator κ} {ev' : Evaluator κ'} (h : ev.Paired σ ev') {scope : FrameRef}
  (hscope : K scope)
include h hscope

/-- The same name is bound to the same value. -/
private theorem letName_paired {target e : Expr} (htarget : target.Over σ.toVocabulary)
    (he : e.Over σ.toVocabulary) :
    (letName ev scope target e).Paired σ K σ.Allows (letName ev' scope target e) := by
  refine (nameOf_paired _ htarget).bind fun name hname => ?_
  refine (h.eval K e scope he hscope).bind fun v hv => (paired_record _ _ _ _).bind fun _ _ => ?_
  exact (paired_define hscope hname hv).bind fun _ _ => paired_pure hv

/-- The same binding is changed to the same value. -/
private theorem setName_paired {target e : Expr} (htarget : target.Over σ.toVocabulary)
    (he : e.Over σ.toVocabulary) :
    (setName ev scope target e).Paired σ K σ.Allows (setName ev' scope target e) := by
  refine (nameOf_paired _ htarget).bind fun name hname => ?_
  refine (h.eval K e scope he hscope).bind fun v hv => (paired_record _ _ _ _).bind fun _ _ => ?_
  exact paired_assign hscope hname hv

/-- The same number is added, or taken away. -/
private theorem step_paired (k : Keyword) (change : Float → Float → Float) {target : Expr}
    (htarget : target.Over σ.toVocabulary) (amount : Option Expr)
    (hamount : ∀ e, amount = some e → e.Over σ.toVocabulary) :
    (step k change ev scope target amount).Paired σ K σ.Allows
      (step k change ev' scope target amount) := by
  refine (nameOf_paired k htarget).bind fun name hname => ?_
  refine (paired_lookup hscope hname).bind fun v _ => (numberIn_paired k v).bind fun current _ => ?_
  -- the amount is one unless an expression is given for it
  cases amount with
  | none =>
    exact (paired_pure (Q := fun _ => True) trivial).bind fun _ _ =>
      paired_assign hscope hname trivial
  | some e =>
    refine (h.eval K e scope (hamount e rfl) hscope).bind fun v _ => ?_
    exact (numberIn_paired k v).bind fun delta _ => paired_assign hscope hname trivial

/-- The same branch is taken. -/
private theorem ifElse_paired {condition yes : Expr} (hcondition : condition.Over σ.toVocabulary)
    (hyes : yes.Over σ.toVocabulary) (no : Option Expr)
    (hno : ∀ e, no = some e → e.Over σ.toVocabulary) :
    (ifElse ev scope condition yes no).Paired σ K σ.Allows
      (ifElse ev' scope condition yes no) := by
  refine (Evaluator.test_paired h hcondition hscope).bind fun holds _ => ?_
  split
  · exact h.eval K yes scope hyes hscope
  · cases no with
    | none => exact paired_pure trivial
    | some e => exact h.eval K e scope (hno e rfl) hscope

/-- The branch is taken on both sides or on neither. -/
private theorem unlessTrue_paired {condition e : Expr} (hcondition : condition.Over σ.toVocabulary)
    (he : e.Over σ.toVocabulary) :
    (unlessTrue ev scope condition e).Paired σ K σ.Allows (unlessTrue ev' scope condition e) := by
  refine (Evaluator.test_paired h hcondition hscope).bind fun holds _ => ?_
  split
  · exact paired_pure trivial
  · exact h.eval K e scope he hscope

/-- A block runs its body in a frame of the same name. -/
private theorem block_paired {body : List Expr} (hbody : ∀ e ∈ body, e.Over σ.toVocabulary) :
    (block ev scope body).Paired σ K σ.Allows (block ev' scope body) :=
  paired_spawn hscope fun _ => Evaluator.body_paired h hbody (.inr rfl)

/-- A counting loop binds its variable in a frame of the same name and goes on as
    `Evaluator.forLoop` does. -/
private theorem forLoop_paired {binding condition step : Expr}
    (hbinding : binding.Over σ.toVocabulary)
    (hcondition : condition.Over σ.toVocabulary) (hstep : step.Over σ.toVocabulary)
    {body : List Expr} (hbody : ∀ e ∈ body, e.Over σ.toVocabulary) {fuel fuel' : Nat}
    (hfuel : σ.Outlasts fuel fuel') :
    (forLoop ev fuel scope binding condition step body).Paired σ K σ.Allows
      (forLoop ev' fuel' scope binding condition step body) := by
  refine (loopVariable_paired hbinding).bind ?_
  rintro ⟨name, initial⟩ ⟨hname, hinitial⟩
  refine paired_spawn hscope fun inner => ?_
  -- the initial value is found outside, in the frame around the loop
  refine (h.eval _ initial scope hinitial (.inl hscope)).bind fun v hv => ?_
  refine (paired_define (.inr rfl) hname hv).bind fun _ _ => ?_
  have hnull : σ.Allows .null := trivial
  exact Evaluator.forLoop_paired h hcondition hbody (.inr rfl) hname hstep hnull hfuel

/-- The same value is thrown. -/
private theorem throwValue_paired {e : Expr} (he : e.Over σ.toVocabulary) :
    (throwValue ev scope e).Paired σ K σ.Allows (throwValue ev' scope e) :=
  (h.eval K e scope he hscope).bind fun _ hv =>
    (paired_record _ _ _ _).bind fun _ _ => paired_fail hv

/-- A special form with as many parts as it should have. -/
theorem run_paired {k : Keyword} {parts : List Expr}
    (hlen : k.arity.contains parts.length = true) (hparts : ∀ e ∈ parts, e.Over σ.toVocabulary)
    {fuel fuel' : Nat} (hfuel : σ.Outlasts fuel fuel') :
    (run ev fuel scope k parts).Paired σ K σ.Allows (run ev' fuel' scope k parts) := by
  -- the arity leaves only the shapes that the form is defined for
  cases k with
  | letName =>
    match parts, Arity.eq_of_exactly hlen, hparts with
    | [target, e], _, hparts =>
      exact letName_paired h hscope (hparts target (by simp)) (hparts e (by simp))
  | setName =>
    match parts, Arity.eq_of_exactly hlen, hparts with
    | [target, e], _, hparts =>
      exact setName_paired h hscope (hparts target (by simp)) (hparts e (by simp))
  | inc =>
    obtain ⟨target, rfl⟩ | ⟨target, e, rfl⟩ := Arity.one_or_two hlen
    · exact step_paired h hscope .inc (· + ·) (hparts target (by simp)) none fun _ he => nomatch he
    · exact step_paired h hscope .inc (· + ·) (hparts target (by simp)) (some e)
        fun _ he => Option.some.inj he ▸ hparts e (by simp)
  | dec =>
    obtain ⟨target, rfl⟩ | ⟨target, e, rfl⟩ := Arity.one_or_two hlen
    · exact step_paired h hscope .dec (· - ·) (hparts target (by simp)) none fun _ he => nomatch he
    · exact step_paired h hscope .dec (· - ·) (hparts target (by simp)) (some e)
        fun _ he => Option.some.inj he ▸ hparts e (by simp)
  | ifElse =>
    obtain ⟨condition, yes, rfl⟩ | ⟨condition, yes, no, rfl⟩ := Arity.two_or_three hlen
    · exact ifElse_paired h hscope (hparts condition (by simp)) (hparts yes (by simp)) none
        fun _ he => nomatch he
    · exact ifElse_paired h hscope (hparts condition (by simp)) (hparts yes (by simp)) (some no)
        fun _ he => Option.some.inj he ▸ hparts no (by simp)
  | unlessTrue =>
    match parts, Arity.eq_of_exactly hlen, hparts with
    | [condition, e], _, hparts =>
      exact unlessTrue_paired h hscope (hparts condition (by simp)) (hparts e (by simp))
  | block => exact block_paired h hscope hparts
  | function =>
    match parts, Arity.le_of_atLeast hlen, hparts with
    | target :: ps :: body, _, hparts =>
      exact function_paired hscope (hparts target (by simp)) (hparts ps (by simp))
        fun e he => hparts e (by simp [he])
  | lambda =>
    match parts, Arity.le_of_atLeast hlen, hparts with
    | ps :: body, _, hparts =>
      exact lambda_paired hscope (hparts ps (by simp)) fun e he => hparts e (by simp [he])
  | whileLoop =>
    match parts, Arity.le_of_atLeast hlen, hparts with
    | condition :: body, _, hparts =>
      exact Evaluator.whileLoop_paired h (hparts condition (by simp))
        (fun e he => hparts e (by simp [he])) hscope (show σ.Allows .null from trivial) hfuel
  | doLoop =>
    match parts, Arity.le_of_atLeast hlen, hparts with
    | condition :: body, _, hparts =>
      exact Evaluator.doLoop_paired h (hparts condition (by simp))
        (fun e he => hparts e (by simp [he])) hscope hfuel
  | forLoop =>
    match parts, Arity.le_of_atLeast hlen, hparts with
    | binding :: condition :: step :: body, _, hparts =>
      exact forLoop_paired h hscope (hparts binding (by simp)) (hparts condition (by simp))
        (hparts step (by simp)) (fun e he => hparts e (by simp [he])) hfuel
  | signal s =>
    match parts, Arity.eq_of_exactly hlen with
    | [], _ => exact paired_throw trivial
  | throwValue =>
    match parts, Arity.eq_of_exactly hlen, hparts with
    | [e], _, hparts => exact throwValue_paired h hscope (hparts e (by simp))

/-- The same with the check of the arity, which is the same on both sides. -/
theorem call_paired {fuel fuel' : Nat} (hfuel : σ.Outlasts fuel fuel') (k : Keyword)
    {parts : List Expr} (hparts : ∀ e ∈ parts, e.Over σ.toVocabulary) :
    (call ev fuel scope k parts).Paired σ K σ.Allows (call ev' fuel' scope k parts) :=
  (paired_checkArity _ _ _).bind fun _ hlen => run_paired h hscope hlen hparts hfuel

end Parts

end Form

/-! ## Steps of evaluation -/

namespace Evaluator

variable {ev : Evaluator κ} {ev' : Evaluator κ'} {reg : Registry κ} {reg' : Registry κ'}

/-- A name means the same on both sides. -/
private theorem meaning_paired (hreg : reg.Paired σ reg') {scope : FrameRef} (hscope : K scope)
    {name : String} (hname : σ.allowsName name) :
    (meaning reg scope name).Paired σ K σ.Allows (meaning reg' scope name) := by
  refine (paired_get? hscope hname).bind fun bound hbound => ?_
  cases bound with
  | some v => exact paired_pure (hbound.1 v rfl)
  | none =>
    -- only names that no frame binds are looked up in the registry
    have hmisses := hbound.2 rfl
    refine (hreg.found_of_misses hmisses hname).paired fun _ _ he _ => ?_
    exact paired_pure (hreg.allows_of_misses hmisses hname he)

variable (h : ev.Paired σ ev')
include h

/-- A library function is called with the same values. -/
private theorem callDirectly_paired {entry : Entry κ} {entry' : Entry κ'}
    (hentry : entry.Paired σ entry') {args : List Expr} (hargs : ∀ e ∈ args, e.Over σ.toVocabulary)
    {scope : FrameRef} (hscope : K scope) :
    (ev.callDirectly entry args scope).Paired σ K σ.Allows
      (ev'.callDirectly entry' args scope) := by
  unfold callDirectly
  refine (paired_record _ _ _ _).bind fun _ _ => ?_
  rw [hentry.shortCircuit_eq]
  -- a short circuit evaluates its arguments itself
  split
  · rename_i s _
    exact shortCircuit_paired h s hargs hscope (by cases s <;> trivial)
  · exact (sequence_paired h hargs hscope).bind fun values hvalues =>
      hentry.call h.apply K values hvalues

/-- A call by name is the same kind of call on both sides. -/
private theorem callByName_paired (hreg : reg.Paired σ reg') {fuel fuel' : Nat}
    (hfuel : σ.Outlasts fuel fuel') {name : String} (hname : σ.allowsName name)
    {args : List Expr} (hargs : ∀ e ∈ args, e.Over σ.toVocabulary) {scope : FrameRef}
    (hscope : K scope) :
    (callByName reg ev fuel name args scope).Paired σ K σ.Allows
      (callByName reg' ev' fuel' name args scope) := by
  refine (paired_record _ _ _ _).bind fun _ _ => ?_
  -- a keyword is a special form on both sides, whatever else the name may mean
  split
  · exact Form.call_paired h hscope hfuel _ hargs
  · refine (paired_get? hscope hname).bind fun bound hbound => ?_
    cases bound with
    | some callee =>
      exact (sequence_paired h hargs hscope).bind fun values hvalues =>
        h.apply K callee values (hbound.1 callee rfl) hvalues
    | none =>
      exact (hreg.found_of_misses (hbound.2 rfl) hname).paired fun _ _ _ he =>
        callDirectly_paired h he hargs hscope

/-- One step of evaluation is paired if the steps inside it are. -/
private theorem evalStep_paired_of_outlasts (hreg : reg.Paired σ reg') {fuel fuel' : Nat}
    (hfuel : σ.Outlasts fuel fuel') {e : Expr} (he : e.Over σ.toVocabulary) {scope : FrameRef}
    (hscope : K scope) :
    (evalStep reg ev fuel e scope).Paired σ K σ.Allows (evalStep reg' ev' fuel' e scope) := by
  unfold evalStep
  -- constants and names first, then lists, then the ways to call
  split
  · exact paired_pure trivial
  · exact paired_pure (Expr.over_string.1 he)
  · exact paired_pure trivial
  · exact paired_pure trivial
  · exact meaning_paired hreg hscope (Expr.over_identifier.1 he)
  · exact (sequence_paired h (Expr.over_list.1 he) hscope).bind fun _ hvs => paired_newList hvs
  · exact paired_pure trivial
  · obtain ⟨hname, hargs⟩ := List.forall_mem_cons.1 (Expr.over_call.1 he)
    exact callByName_paired h hreg hfuel (Expr.over_identifier.1 hname) hargs hscope
  · obtain ⟨hhead, hargs⟩ := List.forall_mem_cons.1 (Expr.over_call.1 he)
    refine (h.eval K _ scope hhead hscope).bind fun callee hcallee => ?_
    exact (sequence_paired h hargs hscope).bind fun values hvalues =>
      h.apply K callee values hcallee hvalues

/-- The same with as much fuel on both sides. -/
theorem evalStep_paired (hreg : reg.Paired σ reg') (fuel : Nat) {e : Expr}
    (he : e.Over σ.toVocabulary) {scope : FrameRef} (hscope : K scope) :
    (evalStep reg ev fuel e scope).Paired σ K σ.Allows (evalStep reg' ev' fuel e scope) :=
  evalStep_paired_of_outlasts h hreg (.refl fuel) he hscope

/-- One call of a value is paired if the steps inside it are. -/
theorem applyStep_paired (hreg : reg.Paired σ reg') {callee : Value} (hcallee : σ.Allows callee)
    {args : List Value} (hargs : ∀ v ∈ args, σ.Allows v) :
    (applyStep reg ev callee args).Paired σ K σ.Allows (applyStep reg' ev' callee args) := by
  unfold applyStep
  -- closures, library functions, and what cannot be called
  split
  · rename_i name code
    refine paired_code? code (paired_fail trivial) fun c hc => ?_
    exact callClosure_paired h name hc (.inr rfl) hargs
  · rename_i name
    have hname : σ.allowsBuiltin name := hcallee
    exact (hreg.found_of_allows hname).paired fun _ _ _ he => he.call h.apply K args hargs
  · exact paired_fail trivial

omit h in
/-- Evaluators are paired if their registries are and the second one can keep up. -/
theorem withFuel_paired_of_outlasts (hreg : reg.Paired σ reg') {fuel fuel' : Nat}
    (hfuel : σ.Outlasts fuel fuel') : (withFuel reg fuel).Paired σ (withFuel reg' fuel') := by
  -- the fuel of the first side decides, since the second one can keep up
  induction fuel generalizing fuel' with
  | zero =>
    exact ⟨fun _ _ _ _ _ => hfuel.paired_exhausted (by rintro rfl; rfl),
      fun _ _ _ _ _ => hfuel.paired_exhausted (by rintro rfl; rfl)⟩
  | succ fuel ih =>
    obtain ⟨fuel', rfl, hrest⟩ := hfuel.exists_eq_succ
    exact ⟨fun _ _ _ he hscope => evalStep_paired_of_outlasts (ih hrest) hreg hrest he hscope,
      fun _ _ _ hcallee hargs => applyStep_paired (ih hrest) hreg hcallee hargs⟩

omit h in
/-- Evaluators of the same fuel are paired if their registries are. -/
theorem withFuel_paired (hreg : reg.Paired σ reg') (fuel : Nat) :
    (withFuel reg fuel).Paired σ (withFuel reg' fuel) :=
  withFuel_paired_of_outlasts hreg (.refl fuel)

/-- Reading is the same on all machines, so a text runs alike if what is read from it may be met. -/
theorem run_paired_of_parse (hroot : K Scopes.root) {source : String}
    (hover : ∀ es, Expr.parse source = .ok es → ∀ e ∈ es, e.Over σ.toVocabulary) :
    (ev.run source).Paired σ K σ.Allows (ev'.run source) := by
  have hread : (Eval.read source : Eval κ (List Expr)).Paired σ K
      (fun es => Expr.parse source = .ok es) (Eval.read source) := by
    refine (paired_record _ _ _ _).bind fun _ _ => ?_
    split
    · exact paired_fail trivial
    · rename_i es hes
      exact (paired_record _ _ _ _).bind fun _ _ => paired_pure hes
  refine hread.bind fun es hes => (paired_record _ _ _ _).bind fun _ _ => ?_
  exact body_paired h (hover es hes) hroot

/-- A text runs alike if any expression may be met. -/
theorem run_paired (hover : ∀ e : Expr, e.Over σ.toVocabulary) (hroot : K Scopes.root)
    (source : String) : (ev.run source).Paired σ K σ.Allows (ev'.run source) :=
  run_paired_of_parse h hroot fun _ _ e _ => hover e

end Evaluator

/-! ## Sessions -/

/-- What two sessions have in common at the end if what they do is paired, unless the first one is
    lost: the outcome, which the simulation allows, and related machines. -/
theorem Session.perform_paired {α : Type} {s : Session κ} {s' : Session κ'} {x : Eval κ α}
    {y : Eval κ' α} {Q : α → Prop} (h : x.Paired σ K Q y)
    (hm : σ.Related K s.machine s'.machine)
    (hkept : ∀ u, (s.perform x).1 = .error u → ¬ σ.loses u (s.perform x).2.machine.context) :
    (s'.perform y).1 = (s.perform x).1 ∧
      σ.Related K (s.perform x).2.machine (s'.perform y).2.machine ∧
      (∀ a, (s.perform x).1 = .ok a → Q a) ∧
      ∀ u, (s.perform x).1 = .error u → u.Within σ.Allows := by
  have hends := h s.machine s'.machine hm
  unfold Ends at hends
  unfold perform at hkept ⊢
  -- the outcomes of the sessions are those of the evaluations
  cases hx : x s.machine with
  | ok a m₁ =>
    rw [hx] at hends
    obtain ⟨m₂, hy, ha, hm₂⟩ := hends
    rw [hy]
    exact ⟨rfl, hm₂, fun _ h => Except.ok.inj h ▸ ha, fun _ h => nomatch h⟩
  | error u m₁ =>
    rw [hx] at hends hkept
    obtain hlost | ⟨m₂, hy, hu, hm₂⟩ := hends
    · exact absurd hlost (hkept u rfl)
    · rw [hy]
      exact ⟨rfl, hm₂, fun _ h => (nomatch h), fun _ h => Except.error.inj h ▸ hu⟩

/-! ## Machines that differ in their journals -/

/-- The machine without its journal. -/
def Machine.silent (m : Machine κ) : Machine κ := { m with journal := none }

/-- A record is not seen once the journal is left out. -/
@[simp] theorem Machine.silent_record (m : Machine κ) (level : Level)
    (message : Machine κ → String) : (m.record level message).silent = m.silent := by
  obtain ⟨journal, h⟩ := m.exists_record_eq level message
  rw [h]
  rfl

/-- The lists are seen, however. -/
theorem Machine.lists_eq_of_silent {m m' : Machine κ} (h : m'.silent = m.silent) :
    m'.lists = m.lists := congrArg (·.lists) h

/-- The cause once the function is named in which a value of the wrong kind was met. -/
def Unwind.named (function : String) : Unwind → Unwind
  | .failure (.mismatch cause) => .failure (.badArgument function cause)
  | u => u

/-- Naming the function changes nothing but the cause of a failure. -/
theorem Eval.Ends.pinned {α : Type} {x : Eval κ α} {m : Machine κ} {post : α → Machine κ → Prop}
    {exit : Unwind → Machine κ → Prop} {function : String}
    (h : x.Ends m post fun u m' => exit (u.named function) m') :
    (Eval.pinned function x).Ends m post exit := by
  unfold Eval.pinned
  rw [ends_tryCatch]
  refine h.imp (fun _ _ hpost => hpost) fun u m' hexit => ?_
  cases u with
  | signal s => exact hexit
  | failure e => cases e <;> exact hexit

/-- A call ends as the run does that it makes, apart from the journals at the start and at the end,
    and apart from the name of the function in the cause of a failure. -/
theorem Primitive.exists_ends_call {p : Primitive κ} {apply : Applier κ} {args : List Value}
    (hlen : p.arity.contains args.length = true) (m : Machine κ) :
    ∃ m₀ : Machine κ, m₀.silent = m.silent ∧ ∀ {post exit}, (p.run apply args).Ends m₀ post exit →
      (p.call apply args).Ends m (fun v m' => ∃ m₁, post v m₁ ∧ m'.silent = m₁.silent)
        fun u m' => ∃ u₁ m₁, exit u₁ m₁ ∧ u = u₁.named p.name ∧ m'.silent = m₁.silent := by
  refine ⟨m.record .trace fun m => "Call " ++ p.name ++ " with " ++ argumentText m.lists args,
    m.silent_record _ _, fun {post exit} hrun => ?_⟩
  unfold Primitive.call checkArity
  rw [ends_bind, if_pos hlen, ends_pure]
  simp only [Eval.record, ends_bind, ends_modify, ends_tryCatch, ends_throw, ends_pure,
    Machine.silent_record]
  refine Ends.pinned (hrun.imp (fun v m₁ hv => ?_) fun u m₁ hu => ?_)
  · exact ⟨m₁, hv, rfl⟩
  · exact ⟨u, m₁, hu, rfl, rfl⟩

/-- The failure for want of a name that nobody owns in `reg` but somebody owns in `reg'`. -/
def Registry.Gains (reg reg' : Registry κ) (u : Unwind) : Prop :=
  ∃ name, u = .failure (.unbound name) ∧ reg.owner? name = none ∧ reg'.owner? name ≠ none

/-- Nothing on the way out takes or renames a failure for want of a name. -/
theorem Registry.Gains.isFinal {reg reg' : Registry κ} {u : Unwind} (h : reg.Gains reg' u) :
    u.IsFinal := by
  obtain ⟨_, rfl, _⟩ := h
  trivial

/-- Nothing is gained from the same registry. -/
theorem Registry.not_gains_self (reg : Registry κ) (u : Unwind) : ¬ reg.Gains reg u :=
  fun ⟨_, _, hnone, hsome⟩ => hsome hnone

namespace Simulation

variable {reg reg' : Registry κ} {m m' : Machine κ}

/-- The same context and the same frames on both sides; a run is lost if it fails for want of a
    name that is gained. -/
def alike (reg reg' : Registry κ) : Simulation κ κ :=
  ofContext (fun k k' => k' = k) (fun u _ => reg.Gains reg' u) Registry.Gains.isFinal

/-- Such machines are related if only their journals differ. -/
private theorem related_alike_iff : (alike reg reg').Related K m m' ↔ m'.silent = m.silent := by
  simp only [alike, related_ofContext_iff, Machine.silent, Machine.mk.injEq, and_true]

/-- A host function does the same in the same context. -/
private theorem hostFunction_paired_alike (f : HostFunction κ) : f.Paired (alike reg reg') f :=
  f.paired_self (allows_ofContext _ _ _) (fun _ => trivial) Iff.rfl

/-- A registry is paired with one in which no name has lost its meaning. -/
theorem registry_paired_alike {hosts : List (String × HostFunction κ)} {libraries : List Library}
    (hkept : ∀ {name e}, (Registry.ofLibraries hosts libraries).find? name = some e →
      reg'.find? name = some e) :
    (Registry.ofLibraries hosts libraries).Paired (alike (.ofLibraries hosts libraries) reg')
      reg' := by
  generalize hreg : Registry.ofLibraries hosts libraries = reg at hkept
  have hentry : ∀ {name e}, reg.find? name = some e → e.Paired (alike reg reg') e := by
    intro name e he
    rw [← hreg] at he
    obtain ⟨l, _, hl⟩ := List.mem_flatMap.1 (List.mem_of_find?_eq_some he)
    have hopen : (alike reg reg').IsOpen := isOpen_ofContext _ _ Registry.Gains.isFinal
    have hentries := Registry.entriesOf_paired hopen
      (List.forall₂_same.2 fun f (_ : f ∈ hosts) => ⟨rfl, hostFunction_paired_alike f.2⟩) l
    exact (List.forall₂_same.1 hentries e hl).2
  -- a name has the same meaning, has none on either side, or has gained one
  have hfound : ∀ name,
      Registry.Found (alike reg reg') name (reg.find? name) (reg'.find? name) := by
    intro name
    cases he : reg.find? name with
    | some e =>
      rw [hkept he]
      exact .both (hentry he)
    | none =>
      cases he' : reg'.find? name with
      | none => exact .neither
      | some e' =>
        refine .gained fun _ => ⟨name, rfl, ?_, ?_⟩
        · rw [Registry.owner?, he, Option.map_none]
        · rw [Registry.owner?, he', Option.map_some]
          exact Option.some_ne_none _
  exact ⟨fun _ _ => hfound _, fun _ => hfound _, fun _ _ _ => trivial⟩

end Simulation

/-- Two sessions end alike if what they do is paired, unless the first one is lost. -/
theorem Session.perform_of_paired {α : Type} {s s' : Session κ} {reg reg' : Registry κ}
    {x y : Eval κ α} {Q : α → Prop} (h : x.Paired (.alike reg reg') K Q y)
    (hm : s'.machine.silent = s.machine.silent)
    (hkept : ∀ u, (s.perform x).1 = .error u → ¬ reg.Gains reg' u) :
    (s'.perform y).1 = (s.perform x).1 ∧
      (s'.perform y).2.machine.silent = (s.perform x).2.machine.silent := by
  obtain ⟨hsame, hrelated, -⟩ := perform_paired h (Simulation.related_alike_iff.2 hm) hkept
  exact ⟨hsame, Simulation.related_alike_iff.1 hrelated⟩

end Lisplet
