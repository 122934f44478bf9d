import Lisplet.Evaluator
import Lisplet.Proofs.Primitives

/-! # What evaluation can do

An expression evaluated in a frame adds names to that frame only, among the frames there are,
and the loop signals that it lets out are written in it: each is called by its keyword in a
*free* position.  A call of a function adds no names to the frames there are, and lets no
signal out.

Both facts are one property of evaluators, `Evaluator.Lawful`.  Every construct of the language
keeps it, one lemma per construct, and the knot that makes an evaluator out of steps gives it
to evaluators of any fuel.

* `Keyword.freeParts`    the parts of a special form that lie in free positions
* `Expr.Raises`          a keyword that is called in a free position
* `withFuel_lawful`      the induction over nested steps -/

namespace Lisplet

open Eval

/-! ## Free positions -/

/-- The parts of a special form from which a loop signal can get out.  A loop takes the signals
    of its body, and the body of a function runs elsewhere. -/
def Keyword.freeParts : Keyword → List Expr → List Expr
  | .letName, [_, e] => [e]
  | .setName, [_, e] => [e]
  | .inc, [_, e] => [e]
  | .dec, [_, e] => [e]
  | .ifElse, [condition, yes] => [condition, yes]
  | .ifElse, [condition, yes, no] => [condition, yes, no]
  | .unlessTrue, [condition, e] => [condition, e]
  | .block, body => body
  | .whileLoop, condition :: _ => [condition]
  | .doLoop, condition :: _ => [condition]
  | .forLoop, binding :: condition :: step :: _ =>
    match binding.parts? with
    | some [_, initial] => [initial, condition, step]
    | _ => []
  | .throwValue, [e] => [e]
  | _, _ => []

/-- The keyword of the signal `s` is called in a free position of the expression. -/
inductive Expr.Raises (s : Signal) : Expr → Prop where
  /-- The call that raises the signal. -/
  | here : Raises s (.call [.identifier s.keyword])
  /-- A call in a part of a special form. -/
  | form {k : Keyword} {parts : List Expr} {e : Expr} (hmem : e ∈ k.freeParts parts)
      (he : Raises s e) : Raises s (.call (.identifier k.name :: parts))
  /-- A call in the head or in an argument of any other call. -/
  | call {items : List Expr} {e : Expr}
      (hhead : ∀ k : Keyword, items.head? ≠ some (.identifier k.name)) (hmem : e ∈ items)
      (he : Raises s e) : Raises s (.call items)
  /-- A call in an element of a list. -/
  | list {items : List Expr} {e : Expr} (hmem : e ∈ items) (he : Raises s e) :
      Raises s (.list items)

/-- Every keyword is listed. -/
theorem Keyword.mem_all (k : Keyword) : k ∈ all := by
  cases k with
  | signal s => cases s <;> decide
  | _ => decide

/-- A keyword is found by its own name. -/
theorem Keyword.name_of_ofName? {word : String} {k : Keyword} (h : ofName? word = some k) :
    k.name = word := by
  simpa using List.find?_some h

/-- A word that is no keyword is the name of none. -/
private theorem Keyword.ne_name_of_ofName? {word : String} (h : ofName? word = none) (k : Keyword) :
    word ≠ k.name := by
  rintro rfl
  have hk := List.find?_eq_none.1 h k k.mem_all
  exact hk (beq_self_eq_true _)

namespace Evaluator

variable {κ : Type}

/-- Evaluation in a frame names things in that frame only and lets out the signals of its
    expression only; calls are sealed. -/
structure Lawful (ev : Evaluator κ) : Prop where
  eval : ∀ e scope, (ev.eval e scope).Confined (· = scope) (Unwind.Settled fun s => e.Raises s)
  apply : ev.apply.Sealed

variable {ev : Evaluator κ} {P : FrameRef → Prop} {U : Unwind → Prop} {S : Signal → Prop}

/-- An expression may be evaluated wherever its frame may gain names and its signals may get
    out. -/
theorem Lawful.confined (h : ev.Lawful) {e : Expr} {scope : FrameRef} (hP : P scope)
    (hS : ∀ s, e.Raises s → S s) : (ev.eval e scope).Confined P (Unwind.Settled S) :=
  (h.eval e scope).mono (fun _ hf => hf ▸ hP) fun _ hu => hu.imp hS

/-! ## Sequences -/

/-- Expressions evaluated for all their values. -/
private theorem sequence_confined {es : List Expr} {scope : FrameRef}
    (h : ∀ e ∈ es, (ev.eval e scope).Confined P U) : (ev.sequence es scope).Confined P U :=
  .mapM h

/-- Expressions evaluated for the last of their values. -/
theorem body_confined {es : List Expr} {scope : FrameRef}
    (h : ∀ e ∈ es, (ev.eval e scope).Confined P U) : (ev.body es scope).Confined P U :=
  .foldlM (fun _ => h) .null

/-- Expressions evaluated until one of them settles the answer. -/
private theorem shortCircuit_confined {es : List Expr} {scope : FrameRef} (s : ShortCircuit)
    (h : ∀ e ∈ es, (ev.eval e scope).Confined P U) (last : Value) :
    (ev.shortCircuit s scope last es).Confined P U := by
  induction es generalizing last with
  | nil => exact confined_pure last
  | cons e es ih =>
    refine (h e List.mem_cons_self).bind fun v => ?_
    split
    · -- the answer is settled, and the rest is not evaluated
      exact confined_pure v
    · exact ih (fun e' he' => h e' (List.mem_cons_of_mem e he')) v

/-- A condition, of which only the truth is kept. -/
theorem test_confined {condition : Expr} {scope : FrameRef}
    (h : (ev.eval condition scope).Confined P U) : (ev.test condition scope).Confined P U :=
  h.bind fun _ => confined_pure _

/-! ## Closures -/

/-- A signal that is turned into a failure does not get out. -/
private theorem contained_confined {x : Eval κ Value} (h : x.Confined P (Unwind.Settled S)) :
    (contained x).Confined P (Unwind.Settled fun _ => False) := by
  refine h.tryCatch fun u hu => ?_
  cases u with
  | signal s => exact confined_fail trivial
  | failure e => exact confined_throw hu

/-- Parameters are bound in the frame of the call. -/
private theorem bindAll_confined {scope : FrameRef} (hP : P scope) (names : List String)
    (args : List Value) : (bindAll scope names args : Eval κ Unit).Confined P U :=
  .forM fun b _ => confined_define hP b.1 b.2

/-- The body of a closure runs in a frame of its own, and its signals stay inside. -/
theorem callClosure_sealed (h : ev.Lawful) (name : Option String) (c : Closure)
    (args : List Value) : (ev.callClosure name c args).Sealed := by
  refine (confined_record _ _).bind fun _ => (confined_checkArity _ _ _).bind fun _ => ?_
  refine confined_spawn _ fun inner => ?_
  refine (confined_record _ _).bind fun _ => (bindAll_confined (.inr rfl) _ _).bind fun _ => ?_
  -- the body may let out any signal; it is turned into a failure before the call returns
  have hbody : (ev.body c.body inner).Confined (fun g => False ∨ g = inner)
      (Unwind.Settled fun _ => True) :=
    body_confined fun e _ => h.confined (.inr rfl) fun _ _ => trivial
  have hcall := (contained_confined hbody).imp_exit fun _ hu => hu.unpinned
  exact hcall.pinned.bind fun v => (confined_record _ _).bind fun _ => confined_pure v

/-! ## Loops -/

/-- A pass runs in a frame of its own, and the loop takes its signals. -/
theorem pass_confined (h : ev.Lawful) (body : List Expr) (scope : FrameRef) :
    (ev.pass body scope).Confined P (Unwind.Settled S) := by
  refine confined_spawn scope fun inner => ?_
  -- nothing is asked of the signals of the body: both are caught, and only failures pass
  have hbody : (ev.body body inner).Confined (fun g => P g ∨ g = inner)
      (Unwind.Settled fun _ => True) :=
    body_confined fun e _ => h.confined (.inr rfl) fun _ _ => trivial
  refine (hbody.map some).tryCatch fun u hu => ?_
  match u, hu with
  | .signal .breaking, _ => exact confined_pure _
  | .signal .continuing, _ => exact confined_pure _
  | .failure e, he => exact confined_throw he

section Loops

variable (h : ev.Lawful) {condition : Expr} {scope : FrameRef}
  (hcondition : (ev.eval condition scope).Confined P (Unwind.Settled S))
include h hcondition

/-- A loop that tests before each pass. -/
private theorem whileLoop_confined (body : List Expr) (last : Value) (fuel : Nat) :
    (ev.whileLoop condition body scope last fuel).Confined P (Unwind.Settled S) := by
  induction fuel generalizing last with
  -- to run out of fuel is a failure like any other
  | zero => exact confined_fail trivial
  | succ fuel ih =>
    refine (test_confined hcondition).bind fun again => ?_
    split
    · refine (pass_confined h body scope).bind fun result => ?_
      -- a pass that was broken off ends the loop
      cases result with
      | some v => exact ih v
      | none => exact confined_pure _
    · exact confined_pure _

/-- A loop that tests after each pass. -/
private theorem doLoop_confined (body : List Expr) (fuel : Nat) :
    (ev.doLoop condition body scope fuel).Confined P (Unwind.Settled S) := by
  induction fuel with
  | zero => exact confined_fail trivial
  | succ fuel ih =>
    refine (pass_confined h body scope).bind fun result => ?_
    cases result with
    | none => exact confined_pure _
    | some v =>
      -- the test comes only after a pass that was not broken off
      refine (test_confined hcondition).bind fun again => ?_
      split
      · exact ih
      · exact confined_pure _

/-- A loop with a variable, which is set anew after each pass. -/
private theorem forLoop_confined {step : Expr}
    (hstep : (ev.eval step scope).Confined P (Unwind.Settled S)) (name : String)
    (body : List Expr) (last : Value) (fuel : Nat) :
    (ev.forLoop name condition step body scope last fuel).Confined P (Unwind.Settled S) := by
  induction fuel generalizing last with
  | zero => exact confined_fail trivial
  | succ fuel ih =>
    refine (test_confined hcondition).bind fun again => ?_
    split
    · refine (pass_confined h body scope).bind fun result => ?_
      cases result with
      | none => exact confined_pure _
      | some v =>
        refine hstep.bind fun next => ?_
        -- the variable has its name already, so setting it adds none
        exact (confined_assign scope next trivial).bind fun _ => ih v
    · exact confined_pure _

end Loops

end Evaluator

/-! ## Special forms -/

namespace Form

variable {κ : Type} {ev : Evaluator κ} {P : FrameRef → Prop} {S : Signal → Prop}

/-- A name is read off the expression. -/
private theorem nameOf_confined (k : Keyword) (e : Expr) :
    (nameOf k e : Eval κ String).Confined P (Unwind.Settled S) := by
  cases e with
  | identifier name => exact confined_pure name
  | _ => exact confined_fail trivial

/-- A number is read off a value. -/
private theorem numberIn_confined (k : Keyword) (v : Value) :
    (numberIn k v : Eval κ Float).Confined P (Unwind.Settled S) :=
  (confined_expect _).pinned

/-- Parameters are read off the expression. -/
private theorem parameters_confined (k : Keyword) (e : Expr) :
    (parameters k e : Eval κ Parameters).Confined P (Unwind.Settled S) := by
  unfold parameters
  split
  · -- a single name takes all the arguments
    exact confined_pure _
  · split
    · exact (Confined.mapM fun e _ => nameOf_confined k e).bind fun _ => confined_pure _
    · exact confined_fail trivial

/-- A loop variable is read off the expression. -/
private theorem loopVariable_confined (e : Expr) :
    (loopVariable e : Eval κ (String × Expr)).Confined P (Unwind.Settled S) := by
  unfold loopVariable
  split
  · exact (nameOf_confined _ _).bind fun _ => confined_pure _
  · exact confined_fail trivial

/-- The expression for the first value of a loop variable is a free part of its loop. -/
private theorem ends_loopVariable (e : Expr) (m : Machine κ) :
    (loopVariable e : Eval κ (String × Expr)).Ends m
      (fun b _ => ∃ target, e.parts? = some [target, b.2]) fun _ _ => True := by
  unfold loopVariable
  split
  · rename_i target initial hparts
    rw [ends_bind]
    cases target with
    | identifier name => exact ⟨_, hparts⟩
    | _ => trivial
  · -- anything else is a failure, of which nothing is said
    trivial

section Parts

variable {scope : FrameRef} {e : Expr} (he : (ev.eval e scope).Confined P (Unwind.Settled S))
include he

/-- A definition adds a name to the frame it stands in. -/
private theorem letName_confined (hP : P scope) (target : Expr) :
    (letName ev scope target e).Confined P (Unwind.Settled S) := by
  refine (nameOf_confined _ target).bind fun name => he.bind fun v => ?_
  refine (confined_record _ _).bind fun _ => ?_
  exact (confined_define hP name v).bind fun _ => confined_pure v

/-- An assignment adds no name. -/
private theorem setName_confined (target : Expr) :
    (setName ev scope target e).Confined P (Unwind.Settled S) := by
  refine (nameOf_confined _ target).bind fun name => he.bind fun v => ?_
  exact (confined_record _ _).bind fun _ => confined_assign scope v trivial

/-- A thrown value is a failure, not a signal. -/
private theorem throwValue_confined : (throwValue ev scope e).Confined P (Unwind.Settled S) :=
  he.bind fun _ => (confined_record _ _).bind fun _ => confined_fail trivial

end Parts

/-- A variable is changed by an amount, one if none is written. -/
private theorem step_confined {scope : FrameRef} {amount : Option Expr}
    (hamount : ∀ e, amount = some e → (ev.eval e scope).Confined P (Unwind.Settled S)) (k : Keyword)
    (change : Float → Float → Float) (target : Expr) :
    (step k change ev scope target amount).Confined P (Unwind.Settled S) := by
  refine (nameOf_confined k target).bind fun name => ?_
  refine (confined_lookup scope trivial).bind fun v => ?_
  refine (numberIn_confined k v).bind fun current => ?_
  cases amount with
  | none => exact (confined_pure _).bind fun delta => confined_assign scope _ trivial
  | some e =>
    refine (hamount e rfl).bind fun v => (numberIn_confined k v).bind fun delta => ?_
    exact confined_assign scope _ trivial

/-- A conditional does what its branch does. -/
private theorem ifElse_confined {scope : FrameRef} {condition yes : Expr} {no : Option Expr}
    (hcondition : (ev.eval condition scope).Confined P (Unwind.Settled S))
    (hyes : (ev.eval yes scope).Confined P (Unwind.Settled S))
    (hno : ∀ e, no = some e → (ev.eval e scope).Confined P (Unwind.Settled S)) :
    (ifElse ev scope condition yes no).Confined P (Unwind.Settled S) := by
  refine (Evaluator.test_confined hcondition).bind fun holds => ?_
  split
  · exact hyes
  · cases no with
    | none => exact confined_pure _
    | some e => exact hno e rfl

/-- So does one with a single branch. -/
private theorem unlessTrue_confined {scope : FrameRef} {condition e : Expr}
    (hcondition : (ev.eval condition scope).Confined P (Unwind.Settled S))
    (he : (ev.eval e scope).Confined P (Unwind.Settled S)) :
    (unlessTrue ev scope condition e).Confined P (Unwind.Settled S) := by
  refine (Evaluator.test_confined hcondition).bind fun holds => ?_
  split
  · exact confined_pure _
  · exact he

/-- A block names things in a frame of its own, but its signals get out. -/
private theorem block_confined {body : List Expr}
    (hbody : ∀ e ∈ body, ∀ inner, (ev.eval e inner).Confined (fun g => P g ∨ g = inner)
      (Unwind.Settled S)) (scope : FrameRef) :
    (block ev scope body).Confined P (Unwind.Settled S) :=
  confined_spawn scope fun inner => Evaluator.body_confined fun e he => hbody e he inner

/-- A definition of a function adds its name to the frame it stands in. -/
private theorem function_confined {scope : FrameRef} (hP : P scope) (target ps : Expr)
    (body : List Expr) :
    (function scope target ps body : Eval κ Value).Confined P (Unwind.Settled S) := by
  refine (nameOf_confined _ target).bind fun name => (parameters_confined _ ps).bind fun ps => ?_
  refine (confined_record _ _).bind fun _ => (confined_newClosure _ _).bind fun v => ?_
  exact (confined_define hP name v).bind fun _ => confined_pure v

/-- A function without a name adds none. -/
private theorem lambda_confined (scope : FrameRef) (ps : Expr) (body : List Expr) :
    (lambda scope ps body : Eval κ Value).Confined P (Unwind.Settled S) :=
  (parameters_confined _ ps).bind fun _ => confined_newClosure _ _

/-- The loop variable lives in a frame of the loop, in which the condition and the step are
    evaluated too. -/
private theorem forLoop_confined (h : ev.Lawful) {scope : FrameRef} (hP : P scope)
    {binding condition step : Expr} {body : List Expr}
    (hS : ∀ s, ∀ e ∈ Keyword.freeParts .forLoop (binding :: condition :: step :: body),
      e.Raises s → S s) (fuel : Nat) :
    (forLoop ev fuel scope binding condition step body).Confined P (Unwind.Settled S) := by
  refine (loopVariable_confined binding).bind_of (ends_loopVariable binding) ?_
  rintro ⟨name, initial⟩ ⟨target, hparts⟩
  -- the free parts are the first value, the condition and the step, but not the body
  simp only [Keyword.freeParts, hparts, List.mem_cons, List.not_mem_nil, or_false,
    forall_eq_or_imp, forall_eq] at hS
  refine confined_spawn scope fun inner => ?_
  -- the first value is still evaluated outside, where the form itself stands
  refine (h.confined (.inl hP) fun s hs => (hS s).1 hs).bind fun v => ?_
  refine (confined_define (.inr rfl) name v).bind fun _ => ?_
  have hcondition : (ev.eval condition inner).Confined (fun g => P g ∨ g = inner)
      (Unwind.Settled S) := h.confined (.inr rfl) fun s hs => (hS s).2.1 hs
  have hstep : (ev.eval step inner).Confined (fun g => P g ∨ g = inner) (Unwind.Settled S) :=
    h.confined (.inr rfl) fun s hs => (hS s).2.2 hs
  exact Evaluator.forLoop_confined h hcondition hstep name body .null fuel

/-- A special form with as many parts as it should have lets out the signals of its free parts
    and, if it is one, the signal that it raises. -/
theorem run_confined (h : ev.Lawful) {scope : FrameRef} (hP : P scope) {k : Keyword}
    {parts : List Expr} (hlen : k.arity.contains parts.length = true)
    (hS : ∀ s, ∀ e ∈ k.freeParts parts, e.Raises s → S s)
    (hself : ∀ s, k = .signal s → S s) (fuel : Nat) :
    (run ev fuel scope k parts).Confined P (Unwind.Settled S) := by
  have heval : ∀ e ∈ k.freeParts parts, (ev.eval e scope).Confined P (Unwind.Settled S) :=
    fun e he => h.confined hP fun s => hS s e he
  -- the arity leaves only the shapes that the form is defined for
  cases k with
  | letName =>
    match parts, Arity.eq_of_exactly hlen with
    | [target, e], _ => exact letName_confined (heval e List.mem_cons_self) hP target
  | setName =>
    match parts, Arity.eq_of_exactly hlen with
    | [target, e], _ => exact setName_confined (heval e List.mem_cons_self) target
  | inc =>
    obtain ⟨target, rfl⟩ | ⟨target, e, rfl⟩ := Arity.one_or_two hlen
    · show (step .inc (· + ·) ev scope target none).Confined P (Unwind.Settled S)
      refine step_confined (fun _ he => ?_) _ _ target
      cases he
    · show (step .inc (· + ·) ev scope target (some e)).Confined P (Unwind.Settled S)
      exact step_confined (fun _ he => Option.some.inj he ▸ heval e List.mem_cons_self) _ _ target
  | dec =>
    obtain ⟨target, rfl⟩ | ⟨target, e, rfl⟩ := Arity.one_or_two hlen
    · show (step .dec (· - ·) ev scope target none).Confined P (Unwind.Settled S)
      refine step_confined (fun _ he => ?_) _ _ target
      cases he
    · show (step .dec (· - ·) ev scope target (some e)).Confined P (Unwind.Settled S)
      exact step_confined (fun _ he => Option.some.inj he ▸ heval e List.mem_cons_self) _ _ target
  | ifElse =>
    obtain ⟨condition, yes, rfl⟩ | ⟨condition, yes, no, rfl⟩ := Arity.two_or_three hlen
    · show (ifElse ev scope condition yes none).Confined P (Unwind.Settled S)
      exact ifElse_confined (heval condition (by simp [Keyword.freeParts]))
        (heval yes (by simp [Keyword.freeParts])) fun _ he => nomatch he
    · show (ifElse ev scope condition yes (some no)).Confined P (Unwind.Settled S)
      exact ifElse_confined (heval condition (by simp [Keyword.freeParts]))
        (heval yes (by simp [Keyword.freeParts]))
        fun _ he => Option.some.inj he ▸ heval no (by simp [Keyword.freeParts])
  | unlessTrue =>
    match parts, Arity.eq_of_exactly hlen with
    | [condition, e], _ =>
      exact unlessTrue_confined (heval condition (by simp [Keyword.freeParts]))
        (heval e (by simp [Keyword.freeParts]))
  | block =>
    -- the parts of a block are evaluated in its own frame, so `heval` does not apply
    exact block_confined (fun e he inner => h.confined (.inr rfl) fun s => hS s e he) scope
  | function =>
    match parts, Arity.le_of_atLeast hlen with
    | target :: ps :: body, _ => exact function_confined hP target ps body
  | lambda =>
    match parts, Arity.le_of_atLeast hlen with
    | ps :: body, _ => exact lambda_confined scope ps body
  | whileLoop =>
    match parts, Arity.le_of_atLeast hlen with
    | condition :: body, _ =>
      exact Evaluator.whileLoop_confined h (heval condition List.mem_cons_self) body .null fuel
  | doLoop =>
    match parts, Arity.le_of_atLeast hlen with
    | condition :: body, _ =>
      exact Evaluator.doLoop_confined h (heval condition List.mem_cons_self) body fuel
  | forLoop =>
    match parts, Arity.le_of_atLeast hlen with
    | binding :: condition :: step :: body, _ => exact forLoop_confined h hP hS fuel
  | signal s =>
    match parts, Arity.eq_of_exactly hlen with
    | [], _ => exact confined_throw (hself s rfl)
  | throwValue =>
    match parts, Arity.eq_of_exactly hlen with
    | [e], _ => exact throwValue_confined (heval e List.mem_cons_self)

/-- A special form is confined like any other expression. -/
private theorem call_confined (h : ev.Lawful) (fuel : Nat) (scope : FrameRef) (k : Keyword)
    (parts : List Expr) :
    (call ev fuel scope k parts).Confined (· = scope)
      (Unwind.Settled fun s => (Expr.call (.identifier k.name :: parts)).Raises s) := by
  refine (confined_checkArity _ _ _).bind_of (ends_checkArity _ _ _) fun _ hlen => ?_
  refine run_confined (P := (· = scope)) h rfl hlen (fun s e he hs => .form he hs) (fun s hk => ?_)
    fuel
  -- a signal takes no parts, so the call is the bare one that raises it
  subst hk
  rw [List.length_eq_zero_iff.1 (Arity.eq_of_exactly hlen)]
  exact .here

end Form

/-! ## Steps of evaluation -/

namespace Evaluator

variable {κ : Type} {ev : Evaluator κ} {reg : Registry κ} {P : FrameRef → Prop}
  {S : Signal → Prop}

/-- What a name means is looked up, in the frames and then among the libraries. -/
private theorem meaning_confined (reg : Registry κ) (scope : FrameRef) (name : String) :
    (meaning reg scope name).Confined P (Unwind.Settled S) := by
  refine (confined_get? scope name).bind fun bound => ?_
  cases bound with
  | some v => exact confined_pure v
  | none =>
    dsimp only
    split
    · -- no frame has the name, but a library has
      exact confined_pure _
    · exact confined_fail trivial

/-- A function of a library, called by its own name. -/
private theorem callDirectly_confined (hreg : reg.Lawful) (h : ev.Lawful) {name : String}
    {entry : Entry κ} (hfind : reg.find? name = some entry) {args : List Expr} {scope : FrameRef}
    (hargs : ∀ e ∈ args, (ev.eval e scope).Confined P (Unwind.Settled S)) :
    (ev.callDirectly entry args scope).Confined P (Unwind.Settled S) := by
  refine (confined_record _ _).bind fun _ => ?_
  split
  · -- only the connectives leave arguments unevaluated
    exact shortCircuit_confined _ hargs _
  · exact (sequence_confined hargs).bind fun values =>
      (hreg.find?_call hfind h.apply values).confined

/-- A call by name is that of a special form, of what the name is bound to or of a function of a
    library, in this order. -/
private theorem callByName_confined (hreg : reg.Lawful) (h : ev.Lawful) (fuel : Nat) (name : String)
    (args : List Expr) (scope : FrameRef) :
    (callByName reg ev fuel name args scope).Confined (· = scope)
      (Unwind.Settled fun s => (Expr.call (.identifier name :: args)).Raises s) := by
  refine (confined_record _ _).bind fun _ => ?_
  split
  · -- a keyword, which no binding can shadow
    rename_i k hk
    rw [← Keyword.name_of_ofName? hk]
    exact Form.call_confined h fuel scope k args
  · rename_i hnone
    -- no keyword: the signals of the arguments are those of the call
    have hhead : ∀ k : Keyword,
        (Expr.identifier name :: args).head? ≠ some (.identifier k.name) := fun k hk =>
      Keyword.ne_name_of_ofName? hnone k (by simpa using hk)
    have hargs : ∀ e ∈ args, (ev.eval e scope).Confined (· = scope)
        (Unwind.Settled fun s => (Expr.call (.identifier name :: args)).Raises s) := fun e he =>
      h.confined rfl fun s hs => .call hhead (List.mem_cons_of_mem _ he) hs
    refine (confined_get? scope name).bind fun bound => ?_
    cases bound with
    -- a binding, which shadows the libraries
    | some callee =>
      exact (sequence_confined hargs).bind fun values => (h.apply callee values).confined
    | none =>
      dsimp only
      split
      · rename_i entry hfind
        exact callDirectly_confined hreg h hfind hargs
      · exact confined_fail trivial

/-- A step of evaluation is as confined as the evaluation of the parts. -/
private theorem evalStep_confined (hreg : reg.Lawful) (h : ev.Lawful) (fuel : Nat) (e : Expr)
    (scope : FrameRef) :
    (evalStep reg ev fuel e scope).Confined (· = scope) (Unwind.Settled fun s => e.Raises s) := by
  unfold evalStep
  split
  · exact confined_pure _
  · exact confined_pure _
  · exact confined_pure _
  · exact confined_pure _
  · -- the literals are done; a name
    exact meaning_confined reg scope _
  · rename_i items
    -- a list is made of the values of its elements
    refine (sequence_confined fun e he => ?_).bind fun _ => confined_newList _
    exact h.confined rfl fun s hs => .list he hs
  · exact confined_pure _
  · exact callByName_confined hreg h fuel _ _ scope
  · rename_i head args hhead
    -- the head is not a name, so it is not a keyword either
    have hitems : ∀ e ∈ head :: args, (ev.eval e scope).Confined (· = scope)
        (Unwind.Settled fun s => (Expr.call (head :: args)).Raises s) := fun e he =>
      h.confined rfl fun s hs => .call (fun k hk => hhead _ (by simpa using hk)) he hs
    obtain ⟨hcallee, hargs⟩ := List.forall_mem_cons.1 hitems
    refine hcallee.bind fun callee => (sequence_confined hargs).bind fun values => ?_
    exact (h.apply callee values).confined

/-- A call made in a step is sealed. -/
private theorem applyStep_sealed (hreg : reg.Lawful) (h : ev.Lawful) (callee : Value)
    (args : List Value) : (applyStep reg ev callee args).Sealed := by
  unfold applyStep
  split
  · -- a closure, whose body runs in a frame of its own
    rename_i name code
    refine (confined_code? code).bind fun c => ?_
    cases c with
    | some c => exact callClosure_sealed h name c args
    | none => exact confined_fail trivial
  · split
    · -- a function of a library, which is lawful by assumption
      rename_i entry hfind
      exact hreg.find?_call hfind h.apply args
    · exact confined_fail trivial
  · exact confined_fail trivial

/-- Evaluation with any amount of fuel is lawful. -/
theorem withFuel_lawful (hreg : reg.Lawful) (fuel : Nat) : (withFuel reg fuel).Lawful := by
  induction fuel with
  | zero => exact ⟨fun _ _ => confined_fail trivial, fun _ _ => confined_fail trivial⟩
  | succ fuel ih =>
    -- the parts, the bodies of closures and the callbacks all run with the fuel that is left
    exact ⟨fun e scope => evalStep_confined hreg ih fuel e scope,
      fun callee args => applyStep_sealed hreg ih callee args⟩

/-! ## What follows for running programs

The libraries of a session are the stock libraries, some or all of them, in any order, and any
functions of the host. -/

section Stock

variable (hostFunctions : List (String × HostFunction κ)) (libraries : List Library) (fuel : Nat)
  (m : Machine κ)

/-- Loop signals are lexically contained: no call lets one out, and an expression lets out only
    those that it calls for in a free position. -/
theorem signals_lexically_contained (s : Signal) :
    (∀ callee args m',
      (withFuel (.ofLibraries hostFunctions libraries) fuel).apply callee args m ≠
        .error (.signal s) m') ∧
    ∀ e scope m',
      (withFuel (.ofLibraries hostFunctions libraries) fuel).eval e scope m =
        .error (.signal s) m' → e.Raises s := by
  have h := withFuel_lawful (Registry.ofLibraries_lawful hostFunctions libraries) fuel
  constructor
  · intro callee args m' happly
    exact (h.apply callee args).exit happly
  · intro e scope m' heval
    exact (h.eval e scope).exit heval

/-- A signal does get out of a block and of the branch of a conditional. -/
theorem signals_lexically_contained_block :
    ∃ m', (withFuel (.ofLibraries [] Library.all) 4 : Evaluator Unit).eval
        (.call [.identifier "begin",
          .call [.identifier "if", .bool true, .call [.identifier "break"]]]) Scopes.root
        { context := () } = .error (.signal .breaking) m' ∧
      (Expr.call [.identifier "begin",
          .call [.identifier "if", .bool true, .call [.identifier "break"]]]).Raises .breaking := by
  refine ⟨_, rfl, ?_⟩
  exact (signals_lexically_contained [] Library.all 4 { context := () } .breaking).2 _ Scopes.root
    _ rfl

/-- Evaluation in a frame leaves every frame its place and its names and, among the frames there
    were, adds names to that frame only; a call adds names to none of them. -/
theorem scopes_grow_hygienically :
    (∀ e scope, m.scopes.Grows (· = scope)
      (((withFuel (.ofLibraries hostFunctions libraries) fuel).eval e scope).after m).scopes) ∧
    ∀ callee args, m.scopes.Grows (fun _ => False)
      (((withFuel (.ofLibraries hostFunctions libraries) fuel).apply callee args).after m).scopes := by
  have h := withFuel_lawful (Registry.ofLibraries_lawful hostFunctions libraries) fuel
  exact ⟨fun e scope => (h.eval e scope).grows m, fun callee args => (h.apply callee args).grows m⟩

end Stock

end Evaluator
end Lisplet
