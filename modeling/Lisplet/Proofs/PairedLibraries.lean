import Lisplet.Proofs.Confinement
import Lisplet.Proofs.Pairing
import Lisplet.Registry
import Mathlib.Data.List.Forall2

/-! # Libraries side by side

Every primitive does the same on both sides of a simulation, as long as the functions that it
calls do and the simulation lets primitives change lists (`Simulation.IsOpen`).

* `Primitive.Paired`        what has to be shown of each primitive
* `Primitive.Paired.call`   what follows for calls
* `Library.primitives_paired`  the primitives of each library
* `HostFunction.Paired`     what is asked of a host function -/

namespace Lisplet

open Eval

variable {κ κ' : Type} {σ : Simulation κ κ'} {K : FrameRef → Prop}

/-- Calls do the same on both sides. -/
def Applier.Paired (σ : Simulation κ κ') (apply : Applier κ) (apply' : Applier κ') : Prop :=
  ∀ K f args, σ.Allows f → (∀ v ∈ args, σ.Allows v) →
    (apply f args).Paired σ K σ.Allows (apply' f args)

namespace Eval

/-! ## Lists -/

/-- A list has the same elements on both sides, and all of them may be met. -/
private theorem paired_cell (hσ : σ.IsOpen) (r : ListRef) :
    (cell r : Eval κ (Array Value)).Paired σ K (fun xs => ∀ v ∈ xs, σ.Allows v) (cell r) := by
  refine paired_get_bind fun m m' hm => ?_
  rw [hm.lists_eq]
  exact paired_pure fun v hv => hσ.allows_of_mem hm.lists hv

private theorem paired_items (hσ : σ.IsOpen) (r : ListRef) :
    (items r : Eval κ (List Value)).Paired σ K (fun xs => ∀ v ∈ xs, σ.Allows v) (items r) := by
  refine paired_get_bind fun m m' hm => ?_
  rw [hm.lists_eq]
  exact paired_pure fun v hv => hσ.allows_of_mem hm.lists (Array.mem_toList_iff.1 hv)

/-- A list is changed in the same way on both sides, if no element comes in that may not be met. -/
private theorem paired_modifyList (hσ : σ.IsOpen) (r : ListRef) {f : Array Value → Array Value}
    (hf : ∀ xs, (∀ v ∈ xs, σ.Allows v) → ∀ v ∈ f xs, σ.Allows v) :
    (modifyList r f : Eval κ Unit).Paired σ K (fun _ => True) (modifyList r f) := by
  refine paired_modify fun m m' hm => ?_
  rw [hm.lists_eq]
  exact hm.withLists (hσ.modify hm.lists (hf _ fun v hv => hσ.allows_of_mem hm.lists hv))

end Eval

namespace Primitive

/-- The primitives of the two sides go by the same name and do the same. -/
structure Paired (σ : Simulation κ κ') (p : Primitive κ) (p' : Primitive κ') : Prop where
  name_eq : p'.name = p.name
  arity_eq : p'.arity = p.arity
  shortCircuit_eq : p'.shortCircuit = p.shortCircuit
  run : ∀ {apply : Applier κ} {apply' : Applier κ'}, apply.Paired σ apply' → ∀ K args,
    (∀ v ∈ args, σ.Allows v) → p.arity.contains args.length = true →
      (p.run apply args).Paired σ K σ.Allows (p'.run apply' args)

/-- A call checks the arity, runs the primitive and records how it went, on both sides alike. -/
theorem Paired.call {p : Primitive κ} {p' : Primitive κ'} (h : p.Paired σ p')
    {apply : Applier κ} {apply' : Applier κ'} (ha : apply.Paired σ apply') {args : List Value}
    (hargs : ∀ v ∈ args, σ.Allows v) :
    (p.call apply args).Paired σ K σ.Allows (p'.call apply' args) := by
  unfold Primitive.call
  rw [h.name_eq, h.arity_eq]
  refine (paired_checkArity _ _ _).bind fun _ hlen => (paired_record _ _ _ _).bind fun _ _ => ?_
  -- the records differ, but no record is looked at again
  refine Paired.bind (P := σ.Allows) ?_ fun v hv =>
    (paired_record _ _ _ _).bind fun _ _ => paired_pure hv
  refine ((h.run ha K args hargs hlen).pinned p.name).tryCatch (fun u hu => ?_) fun u m _ => ?_
  · exact (paired_record _ _ _ _).bind fun _ _ => paired_throw hu
  · -- the failure is recorded and passed on
    exact ⟨rfl, m.context_record _ _⟩

/-! ## Shapes of primitives -/

section Shapes

variable {p : Primitive κ} {p' : Primitive κ'} {name : String}

/-- For a primitive of two arguments it is enough to look at calls with two. -/
theorem Paired.of_two (hname : p'.name = p.name) (harity : p'.arity = p.arity)
    (hcircuit : p'.shortCircuit = p.shortCircuit) (hp : p.arity = .exactly 2)
    (h : ∀ {apply : Applier κ} {apply' : Applier κ'}, apply.Paired σ apply' → ∀ K a b,
      σ.Allows a → σ.Allows b →
        (p.run apply [a, b]).Paired σ K σ.Allows (p'.run apply' [a, b])) : p.Paired σ p' := by
  refine ⟨hname, harity, hcircuit, fun ha K args hargs hlen => ?_⟩
  rw [hp] at hlen
  match args, Arity.eq_of_exactly hlen, hargs with
  | [a, b], _, hargs => exact h ha K a b (hargs a (by simp)) (hargs b (by simp))

/-- For a primitive of three arguments it is enough to look at calls with three. -/
theorem Paired.of_three (hname : p'.name = p.name) (harity : p'.arity = p.arity)
    (hcircuit : p'.shortCircuit = p.shortCircuit) (hp : p.arity = .exactly 3)
    (h : ∀ {apply : Applier κ} {apply' : Applier κ'}, apply.Paired σ apply' → ∀ K a b c,
      σ.Allows a → σ.Allows b → σ.Allows c →
        (p.run apply [a, b, c]).Paired σ K σ.Allows (p'.run apply' [a, b, c])) :
    p.Paired σ p' := by
  refine ⟨hname, harity, hcircuit, fun ha K args hargs hlen => ?_⟩
  rw [hp] at hlen
  match args, Arity.eq_of_exactly hlen, hargs with
  | [a, b, c], _, hargs =>
    exact h ha K a b c (hargs a (by simp)) (hargs b (by simp)) (hargs c (by simp))

/-- A function of any number of arguments does the same if its body does. -/
private theorem variadic_paired {least : Nat} {f : List Value → Eval κ Value}
    {f' : List Value → Eval κ' Value}
    (h : ∀ K values, (∀ v ∈ values, σ.Allows v) → (f values).Paired σ K σ.Allows (f' values)) :
    (variadic name least f).Paired σ (variadic name least f') :=
  ⟨rfl, rfl, rfl, fun _ K values hvalues _ => h K values hvalues⟩

/-- A function of one argument does the same if its body does. -/
private theorem unary_paired {f : Value → Eval κ Value} {f' : Value → Eval κ' Value}
    (h : ∀ K v, σ.Allows v → (f v).Paired σ K σ.Allows (f' v)) :
    (unary name f).Paired σ (unary name f') := by
  refine ⟨rfl, rfl, rfl, fun _ K args hargs hlen => ?_⟩
  match args, Arity.eq_of_exactly hlen, hargs with
  | [a], _, hargs => exact h K a (hargs a List.mem_cons_self)

/-- A function of two arguments does the same if its body does. -/
private theorem binary_paired {f : Value → Value → Eval κ Value}
    {f' : Value → Value → Eval κ' Value}
    (h : ∀ K a b, σ.Allows a → σ.Allows b → (f a b).Paired σ K σ.Allows (f' a b)) :
    (binary name f).Paired σ (binary name f') :=
  .of_two rfl rfl rfl rfl fun _ => h

/-- A function with one optional argument does the same if its body does in both cases. -/
private theorem unaryOptional_paired {f : Value → Option Value → Eval κ Value}
    {f' : Value → Option Value → Eval κ' Value}
    (h : ∀ K a b, (f a b).Paired σ K σ.Allows (f' a b)) :
    (unaryOptional name f).Paired σ (unaryOptional name f') := by
  refine ⟨rfl, rfl, rfl, fun _ K args _ hlen => ?_⟩
  obtain ⟨a, rfl⟩ | ⟨a, b, rfl⟩ := Arity.one_or_two hlen
  · exact h K a none
  · exact h K a (some b)

/-- A function with an optional third argument does the same if its body does in both cases. -/
private theorem binaryOptional_paired {f : Value → Value → Option Value → Eval κ Value}
    {f' : Value → Value → Option Value → Eval κ' Value}
    (h : ∀ K a b c, (f a b c).Paired σ K σ.Allows (f' a b c)) :
    (binaryOptional name f).Paired σ (binaryOptional name f') := by
  refine ⟨rfl, rfl, rfl, fun _ K args _ hlen => ?_⟩
  obtain ⟨a, b, rfl⟩ | ⟨a, b, c, rfl⟩ := Arity.two_or_three hlen
  · exact h K a b none
  · exact h K a b (some c)

/-- A question that needs nothing of the machine. -/
private theorem question_paired {f : Value → Value} (h : ∀ v, σ.Allows (f v)) :
    (unary name fun v => return f v : Primitive κ).Paired σ (unary name fun v => return f v) :=
  unary_paired fun _ v _ => paired_pure (h v)

end Shapes

/-! ## The core library -/

/-- The outcome of a short circuit is one of the values or a truth value. -/
private theorem allows_outcome (s : ShortCircuit) {values : List Value}
    (h : ∀ v ∈ values, σ.Allows v) : σ.Allows (s.outcome values) := by
  unfold ShortCircuit.outcome
  -- the value that settles it, else the last one, else a constant
  cases hfound : values.find? s.settles with
  | some v => exact h v (List.mem_of_find?_eq_some hfound)
  | none =>
    cases hlast : values.getLast? with
    | some v => exact h v (List.mem_of_getLast? hlast)
    | none => cases s <;> trivial

/-- A short circuit, called as a function, has the same outcome. -/
private theorem circuit_paired (name : String) (s : ShortCircuit) :
    (circuit name s : Primitive κ).Paired σ (circuit name s) :=
  ⟨rfl, rfl, rfl, fun _ _ _ hargs _ => paired_pure (allows_outcome s hargs)⟩

/-- The same line is printed, since the lists in it are the same. -/
private theorem print_paired (values : List Value) :
    (print values : Eval κ Value).Paired σ K σ.Allows (print values) := by
  refine paired_get_bind fun m m' hm => ?_
  rw [hm.lists_eq]
  exact (paired_print _).bind fun _ _ => paired_pure trivial

/-- Arguments are equal on both sides or on neither. -/
private theorem allEqual_paired (values : List Value) :
    (allEqual values : Eval κ Value).Paired σ K σ.Allows (allEqual values) := by
  refine paired_get_bind fun m m' hm => ?_
  rw [hm.lists_eq]
  exact paired_pure trivial

/-- Two arguments differ on both sides or on neither. -/
private theorem differ_paired (a b : Value) :
    (differ a b : Eval κ Value).Paired σ K σ.Allows (differ a b) := by
  refine paired_get_bind fun m m' hm => ?_
  rw [hm.lists_eq]
  exact paired_pure trivial

/-- What is checked to be callable is the value itself. -/
private theorem eq_of_asCallable {v f : Value} (h : v.asCallable = .ok f) : f = v := by
  unfold Value.asCallable at h
  split at h
  · exact (Except.ok.inj h).symm
  · cases h

/-- A function that may be met is the same function on both sides. -/
private theorem paired_asCallable {v : Value} (h : σ.Allows v) :
    (expect v.asCallable : Eval κ Value).Paired σ K σ.Allows (expect v.asCallable) :=
  (paired_expect _).imp fun _ hf => eq_of_asCallable hf ▸ h

section Callbacks

variable {apply : Applier κ} {apply' : Applier κ'} (hσ : σ.IsOpen) (ha : apply.Paired σ apply')
include hσ ha

/-- A function is called with the elements of a list, which are the same. -/
private theorem applyToList_paired {f : Value} (hf : σ.Allows f) (arguments : Value) :
    (applyToList apply f arguments).Paired σ K σ.Allows (applyToList apply' f arguments) := by
  refine (paired_asCallable hf).bind fun f hf => (paired_expect _).bind fun r _ => ?_
  exact (paired_items hσ r).bind fun args hargs => ha K f args hf hargs

end Callbacks

/-- The core library. -/
private theorem coreTable_paired (hσ : σ.IsOpen) :
    List.Forall₂ (Paired σ) (coreTable : List (Primitive κ)) coreTable := by
  -- the rules stand in the order of the table
  refine .cons (variadic_paired fun _ values _ => print_paired values) ?_
  refine .cons (variadic_paired fun _ values _ => allEqual_paired values) ?_
  refine .cons (variadic_paired fun _ values _ => allEqual_paired values) ?_
  refine .cons (binary_paired fun _ a b _ _ => differ_paired a b) ?_
  refine .cons (question_paired fun _ => trivial) ?_
  refine .cons (circuit_paired _ _) (.cons (circuit_paired _ _) ?_)
  refine .cons (question_paired fun _ => hσ.allows_string _) ?_
  refine .cons (question_paired fun _ => trivial) ?_
  refine .cons (question_paired fun _ => trivial) (.cons (question_paired fun _ => trivial) ?_)
  refine .cons (.of_two rfl rfl rfl rfl fun ha K f arguments hf _ => ?_) .nil
  exact applyToList_paired hσ ha hf arguments

/-! ## The math library -/

/-- The same arguments are numbers, or the same one is not. -/
private theorem paired_numbers (values : List Value) :
    (numbers values : Eval κ (List Float)).Paired σ K (fun _ => True) (numbers values) :=
  (paired_expect _).imp fun _ _ => trivial

/-- A function of numbers does the same if its arithmetic does. -/
private theorem onNumbers_paired {name : String} {least : Nat} {f : List Float → Eval κ Float}
    {f' : List Float → Eval κ' Float}
    (h : ∀ K xs, (f xs).Paired σ K (fun _ => True) (f' xs)) :
    (onNumbers name least f).Paired σ (onNumbers name least f') :=
  variadic_paired fun K values _ => (paired_numbers values).bind fun xs _ =>
    (h K xs).bind fun _ _ => paired_pure trivial

/-- A function of one number gives the same number. -/
private theorem onNumber_paired (name : String) (f : Float → Float) :
    (onNumber name f : Primitive κ).Paired σ (onNumber name f) :=
  unary_paired fun _ _ _ => (paired_expect _).bind fun _ _ => paired_pure trivial

/-- A comparison gives the same truth value. -/
private theorem comparison_paired (name : String) (accept : Ordering → Bool) :
    (comparison name accept : Primitive κ).Paired σ (comparison name accept) :=
  binary_paired fun _ _ _ _ _ => (paired_expect _).bind fun _ _ => paired_pure trivial

/-- A difference is the same number. -/
private theorem subtract_paired (xs : List Float) :
    (subtract xs : Eval κ Float).Paired σ K (fun _ => True) (subtract xs) := by
  match xs with
  | [] => exact paired_fail trivial
  | [_] | _ :: _ :: _ => exact paired_pure trivial

/-- A quotient is the same number, or fails at the same divisor. -/
private theorem divide_paired (xs : List Float) :
    (divide xs : Eval κ Float).Paired σ K (fun _ => True) (divide xs) := by
  match xs with
  | [] => exact paired_fail trivial
  | x :: rest =>
    refine Paired.foldlM (fun q y _ _ => ?_) trivial
    split
    · exact paired_fail trivial
    · exact paired_pure trivial

/-- A remainder is the same number, or fails. -/
private theorem modulo_paired (a b : Value) :
    (modulo a b : Eval κ Value).Paired σ K σ.Allows (modulo a b) := by
  refine (paired_expect _).bind fun x _ => (paired_expect _).bind fun y _ => ?_
  split
  · exact paired_fail trivial
  · exact paired_pure trivial

private theorem mathTable_paired :
    List.Forall₂ (Paired σ) (mathTable : List (Primitive κ)) mathTable := by
  -- the rules stand in the order of the table
  refine .cons (onNumbers_paired fun _ _ => paired_pure trivial) ?_
  refine .cons (onNumbers_paired fun _ => subtract_paired) ?_
  refine .cons (onNumbers_paired fun _ _ => paired_pure trivial) ?_
  refine .cons (onNumbers_paired fun _ => divide_paired) ?_
  refine .cons (binary_paired fun _ a b _ _ => modulo_paired a b) ?_
  refine .cons (comparison_paired _ _) (.cons (comparison_paired _ _) ?_)
  refine .cons (comparison_paired _ _) (.cons (comparison_paired _ _) ?_)
  refine .cons (onNumbers_paired fun _ _ => paired_pure trivial) ?_
  refine .cons (onNumbers_paired fun _ _ => paired_pure trivial) ?_
  refine .cons (onNumber_paired _ _) (.cons (onNumber_paired _ _) ?_)
  refine .cons (onNumber_paired _ _) (.cons (onNumber_paired _ _) ?_)
  refine .cons (onNumber_paired _ _) (.cons (binary_paired fun _ _ _ _ _ => ?_) .nil)
  exact (paired_expect _).bind fun _ _ => (paired_expect _).bind fun _ _ => paired_pure trivial

/-! ## The number library -/

/-- A text is read as the same number. -/
private theorem parseNumber_paired (v : Value) :
    (parseNumber v : Eval κ Value).Paired σ K σ.Allows (parseNumber v) := by
  refine (paired_expect _).bind fun s _ => paired_pure ?_
  cases numberOfText? s.toList <;> trivial

/-- A number is written as the same text. -/
private theorem toFixed_paired (hσ : σ.IsOpen) (v : Value) (places : Option Value) :
    (toFixed v places : Eval κ Value).Paired σ K σ.Allows (toFixed v places) := by
  refine (paired_expect _).bind fun x _ => ?_
  cases places with
  | none => exact paired_pure (hσ.allows_string _)
  | some places =>
    refine (paired_expect _).bind fun n _ => ?_
    split
    · exact paired_pure (hσ.allows_string _)
    · exact paired_fail trivial

private theorem numberTable_paired (hσ : σ.IsOpen) :
    List.Forall₂ (Paired σ) (numberTable : List (Primitive κ)) numberTable := by
  refine .cons (question_paired fun _ => trivial) (.cons (question_paired fun _ => trivial) ?_)
  refine .cons (unary_paired fun _ _ _ => (paired_expect _).bind fun _ _ => paired_pure trivial) ?_
  refine .cons (unary_paired fun _ v _ => parseNumber_paired v) ?_
  exact .cons (unaryOptional_paired fun _ => toFixed_paired hσ) .nil

/-! ## The list library -/

/-- An element, or `null` if there is none. -/
private theorem allows_getD {xs : Array Value} (hxs : ∀ v ∈ xs, σ.Allows v) {o : Option Value}
    (ho : ∀ v, o = some v → v ∈ xs) : σ.Allows (o.getD .null) := by
  cases o with
  | none => trivial
  | some v => exact hxs v (ho v rfl)

/-- An index is accepted on both sides or on neither. -/
private theorem checkIndex_paired (i : Int) (length : Nat) :
    (checkIndex i length : Eval κ Nat).Paired σ K (fun _ => True) (checkIndex i length) := by
  unfold checkIndex
  split
  · exact paired_pure trivial
  · exact paired_fail trivial

/-- A range has the same size, or is refused for the same reason. -/
private theorem rangeSize_paired (start stop step : Float) :
    (rangeSize start stop step : Eval κ Nat).Paired σ K (fun _ => True)
      (rangeSize start stop step) := by
  unfold rangeSize
  -- a step of zero, bounds that are not finite, too many numbers
  split
  · exact paired_fail trivial
  · split
    · exact paired_fail trivial
    · split
      · exact paired_fail trivial
      · exact paired_pure trivial

/-- A range is a new list of the same numbers. -/
private theorem rangeOf_paired (start stop step : Float) :
    (rangeOf start stop step : Eval κ Value).Paired σ K σ.Allows (rangeOf start stop step) := by
  refine (rangeSize_paired start stop step).bind fun n _ => paired_newCell fun v hv => ?_
  obtain ⟨i, _, rfl⟩ := Array.mem_map.1 hv
  trivial

/-- A range is made from the same bounds. -/
private theorem range_paired (values : List Value) :
    (range values : Eval κ Value).Paired σ K σ.Allows (range values) := by
  refine (paired_numbers values).bind fun xs _ => ?_
  -- one bound, two bounds, two bounds and a step
  split
  · exact rangeOf_paired _ _ _
  · exact rangeOf_paired _ _ _
  · exact rangeOf_paired _ _ _
  · exact paired_fail trivial

section Sequences

variable (hσ : σ.IsOpen)
include hσ

/-- The elements of an argument are the same, and may be met. -/
private theorem itemsOf_paired (v : Value) :
    (itemsOf v : Eval κ (List Value)).Paired σ K (fun xs => ∀ v ∈ xs, σ.Allows v) (itemsOf v) :=
  (paired_expect _).bind fun r _ => paired_items hσ r

/-- The same, as an array. -/
private theorem cellOf_paired (v : Value) :
    (cellOf v : Eval κ (Array Value)).Paired σ K (fun xs => ∀ v ∈ xs, σ.Allows v) (cellOf v) :=
  (paired_expect _).bind fun r _ => paired_cell hσ r

/-- A function that reads a list gives the same value. -/
private theorem onCell_paired {name : String} {f : Array Value → Value}
    (h : ∀ xs, (∀ v ∈ xs, σ.Allows v) → σ.Allows (f xs)) :
    (onCell name f : Primitive κ).Paired σ (onCell name f) :=
  unary_paired fun _ v _ => (cellOf_paired hσ v).bind fun xs hxs => paired_pure (h xs hxs)

/-- A function that selects or reorders elements makes the same list. -/
private theorem onItems_paired {name : String} {f : List Value → List Value}
    (h : ∀ xs, ∀ v ∈ f xs, v ∈ xs) : (onItems name f : Primitive κ).Paired σ (onItems name f) :=
  unary_paired fun _ v _ => (itemsOf_paired hσ v).bind fun xs hxs =>
    paired_newList fun w hw => hxs w (h xs w hw)

/-- The same element is found. -/
private theorem nth_paired (list index : Value) :
    (nth list index : Eval κ Value).Paired σ K σ.Allows (nth list index) := by
  refine (cellOf_paired hσ list).bind fun xs hxs => (paired_expect _).bind fun i _ => ?_
  refine (checkIndex_paired i xs.size).bind fun k _ => ?_
  cases hk : xs[k]? with
  | some v => exact paired_pure (hxs v (Array.mem_of_getElem? hk))
  | none => exact paired_fail trivial

/-- The same lists are put together. -/
private theorem concat_paired (values : List Value) :
    (concat values : Eval κ Value).Paired σ K σ.Allows (concat values) := by
  refine (Paired.mapM fun v _ => itemsOf_paired hσ v).bind fun xss hxss => ?_
  refine paired_newList fun v hv => ?_
  obtain ⟨xs, hxs, hv⟩ := List.mem_flatten.1 hv
  exact hxss xs hxs v hv

/-- The same part of a list is taken. -/
private theorem slice_paired (list start : Value) (stop : Option Value) :
    (slice list start stop : Eval κ Value).Paired σ K σ.Allows (slice list start stop) := by
  refine (itemsOf_paired hσ list).bind fun xs hxs => (paired_expect _).bind fun i _ => ?_
  -- whatever the end is, the elements of the part are elements of the list
  have hpart : ∀ stop, (newList (Slice.between (Slice.resolve i xs.length) stop xs) :
      Eval κ Value).Paired σ K σ.Allows (newList (Slice.between _ stop xs)) := fun stop =>
    paired_newList fun v hv => hxs v (List.mem_of_mem_drop (List.mem_of_mem_take hv))
  cases stop with
  | none => exact (paired_pure (Q := fun _ => True) trivial).bind fun stop _ => hpart stop
  | some stop =>
    refine (paired_expect _).bind fun j _ => ?_
    exact (paired_pure (Q := fun _ => True) trivial).bind fun stop _ => hpart stop

/-- An element is found at the same position. -/
private theorem indexOf_paired (list v : Value) :
    (indexOf list v : Eval κ Value).Paired σ K σ.Allows (indexOf list v) := by
  refine (itemsOf_paired hσ list).bind fun xs _ => paired_get_bind fun m m' hm => ?_
  dsimp only
  rw [hm.lists_eq]
  split
  · exact paired_pure trivial
  · exact paired_pure trivial

/-- The same elements are put at the end. -/
private theorem push_paired {values : List Value} (hvalues : ∀ v ∈ values, σ.Allows v) :
    (push values : Eval κ Value).Paired σ K σ.Allows (push values) := by
  match values, hvalues with
  | [], _ => exact paired_fail trivial
  | list :: values, hvalues =>
    obtain ⟨hlist, hvalues⟩ := List.forall_mem_cons.1 hvalues
    refine (paired_expect _).bind fun r _ => ?_
    refine (paired_modifyList hσ r fun xs hxs v hv => ?_).bind fun _ _ => paired_pure hlist
    -- hv | an element was there before, or is one of the arguments
    obtain hv | hv := Array.mem_append.1 hv
    · exact hxs v hv
    · exact hvalues v (List.mem_toArray.1 hv)

/-- The same element is taken from the end. -/
private theorem pop_paired (list : Value) :
    (pop list : Eval κ Value).Paired σ K σ.Allows (pop list) := by
  refine (paired_expect _).bind fun r _ => (paired_cell hσ r).bind fun xs hxs => ?_
  refine (paired_modifyList hσ r fun ys hys v hv => hys v ?_).bind fun _ _ => paired_pure ?_
  · rw [← Array.mem_toList_iff, Array.toList_pop] at hv
    exact Array.mem_toList_iff.1 (List.dropLast_subset _ hv)
  exact allows_getD hxs fun v hv => Array.mem_of_back? hv

/-- The same element is replaced. -/
private theorem setNth_paired (list index : Value) {v : Value} (hv : σ.Allows v) :
    (setNth list index v : Eval κ Value).Paired σ K σ.Allows (setNth list index v) := by
  refine (paired_expect _).bind fun r _ => (paired_expect _).bind fun i _ => ?_
  refine (paired_cell hσ r).bind fun xs _ => (checkIndex_paired i xs.size).bind fun k _ => ?_
  refine (paired_modifyList hσ r fun ys hys w hw => ?_).bind fun _ _ => paired_pure hv
  obtain hw | rfl := Array.mem_or_eq_of_mem_setIfInBounds hw
  · exact hys w hw
  · exact hv

end Sequences

/-! ### Sorting -/

/-- The natural order gives the same answer, or fails for the same reason. -/
private theorem naturalLess_paired (a b : Value) :
    (naturalLess a b : Eval κ Bool).Paired σ K (fun _ => True) (naturalLess a b) := by
  unfold naturalLess
  split
  · split
    · exact paired_fail trivial
    · exact paired_pure trivial
  · exact paired_pure trivial
  · exact paired_fail trivial
  · exact paired_fail trivial

section MergeSort

variable {less : Value → Value → Eval κ Bool} {less' : Value → Value → Eval κ' Bool}
  (h : ∀ a b, σ.Allows a → σ.Allows b → (less a b).Paired σ K (fun _ => True) (less' a b))
include h

/-- A merge asks the same questions on both sides, and gives back what it was given. -/
private theorem mergeOnto_paired {done left right : List Value} (hdone : ∀ v ∈ done, σ.Allows v)
    (hleft : ∀ v ∈ left, σ.Allows v) (hright : ∀ v ∈ right, σ.Allows v) :
    (MergeSort.mergeOnto less done left right).Paired σ K (fun vs => ∀ v ∈ vs, σ.Allows v)
      (MergeSort.mergeOnto less' done left right) := by
  -- the sides take the same branch, since the answer of a comparison is the same
  fun_induction MergeSort.mergeOnto less done left right with
  | case1 done right =>
    rw [MergeSort.mergeOnto]
    refine paired_pure fun v hv => ?_
    rw [List.reverseAux_eq, List.mem_append, List.mem_reverse] at hv
    exact hv.elim (hdone v) (hright v)
  | case2 done left hne =>
    rw [MergeSort.mergeOnto]
    · refine paired_pure fun v hv => ?_
      rw [List.reverseAux_eq, List.mem_append, List.mem_reverse] at hv
      exact hv.elim (hdone v) (hleft v)
    · exact hne
  | case3 done x xs y ys ihRight ihLeft =>
    obtain ⟨hx, hxs⟩ := List.forall_mem_cons.1 hleft
    obtain ⟨hy, hys⟩ := List.forall_mem_cons.1 hright
    rw [MergeSort.mergeOnto]
    refine (h y x hy hx).bind fun first _ => ?_
    split
    · exact ihRight (List.forall_mem_cons.2 ⟨hy, hdone⟩) hleft hys
    · exact ihLeft (List.forall_mem_cons.2 ⟨hx, hdone⟩) hxs hright

/-- A sort asks the same questions and gives the elements back in the same order. -/
private theorem mergeSort_paired {xs : List Value} (hxs : ∀ v ∈ xs, σ.Allows v) :
    (MergeSort.sort less xs).Paired σ K (fun vs => ∀ v ∈ vs, σ.Allows v)
      (MergeSort.sort less' xs) := by
  fun_induction MergeSort.sort less xs with
  | case1 xs hlen =>
    rw [MergeSort.sort.eq_def less', dif_pos hlen]
    exact paired_pure hxs
  | case2 xs hlen ihLeft ihRight =>
    rw [MergeSort.sort.eq_def less' xs, dif_neg hlen]
    refine (ihLeft fun v hv => hxs v (List.mem_of_mem_take hv)).bind fun left hleft => ?_
    refine (ihRight fun v hv => hxs v (List.mem_of_mem_drop hv)).bind fun right hright => ?_
    exact mergeOnto_paired h (by simp) hleft hright

end MergeSort

section Callbacks

variable {apply : Applier κ} {apply' : Applier κ'} (hσ : σ.IsOpen) (ha : apply.Paired σ apply')
include hσ ha

/-- The function is called with the same elements, and its values make the same list. -/
private theorem map_paired {f : Value} (hf : σ.Allows f) (list : Value) :
    (map apply f list).Paired σ K σ.Allows (map apply' f list) := by
  refine (paired_asCallable hf).bind fun f hf => (itemsOf_paired hσ list).bind fun xs hxs => ?_
  refine (Paired.mapM fun x hx => ?_).bind fun _ hvs => paired_newList hvs
  exact ha K f [x] hf (by simpa using hxs x hx)

/-- The same elements are kept. -/
private theorem filter_paired {f : Value} (hf : σ.Allows f) (list : Value) :
    (filter apply f list).Paired σ K σ.Allows (filter apply' f list) := by
  refine (paired_asCallable hf).bind fun f hf => (itemsOf_paired hσ list).bind fun xs hxs => ?_
  refine (Paired.mapM fun x hx => ha K f [x] hf (by simpa using hxs x hx)).bind fun answers _ => ?_
  refine paired_newList fun v hv => ?_
  -- what is kept is one of the elements
  obtain ⟨⟨x, a⟩, hmem, hkept⟩ := List.mem_filterMap.1 hv
  dsimp only at hkept
  split at hkept
  · exact Option.some.inj hkept ▸ hxs x (List.of_mem_zip hmem).1
  · cases hkept

/-- The function is called with the same values, one after the other. -/
private theorem reduce_paired {f initial : Value} (hf : σ.Allows f) (hinitial : σ.Allows initial)
    (list : Value) : (reduce apply f initial list).Paired σ K σ.Allows
      (reduce apply' f initial list) := by
  refine (paired_asCallable hf).bind fun f hf => (itemsOf_paired hσ list).bind fun xs hxs => ?_
  refine Paired.foldlM (fun acc x hx hacc => ?_) hinitial
  exact ha K f [acc, x] hf (by simpa using ⟨hacc, hxs x hx⟩)

/-- A list is sorted in the same way, by the natural order or by a function. -/
private theorem sort_paired {list : Value} (hlist : σ.Allows list) (less : Option Value)
    (hless : ∀ f, less = some f → σ.Allows f) :
    (sort apply list less).Paired σ K σ.Allows (sort apply' list less) := by
  refine (paired_expect _).bind fun r _ => (paired_items hσ r).bind fun xs hxs => ?_
  -- the sorted elements are written back to the list that they came from
  have hwrite : ∀ sorted : List Value, (∀ v ∈ sorted, σ.Allows v) →
      (do modifyList r fun _ => sorted.toArray; return list : Eval κ Value).Paired σ K σ.Allows
        (do modifyList r fun _ => sorted.toArray; return list) := fun sorted hsorted =>
    (paired_modifyList hσ r fun _ _ v hv => hsorted v (List.mem_toArray.1 hv)).bind
      fun _ _ => paired_pure hlist
  cases less with
  | none => exact (mergeSort_paired (fun a b _ _ => naturalLess_paired a b) hxs).bind hwrite
  | some less =>
    refine (paired_asCallable (hless less rfl)).bind fun f hf => ?_
    refine (mergeSort_paired (fun a b hva hvb => ?_) hxs).bind hwrite
    exact (ha K f [a, b] hf (by simpa using ⟨hva, hvb⟩)).bind fun _ _ => paired_pure trivial

end Callbacks

private theorem listTable_paired (hσ : σ.IsOpen) :
    List.Forall₂ (Paired σ) (listTable : List (Primitive κ)) listTable := by
  -- the rules stand in the order of the table
  refine .cons (variadic_paired fun _ _ hvalues => paired_newList hvalues) ?_
  refine .cons (question_paired fun _ => trivial) ?_
  refine .cons (onCell_paired hσ fun _ _ => trivial) ?_
  refine .cons (onCell_paired hσ fun _ _ => trivial) ?_
  refine .cons (onCell_paired hσ fun xs hxs => allows_getD hxs fun _ => Array.mem_of_getElem?) ?_
  refine .cons (onCell_paired hσ fun xs hxs => allows_getD hxs fun _ => Array.mem_of_back?) ?_
  refine .cons (onItems_paired hσ fun _ _ => List.mem_of_mem_tail) ?_
  refine .cons (binary_paired fun _ list index _ _ => nth_paired hσ list index) ?_
  refine .cons ⟨rfl, rfl, rfl, fun _ _ values _ _ => range_paired values⟩ ?_
  refine .cons (variadic_paired fun _ values _ => concat_paired hσ values) ?_
  refine .cons (onItems_paired hσ fun _ _ => List.mem_reverse.1) ?_
  refine .cons (binaryOptional_paired fun _ => slice_paired hσ) ?_
  refine .cons (binary_paired fun _ list v _ _ => indexOf_paired hσ list v) ?_
  refine .cons (.of_two rfl rfl rfl rfl fun ha _ _ list hf _ => map_paired hσ ha hf list) ?_
  refine .cons (.of_two rfl rfl rfl rfl fun ha _ _ list hf _ => filter_paired hσ ha hf list) ?_
  refine .cons (.of_three rfl rfl rfl rfl fun ha _ _ _ list hf hinitial _ =>
    reduce_paired hσ ha hf hinitial list) ?_
  refine .cons (variadic_paired fun _ _ => push_paired hσ) ?_
  refine .cons (unary_paired fun _ list _ => pop_paired hσ list) ?_
  refine .cons (.of_three rfl rfl rfl rfl fun _ _ list index _ _ _ hv =>
    setNth_paired hσ list index hv) ?_
  -- sorting alone takes both an optional argument and calls
  refine .cons ⟨rfl, rfl, rfl, fun ha K args hargs hlen => ?_⟩ .nil
  obtain ⟨list, rfl⟩ | ⟨list, less, rfl⟩ := Arity.one_or_two hlen
  · exact sort_paired hσ ha (hargs list (by simp)) none fun _ h => nomatch h
  · refine sort_paired hσ ha (hargs list (by simp)) (some less) fun f hf => ?_
    exact Option.some.inj hf ▸ hargs less (by simp)

/-! ## The string library -/

/-- A function of characters gives the same value. -/
private theorem onChars_paired {name : String} {f : List Char → Value} (h : ∀ cs, σ.Allows (f cs)) :
    (onChars name f : Primitive κ).Paired σ (onChars name f) :=
  unary_paired fun _ _ _ => (paired_expect _).bind fun _ _ => paired_pure (h _)

/-- A test on two strings gives the same truth value. -/
private theorem onTwoStrings_paired (name : String) (test : List Char → List Char → Bool) :
    (onTwoStrings name test : Primitive κ).Paired σ (onTwoStrings name test) :=
  binary_paired fun _ _ _ _ _ => (paired_expect _).bind fun _ _ =>
    (paired_expect _).bind fun _ _ => paired_pure trivial

section Strings

variable (hσ : σ.IsOpen)
include hσ

/-- The texts of values are the same, since the lists in them are. -/
private theorem concatTexts_paired (values : List Value) :
    (concatTexts values : Eval κ Value).Paired σ K σ.Allows (concatTexts values) := by
  refine paired_get_bind fun m m' hm => ?_
  rw [hm.lists_eq]
  exact paired_pure (hσ.allows_string _)

/-- The text of a value is the same. -/
private theorem textOf_paired (v : Value) :
    (textOf v : Eval κ Value).Paired σ K σ.Allows (textOf v) := by
  refine paired_get_bind fun m m' hm => ?_
  rw [hm.lists_eq]
  exact paired_pure (hσ.allows_string _)

/-- The same part of a string is taken. -/
private theorem substring_paired (text start : Value) (stop : Option Value) :
    (substring text start stop : Eval κ Value).Paired σ K σ.Allows
      (substring text start stop) := by
  refine (paired_expect _).bind fun s _ => (paired_expect _).bind fun i _ => ?_
  cases stop with
  | none =>
    exact (paired_pure (Q := fun _ => True) trivial).bind fun _ _ =>
      paired_pure (hσ.allows_string _)
  | some stop =>
    refine (paired_expect _).bind fun _ _ => ?_
    exact (paired_pure (Q := fun _ => True) trivial).bind fun _ _ =>
      paired_pure (hσ.allows_string _)

/-- A string has the same pieces. -/
private theorem split_paired (text separator : Value) :
    (split text separator : Eval κ Value).Paired σ K σ.Allows (split text separator) := by
  refine (paired_expect _).bind fun _ _ => (paired_expect _).bind fun _ _ => ?_
  refine paired_newList fun v hv => ?_
  obtain ⟨piece, _, rfl⟩ := List.mem_map.1 hv
  exact hσ.allows_string _

/-- The texts of a list make the same string. -/
private theorem join_paired (list separator : Value) :
    (join list separator : Eval κ Value).Paired σ K σ.Allows (join list separator) := by
  refine (paired_expect _).bind fun _ _ => (paired_expect _).bind fun _ _ => ?_
  refine paired_get_bind fun m m' hm => ?_
  dsimp only
  rw [hm.lists_eq]
  exact paired_pure (hσ.allows_string _)

private theorem stringTable_paired :
    List.Forall₂ (Paired σ) (stringTable : List (Primitive κ)) stringTable := by
  refine .cons (question_paired fun _ => trivial) ?_
  refine .cons (variadic_paired fun _ values _ => concatTexts_paired hσ values) ?_
  refine .cons (unary_paired fun _ v _ => textOf_paired hσ v) ?_
  refine .cons (onChars_paired fun _ => trivial) ?_
  refine .cons (binaryOptional_paired fun _ => substring_paired hσ) ?_
  refine .cons (onChars_paired fun _ => hσ.allows_string _)
    (.cons (onChars_paired fun _ => hσ.allows_string _) ?_)
  refine .cons (onChars_paired fun _ => hσ.allows_string _) ?_
  refine .cons (binary_paired fun _ text separator _ _ => split_paired hσ text separator) ?_
  refine .cons (binary_paired fun _ list separator _ _ => join_paired hσ list separator) ?_
  exact .cons (onTwoStrings_paired _ _)
    (.cons (onTwoStrings_paired _ _) (.cons (onTwoStrings_paired _ _) .nil))

end Strings

end Primitive

/-! ## Libraries -/

/-- The primitives of a library are the same on both sides. -/
theorem Library.primitives_paired (hσ : σ.IsOpen) (l : Library) :
    List.Forall₂ (Primitive.Paired σ) (l.primitives : List (Primitive κ)) l.primitives := by
  cases l with
  | core => exact Primitive.coreTable_paired hσ
  | math => exact Primitive.mathTable_paired
  | number => exact Primitive.numberTable_paired hσ
  | list => exact Primitive.listTable_paired hσ
  | string => exact Primitive.stringTable_paired hσ
  | ext => exact .nil

/-- The host functions of the two sides do the same to the lists and give the same answers, and
    leave related contexts behind. -/
def HostFunction.Paired (σ : Simulation κ κ') (f : HostFunction κ) (f' : HostFunction κ') : Prop :=
  ∀ args ls k k', (∀ v ∈ args, σ.Allows v) → σ.allowsLists ls → σ.context k k' →
    match f args ⟨ls, k⟩ with
    | .ok v h => ∃ k₂, f' args ⟨ls, k'⟩ = .ok v ⟨h.lists, k₂⟩ ∧ σ.Allows v ∧
        σ.allowsLists h.lists ∧ σ.context h.context k₂
    | .error message h => ∃ k₂, f' args ⟨ls, k'⟩ = .error message ⟨h.lists, k₂⟩ ∧
        σ.allowsLists h.lists ∧ σ.context h.context k₂

/-- Where values and lists may be anything and contexts are the same, so is what a host function
    does. -/
theorem HostFunction.paired_self {σ : Simulation κ κ} (hallows : ∀ v, σ.Allows v)
    (hlists : ∀ ls, σ.allowsLists ls) (hcontext : ∀ {k k'}, σ.context k k' ↔ k' = k)
    (f : HostFunction κ) : f.Paired σ f := by
  intro args ls k k' _ _ hk
  obtain rfl := hcontext.1 hk
  cases f args ⟨ls, k'⟩ with
  | ok v host => exact ⟨host.context, rfl, hallows v, hlists _, hcontext.2 rfl⟩
  | error message host => exact ⟨host.context, rfl, hlists _, hcontext.2 rfl⟩

/-- The call of a host function does the same to lists and contexts on both sides. -/
theorem HostFunction.Paired.callHost {f : HostFunction κ} {f' : HostFunction κ'}
    (h : f.Paired σ f') (name : String) {args : List Value} (hargs : ∀ v ∈ args, σ.Allows v) :
    (callHost name f args).Paired σ K σ.Allows (callHost name f' args) := by
  intro m m' hm
  have hf := h args m.lists m.context m'.context hargs hm.lists hm.context
  unfold Ends Eval.callHost
  rw [hm.lists_eq]
  -- a failure is taken over like a value, with what the host did before it
  cases hres : f args ⟨m.lists, m.context⟩ with
  | ok v host =>
    rw [hres] at hf
    obtain ⟨k, hf', hv, hlists, hcontext⟩ := hf
    rw [hf']
    exact ⟨_, rfl, hv, { hm with lists_eq := rfl, lists := hlists, context := hcontext }⟩
  | error message host =>
    rw [hres] at hf
    obtain ⟨k, hf', hlists, hcontext⟩ := hf
    rw [hf']
    exact .inr
      ⟨_, rfl, trivial, { hm with lists_eq := rfl, lists := hlists, context := hcontext }⟩

/-- The functions behind a name do the same on both sides. -/
structure Entry.Paired (σ : Simulation κ κ') (e : Entry κ) (e' : Entry κ') : Prop where
  shortCircuit_eq : e'.shortCircuit = e.shortCircuit
  call : ∀ {apply : Applier κ} {apply' : Applier κ'}, apply.Paired σ apply' → ∀ K args,
    (∀ v ∈ args, σ.Allows v) → (e.call apply args).Paired σ K σ.Allows (e'.call apply' args)

namespace Registry

/-- What a name means on the two sides: functions that do the same, nothing on both, or nothing
    on the first side only, if the simulation gives that up as lost. -/
inductive Found (σ : Simulation κ κ') (name : String) :
    Option (Entry κ) → Option (Entry κ') → Prop where
  | both {e : Entry κ} {e' : Entry κ'} (h : e.Paired σ e') : Found σ name (some e) (some e')
  | neither : Found σ name none none
  | gained {e' : Entry κ'} (h : ∀ k, σ.loses (.failure (.unbound name)) k) :
      Found σ name none (some e')

/-- What is done with the function that a name means, if it means one. -/
theorem Found.paired {α : Type} {K : FrameRef → Prop} {Q : α → Prop} {name : String}
    {e : Option (Entry κ)} {e' : Option (Entry κ')} {f : Entry κ → Eval κ α}
    {g : Entry κ' → Eval κ' α} :
    Found σ name e e' →
      (∀ a a', e = some a → a.Paired σ a' → (f a).Paired σ K Q (g a')) →
        Eval.Paired σ K Q
          (match e with
            | some a => f a
            | none => Eval.fail (.unbound name))
          (match e' with
            | some a => g a
            | none => Eval.fail (.unbound name)) := by
  intro h hboth
  cases h with
  | both ha => exact hboth _ _ rfl ha
  | neither => exact paired_fail trivial
  | gained hlost => exact paired_of_loses hlost _

/-- The registries of the two sides give the same meaning to each name that a program may look up
    in them. -/
structure Paired (σ : Simulation κ κ') (reg : Registry κ) (reg' : Registry κ') : Prop where
  found_of_misses : ∀ {scope name}, σ.Misses scope name → σ.allowsName name →
    Found σ name (reg.find? name) (reg'.find? name)
  found_of_allows : ∀ {name}, σ.allowsBuiltin name →
    Found σ name (reg.find? name) (reg'.find? name)
  allows_of_misses : ∀ {scope name e}, σ.Misses scope name → σ.allowsName name →
    reg.find? name = some e → σ.allowsBuiltin name

/-- The functions of one library, in the same order on both sides. -/
theorem entriesOf_paired (hσ : σ.IsOpen) {hosts : List (String × HostFunction κ)}
    {hosts' : List (String × HostFunction κ')}
    (hhosts : List.Forall₂ (fun f f' => f'.1 = f.1 ∧ f.2.Paired σ f'.2) hosts hosts')
    (l : Library) :
    List.Forall₂ (fun e e' => e'.name = e.name ∧ Entry.Paired σ e e') (entriesOf hosts l)
      (entriesOf hosts' l) := by
  have hprimitives : List.Forall₂ (fun e e' => e'.name = e.name ∧ Entry.Paired σ e e')
      ((l.primitives : List (Primitive κ)).map fun p => (⟨l, p.name, .primitive p⟩ : Entry κ))
      ((l.primitives : List (Primitive κ')).map fun p => ⟨l, p.name, .primitive p⟩) := by
    rw [List.forall₂_map_left_iff, List.forall₂_map_right_iff]
    refine (l.primitives_paired hσ).imp fun p p' hp => ⟨hp.name_eq, hp.shortCircuit_eq, ?_⟩
    exact fun ha K args hargs => hp.call ha hargs
  -- the functions of the host make up a library of their own
  cases l with
  | ext =>
    refine List.forall₂_map_left_iff.2 (List.forall₂_map_right_iff.2 (hhosts.imp ?_))
    rintro ⟨_, f⟩ ⟨_, f'⟩ ⟨rfl, hf⟩
    refine ⟨rfl, rfl, fun _ K args hargs => ?_⟩
    exact (paired_record _ _ _ _).bind fun _ _ => hf.callHost _ hargs
  | _ => exact hprimitives

/-- The first entry of a name, where the entries of the two sides have the same names. -/
private theorem found_of_forall₂ {entries : List (Entry κ)} {entries' : List (Entry κ')}
    (h : List.Forall₂ (fun e e' => e'.name = e.name ∧ Entry.Paired σ e e') entries entries')
    (name : String) :
    Found σ name (entries.find? (·.name == name)) (entries'.find? (·.name == name)) := by
  induction h with
  | nil => exact .neither
  | cons he _ ih =>
    obtain ⟨hname, he⟩ := he
    rw [List.find?_cons, List.find?_cons, hname]
    split
    · exact .both he
    · exact ih

/-- A name means the same in the same libraries with paired host functions. -/
theorem found_ofLibraries (hσ : σ.IsOpen) {hosts : List (String × HostFunction κ)}
    {hosts' : List (String × HostFunction κ')}
    (hhosts : List.Forall₂ (fun f f' => f'.1 = f.1 ∧ f.2.Paired σ f'.2) hosts hosts')
    (libraries : List Library) (name : String) :
    Found σ name ((ofLibraries hosts libraries).find? name)
      ((ofLibraries hosts' libraries).find? name) := by
  have hentries : List.Forall₂ (fun e e' => e'.name = e.name ∧ Entry.Paired σ e e')
      (libraries.flatMap (entriesOf hosts)) (libraries.flatMap (entriesOf hosts')) := by
    induction libraries with
    | nil => exact .nil
    | cons l libraries ih =>
      rw [List.flatMap_cons, List.flatMap_cons]
      exact List.rel_append (entriesOf_paired hσ hhosts l) ih
  exact found_of_forall₂ hentries name

/-- The same libraries with paired host functions. -/
theorem ofLibraries_paired (hσ : σ.IsOpen) (hbuiltin : ∀ name, σ.allowsBuiltin name)
    {hosts : List (String × HostFunction κ)} {hosts' : List (String × HostFunction κ')}
    (hhosts : List.Forall₂ (fun f f' => f'.1 = f.1 ∧ f.2.Paired σ f'.2) hosts hosts')
    (libraries : List Library) :
    (ofLibraries hosts libraries).Paired σ (ofLibraries hosts' libraries) :=
  ⟨fun _ _ => found_ofLibraries hσ hhosts libraries _,
    fun _ => found_ofLibraries hσ hhosts libraries _, fun _ _ _ => hbuiltin _⟩

end Registry
end Lisplet
