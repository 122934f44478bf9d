import Lisplet.Proofs.Confinement
import Lisplet.Registry

/-! # What primitives can do

Every function of a library is sealed: a call of it adds no name to a frame that existed
before, lets no loop signal out, and fails only with causes that can be reported as they are.
This holds of the primitives that call functions as long as the calls they make are sealed,
and of host functions without any condition, since frames and signals are out of their reach.

* `Primitive.Lawful`             what has to be shown of each primitive
* `Primitive.Lawful.call`        the arity check and the naming of the function do the rest
* `Registry.ofLibraries_lawful`  all functions of all libraries -/

namespace Lisplet

open Eval

variable {κ : Type}

/-- Calls are sealed. -/
def Applier.Sealed (apply : Applier κ) : Prop := ∀ f args, (apply f args).Sealed

namespace Primitive

/-- Run with as many arguments as it takes, the primitive is tame. -/
def Lawful (p : Primitive κ) : Prop :=
  ∀ apply : Applier κ, apply.Sealed → ∀ args : List Value,
    p.arity.contains args.length = true → (p.run apply args).Tame

/-- A call of a lawful primitive is sealed. -/
theorem Lawful.call {p : Primitive κ} (h : p.Lawful) {apply : Applier κ}
    (ha : apply.Sealed) (args : List Value) : (p.call apply args).Sealed := by
  refine (confined_checkArity _ _ _).bind_of (ends_checkArity _ _ _) fun _ hargs => ?_
  refine (confined_record _ _).bind fun _ => ?_
  -- what is caught is thrown again once the failure has been recorded
  have hrun : (tryCatch (pinned p.name (p.run apply args)) fun u => do
      record .trace fun _ => "Call to " ++ p.name ++ " failed"
      throw u).Sealed := by
    refine (h apply ha args hargs).pinned.tryCatch fun u hu => ?_
    exact (confined_record _ _).bind fun _ => confined_throw hu
  exact hrun.bind fun v => (confined_record _ _).bind fun _ => confined_pure v

/-! ## Shapes of primitives -/

/-- For a primitive of two arguments it is enough to look at runs with two. -/
theorem Lawful.of_two {p : Primitive κ} (hp : p.arity = .exactly 2)
    (h : ∀ apply : Applier κ, apply.Sealed → ∀ a b, (p.run apply [a, b]).Tame) :
    p.Lawful := by
  intro apply ha args hargs
  rw [hp] at hargs
  match args, Arity.eq_of_exactly hargs with
  | [a, b], _ => exact h apply ha a b

/-- For a primitive of three arguments it is enough to look at runs with three. -/
theorem Lawful.of_three {p : Primitive κ} (hp : p.arity = .exactly 3)
    (h : ∀ apply : Applier κ, apply.Sealed → ∀ a b c, (p.run apply [a, b, c]).Tame) :
    p.Lawful := by
  intro apply ha args hargs
  rw [hp] at hargs
  match args, Arity.eq_of_exactly hargs with
  | [a, b, c], _ => exact h apply ha a b c

/-- A function of any number of arguments is lawful if its body is tame on enough of them. -/
private theorem variadic_lawful {name : String} {least : Nat} {f : List Value → Eval κ Value}
    (h : ∀ values : List Value, least ≤ values.length → (f values).Tame) :
    (variadic name least f).Lawful := by
  intro apply _ args hargs
  exact h args (Arity.le_of_atLeast hargs)

/-- A function of one argument is lawful if its body is tame. -/
private theorem unary_lawful {name : String} {f : Value → Eval κ Value} (h : ∀ v, (f v).Tame) :
    (unary name f).Lawful := by
  intro apply _ args hargs
  -- the arity was checked, so the failure for a missing argument is out of reach
  match args, Arity.eq_of_exactly hargs with
  | [a], _ => exact h a

/-- A function of two arguments is lawful if its body is tame. -/
private theorem binary_lawful {name : String} {f : Value → Value → Eval κ Value}
    (h : ∀ a b, (f a b).Tame) : (binary name f).Lawful :=
  .of_two rfl fun _ _ => h

/-- A function with one optional argument is lawful if its body is tame in both cases. -/
private theorem unaryOptional_lawful {name : String} {f : Value → Option Value → Eval κ Value}
    (h : ∀ a b, (f a b).Tame) : (unaryOptional name f).Lawful := by
  intro apply _ args hargs
  obtain ⟨a, rfl⟩ | ⟨a, b, rfl⟩ := Arity.one_or_two hargs
  · exact h a none
  · exact h a (some b)

/-- A function with an optional third argument is lawful if its body is tame in both cases. -/
private theorem binaryOptional_lawful {name : String}
    {f : Value → Value → Option Value → Eval κ Value} (h : ∀ a b c, (f a b c).Tame) :
    (binaryOptional name f).Lawful := by
  intro apply _ args hargs
  obtain ⟨a, b, rfl⟩ | ⟨a, b, c, rfl⟩ := Arity.two_or_three hargs
  · exact h a b none
  · exact h a b (some c)

/-- A question that needs nothing of the machine. -/
private theorem question_lawful {name : String} (f : Value → Value) :
    (unary name fun v => return f v : Primitive κ).Lawful :=
  unary_lawful fun _ => confined_pure _

/-! ## The core library -/

/-- A short circuit, called as a function, only picks one of its arguments. -/
private theorem circuit_lawful (name : String) (s : ShortCircuit) :
    (circuit name s : Primitive κ).Lawful :=
  fun _ _ _ _ => confined_pure _

/-- To print touches no frame. -/
private theorem print_tame (values : List Value) : (print values : Eval κ Value).Tame :=
  confined_get.bind fun _ => (confined_print _).bind fun _ => confined_pure _

/-- To compare all arguments touches no frame. -/
private theorem allEqual_tame (values : List Value) : (allEqual values : Eval κ Value).Tame :=
  confined_get.bind fun _ => confined_pure _

/-- To compare two arguments touches no frame. -/
private theorem differ_tame (a b : Value) : (differ a b : Eval κ Value).Tame :=
  confined_get.bind fun _ => confined_pure _

/-- To call a function with the elements of a list is as tame as the call. -/
private theorem applyToList_tame {apply : Applier κ} (ha : apply.Sealed) (f arguments : Value) :
    (applyToList apply f arguments).Tame := by
  refine (confined_expect _).bind fun f => (confined_expect _).bind fun r => ?_
  exact (confined_items r).bind fun args => (ha f args).tame

private theorem coreTable_lawful : ∀ p ∈ (coreTable : List (Primitive κ)), p.Lawful := by
  simp only [coreTable, List.forall_mem_cons, List.not_mem_nil, false_implies, implies_true,
    and_true]
  -- one proof for each entry of the table, in its order
  exact ⟨variadic_lawful fun values _ => print_tame values,
    variadic_lawful fun values _ => allEqual_tame values,
    variadic_lawful fun values _ => allEqual_tame values,
    binary_lawful differ_tame,
    question_lawful _,
    circuit_lawful _ _,
    circuit_lawful _ _,
    question_lawful _,
    question_lawful _,
    question_lawful _,
    question_lawful _,
    .of_two rfl fun _ => applyToList_tame⟩

/-! ## The math library -/

/-- A walk that succeeds gives one result for each element. -/
private theorem length_of_mapM_eq_ok {ε α β : Type} {f : α → Except ε β} {xs : List α} {ys : List β}
    (h : xs.mapM f = .ok ys) : ys.length = xs.length := by
  induction xs generalizing ys with
  | nil => cases h; rfl
  | cons x xs ih =>
    rw [List.mapM_cons] at h
    -- a failure anywhere would have been the result
    cases hx : f x with
    | error cause => rw [hx] at h; cases h
    | ok y =>
      cases hxs : xs.mapM f with
      | error cause => rw [hx, hxs] at h; cases h
      | ok rest =>
        rw [hx, hxs] at h
        cases h
        rw [List.length_cons, List.length_cons, ih hxs]

/-- There are as many numbers as the values they are read from. -/
private theorem ends_numbers (values : List Value) (m : Machine κ) :
    (numbers values : Eval κ (List Float)).Ends m (fun xs _ => xs.length = values.length)
      fun _ _ => True := by
  unfold numbers
  cases h : values.mapM Value.asNumber with
  | error cause => trivial
  | ok xs => exact length_of_mapM_eq_ok h

/-- A function of numbers is lawful if its arithmetic is tame on enough of them. -/
private theorem onNumbers_lawful {name : String} {least : Nat} {f : List Float → Eval κ Float}
    (h : ∀ xs : List Float, least ≤ xs.length → (f xs).Tame) : (onNumbers name least f).Lawful := by
  refine variadic_lawful fun values hleast => ?_
  refine (confined_expect _).bind_of (ends_numbers values) fun xs hxs => ?_
  exact (h xs (hxs ▸ hleast)).bind fun _ => confined_pure _

/-- A function of one number is lawful. -/
private theorem onNumber_lawful (name : String) (f : Float → Float) :
    (onNumber name f : Primitive κ).Lawful :=
  unary_lawful fun _ => (confined_expect _).bind fun _ => confined_pure _

/-- A comparison of two values in an order is lawful. -/
private theorem comparison_lawful (name : String) (accept : Ordering → Bool) :
    (comparison name accept : Primitive κ).Lawful :=
  binary_lawful fun _ _ => (confined_expect _).bind fun _ => confined_pure _

/-- There is something to subtract from, so a difference has no failure of its own. -/
private theorem subtract_tame {xs : List Float} (h : 1 ≤ xs.length) :
    (subtract xs : Eval κ Float).Tame := by
  match xs, h with
  | [_], _ => exact confined_pure _
  | _ :: _ :: _, _ => exact confined_pure _

/-- There is something to divide, so only a division by zero is left to fail. -/
private theorem divide_tame {xs : List Float} (h : 1 ≤ xs.length) :
    (divide xs : Eval κ Float).Tame := by
  match xs, h with
  | x :: rest, _ =>
    refine Confined.foldlM (fun q y _ => ?_) x
    -- each divisor in turn may be zero
    split
    · exact confined_fail (.inl trivial)
    · exact confined_pure _

/-- Only a remainder by zero fails. -/
private theorem modulo_tame (a b : Value) : (modulo a b : Eval κ Value).Tame := by
  refine (confined_expect _).bind fun x => (confined_expect _).bind fun y => ?_
  split
  · exact confined_fail (.inl trivial)
  · exact confined_pure _

private theorem mathTable_lawful : ∀ p ∈ (mathTable : List (Primitive κ)), p.Lawful := by
  simp only [mathTable, List.forall_mem_cons, List.not_mem_nil, false_implies, implies_true,
    and_true]
  exact ⟨onNumbers_lawful fun _ _ => confined_pure _,
    onNumbers_lawful fun _ => subtract_tame,
    onNumbers_lawful fun _ _ => confined_pure _,
    onNumbers_lawful fun _ h => divide_tame (Nat.le_of_succ_le h),
    binary_lawful modulo_tame,
    comparison_lawful _ _,
    comparison_lawful _ _,
    comparison_lawful _ _,
    comparison_lawful _ _,
    onNumbers_lawful fun _ _ => confined_pure _,
    onNumbers_lawful fun _ _ => confined_pure _,
    onNumber_lawful _ _,
    onNumber_lawful _ _,
    onNumber_lawful _ _,
    onNumber_lawful _ _,
    onNumber_lawful _ _,
    binary_lawful fun _ _ => (confined_expect _).bind fun _ =>
      (confined_expect _).bind fun _ => confined_pure _⟩

/-! ## The number library -/

/-- Only too many places are refused. -/
private theorem toFixed_tame (v : Value) (places : Option Value) :
    (toFixed v places : Eval κ Value).Tame := by
  refine (confined_expect _).bind fun x => ?_
  cases places with
  | none => exact confined_pure _
  | some places =>
    refine (confined_expect _).bind fun n => ?_
    split
    · exact confined_pure _
    · exact confined_fail (.inl trivial)

private theorem numberTable_lawful : ∀ p ∈ (numberTable : List (Primitive κ)), p.Lawful := by
  simp only [numberTable, List.forall_mem_cons, List.not_mem_nil, false_implies, implies_true,
    and_true]
  exact ⟨question_lawful _,
    question_lawful _,
    unary_lawful fun _ => (confined_expect _).bind fun _ => confined_pure _,
    unary_lawful fun _ => (confined_expect _).bind fun _ => confined_pure _,
    unaryOptional_lawful toFixed_tame⟩

/-! ## The list library -/

/-- To read the elements of an argument touches no frame. -/
private theorem itemsOf_tame (v : Value) : (itemsOf v : Eval κ (List Value)).Tame :=
  (confined_expect _).bind fun r => confined_items r

/-- To read them as an array touches no frame. -/
private theorem cellOf_tame (v : Value) : (cellOf v : Eval κ (Array Value)).Tame :=
  (confined_expect _).bind fun r => confined_cell r

/-- A function that reads a list is lawful. -/
private theorem onCell_lawful (name : String) (f : Array Value → Value) :
    (onCell name f : Primitive κ).Lawful :=
  unary_lawful fun v => (cellOf_tame v).bind fun _ => confined_pure _

/-- A function that makes a list from the elements of another is lawful. -/
private theorem onItems_lawful (name : String) (f : List Value → List Value) :
    (onItems name f : Primitive κ).Lawful :=
  unary_lawful fun v => (itemsOf_tame v).bind fun _ => confined_newList _

/-- A position outside of the sequence is a failure that can be reported. -/
private theorem checkIndex_tame (i : Int) (length : Nat) :
    (checkIndex i length : Eval κ Nat).Tame := by
  unfold checkIndex
  split
  · exact confined_pure _
  · exact confined_fail (.inl trivial)

/-- A position that passed the check lies in the sequence. -/
private theorem ends_checkIndex (i : Int) (length : Nat) (m : Machine κ) :
    (checkIndex i length : Eval κ Nat).Ends m (fun k _ => k < length) fun _ _ => True := by
  unfold checkIndex
  split
  · rename_i h
    show i.toNat < length
    omega
  · trivial

/-- To read one element is tame. -/
private theorem nth_tame (list index : Value) : (nth list index : Eval κ Value).Tame := by
  refine (cellOf_tame list).bind fun xs => (confined_expect _).bind fun i => ?_
  refine (checkIndex_tame i xs.size).bind_of (ends_checkIndex i xs.size) fun k hk => ?_
  -- the position was checked, so the failure for a missing element is out of reach
  rw [Array.getElem?_eq_getElem hk]
  exact confined_pure _

/-- A range that is refused is a failure that can be reported. -/
private theorem rangeSize_tame (start stop step : Float) :
    (rangeSize start stop step : Eval κ Nat).Tame := by
  unfold rangeSize
  -- a step of zero, bounds that are not finite, too many numbers
  split
  · exact confined_fail (.inl trivial)
  · split
    · exact confined_fail (.inl trivial)
    · split
      · exact confined_fail (.inl trivial)
      · exact confined_pure _

/-- To make a range is tame. -/
private theorem rangeOf_tame (start stop step : Float) :
    (rangeOf start stop step : Eval κ Value).Tame :=
  (rangeSize_tame start stop step).bind fun _ => confined_newCell _

/-- A range is lawful: it has from one to three arguments, and no other number is looked for. -/
private theorem range_lawful :
    ({ name := "range", arity := .between 1 3, run := fun _ => range } : Primitive κ).Lawful := by
  intro apply _ args hargs
  have hlen : 1 ≤ args.length ∧ args.length ≤ 3 := by
    simpa only [Arity.contains, Bool.and_eq_true, decide_eq_true_eq] using hargs
  refine (confined_expect _).bind_of (ends_numbers args) fun xs hxs => ?_
  -- the arity bounds the arguments, and with them the numbers
  rw [← hxs] at hlen
  obtain ⟨stop, rfl⟩ | ⟨start, stop, rfl⟩ | ⟨start, stop, step, rfl⟩ := Arity.one_to_three hlen
  · exact rangeOf_tame _ _ _
  · exact rangeOf_tame _ _ _
  · exact rangeOf_tame _ _ _

/-- To put lists together touches no frame. -/
private theorem concat_tame (values : List Value) : (concat values : Eval κ Value).Tame :=
  (Confined.mapM fun v _ => itemsOf_tame v).bind fun _ => confined_newList _

/-- To take a part of a list touches no frame. -/
private theorem slice_tame (list start : Value) (stop : Option Value) :
    (slice list start stop : Eval κ Value).Tame := by
  refine (itemsOf_tame list).bind fun xs => (confined_expect _).bind fun i => ?_
  cases stop with
  | none => exact (confined_pure _).bind fun _ => confined_newList _
  | some stop =>
    refine (confined_expect _).bind fun _ => ?_
    exact (confined_pure _).bind fun _ => confined_newList _

/-- To look for an element touches no frame. -/
private theorem indexOf_tame (list v : Value) : (indexOf list v : Eval κ Value).Tame := by
  refine (itemsOf_tame list).bind fun xs => confined_get.bind fun m => ?_
  dsimp only
  split
  · exact confined_pure _
  · exact confined_pure _

section Callbacks

variable {apply : Applier κ} (ha : apply.Sealed)
include ha

/-- To call a function for each element is as tame as the calls. -/
private theorem map_tame (f list : Value) : (map apply f list).Tame := by
  refine (confined_expect _).bind fun f => (itemsOf_tame list).bind fun xs => ?_
  exact (Confined.mapM fun x _ => (ha f [x]).tame).bind fun _ => confined_newList _

/-- To ask a function about each element is as tame as the calls. -/
private theorem filter_tame (f list : Value) : (filter apply f list).Tame := by
  refine (confined_expect _).bind fun f => (itemsOf_tame list).bind fun xs => ?_
  exact (Confined.mapM fun x _ => (ha f [x]).tame).bind fun _ => confined_newList _

/-- To combine elements by a function is as tame as the calls. -/
private theorem reduce_tame (f initial list : Value) : (reduce apply f initial list).Tame := by
  refine (confined_expect _).bind fun f => (itemsOf_tame list).bind fun xs => ?_
  exact Confined.foldlM (fun acc x _ => (ha f [acc, x]).tame) initial

/-- To compare by a function is as tame as the call. -/
private theorem lessBy_tame (f a b : Value) : (lessBy apply f a b).Tame :=
  (ha f [a, b]).tame.bind fun _ => confined_pure _

end Callbacks

/-- The natural order fails only for values that have none. -/
private theorem naturalLess_tame (a b : Value) : (naturalLess a b : Eval κ Bool).Tame := by
  unfold naturalLess
  split
  · -- numbers, which NaN may leave without an order
    split
    · exact confined_fail (.inl trivial)
    · exact confined_pure _
  · exact confined_pure _
  · exact confined_fail (.inr ⟨_, rfl⟩)
  · exact confined_fail (.inr ⟨_, rfl⟩)

/-- A merge does no more than its comparisons. -/
private theorem mergeOnto_tame {less : Value → Value → Eval κ Bool} (h : ∀ a b, (less a b).Tame)
    (done left right : List Value) : (MergeSort.mergeOnto less done left right).Tame := by
  fun_induction MergeSort.mergeOnto less done left right with
  | case1 => exact confined_pure _
  | case2 => exact confined_pure _
  -- both sides have an element, and the comparison decides which one goes first
  | case3 done x xs y ys ihRight ihLeft =>
    refine (h y x).bind fun first => ?_
    split
    · exact ihRight
    · exact ihLeft

/-- A sort does no more than its comparisons. -/
private theorem mergeSort_tame {less : Value → Value → Eval κ Bool} (h : ∀ a b, (less a b).Tame)
    (xs : List Value) : (MergeSort.sort less xs).Tame := by
  fun_induction MergeSort.sort less xs with
  | case1 => exact confined_pure _
  | case2 xs _ ihLeft ihRight =>
    exact ihLeft.bind fun left => ihRight.bind fun right => mergeOnto_tame h [] left right

/-- To sort is as tame as the comparisons. -/
private theorem sort_tame {apply : Applier κ} (ha : apply.Sealed) (list : Value)
    (less : Option Value) : (sort apply list less).Tame := by
  refine (confined_expect _).bind fun r => (confined_items r).bind fun xs => ?_
  -- writing the elements back is the one change, and it is made to a list
  have hwrite : ∀ sorted : List Value,
      (do modifyList r fun _ => sorted.toArray; return list : Eval κ Value).Tame := fun sorted =>
    (confined_modifyList _ _).bind fun _ => confined_pure list
  cases less with
  | none => exact (mergeSort_tame naturalLess_tame xs).bind hwrite
  | some less =>
    refine (confined_expect _).bind fun less => ?_
    exact (mergeSort_tame (lessBy_tame ha less) xs).bind hwrite

/-- There is a list to push to, so only its kind is checked. -/
private theorem push_tame {values : List Value} (h : 2 ≤ values.length) :
    (push values : Eval κ Value).Tame := by
  match values, h with
  | list :: values, _ =>
    exact (confined_expect _).bind fun r => (confined_modifyList _ _).bind fun _ => confined_pure _

/-- To take the last element away touches no frame. -/
private theorem pop_tame (list : Value) : (pop list : Eval κ Value).Tame := by
  refine (confined_expect _).bind fun r => (confined_cell r).bind fun xs => ?_
  exact (confined_modifyList _ _).bind fun _ => confined_pure _

/-- To replace an element touches no frame. -/
private theorem setNth_tame (list index v : Value) : (setNth list index v : Eval κ Value).Tame := by
  refine (confined_expect _).bind fun r => (confined_expect _).bind fun i => ?_
  refine (confined_cell r).bind fun xs => (checkIndex_tame i xs.size).bind fun k => ?_
  exact (confined_modifyList _ _).bind fun _ => confined_pure _

private theorem listTable_lawful : ∀ p ∈ (listTable : List (Primitive κ)), p.Lawful := by
  simp only [listTable, List.forall_mem_cons, List.not_mem_nil, false_implies, implies_true,
    and_true]
  refine ⟨variadic_lawful fun values _ => confined_newList values,
    question_lawful _,
    onCell_lawful _ _,
    onCell_lawful _ _,
    onCell_lawful _ _,
    onCell_lawful _ _,
    onItems_lawful _ _,
    binary_lawful nth_tame,
    range_lawful,
    variadic_lawful fun values _ => concat_tame values,
    onItems_lawful _ _,
    binaryOptional_lawful slice_tame,
    binary_lawful indexOf_tame,
    .of_two rfl fun _ => map_tame,
    .of_two rfl fun _ => filter_tame,
    .of_three rfl fun _ => reduce_tame,
    variadic_lawful fun _ => push_tame,
    unary_lawful pop_tame,
    .of_three rfl fun _ _ => setNth_tame,
    ?_⟩
  -- sorting alone takes both an optional argument and calls
  intro apply ha args hargs
  obtain ⟨list, rfl⟩ | ⟨list, less, rfl⟩ := Arity.one_or_two hargs
  · exact sort_tame ha list none
  · exact sort_tame ha list (some less)

/-! ## The string library -/

/-- A function of characters is lawful. -/
private theorem onChars_lawful (name : String) (f : List Char → Value) :
    (onChars name f : Primitive κ).Lawful :=
  unary_lawful fun _ => (confined_expect _).bind fun _ => confined_pure _

/-- A test on two strings is lawful. -/
private theorem onTwoStrings_lawful (name : String) (test : List Char → List Char → Bool) :
    (onTwoStrings name test : Primitive κ).Lawful :=
  binary_lawful fun _ _ => (confined_expect _).bind fun _ =>
    (confined_expect _).bind fun _ => confined_pure _

/-- To take a part of a string touches no frame. -/
private theorem substring_tame (text start : Value) (stop : Option Value) :
    (substring text start stop : Eval κ Value).Tame := by
  refine (confined_expect _).bind fun s => (confined_expect _).bind fun i => ?_
  cases stop with
  | none => exact (confined_pure _).bind fun _ => confined_pure _
  | some stop =>
    refine (confined_expect _).bind fun _ => ?_
    exact (confined_pure _).bind fun _ => confined_pure _

/-- To split a string touches no frame. -/
private theorem split_tame (text separator : Value) : (split text separator : Eval κ Value).Tame :=
  (confined_expect _).bind fun _ => (confined_expect _).bind fun _ => confined_newList _

/-- To join the texts of a list touches no frame. -/
private theorem join_tame (list separator : Value) : (join list separator : Eval κ Value).Tame :=
  (confined_expect _).bind fun _ => (confined_expect _).bind fun _ =>
    confined_get.bind fun _ => confined_pure _

private theorem stringTable_lawful : ∀ p ∈ (stringTable : List (Primitive κ)), p.Lawful := by
  simp only [stringTable, List.forall_mem_cons, List.not_mem_nil, false_implies, implies_true,
    and_true]
  exact ⟨question_lawful _,
    variadic_lawful fun _ _ => confined_get.bind fun _ => confined_pure _,
    unary_lawful fun _ => confined_get.bind fun _ => confined_pure _,
    onChars_lawful _ _,
    binaryOptional_lawful substring_tame,
    onChars_lawful _ _,
    onChars_lawful _ _,
    onChars_lawful _ _,
    binary_lawful split_tame,
    binary_lawful join_tame,
    onTwoStrings_lawful _ _,
    onTwoStrings_lawful _ _,
    onTwoStrings_lawful _ _⟩

end Primitive

/-! ## Libraries -/

/-- Every library is made of lawful primitives. -/
theorem Library.primitives_lawful (l : Library) :
    ∀ p ∈ (l.primitives : List (Primitive κ)), p.Lawful := by
  cases l with
  | core => exact Primitive.coreTable_lawful
  | math => exact Primitive.mathTable_lawful
  | number => exact Primitive.numberTable_lawful
  | list => exact Primitive.listTable_lawful
  | string => exact Primitive.stringTable_lawful
  | ext => intro p hp; cases hp

/-- A host function reaches neither frames nor loop signals. -/
private theorem Eval.callHost_sealed (name : String) (f : HostFunction κ) (args : List Value) :
    (Eval.callHost name f args).Sealed := by
  intro m
  unfold Eval.Ends Eval.callHost
  cases f args ⟨m.lists, m.context⟩ with
  | ok v h => exact .refl _ m.scopes
  | error message h => exact ⟨.refl _ m.scopes, trivial⟩

namespace Registry

/-- Only functions whose calls are sealed. -/
def Lawful (reg : Registry κ) : Prop :=
  ∀ entry ∈ reg.entries, ∀ apply : Applier κ, apply.Sealed → ∀ args,
    (entry.call apply args).Sealed

/-- The functions of a library are lawful, whatever the host offers. -/
private theorem entriesOf_lawful (hostFunctions : List (String × HostFunction κ)) (l : Library) :
    ∀ entry ∈ entriesOf hostFunctions l, ∀ apply : Applier κ, apply.Sealed → ∀ args,
      (entry.call apply args).Sealed := by
  intro entry hentry apply ha args
  have hprimitives : ∀ entry ∈ (l.primitives : List (Primitive κ)).map
      (fun p => (⟨l, p.name, .primitive p⟩ : Entry κ)), (entry.call apply args).Sealed := by
    intro entry hentry
    obtain ⟨p, hp, rfl⟩ := List.mem_map.1 hentry
    exact (l.primitives_lawful p hp).call ha args
  -- the functions of the host make up a library of their own
  cases l with
  | ext =>
    obtain ⟨⟨name, f⟩, _, rfl⟩ := List.mem_map.1 hentry
    exact (confined_record _ _).bind fun _ => Eval.callHost_sealed name f args
  | _ => exact hprimitives entry hentry

/-- All functions of all libraries are sealed. -/
theorem ofLibraries_lawful (hostFunctions : List (String × HostFunction κ))
    (libraries : List Library) : (ofLibraries hostFunctions libraries).Lawful := by
  intro entry hentry
  obtain ⟨l, _, hl⟩ := List.mem_flatMap.1 hentry
  exact entriesOf_lawful hostFunctions l entry hl

/-- What a name means in a lawful registry can be called. -/
theorem Lawful.find?_call {reg : Registry κ} (h : reg.Lawful) {name : String} {entry : Entry κ}
    (hfind : reg.find? name = some entry) {apply : Applier κ} (ha : apply.Sealed)
    (args : List Value) : (entry.call apply args).Sealed :=
  h entry (List.mem_of_find?_eq_some hfind) apply ha args

end Registry
end Lisplet
