import Lisplet.Proofs.Primitives

/-! # What primitives do to lists

Apart from the few that call functions, a primitive does one of four things to the lists, and its
name tells which: it leaves them alone, makes a new one, takes elements away from its first argument
or puts them into another order, or puts its arguments into the first of them.  If it fails it has
done nothing.

Every primitive first asks for what it needs and then acts, at most once.  Asking leaves the machine
as it is (`Eval.Asks`), so all that happens to the machine is the one act at the end.

* `Effect`                  the four things
* `Effect.Outcome`          what a call that succeeds leaves behind
* `Primitive.Consults`      the calls that call functions
* `Library.primitives_do`   each primitive has the effect of its name -/

namespace Lisplet

variable {κ α β : Type}

/-! ## Asking -/

namespace Eval

/-- The evaluation leaves the machine `m` as it is, and a value that it ends with satisfies `P`. -/
def Asks (m : Machine κ) (P : α → Prop) (x : Eval κ α) : Prop :=
  x.Ends m (fun a m' => m' = m ∧ P a) fun _ m' => m' = m

variable {m : Machine κ} {P : β → Prop} {Q : α → Prop} {post : α → Machine κ → Prop}

private theorem asks_pure {a : α} (h : Q a) : (pure a : Eval κ α).Asks m Q := ⟨rfl, h⟩

/-- A failure leaves the machine as it is, whatever was to come. -/
private theorem fail_asks (e : Error) : (fail e : Eval κ α).Ends m post fun _ m' => m' = m := rfl

/-- A value of the right kind is what it is expected to be. -/
theorem asks_expect (r : Except Mismatch α) :
    (expect r : Eval κ α).Asks m fun a => r = .ok a := by
  cases r with
  | ok a => exact asks_pure rfl
  | error cause => exact fail_asks _

private theorem asks_get : (get : Eval κ (Machine κ)).Asks m (· = m) := ⟨rfl, rfl⟩

/-- What comes after a question starts on the same machine. -/
theorem Asks.bind {y : Eval κ β} {f : β → Eval κ α} (hy : y.Asks m P)
    (hf : ∀ b, P b → (f b).Ends m post fun _ m' => m' = m) :
    (y >>= f).Ends m post fun _ m' => m' = m := by
  rw [ends_bind]
  refine Ends.imp hy ?_ fun _ _ hu => hu
  rintro b _ ⟨rfl, hb⟩
  exact hf b hb

theorem Asks.imp {x : Eval κ α} {Q' : α → Prop} (h : x.Asks m Q) (hQ : ∀ a, Q a → Q' a) :
    x.Asks m Q' :=
  Ends.imp h (fun a _ ha => ⟨ha.1, hQ a ha.2⟩) fun _ _ hu => hu

/-- One question for each element of a list, with answers that have what each answer has. -/
theorem Asks.mapM {xs : List β} {f : β → Eval κ α} (hf : ∀ b ∈ xs, (f b).Asks m Q) :
    (xs.mapM f).Asks m fun as => ∀ a ∈ as, Q a := by
  -- the machine never changes, so every question starts where the first one did
  induction xs with
  | nil => exact asks_pure (by simp)
  | cons b xs ih =>
    rw [List.mapM_cons]
    refine (hf b List.mem_cons_self).bind fun a ha => ?_
    refine (ih fun c hc => hf c (List.mem_cons_of_mem b hc)).bind fun as has => ?_
    exact asks_pure (List.forall_mem_cons.2 ⟨ha, has⟩)

/-- A loop of questions asks. -/
theorem Asks.foldlM {xs : List β} {f : α → β → Eval κ α}
    (hf : ∀ a, ∀ b ∈ xs, (f a b).Asks m fun _ => True) (a : α) :
    (xs.foldlM f a).Asks m fun _ => True := by
  induction xs generalizing a with
  | nil => exact asks_pure trivial
  | cons b xs ih =>
    rw [List.foldlM_cons]
    refine (hf a b List.mem_cons_self).bind fun a' _ => ?_
    exact ih (fun a c hc => hf a c (List.mem_cons_of_mem b hc)) a'

private theorem asks_items (r : ListRef) :
    (items r : Eval κ (List Value)).Asks m (· = m.lists.items r) := ⟨rfl, rfl⟩

/-- To read a list as an array is to ask. -/
theorem asks_cell (r : ListRef) :
    (cell r : Eval κ (Array Value)).Asks m (· = m.lists.cell r) := ⟨rfl, rfl⟩

end Eval

namespace MergeSort

open Eval

variable {m : Machine κ} {less : Value → Value → Eval κ Bool}
  (hless : ∀ a b, (less a b).Asks m fun _ => True)
include hless

/-- A merge whose comparisons only ask does no more, and adds no elements. -/
private theorem mergeOnto_asks {P : Value → Prop} {done left right : List Value}
    (hdone : ∀ v ∈ done, P v) (hleft : ∀ v ∈ left, P v) (hright : ∀ v ∈ right, P v) :
    (mergeOnto less done left right).Asks m fun merged => ∀ v ∈ merged, P v := by
  -- the cases are those of the merge: one side is used up, or both have a first element
  fun_induction mergeOnto less done left right with
  -- what has been merged stands in reverse, with the other side behind it
  | case1 done ys =>
    refine asks_pure fun v hv => ?_
    rw [List.reverseAux_eq, List.mem_append, List.mem_reverse] at hv
    exact hv.elim (hdone v) (hright v)
  | case2 done xs =>
    refine asks_pure fun v hv => ?_
    rw [List.reverseAux_eq, List.mem_append, List.mem_reverse] at hv
    exact hv.elim (hdone v) (hleft v)
  | case3 done x xs y ys ihRight ihLeft =>
    obtain ⟨hx, hxs⟩ := List.forall_mem_cons.1 hleft
    obtain ⟨hy, hys⟩ := List.forall_mem_cons.1 hright
    refine (hless y x).bind fun first _ => ?_
    split
    · exact ihRight (List.forall_mem_cons.2 ⟨hy, hdone⟩) hleft hys
    · exact ihLeft (List.forall_mem_cons.2 ⟨hx, hdone⟩) hxs hright

/-- A sort whose comparisons only ask does no more, and its elements are those of the list. -/
theorem sort_asks {P : Value → Prop} {xs : List Value} (hxs : ∀ v ∈ xs, P v) :
    (sort less xs).Asks m fun sorted => ∀ v ∈ sorted, P v := by
  fun_induction sort less xs with
  | case1 => exact asks_pure hxs
  | case2 xs _ ihLeft ihRight =>
    -- the two halves have elements of the list, so the merge has no others
    refine (ihLeft fun v hv => hxs v (List.mem_of_mem_take hv)).bind fun left hleft => ?_
    refine (ihRight fun v hv => hxs v (List.mem_of_mem_drop hv)).bind fun right hright => ?_
    exact mergeOnto_asks hless (by simp) hleft hright

end MergeSort

/-! ## Effects -/

/-- What a function does to the lists. -/
inductive Effect where
  /-- It leaves them alone. -/
  | reads
  /-- It makes a new list, which it returns. -/
  | makes
  /-- It takes elements away from its first argument or changes their order. -/
  | rearranges
  /-- It puts its arguments into the first of them. -/
  | inserts
deriving DecidableEq, Repr

/-- A value that a call has at hand: an argument, an element of a list, or something that is no
    list. -/
def Value.AtHand (args : List Value) (ls : Lists) (v : Value) : Prop :=
  v ∈ args ∨ (∃ r, v ∈ ls.cell r) ∨ ∀ r, v ≠ .list r

namespace Effect

/-- What a call with some arguments leaves behind that starts on the machine `m` and succeeds: its
    value, and a machine. -/
inductive Outcome (args : List Value) (m : Machine κ) : Effect → Value → Machine κ → Prop where
  | reads {v : Value} (printed : Array String) (hv : v.AtHand args m.lists) :
      Outcome args m .reads v { m with printed }
  | makes {xs : Array Value} (hxs : ∀ x ∈ xs, x.AtHand args m.lists) :
      Outcome args m .makes (.list m.lists.next) { m with lists := m.lists.alloc xs }
  | rearranges {r : ListRef} {f : Array Value → Array Value} {v : Value}
      (hr : args.head? = some (.list r))
      (hf : ∀ x ∈ f (m.lists.cell r), x ∈ m.lists.cell r) (hv : v.AtHand args m.lists) :
      Outcome args m .rearranges v { m with lists := m.lists.modify r f }
  | inserts {r : ListRef} {f : Array Value → Array Value} {v : Value}
      (hr : args.head? = some (.list r)) (hv : v.AtHand args m.lists) :
      Outcome args m .inserts v { m with lists := m.lists.modify r f }

/-- The effect of a primitive, by its name. -/
def ofName (name : String) : Effect :=
  if name = "push!" ∨ name = "set-nth!" then inserts
  else if name = "pop!" ∨ name = "sort!" then rearranges
  else if name ∈ ["list", "rest", "range", "concat", "reverse", "slice", "map", "filter", "split"]
    then makes
  else reads

end Effect

namespace Primitive

open Eval

/-- The call calls functions that it is given. -/
def Consults (p : Primitive κ) (args : List Value) : Prop :=
  p.name ∈ ["map", "filter", "reduce", "apply"] ∨ p.name = "sort!" ∧ args.length = 2

/-- The evaluation has an effect if it succeeds, and none if it fails. -/
def Acts (e : Effect) (args : List Value) (x : Eval κ Value) : Prop :=
  ∀ m, x.Ends m (e.Outcome args m) fun _ m' => m' = m

/-- The primitive has an effect, and no other, unless it calls functions. -/
def Does (p : Primitive κ) (e : Effect) : Prop :=
  ∀ (apply : Applier κ) (args : List Value), p.arity.contains args.length = true →
    ¬ p.Consults args → Acts e args (p.run apply args)

variable {m : Machine κ} {args : List Value}

/-- A value is returned and nothing is done. -/
private theorem outcome_reads {v : Value} (hv : v.AtHand args m.lists) :
    Effect.Outcome args m .reads v m := .reads m.printed hv

/-- What is no list is always at hand. -/
private theorem atHand_of_ne {v : Value} {ls : Lists} (h : ∀ r, v ≠ .list r) : v.AtHand args ls :=
  .inr (.inr h)

/-- What a list holds is at hand. -/
private theorem atHand_of_mem_items {v : Value} {ls : Lists} {r : ListRef} (h : v ∈ ls.items r) :
    v.AtHand args ls :=
  .inr (.inl ⟨r, Array.mem_toList_iff.1 h⟩)

/-- Where an element is asked for that may be missing, `null` is no list. -/
private theorem atHand_getD {o : Option Value} {ls : Lists} {r : ListRef}
    (h : ∀ v ∈ o, v ∈ ls.cell r) : (o.getD .null).AtHand args ls := by
  cases o with
  | none => exact atHand_of_ne fun _ hr => nomatch hr
  | some v => exact .inr (.inl ⟨r, h v rfl⟩)

/-- A new list of what is at hand is made and returned. -/
private theorem ends_newList {xs : List Value} (hxs : ∀ x ∈ xs, x.AtHand args m.lists) :
    (newList xs : Eval κ Value).Ends m (Effect.Outcome args m .makes) fun _ m' => m' = m :=
  (ends_modifyGet _).2 (.makes fun x hx => hxs x (List.mem_toArray.1 hx))

/-! ## Shapes of primitives -/

section Shapes

variable {name : String} {e : Effect}

/-- A function of any number of arguments has the effect of its body. -/
private theorem variadic_does {least : Nat} {f : List Value → Eval κ Value}
    (h : ∀ values, Acts e values (f values)) : (variadic name least f).Does e :=
  fun _ args _ _ => h args

/-- A function of one argument has the effect of its body on that argument. -/
private theorem unary_does {f : Value → Eval κ Value} (h : ∀ a, Acts e [a] (f a)) :
    (unary name f).Does e := by
  intro apply args hargs _
  -- the arity was checked, so there is no other case
  match args, Arity.eq_of_exactly hargs with
  | [a], _ => exact h a

/-- A function of two arguments has the effect of its body on both. -/
private theorem binary_does {f : Value → Value → Eval κ Value} (h : ∀ a b, Acts e [a, b] (f a b)) :
    (binary name f).Does e := by
  intro apply args hargs _
  match args, Arity.eq_of_exactly hargs with
  | [a, b], _ => exact h a b

/-- A function with one optional argument has the effect that its body has in both cases. -/
private theorem unaryOptional_does {f : Value → Option Value → Eval κ Value}
    (h : ∀ a b args, Acts e args (f a b)) : (unaryOptional name f).Does e := by
  intro apply args hargs _
  obtain ⟨a, rfl⟩ | ⟨a, b, rfl⟩ := Arity.one_or_two hargs
  · exact h a none _
  · exact h a (some b) _

/-- A function with an optional third argument has the effect that its body has in both cases. -/
private theorem binaryOptional_does {f : Value → Value → Option Value → Eval κ Value}
    (h : ∀ a b c args, Acts e args (f a b c)) : (binaryOptional name f).Does e := by
  intro apply args hargs _
  obtain ⟨a, b, rfl⟩ | ⟨a, b, c, rfl⟩ := Arity.two_or_three hargs
  · exact h a b none _
  · exact h a b (some c) _

/-- A function of exactly three arguments has the effect of its run on three. -/
theorem Does.of_three {p : Primitive κ} (harity : p.arity = .exactly 3)
    (h : ∀ apply a b c, Acts e [a, b, c] (p.run apply [a, b, c])) : p.Does e := by
  intro apply args hargs _
  rw [harity] at hargs
  match args, Arity.eq_of_exactly hargs with
  | [a, b, c], _ => exact h apply a b c

/-- What is said of calls that call no functions says nothing of a primitive that always does. -/
private theorem does_of_consults {p : Primitive κ}
    (h : p.name ∈ ["map", "filter", "reduce", "apply"]) : p.Does e :=
  fun _ _ _ hnot => absurd (.inl h) hnot

/-- A question that needs nothing of the machine. -/
private theorem question_does {f : Value → Value} (h : ∀ v r, f v ≠ .list r) :
    (unary name fun v => return f v : Primitive κ).Does .reads :=
  unary_does fun v _ => outcome_reads (atHand_of_ne (h v))

end Shapes

/-! ## The core library -/

/-- A short circuit, called as a function, returns one of its arguments. -/
private theorem circuit_does (name : String) (s : ShortCircuit) :
    (circuit name s : Primitive κ).Does .reads := by
  intro apply args _ _ m
  refine outcome_reads ?_
  show (s.outcome args).AtHand args m.lists
  unfold ShortCircuit.outcome
  -- the outcome is one of the arguments, or a constant if there are none
  cases hfound : (args.find? s.settles).or args.getLast? with
  | none =>
    rw [Option.getD_none]
    exact atHand_of_ne fun r hr => by cases s <;> cases hr
  | some v =>
    rw [Option.getD_some]
    rw [Option.or_eq_some_iff] at hfound
    obtain hsettles | ⟨-, hlast⟩ := hfound
    · exact .inl (List.mem_of_find?_eq_some hsettles)
    · exact .inl (List.mem_of_getLast? hlast)

/-- To print is to read, and to add to what has been printed. -/
private theorem print_acts (values : List Value) :
    Acts .reads values (print values : Eval κ Value) := by
  intro m
  refine asks_get.bind fun _ _ => ?_
  rw [ends_bind]
  -- what has been printed is the one thing that reading may change
  exact Effect.Outcome.reads _ (atHand_of_ne fun _ hr => nomatch hr)

/-- A comparison of all arguments only reads. -/
private theorem allEqual_acts (values : List Value) :
    Acts .reads values (allEqual values : Eval κ Value) :=
  fun _ => asks_get.bind fun _ _ => outcome_reads (atHand_of_ne fun _ hr => nomatch hr)

/-- A comparison of two arguments only reads. -/
private theorem differ_acts (a b : Value) : Acts .reads [a, b] (differ a b : Eval κ Value) :=
  fun _ => asks_get.bind fun _ _ => outcome_reads (atHand_of_ne fun _ hr => nomatch hr)

private theorem coreTable_does :
    ∀ p ∈ (coreTable : List (Primitive κ)), p.Does (.ofName p.name) := by
  simp only [coreTable, List.forall_mem_cons, List.not_mem_nil, false_implies, implies_true,
    and_true]
  -- one proof for each entry of the table, in its order
  exact ⟨variadic_does print_acts,
    variadic_does allEqual_acts,
    variadic_does allEqual_acts,
    binary_does differ_acts,
    question_does (by simp),
    circuit_does _ _,
    circuit_does _ _,
    question_does (by simp),
    question_does (by simp),
    question_does (by simp),
    question_does (by simp),
    does_of_consults (by simp)⟩

/-! ## The math library -/

/-- A function of numbers only reads, since a number is no list. -/
private theorem onNumbers_does {name : String} {least : Nat} {f : List Float → Eval κ Float}
    (h : ∀ xs m, (f xs).Asks m fun _ => True) : (onNumbers name least f).Does .reads := by
  refine variadic_does fun values m => (asks_expect _).bind fun xs _ => ?_
  exact (h xs m).bind fun _ _ => outcome_reads (atHand_of_ne (by simp))

/-- A function of one number only reads. -/
private theorem onNumber_does (name : String) (f : Float → Float) :
    (onNumber name f : Primitive κ).Does .reads :=
  unary_does fun _ _ => (asks_expect _).bind fun _ _ => outcome_reads (atHand_of_ne (by simp))

/-- A comparison of two values in an order only reads. -/
private theorem comparison_does (name : String) (accept : Ordering → Bool) :
    (comparison name accept : Primitive κ).Does .reads :=
  binary_does fun _ _ _ => (asks_expect _).bind fun _ _ => outcome_reads (atHand_of_ne (by simp))

/-- A difference is computed without looking at the machine. -/
private theorem subtract_asks (xs : List Float) (m : Machine κ) :
    (subtract xs : Eval κ Float).Asks m fun _ => True := by
  match xs with
  | [] => exact fail_asks _
  | [_] => exact asks_pure trivial
  | _ :: _ :: _ => exact asks_pure trivial

/-- A quotient is computed without looking at the machine. -/
private theorem divide_asks (xs : List Float) (m : Machine κ) :
    (divide xs : Eval κ Float).Asks m fun _ => True := by
  match xs with
  | [] => exact fail_asks _
  | x :: rest =>
    refine Asks.foldlM (fun q y _ => ?_) x
    -- a divisor that is zero ends the division on the way
    split
    · exact fail_asks _
    · exact asks_pure trivial

/-- A remainder is a number or fails, and changes nothing. -/
private theorem modulo_acts (a b : Value) : Acts .reads [a, b] (modulo a b : Eval κ Value) := by
  intro m
  refine (asks_expect _).bind fun x _ => (asks_expect _).bind fun y _ => ?_
  -- the divisor may be zero
  split
  · exact fail_asks _
  · exact outcome_reads (atHand_of_ne (by simp))

private theorem mathTable_does :
    ∀ p ∈ (mathTable : List (Primitive κ)), p.Does (.ofName p.name) := by
  simp only [mathTable, List.forall_mem_cons, List.not_mem_nil, false_implies, implies_true,
    and_true]
  exact ⟨onNumbers_does fun _ _ => asks_pure trivial,
    onNumbers_does subtract_asks,
    onNumbers_does fun _ _ => asks_pure trivial,
    onNumbers_does divide_asks,
    binary_does modulo_acts,
    comparison_does _ _,
    comparison_does _ _,
    comparison_does _ _,
    comparison_does _ _,
    onNumbers_does fun _ _ => asks_pure trivial,
    onNumbers_does fun _ _ => asks_pure trivial,
    onNumber_does _ _,
    onNumber_does _ _,
    onNumber_does _ _,
    onNumber_does _ _,
    onNumber_does _ _,
    binary_does fun _ _ _ => (asks_expect _).bind fun _ _ => (asks_expect _).bind fun _ _ =>
      outcome_reads (atHand_of_ne (by simp))⟩

/-! ## The number library -/

/-- A number that is read from a text, or `null`, is no list. -/
private theorem parseNumber_acts (v : Value) : Acts .reads [v] (parseNumber v : Eval κ Value) := by
  intro m
  refine (asks_expect _).bind fun s _ => outcome_reads (atHand_of_ne fun r => ?_)
  cases numberOfText? s.toList <;> simp

/-- The text of a number is no list. -/
private theorem toFixed_acts (v : Value) (places : Option Value) (args : List Value) :
    Acts .reads args (toFixed v places : Eval κ Value) := by
  intro m
  refine (asks_expect _).bind fun x _ => ?_
  cases places with
  | none => exact outcome_reads (atHand_of_ne (by simp))
  | some places =>
    refine (asks_expect _).bind fun n _ => ?_
    -- there may be more places than are allowed
    split
    · exact outcome_reads (atHand_of_ne (by simp))
    · exact fail_asks _

private theorem numberTable_does :
    ∀ p ∈ (numberTable : List (Primitive κ)), p.Does (.ofName p.name) := by
  simp only [numberTable, List.forall_mem_cons, List.not_mem_nil, false_implies, implies_true,
    and_true]
  exact ⟨question_does (by simp),
    question_does (by simp),
    unary_does fun _ _ => (asks_expect _).bind fun _ _ => outcome_reads (atHand_of_ne (by simp)),
    unary_does parseNumber_acts,
    unaryOptional_does toFixed_acts⟩

/-! ## The list library -/

/-- Only a list is taken for one. -/
theorem eq_of_asList {v : Value} {r : ListRef} (h : v.asList = .ok r) : v = .list r := by
  cases v <;> cases h
  rfl

/-- The elements of an argument are those of the list that it is. -/
theorem itemsOf_asks (v : Value) :
    (itemsOf v : Eval κ (List Value)).Asks m fun xs => ∃ r, v = .list r ∧ xs = m.lists.items r := by
  refine (asks_expect _).bind fun r hr => ?_
  exact (asks_items r).imp fun xs hxs => ⟨r, eq_of_asList hr, hxs⟩

/-- The same, as an array. -/
private theorem cellOf_asks (v : Value) :
    (cellOf v : Eval κ (Array Value)).Asks m fun xs => ∃ r, v = .list r ∧ xs = m.lists.cell r := by
  refine (asks_expect _).bind fun r hr => ?_
  exact (asks_cell r).imp fun xs hxs => ⟨r, eq_of_asList hr, hxs⟩

/-- A function that returns something at hand in a list only reads. -/
private theorem onCell_does {name : String} {f : Array Value → Value}
    (h : ∀ xs r ls, xs = ls.cell r → ∀ args, (f xs).AtHand args ls) :
    (onCell name f : Primitive κ).Does .reads := by
  refine unary_does fun v m => (cellOf_asks v).bind ?_
  rintro xs ⟨r, -, hxs⟩
  exact outcome_reads (h xs r m.lists hxs _)

/-- A function that selects or reorders elements makes a list of them. -/
private theorem onItems_does {name : String} {f : List Value → List Value}
    (h : ∀ xs, ∀ v ∈ f xs, v ∈ xs) : (onItems name f : Primitive κ).Does .makes := by
  refine unary_does fun v m => (itemsOf_asks v).bind ?_
  rintro _ ⟨r, -, rfl⟩
  exact ends_newList fun x hx => atHand_of_mem_items (h _ x hx)

/-- An index that is accepted is a position of the sequence. -/
theorem checkIndex_asks (i : Int) (length : Nat) :
    (checkIndex i length : Eval κ Nat).Asks m fun k : Nat => i = k ∧ k < length := by
  unfold checkIndex
  split
  · exact asks_pure (by omega)
  · exact fail_asks _

/-- An element of a list is at hand. -/
private theorem nth_acts (list index : Value) :
    Acts .reads [list, index] (nth list index : Eval κ Value) := by
  intro m
  refine (cellOf_asks list).bind fun xs hxs => (asks_expect _).bind fun i _ => ?_
  refine (checkIndex_asks i xs.size).bind fun k _ => ?_
  -- the index was checked, and the list has not changed since
  split
  · rename_i v hv
    obtain ⟨r, -, rfl⟩ := hxs
    exact outcome_reads (.inr (.inl ⟨r, Array.mem_of_getElem? hv⟩))
  · exact fail_asks _

/-- The size of a range is computed, or refused, without looking at the machine. -/
private theorem rangeSize_asks (start stop step : Float) :
    (rangeSize start stop step : Eval κ Nat).Asks m fun _ => True := by
  unfold rangeSize
  -- refused are a step of zero, bounds that are not finite, and too many numbers
  split
  · exact fail_asks _
  · split
    · exact fail_asks _
    · split
      · exact fail_asks _
      · exact asks_pure trivial

/-- A range is a new list of numbers. -/
private theorem rangeOf_acts (start stop step : Float) (args : List Value) :
    Acts .makes args (rangeOf start stop step : Eval κ Value) := by
  intro m
  refine (rangeSize_asks start stop step).bind fun n _ => (ends_modifyGet _).2 (.makes ?_)
  intro x hx
  obtain ⟨i, -, rfl⟩ := Array.mem_map.1 hx
  exact atHand_of_ne (by simp)

/-- A range is made from one bound, from two, or from two and a step. -/
private theorem range_acts (values : List Value) :
    Acts .makes values (range values : Eval κ Value) := by
  intro m
  refine (asks_expect _).bind fun xs _ => ?_
  -- with another number of arguments it fails
  split
  · exact rangeOf_acts _ _ _ _ m
  · exact rangeOf_acts _ _ _ _ m
  · exact rangeOf_acts _ _ _ _ m
  · exact fail_asks _

/-- A concatenation is a new list of elements of its arguments. -/
private theorem concat_acts (values : List Value) :
    Acts .makes values (concat values : Eval κ Value) := by
  intro m
  have hparts : (values.mapM itemsOf : Eval κ (List (List Value))).Asks m
      fun parts => ∀ xs ∈ parts, ∃ r, xs = m.lists.items r :=
    .mapM fun v _ => (itemsOf_asks v).imp fun _ ⟨r, _, hxs⟩ => ⟨r, hxs⟩
  -- an element of the result comes from one of the parts
  refine hparts.bind fun parts hitems => ends_newList fun x hx => ?_
  obtain ⟨xs, hxs, hx⟩ := List.mem_flatten.1 hx
  obtain ⟨r, rfl⟩ := hitems xs hxs
  exact atHand_of_mem_items hx

/-- A part of a list has no elements but those of the list. -/
private theorem mem_of_mem_between {start stop : Nat} {xs : List α} {x : α}
    (h : x ∈ Slice.between start stop xs) : x ∈ xs :=
  List.mem_of_mem_drop (List.mem_of_mem_take h)

/-- A slice is a new list of elements of the list. -/
private theorem slice_acts (list start : Value) (stop : Option Value) (args : List Value) :
    Acts .makes args (slice list start stop : Eval κ Value) := by
  intro m
  refine (itemsOf_asks list).bind ?_
  rintro _ ⟨r, -, rfl⟩
  refine (asks_expect _).bind fun i _ => ?_
  -- whatever its end, a slice has no elements but those of the list
  have hmake : ∀ stop, (newList (Slice.between (Slice.resolve i (m.lists.items r).length) stop
      (m.lists.items r)) : Eval κ Value).Ends m (Effect.Outcome args m .makes)
        fun _ m' => m' = m :=
    fun _ => ends_newList fun x hx => atHand_of_mem_items (mem_of_mem_between hx)
  cases stop with
  | none => exact hmake _
  | some stop => exact (asks_expect _).bind fun j _ => hmake _

/-- A position is a number, and its absence is `null`. -/
private theorem indexOf_acts (list v : Value) :
    Acts .reads [list, v] (indexOf list v : Eval κ Value) := by
  intro m
  refine (itemsOf_asks list).bind fun xs _ => asks_get.bind fun _ _ => ?_
  dsimp only
  split
  · exact outcome_reads (atHand_of_ne (by simp [countValue]))
  · exact outcome_reads (atHand_of_ne (by simp))

/-- To push is to put the other arguments into the first. -/
private theorem push_acts (values : List Value) :
    Acts .inserts values (push values : Eval κ Value) := by
  intro m
  match values with
  | [] => exact fail_asks _
  | list :: values =>
    refine (asks_expect _).bind fun r hr => ?_
    rw [eq_of_asList hr, ends_bind]
    exact Effect.Outcome.inserts rfl (.inl List.mem_cons_self)

/-- To pop is to take the last element away. -/
private theorem pop_acts (list : Value) : Acts .rearranges [list] (pop list : Eval κ Value) := by
  intro m
  refine (asks_expect _).bind fun r hr => (asks_cell r).bind fun xs hxs => ?_
  rw [eq_of_asList hr, ends_bind, hxs]
  have hlast : ((m.lists.cell r).back?.getD .null).AtHand [.list r] m.lists :=
    atHand_getD fun v hv => Array.mem_of_back? hv
  refine Effect.Outcome.rearranges rfl (fun x hx => ?_) hlast
  -- what is left is part of what there was
  rw [← Array.mem_toList_iff, Array.toList_pop] at hx
  exact Array.mem_toList_iff.1 (List.dropLast_subset _ hx)

/-- To replace an element is to put an argument into the first. -/
private theorem setNth_acts (list index v : Value) :
    Acts .inserts [list, index, v] (setNth list index v : Eval κ Value) := by
  intro m
  refine (asks_expect _).bind fun r hr => (asks_expect _).bind fun i _ => ?_
  refine (asks_cell r).bind fun xs _ => (checkIndex_asks i xs.size).bind fun k _ => ?_
  rw [eq_of_asList hr, ends_bind]
  exact Effect.Outcome.inserts rfl (.inl (by simp))

/-- The natural order is decided without looking at the machine. -/
private theorem naturalLess_asks (a b : Value) :
    (naturalLess a b : Eval κ Bool).Asks m fun _ => True := by
  unfold naturalLess
  -- two numbers, two strings, and what cannot be compared
  split
  · split
    · exact fail_asks _
    · exact asks_pure trivial
  · exact asks_pure trivial
  · exact fail_asks _
  · exact fail_asks _

/-- To sort by the natural order is to rearrange the list. -/
theorem sort_acts (apply : Applier κ) (list : Value) :
    Acts .rearranges [list] (sort apply list none) := by
  intro m
  refine (asks_expect _).bind fun r hr => (asks_items r).bind fun xs hxs => ?_
  have hmem : ∀ v ∈ xs, v ∈ m.lists.cell r := by
    rw [hxs]
    exact fun v hv => Array.mem_toList_iff.1 hv
  -- the natural order only asks, so the list is still as it was read when it is written back
  refine (MergeSort.sort_asks naturalLess_asks hmem).bind fun sorted hsorted => ?_
  rw [ends_bind]
  have hhead : [list].head? = some (.list r) := by rw [eq_of_asList hr, List.head?_cons]
  exact Effect.Outcome.rearranges hhead (fun x hx => hsorted x (List.mem_toArray.1 hx))
    (.inl List.mem_cons_self)

/-- Each function of the list library has the effect of its name. -/
private theorem listTable_does :
    ∀ p ∈ (listTable : List (Primitive κ)), p.Does (.ofName p.name) := by
  simp only [listTable, List.forall_mem_cons, List.not_mem_nil, false_implies, implies_true,
    and_true]
  refine ⟨variadic_does fun values m => ends_newList fun x hx => .inl hx,
    question_does (by simp),
    onCell_does fun _ _ _ _ _ => atHand_of_ne (by simp [countValue]),
    onCell_does fun _ _ _ _ _ => atHand_of_ne (by simp),
    onCell_does fun xs r ls hxs _ => atHand_getD fun v hv => hxs ▸ Array.mem_of_getElem? hv,
    onCell_does fun xs r ls hxs _ => atHand_getD fun v hv => hxs ▸ Array.mem_of_back? hv,
    onItems_does fun _ _ => List.mem_of_mem_tail,
    binary_does nth_acts,
    fun _ args _ _ => range_acts args,
    variadic_does concat_acts,
    onItems_does fun _ _ => List.mem_reverse.1,
    binaryOptional_does slice_acts,
    binary_does indexOf_acts,
    does_of_consults (by simp),
    does_of_consults (by simp),
    does_of_consults (by simp),
    variadic_does push_acts,
    unary_does pop_acts,
    .of_three rfl fun _ => setNth_acts,
    ?_⟩
  -- sorting consults a function only if it is given one
  intro apply args hargs hnot
  obtain ⟨list, rfl⟩ | ⟨list, less, rfl⟩ := Arity.one_or_two hargs
  · exact sort_acts apply list
  · exact absurd (.inr ⟨rfl, rfl⟩) hnot

/-! ## The string library -/

/-- A function of characters only reads, provided that it returns no list. -/
private theorem onChars_does {name : String} {f : List Char → Value} (h : ∀ cs r, f cs ≠ .list r) :
    (onChars name f : Primitive κ).Does .reads :=
  unary_does fun _ _ => (asks_expect _).bind fun _ _ => outcome_reads (atHand_of_ne (h _))

/-- A test on two strings only reads. -/
private theorem onTwoStrings_does (name : String) (test : List Char → List Char → Bool) :
    (onTwoStrings name test : Primitive κ).Does .reads :=
  binary_does fun _ _ _ => (asks_expect _).bind fun _ _ => (asks_expect _).bind fun _ _ =>
    outcome_reads (atHand_of_ne (by simp))

/-- A part of a string is no list. -/
private theorem substring_acts (text start : Value) (stop : Option Value) (args : List Value) :
    Acts .reads args (substring text start stop : Eval κ Value) := by
  intro m
  refine (asks_expect _).bind fun s _ => (asks_expect _).bind fun i _ => ?_
  cases stop with
  | none => exact outcome_reads (atHand_of_ne (by simp [ofChars]))
  | some stop =>
    exact (asks_expect _).bind fun j _ => outcome_reads (atHand_of_ne (by simp [ofChars]))

/-- The pieces of a string are strings, in a new list. -/
private theorem split_acts (text separator : Value) :
    Acts .makes [text, separator] (split text separator : Eval κ Value) := by
  intro m
  refine (asks_expect _).bind fun s _ => (asks_expect _).bind fun sep _ => ends_newList ?_
  intro x hx
  obtain ⟨piece, -, rfl⟩ := List.mem_map.1 hx
  exact atHand_of_ne (by simp [ofChars])

/-- The texts of a list make a string, which is no list. -/
private theorem join_acts (list separator : Value) :
    Acts .reads [list, separator] (join list separator : Eval κ Value) := by
  intro m
  refine (asks_expect _).bind fun sep _ => (asks_expect _).bind fun r _ => ?_
  exact asks_get.bind fun _ _ => outcome_reads (atHand_of_ne (by simp))

/-- Each function of the string library has the effect of its name. -/
private theorem stringTable_does :
    ∀ p ∈ (stringTable : List (Primitive κ)), p.Does (.ofName p.name) := by
  simp only [stringTable, List.forall_mem_cons, List.not_mem_nil, false_implies, implies_true,
    and_true]
  exact ⟨question_does (by simp),
    variadic_does fun _ _ => asks_get.bind fun _ _ => outcome_reads (atHand_of_ne (by simp)),
    unary_does fun _ _ => asks_get.bind fun _ _ => outcome_reads (atHand_of_ne (by simp)),
    onChars_does (by simp),
    binaryOptional_does substring_acts,
    onChars_does (by simp [ofChars]),
    onChars_does (by simp [ofChars]),
    onChars_does (by simp [ofChars]),
    binary_does split_acts,
    binary_does join_acts,
    onTwoStrings_does _ _,
    onTwoStrings_does _ _,
    onTwoStrings_does _ _⟩

end Primitive

/-- Every primitive has the effect of its name. -/
theorem Library.primitives_do (l : Library) :
    ∀ p ∈ (l.primitives : List (Primitive κ)), p.Does (.ofName p.name) := by
  cases l with
  | core => exact Primitive.coreTable_does
  | math => exact Primitive.mathTable_does
  | number => exact Primitive.numberTable_does
  | list => exact Primitive.listTable_does
  | string => exact Primitive.stringTable_does
  | ext => intro p hp; cases hp

end Lisplet
