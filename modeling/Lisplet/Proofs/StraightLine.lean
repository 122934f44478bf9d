import Lisplet.Proofs.Acyclicity
import Lisplet.Proofs.Evaluation
import Lisplet.Proofs.Fuel
import Lisplet.Proofs.NamingRule

/-! # Programs without loops and functions

Code runs again in a loop, or as the body of a function.  A program that has neither can still call
functions that it finds in lists, and go on calling: `apply` may be handed to `apply`.  But the
arguments of such a call are elements of a list, and where nothing can be put into a list they are
older than the list.  So calls nest no deeper than there are lists, and an expression makes no more
lists than it has parts: the size of a program bounds the fuel that it needs.

`x.Completes limit n cost Q` says that `x` is not given up on a machine that has at least `n` lists,
and room for `cost` more of them below `limit`; and that it makes no more lists than that.

* `Expr.IsStraight`                      expressions without loops and functions
* `Eval.Completes`                       evaluations that are not given up
* `Evaluator.withFuel_completesBelow`    calls, by induction on the age of their arguments
* `Evaluator.withFuel_completes`         expressions, by induction on their size
* `Session.straight_line_terminates`     programs -/

namespace Lisplet

open Eval

variable {κ α β : Type}

/-! ## Straight-line expressions -/

namespace Expr

mutual

/-- The number of expressions that an expression is made of, itself among them. -/
def size : Expr → Nat
  | call items => sizeAll items + 1
  | list items => sizeAll items + 1
  | _ => 1

/-- The number of expressions that several expressions are made of. -/
def sizeAll : List Expr → Nat
  | [] => 0
  | e :: es => e.size + sizeAll es

end

/-- The name that a call with these items starts with. -/
def headName? : List Expr → Option String
  | identifier name :: _ => some name
  | _ => none

mutual

/-- The names that calls start with, anywhere in an expression. -/
def heads : Expr → List String
  | call items => (headName? items).toList ++ headsAll items
  | list items => headsAll items
  | _ => []

/-- The names that calls start with, anywhere in several expressions. -/
def headsAll : List Expr → List String
  | [] => []
  | e :: es => e.heads ++ headsAll es

end

/-- No call in the expression is a loop or makes a function. -/
def IsStraight (e : Expr) : Prop :=
  ∀ name ∈ e.heads, name ∉ ["while", "do", "for", "function", "lambda"]

/-- An expression is made of itself at least. -/
private theorem size_pos (e : Expr) : 0 < e.size := by
  cases e <;> simp [size]

/-- The names of several expressions are those of each of them. -/
private theorem mem_headsAll {name : String} {es : List Expr} :
    name ∈ headsAll es ↔ ∃ e ∈ es, name ∈ e.heads := by
  induction es with
  | nil => simp [headsAll]
  | cons e es ih => simp [headsAll, ih]

/-- An expression is no larger than several that it is one of. -/
private theorem size_le_sizeAll {e : Expr} {es : List Expr} (h : e ∈ es) : e.size ≤ sizeAll es := by
  induction es with
  | nil => cases h
  | cons e' es ih =>
    rw [sizeAll]
    obtain rfl | h := List.mem_cons.1 h
    · exact Nat.le_add_right _ _
    · have hle := ih h
      omega

/-- The parts of a straight-line call are straight-line. -/
private theorem IsStraight.of_mem_call {items : List Expr} (h : (call items).IsStraight) {e : Expr}
    (he : e ∈ items) : e.IsStraight :=
  fun name hname => h name (List.mem_append_right _ (mem_headsAll.2 ⟨e, he, hname⟩))

/-- And so are the items of a list. -/
private theorem IsStraight.of_mem_list {items : List Expr} (h : (list items).IsStraight) {e : Expr}
    (he : e ∈ items) : e.IsStraight :=
  fun name hname => h name (mem_headsAll.2 ⟨e, he, hname⟩)

end Expr

/-! ## Evaluations that are not given up -/

/-- Naming the function leaves it open whether the evaluation was given up. -/
private theorem Unwind.isExhausted_named {function : String} {u : Unwind} :
    (u.named function).IsExhausted ↔ u.IsExhausted := by
  cases u with
  | signal s => exact Iff.rfl
  | failure e => cases e <;> simp [named, IsExhausted]

/-- No function was made on the machine, and lists hold older lists only. -/
structure Machine.Plain (m : Machine κ) : Prop where
  ranked : m.Ranked .byAge
  closures : m.closures = #[]

/-- Journals do not matter. -/
private theorem Machine.Plain.of_silent {m m' : Machine κ} (h : m.Plain)
    (hm : m'.silent = m.silent) : m'.Plain := by
  have hscopes : m'.scopes = m.scopes := congrArg (·.scopes) hm
  have hclosures : m'.closures = m.closures := congrArg (·.closures) hm
  exact ⟨h.ranked.of_eq (lists_eq_of_silent hm) hscopes, hclosures.trans h.closures⟩

namespace Eval

/-- From a plain machine with at least `n` lists and room for `cost` more, the evaluation is not
    given up.  If it succeeds, it has made at most `cost` lists, and its value satisfies `Q`. -/
def Completes (limit n cost : Nat) (Q : Nat → α → Prop) (x : Eval κ α) : Prop :=
  ∀ m, m.Plain → n ≤ m.lists.size → m.lists.size + cost ≤ limit →
    x.Ends m (fun a m' => m'.Plain ∧ m.lists.size ≤ m'.lists.size ∧
      m'.lists.size ≤ m.lists.size + cost ∧ Q m'.lists.size a) fun u _ => ¬ u.IsExhausted

variable {limit n cost : Nat} {P : Nat → β → Prop} {Q Q' : Nat → α → Prop} {x : Eval κ α}

theorem Completes.imp (h : x.Completes limit n cost Q) (hQ : ∀ k a, n ≤ k → Q k a → Q' k a) :
    x.Completes limit n cost Q' := by
  intro m hm hn hroom
  refine (h m hm hn hroom).imp_post fun a m' ha => ?_
  obtain ⟨hm', hsize, hcost, hQa⟩ := ha
  exact ⟨hm', hsize, hcost, hQ _ a (Nat.le_trans hn hsize) hQa⟩

/-- More lists at the start do no harm. -/
theorem Completes.mono {k : Nat} (h : x.Completes limit n cost Q) (hk : n ≤ k) :
    x.Completes limit k cost Q :=
  fun m hm hn hroom => h m hm (Nat.le_trans hk hn) hroom

/-- Room that is not needed does no harm. -/
theorem Completes.of_le {cost' : Nat} (h : x.Completes limit n cost Q) (hle : cost ≤ cost') :
    x.Completes limit n cost' Q := by
  intro m hm hn hroom
  refine (h m hm hn (by omega)).imp_post fun a m' ha => ?_
  obtain ⟨hm', hsize, hcost, hQa⟩ := ha
  exact ⟨hm', hsize, by omega, hQa⟩

/-- Beyond the limit there is no room. -/
private theorem completes_of_limit_lt (h : limit < n) : x.Completes limit n cost Q := by
  intro m _ hn hroom
  omega

/-- What keeps machines ranked completes if it makes no functions, few lists, and is not given
    up. -/
private theorem Keeps.completes (h : x.Keeps .byAge n Q)
    (hx : ∀ m, x.Ends m (fun _ m' => m'.closures = m.closures ∧
      m'.lists.size ≤ m.lists.size + cost) fun u _ => ¬ u.IsExhausted) :
    x.Completes limit n cost Q := by
  intro m hm hn _
  refine ((h m hm.ranked hn).and (hx m)).imp ?_ fun _ _ hu => hu.2
  rintro a m' ⟨⟨hranked, hsize, hQ⟩, hclosures, hcost⟩
  exact ⟨⟨hranked, hclosures.trans hm.closures⟩, hsize, hcost, hQ⟩

/-! ### Composition -/

/-- A value that can be met, without a list that is made for it. -/
private theorem completes_pure {a : α} (h : ∀ k, n ≤ k → Q k a) :
    (pure a : Eval κ α).Completes limit n cost Q :=
  (keeps_pure h).completes fun _ => ⟨rfl, Nat.le_add_right _ _⟩

/-- To throw is not to give up, unless that is what is thrown. -/
private theorem completes_throw {u : Unwind} (h : ¬ u.IsExhausted) :
    (throw u : Eval κ α).Completes limit n cost Q :=
  fun _ _ _ _ => h

/-- A failure of another kind is an outcome. -/
private theorem completes_fail {e : Error} (h : e ≠ .exhausted) :
    (fail e : Eval κ α).Completes limit n cost Q :=
  completes_throw (Unwind.not_isExhausted_failure h)

/-- The lists that two steps make add up. -/
theorem Completes.bind {c d : Nat} {y : Eval κ β} {f : β → Eval κ α}
    (hy : y.Completes limit n c P)
    (hf : ∀ k, n ≤ k → ∀ b, P k b → (f b).Completes limit k d Q) :
    (y >>= f).Completes limit n (c + d) Q := by
  intro m hm hn hroom
  rw [ends_bind]
  refine (hy m hm hn (by omega)).imp_post ?_
  rintro b m₁ ⟨hm₁, hsize, hcost, hb⟩
  -- the lists that the first part did not make are left for the second
  have hroom₁ : m₁.lists.size + d ≤ limit := by omega
  have hrest := hf m₁.lists.size (Nat.le_trans hn hsize) b hb m₁ hm₁ (Nat.le_refl _) hroom₁
  refine hrest.imp_post ?_
  rintro a m₂ ⟨hm₂, hsize₂, hcost₂, ha⟩
  exact ⟨hm₂, by omega, by omega, ha⟩

/-- The first part makes no lists. -/
private theorem Completes.bind_free {y : Eval κ β} {f : β → Eval κ α} (hy : y.Completes limit n 0 P)
    (hf : ∀ k, n ≤ k → ∀ b, P k b → (f b).Completes limit k cost Q) :
    (y >>= f).Completes limit n cost Q :=
  (hy.bind hf).of_le (Nat.le_of_eq (Nat.zero_add cost))

/-- To name the function in a failure makes no list. -/
theorem Completes.pinned {function : String} (h : x.Completes limit n cost Q) :
    (pinned function x).Completes limit n cost Q := by
  intro m hm hn hroom
  refine Ends.pinned ((h m hm hn hroom).imp (fun _ _ ha => ha) fun u m' hu => ?_)
  rwa [Unwind.isExhausted_named]

/-! ### Operations of the machine -/

private theorem completes_record (level : Level) (message : Machine κ → String) :
    (record level message).Completes limit n 0 fun _ _ => True := by
  refine (keeps_record level message).completes fun m => (ends_modify _).2 ?_
  obtain ⟨journal, hj⟩ := m.exists_record_eq level message
  rw [hj]
  exact ⟨rfl, Nat.le_refl _⟩

/-- To make a frame makes no list. -/
private theorem completes_spawn (scope : FrameRef) :
    (spawn scope : Eval κ FrameRef).Completes limit n 0 fun _ _ => True :=
  (keeps_spawn scope).completes fun _ => ⟨rfl, Nat.le_refl _⟩

/-- To bind a name makes no list. -/
private theorem completes_define (scope : FrameRef) (name : String) {v : Value} (hv : v.rank ≤ n) :
    (define scope name v : Eval κ Unit).Completes limit n 0 fun _ _ => True :=
  (keeps_define scope name hv).completes fun _ => ⟨rfl, Nat.le_refl _⟩

/-- What a name is bound to exists already. -/
private theorem completes_get? (scope : FrameRef) (name : String) :
    (get? scope name : Eval κ (Option Value)).Completes limit n 0
      fun k bound => ∀ v ∈ bound, v.rank ≤ k :=
  (keeps_get? scope name).completes fun _ => ⟨rfl, Nat.le_refl _⟩

/-- The same, where a name without meaning is a failure. -/
private theorem completes_lookup (scope : FrameRef) (name : String) :
    (lookup scope name : Eval κ Value).Completes limit n 0 Ranking.byAge.admits := by
  refine (completes_get? scope name).bind_free fun k _ bound hbound => ?_
  cases bound with
  | some v => exact completes_pure fun j hj => Nat.le_trans (hbound v rfl) hj
  | none => exact completes_fail (by simp)

/-- To change a binding makes no list, and a name without meaning is a failure of its own. -/
private theorem completes_assign (scope : FrameRef) (name : String) {v : Value} (hv : v.rank ≤ n) :
    (assign scope name v : Eval κ Value).Completes limit n 0 Ranking.byAge.admits := by
  refine (keeps_assign scope name hv).completes fun m => ?_
  rw [Ends, assign_eq]
  cases m.scopes.holder? scope name with
  | some holder => exact ⟨rfl, Nat.le_refl _⟩
  | none => exact Unwind.not_isExhausted_failure (by simp)

/-- The elements of a list are older than the list. -/
private theorem completes_items (r : ListRef) :
    (items r : Eval κ (List Value)).Completes limit n 0 fun _ xs => ∀ v ∈ xs, v.rank ≤ r.index :=
  ((keeps_items r).imp fun _ _ _ hxs v hv => (hxs v hv).1).completes fun _ => ⟨rfl, Nat.le_refl _⟩

/-- A list literal makes one list. -/
private theorem completes_newList {xs : List Value} (hxs : ∀ v ∈ xs, v.rank ≤ n) :
    (newList xs : Eval κ Value).Completes limit n 1 Ranking.byAge.admits :=
  ((keeps_newList hxs).imp fun _ _ _ hv => hv.admits).completes fun m =>
    ⟨rfl, Nat.le_of_eq (m.lists.size_alloc _)⟩

/-- There is no function whose code could be found. -/
private theorem completes_code? (r : ClosureRef) :
    (code? r : Eval κ (Option Closure)).Completes limit n 0 fun _ c => c = none := by
  intro m hm _ _
  refine ⟨hm, Nat.le_refl _, Nat.le_refl _, ?_⟩
  rw [hm.closures]
  rfl

/-- A value of the wrong kind is a failure of its own. -/
private theorem completes_expect (r : Except Mismatch α) :
    (expect r : Eval κ α).Completes limit n 0 fun _ a => r = .ok a := by
  cases r with
  | ok a => exact completes_pure fun _ _ => rfl
  | error cause => exact completes_fail (by simp)

/-- So is a wrong number of arguments. -/
private theorem completes_checkArity (name : String) (arity : Arity) (got : Nat) :
    (checkArity name arity got : Eval κ Unit).Completes limit n 0 fun _ _ => True := by
  unfold checkArity
  split
  · exact completes_pure fun _ _ => trivial
  · exact completes_fail (by simp)

end Eval

/-! ## Calls -/

/-- Calls complete if their arguments existed when there were fewer than `bound` lists. -/
def Applier.CompletesBelow (limit bound : Nat) (apply : Applier κ) : Prop :=
  ∀ n < bound, ∀ callee args, (∀ v ∈ args, v.rank ≤ n) →
    (apply callee args).Completes limit n 1 Ranking.byAge.admits

namespace Primitive

variable {limit n cost : Nat} {apply : Applier κ} {args : List Value}

/-- A call completes if the run does that it makes. -/
private theorem call_completes {Q : Nat → Value → Prop} {p : Primitive κ}
    (h : p.arity.contains args.length = true → (p.run apply args).Completes limit n cost Q) :
    (p.call apply args).Completes limit n cost Q := by
  intro m hm hn hroom
  by_cases hlen : p.arity.contains args.length = true
  · -- the run starts and ends on machines that differ by records only
    obtain ⟨m₀, hm₀, hcall⟩ := exists_ends_call hlen m
    have hlists := Machine.lists_eq_of_silent hm₀
    rw [← hlists] at hn hroom ⊢
    refine (hcall (h hlen m₀ (hm.of_silent hm₀) hn hroom)).imp ?_ ?_
    · rintro v m' ⟨m₁, ⟨hm₁, hsize, hcost, hv⟩, hm'⟩
      rw [Machine.lists_eq_of_silent hm']
      exact ⟨hm₁.of_silent hm', hsize, hcost, hv⟩
    · rintro u m' ⟨u₁, m₁, hu₁, rfl, -⟩
      rwa [Unwind.isExhausted_named]
  · unfold Primitive.call checkArity
    rw [ends_bind, if_neg hlen, ends_fail]
    exact Unwind.not_isExhausted_failure (by simp)

/-- An effect makes one list at most, and no function. -/
private theorem completes_of_acts {e : Effect} {x : Eval κ Value} (h : Acts e args x)
    (he : e ≠ .inserts) (hfinishes : x.Finishes) (hargs : ∀ v ∈ args, v.rank ≤ n) :
    x.Completes limit n 1 Ranking.byAge.admits := by
  have hkeeps := (keeps_of_acts (ρ := .byAge) h (fun h => absurd h he) hargs).imp
    fun _ _ _ hv => hv.1
  refine hkeeps.completes fun m => ((h m).and (hfinishes m)).imp ?_ fun _ _ hu => hu.2
  rintro v m' ⟨hout, -⟩
  -- of the four effects only one makes a list, and one is excluded
  cases hout with
  | reads printed hv => exact ⟨rfl, Nat.le_succ _⟩
  | makes hxs => exact ⟨rfl, Nat.le_of_eq (m.lists.size_alloc _)⟩
  | rearranges hr hf hv => exact ⟨rfl, by simp⟩
  | inserts hr hv => exact absurd rfl he

/-- The function is called with the elements of a list, which are older than the list. -/
private theorem applyToList_completes (ha : apply.CompletesBelow limit n) (f : Value)
    {arguments : Value} (hrank : arguments.rank ≤ n) :
    (applyToList apply f arguments).Completes limit n 1 Ranking.byAge.admits := by
  refine (completes_expect _).bind_free fun k hk f _ => ?_
  refine (completes_expect _).bind_free fun k' hk' r hr => ?_
  refine (completes_items r).bind_free fun j hj xs hxs => ?_
  rw [eq_of_asList hr] at hrank
  have hindex : r.index < n := hrank
  have hcall := ha r.index hindex f xs hxs
  exact hcall.mono (by omega)

end Primitive

namespace Library

variable {l : Library} {p : Primitive κ}

/-- Outside the list library, the names of the functions that call functions or put values into
    lists are all free, apart from `apply`. -/
private theorem name_not_mem_of_ne_list (hl : l ≠ .list) (hp : p ∈ l.primitives) :
    p.name ∉ ["map", "filter", "reduce", "sort!", "push!", "set-nth!"] := by
  have hall : ∀ l ∈ all, l ≠ .list → ∀ name ∈ l.primitiveNames,
      name ∉ ["map", "filter", "reduce", "sort!", "push!", "set-nth!"] := by
    decide +kernel
  exact hall l l.mem_all hl p.name (name_mem_primitiveNames hp)

/-- The primitive of the name `apply`. -/
private theorem eq_applyToList_of_name (hp : p ∈ l.primitives) (hname : p.name = "apply") :
    p.arity = .exactly 2 ∧ ∀ apply f arguments,
      p.run apply [f, arguments] = Primitive.applyToList apply f arguments := by
  have hcore : ∀ p ∈ (core.primitives : List (Primitive κ)), p.name = "apply" →
      p.arity = .exactly 2 ∧ ∀ apply f arguments,
        p.run apply [f, arguments] = Primitive.applyToList apply f arguments := by
    -- all others are out because of their names
    simp [primitives, Primitive.coreTable, Primitive.variadic, Primitive.binary, Primitive.unary,
      Primitive.circuit]
  have hlast : ∃ p' ∈ (core.primitives : List (Primitive κ)), p'.name = "apply" :=
    ⟨_, List.getLast_mem (List.cons_ne_nil _ _), rfl⟩
  obtain ⟨p', hp', hname'⟩ := hlast
  obtain rfl := eq_of_primitive_name hp hp' (hname.trans hname'.symm)
  exact hcore p hp hname

/-- Outside the list library, calls complete if calls do whose arguments are older. -/
private theorem call_completes {limit n : Nat} (hl : l ≠ .list) (hp : p ∈ l.primitives)
    {apply : Applier κ} (ha : apply.CompletesBelow limit n) {args : List Value}
    (hargs : ∀ v ∈ args, v.rank ≤ n) :
    (p.call apply args).Completes limit n 1 Ranking.byAge.admits := by
  refine Primitive.call_completes fun hlen => ?_
  by_cases hname : p.name = "apply"
  · obtain ⟨harity, hrun⟩ := eq_applyToList_of_name hp hname
    rw [harity] at hlen
    obtain ⟨f, arguments, rfl⟩ := List.length_eq_two.1 (Arity.eq_of_exactly hlen)
    rw [hrun]
    exact Primitive.applyToList_completes ha f (hargs arguments (by simp))
  · have hnames := name_not_mem_of_ne_list hl hp
    have hconsults : ¬ p.Consults args := by
      simp_all [Primitive.Consults]
    have hinserts : Effect.ofName p.name ≠ .inserts := by
      intro h
      obtain h | h := Effect.name_of_inserts h <;> simp [h] at hnames
    exact Primitive.completes_of_acts (l.primitives_do p hp apply args hlen hconsults) hinserts
      (primitives_finish hl hp hname apply args) hargs

end Library

/-- Calls of library functions complete if calls do whose arguments are older. -/
def Registry.Completes (limit : Nat) (reg : Registry κ) : Prop :=
  ∀ entry ∈ reg.entries, ∀ (apply : Applier κ) n args, apply.CompletesBelow limit n →
    (∀ v ∈ args, v.rank ≤ n) → (entry.call apply args).Completes limit n 1 Ranking.byAge.admits

/-- Without host functions and without the list library, calls of library functions complete. -/
private theorem Registry.ofLibraries_completes {libraries : List Library} (h : .list ∉ libraries)
    (limit : Nat) : (ofLibraries [] libraries : Registry κ).Completes limit := by
  intro entry hentry apply n args ha hargs
  obtain ⟨l, hl, hmem⟩ := List.mem_flatMap.1 hentry
  have hne : l ≠ .list := fun heq => h (heq ▸ hl)
  -- without host functions every entry is a primitive
  obtain ⟨p, hp, rfl⟩ : ∃ p ∈ l.primitives, (⟨l, p.name, .primitive p⟩ : Entry κ) = entry := by
    cases l with
    | ext => cases hmem
    | _ => exact List.mem_map.1 hmem
  exact Library.call_completes hne hp ha hargs

/-! ## Constructs of the language -/

namespace Evaluator

/-- Expressions of a kind complete, with no more lists than their size, and so do calls. -/
structure Completes (limit : Nat) (IsKnown : Expr → Prop) (ev : Evaluator κ) : Prop where
  eval : ∀ {e}, IsKnown e → ∀ n scope,
    (ev.eval e scope).Completes limit n e.size Ranking.byAge.admits
  apply : ∀ n, ev.apply.CompletesBelow limit n

variable {limit n : Nat} {IsKnown : Expr → Prop} {ev : Evaluator κ}
  (h : ev.Completes limit IsKnown) {scope : FrameRef}

/-- A constant can be met at any time. -/
private theorem completes_atom {cost : Nat} {v : Value} (hv : ∀ r, v ≠ .list r) :
    (pure v : Eval κ Value).Completes limit n cost Ranking.byAge.admits :=
  completes_pure fun _ _ => Ranking.byAge.of_not_list hv

private theorem completes_null {cost : Nat} :
    (pure .null : Eval κ Value).Completes limit n cost Ranking.byAge.admits :=
  completes_atom (by simp)

include h

/-- A call makes one list at most. -/
private theorem apply_completes (callee : Value) {args : List Value}
    (hargs : ∀ v ∈ args, v.rank ≤ n) :
    (ev.apply callee args).Completes limit n 1 Ranking.byAge.admits :=
  h.apply (n + 1) n (Nat.lt_succ_self n) callee args hargs

/-- Expressions that are evaluated in turn make no more lists than they have parts together. -/
private theorem sequence_completes {es : List Expr} (hes : ∀ e ∈ es, IsKnown e) :
    (ev.sequence es scope).Completes limit n (Expr.sizeAll es)
      fun k vs => ∀ v ∈ vs, v.rank ≤ k := by
  unfold sequence
  induction es generalizing n with
  | nil => exact completes_pure (by simp)
  | cons e es ih =>
    obtain ⟨he, hes⟩ := List.forall_mem_cons.1 hes
    rw [List.mapM_cons]
    -- the value of the first may grow old while the others are evaluated
    refine (h.eval he n scope).bind fun k _ v hv => ?_
    refine (ih hes).bind (d := 0) fun j hj vs hvs => completes_pure fun i hi => ?_
    rw [List.forall_mem_cons]
    exact ⟨Ranking.byAge.mono (Nat.le_trans hj hi) hv, fun w hw => Nat.le_trans (hvs w hw) hi⟩

/-- So does a body. -/
private theorem body_completes {es : List Expr} (hes : ∀ e ∈ es, IsKnown e) :
    (ev.body es scope).Completes limit n (Expr.sizeAll es) Ranking.byAge.admits := by
  -- the induction is for any value before it, since the value of a body is the last one
  have hfold : ∀ {n} {last : Value}, last.rank ≤ n →
      (es.foldlM (fun _ e => ev.eval e scope) last).Completes limit n (Expr.sizeAll es)
        Ranking.byAge.admits := by
    induction es with
    | nil => exact fun hlast => completes_pure fun k hk => Nat.le_trans hlast hk
    | cons e es ih =>
      intro n last _
      obtain ⟨he, hes⟩ := List.forall_mem_cons.1 hes
      rw [List.foldlM_cons]
      exact (h.eval he n scope).bind fun k _ v hv => ih hes hv
  exact hfold (Nat.zero_le n)

/-- So does a short circuit, which may stop early. -/
private theorem shortCircuit_completes (s : ShortCircuit) {last : Value} (hlast : last.rank ≤ n)
    {es : List Expr} (hes : ∀ e ∈ es, IsKnown e) :
    (ev.shortCircuit s scope last es).Completes limit n (Expr.sizeAll es)
      Ranking.byAge.admits := by
  induction es generalizing n last with
  | nil => exact completes_pure fun k hk => Nat.le_trans hlast hk
  | cons e es ih =>
    obtain ⟨he, hes⟩ := List.forall_mem_cons.1 hes
    refine (h.eval he n scope).bind fun k _ v hv => ?_
    split
    · exact completes_pure fun j hj => Ranking.byAge.mono hj hv
    · exact ih hv hes

/-- A condition makes no more lists than it has parts. -/
private theorem test_completes {condition : Expr} (hcondition : IsKnown condition) :
    (ev.test condition scope).Completes limit n condition.size fun _ _ => True :=
  (h.eval hcondition n scope).bind (d := 0) fun _ _ _ _ => completes_pure fun _ _ => trivial

end Evaluator

namespace Form

variable {limit n : Nat}

/-- To read off a name makes no list. -/
private theorem nameOf_completes (k : Keyword) (e : Expr) :
    (nameOf k e : Eval κ String).Completes limit n 0 fun _ _ => True := by
  unfold nameOf
  split
  · exact completes_pure fun _ _ => trivial
  · exact completes_fail (by simp)

/-- To check for a number makes no list. -/
private theorem numberIn_completes (k : Keyword) (v : Value) :
    (numberIn k v : Eval κ Float).Completes limit n 0 fun _ _ => True :=
  ((completes_expect _).imp fun _ _ _ _ => trivial).pinned

variable {IsKnown : Expr → Prop} {ev : Evaluator κ} (h : ev.Completes limit IsKnown)
  (scope : FrameRef)
include h

/-- To bind a new name makes no more lists than the expression does. -/
private theorem letName_completes {target e : Expr} (hparts : ∀ part ∈ [target, e], IsKnown part) :
    (letName ev scope target e).Completes limit n (Expr.sizeAll [target, e])
      Ranking.byAge.admits := by
  have he : IsKnown e := hparts e (by simp)
  have hsize : e.size ≤ Expr.sizeAll [target, e] := Expr.size_le_sizeAll (by simp)
  refine Completes.of_le ?_ hsize
  refine (nameOf_completes _ target).bind_free fun k _ name _ => ?_
  refine (h.eval he k scope).bind (d := 0) fun j _ v hv => ?_
  refine (completes_record _ _).bind_free fun i hi _ _ => ?_
  refine (completes_define scope name (Ranking.byAge.mono hi hv)).bind_free fun l hl _ _ => ?_
  have hle : j ≤ l := Nat.le_trans hi hl
  exact completes_pure fun l' hl' => Ranking.byAge.mono (Nat.le_trans hle hl') hv

/-- Nor does it to change a binding. -/
private theorem setName_completes {target e : Expr} (hparts : ∀ part ∈ [target, e], IsKnown part) :
    (setName ev scope target e).Completes limit n (Expr.sizeAll [target, e])
      Ranking.byAge.admits := by
  have he : IsKnown e := hparts e (by simp)
  have hsize : e.size ≤ Expr.sizeAll [target, e] := Expr.size_le_sizeAll (by simp)
  refine Completes.of_le ?_ hsize
  refine (nameOf_completes _ target).bind_free fun k _ name _ => ?_
  refine (h.eval he k scope).bind (d := 0) fun j _ v hv => ?_
  exact (completes_record _ _).bind_free fun i hi _ _ =>
    completes_assign scope name (Ranking.byAge.mono hi hv)

/-- Nor does it to add to a number, or to take from it. -/
private theorem step_completes (k : Keyword) (change : Float → Float → Float) {target : Expr}
    (amount : Option Expr) (hparts : ∀ part ∈ target :: amount.toList, IsKnown part) :
    (step k change ev scope target amount).Completes limit n
      (Expr.sizeAll (target :: amount.toList)) Ranking.byAge.admits := by
  have hnumber : ∀ {j} x, (Value.number x).rank ≤ j := fun _ => Nat.zero_le _
  refine (nameOf_completes k target).bind_free fun _ _ name _ => ?_
  refine (completes_lookup scope name).bind_free fun _ _ v _ => ?_
  refine (numberIn_completes k v).bind_free fun i _ current _ => ?_
  -- the amount is one unless an expression is given for it
  cases amount with
  | none => exact (completes_assign scope name (hnumber _)).of_le (Nat.zero_le _)
  | some e =>
    have he : IsKnown e := hparts e (by simp)
    have hsize : e.size ≤ Expr.sizeAll [target, e] := Expr.size_le_sizeAll (by simp)
    refine Completes.of_le ?_ hsize
    refine (h.eval he i scope).bind (d := 0) fun _ _ v _ => ?_
    refine (numberIn_completes k v).bind_free fun _ _ delta _ => ?_
    exact completes_assign scope name (hnumber _)

/-- A conditional makes the lists of its condition and of one branch. -/
private theorem ifElse_completes {condition yes : Expr} (no : Option Expr)
    (hparts : ∀ part ∈ condition :: yes :: no.toList, IsKnown part) :
    (ifElse ev scope condition yes no).Completes limit n
      (Expr.sizeAll (condition :: yes :: no.toList)) Ranking.byAge.admits := by
  have hcondition : IsKnown condition := hparts condition (by simp)
  refine (Evaluator.test_completes h hcondition).bind fun k _ holds _ => ?_
  -- one of the branches is evaluated, and there is room for both
  split
  · have hyes : IsKnown yes := hparts yes (by simp)
    exact (h.eval hyes k scope).of_le (Expr.size_le_sizeAll (by simp))
  · cases no with
    | some e =>
      have he : IsKnown e := hparts e (by simp)
      exact (h.eval he k scope).of_le (Expr.size_le_sizeAll (by simp))
    | none => exact Evaluator.completes_null

/-- So does a negated conditional. -/
private theorem unlessTrue_completes {condition e : Expr}
    (hparts : ∀ part ∈ [condition, e], IsKnown part) :
    (unlessTrue ev scope condition e).Completes limit n (Expr.sizeAll [condition, e])
      Ranking.byAge.admits := by
  have hcondition : IsKnown condition := hparts condition (by simp)
  have he : IsKnown e := hparts e (by simp)
  refine (Evaluator.test_completes h hcondition).bind fun k _ holds _ => ?_
  split
  · exact Evaluator.completes_null
  · exact h.eval he k scope

/-- A block makes the lists of its body. -/
private theorem block_completes {body : List Expr} (hbody : ∀ e ∈ body, IsKnown e) :
    (block ev scope body).Completes limit n (Expr.sizeAll body) Ranking.byAge.admits :=
  (completes_spawn scope).bind_free fun _ _ _ _ => Evaluator.body_completes h hbody

/-- To throw a value makes the lists of its expression. -/
private theorem throwValue_completes {e : Expr} (hparts : ∀ part ∈ [e], IsKnown part) :
    (throwValue ev scope e).Completes limit n (Expr.sizeAll [e]) Ranking.byAge.admits := by
  have he : IsKnown e := hparts e (by simp)
  refine (h.eval he n scope).bind (d := 0) fun _ _ _ _ => ?_
  exact (completes_record _ _).bind_free fun _ _ _ _ => completes_fail (by simp)

/-- Special forms complete, apart from loops and from those that make functions. -/
private theorem run_completes (fuel : Nat) {k : Keyword}
    (hk : k.name ∉ ["while", "do", "for", "function", "lambda"]) {parts : List Expr}
    (hparts : ∀ e ∈ parts, IsKnown e) :
    (run ev fuel scope k parts).Completes limit n (Expr.sizeAll parts) Ranking.byAge.admits := by
  unfold run
  -- in the order of the definition; the last case is left for other numbers of parts
  split
  · exact letName_completes h scope hparts
  · exact setName_completes h scope hparts
  · exact step_completes h scope _ _ none hparts
  · exact step_completes h scope _ _ (some _) hparts
  · exact step_completes h scope _ _ none hparts
  · exact step_completes h scope _ _ (some _) hparts
  · exact ifElse_completes h scope none hparts
  · exact ifElse_completes h scope (some _) hparts
  · exact unlessTrue_completes h scope hparts
  · exact block_completes h scope hparts
  · -- the five that are excluded
    exact absurd hk (by decide)
  · exact absurd hk (by decide)
  · exact absurd hk (by decide)
  · exact absurd hk (by decide)
  · exact absurd hk (by decide)
  · exact completes_throw (by simp [Unwind.IsExhausted])
  · exact throwValue_completes h scope hparts
  · exact completes_fail (by simp)

/-- The same with the check of the arity, which makes no list. -/
private theorem call_completes (fuel : Nat) {k : Keyword}
    (hk : k.name ∉ ["while", "do", "for", "function", "lambda"]) {parts : List Expr}
    (hparts : ∀ e ∈ parts, IsKnown e) :
    (call ev fuel scope k parts).Completes limit n (Expr.sizeAll parts) Ranking.byAge.admits :=
  (completes_checkArity _ _ _).bind_free fun _ _ _ _ => run_completes h scope fuel hk hparts

end Form

/-! ## Steps of evaluation -/

namespace Evaluator

variable {limit n : Nat}

/-- What a name means exists already, or is a library function. -/
private theorem meaning_completes (reg : Registry κ) (scope : FrameRef) (name : String) :
    (meaning reg scope name).Completes limit n 0 Ranking.byAge.admits := by
  refine (completes_get? scope name).bind_free fun k _ bound hbound => ?_
  cases bound with
  | some v => exact completes_pure fun j hj => Nat.le_trans (hbound v rfl) hj
  | none =>
    dsimp only
    split
    · exact completes_atom (by simp)
    · exact completes_fail (by simp)

variable {reg : Registry κ} (hreg : reg.Completes limit)
include hreg

section Parts

variable {IsKnown : Expr → Prop} {ev : Evaluator κ} (h : ev.Completes limit IsKnown)
include h

/-- The call of a library function makes one list beside those of its arguments. -/
private theorem callDirectly_completes {name : String} {entry : Entry κ}
    (hfind : reg.find? name = some entry) {args : List Expr} (hargs : ∀ e ∈ args, IsKnown e)
    (scope : FrameRef) :
    (ev.callDirectly entry args scope).Completes limit n (Expr.sizeAll args + 1)
      Ranking.byAge.admits := by
  unfold callDirectly
  refine (completes_record _ _).bind_free fun k _ _ _ => ?_
  -- a short circuit evaluates its arguments itself, and only as many as it needs
  split
  · rename_i s _
    have hempty : s.empty.rank ≤ k := by cases s <;> exact Nat.zero_le k
    exact (shortCircuit_completes h s hempty hargs).of_le (Nat.le_succ _)
  · refine (sequence_completes h hargs).bind fun j _ values hvalues => ?_
    exact hreg entry (List.mem_of_find?_eq_some hfind) ev.apply j values (h.apply j) hvalues

/-- A call by name is a special form, a call of what the name is bound to, or a call of a library
    function. -/
private theorem callByName_completes (fuel : Nat) {name : String}
    (hname : name ∉ ["while", "do", "for", "function", "lambda"]) {args : List Expr}
    (hargs : ∀ e ∈ args, IsKnown e) (scope : FrameRef) :
    (callByName reg ev fuel name args scope).Completes limit n (Expr.sizeAll args + 1)
      Ranking.byAge.admits := by
  refine (completes_record _ _).bind_free fun _ _ _ _ => ?_
  split
  · rename_i k hk
    rw [← Keyword.name_of_ofName? hk] at hname
    exact (Form.call_completes h scope fuel hname hargs).of_le (Nat.le_succ _)
  · refine (completes_get? scope name).bind_free fun _ _ bound _ => ?_
    cases bound with
    | some callee =>
      exact (sequence_completes h hargs).bind fun _ _ _ hvalues => apply_completes h callee hvalues
    | none =>
      dsimp only
      split
      · rename_i entry hfind
        exact callDirectly_completes hreg h hfind hargs scope
      · exact completes_fail (by simp)

/-- One step of evaluation completes if the steps inside it do. -/
private theorem evalStep_completes (fuel : Nat) {e : Expr} (he : e.IsStraight)
    (hparts : ∀ items, e = .call items ∨ e = .list items → ∀ part ∈ items, IsKnown part)
    (scope : FrameRef) :
    (evalStep reg ev fuel e scope).Completes limit n e.size Ranking.byAge.admits := by
  unfold evalStep
  -- constants and names first, then lists, then the ways to call
  split
  · exact completes_atom (by simp)
  · exact completes_atom (by simp)
  · exact completes_atom (by simp)
  · exact completes_null
  · exact (meaning_completes reg scope _).of_le (Nat.zero_le _)
  · rename_i items
    have hitems := hparts items (.inr rfl)
    exact (sequence_completes h hitems).bind fun _ _ _ hvs => completes_newList hvs
  · exact completes_null
  · -- the head is a name, which says whether the call is excluded
    rename_i name args
    have hargs : ∀ part ∈ args, IsKnown part := fun part hpart =>
      hparts _ (.inl rfl) part (List.mem_cons_of_mem _ hpart)
    have hname := he name (by simp [Expr.heads, Expr.headName?])
    refine (callByName_completes hreg h fuel hname hargs scope).of_le ?_
    simp only [Expr.size, Expr.sizeAll]
    omega
  · -- the head is any other expression, which is evaluated first
    rename_i head args _
    obtain ⟨hhead, hargs⟩ := List.forall_mem_cons.1 (hparts (head :: args) (.inl rfl))
    have hsize : (Expr.call (head :: args)).size = head.size + (Expr.sizeAll args + 1) := by
      simp only [Expr.size, Expr.sizeAll]
      omega
    rw [hsize]
    refine (h.eval hhead n scope).bind fun _ _ callee _ => ?_
    exact (sequence_completes h hargs).bind fun _ _ _ hvalues => apply_completes h callee hvalues

end Parts

/-- One call of a value completes if calls do whose arguments are older. -/
private theorem applyStep_completes {ev : Evaluator κ} (ha : ev.apply.CompletesBelow limit n)
    (callee : Value) {args : List Value} (hargs : ∀ v ∈ args, v.rank ≤ n) :
    (applyStep reg ev callee args).Completes limit n 1 Ranking.byAge.admits := by
  unfold applyStep
  split
  · -- no function was made that could be called
    refine (completes_code? _).bind_free fun _ _ c hc => ?_
    subst hc
    exact completes_fail (by simp)
  · split
    · rename_i entry hfind
      exact hreg entry (List.mem_of_find?_eq_some hfind) ev.apply n args ha hargs
    · exact completes_fail (by simp)
  · exact completes_fail (by simp)

/-- A call takes no more fuel than there were lists when its arguments existed: each call within it
    has older arguments. -/
theorem withFuel_completesBelow (fuel : Nat) :
    (withFuel reg fuel).apply.CompletesBelow limit fuel := by
  induction fuel with
  | zero => exact fun n hn => absurd hn (Nat.not_lt_zero n)
  | succ fuel ih =>
    intro n hn callee args hargs
    have hbelow : (withFuel reg fuel).apply.CompletesBelow limit n :=
      fun j hj => ih j (by omega)
    exact applyStep_completes hreg hbelow callee hargs

/-- With fuel for as many lists as there can be, all calls complete. -/
private theorem withFuel_apply_completes {fuel : Nat} (hfuel : limit < fuel) (n : Nat) :
    (withFuel reg fuel).apply.CompletesBelow limit n := by
  intro j _ callee args hargs
  by_cases hj : j < fuel
  · exact withFuel_completesBelow hreg fuel j hj callee args hargs
  · exact completes_of_limit_lt (by omega)

/-- With fuel for its size beside that, a straight-line expression completes. -/
theorem withFuel_completes {fuel size : Nat} (hfuel : size + limit < fuel) :
    (withFuel reg fuel).Completes limit fun e => e.IsStraight ∧ e.size ≤ size := by
  induction fuel generalizing size with
  | zero => exact absurd hfuel (Nat.not_lt_zero _)
  | succ fuel ih =>
    refine ⟨?_, withFuel_apply_completes hreg (by omega)⟩
    rintro e ⟨hstraight, hsize⟩ n scope
    -- the parts are smaller, and there is fuel for them
    have hpos := e.size_pos
    obtain ⟨size, rfl⟩ : ∃ size', size = size' + 1 := ⟨size - 1, by omega⟩
    have hrest : size + limit < fuel := by omega
    refine evalStep_completes hreg (ih hrest) fuel hstraight ?_ scope
    rintro items (rfl | rfl) part hpart
    · have hle := Expr.size_le_sizeAll hpart
      rw [Expr.size] at hsize
      exact ⟨hstraight.of_mem_call hpart, by omega⟩
    · have hle := Expr.size_le_sizeAll hpart
      rw [Expr.size] at hsize
      exact ⟨hstraight.of_mem_list hpart, by omega⟩

end Evaluator

/-! ## Programs -/

/-- The number of expressions that a text is made of, none if it cannot be read. -/
def Expr.textSize (source : String) : Nat :=
  match parse source with
  | .ok forms => sizeAll forms
  | .error _ => 0

/-- To read a text makes no list. -/
private theorem Eval.completes_read {limit n : Nat} (source : String) :
    (Eval.read source : Eval κ (List Expr)).Completes limit n 0
      fun _ forms => Expr.parse source = .ok forms := by
  refine (completes_record _ _).bind_free fun _ _ _ _ => ?_
  split
  · exact completes_fail (by simp)
  · rename_i forms hforms
    exact (completes_record _ _).bind_free fun _ _ _ _ => completes_pure fun _ _ => hforms

/-- A run makes no more lists than its text has parts. -/
private theorem Evaluator.run_completes {limit n : Nat} {IsKnown : Expr → Prop} {ev : Evaluator κ}
    (h : ev.Completes limit IsKnown) {source : String}
    (hsource : ∀ forms, Expr.parse source = .ok forms → ∀ e ∈ forms, IsKnown e) :
    (ev.run source).Completes limit n (Expr.textSize source) Ranking.byAge.admits := by
  refine (completes_read source).bind_free fun _ _ forms hforms => ?_
  refine (completes_record _ _).bind_free fun _ _ _ _ => ?_
  have hsize : Expr.sizeAll forms = Expr.textSize source := by rw [Expr.textSize, hforms]
  rw [← hsize]
  exact body_completes h (hsource forms hforms)

namespace Session

/-- A run that is not given up ends with an outcome of the program. -/
private theorem run_ne_exhausted {s : Session κ} {source : String} {post : Value → Machine κ → Prop}
    (h : (s.evaluator.run source).Ends s.machine post fun u _ => ¬ u.IsExhausted) :
    (s.run source).1 ≠ .error .exhausted := by
  unfold run perform
  cases hrun : s.evaluator.run source s.machine with
  | ok v m => simp [Except.mapError]
  | error u m =>
    have hu := h.of_error hrun
    cases u with
    | signal signal => simp [Except.mapError, Unwind.toError]
    | failure e => simpa [Except.mapError, Unwind.toError, Unwind.IsExhausted] using hu

/-- Straight-line programs terminate.  Without host functions and without the list library, a run of
    a program that has no loops and makes no functions comes to an end on a fresh machine: there is
    an outcome, a value or an error of the program, that any amount of fuel leads to if it is more
    than twice the size of the program. -/
theorem straight_line_terminates {o : Options κ} (hhosts : o.hostFunctions = [])
    (hlist : "list" ∉ o.libraries) {context : κ} {journal : Option (Array Record)}
    {s : Session κ} (hs : start o { context, journal } = .ok s) {source : String}
    (hsource : ∀ forms, Expr.parse source = .ok forms → ∀ e ∈ forms, e.IsStraight) :
    ∃ outcome m, outcome ≠ .error .exhausted ∧ ∀ fuel, 2 * Expr.textSize source < fuel →
      ({ s with fuel }.run source).1 = outcome ∧
        ({ s with fuel }.run source).2.machine.silent = m := by
  obtain ⟨hchosen, hmachine, -⟩ := of_start hs
  obtain ⟨libraries, hchoice, hreg⟩ := Registry.exists_choose_of_ofOptions hchosen
  rw [hhosts] at hreg
  -- the list library is not among those that were chosen
  have hlibraries : .list ∉ libraries := by
    intro hmem
    obtain ⟨-, hnames⟩ := (Library.foldlM_choose_eq_ok_iff List.nodup_nil).1 hchoice
    rw [List.map_nil, List.nil_append] at hnames
    exact hlist (hnames ▸ List.mem_map_of_mem (f := Library.name) hmem)
  have hlists : s.machine.lists = {} := congrArg Machine.lists hmachine
  have hscopes : s.machine.scopes = .start := congrArg Machine.scopes hmachine
  have hplain : s.machine.Plain := ⟨.fresh hlists hscopes, congrArg Machine.closures hmachine⟩
  -- no expression is larger than the text, and there are never more lists than that
  have hcompletes : s.registry.Completes (Expr.textSize source) :=
    hreg ▸ Registry.ofLibraries_completes hlibraries _
  have hfuel : Expr.textSize source + Expr.textSize source < 2 * Expr.textSize source + 1 := by
    omega
  have hknown : ∀ forms, Expr.parse source = .ok forms →
      ∀ e ∈ forms, e.IsStraight ∧ e.size ≤ Expr.textSize source := by
    intro forms hforms e he
    have hle := Expr.size_le_sizeAll he
    rw [Expr.textSize, hforms]
    exact ⟨hsource forms hforms e he, hle⟩
  have hrun := Evaluator.run_completes (n := 0) (Evaluator.withFuel_completes hcompletes hfuel)
    hknown
  have hroom : s.machine.lists.size + Expr.textSize source ≤ Expr.textSize source := by
    rw [hlists]
    exact Nat.le_of_eq (Nat.zero_add _)
  have houtcome := run_ne_exhausted (s := { s with fuel := 2 * Expr.textSize source + 1 })
    (hrun s.machine hplain (Nat.zero_le _) hroom)
  exact ⟨_, _, houtcome, fun fuel hle => run_of_fuel_le hreg hle houtcome⟩

/-- `apply` is handed to itself, and the list with its arguments lies in another one. -/
theorem straight_line_terminates_nested :
    ∃ (s : Session Unit) (source : String),
      start { libraries := ["math", "core"] } { context := () } = .ok s ∧
      source = "(let xs [apply [apply [+ [1 2]]]]) (if (< (apply apply xs) 4) xs)" ∧
      Expr.textSize source = 22 ∧ (s.run source).1 = .ok (.list ⟨3⟩) ∧
      ∃ outcome m, outcome ≠ .error .exhausted ∧ ∀ fuel, 2 * Expr.textSize source < fuel →
        ({ s with fuel }.run source).1 = outcome ∧
          ({ s with fuel }.run source).2.machine.silent = m := by
  have hs : start { libraries := ["math", "core"] } { context := () } =
      .ok ⟨.ofLibraries [] [.math, .core], { context := () }, ampleFuel⟩ := rfl
  have hparse : Expr.parse "(let xs [apply [apply [+ [1 2]]]]) (if (< (apply apply xs) 4) xs)" =
      .ok [.call [.identifier "let", .identifier "xs",
          .list [.identifier "apply", .list [.identifier "apply",
            .list [.identifier "+", .list [.number 1, .number 2]]]]],
        .call [.identifier "if", .call [.identifier "<",
          .call [.identifier "apply", .identifier "apply", .identifier "xs"], .number 4],
          .identifier "xs"]] := by rfl
  have hsource : ∀ forms, Expr.parse
      "(let xs [apply [apply [+ [1 2]]]]) (if (< (apply apply xs) 4) xs)" = .ok forms →
        ∀ e ∈ forms, e.IsStraight := by
    intro forms hforms
    cases hparse.symm.trans hforms
    simp [Expr.IsStraight, Expr.heads, Expr.headsAll, Expr.headName?]
  have hsize : Expr.textSize
      "(let xs [apply [apply [+ [1 2]]]]) (if (< (apply apply xs) 4) xs)" = 22 := by
    rw [Expr.textSize, hparse]
    rfl
  exact ⟨_, _, hs, rfl, hsize, by decide +kernel,
    straight_line_terminates rfl (by simp) hs hsource⟩

/-- With the list library, a list can hold itself, and calls take their arguments out of it for
    ever. -/
example : ((⟨.ofLibraries [] [.core, .list], { context := () }, 50⟩ : Session Unit).run
    "(let xs [apply]) (push! xs xs) (apply apply xs)").1 = .error .exhausted := by
  decide +kernel

end Session
end Lisplet
