import Lisplet.Proofs.Contents
import Lisplet.Proofs.Effects
import Lisplet.Proofs.Pairing

/-! # What was there when a list was made

Lists are numbered in the order in which they are made, so a list of number `n` was made when there
were `n` lists.  A `Ranking` says which values may be met while there are `n` of them.  A machine is
ranked if each list holds only values that could be met when it was made, and frames hold only
values that can be met now.

`x.Keeps ρ n Q` says that from a ranked machine with at least `n` lists, `x` ends on a ranked
machine that has no fewer lists, whether it succeeds or not, and that a value that it ends with
satisfies `Q`, which may depend on how many lists there are then.  What is known of a value while
there are `n` lists stays true while lists are added, so the rule for sequences hands it on.

The functions of the libraries keep machines ranked, apart from the two that put values into a list
that is there already.  Those two do so only if any value may be met at any time (`Ranking.free`).

* `Ranking`, `Machine.Ranked`   what may be met, and where
* `Eval.Keeps`                  what evaluations keep
* `Registry.ofLibraries_keep`    the functions of the libraries -/

namespace Lisplet

open Eval

variable {κ α β : Type}

theorem Scopes.Holds.imp {P Q : String × Value → Prop} {s : Scopes} (h : s.Holds P)
    (hPQ : ∀ b, P b → Q b) : s.Holds Q :=
  fun f b hb => hPQ b (h f b hb)

/-- Which values may be met while a given number of lists exists: what is no list always, and a list
    at least as soon as it exists. -/
structure Ranking where
  admits : Nat → Value → Prop
  mono : ∀ {n k v}, n ≤ k → admits n v → admits k v
  of_not_list : ∀ {n v}, (∀ r, v ≠ .list r) → admits n v
  of_lt : ∀ {n} {r : ListRef}, r.index < n → admits n (.list r)

/-- Any value may be met at any time. -/
def Ranking.free : Ranking where
  admits _ _ := True
  mono _ h := h
  of_not_list _ := trivial
  of_lt _ := trivial

namespace Machine

/-- Lists hold only what could be met when they were made, frames what can be met now. -/
structure Ranked (ρ : Ranking) (m : Machine κ) : Prop where
  elements : ∀ r, ∀ v ∈ m.lists.cell r, ρ.admits r.index v
  bindings : m.scopes.Holds fun b => ρ.admits m.lists.size b.2

namespace Ranked

variable {ρ : Ranking} {m m' : Machine κ}

/-- Only lists and frames count. -/
theorem of_eq (h : m.Ranked ρ) (hlists : m'.lists = m.lists) (hscopes : m'.scopes = m.scopes) :
    m'.Ranked ρ where
  elements := hlists ▸ h.elements
  bindings := by
    rw [hlists, hscopes]
    exact h.bindings

/-- Any machine is ranked if anything may be met. -/
theorem free (m : Machine κ) : m.Ranked .free := ⟨fun _ _ _ => trivial, fun _ _ _ => trivial⟩

/-- A fresh machine is ranked, since it holds nothing. -/
theorem fresh (hlists : m.lists = {}) (hscopes : m.scopes = .start) : m.Ranked ρ where
  elements r v hv := by
    rw [hlists] at hv
    simp [Lists.cell] at hv
  bindings := hscopes ▸ .start

/-- What a list holds can be met now. -/
private theorem admits_of_mem (h : m.Ranked ρ) {r : ListRef} {v : Value} (hv : v ∈ m.lists.cell r) :
    ρ.admits m.lists.size v := by
  have hr := Lists.index_lt_of_mem_cell hv
  exact ρ.mono (Nat.le_of_lt hr) (h.elements r v hv)

/-- A new list may hold what can be met now. -/
theorem alloc (h : m.Ranked ρ) {xs : Array Value} (hxs : ∀ v ∈ xs, ρ.admits m.lists.size v) :
    { m with lists := m.lists.alloc xs }.Ranked ρ where
  elements r v hv := by
    by_cases hlt : r.index < m.lists.size
    · rw [Lists.cell_alloc_of_lt hlt] at hv
      exact h.elements r v hv
    · -- the list is the new one, which was made just now
      have hstored := Lists.index_lt_of_mem_cell hv
      rw [Lists.size_alloc] at hstored
      have hindex : r.index = m.lists.size := by omega
      have hnext : r = m.lists.next := congrArg ListRef.mk hindex
      rw [hnext, Lists.cell_alloc_next] at hv
      rw [hindex]
      exact hxs v hv
  bindings := h.bindings.imp fun b hb => ρ.mono (by simp) hb

/-- A list may get other elements that could be met when it was made. -/
theorem modify (h : m.Ranked ρ) {r : ListRef} {f : Array Value → Array Value}
    (hf : ∀ v ∈ f (m.lists.cell r), ρ.admits r.index v) :
    { m with lists := m.lists.modify r f }.Ranked ρ where
  elements s v hv := by
    -- the list that is changed, or another one
    by_cases hrs : r = s
    · subst hrs
      have hstored := Lists.index_lt_of_mem_cell hv
      rw [Lists.size_modify] at hstored
      rw [Lists.cell_modify_self hstored] at hv
      exact hf v hv
    · rw [Lists.cell_modify_of_ne _ hrs] at hv
      exact h.elements s v hv
  bindings := by
    rw [Lists.size_modify]
    exact h.bindings

end Ranked
end Machine

/-- A value that a call has at hand can be met, if its arguments can. -/
theorem Value.AtHand.admits {ρ : Ranking} {m : Machine κ} (hm : m.Ranked ρ) {args : List Value}
    (hargs : ∀ v ∈ args, ρ.admits m.lists.size v) {v : Value} (h : v.AtHand args m.lists) :
    ρ.admits m.lists.size v := by
  obtain harg | ⟨r, hr⟩ | hatom := h
  · exact hargs v harg
  · exact hm.admits_of_mem hr
  · exact ρ.of_not_list hatom

/-- The value is a list that was made when there were at least `n` lists, of the `k` there are. -/
def Value.MadeSince (n k : Nat) (v : Value) : Prop :=
  ∃ r, v = .list r ∧ n ≤ r.index ∧ r.index < k

/-- A list that exists can be met. -/
theorem Value.MadeSince.admits {ρ : Ranking} {n k : Nat} {v : Value} (h : v.MadeSince n k) :
    ρ.admits k v := by
  obtain ⟨r, rfl, -, hr⟩ := h
  exact ρ.of_lt hr

/-- What was made late was made after any earlier time. -/
theorem Value.MadeSince.of_le {n j k : Nat} {v : Value} (h : v.MadeSince j k) (hn : n ≤ j) :
    v.MadeSince n k := by
  obtain ⟨r, hv, hge, hlt⟩ := h
  exact ⟨r, hv, Nat.le_trans hn hge, hlt⟩

/-! ## What evaluations keep -/

namespace Eval

/-- From a ranked machine with at least `n` lists, the evaluation ends on a ranked machine with no
    fewer lists, and a value that it ends with satisfies `Q`. -/
def Keeps (ρ : Ranking) (n : Nat) (Q : Nat → α → Prop) (x : Eval κ α) : Prop :=
  ∀ m, m.Ranked ρ → n ≤ m.lists.size →
    x.Ends m (fun a m' => m'.Ranked ρ ∧ m.lists.size ≤ m'.lists.size ∧ Q m'.lists.size a)
      fun _ m' => m'.Ranked ρ ∧ m.lists.size ≤ m'.lists.size

variable {ρ : Ranking} {n : Nat} {P : Nat → β → Prop} {Q Q' : Nat → α → Prop} {x : Eval κ α}

theorem Keeps.imp (h : x.Keeps ρ n Q) (hQ : ∀ k a, n ≤ k → Q k a → Q' k a) :
    x.Keeps ρ n Q' := by
  intro m hm hn
  refine (h m hm hn).imp (fun a m' ha => ?_) fun _ _ hu => hu
  obtain ⟨hm', hsize, hQa⟩ := ha
  exact ⟨hm', hsize, hQ _ a (Nat.le_trans hn hsize) hQa⟩

/-- What was known while there were fewer lists is still known. -/
theorem Keeps.mono {k : Nat} (h : x.Keeps ρ n Q) (hk : n ≤ k) : x.Keeps ρ k Q :=
  fun m hm hn => h m hm (Nat.le_trans hk hn)

/-! ### Composition -/

/-- A value that satisfies what is asked of it from now on. -/
theorem keeps_pure {a : α} (h : ∀ k, n ≤ k → Q k a) : (pure a : Eval κ α).Keeps ρ n Q :=
  fun m hm hn => ⟨hm, Nat.le_refl _, h m.lists.size hn⟩

theorem keeps_throw (u : Unwind) : (throw u : Eval κ α).Keeps ρ n Q :=
  fun _ hm _ => ⟨hm, Nat.le_refl _⟩

theorem keeps_fail (e : Error) : (fail e : Eval κ α).Keeps ρ n Q := keeps_throw _

/-- Two steps that keep the machine ranked do so one after the other. -/
theorem Keeps.bind {y : Eval κ β} {f : β → Eval κ α} (hy : y.Keeps ρ n P)
    (hf : ∀ k, n ≤ k → ∀ b, P k b → (f b).Keeps ρ k Q) : (y >>= f).Keeps ρ n Q := by
  intro m hm hn
  rw [ends_bind]
  refine (hy m hm hn).imp ?_ fun _ _ hu => hu
  rintro b m₁ ⟨hm₁, hsize, hb⟩
  -- what follows may count on all the lists that there are by now
  have hrest := hf m₁.lists.size (Nat.le_trans hn hsize) b hb m₁ hm₁ (Nat.le_refl _)
  refine hrest.imp ?_ ?_
  · rintro a m₂ ⟨hm₂, hsize₂, ha⟩
    exact ⟨hm₂, Nat.le_trans hsize hsize₂, ha⟩
  · rintro u m₂ ⟨hm₂, hsize₂⟩
    exact ⟨hm₂, Nat.le_trans hsize hsize₂⟩

/-- A function of a value changes nothing on the machine. -/
theorem Keeps.map {y : Eval κ β} (hy : y.Keeps ρ n P) {f : β → α}
    (hf : ∀ k b, n ≤ k → P k b → Q k (f b)) : (f <$> y).Keeps ρ n Q := by
  intro m hm hn
  rw [ends_map]
  exact hy.imp (fun k b hk hb => hf k b hk hb) m hm hn

/-- A handler keeps the machine ranked from wherever it starts. -/
theorem Keeps.tryCatch {handler : Unwind → Eval κ α} (hx : x.Keeps ρ n Q)
    (hh : ∀ u, (handler u).Keeps ρ n Q) :
    (MonadExcept.tryCatch x handler).Keeps ρ n Q := by
  intro m hm hn
  rw [ends_tryCatch]
  refine (hx m hm hn).imp (fun _ _ ha => ha) ?_
  rintro u m₁ ⟨hm₁, hsize⟩
  -- the handler starts with the lists that were made before the failure
  refine (hh u m₁ hm₁ (Nat.le_trans hn hsize)).imp ?_ ?_
  · rintro a m₂ ⟨hm₂, hsize₂, ha⟩
    exact ⟨hm₂, Nat.le_trans hsize hsize₂, ha⟩
  · rintro v m₂ ⟨hm₂, hsize₂⟩
    exact ⟨hm₂, Nat.le_trans hsize hsize₂⟩

/-- One evaluation for each element of a list. -/
theorem Keeps.mapM {xs : List β} {f : β → Eval κ Value}
    (hf : ∀ k, n ≤ k → ∀ b ∈ xs, (f b).Keeps ρ k ρ.admits) :
    (xs.mapM f).Keeps ρ n fun k vs => ∀ v ∈ vs, ρ.admits k v := by
  induction xs generalizing n with
  | nil => exact keeps_pure (by simp)
  | cons b xs ih =>
    rw [List.mapM_cons]
    refine (hf n (Nat.le_refl n) b List.mem_cons_self).bind fun k hk v hv => ?_
    have hrest := ih fun j hj c hc => hf j (Nat.le_trans hk hj) c (List.mem_cons_of_mem b hc)
    refine hrest.bind fun j hj vs hvs => keeps_pure fun i hi => ?_
    -- the earlier values are still admitted when the later ones have been found
    rw [List.forall_mem_cons]
    exact ⟨ρ.mono (Nat.le_trans hj hi) hv, fun w hw => ρ.mono hi (hvs w hw)⟩

/-- A loop over a list with an accumulated value. -/
theorem Keeps.foldlM {xs : List β} {f : Value → β → Eval κ Value}
    (hf : ∀ k, n ≤ k → ∀ v, ρ.admits k v → ∀ b ∈ xs, (f v b).Keeps ρ k ρ.admits) {v : Value}
    (hv : ρ.admits n v) : (xs.foldlM f v).Keeps ρ n ρ.admits := by
  induction xs generalizing n v with
  | nil => exact keeps_pure fun k hk => ρ.mono hk hv
  | cons b xs ih =>
    rw [List.foldlM_cons]
    refine (hf n (Nat.le_refl n) v hv b List.mem_cons_self).bind fun k hk w hw => ?_
    exact ih (fun j hj u hu c hc =>
      hf j (Nat.le_trans hk hj) u hu c (List.mem_cons_of_mem b hc)) hw

/-- A loop over a list for what it does to the machine. -/
theorem Keeps.forM {xs : List β} {f : β → Eval κ PUnit}
    (hf : ∀ k, n ≤ k → ∀ b ∈ xs, (f b).Keeps ρ k fun _ _ => True) :
    (xs.forM f).Keeps ρ n fun _ _ => True := by
  induction xs generalizing n with
  | nil => exact keeps_pure fun _ _ => trivial
  | cons b xs ih =>
    refine (hf n (Nat.le_refl n) b List.mem_cons_self).bind fun k hk _ _ => ?_
    exact ih fun j hj c hc => hf j (Nat.le_trans hk hj) c (List.mem_cons_of_mem b hc)

/-! ### Operations of the machine -/

/-- What is done with the machine at hand may use that it is ranked. -/
private theorem keeps_get_bind {f : Machine κ → Eval κ α}
    (h : ∀ m, m.Ranked ρ → n ≤ m.lists.size → (f m).Keeps ρ n Q) : (get >>= f).Keeps ρ n Q :=
  fun m hm hn => h m hm hn m hm hn

/-- An operation on another part of the machine. -/
private theorem keeps_modifyGet {f : Machine κ → α × Machine κ}
    (hf : ∀ m, (f m).2.lists = m.lists ∧ (f m).2.scopes = m.scopes)
    (hQ : ∀ m, m.Ranked ρ → n ≤ m.lists.size → Q m.lists.size (f m).1) :
    (modifyGet f : Eval κ α).Keeps ρ n Q := by
  intro m hm hn
  obtain ⟨hlists, hscopes⟩ := hf m
  refine (ends_modifyGet f).2 ⟨hm.of_eq hlists hscopes, ?_⟩
  rw [hlists]
  exact ⟨Nat.le_refl _, hQ m hm hn⟩

theorem keeps_record (level : Level) (message : Machine κ → String) :
    (record level message).Keeps ρ n fun _ _ => True := by
  refine keeps_modifyGet (fun m => ?_) fun _ _ _ => trivial
  show (m.record level message).lists = m.lists ∧ (m.record level message).scopes = m.scopes
  obtain ⟨journal, hj⟩ := m.exists_record_eq level message
  rw [hj]
  exact ⟨rfl, rfl⟩

theorem keeps_newClosure (name : Option String) (c : Closure) :
    (newClosure name c : Eval κ Value).Keeps ρ n ρ.admits :=
  keeps_modifyGet (fun _ => ⟨rfl, rfl⟩) fun _ _ _ => ρ.of_not_list (by simp)

/-- To look up the code of a closure changes nothing. -/
theorem keeps_code? (r : ClosureRef) :
    (code? r : Eval κ (Option Closure)).Keeps ρ n fun _ _ => True :=
  keeps_get_bind fun _ _ _ => keeps_pure fun _ _ => trivial

/-- The elements of a list could be met when it was made. -/
theorem keeps_items (r : ListRef) :
    (items r : Eval κ (List Value)).Keeps ρ n
      fun k xs => ∀ v ∈ xs, ρ.admits r.index v ∧ r.index ≤ k := by
  intro m hm _
  refine ⟨hm, Nat.le_refl _, fun v hv => ?_⟩
  have hcell : v ∈ m.lists.cell r := Array.mem_toList_iff.1 hv
  exact ⟨hm.elements r v hcell, Nat.le_of_lt (Lists.index_lt_of_mem_cell hcell)⟩

theorem keeps_newList {xs : List Value} (hxs : ∀ v ∈ xs, ρ.admits n v) :
    (newList xs : Eval κ Value).Keeps ρ n (Value.MadeSince n) := by
  intro m hm hn
  refine (ends_modifyGet _).2 ⟨hm.alloc fun v hv => ?_, ?_, m.lists.next, rfl, hn, ?_⟩
  · exact ρ.mono hn (hxs v (List.mem_toArray.1 hv))
  · simp
  · simp [Lists.next]

/-- A list may get other elements that could be met when it was made. -/
private theorem keeps_modifyList {r : ListRef} {f : Array Value → Array Value}
    (hf : ∀ xs, ∀ v ∈ f xs, ρ.admits r.index v) :
    (modifyList r f : Eval κ Unit).Keeps ρ n fun _ _ => True := by
  intro m hm _
  refine (ends_modify _).2 ⟨hm.modify (hf _), ?_, trivial⟩
  simp

/-- A new frame holds nothing. -/
theorem keeps_spawn (scope : FrameRef) :
    (spawn scope : Eval κ FrameRef).Keeps ρ n fun _ _ => True :=
  fun _ hm _ => (ends_modifyGet _).2 ⟨⟨hm.elements, hm.bindings.spawn⟩, Nat.le_refl _, trivial⟩

/-- A name may be bound to what can be met. -/
theorem keeps_define (scope : FrameRef) (name : String) {v : Value} (hv : ρ.admits n v) :
    (define scope name v : Eval κ Unit).Keeps ρ n fun _ _ => True := by
  intro m hm hn
  have hbindings : (m.scopes.define scope name v).Holds fun b => ρ.admits m.lists.size b.2 :=
    hm.bindings.define (ρ.mono hn hv)
  exact (ends_modify _).2 ⟨⟨hm.elements, hbindings⟩, Nat.le_refl _, trivial⟩

/-- What a name is bound to can be met. -/
theorem keeps_get? (scope : FrameRef) (name : String) :
    (get? scope name : Eval κ (Option Value)).Keeps ρ n fun k bound => ∀ v ∈ bound, ρ.admits k v :=
  fun _ hm _ => ⟨hm, Nat.le_refl _, fun _ hv => hm.bindings.of_get? hv⟩

/-- The same, where a name without meaning is a failure. -/
theorem keeps_lookup (scope : FrameRef) (name : String) :
    (lookup scope name : Eval κ Value).Keeps ρ n ρ.admits := by
  refine (keeps_get? scope name).bind fun k _ bound hbound => ?_
  cases bound with
  | some v => exact keeps_pure fun j hj => ρ.mono hj (hbound v rfl)
  | none => exact keeps_fail _

/-- A binding may be changed to what can be met. -/
theorem keeps_assign (scope : FrameRef) (name : String) {v : Value} (hv : ρ.admits n v) :
    (assign scope name v : Eval κ Value).Keeps ρ n ρ.admits := by
  refine keeps_get_bind fun m _ _ => ?_
  cases m.scopes.holder? scope name with
  | none => exact keeps_fail _
  | some holder =>
    refine (keeps_define holder name hv).bind fun k hk _ _ => ?_
    exact keeps_pure fun j hj => ρ.mono (Nat.le_trans hk hj) hv

/-- A check changes nothing. -/
theorem keeps_expect (r : Except Mismatch α) :
    (expect r : Eval κ α).Keeps ρ n fun _ a => r = .ok a := by
  cases r with
  | ok a => exact keeps_pure fun _ _ => rfl
  | error cause => exact keeps_fail _

theorem keeps_checkArity (name : String) (arity : Arity) (got : Nat) :
    (checkArity name arity got : Eval κ Unit).Keeps ρ n
      fun _ _ => arity.contains got = true := by
  unfold checkArity
  split
  · rename_i h
    exact keeps_pure fun _ _ => h
  · exact keeps_fail _

/-- To name the function in a failure changes nothing. -/
theorem Keeps.pinned {function : String} (h : x.Keeps ρ n Q) :
    (pinned function x).Keeps ρ n Q := by
  refine h.tryCatch fun u => ?_
  split
  · exact keeps_fail _
  · exact keeps_throw _

end Eval

/-! ## Primitives -/

/-- What is known of the value of a call that was made when there were `n` lists: it can be met, and
    if the function makes lists, it is one that was made since. -/
def Effect.Yields (e : Effect) (ρ : Ranking) (n k : Nat) (v : Value) : Prop :=
  ρ.admits k v ∧ (e = .makes → v.MadeSince n k)

/-- What is known of the value stays known while lists are added. -/
theorem Effect.Yields.mono {e : Effect} {ρ : Ranking} {n j k : Nat} {v : Value}
    (h : e.Yields ρ n j v) (hk : j ≤ k) : e.Yields ρ n k v := by
  refine ⟨ρ.mono hk h.1, fun he => ?_⟩
  obtain ⟨r, hv, hge, hlt⟩ := h.2 he
  exact ⟨r, hv, hge, Nat.lt_of_lt_of_le hlt hk⟩

/-- Calls with arguments that can be met give values that can be met. -/
def Applier.Keeps (ρ : Ranking) (apply : Applier κ) : Prop :=
  ∀ n f args, (∀ v ∈ args, ρ.admits n v) → (apply f args).Keeps ρ n ρ.admits

namespace Primitive

variable {ρ : Ranking} {n : Nat} {p : Primitive κ} {args : List Value}

/-- Run with as many arguments as it takes, the primitive keeps the machine ranked. -/
def Keeps (ρ : Ranking) (p : Primitive κ) : Prop :=
  ∀ apply : Applier κ, apply.Keeps ρ → ∀ n args, p.arity.contains args.length = true →
    (∀ v ∈ args, ρ.admits n v) →
    (p.run apply args).Keeps ρ n ((Effect.ofName p.name).Yields ρ n)

/-- A call keeps the machine ranked if the run does that it makes. -/
theorem Keeps.call (h : p.Keeps ρ) {apply : Applier κ} (ha : apply.Keeps ρ)
    (hargs : ∀ v ∈ args, ρ.admits n v) :
    (p.call apply args).Keeps ρ n ((Effect.ofName p.name).Yields ρ n) := by
  refine (keeps_checkArity _ _ _).bind fun k hk _ hlen => ?_
  have hrun := (h apply ha n args hlen hargs).mono hk
  refine (keeps_record _ _).bind fun k' hk' _ _ => ?_
  -- a failure is recorded and thrown again, a value is recorded and returned
  refine ((hrun.mono hk').pinned.tryCatch fun u => ?_).bind fun i _ v hv => ?_
  · exact (keeps_record _ _).bind fun _ _ _ _ => keeps_throw u
  · exact (keeps_record _ _).bind fun j hj _ _ => keeps_pure fun l hl =>
      hv.mono (Nat.le_trans hj hl)

/-- No effect but an insertion can put into a list what was not there when the list was made. -/
theorem keeps_of_acts {e : Effect} {x : Eval κ Value} (h : Acts e args x)
    (he : e = .inserts → ∀ k v, ρ.admits k v) (hargs : ∀ v ∈ args, ρ.admits n v) :
    x.Keeps ρ n (e.Yields ρ n) := by
  intro m hm hn
  have hargs' : ∀ v ∈ args, ρ.admits m.lists.size v := fun v hv => ρ.mono hn (hargs v hv)
  have hsize : ∀ r f, (m.lists.modify r f).size = m.lists.size := m.lists.size_modify
  refine (h m).imp (fun v m' hout => ?_) ?_
  case refine_2 =>
    -- a failure leaves the machine as it was
    rintro _ _ rfl
    exact ⟨hm, Nat.le_refl _⟩
  cases hout with
  | reads printed hv =>
    exact ⟨hm.of_eq rfl rfl, Nat.le_refl _, hv.admits hm hargs', fun h => nomatch h⟩
  | makes hxs =>
    have hnew : (Value.list m.lists.next).MadeSince n (m.lists.size + 1) :=
      ⟨m.lists.next, rfl, hn, Nat.lt_succ_self _⟩
    refine ⟨hm.alloc fun x hx => (hxs x hx).admits hm hargs', ?_⟩
    rw [Lists.size_alloc]
    exact ⟨Nat.le_succ _, hnew.admits, fun _ => hnew⟩
  | rearranges hr hf hv =>
    -- the elements were in this very list before
    refine ⟨hm.modify fun x hx => hm.elements _ x (hf x hx), ?_⟩
    rw [hsize]
    exact ⟨Nat.le_refl _, hv.admits hm hargs', fun h => nomatch h⟩
  | inserts hr hv =>
    -- nothing is known of what goes in, so the ranking has to let everything pass
    refine ⟨hm.modify fun x _ => he rfl _ x, ?_⟩
    rw [hsize]
    exact ⟨Nat.le_refl _, he rfl _ v, fun h => nomatch h⟩

section Callbacks

variable {apply : Applier κ} (ha : apply.Keeps ρ)
include ha

/-- A function is called with elements of a list, which can be met. -/
private theorem applyToList_keeps (f arguments : Value) :
    (applyToList apply f arguments).Keeps ρ n ρ.admits := by
  refine (keeps_expect _).bind fun k _ f _ => (keeps_expect _).bind fun k' _ r _ => ?_
  refine (keeps_items r).bind fun j _ xs hxs => ?_
  exact ha j f xs fun v hv => ρ.mono (hxs v hv).2 (hxs v hv).1

omit ha in
/-- What is done with the elements of a list may use that they can be met. -/
private theorem keeps_itemsOf_bind {list : Value} {f : List Value → Eval κ α} {Q : Nat → α → Prop}
    (hf : ∀ k, n ≤ k → ∀ xs, (∀ v ∈ xs, ρ.admits k v) → (f xs).Keeps ρ k Q) :
    (itemsOf list >>= f).Keeps ρ n Q := by
  have hitems : (itemsOf list : Eval κ (List Value)).Keeps ρ n
      fun k xs => ∀ v ∈ xs, ρ.admits k v := by
    refine (keeps_expect _).bind fun k _ r _ => (keeps_items r).imp fun j xs _ hxs v hv => ?_
    exact ρ.mono (hxs v hv).2 (hxs v hv).1
  exact hitems.bind hf

/-- A function is called with each element, one after the other. -/
private theorem mapM_apply_keeps (f : Value) {xs : List Value} (hxs : ∀ v ∈ xs, ρ.admits n v) :
    (xs.mapM fun x => apply f [x]).Keeps ρ n fun k vs => ∀ v ∈ vs, ρ.admits k v :=
  .mapM fun j hj x hx => ha j f [x] (by simpa using ρ.mono hj (hxs x hx))

/-- The values of the calls make a new list. -/
private theorem map_keeps (f list : Value) : (map apply f list).Keeps ρ n (Value.MadeSince n) := by
  refine (keeps_expect _).bind fun k hk f _ => keeps_itemsOf_bind fun k' hk' xs hxs => ?_
  refine (mapM_apply_keeps ha f hxs).bind fun j hj vs hvs => ?_
  -- the list is made after the calls, which may have made others
  refine (keeps_newList hvs).imp fun i v _ hv => ?_
  have hle : n ≤ j := by omega
  exact hv.of_le hle

/-- The elements that are kept make a new list. -/
private theorem filter_keeps (f list : Value) :
    (filter apply f list).Keeps ρ n (Value.MadeSince n) := by
  refine (keeps_expect _).bind fun k hk f _ => keeps_itemsOf_bind fun k' hk' xs hxs => ?_
  refine (mapM_apply_keeps ha f hxs).bind fun j hj answers _ => ?_
  have hkept : ∀ v ∈ (xs.zip answers).filterMap fun q => if q.2.truthy then some q.1 else none,
      ρ.admits j v := by
    intro v hv
    -- only elements of the list are kept, never answers
    obtain ⟨q, hmem, hq⟩ := List.mem_filterMap.1 hv
    have heq : q.1 = v := (Option.ite_none_right_eq_some.1 hq).2 |> Option.some.inj
    exact ρ.mono hj (heq ▸ hxs q.1 (List.of_mem_zip hmem).1)
  refine (keeps_newList hkept).imp fun i v _ hv => ?_
  have hle : n ≤ j := by omega
  exact hv.of_le hle

/-- The accumulated value can be met at each call. -/
private theorem reduce_keeps (f list : Value) {initial : Value} (hinitial : ρ.admits n initial) :
    (reduce apply f initial list).Keeps ρ n ρ.admits := by
  refine (keeps_expect _).bind fun k hk f _ => keeps_itemsOf_bind fun k' hk' xs hxs => ?_
  -- the elements were read before the first call, and can still be met at the last
  refine .foldlM (fun j hj v hv x hx => ?_) (ρ.mono (Nat.le_trans hk hk') hinitial)
  exact ha j f [v, x] (by simpa using ⟨hv, ρ.mono hj (hxs x hx)⟩)

end Callbacks

end Primitive

namespace MergeSort

variable {ρ : Ranking} {n : Nat} {P : Value → Prop} {less : Value → Value → Eval κ Bool}

/-- A merge has only the elements that it was given, whatever its comparisons do. -/
private theorem mergeOnto_keeps
    (hless : ∀ k, n ≤ k → ∀ a b, P a → P b → (less a b).Keeps ρ k fun _ _ => True)
    {done left right : List Value} (hdone : ∀ v ∈ done, P v) (hleft : ∀ v ∈ left, P v)
    (hright : ∀ v ∈ right, P v) :
    (mergeOnto less done left right).Keeps ρ n fun _ merged => ∀ v ∈ merged, P v := by
  -- the induction is for any number of lists, since a comparison may make some
  fun_induction mergeOnto less done left right generalizing n with
  | case1 done ys =>
    refine keeps_pure fun _ _ v hv => ?_
    rw [List.reverseAux_eq, List.mem_append, List.mem_reverse] at hv
    exact hv.elim (hdone v) (hright v)
  | case2 done xs =>
    refine keeps_pure fun _ _ v hv => ?_
    rw [List.reverseAux_eq, List.mem_append, List.mem_reverse] at hv
    exact hv.elim (hdone v) (hleft v)
  | case3 done x xs y ys ihRight ihLeft =>
    obtain ⟨hx, hxs⟩ := List.forall_mem_cons.1 hleft
    obtain ⟨hy, hys⟩ := List.forall_mem_cons.1 hright
    refine (hless n (Nat.le_refl n) y x hy hx).bind fun k hk first _ => ?_
    have hless' := fun j (hj : k ≤ j) => hless j (Nat.le_trans hk hj)
    split
    · exact ihRight hless' (List.forall_mem_cons.2 ⟨hy, hdone⟩) hleft hys
    · exact ihLeft hless' (List.forall_mem_cons.2 ⟨hx, hdone⟩) hxs hright

/-- A sort has only the elements that it was given. -/
private theorem sort_keeps
    (hless : ∀ k, n ≤ k → ∀ a b, P a → P b → (less a b).Keeps ρ k fun _ _ => True)
    {xs : List Value} (hxs : ∀ v ∈ xs, P v) :
    (sort less xs).Keeps ρ n fun _ sorted => ∀ v ∈ sorted, P v := by
  fun_induction sort less xs generalizing n with
  | case1 => exact keeps_pure fun _ _ => hxs
  | case2 xs _ ihLeft ihRight =>
    have hleft := ihLeft hless fun v hv => hxs v (List.mem_of_mem_take hv)
    refine hleft.bind fun k hk left hleft => ?_
    -- comparisons may make lists, so there are more of them when the second half is sorted
    have hless' := fun j (hj : k ≤ j) => hless j (Nat.le_trans hk hj)
    have hright := ihRight hless' fun v hv => hxs v (List.mem_of_mem_drop hv)
    refine hright.bind fun j hj right hright => ?_
    exact mergeOnto_keeps (fun i hi => hless' i (Nat.le_trans hj hi)) (by simp) hleft hright

end MergeSort

namespace Primitive

variable {ρ : Ranking} {n : Nat} {p : Primitive κ}

/-- Sorting writes back the elements that were read at the start, whatever has happened to the list
    since: they could be met when the list was made, and that is all that counts. -/
private theorem sort_keeps {apply : Applier κ} (ha : apply.Keeps ρ) {list : Value}
    (hlist : ρ.admits n list) (less : Value) :
    (sort apply list (some less)).Keeps ρ n ρ.admits := by
  refine (keeps_expect _).bind fun k hk r _ => (keeps_items r).bind fun k' hk' xs hxs => ?_
  refine (keeps_expect _).bind fun j hj less _ => ?_
  have hless : ∀ i, j ≤ i → ∀ a b, (ρ.admits r.index a ∧ r.index ≤ k') →
      (ρ.admits r.index b ∧ r.index ≤ k') →
      (lessBy apply less a b).Keeps ρ i fun _ _ => True := by
    intro i hi a b ⟨ha', hr⟩ ⟨hb', _⟩
    -- elements are compared later than they were read, but what could be met still can
    have hle : r.index ≤ i := by omega
    have hcall := ha i less [a, b] (by simpa using ⟨ρ.mono hle ha', ρ.mono hle hb'⟩)
    exact hcall.bind fun _ _ _ _ => keeps_pure fun _ _ => trivial
  refine (MergeSort.sort_keeps hless hxs).bind fun i hi sorted hsorted => ?_
  refine (keeps_modifyList fun _ v hv => ?_).bind fun i' hi' _ _ => keeps_pure fun l hl => ?_
  · exact (hsorted v (List.mem_toArray.1 hv)).1
  · have hle : n ≤ l := by omega
    exact ρ.mono hle hlist

/-! ### Primitives that call functions -/

/-- A new list is what a function yields that makes lists. -/
private theorem yields_of_madeSince {e : Effect} {n k : Nat} {v : Value} (h : v.MadeSince n k) :
    e.Yields ρ n k v := ⟨h.admits, fun _ => h⟩

/-- A value that can be met is what any other function yields. -/
private theorem yields_of_admits {e : Effect} (he : (e == .makes) = false) {n k : Nat} {v : Value}
    (h : ρ.admits k v) : e.Yields ρ n k v :=
  ⟨h, fun hmakes => absurd hmakes (beq_eq_false_iff_ne.1 he)⟩

/-- For a primitive of two arguments it is enough to look at runs with two. -/
theorem Keeps.of_two (harity : p.arity = .exactly 2)
    (h : ∀ {apply : Applier κ}, apply.Keeps ρ → ∀ {n a b}, ρ.admits n a → ρ.admits n b →
      (p.run apply [a, b]).Keeps ρ n ((Effect.ofName p.name).Yields ρ n)) : p.Keeps ρ := by
  intro apply ha n args hlen hargs
  rw [harity] at hlen
  match args, Arity.eq_of_exactly hlen with
  | [a, b], _ => exact h ha (hargs a (by simp)) (hargs b (by simp))

/-- The names of the primitives that may call functions. -/
def consulting : List String := ["map", "filter", "reduce", "apply", "sort!"]

/-- Of the core library, only `apply` calls functions. -/
private theorem coreTable_consulting :
    ∀ p ∈ (coreTable : List (Primitive κ)), p.name ∈ consulting → p.Keeps ρ := by
  -- all but one are out because of their names
  simp only [coreTable, variadic, binary, unary, circuit, consulting, List.mem_cons,
    String.reduceEq, List.not_mem_nil, or_false, false_or, forall_eq_or_imp, forall_eq,
    false_implies, true_and, true_implies]
  refine .of_two rfl fun {_} ha {_ f arguments} _ _ => ?_
  exact (applyToList_keeps ha f arguments).imp fun _ _ _ => yields_of_admits rfl

/-- Of the list library, `map`, `filter`, `reduce` and `sort!` call functions. -/
private theorem listTable_consulting :
    ∀ p ∈ (listTable : List (Primitive κ)), p.name ∈ consulting → p.Keeps ρ := by
  simp only [listTable, variadic, binary, unary, onCell, onItems, binaryOptional, consulting,
    List.mem_cons, String.reduceEq, List.not_mem_nil, or_false, or_true, forall_eq_or_imp,
    forall_eq, false_implies, true_and, true_implies]
  -- the four that are left, in the order of the table
  refine ⟨?_, ?_, ?_, ?_⟩
  · refine .of_two rfl fun {_} ha {_ f list} _ _ => ?_
    exact (map_keeps ha f list).imp fun _ _ _ => yields_of_madeSince
  · refine .of_two rfl fun {_} ha {_ f list} _ _ => ?_
    exact (filter_keeps ha f list).imp fun _ _ _ => yields_of_madeSince
  · intro apply ha n args hlen hargs
    match args, Arity.eq_of_exactly hlen with
    | [f, initial, list], _ =>
      have hinitial := hargs initial (by simp)
      exact (reduce_keeps ha f list hinitial).imp fun _ _ _ => yields_of_admits rfl
  · intro apply ha n args hlen hargs
    obtain ⟨list, rfl⟩ | ⟨list, less, rfl⟩ := Arity.one_or_two hlen
    · -- without a function to ask, sorting is an effect like any other
      exact keeps_of_acts (sort_acts apply list) (fun h => nomatch h) hargs
    · have hlist := hargs list (by simp)
      exact (sort_keeps ha hlist less).imp fun _ _ _ => yields_of_admits rfl

private theorem mathTable_consulting :
    ∀ p ∈ (mathTable : List (Primitive κ)), p.name ∈ consulting → p.Keeps ρ := by
  simp [mathTable, onNumbers, onNumber, comparison, variadic, unary, binary, consulting]

private theorem numberTable_consulting :
    ∀ p ∈ (numberTable : List (Primitive κ)), p.name ∈ consulting → p.Keeps ρ := by
  simp [numberTable, unary, unaryOptional, consulting]

private theorem stringTable_consulting :
    ∀ p ∈ (stringTable : List (Primitive κ)), p.name ∈ consulting → p.Keeps ρ := by
  simp [stringTable, onChars, onTwoStrings, variadic, unary, binary, binaryOptional, consulting]

end Primitive

/-! ## Libraries -/

/-- The effect of a function is an insertion for two names only. -/
theorem Effect.name_of_inserts {name : String} (h : ofName name = .inserts) :
    name = "push!" ∨ name = "set-nth!" := by
  unfold ofName at h
  split at h
  · assumption
  · split at h
    · cases h
    · split at h <;> cases h

namespace Library

variable {ρ : Ranking}

/-- The primitives that call functions keep machines ranked if the calls do. -/
private theorem consulting_keep (l : Library) :
    ∀ p ∈ (l.primitives : List (Primitive κ)), p.name ∈ Primitive.consulting → p.Keeps ρ := by
  cases l with
  | core => exact Primitive.coreTable_consulting
  | list => exact Primitive.listTable_consulting
  | math => exact Primitive.mathTable_consulting
  | number => exact Primitive.numberTable_consulting
  | string => exact Primitive.stringTable_consulting
  | ext => intro p hp; cases hp

/-- Primitives keep machines ranked, unless they put values into a list. -/
theorem primitives_keep (l : Library) {p : Primitive κ} (hp : p ∈ l.primitives)
    (hinserts : p.name = "push!" ∨ p.name = "set-nth!" → ∀ k v, ρ.admits k v) : p.Keeps ρ := by
  by_cases hconsulting : p.name ∈ Primitive.consulting
  · exact l.consulting_keep p hp hconsulting
  · intro apply ha n args hlen hargs
    -- a primitive that calls no functions has its own effect only
    have hconsults : ¬ p.Consults args := by
      rintro (hname | ⟨hname, -⟩)
      · exact hconsulting (List.mem_append_left ["sort!"] hname)
      · exact hconsulting (by simp [hname, Primitive.consulting])
    have hacts := l.primitives_do p hp apply args hlen hconsults
    exact Primitive.keeps_of_acts hacts (fun he => hinserts (Effect.name_of_inserts he)) hargs

end Library

/-- The host function drops no list, whether it succeeds or not. -/
def HostFunction.KeepsLists (f : HostFunction κ) : Prop :=
  ∀ args h, match f args h with
    | .ok _ h' | .error _ h' => h.lists.size ≤ h'.lists.size

/-- A host function that drops no list keeps a machine ranked on which any value may be met. -/
theorem HostFunction.KeepsLists.callHost {f : HostFunction κ} (h : f.KeepsLists) (name : String)
    (args : List Value) (n : Nat) : (callHost name f args).Keeps .free n Ranking.free.admits := by
  intro m _ _
  have hf := h args ⟨m.lists, m.context⟩
  unfold Ends Eval.callHost
  cases hres : f args ⟨m.lists, m.context⟩ with
  | ok v host =>
    rw [hres] at hf
    exact ⟨.free _, hf, trivial⟩
  | error message host =>
    rw [hres] at hf
    exact ⟨.free _, hf⟩

namespace Registry

variable {ρ : Ranking}

/-- The functions keep machines ranked if the calls that they make do. -/
def Keeps (ρ : Ranking) (reg : Registry κ) : Prop :=
  ∀ entry ∈ reg.entries, ∀ apply : Applier κ, apply.Keeps ρ → ∀ n args,
    (∀ v ∈ args, ρ.admits n v) → (entry.call apply args).Keeps ρ n ρ.admits

/-- The functions of the libraries keep machines ranked, as far as they do not put values into
    lists and the functions of the host do too. -/
theorem entriesOf_keep {hosts : List (String × HostFunction κ)}
    (hhosts : ∀ f ∈ hosts, ∀ n args, (callHost f.1 f.2 args).Keeps ρ n ρ.admits) (l : Library)
    {entry : Entry κ} (hentry : entry ∈ entriesOf hosts l)
    (hinserts : entry.name = "push!" ∨ entry.name = "set-nth!" → ∀ k v, ρ.admits k v)
    {apply : Applier κ} (ha : apply.Keeps ρ) {n : Nat} {args : List Value}
    (hargs : ∀ v ∈ args, ρ.admits n v) : (entry.call apply args).Keeps ρ n ρ.admits := by
  cases l with
  | ext =>
    obtain ⟨f, hf, rfl⟩ := List.mem_map.1 hentry
    exact (keeps_record _ _).bind fun k _ _ _ => hhosts f hf k args
  | _ =>
    obtain ⟨p, hp, rfl⟩ := List.mem_map.1 hentry
    exact ((Library.primitives_keep _ hp hinserts).call ha hargs).imp fun _ _ _ hv => hv.1

/-- If any value may be met at any time, it is enough that the host drops no list. -/
theorem ofLibraries_keep {hosts : List (String × HostFunction κ)}
    (hhosts : ∀ f ∈ hosts, f.2.KeepsLists) (libraries : List Library) :
    (ofLibraries hosts libraries).Keeps .free := by
  intro entry hentry apply ha n args hargs
  obtain ⟨l, -, hl⟩ := List.mem_flatMap.1 hentry
  exact entriesOf_keep (fun f hf n args => (hhosts f hf).callHost f.1 args n) l hl
    (fun _ _ _ => trivial) ha hargs

end Registry
end Lisplet
