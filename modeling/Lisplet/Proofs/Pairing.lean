import Lisplet.Host
import Lisplet.Proofs.Logic

/-! # Runs side by side

Two evaluations of the same program on two machines, compared step by step.

A `Simulation` says what the two machines have to have in common, and which names, values and
frames a program may meet on the way.  Lists, closures and printed lines are always the same on
both sides; frames and the contexts of the host may differ in a way that the simulation allows,
and journals may differ in any way.

`x.Paired σ K Q y` says that from related machines on which the frames of `K` are known, `y` ends
as `x` does: with the same value, which satisfies `Q`, or for the same cause, on machines that are
related again.  The one exception is an unwinding that the simulation declares lost: what `y` does
after that is left open.  A lost cause must be one that nothing on the way out takes or renames.

There is one rule for each operation of the machine and for each way of putting evaluations
together.  With the same evaluation on both sides, the rules show what a single run keeps. -/

namespace Lisplet

/-! ## What a program may meet -/

/-- What a program may meet: the names it uses, and which strings, lists and library functions
    there may be among its values. -/
structure Vocabulary where
  allowsName : String → Prop
  allowsString : String → Prop
  allowsList : ListRef → Prop
  allowsBuiltin : String → Prop

/-- The value may be met. -/
def Vocabulary.Allows (V : Vocabulary) : Value → Prop
  | .string s => V.allowsString s
  | .list r => V.allowsList r
  | .builtin name => V.allowsBuiltin name
  | _ => True

/-- A value that the error carries is one of `P`. -/
def Error.Within (P : Value → Prop) : Error → Prop
  | .thrown v => P v
  | _ => True

/-- A value that is carried out is one of `P`. -/
def Unwind.Within (P : Value → Prop) : Unwind → Prop
  | .signal _ => True
  | .failure e => e.Within P

/-- Failures that are passed on as they are by everything they pass. -/
def Unwind.IsFinal : Unwind → Prop
  | .signal _ | .failure (.mismatch _) => False
  | .failure _ => True

/-- The causes that are lost where none is. -/
def Unwind.Never {κ : Type} (_ : Unwind) (_ : κ) : Prop := False

/-- Where nothing is lost there is nothing to show. -/
theorem Unwind.Never.isFinal {κ : Type} {u : Unwind} {k : κ} (h : u.Never k) : u.IsFinal :=
  h.elim

mutual

/-- The names and the constants that an expression is made of. -/
def Expr.atoms : Expr → List Expr
  | .call items => atomsAll items
  | .list items => atomsAll items
  | e => [e]

/-- The names and the constants that some expressions are made of. -/
def Expr.atomsAll : List Expr → List Expr
  | [] => []
  | e :: es => e.atoms ++ atomsAll es

end

/-- A name or a string that may be met, or a constant of another kind. -/
def Vocabulary.AllowsAtom (V : Vocabulary) : Expr → Prop
  | .identifier name => V.allowsName name
  | .string s => V.allowsString s
  | _ => True

/-- The expression is made of what may be met. -/
def Expr.Over (V : Vocabulary) (e : Expr) : Prop := ∀ atom ∈ e.atoms, V.AllowsAtom atom

/-- The atoms of some expressions are those of each of them. -/
theorem Expr.mem_atomsAll {es : List Expr} {atom : Expr} :
    atom ∈ atomsAll es ↔ ∃ e ∈ es, atom ∈ e.atoms := by
  induction es with
  | nil => simp [atomsAll]
  | cons e es ih => simp [atomsAll, ih]

/-- A name is made of itself. -/
theorem Expr.over_identifier {V : Vocabulary} {name : String} :
    (identifier name).Over V ↔ V.allowsName name := by
  simp [Over, atoms, Vocabulary.AllowsAtom]

/-- A string is made of itself. -/
theorem Expr.over_string {V : Vocabulary} {s : String} :
    (string s).Over V ↔ V.allowsString s := by
  simp [Over, atoms, Vocabulary.AllowsAtom]

/-- A call is made of what its items are made of. -/
theorem Expr.over_call {V : Vocabulary} {items : List Expr} :
    (call items).Over V ↔ ∀ e ∈ items, e.Over V := by
  simp only [Over, atoms, mem_atomsAll]
  exact ⟨fun h e he atom hatom => h atom ⟨e, he, hatom⟩,
    fun h atom ⟨e, he, hatom⟩ => h e he atom hatom⟩

/-- So is a list. -/
theorem Expr.over_list {V : Vocabulary} {items : List Expr} :
    (list items).Over V ↔ ∀ e ∈ items, e.Over V := over_call

/-- Parameters and body are made of what may be met. -/
def Closure.Over (V : Vocabulary) (c : Closure) : Prop :=
  (∀ name ∈ c.parameters.names, V.allowsName name) ∧ ∀ e ∈ c.body, e.Over V

/-! ## Simulations -/

/-- What two machines have in common while they run the same program. -/
structure Simulation (κ κ' : Type) extends Vocabulary where
  /-- What holds of the lists. -/
  allowsLists : Lists → Prop
  /-- How the frames of the two sides are related. -/
  scopes : Scopes → Scopes → Prop
  /-- The frames that the program may be evaluated in. -/
  knows : Scopes → FrameRef → Prop
  /-- How the contexts of the two sides are related. -/
  context : κ → κ' → Prop
  /-- The causes after which the second side is left to itself. -/
  loses : Unwind → κ → Prop
  isFinal_of_loses : ∀ {u k}, loses u k → u.IsFinal
  allows_next : ∀ {ls}, allowsLists ls → allowsList ls.next
  alloc : ∀ {ls xs}, allowsLists ls → (∀ v ∈ xs, toVocabulary.Allows v) →
    allowsLists (ls.alloc xs)
  next_eq : ∀ {s s'}, scopes s s' → s'.next = s.next
  get?_eq : ∀ {s s' f name}, scopes s s' → knows s f → allowsName name →
    s'.get? f name = s.get? f name
  allows_of_get? : ∀ {s s' f name v}, scopes s s' → s.get? f name = some v →
    toVocabulary.Allows v
  holder?_eq : ∀ {s s' f name}, scopes s s' → knows s f → allowsName name →
    s'.holder? f name = s.holder? f name
  knows_holder : ∀ {s s' f g name}, scopes s s' → knows s f → s.holder? f name = some g → knows s g
  spawn : ∀ {s s' f}, scopes s s' → knows s f → scopes (s.spawn f) (s'.spawn f)
  knows_next : ∀ {s s' f}, scopes s s' → knows s f → knows (s.spawn f) s.next
  knows_spawn : ∀ {s f g}, knows s g → knows (s.spawn f) g
  define : ∀ {s s' f name v}, scopes s s' → knows s f → allowsName name →
    toVocabulary.Allows v → scopes (s.define f name v) (s'.define f name v)
  knows_define : ∀ {s f g name v}, knows s g → knows (s.define f name v) g

namespace Simulation

variable {κ κ' : Type} (σ : Simulation κ κ')

/-- The name may be found without a meaning in the frame. -/
def Misses (scope : FrameRef) (name : String) : Prop :=
  ∃ s s', σ.scopes s s' ∧ σ.knows s scope ∧ s.get? scope name = none

/-- The two machines agree as far as the simulation asks, and the frames of `K` are known. -/
structure Related (K : FrameRef → Prop) (m : Machine κ) (m' : Machine κ') : Prop where
  lists_eq : m'.lists = m.lists
  lists : σ.allowsLists m.lists
  closures_eq : m'.closures = m.closures
  closures : ∀ c ∈ m.closures, c.Over σ.toVocabulary ∧ σ.knows m.scopes c.scope
  printed_eq : m'.printed = m.printed
  scopes : σ.scopes m.scopes m'.scopes
  context : σ.context m.context m'.context
  known : ∀ f, K f → σ.knows m.scopes f

/-- Programs can do with lists what primitives do with them. -/
structure IsOpen : Prop where
  allows_string : ∀ s, σ.allowsString s
  allows_of_mem : ∀ {ls r v}, σ.allowsLists ls → v ∈ ls.cell r → σ.Allows v
  modify : ∀ {ls r f}, σ.allowsLists ls → (∀ v ∈ f (ls.cell r), σ.Allows v) →
    σ.allowsLists (ls.modify r f)

/-- Two sides with the same frames, on which anything may happen to lists and names. -/
def ofContext (context : κ → κ' → Prop) (loses : Unwind → κ → Prop)
    (isFinal_of_loses : ∀ {u k}, loses u k → u.IsFinal) : Simulation κ κ' where
  allowsName _ := True
  allowsString _ := True
  allowsList _ := True
  allowsBuiltin _ := True
  allowsLists _ := True
  scopes s s' := s' = s
  knows _ _ := True
  context := context
  loses := loses
  isFinal_of_loses := isFinal_of_loses
  allows_next _ := trivial
  alloc _ _ := trivial
  next_eq h := h ▸ rfl
  get?_eq h _ _ := h ▸ rfl
  allows_of_get? {_ _ _ _ v} _ _ := by cases v <;> trivial
  holder?_eq h _ _ := h ▸ rfl
  knows_holder _ _ _ := trivial
  spawn h _ := h ▸ rfl
  knows_next _ _ := trivial
  knows_spawn _ := trivial
  define h _ _ _ := h ▸ rfl
  knows_define _ := trivial

/-- On two such sides any value may be met. -/
theorem allows_ofContext (context : κ → κ' → Prop) (loses : Unwind → κ → Prop)
    (h : ∀ {u k}, loses u k → u.IsFinal) (v : Value) : (ofContext context loses h).Allows v := by
  cases v <;> trivial

/-- And so may any expression. -/
theorem over_ofContext (context : κ → κ' → Prop) (loses : Unwind → κ → Prop)
    (h : ∀ {u k}, loses u k → u.IsFinal) (e : Expr) :
    e.Over (ofContext context loses h).toVocabulary :=
  fun atom _ => by cases atom <;> trivial

/-- On two such sides everything is the same but the contexts and the journals. -/
theorem related_ofContext_iff {context : κ → κ' → Prop} {loses : Unwind → κ → Prop}
    {h : ∀ {u k}, loses u k → u.IsFinal} {K : FrameRef → Prop} {m : Machine κ} {m' : Machine κ'} :
    (ofContext context loses h).Related K m m' ↔
      m'.lists = m.lists ∧ m'.scopes = m.scopes ∧ m'.closures = m.closures ∧
        m'.printed = m.printed ∧ context m.context m'.context := by
  constructor
  · exact fun h => ⟨h.lists_eq, h.scopes, h.closures_eq, h.printed_eq, h.context⟩
  · -- what a program may meet is not restricted, so the rest holds trivially
    rintro ⟨hlists, hscopes, hclosures, hprinted, hcontext⟩
    exact {
      lists_eq := hlists
      lists := trivial
      closures_eq := hclosures
      closures := fun _ _ =>
        ⟨⟨fun _ _ => trivial, fun e _ => over_ofContext context loses h e⟩, trivial⟩
      printed_eq := hprinted
      scopes := hscopes
      context := hcontext
      known := fun _ _ => trivial }

/-- Primitives may do to lists what they like. -/
theorem isOpen_ofContext (context : κ → κ' → Prop) (loses : Unwind → κ → Prop)
    (h : ∀ {u k}, loses u k → u.IsFinal) : (ofContext context loses h).IsOpen where
  allows_string _ := trivial
  allows_of_mem _ _ := allows_ofContext context loses h _
  modify _ _ := trivial

end Simulation

/-- A record changes the journal at most. -/
theorem Machine.exists_record_eq {κ : Type} (m : Machine κ) (level : Level)
    (message : Machine κ → String) : ∃ journal, m.record level message = { m with journal } := by
  unfold Machine.record
  split
  · exact ⟨m.journal, rfl⟩
  · exact ⟨_, rfl⟩

/-- A record leaves the host's context alone. -/
@[simp] theorem Machine.context_record {κ : Type} (m : Machine κ) (level : Level)
    (message : Machine κ → String) : (m.record level message).context = m.context := by
  obtain ⟨journal, h⟩ := m.exists_record_eq level message
  rw [h]

namespace Simulation

variable {κ κ' : Type}

namespace Related

variable {σ : Simulation κ κ'} {K : FrameRef → Prop} {m : Machine κ} {m' : Machine κ'}

/-- Journals may differ. -/
theorem record_left (h : σ.Related K m m') (level : Level) (message : Machine κ → String) :
    σ.Related K (m.record level message) m' := by
  obtain ⟨journal, hj⟩ := m.exists_record_eq level message
  rw [hj]
  exact { h with }

/-- On either side. -/
theorem record_right (h : σ.Related K m m') (level : Level) (message : Machine κ' → String) :
    σ.Related K m (m'.record level message) := by
  obtain ⟨journal, hj⟩ := m'.exists_record_eq level message
  rw [hj]
  exact { h with }

/-- Other lists that are still the same on both sides. -/
theorem withLists (h : σ.Related K m m') {ls : Lists} (hls : σ.allowsLists ls) :
    σ.Related K { m with lists := ls } { m' with lists := ls } :=
  { h with lists_eq := rfl, lists := hls }

/-- The same line is printed on both sides. -/
theorem print (h : σ.Related K m m') (line : String) :
    σ.Related K { m with printed := m.printed.push line }
      { m' with printed := m'.printed.push line } :=
  { h with printed_eq := congrArg (·.push line) h.printed_eq }

/-- A new frame is known, in addition to those that are known already. -/
theorem spawn (h : σ.Related K m m') {scope : FrameRef} (hscope : σ.knows m.scopes scope) :
    σ.Related (fun f => K f ∨ f = m.scopes.next) { m with scopes := m.scopes.spawn scope }
      { m' with scopes := m'.scopes.spawn scope } :=
  { h with
    closures := fun c hc => ⟨(h.closures c hc).1, σ.knows_spawn (h.closures c hc).2⟩
    scopes := σ.spawn h.scopes hscope
    known := by
      rintro f (hf | rfl)
      · exact σ.knows_spawn (h.known f hf)
      · exact σ.knows_next h.scopes hscope }

/-- A name is bound in the same frame of both sides, to the same value. -/
theorem define (h : σ.Related K m m') {scope : FrameRef} (hscope : σ.knows m.scopes scope)
    {name : String} (hname : σ.allowsName name) {v : Value} (hv : σ.Allows v) :
    σ.Related K { m with scopes := m.scopes.define scope name v }
      { m' with scopes := m'.scopes.define scope name v } :=
  { h with
    closures := fun c hc => ⟨(h.closures c hc).1, σ.knows_define (h.closures c hc).2⟩
    scopes := σ.define h.scopes hscope hname hv
    known := fun f hf => σ.knows_define (h.known f hf) }

/-- The same closure is added on both sides, with a frame that is known. -/
theorem newClosure (h : σ.Related K m m') {c : Closure} (hc : c.Over σ.toVocabulary)
    (hscope : σ.knows m.scopes c.scope) :
    σ.Related K { m with closures := m.closures.push c }
      { m' with closures := m'.closures.push c } :=
  { h with
    closures_eq := congrArg (·.push c) h.closures_eq
    closures := by
      intro d hd
      -- rfl | a closure is an old one, or the one that is added
      obtain hd | rfl := Array.mem_push.1 hd
      · exact h.closures d hd
      · exact ⟨hc, hscope⟩ }

theorem mono {L : FrameRef → Prop} (h : σ.Related K m m') (hL : ∀ f, L f → K f) :
    σ.Related L m m' :=
  { h with known := fun f hf => h.known f (hL f hf) }

end Related
end Simulation

/-! ## Paired evaluations -/

namespace Eval

variable {κ κ' α β : Type}

/-- What follows a value goes on from the machine that the value was left on. -/
theorem bind_ok {x : Eval κ β} {f : β → Eval κ α} {m m₁ : Machine κ} {b : β}
    (h : x m = .ok b m₁) : (x >>= f) m = f b m₁ := by
  simp only [bind, EStateM.bind, h]

/-- Nothing follows an unwinding. -/
theorem bind_error {x : Eval κ β} {f : β → Eval κ α} {m m₁ : Machine κ} {u : Unwind}
    (h : x m = .error u m₁) : (x >>= f) m = .error u m₁ := by
  simp only [bind, EStateM.bind, h]

/-- A handler is not asked about a value. -/
theorem tryCatch_ok {x : Eval κ α} {handler : Unwind → Eval κ α} {m m₁ : Machine κ} {a : α}
    (h : x m = .ok a m₁) : (tryCatch x handler : Eval κ α) m = .ok a m₁ := by
  show EStateM.tryCatch x handler m = _
  delta EStateM.tryCatch
  simp only [h]

/-- A handler goes on from the machine that the unwinding left. -/
theorem tryCatch_error {x : Eval κ α} {handler : Unwind → Eval κ α} {m m₁ : Machine κ}
    {u : Unwind} (h : x m = .error u m₁) :
    (tryCatch x handler : Eval κ α) m = handler u m₁ := by
  show EStateM.tryCatch x handler m = _
  delta EStateM.tryCatch
  simp only [h]
  rfl

/-- From related machines on which the frames of `K` are known, `y` ends as `x` does, unless `x`
    is lost, and a value that they end with satisfies `Q`. -/
def Paired (σ : Simulation κ κ') (K : FrameRef → Prop) (Q : α → Prop) (x : Eval κ α)
    (y : Eval κ' α) : Prop :=
  ∀ m m', σ.Related K m m' →
    x.Ends m (fun a m₁ => ∃ m₂, y m' = .ok a m₂ ∧ Q a ∧ σ.Related K m₁ m₂)
      fun u m₁ => σ.loses u m₁.context ∨
        ∃ m₂, y m' = .error u m₂ ∧ u.Within σ.Allows ∧ σ.Related K m₁ m₂

variable {σ : Simulation κ κ'} {K : FrameRef → Prop} {P : β → Prop} {Q Q' : α → Prop}
  {x : Eval κ α} {y : Eval κ' α}

theorem Paired.imp (h : x.Paired σ K Q y) (hQ : ∀ a, Q a → Q' a) : x.Paired σ K Q' y :=
  fun m m' hm => (h m m' hm).imp
    (fun a _ ⟨m₂, hy, ha, hm₂⟩ => ⟨m₂, hy, hQ a ha, hm₂⟩) fun _ _ hu => hu

/-! ### Composition -/

theorem paired_pure {a : α} (h : Q a) : (pure a : Eval κ α).Paired σ K Q (pure a) :=
  fun _ m' hm => (ends_pure a).2 ⟨m', rfl, h, hm⟩

theorem paired_throw {u : Unwind} (h : u.Within σ.Allows) :
    (throw u : Eval κ α).Paired σ K Q (throw u) :=
  fun _ m' hm => (ends_throw u).2 (.inr ⟨m', rfl, h, hm⟩)

theorem paired_fail {e : Error} (h : e.Within σ.Allows) :
    (fail e : Eval κ α).Paired σ K Q (fail e) := paired_throw h

/-- After a cause that is lost, anything may stand on the second side. -/
theorem paired_of_loses {u : Unwind} (h : ∀ k, σ.loses u k) (y : Eval κ' α) :
    (throw u : Eval κ α).Paired σ K Q y :=
  fun m _ _ => (ends_throw u).2 (.inl (h m.context))

/-- Two steps that are paired are so one after the other. -/
theorem Paired.bind {x : Eval κ β} {y : Eval κ' β} {f : β → Eval κ α} {g : β → Eval κ' α}
    (hx : x.Paired σ K P y) (hf : ∀ b, P b → (f b).Paired σ K Q (g b)) :
    (x >>= f).Paired σ K Q (y >>= g) := by
  intro m m' hm
  rw [ends_bind]
  refine (hx m m' hm).imp (fun b m₁ h => ?_) (fun u m₁ h => ?_)
  · -- the first step ended with a value, on machines that are still related
    obtain ⟨m₂, hy, hb, hm₂⟩ := h
    rw [bind_ok hy]
    exact hf b hb m₁ m₂ hm₂
  · -- the first step unwound, and so do both sides
    refine h.imp id fun ⟨m₂, hy, hu, hm₂⟩ => ⟨m₂, ?_, hu, hm₂⟩
    rw [bind_error hy]

/-- A function of a value is the same function on both sides. -/
theorem Paired.map {x : Eval κ β} {y : Eval κ' β} (hx : x.Paired σ K P y) {f : β → α}
    (hf : ∀ b, P b → Q (f b)) : (f <$> x).Paired σ K Q (f <$> y) := by
  rw [← bind_pure_comp, ← bind_pure_comp]
  exact hx.bind fun b hb => paired_pure (hf b hb)

/-- Handlers are paired for the causes that are not lost, and a cause that is lost is passed on by
    the handler of the first side, with no more than records on the way. -/
theorem Paired.tryCatch {handler : Unwind → Eval κ α} {handler' : Unwind → Eval κ' α}
    (hx : x.Paired σ K Q y)
    (hh : ∀ u, u.Within σ.Allows → (handler u).Paired σ K Q (handler' u))
    (hfinal : ∀ u m, u.IsFinal →
      (handler u).Ends m (fun _ _ => False) fun w m₁ => w = u ∧ m₁.context = m.context) :
    (MonadExcept.tryCatch x handler).Paired σ K Q (MonadExcept.tryCatch y handler') := by
  intro m m' hm
  rw [ends_tryCatch]
  refine (hx m m' hm).imp (fun a m₁ ⟨m₂, hy, h⟩ => ⟨m₂, tryCatch_ok hy, h⟩) ?_
  rintro u m₁ (hlost | ⟨m₂, hy, hu, hm₂⟩)
  · -- the cause stays lost, since the handler lets it through
    refine (hfinal u m₁ (σ.isFinal_of_loses hlost)).imp (fun _ _ h => h.elim) ?_
    rintro _ m₂ ⟨rfl, hm₂⟩
    exact .inl (hm₂ ▸ hlost)
  · rw [tryCatch_error hy]
    exact hh u hu m₁ m₂ hm₂

/-- One evaluation for each element of a list. -/
theorem Paired.mapM {xs : List β} {f : β → Eval κ α} {g : β → Eval κ' α}
    (hf : ∀ b ∈ xs, (f b).Paired σ K Q (g b)) :
    (xs.mapM f).Paired σ K (fun as => ∀ a ∈ as, Q a) (xs.mapM g) := by
  induction xs with
  | nil => exact paired_pure (by simp)
  | cons b xs ih =>
    rw [List.mapM_cons, List.mapM_cons]
    refine (hf b List.mem_cons_self).bind fun a ha => ?_
    refine (ih fun c hc => hf c (List.mem_cons_of_mem b hc)).bind fun as has => ?_
    exact paired_pure (List.forall_mem_cons.2 ⟨ha, has⟩)

/-- A loop over a list with an accumulated value. -/
theorem Paired.foldlM {xs : List β} {f : α → β → Eval κ α} {g : α → β → Eval κ' α}
    (hf : ∀ a, ∀ b ∈ xs, Q a → (f a b).Paired σ K Q (g a b)) {a : α} (ha : Q a) :
    (xs.foldlM f a).Paired σ K Q (xs.foldlM g a) := by
  induction xs generalizing a with
  | nil => exact paired_pure ha
  | cons b xs ih =>
    rw [List.foldlM_cons, List.foldlM_cons]
    refine (hf a b List.mem_cons_self ha).bind fun a' ha' => ?_
    exact ih (fun a c hc => hf a c (List.mem_cons_of_mem b hc)) ha'

/-- A loop over a list for what it does to the machine. -/
theorem Paired.forM {xs : List β} {f : β → Eval κ PUnit} {g : β → Eval κ' PUnit}
    {Q : PUnit → Prop} (hQ : Q ⟨⟩) (hf : ∀ b ∈ xs, (f b).Paired σ K Q (g b)) :
    (xs.forM f).Paired σ K Q (xs.forM g) := by
  induction xs with
  | nil => exact paired_pure hQ
  | cons b xs ih =>
    refine (hf b List.mem_cons_self).bind fun _ _ => ?_
    exact ih fun c hc => hf c (List.mem_cons_of_mem b hc)

/-! ### Operations of the machine -/

/-- What is done with the machine at hand may use that the two are related. -/
theorem paired_get_bind {f : Machine κ → Eval κ α} {g : Machine κ' → Eval κ' α}
    (h : ∀ m m', σ.Related K m m' → (f m).Paired σ K Q (g m')) :
    (get >>= f).Paired σ K Q (get >>= g) := by
  intro m m' hm
  exact h m m' hm m m' hm

/-- The machines may be changed in ways that keep them related. -/
private theorem paired_modifyGet {f : Machine κ → α × Machine κ} {g : Machine κ' → α × Machine κ'}
    (h : ∀ m m', σ.Related K m m' →
      (g m').1 = (f m).1 ∧ Q (f m).1 ∧ σ.Related K (f m).2 (g m').2) :
    (modifyGet f : Eval κ α).Paired σ K Q (modifyGet g) := by
  intro m m' hm
  obtain ⟨heq, hQ, hrel⟩ := h m m' hm
  refine (ends_modifyGet f).2 ⟨(g m').2, ?_, hQ, hrel⟩
  show EStateM.Result.ok (g m').1 (g m').2 = _
  rw [heq]

theorem paired_modify {f : Machine κ → Machine κ} {g : Machine κ' → Machine κ'}
    (h : ∀ m m', σ.Related K m m' → σ.Related K (f m) (g m')) :
    (modify f : Eval κ Unit).Paired σ K (fun _ => True) (modify g) :=
  paired_modifyGet fun m m' hm => ⟨rfl, trivial, h m m' hm⟩

/-- A record leaves nothing behind that is compared. -/
theorem paired_record (level level' : Level) (message : Machine κ → String)
    (message' : Machine κ' → String) :
    (record level message).Paired σ K (fun _ => True) (record level' message') :=
  paired_modify fun _ _ hm => (hm.record_left level message).record_right level' message'

/-- A record on the first side alone makes no difference. -/
theorem Paired.record_left (h : x.Paired σ K Q y) (level : Level) (message : Machine κ → String) :
    (record level message >>= fun _ => x).Paired σ K Q y :=
  fun _ m' hm => h _ m' (hm.record_left level message)

/-- Nor does one on the second side alone. -/
theorem Paired.record_right (h : x.Paired σ K Q y) (level : Level)
    (message : Machine κ' → String) : x.Paired σ K Q (record level message >>= fun _ => y) :=
  fun m _ hm => h m _ (hm.record_right level message)

theorem paired_print (line : String) :
    (print line : Eval κ Unit).Paired σ K (fun _ => True) (print line) :=
  paired_modify fun _ _ hm => hm.print line

/-- The new list has the same name on both sides, since the lists are the same. -/
theorem paired_newCell {elements : Array Value} (h : ∀ v ∈ elements, σ.Allows v) :
    (newCell elements : Eval κ Value).Paired σ K σ.Allows (newCell elements) := by
  refine paired_modifyGet fun m m' hm => ?_
  rw [hm.lists_eq]
  exact ⟨rfl, σ.allows_next hm.lists, hm.withLists (σ.alloc hm.lists h)⟩

theorem paired_newList {elements : List Value} (h : ∀ v ∈ elements, σ.Allows v) :
    (newList elements : Eval κ Value).Paired σ K σ.Allows (newList elements) :=
  paired_newCell fun v hv => h v (List.mem_toArray.1 hv)

/-- A name means the same on both sides, or is missed on both. -/
theorem paired_get? {scope : FrameRef} (hscope : K scope) {name : String}
    (hname : σ.allowsName name) :
    (get? scope name : Eval κ (Option Value)).Paired σ K
      (fun bound => (∀ v ∈ bound, σ.Allows v) ∧ (bound = none → σ.Misses scope name))
      (get? scope name) := by
  refine paired_get_bind fun m m' hm => ?_
  have hknown := hm.known scope hscope
  rw [σ.get?_eq hm.scopes hknown hname]
  exact paired_pure ⟨fun v hv => σ.allows_of_get? hm.scopes hv,
    fun hnone => ⟨m.scopes, m'.scopes, hm.scopes, hknown, hnone⟩⟩

/-- The same, where a name without meaning is a failure. -/
theorem paired_lookup {scope : FrameRef} (hscope : K scope) {name : String}
    (hname : σ.allowsName name) :
    (lookup scope name : Eval κ Value).Paired σ K σ.Allows (lookup scope name) := by
  refine (paired_get? hscope hname).bind fun bound hbound => ?_
  cases bound with
  | some v => exact paired_pure (hbound.1 v rfl)
  | none => exact paired_fail trivial

/-- The same name is bound. -/
theorem paired_define {scope : FrameRef} (hscope : K scope) {name : String}
    (hname : σ.allowsName name) {v : Value} (hv : σ.Allows v) :
    (define scope name v : Eval κ Unit).Paired σ K (fun _ => True) (define scope name v) :=
  paired_modify fun _ _ hm => hm.define (hm.known scope hscope) hname hv

/-- The same binding is changed, or there is none on either side. -/
theorem paired_assign {scope : FrameRef} (hscope : K scope) {name : String}
    (hname : σ.allowsName name) {v : Value} (hv : σ.Allows v) :
    (assign scope name v : Eval κ Value).Paired σ K σ.Allows (assign scope name v) := by
  intro m m' hm
  have hknown := hm.known scope hscope
  -- the same frame is written to on both sides
  have heq : m'.scopes.holder? scope name = m.scopes.holder? scope name :=
    σ.holder?_eq hm.scopes hknown hname
  rw [Ends, assign_eq, assign_eq, heq]
  cases hh : m.scopes.holder? scope name with
  | none => exact .inr ⟨m', rfl, trivial, hm⟩
  | some holder =>
    exact ⟨_, rfl, hv, hm.define (σ.knows_holder hm.scopes hknown hh) hname hv⟩

/-- Frames may be forgotten once they are no longer needed. -/
private theorem Ends.forget {L : FrameRef → Prop} {m : Machine κ} {m' : Machine κ'}
    (h : x.Ends m (fun a m₁ => ∃ m₂, y m' = .ok a m₂ ∧ Q a ∧ σ.Related K m₁ m₂)
      fun u m₁ => σ.loses u m₁.context ∨
        ∃ m₂, y m' = .error u m₂ ∧ u.Within σ.Allows ∧ σ.Related K m₁ m₂)
    (hL : ∀ f, L f → K f) :
    x.Ends m (fun a m₁ => ∃ m₂, y m' = .ok a m₂ ∧ Q a ∧ σ.Related L m₁ m₂)
      fun u m₁ => σ.loses u m₁.context ∨
        ∃ m₂, y m' = .error u m₂ ∧ u.Within σ.Allows ∧ σ.Related L m₁ m₂ := by
  refine h.imp ?_ ?_
  · rintro a m₁ ⟨m₂, hy, ha, hm₂⟩
    exact ⟨m₂, hy, ha, hm₂.mono hL⟩
  · rintro u m₁ (hlost | ⟨m₂, hy, hu, hm₂⟩)
    · exact .inl hlost
    · exact .inr ⟨m₂, hy, hu, hm₂.mono hL⟩

/-- What runs in a new frame may use it. -/
theorem paired_spawn {scope : FrameRef} (hscope : K scope) {f : FrameRef → Eval κ α}
    {g : FrameRef → Eval κ' α}
    (h : ∀ inner, (f inner).Paired σ (fun k => K k ∨ k = inner) Q (g inner)) :
    (spawn scope >>= f).Paired σ K Q (spawn scope >>= g) := by
  intro m m' hm
  have hinner := hm.spawn (hm.known scope hscope)
  -- the new frame has the same name on both sides
  have hnext : m'.scopes.next = m.scopes.next := σ.next_eq hm.scopes
  have hrun : (spawn scope >>= g) m' =
      g m.scopes.next { m' with scopes := m'.scopes.spawn scope } := by
    rw [← hnext]
    rfl
  simp only [hrun]
  simp only [spawn, ends_bind, ends_modifyGet]
  exact (h m.scopes.next _ _ hinner).forget fun _ => .inl

/-- The new closure has the same name on both sides. -/
theorem paired_newClosure (name : Option String) {c : Closure} (hc : c.Over σ.toVocabulary)
    (hscope : K c.scope) :
    (newClosure name c : Eval κ Value).Paired σ K σ.Allows (newClosure name c) := by
  refine paired_modifyGet fun m m' hm => ⟨?_, trivial, hm.newClosure hc (hm.known _ hscope)⟩
  simp only [hm.closures_eq]

/-- The frame that a closure was made in is known. -/
theorem paired_code? (r : ClosureRef) {f : Option Closure → Eval κ α}
    {g : Option Closure → Eval κ' α} (hnone : (f none).Paired σ K Q (g none))
    (hsome : ∀ c : Closure, c.Over σ.toVocabulary →
      (f (some c)).Paired σ (fun k => K k ∨ k = c.scope) Q (g (some c))) :
    (code? r >>= f).Paired σ K Q (code? r >>= g) := by
  intro m m' hm
  have hcode : ∀ {κ : Type} (h : Option Closure → Eval κ α) (m : Machine κ),
      (code? r >>= h) m = h m.closures[r.index]? m := fun _ _ => rfl
  rw [Ends, hcode, hcode, hm.closures_eq]
  cases hc : m.closures[r.index]? with
  | none => exact hnone m m' hm
  | some c =>
    obtain ⟨hover, hknown⟩ := hm.closures c (Array.mem_of_getElem? hc)
    have hm' : σ.Related (fun k => K k ∨ k = c.scope) m m' :=
      { hm with known := fun f hf => hf.elim (hm.known f) fun hf => hf ▸ hknown }
    exact (hsome c hover m m' hm').forget fun _ => .inl

/-! ### Checks -/

/-- A check does not depend on the machine. -/
theorem paired_expect (r : Except Mismatch α) :
    (expect r : Eval κ α).Paired σ K (fun a => r = .ok a) (expect r) := by
  cases r with
  | ok a => exact paired_pure rfl
  | error cause => exact paired_fail trivial

theorem paired_checkArity (name : String) (arity : Arity) (got : Nat) :
    (checkArity name arity got : Eval κ Unit).Paired σ K (fun _ => arity.contains got = true)
      (checkArity name arity got) := by
  unfold checkArity
  split
  · rename_i h
    exact paired_pure h
  · exact paired_fail trivial

/-- A failure is named after the same function on both sides. -/
theorem Paired.pinned (h : x.Paired σ K Q y) (function : String) :
    (pinned function x).Paired σ K Q (pinned function y) := by
  refine h.tryCatch (fun u hu => ?_) (fun u m hu => ?_)
  · -- only a value of the wrong kind is renamed
    cases u with
    | signal s => exact paired_throw hu
    | failure e =>
      cases e with
      | mismatch cause => exact paired_fail trivial
      | _ => exact paired_throw hu
  · -- a cause that is lost is none of those that are renamed
    cases u with
    | signal s => exact hu.elim
    | failure e =>
      cases e with
      | mismatch cause => exact hu.elim
      | _ => exact ⟨rfl, rfl⟩

end Eval
end Lisplet
