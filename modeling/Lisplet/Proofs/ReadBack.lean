import Lisplet.Proofs.Confinement
import Lisplet.Proofs.LexicalGrammar
import Lisplet.Proofs.Literals
import Lisplet.Proofs.PairedEvaluation

/-! # Printed values read back

The readable text of data is read as one expression, and that expression evaluates to an equal
value, exactly if no string in the data has a quote in it.

A string with a quote in it is not read back, whatever stands around it, for no literal has a quote
in it (`Token.quote_not_mem`).  So the value would have to be made by functions.  But the expression
is to evaluate everywhere, also where every name in it means `null` (`Machine.barren`), and a
program that has no functions but its own can make no other strings than its literals
(`Simulation.quoteless`).

* `Value.ReadsBack`                 the text leads back to the value
* `Vocabulary.Covers`               frames in which names have a meaning, and only an allowed one
* `Value.readsBack_iff_quote_free`  when values read back -/

namespace Lisplet

/-- The second machine still has the frames and the lists of the first, as they were. -/
structure Machine.Keeps {κ : Type} (m m' : Machine κ) : Prop where
  lists : m.lists.Extends m'.lists
  frames : ∀ i < m.scopes.frames.size, m'.scopes.frames[i]? = m.scopes.frames[i]?

/-- The readable text of the value is one expression.  Wherever that is evaluated, it ends with an
    equal value, given enough fuel, and leaves frames and lists as they were. -/
def Value.ReadsBack {κ : Type} (reg : Registry κ) (ls : Lists) (v : Value) : Prop :=
  ∃ e, Expr.parse (v.readable ls) = .ok [e] ∧
    ∀ (m : Machine κ) (scope : FrameRef), m.lists = ls → ∃ w m' fuel₀,
      (∀ fuel ≥ fuel₀, (Evaluator.withFuel reg fuel).eval e scope m = .ok w m') ∧
        m.Keeps m' ∧ w.equal m'.lists v = true

/-! ## Literals lead back -/

/-- A sequence of one expression is that expression. -/
private theorem Evaluator.eval_of_sequence {κ : Type} {ev : Evaluator κ} {e : Expr}
    {scope : FrameRef} {m m' : Machine κ} {w : Value} (h : ev.sequence [e] scope m = .ok [w] m') :
    ev.eval e scope m = .ok w m' := by
  unfold sequence at h
  rw [List.mapM_cons] at h
  cases he : ev.eval e scope m with
  | ok u m₁ =>
    rw [Eval.bind_ok he] at h
    cases h
    rfl
  | error u m₁ =>
    rw [Eval.bind_error he] at h
    cases h

/-- A value whose text is a literal of it reads back. -/
private theorem Value.Spelled.readsBack {κ : Type} (reg : Registry κ) {ls : Lists} {v : Value}
    (h : Spelled ls (v.readable ls) [v]) : v.ReadsBack reg ls := by
  obtain ⟨es, ts, hliterals, hemits, hrender⟩ := h
  -- one value has one literal, and that evaluates to one copy
  obtain ⟨e, rfl⟩ : ∃ e, es = [e] := by
    cases hliterals with
    | leaf _ _ hrest => cases hrest; exact ⟨_, rfl⟩
    | list _ _ hrest => cases hrest; exact ⟨_, rfl⟩
  refine ⟨e, ?_, ?_⟩
  · rw [Expr.parse, hemits.scan_eq]
    exact Expr.ofTokens_of_renderings hrender
  · rintro m scope rfl
    obtain ⟨ws, ls', fuel₀, hgrown, hcopies, hrun⟩ := hliterals.evaluates reg scope m (.refl _)
    obtain ⟨w, rfl⟩ : ∃ w, ws = [w] := by
      cases hcopies with
      | leaf _ hrest => cases hrest; exact ⟨_, rfl⟩
      | list _ _ _ hrest => cases hrest; exact ⟨_, rfl⟩
    exact ⟨w, _, fuel₀, fun fuel hfuel => Evaluator.eval_of_sequence (hrun fuel hfuel),
      ⟨hgrown, fun _ _ => rfl⟩, hcopies.equal⟩

/-! ## Programs without functions -/

namespace Vocabulary

/-- The names of an expression, strings without quotes, lists that were not there when there were
    `size` of them, and no library function. -/
def quoteless (e : Expr) (size : Nat) : Vocabulary where
  allowsName name := .identifier name ∈ e.atoms
  allowsString s := '"' ∉ s.toList
  allowsList r := size ≤ r.index
  allowsBuiltin _ := False

/-- Frames in which every name has a meaning, and only such meanings as may be met. -/
structure Covers (V : Vocabulary) (s : Scopes) : Prop where
  bound : ∀ {name}, V.allowsName name → (s.frame Scopes.root).bindings.binds name = true
  root_mem : ∀ {f : FrameRef}, f.index < s.frames.size → Scopes.root ∈ s.chain f
  chain_lt : ∀ {f g : FrameRef}, f.index < s.frames.size → g ∈ s.chain f →
    g.index < s.frames.size
  allowed : ∀ {f name v}, (s.frame f).bindings.lookup name = some v → V.Allows v

namespace Covers

variable {V : Vocabulary} {s : Scopes} {f : FrameRef} {name : String} {v : Value}

/-- What a name means may be met. -/
theorem allows_of_get? (h : V.Covers s) (hget : s.get? f name = some v) : V.Allows v := by
  obtain ⟨g, -, hlookup⟩ := Option.bind_eq_some_iff.1 hget
  exact h.allowed hlookup

/-- Every name means something. -/
private theorem get?_ne_none (h : V.Covers s) (hf : f.index < s.frames.size)
    (hname : V.allowsName name) : s.get? f name ≠ none := by
  -- if no nearer frame has it, the root does
  have hholder : (s.holder? f name).isSome = true :=
    List.find?_isSome.2 ⟨Scopes.root, h.root_mem hf, h.bound hname⟩
  obtain ⟨g, hg⟩ := Option.isSome_iff_exists.1 hholder
  rw [Scopes.get?, hg, Option.bind_some, ← Option.isSome_iff_ne_none]
  exact Scopes.binds_of_holder? hg

/-- A new frame hangs off the root as well. -/
theorem spawn (h : V.Covers s) (hf : f.index < s.frames.size) : V.Covers (s.spawn f) where
  bound hname :=
    (Scopes.Grows.of_spawn (.refl (fun g => False ∨ g = s.next) _)).kept _ _ (h.bound hname)
  root_mem {g} hg := by
    rw [Scopes.chain]
    obtain ⟨hlt, hframe⟩ | ⟨-, hframe⟩ := Scopes.frame_spawn_cases hg
    · rw [hframe]
      exact h.root_mem hlt
    · rw [hframe]
      exact List.mem_cons_of_mem g (h.root_mem hf)
  chain_lt {g k} hg hk := by
    rw [Scopes.chain] at hk
    rw [Scopes.size_spawn]
    obtain ⟨hlt, hframe⟩ | ⟨rfl, hframe⟩ := Scopes.frame_spawn_cases hg
    · rw [hframe] at hk
      exact Nat.lt_succ_of_lt (h.chain_lt hlt hk)
    · rw [hframe] at hk
      obtain rfl | hk := List.mem_cons.1 hk
      · exact Nat.lt_succ_self _
      · exact Nat.lt_succ_of_lt (h.chain_lt hf hk)
  allowed {g name v} hlookup := by
    obtain ⟨-, hframe⟩ | ⟨-, hframe⟩ := Scopes.frame_spawn_cases (Scopes.index_lt_of_lookup hlookup)
    · rw [hframe] at hlookup
      exact h.allowed hlookup
    · -- the new frame binds nothing
      rw [hframe] at hlookup
      cases hlookup

/-- A name may be bound to what may be met. -/
theorem define (h : V.Covers s) (hv : V.Allows v) : V.Covers (s.define f name v) where
  bound hname :=
    (Scopes.Grows.define (P := fun _ => True) (.inr trivial) v).kept _ _ (h.bound hname)
  root_mem {g} hg := by
    rw [Scopes.size_define] at hg
    rw [Scopes.chain_define]
    exact h.root_mem hg
  chain_lt {g k} hg hk := by
    rw [Scopes.size_define] at hg ⊢
    rw [Scopes.chain_define] at hk
    exact h.chain_lt hg hk
  allowed {g other u} hlookup := by
    have hg := Scopes.index_lt_of_lookup hlookup
    rw [Scopes.size_define] at hg
    -- the one meaning that is new may be met
    by_cases hfg : f = g
    · subst hfg
      rw [Scopes.frame_define_self hg] at hlookup
      by_cases hname : other = name
      · subst hname
        rw [Bindings.lookup_insert_self] at hlookup
        cases hlookup
        exact hv
      · rw [Bindings.lookup_insert_of_ne _ hname] at hlookup
        exact h.allowed hlookup
    · rw [Scopes.frame_define_of_ne s hfg] at hlookup
      exact h.allowed hlookup

end Covers
end Vocabulary

/-- New lists hold what may be met. -/
structure Vocabulary.CoversLists (V : Vocabulary) (size : Nat) (ls : Lists) : Prop where
  size_le : size ≤ ls.size
  allowed : ∀ {r : ListRef} {v}, size ≤ r.index → v ∈ ls.cell r → V.Allows v

/-- At first there are no new lists. -/
private theorem Vocabulary.coversLists_size (V : Vocabulary) (ls : Lists) :
    V.CoversLists ls.size ls where
  size_le := Nat.le_refl _
  allowed hr hv := absurd (Lists.index_lt_of_mem_cell hv) (Nat.not_lt.2 hr)

theorem Vocabulary.CoversLists.alloc {V : Vocabulary} {size : Nat} {ls : Lists}
    (h : V.CoversLists size ls) {xs : Array Value} (hxs : ∀ v ∈ xs, V.Allows v) :
    V.CoversLists size (ls.alloc xs) where
  size_le := by
    rw [Lists.size_alloc]
    exact Nat.le_succ_of_le h.size_le
  allowed hr hv := (Lists.mem_cell_alloc hv).elim (h.allowed hr) (hxs _)

/-- Both sides are the same, with names that have a meaning and without functions that are not the
    program's own. -/
def Simulation.quoteless (κ : Type) (e : Expr) (size : Nat) : Simulation κ κ where
  toVocabulary := .quoteless e size
  allowsLists := (Vocabulary.quoteless e size).CoversLists size
  scopes s s' := s' = s ∧ (Vocabulary.quoteless e size).Covers s
  knows s f := f.index < s.frames.size
  context := Eq
  loses _ _ := False
  isFinal_of_loses h := h.elim
  allows_next h := h.size_le
  alloc h hxs := h.alloc hxs
  next_eq h := h.1 ▸ rfl
  get?_eq h _ _ := h.1 ▸ rfl
  allows_of_get? h hget := h.2.allows_of_get? hget
  holder?_eq h _ _ := h.1 ▸ rfl
  knows_holder h hf hholder := h.2.chain_lt hf (List.mem_of_find?_eq_some hholder)
  spawn h hf := ⟨h.1 ▸ rfl, h.2.spawn hf⟩
  knows_next {s _ f} _ _ := s.size_spawn f ▸ Nat.lt_succ_self _
  knows_spawn {s f _} h := s.size_spawn f ▸ Nat.lt_succ_of_lt h
  define h _ _ hv := ⟨h.1 ▸ rfl, h.2.define hv⟩
  knows_define {s f _ name v} h := s.size_define f name v ▸ h

/-- No library is ever looked into. -/
private theorem Registry.paired_quoteless {κ : Type} (reg : Registry κ) (e : Expr) (size : Nat) :
    reg.Paired (.quoteless κ e size) reg := by
  have hmisses : ∀ {scope name}, (Simulation.quoteless κ e size).Misses scope name →
      .identifier name ∉ e.atoms := by
    rintro scope name ⟨s, s', hscopes, hknows, hget⟩ hname
    exact hscopes.2.get?_ne_none hknows hname hget
  exact {
    found_of_misses := fun h hname => absurd hname (hmisses h)
    found_of_allows := fun h => h.elim
    allows_of_misses := fun h hname _ => absurd hname (hmisses h) }

/-! ## Where every name means nothing -/

namespace Expr

/-- The names in an expression, each with the meaning `null`. -/
def nullBindings (e : Expr) : Bindings :=
  e.atoms.filterMap fun
    | .identifier name => some (name, .null)
    | _ => none

/-- Exactly the names of the expression are bound, all of them to `null`. -/
private theorem mem_nullBindings {e : Expr} {name : String} {v : Value} :
    (name, v) ∈ e.nullBindings ↔ .identifier name ∈ e.atoms ∧ v = .null := by
  unfold nullBindings
  rw [List.mem_filterMap]
  constructor
  · rintro ⟨atom, hatom, heq⟩
    split at heq
    · cases heq
      exact ⟨hatom, rfl⟩
    · cases heq
  · rintro ⟨hatom, rfl⟩
    exact ⟨_, hatom, rfl⟩

/-- Literals in an expression are literals in the text. -/
private theorem Renderings.mem_of_mem_atoms {es : List Expr} {ts : List Token}
    (h : Renderings es ts) {s : String} (hs : .string s ∈ atomsAll es) : .string s ∈ ts := by
  induction h with
  | nil => cases hs
  | string s' _ ih =>
    obtain hs | hs := List.mem_append.1 hs
    · cases List.mem_singleton.1 hs
      exact List.mem_cons_self
    · exact List.mem_cons_of_mem _ (ih hs)
  | word hword _ ih =>
    obtain hs | hs := List.mem_append.1 hs
    · -- no word stands for a string
      cases hword <;> cases List.mem_singleton.1 hs
    · exact List.mem_cons_of_mem _ (ih hs)
  | list _ _ ihitems ih =>
    obtain hs | hs := List.mem_append.1 hs
    · exact List.mem_append_left _ (List.mem_cons_of_mem _ (ihitems hs))
    · exact List.mem_append_right _ (List.mem_cons_of_mem _ (ih hs))
  | call _ _ _ ihitems ih =>
    obtain hs | hs := List.mem_append.1 hs
    · exact List.mem_append_left _ (List.mem_cons_of_mem _ (ihitems hs))
    · exact List.mem_append_right _ (List.mem_cons_of_mem _ (ih hs))

/-- The literals of an expression that was read have no quotes in them. -/
private theorem over_quoteless {source : String} {e : Expr} (h : parse source = .ok [e])
    (size : Nat) : e.Over (.quoteless e size) := by
  have hrender : Renderings [e] (Token.scan source) := renderings_of_ofTokens h
  intro atom hatom
  cases atom with
  | identifier name => exact hatom
  | string s =>
    have hs : .string s ∈ atomsAll [e] := mem_atomsAll.2 ⟨e, List.mem_cons_self, hatom⟩
    exact Token.quote_not_mem (hrender.mem_of_mem_atoms hs)
  | number | bool | null | call | list => trivial

end Expr

/-- Some lists, and one frame in which every name of an expression means `null`. -/
def Machine.barren {κ : Type} (ls : Lists) (e : Expr) (context : κ) : Machine κ where
  lists := ls
  scopes := ⟨#[{ bindings := e.nullBindings }]⟩
  context := context

/-- Its only frame is the root. -/
private theorem Machine.eq_root_of_barren {κ : Type} {ls : Lists} {e : Expr} {context : κ}
    {f : FrameRef} (hf : f.index < (barren ls e context).scopes.frames.size) : f = Scopes.root :=
  congrArg FrameRef.mk (Nat.lt_one_iff.1 hf)

/-- There every name means `null`, which may be met. -/
private theorem Machine.covers_barren {κ : Type} (ls : Lists) (e : Expr) (context : κ)
    (size : Nat) :
    (Vocabulary.quoteless e size).Covers (barren ls e context).scopes where
  bound {name} hname := List.lookup_isSome_iff.2
    ⟨(name, .null), Expr.mem_nullBindings.2 ⟨hname, rfl⟩, beq_self_eq_true name⟩
  root_mem hf := by
    rw [eq_root_of_barren hf]
    exact List.mem_cons_self
  chain_lt hf hg := by
    rw [eq_root_of_barren hf] at hg
    cases List.mem_singleton.1 hg
    exact Nat.one_pos
  allowed {f name v} h := by
    rw [eq_root_of_barren (Scopes.index_lt_of_lookup h)] at h
    obtain ⟨older, rest, hbindings, -⟩ := List.lookup_eq_some_iff.1 h
    have hmem : (name, v) ∈ e.nullBindings := by
      rw [show e.nullBindings = older ++ (name, v) :: rest from hbindings]
      exact List.mem_append_right _ List.mem_cons_self
    rw [(Expr.mem_nullBindings.1 hmem).2]
    trivial

/-- What an expression evaluates to there has no strings but its own literals, and no list that was
    there before. -/
private theorem Evaluator.allows_of_eval_barren {κ : Type} {reg : Registry κ} {fuel : Nat}
    {ls : Lists} {e : Expr} {context : κ} {w : Value} {m' : Machine κ}
    (he : e.Over (.quoteless e ls.size))
    (hrun : (withFuel reg fuel).eval e Scopes.root (.barren ls e context) = .ok w m') :
    (Vocabulary.quoteless e ls.size).Allows w ∧
      (Vocabulary.quoteless e ls.size).CoversLists ls.size m'.lists := by
  have hstart : (Simulation.quoteless κ e ls.size).Related (· = Scopes.root) (.barren ls e context)
      (.barren ls e context) := {
    lists_eq := rfl
    lists := Vocabulary.coversLists_size _ ls
    closures_eq := rfl
    closures := fun c hc => absurd hc (Array.not_mem_empty c)
    printed_eq := rfl
    scopes := ⟨rfl, Machine.covers_barren ls e context ls.size⟩
    context := rfl
    known := by
      rintro f rfl
      exact Nat.one_pos }
  -- the run is paired with itself, for what the simulation tells about one side
  have hends := (withFuel_paired (reg.paired_quoteless e ls.size) fuel).eval (· = Scopes.root) e
    Scopes.root he rfl _ _ hstart
  obtain ⟨m₂, -, hw, hend⟩ := hends.of_ok hrun
  exact ⟨hw, hend.lists⟩

/-! ## What equal values show -/

namespace Value

/-- What is reached in a value that was there before is met in a new value that equals it. -/
private theorem exists_allowed_of_reaches {V : Vocabulary} {ls ls' : Lists}
    {R : Value → Value → Prop} (hR : IsBisimulation ls' R) (hgrown : ls.Extends ls')
    (hlists : V.CoversLists ls.size ls') (hnew : ∀ {r}, V.allowsList r → ls.size ≤ r.index)
    {w v : Value} (hwv : R w v) (hw : V.Allows w)
    (hstored : ∀ {r}, Reaches ls v (.list r) → r.index < ls.size) {u : Value}
    (hu : Reaches ls v u) : ∃ x, R x u ∧ V.Allows x := by
  -- along the way to `u`, the new value is followed in step
  induction hu with
  | refl => exact ⟨w, hwv, hw⟩
  | @tail b c hb hc ih =>
    obtain ⟨x, hxb, hx⟩ := ih
    cases hc with
    | @element r _ hmem =>
      have hr : r.index < ls.size := hstored hb
      cases hR _ _ hxb with
      | leaves hleaf => cases hleaf
      | shared =>
        -- the list that is met is a new one
        exact absurd hr (Nat.not_lt.2 (hnew hx))
      | @elements s _ helements =>
        rw [hgrown.items_eq hr] at helements
        obtain ⟨hlen, hpairs⟩ := List.forall₂_iff_get.1 helements
        -- the element is met at the same place of the new list
        obtain ⟨i, hi, rfl⟩ := List.getElem_of_mem hmem
        have hi' : i < (ls'.items s).length := hlen ▸ hi
        have hx' : (ls'.items s)[i] ∈ ls'.cell s := Array.mem_toList_iff.1 (List.getElem_mem hi')
        exact ⟨_, hpairs i hi' hi, hlists.allowed (hnew hx) hx'⟩

/-- A value that reads back has no quote in any string. -/
theorem ReadsBack.quote_not_mem {κ : Type} [Nonempty κ] {reg : Registry κ} {ls : Lists} {v : Value}
    (h : v.ReadsBack reg ls) (hstored : ∀ {r}, Reaches ls v (.list r) → r.index < ls.size)
    {s : String} (hs : Reaches ls v (.string s)) : '"' ∉ s.toList := by
  obtain ⟨e, hparse, heval⟩ := h
  obtain ⟨context⟩ := ‹Nonempty κ›
  obtain ⟨w, m', fuel, hrun, hkeeps, hequal⟩ :=
    heval (.barren ls e context) Scopes.root rfl
  obtain ⟨hw, hlists⟩ := Evaluator.allows_of_eval_barren (Expr.over_quoteless hparse ls.size)
    (hrun fuel (Nat.le_refl _))
  -- the string is found again in the new value, which only has strings without quotes
  obtain ⟨R, hR, hwv⟩ := exists_upTo_of_equalWithin hequal
  obtain ⟨x, hxs, hx⟩ := exists_allowed_of_reaches hR.isBisimulation hkeeps.lists hlists
    (fun hr => hr) hwv hw hstored hs
  cases hR.isBisimulation _ _ hxs with
  | leaves hleaf =>
    cases hleaf
    exact hx

/-- Data reads back exactly if no string that can be reached has a quote in it. -/
theorem readsBack_iff_quote_free {κ : Type} [Nonempty κ] (reg : Registry κ) {ls : Lists} {v : Value}
    (h : v.IsData ls) :
    v.ReadsBack reg ls ↔ ∀ s, Reaches ls v (.string s) → '"' ∉ s.toList := by
  constructor
  · exact fun hback s hs => hback.quote_not_mem h.stored hs
  · intro hquote
    exact (spelled_textWithin h hquote fun r hr => absurd hr List.not_mem_nil).readsBack reg

/-- A list that holds another list twice, with brackets and a semicolon in a string. -/
theorem readsBack_iff_quote_free_shared :
    (list ⟨1⟩).IsData ⟨#[#[.string "a; [b", .bool true], #[.list ⟨0⟩, .number 0.5, .list ⟨0⟩]]⟩ ∧
      (list ⟨1⟩).ReadsBack (.ofLibraries [] Library.all : Registry Unit)
        ⟨#[#[.string "a; [b", .bool true], #[.list ⟨0⟩, .number 0.5, .list ⟨0⟩]]⟩ := by
  generalize hls : Lists.mk #[#[.string "a; [b", .bool true],
    #[.list ⟨0⟩, .number 0.5, .list ⟨0⟩]] = ls
  have hitems : ∀ {r v}, v ∈ ls.items r → (v = .string "a; [b" ∨ v = .bool true ∨ v = .number 0.5) ∨
      v = .list ⟨0⟩ ∧ r = ⟨1⟩ := by
    rintro ⟨i⟩ v hv
    subst hls
    rcases i with _ | _ | i
    · obtain rfl | rfl : v = .string "a; [b" ∨ v = .bool true := by
        simpa [Lists.items, Lists.cell] using hv
      · exact .inl (.inl rfl)
      · exact .inl (.inr (.inl rfl))
    · obtain rfl | rfl | rfl : v = .list ⟨0⟩ ∨ v = .number 0.5 ∨ v = .list ⟨0⟩ := by
        simpa [Lists.items, Lists.cell] using hv
      · exact .inr ⟨rfl, rfl⟩
      · exact .inl (.inr (.inr rfl))
      · exact .inr ⟨rfl, rfl⟩
    · cases hv
  have hdata : (list ⟨1⟩).IsData ls := by
    apply isData_of_forall_mem
    · intro r v hv
      obtain (rfl | rfl | rfl) | ⟨rfl, rfl⟩ := hitems hv
      · exact ⟨rfl, fun _ => Value.noConfusion, Nat.zero_le _⟩
      · exact ⟨rfl, fun _ => Value.noConfusion, Nat.zero_le _⟩
      · refine ⟨rfl, fun x h => ?_, Nat.zero_le _⟩
        cases h
        decide +kernel
      · exact ⟨rfl, fun _ => Value.noConfusion, Nat.le_refl _⟩
    · subst hls
      decide
  refine ⟨hdata, (readsBack_iff_quote_free _ hdata).2 fun s hs => ?_⟩
  obtain h | ⟨r, hr⟩ := hs.eq_or_mem_items
  · cases h
  · obtain (h | h | h) | ⟨h, -⟩ := hitems hr
    · cases h
      decide
    · cases h
    · cases h
    · cases h

end Value
end Lisplet
