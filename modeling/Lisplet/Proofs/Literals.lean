import Lisplet.Evaluator
import Lisplet.Proofs.Bisimulation
import Lisplet.Proofs.Lexing
import Lisplet.Proofs.NumberText
import Lisplet.Proofs.Pairing

/-! # Values written as literals

Null, truth values, numbers, strings and lists of these have literals.  The readable text of such a
value is a literal of it, and evaluating the literal makes a copy of the value.

* `Value.IsData`              values that have literals, apart from what quotes do
* `Value.Literals`            expressions that are literals of values
* `Value.Spelled`             texts that are literals of values
* `Value.spelled_textWithin`  the readable text is such a text
* `Value.Copies`              values that are equal, list by list
* `Value.Literals.evaluates`  evaluating literals makes copies -/

namespace Lisplet

/-- The double is a number. -/
private theorem Double.exists_reading_of_isFinite {x : Float} (h : isFinite x = true) :
    ∃ negative mantissa exponent, reading x = .finite negative mantissa exponent := by
  unfold isFinite at h
  split at h
  · rename_i heq
    exact ⟨_, _, _, heq⟩
  · cases h

/-- A digit does not end a word. -/
theorem Lexer.not_mem_separators_of_isDigit {c : Char} (h : c.isDigit = true) : c ∉ separators := by
  have hseparators : ∀ d ∈ separators, d.isDigit = false := by simp [separators]
  exact fun hc => Numeral.ne_of_isDigit h (hseparators c hc) rfl

/-- The value of a constant. -/
def Expr.constant? : Expr → Option Value
  | number x => some (.number x)
  | string s => some (.string s)
  | bool b => some (.bool b)
  | null => some .null
  | _ => none

namespace Value

open Relation (ReflTransGen TransGen)

/-! ## Data -/

/-- A list holds its elements. -/
inductive Holds (ls : Lists) : Value → Value → Prop where
  | element {r : ListRef} {v : Value} (h : v ∈ ls.items r) : Holds ls (.list r) v

/-- What can be reached from a value by going into lists. -/
def Reaches (ls : Lists) : Value → Value → Prop := ReflTransGen (Holds ls)

/-- Constants, lists of constants, lists of such lists and so on. -/
structure IsData (ls : Lists) (v : Value) : Prop where
  /-- The lists exist. -/
  stored : ∀ {r}, Reaches ls v (.list r) → r.index < ls.size
  /-- No list is inside itself. -/
  acyclic : ∀ {r}, Reaches ls v (.list r) → ¬TransGen (Holds ls) (.list r) (.list r)
  /-- The numbers are neither infinite nor NaN. -/
  finite : ∀ {x}, Reaches ls v (.number x) → Double.isFinite x = true
  /-- There are no functions. -/
  not_callable : ∀ {w}, Reaches ls v w → w.isCallable = false

variable {ls : Lists}

/-- What an element reaches is reached from its list. -/
theorem Reaches.of_holds {v x w : Value} (h : Holds ls v x) (hw : Reaches ls x w) :
    Reaches ls v w := hw.head h

/-- The elements of data are data. -/
theorem IsData.of_holds {v x : Value} (h : v.IsData ls) (hx : Holds ls v x) : x.IsData ls where
  stored hr := h.stored (.of_holds hx hr)
  acyclic hr := h.acyclic (.of_holds hx hr)
  finite hy := h.finite (.of_holds hx hy)
  not_callable hw := h.not_callable (.of_holds hx hw)

/-- What is reached from a list is the list itself, or an element of some list. -/
theorem Reaches.eq_or_mem_items {r : ListRef} {u : Value} (h : Reaches ls (.list r) u) :
    u = .list r ∨ ∃ s, u ∈ ls.items s := by
  obtain rfl | ⟨_, _, hb⟩ := ReflTransGen.cases_tail h
  · exact .inl rfl
  · cases hb with
    | element hmem => exact .inr ⟨_, hmem⟩

/-- How many lists may lie one inside the other below a value, if each was there before the one that
    holds it. -/
def rank : Value → Nat
  | .list r => r.index + 1
  | _ => 0

/-- The rank falls on every way into lists. -/
theorem rank_lt_of_transGen (h : ∀ {r v}, v ∈ ls.items r → rank v ≤ r.index) {a b : Value}
    (hab : TransGen (Holds ls) a b) : rank b < rank a := by
  induction hab with
  | single hb =>
    cases hb with
    | element hmem => exact Nat.lt_succ_of_le (h hmem)
  | tail _ hc ih =>
    cases hc with
    | element hmem => exact Nat.lt_trans (Nat.lt_succ_of_le (h hmem)) ih

/-- Lists are data if each holds only constants and lists that were there before it. -/
theorem isData_of_forall_mem (h : ∀ {r v}, v ∈ ls.items r → v.isCallable = false ∧
      (∀ x, v = .number x → Double.isFinite x = true) ∧ rank v ≤ r.index)
    {r : ListRef} (hr : r.index < ls.size) : (list r).IsData ls where
  stored hs := by
    obtain heq | ⟨t, hmem⟩ := hs.eq_or_mem_items
    · cases heq
      exact hr
    · have ht := Lists.index_lt_of_mem_cell (Array.mem_toList_iff.1 hmem)
      exact Nat.lt_trans (h hmem).2.2 ht
  -- a way back to the same list would make its rank fall below itself
  acyclic _ hcycle := Nat.lt_irrefl _ (rank_lt_of_transGen (fun hmem => (h hmem).2.2) hcycle)
  finite {x} hx := by
    obtain heq | ⟨t, hmem⟩ := hx.eq_or_mem_items
    · cases heq
    · exact (h hmem).2.1 x rfl
  not_callable hw := by
    obtain rfl | ⟨t, hmem⟩ := hw.eq_or_mem_items
    · rfl
    · exact (h hmem).1

/-! ## Literals -/

/-- The expressions are literals of the values.  A constant may be a number that is not the same as
    the value but equal to it, as the two zeros are. -/
inductive Literals (ls : Lists) : List Value → List Expr → Prop where
  | nil : Literals ls [] []
  | leaf {v w : Value} {e : Expr} {vs : List Value} {es : List Expr} (he : e.constant? = some w)
      (hv : EqualLeaves w v) (hrest : Literals ls vs es) : Literals ls (v :: vs) (e :: es)
  | list {r : ListRef} {items es : List Expr} {vs : List Value} (hr : r.index < ls.size)
      (hitems : Literals ls (ls.items r) items) (hrest : Literals ls vs es) :
      Literals ls (.list r :: vs) (.list items :: es)

/-- Literals may stand next to literals. -/
theorem Literals.append {vs vs' : List Value} {es es' : List Expr} (h : Literals ls vs es)
    (h' : Literals ls vs' es') : Literals ls (vs ++ vs') (es ++ es') := by
  induction h with
  | nil => exact h'
  | leaf he hv _ ih => exact .leaf he hv ih
  | list hr hitems _ _ ih => exact .list hr hitems ih

/-- The text is literals of the values, with blanks between them. -/
def Spelled (ls : Lists) (text : String) (vs : List Value) : Prop :=
  ∃ es ts, Literals ls vs es ∧ Lexer.Emits text ts ∧ Expr.Renderings es ts

/-- A word is a literal of its constant. -/
private theorem spelled_word {word : String} {e : Expr} {v w : Value} (hword : Expr.Atom word e)
    (hne : word.toList ≠ []) (hplain : ∀ c ∈ word.toList, c ∉ Lexer.separators)
    (he : e.constant? = some w) (hv : EqualLeaves w v) : Spelled ls word [v] :=
  ⟨[e], [.word word], .leaf he hv .nil, Lexer.emits_word hne hplain, .word hword .nil⟩

/-- A quoted string is a literal of the string. -/
private theorem spelled_quoted {s : String} (h : '"' ∉ s.toList) :
    Spelled ls ("\"" ++ s ++ "\"") [.string s] :=
  ⟨[.string s], [.string s], .leaf rfl (.string s) .nil, Lexer.emits_quoted h, .string s .nil⟩

/-- The text of a number is a literal of an equal number. -/
private theorem spelled_number {x : Float} (h : Double.isFinite x = true) :
    Spelled ls (numberText x) [.number x] := by
  obtain ⟨_, _, _, hreading⟩ := Double.exists_reading_of_isFinite h
  obtain ⟨y, hatom, hequal⟩ := exists_atom_numberText hreading
  refine spelled_word hatom ?_ ?_ rfl (.number hequal)
  · -- no numeral is empty
    generalize numberText x = word at hatom
    intro hempty
    cases hatom with
    | number hnumeral =>
      rw [hempty] at hnumeral
      cases hnumeral
  · -- digits, dots and hyphens do not end a word
    intro c hc
    obtain hdigit | rfl | rfl := mem_numberText hreading hc
    · exact Lexer.not_mem_separators_of_isDigit hdigit
    · decide
    · decide

/-- A blank keeps two literals apart. -/
theorem Spelled.blank {a b : String} {v : Value} {vs : List Value} (ha : Spelled ls a [v])
    (hb : Spelled ls b vs) : Spelled ls (a ++ " " ++ b) (v :: vs) := by
  obtain ⟨es, ts, hes, hts, hrender⟩ := ha
  obtain ⟨es', ts', hes', hts', hrender'⟩ := hb
  exact ⟨es ++ es', ts ++ ts', hes.append hes', hts.blank hts', hrender.append hrender'⟩

/-- Literals with blanks between them. -/
private theorem spelled_intercalate {f : Value → String} {vs : List Value}
    (h : ∀ v ∈ vs, Spelled ls (f v) [v]) : Spelled ls (" ".intercalate (vs.map f)) vs := by
  induction vs with
  | nil => exact ⟨[], [], .nil, Lexer.emits_empty, .nil⟩
  | cons v vs ih =>
    have hv := h v List.mem_cons_self
    have hvs := ih fun u hu => h u (List.mem_cons_of_mem v hu)
    -- there is a blank before the second element, if there is one
    cases vs with
    | nil =>
      rw [List.map_cons, List.map_nil, String.intercalate_singleton]
      exact hv
    | cons u vs =>
      rw [List.map_cons, List.map_cons, String.intercalate_cons_cons]
      exact hv.blank hvs

/-- Literals in brackets are a literal of a list. -/
theorem Spelled.list {a : String} {r : ListRef} (hr : r.index < ls.size)
    (ha : Spelled ls a (ls.items r)) : Spelled ls ("[" ++ a ++ "]") [.list r] := by
  obtain ⟨es, ts, hes, hts, hrender⟩ := ha
  exact ⟨[.list es], _, .list hr hes .nil, hts.square, .list hrender .nil⟩

/-- The readable text of data is a literal of it, if no string has a quote in it.  The value is
    reached from all lists that enclose it, so that the text never breaks off at one of them. -/
theorem spelled_textWithin {enclosing : List ListRef} {v : Value} (h : v.IsData ls)
    (hquote : ∀ s, Reaches ls v (.string s) → '"' ∉ s.toList)
    (henclosing : ∀ r ∈ enclosing, TransGen (Holds ls) (.list r) v) :
    Spelled ls (textWithin ls enclosing .readable v) [v] := by
  -- the induction follows the recursion of the text, which goes for all styles at once
  generalize hstyle : TextStyle.readable = style
  induction enclosing, style, v using textWithin.induct ls with
  | case1 enclosing style =>
    rw [textWithin]
    exact spelled_word .null (by decide) (by simp [Lexer.separators]) rfl .null
  | case2 enclosing style x =>
    rw [textWithin]
    exact spelled_number (h.finite .refl)
  | case3 enclosing style =>
    rw [textWithin, if_pos rfl]
    exact spelled_word .true (by decide) (by simp [Lexer.separators]) rfl (.bool true)
  | case4 enclosing style b hb =>
    rw [textWithin, if_neg hb, Bool.eq_false_iff.2 hb]
    exact spelled_word .false (by decide) (by simp [Lexer.separators]) rfl (.bool false)
  | case5 enclosing s =>
    rw [textWithin]
    exact spelled_quoted (hquote s .refl)
  | case6 enclosing s => cases hstyle
  | case7 enclosing style name code => exact absurd (h.not_callable .refl) Bool.noConfusion
  | case8 enclosing style name => exact absurd (h.not_callable .refl) Bool.noConfusion
  | case9 enclosing style r hr =>
    -- the list would be inside itself
    exact absurd (henclosing r hr) (h.acyclic .refl)
  | case10 enclosing style r hr hstored ih =>
    rw [textWithin, dif_neg hr, dif_pos hstored]
    apply Spelled.list hstored
    apply spelled_intercalate
    intro x hx
    have hholds : Holds ls (.list r) x := .element hx
    apply ih x (h.of_holds hholds) (fun s hs => hquote s (.of_holds hholds hs)) _ rfl
    -- the list itself has come to enclose its elements
    intro s hs
    obtain rfl | hs := List.mem_cons.1 hs
    · exact .single hholds
    · exact (henclosing s hs).tail hholds
  | case11 enclosing style r _ hstored => exact absurd (h.stored .refl) hstored

end Value

/-! ## Growing lists -/

/-- The second lists still have the first ones, as they were. -/
structure Lists.Extends (ls ls' : Lists) : Prop where
  size_le : ls.size ≤ ls'.size
  cell_eq : ∀ {r : ListRef}, r.index < ls.size → ls'.cell r = ls.cell r

namespace Lists.Extends

variable {ls ls₁ ls₂ : Lists}

theorem refl (ls : Lists) : ls.Extends ls := ⟨Nat.le_refl _, fun _ => rfl⟩

theorem trans (h₁ : ls.Extends ls₁) (h₂ : ls₁.Extends ls₂) : ls.Extends ls₂ where
  size_le := Nat.le_trans h₁.size_le h₂.size_le
  cell_eq hr := (h₂.cell_eq (Nat.lt_of_lt_of_le hr h₁.size_le)).trans (h₁.cell_eq hr)

theorem alloc (ls : Lists) (xs : Array Value) : ls.Extends (ls.alloc xs) where
  size_le := by
    rw [size_alloc]
    exact Nat.le_succ _
  cell_eq hr := cell_alloc_of_lt hr xs

theorem lt (h : ls.Extends ls₁) {r : ListRef} (hr : r.index < ls.size) : r.index < ls₁.size :=
  Nat.lt_of_lt_of_le hr h.size_le

/-- A list goes on to have its elements. -/
theorem items_eq (h : ls.Extends ls₁) {r : ListRef} (hr : r.index < ls.size) :
    ls₁.items r = ls.items r := by
  rw [items, items, h.cell_eq hr]

end Lists.Extends

/-! ## Copies -/

namespace Value

variable {ls : Lists}

/-- Values that are equal leaves, or lists of such values. -/
inductive Copies (ls : Lists) : List Value → List Value → Prop where
  | nil : Copies ls [] []
  | leaf {w v : Value} {ws vs : List Value} (hv : EqualLeaves w v) (hrest : Copies ls ws vs) :
      Copies ls (w :: ws) (v :: vs)
  | list {r s : ListRef} {ws vs : List Value} (hr : r.index < ls.size) (hs : s.index < ls.size)
      (hitems : Copies ls (ls.items r) (ls.items s)) (hrest : Copies ls ws vs) :
      Copies ls (.list r :: ws) (.list s :: vs)

/-- Copies stay copies when other lists are added. -/
theorem Copies.mono {ls' : Lists} {ws vs : List Value} (h : Copies ls ws vs)
    (hls : ls.Extends ls') : Copies ls' ws vs := by
  induction h with
  | nil => exact .nil
  | leaf hv _ ih => exact .leaf hv ih
  | list hr hs _ _ ihitems ih =>
    refine .list (hls.lt hr) (hls.lt hs) ?_ ih
    rw [hls.items_eq hr, hls.items_eq hs]
    exact ihitems

/-- Copies are so element by element. -/
private theorem Copies.forall₂ {ws vs : List Value} (h : Copies ls ws vs) :
    List.Forall₂ (fun w v => Copies ls [w] [v]) ws vs := by
  induction h with
  | nil => exact .nil
  | leaf hv _ ih => exact .cons (.leaf hv .nil) ih
  | list hr hs hitems _ _ ih => exact .cons (.list hr hs hitems .nil) ih

/-- A copy is equal. -/
theorem Copies.equal {w v : Value} (h : Copies ls [w] [v]) : w.equal ls v = true := by
  have hbisimulation : IsBisimulation ls fun w v => Copies ls [w] [v] := by
    intro w v h
    cases h with
    | leaf hv => exact .leaves hv
    | list _ _ hitems => exact .elements hitems.forall₂
  exact hbisimulation.equalWithin [] h

/-! ## Evaluation -/

section

variable {κ : Type} (reg : Registry κ)

/-- A constant is its own value. -/
private theorem eval_constant {e : Expr} {w : Value} (he : e.constant? = some w) (fuel : Nat)
    (scope : FrameRef) (m : Machine κ) :
    (Evaluator.withFuel reg (fuel + 1)).eval e scope m = .ok w m := by
  cases e with
  | identifier => cases he
  | call => cases he
  | list => cases he
  | number x => cases he; rfl
  | string s => cases he; rfl
  | bool b => cases he; rfl
  | null => cases he; rfl

/-- A sequence starts with its first expression. -/
private theorem sequence_cons {ev : Evaluator κ} {e : Expr} {es : List Expr} {scope : FrameRef}
    {m m₁ m₂ : Machine κ} {w : Value} {ws : List Value} (he : ev.eval e scope m = .ok w m₁)
    (hes : ev.sequence es scope m₁ = .ok ws m₂) :
    ev.sequence (e :: es) scope m = .ok (w :: ws) m₂ := by
  unfold Evaluator.sequence at hes ⊢
  rw [List.mapM_cons, Eval.bind_ok he, Eval.bind_ok hes]
  rfl

/-- Literals are evaluated, given enough fuel, to copies of the values they are literals of, and
    nothing else happens than that lists are added. -/
theorem Literals.evaluates {vs : List Value} {es : List Expr} (h : Literals ls vs es)
    (scope : FrameRef) (m : Machine κ) (hm : ls.Extends m.lists) :
    ∃ ws ls' fuel₀, m.lists.Extends ls' ∧ Copies ls' ws vs ∧ ∀ fuel ≥ fuel₀,
      (Evaluator.withFuel reg fuel).sequence es scope m = .ok ws { m with lists := ls' } := by
  induction h generalizing m with
  | nil => exact ⟨[], m.lists, 0, .refl _, .nil, fun _ _ => rfl⟩
  | leaf he hv _ ih =>
    obtain ⟨ws, ls', fuel₀, hgrown, hcopies, hrest⟩ := ih m hm
    refine ⟨_, ls', fuel₀ + 1, hgrown, .leaf hv hcopies, fun fuel hfuel => ?_⟩
    -- the constant takes one step, the others what they took before
    obtain ⟨n, rfl⟩ := Nat.exists_eq_add_of_le' hfuel
    exact sequence_cons (eval_constant reg he (n + fuel₀) scope m) (hrest _ (by omega))
  | @list r items es vs hr _ _ ihitems ihrest =>
    obtain ⟨us, ls₁, fuel₁, hgrown₁, hcopies₁, hitems⟩ := ihitems m hm
    -- the elements come first, then the list that holds them, then what stands behind it
    have halloc := Lists.Extends.alloc ls₁ us.toArray
    obtain ⟨ws, ls₂, fuel₂, hgrown₂, hcopies₂, hrest⟩ :=
      ihrest { m with lists := ls₁.alloc us.toArray } ((hm.trans hgrown₁).trans halloc)
    have hgrown : ls₁.Extends ls₂ := halloc.trans hgrown₂
    have hnext : ls₁.next.index < (ls₁.alloc us.toArray).size := by
      rw [Lists.size_alloc]
      exact Nat.lt_succ_self _
    refine ⟨.list ls₁.next :: ws, ls₂, fuel₁ + fuel₂ + 1, hgrown₁.trans hgrown, ?_, ?_⟩
    · -- both lists are still there at the end, the new one and the one it is a copy of
      refine .list (hgrown₂.lt hnext) (((hm.trans hgrown₁).trans hgrown).lt hr) ?_ hcopies₂
      rw [hgrown₂.items_eq hnext, ((hm.trans hgrown₁).trans hgrown).items_eq hr, Lists.items,
        Lists.cell_alloc_next]
      exact hcopies₁.mono hgrown
    · intro fuel hfuel
      obtain ⟨n, rfl⟩ := Nat.exists_eq_add_of_le' hfuel
      refine sequence_cons ?_ (hrest (n + (fuel₁ + fuel₂ + 1)) (by omega))
      exact Eval.bind_ok (hitems (n + (fuel₁ + fuel₂)) (by omega))

end
end Value
end Lisplet
