import Lisplet.Expr
import Mathlib.Logic.Relation

/-! # The grammar of expressions

What token sequences stand for, said without a reader, and the proof that the reader accepts
exactly these.

* `Expr.Atom`               the words that stand for an expression
* `Expr.Renderings`         the token sequences that stand for a list of expressions
* `Reader.Spells`           the tokens that have brought a reader where it stands
* `Token.Balanced`          token sequences in which every bracket has its partner

The reader only ever looks at its innermost open bracket.  So a finished sequence does the same
to every reader (`Reader.reads_of_renderings`), and so does a balanced one, whether it can be
read or not (`Token.Balanced.exists_reads`): which of the two kinds of call brackets stands
around it leaves no trace. -/

namespace Lisplet

/-! ## Rendering -/

/-- A word stands for a number if it looks like one, for one of three constants, or for an
    identifier. -/
inductive Expr.Atom : String → Expr → Prop where
  | number {word : String} {x : Float} (hword : Numeral.isNumeral word.toList = true)
      (hx : Numeral.plain? (Numeral.normalize word.toList) = some x) : Atom word (.number x)
  | true : Atom "true" (.bool true)
  | false : Atom "false" (.bool false)
  | null : Atom "null" .null
  | identifier {word : String} (hnumeral : Numeral.isNumeral word.toList = false)
      (hconstant : word ∉ ["true", "false", "null"]) : Atom word (.identifier word)

/-- A token sequence that stands for a list of expressions, one after the other.  A call has
    round or curly brackets around it, a list literal has square ones. -/
inductive Expr.Renderings : List Expr → List Token → Prop where
  | nil : Renderings [] []
  | string (s : String) {es : List Expr} {ts : List Token} (hrest : Renderings es ts) :
      Renderings (.string s :: es) (.string s :: ts)
  | word {word : String} {e : Expr} {es : List Expr} {ts : List Token} (hword : Atom word e)
      (hrest : Renderings es ts) : Renderings (e :: es) (.word word :: ts)
  | list {items es : List Expr} {us ts : List Token} (hitems : Renderings items us)
      (hrest : Renderings es ts) :
      Renderings (.list items :: es) (.opening .square :: us ++ .closing .square :: ts)
  | call {b : Bracket} {items es : List Expr} {us ts : List Token} (hb : b ≠ .square)
      (hitems : Renderings items us) (hrest : Renderings es ts) :
      Renderings (.call items :: es) (.opening b :: us ++ .closing b :: ts)

namespace Expr

/-- A word is read as what it stands for. -/
theorem ofWord_eq_ok_iff {word : String} {e : Expr} : ofWord word = .ok e ↔ Atom word e := by
  constructor
  · intro h
    unfold ofWord at h
    split at h
    · -- numerals come first
      rename_i hnumeral
      split at h
      · rename_i x hx
        cases h
        exact .number hnumeral hx
      · cases h
    · -- then the constants, and what is left is an identifier
      rename_i hnumeral
      split at h
      · rename_i hw; cases h; subst hw; exact .true
      · split at h
        · rename_i hw; cases h; subst hw; exact .false
        · split at h
          · rename_i hw; cases h; subst hw; exact .null
          · cases h
            exact .identifier (by simpa using hnumeral) (by simp [*])
  · intro h
    cases h with
    | number hnumeral hx => simp [ofWord, hnumeral, hx]
    | true => rfl
    | false => rfl
    | null => rfl
    | identifier hnumeral hconstant =>
      simp only [List.mem_cons, List.not_mem_nil, or_false, not_or] at hconstant
      simp [ofWord, hnumeral, hconstant]

/-- An expression in brackets of either kind. -/
theorem Renderings.enclosed (b : Bracket) {items es : List Expr} {us ts : List Token}
    (hitems : Renderings items us) (hrest : Renderings es ts) :
    Renderings (.enclosed b items :: es) (.opening b :: us ++ .closing b :: ts) := by
  cases b with
  | square => exact .list hitems hrest
  | round => exact .call (by decide) hitems hrest
  | curly => exact .call (by decide) hitems hrest

/-- Expressions may follow expressions. -/
theorem Renderings.append {es es' : List Expr} {ts ts' : List Token} (h : Renderings es ts)
    (h' : Renderings es' ts') : Renderings (es ++ es') (ts ++ ts') := by
  induction h with
  | nil => exact h'
  | string s _ ih => exact .string s ih
  | word hword _ ih => exact .word hword ih
  | list hitems _ _ ih =>
    rw [List.append_assoc]
    exact .list hitems ih
  | call hb hitems _ _ ih =>
    rw [List.append_assoc]
    exact .call hb hitems ih

end Expr

/-! ## The reader follows the grammar -/

namespace Reader

/-- The tokens that lead to where the reader stands: the finished expressions, then each bracket
    that is still open with the expressions in it, the innermost last. -/
inductive Spells : Reader → List Token → Prop where
  | outside {forms : List Expr} {ts : List Token} (hforms : Expr.Renderings forms.reverse ts) :
      Spells ⟨[], forms⟩ ts
  | inside {b : Bracket} {items forms : List Expr} {levels : List Level} {ts us : List Token}
      (houter : Spells ⟨levels, forms⟩ ts) (hitems : Expr.Renderings items.reverse us) :
      Spells ⟨⟨b, items⟩ :: levels, forms⟩ (ts ++ .opening b :: us)

/-- A finished expression may be added where the reader stands. -/
theorem Spells.add {r : Reader} {ts us : List Token} {e : Expr} (h : r.Spells ts)
    (he : Expr.Renderings [e] us) : (r.add e).Spells (ts ++ us) := by
  cases h with
  | outside hforms =>
    refine .outside ?_
    rw [List.reverse_cons]
    exact hforms.append he
  | inside houter hitems =>
    rw [List.append_assoc, List.cons_append]
    refine .inside houter ?_
    rw [List.reverse_cons]
    exact hitems.append he

/-- One more token. -/
theorem Spells.feed {r r' : Reader} {ts : List Token} {t : Token} (h : r.Spells ts)
    (hfeed : r.feed t = .ok r') : r'.Spells (ts ++ [t]) := by
  cases t with
  | opening b =>
    cases hfeed
    exact .inside h .nil
  | string s =>
    cases hfeed
    exact h.add (.string s .nil)
  | word w =>
    simp only [Reader.feed] at hfeed
    cases hw : Expr.ofWord w with
    | error cause => rw [hw] at hfeed; cases hfeed
    | ok e =>
      rw [hw] at hfeed
      cases hfeed
      exact h.add (.word (Expr.ofWord_eq_ok_iff.1 hw) .nil)
  | closing b =>
    cases h with
    | outside => cases hfeed
    | @inside b' items forms levels ts us houter hitems =>
      simp only [Reader.feed] at hfeed
      split at hfeed
      · rename_i hb
        cases hfeed
        subst hb
        -- the tokens since the bracket was opened are now those of one expression
        have hclosed := houter.add (Expr.Renderings.enclosed b' hitems .nil)
        rw [List.append_assoc]
        exact hclosed
      · -- a bracket of another kind is refused
        cases hfeed

/-- A whole sequence of tokens. -/
private theorem Spells.foldlM_feed {r r' : Reader} {ts us : List Token} (h : r.Spells ts)
    (hfeed : us.foldlM Reader.feed r = .ok r') : r'.Spells (ts ++ us) := by
  induction us generalizing r ts with
  | nil =>
    cases hfeed
    rwa [List.append_nil]
  | cons t us ih =>
    rw [List.foldlM_cons] at hfeed
    cases ht : r.feed t with
    | error cause => rw [ht] at hfeed; cases hfeed
    | ok r₁ =>
      rw [ht] at hfeed
      have h₁ := ih (h.feed ht) hfeed
      rwa [List.append_assoc] at h₁

/-! ## The grammar leads the reader -/

/-- Fed with the tokens, every reader adds the expressions of the outcome where it stands, or
    fails as the outcome says. -/
def Reads (ts : List Token) (outcome : Except ReadError (List Expr)) : Prop :=
  ∀ r : Reader, ts.foldlM feed r = outcome.map fun es => es.foldl add r

/-- No tokens, no expressions. -/
private theorem reads_nil : Reads [] (.ok []) := fun _ => rfl

/-- A literal is read as its string. -/
theorem Reads.string {ts : List Token} {outcome : Except ReadError (List Expr)}
    (h : Reads ts outcome) (s : String) :
    Reads (.string s :: ts) (outcome.map (.string s :: ·)) := by
  intro r
  rw [List.foldlM_cons]
  show ts.foldlM feed (r.add (.string s)) = _
  rw [h]
  cases outcome <;> rfl

/-- A word is read as what it stands for, if it stands for something. -/
theorem Reads.word {ts : List Token} {outcome : Except ReadError (List Expr)}
    (h : Reads ts outcome) (w : String) :
    Reads (.word w :: ts) (do return (← Expr.ofWord w) :: (← outcome)) := by
  intro r
  rw [List.foldlM_cons]
  simp only [feed]
  cases hw : Expr.ofWord w with
  | error cause => rfl
  | ok e =>
    show ts.foldlM feed (r.add e) = _
    rw [h]
    cases outcome <;> rfl

/-- Inside a bracket, expressions gather at its level. -/
private theorem foldl_add_inside (items es : List Expr) (b : Bracket) (levels : List Level)
    (forms : List Expr) :
    items.foldl add ⟨⟨b, es⟩ :: levels, forms⟩ = ⟨⟨b, items.reverse ++ es⟩ :: levels, forms⟩ := by
  induction items generalizing es with
  | nil => rfl
  | cons e items ih =>
    rw [List.foldl_cons]
    show items.foldl add ⟨⟨b, e :: es⟩ :: levels, forms⟩ = _
    rw [ih, List.reverse_cons, List.append_assoc]
    rfl

/-- Outside all brackets, expressions gather as finished forms. -/
private theorem foldl_add_outside (es forms : List Expr) :
    es.foldl add ⟨[], forms⟩ = ⟨[], es.reverse ++ forms⟩ := by
  induction es generalizing forms with
  | nil => rfl
  | cons e es ih =>
    rw [List.foldl_cons]
    show es.foldl add ⟨[], e :: forms⟩ = _
    rw [ih, List.reverse_cons, List.append_assoc]
    rfl

/-- A pair of brackets turns what is read between them into one expression. -/
private theorem Reads.foldlM_enclosed {us : List Token} {outcome : Except ReadError (List Expr)}
    (h : Reads us outcome) (b : Bracket) (ts : List Token) (r : Reader) :
    (.opening b :: us ++ .closing b :: ts).foldlM feed r = (do
      let items ← outcome
      ts.foldlM feed (r.add (.enclosed b items))) := by
  obtain ⟨levels, forms⟩ := r
  rw [List.cons_append, List.foldlM_cons]
  show (us ++ .closing b :: ts).foldlM feed ⟨⟨b, []⟩ :: levels, forms⟩ = _
  rw [List.foldlM_append, h]
  cases outcome with
  | error cause => rfl
  | ok items =>
    -- what was read stands at the new level, which the closing bracket takes away again
    simp only [Except.map, foldl_add_inside, List.append_nil]
    show (Token.closing b :: ts).foldlM feed ⟨⟨b, items.reverse⟩ :: levels, forms⟩ = _
    rw [List.foldlM_cons]
    simp only [feed, if_true, List.reverse_reverse]
    rfl

/-- A pair of brackets and what follows them. -/
theorem Reads.enclosed {us ts : List Token} {inner rest : Except ReadError (List Expr)}
    (h : Reads us inner) (hrest : Reads ts rest) (b : Bracket) :
    Reads (.opening b :: us ++ .closing b :: ts) (do
      return .enclosed b (← inner) :: (← rest)) := by
  intro r
  rw [h.foldlM_enclosed]
  cases inner with
  | error cause => rfl
  | ok items =>
    show ts.foldlM feed (r.add (.enclosed b items)) = _
    rw [hrest]
    cases rest <;> rfl

/-- What stands for expressions is read as them. -/
theorem reads_of_renderings {es : List Expr} {ts : List Token} (h : Expr.Renderings es ts) :
    Reads ts (.ok es) := by
  induction h with
  | nil => exact reads_nil
  | string s _ ih => exact ih.string s
  | @word w e es ts hword _ ih =>
    have hread := ih.word w
    rw [Expr.ofWord_eq_ok_iff.2 hword] at hread
    exact hread
  | list _ _ ihitems ih => exact ihitems.enclosed ih .square
  | @call b _ _ _ _ hb _ _ ihitems ih =>
    have hread := ihitems.enclosed ih b
    cases b with
    | square => exact absurd rfl hb
    | round => exact hread
    | curly => exact hread

end Reader

/-! ## Exchanging brackets -/

namespace Token

/-- Every bracket in the sequence has its partner. -/
inductive Balanced : List Token → Prop where
  | nil : Balanced []
  | string (s : String) {ts : List Token} (hrest : Balanced ts) : Balanced (.string s :: ts)
  | word (w : String) {ts : List Token} (hrest : Balanced ts) : Balanced (.word w :: ts)
  | pair (b : Bracket) {us ts : List Token} (hinner : Balanced us) (hrest : Balanced ts) :
      Balanced (.opening b :: us ++ .closing b :: ts)

/-- One matched pair of round or curly brackets is exchanged for one of either kind. -/
inductive Exchange : List Token → List Token → Prop where
  | pair (before : List Token) {inner : List Token} (after : List Token) {b c : Bracket}
      (hb : b ≠ .square) (hc : c ≠ .square) (hinner : Balanced inner) :
      Exchange (before ++ (.opening b :: inner ++ .closing b :: after))
        (before ++ (.opening c :: inner ++ .closing c :: after))

/-- A balanced sequence does the same to every reader. -/
theorem Balanced.exists_reads {ts : List Token} (h : Balanced ts) :
    ∃ outcome, Reader.Reads ts outcome := by
  induction h with
  | nil => exact ⟨_, Reader.reads_nil⟩
  | string s _ ih =>
    obtain ⟨outcome, h⟩ := ih
    exact ⟨_, h.string s⟩
  | word w _ ih =>
    obtain ⟨outcome, h⟩ := ih
    exact ⟨_, h.word w⟩
  | pair b _ _ ihinner ih =>
    obtain ⟨inner, hinner⟩ := ihinner
    obtain ⟨rest, hrest⟩ := ih
    exact ⟨_, hinner.enclosed hrest b⟩

/-- Round and curly brackets enclose the same expression. -/
private theorem enclosed_eq_call {b : Bracket} (h : b ≠ .square) (items : List Expr) :
    Expr.enclosed b items = .call items := by
  cases b with
  | square => exact absurd rfl h
  | round => rfl
  | curly => rfl

/-- An exchange makes no difference. -/
private theorem Exchange.ofTokens_eq {ts us : List Token} (h : Exchange ts us) :
    Expr.ofTokens ts = Expr.ofTokens us := by
  cases h with
  | pair before after hb hc hinner =>
    obtain ⟨outcome, hread⟩ := hinner.exists_reads
    -- once the brackets are closed, their kind shows in the expression they enclose at most
    simp only [Expr.ofTokens, List.foldlM_append, hread.foldlM_enclosed, enclosed_eq_call hb,
      enclosed_eq_call hc]

/-- Nor do any number of them. -/
private theorem ofTokens_eq_of_exchanges {ts us : List Token}
    (h : Relation.ReflTransGen Exchange ts us) : Expr.ofTokens ts = Expr.ofTokens us := by
  induction h with
  | refl => rfl
  | tail _ hstep ih => exact ih.trans hstep.ofTokens_eq

end Token

/-! ## The reader and the grammar agree -/

namespace Expr

/-- The expressions of a text that has been read are those that its tokens stand for. -/
theorem renderings_of_ofTokens {ts : List Token} {es : List Expr} (h : ofTokens ts = .ok es) :
    Renderings es ts := by
  unfold ofTokens at h
  cases hr : ts.foldlM Reader.feed {} with
  | error cause => rw [hr] at h; cases h
  | ok r =>
    rw [hr] at h
    have hstart : Reader.Spells {} [] :=
      .outside (show Renderings ([] : List Expr).reverse [] from .nil)
    have hspells := hstart.foldlM_feed hr
    replace h : r.finish = .ok es := h
    -- a reader finishes only where no bracket is open
    cases hspells with
    | outside hforms =>
      cases h
      exact hforms
    | inside => cases h

/-- Tokens that stand for expressions are read as them. -/
theorem ofTokens_of_renderings {ts : List Token} {es : List Expr} (h : Renderings es ts) :
    ofTokens ts = .ok es := by
  unfold ofTokens
  rw [Reader.reads_of_renderings h]
  simp only [Except.map, Reader.foldl_add_outside, List.append_nil]
  show Except.ok es.reverse.reverse = Except.ok es
  rw [List.reverse_reverse]

/-- The reader accepts exactly the grammar: a text reads as some expressions if and only if its
    tokens stand for them.  The grammar is unambiguous, and exchanging matched round and curly
    brackets changes nothing. -/
theorem parse_eq_ok_iff_renderings :
    (∀ source es, parse source = .ok es ↔ Renderings es (Token.scan source)) ∧
    (∀ ts es es', Renderings es ts → Renderings es' ts → es = es') ∧
    ∀ source source', Relation.ReflTransGen Token.Exchange (Token.scan source)
      (Token.scan source') → parse source = parse source' := by
  refine ⟨fun source es => ⟨renderings_of_ofTokens, ofTokens_of_renderings⟩, ?_, ?_⟩
  · intro ts es es' h h'
    have heq := (ofTokens_of_renderings h).symm.trans (ofTokens_of_renderings h')
    exact Except.ok.inj heq
  · intro source source' h
    exact Token.ofTokens_eq_of_exchanges h

/-- One pair of brackets in a larger text. -/
theorem parse_eq_of_exchanged_pair :
    Relation.ReflTransGen Token.Exchange (Token.scan "[x \x7bf [\"a\"] 1\x7d]")
      (Token.scan "[x (f [\"a\"] 1)]") ∧
    parse "[x \x7bf [\"a\"] 1\x7d]" = parse "[x (f [\"a\"] 1)]" := by
  have hpair : Token.Exchange (Token.scan "[x \x7bf [\"a\"] 1\x7d]")
      (Token.scan "[x (f [\"a\"] 1)]") :=
    .pair [.opening .square, .word "x"] [.closing .square] (by decide) (by decide)
      (.word "f" (.pair .square (.string "a" .nil) (.word "1" .nil)))
  exact ⟨.single hpair, parse_eq_ok_iff_renderings.2.2 _ _ (.single hpair)⟩

end Expr
end Lisplet
