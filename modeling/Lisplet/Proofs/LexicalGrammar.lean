import Lisplet.Proofs.Lexing
import Mathlib.Data.List.TakeWhile

/-! # The lexical grammar

What the tokens of a text are, said without a machine, in two ways.

`Token.cut` looks ahead: at each place it takes a whole blank, comment, literal, bracket or word off
the front of the text.  `Token.Layout` says how a text is laid out: its tokens follow each other as
they are written, and all that stands between them or behind them is blanks, comments and one
literal that is never ended.

The lexer keeps what it is in the middle of, one character at a time.  It agrees with both
(`Token.Layout.finish_foldl_feed`), since a whole piece always brings it back to where no piece is
begun, and a word that is begun ends at whatever comes next.

* `Token.IsLexeme`        tokens that can stand in a text
* `Token.Layout`          texts and their tokens
* `Token.cut`             the tokens by looking ahead
* `Token.rendered`        tokens as a text
* `Token.scan_eq_cut`     the lexer finds the tokens that looking ahead finds
* `Token.scan_rendered`   tokens written out are found again -/

namespace Lisplet

namespace Token

/-! ## Layout -/

/-- A literal has no quote in it, and a word is not empty and has none of the characters that end
    words. -/
def IsLexeme : Token → Prop
  | string s => '"' ∉ s.toList
  | word w => w.toList ≠ [] ∧ ∀ c ∈ w.toList, c ∉ Lexer.separators
  | _ => True

/-- The token ends before the characters: a word does not go on in them. -/
def EndsBefore : Token → List Char → Prop
  | word _, c :: _ => c ∈ Lexer.separators
  | _, _ => True

/-- The characters are the tokens as they are written, with blanks and comments between them.  A
    comment that the text does not end stands behind all tokens, and so does such a literal. -/
inductive Layout : List Char → List Token → Prop where
  | nil : Layout [] []
  | blank {c : Char} {cs : List Char} {ts : List Token} (hc : c ∈ [' ', '\t', '\r', '\n'])
      (hrest : Layout cs ts) : Layout (c :: cs) ts
  | comment {body cs : List Char} {ts : List Token} (hbody : '\n' ∉ body) (hrest : Layout cs ts) :
      Layout (';' :: (body ++ '\n' :: cs)) ts
  | lastComment {body : List Char} (hbody : '\n' ∉ body) : Layout (';' :: body) []
  | lastLiteral {body : List Char} (hbody : '"' ∉ body) : Layout ('"' :: body) []
  | token {t : Token} {cs : List Char} {ts : List Token} (ht : t.IsLexeme) (hend : t.EndsBefore cs)
      (hrest : Layout cs ts) : Layout (t.text.toList ++ cs) (t :: ts)

/-- The tokens of a text can stand in a text. -/
private theorem Layout.isLexeme {cs : List Char} {ts : List Token} (h : Layout cs ts) :
    ∀ t ∈ ts, t.IsLexeme := by
  induction h with
  | nil => exact nofun
  | blank _ _ ih => exact ih
  | comment _ _ ih => exact ih
  | lastComment => exact nofun
  | lastLiteral => exact nofun
  | token ht _ _ ih => exact List.forall_mem_cons.2 ⟨ht, ih⟩

end Token

namespace Lexer

/-! ## The lexer goes by the layout -/

/-- A comment goes on to the end of its line. -/
private theorem foldl_feed_comment {chars : List Char} (h : '\n' ∉ chars) (found : List Token) :
    chars.foldl feed ⟨found, .comment⟩ = ⟨found, .comment⟩ := by
  induction chars with
  | nil => rfl
  | cons c chars ih =>
    have hc : c ≠ '\n' := (List.ne_of_not_mem_cons h).symm
    have hfeed : feed ⟨found, .comment⟩ c = ⟨found, .comment⟩ := if_neg hc
    rw [List.foldl_cons, hfeed, ih (List.not_mem_of_not_mem_cons h)]

/-- A word that is begun ends at a separator, which is then taken as if there had been none. -/
private theorem feed_separator {c : Char} (h : c ∈ separators) (found : List Token)
    (chars : List Char) : feed ⟨found, .word chars⟩ c = feed ⟨flushed found chars, .word []⟩ c := by
  revert c
  simp [separators, feed, isBlank, flushed, Token.ofBracket?]

end Lexer

namespace Token

/-- An opening bracket is one character. -/
@[simp] theorem toList_text_opening (b : Bracket) : (opening b).text.toList = [b.opener] :=
  String.toList_singleton _

/-- So is a closing one. -/
@[simp] theorem toList_text_closing (b : Bracket) : (closing b).text.toList = [b.closer] :=
  String.toList_singleton _

/-- A token that is written out is found. -/
private theorem IsLexeme.emits {t : Token} (h : t.IsLexeme) : Lexer.Emits t.text [t] := by
  cases t with
  | opening b =>
    intro found
    refine ⟨.opening b :: found, [], ?_, rfl⟩
    rw [toList_text_opening]
    cases b <;> rfl
  | closing b =>
    intro found
    refine ⟨.closing b :: found, [], ?_, rfl⟩
    rw [toList_text_closing]
    cases b <;> rfl
  | string s => exact Lexer.emits_quoted h
  | word w => exact Lexer.emits_word h.1 h.2

end Token

namespace Lexer

/-- Behind a token that has ended, the lexer stands where no piece is begun. -/
private theorem finish_foldl_feed_text {t : Token} {cs : List Char} (ht : t.IsLexeme)
    (hend : t.EndsBefore cs) (found : List Token) :
    ((t.text.toList ++ cs).foldl feed ⟨found, .word []⟩).finish =
      (cs.foldl feed ⟨t :: found, .word []⟩).finish := by
  obtain ⟨found', chars, hfold, hflushed⟩ := ht.emits found
  replace hflushed : flushed found' chars = t :: found := hflushed
  rw [List.foldl_append, hfold]
  cases chars with
  | nil =>
    cases hflushed
    rfl
  | cons d chars =>
    -- only a word is ended by what comes next
    cases hflushed
    cases cs with
    | nil => rfl
    | cons c cs =>
      rw [List.foldl_cons, feed_separator hend]
      rfl

end Lexer

namespace Token

/-- The lexer finds the tokens of a text that is laid out. -/
theorem Layout.finish_foldl_feed {cs : List Char} {ts : List Token} (h : Layout cs ts)
    (found : List Token) :
    (cs.foldl Lexer.feed ⟨found, .word []⟩).finish = found.reverse ++ ts := by
  induction h generalizing found with
  | nil => exact (List.append_nil _).symm
  | @blank c cs ts hc _ ih =>
    have hfeed : Lexer.feed ⟨found, .word []⟩ c = ⟨found, .word []⟩ := by
      have hblank : Lexer.isBlank c = true := by simpa [Lexer.isBlank, or_assoc] using hc
      simp [Lexer.feed, hblank, Lexer.flushed]
    rw [List.foldl_cons, hfeed, ih]
  -- the end of the line brings the lexer back to where no piece is begun
  | @comment body cs ts hbody _ ih =>
    rw [List.foldl_cons, List.foldl_append]
    show ((('\n' :: cs).foldl Lexer.feed (body.foldl Lexer.feed ⟨found, .comment⟩))).finish = _
    rw [Lexer.foldl_feed_comment hbody]
    exact ih found
  | @lastComment body hbody =>
    show (body.foldl Lexer.feed ⟨found, .comment⟩).finish = _
    rw [Lexer.foldl_feed_comment hbody, List.append_nil]
    rfl
  | @lastLiteral body hbody =>
    show (body.foldl Lexer.feed ⟨found, .string []⟩).finish = _
    rw [Lexer.foldl_feed_string hbody, List.append_nil, List.append_nil]
    rfl
  -- so does a token, as it has ended before what follows
  | token ht hend _ ih =>
    rw [Lexer.finish_foldl_feed_text ht hend, ih, List.reverse_cons, List.append_assoc]
    rfl

/-- So a text that is laid out has these tokens. -/
theorem Layout.scan_eq {source : String} {ts : List Token} (h : Layout source.toList ts) :
    scan source = ts :=
  h.finish_foldl_feed []

/-! ## Looking ahead -/

/-- The tokens of a text.  What the first character is decides how far to look ahead. -/
def cut : List Char → List Token
  | [] => []
  | ' ' :: cs | '\t' :: cs | '\r' :: cs | '\n' :: cs => cut cs
  | ';' :: cs => cut (cs.dropWhile (· ≠ '\n')).tail
  | '"' :: cs =>
    if '"' ∈ cs then
      .string (String.ofList (cs.takeWhile (· ≠ '"'))) :: cut (cs.dropWhile (· ≠ '"')).tail
    else []
  | '(' :: cs => .opening .round :: cut cs
  | ')' :: cs => .closing .round :: cut cs
  | '[' :: cs => .opening .square :: cut cs
  | ']' :: cs => .closing .square :: cut cs
  | '\x7b' :: cs => .opening .curly :: cut cs
  | '\x7d' :: cs => .closing .curly :: cut cs
  | c :: cs =>
    .word (String.ofList (c :: cs.takeWhile (· ∉ Lexer.separators))) ::
      cut (cs.dropWhile (· ∉ Lexer.separators))
termination_by cs => cs.length
decreasing_by
  all_goals
    have hshorter := fun p => (List.dropWhile_suffix (l := cs) p).length_le
    grind

/-- What is taken up to the first `x` has none in it. -/
private theorem not_mem_takeWhile_ne (x : Char) (cs : List Char) : x ∉ cs.takeWhile (· ≠ x) := by
  intro hx
  simpa using List.mem_takeWhile_imp hx

/-- A text that has `x` in it, cut at the first one. -/
private theorem takeWhile_ne_append_cons {x : Char} {cs : List Char} (h : x ∈ cs) :
    cs.takeWhile (· ≠ x) ++ x :: (cs.dropWhile (· ≠ x)).tail = cs := by
  obtain ⟨front, back, rfl, hx⟩ := List.eq_append_cons_of_mem h
  have hfront : ∀ c ∈ front, decide (c ≠ x) = true := by
    intro c hc
    exact decide_eq_true (ne_of_mem_of_not_mem hc hx)
  rw [List.takeWhile_append_of_pos hfront, List.dropWhile_append_of_pos hfront]
  simp

/-- A literal is written between quotes. -/
private theorem toList_text_string (s : String) :
    (string s).text.toList = '"' :: (s.toList ++ ['"']) := by
  rw [text, String.toList_append, String.toList_append]
  rfl

/-- What looking ahead finds is how the text is laid out. -/
private theorem layout_cut (cs : List Char) : Layout cs (cut cs) := by
  fun_induction cut cs with
  | case1 => exact .nil
  | case2 cs ih => exact .blank (by decide) ih
  | case3 cs ih => exact .blank (by decide) ih
  | case4 cs ih => exact .blank (by decide) ih
  | case5 cs ih => exact .blank (by decide) ih
  | case6 cs ih =>
    by_cases hline : '\n' ∈ cs
    · have hcomment := Layout.comment (not_mem_takeWhile_ne '\n' cs) ih
      rwa [takeWhile_ne_append_cons hline] at hcomment
    · -- the comment takes all that is left
      have hrest : cs.dropWhile (· ≠ '\n') = [] := by
        rw [List.dropWhile_eq_nil_iff]
        intro c hc
        exact decide_eq_true (ne_of_mem_of_not_mem hc hline)
      rw [hrest, List.tail_nil, cut]
      exact .lastComment hline
  | case7 cs hquote ih =>
    -- the literal is cut at the first quote, so there is none in it
    have hlexeme : IsLexeme (.string (String.ofList (cs.takeWhile (· ≠ '"')))) := by
      rw [IsLexeme, String.toList_ofList]
      exact not_mem_takeWhile_ne '"' cs
    have hliteral := Layout.token hlexeme trivial ih
    rwa [toList_text_string, String.toList_ofList, List.cons_append, List.append_assoc,
      List.singleton_append, takeWhile_ne_append_cons hquote] at hliteral
  | case8 cs hquote => exact .lastLiteral hquote
  | case9 cs ih => exact .token (t := .opening .round) trivial trivial ih
  | case10 cs ih => exact .token (t := .closing .round) trivial trivial ih
  | case11 cs ih => exact .token (t := .opening .square) trivial trivial ih
  | case12 cs ih => exact .token (t := .closing .square) trivial trivial ih
  | case13 cs ih => exact .token (t := .opening .curly) trivial trivial ih
  | case14 cs ih => exact .token (t := .closing .curly) trivial trivial ih
  | case15 c cs _ _ _ _ _ _ _ _ _ _ _ _ ih =>
    have hc : c ∉ Lexer.separators := by simp_all [Lexer.separators]
    have hlexeme : IsLexeme (.word (String.ofList (c :: cs.takeWhile (· ∉ Lexer.separators)))) := by
      rw [IsLexeme, String.toList_ofList]
      refine ⟨List.cons_ne_nil _ _, fun d hd => ?_⟩
      obtain rfl | hd := List.mem_cons.1 hd
      · exact hc
      · simpa using List.mem_takeWhile_imp hd
    -- the word is the longest one, so what stops it is a separator or the end of the text
    have hend : EndsBefore (.word (String.ofList (c :: cs.takeWhile (· ∉ Lexer.separators))))
        (cs.dropWhile (· ∉ Lexer.separators)) := by
      have hnext := List.head?_dropWhile_not (· ∉ Lexer.separators) cs
      cases hrest : cs.dropWhile (· ∉ Lexer.separators) with
      | nil => trivial
      | cons d rest =>
        rw [hrest] at hnext
        simpa [EndsBefore] using hnext
    have hword := Layout.token hlexeme hend ih
    rwa [text, String.toList_ofList, List.cons_append, List.takeWhile_append_dropWhile] at hword

/-- The lexer finds exactly the tokens that are found by looking ahead. -/
theorem scan_eq_cut (source : String) : scan source = cut source.toList :=
  (layout_cut source.toList).scan_eq

/-- Words that run into a literal, a comment and brackets, and a literal that never ends. -/
example : scan "ab\"c;d\"(λ;\"f\n)g\"h" = [.word "ab", .string "c;d", .opening .round, .word "λ",
    .closing .round, .word "g"] := rfl

/-! ## Tokens written out -/

/-- The tokens as a text, with one blank between them. -/
def rendered (ts : List Token) : String := " ".intercalate (ts.map text)

/-- Tokens with blanks between them are found one by one. -/
private theorem emits_rendered {ts : List Token} (h : ∀ t ∈ ts, t.IsLexeme) :
    Lexer.Emits (rendered ts) ts := by
  induction ts with
  | nil => exact Lexer.emits_empty
  | cons t ts ih =>
    have ht := (h t List.mem_cons_self).emits
    have hts := ih fun u hu => h u (List.mem_cons_of_mem t hu)
    cases ts with
    | nil =>
      rw [rendered, List.map_cons, List.map_nil, String.intercalate_singleton]
      exact ht
    | cons u ts =>
      rw [rendered, List.map_cons, List.map_cons, String.intercalate_cons_cons]
      exact ht.blank hts

/-- The tokens of a text are how it is laid out. -/
private theorem layout_scan (source : String) : Layout source.toList (scan source) := by
  have hlayout := layout_cut source.toList
  rwa [← hlayout.scan_eq] at hlayout

/-- A quote ends a literal, so none has a quote in it. -/
theorem quote_not_mem {source s : String} (h : .string s ∈ scan source) : '"' ∉ s.toList :=
  (layout_scan source).isLexeme _ h

/-- The tokens of a text, written out with single blanks between them, are the tokens of what is
    written.  Besides its tokens a text has only blanks, comments, and at its end a literal that
    never ends. -/
theorem scan_rendered (source : String) :
    scan (rendered (scan source)) = scan source ∧ Layout source.toList (scan source) := by
  have hlayout := layout_scan source
  exact ⟨(emits_rendered hlayout.isLexeme).scan_eq, hlayout⟩

end Token
end Lisplet
