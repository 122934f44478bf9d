import Lisplet.Token.Lexer

/-! # The lexer, piece by piece

Tokens that are found already play no part in what the lexer does next (`Lexer.feed_behind`), so a
text can be cut into tokens one piece at a time wherever no literal is open.

* `Lexer.inString`      the lexer is inside a string literal
* `Token.scan_append`   texts on lines of their own
* `Lexer.Emits`         texts that are whole tokens, and how larger ones are put together -/

namespace Lisplet

namespace Lexer

/-- The lexer that had found other tokens before. -/
def behind (l : Lexer) (older : List Token) : Lexer := { l with found := l.found ++ older }

/-- A word that is ended goes in front of older tokens. -/
private theorem flushed_append (found older : List Token) (chars : List Char) :
    flushed (found ++ older) chars = flushed found chars ++ older := by
  unfold flushed
  split <;> rfl

/-- Older tokens are not looked at. -/
theorem feed_behind (l : Lexer) (older : List Token) (c : Char) :
    (l.behind older).feed c = (l.feed c).behind older := by
  obtain ⟨found, mode⟩ := l
  cases mode with
  | comment =>
    simp only [feed, behind]
    split <;> rfl
  | string chars =>
    simp only [feed, behind]
    split <;> rfl
  | word chars =>
    simp only [feed, behind, flushed_append]
    split
    · rfl
    · split
      · rfl
      · split
        · rfl
        · cases Token.ofBracket? c <;> rfl

/-- Nor are they while a whole text is read. -/
private theorem foldl_feed_behind (l : Lexer) (older : List Token) (cs : List Char) :
    cs.foldl feed (l.behind older) = (cs.foldl feed l).behind older := by
  induction cs generalizing l with
  | nil => rfl
  | cons c cs ih => rw [List.foldl_cons, List.foldl_cons, feed_behind, ih]

/-- At the end, they come first. -/
private theorem finish_behind (l : Lexer) (older : List Token) :
    (l.behind older).finish = older.reverse ++ l.finish := by
  obtain ⟨found, mode⟩ := l
  cases mode with
  | word chars => simp only [finish, behind, flushed_append, List.reverse_append]
  | string chars => exact List.reverse_append
  | comment => exact List.reverse_append

/-- The lexer is inside a string literal. -/
def inString (l : Lexer) : Bool :=
  match l.mode with
  | .string _ => true
  | _ => false

/-- The end of a line finishes a word and a comment alike. -/
private theorem feed_newline {l : Lexer} (h : l.inString = false) :
    l.feed '\n' = (⟨[], .word []⟩ : Lexer).behind l.finish.reverse := by
  obtain ⟨found, mode⟩ := l
  cases mode with
  | word chars => simp [feed, isBlank, finish, behind]
  | string chars => cases h
  | comment => simp [feed, finish, behind]

end Lexer

/-- Texts on lines of their own have tokens of their own, unless a literal reaches from one into
    the next. -/
theorem Token.scan_append {a : String} (b : String)
    (ha : (a.toList.foldl Lexer.feed {}).inString = false) :
    scan (a ++ "\n" ++ b) = scan a ++ scan b := by
  have hchars : (a ++ "\n" ++ b).toList = a.toList ++ '\n' :: b.toList := by
    simp [String.toList_append]
  calc scan (a ++ "\n" ++ b)
      = (b.toList.foldl Lexer.feed ((a.toList.foldl Lexer.feed {}).feed '\n')).finish := by
        rw [scan, hchars, List.foldl_append, List.foldl_cons]
    _ = ((b.toList.foldl Lexer.feed {}).behind (scan a).reverse).finish := by
        rw [Lexer.feed_newline ha, Lexer.foldl_feed_behind]
        rfl
    _ = scan a ++ scan b := by
        rw [Lexer.finish_behind, List.reverse_reverse]
        rfl

namespace Lexer

/-! ## Whole tokens -/

/-- The text is the tokens `ts`, of which the last may be a word that is not ended yet. -/
def Emits (text : String) (ts : List Token) : Prop :=
  ∀ found, ∃ found' chars, text.toList.foldl feed ⟨found, .word []⟩ = ⟨found', .word chars⟩ ∧
    flushed found' chars = ts.reverse ++ found

/-- No text, no tokens. -/
theorem emits_empty : Emits "" [] := fun found => ⟨found, [], rfl, rfl⟩

/-- A text of whole tokens has these tokens. -/
theorem Emits.scan_eq {text : String} {ts : List Token} (h : Emits text ts) :
    Token.scan text = ts := by
  obtain ⟨found, chars, hfold, hflushed⟩ := h []
  rw [Token.scan, show ({} : Lexer) = ⟨[], .word []⟩ from rfl, hfold]
  show (flushed found chars).reverse = ts
  rw [hflushed, List.append_nil, List.reverse_reverse]

/-- Blanks separate tokens. -/
theorem Emits.blank {a b : String} {ts us : List Token} (ha : Emits a ts) (hb : Emits b us) :
    Emits (a ++ " " ++ b) (ts ++ us) := by
  intro found
  obtain ⟨found₁, chars, hfold, hflushed⟩ := ha found
  -- the blank ends a word that `a` may have left open
  have hblank : feed ⟨found₁, .word chars⟩ ' ' = ⟨ts.reverse ++ found, .word []⟩ := by
    rw [← hflushed]
    rfl
  obtain ⟨found₂, chars₂, hfold₂, hflushed₂⟩ := hb (ts.reverse ++ found)
  refine ⟨found₂, chars₂, ?_, ?_⟩
  · rw [String.toList_append, String.toList_append, List.foldl_append, List.foldl_append, hfold]
    show b.toList.foldl feed (feed ⟨found₁, .word chars⟩ ' ') = _
    rw [hblank, hfold₂]
  · rw [hflushed₂, List.reverse_append, List.append_assoc]

/-- Brackets are tokens wherever they stand. -/
theorem Emits.square {a : String} {ts : List Token} (ha : Emits a ts) :
    Emits ("[" ++ a ++ "]") (.opening .square :: ts ++ [.closing .square]) := by
  intro found
  obtain ⟨found₁, chars, hfold, hflushed⟩ := ha (.opening .square :: found)
  refine ⟨.closing .square :: flushed found₁ chars, [], ?_, ?_⟩
  · rw [String.toList_append, String.toList_append, List.foldl_append, List.foldl_append]
    -- the first bracket is found at once, and the last one ends a word that `a` may have left open
    show feed (a.toList.foldl feed ⟨.opening .square :: found, .word []⟩) ']' = _
    rw [hfold]
    rfl
  · show .closing .square :: flushed found₁ chars = _
    rw [hflushed]
    simp

/-- Characters that are not quotes gather in an open literal. -/
theorem foldl_feed_string {chars : List Char} (h : '"' ∉ chars) (found : List Token)
    (older : List Char) :
    chars.foldl feed ⟨found, .string older⟩ = ⟨found, .string (chars.reverse ++ older)⟩ := by
  induction chars generalizing older with
  | nil => rfl
  | cons c chars ih =>
    have hc : c ≠ '"' := (List.ne_of_not_mem_cons h).symm
    have hfeed : feed ⟨found, .string older⟩ c = ⟨found, .string (c :: older)⟩ := if_neg hc
    rw [List.foldl_cons, hfeed, ih (List.not_mem_of_not_mem_cons h), List.reverse_cons,
      List.append_assoc]
    rfl

/-- A text without quotes becomes a literal between two of them. -/
theorem emits_quoted {s : String} (h : '"' ∉ s.toList) : Emits ("\"" ++ s ++ "\"") [.string s] := by
  intro found
  refine ⟨.string s :: found, [], ?_, rfl⟩
  rw [String.toList_append, String.toList_append, List.foldl_append, List.foldl_append]
  show feed (s.toList.foldl feed ⟨found, .string []⟩) '"' = _
  rw [foldl_feed_string h, List.append_nil]
  show Lexer.mk (.string (String.ofList s.toList.reverse.reverse) :: found) (.word []) = _
  rw [List.reverse_reverse, String.ofList_toList]

/-- The characters that end a word. -/
def separators : List Char :=
  [' ', '\t', '\r', '\n', ';', '"', '(', '[', '\x7b', ')', ']', '\x7d']

/-- Characters that end no word gather in an open word. -/
private theorem foldl_feed_word {chars : List Char} (h : ∀ c ∈ chars, c ∉ separators)
    (found : List Token) (older : List Char) :
    chars.foldl feed ⟨found, .word older⟩ = ⟨found, .word (chars.reverse ++ older)⟩ := by
  induction chars generalizing older with
  | nil => rfl
  | cons c chars ih =>
    have hfeed : feed ⟨found, .word older⟩ c = ⟨found, .word (c :: older)⟩ := by
      have hc := h c List.mem_cons_self
      simp only [separators, List.mem_cons, List.not_mem_nil, or_false, not_or] at hc
      simp [feed, isBlank, Token.ofBracket?, hc]
    rw [List.foldl_cons, hfeed, ih fun d hd => h d (List.mem_cons_of_mem c hd), List.reverse_cons,
      List.append_assoc]
    rfl

/-- A word is a token, if nothing in it ends it. -/
theorem emits_word {w : String} (hne : w.toList ≠ []) (h : ∀ c ∈ w.toList, c ∉ separators) :
    Emits w [.word w] := by
  intro found
  refine ⟨found, w.toList.reverse, ?_, ?_⟩
  · rw [foldl_feed_word h, List.append_nil]
  · rw [flushed, if_neg (by simpa using hne), List.reverse_reverse, String.ofList_toList]
    rfl

end Lexer
end Lisplet
