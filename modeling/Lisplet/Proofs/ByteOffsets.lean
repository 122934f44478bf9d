import Lisplet.Expr
import Mathlib.Data.String.Basic

/-! # Reading by byte offsets

A text can be read in place.  Instead of the characters of a word or of a string literal, the
lexer then remembers the offset at which it starts, counted in bytes, and cuts it out of the text
where it ends.  Likewise, the digits of a numeral are what follows the first byte, if that is a
sign.

Such a cut fails if its offsets are out of order, inside a character or beyond the end of the text,
and a sum of offsets fails if no machine word holds it.  Here both are checked, and neither ever
fails, so reading in place is the same as reading.

* `Bytes.slice?`                 a cut, which can fail
* `ByteLexer`                    the lexer that remembers offsets
* `ByteLexer.Tracks`             its offsets stand for the characters that `Lexer` keeps
* `Token.scanWithin_eq`          so it finds the same tokens
* `Numeral.normalizeWithin_eq`   a sign is one byte, so the digits are cut out whole
* `Expr.ofTokensWithin_eq`       so the same expressions are read -/

namespace Lisplet

open String (utf8Len)

namespace Bytes

/-- The part of a text between two offsets, if these are in order and neither of them is inside a
    character or beyond the end. -/
def slice? (text : String) (start stop : Nat) : Option String :=
  let first : String.Pos.Raw := ⟨start⟩
  let last : String.Pos.Raw := ⟨stop⟩
  if start ≤ stop ∧ first.isValid text ∧ last.isValid text then some (first.extract text last)
  else none

/-- The sum of two offsets, if a machine word holds it. -/
def sum? (a b : Nat) : Option Nat := if a + b < 2 ^ 64 then some (a + b) else none

/-- Characters with the offsets at which they start, if the first one starts at `pos`. -/
def placed (pos : Nat) : List Char → List (Nat × Char)
  | [] => []
  | c :: cs => (pos, c) :: placed (pos + c.utf8Size) cs

/-- Where a run of whole characters ends, a text may be cut. -/
private theorem isValid_of_append {text : String} {before rest : List Char}
    (h : text.toList = before ++ rest) : (⟨utf8Len before⟩ : String.Pos.Raw).isValid text := by
  refine String.Pos.Raw.isValid_eq_true_iff.2 (String.Pos.Raw.isValid_iff_exists_append.2 ?_)
  refine ⟨.ofList before, .ofList rest, ?_, (String.rawEndPos_ofList before).symm⟩
  rw [← String.ofList_append, ← h, String.ofList_toList]

/-- A run of whole characters can be cut out by its offsets. -/
private theorem slice?_eq {text : String} {before piece rest : List Char}
    (h : text.toList = before ++ piece ++ rest) :
    slice? text (utf8Len before) (utf8Len (before ++ piece)) = some (String.ofList piece) := by
  have hfirst := isValid_of_append (h.trans (List.append_assoc ..))
  have hlast := isValid_of_append h
  rw [String.utf8Len_append] at hlast ⊢
  have hcut := String.extract_of_valid before piece rest
  rw [← h, String.ofList_toList] at hcut
  rw [slice?, if_pos ⟨Nat.le_add_right .., hfirst, hlast⟩, hcut]

-- the letter takes two bytes
example : slice? "é" 0 1 = none ∧ slice? "é" 0 2 = some "é" := by decide +kernel

/-- The offset after a character of a text does not overflow. -/
theorem sum?_eq {text : String} {before rest : List Char} {c : Char}
    (h : text.toList = before ++ c :: rest) (hsize : text.utf8ByteSize < 2 ^ 64) :
    sum? (utf8Len before) c.utf8Size = some (utf8Len (before ++ [c])) := by
  rw [← String.utf8Len_toList, h, String.utf8Len_append, String.utf8Len_cons] at hsize
  rw [sum?, if_pos (by omega), String.utf8Len_append, String.utf8Len_cons, String.utf8Len_nil,
    Nat.zero_add]

end Bytes

/-! ## The lexer -/

/-- What the lexer of offsets is in the middle of. -/
inductive ByteLexer.Mode where
  /-- Between tokens, or inside a word. -/
  | plain
  /-- Inside a string literal whose characters start at an offset. -/
  | string (start : Nat)
  /-- Inside a comment. -/
  | comment
deriving DecidableEq, Repr

/-- The tokens found so far, last one first, the offset of a word that has not ended yet, and what
    is still unfinished. -/
structure ByteLexer where
  found : List Token := []
  wordStart : Option Nat := none
  mode : ByteLexer.Mode := .plain
deriving DecidableEq, Repr

namespace ByteLexer

/-- The tokens found so far, including a word that ends at an offset. -/
def flushed? (text : String) (l : ByteLexer) (stop : Nat) : Option (List Token) :=
  match l.wordStart with
  | some start =>
    if start < stop then do return .word (← Bytes.slice? text start stop) :: l.found
    else some l.found
  | none => some l.found

/-- Takes the character at an offset. -/
def feed? (text : String) (l : ByteLexer) (pos : Nat) (c : Char) : Option ByteLexer :=
  match l.mode with
  | .comment => some (if c = '\n' then { l with mode := .plain } else l)
  | .string start =>
    if c = '"' then do
      return { l with found := .string (← Bytes.slice? text start pos) :: l.found, mode := .plain }
    else some l
  | .plain =>
    if Lexer.isBlank c then do return ⟨← l.flushed? text pos, none, .plain⟩
    else if c = ';' then do return ⟨← l.flushed? text pos, none, .comment⟩
    else if c = '"' then do
      return ⟨← l.flushed? text pos, none, .string (← Bytes.sum? pos c.utf8Size)⟩
    else
      match Token.ofBracket? c with
      | some t => do return ⟨t :: (← l.flushed? text pos), none, .plain⟩
      | none => some { l with wordStart := some (l.wordStart.getD pos) }

/-- The tokens of a text that ends here. -/
def finish? (text : String) (l : ByteLexer) : Option (List Token) :=
  match l.mode with
  | .plain => do return (← l.flushed? text text.utf8ByteSize).reverse
  | _ => some l.found.reverse

/-- After the characters `before`, an offset stands for the characters from there on, which the
    other lexer keeps last one first. -/
inductive Tracks (before : List Char) : ByteLexer → Lexer → Prop where
  | blank (found : List Token) : Tracks before ⟨found, none, .plain⟩ ⟨found, .word []⟩
  | word (found : List Token) {older chars : List Char} (h : before = older ++ chars.reverse)
      (hne : chars ≠ []) :
      Tracks before ⟨found, some (utf8Len older), .plain⟩ ⟨found, .word chars⟩
  | string (found : List Token) {older chars : List Char} (h : before = older ++ chars.reverse) :
      Tracks before ⟨found, none, .string (utf8Len older)⟩ ⟨found, .string chars⟩
  | comment (found : List Token) : Tracks before ⟨found, none, .comment⟩ ⟨found, .comment⟩

variable {text : String} {before rest : List Char} {b : ByteLexer} {l : Lexer}

/-- A word that ends here is cut out as the characters that were kept. -/
private theorem Tracks.flushed?_eq {found : List Token} {chars : List Char}
    (h : Tracks before b ⟨found, .word chars⟩) (htext : text.toList = before ++ rest) :
    b.flushed? text (utf8Len before) = some (Lexer.flushed found chars) := by
  cases h with
  | blank => rfl
  | @word _ older _ hbefore hne =>
    subst hbefore
    have hlt : utf8Len older < utf8Len (older ++ chars.reverse) := by
      have hpos : utf8Len chars ≠ 0 := fun h => hne (String.utf8Len_eq_zero.1 h)
      rw [String.utf8Len_append, String.utf8Len_reverse]
      omega
    simp only [flushed?, if_pos hlt, Bytes.slice?_eq htext]
    rw [Lexer.flushed, if_neg (by simpa using hne)]
    rfl

/-- One more character belongs to the piece that is unfinished. -/
private theorem append_reverse_cons {older chars : List Char} (h : before = older ++ chars.reverse)
    (c : Char) : before ++ [c] = older ++ (c :: chars).reverse := by
  rw [h, List.reverse_cons, List.append_assoc]

/-- Outside of literals and comments, both lexers are. -/
private theorem Tracks.mode_eq {found : List Token} {chars : List Char}
    (h : Tracks before b ⟨found, .word chars⟩) : b.mode = .plain := by
  cases h <;> rfl

/-- A word begins with the character that is taken, or goes on with it. -/
private theorem Tracks.grow {found : List Token} {chars : List Char}
    (h : Tracks before b ⟨found, .word chars⟩) (c : Char) :
    Tracks (before ++ [c]) ⟨b.found, some (b.wordStart.getD (utf8Len before)), .plain⟩
      ⟨found, .word (c :: chars)⟩ := by
  cases h with
  | blank => exact .word found rfl (List.cons_ne_nil c [])
  | word _ hbefore _ => exact .word found (append_reverse_cons hbefore c) (List.cons_ne_nil c chars)

/-- One more character is taken alike, and neither a cut nor a sum fails. -/
theorem Tracks.feed {c : Char} (h : Tracks before b l) (htext : text.toList = before ++ c :: rest)
    (hsize : text.utf8ByteSize < 2 ^ 64) :
    ∃ b', b.feed? text (utf8Len before) c = some b' ∧ Tracks (before ++ [c]) b' (l.feed c) := by
  obtain ⟨found, mode⟩ := l
  cases mode with
  | comment =>
    cases h
    refine ⟨_, rfl, ?_⟩
    by_cases hc : c = '\n'
    · simpa only [Lexer.feed, if_pos hc] using .blank found
    · simpa only [Lexer.feed, if_neg hc] using .comment found
  | string chars =>
    cases h with
    | @string _ older _ hbefore =>
      by_cases hc : c = '"'
      · -- the literal ends before the quote
        have hcut := Bytes.slice?_eq (hbefore ▸ htext)
        rw [← hbefore] at hcut
        refine ⟨⟨.string (String.ofList chars.reverse) :: found, none, .plain⟩, ?_, ?_⟩
        · simp only [feed?, if_pos hc, hcut]
          rfl
        · simpa only [Lexer.feed, if_pos hc] using .blank _
      · refine ⟨⟨found, none, .string (utf8Len older)⟩, if_neg hc, ?_⟩
        simpa only [Lexer.feed, if_neg hc] using .string found (append_reverse_cons hbefore c)
  | word chars =>
    have hflushed := h.flushed?_eq htext
    simp only [feed?, h.mode_eq, hflushed, Lexer.feed]
    by_cases hblank : Lexer.isBlank c = true
    · simp only [if_pos hblank]
      exact ⟨_, rfl, .blank _⟩
    simp only [if_neg hblank]
    by_cases hcomment : c = ';'
    · simp only [if_pos hcomment]
      exact ⟨_, rfl, .comment _⟩
    simp only [if_neg hcomment]
    by_cases hquote : c = '"'
    · simp only [if_pos hquote, Bytes.sum?_eq htext hsize]
      exact ⟨_, rfl, .string _ (List.append_nil _).symm⟩
    simp only [if_neg hquote]
    cases Token.ofBracket? c with
    | some t => exact ⟨_, rfl, .blank _⟩
    | none => exact ⟨_, rfl, h.grow c⟩

/-- At the end of the text both have the same tokens. -/
private theorem Tracks.finish?_eq (h : Tracks text.toList b l) :
    b.finish? text = some l.finish := by
  obtain ⟨found, mode⟩ := l
  cases mode with
  | word chars =>
    have hflushed := h.flushed?_eq (List.append_nil text.toList).symm
    rw [String.utf8Len_toList] at hflushed
    simp only [finish?, h.mode_eq, hflushed]
    rfl
  | string chars =>
    cases h
    rfl
  | comment =>
    cases h
    rfl

/-- The rest of a text is taken alike.  The induction is on the rest, with the offsets of what has
    been taken before. -/
private theorem Tracks.foldlM_feed? (h : Tracks before b l) (htext : text.toList = before ++ rest)
    (hsize : text.utf8ByteSize < 2 ^ 64) :
    ∃ b', (Bytes.placed (utf8Len before) rest).foldlM (fun b p => b.feed? text p.1 p.2) b =
        some b' ∧ Tracks text.toList b' (rest.foldl Lexer.feed l) := by
  induction rest generalizing before b l with
  | nil => exact ⟨b, rfl, htext.symm ▸ (List.append_nil before).symm ▸ h⟩
  | cons c rest ih =>
    obtain ⟨b₁, hfeed, hb₁⟩ := h.feed htext hsize
    obtain ⟨b₂, hrest, hb₂⟩ := ih hb₁ (by rw [htext, List.append_assoc]; rfl)
    refine ⟨b₂, ?_, hb₂⟩
    have hpos : utf8Len before + c.utf8Size = utf8Len (before ++ [c]) := by simp
    rw [Bytes.placed, List.foldlM_cons, hfeed, hpos]
    exact hrest

end ByteLexer

/-- The tokens of a text, cut out of it by their offsets. -/
def Token.scanWithin (source : String) : Option (List Token) := do
  let l ← (Bytes.placed 0 source.toList).foldlM (fun (l : ByteLexer) p => l.feed? source p.1 p.2) {}
  l.finish? source

/-- No token is cut out in the wrong place. -/
theorem Token.scanWithin_eq {source : String} (h : source.utf8ByteSize < 2 ^ 64) :
    scanWithin source = some (scan source) := by
  obtain ⟨b, hfold, hb⟩ :=
    (ByteLexer.Tracks.blank []).foldlM_feed? (List.nil_append source.toList).symm h
  rw [String.utf8Len_nil] at hfold
  rw [scanWithin, hfold]
  exact hb.finish?_eq

/-! ## Numerals -/

namespace Numeral

/-- Drops every hyphen after the first byte of a text. -/
def dropHyphens? (cs : List Char) : Option (List Char) := do
  let text := String.ofList cs
  return (← Bytes.slice? text 1 text.utf8ByteSize).toList.filter (· != '-')

/-- `normalize` with the digits after a sign cut out by their offset. -/
def normalizeWithin : List Char → Option (List Char)
  | '+' :: rest => do return '+' :: (← dropHyphens? ('+' :: rest))
  | '-' :: rest => do return '-' :: (← dropHyphens? ('-' :: rest))
  | cs => some (cs.filter (· != '-'))

/-- After a character of one byte the text goes on, or ends. -/
private theorem dropHyphens?_eq {c : Char} (hc : c.utf8Size = 1) (rest : List Char) :
    dropHyphens? (c :: rest) = some (rest.filter (· != '-')) := by
  have htext : (String.ofList (c :: rest)).toList = [c] ++ rest ++ [] := by simp
  have hcut := Bytes.slice?_eq htext
  have hone : utf8Len [c] = 1 := by simpa using hc
  rw [hone, List.singleton_append, ← String.utf8ByteSize_ofList] at hcut
  simp only [dropHyphens?, hcut]
  simp

/-- A sign is one byte, so what follows it can be cut out. -/
theorem normalizeWithin_eq (cs : List Char) : normalizeWithin cs = some (normalize cs) := by
  fun_cases normalize cs with
  | case1 rest =>
    rw [normalizeWithin, dropHyphens?_eq (by decide)]
    rfl
  | case2 rest =>
    rw [normalizeWithin, dropHyphens?_eq (by decide)]
    rfl
  | case3 cs hplus hminus => rw [normalizeWithin] <;> assumption

end Numeral

/-! ## Expressions -/

/-- `ofWord` with the digits of a numeral cut out by their offset. -/
def Expr.ofWordWithin (word : String) : ExceptT ReadError Option Expr :=
  if Numeral.isNumeral word.toList then do
    match Numeral.plain? (← ExceptT.lift (Numeral.normalizeWithin word.toList)) with
    | some x => return number x
    | none => throw (.malformedNumber word)
  else ExceptT.mk (some (ofWord word))

/-- `feed` with numerals read in place. -/
def Reader.feedWithin (r : Reader) : Token → ExceptT ReadError Option Reader
  | .word w => return r.add (← Expr.ofWordWithin w)
  | t => ExceptT.mk (some (r.feed t))

/-- `ofTokens` with numerals read in place. -/
def Expr.ofTokensWithin (tokens : List Token) : ExceptT ReadError Option (List Expr) := do
  let r ← tokens.foldlM Reader.feedWithin {}
  ExceptT.mk (some r.finish)

/-- A word is the same expression when it is read in place. -/
private theorem Expr.ofWordWithin_eq (word : String) :
    ofWordWithin word = ExceptT.mk (some (ofWord word)) := by
  unfold ofWordWithin
  split
  · rename_i hnumeral
    rw [Numeral.normalizeWithin_eq, ofWord, if_pos hnumeral]
    show (match Numeral.plain? (Numeral.normalize word.toList) with
        | some x => pure (number x)
        | none => throw (.malformedNumber word) : ExceptT ReadError Option Expr) = _
    cases Numeral.plain? (Numeral.normalize word.toList) <;> rfl
  · rfl

/-- The reader takes a token alike. -/
private theorem Reader.feedWithin_eq (r : Reader) (t : Token) :
    r.feedWithin t = ExceptT.mk (some (r.feed t)) := by
  cases t with
  | word w =>
    rw [feedWithin, Expr.ofWordWithin_eq, feed]
    cases Expr.ofWord w <;> rfl
  | _ => rfl

/-- The reader takes all tokens alike, and stops at the same one. -/
private theorem Reader.foldlM_feedWithin (r : Reader) (tokens : List Token) :
    tokens.foldlM feedWithin r = ExceptT.mk (some (tokens.foldlM feed r)) := by
  induction tokens generalizing r with
  | nil => rfl
  | cons t tokens ih =>
    rw [List.foldlM_cons, List.foldlM_cons, feedWithin_eq]
    cases hfeed : r.feed t with
    | error cause => rfl
    | ok r' => exact ih r'

/-- The same expressions are read in place. -/
theorem Expr.ofTokensWithin_eq (tokens : List Token) :
    ofTokensWithin tokens = ExceptT.mk (some (ofTokens tokens)) := by
  rw [ofTokensWithin, Reader.foldlM_feedWithin, ofTokens]
  cases tokens.foldlM Reader.feed {} <;> rfl

end Lisplet
