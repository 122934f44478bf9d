import Lisplet.Expr
import Lisplet.Proofs.Lexing

/-! # Unfinished texts

A text that ends too early can be completed, and a misplaced bracket cannot be mended by anything
that follows it.

What follows a text can make its last word longer, end a comment or close a literal, so its last
token may change.  But the tokens that the lexer has found it keeps, and brackets are found at once:
all that is pending at the end of a text is one word at most (`Lexer.finish_eq`).  A word never
leads to a misplaced bracket, so such an error is decided by the tokens that stay.

* `Lexer.pending`          the token that may still change
* `Lexer.ending`           ends a literal or a comment
* `Reader.brackets`        the brackets to close
* `Expr.parse_error_extends`  what the two kinds of errors say about longer texts -/

namespace Lisplet

namespace Lexer

/-! ## Tokens that stay -/

/-- The word that ends if the text ends here. -/
def pending (l : Lexer) : List Token :=
  match l.mode with
  | .word chars => flushed [] chars
  | _ => []

/-- The tokens that were found, and then what is pending. -/
theorem finish_eq (l : Lexer) : l.finish = l.found.reverse ++ l.pending := by
  obtain ⟨found, mode⟩ := l
  cases mode with
  | word chars =>
    simp only [finish, pending, flushed]
    split <;> simp
  | string chars => exact (List.append_nil _).symm
  | comment => exact (List.append_nil _).symm

/-- A word that ends is found in addition to what was found before. -/
private theorem suffix_flushed (found : List Token) (chars : List Char) :
    found <:+ flushed found chars := by
  unfold flushed
  split
  · exact List.suffix_rfl
  · exact List.suffix_cons _ _

/-- One more character takes no token away. -/
private theorem suffix_feed (l : Lexer) (c : Char) : l.found <:+ (l.feed c).found := by
  obtain ⟨found, mode⟩ := l
  cases mode with
  | comment =>
    simp only [feed]
    split <;> exact List.suffix_rfl
  | string chars =>
    simp only [feed]
    split
    · exact List.suffix_cons _ _
    · exact List.suffix_rfl
  | word chars =>
    -- a word may end first, and what ended it may be a token of its own
    have hflushed := suffix_flushed found chars
    simp only [feed]
    split
    · exact hflushed
    · split
      · exact hflushed
      · split
        · exact hflushed
        · split
          · exact hflushed.trans (List.suffix_cons _ _)
          · exact List.suffix_rfl

/-- No token is lost, whatever follows. -/
private theorem suffix_foldl_feed (l : Lexer) (cs : List Char) :
    l.found <:+ (cs.foldl feed l).found := by
  induction cs generalizing l with
  | nil => exact List.suffix_rfl
  | cons c cs ih => exact (suffix_feed l c).trans (ih (l.feed c))

end Lexer

/-- A longer text starts with the tokens that were found in the shorter one. -/
private theorem Token.exists_scan_append_eq (source rest : String) :
    ∃ further, scan (source ++ rest) =
      (source.toList.foldl Lexer.feed {}).found.reverse ++ further := by
  have hscan : scan (source ++ rest) =
      (rest.toList.foldl Lexer.feed (source.toList.foldl Lexer.feed {})).finish := by
    rw [scan, String.toList_append, List.foldl_append]
  obtain ⟨newer, hnewer⟩ :=
    (source.toList.foldl Lexer.feed {}).suffix_foldl_feed rest.toList
  rw [hscan, Lexer.finish_eq, ← hnewer, List.reverse_append, List.append_assoc]
  exact ⟨_, rfl⟩

/-! ## Errors that stay -/

/-- The error is a bracket that closes nothing, or not what is open. -/
def ReadError.IsMisplaced : ReadError → Prop
  | .unexpectedToken _ | .mismatchedDelimiter .. => True
  | _ => False

namespace Reader

/-- A word is never misplaced. -/
private theorem not_isMisplaced_of_feed_word {r : Reader} {w : String} {e : ReadError}
    (h : r.feed (.word w) = .error e) : ¬ e.IsMisplaced := by
  simp only [feed, Expr.ofWord] at h
  grind [Except.map, ReadError.IsMisplaced]

/-- So what is pending is never misplaced. -/
private theorem not_isMisplaced_of_pending {l : Lexer} {r : Reader} {e : ReadError}
    (h : l.pending.foldlM feed r = .error e) : ¬ e.IsMisplaced := by
  obtain ⟨found, mode⟩ := l
  cases mode with
  | comment => cases h
  | string chars => cases h
  | word chars =>
    simp only [Lexer.pending, Lexer.flushed] at h
    split at h
    · cases h
    · rw [List.foldlM_cons] at h
      cases hword : r.feed (.word (String.ofList chars.reverse)) with
      | ok r' => rw [hword] at h; cases h
      | error e' =>
        rw [hword] at h
        cases h
        exact not_isMisplaced_of_feed_word hword

/-- A token is refused for what it is, not because the text ends. -/
private theorem feed_ne_unexpectedEnd (r : Reader) (t : Token) :
    r.feed t ≠ .error .unexpectedEnd := by
  cases t with
  | opening b => exact nofun
  | closing b =>
    simp only [feed]
    split
    · exact nofun
    · split <;> exact nofun
  | string s => exact nofun
  | word w =>
    simp only [feed, Expr.ofWord]
    grind [Except.map]

/-- Nor is a sequence of tokens. -/
private theorem foldlM_feed_ne_unexpectedEnd (r : Reader) (ts : List Token) :
    ts.foldlM feed r ≠ .error .unexpectedEnd := by
  induction ts generalizing r with
  | nil => exact nofun
  | cons t ts ih =>
    rw [List.foldlM_cons]
    cases ht : r.feed t with
    | ok r' => exact ih r'
    | error e => exact fun h => r.feed_ne_unexpectedEnd t (ht.trans h)

end Reader

namespace Expr

/-- A misplaced bracket is found while the tokens are read. -/
private theorem foldlM_of_ofTokens {ts : List Token} {e : ReadError} (h : ofTokens ts = .error e)
    (he : e.IsMisplaced) : ts.foldlM Reader.feed {} = .error e := by
  unfold ofTokens at h
  cases hr : ts.foldlM Reader.feed {} with
  | error e' =>
    rw [hr] at h
    cases h
    rfl
  | ok r =>
    rw [hr] at h
    replace h : r.finish = .error e := h
    -- at the end, a reader can complain only that brackets are open
    unfold Reader.finish at h
    split at h
    · cases h
    · cases h
      exact he.elim

/-- Whatever follows a misplaced bracket, it stays misplaced. -/
private theorem parse_append_of_isMisplaced {source : String} {e : ReadError} (he : e.IsMisplaced)
    (h : parse source = .error e) (rest : String) : parse (source ++ rest) = .error e := by
  have hread := foldlM_of_ofTokens h he
  rw [Token.scan, Lexer.finish_eq, List.foldlM_append] at hread
  -- the error is not due to the word that is pending, so it is due to the tokens that stay
  have hfound : (source.toList.foldl Lexer.feed {}).found.reverse.foldlM Reader.feed {} =
      .error e := by
    cases hr : (source.toList.foldl Lexer.feed {}).found.reverse.foldlM Reader.feed {} with
    | error e' =>
      rw [hr] at hread
      exact hread
    | ok r =>
      rw [hr] at hread
      exact absurd he (Reader.not_isMisplaced_of_pending hread)
  obtain ⟨further, hscan⟩ := Token.exists_scan_append_eq source rest
  rw [parse, ofTokens, hscan, List.foldlM_append, hfound]
  rfl

end Expr

/-! ## Completing a text -/

namespace Lexer

/-- Ends the literal or the comment that a text ends in. -/
def ending (l : Lexer) : String :=
  match l.mode with
  | .word _ => ""
  | .string _ => "\""
  | .comment => "\n"

/-- A text that is ended has at most one more token, the literal that was left open. -/
private theorem foldl_feed_ending (l : Lexer) :
    ∃ found chars, ∃ literals : List String, l.ending.toList.foldl feed l = ⟨found, .word chars⟩ ∧
      (flushed found chars).reverse = l.finish ++ literals.map Token.string := by
  obtain ⟨found, mode⟩ := l
  cases mode with
  | word chars => exact ⟨found, chars, [], rfl, (List.append_nil _).symm⟩
  | string chars =>
    refine ⟨.string (String.ofList chars.reverse) :: found, [], [String.ofList chars.reverse], ?_,
      List.reverse_cons⟩
    simp [ending, feed]
  | comment =>
    refine ⟨found, [], [], ?_, (List.append_nil _).symm⟩
    simp [ending, feed]

/-- A closing bracket ends a word. -/
private theorem feed_closer (found : List Token) (chars : List Char) (b : Bracket) :
    feed ⟨found, .word chars⟩ b.closer = ⟨.closing b :: flushed found chars, .word []⟩ := by
  cases b <;> rfl

/-- A closing bracket is a token of its own, also right behind a word. -/
private theorem finish_foldl_feed_closers (found : List Token) (chars : List Char)
    (bs : List Bracket) :
    ((bs.map Bracket.closer).foldl feed ⟨found, .word chars⟩).finish =
      (flushed found chars).reverse ++ bs.map Token.closing := by
  induction bs generalizing found chars with
  | nil => exact (List.append_nil _).symm
  | cons b bs ih =>
    rw [List.map_cons, List.foldl_cons, feed_closer, ih]
    show (Token.closing b :: flushed found chars).reverse ++ _ = _
    rw [List.reverse_cons, List.append_assoc]
    rfl

end Lexer

/-- The text that ends what is unfinished and then closes brackets. -/
def Token.completion (source : String) (bs : List Bracket) : String :=
  (source.toList.foldl Lexer.feed {}).ending ++ String.ofList (bs.map Bracket.closer)

/-- The tokens of a text that is completed. -/
private theorem Token.exists_scan_completion_eq (source : String) (bs : List Bracket) :
    ∃ literals : List String, scan (source ++ completion source bs) =
      scan source ++ (literals.map Token.string ++ bs.map Token.closing) := by
  obtain ⟨found, chars, literals, hended, hflushed⟩ :=
    (source.toList.foldl Lexer.feed {}).foldl_feed_ending
  refine ⟨literals, ?_⟩
  rw [scan, completion, String.toList_append, String.toList_append, String.toList_ofList,
    List.foldl_append, List.foldl_append, hended, Lexer.finish_foldl_feed_closers, hflushed,
    List.append_assoc]
  rfl

namespace Reader

/-- The brackets that are open, innermost first. -/
def brackets (r : Reader) : List Bracket := r.levels.map Level.bracket

/-- An expression opens and closes nothing. -/
@[simp] theorem brackets_add (r : Reader) (e : Expr) : (r.add e).brackets = r.brackets := by
  obtain ⟨levels, forms⟩ := r
  cases levels <;> rfl

/-- Literals open and close nothing. -/
private theorem exists_foldlM_feed_literals (r : Reader) (literals : List String) :
    ∃ r', (literals.map Token.string).foldlM feed r = .ok r' ∧ r'.brackets = r.brackets := by
  induction literals generalizing r with
  | nil => exact ⟨r, rfl, rfl⟩
  | cons s literals ih =>
    obtain ⟨r', hread, hbrackets⟩ := ih (r.add (.string s))
    rw [brackets_add] at hbrackets
    exact ⟨r', hread, hbrackets⟩

/-- The innermost bracket can be closed. -/
private theorem exists_feed_closing {r : Reader} {b : Bracket} {bs : List Bracket}
    (h : r.brackets = b :: bs) : ∃ r', r.feed (.closing b) = .ok r' ∧ r'.brackets = bs := by
  obtain ⟨levels, forms⟩ := r
  cases levels with
  | nil => cases h
  | cons top levels =>
    cases h
    refine ⟨_, if_pos rfl, ?_⟩
    rw [brackets_add]
    rfl

/-- All brackets can be closed, one after the other from the innermost on. -/
private theorem exists_foldlM_feed_closings {r : Reader} {bs : List Bracket} (h : r.brackets = bs) :
    ∃ r', (bs.map Token.closing).foldlM feed r = .ok r' ∧ r'.brackets = [] := by
  induction bs generalizing r with
  | nil => exact ⟨r, rfl, h⟩
  | cons b bs ih =>
    obtain ⟨r₁, hclosed, hbrackets⟩ := exists_feed_closing h
    obtain ⟨r', hread, hend⟩ := ih hbrackets
    refine ⟨r', ?_, hend⟩
    rw [List.map_cons, List.foldlM_cons, hclosed]
    exact hread

end Reader

namespace Expr

/-- A text that ends too early can be completed. -/
private theorem exists_parse_append_eq_ok {source : String}
    (h : parse source = .error .unexpectedEnd) : ∃ rest es, parse (source ++ rest) = .ok es := by
  unfold parse ofTokens at h
  cases hr : (Token.scan source).foldlM Reader.feed {} with
  | error e =>
    rw [hr] at h
    cases h
    -- the reader complained at the end, not at a token
    exact absurd hr (Reader.foldlM_feed_ne_unexpectedEnd _ _)
  | ok r =>
    -- end the last token, close what the reader has left open, and it can finish
    obtain ⟨literals, hscan⟩ := Token.exists_scan_completion_eq source r.brackets
    obtain ⟨r₁, hliterals, hbrackets⟩ := r.exists_foldlM_feed_literals literals
    obtain ⟨r₂, hclosings, hclosed⟩ := Reader.exists_foldlM_feed_closings hbrackets
    have hread : (Token.scan (source ++ Token.completion source r.brackets)).foldlM Reader.feed {} =
        .ok r₂ := by
      rw [hscan, List.foldlM_append, hr]
      show (literals.map Token.string ++ r.brackets.map Token.closing).foldlM Reader.feed r = _
      rw [List.foldlM_append, hliterals]
      exact hclosings
    have hlevels : r₂.levels = [] := List.map_eq_nil_iff.1 hclosed
    refine ⟨Token.completion source r.brackets, r₂.forms.reverse, ?_⟩
    rw [parse, ofTokens, hread]
    show r₂.finish = _
    rw [Reader.finish, hlevels]
    rfl

/-- Unfinished texts are recognised exactly: if the reader complains that a text ends too early,
    some text behind it completes it, and if it complains about a bracket, it makes the same
    complaint whatever comes behind. -/
theorem parse_error_extends (source : String) :
    (parse source = .error .unexpectedEnd → ∃ rest es, parse (source ++ rest) = .ok es) ∧
    (∀ found rest, parse source = .error (.unexpectedToken found) →
      parse (source ++ rest) = .error (.unexpectedToken found)) ∧
    ∀ expected found rest, parse source = .error (.mismatchedDelimiter expected found) →
      parse (source ++ rest) = .error (.mismatchedDelimiter expected found) := by
  refine ⟨exists_parse_append_eq_ok, fun found rest h => ?_, fun expected found rest h => ?_⟩
  · exact parse_append_of_isMisplaced (e := .unexpectedToken found) trivial h rest
  · exact parse_append_of_isMisplaced (e := .mismatchedDelimiter expected found) trivial h rest

/-- A text that ends inside a literal, one that closes too much and one that closes the wrong
    bracket. -/
theorem parse_error_extends_samples :
    parse "(f [1 \"a)" = .error .unexpectedEnd ∧
    (∃ rest es, parse ("(f [1 \"a)" ++ rest) = .ok es) ∧
    parse "(f) x] 1" = .error (.unexpectedToken (.closing .square)) ∧
    parse ("(f) x] 1" ++ "2 [") = .error (.unexpectedToken (.closing .square)) ∧
    parse "[f (g 1] ; h" = .error (.mismatchedDelimiter .round .square) ∧
    parse ("[f (g 1] ; h" ++ "\n)]") = .error (.mismatchedDelimiter .round .square) := by
  have hend : parse "(f [1 \"a)" = .error .unexpectedEnd := rfl
  have htoken : parse "(f) x] 1" = .error (.unexpectedToken (.closing .square)) := rfl
  have hbracket : parse "[f (g 1] ; h" = .error (.mismatchedDelimiter .round .square) := rfl
  exact ⟨hend, (parse_error_extends _).1 hend, htoken, (parse_error_extends _).2.1 _ _ htoken,
    hbracket, (parse_error_extends _).2.2 _ _ _ hbracket⟩

end Expr
end Lisplet
