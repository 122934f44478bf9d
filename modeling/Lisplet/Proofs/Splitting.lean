import Lisplet.Proofs.LibraryCalls
import Lisplet.Proofs.Literals

/-! # Splitting and joining

A string is cut at the matches of a separator, which are found from the left and do not overlap, and
the pieces joined with the separator give the string again.  That holds whatever the separator is:
it may overlap with itself, match at either end of the string, or be empty.  A piece never contains
the separator, because the search has tried every position of it.

The other way round pieces can run into each other.  Strings that do not contain a separator of one
character come back as they were.

* `Text.intercalate_split`          the pieces joined
* `Text.MatchFree`                  what the search knows of the piece it is reading
* `Text.split_intercalate`          the joined pieces split
* `Registry.split_join_inverse`     the functions `split`, `join` and `contains?` -/

namespace Lisplet

open Eval

namespace Text

variable {start part cs rest : List Char}

/-! ## Searching -/

/-- What is left is what follows the start. -/
private theorem dropStart?_eq_some_iff : dropStart? start cs = some rest ↔ cs = start ++ rest := by
  fun_induction dropStart? start cs with
  | case1 cs => simp
  | case2 start hstart => simp_all
  | case3 a start cs ih => simp [ih]
  | case4 a start c cs hne => simp [Ne.symm hne]

/-- Something is left exactly if the text starts so. -/
private theorem isSome_dropStart?_iff : (dropStart? start cs).isSome = true ↔ start <+: cs := by
  rw [Option.isSome_iff_exists]
  exact exists_congr fun rest => dropStart?_eq_some_iff.trans eq_comm

/-- Nothing is left exactly if the text does not start so. -/
private theorem dropStart?_eq_none_iff : dropStart? start cs = none ↔ ¬ start <+: cs := by
  rw [← isSome_dropStart?_iff, Option.not_isSome_iff_eq_none]

/-- The search finds a part exactly if it is there. -/
private theorem contains_iff_isInfix : contains part cs = true ↔ part <:+: cs := by
  induction cs with
  | nil =>
    rw [contains]
    simp [isSome_dropStart?_iff]
  | cons c cs ih =>
    -- a part starts here or behind the first character
    rw [contains, Bool.or_eq_true, isSome_dropStart?_iff, ih, List.infix_cons_iff]

/-! ## Pieces -/

section Separator

variable (a : Char) (sep piece cs : List Char)

/-- There is always a piece, the last one. -/
private theorem splitAfter_ne_nil : splitAfter a sep piece cs ≠ [] := by
  fun_induction splitAfter a sep piece cs with
  | case1 => simp
  | case2 => simp
  | case3 piece c rest _ ih => exact ih

/-- The pieces joined with the separator are the text. -/
private theorem intercalate_splitAfter :
    (a :: sep).intercalate (splitAfter a sep piece cs) = piece.reverse ++ cs := by
  fun_induction splitAfter a sep piece cs with
  | case1 piece cs rest h ih =>
    -- there is a next piece, so a separator is put back between the two
    obtain ⟨next, more, hnext⟩ := List.exists_cons_of_ne_nil (splitAfter_ne_nil a sep [] rest)
    rw [hnext] at ih
    rw [hnext, List.intercalate_cons_cons, ih, dropStart?_eq_some_iff.1 h]
    simp
  | case2 piece => simp
  -- no match here, so the character goes to the piece
  | case3 piece c rest _ ih => simp [ih]

/-- There are several pieces exactly if the separator is in the text. -/
private theorem one_lt_length_splitAfter_iff :
    1 < (splitAfter a sep piece cs).length ↔ a :: sep <:+: cs := by
  fun_induction splitAfter a sep piece cs with
  | case1 piece cs rest h ih =>
    have hmore := List.length_pos_iff.2 (splitAfter_ne_nil a sep [] rest)
    have hinside : a :: sep <:+: cs := ⟨[], rest, by simp [dropStart?_eq_some_iff.1 h]⟩
    simp [hinside, hmore]
  | case2 piece => simp
  -- the separator does not start here, so it is in the rest or nowhere
  | case3 piece c rest h ih =>
    rw [ih, List.infix_cons_iff, or_iff_right (dropStart?_eq_none_iff.1 h)]

end Separator

/-- No match of the separator begins within the piece, which is given last character first, not even
    one that reaches into the text behind it. -/
def MatchFree (sep piece cs : List Char) : Prop :=
  ∀ before : List Char, before.length < piece.length → ¬ before ++ sep <+: piece.reverse ++ cs

namespace MatchFree

variable {sep piece cs : List Char}

theorem nil (sep cs : List Char) : MatchFree sep [] cs := by
  simp [MatchFree]

/-- A character is read where the separator does not match. -/
theorem cons {c : Char} (h : MatchFree sep piece (c :: cs)) (hc : ¬ sep <+: c :: cs) :
    MatchFree sep (c :: piece) cs := by
  intro before hlt hmatch
  rw [List.reverse_cons, List.append_assoc, List.singleton_append] at hmatch
  rw [List.length_cons, Nat.lt_succ_iff_lt_or_eq] at hlt
  obtain hlt | hhere := hlt
  · exact h before hlt hmatch
  · -- what stands before the match is all that was read earlier
    have hbefore : before <+: piece.reverse ++ c :: cs := (List.prefix_append ..).trans hmatch
    have hlen : before.length = piece.reverse.length := by simp [hhere]
    have heq : before = piece.reverse :=
      (List.prefix_of_prefix_length_le hbefore (List.prefix_append ..)
        hlen.le).eq_of_length hlen
    rw [heq, List.prefix_append_right_inj] at hmatch
    exact hc hmatch

/-- A piece in which no match begins does not contain the separator. -/
private theorem not_isInfix (h : MatchFree sep piece cs) (hsep : sep ≠ []) :
    ¬ sep <:+: piece.reverse := by
  rintro ⟨before, behind, hpiece⟩
  have hlen := congrArg List.length hpiece
  have hpos := List.length_pos_iff.2 hsep
  simp only [List.length_append, List.length_reverse] at hlen
  -- the separator is not empty, so a match inside the piece begins inside it
  refine h before (by omega) ⟨behind ++ cs, ?_⟩
  rw [← hpiece, List.append_assoc _ behind]

end MatchFree

/-- None of the pieces contains the separator. -/
private theorem not_isInfix_of_mem_splitAfter {a : Char} {sep piece cs p : List Char}
    (h : MatchFree (a :: sep) piece cs) (hp : p ∈ splitAfter a sep piece cs) :
    ¬ a :: sep <:+: p := by
  fun_induction splitAfter a sep piece cs with
  | case1 piece cs rest _ ih =>
    -- this piece ends at a match; the next one starts empty
    obtain rfl | hp := List.mem_cons.1 hp
    · exact h.not_isInfix (List.cons_ne_nil a sep)
    · exact ih (.nil _ rest) hp
  | case2 piece =>
    obtain rfl := List.mem_singleton.1 hp
    exact h.not_isInfix (List.cons_ne_nil a sep)
  | case3 piece c rest hnone ih =>
    exact ih (h.cons (dropStart?_eq_none_iff.1 hnone)) hp

/-- A separator of one character cuts as in any list. -/
private theorem splitAfter_eq_splitOnPPrepend (a : Char) (piece cs : List Char) :
    splitAfter a [] piece cs = cs.splitOnPPrepend (· == a) piece := by
  fun_induction splitAfter a [] piece cs with
  | case1 piece cs rest h ih =>
    rw [dropStart?_eq_some_iff.1 h, ih]
    simp [List.splitOnPPrepend_cons_eq_if]
  | case2 piece => simp
  | case3 piece c rest h ih =>
    -- the separator is a single character, which this one is not
    have hne : c ≠ a := by
      rintro rfl
      exact dropStart?_eq_none_iff.1 h (List.prefix_append [c] rest)
    rw [ih]
    simp [List.splitOnPPrepend_cons_eq_if, hne]

/-- The pieces joined with the separator are the text. -/
theorem intercalate_split (sep cs : List Char) : sep.intercalate (split sep cs) = cs := by
  cases sep with
  | cons a sep => simp [split, intercalate_splitAfter]
  | nil =>
    -- every character is a piece
    rw [split]
    induction cs with
    | nil => rfl
    | cons c cs ih =>
      cases cs with
      | nil => simp
      | cons d cs => simpa [List.intercalate_cons_cons] using ih

/-- Parts without the separator are the pieces of the joined text. -/
theorem split_intercalate {c : Char} {parts : List (List Char)} (hparts : parts ≠ [])
    (hc : ∀ part ∈ parts, c ∉ part) : split [c] ([c].intercalate parts) = parts := by
  rw [split, splitAfter_eq_splitOnPPrepend]
  exact List.splitOn_intercalate c hc hparts

/-! ## Strings -/

/-- The pieces of a string. -/
def pieces (s sep : String) : List String := (split sep.toList s.toList).map String.ofList

/-- The pieces of a string joined with the separator are the string. -/
private theorem intercalate_pieces (s sep : String) : sep.intercalate (pieces s sep) = s := by
  rw [← String.toList_inj, String.toList_intercalate, pieces, List.map_map]
  simp [Function.comp_def, intercalate_split]

section Separator

variable {s sep : String} (hsep : sep ≠ "")
include hsep

/-- A separator that is not empty has a first character. -/
private theorem exists_split_eq : ∃ a rest, sep.toList = a :: rest ∧
    split sep.toList s.toList = splitAfter a rest [] s.toList := by
  obtain ⟨a, rest, hcons⟩ := List.exists_cons_of_ne_nil (mt String.toList_eq_nil_iff.1 hsep)
  exact ⟨a, rest, hcons, by rw [hcons, split]⟩

private theorem pieces_ne_nil : pieces s sep ≠ [] := by
  obtain ⟨a, rest, -, hsplit⟩ := exists_split_eq (s := s) hsep
  rw [pieces, hsplit]
  simp [splitAfter_ne_nil]

/-- The pieces of a string do not contain the separator. -/
private theorem not_isInfix_of_mem_pieces {piece : String} (hpiece : piece ∈ pieces s sep) :
    ¬ sep.toList <:+: piece.toList := by
  obtain ⟨a, rest, hcons, hsplit⟩ := exists_split_eq (s := s) hsep
  rw [pieces, hsplit] at hpiece
  obtain ⟨p, hp, rfl⟩ := List.mem_map.1 hpiece
  rw [hcons, String.toList_ofList]
  exact not_isInfix_of_mem_splitAfter (.nil _ _) hp

/-- A string has several pieces exactly if it contains the separator. -/
private theorem one_lt_length_pieces_iff :
    1 < (pieces s sep).length ↔ sep.toList <:+: s.toList := by
  obtain ⟨a, rest, hcons, hsplit⟩ := exists_split_eq (s := s) hsep
  rw [pieces, hsplit, List.length_map, one_lt_length_splitAfter_iff, hcons]

end Separator

/-- Strings without a character that are joined with it are the pieces. -/
private theorem pieces_intercalate {c : Char} {parts : List String} (hparts : parts ≠ [])
    (hc : ∀ part ∈ parts, c ∉ part.toList) :
    pieces ((String.singleton c).intercalate parts) (String.singleton c) = parts := by
  rw [pieces, String.toList_intercalate, String.toList_singleton,
    split_intercalate (by simpa using hparts) (by simpa using hc), List.map_map]
  simp [Function.comp_def]

end Text

/-! ## Calls -/

variable {κ : Type}

/-- A list with an element in it exists. -/
private theorem Lists.index_lt_of_items {ls : Lists} {r : ListRef} {parts : List String}
    (h : ls.items r = parts.map .string) (hparts : parts ≠ []) : r.index < ls.size := by
  obtain ⟨part, rest, rfl⟩ := List.exists_cons_of_ne_nil hparts
  have hmem : Value.string part ∈ ls.items r := by simp [h]
  exact index_lt_of_mem_cell (Array.mem_toList_iff.1 hmem)

/-- Lists of the same strings are equal. -/
private theorem Value.equal_of_items_eq_strings {ls : Lists} {r r' : ListRef} {parts : List String}
    (hparts : parts ≠ []) (hr : ls.items r = parts.map .string)
    (hr' : ls.items r' = parts.map .string) : (Value.list r').equal ls (.list r) = true := by
  have hcopies : ∀ parts : List String,
      Copies ls (parts.map Value.string) (parts.map .string) := by
    intro parts
    induction parts with
    | nil => exact .nil
    | cons part parts ih => exact .leaf (.string part) ih
  refine Copies.equal (.list (Lists.index_lt_of_items hr' hparts)
    (Lists.index_lt_of_items hr hparts) ?_ .nil)
  rw [hr, hr']
  exact hcopies parts

namespace Registry

variable {hosts : List (String × HostFunction κ)} {libraries : List Library}

/-- The function `split` makes a list of the pieces. -/
private theorem concludes_split
    (howner : (ofLibraries hosts libraries).owner? "split" = some .string)
    (m : Machine κ) (s sep : String) :
    (ofLibraries hosts libraries).Concludes
      (·.apply (.builtin "split") [.string s, .string sep]) m
      (.ok (.list m.lists.next), m.withList ((Text.pieces s sep).map .string)) := by
  have hp : Primitive.binary "split" Primitive.split ∈
      (Library.string.primitives : List (Primitive κ)) := by
    simp [Library.primitives, Primitive.stringTable]
  refine concludes_primitive_ok hp howner rfl fun apply journal => ?_
  rw [Text.pieces, List.map_map]
  rfl

/-- The function `join` makes a string of the strings in a list. -/
private theorem concludes_join (howner : (ofLibraries hosts libraries).owner? "join" = some .string)
    {m : Machine κ} {r : ListRef} {parts : List String}
    (hparts : m.lists.items r = parts.map .string) (sep : String) :
    (ofLibraries hosts libraries).Concludes
      (·.apply (.builtin "join") [.list r, .string sep]) m
      (.ok (.string (sep.intercalate parts)), m.silent) := by
  have hp : Primitive.binary "join" Primitive.join ∈
      (Library.string.primitives : List (Primitive κ)) := by
    simp [Library.primitives, Primitive.stringTable]
  -- a string is shown as it is
  have htexts : (m.lists.items r).map (·.display m.lists) = parts := by
    rw [hparts, List.map_map]
    simp [Function.comp_def, Value.display, Value.textWithin]
  refine concludes_primitive_ok hp howner rfl fun apply journal => ?_
  rw [← htexts]
  rfl

/-- The function `contains?` searches the first string for the second. -/
private theorem concludes_contains
    (howner : (ofLibraries hosts libraries).owner? "contains?" = some .string) (m : Machine κ)
    (s part : String) :
    (ofLibraries hosts libraries).Concludes
      (·.apply (.builtin "contains?") [.string s, .string part]) m
      (.ok (.bool (Text.contains part.toList s.toList)), m.silent) := by
  have hp : (Primitive.onTwoStrings "contains?" fun s part => Text.contains part s) ∈
      (Library.string.primitives : List (Primitive κ)) := by
    simp [Library.primitives, Primitive.stringTable]
  exact concludes_primitive_ok hp howner rfl fun _ _ => rfl

/-- The functions `split` and `join` undo each other.  The pieces of a string joined with the
    separator are the string.  If the separator is not empty there is a piece, none of the pieces
    contains the separator, and there are several exactly if `contains?` finds it in the string.
    Strings without some character that are joined with it are the pieces at that character. -/
theorem split_join_inverse {reg : Registry κ} (hreg : reg = .ofLibraries hosts libraries)
    (hsplit : reg.owner? "split" = some .string) (hjoin : reg.owner? "join" = some .string)
    (hcontains : reg.owner? "contains?" = some .string) (m : Machine κ) :
    (∀ s sep : String, ∃ pieces,
      reg.Concludes (fun ev => do
          let list ← ev.apply (.builtin "split") [.string s, .string sep]
          ev.apply (.builtin "join") [list, .string sep]) m
        (.ok (.string s), m.withList pieces)) ∧
    (∀ s sep : String, sep ≠ "" → ∃ (r : ListRef) (pieces : List String) (m' : Machine κ)
        (found : Bool),
      reg.Concludes (·.apply (.builtin "split") [.string s, .string sep]) m (.ok (.list r), m') ∧
      m'.lists.items r = pieces.map .string ∧ pieces ≠ [] ∧
      (∀ piece ∈ pieces, ¬ sep.toList <:+: piece.toList) ∧
      reg.Concludes (·.apply (.builtin "contains?") [.string s, .string sep]) m
        (.ok (.bool found), m.silent) ∧
      (found = true ↔ sep.toList <:+: s.toList) ∧ (1 < pieces.length ↔ found = true)) ∧
    ∀ (r : ListRef) (parts : List String) (c : Char), m.lists.items r = parts.map .string →
      parts ≠ [] → (∀ part ∈ parts, c ∉ part.toList) → ∃ (r' : ListRef) (m' : Machine κ),
        reg.Concludes (fun ev => do
            let text ← ev.apply (.builtin "join") [.list r, .string (.singleton c)]
            ev.apply (.builtin "split") [text, .string (.singleton c)]) m (.ok (.list r'), m') ∧
          m'.lists.items r' = parts.map .string ∧
          (Value.list r').equal m'.lists (.list r) = true := by
  subst hreg
  have hreg := Simulation.registry_paired_untilExhausted hosts libraries
  refine ⟨fun s sep => ⟨(Text.pieces s sep).map .string, ?_⟩, fun s sep hsep => ?_,
    fun r parts c hr hparts hc => ?_⟩
  · -- the list of the pieces is the newest one, and it is joined as it is
    have hcut := concludes_split hsplit m s sep
    have hpieces := m.items_withList_next ((Text.pieces s sep).map .string)
    have hback := concludes_join hjoin hpieces sep
    rw [Text.intercalate_pieces] at hback
    exact (hcut.bind_iff (steady_apply hreg _ _) fun _ => steady_apply hreg _ _).2 hback
  · refine ⟨_, Text.pieces s sep, _, _, concludes_split hsplit m s sep, m.items_withList_next _,
      Text.pieces_ne_nil hsep, fun _ => Text.not_isInfix_of_mem_pieces hsep,
      concludes_contains hcontains m s sep, Text.contains_iff_isInfix, ?_⟩
    rw [Text.contains_iff_isInfix, Text.one_lt_length_pieces_iff hsep]
  · have htext := concludes_join hjoin hr (.singleton c)
    have hcut := concludes_split hsplit m.silent ((String.singleton c).intercalate parts)
      (.singleton c)
    rw [Text.pieces_intercalate hparts hc] at hcut
    have hnew := m.silent.items_withList_next (parts.map .string)
    refine ⟨_, _, (htext.bind_iff (steady_apply hreg _ _) fun _ => steady_apply hreg _ _).2 hcut,
      hnew, Value.equal_of_items_eq_strings hparts ?_ hnew⟩
    -- the strings themselves are still where they were
    exact (m.silent.items_withList_of_lt (Lists.index_lt_of_items hr hparts) _).trans hr

/-- Two separators overlap, and the pieces at a comma are empty at the start. -/
theorem split_join_inverse_overlapping :
    ∃ (reg : Registry Unit) (m : Machine Unit) (r : ListRef),
      reg = .ofLibraries [] Library.all ∧ reg.owner? "split" = some .string ∧
      reg.owner? "join" = some .string ∧ reg.owner? "contains?" = some .string ∧
      m.lists.items r = [.string "", .string "b"] ∧
      (∃ pieces, reg.Concludes (fun ev => do
          let list ← ev.apply (.builtin "split") [.string "aaa", .string "aa"]
          ev.apply (.builtin "join") [list, .string "aa"]) m
        (.ok (.string "aaa"), m.withList pieces)) ∧
      (∃ (r' : ListRef) (pieces : List String) (m' : Machine Unit),
        reg.Concludes (·.apply (.builtin "split") [.string "aaa", .string "aa"]) m
          (.ok (.list r'), m') ∧
        m'.lists.items r' = pieces.map .string ∧ 1 < pieces.length ∧
        ∀ piece ∈ pieces, ¬ "aa".toList <:+: piece.toList) ∧
      ∃ r' m', reg.Concludes (fun ev => do
            let text ← ev.apply (.builtin "join") [.list r, .string (.singleton ',')]
            ev.apply (.builtin "split") [text, .string (.singleton ',')]) m (.ok (.list r'), m') ∧
          m'.lists.items r' = [.string "", .string "b"] ∧
          (Value.list r').equal m'.lists (.list r) = true := by
  let reg : Registry Unit := .ofLibraries [] Library.all
  let m : Machine Unit := { context := (), lists := ⟨#[#[.string "", .string "b"]]⟩ }
  have hsplit : reg.owner? "split" = some .string := by rfl
  have hjoin : reg.owner? "join" = some .string := by rfl
  have hcontains : reg.owner? "contains?" = some .string := by rfl
  obtain ⟨hback, hpieces, hparts⟩ := split_join_inverse rfl hsplit hjoin hcontains m
  obtain ⟨r', pieces, m', found, hcut, hitems, -, hfree, -, hfound, hseveral⟩ :=
    hpieces "aaa" "aa" (by decide)
  have hinside : "aa".toList <:+: "aaa".toList := ⟨[], ['a'], rfl⟩
  refine ⟨reg, m, ⟨0⟩, rfl, hsplit, hjoin, hcontains, rfl, hback "aaa" "aa",
    ⟨r', pieces, m', hcut, hitems, hseveral.2 (hfound.2 hinside), hfree⟩, ?_⟩
  exact hparts ⟨0⟩ ["", "b"] ',' rfl (List.cons_ne_nil _ _) (by decide)

end Registry
end Lisplet
