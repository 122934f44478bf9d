import Lisplet.Proofs.LibraryCalls
import Lisplet.Proofs.Literals
import Lisplet.Proofs.Numerals

/-! # Two readers of numerals

A numeral is read as a number in two places: as a word of a program, and as a string that the
function `parse-number` is given.  Only the second of them trims white space and accepts plain
numbers as well.  On numerals the two agree, since a numeral has no white space of its own: it is
one word, and it is what trimming leaves of it and white space around it.

* `Text.trim_padded`                   trimming drops white space on both sides and nothing else
* `Numeral.Parts.parse_eq`             a numeral as a program
* `Registry.concludes_parseNumber`     a numeral as an argument
* `Registry.numerals_read_exactly`     both come to the number that the parts stand for -/

namespace Lisplet

variable {κ : Type}

/-! ## White space -/

namespace Text

/-- A digit is no white space. -/
private theorem isBlank_of_isDigit {c : Char} (h : c.isDigit = true) : isBlank c = false := by
  simp only [Char.isDigit, Bool.and_eq_true, decide_eq_true_eq, ge_iff_le,
    UInt32.le_iff_toNat_le] at h
  have hlow : 48 ≤ c.toNat := h.1
  have hhigh : c.toNat ≤ 57 := h.2
  simp only [isBlank, Bool.or_eq_false_iff, Bool.and_eq_false_iff, decide_eq_false_iff_not,
    beq_eq_false_iff_ne]
  omega

/-- White space in front is dropped as far as it goes. -/
private theorem dropWhile_isBlank_append {front cs : List Char}
    (hfront : ∀ c ∈ front, isBlank c = true) (hne : cs ≠ []) (hcs : ∀ c ∈ cs, isBlank c = false)
    (back : List Char) : (front ++ (cs ++ back)).dropWhile isBlank = cs ++ back := by
  obtain ⟨c, rest, rfl⟩ := List.exists_cons_of_ne_nil hne
  have hc : ¬ isBlank c = true := by simp [hcs c List.mem_cons_self]
  rw [List.dropWhile_append_of_pos hfront, List.cons_append, List.dropWhile_cons_of_neg hc]

/-- Trimming drops white space on both sides and nothing else. -/
theorem trim_padded {front cs back : List Char} (hfront : ∀ c ∈ front, isBlank c = true)
    (hback : ∀ c ∈ back, isBlank c = true) (hne : cs ≠ [])
    (hcs : ∀ c ∈ cs, isBlank c = false) : trim (front ++ (cs ++ back)) = cs := by
  -- seen from behind, the white space at the end stands in front
  have hlast : (back.reverse ++ (cs.reverse ++ [])).dropWhile isBlank = cs.reverse ++ [] :=
    dropWhile_isBlank_append (by simpa using hback) (by simpa using hne) (by simpa using hcs) []
  rw [List.append_nil] at hlast
  rw [trim, dropWhile_isBlank_append hfront hne hcs, List.reverse_append, hlast,
    List.reverse_reverse]

end Text

/-! ## The characters of a numeral -/

namespace Numeral.Parts

private theorem chars_ne_nil (p : Parts) : p.chars ≠ [] := by
  simp [chars, p.first.ne_nil]

/-- A numeral has digits, signs, hyphens and a dot, and nothing else. -/
private theorem mem_chars {p : Parts} {c : Char} (h : c ∈ p.chars) :
    c.isDigit = true ∨ c ∈ ['+', '-', '.'] := by
  obtain ⟨sign, first, more, fraction⟩ := p
  simp only [chars, List.mem_append, List.mem_flatMap] at h
  -- the parts, from front to back
  obtain hsign | hfirst | ⟨ds, -, hgroup⟩ | hfraction := h
  · right
    cases sign with
    | none => cases hsign
    | some sign =>
      cases List.mem_singleton.1 hsign
      cases sign <;> decide
  · exact .inl (first.isDigit c hfirst)
  · obtain rfl | hc := List.mem_cons.1 hgroup
    · exact .inr (by decide)
    · exact .inl (ds.isDigit c hc)
  · cases fraction with
    | none => cases hfraction
    | some ds =>
      obtain rfl | hc := List.mem_cons.1 hfraction
      · exact .inr (by decide)
      · exact .inl (ds.isDigit c hc)

/-- A numeral has no white space in it. -/
private theorem isBlank_of_mem_chars {p : Parts} {c : Char} (h : c ∈ p.chars) :
    Text.isBlank c = false := by
  have hmarks : ∀ d ∈ ['+', '-', '.'], Text.isBlank d = false := by simp [Text.isBlank]
  obtain hdigit | hmark := mem_chars h
  · exact Text.isBlank_of_isDigit hdigit
  · exact hmarks c hmark

/-- Nothing in a numeral ends a word. -/
private theorem not_mem_separators_of_mem_chars {p : Parts} {c : Char} (h : c ∈ p.chars) :
    c ∉ Lexer.separators := by
  have hmarks : ∀ d ∈ ['+', '-', '.'], d ∉ Lexer.separators := by simp [Lexer.separators]
  obtain hdigit | hmark := mem_chars h
  · exact Lexer.not_mem_separators_of_isDigit hdigit
  · exact hmarks c hmark

/-! ## The two readers -/

variable {p : Parts} {t : String} (h : p.chars = t.toList)
include h

/-- A numeral is one word, and the expression is its number. -/
theorem parse_eq : Expr.parse t = .ok [.number p.value] := by
  have hword : Lexer.Emits t [.word t] := by
    apply Lexer.emits_word
    · exact h ▸ p.chars_ne_nil
    · exact fun c hc => not_mem_separators_of_mem_chars (h ▸ hc)
  rw [Expr.parse, hword.scan_eq]
  apply Expr.ofTokens_of_renderings
  exact .word (Expr.ofWord_eq_ok_iff.1 (Expr.ofWord_of_chars_eq h)) .nil

/-- A numeral with white space around it is read as its number. -/
private theorem numberOfText?_eq {front back : List Char}
    (hfront : ∀ c ∈ front, Text.isBlank c = true) (hback : ∀ c ∈ back, Text.isBlank c = true) :
    Primitive.numberOfText? (front ++ (t.toList ++ back)) = some p.value := by
  have htrim := Text.trim_padded hfront hback p.chars_ne_nil fun _ => isBlank_of_mem_chars
  rw [Primitive.numberOfText?, ← h, htrim, if_pos p.isNumeral_chars, p.normalize_chars,
    p.plain?_chars_merged]

end Numeral.Parts

/-- The function `parse-number` is one of the number library. -/
private theorem Library.parseNumber_mem : Primitive.unary "parse-number" Primitive.parseNumber ∈
    (number.primitives : List (Primitive κ)) := by
  simp [primitives, Primitive.numberTable]

namespace Registry

open Numeral (Parts isNumeral normalize)

section ParseNumber

variable {hosts : List (String × HostFunction κ)} {libraries : List Library}
  (howner : (ofLibraries hosts libraries).owner? "parse-number" = some .number) {s : String}
  {x : Float} (hs : Primitive.numberOfText? s.toList = some x)
include howner hs

/-- The function `parse-number` returns the number that it reads. -/
theorem concludes_parseNumber (m : Machine κ) :
    (ofLibraries hosts libraries).Concludes (·.apply (.builtin "parse-number") [.string s]) m
      (.ok (.number x), m.silent) := by
  refine concludes_primitive_ok Library.parseNumber_mem howner rfl fun apply journal => ?_
  show (Primitive.parseNumber (.string s)).outcome _ = _
  have hnumber : ((Primitive.numberOfText? s.toList).map Value.number).getD .null = .number x := by
    rw [hs]
    rfl
  rw [← hnumber]
  rfl

/-- The argument may be any expression that has the string as its value. -/
private theorem concludes_eval_parseNumber {scope : FrameRef} {m m' : Machine κ} {d : Expr}
    (hunbound : m.scopes.get? scope "parse-number" = none)
    (hd : (ofLibraries hosts libraries).Concludes (·.eval d scope) m (.ok (.string s), m')) :
    (ofLibraries hosts libraries).Concludes
      (·.eval (.call [.identifier "parse-number", d]) scope) m (.ok (.number x), m') := by
  have hreg := Simulation.registry_paired_untilExhausted hosts libraries
  have hm' : m'.silent = m' := hd.silent_eq
  have hargs : (ofLibraries hosts libraries).Concludes (·.sequence [d] scope) m
      (.ok [.string s], m') :=
    (concludes_sequence_cons_iff hreg).2
      ⟨_, m', [], rfl, hd, concludes_sequence_nil_iff.2 ⟨rfl, hm'.symm⟩⟩
  have hcall := concludes_parseNumber howner hs m'
  rw [hm'] at hcall
  refine (concludes_eval_primitive_iff Library.parseNumber_mem howner rfl rfl hunbound [d] _).2 ?_
  exact (hargs.bind_iff (steady_sequence hreg _ scope) fun _ => steady_apply hreg _ _).2 hcall

end ParseNumber

/-- Numerals are recognized, normalized and read exactly.  A text is a numeral if and only if it is
    written from the parts of one: maybe a sign, groups of digits with single hyphens between them,
    and maybe a dot with more digits.  Normalizing keeps the first character and drops every hyphen
    behind it, and doing so again changes nothing.

    The normal form of a numeral has one group and is a numeral itself.  As a program, or as a word
    anywhere in one, the numeral is the number that its parts stand for, and `parse-number` has the
    same number for a string of the numeral with any white space around it. -/
theorem numerals_read_exactly (hosts : List (String × HostFunction κ)) (libraries : List Library)
    (t : String) :
    let reg : Registry κ := .ofLibraries hosts libraries
    (isNumeral t.toList = true ↔ ∃ p : Parts, p.chars = t.toList) ∧
    normalize t.toList = t.toList.take 1 ++ (t.toList.drop 1).filter (· != '-') ∧
    normalize (normalize t.toList) = normalize t.toList ∧
    ∀ p : Parts, p.chars = t.toList →
      (∃ plain : Parts, plain.more = [] ∧ plain.chars = normalize t.toList) ∧
      isNumeral (normalize t.toList) = true ∧
      Expr.parse t = .ok [.number p.value] ∧
      (∀ r : Reader, r.feed (.word t) = .ok (r.add (.number p.value))) ∧
      (reg.owner? "parse-number" = some .number →
        ∀ (scope : FrameRef) (m m' : Machine κ) (d : Expr) (before after : String),
          m.scopes.get? scope "parse-number" = none →
          (∀ c ∈ before.toList ++ after.toList, Text.isBlank c = true) →
          reg.Concludes (·.eval d scope) m (.ok (.string (before ++ t ++ after)), m') →
          reg.Concludes (·.eval (.call [.identifier "parse-number", d]) scope) m
            (.ok (.number p.value), m')) := by
  intro reg
  refine ⟨Numeral.isNumeral_iff_exists_parts, Numeral.normalize_eq _,
    Numeral.normalize_normalize _, fun p hp => ?_⟩
  -- the normal form is the numeral of the merged parts
  have hnormal : normalize t.toList = p.merged.chars := hp ▸ p.normalize_chars
  refine ⟨⟨p.merged, rfl, hnormal.symm⟩, hnormal ▸ p.merged.isNumeral_chars, Parts.parse_eq hp,
    fun r => ?_, fun howner scope m m' d before after hunbound hblank hd => ?_⟩
  · rw [Reader.feed, Expr.ofWord_of_chars_eq hp]
    rfl
  · -- the white space goes, and the numeral between is read as it is in a program
    obtain ⟨hbefore, hafter⟩ := List.forall_mem_append.1 hblank
    have hnumber := Numeral.Parts.numberOfText?_eq hp hbefore hafter
    have htext : before.toList ++ (t.toList ++ after.toList) = (before ++ t ++ after).toList := by
      simp [String.toList_append]
    rw [htext] at hnumber
    exact concludes_eval_parseNumber howner hnumber hunbound hd

/-- A numeral with a sign, two groups and a fraction, between a no-break space and a tab. -/
theorem numerals_read_exactly_grouped :
    ∃ (reg : Registry Unit) (m : Machine Unit) (p : Parts),
      reg = .ofLibraries [] Library.all ∧ reg.owner? "parse-number" = some .number ∧
      m.scopes.get? Scopes.root "parse-number" = none ∧ p.chars = "-1-000.5".toList ∧
      isNumeral "-1-000.5".toList = true ∧
      normalize "-1-000.5".toList = "-1000.5".toList ∧
      p.value.toBits = 0xC08F440000000000 ∧
      Expr.parse "-1-000.5" = .ok [.number p.value] ∧
      reg.Concludes (·.eval (.call [.identifier "parse-number", .string "\u00a0-1-000.5\t"])
        Scopes.root) m (.ok (.number p.value), m) := by
  let reg : Registry Unit := .ofLibraries [] Library.all
  let m : Machine Unit := { context := () }
  let p : Parts := ⟨some .minus, ⟨['1'], by simp, by simp⟩, [⟨['0', '0', '0'], by simp, by simp⟩],
    some ⟨['5'], by simp, by simp⟩⟩
  have howner : reg.owner? "parse-number" = some .number := by rfl
  have hunbound : m.scopes.get? Scopes.root "parse-number" = none := rfl
  have hchars : p.chars = "-1-000.5".toList := rfl
  have hargument : reg.Concludes (·.eval (.string "\u00a0-1-000.5\t") Scopes.root) m
      (.ok (.string ("\u00a0" ++ "-1-000.5" ++ "\t")), m) := ⟨nofun, 1, rfl⟩
  obtain ⟨hnumeral, -, -, hread⟩ :=
    numerals_read_exactly ([] : List (String × HostFunction Unit)) Library.all "-1-000.5"
  obtain ⟨-, -, hparse, -, hcall⟩ := hread p hchars
  exact ⟨reg, m, p, rfl, howner, hunbound, hchars, hnumeral.2 ⟨p, hchars⟩, rfl, by decide +kernel,
    hparse,
    hcall howner Scopes.root m m _ "\u00a0" "\t" hunbound (by simp [Text.isBlank]) hargument⟩

end Registry
end Lisplet
