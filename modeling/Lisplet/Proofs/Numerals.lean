import Lisplet.Proofs.NumberText

/-! # Numerals and their numbers

The language of numerals, said without a recognizer.  A numeral is made of parts (`Numeral.Parts`),
and what a part may be is said by its type: a group of digits is never empty, and there is always a
first group.

Normalizing a numeral puts its groups into one.  So the normal form is the numeral of the merged
parts, and what is known of all numerals holds of it: it is a numeral itself, and normalizing it
again changes nothing.  It is a plain number too, so no numeral is malformed and every word can be
read.

* `Numeral.Parts.chars`                  the numeral that has given parts
* `Numeral.Parts.value`                  the number that it stands for
* `Numeral.isNumeral_iff_exists_parts`   the recognizer accepts what has parts and nothing else
* `Numeral.Parts.normalize_chars`        normalizing merges the groups
* `Numeral.Parts.plain?_chars_merged`    the merged numeral is read as the number -/

namespace Lisplet

namespace Numeral

open Decimal (dotted)

/-! ## The language -/

/-- One or more ASCII digits. -/
structure Digits where
  chars : List Char
  ne_nil : chars ≠ []
  isDigit : ∀ c ∈ chars, c.isDigit = true

/-- What may stand in front of the digits. -/
inductive Sign where
  | plus
  | minus
deriving DecidableEq

def Sign.char : Sign → Char
  | plus => '+'
  | minus => '-'

/-- The parts of a numeral: maybe a sign, one or more groups of digits, and maybe digits behind a
    dot. -/
structure Parts where
  sign : Option Sign
  first : Digits
  /-- The other groups, each of which has a hyphen in front of it. -/
  more : List Digits
  fraction : Option Digits

/-- A sign as it is written, if there is one. -/
def signChars (sign : Option Sign) : List Char := (sign.map Sign.char).toList

/-- A dot and the digits behind it, if there are any. -/
def fractionChars : Option Digits → List Char
  | none => []
  | some ds => '.' :: ds.chars

namespace Parts

/-- The numeral as it is written. -/
def chars (p : Parts) : List Char :=
  signChars p.sign ++
    (p.first.chars ++ (p.more.flatMap (fun ds => '-' :: ds.chars) ++ fractionChars p.fraction))

/-- The digits of all groups. -/
def whole (p : Parts) : Digits where
  chars := p.first.chars ++ p.more.flatMap Digits.chars
  ne_nil := List.append_ne_nil_of_left_ne_nil p.first.ne_nil _
  isDigit := by
    intro c hc
    rw [List.mem_append, List.mem_flatMap] at hc
    obtain hc | ⟨ds, -, hc⟩ := hc
    · exact p.first.isDigit c hc
    · exact ds.isDigit c hc

/-- The parts with all groups in one. -/
def merged (p : Parts) : Parts := { p with first := p.whole, more := [] }

/-- The digits behind the dot. -/
def places (p : Parts) : List Char := (p.fraction.map Digits.chars).getD []

/-- The double closest to the number that the digits stand for. -/
def value (p : Parts) : Float :=
  Decimal.toDouble (decide (p.sign = some .minus))
    ⟨Nat.ofDigitChars 10 (p.whole.chars ++ p.places) 0, -p.places.length⟩

end Parts

/-- A group of digits has a first one. -/
private theorem Digits.exists_cons (ds : Digits) :
    ∃ c rest, ds.chars = c :: rest ∧ c.isDigit = true ∧
    ∀ d ∈ rest, d.isDigit = true := by
  obtain ⟨c, rest, heq⟩ := List.exists_cons_of_ne_nil ds.ne_nil
  exact ⟨c, rest, heq, List.forall_mem_cons.1 (heq ▸ ds.isDigit)⟩

/-! ## The recognizer -/

/-- A fraction may follow a digit, and so may nothing. -/
private theorem afterDigit_fractionChars (fraction : Option Digits) :
    afterDigit (fractionChars fraction) = true := by
  cases fraction with
  | none => rfl
  | some ds =>
    obtain ⟨c, rest, heq, hc, hrest⟩ := ds.exists_cons
    simpa [fractionChars, heq, afterDigit, hc] using hrest

/-- Groups may follow a digit if each has its hyphen. -/
private theorem afterDigit_groups (groups : List Digits) {rest : List Char}
    (hrest : afterDigit rest = true) :
    afterDigit (groups.flatMap (fun ds => '-' :: ds.chars) ++ rest) = true := by
  induction groups with
  | nil => exact hrest
  | cons ds groups ih =>
    obtain ⟨c, tail, heq, hc, htail⟩ := ds.exists_cons
    simp only [List.flatMap_cons, heq, List.cons_append, List.append_assoc, afterDigit, hc,
      Bool.true_and, afterDigit_append htail]
    exact ih

/-- A sign is told apart from the digits behind it. -/
private theorem takeSign_signChars (sign : Option Sign) {c : Char} (hc : c.isDigit = true)
    (rest : List Char) :
    takeSign (signChars sign ++ c :: rest) = (decide (sign = some .minus), c :: rest) := by
  match sign with
  | some .plus => rfl
  | some .minus => rfl
  | none => exact takeSign_signed false hc rest

/-- What has parts is accepted. -/
theorem Parts.isNumeral_chars (p : Parts) : isNumeral p.chars = true := by
  obtain ⟨c, rest, heq, hc, hrest⟩ := p.first.exists_cons
  rw [isNumeral, chars, heq, List.cons_append, takeSign_signChars p.sign hc]
  -- behind the sign there is a digit, and behind it the rest of its group, the others and the
  -- fraction
  show (c.isDigit && _) = true
  rw [hc, Bool.true_and, afterDigit_append hrest]
  exact afterDigit_groups p.more (afterDigit_fractionChars p.fraction)

/-- A digit and what may follow it are groups of digits and maybe a fraction. -/
private theorem exists_groups_of_afterDigit {cs : List Char} (h : afterDigit cs = true) {c : Char}
    (hc : c.isDigit = true) : ∃ (first : Digits) (more : List Digits) (fraction : Option Digits),
      c :: cs = first.chars ++
        (more.flatMap (fun ds => '-' :: ds.chars) ++ fractionChars fraction) := by
  let single : Digits := ⟨[c], List.cons_ne_nil c [], by simpa using hc⟩
  fun_induction afterDigit cs generalizing c with
  | case1 => exact ⟨single, [], none, rfl⟩
  | case2 d rest ih =>
    -- the hyphen ends the group of `c`, and `d` begins the next one
    rw [Bool.and_eq_true] at h
    obtain ⟨next, more, fraction, heq⟩ := ih h.2 h.1
    refine ⟨single, next :: more, fraction, ?_⟩
    rw [heq]
    simp [single]
  | case3 d rest =>
    -- the dot ends the last group
    rw [Bool.and_eq_true, List.all_eq_true] at h
    let places : Digits := ⟨d :: rest, List.cons_ne_nil d rest, List.forall_mem_cons.2 h⟩
    exact ⟨single, [], some places, rfl⟩
  | case4 d rest _ _ ih =>
    -- `c` joins the group of `d`
    rw [Bool.and_eq_true] at h
    obtain ⟨group, more, fraction, heq⟩ := ih h.2 h.1
    refine ⟨⟨c :: group.chars, List.cons_ne_nil c _, List.forall_mem_cons.2 ⟨hc, group.isDigit⟩⟩,
      more, fraction, ?_⟩
    rw [heq, List.cons_append]

/-- A sign that is taken off can be put back. -/
private theorem exists_signChars_append (cs : List Char) :
    ∃ sign, cs = signChars sign ++ (takeSign cs).2 := by
  unfold takeSign
  split
  · exact ⟨some .plus, rfl⟩
  · exact ⟨some .minus, rfl⟩
  · exact ⟨none, rfl⟩

/-- The recognizer accepts exactly what has the parts of a numeral. -/
theorem isNumeral_iff_exists_parts {cs : List Char} :
    isNumeral cs = true ↔ ∃ p : Parts, p.chars = cs := by
  constructor
  · intro h
    obtain ⟨sign, hsign⟩ := exists_signChars_append cs
    unfold isNumeral at h
    split at h
    · rename_i c rest heq
      rw [Bool.and_eq_true] at h
      obtain ⟨first, more, fraction, hgroups⟩ := exists_groups_of_afterDigit h.2 h.1
      refine ⟨⟨sign, first, more, fraction⟩, ?_⟩
      rw [hsign, heq, hgroups, Parts.chars]
    · cases h
  · rintro ⟨p, rfl⟩
    exact p.isNumeral_chars

/-! ## The normal form -/

/-- The first character stays, and behind it every hyphen goes. -/
theorem normalize_eq (cs : List Char) :
    normalize cs = cs.take 1 ++ (cs.drop 1).filter (· != '-') := by
  cases cs with
  | nil => rfl
  | cons c rest => exact normalize_cons c rest

/-- Normalizing once is enough. -/
theorem normalize_normalize (cs : List Char) : normalize (normalize cs) = normalize cs := by
  cases cs with
  | nil => rfl
  | cons c rest => simp [normalize_cons]

/-- A group of digits has no hyphens. -/
private theorem Digits.filter_chars (ds : Digits) : ds.chars.filter (· != '-') = ds.chars :=
  List.filter_eq_self.2 fun c hc => bne_iff_ne.2 (ne_of_isDigit (ds.isDigit c hc) rfl)

/-- Nor has a fraction. -/
private theorem filter_fractionChars (fraction : Option Digits) :
    (fractionChars fraction).filter (· != '-') = fractionChars fraction := by
  cases fraction with
  | none => rfl
  | some ds => simp [fractionChars, ds.filter_chars]

/-- A hyphen in front of the digits is a sign and stays. -/
private theorem normalize_signChars (sign : Option Sign) {c : Char} (hc : c.isDigit = true)
    (rest : List Char) :
    normalize (signChars sign ++ c :: rest) =
      signChars sign ++ (c :: rest).filter (· != '-') := by
  cases sign with
  | none =>
    show normalize (c :: rest) = _
    rw [normalize_cons, filter_cons_of_isDigit hc]
    rfl
  | some sign => exact normalize_cons sign.char (c :: rest)

/-- Normalizing puts all groups into one. -/
theorem Parts.normalize_chars (p : Parts) : normalize p.chars = p.merged.chars := by
  obtain ⟨c, rest, heq, hc, -⟩ := p.first.exists_cons
  have hgroup (ds : Digits) : ('-' :: ds.chars).filter (· != '-') = ds.chars := by
    rw [List.filter_cons_of_neg (by decide), ds.filter_chars]
  rw [chars, heq, List.cons_append, normalize_signChars p.sign hc, ← List.cons_append, ← heq]
  simp [chars, merged, whole, List.filter_append, List.filter_flatMap, hgroup, Digits.filter_chars,
    filter_fractionChars]

/-! ## The number -/

/-- A number with a sign is read as a decimal with that sign. -/
private theorem plain?_signChars (sign : Option Sign) {c : Char} (hc : c.isDigit = true)
    (rest : List Char) :
    plain? (signChars sign ++ c :: rest) =
      (decimal? (c :: rest)).map (·.toDouble (decide (sign = some .minus))) := by
  -- a plus is the only sign that is read as if it were not there
  have hsign : takeSign (signChars sign ++ c :: rest) =
      takeSign (signed (decide (sign = some .minus)) (c :: rest)) := by
    rw [takeSign_signChars sign hc, takeSign_signed _ hc]
  rw [← plain?_signed _ hc, plain?, hsign, plain?]

/-- A fraction is a dot and its places, or nothing. -/
private theorem Parts.dotted_places (p : Parts) (cs : List Char) :
    dotted cs p.places = cs ++ fractionChars p.fraction := by
  unfold dotted places
  cases p.fraction with
  | none => simp [fractionChars]
  | some ds => simp [fractionChars, ds.ne_nil]

/-- The places are digits. -/
private theorem Parts.isDigit_of_mem_places {p : Parts} {c : Char} (h : c ∈ p.places) :
    c.isDigit = true := by
  unfold places at h
  cases hfraction : p.fraction with
  | none => simp [hfraction] at h
  | some ds => exact ds.isDigit c (by simpa [hfraction] using h)

/-- The merged numeral is a plain number. -/
theorem Parts.plain?_chars_merged (p : Parts) : plain? p.merged.chars = some p.value := by
  obtain ⟨c, rest, heq, hc, -⟩ := p.whole.exists_cons
  have hdigits : ∀ d ∈ p.whole.chars ++ p.places, d.isDigit = true := by
    intro d hd
    obtain hd | hd := List.mem_append.1 hd
    · exact p.whole.isDigit d hd
    · exact isDigit_of_mem_places hd
  have hdecimal := decimal?_dotted p.whole.ne_nil hdigits
  -- a sign, and then the digits with their dot
  have hchars : p.merged.chars = signChars p.sign ++ c :: (rest ++ fractionChars p.fraction) := by
    simp [chars, merged, heq]
  rw [hchars, plain?_signChars p.sign hc, ← List.cons_append, ← heq, ← dotted_places, hdecimal,
    ofDigits_eq, zero_sub]
  rfl

end Numeral

namespace Expr

open Numeral (Parts)

/-- A numeral is read as its number. -/
theorem ofWord_of_chars_eq {word : String} {p : Parts} (h : p.chars = word.toList) :
    ofWord word = .ok (.number p.value) := by
  rw [ofWord, ← h, if_pos p.isNumeral_chars, p.normalize_chars, p.plain?_chars_merged]

/-- Every word is an expression. -/
theorem exists_ofWord_eq (word : String) : ∃ e, ofWord word = .ok e := by
  by_cases hnumeral : Numeral.isNumeral word.toList = true
  · obtain ⟨p, hp⟩ := Numeral.isNumeral_iff_exists_parts.1 hnumeral
    exact ⟨_, ofWord_of_chars_eq hp⟩
  · rw [ofWord, if_neg hnumeral]
    split
    · exact ⟨_, rfl⟩
    · split
      · exact ⟨_, rfl⟩
      · split <;> exact ⟨_, rfl⟩

end Expr
end Lisplet
