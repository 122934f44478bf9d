import Lisplet.Proofs.Literals

/-! # The text of lists that contain themselves

Lists can contain themselves and each other, so a value that is unfolded, each list opened to show
its elements, may go on without end.  Its text is that of an unfolding that is cut: a list is left
closed, and written as dots, exactly where it stands inside itself.

The text goes into lists with a note of those that enclose the place it has come to.  Every list
that it opens is a new one, and there are only so many (`Value.unvisited_lt_of_opens`), so it comes
to an end.  Nothing else is noted: a list that has been written stands no longer among those that
enclose what follows, and is written again where it is met again.

* `Value.Opens`               the text of one value asks for that of another
* `Value.opening_induction`   induction along the text
* `Outline`                   values with lists opened, or left closed
* `Value.plainText`           the text with all lists written out
* `Value.text_unfolds`        which outline a text shows -/

namespace Lisplet

open Relation (TransGen)

variable {ls : Lists}

namespace Value

/-! ## Going into lists -/

/-- What the text of a list asks for: the texts of its elements, with the list itself now among
    those that enclose them. -/
inductive Opens (ls : Lists) : List ListRef × Value → List ListRef × Value → Prop where
  | element {enclosing : List ListRef} {r : ListRef} {x : Value} (hnew : r ∉ enclosing)
      (hmem : x ∈ ls.items r) : Opens ls (r :: enclosing, x) (enclosing, .list r)

/-- Every list that is opened is a new one, so that fewer are left to open. -/
theorem unvisited_lt_of_opens {p q : List ListRef × Value} (h : Opens ls p q) :
    unvisited ls.refs p.1 < unvisited ls.refs q.1 := by
  cases h with
  | element hnew hmem =>
    have hstored := Lists.index_lt_of_mem_cell (Array.mem_toList_iff.1 hmem)
    exact unvisited_cons_lt (Lists.mem_refs.2 hstored) hnew

/-- So opening lists comes to an end. -/
private theorem opens_wellFounded (ls : Lists) : WellFounded (Opens ls) :=
  Subrelation.wf unvisited_lt_of_opens
    (measure fun p : List ListRef × Value => unvisited ls.refs p.1).wf

/-- Induction along the text of a value: what holds of the elements of a list that is opened, with
    the list among those that enclose them, holds of the list. -/
theorem opening_induction (ls : Lists) {motive : List ListRef → Value → Prop}
    (leaf : ∀ enclosing v, (∀ r, v ≠ .list r) → motive enclosing v)
    (repeated : ∀ enclosing r, r ∈ enclosing → motive enclosing (.list r))
    (opened : ∀ enclosing r, r ∉ enclosing → (∀ x ∈ ls.items r, motive (r :: enclosing) x) →
      motive enclosing (.list r))
    (enclosing : List ListRef) (v : Value) : motive enclosing v := by
  -- the two arguments go together, since opening changes both
  suffices h : ∀ p : List ListRef × Value, motive p.1 p.2 from h (enclosing, v)
  intro p
  induction p using (opens_wellFounded ls).induction with
  | _ p ih =>
    obtain ⟨enclosing, v⟩ := p
    by_cases hlist : ∃ r, v = .list r
    · obtain ⟨r, rfl⟩ := hlist
      by_cases hr : r ∈ enclosing
      · exact repeated enclosing r hr
      · exact opened enclosing r hr fun x hx => ih (r :: enclosing, x) (.element hr hx)
    · exact leaf enclosing v fun r hr => hlist ⟨r, hr⟩

/-! ## One step of the text -/

/-- The text of a value that is no list. -/
def leafText (style : TextStyle) : Value → String
  | null => "null"
  | number x => numberText x
  | bool b => if b then "true" else "false"
  | string s => if style = .plain then s else "\"" ++ s ++ "\""
  | closure name _ => "#<function " ++ closureName name ++ ">"
  | builtin name => "#<builtin " ++ name ++ ">"
  | list _ => ""

/-- Texts in square brackets. -/
def bracketed (texts : List String) : String := "[" ++ " ".intercalate texts ++ "]"

/-- A value that is no list has one text wherever it stands. -/
private theorem textWithin_leaf {v : Value} (hv : ∀ r, v ≠ .list r) (enclosing : List ListRef)
    (style : TextStyle) : textWithin ls enclosing style v = v.leafText style := by
  cases v with
  | list r => exact absurd rfl (hv r)
  | string s => cases style <;> rw [textWithin] <;> rfl
  | _ => rw [textWithin]; rfl

/-- A list inside itself is written as dots. -/
private theorem textWithin_repeated {enclosing : List ListRef} {r : ListRef} (hr : r ∈ enclosing)
    (style : TextStyle) : textWithin ls enclosing style (.list r) = "[...]" := by
  rw [textWithin, dif_pos hr]

/-- Any other list is written with its elements, which are inside it. -/
private theorem textWithin_opened {enclosing : List ListRef} {r : ListRef} (hr : r ∉ enclosing)
    (style : TextStyle) : textWithin ls enclosing style (.list r) =
      bracketed ((ls.items r).map fun x => textWithin ls (r :: enclosing) .readable x) := by
  rw [textWithin, dif_neg hr]
  split
  · rfl
  · -- a list that does not exist reads as empty
    rename_i hstored
    rw [items_eq_nil hstored]
    rfl

end Value

/-! ## Outlines of values -/

/-- A value with its lists opened, save for some that are left closed. -/
inductive Outline where
  | leaf (v : Value)
  | opened (r : ListRef) (items : List Outline)
  | closed (r : ListRef)
deriving Inhabited

namespace Outline

/-- The outline is one of the value: it shows the value itself, and the elements of every list
    that it opens. -/
inductive Unfolds (ls : Lists) : Value → Outline → Prop where
  | leaf {v : Value} (hv : ∀ r, v ≠ .list r) : Unfolds ls v (.leaf v)
  | opened {r : ListRef} {items : List Outline}
      (hitems : List.Forall₂ (Unfolds ls) (ls.items r) items) :
      Unfolds ls (.list r) (.opened r items)
  | closed (r : ListRef) : Unfolds ls (.list r) (.closed r)

/-- A list is left closed exactly where it stands inside itself. -/
def ClosesRepeats (enclosing : List ListRef) : Outline → Prop
  | leaf _ => True
  | opened r items => r ∉ enclosing ∧ ∀ o ∈ items, o.ClosesRepeats (r :: enclosing)
  | closed r => r ∈ enclosing

/-- The text of an outline. -/
def text (style : TextStyle) : Outline → String
  | leaf v => v.leafText style
  | opened _ items => Value.bracketed (items.map fun o => o.text .readable)
  | closed _ => "[...]"

/-- Every value has an outline in which the lists that stand inside themselves are left closed, and
    its text is the text of that outline. -/
private theorem exists_unfolds (ls : Lists) (enclosing : List ListRef) (v : Value) :
    ∃ o, Unfolds ls v o ∧ o.ClosesRepeats enclosing ∧
      ∀ style, v.textWithin ls enclosing style = o.text style := by
  induction enclosing, v using Value.opening_induction ls with
  | leaf enclosing v hv =>
    refine ⟨.leaf v, .leaf hv, ?_, fun style => ?_⟩
    · rw [ClosesRepeats]
      trivial
    · rw [Value.textWithin_leaf hv, text]
  | repeated enclosing r hr =>
    refine ⟨.closed r, .closed r, ?_, fun style => ?_⟩
    · rwa [ClosesRepeats]
    · rw [Value.textWithin_repeated hr, text]
  | opened enclosing r hr ih =>
    -- one outline for each element
    choose! outline hunfolds hcloses htext using ih
    refine ⟨.opened r ((ls.items r).map outline), .opened ?_, ?_, fun style => ?_⟩
    · rw [List.forall₂_map_right_iff, List.forall₂_same]
      exact hunfolds
    · rw [ClosesRepeats]
      exact ⟨hr, List.forall_mem_map.2 hcloses⟩
    · rw [Value.textWithin_opened hr, text, List.map_map]
      congr 1
      exact List.map_congr_left fun x hx => htext x hx .readable

/-- A value that is no list has one outline. -/
private theorem Unfolds.eq_leaf {v : Value} {o : Outline} (h : Unfolds ls v o)
    (hv : ∀ r, v ≠ .list r) : o = .leaf v := by
  cases h with
  | leaf => rfl
  | opened => exact absurd rfl (hv _)
  | closed => exact absurd rfl (hv _)

/-- So does a list that is inside itself. -/
private theorem Unfolds.eq_closed {enclosing : List ListRef} {r : ListRef} {o : Outline}
    (h : Unfolds ls (.list r) o) (hcloses : o.ClosesRepeats enclosing) (hr : r ∈ enclosing) :
    o = .closed r := by
  cases h with
  | leaf hv => exact absurd rfl (hv r)
  | opened =>
    rw [ClosesRepeats] at hcloses
    exact absurd hr hcloses.1
  | closed => rfl

/-- A list that is not inside itself is opened, and so are its elements in turn. -/
private theorem Unfolds.exists_opened {enclosing : List ListRef} {r : ListRef} {o : Outline}
    (h : Unfolds ls (.list r) o) (hcloses : o.ClosesRepeats enclosing) (hr : r ∉ enclosing) :
    ∃ items, o = .opened r items ∧ List.Forall₂ (fun x i => x ∈ ls.items r ∧ Unfolds ls x i ∧
      i.ClosesRepeats (r :: enclosing)) (ls.items r) items := by
  cases h with
  | leaf hv => exact absurd rfl (hv r)
  | @opened _ items hitems =>
    rw [ClosesRepeats] at hcloses
    obtain ⟨hlen, hpairs⟩ := List.forall₂_iff_zip.1 hitems
    refine ⟨items, rfl, List.forall₂_iff_zip.2 ⟨hlen, fun hpair => ?_⟩⟩
    have hmem := List.of_mem_zip hpair
    exact ⟨hmem.1, hpairs hpair, hcloses.2 _ hmem.2⟩
  | closed =>
    rw [ClosesRepeats] at hcloses
    exact absurd hcloses hr

/-- There is only one such outline. -/
theorem Unfolds.unique {enclosing : List ListRef} {v : Value} {o o' : Outline}
    (h : Unfolds ls v o) (hcloses : o.ClosesRepeats enclosing) (h' : Unfolds ls v o')
    (hcloses' : o'.ClosesRepeats enclosing) : o = o' := by
  induction enclosing, v using Value.opening_induction ls generalizing o o' with
  | leaf enclosing v hv => rw [h.eq_leaf hv, h'.eq_leaf hv]
  | repeated enclosing r hr => rw [h.eq_closed hcloses hr, h'.eq_closed hcloses' hr]
  | opened enclosing r hr ih =>
    obtain ⟨items, rfl, hitems⟩ := h.exists_opened hcloses hr
    obtain ⟨items', rfl, hitems'⟩ := h'.exists_opened hcloses' hr
    have hunique : Relator.RightUnique fun x i => x ∈ ls.items r ∧ Unfolds ls x i ∧
        i.ClosesRepeats (r :: enclosing) := by
      rintro x i i' ⟨hx, hi, hci⟩ ⟨-, hi', hci'⟩
      exact ih x hx hi hci hi' hci'
    -- both lists of outlines go with the same elements, one by one
    rw [List.right_unique_forall₂' hunique hitems hitems']

end Outline

namespace Value

/-! ## All lists written out -/

/-- Going into the lists of the value comes to an end everywhere. -/
def Founded (ls : Lists) (v : Value) : Prop := Acc (fun x w => Holds ls w x) v

/-- The elements of a list lie deeper than the list. -/
private theorem Founded.of_mem {r : ListRef} {x : Value} (h : Founded ls (.list r))
    (hx : x ∈ ls.items r) : Founded ls x :=
  Acc.inv h (.element hx)

/-- A value that is no list is an end. -/
private theorem founded_leaf {v : Value} (hv : ∀ r, v ≠ .list r) : Founded ls v := by
  refine ⟨v, fun x hx => ?_⟩
  cases hx with
  | element => exact absurd rfl (hv _)

/-- A list is as deep as its elements are. -/
private theorem founded_list {r : ListRef} (h : ∀ x ∈ ls.items r, Founded ls x) :
    Founded ls (.list r) := by
  refine ⟨_, fun x hx => ?_⟩
  cases hx with
  | element hmem => exact h x hmem

instance : WellFoundedRelation { v // Founded ls v } := Acc.wfRel

/-- The text of a value with all lists written out. -/
def plainText (ls : Lists) (style : TextStyle) (v : Value) (h : Founded ls v) : String :=
  match v with
  | .list r =>
    bracketed ((ls.items r).attach.map fun x => plainText ls .readable x.1 (h.of_mem x.2))
  | v => v.leafText style
termination_by Subtype.mk v h
decreasing_by exact .element x.2

/-- A value that is no list has one text, all lists written out or not. -/
private theorem plainText_leaf {v : Value} (hv : ∀ r, v ≠ .list r) (style : TextStyle)
    (h : Founded ls v) : plainText ls style v h = v.leafText style := by
  rw [plainText]
  exact fun r _ hr _ => hv r hr

/-- Where no list is inside itself, all lists are written out.  The value is reached from all lists
    that enclose it, so that none of them is met again. -/
private theorem exists_textWithin_eq_plainText {enclosing : List ListRef} {v : Value}
    (hacyclic : ∀ r, Reaches ls v (.list r) → ¬TransGen (Holds ls) (.list r) (.list r))
    (henclosing : ∀ r ∈ enclosing, TransGen (Holds ls) (.list r) v) :
    ∃ h : Founded ls v, ∀ style, textWithin ls enclosing style v = plainText ls style v h := by
  induction enclosing, v using opening_induction ls with
  | leaf enclosing v hv =>
    refine ⟨founded_leaf hv, fun style => ?_⟩
    rw [textWithin_leaf hv, plainText_leaf hv]
  | repeated enclosing r hr => exact absurd (henclosing r hr) (hacyclic r .refl)
  | opened enclosing r hr ih =>
    have helements : ∀ x ∈ ls.items r, ∃ h : Founded ls x, ∀ style,
        textWithin ls (r :: enclosing) style x = plainText ls style x h := by
      intro x hx
      have hholds : Holds ls (.list r) x := .element hx
      apply ih x hx
      · exact fun s hs => hacyclic s (.of_holds hholds hs)
      · -- the list itself has come to enclose its elements
        intro s hs
        obtain rfl | hs := List.mem_cons.1 hs
        · exact .single hholds
        · exact (henclosing s hs).tail hholds
    refine ⟨founded_list fun x hx => (helements x hx).1, fun style => ?_⟩
    -- with both texts opened, the elements have the same texts
    rw [textWithin_opened hr, plainText, ← List.attach_map_val]
    congr 1
    apply List.map_congr_left
    intro x _
    exact (helements x.1 x.2).2 .readable

/-- Writing a value always ends.  Its text is that of its one outline in which a list is left closed
    exactly where it stands inside itself, and if no list does, all lists are written out. -/
theorem text_unfolds (ls : Lists) (v : Value) :
    WellFounded (Opens ls) ∧
    (∃ o, (∀ o', Outline.Unfolds ls v o' ∧ o'.ClosesRepeats [] ↔ o' = o) ∧
      ∀ style, textWithin ls [] style v = o.text style) ∧
    ((∀ r, Reaches ls v (.list r) → ¬TransGen (Holds ls) (.list r) (.list r)) →
      ∃ h : Founded ls v, ∀ style, textWithin ls [] style v = plainText ls style v h) := by
  refine ⟨opens_wellFounded ls, ?_, ?_⟩
  · obtain ⟨o, hunfolds, hcloses, htext⟩ := Outline.exists_unfolds ls [] v
    refine ⟨o, fun o' => ⟨?_, ?_⟩, htext⟩
    · rintro ⟨hunfolds', hcloses'⟩
      exact hunfolds'.unique hcloses' hunfolds hcloses
    · rintro rfl
      exact ⟨hunfolds, hcloses⟩
  · intro hacyclic
    exact exists_textWithin_eq_plainText hacyclic fun r hr => absurd hr List.not_mem_nil

/-- A list that holds another one twice is written out, and so is the other, both times. -/
theorem text_unfolds_shared :
    (∀ r, Reaches ⟨#[#[.string "a b"], #[.list ⟨0⟩, .null, .list ⟨0⟩]]⟩ (.list ⟨1⟩) (.list r) →
      ¬TransGen (Holds ⟨#[#[.string "a b"], #[.list ⟨0⟩, .null, .list ⟨0⟩]]⟩) (.list r) (.list r)) ∧
    ∃ h, ∀ style,
      textWithin ⟨#[#[.string "a b"], #[.list ⟨0⟩, .null, .list ⟨0⟩]]⟩ [] style (.list ⟨1⟩) =
        plainText ⟨#[#[.string "a b"], #[.list ⟨0⟩, .null, .list ⟨0⟩]]⟩ style (.list ⟨1⟩) h := by
  generalize hls : Lists.mk #[#[.string "a b"], #[.list ⟨0⟩, .null, .list ⟨0⟩]] = ls
  -- every list holds older lists only
  have holder : ∀ {r v}, v ∈ ls.items r → rank v ≤ r.index := by
    rintro ⟨i⟩ v hv
    subst hls
    rcases i with _ | _ | i
    · obtain rfl : v = .string "a b" := by simpa [Lists.items, Lists.cell] using hv
      exact Nat.zero_le _
    · obtain rfl | rfl | rfl : v = .list ⟨0⟩ ∨ v = .null ∨ v = .list ⟨0⟩ := by
        simpa [Lists.items, Lists.cell] using hv
      · exact Nat.le_refl _
      · exact Nat.zero_le _
      · exact Nat.le_refl _
    · cases hv
  have hacyclic : ∀ r, Reaches ls (.list ⟨1⟩) (.list r) →
      ¬TransGen (Holds ls) (.list r) (.list r) :=
    fun r _ hcycle => Nat.lt_irrefl _ (rank_lt_of_transGen holder hcycle)
  exact ⟨hacyclic, (text_unfolds ls (.list ⟨1⟩)).2.2 hacyclic⟩

/-- Two lists that hold each other.  The one that stands inside itself is left closed, and the one
    that stands in two places is written twice. -/
example : textWithin ⟨#[#[.list ⟨1⟩, .list ⟨1⟩], #[.null, .list ⟨0⟩]]⟩ [] .plain (.list ⟨0⟩) =
    "[[null [...]] [null [...]]]" := by
  cbv

end Value
end Lisplet
