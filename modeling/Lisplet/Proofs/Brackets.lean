import Lisplet.Proofs.Numerals
import Lisplet.Proofs.Unfinished

/-! # Brackets decide what can be read

Whether a text can be read, and what is wrong with it if not, is decided by its brackets alone.
`Bracket.pass` goes over them with nothing but a stack of those that are open, and stops at the
first one that is misplaced.

The reader could also be written without a stack, as functions that call themselves for every
bracket that is opened (`Expr.descend`).  Then the brackets that are open are those whose calls have
not returned yet: a call for one of them does to the rest of the text what a reader does that has it
on top of its levels (`Reader.outcome_eq_inside`), and an error leaves all calls at once.

* `Bracket.pass`                   goes over the brackets
* `Expr.first`, `Expr.inside`      read one expression, and those inside a bracket
* `Reader.map_outcome_eq_pass`     a reader fails as the pass does
* `Reader.outcome_eq_descend`      a reader reads what descending reads
* `Expr.parse_first_violation`     the first misplaced bracket is reported -/

namespace Lisplet

/-! ## Going over the brackets -/

namespace Bracket

/-- Goes over the tokens from left to right, with the brackets that are open, innermost first.  The
    first bracket that closes nothing, or not what is open, is the error.  If there is none, it is
    an error that brackets are open at the end. -/
def pass : List Bracket → List Token → Except ReadError Unit
  | [], [] => .ok ()
  | _ :: _, [] => .error .unexpectedEnd
  | opened, .opening b :: ts => pass (b :: opened) ts
  | [], .closing c :: _ => .error (.unexpectedToken (.closing c))
  | b :: opened, .closing c :: ts =>
    if b = c then pass opened ts else .error (.mismatchedDelimiter b c)
  | opened, .string _ :: ts => pass opened ts
  | opened, .word _ :: ts => pass opened ts

/-- Words are not looked at. -/
private theorem pass_ne_malformedNumber (opened : List Bracket) (ts : List Token) (word : String) :
    pass opened ts ≠ .error (.malformedNumber word) := by
  fun_induction pass opened ts with
  | case1 => exact nofun
  | case2 => exact nofun
  | case3 opened b ts ih => exact ih
  | case4 => exact nofun
  | case5 opened c ts ih => exact ih
  | case6 => exact nofun
  | case7 opened s ts ih => exact ih
  | case8 opened w ts ih => exact ih

end Bracket

namespace Reader

/-- What is read if the text ends behind the tokens. -/
def outcome (r : Reader) (ts : List Token) : Except ReadError (List Expr) := do
  (← ts.foldlM feed r).finish

/-- One token comes first. -/
private theorem outcome_cons (r : Reader) (t : Token) (ts : List Token) :
    r.outcome (t :: ts) = (r.feed t).bind fun r' => r'.outcome ts := by
  unfold outcome
  rw [List.foldlM_cons]
  cases r.feed t <;> rfl

/-- A reader fails as its brackets decide, and only then. -/
theorem map_outcome_eq_pass (r : Reader) (ts : List Token) :
    (r.outcome ts).map (fun _ => ()) = Bracket.pass r.brackets ts := by
  induction ts generalizing r with
  | nil =>
    obtain ⟨levels, forms⟩ := r
    cases levels <;> rfl
  | cons t ts ih =>
    rw [outcome_cons]
    cases t with
    | opening b =>
      rw [Bracket.pass]
      exact ih ⟨⟨b, []⟩ :: r.levels, r.forms⟩
    | string s =>
      show ((r.add (.string s)).outcome ts).map _ = _
      rw [ih, brackets_add, Bracket.pass]
    | word w =>
      -- every word is an expression, so a word never fails
      obtain ⟨e, he⟩ := Expr.exists_ofWord_eq w
      simp only [feed, he]
      show ((r.add e).outcome ts).map _ = _
      rw [ih, brackets_add, Bracket.pass]
    | closing c =>
      obtain ⟨levels, forms⟩ := r
      cases levels with
      -- nothing is open, so the bracket is refused by both
      | nil => rfl
      | cons top levels =>
        show _ = Bracket.pass (top.bracket :: levels.map Level.bracket) (.closing c :: ts)
        rw [Bracket.pass]
        simp only [feed]
        split
        · -- what is enclosed goes to the level below, which opens and closes nothing
          show ((add ⟨levels, forms⟩ _).outcome ts).map _ = _
          rw [ih, brackets_add]
          rfl
        · rfl

end Reader

/-! ## Reading by descent -/

namespace Expr

mutual

/-- Reads the first expression of the tokens, and says which tokens stand behind it. -/
def first (ts : List Token) :
    Except ReadError (Expr × { rest : List Token // rest.length < ts.length }) :=
  match ts with
  | [] => .error .unexpectedEnd
  | .opening b :: ts => do
    let (items, rest) ← inside b ts
    return (enclosed b items, ⟨rest.1, Nat.lt_succ_of_lt rest.2⟩)
  | .closing c :: _ => .error (.unexpectedToken (.closing c))
  | .string s :: ts => return (.string s, ⟨ts, Nat.lt_succ_self _⟩)
  | .word w :: ts => do return (← ofWord w, ⟨ts, Nat.lt_succ_self _⟩)
termination_by (ts.length, 0)

/-- Reads the expressions up to the bracket that closes `b`. -/
def inside (b : Bracket) (ts : List Token) :
    Except ReadError (List Expr × { rest : List Token // rest.length < ts.length }) :=
  match ts with
  | [] => .error .unexpectedEnd
  | .closing c :: ts =>
    if b = c then return ([], ⟨ts, Nat.lt_succ_self _⟩) else .error (.mismatchedDelimiter b c)
  | t :: ts => do
    let (e, rest) ← first (t :: ts)
    let (es, rest') ← inside b rest.1
    return (e :: es, ⟨rest'.1, Nat.lt_trans rest'.2 rest.2⟩)
termination_by (ts.length, 1)
decreasing_by
  · exact .right _ (by decide)
  · exact .left _ _ rest.2

end

/-- Reads the tokens one expression after the other. -/
def descend (ts : List Token) : Except ReadError (List Expr) :=
  match ts with
  | [] => return []
  | t :: ts => do
    let (e, rest) ← first (t :: ts)
    return e :: (← descend rest.1)
termination_by ts.length
decreasing_by exact rest.2

end Expr

namespace Reader

mutual

/-- A reader takes up the first expression of the tokens and goes on behind it.  A bracket that
    closes would be no first expression, unless nothing is open. -/
private theorem outcome_eq_first (r : Reader) (ts : List Token) (hne : ts ≠ [])
    (hclosing : ∀ c us, ts = .closing c :: us → r.levels = []) :
    r.outcome ts = (Expr.first ts).bind fun p => (r.add p.1).outcome p.2.1 := by
  match ts with
  | [] => exact absurd rfl hne
  | .opening b :: ts =>
    show outcome ⟨⟨b, []⟩ :: r.levels, r.forms⟩ ts = _
    rw [outcome_eq_inside b [] r.levels r.forms ts, Expr.first]
    cases Expr.inside b ts <;> rfl
  | .closing c :: ts =>
    obtain ⟨levels, forms⟩ := r
    cases hclosing c ts rfl
    rw [Expr.first]
    rfl
  | .string s :: ts =>
    rw [Expr.first]
    rfl
  | .word w :: ts =>
    rw [outcome_cons, Expr.first]
    simp only [feed]
    cases Expr.ofWord w <;> rfl
termination_by (ts.length, 0)

/-- A reader inside a bracket takes up what the bracket encloses and goes on behind it. -/
theorem outcome_eq_inside (b : Bracket) (items : List Expr) (levels : List Level)
    (forms : List Expr) (ts : List Token) :
    outcome ⟨⟨b, items⟩ :: levels, forms⟩ ts = (Expr.inside b ts).bind fun p =>
      (add ⟨levels, forms⟩ (.enclosed b (items.reverse ++ p.1))).outcome p.2.1 := by
  match ts with
  | [] =>
    rw [Expr.inside]
    rfl
  | t :: ts =>
    by_cases ht : ∃ c, t = .closing c
    · obtain ⟨c, rfl⟩ := ht
      rw [outcome_cons, Expr.inside]
      by_cases hc : b = c
      · subst hc
        simp only [feed, if_true]
        show outcome _ ts = outcome (add _ (.enclosed b (items.reverse ++ []))) ts
        rw [List.append_nil]
      · simp only [feed, if_neg hc]
        rfl
    · have hopen : ∀ c, t ≠ .closing c := fun c hc => ht ⟨c, hc⟩
      rw [outcome_eq_first _ (t :: ts) nofun fun c us heq => absurd (List.cons.inj heq).1 (hopen c),
        Expr.inside]
      · cases Expr.first (t :: ts) with
        | error e => rfl
        | ok p =>
          -- the first expression is added at the level of the bracket, the others follow it
          obtain ⟨e, rest, hrest⟩ := p
          show outcome ⟨⟨b, e :: items⟩ :: levels, forms⟩ rest = _
          rw [outcome_eq_inside b (e :: items) levels forms rest]
          simp only [bind, Except.bind]
          cases Expr.inside b rest with
          | error e' => rfl
          | ok p' =>
            show outcome (add _ (.enclosed b ((e :: items).reverse ++ p'.1))) _ =
              outcome (add _ (.enclosed b (items.reverse ++ e :: p'.1))) _
            rw [List.reverse_cons, List.append_assoc]
            rfl
      · exact hopen
termination_by (ts.length, 1)

end

/-- Outside all brackets, a reader takes up one expression after the other. -/
theorem outcome_eq_descend (forms : List Expr) (ts : List Token) :
    outcome ⟨[], forms⟩ ts = (Expr.descend ts).map fun es => forms.reverse ++ es := by
  fun_induction Expr.descend ts generalizing forms with
  | case1 =>
    show Except.ok forms.reverse = Except.ok (forms.reverse ++ [])
    rw [List.append_nil]
  | case2 t ts ih =>
    rw [outcome_eq_first ⟨[], forms⟩ (t :: ts) (List.cons_ne_nil t ts) fun _ _ _ => rfl]
    cases Expr.first (t :: ts) with
    | error e => rfl
    | ok p =>
      obtain ⟨e, rest⟩ := p
      show outcome ⟨[], e :: forms⟩ rest.1 = _
      rw [ih rest]
      simp only [bind, Except.bind]
      cases Expr.descend rest.1 with
      | error e' => rfl
      | ok es =>
        show Except.ok ((e :: forms).reverse ++ es) = Except.ok (forms.reverse ++ e :: es)
        rw [List.reverse_cons, List.append_assoc]
        rfl

end Reader

namespace Expr

/-- The first misplaced bracket of a text is reported: reading fails as going over the brackets
    does, also if it is done by descent, and never because of a number. -/
theorem parse_first_violation (source : String) :
    (parse source).map (fun _ => ()) = Bracket.pass [] (Token.scan source) ∧
    parse source = descend (Token.scan source) ∧
    ∀ word, parse source ≠ .error (.malformedNumber word) := by
  have hpass : (parse source).map (fun _ => ()) = Bracket.pass [] (Token.scan source) :=
    Reader.map_outcome_eq_pass {} (Token.scan source)
  have hdescend : parse source = (descend (Token.scan source)).map fun es => [] ++ es :=
    Reader.outcome_eq_descend [] (Token.scan source)
  refine ⟨hpass, ?_, ?_⟩
  · rw [hdescend]
    cases descend (Token.scan source) <;> rfl
  · intro word hword
    rw [hword] at hpass
    exact Bracket.pass_ne_malformedNumber [] (Token.scan source) word hpass.symm

/-- The bracket that closes too much comes after one that closes the wrong bracket. -/
example : parse "(f [1 \")\") 2]] \x7d" = .error (.mismatchedDelimiter .square .round) := rfl

end Expr
end Lisplet
