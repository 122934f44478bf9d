import Lisplet.Proofs.ByteOffsets
import Lisplet.Proofs.Doubles
import Lisplet.Proofs.Effects
import Lisplet.Proofs.Evaluation
import Lisplet.Proofs.Ownership

/-! # Safe accesses

Primitives, special forms and closures look at their arguments by position, and trust the arity
that was checked before.  An evaluation that looks for something that is not there fails with
`Error.missingArgument`; it is `Supplied` if it never does.

Where an access could also go wrong in silence, it is compared with one that cannot:
`Primitive.sliceWithin` computes its bounds in machine arithmetic, where a sum can overflow, and
takes a range that has to lie within the list.  `Session.runWithin` reads the text in place, where
tokens and digits are cut out by offsets that have to lie between characters.

* `Slice.resolveWord?_eq`        bounds in machine arithmetic are the bounds that are meant
* `Primitive.sliceWithin_eq`     so the range of a slice lies within the list
* `Primitive.ends_setNth`        an element is replaced only where there is one
* `Session.runWithin_eq`         reading in place makes no difference
* `accesses_safe`                nothing that is looked for is ever missing -/

namespace Lisplet

variable {κ : Type}

/-! ## Bounds in machine arithmetic -/

/-- The smaller machine integer is the smaller integer. -/
private theorem toInt_min_int64 (a b : Int64) : (min a b).toInt = min a.toInt b.toInt := by
  show (if a ≤ b then a else b).toInt = _
  split <;> rename_i h <;> rw [Int64.le_iff_toInt_le] at h <;> omega

/-- So is the greater one. -/
private theorem toInt_max_int64 (a b : Int64) : (max a b).toInt = max a.toInt b.toInt := by
  show (if a ≤ b then b else a).toInt = _
  split <;> rename_i h <;> rw [Int64.le_iff_toInt_le] at h <;> omega

namespace Slice

/-- The sum of two machine integers, if it does not overflow. -/
def sum? (a b : Int64) : Option Int64 :=
  if a.toBitVec.saddOverflow b.toBitVec then none else some (a + b)

/-- `clamp` in machine arithmetic. -/
def clampWord (bound length : Int64) : Nat := (min (max bound 0) length).toNatClampNeg

/-- `resolve` in machine arithmetic, if nothing overflows. -/
def resolveWord? (bound length : Int64) : Option Nat := do
  let position ← if bound < 0 then sum? length bound else some bound
  return clampWord position length

/-- The elements from position `start` up to, but not including, position `stop`, if these are
    positions of the sequence, in this order. -/
def range? {α : Type} (start stop : Nat) (xs : List α) : Option (List α) :=
  if start ≤ stop ∧ stop ≤ xs.length then some ((xs.take stop).drop start) else none

/-- A clamped bound is a position of the sequence. -/
theorem clamp_le (i : Int) (length : Nat) : clamp i length ≤ length := Nat.min_le_right ..

/-- So is a resolved one. -/
private theorem resolve_le (i : Int) (length : Nat) : resolve i length ≤ length := clamp_le ..

/-- A sum within the limits is the sum that is meant. -/
theorem sum?_eq {a b : Int64} (hlow : -2 ^ 63 ≤ a.toInt + b.toInt)
    (hhigh : a.toInt + b.toInt < 2 ^ 63) :
    sum? a b = some (a + b) ∧ (a + b).toInt = a.toInt + b.toInt := by
  have hfits : ¬ a.toBitVec.saddOverflow b.toBitVec = true := by
    simp only [BitVec.saddOverflow, Bool.or_eq_true, decide_eq_true_eq, Int64.toInt_toBitVec]
    omega
  refine ⟨if_neg hfits, ?_⟩
  simpa only [← Int64.toInt_toBitVec, Int64.toBitVec_add] using
    BitVec.toInt_add_of_not_saddOverflow hfits

/-- A clamped bound is the one that is meant. -/
private theorem clampWord_eq (bound : Int64) {length : Nat} (h : length < 2 ^ 63) :
    clampWord bound (.ofNat length) = clamp bound.toInt length := by
  have hlength : (Int64.ofNat length).toInt = length := Int64.toInt_ofNat_of_lt h
  rw [clampWord, clamp, ← Int64.toNat_toInt, toInt_min_int64, toInt_max_int64, hlength,
    Int64.toInt_zero]
  omega

/-- A negative bound is added to a length, so the sum lies between the two. -/
theorem resolveWord?_eq (bound : Int64) {length : Nat} (h : length < 2 ^ 63) :
    resolveWord? bound (.ofNat length) = some (resolve bound.toInt length) := by
  have hlength : (Int64.ofNat length).toInt = length := Int64.toInt_ofNat_of_lt h
  have hlow := bound.le_toInt
  unfold resolveWord? resolve
  by_cases hneg : bound < 0
  · have hbound : bound.toInt < 0 := Int64.lt_iff_toInt_lt.1 hneg
    obtain ⟨hsum, hexact⟩ : sum? (.ofNat length) bound = some (.ofNat length + bound) ∧
        (.ofNat length + bound).toInt = (Int64.ofNat length).toInt + bound.toInt :=
      sum?_eq (by omega) (by omega)
    simp only [if_pos hneg, if_pos hbound, hsum, Option.bind_eq_bind, Option.bind_some,
      clampWord_eq _ h, hexact, hlength, Option.pure_def]
  · have hbound : ¬ bound.toInt < 0 := fun hlt => hneg (Int64.lt_iff_toInt_lt.2 hlt)
    simp only [if_neg hneg, if_neg hbound, Option.bind_eq_bind, Option.bind_some,
      clampWord_eq _ h, Option.pure_def]

/-- Two positions of a sequence, whatever their order, bound a range of it. -/
private theorem range?_eq {α : Type} {start stop : Nat} {xs : List α} (hstop : stop ≤ xs.length) :
    (if start < stop then range? start stop xs else some []) = some (between start stop xs) := by
  unfold range? between
  by_cases hlt : start < stop
  · rw [if_pos hlt, if_pos ⟨Nat.le_of_lt hlt, hstop⟩, List.drop_take]
  · rw [if_neg hlt, Nat.sub_eq_zero_of_le (Nat.le_of_not_lt hlt), List.take_zero]

end Slice

/-- Whatever a double stands for, its integer fits in 64 bits. -/
private theorem Double.limits_of_toInt? {x : Float} {i : Int} (h : toInt? x = some i) :
    minInt ≤ i ∧ i ≤ maxInt := by
  obtain ⟨j, -, rfl⟩ := Option.map_eq_some_iff.1 h
  have hlimits : minInt ≤ maxInt := by decide
  omega

/-- The integer of a number is that of its double. -/
theorem Value.asInteger_of_toInt? {x : Float} {i : Int} (h : Double.toInt? x = some i) :
    (Value.number x).asInteger = .ok i := by
  simp only [asInteger, asNumber, bind, Except.bind, h]

/-- The integer of a value is a machine integer. -/
private theorem Value.toInt_of_asInteger {v : Value} {i : Int} (h : v.asInteger = .ok i) :
    (Int64.ofInt i).toInt = i := by
  have hlimits : Double.minInt ≤ i ∧ i ≤ Double.maxInt := by
    -- only a number has an integer, and it was limited when it was converted
    match v, h with
    | .number x, h =>
      simp only [asInteger, asNumber, bind, Except.bind] at h
      split at h
      · cases h
        exact Double.limits_of_toInt? ‹_›
      · cases h
  rw [Double.minInt, Double.maxInt, Double.signBit_eq] at hlimits
  exact Int64.toInt_ofInt_of_le (by omega) (by omega)

/-! ## Primitives that check more -/

namespace Eval

/-- What an evaluation needs, and fails without. -/
def demand {α : Type} : Option α → Eval κ α
  | some a => pure a
  | none => fail .missingArgument

/-- After a question, it matters only what follows on the same machine. -/
theorem Asks.bind_congr {α β : Type} {x : Eval κ β} {m : Machine κ} {P : β → Prop}
    {f g : β → Eval κ α} (hx : x.Asks m P) (h : ∀ b, P b → f b m = g b m) :
    (x >>= f) m = (x >>= g) m := by
  show EStateM.bind x f m = EStateM.bind x g m
  unfold Asks Ends at hx
  unfold EStateM.bind
  cases hxm : x m with
  | error u m' => rfl
  | ok b m' =>
    rw [hxm] at hx
    obtain ⟨rfl, hb⟩ := hx
    exact h b hb

end Eval

namespace Primitive

open Eval

/-- A bound of a slice, in machine arithmetic. -/
def boundWithin (length : Nat) (v : Value) : Eval κ Nat := do
  demand (Slice.resolveWord? (.ofInt (← expect v.asInteger)) (.ofNat length))

/-- `slice` with its bounds in machine arithmetic and a range that has to lie within the list. -/
def sliceWithin (list start : Value) (stop : Option Value) : Eval κ Value := do
  let xs ← itemsOf list
  let start ← boundWithin xs.length start
  let stop ← match stop with
    | some stop => boundWithin xs.length stop
    | none => pure xs.length
  newList (← demand (if start < stop then Slice.range? start stop xs else some []))

/-- A bound of a slice is the one that is meant. -/
private theorem boundWithin_eq {length : Nat} (h : length < 2 ^ 63) (v : Value) :
    (boundWithin length v : Eval κ Nat) =
      expect v.asInteger >>= fun i => pure (Slice.resolve i length) := by
  unfold boundWithin
  cases hv : v.asInteger with
  | error cause => rfl
  | ok i =>
    -- the integer of a value is a machine integer, so nothing was cut off
    have hbound := Slice.resolveWord?_eq (.ofInt i) h
    rw [Value.toInt_of_asInteger hv] at hbound
    show demand (Slice.resolveWord? (.ofInt i) (.ofNat length)) = pure (Slice.resolve i length)
    rw [hbound]
    rfl

/-- `parseNumber` with the digits of a numeral cut out by their offset. -/
def parseNumberWithin (v : Value) : Eval κ Value := do
  let cs := Text.trim (← expect v.asString).toList
  let cs ← demand (if Numeral.isNumeral cs then Numeral.normalizeWithin cs else some cs)
  return ((Numeral.plain? cs).map Value.number).getD .null

/-- No number is looked for in the wrong place of a text. -/
private theorem parseNumberWithin_eq (v : Value) :
    (parseNumberWithin v : Eval κ Value) = parseNumber v := by
  refine bind_congr fun s => ?_
  simp only [numberOfText?, Numeral.normalizeWithin_eq]
  split <;> rfl

/-- A slice of a list that has fewer than `2 ^ 63` elements does not overflow and does not leave
    the list. -/
theorem sliceWithin_eq {m : Machine κ} (h : ∀ r, (m.lists.items r).length < 2 ^ 63)
    (list start : Value) (stop : Option Value) :
    sliceWithin list start stop m = slice list start stop m := by
  refine (itemsOf_asks list).bind_congr ?_
  rintro xs ⟨r, -, rfl⟩
  -- a bound is a position of the list, so no range asks for more than there is
  have hrange : ∀ start stop, stop ≤ (m.lists.items r).length →
      (demand (if start < stop then Slice.range? start stop (m.lists.items r) else some []) >>=
        newList : Eval κ Value) = newList (Slice.between start stop (m.lists.items r)) := by
    intro start stop hstop
    rw [Slice.range?_eq hstop]
    rfl
  simp only [boundWithin_eq (h r), bind_assoc, pure_bind]
  refine (asks_expect _).bind_congr fun i _ => ?_
  cases stop with
  | none => exact congrFun (hrange _ _ (Nat.le_refl _)) m
  | some stop =>
    refine (asks_expect _).bind_congr fun j _ => ?_
    exact congrFun (hrange _ _ (Slice.resolve_le ..)) m

/-- An element is replaced only where there is one. -/
theorem ends_setNth (list index v : Value) (m : Machine κ) :
    (setNth list index v : Eval κ Value).Ends m
      (fun _ m' => ∃ (r : ListRef) (k : Nat), list = .list r ∧ index.asInteger = .ok (k : Int) ∧
        k < (m.lists.cell r).size ∧ (m'.lists.cell r)[k]? = some v) fun _ m' => m' = m := by
  refine (asks_expect _).bind fun r hr => (asks_expect _).bind fun i hi => ?_
  refine (asks_cell r).bind ?_
  rintro _ rfl
  refine (checkIndex_asks i _).bind ?_
  rintro k ⟨rfl, hk⟩
  -- a list with an element is stored, so the change is made where the list is read
  have hstored : r.index < m.lists.size := Lists.index_lt_of_mem_cell (Array.getElem_mem hk)
  refine ⟨r, k, eq_of_asList hr, hi, hk, ?_⟩
  show ((m.lists.modify r (·.setIfInBounds k v)).cell r)[k]? = some v
  rw [Lists.cell_modify_self hstored, Array.getElem?_setIfInBounds_self_of_lt hk]

end Primitive

/-! ## Evaluations that never look for what is missing -/

namespace Eval

variable {α β : Type} {x : Eval κ α} {P : FrameRef → Prop} {S : Signal → Prop}

/-- Everything that the evaluation looks for is there. -/
def Supplied (x : Eval κ α) : Prop := ∀ m m', x m ≠ .error (.failure .missingArgument) m'

/-- An argument that is missing is not among the failures that the rules of confinement let out. -/
private theorem Confined.supplied (h : x.Confined P (Unwind.Unpinned S)) : x.Supplied := by
  intro m m' hx
  obtain hsettled | ⟨cause, hcause⟩ := h.exit hx
  · exact hsettled
  · cases hcause

/-- The same without causes that have yet to be named. -/
private theorem Confined.supplied_of_settled (h : x.Confined P (Unwind.Settled S)) : x.Supplied :=
  (h.imp_exit fun _ hu => hu.unpinned).supplied

/-- Neither step looks for what is missing. -/
theorem Supplied.bind {y : Eval κ β} {f : β → Eval κ α} (hy : y.Supplied)
    (hf : ∀ b, (f b).Supplied) : (y >>= f).Supplied := by
  intro m m' h
  change EStateM.bind y f m = _ at h
  unfold EStateM.bind at h
  split at h
  · exact hf _ _ _ h
  · rename_i hym
    cases h
    exact hy _ _ hym

/-- A record looks for nothing. -/
private theorem record_supplied (level : Level) (message : Machine κ → String) :
    (record level message).Supplied := by
  intro m m' h
  cases h

/-- A text that cannot be read is reported as such. -/
private theorem read_supplied (source : String) : (read source : Eval κ (List Expr)).Supplied := by
  refine (record_supplied _ _).bind fun _ => ?_
  split
  · intro m m' h
    cases h
  · refine (record_supplied _ _).bind fun _ => ?_
    intro m m' h
    cases h

end Eval

/-! ## Sessions -/

/-- Reads a text as `read` does, with everything cut out of it by offsets. -/
def Eval.readWithin (source : String) : Eval κ (List Expr) := do
  let tokens ← demand (Token.scanWithin source)
  record .trace fun _ => "tokenized " ++ toString tokens.length ++ " tokens"
  match ← demand (Expr.ofTokensWithin tokens).run with
  | .error cause => fail (.unreadable cause)
  | .ok forms =>
    record .debug fun _ => "parsed " ++ toString forms.length ++ " top-level forms"
    return forms

/-- A text is read in place as it is read otherwise. -/
private theorem Eval.readWithin_eq {source : String} (h : source.utf8ByteSize < 2 ^ 63) :
    (readWithin source : Eval κ (List Expr)) = read source := by
  simp only [readWithin, Token.scanWithin_eq (Nat.lt_trans h (by decide)), Expr.ofTokensWithin_eq]
  rfl

/-- Runs a text as `run` does, and reads it in place. -/
def Evaluator.runWithin (ev : Evaluator κ) (source : String) : Eval κ Value := do
  let forms ← Eval.readWithin source
  Eval.record .debug fun _ =>
    "running " ++ toString forms.length ++ " top-level expressions"
  ev.body forms Scopes.root

/-- A program never looks for what is missing. -/
private theorem Evaluator.run_supplied {ev : Evaluator κ} (h : ev.Lawful) (source : String) :
    (ev.run source).Supplied := by
  refine (Eval.read_supplied source).bind fun forms => (Eval.record_supplied _ _).bind fun _ => ?_
  -- every frame may gain names and every signal may get out: only the failures matter
  have hbody : (ev.body forms Scopes.root).Confined (fun _ => True)
      (Unwind.Settled fun _ => True) :=
    body_confined fun e _ => h.confined trivial fun _ _ => trivial
  exact hbody.supplied_of_settled

namespace Session

/-- Runs a source text as `run` does, and reads it in place. -/
def runWithin (s : Session κ) (source : String) : Except Error Value × Session κ :=
  let (outcome, s) := s.perform (s.evaluator.runWithin source)
  (outcome.mapError Unwind.toError, s)

/-- A text that has fewer than `2 ^ 63` bytes is read in place without leaving it. -/
theorem runWithin_eq (s : Session κ) {source : String} (h : source.utf8ByteSize < 2 ^ 63) :
    s.runWithin source = s.run source := by
  rw [runWithin, run, Evaluator.runWithin, Eval.readWithin_eq h, Evaluator.run]

/-- The functions there are stay the same from text to text. -/
private theorem registry_runAll (s : Session κ) (sources : List String) :
    (s.runAll sources).registry = s.registry := by
  induction sources generalizing s with
  | nil => rfl
  | cons source sources ih => exact (ih _).trans (registry_run s source)

/-- No text comes to look for something that is missing. -/
private theorem run_ne_missingArgument {s : Session κ} (h : s.registry.Lawful) (source : String) :
    (s.run source).1 ≠ .error .missingArgument := by
  have hrun := Evaluator.run_supplied (Evaluator.withFuel_lawful h s.fuel) source s.machine
  intro houtcome
  simp only [run, perform] at houtcome
  split at houtcome
  · cases houtcome
  · rename_i u m' hu
    -- a stray signal is reported as one, and a failure as it is
    cases u with
    | signal signal => cases houtcome
    | failure e =>
      cases houtcome
      exact hrun m' hu

end Session

open Evaluator

/-- Nothing that is looked for is ever missing, once arities have been checked: no primitive and no
    special form that is given a number of arguments that it accepts looks for another one, and
    a closure has one argument for each of its parameters.  An element is replaced only where there
    is one.  The range of a slice lies within its list, and bounds that are computed in machine
    arithmetic do not overflow, for all machine integers, which include the integers of all values.
    Tokens and the digits of numerals can be cut out of a text by their offsets: no cut falls inside
    a character or outside of the text, and no sum of offsets overflows.  So no text that is run in
    a session comes to look for something that is missing, nor does it when it is read in place. -/
theorem accesses_safe (hostFunctions : List (String × HostFunction κ)) (libraries : List Library)
    (fuel : Nat) :
    (∀ l : Library, ∀ p ∈ l.primitives, ∀ args : List Value,
      p.arity.contains args.length = true →
        (p.run (withFuel (.ofLibraries hostFunctions libraries) fuel).apply args).Supplied) ∧
    (∀ (k : Keyword) (parts : List Expr) (steps : Nat) (scope : FrameRef),
      k.arity.contains parts.length = true →
        (Form.run (withFuel (.ofLibraries hostFunctions libraries) fuel) steps scope k
          parts).Supplied) ∧
    (∀ (name : Option String) (c : Closure) (args : List Value),
      (callClosure (withFuel (.ofLibraries hostFunctions libraries) fuel) name c args).Supplied ∧
        (c.parameters.arity.contains args.length = true →
          c.parameters.names.length = args.length)) ∧
    (∀ (list index v w : Value) (m m' : Machine κ),
      Primitive.setNth list index v m = .ok w m' →
        ∃ (r : ListRef) (k : Nat), list = .list r ∧ index.asInteger = .ok (k : Int) ∧
          k < (m.lists.cell r).size ∧ (m'.lists.cell r)[k]? = some v) ∧
    (∀ (list start : Value) (stop : Option Value) (m : Machine κ),
      (∀ r, (m.lists.items r).length < 2 ^ 63) →
        Primitive.sliceWithin list start stop m = Primitive.slice list start stop m) ∧
    (∀ (bound : Int64) (length : Nat), length < 2 ^ 63 →
      Slice.resolveWord? bound (.ofNat length) = some (Slice.resolve bound.toInt length) ∧
        Slice.clampWord bound (.ofNat length) = Slice.clamp bound.toInt length) ∧
    (∀ (v : Value) (i : Int), v.asInteger = .ok i → ∃ bound : Int64, bound.toInt = i) ∧
    (∀ source : String, source.utf8ByteSize < 2 ^ 63 →
      Token.scanWithin source = some (Token.scan source)) ∧
    (∀ cs : List Char, Numeral.normalizeWithin cs = some (Numeral.normalize cs)) ∧
    (∀ v : Value, (Primitive.parseNumberWithin v : Eval κ Value) = Primitive.parseNumber v) ∧
    ∀ (o : Options κ) (m : Machine κ) (s : Session κ) (sources : List String) (source : String),
      Session.start o m fuel = .ok s →
        ((s.runAll sources).run source).1 ≠ .error .missingArgument ∧
          (source.utf8ByteSize < 2 ^ 63 →
            (s.runAll sources).runWithin source = (s.runAll sources).run source) := by
  have hlawful := withFuel_lawful (Registry.ofLibraries_lawful hostFunctions libraries) fuel
  refine ⟨?primitives, ?forms, ?closures, ?elements, ?slices, ?bounds, ?integers, ?tokens, ?digits,
    ?numbers, ?sessions⟩
  case primitives =>
    intro l p hp args hargs
    have htame := l.primitives_lawful p hp _ hlawful.apply args hargs
    exact htame.supplied
  case forms =>
    intro k parts steps scope hparts
    -- as for a program, only the failures matter
    have hconfined : (Form.run (withFuel (.ofLibraries hostFunctions libraries) fuel) steps scope k
        parts).Confined (fun _ => True) (Unwind.Settled fun _ => True) :=
      Form.run_confined hlawful trivial hparts (fun _ _ _ _ => trivial) (fun _ _ => trivial) steps
    exact hconfined.supplied_of_settled
  case closures =>
    intro name c args
    refine ⟨(callClosure_sealed hlawful name c args).supplied_of_settled, fun hargs => ?_⟩
    exact (Arity.eq_of_exactly hargs).symm
  case elements =>
    intro list index v w m m' h
    exact (Primitive.ends_setNth list index v m).of_ok h
  case slices =>
    intro list start stop m h
    exact Primitive.sliceWithin_eq h list start stop
  case bounds =>
    intro bound length h
    exact ⟨Slice.resolveWord?_eq bound h, Slice.clampWord_eq bound h⟩
  case integers =>
    intro v i h
    exact ⟨.ofInt i, Value.toInt_of_asInteger h⟩
  case tokens =>
    intro source h
    exact Token.scanWithin_eq (Nat.lt_trans h (by decide))
  case digits => exact Numeral.normalizeWithin_eq
  case numbers => exact Primitive.parseNumberWithin_eq
  case sessions =>
    intro o m s sources source hs
    -- the libraries of a session are stock libraries and functions of the host
    obtain ⟨hregistry, -⟩ := Session.of_start hs
    obtain ⟨chosen, hchosen⟩ := Registry.exists_of_ofOptions hregistry
    refine ⟨Session.run_ne_missingArgument ?_ source, fun h => Session.runWithin_eq _ h⟩
    rw [Session.registry_runAll, hchosen]
    exact Registry.ofLibraries_lawful o.hostFunctions chosen

/-- At the limits: all arguments that `range` and a conditional take, the only element of a list,
    a bound below all machine integers, for the longest list there can be, and a text in which
    bytes are not characters. -/
theorem accesses_safe_at_limits :
    (∃ p ∈ (Library.list.primitives : List (Primitive Unit)), p.name = "range" ∧
      (p.run (Evaluator.withFuel (.ofLibraries [] Library.all) 9).apply
        [.null, .null, .null]).Supplied) ∧
    (Form.run (Evaluator.withFuel (.ofLibraries [] Library.all) 9 : Evaluator Unit) 9 Scopes.root
      .ifElse [.null, .null, .null]).Supplied ∧
    (Parameters.single "x").names.length = [Value.null].length ∧
    (∃ (m m' : Machine Unit) (low : Value), low.asInteger = .ok Double.minInt ∧
      m.lists.items ⟨0⟩ = [.null] ∧
      Primitive.setNth (.list ⟨0⟩) (.number (Float.ofNat 0)) (.bool true) m = .ok (.bool true) m' ∧
      (m'.lists.cell ⟨0⟩)[0]? = some (.bool true) ∧
      Primitive.sliceWithin (.list ⟨0⟩) low none m = Primitive.slice (.list ⟨0⟩) low none m ∧
      ∃ bound : Int64, bound.toInt = Double.minInt) ∧
    Slice.resolveWord? Int64.minValue (.ofNat (2 ^ 63 - 1)) = some 0 ∧
    Token.scanWithin "(é \"→\")" = some [.opening .round, .word "é", .string "→", .closing .round] ∧
    Numeral.normalizeWithin ['-', '1', '-', '0'] = some ['-', '1', '0'] ∧
    (Primitive.parseNumberWithin (.string " -1-0 ") : Eval Unit Value) =
      Primitive.parseNumber (.string " -1-0 ") ∧
    ∃ s : Session Unit, Session.start {} { context := () } 9 = .ok s ∧
      ((s.runAll ["(range)", "(let x [null])"]).run "(slice x -1e300 1e300)").1 ≠
        .error .missingArgument ∧
      (s.runAll ["(range)", "(let x [null])"]).runWithin "(slice x -1e300 1e300)" =
        (s.runAll ["(range)", "(let x [null])"]).run "(slice x -1e300 1e300)" := by
  obtain ⟨hprimitives, hforms, hclosures, helements, hslices, hbounds, hintegers, htokens, hdigits,
    hnumbers, hsessions⟩ := accesses_safe (κ := Unit) [] Library.all 9
  have hzero : (Value.number (Float.ofNat 0)).asInteger = .ok 0 :=
    Value.asInteger_of_toInt? (by decide +kernel)
  have hlow : (Value.number (Float.neg (Float.ofNat (2 ^ 70)))).asInteger = .ok Double.minInt :=
    Value.asInteger_of_toInt? (by decide +kernel)
  have hset : ∃ m', Primitive.setNth (.list ⟨0⟩) (.number (Float.ofNat 0)) (.bool true)
      { context := (), lists := ⟨#[#[.null]]⟩ } = .ok (.bool true) m' := by
    unfold Primitive.setNth
    rw [hzero]
    exact ⟨_, rfl⟩
  obtain ⟨m', hm'⟩ := hset
  obtain ⟨r, k, hr, hk, -, hcell⟩ := helements _ _ _ _ _ _ hm'
  cases hr
  cases hzero.symm.trans hk
  -- there is one list; any other reference is to none, which reads as empty
  have hshort : ∀ r, ((⟨#[#[.null]]⟩ : Lists).items r).length < 2 ^ 63 := by
    rintro ⟨_ | index⟩
    · decide
    · rw [Lists.items, Lists.cell, Array.getElem?_eq_none (by simp)]
      decide
  have hs : Session.start {} { context := () } 9 =
      .ok ⟨.ofLibraries [] Library.all, { context := () }, 9⟩ := rfl
  obtain ⟨hsupplied, hwithin⟩ :=
    hsessions _ _ _ ["(range)", "(let x [null])"] "(slice x -1e300 1e300)" hs
  have hrange : (⟨"range", .between 1 3, fun _ => Primitive.range, none⟩ : Primitive Unit) ∈
      Library.list.primitives := List.mem_of_getElem? (i := 8) rfl
  exact ⟨⟨_, hrange, rfl, hprimitives .list _ hrange _ rfl⟩, hforms .ifElse _ 9 _ rfl,
    (hclosures none ⟨.single "x", [], Scopes.root⟩ [.null]).2 rfl,
    ⟨_, m', _, hlow, rfl, hm', hcell, hslices _ _ _ _ hshort, hintegers _ _ hlow⟩,
    (hbounds _ _ (by decide)).1, htokens "(é \"→\")" (by decide), hdigits ['-', '1', '-', '0'],
    hnumbers _, _, hs, hsupplied, hwithin (by decide)⟩

end Lisplet
