import Lisplet.Host.Stock
import Lisplet.Proofs.Conservativity
import Lisplet.Proofs.Contents

/-! # Library functions as values

A program can take a function of a library as a value: bind it, put it into a list, throw it, hand
it to the host and get it back.  Such a value is only the name of the function, and it is of use
only while some active library owns that name.

It always does, provided that the host functions do not make up names themselves: they neither
return such a name nor leave it in a list, and they have no access to frames.  No frame and no list
ever holds a name that nobody owns, and none is returned or thrown, so a call of a library function
never comes to the place where it fails because nobody owns the name.  To say the latter the
evaluator is given a choice of what to do at that place (`Evaluator.withFuelOr`): the choice makes
no difference.  That host functions return no such name is not enough.

* `Value.Owned`                      the value names no function that nobody owns
* `HostFunction.Faithful`            what is asked of a host function
* `Simulation.owned`                 the invariant, as a simulation of a run by a similar one
* `Session.builtins_never_dangle`    what holds of all runs -/

namespace Lisplet

open Eval

variable {κ : Type}

/-! ## Owned names -/

/-- If the value is a library function, an active library owns its name. -/
def Value.Owned (reg : Registry κ) : Value → Prop
  | .builtin name => ∃ l ∈ reg.libraries, reg.owner? name = some l
  | _ => True

/-- Frames and lists hold no library function that nobody owns. -/
structure Machine.Owned (reg : Registry κ) (m : Machine κ) : Prop where
  frames : m.scopes.Holds fun b => b.2.Owned reg
  lists : m.lists.Holds (Value.Owned reg)

/-- The host function makes up no names: if it is given only library functions that are owned, as
    arguments, in lists and in a context of `I`, then it returns only such functions and leaves
    only such in the lists, and the context is one of `I` again. -/
def HostFunction.Faithful (reg : Registry κ) (I : κ → Prop) (f : HostFunction κ) : Prop :=
  ∀ args ls k, (∀ v ∈ args, v.Owned reg) → ls.Holds (Value.Owned reg) → I k →
    match f args ⟨ls, k⟩ with
    | .ok v h => v.Owned reg ∧ h.lists.Holds (Value.Owned reg) ∧ I h.context
    | .error _ h => h.lists.Holds (Value.Owned reg) ∧ I h.context

namespace Registry

/-- What a name means comes from the table of an active library. -/
theorem mem_libraries_of_find? {hosts : List (String × HostFunction κ)} {libraries : List Library}
    {name : String} {e : Entry κ} (h : (ofLibraries hosts libraries).find? name = some e) :
    e.library ∈ libraries ∧ (entriesOf hosts e.library).find? (·.name == name) = some e := by
  rw [find?_ofLibraries] at h
  obtain ⟨l, hl, he⟩ := List.exists_of_findSome?_eq_some h
  -- an entry says which library it is from
  have hlibrary : e.library = l := by
    have hmem := List.mem_of_find?_eq_some he
    cases l <;> exact (List.mem_map.1 hmem).elim fun _ ⟨_, hentry⟩ => hentry ▸ rfl
  rw [hlibrary]
  exact ⟨hl, he⟩

/-- A function that is found is owned. -/
private theorem owned_of_find? {hosts : List (String × HostFunction κ)} {libraries : List Library}
    {name : String} {e : Entry κ} (h : (ofLibraries hosts libraries).find? name = some e) :
    (Value.builtin name).Owned (ofLibraries hosts libraries) := by
  refine ⟨e.library, (mem_libraries_of_find? h).1, ?_⟩
  rw [owner?, h, Option.map_some]

end Registry

/-- A function that is owned is found. -/
private theorem Value.Owned.find?_ne_none {reg : Registry κ} {name : String}
    (h : (Value.builtin name).Owned reg) : reg.find? name ≠ none := by
  obtain ⟨l, -, howner⟩ := h
  intro hnone
  rw [Registry.owner?, hnone] at howner
  cases howner

/-! ## The invariant -/

/-- Programs may meet everything but library functions that nobody owns. -/
def Vocabulary.owned (reg : Registry κ) : Vocabulary where
  allowsName _ := True
  allowsString _ := True
  allowsList _ := True
  allowsBuiltin name := (Value.builtin name).Owned reg

/-- The values of the vocabulary are those that are owned. -/
private theorem Vocabulary.allows_owned_iff {reg : Registry κ} {v : Value} :
    (Vocabulary.owned reg).Allows v ↔ v.Owned reg := by
  cases v <;> exact Iff.rfl

/-- No expression has a library function in it, only names. -/
private theorem Vocabulary.over_owned (reg : Registry κ) (e : Expr) : e.Over (.owned reg) :=
  fun atom _ => by cases atom <;> trivial

namespace Simulation

/-- Both sides are the same, and hold no library function that nobody owns. -/
def owned (reg : Registry κ) (I : κ → Prop) : Simulation κ κ where
  toVocabulary := .owned reg
  allowsLists ls := ls.Holds (Value.Owned reg)
  scopes s s' := s' = s ∧ s.Holds fun b => b.2.Owned reg
  knows _ _ := True
  context k k' := k' = k ∧ I k
  loses := Unwind.Never
  isFinal_of_loses := @Unwind.Never.isFinal κ
  allows_next _ := trivial
  alloc h hxs := h.alloc fun v hv => Vocabulary.allows_owned_iff.1 (hxs v hv)
  next_eq h := h.1 ▸ rfl
  get?_eq h _ _ := h.1 ▸ rfl
  allows_of_get? h hget := Vocabulary.allows_owned_iff.2 (h.2.of_get? hget)
  holder?_eq h _ _ := h.1 ▸ rfl
  knows_holder _ _ _ := trivial
  spawn h _ := ⟨h.1 ▸ rfl, h.2.spawn⟩
  knows_next _ _ := trivial
  knows_spawn _ := trivial
  define h _ _ hv := ⟨h.1 ▸ rfl, h.2.define (Vocabulary.allows_owned_iff.1 hv)⟩
  knows_define _ := trivial

variable {reg : Registry κ} {I : κ → Prop}

/-- The vocabulary is as open as the libraries need it. -/
private theorem isOpen_owned (reg : Registry κ) (I : κ → Prop) : (owned reg I).IsOpen where
  allows_string _ := trivial
  allows_of_mem h hv := Vocabulary.allows_owned_iff.2 (h _ _ hv)
  modify h hf := h.modify fun v hv => Vocabulary.allows_owned_iff.1 (hf v hv)

/-- Machines are related if only their journals differ and the invariant holds. -/
private theorem related_owned_iff {m m' : Machine κ} :
    (owned reg I).Related (fun _ => True) m m' ↔
      m'.silent = m.silent ∧ m.Owned reg ∧ I m.context := by
  simp only [Machine.silent, Machine.mk.injEq, and_true]
  constructor
  · intro h
    exact ⟨⟨h.lists_eq, h.scopes.1, h.closures_eq, h.printed_eq, h.context.1⟩,
      ⟨h.scopes.2, h.lists⟩, h.context.2⟩
  · rintro ⟨⟨hlists, hscopes, hclosures, hprinted, hcontext⟩, howned, hI⟩
    exact {
      lists_eq := hlists
      lists := howned.lists
      closures_eq := hclosures
      closures := fun _ _ =>
        ⟨⟨fun _ _ => trivial, fun e _ => Vocabulary.over_owned reg e⟩, trivial⟩
      printed_eq := hprinted
      scopes := ⟨hscopes, howned.frames⟩
      context := ⟨hcontext, hI⟩
      known := fun _ _ => trivial }

end Simulation

/-- For a host function, the invariant is faithfulness. -/
theorem HostFunction.Faithful.paired {reg : Registry κ} {I : κ → Prop} {f : HostFunction κ}
    (h : f.Faithful reg I) : f.Paired (.owned reg I) f := by
  rintro args ls _ k hargs hls ⟨rfl, hk⟩
  have hf := h args ls k (fun v hv => Vocabulary.allows_owned_iff.1 (hargs v hv)) hls hk
  cases hres : f args ⟨ls, k⟩ with
  | ok v host =>
    rw [hres] at hf
    obtain ⟨hv, hlists, hcontext⟩ := hf
    exact ⟨host.context, rfl, Vocabulary.allows_owned_iff.2 hv, hlists, rfl, hcontext⟩
  | error message host =>
    rw [hres] at hf
    obtain ⟨hlists, hcontext⟩ := hf
    exact ⟨host.context, rfl, hlists, rfl, hcontext⟩

/-- A registry hands out only functions that it owns. -/
private theorem Registry.paired_owned {hosts : List (String × HostFunction κ)}
    {libraries : List Library} {I : κ → Prop}
    (hhosts : ∀ f ∈ hosts, f.2.Faithful (ofLibraries hosts libraries) I) :
    (ofLibraries hosts libraries).Paired (.owned (ofLibraries hosts libraries) I)
      (ofLibraries hosts libraries) := by
  have hfound := found_ofLibraries (Simulation.isOpen_owned (ofLibraries hosts libraries) I)
    (List.forall₂_same.2 fun f hf => ⟨rfl, (hhosts f hf).paired⟩) libraries
  exact ⟨fun _ _ => hfound _, fun _ => hfound _, fun _ _ he => owned_of_find? he⟩

/-! ## The place that is never reached -/

namespace Evaluator

/-- What to do about a library function that nobody owns, given its name and the arguments. -/
abbrev Fallback (κ : Type) := String → List Value → Eval κ Value

/-- Calls a function value as `applyStep` does, with a choice of what to do about a library
    function that nobody owns. -/
def applyStepOr (reg : Registry κ) (otherwise : Fallback κ) (ev : Evaluator κ) (callee : Value)
    (args : List Value) : Eval κ Value :=
  match callee with
  | .builtin name =>
    match reg.find? name with
    | some entry => entry.call ev.apply args
    | none => otherwise name args
  | callee => applyStep reg ev callee args

/-- The evaluator `withFuel`, with a choice of what to do about a library function that nobody
    owns. -/
def withFuelOr (reg : Registry κ) (otherwise : Fallback κ) : Nat → Evaluator κ
  | 0 => ⟨fun _ _ => Eval.fail .exhausted, fun _ _ => Eval.fail .exhausted⟩
  | fuel + 1 =>
    ⟨fun e scope => evalStep reg (withFuelOr reg otherwise fuel) fuel e scope,
      fun callee args => applyStepOr reg otherwise (withFuelOr reg otherwise fuel) callee args⟩

/-- By default, the call fails for want of the name. -/
private theorem withFuelOr_unbound (reg : Registry κ) (fuel : Nat) :
    withFuelOr reg (fun name _ => Eval.fail (.unbound name)) fuel = withFuel reg fuel := by
  induction fuel with
  | zero => rfl
  | succ fuel ih =>
    have happly : applyStepOr reg (fun name _ => Eval.fail (.unbound name)) (withFuel reg fuel) =
        applyStep reg (withFuel reg fuel) := by
      funext callee args
      cases callee <;> rfl
    rw [withFuelOr, withFuel, ih, happly]

variable {reg : Registry κ} {I : κ → Prop} {K : FrameRef → Prop}

/-- A call does the same with either fallback. -/
private theorem applyStepOr_paired {ev ev' : Evaluator κ} (h : ev.Paired (.owned reg I) ev')
    (hreg : reg.Paired (.owned reg I) reg) (otherwise otherwise' : Fallback κ) {callee : Value}
    (hcallee : (Simulation.owned reg I).Allows callee) {args : List Value}
    (hargs : ∀ v ∈ args, (Simulation.owned reg I).Allows v) :
    (applyStepOr reg otherwise ev callee args).Paired (.owned reg I) K
      (Simulation.owned reg I).Allows (applyStepOr reg otherwise' ev' callee args) := by
  cases callee with
  | builtin name =>
    have howned : (Value.builtin name).Owned reg := hcallee
    have hfound := hreg.found_of_allows howned
    -- somebody owns the name, so neither fallback is of any use
    cases hentry : reg.find? name with
    | none => exact absurd hentry howned.find?_ne_none
    | some entry =>
      rw [hentry] at hfound
      simp only [applyStepOr, hentry]
      cases hfound with
      | both he => exact he.call h.apply K args hargs
  | _ => exact applyStep_paired h hreg hcallee hargs

/-- Whatever the fallbacks are, two evaluators do the same. -/
private theorem withFuelOr_paired (hreg : reg.Paired (.owned reg I) reg)
    (otherwise otherwise' : Fallback κ) (fuel : Nat) :
    (withFuelOr reg otherwise fuel).Paired (.owned reg I) (withFuelOr reg otherwise' fuel) := by
  induction fuel with
  | zero => exact ⟨fun _ _ _ _ _ => paired_fail trivial, fun _ _ _ _ _ => paired_fail trivial⟩
  | succ fuel ih =>
    exact ⟨fun _ _ _ he hscope => evalStep_paired ih hreg fuel he hscope,
      fun _ _ _ hcallee hargs => applyStepOr_paired ih hreg otherwise otherwise' hcallee hargs⟩

end Evaluator

/-! ## A host that keeps functions -/

namespace Host.Stock

variable {reg : Registry (Option Notepad)}

/-- Only functions that are owned are kept on the notepad. -/
def KeepsOwned (reg : Registry (Option Notepad)) (context : Option Notepad) : Prop :=
  ∀ pad, context = some pad → ∀ b ∈ pad.kept, b.2.Owned reg

/-- To keep a value makes up none. -/
private theorem faithful_store : HostFunction.Faithful reg (KeepsOwned reg) store.run := by
  intro args ls k hargs hls hk
  match args, k with
  | .string key :: v :: _, some pad =>
    refine ⟨trivial, hls, ?_⟩
    rintro _ ⟨⟩ b hb
    -- what is kept is the argument, or was kept before
    obtain rfl | hb := List.mem_cons.1 hb
    · exact hargs v (by simp)
    · exact hk pad rfl b (List.mem_of_mem_filter hb)
  | [], _ => exact ⟨hls, hk⟩
  | [.string _], none | [.string _], some _ | .string _ :: _ :: _, none => exact ⟨hls, hk⟩
  | .number _ :: _, _ | .bool _ :: _, _ | .null :: _, _ | .list _ :: _, _
  | .builtin _ :: _, _ | .closure _ _ :: _, _ => exact ⟨hls, hk⟩

/-- A value comes back as it was kept. -/
private theorem run_fetch (key : String) (args : List Value) (ls : Lists) (pad : Notepad) :
    fetch.run (.string key :: args) ⟨ls, some pad⟩ =
      match pad.kept.lookup key with
      | some v => .ok v ⟨ls, some pad⟩
      | none => .error ("nothing stored under " ++ key) ⟨ls, some pad⟩ := by
  have hrun : fetch.run (.string key :: args) ⟨ls, some pad⟩ =
      (match pad.kept.lookup key with
        | some v => pure v
        | none => throw ("nothing stored under " ++ key) : Host (Option Notepad) Value)
        ⟨ls, some pad⟩ := rfl
  rw [hrun]
  cases pad.kept.lookup key <;> rfl

/-- To fetch a value makes up none. -/
private theorem faithful_fetch : HostFunction.Faithful reg (KeepsOwned reg) fetch.run := by
  intro args ls k hargs hls hk
  match args, k with
  | .string key :: _, some pad =>
    rw [run_fetch]
    cases hkept : pad.kept.lookup key with
    | none => exact ⟨hls, hk⟩
    | some v =>
      obtain ⟨before, after, hsplit, -⟩ := List.lookup_eq_some_iff.1 hkept
      exact ⟨hk pad rfl (key, v) (by simp [hsplit]), hls, hk⟩
  | [], _ | .string _ :: _, none => exact ⟨hls, hk⟩
  | .number _ :: _, _ | .bool _ :: _, _ | .null :: _, _ | .list _ :: _, _
  | .builtin _ :: _, _ | .closure _ _ :: _, _ => exact ⟨hls, hk⟩

/-- The functions that keep values for a program. -/
def keepers : List (String × HostFunction (Option Notepad)) :=
  [(store.name, store.run), (fetch.name, fetch.run)]

/-- So keeping values for a program is faithful. -/
private theorem faithful_keepers : ∀ f ∈ keepers, f.2.Faithful reg (KeepsOwned reg) :=
  List.forall_mem_cons.2 ⟨faithful_store, List.forall_mem_singleton.2 faithful_fetch⟩

end Host.Stock

/-! ## A host that makes up a name -/

/-- The host function returns no library function that nobody owns.  It may leave one in a list. -/
def HostFunction.ReturnsOwned (reg : Registry κ) (f : HostFunction κ) : Prop :=
  ∀ args h v h', f args h = .ok v h' → v.Owned reg

/-- A host function that returns a new list with a library function in it. -/
def Host.pack (name : String) : HostFunction κ := fun _ =>
  modifyGet fun h => (.list h.lists.next, { h with lists := h.lists.alloc #[.builtin name] })

/-- A list is no library function, whatever is in it. -/
private theorem Host.returnsOwned_pack {reg : Registry κ} (name : String) :
    HostFunction.ReturnsOwned reg (pack name) := by
  rintro args h _ _ ⟨⟩
  trivial

/-! ## Sessions -/

namespace Session

/-- Runs some texts, one after the other, whether they fail or not. -/
def runAll (s : Session κ) (sources : List String) : Session κ :=
  sources.foldl (fun s source => (s.run source).2) s

/-- Runs a text as `run` does, with a choice of what to do about a library function that nobody
    owns. -/
def runOr (s : Session κ) (otherwise : Evaluator.Fallback κ) (source : String) :
    Except Error Value × Session κ :=
  let (outcome, s) := s.perform ((Evaluator.withFuelOr s.registry otherwise s.fuel).run source)
  (outcome.mapError Unwind.toError, s)

/-- A run does not change which functions there are. -/
theorem registry_run (s : Session κ) (source : String) :
    (s.run source).2.registry = s.registry := by
  simp only [run, perform]
  split <;> rfl

/-- A value that is reported was returned. -/
private theorem eq_ok_of_mapError {outcome : Except Unwind Value} {v : Value}
    (h : outcome.mapError Unwind.toError = .ok v) : outcome = .ok v := by
  cases outcome with
  | ok w =>
    cases h
    rfl
  | error u => cases h

/-- A value that is reported as thrown was thrown. -/
private theorem eq_thrown_of_mapError {outcome : Except Unwind Value} {v : Value}
    (h : outcome.mapError Unwind.toError = .error (.thrown v)) :
    outcome = .error (.failure (.thrown v)) := by
  match outcome, h with
  | .error (.failure (.thrown _)), rfl => rfl

variable {s : Session κ} {I : κ → Prop}

/-- What one run does to a session without dangling functions. -/
private theorem run_owned (hreg : s.registry.Paired (.owned s.registry I) s.registry)
    (hm : s.machine.Owned s.registry) (hI : I s.machine.context) (source : String) :
    ((s.run source).2.machine.Owned s.registry ∧ I (s.run source).2.machine.context) ∧
    (∀ v, (s.run source).1 = .ok v → v.Owned s.registry) ∧
    (∀ v, (s.run source).1 = .error (.thrown v) → v.Owned s.registry) ∧
    ∀ otherwise, (s.runOr otherwise source).1 = (s.run source).1 ∧
      (s.runOr otherwise source).2.machine.silent = (s.run source).2.machine.silent := by
  have hrelated : (Simulation.owned s.registry I).Related (fun _ => True) s.machine s.machine :=
    Simulation.related_owned_iff.2 ⟨rfl, hm, hI⟩
  -- the run does the same as one with any fallback
  have hends := fun otherwise => perform_paired
    (Evaluator.run_paired
      (Evaluator.withFuelOr_paired hreg (fun name _ => Eval.fail (.unbound name)) otherwise s.fuel)
      (Vocabulary.over_owned s.registry) trivial source) hrelated (fun _ _ h => h)
  simp only [Evaluator.withFuelOr_unbound] at hends
  obtain ⟨-, hafter, hvalue, hwithin⟩ := hends fun _ _ => pure .null
  obtain ⟨-, hafter⟩ := Simulation.related_owned_iff.1 hafter
  refine ⟨hafter, fun v hv => ?_, fun v hv => ?_, fun otherwise => ?_⟩
  · -- what is returned is in the vocabulary, and so is what is thrown
    exact Vocabulary.allows_owned_iff.1 (hvalue v (eq_ok_of_mapError hv))
  · exact Vocabulary.allows_owned_iff.1 (hwithin _ (eq_thrown_of_mapError hv))
  · obtain ⟨hsame, hmachine, -⟩ := hends otherwise
    exact ⟨congrArg (Except.mapError Unwind.toError) hsame,
      (Simulation.related_owned_iff.1 hmachine).1⟩

/-- Between the runs no function dangles. -/
private theorem runAll_owned {reg : Registry κ} (hreg : reg.Paired (.owned reg I) reg)
    (hs : s.registry = reg) (hm : s.machine.Owned reg) (hI : I s.machine.context)
    (sources : List String) :
    (s.runAll sources).registry = reg ∧ (s.runAll sources).machine.Owned reg ∧
      I (s.runAll sources).machine.context := by
  induction sources generalizing s with
  | nil => exact ⟨hs, hm, hI⟩
  | cons source sources ih =>
    subst hs
    obtain ⟨⟨hm', hI'⟩, -⟩ := run_owned hreg hm hI source
    exact ih (registry_run s source) hm' hI'

/-- No library function dangles.  Whatever texts have been run on a fresh machine, with failures
    or without, frames and lists hold only library functions that an active library owns, and the
    next text returns and throws no others.  Nothing would change if the call of a function that
    nobody owns did something else than fail; and a library that owns a name has an entry for it
    in its table, which is the one that is called. -/
theorem builtins_never_dangle {o : Options κ} {context : κ} {journal : Option (Array Record)}
    {fuel : Nat} {s : Session κ} (hs : start o { context, journal } fuel = .ok s) {I : κ → Prop}
    (hI : I context) (hhosts : ∀ f ∈ o.hostFunctions, f.2.Faithful s.registry I)
    (sources : List String) :
    (s.runAll sources).machine.Owned s.registry ∧
    (∀ source v, ((s.runAll sources).run source).1 = .ok v → v.Owned s.registry) ∧
    (∀ source v, ((s.runAll sources).run source).1 = .error (.thrown v) → v.Owned s.registry) ∧
    (∀ source otherwise,
      ((s.runAll sources).runOr otherwise source).1 = ((s.runAll sources).run source).1 ∧
      ((s.runAll sources).runOr otherwise source).2.machine.silent =
        ((s.runAll sources).run source).2.machine.silent) ∧
    ∀ name l, s.registry.owner? name = some l → l ∈ s.registry.libraries ∧
      ∃ e, (Registry.entriesOf o.hostFunctions l).find? (·.name == name) = some e ∧
        s.registry.find? name = some e := by
  obtain ⟨hchosen, hmachine, -⟩ := of_start hs
  obtain ⟨libraries, hlibraries⟩ := Registry.exists_of_ofOptions hchosen
  have hreg : s.registry.Paired (.owned s.registry I) s.registry := by
    rw [hlibraries] at hhosts ⊢
    exact Registry.paired_owned hhosts
  -- a fresh machine holds nothing
  have hscopes : s.machine.scopes = .start := congrArg Machine.scopes hmachine
  have hlists : s.machine.lists = {} := congrArg Machine.lists hmachine
  have hcontext : s.machine.context = context := congrArg Machine.context hmachine
  have hfresh : s.machine.Owned s.registry := ⟨hscopes ▸ .start, hlists ▸ .empty⟩
  -- so the invariant holds after the texts, and the next one is one more run
  obtain ⟨hkept, hm, hafter⟩ := runAll_owned hreg rfl hfresh (hcontext ▸ hI) sources
  have hrun := fun source => run_owned (s := s.runAll sources) (hkept.symm ▸ hreg)
    (hkept.symm ▸ hm) hafter source
  rw [hkept] at hrun
  refine ⟨hm, fun source => (hrun source).2.1, fun source => (hrun source).2.2.1,
    fun source => (hrun source).2.2.2, fun name l howner => ?_⟩
  -- the owner of a name is the library of the entry that is found
  obtain ⟨e, he, rfl⟩ := Option.map_eq_some_iff.1 howner
  rw [hlibraries] at he ⊢
  obtain ⟨hmem, hentry⟩ := Registry.mem_libraries_of_find? he
  exact ⟨hmem, e, hentry, he⟩

/-- The function `print` is left with the host and comes back as a value, which is bound, put into a
    list and thrown. -/
theorem builtins_never_dangle_fetched :
    ∃ (s : Session (Option Host.Notepad)) (sources : List String),
      start { libraries := ["core", "ext"], hostFunctions := Host.Stock.keepers }
        { context := some {} } = .ok s ∧
      sources = ["(store \"p\" print)", "(let f (recall \"p\")) (let fs [f])"] ∧
      (s.runAll sources).machine.scopes.get? Scopes.root "f" = some (.builtin "print") ∧
      (s.runAll sources).machine.lists.items ⟨0⟩ = [.builtin "print"] ∧
      (s.runAll sources).machine.Owned s.registry ∧
      ((s.runAll sources).run "(throw f)").1 = .error (.thrown (.builtin "print")) ∧
      (Value.builtin "print").Owned s.registry := by
  have hs : start { libraries := ["core", "ext"], hostFunctions := Host.Stock.keepers }
      { context := some {} } =
        .ok ⟨.ofLibraries Host.Stock.keepers [.core, .ext], { context := some {} }, ampleFuel⟩ :=
    rfl
  have hempty : Host.Stock.KeepsOwned (.ofLibraries Host.Stock.keepers [.core, .ext])
      (some {}) := by
    rintro _ ⟨⟩ b hb
    cases hb
  obtain ⟨howned, -, hthrown, -⟩ := builtins_never_dangle hs hempty Host.Stock.faithful_keepers
    ["(store \"p\" print)", "(let f (recall \"p\")) (let fs [f])"]
  exact ⟨_, _, hs, rfl, by decide +kernel, by decide +kernel, howned, by decide +kernel,
    hthrown "(throw f)" _ (by decide +kernel)⟩

/-- It is not enough that host functions return no library function that nobody owns.  The host
    function `pack` returns a list with `print` in it, which no active library owns: then a frame
    holds the list, the list holds the function, and a program that calls it fails for want of the
    name, where another choice for that place gives another outcome. -/
theorem builtins_dangle_inside_list :
    ∃ (o : Options Unit) (s : Session Unit),
      o.libraries = ["list", "ext"] ∧ o.hostFunctions = [("pack", Host.pack "print")] ∧
      start o { context := () } = .ok s ∧
      (∀ f ∈ o.hostFunctions, f.2.ReturnsOwned s.registry) ∧
      ¬ (s.runAll ["(let xs (pack))"]).machine.Owned s.registry ∧
      ((s.runAll ["(let xs (pack))"]).run "((first xs) 1)").1 = .error (.unbound "print") ∧
      ((s.runAll ["(let xs (pack))"]).runOr (fun _ _ => pure .null) "((first xs) 1)").1 =
        .ok .null := by
  let o : Options Unit :=
    { libraries := ["list", "ext"], hostFunctions := [("pack", Host.pack "print")] }
  have hs : start o { context := () } =
      .ok ⟨.ofLibraries o.hostFunctions [.list, .ext], { context := () }, ampleFuel⟩ := rfl
  refine ⟨o, _, rfl, rfl, hs, List.forall_mem_singleton.2 (Host.returnsOwned_pack "print"), ?_,
    by decide +kernel, by decide +kernel⟩
  intro howned
  -- the first list of the session is the one that the host function made
  have hheld : Value.builtin "print" ∈ (Session.runAll
      ⟨.ofLibraries o.hostFunctions [.list, .ext], { context := () }, ampleFuel⟩
      ["(let xs (pack))"]).machine.lists.cell ⟨0⟩ := by decide +kernel
  exact (howned.lists ⟨0⟩ _ hheld).find?_ne_none (by decide +kernel)

end Session
end Lisplet
