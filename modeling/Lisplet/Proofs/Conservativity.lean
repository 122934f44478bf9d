import Lisplet.Proofs.PairedEvaluation

/-! # Larger configurations

An embedding program can activate more libraries and offer more host functions without breaking
the programs that ran before: libraries that come later, and functions under names that are still
free, do not change the meaning of a name that had one.  So a program runs as before unless it
failed for want of a name that it now finds.

* `Options.enlarge`             further choices on top of given ones
* `Registry.find?_enlarge`      no meaning is lost
* `Session.run_conservative`    programs run as before -/

namespace Lisplet

open Eval

variable {κ : Type}

/-- Further libraries, after those that are chosen, and further host functions. -/
def Options.enlarge (o : Options κ) (names : List String)
    (added : List (String × HostFunction κ)) : Options κ :=
  { added.foldl (fun o f => o.withHostFunction f.1 f.2) o with
    libraries := o.libraries ++ names }

/-- Libraries are chosen in addition to those chosen so far. -/
private theorem Library.isPrefix_of_choose {chosen : List Library} {names : List String}
    {libraries : List Library} (h : names.foldlM choose chosen = .ok libraries) :
    chosen <+: libraries := by
  induction names generalizing chosen with
  | nil =>
    cases h
    exact List.prefix_rfl
  | cons name names ih =>
    rw [List.foldlM_cons] at h
    unfold choose at h
    split at h
    · -- a name that is refused ends the choice
      cases h
    · split at h
      · exact (List.prefix_append _ _).trans (ih h)
      · cases h

namespace Registry

/-- The first library that defines a name decides. -/
theorem find?_ofLibraries (hosts : List (String × HostFunction κ)) (libraries : List Library)
    (name : String) :
    (ofLibraries hosts libraries).find? name =
      libraries.findSome? fun l => (entriesOf hosts l).find? (·.name == name) :=
  List.find?_flatMap

/-- A registry comes from some libraries. -/
theorem exists_of_ofOptions {o : Options κ} {reg : Registry κ} (h : ofOptions o = .ok reg) :
    ∃ libraries, reg = ofLibraries o.hostFunctions libraries := by
  unfold ofOptions at h
  cases hchosen : o.libraries.foldlM Library.choose [] with
  | error cause =>
    rw [hchosen] at h
    cases h
  | ok libraries =>
    rw [hchosen] at h
    exact ⟨libraries, (Except.ok.inj h).symm⟩

/-- A host function changes what its own name means at most. -/
private theorem find?_entriesOf_withHostFunction (o : Options κ) (l : Library) {name added : String}
    (f : HostFunction κ) (h : added ≠ name) :
    (entriesOf (o.withHostFunction added f).hostFunctions l).find? (·.name == name) =
      (entriesOf o.hostFunctions l).find? (·.name == name) := by
  cases l with
  | ext =>
    -- a function that is left out for the new one has the new one's name
    have hleft : ∀ x : String × HostFunction κ,
        decide (x.1 != added ∧ x.1 == name) = (x.1 == name) := by
      intro x
      by_cases hx : x.1 = name
      · simp [hx, h.symm]
      · simp [hx]
    have hnew : (added == name) = false := beq_eq_false_iff_ne.2 h
    simp only [entriesOf, Options.withHostFunction, List.find?_map, List.find?_append,
      List.find?_filter, Function.comp_def, hleft]
    simp [hnew]
  | _ => rfl

/-- Nor do several, one after the other. -/
private theorem find?_entriesOf_enlarge (o : Options κ) (names : List String)
    {added : List (String × HostFunction κ)} (l : Library) {name : String}
    (h : ∀ f ∈ added, f.1 ≠ name) :
    (entriesOf (o.enlarge names added).hostFunctions l).find? (·.name == name) =
      (entriesOf o.hostFunctions l).find? (·.name == name) := by
  induction added generalizing o with
  | nil => rfl
  | cons f added ih =>
    obtain ⟨hf, hadded⟩ := List.forall_mem_cons.1 h
    exact (ih (o.withHostFunction f.1 f.2) hadded).trans
      (find?_entriesOf_withHostFunction o l f.2 hf)

/-- The libraries of the larger configuration start with those of the smaller one. -/
private theorem exists_ofOptions_enlarge {o : Options κ} {names : List String}
    {added : List (String × HostFunction κ)} {reg reg' : Registry κ}
    (h : ofOptions o = .ok reg) (h' : ofOptions (o.enlarge names added) = .ok reg') :
    ∃ libraries further, reg = ofLibraries o.hostFunctions libraries ∧
      reg' = ofLibraries (o.enlarge names added).hostFunctions (libraries ++ further) := by
  unfold ofOptions at h h'
  have hlibraries : (o.enlarge names added).libraries = o.libraries ++ names := rfl
  rw [hlibraries, List.foldlM_append] at h'
  cases hchosen : o.libraries.foldlM Library.choose [] with
  | error cause =>
    rw [hchosen] at h
    cases h
  | ok libraries =>
    rw [hchosen] at h h'
    cases hfurther : names.foldlM Library.choose libraries with
    | error cause =>
      simp [bind, Except.bind, Except.map, hfurther] at h'
    | ok libraries' =>
      -- the further choice goes on from the libraries of the first
      obtain ⟨further, rfl⟩ := Library.isPrefix_of_choose hfurther
      refine ⟨libraries, further, (Except.ok.inj h).symm, ?_⟩
      simpa [bind, Except.bind, Except.map, hfurther] using h'.symm

/-- No meaning is lost or changed if host functions get names that had none. -/
theorem find?_enlarge {o : Options κ} (names : List String)
    {added : List (String × HostFunction κ)} {libraries : List Library} (further : List Library)
    (hadded : ∀ f ∈ added, (ofLibraries o.hostFunctions libraries).owner? f.1 = none)
    {name : String} {e : Entry κ}
    (he : (ofLibraries o.hostFunctions libraries).find? name = some e) :
    (ofLibraries (o.enlarge names added).hostFunctions (libraries ++ further)).find? name =
      some e := by
  -- the name has a meaning, so no new function may take it
  have hne : ∀ f ∈ added, f.1 ≠ name := by
    rintro f hf rfl
    have := hadded f hf
    rw [owner?, he] at this
    cases this
  rw [find?_ofLibraries] at he ⊢
  simp only [List.findSome?_append, find?_entriesOf_enlarge o names _ hne, he, Option.some_or]

end Registry

namespace Session

/-- What a session starts with: the chosen libraries, the given machine and the given fuel. -/
theorem of_start {o : Options κ} {m : Machine κ} {fuel : Nat} {s : Session κ}
    (h : start o m fuel = .ok s) :
    Registry.ofOptions o = .ok s.registry ∧ s.machine.silent = m.silent ∧ s.fuel = fuel := by
  unfold start at h
  cases hreg : Registry.ofOptions o with
  | error cause =>
    rw [hreg] at h
    cases h
  | ok reg =>
    rw [hreg] at h
    cases h
    exact ⟨rfl, m.silent_record _ _, rfl⟩

/-- A larger configuration is conservative: unless a program fails for want of a name that nobody
    owns and that is owned in the larger configuration, it ends there with the same value or error
    and leaves the same machine behind, with the same lines printed.  The journals differ, since
    they tell which libraries are active. -/
theorem run_conservative {o : Options κ} {names : List String}
    {added : List (String × HostFunction κ)} {m : Machine κ} {fuel : Nat} {s s' : Session κ}
    (hs : start o m fuel = .ok s) (hs' : start (o.enlarge names added) m fuel = .ok s')
    (hadded : ∀ f ∈ added, s.registry.owner? f.1 = none) (source : String)
    (hbound : ∀ name, s.registry.owner? name = none → s'.registry.owner? name ≠ none →
      (s.run source).1 ≠ .error (.unbound name)) :
    (s'.run source).1 = (s.run source).1 ∧
      (s'.run source).2.machine.silent = (s.run source).2.machine.silent := by
  obtain ⟨hchosen, hmachine, hfuel⟩ := of_start hs
  obtain ⟨hchosen', hmachine', hfuel'⟩ := of_start hs'
  obtain ⟨libraries, further, hlibraries, hlibraries'⟩ :=
    Registry.exists_ofOptions_enlarge hchosen hchosen'
  rw [hlibraries] at hadded
  have hpaired : s.registry.Paired (.alike s.registry s'.registry) s'.registry := by
    rw [hlibraries, hlibraries']
    exact Simulation.registry_paired_alike fun {_ _} he =>
      Registry.find?_enlarge names further hadded he
  have hrun : (s.evaluator.run source).Paired (.alike s.registry s'.registry) (fun _ => True)
      (fun _ => True) (s'.evaluator.run source) := by
    unfold evaluator
    rw [hfuel, hfuel']
    exact (Evaluator.run_paired (Evaluator.withFuel_paired hpaired fuel)
      (Simulation.over_ofContext _ _ _) trivial source).imp fun _ _ => trivial
  refine (perform_of_paired hrun (hmachine'.trans hmachine.symm) ?_).imp
    (congrArg (Except.mapError Unwind.toError)) id
  -- a run is lost only where it fails for want of a name that is gained
  rintro _ herror ⟨name, rfl, hnone, hsome⟩
  exact hbound name hnone hsome (congrArg (Except.mapError Unwind.toError) herror)

/-- A function of the first library, passed on as a value, still prints after `list` and a function
    of the host have come in. -/
theorem run_conservative_print :
    ∃ s s' : Session Unit, start { libraries := ["core"] } { context := () } = .ok s ∧
      start (Options.enlarge { libraries := ["core"] } ["list", "ext"]
        [("shout", fun _ => pure .null)]) { context := () } = .ok s' ∧
      (s.run "(let say print) (say \"hi\")").1.toBool = true ∧
      (s'.run "(let say print) (say \"hi\")").1 = (s.run "(let say print) (say \"hi\")").1 ∧
      (s'.run "(let say print) (say \"hi\")").2.machine.silent =
        (s.run "(let say print) (say \"hi\")").2.machine.silent := by
  have hs : start { libraries := ["core"] } { context := () } =
      .ok ⟨.ofLibraries [] [.core], { context := () }, ampleFuel⟩ := rfl
  have hs' : start (Options.enlarge { libraries := ["core"] } ["list", "ext"]
      [("shout", fun _ => pure .null)]) { context := () } = .ok _ := rfl
  have hok : (Session.run ⟨.ofLibraries [] [.core], { context := () }, ampleFuel⟩
      "(let say print) (say \"hi\")").1.toBool = true := by decide +kernel
  refine ⟨_, _, hs, hs', hok, run_conservative hs hs' ?_ _ ?_⟩
  · exact List.forall_mem_singleton.2 (by decide +kernel)
  · intro name _ _ herror
    rw [herror] at hok
    cases hok

end Session
end Lisplet
