import Lisplet.Proofs.Conservativity
import Mathlib.Data.List.Nodup
import Mathlib.Data.List.Perm.Basic

/-! # The order of libraries

A name that several libraries define belongs to the first of them, so the order in which libraries
are chosen can matter.  It matters for host functions only: no two libraries of the language define
the same name.  As long as the host takes no name of another active library, every order of the
same libraries gives the same registry up to order, and programs cannot tell the difference.

* `Library.foldlM_choose_eq_ok_iff`   the choices that are accepted
* `Library.eq_of_primitive_name`      no name is in two libraries
* `Registry.find?_reordered`          every name keeps its meaning
* `Session.run_reordered`             programs run as before -/

namespace Lisplet

variable {κ : Type}

/-- Where at most one element has an answer, the order of the elements does not matter. -/
private theorem findSome?_eq_of_perm {α β : Type} {f : α → Option β} {xs ys : List α}
    (h : ys.Perm xs) (hunique : ∀ a ∈ xs, ∀ b ∈ xs, f a ≠ none → f b ≠ none → a = b) :
    ys.findSome? f = xs.findSome? f := by
  cases hys : ys.findSome? f with
  | none =>
    have hnone := List.findSome?_eq_none_iff.1 hys
    have hxs : xs.findSome? f = none :=
      List.findSome?_eq_none_iff.2 fun a ha => hnone a (h.mem_iff.2 ha)
    rw [hxs]
  | some b =>
    obtain ⟨a, ha, hfa⟩ := List.exists_of_findSome?_eq_some hys
    -- the other order has an answer too, and only from the same element
    cases hxs : xs.findSome? f with
    | none =>
      have hnone := List.findSome?_eq_none_iff.1 hxs a (h.mem_iff.1 ha)
      rw [hfa] at hnone
      cases hnone
    | some c =>
      obtain ⟨a', ha', hfa'⟩ := List.exists_of_findSome?_eq_some hxs
      have hsame : a = a' := by
        apply hunique a (h.mem_iff.1 ha) a' ha'
        · simp [hfa]
        · simp [hfa']
      rw [← hfa, ← hfa', hsame]

namespace Library

/-! ## The choices that are accepted -/

/-- A library is found by its name. -/
private theorem ofName?_name (l : Library) : ofName? l.name = some l := by
  cases l <;> decide

/-- No two libraries share a name. -/
private theorem name_injective : Function.Injective name := by
  intro l l' h
  have hsome : some l = some l' := by rw [← ofName?_name, h, ofName?_name]
  exact Option.some.inj hsome

/-- What is found by a name has that name. -/
theorem name_of_ofName? {word : String} {l : Library} (h : ofName? word = some l) :
    l.name = word := by
  simpa using List.find?_some h

/-- A name that was chosen before is refused. -/
private theorem choose_of_mem {chosen : List Library} {word : String} (h : word ∈ chosen.map name) :
    choose chosen word = .error (.duplicateLibrary word) := by
  have hany : chosen.any (·.name == word) = true := by simpa [List.any_eq_true] using h
  rw [choose, if_pos hany]

/-- Any other name is looked up, and refused if no library has it. -/
private theorem choose_of_not_mem {chosen : List Library} {word : String}
    (h : word ∉ chosen.map name) :
    choose chosen word =
      match ofName? word with
      | some library => .ok (chosen ++ [library])
      | none => .error (.unknownLibrary word) := by
  have hany : ¬ chosen.any (·.name == word) = true := by simpa [List.any_eq_true] using h
  exact if_neg hany

/-- A choice is accepted if it consists of the names of different libraries, and these are then
    the active ones, in the same order. -/
theorem foldlM_choose_eq_ok_iff {chosen : List Library} (hchosen : chosen.Nodup)
    {names : List String} {libraries : List Library} :
    names.foldlM choose chosen = .ok libraries ↔
      libraries.Nodup ∧ libraries.map name = chosen.map name ++ names := by
  induction names generalizing chosen with
  | nil =>
    have hok : (.ok chosen : Except ConfigError (List Library)) = .ok libraries ↔
        libraries = chosen := by simp [eq_comm]
    rw [List.foldlM_nil, List.append_nil, (List.map_injective_iff.2 name_injective).eq_iff]
    exact hok.trans ⟨fun h => ⟨h ▸ hchosen, h⟩, fun h => h.2⟩
  | cons word names ih =>
    rw [List.foldlM_cons]
    by_cases hmem : word ∈ chosen.map name
    · -- the name was chosen before, so the names are not all different
      rw [choose_of_mem hmem]
      constructor
      · exact fun h => nomatch h
      · rintro ⟨hnodup, hnames⟩
        have hdistinct := (List.nodup_map_iff name_injective).2 hnodup
        rw [hnames, List.nodup_append] at hdistinct
        exact absurd rfl (hdistinct.2.2 word hmem word List.mem_cons_self)
    · rw [choose_of_not_mem hmem]
      cases hl : ofName? word with
      | some l =>
        obtain rfl := name_of_ofName? hl
        -- the library is new, so the choice so far still has no library twice
        have hfresh : l ∉ chosen := fun h => hmem (List.mem_map_of_mem h)
        have hnodup : (chosen ++ [l]).Nodup := by
          rw [List.nodup_append]
          refine ⟨hchosen, List.nodup_singleton l, ?_⟩
          intro a ha b hb hab
          rw [List.mem_singleton] at hb
          exact hfresh (hb ▸ hab ▸ ha)
        show names.foldlM choose (chosen ++ [l]) = .ok libraries ↔ _
        rw [ih hnodup]
        simp
      | none =>
        -- no library has the name
        constructor
        · exact fun h => nomatch h
        · rintro ⟨-, hnames⟩
          have hword : word ∈ libraries.map name := by simp [hnames]
          obtain ⟨l, -, rfl⟩ := List.mem_map.1 hword
          rw [ofName?_name] at hl
          cases hl

/-- In another order a choice is accepted just as well, and the same libraries are active. -/
private theorem exists_choose_of_perm {names names' : List String} (h : names'.Perm names)
    {libraries : List Library} (hchosen : names.foldlM choose [] = .ok libraries) :
    ∃ libraries', names'.foldlM choose [] = .ok libraries' ∧ libraries'.Perm libraries := by
  obtain ⟨hnodup, hnames⟩ := (foldlM_choose_eq_ok_iff List.nodup_nil).1 hchosen
  have hnames : names = libraries.map name := by simpa using hnames.symm
  -- the names go with their libraries, so they change places together
  have hnamed : List.Forall₂ (fun word l => word = name l) names libraries := by
    rw [hnames, List.forall₂_map_left_iff]
    exact List.forall₂_same.2 fun _ _ => rfl
  obtain ⟨libraries', hnamed', hperm⟩ := List.perm_comp_forall₂ h hnamed
  have hnames' : names' = libraries'.map name := by
    clear h hperm
    induction hnamed' with
    | nil => rfl
    | cons hword _ ih => rw [List.map_cons, ← hword, ← ih]
  refine ⟨libraries', (foldlM_choose_eq_ok_iff List.nodup_nil).2 ⟨hperm.nodup_iff.2 hnodup, ?_⟩,
    hperm⟩
  rw [hnames', List.map_nil, List.nil_append]

/-! ## Names of primitives -/

/-- Every library is listed. -/
theorem mem_all (l : Library) : l ∈ all := by
  cases l <;> decide

/-- The names that a library defines. -/
def primitiveNames (l : Library) : List String :=
  (l.primitives : List (Primitive Unit)).map Primitive.name

/-- They do not depend on the host. -/
theorem name_mem_primitiveNames {l : Library} {p : Primitive κ} (hp : p ∈ l.primitives) :
    p.name ∈ l.primitiveNames := by
  have hnames : (l.primitives : List (Primitive κ)).map Primitive.name = l.primitiveNames := by
    cases l <;> rfl
  rw [← hnames]
  exact List.mem_map_of_mem hp

/-- No two libraries define the same name. -/
theorem eq_of_primitive_name {l l' : Library} {p p' : Primitive κ} (hp : p ∈ l.primitives)
    (hp' : p' ∈ l'.primitives) (hname : p.name = p'.name) : l = l' := by
  have hdisjoint : ∀ l ∈ all, ∀ l' ∈ all, ∀ name ∈ l.primitiveNames,
      name ∈ l'.primitiveNames → l = l' := by
    decide +kernel
  have hmem' : p.name ∈ l'.primitiveNames := hname ▸ name_mem_primitiveNames hp'
  exact hdisjoint l l.mem_all l' l'.mem_all p.name (name_mem_primitiveNames hp) hmem'

end Library

/-! ## Meanings -/

namespace Registry

/-- A name that a library defines is the name of one of its primitives, or of a host function. -/
private theorem of_find?_entriesOf {hosts : List (String × HostFunction κ)} {l : Library}
    {name : String} (h : (entriesOf hosts l).find? (·.name == name) ≠ none) :
    (∃ p ∈ (l.primitives : List (Primitive κ)), p.name = name) ∨
      l = .ext ∧ ∃ f ∈ hosts, f.1 = name := by
  obtain ⟨e, he⟩ := Option.ne_none_iff_exists'.1 h
  have hname : e.name = name := by simpa using List.find?_some he
  have hmem := List.mem_of_find?_eq_some he
  cases l with
  | ext =>
    obtain ⟨f, hf, rfl⟩ := List.mem_map.1 hmem
    exact .inr ⟨rfl, f, hf, hname⟩
  | _ =>
    obtain ⟨p, hp, rfl⟩ := List.mem_map.1 hmem
    exact .inl ⟨p, hp, hname⟩

/-- Every name keeps its meaning if the libraries change places and the host takes no name of the
    others. -/
theorem find?_reordered {hosts : List (String × HostFunction κ)}
    {libraries libraries' : List Library} (hperm : libraries'.Perm libraries)
    (hhosts : ∀ f ∈ hosts, ∀ l ∈ libraries, ∀ p ∈ (l.primitives : List (Primitive κ)),
      p.name ≠ f.1) (name : String) :
    (ofLibraries hosts libraries').find? name = (ofLibraries hosts libraries).find? name := by
  rw [find?_ofLibraries, find?_ofLibraries]
  apply findSome?_eq_of_perm hperm
  intro l hl l' hl' hfound hfound'
  obtain ⟨p, hp, hpname⟩ | ⟨rfl, f, hf, hfname⟩ := of_find?_entriesOf hfound
  · obtain ⟨p', hp', hpname'⟩ | ⟨rfl, f, hf, hfname⟩ := of_find?_entriesOf hfound'
    · -- two libraries of the language share no name
      exact Library.eq_of_primitive_name hp hp' (hpname.trans hpname'.symm)
    · exact absurd (hpname.trans hfname.symm) (hhosts f hf l hl p hp)
  · obtain ⟨p', hp', hpname'⟩ | ⟨rfl, -⟩ := of_find?_entriesOf hfound'
    · exact absurd (hpname'.trans hfname.symm) (hhosts f hf l' hl' p' hp')
    · rfl

/-- A choice that is accepted gives a registry. -/
private theorem ofOptions_of_choose {o : Options κ} {libraries : List Library}
    (h : o.libraries.foldlM Library.choose [] = .ok libraries) :
    ofOptions o = .ok (ofLibraries o.hostFunctions libraries) := by
  rw [ofOptions, h]
  rfl

/-- A registry comes from a choice that was accepted. -/
theorem exists_choose_of_ofOptions {o : Options κ} {reg : Registry κ} (h : ofOptions o = .ok reg) :
    ∃ libraries, o.libraries.foldlM Library.choose [] = .ok libraries ∧
      reg = ofLibraries o.hostFunctions libraries := by
  cases hchosen : o.libraries.foldlM Library.choose [] with
  | error cause =>
    rw [ofOptions, hchosen] at h
    cases h
  | ok libraries =>
    rw [ofOptions_of_choose hchosen] at h
    exact ⟨libraries, rfl, (Except.ok.inj h).symm⟩

/-- A choice in another order is accepted if the choice is. -/
private theorem isOk_ofOptions_of_perm {o : Options κ} {names : List String}
    (hperm : names.Perm o.libraries) (h : (ofOptions o).isOk = true) :
    (ofOptions { o with libraries := names }).isOk = true := by
  cases hreg : ofOptions o with
  | error cause =>
    rw [hreg] at h
    cases h
  | ok reg =>
    obtain ⟨libraries, hchosen, -⟩ := exists_choose_of_ofOptions hreg
    obtain ⟨libraries', hchosen', -⟩ := Library.exists_choose_of_perm hperm hchosen
    rw [ofOptions_of_choose (o := { o with libraries := names }) hchosen']
    rfl

/-- Two accepted orders of the same libraries give each name the same meaning. -/
private theorem find?_ofOptions_of_perm {o : Options κ} {names : List String}
    {reg reg' : Registry κ} (hperm : names.Perm o.libraries)
    (hhosts : ∀ f ∈ o.hostFunctions, ∀ l : Library, l.name ∈ o.libraries →
      ∀ p ∈ (l.primitives : List (Primitive κ)), p.name ≠ f.1)
    (h : ofOptions o = .ok reg) (h' : ofOptions { o with libraries := names } = .ok reg')
    (name : String) : reg'.find? name = reg.find? name := by
  obtain ⟨libraries, hchosen, rfl⟩ := exists_choose_of_ofOptions h
  obtain ⟨libraries', hchosen', hlibraries⟩ := Library.exists_choose_of_perm hperm hchosen
  rw [ofOptions_of_choose (o := { o with libraries := names }) hchosen'] at h'
  obtain rfl := Except.ok.inj h'
  have hnames := ((Library.foldlM_choose_eq_ok_iff List.nodup_nil).1 hchosen).2
  refine find?_reordered hlibraries (fun f hf l hl p hp => hhosts f hf l ?_ p hp) name
  rw [List.map_nil, List.nil_append] at hnames
  exact hnames ▸ List.mem_map_of_mem hl

end Registry

/-! ## Programs -/

namespace Session

/-- The order of libraries does not matter as long as the host takes no name of the others.  A
    choice is accepted in every order or in none; and where it is accepted, every program ends in
    both orders with the same value or error and leaves the same machine behind, with the same
    lines printed.  The journals differ, since they tell the order. -/
theorem run_reordered {o : Options κ} {names : List String} (hnames : names.Perm o.libraries)
    (hhosts : ∀ f ∈ o.hostFunctions, ∀ l : Library, l.name ∈ o.libraries →
      ∀ p ∈ (l.primitives : List (Primitive κ)), p.name ≠ f.1) :
    ((Registry.ofOptions o).isOk = true ↔
      (Registry.ofOptions { o with libraries := names }).isOk = true) ∧
    ∀ (m : Machine κ) (fuel : Nat) (s s' : Session κ), start o m fuel = .ok s →
      start { o with libraries := names } m fuel = .ok s' → ∀ source,
        (s'.run source).1 = (s.run source).1 ∧
          (s'.run source).2.machine.silent = (s.run source).2.machine.silent := by
  constructor
  · exact ⟨Registry.isOk_ofOptions_of_perm hnames,
      Registry.isOk_ofOptions_of_perm (o := { o with libraries := names }) hnames.symm⟩
  · intro m fuel s s' hs hs' source
    obtain ⟨hchosen, hmachine, hfuel⟩ := of_start hs
    obtain ⟨hchosen', hmachine', hfuel'⟩ := of_start hs'
    have hfind := Registry.find?_ofOptions_of_perm hnames hhosts hchosen hchosen'
    obtain ⟨libraries, hlibraries⟩ := Registry.exists_of_ofOptions hchosen
    have hpaired : s.registry.Paired (.alike s.registry s'.registry) s'.registry := by
      rw [hlibraries] at hfind ⊢
      exact Simulation.registry_paired_alike fun {name _} he => (hfind name).trans he
    have hrun : (s.evaluator.run source).Paired (.alike s.registry s'.registry) (fun _ => True)
        (fun _ => True) (s'.evaluator.run source) := by
      unfold evaluator
      rw [hfuel, hfuel']
      exact (Evaluator.run_paired (Evaluator.withFuel_paired hpaired fuel)
        (Simulation.over_ofContext _ _ _) trivial source).imp fun _ _ => trivial
    -- no name is gained, so no run is lost
    have hkept : ∀ u, ¬ s.registry.Gains s'.registry u := by
      rintro _ ⟨name, rfl, hnone, hsome⟩
      rw [Registry.owner?, hfind name] at hsome
      exact hsome hnone
    obtain ⟨hsame, hafter⟩ :=
      perform_of_paired hrun (hmachine'.trans hmachine.symm) fun u _ => hkept u
    exact ⟨congrArg (Except.mapError Unwind.toError) hsame, hafter⟩

/-- With the host in front of the libraries or behind them, a program finds the functions of all
    three. -/
theorem run_reordered_host_first :
    ∃ (o : Options Unit) (source : String) (s s' : Session Unit),
      o.libraries = ["core", "string", "ext"] ∧ o.hostFunctions.map Prod.fst = ["shout"] ∧
      start o { context := () } = .ok s ∧
      start { o with libraries := ["ext", "string", "core"] } { context := () } = .ok s' ∧
      source = "(print (shout)) (not (string? (shout)))" ∧
      (s.run source).1 = .ok (.bool false) ∧ (s'.run source).1 = (s.run source).1 ∧
      (s'.run source).2.machine.silent = (s.run source).2.machine.silent := by
  let o : Options Unit :=
    { libraries := ["core", "string", "ext"],
      hostFunctions := [("shout", fun _ => pure (.string "hey"))] }
  have hs : start o { context := () } =
      .ok ⟨.ofLibraries o.hostFunctions [.core, .string, .ext], { context := () }, ampleFuel⟩ := rfl
  have hs' : start { o with libraries := ["ext", "string", "core"] } { context := () } =
      .ok ⟨.ofLibraries o.hostFunctions [.ext, .string, .core], { context := () }, ampleFuel⟩ := rfl
  have hnames : List.Perm ["ext", "string", "core"] o.libraries :=
    List.perm_iff_count.2 fun word => by simp [o, List.count_cons]; omega
  have hfree : ∀ l ∈ Library.all, ∀ p ∈ (l.primitives : List (Primitive Unit)),
      p.name ≠ "shout" := by decide +kernel
  have hhosts : ∀ f ∈ o.hostFunctions, ∀ l : Library, l.name ∈ o.libraries →
      ∀ p ∈ (l.primitives : List (Primitive Unit)), p.name ≠ f.1 := by
    refine List.forall_mem_singleton.2 fun l _ => hfree l ?_
    cases l <;> decide
  obtain ⟨-, hrun⟩ := run_reordered hnames hhosts
  obtain ⟨hsame, hafter⟩ := hrun _ _ _ _ hs hs' "(print (shout)) (not (string? (shout)))"
  exact ⟨o, _, _, _, rfl, rfl, hs, hs', rfl, by decide +kernel, hsame, hafter⟩

end Session
end Lisplet
