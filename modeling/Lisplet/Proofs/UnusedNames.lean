import Lisplet.Proofs.Conservativity
import Lisplet.Proofs.Contents

/-! # Names that a program does not use

A binding in the root frame is in reach of everything a program does, since all frames hang off
the root.  A program that does not use the name still cannot tell that it is there: it ends in the
same way, and leaves the same machine behind but for that one binding.

The two runs are compared step by step.  Throughout, the frames of the second run are those of the
first with the binding put in front in the root (`Scopes.withGlobal`), and no frame of the first
run binds the name.

* `Scopes.withGlobal`             frames with one more binding in the root
* `Simulation.unused`             runs with and without the binding
* `Session.run_unused_global`     they end alike -/

namespace Lisplet

open Eval

variable {κ : Type}

namespace Scopes

variable {s : Scopes} {f g : FrameRef} {x name : String} {v w : Value}

/-- The frames with a binding put in front in the root. -/
def withGlobal (s : Scopes) (x : String) (v : Value) : Scopes :=
  ⟨s.frames.modify root.index fun fr => { fr with bindings := (x, v) :: fr.bindings }⟩

/-- The root has one more binding. -/
private theorem frame_withGlobal_root (h : 0 < s.frames.size) :
    (s.withGlobal x v).frame root =
      { s.frame root with bindings := (x, v) :: (s.frame root).bindings } := by
  simp [withGlobal, frame, root, h, Array.getElem_modify]

/-- All other frames are as they were. -/
private theorem frame_withGlobal_of_ne (h : f ≠ root) : (s.withGlobal x v).frame f = s.frame f := by
  have hindex : root.index ≠ f.index := fun he => h (congrArg FrameRef.mk he.symm)
  simp [withGlobal, frame, Array.getElem?_modify, hindex]

/-- All frames keep their places. -/
private theorem outer_withGlobal (h : 0 < s.frames.size) (f : FrameRef) :
    ((s.withGlobal x v).frame f).outer = (s.frame f).outer := by
  by_cases hf : f = root
  · rw [hf, frame_withGlobal_root h]
  · rw [frame_withGlobal_of_ne hf]

/-- All other names keep their bindings. -/
private theorem lookup_withGlobal (h : 0 < s.frames.size) (hname : name ≠ x) (f : FrameRef) :
    ((s.withGlobal x v).frame f).bindings.lookup name = (s.frame f).bindings.lookup name := by
  by_cases hf : f = root
  · rw [hf, frame_withGlobal_root h, List.lookup_cons, beq_eq_false_iff_ne.2 hname]
  · rw [frame_withGlobal_of_ne hf]

/-- All other names are found where they were found. -/
private theorem holder?_withGlobal (h : 0 < s.frames.size) (hname : name ≠ x) (f : FrameRef) :
    (s.withGlobal x v).holder? f name = s.holder? f name := by
  simp only [holder?, chain, Bindings.binds, outer_withGlobal h, lookup_withGlobal h hname]

/-- So they mean what they meant. -/
private theorem get?_withGlobal (h : 0 < s.frames.size) (hname : name ≠ x) (f : FrameRef) :
    (s.withGlobal x v).get? f name = s.get? f name := by
  simp only [get?, holder?_withGlobal h hname, lookup_withGlobal h hname]

/-- There are as many frames. -/
private theorem size_withGlobal (s : Scopes) (x : String) (v : Value) :
    (s.withGlobal x v).frames.size = s.frames.size := Array.size_modify ..

/-- Frames are the same if there are as many of them and each is the same. -/
private theorem eq_of_frames {s' : Scopes} (hsize : s.frames.size = s'.frames.size)
    (hframe : ∀ f : FrameRef, f.index < s.frames.size → s.frame f = s'.frame f) : s = s' := by
  have hframes : s.frames = s'.frames := by
    refine Array.ext hsize fun i hi hi' => ?_
    simpa [frame, hi, hi'] using hframe ⟨i⟩ hi
  cases s
  cases s'
  exact congrArg mk hframes

/-- It makes no difference whether a frame is made before or after. -/
private theorem spawn_withGlobal (h : 0 < s.frames.size) (f : FrameRef) :
    (s.withGlobal x v).spawn f = (s.spawn f).withGlobal x v := by
  have hsize : 0 < (s.spawn f).frames.size := s.size_spawn f ▸ Nat.succ_pos _
  refine eq_of_frames (by simp only [size_spawn, size_withGlobal]) fun g hg => ?_
  obtain ⟨hlt, hframe⟩ | ⟨rfl, hframe⟩ := frame_spawn_cases hg
  · rw [size_withGlobal] at hlt
    rw [hframe]
    -- an old frame, which may be the root
    by_cases hroot : g = root
    · subst hroot
      rw [frame_withGlobal_root h, frame_withGlobal_root hsize, frame_spawn_of_lt hlt]
    · rw [frame_withGlobal_of_ne hroot, frame_withGlobal_of_ne hroot, frame_spawn_of_lt hlt]
  · -- the new frame is not the root
    have hnext : (s.withGlobal x v).next = s.next := congrArg FrameRef.mk (size_withGlobal s x v)
    have hroot : s.next ≠ root := fun he => Nat.ne_of_gt h (congrArg FrameRef.index he)
    rw [hframe, hnext, frame_withGlobal_of_ne hroot, frame_spawn_next, chain, chain,
      outer_withGlobal h]

/-- Nor does it when another name is bound. -/
private theorem define_withGlobal (h : 0 < s.frames.size) (hname : name ≠ x) (f : FrameRef)
    (w : Value) : (s.withGlobal x v).define f name w = (s.define f name w).withGlobal x v := by
  have hsize : 0 < (s.define f name w).frames.size := s.size_define f name w ▸ h
  refine eq_of_frames (by simp only [size_define, size_withGlobal]) fun g hg => ?_
  rw [size_define] at hg
  have hlt : g.index < s.frames.size := s.size_withGlobal x v ▸ hg
  by_cases hfg : f = g
  · subst hfg
    rw [frame_define_self hg]
    by_cases hroot : f = root
    · -- the new binding goes behind the one in front
      subst hroot
      rw [frame_withGlobal_root h, frame_withGlobal_root hsize, frame_define_self hlt]
      simp only [Bindings.insert, if_neg hname.symm]
    · rw [frame_withGlobal_of_ne hroot, frame_withGlobal_of_ne hroot, frame_define_self hlt]
  · rw [frame_define_of_ne _ hfg]
    by_cases hroot : g = root
    · subst hroot
      rw [frame_withGlobal_root h, frame_withGlobal_root hsize, frame_define_of_ne s hfg]
    · rw [frame_withGlobal_of_ne hroot, frame_withGlobal_of_ne hroot, frame_define_of_ne s hfg]

/-- Where the name is bound first, the binding is in front. -/
private theorem define_start (x : String) (v : Value) :
    start.define root x v = start.withGlobal x v := rfl

end Scopes

/-! ## Two runs -/

/-- Programs may meet everything but the name. -/
def Vocabulary.unused (x : String) : Vocabulary where
  allowsName name := name ≠ x
  allowsString _ := True
  allowsList _ := True
  allowsBuiltin _ := True

/-- All values may be met. -/
private theorem Vocabulary.allows_unused (x : String) (v : Value) :
    (Vocabulary.unused x).Allows v := by
  cases v <;> trivial

/-- An expression without the name keeps to the vocabulary. -/
private theorem Vocabulary.over_unused {x : String} {e : Expr} (h : .identifier x ∉ e.atoms) :
    e.Over (.unused x) := by
  intro atom hatom
  cases atom with
  | identifier name =>
    rintro rfl
    exact h hatom
  | _ => trivial

namespace Simulation

/-- The second side has a binding in the root that the first side lacks. -/
def unused (κ : Type) (x : String) (v : Value) : Simulation κ κ where
  toVocabulary := .unused x
  allowsLists _ := True
  scopes s s' := s' = s.withGlobal x v ∧ 0 < s.frames.size ∧ s.Holds fun b => b.1 ≠ x
  knows _ _ := True
  context k k' := k' = k
  loses := Unwind.Never
  isFinal_of_loses := @Unwind.Never.isFinal κ
  allows_next _ := trivial
  alloc _ _ := trivial
  next_eq := by
    rintro s _ ⟨rfl, -⟩
    exact congrArg FrameRef.mk (s.size_withGlobal x v)
  get?_eq := by
    rintro s _ f name ⟨rfl, hsize, -⟩ - hname
    exact Scopes.get?_withGlobal hsize hname f
  allows_of_get? _ _ := Vocabulary.allows_unused x _
  holder?_eq := by
    rintro s _ f name ⟨rfl, hsize, -⟩ - hname
    exact Scopes.holder?_withGlobal hsize hname f
  knows_holder _ _ _ := trivial
  spawn := by
    rintro s _ f ⟨rfl, hsize, hnames⟩ -
    exact ⟨Scopes.spawn_withGlobal hsize f, s.size_spawn f ▸ Nat.succ_pos _, hnames.spawn⟩
  knows_next _ _ := trivial
  knows_spawn _ := trivial
  define := by
    rintro s _ f name w ⟨rfl, hsize, hnames⟩ - hname -
    exact ⟨Scopes.define_withGlobal hsize hname f w, s.size_define f name w ▸ hsize,
      hnames.define hname⟩
  knows_define _ := trivial

variable {x : String} {v : Value}

/-- The vocabulary is as open as the libraries need it. -/
private theorem isOpen_unused : (unused κ x v).IsOpen where
  allows_string _ := trivial
  allows_of_mem _ _ := Vocabulary.allows_unused x _
  modify _ _ := trivial

/-- Host functions do not see frames. -/
private theorem hostFunction_paired_unused (f : HostFunction κ) : f.Paired (unused κ x v) f :=
  f.paired_self (Vocabulary.allows_unused x) (fun _ => trivial) Iff.rfl

/-- No library function looks at frames. -/
private theorem registry_paired_unused (hosts : List (String × HostFunction κ))
    (libraries : List Library) :
    (Registry.ofLibraries hosts libraries).Paired (unused κ x v)
      (Registry.ofLibraries hosts libraries) :=
  Registry.ofLibraries_paired isOpen_unused (fun _ => trivial)
    (List.forall₂_same.2 fun f _ => ⟨rfl, hostFunction_paired_unused f.2⟩) libraries

end Simulation

namespace Session

/-- Binds a name in the root frame of a session. -/
def define (s : Session κ) (name : String) (v : Value) : Session κ :=
  (s.perform (Eval.define Scopes.root name v)).2

/-- A name that a program does not use makes no difference to it.  With the name bound in the root
    before the run, the program ends on a fresh machine with the same value or error and the same
    lines printed, and leaves the same machine behind with that binding in addition, for a name
    that has no other. -/
theorem run_unused_global {o : Options κ} {context : κ} {journal : Option (Array Record)}
    {fuel : Nat} {s : Session κ} (hs : start o { context, journal } fuel = .ok s)
    {source x : String}
    (hx : ∀ es, Expr.parse source = .ok es → .identifier x ∉ Expr.atomsAll es) (v : Value) :
    ((s.define x v).run source).1 = (s.run source).1 ∧
    ((s.define x v).run source).2.machine.silent =
      { (s.run source).2.machine.silent with
        scopes := (s.run source).2.machine.scopes.withGlobal x v } ∧
    ∀ f, ∀ b ∈ ((s.run source).2.machine.scopes.frame f).bindings, b.1 ≠ x := by
  obtain ⟨hchosen, hmachine, -⟩ := of_start hs
  obtain ⟨libraries, hlibraries⟩ := Registry.exists_of_ofOptions hchosen
  have hreg : s.registry.Paired (.unused κ x v) s.registry := by
    rw [hlibraries]
    exact Simulation.registry_paired_unused _ _
  -- the two machines at the start
  have hscopes : s.machine.scopes = .start := congrArg Machine.scopes hmachine
  have hclosures : s.machine.closures = #[] := congrArg Machine.closures hmachine
  have hrelated : (Simulation.unused κ x v).Related (fun _ => True) s.machine
      (s.define x v).machine := {
    lists_eq := rfl
    lists := trivial
    closures_eq := rfl
    -- a fresh machine has no closures
    closures := by
      rw [hclosures]
      exact fun c hc => absurd hc (Array.not_mem_empty c)
    printed_eq := rfl
    scopes := by
      refine ⟨?_, hscopes ▸ Nat.one_pos, hscopes ▸ .start⟩
      rw [hscopes, ← Scopes.define_start, ← hscopes]
      rfl
    context := rfl
    known := fun _ _ => trivial }
  -- what the program is made of keeps to the vocabulary
  have hover : ∀ es, Expr.parse source = .ok es → ∀ e ∈ es,
      e.Over (Simulation.unused κ x v).toVocabulary := fun es hes e he =>
    Vocabulary.over_unused fun hmem => hx es hes (Expr.mem_atomsAll.2 ⟨e, he, hmem⟩)
  obtain ⟨hsame, hafter, -⟩ := perform_paired
    (Evaluator.run_paired_of_parse (Evaluator.withFuel_paired hreg s.fuel) trivial hover)
    hrelated fun _ _ h => h
  refine ⟨congrArg (Except.mapError Unwind.toError) hsame, ?_, hafter.scopes.2.2⟩
  simp only [Machine.silent, Machine.mk.injEq]
  exact ⟨hafter.lists_eq, hafter.scopes.1, hafter.closures_eq, hafter.printed_eq, hafter.context,
    trivial⟩

/-- The name may be one that a library has: with `print` bound to a number, a closure that looks
    through the root frame for another name does what it did. -/
theorem run_unused_global_print :
    ∃ (s : Session Unit) (source : String), start {} { context := () } = .ok s ∧
      source = "(let a \"x\") (let with (lambda b (str a b))) (with \"y\")" ∧
      (s.run source).1 = .ok (.string "xy") ∧
      ((s.define "print" (.number 7)).run source).1 = (s.run source).1 ∧
      ((s.define "print" (.number 7)).run source).2.machine.silent =
        { (s.run source).2.machine.silent with
          scopes := (s.run source).2.machine.scopes.withGlobal "print" (.number 7) } := by
  have hs : start {} { context := () } =
      .ok ⟨.ofLibraries [] Library.all, { context := () }, ampleFuel⟩ := rfl
  have hparse : Expr.parse "(let a \"x\") (let with (lambda b (str a b))) (with \"y\")" =
      .ok [.call [.identifier "let", .identifier "a", .string "x"],
        .call [.identifier "let", .identifier "with", .call [.identifier "lambda",
          .identifier "b", .call [.identifier "str", .identifier "a", .identifier "b"]]],
        .call [.identifier "with", .string "y"]] := by rfl
  have hunused : ∀ es, Expr.parse "(let a \"x\") (let with (lambda b (str a b))) (with \"y\")" =
      .ok es → .identifier "print" ∉ Expr.atomsAll es := by
    intro es hes
    cases hparse.symm.trans hes
    simp [Expr.atomsAll, Expr.atoms]
  obtain ⟨hsame, hmachine, -⟩ := run_unused_global hs hunused (.number 7)
  exact ⟨_, _, hs, rfl, by decide +kernel, hsame, hmachine⟩

end Session
end Lisplet
