import Lisplet.Proofs.Grammar
import Lisplet.Proofs.Lexing
import Lisplet.Proofs.PairedEvaluation

/-! # Sessions compose

A text may be handed to a session in one piece or line by line.  The tokens of two texts on lines
of their own are those of the one and those of the other; a reader that has finished with the
first starts afresh on the second; and evaluation goes on where it was.

* `Expr.parse_append`      reading two texts at once
* `Session.runBoth`        running one text after the other
* `Session.run_append`     the two ways end alike -/

namespace Lisplet

open Eval

/-- Two texts that can be read are read one after the other. -/
theorem Expr.parse_append {a b : String} {es fs : List Expr} (ha : parse a = .ok es)
    (hb : parse b = .ok fs) (hliteral : (a.toList.foldl Lexer.feed {}).inString = false) :
    parse (a ++ "\n" ++ b) = .ok (es ++ fs) := by
  rw [parse, Token.scan_append b hliteral]
  exact ofTokens_of_renderings
    ((renderings_of_ofTokens ha).append (renderings_of_ofTokens hb))

variable {κ : Type}

namespace Evaluator

variable {σ : Simulation κ κ} {K : FrameRef → Prop}

/-- Evaluating two sequences of expressions in turn. -/
private theorem body_append (ev : Evaluator κ) (es : List Expr) {fs : List Expr} (hfs : fs ≠ [])
    (scope : FrameRef) :
    ev.body (es ++ fs) scope = (do
      let _ ← ev.body es scope
      ev.body fs scope) := by
  -- the value before the first of some expressions is not used
  cases fs with
  | nil => exact absurd rfl hfs
  | cons f fs => simp only [body, List.foldlM_append, List.foldlM_cons]

/-- A text that can be read is evaluated, with some records before that. -/
private theorem run_eq_of_parse (ev : Evaluator κ) {source : String} {es : List Expr}
    (h : Expr.parse source = .ok es) :
    ev.run source = (do
      Eval.record .trace fun _ =>
        "tokenized " ++ toString (Token.scan source).length ++ " tokens"
      Eval.record .debug fun _ => "parsed " ++ toString es.length ++ " top-level forms"
      Eval.record .debug fun _ =>
        "running " ++ toString es.length ++ " top-level expressions"
      ev.body es Scopes.root) := by
  have hread : Expr.ofTokens (Token.scan source) = .ok es := h
  simp only [run, Eval.read, hread, bind_assoc, pure_bind]

section Paired

variable {ev ev' : Evaluator κ} (hev : ev.Paired σ ev') (hover : ∀ e : Expr, e.Over σ.toVocabulary)
  (hroot : K Scopes.root)
include hev hover hroot

/-- The expressions of a text do what the text does. -/
private theorem body_paired_run {source : String} {es : List Expr}
    (h : Expr.parse source = .ok es) :
    (ev.body es Scopes.root).Paired σ K σ.Allows (ev'.run source) := by
  rw [ev'.run_eq_of_parse h]
  refine .record_right (.record_right (.record_right ?_ _ _) _ _) _ _
  exact body_paired hev (fun e _ => hover e) hroot

/-- Running two texts at once does what running them in turn does. -/
private theorem run_append_paired {a b : String} {es fs : List Expr} (ha : Expr.parse a = .ok es)
    (hb : Expr.parse b = .ok fs) (hfs : fs ≠ [])
    (hliteral : (a.toList.foldl Lexer.feed {}).inString = false) :
    (ev.run (a ++ "\n" ++ b)).Paired σ K σ.Allows (do
      let _ ← ev'.run a
      ev'.run b) := by
  -- what is read is recorded at different times, and only the journals show it
  have hbodies := (body_paired_run hev hover hroot ha).bind fun _ _ =>
    body_paired_run hev hover hroot hb
  rw [ev.run_eq_of_parse (Expr.parse_append ha hb hliteral), ev.body_append es hfs]
  exact .record_left (.record_left (.record_left hbodies _ _) _ _) _ _

end Paired

end Evaluator

namespace Session

/-- Runs a text and, if that succeeded, another one. -/
def runBoth (s : Session κ) (a b : String) : Except Error Value × Session κ :=
  match s.run a with
  | (.ok _, s) => s.run b
  | (.error e, s) => (.error e, s)

/-- Running one text after the other is one evaluation. -/
private theorem runBoth_eq_perform (s : Session κ) (a b : String) :
    s.runBoth a b =
      ((s.perform do let _ ← s.evaluator.run a; s.evaluator.run b).1.mapError Unwind.toError,
        (s.perform do let _ ← s.evaluator.run a; s.evaluator.run b).2) := by
  cases ha : s.evaluator.run a s.machine with
  | ok v m₁ =>
    simp only [runBoth, run, perform, ha, bind_ok ha]
    rfl
  | error u m₁ =>
    simp only [runBoth, run, perform, ha, bind_error ha]
    rfl

section Stock

variable (hostFunctions : List (String × HostFunction κ)) (libraries : List Library)
  (m : Machine κ) (fuel : Nat)

/-- Sessions compose: two texts that can be read, the second of which is not empty, run on lines
    of their own as they run in turn.  The outcome and the machine that is left are the same, up
    to what the journal tells about reading. -/
theorem run_append {a b : String} {es fs : List Expr} (ha : Expr.parse a = .ok es)
    (hb : Expr.parse b = .ok fs) (hfs : fs ≠ [])
    (hliteral : (a.toList.foldl Lexer.feed {}).inString = false) :
    (run ⟨.ofLibraries hostFunctions libraries, m, fuel⟩ (a ++ "\n" ++ b)).1 =
      (runBoth ⟨.ofLibraries hostFunctions libraries, m, fuel⟩ a b).1 ∧
    (run ⟨.ofLibraries hostFunctions libraries, m, fuel⟩ (a ++ "\n" ++ b)).2.machine.silent =
      (runBoth ⟨.ofLibraries hostFunctions libraries, m, fuel⟩ a b).2.machine.silent := by
  have hreg := Simulation.registry_paired_alike
    (fun {_ _} (h : (Registry.ofLibraries hostFunctions libraries).find? _ = some _) => h)
  -- nothing differs but journals, so the configuration is paired with itself
  have hrun := Evaluator.run_append_paired (K := fun _ => True)
    (Evaluator.withFuel_paired hreg fuel) (Simulation.over_ofContext _ _ _) trivial ha hb hfs
    hliteral
  obtain ⟨houtcome, hmachine⟩ := perform_of_paired hrun
    (s := ⟨.ofLibraries hostFunctions libraries, m, fuel⟩) rfl
    fun u _ => Registry.not_gains_self _ u
  rw [runBoth_eq_perform]
  exact ⟨congrArg (Except.mapError Unwind.toError) houtcome.symm, hmachine.symm⟩

/-- The first text ends inside a comment. -/
theorem run_append_comment :
    (∃ es fs, Expr.parse "(let x \"a\") ; greeting" = .ok es ∧
      Expr.parse "(print x)" = .ok fs ∧ fs ≠ []) ∧
    (run ⟨.ofLibraries [] Library.all, { context := () }, ampleFuel⟩
        ("(let x \"a\") ; greeting" ++ "\n" ++ "(print x)")).1 =
      (runBoth ⟨.ofLibraries [] Library.all, { context := () }, ampleFuel⟩
        "(let x \"a\") ; greeting" "(print x)").1 ∧
    (run ⟨.ofLibraries [] Library.all, { context := () }, ampleFuel⟩
        ("(let x \"a\") ; greeting" ++ "\n" ++ "(print x)")).2.machine.silent =
      (runBoth ⟨.ofLibraries [] Library.all, { context := () }, ampleFuel⟩
        "(let x \"a\") ; greeting" "(print x)").2.machine.silent := by
  have ha : Expr.parse "(let x \"a\") ; greeting" =
      .ok [.call [.identifier "let", .identifier "x", .string "a"]] := by rfl
  have hb : Expr.parse "(print x)" = .ok [.call [.identifier "print", .identifier "x"]] := by rfl
  refine ⟨⟨_, _, ha, hb, List.cons_ne_nil _ _⟩, ?_⟩
  exact run_append [] Library.all { context := () } ampleFuel ha hb (List.cons_ne_nil _ _)
    (by decide)

end Stock
end Session
end Lisplet
