import Lisplet.Machine

/-! # Reasoning about evaluations

`x.Ends m post exit` says how the evaluation `x` ends when it starts on the machine `m`: with
a value and a machine that satisfy `post`, or by unwinding, and then `exit` holds of the cause
and of the machine that is left.  Every evaluation ends in one of the two ways, so the
statement is never empty.

There is one rule for each way of putting evaluations together.  The rules are equivalences:
they take a statement about a compound apart without losing anything. -/

namespace Lisplet.Eval

variable {κ α β : Type}

/-- How an evaluation ends when it starts on a given machine. -/
def Ends (x : Eval κ α) (m : Machine κ) (post : α → Machine κ → Prop)
    (exit : Unwind → Machine κ → Prop) : Prop :=
  match x m with
  | .ok a m' => post a m'
  | .error u m' => exit u m'

/-- The machine that an evaluation leaves, whether it ends with a value or unwinds. -/
def after (x : Eval κ α) (m : Machine κ) : Machine κ :=
  match x m with
  | .ok _ m' => m'
  | .error _ m' => m'

variable {x : Eval κ α} {m : Machine κ} {post post' : α → Machine κ → Prop}
  {exit exit' : Unwind → Machine κ → Prop}

/-- What is known about the end of an evaluation may be weakened. -/
theorem Ends.imp (h : x.Ends m post exit) (hpost : ∀ a m', post a m' → post' a m')
    (hexit : ∀ u m', exit u m' → exit' u m') : x.Ends m post' exit' := by
  unfold Ends at h ⊢
  split at h
  · exact hpost _ _ h
  · exact hexit _ _ h

/-- What is known about the value may be weakened by itself. -/
theorem Ends.imp_post (h : x.Ends m post exit) (hpost : ∀ a m', post a m' → post' a m') :
    x.Ends m post' exit :=
  h.imp hpost fun _ _ hu => hu

/-- Two things that are known about the end of an evaluation are known together. -/
theorem Ends.and (h : x.Ends m post exit) (h' : x.Ends m post' exit') :
    x.Ends m (fun a m' => post a m' ∧ post' a m') fun u m' => exit u m' ∧ exit' u m' := by
  unfold Ends at h h' ⊢
  cases hx : x m with
  | ok a m' =>
    simp only [hx] at h h'
    exact ⟨h, h'⟩
  | error u m' =>
    simp only [hx] at h h'
    exact ⟨h, h'⟩

/-- What holds of the machine at either end holds of the machine that is left. -/
theorem Ends.after {Q : Machine κ → Prop} (h : x.Ends m (fun _ m' => Q m') fun _ m' => Q m') :
    Q (x.after m) := by
  unfold Ends at h
  unfold Eval.after
  cases hx : x m <;> simpa only [hx] using h

/-- What holds of every result holds of the one that came out. -/
theorem Ends.of_ok {a : α} {m' : Machine κ} (h : x.Ends m post exit) (hx : x m = .ok a m') :
    post a m' := by
  simpa only [Ends, hx] using h

/-- What holds of every unwinding holds of the one that happened. -/
theorem Ends.of_error {u : Unwind} {m' : Machine κ} (h : x.Ends m post exit)
    (hx : x m = .error u m') : exit u m' := by
  simpa only [Ends, hx] using h

/-! ## Monad operations -/

/-- A value is there at once. -/
@[simp] theorem ends_pure (a : α) : (pure a : Eval κ α).Ends m post exit ↔ post a m := Iff.rfl

/-- To throw is to unwind. -/
@[simp] theorem ends_throw (u : Unwind) :
    (throw u : Eval κ α).Ends m post exit ↔ exit u m := Iff.rfl

/-- To fail is to unwind with the failure. -/
@[simp] theorem ends_fail (e : Error) :
    (fail e : Eval κ α).Ends m post exit ↔ exit (.failure e) m := Iff.rfl

/-- The second evaluation starts where the first ended with a value. -/
@[simp] theorem ends_bind (y : Eval κ β) (f : β → Eval κ α) :
    (y >>= f).Ends m post exit ↔ y.Ends m (fun b m' => (f b).Ends m' post exit) exit := by
  simp only [Ends, bind, EStateM.bind]
  cases y m <;> rfl

/-- The result is changed afterwards. -/
@[simp] theorem ends_map (y : Eval κ β) (f : β → α) :
    (f <$> y).Ends m post exit ↔ y.Ends m (fun b m' => post (f b) m') exit := by
  simp only [Ends, Functor.map, EStateM.map]
  cases y m <;> rfl

/-- A handler starts on the machine that the unwinding left: nothing is rolled back. -/
@[simp] theorem ends_tryCatch (handler : Unwind → Eval κ α) :
    (tryCatch x handler).Ends m post exit ↔
      x.Ends m post fun u m' => (handler u).Ends m' post exit := by
  -- a machine has no part that is saved apart, so what is restored is what was left
  have hrun : (tryCatch x handler : Eval κ α) m =
      match x m with
      | .ok a m' => .ok a m'
      | .error u m' => handler u m' := by
    show EStateM.tryCatch x handler m = _
    delta EStateM.tryCatch
    cases x m <;> rfl
  unfold Ends
  rw [hrun]
  cases x m <;> rfl

/-! ## The machine -/

/-- The machine is looked at. -/
@[simp] theorem ends_get {post : Machine κ → Machine κ → Prop} :
    (get : Eval κ (Machine κ)).Ends m post exit ↔ post m m := Iff.rfl

/-- The machine is changed. -/
@[simp] theorem ends_modify {post : Unit → Machine κ → Prop} (f : Machine κ → Machine κ) :
    (modify f : Eval κ Unit).Ends m post exit ↔ post () (f m) := Iff.rfl

/-- The machine is changed, and there is a result. -/
@[simp] theorem ends_modifyGet (f : Machine κ → α × Machine κ) :
    (modifyGet f : Eval κ α).Ends m post exit ↔ post (f m).1 (f m).2 := Iff.rfl

/-- An assignment binds the name where it is found, or else fails and leaves all as it was. -/
theorem assign_eq (f : FrameRef) (name : String) (v : Value) (m : Machine κ) :
    assign f name v m = match m.scopes.holder? f name with
      | some g => .ok v { m with scopes := m.scopes.define g name v }
      | none => .error (.failure (.unbound name)) m := by
  show (match m.scopes.holder? f name with
      | some g => do define g name v; pure v
      | none => fail (.unbound name) : Eval κ Value) m = _
  cases m.scopes.holder? f name <;> rfl

end Lisplet.Eval
