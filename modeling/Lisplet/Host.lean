import Lisplet.Machine

/-! # Host functions

Functions that the embedding program offers to the language.  A host function sees the
lists and the host's own context, and can change both; names and closures are out of its
reach. -/

namespace Lisplet

/-- What a host function can see and change. -/
structure HostState (κ : Type) where
  lists : Lists
  context : κ

/-- What host functions do; they fail with a message. -/
abbrev Host (κ : Type) := EStateM String (HostState κ)

/-- A function offered by the embedding program. -/
abbrev HostFunction (κ : Type) := List Value → Host κ Value

/-- Calls a host function. -/
def Eval.callHost {κ : Type} (name : String) (f : HostFunction κ) (args : List Value) :
    Eval κ Value := fun m =>
  match f args ⟨m.lists, m.context⟩ with
  | .ok v h => .ok v { m with lists := h.lists, context := h.context }
  | .error message h =>
    .error (.failure (.host name message)) { m with lists := h.lists, context := h.context }

end Lisplet
