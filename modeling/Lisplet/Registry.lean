import Lisplet.Host
import Lisplet.Primitive.Arithmetic
import Lisplet.Primitive.Logic
import Lisplet.Primitive.Numbers
import Lisplet.Primitive.Sequences
import Lisplet.Primitive.Strings
import Lisplet.Text.Quoted

/-! # Libraries

The embedding program chooses which libraries are active and in what order.  A name that
several libraries define belongs to the first of them.  The `ext` library holds the host
functions. -/

namespace Lisplet

/-- The libraries there are. -/
inductive Library where
  | core
  | math
  | number
  | list
  | string
  | ext
deriving DecidableEq, Repr

namespace Library

/-- The name under which a library is chosen. -/
def name : Library → String
  | core => "core"
  | math => "math"
  | number => "number"
  | list => "list"
  | string => "string"
  | ext => "ext"

/-- All libraries, in the order in which they are active by default. -/
def all : List Library := [core, math, number, list, string, ext]

/-- The library of a given name. -/
def ofName? (name : String) : Option Library := all.find? (·.name == name)

/-- The functions of a library that do not come from the host. -/
def primitives {κ : Type} : Library → List (Primitive κ)
  | core => Primitive.coreTable
  | math => Primitive.mathTable
  | number => Primitive.numberTable
  | list => Primitive.listTable
  | string => Primitive.stringTable
  | ext => []

/-- Adds a library to the ones chosen so far. -/
def choose (chosen : List Library) (name : String) : Except ConfigError (List Library) :=
  if chosen.any (·.name == name) then .error (.duplicateLibrary name)
  else
    match ofName? name with
    | some library => .ok (chosen ++ [library])
    | none => .error (.unknownLibrary name)

end Library

/-- What an embedding program chooses: the libraries, by name, and its host functions. -/
structure Options (κ : Type) where
  libraries : List String := Library.all.map Library.name
  hostFunctions : List (String × HostFunction κ) := []

namespace Options

/-- Offers a host function; a function that had the name before is replaced. -/
def withHostFunction {κ : Type} (o : Options κ) (name : String) (f : HostFunction κ) :
    Options κ :=
  { o with hostFunctions := o.hostFunctions.filter (·.1 != name) ++ [(name, f)] }

/-- The choices in one line, the names of host functions sorted. -/
def summary {κ : Type} (o : Options κ) : String :=
  let names := (o.hostFunctions.map Prod.fst).mergeSort (fun a b => decide (a ≤ b))
  "Options \x7b libs: [" ++ ", ".intercalate (o.libraries.map Text.quoted) ++
    "], ext_functions: " ++ Text.quoted (", ".intercalate names) ++ " \x7d"

end Options

/-- What stands behind a name of a library. -/
inductive Function (κ : Type) where
  | primitive (p : Primitive κ)
  | host (f : HostFunction κ)

/-- A name of a library and what stands behind it. -/
structure Entry (κ : Type) where
  library : Library
  name : String
  function : Function κ

namespace Entry

variable {κ : Type}

/-- How a direct call of the function can end early. -/
def shortCircuit (e : Entry κ) : Option ShortCircuit :=
  match e.function with
  | .primitive p => p.shortCircuit
  | .host _ => none

/-- Calls the function. -/
def call (e : Entry κ) (apply : Applier κ) (args : List Value) : Eval κ Value :=
  match e.function with
  | .primitive p => p.call apply args
  | .host f => do
    Eval.record .debug fun m => "host call " ++ e.name ++ " with " ++ argumentText m.lists args
    Eval.callHost e.name f args

end Entry

/-- The active libraries and their functions, both in order. -/
structure Registry (κ : Type) where
  libraries : List Library
  entries : List (Entry κ)

namespace Registry

variable {κ : Type}

/-- The functions of one library. -/
def entriesOf (hostFunctions : List (String × HostFunction κ)) (l : Library) : List (Entry κ) :=
  match l with
  | .ext => hostFunctions.map fun (name, f) => ⟨.ext, name, .host f⟩
  | l => l.primitives.map fun p => ⟨l, p.name, .primitive p⟩

/-- The registry for given libraries. -/
def ofLibraries (hostFunctions : List (String × HostFunction κ)) (libraries : List Library) :
    Registry κ :=
  ⟨libraries, libraries.flatMap (entriesOf hostFunctions)⟩

/-- The registry for given choices.  Each library must exist and be chosen once. -/
def ofOptions (o : Options κ) : Except ConfigError (Registry κ) :=
  (o.libraries.foldlM Library.choose []).map (ofLibraries o.hostFunctions)

/-- What a name means in the first library that defines it. -/
def find? (r : Registry κ) (name : String) : Option (Entry κ) :=
  r.entries.find? (·.name == name)

/-- An entry is found under its own name. -/
theorem name_of_find? {r : Registry κ} {name : String} {e : Entry κ} (h : r.find? name = some e) :
    e.name = name := by
  simpa using List.find?_some h

/-- The library that a name belongs to. -/
def owner? (r : Registry κ) (name : String) : Option Library := (r.find? name).map (·.library)

/-- The active libraries, in words. -/
def text (r : Registry κ) : String :=
  "active libraries: " ++ ", ".intercalate (r.libraries.map Library.name)

end Registry
end Lisplet
