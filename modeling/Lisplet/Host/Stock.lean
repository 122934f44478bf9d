import Lisplet.Host

/-! # Stock host functions

Small host functions that an embedding program can offer under any name.  Some of them
share a notepad with a counter and with values kept under keys; where the host has no
notepad they refuse. -/

namespace Lisplet.Host

/-- A counter and values kept under keys. -/
structure Notepad where
  ticks : Nat := 0
  kept : List (String × Value) := []
deriving Repr

/-- The stock functions. -/
inductive Stock where
  | echo
  | count
  | host
  | fail
  | failWith
  | quoted
  | twice
  | int
  | flip
  | shout
  | clear
  | same
  | callable
  | builtin
  | tick
  | store
  | fetch
deriving DecidableEq, Repr

namespace Stock

/-- The name of a stock function. -/
def name : Stock → String
  | echo => "echo"
  | count => "count"
  | host => "host"
  | fail => "fail"
  | failWith => "fail-with"
  | quoted => "quoted"
  | twice => "twice"
  | int => "int"
  | flip => "flip"
  | shout => "shout"
  | clear => "clear"
  | same => "same"
  | callable => "callable"
  | builtin => "builtin"
  | tick => "tick"
  | store => "store"
  | fetch => "recall"

/-- All stock functions. -/
def all : List Stock :=
  [echo, count, host, fail, failWith, quoted, twice, int, flip, shout, clear, same, callable,
    builtin, tick, store, fetch]

/-- The stock function of a given name. -/
def ofName? (name : String) : Option Stock := all.find? (·.name == name)

variable {κ α : Type}

/-- The argument at a position. -/
def arg (args : List Value) (i : Nat) : Host κ Value :=
  match args[i]? with
  | some v => return v
  | none => throw "missing argument"

/-- Refuses a value of the wrong kind. -/
def expect : Except Mismatch α → Host κ α
  | .ok a => return a
  | .error cause => throw cause.message

/-- The text of an argument. -/
def argText (args : List Value) (i : Nat) : Host κ String := do
  return (← arg args i).display (← get).lists

/-- The host's notepad. -/
def notepad : Host (Option Notepad) Notepad := do
  match (← get).context with
  | some pad => return pad
  | none => throw "wrong context"

/-- Changes the host's notepad. -/
def setNotepad (pad : Notepad) : Host (Option Notepad) Unit :=
  modify fun s => { s with context := some pad }

/-- What a stock function does. -/
def run (f : Stock) (args : List Value) : Host (Option Notepad) Value :=
  match f with
  | echo => modifyGet fun s => (.list s.lists.next, { s with lists := s.lists.alloc args.toArray })
  | count => return .number (Float.ofNat args.length)
  | host => return .string "host"
  | fail => throw "host refused"
  | failWith => do throw (← argText args 0)
  | quoted => return .string ("\"" ++ (← argText args 0) ++ "\"")
  | twice => return .number ((← expect (← arg args 0).asNumber) * 2.0)
  | int => return .number (Float.ofInt (← expect (← arg args 0).asInteger))
  | flip => return .bool !(← expect (← arg args 0).asBool)
  | shout => return .string ((← expect (← arg args 0).asString) ++ "!")
  | clear => do
    let v ← arg args 0
    let r ← expect v.asList
    modify fun s => { s with lists := s.lists.replace r #[] }
    return v
  | same => do
    let r ← expect (← arg args 0).asList
    let s ← expect (← arg args 1).asList
    return .bool (r == s)
  | callable => do expect (← arg args 0).asCallable
  | builtin => return .builtin (← expect (← arg args 0).asString)
  | tick => do
    let pad ← notepad
    setNotepad { pad with ticks := pad.ticks + 1 }
    return .number (Float.ofNat (pad.ticks + 1))
  | store => do
    let key ← expect (← arg args 0).asString
    let pad ← notepad
    let v ← arg args 1
    setNotepad { pad with kept := (key, v) :: pad.kept.filter (·.1 != key) }
    return .null
  | fetch => do
    let key ← expect (← arg args 0).asString
    let pad ← notepad
    match pad.kept.lookup key with
    | some v => return v
    | none => throw ("nothing stored under " ++ key)

/-- The stock function of a given name; where there is none, a function that refuses. -/
def named (name : String) : HostFunction (Option Notepad) :=
  match ofName? name with
  | some f => f.run
  | none => fun _ => throw ("no host function kind " ++ name)

end Stock
end Lisplet.Host
