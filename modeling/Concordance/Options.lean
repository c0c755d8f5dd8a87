import Concordance.Query.Json

/-! # Options of updates and searches

Options come as JSON objects; keys that they do not know are refused.
-/
namespace Concordance

open Json (Shaped)

/-- A delta for one record of an index: `old` is retracted and `value` inserted. -/
structure UpdateOptions where
  sec : Option Nat
  old : Option Json
  value : Option Json

namespace UpdateOptions

def none : UpdateOptions := ⟨.none, .none, .none⟩

/-- The section used when none is given. -/
def defaultSection : Nat := 1

def effectiveSection (options : UpdateOptions) : Except Error Nat :=
  match options.sec with
  | .none => .ok defaultSection
  | some 0 => .error (.argument "section" "sections start at 1")
  | some n => .ok n

/-- A side of the delta; `null` counts as absent. -/
def present (side : Option Json) : Option Json := side.filter (!·.isNull)

structure Parts where
  sec : Option (Option Nat)
  old : Option (Option Json)
  value : Option (Option Json)

def record : Json.Record Parts UpdateOptions where
  name := "IndexUpdateOptions"
  fields :=
    [⟨"section", [], (·.sec.isSome), fun s v => do
       return { s with sec := some (← v.toOption Json.toU32) }⟩,
     ⟨"old_value", [], (·.old.isSome), fun s v => do
       return { s with old := some (← v.toOption .ok) }⟩,
     ⟨"value", ["new_value"], (·.value.isSome), fun s v => do
       return { s with value := some (← v.toOption .ok) }⟩]
  onlyKeys := some ["section", "old_value", "new_value", "value"]
  start := ⟨.none, .none, .none⟩
  finish s := .ok ⟨s.sec.getD .none, s.old.getD .none, s.value.getD .none⟩

def ofJson (v : Json) : Shaped UpdateOptions := record.read v

end UpdateOptions

/-- What an indexed assignment is given: a new value, or options. -/
inductive UpdateArg where
  | value (value : Json)
  | options (options : UpdateOptions)

namespace UpdateArg

/-- An object is read as options, and anything else is a new value. -/
def ofJson (v : Json) : Except Error UpdateArg :=
  match v with
  | .object _ =>
    match UpdateOptions.ofJson v with
    | .ok o => .ok (.options o)
    | .error message => .error (.argument "options" message)
  | v => .ok (.value v)

/-- The same argument with an object, if it is one, read as options. -/
def resolve : UpdateArg → Except Error UpdateArg
  | value v => ofJson v
  | options o => .ok (.options o)

def sectionNumber : UpdateArg → Except Error Nat
  | value _ => .ok UpdateOptions.defaultSection
  | options o => o.effectiveSection

/-- What to retract. -/
def oldSide : UpdateArg → Option Json
  | value _ => none
  | options o => UpdateOptions.present o.old

/-- What to insert. -/
def newSide : UpdateArg → Option Json
  | value v => UpdateOptions.present (some v)
  | options o => UpdateOptions.present o.value

end UpdateArg

structure SearchOptions where
  operator : SelectOperator
  mode : SearchMode
  deriving DecidableEq, Repr

namespace SearchOptions

def default : SearchOptions := ⟨.or, .exact⟩

def record : Json.Record (Option (Option SelectOperator) × Option (Option SearchMode))
    SearchOptions where
  name := "SearchOptionsDef"
  fields :=
    [⟨"operator", [], (·.1.isSome), fun s v => do
       return (some (← v.toOption SelectOperator.ofJson), s.2)⟩,
     ⟨"mode", [], (·.2.isSome), fun s v => do
       return (s.1, some (← v.toOption SearchMode.ofJson))⟩]
  onlyKeys := some ["operator", "mode"]
  start := (none, none)
  finish s := .ok
    ⟨(s.1.getD none).getD default.operator, (s.2.getD none).getD default.mode⟩

/-- Reads the options of a search; `null` asks for the usual ones. -/
def ofJson (v : Json) : Except Error SearchOptions :=
  if v.isNull then .ok default
  else
    match record.read v with
    | .ok options => .ok options
    | .error message => .error (.argument "options" message)

end SearchOptions

end Concordance
