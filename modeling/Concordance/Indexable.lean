import Concordance.Json
import Concordance.Schema

/-! # Indexable values

Which values a column takes, and the texts that an index sees in them. A list has one text for each
of its items; any other value has a single text, or none if that text is empty.
-/
namespace Concordance.Json

/-- The text of a value that is neither a list nor an object. -/
def scalarText? : Json → Option String
  | null => some ""
  | text s => some s
  | integer n => some (toString n)
  | float x => some x.text
  | bool b => some (if b then "true" else "false")
  | array _ | object _ => none

def nestedError : Error := .argument "value" "nested values cannot be indexed"

def objectError : Error := .argument "value" "objects cannot be indexed"

/-- The text of an item of a list. -/
def itemText (item : Json) : Except Error String :=
  match item.scalarText? with
  | some s => .ok s
  | none => .error nestedError

/-- The texts of the items up to the first that has none, and what is wrong with that one. -/
def itemTexts : List Json → List String × Except Error Unit
  | [] => ([], .ok ())
  | item :: rest =>
    match item.itemText with
    | .ok s =>
      let (texts, outcome) := itemTexts rest
      (s :: texts, outcome)
    | .error e => ([], .error e)

/-- The texts that an index sees in a value. -/
def indexTexts : Json → Except Error (List String)
  | array items => items.mapM itemText
  | v =>
    match v.scalarText? with
    | some s => .ok (if s.isEmpty then [] else [s])
    | none => .error objectError

/-- A scalar that columns of this type take. -/
def isScalarOf (t : DataType) : Json → Bool
  | null => true
  | text _ => t.isText
  | bool _ => t = .bool
  | integer n =>
    match t with
    | .int32 => -0x80000000 ≤ n && n < 0x80000000
    | .uint32 => 0 ≤ n && n ≤ 0xFFFFFFFF
    | .int64 => -0x8000000000000000 ≤ n && n < 0x8000000000000000
    | .float => true
    | _ => false
  | float _ => t = .float
  | array _ | object _ => false

mutual

/-- Refuses a value with a part that is no scalar of the type, lists apart; it names the first. -/
def checkType (t : DataType) : Json → Except Error Unit
  | array items => checkItems t items
  | v =>
    if v.isScalarOf t then .ok ()
    else .error (.argument "value" s!"{v.compact} is not a valid {t.name}")

def checkItems (t : DataType) : List Json → Except Error Unit
  | [] => .ok ()
  | v :: rest =>
    match checkType t v with
    | .ok () => checkItems t rest
    | .error e => .error e

end

end Concordance.Json
