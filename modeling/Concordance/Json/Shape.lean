import Concordance.Json
import Concordance.Text.Quoted

/-! # Shapes of JSON values

Readers from JSON values to typed ones. A value of the wrong shape is refused with a message that
names what was found and what was expected. A record may be written as an object or as the list of
its fields; a choice is written as its name or as an object with that name as its only key.
-/
namespace Concordance.Json

abbrev Shaped (α : Type) := Except String α

/-- What a value is, in a message. -/
def described : Json → String
  | null => "null"
  | bool b => s!"boolean `{b}`"
  | integer n => s!"integer `{n}`"
  | float x => s!"floating point `{x.text}`"
  | text s => "string " ++ Text.quoted s
  | array _ => "sequence"
  | object _ => "map"

def mismatch (found expected : String) : Shaped α :=
  .error s!"invalid type: {found}, expected {expected}"

def unexpected (v : Json) (expected : String) : Shaped α := mismatch v.described expected

/-- A list of alternatives in a message. -/
def alternatives (names : List String) : String :=
  match names.map fun name => s!"`{name}`" with
  | [a, b] => s!"{a} or {b}"
  | [a] => a
  | all => "one of " ++ String.intercalate ", " all

def toU32 : Json → Shaped Nat
  | integer n =>
    if 0 ≤ n ∧ n ≤ 0xFFFFFFFF then .ok n.toNat
    else .error s!"invalid value: integer `{n}`, expected u32"
  | v => unexpected v "u32"

def toText : Json → Shaped String
  | text s => .ok s
  | v => unexpected v "a string"

/-- `null` stands for an absent value. -/
def toOption (read : Json → Shaped α) : Json → Shaped (Option α)
  | null => .ok none
  | v => (read v).map some

def toList (read : Json → Shaped α) : Json → Shaped (List α)
  | array items => items.mapM read
  | v => unexpected v "a sequence"

/-- The one alternative whose name is given, where none has content. -/
def toChoice (names : List (String × α)) (v : Json) : Shaped α :=
  let pick (name : String) : Shaped α :=
    match names.lookup name with
    | some a => .ok a
    | none => .error s!"unknown variant `{name}`, expected {alternatives (names.map (·.1))}"
  match v with
  | text name => pick name
  | object [(name, content)] => do
    let a ← pick name
    if content.isNull then .ok a else unexpected content "unit"
  | object _ => .error "invalid value: map, expected map with a single key"
  | v => unexpected v "string or map"

/-- A field of a record that is being read into `σ`. -/
structure Field (σ : Type) where
  name : String
  /-- Further spellings of the key. -/
  aliases : List String
  isSet : σ → Bool
  set : σ → Json → Shaped σ

/-- A record of type `α`, read field by field into `σ`. -/
structure Record (σ α : Type) where
  name : String
  fields : List (Field σ)
  /-- The keys that a message lists when another one is refused. -/
  onlyKeys : Option (List String)
  start : σ
  finish : σ → Shaped α

namespace Record

/-- Reads one field of an object. -/
def entry (record : Record σ α) (state : σ) (field : String × Json) : Shaped σ :=
  match record.fields.find? fun f => f.name = field.1 || f.aliases.contains field.1 with
  | some f =>
    if f.isSet state then .error s!"duplicate field `{f.name}`" else f.set state field.2
  | none =>
    match record.onlyKeys with
    | some keys => .error s!"unknown field `{field.1}`, expected {alternatives keys}"
    | none => .ok state

def ofObject (record : Record σ α) (fields : List (String × Json)) : Shaped α :=
  fields.foldlM record.entry record.start >>= record.finish

/-- The number of fields in a message. -/
def arity (record : Record σ α) : String :=
  if record.fields.length = 1 then "1 element" else s!"{record.fields.length} elements"

def ofItems (record : Record σ α) (items : List Json) : Shaped α := do
  let state ← (record.fields.zip items).foldlM (fun state (f, v) => f.set state v) record.start
  if items.length < record.fields.length then
    .error s!"invalid length {items.length}, expected struct {record.name} with {record.arity}"
  let value ← record.finish state
  if record.fields.length < items.length then
    .error s!"invalid length {items.length}, expected fewer elements in array"
  return value

def read (record : Record σ α) : Json → Shaped α
  | object fields => record.ofObject fields
  | array items => record.ofItems items
  | v => unexpected v s!"struct {record.name}"

end Record

/-- A field that has to be there. -/
def required (name : String) : Option α → Shaped α
  | some a => .ok a
  | none => .error s!"missing field `{name}`"

end Concordance.Json
