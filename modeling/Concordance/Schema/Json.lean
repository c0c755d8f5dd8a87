import Concordance.Schema
import Concordance.Json.Shape

/-! # The schema as JSON -/
namespace Concordance

open Json (Shaped)

def DataType.toJson (t : DataType) : Json := .text t.name

def DataType.ofJson : Json → Shaped DataType :=
  Json.toChoice (DataType.all.map fun t => (t.name, t))

def TableKind.toJson (kind : TableKind) : Json := .text kind.name

def TableKind.ofJson : Json → Shaped TableKind :=
  Json.toChoice (TableKind.all.map fun kind => (kind.name, kind))

def Tokenizer.toJson (tokenizer : Tokenizer) : Json := .text tokenizer.name

def Tokenizer.ofJson : Json → Shaped Tokenizer :=
  Json.toChoice (Tokenizer.all.map fun tokenizer => (tokenizer.name, tokenizer))

namespace IndexFlags

def toJson (flags : IndexFlags) : Json := .text flags.text

def hexValue? (c : Char) : Option Nat :=
  if '0' ≤ c && c ≤ '9' then some (c.toNat - '0'.toNat)
  else if 'a' ≤ c && c ≤ 'f' then some (c.toNat - 'a'.toNat + 10)
  else if 'A' ≤ c && c ≤ 'F' then some (c.toNat - 'A'.toNat + 10)
  else Option.none

/-- A 32-bit number in hexadecimal; a plus sign may stand before it. -/
def hexBits? (digits : List Char) : Option Nat :=
  let digits := if digits.head? = some '+' then digits.tail else digits
  if digits.isEmpty then Option.none
  else do
    let value := (← digits.mapM hexValue?).foldl (fun n d => n * 16 + d) 0
    if value ≤ 0xFFFFFFFF then some value else Option.none

/-- One flag: its name, or bits after `0x`. -/
def parseFlag (flag : List Char) : Shaped IndexFlags :=
  match flag with
  | [] => .error "encountered empty flag"
  | '0' :: 'x' :: digits =>
    match hexBits? digits with
    | some bits => .ok ⟨bits⟩
    | Option.none => .error "invalid hex flag"
  | _ =>
    match named.lookup (String.ofList flag) with
    | some flag => .ok flag
    | Option.none => .error "unrecognized named flag"

/-- Flags between bars; blanks around them do not count, and blanks alone are no flags. -/
def parse (source : String) : Shaped IndexFlags :=
  if source.toList.all Text.isBlank then .ok IndexFlags.none
  else
    (source.toList.splitOnP (· = '|')).foldlM
      (fun flags flag => (parseFlag (Text.trim flag)).map flags.union) IndexFlags.none

def ofJson : Json → Shaped IndexFlags
  | .text s => parse s
  | v => Json.unexpected v "a string value of `|` separated flags"

end IndexFlags

namespace TableConfig

def toJson (config : TableConfig) : Json :=
  .ofFields
    [("kind", config.kind.toJson), ("key_type", .ofOption DataType.toJson config.keyType),
     ("default_tokenizer", config.tokenizer.toJson)]

structure Parts where
  kind : Option TableKind
  keyType : Option (Option DataType)
  tokenizer : Option Tokenizer

def record : Json.Record Parts TableConfig where
  name := "TableConfig"
  fields :=
    [⟨"kind", [], (·.kind.isSome), fun s v => do return { s with kind := ← TableKind.ofJson v }⟩,
     ⟨"key_type", [], (·.keyType.isSome), fun s v => do
       return { s with keyType := some (← Json.toOption DataType.ofJson v) }⟩,
     ⟨"default_tokenizer", [], (·.tokenizer.isSome), fun s v => do
       return { s with tokenizer := ← Tokenizer.ofJson v }⟩]
  onlyKeys := none
  start := ⟨none, none, none⟩
  finish s := do
    let kind ← Json.required "kind" s.kind
    let tokenizer ← Json.required "default_tokenizer" s.tokenizer
    return ⟨kind, s.keyType.getD none, tokenizer⟩

def ofJson (v : Json) : Shaped TableConfig := record.read v

end TableConfig

namespace IndexConfig

def toJson (config : IndexConfig) : Json :=
  .ofFields [("flags", config.flags.toJson), ("sources", .array (config.sources.map .text))]

def record : Json.Record (Option IndexFlags × Option (List String)) IndexConfig where
  name := "IndexConfig"
  fields :=
    [⟨"flags", [], (·.1.isSome), fun s v => do return (some (← IndexFlags.ofJson v), s.2)⟩,
     ⟨"sources", [], (·.2.isSome), fun s v => do
       return (s.1, some (← Json.toList Json.toText v))⟩]
  onlyKeys := none
  start := (none, none)
  finish s := do
    let flags ← Json.required "flags" s.1
    let sources ← Json.required "sources" s.2
    return ⟨flags, sources⟩

def ofJson (v : Json) : Shaped IndexConfig := record.read v

end IndexConfig

namespace ObjectKind

def toJson : ObjectKind → Json
  | type t => .ofFields [("Type", t.toJson)]
  | table kind keyType tokenizer =>
    .ofFields
      [("Table",
        .ofFields
          [("kind", kind.toJson), ("key_type", .ofOption DataType.toJson keyType),
           ("tokenizer", tokenizer.toJson)])]
  | column owner valueType =>
    .ofFields [("Column", .ofFields [("table", .nat owner), ("value_type", valueType.toJson)])]
  | index lexicon range flags =>
    .ofFields
      [("Index",
        .ofFields
          [("lexicon", .nat lexicon), ("range", .nat range), ("flags", flags.toJson)])]

def tableRecord : Json.Record TableConfig.Parts ObjectKind where
  name := "Table"
  fields :=
    [⟨"kind", [], (·.kind.isSome), fun s v => do return { s with kind := ← TableKind.ofJson v }⟩,
     ⟨"key_type", [], (·.keyType.isSome), fun s v => do
       return { s with keyType := some (← Json.toOption DataType.ofJson v) }⟩,
     ⟨"tokenizer", [], (·.tokenizer.isSome), fun s v => do
       return { s with tokenizer := ← Tokenizer.ofJson v }⟩]
  onlyKeys := none
  start := ⟨none, none, none⟩
  finish s := do
    let kind ← Json.required "kind" s.kind
    let tokenizer ← Json.required "tokenizer" s.tokenizer
    return table kind (s.keyType.getD none) tokenizer

def columnRecord : Json.Record (Option ObjectId × Option DataType) ObjectKind where
  name := "Column"
  fields :=
    [⟨"table", [], (·.1.isSome), fun s v => do return (some (← v.toU32), s.2)⟩,
     ⟨"value_type", [], (·.2.isSome), fun s v => do return (s.1, some (← DataType.ofJson v))⟩]
  onlyKeys := none
  start := (none, none)
  finish s := do
    let owner ← Json.required "table" s.1
    let valueType ← Json.required "value_type" s.2
    return column owner valueType

structure IndexParts where
  lexicon : Option ObjectId
  range : Option ObjectId
  flags : Option IndexFlags

def indexRecord : Json.Record IndexParts ObjectKind where
  name := "Index"
  fields :=
    [⟨"lexicon", [], (·.lexicon.isSome), fun s v => do return { s with lexicon := ← v.toU32 }⟩,
     ⟨"range", [], (·.range.isSome), fun s v => do return { s with range := ← v.toU32 }⟩,
     ⟨"flags", [], (·.flags.isSome), fun s v => do return { s with flags := ← IndexFlags.ofJson v }⟩]
  onlyKeys := none
  start := ⟨none, none, none⟩
  finish s := do
    let lexicon ← Json.required "lexicon" s.lexicon
    let range ← Json.required "range" s.range
    let flags ← Json.required "flags" s.flags
    return index lexicon range flags

/-- The fields of a kind, which only an object may list. -/
def fieldsOf {σ : Type} (record : Json.Record σ ObjectKind) : Option Json → Shaped ObjectKind
  | some (.object fields) => record.ofObject fields
  | some v => v.unexpected "struct variant"
  | none => Json.mismatch "unit variant" "struct variant"

/-- A kind of this name; its content is there when the kind is written as an object. -/
def content (name : String) : Option Json → Shaped ObjectKind :=
  match name with
  | "Type" => fun
    | some v => (DataType.ofJson v).map .type
    | none => Json.mismatch "unit variant" "newtype variant"
  | "Table" => fieldsOf tableRecord
  | "Column" => fieldsOf columnRecord
  | "Index" => fieldsOf indexRecord
  | _ => fun _ =>
    let names := Json.alternatives ["Type", "Table", "Column", "Index"]
    .error s!"unknown variant `{name}`, expected {names}"

def ofJson : Json → Shaped ObjectKind
  | .text name => content name none
  | .object [(name, v)] => content name (some v)
  | .object _ => .error "invalid value: map, expected map with a single key"
  | v => v.unexpected "string or map"

end ObjectKind

namespace ObjectInfo

def toJson (info : ObjectInfo) : Json :=
  .ofFields
    [("id", .nat info.id), ("name", .ofOption .text info.name), ("kind", info.kind.toJson)]

structure Parts where
  id : Option ObjectId
  name : Option (Option String)
  kind : Option ObjectKind

def record : Json.Record Parts ObjectInfo where
  name := "ObjectInfo"
  fields :=
    [⟨"id", [], (·.id.isSome), fun s v => do return { s with id := ← v.toU32 }⟩,
     ⟨"name", [], (·.name.isSome), fun s v => do
       return { s with name := some (← Json.toOption Json.toText v) }⟩,
     ⟨"kind", [], (·.kind.isSome), fun s v => do return { s with kind := ← ObjectKind.ofJson v }⟩]
  onlyKeys := none
  start := ⟨none, none, none⟩
  finish s := do
    let id ← Json.required "id" s.id
    let kind ← Json.required "kind" s.kind
    return ⟨id, s.name.getD none, kind⟩

def ofJson (v : Json) : Shaped ObjectInfo := record.read v

end ObjectInfo

end Concordance
