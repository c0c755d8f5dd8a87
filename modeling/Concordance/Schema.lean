import Concordance.Tokenizer

/-! # The schema

What a catalog holds: value types, tables, value columns and index columns, each with an id and
perhaps a name; and the configurations that tables and index columns are made from.
-/
namespace Concordance

abbrev ObjectId := Nat

/-- Record ids count from 1 inside each table. -/
abbrev RecordId := Nat

/-- The id of no object. -/
def nilId : ObjectId := 0

/-- Objects made by users are numbered from here; the built-in types have smaller ids. -/
def firstUserId : ObjectId := 256

inductive DataType where
  | bool | int32 | uint32 | int64 | float | shortText | text | longText
  deriving DecidableEq, Repr

namespace DataType

def all : List DataType := [bool, int32, uint32, int64, float, shortText, text, longText]

/-- A type is itself an object, with this id. -/
def id : DataType → ObjectId
  | bool => 3
  | int32 => 8
  | uint32 => 9
  | int64 => 10
  | float => 12
  | shortText => 14
  | text => 15
  | longText => 16

def name : DataType → String
  | bool => "Bool"
  | int32 => "Int32"
  | uint32 => "UInt32"
  | int64 => "Int64"
  | float => "Float"
  | shortText => "ShortText"
  | text => "Text"
  | longText => "LongText"

def ofId? (id : ObjectId) : Option DataType := all.find? (·.id = id)

def ofName? (name : String) : Option DataType := all.find? (·.name = name)

/-- Bytes of a value, for the types whose values all have one width. -/
def fixedWidth : DataType → Option Nat
  | bool => some 1
  | int32 | uint32 => some 4
  | int64 | float => some 8
  | shortText | text | longText => none

def isText (t : DataType) : Bool := t.fixedWidth.isNone

/-- The most bytes that a value may have. -/
def maxSize : DataType → Nat
  | shortText => 4 * 1024
  | text => 64 * 1024
  | longText => 2 * 1024 * 1024 * 1024 - 1
  | t => t.fixedWidth.getD 0

theorem ofId?_id (t : DataType) : ofId? t.id = some t := by cases t <;> decide

theorem id_lt_firstUserId (t : DataType) : t.id < firstUserId := by cases t <;> decide

end DataType

/-- `array` tables have no keys, `hash` and `trie` tables find records by key. -/
inductive TableKind where
  | array | hash | trie
  deriving DecidableEq, Repr

namespace TableKind

def all : List TableKind := [array, hash, trie]

def name : TableKind → String
  | array => "Array"
  | hash => "Hash"
  | trie => "PatriciaTrie"

def hasKey : TableKind → Bool
  | array => false
  | _ => true

/-- Reads a kind's name in any case. -/
def parse (name : String) : Except Error TableKind :=
  match Text.lowercase name with
  | "array" | "no_key" => .ok array
  | "hash" | "hash_key" => .ok hash
  | "patricia_trie" | "pat" | "pat_key" => .ok trie
  | other => .error (.argument "table kind" s!"unknown table kind: {other}")

end TableKind

/-- What an index column records, as a set of bits; bits without a name are kept. -/
structure IndexFlags where
  bits : Nat
  deriving DecidableEq, Repr

namespace IndexFlags

def none : IndexFlags := ⟨0⟩

/-- Sources keep to sections of their own. -/
def withSection : IndexFlags := ⟨0x80⟩

def withWeight : IndexFlags := ⟨0x100⟩

/-- Searches for several terms ask for a phrase. -/
def withPosition : IndexFlags := ⟨0x200⟩

/-- The flags that have names. -/
def named : List (String × IndexFlags) :=
  [("WITH_SECTION", withSection), ("WITH_WEIGHT", withWeight), ("WITH_POSITION", withPosition)]

def union (a b : IndexFlags) : IndexFlags := ⟨a.bits ||| b.bits⟩

def contains (a b : IndexFlags) : Bool := a.bits &&& b.bits = b.bits

/-- The names of the flags between bars, then the bits without a name in hexadecimal. -/
def text (flags : IndexFlags) : String :=
  let names := (named.filter (flags.contains ·.2)).map (·.1)
  let rest := named.foldl (fun bits (_, flag) => bits &&& (0xFFFFFFFF ^^^ flag.bits)) flags.bits
  let extra := if rest = 0 then [] else ["0x" ++ String.ofList (Nat.toDigits 16 rest)]
  String.intercalate " | " (names ++ extra)

end IndexFlags

structure TableConfig where
  kind : TableKind
  keyType : Option DataType
  /-- Used when the table is the lexicon of an index. -/
  tokenizer : Tokenizer
  deriving DecidableEq, Repr

/-- Keyed tables need a text key type, and array tables must have none. -/
def TableConfig.validate (config : TableConfig) : Except Error Unit :=
  match config.kind.hasKey, config.keyType with
  | false, some _ => .error (.argument "key_type" "array tables have no key")
  | true, none => .error (.argument "key_type" "keyed tables need a key type")
  | true, some t =>
    if t.isText then .ok ()
    else .error (.argument "key_type" s!"{t.name} keys are not supported")
  | false, none => .ok ()

structure IndexConfig where
  flags : IndexFlags
  /-- Names of the sources, in the order of their sections. -/
  sources : List String
  deriving DecidableEq, Repr

inductive ObjectKind where
  | type (type : DataType)
  | table (kind : TableKind) (keyType : Option DataType) (tokenizer : Tokenizer)
  /-- One value for each record of `table`. -/
  | column (table : ObjectId) (valueType : DataType)
  /-- Postings of the terms in `lexicon`, pointing at records of `range`. -/
  | index (lexicon range : ObjectId) (flags : IndexFlags)
  deriving DecidableEq, Repr

structure ObjectInfo where
  id : ObjectId
  name : Option String
  kind : ObjectKind
  deriving DecidableEq, Repr

namespace ObjectInfo

/-- What the object is addressed by: a key type, an owning table or a lexicon. -/
def domain (info : ObjectInfo) : ObjectId :=
  match info.kind with
  | .type _ => nilId
  | .table _ keyType _ => (keyType.map DataType.id).getD nilId
  | .column table _ => table
  | .index lexicon _ _ => lexicon

/-- What the object leads to: a value type or an indexed table. -/
def range (info : ObjectInfo) : ObjectId :=
  match info.kind with
  | .type _ | .table .. => nilId
  | .column _ valueType => valueType.id
  | .index _ range _ => range

def isType (info : ObjectInfo) : Bool := info.kind matches .type _

def isTable (info : ObjectInfo) : Bool := info.kind matches .table ..

def isColumn (info : ObjectInfo) : Bool := info.kind matches .column ..

def isIndex (info : ObjectInfo) : Bool := info.kind matches .index ..

def indexFlags? (info : ObjectInfo) : Option IndexFlags :=
  match info.kind with
  | .index _ _ flags => some flags
  | _ => none

/-- How messages name the object. -/
def label (info : ObjectInfo) : String := info.name.getD s!"#{info.id}"

end ObjectInfo

end Concordance
