import Concordance.Database
import Concordance.Json.Reader
import Concordance.Snapshot.Codec

/-! # Images

A database laid out in lists, as a snapshot keeps it. Column values are JSON texts. The built-in
types are left out; restoring puts them back.
-/
namespace Concordance

structure TableImage where
  id : ObjectId
  next : RecordId
  records : List (RecordId × Option String)
  deriving DecidableEq, Repr

structure ColumnImage where
  id : ObjectId
  values : List (RecordId × String)
  deriving DecidableEq, Repr

structure IndexImage where
  id : ObjectId
  lexicon : ObjectId
  range : ObjectId
  flags : IndexFlags
  tokenizer : Tokenizer
  sources : List ObjectId
  /-- Term, record, section and positions of each entry. -/
  postings : List (RecordId × RecordId × Nat × List Nat)
  deriving DecidableEq, Repr

structure Image where
  nextId : ObjectId
  objects : List ObjectInfo
  tables : List TableImage
  columns : List ColumnImage
  indexes : List IndexImage
  deriving DecidableEq, Repr

namespace Image

/-! ## Layout -/

def dataTypeCodec : Codec DataType := .choice DataType.all

def tableKindCodec : Codec TableKind := .choice TableKind.all

def tokenizerCodec : Codec Tokenizer := .choice Tokenizer.all

def flagsCodec : Codec IndexFlags := Codec.id.map (⟨·⟩) (·.bits)

def tableContent : Codec (TableKind × Option DataType × Tokenizer) :=
  tableKindCodec.pair (dataTypeCodec.option.pair tokenizerCodec)

def columnContent : Codec (ObjectId × DataType) := Codec.id.pair dataTypeCodec

def indexContent : Codec (ObjectId × ObjectId × IndexFlags) :=
  Codec.id.pair (Codec.id.pair flagsCodec)

def kindCodec : Codec ObjectKind where
  write
    | .type t => Codec.id.write 0 ++ dataTypeCodec.write t
    | .table kind keyType tokenizer =>
      Codec.id.write 1 ++ tableContent.write (kind, keyType, tokenizer)
    | .column table valueType => Codec.id.write 2 ++ columnContent.write (table, valueType)
    | .index lexicon range flags => Codec.id.write 3 ++ indexContent.write (lexicon, range, flags)
  read := do
    match ← Codec.id.read with
    | 0 => return .type (← dataTypeCodec.read)
    | 1 => do
      let (kind, keyType, tokenizer) ← tableContent.read
      return .table kind keyType tokenizer
    | 2 => do
      let (table, valueType) ← columnContent.read
      return .column table valueType
    | 3 => do
      let (lexicon, range, flags) ← indexContent.read
      return .index lexicon range flags
    | number => throw (.badVariant number 4)

def objectCodec : Codec ObjectInfo :=
  (Codec.id.pair (Codec.text.option.pair kindCodec)).map
    (fun (id, name, kind) => ⟨id, name, kind⟩) (fun o => (o.id, o.name, o.kind))

def tableCodec : Codec TableImage :=
  (Codec.id.pair (Codec.id.pair (Codec.id.pair Codec.text.option).list)).map
    (fun (id, next, records) => ⟨id, next, records⟩) (fun t => (t.id, t.next, t.records))

def columnCodec : Codec ColumnImage :=
  (Codec.id.pair (Codec.id.pair Codec.text).list).map
    (fun (id, values) => ⟨id, values⟩) (fun c => (c.id, c.values))

def entryCodec : Codec (RecordId × RecordId × Nat × List Nat) :=
  Codec.id.pair (Codec.id.pair (Codec.id.pair Codec.id.list))

def indexCodec : Codec IndexImage :=
  (Codec.id.pair (Codec.id.pair (Codec.id.pair (flagsCodec.pair (tokenizerCodec.pair
    (Codec.id.list.pair entryCodec.list)))))).map
    (fun (id, lexicon, range, flags, tokenizer, sources, postings) =>
      ⟨id, lexicon, range, flags, tokenizer, sources, postings⟩)
    (fun i => (i.id, i.lexicon, i.range, i.flags, i.tokenizer, i.sources, i.postings))

def codec : Codec Image :=
  (Codec.id.pair (objectCodec.list.pair (tableCodec.list.pair
    (columnCodec.list.pair indexCodec.list)))).map
    (fun (nextId, objects, tables, columns, indexes) => ⟨nextId, objects, tables, columns, indexes⟩)
    (fun i => (i.nextId, i.objects, i.tables, i.columns, i.indexes))

/-! ## From a database and back -/

def ofColumn (id : ObjectId) (column : Column) : ColumnImage :=
  ⟨id, column.toList.map fun (record, v) => (record, v.compact)⟩

def ofIndex (id : ObjectId) (ix : Index) : IndexImage :=
  ⟨id, ix.lexicon, ix.range, ix.flags, ix.tokenizer, ix.sources, ix.postings.entries⟩

def ofDatabase (db : Database) : Image where
  nextId := db.nextId
  objects := (db.objects.toList.map (·.2)).filter (!·.isType)
  tables := db.tables.toList.map fun (id, t) => ⟨id, t.next, t.records⟩
  columns := db.columns.toList.map fun (id, column) => ofColumn id column
  indexes := db.indexes.toList.map fun (id, ix) => ofIndex id ix

/-- Enters a table; its kind is in the catalog. -/
def restoreTable (db : Database) (t : TableImage) : Except Error Database :=
  let refuse : Except Error Database :=
    .error (.snapshot s!"table #{t.id} has no catalog entry")
  match db.object? t.id with
  | some info =>
    match info.kind with
    | .table kind _ _ =>
      .ok { db with tables := db.tables.insert t.id (.restore kind t.next t.records) }
    | _ => refuse
  | none => refuse

def restoreValue (column : Column) (value : RecordId × String) : Except Error Column :=
  match Json.read value.2 with
  | .ok v => .ok (column.insert value.1 v)
  | .error fault => .error (.snapshot fault.message)

def restoreColumn (db : Database) (c : ColumnImage) : Except Error Database := do
  let column ← c.values.foldlM restoreValue (∅ : Column)
  return { db with columns := db.columns.insert c.id column }

def restoreEntry (p : Postings) (entry : RecordId × RecordId × Nat × List Nat) : Postings :=
  let (term, record, sec, positions) := entry
  positions.foldl (fun p position => p.add term record sec position) p

def restoreIndex (db : Database) (i : IndexImage) : Database :=
  let ix : Index :=
    ⟨i.lexicon, i.range, i.flags, i.tokenizer, i.sources, i.postings.foldl restoreEntry .empty⟩
  { db with indexes := db.indexes.insert i.id ix }

def enterObject (db : Database) (info : ObjectInfo) : Database :=
  { db with objects := db.objects.insert info.id info }

/-- Claims the name of an object that is no built-in type. -/
def enterName (db : Database) (info : ObjectInfo) : Database :=
  match info.name with
  | some name => if info.isType then db else { db with names := db.names.insert name info.id }
  | none => db

def restore (i : Image) : Except Error Database := do
  let db := i.objects.foldl enterObject { Database.new with nextId := i.nextId }
  let db ← i.tables.foldlM restoreTable db
  let db ← i.columns.foldlM restoreColumn db
  let db := i.indexes.foldl restoreIndex db
  return (db.objects.toList.map (·.2)).foldl enterName db

end Image

end Concordance
