import Concordance.Database.Feed

/-! # Records and values

Adding and deleting records, and storing column values. Every change of a text that an index is fed
from is carried into the index at once.
-/
namespace Concordance.Database

/-- Adds a record to a table without keys. -/
def addRecord (db : Database) (table : ObjectId) : Outcome RecordId := db.attempt do
  let t ← db.table table
  if t.kind.hasKey then .error (.argument "key" "keyed tables need a key")
  let (id, t) := t.add
  return (id, { db with tables := db.tables.insert table t })

/-- The most bytes that a key of the table may have. -/
def keyLimit (db : Database) (table : ObjectId) : Except Error Nat :=
  match db.object? table with
  | some info =>
    match info.kind with
    | .table _ (some keyType) _ => .ok keyType.maxSize
    | .table _ none _ => .error (.argument "key" "array tables have no keys")
    | _ => .error (noTable table)
  | none => .error (noTable table)

def checkKey (limit : Nat) (key : String) : Except Error Unit :=
  if key.isEmpty then .error (.engine .invalidArgument "keys cannot be empty")
  else if limit < key.utf8ByteSize then
    .error (.engine .keyTooLong s!"key of {key.utf8ByteSize} bytes")
  else .ok ()

/-- The record of a key, made if there is none. A new key is fed to the indexes that list the
table. -/
def addRecordWithKey (db : Database) (table : ObjectId) (key : String) : Outcome RecordId :=
  db.attempt do
    let limit ← db.keyLimit table
    checkKey limit key
    let t ← db.table table
    let isNew := (t.find? key).isNone
    let (id, t) := t.addKey key
    let added := { db with tables := db.tables.insert table t }
    return (id, if isNew then added.feed (added.fedBy table) id [] [key] else added)

def noRecord (code : ErrorCode) (record : RecordId) : Error :=
  .engine code s!"record {record} not found"

/-- The value columns of a table. -/
def columnsOf (db : Database) (table : ObjectId) : List ObjectId :=
  db.objects.toList.filterMap fun (id, info) =>
    match info.kind with
    | .column owner _ => if owner = table then some id else none
    | _ => none

def eraseValue (db : Database) (column : ObjectId) (record : RecordId) : Database :=
  match db.columns[column]? with
  | some values => { db with columns := db.columns.insert column (values.erase record) }
  | none => db

/-- Takes the values of a record out of columns and out of the indexes they feed. It stops at a
value without texts, which only a foreign snapshot can hold. -/
def retractValues (db : Database) (record : RecordId) : List ObjectId → Outcome Unit
  | [] => (.ok (), db)
  | column :: rest =>
    match db.value? column record with
    | none => db.retractValues record rest
    | some v =>
      let erased := db.eraseValue column record
      match v.indexTexts with
      | .error e => (.error e, erased)
      | .ok texts =>
        (erased.feed (erased.fedBy column) record texts []).retractValues record rest

/-- Takes the key of a record out of the indexes that the table feeds. -/
def retractKey (db : Database) (table : ObjectId) (record : RecordId) : Database :=
  match db.recordKey? table record with
  | some key => db.feed (db.fedBy table) record [key] []
  | none => db

/-- Takes a record of a table out of the postings: as a match where the table is the range, as a
term where it is the lexicon. -/
def forgetIn (table : ObjectId) (record : RecordId) (ix : Index) : Index :=
  let postings := if ix.range = table then ix.postings.removeRecord record else ix.postings
  let postings := if ix.lexicon = table then postings.removeTerm record else postings
  { ix with postings }

def forgetRecord (db : Database) (table : ObjectId) (record : RecordId) : Database :=
  { db with
    indexes := db.indexes.map fun _ ix => forgetIn table record ix
    tables := match db.tables[table]? with
      | some t => db.tables.insert table (t.erase record)
      | none => db.tables }

/-- Deletes a record, its values, and whatever the indexes say of it. -/
def deleteRecord (db : Database) (table : ObjectId) (record : RecordId) : Outcome Unit :=
  match db.table table with
  | .error e => (.error e, db)
  | .ok t =>
    if !t.isLive record then (.error (noRecord .noSuchObject record), db)
    else
      match db.retractValues record (db.columnsOf table) with
      | (.error e, db) => (.error e, db)
      | (.ok (), db) => (.ok (), (db.retractKey table record).forgetRecord table record)

/-- The table and the type of a value column. -/
def columnType (db : Database) (column : ObjectId) : Except Error (ObjectId × DataType) :=
  let refuse : Except Error (ObjectId × DataType) :=
    .error (.engine .noSuchObject s!"column #{column} not found")
  match db.object? column with
  | some info =>
    match info.kind with
    | .column table valueType => .ok (table, valueType)
    | _ => refuse
  | none => refuse

/-- The texts of a value that the column takes for the record, and the column's values so far. -/
def checkValue (db : Database) (column : ObjectId) (record : RecordId) (v : Json) :
    Except Error (List String × Column) := do
  let (table, valueType) ← db.columnType column
  if !db.isLive table record then .error (noRecord .invalidArgument record)
  v.checkType valueType
  let texts ← v.indexTexts
  match db.columns[column]? with
  | some values => return (texts, values)
  | none => .error (.engine .corruptData s!"column #{column} has no data")

/-- The texts of a value that is to be replaced; no value has no texts. -/
def textsBefore : Option Json → Except Error (List String)
  | some v => v.indexTexts
  | none => .ok []

/-- Stores a value and carries the change into the indexes that the column feeds; `null` clears. A
value before it without texts, which only a foreign snapshot can hold, leaves the indexes as they
are. -/
def setValue (db : Database) (column : ObjectId) (record : RecordId) (v : Json) : Outcome Unit :=
  match db.checkValue column record v with
  | .error e => (.error e, db)
  | .ok (texts, values) =>
    let values' := if v.isNull then values.erase record else values.insert record v
    let stored := { db with columns := db.columns.insert column values' }
    match textsBefore values[record]? with
    | .error e => (.error e, stored)
    | .ok old => (.ok (), stored.feed (stored.fedBy column) record old texts)

end Concordance.Database
