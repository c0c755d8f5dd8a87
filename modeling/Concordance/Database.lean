import Concordance.Indexable
import Concordance.Postings
import Concordance.Table

/-! # Databases

The whole state of a database: the catalog of objects and names, and the data of its tables, value
columns and indexes. A call that changes it answers a result together with the state it leaves.
-/
namespace Concordance

/-- The values of one column, by record. -/
abbrev Column := ById Json

structure Index where
  lexicon : ObjectId
  range : ObjectId
  flags : IndexFlags
  tokenizer : Tokenizer
  /-- Columns of `range`, or `range` itself for its keys; source `i` feeds section `i + 1`. -/
  sources : List ObjectId
  postings : Postings

structure Database where
  objects : ById ObjectInfo
  tables : ById Table
  columns : ById Column
  indexes : ById Index
  nextId : ObjectId
  names : ByName ObjectId

/-- What a call answers, and the database after it. -/
abbrev Outcome (α : Type) := Except Error α × Database

namespace Database

def addType (db : Database) (t : DataType) : Database :=
  { db with
    objects := db.objects.insert t.id ⟨t.id, some t.name, .type t⟩
    names := db.names.insert t.name t.id }

/-- A database of nothing but the built-in types. -/
def new : Database := DataType.all.foldl addType ⟨∅, ∅, ∅, ∅, firstUserId, ∅⟩

def object? (db : Database) (id : ObjectId) : Option ObjectInfo := db.objects[id]?

def lookup? (db : Database) (name : String) : Option ObjectInfo := do
  db.object? (← db.names[name]?)

def isLive (db : Database) (table : ObjectId) (record : RecordId) : Bool :=
  db.tables[table]?.any (·.isLive record)

def recordKey? (db : Database) (table : ObjectId) (record : RecordId) : Option String := do
  (← db.tables[table]?).key? record

def recordCount (db : Database) (table : ObjectId) : Nat :=
  (db.tables[table]?.map Table.size).getD 0

def recordId? (db : Database) (table : ObjectId) (key : String) : Option RecordId := do
  (← db.tables[table]?).find? key

def value? (db : Database) (column : ObjectId) (record : RecordId) : Option Json := do
  (← db.columns[column]?)[record]?

/-- Carries out a call that finds every fault before it changes anything. -/
def attempt (db : Database) (call : Except Error (α × Database)) : Outcome α :=
  match call with
  | .ok (a, db) => (.ok a, db)
  | .error e => (.error e, db)

theorem attempt_error {db db' : Database} {call : Except Error (α × Database)} {e : Error}
    (h : db.attempt call = (.error e, db')) : db' = db := by
  unfold attempt at h
  split at h <;> simp_all

def noTable (table : ObjectId) : Error := .engine .noSuchObject s!"table #{table} not found"

def table (db : Database) (id : ObjectId) : Except Error Table :=
  match db.tables[id]? with
  | some t => .ok t
  | none => .error (noTable id)

def index (db : Database) (id : ObjectId) : Except Error Index :=
  match db.indexes[id]? with
  | some ix => .ok ix
  | none => .error (.engine .invalidArgument s!"#{id} is not an index column")

end Database

end Concordance
