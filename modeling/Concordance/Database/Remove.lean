import Concordance.Database.Sources

/-! # Removing objects

An object goes together with what cannot be without it: the columns of a table and the indexes whose
lexicon it is. Indexes that stay lose the sources that go.
-/
namespace Concordance.Database

/-- Whether the object itself depends on a table. -/
def dependsOn (table : ObjectId) (info : ObjectInfo) : Bool :=
  match info.kind with
  | .column owner _ => owner = table
  | .index lexicon _ _ => lexicon = table
  | _ => false

/-- The columns of a table and the indexes whose lexicon it is. -/
def dependents (db : Database) (table : ObjectId) : List ObjectId :=
  (db.objects.toList.filter fun (_, info) => dependsOn table info).map (·.1)

/-- An index over a table, with another table for its lexicon. -/
def indexOver? (db : Database) (table : ObjectId) : Option ObjectId :=
  (db.indexes.toList.find? fun (_, ix) => ix.range = table && ix.lexicon ≠ table).map (·.1)

/-- What goes with an object, itself first, or why it has to stay. -/
def doomed (db : Database) (id : ObjectId) : Except Error (List ObjectId) :=
  match db.object? id with
  | none => .error (.engine .noSuchObject s!"object #{id} not found")
  | some info =>
    match info.kind with
    | .type _ => .error (.engine .invalidOperation s!"{info.label} is built in")
    | .table .. =>
      match db.indexOver? id with
      | some user => .error (.engine .invalidOperation s!"{info.label} is indexed by #{user}")
      | none => .ok (id :: db.dependents id)
    | _ => .ok [id]

/-- The indexes that stay and have a source that goes. -/
def bereft (db : Database) (gone : List ObjectId) : List ObjectId :=
  (db.indexes.toList.filter fun (id, ix) =>
    !gone.contains id && ix.sources.any gone.contains).map (·.1)

/-- Takes sources out of indexes, in this order. -/
def detach (db : Database) (gone : List ObjectId) : List ObjectId → Outcome Unit
  | [] => (.ok (), db)
  | index :: rest =>
    let sources := ((db.indexes[index]?.map Index.sources).getD []).filter (!gone.contains ·)
    match db.installSources index sources with
    | .ok db => db.detach gone rest
    | .error e => (.error e, db)

/-- Takes an object, its name and its data away. -/
def drop (db : Database) (id : ObjectId) : Database :=
  { db with
    objects := db.objects.erase id
    names := match db.object? id with
      | some ⟨_, some name, _⟩ => db.names.erase name
      | _ => db.names
    tables := db.tables.erase id
    columns := db.columns.erase id
    indexes := db.indexes.erase id }

/-- Removes an object and everything that depends on it. -/
def removeObject (db : Database) (id : ObjectId) : Outcome Unit :=
  match db.doomed id with
  | .error e => (.error e, db)
  | .ok gone =>
    match db.detach gone (db.bereft gone) with
    | (.error e, db) => (.error e, db)
    | (.ok (), db) => (.ok (), gone.foldl drop db)

end Concordance.Database
