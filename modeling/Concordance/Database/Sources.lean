import Concordance.Database.Feed

/-! # Sources of an index

Which columns feed an index. A new list of sources moves what the records already hold: sources that
left a section are retracted there, and sources that came to a section are inserted there.
-/
namespace Concordance.Database

def noSource (source : ObjectId) : Error := .engine .noSuchObject s!"source #{source} not found"

/-- A source of an index over `range` is a value column of that table, or the table itself. -/
def checkSource (db : Database) (range source : ObjectId) : Except Error Unit :=
  let foreign : Except Error Unit :=
    .error (.engine .invalidArgument s!"source #{source} is not a column of table #{range}")
  match db.object? source with
  | none => .error (noSource source)
  | some info =>
    match info.kind with
    | .column table _ => if table = range then .ok () else foreign
    | .table .. => if source = range then .ok () else foreign
    | _ => foreign

/-- The texts that a source holds now, by record: column values, or keys. -/
def sourceTexts (db : Database) (source : ObjectId) :
    Except Error (List (RecordId × List String)) :=
  match db.columns[source]? with
  | some column => column.toList.mapM fun (record, v) => v.indexTexts.map (record, ·)
  | none =>
    match db.tables[source]? with
    | some t => .ok (t.keyed.map fun (record, key) => (record, [key]))
    | none => .error (noSource source)

/-- A source and its section, in order of both. -/
def placeLe (a b : ObjectId × Nat) : Bool := a.1 < b.1 || (a.1 = b.1 && a.2 ≤ b.2)

/-- The places of the first list that the second lacks, in order. -/
def placesLost (before after : List ObjectId) : List (ObjectId × Nat) :=
  let places := after.zipIdx 1
  ((before.zipIdx 1).filter fun place => !places.contains place).mergeSort placeLe

/-- One delta for each record that holds texts of the source. -/
def placeDeltas (db : Database) (make : RecordId → Nat → List String → Delta)
    (place : ObjectId × Nat) : Except Error (List Delta) := do
  return (← db.sourceTexts place.1).map fun (record, texts) => make record place.2 texts

/-- The deltas that lead from one list of sources to another. -/
def sourceDeltas (db : Database) (before after : List ObjectId) : Except Error (List Delta) := do
  let lost ← (placesLost before after).mapM
    (db.placeDeltas fun record sec texts => ⟨record, sec, texts, []⟩)
  let gained ← (placesLost after before).mapM
    (db.placeDeltas fun record sec texts => ⟨record, sec, [], texts⟩)
  return lost.flatten ++ gained.flatten

def applyDeltas (db : Database) (index : ObjectId) (deltas : List Delta) : Database :=
  deltas.foldl (applyDelta · index ·) db

def setSourceList (db : Database) (index : ObjectId) (sources : List ObjectId) : Database :=
  match db.indexes[index]? with
  | some ix => { db with indexes := db.indexes.insert index { ix with sources } }
  | none => db

/-- Gives an index new sources, all of them or none. -/
def installSources (db : Database) (index : ObjectId) (sources : List ObjectId) :
    Except Error Database := do
  let ix ← db.index index
  sources.forM (db.checkSource ix.range)
  let deltas ← db.sourceDeltas ix.sources sources
  return (db.applyDeltas index deltas).setSourceList index sources

/-- The ids of an index's sources. -/
def sourceIds (db : Database) (index : ObjectId) : Except Error (List ObjectId) := do
  return (← db.index index).sources

end Concordance.Database
