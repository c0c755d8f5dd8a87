import Concordance.Buffer
import Concordance.Database.Sources

/-! # Explicit updates

Calls on an index by a caller who brings the texts in buffers, instead of storing them in columns.
-/
namespace Concordance.Database

/-- The texts of one side of a delta; an absent side has none. -/
def sideTexts : Option Buffer → Except Error (List String)
  | none => .ok []
  | some b =>
    match b.indexTexts with
    | .ok texts => .ok texts
    | .error e => .error (.engine .invalidArgument e.message)

/-- Retracts `old` and inserts `new` for one record, as one step. -/
def indexUpdate (db : Database) (index : ObjectId) (record : RecordId) (sec : Nat)
    (old new : Option Buffer) : Outcome Unit := db.attempt do
  if sec = 0 then .error (.engine .invalidArgument "section must be positive")
  let old ← sideTexts old
  let new ← sideTexts new
  let ix ← db.index index
  if !db.isLive ix.range record then
    .error (.engine .invalidArgument s!"record {record} does not exist in table #{ix.range}")
  return ((), db.applyDelta index ⟨record, sec, old, new⟩)

/-- Gives an index the sources whose ids are packed in a buffer. -/
def setSourceInfo (db : Database) (index : ObjectId) (sources : Buffer) : Outcome Unit :=
  db.attempt do
    let ids ← match sources.ids with
      | .ok ids => pure ids
      | .error e => .error (.engine .invalidArgument e.message)
    return ((), ← db.installSources index ids)

end Concordance.Database
