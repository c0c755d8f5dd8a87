import Concordance.IndexColumn

/-! # Sources through a handle -/
namespace Concordance

/-- How a caller names a source. -/
inductive SourceRef where
  | byId (id : ObjectId)
  | byName (name : String)
  | held (info : ObjectInfo)

namespace SourceRef

def label : SourceRef → String
  | byId id => s!"#{id}"
  | byName name => name
  | held info => info.label

/-- The id of the live object that is meant. -/
def resolve (db : Database) (ref : SourceRef) : Except Error ObjectId :=
  let found := match ref with
    | byId id => db.object? id
    | byName name => db.lookup? name
    | held info => db.object? info.id
  match found with
  | some info => .ok info.id
  | none => .error (.resolution ref.label "no such object")

end SourceRef

namespace IndexColumn

/-- The object of a source id. -/
def sourceObject (db : Database) (id : ObjectId) : Except Error ObjectInfo :=
  match db.object? id with
  | some info => .ok info
  | none => .error (.resolution s!"#{id}" "source no longer exists")

/-- The sources in the order of their sections. -/
def sources (c : IndexColumn) (s : Session) : Except Error (List ObjectInfo) × Session :=
  if !c.isBound || !s.isOpen c.context then (.error .contextClosed, s)
  else
    let (answer, s) := s.sourceInfo c.id (.empty nilId false)
    let (answer, s) := s.settle answer
    match answer with
    | .error e => (.error e, s)
    | .ok packed => (packed.ids >>= (·.mapM (sourceObject s.database)), s)

/-- Replaces the sources. All references are resolved before the engine sees any. -/
def setSources (c : IndexColumn) (s : Session) (refs : List SourceRef) :
    Except Error Unit × Session :=
  let ids := do
    let _ ← c.parts s
    refs.mapM (SourceRef.resolve s.database)
  match ids with
  | .error e => (.error e, s)
  | .ok ids =>
    let (answer, s) := s.setSourceInfo c.id ((Buffer.empty nilId false).setIds ids)
    s.settle answer

end IndexColumn

end Concordance
