import Concordance.IndexColumn.Assign
import Concordance.IndexColumn.Search
import Concordance.IndexColumn.Sources

/-! # Uses of a handle

The calls on a handle as one family, and the engine calls that they come down to. A use either
never asks the engine, or it asks, settles the context and passes the answer on; only a search for
a new table asks twice.
-/
namespace Concordance

/-! ## Engine calls -/

/-- A call to the engine in a context. -/
inductive Request where
  | removeObject (id : ObjectId)
  | sourceInfo (index : ObjectId) (out : Buffer)
  | setSourceInfo (index : ObjectId) (sources : Buffer)
  | indexUpdate (index : ObjectId) (record : RecordId) (sec : Nat) (old new : Option Buffer)
  | createResult (keyTable : ObjectId) (flags : ResultFlags)
  | search (index : ObjectId) (query : EngineQuery) (result : ResultTable)
    (operator : SelectOperator) (mode : SearchMode)

namespace Request

/-- Whether the call succeeds, and the session after it. -/
def run (s : Session) : Request → Except Error Unit × Session
  | removeObject id => s.removeObject id
  | sourceInfo index out => ((s.sourceInfo index out).1.map fun _ => (), (s.sourceInfo index out).2)
  | setSourceInfo index sources => s.setSourceInfo index sources
  | indexUpdate index record sec old new => s.indexUpdate index record sec old new
  | createResult keyTable flags =>
    ((s.createResult keyTable flags).1.map fun _ => (), (s.createResult keyTable flags).2)
  | search index query result operator mode =>
    ((s.search index query result operator mode).1, (s.search index query result operator mode).2.2)

/-- Calls in order, up to the first that fails. -/
def runAll (s : Session) : List Request → Except Error Unit × Session
  | [] => (.ok (), s)
  | request :: rest =>
    match request.run s with
    | (.ok (), s) => runAll s rest
    | (.error e, s) => (.error e, s)

def outcome (db : Database) : Request → Outcome Unit
  | removeObject id => db.removeObject id
  | sourceInfo index _ => ((db.sourceIds index).map fun _ => (), db)
  | setSourceInfo index sources => db.setSourceInfo index sources
  | indexUpdate index record sec old new => db.indexUpdate index record sec old new
  | createResult keyTable flags => ((db.createResult keyTable flags).map fun _ => (), db)
  | search index query result operator mode =>
    ((db.search index query result operator mode).map fun _ => (), db)

theorem run_eq_call (s : Session) (request : Request) :
    request.run s = s.call (request.outcome s.database) := by
  cases request with
  | removeObject | setSourceInfo | indexUpdate => rfl
  | sourceInfo index out =>
    simp only [run, outcome, Session.sourceInfo, Session.ask, Session.call]
    cases s.database.sourceIds index <;> rfl
  | createResult keyTable flags =>
    simp only [run, outcome, Session.createResult, Session.ask, Session.call]
    cases s.database.createResult keyTable flags <;> rfl
  | search index query result operator mode =>
    simp only [run, outcome, Session.search, Session.ask, Session.call]
    cases s.database.search index query result operator mode <;> rfl

theorem fst_run (s : Session) (request : Request) :
    (request.run s).1 = (request.outcome s.database).1 := by
  rw [run_eq_call, Session.call]
  split
  · exact (Eq.symm ‹_›)
  · exact (Eq.symm ‹_›)

theorem database_run (s : Session) (request : Request) :
    (request.run s).2.database = (request.outcome s.database).2 := by
  rw [run_eq_call, Session.call]
  split
  · rfl
  · rename_i e _
    cases e <;> rfl

theorem runAll_singleton (s : Session) (request : Request) :
    runAll s [request] = request.run s := by
  rw [runAll]
  split
  · exact (Eq.symm ‹_›)
  · exact (Eq.symm ‹_›)

end Request

namespace Session

/-- Makes an engine call, unless a fault was found before, and settles the context. -/
def ventured (s : Session) : Except Error Request → Except Error Unit × Session
  | .error e => (.error e, s)
  | .ok request => (request.run s).2.settle (request.run s).1

end Session

namespace IndexColumn

def updateRequest (c : IndexColumn) (s : Session) (record : RecordId) (arg : UpdateArg) :
    Except Error Request := do
  let (update, sec, scratch) ← c.prepare s arg
  let old ← (fill scratch.oldValue update.oldSide).1
  let new ← (fill scratch.value update.newSide).1
  return .indexUpdate c.id record sec old new

def asked (c : IndexColumn) (s : Session) (query : Query) : Except Error EngineQuery :=
  (c.parts s >>= (normalize · query)).map Prod.fst

def searchRequest (c : IndexColumn) (s : Session) (query : Query) (result : ResultTable)
    (options : SearchOptions) : Except Error Request :=
  (c.asked s query).map fun query => .search c.id query result options.operator options.mode

def sourcesRequest (c : IndexColumn) (s : Session) (refs : List SourceRef) :
    Except Error Request := do
  let _ ← c.parts s
  let ids ← refs.mapM (SourceRef.resolve s.database)
  return .setSourceInfo c.id ((Buffer.empty nilId false).setIds ids)

variable (c : IndexColumn) (s : Session)

theorem assign_eq (record : RecordId) (arg : UpdateArg) : ∃ c', c.assign s record arg =
    ⟨(s.ventured (c.updateRequest s record arg)).1.map fun () => arg, c',
      (s.ventured (c.updateRequest s record arg)).2⟩ := by
  unfold assign updateRequest
  cases c.prepare s arg with
  | error e => exact ⟨c, rfl⟩
  | ok prepared =>
    obtain ⟨update, sec, scratch⟩ := prepared
    simp only [Bind.bind, Except.bind]
    rcases fill scratch.oldValue update.oldSide with ⟨old, oldBuffer⟩
    cases old with
    | error e => exact ⟨_, rfl⟩
    | ok old =>
      rcases fill scratch.value update.newSide with ⟨new, newBuffer⟩
      cases new with
      | error e => exact ⟨_, rfl⟩
      | ok new => exact ⟨_, rfl⟩

theorem assignOptions_eq (record : RecordId) (options : UpdateOptions) : ∃ c',
    c.assignOptions s record options =
      ⟨(s.ventured (c.updateRequest s record (.options options))).1, c',
        (s.ventured (c.updateRequest s record (.options options))).2⟩ := by
  obtain ⟨c', heq⟩ := c.assign_eq s record (.options options)
  refine ⟨c', ?_⟩
  rw [assignOptions, heq]
  cases (s.ventured (c.updateRequest s record (.options options))).1 <;> rfl

theorem searchInto_eq (query : Query) (result : ResultTable) (options : SearchOptions) :
    ∃ c', (c.searchInto s query result options).1 =
      ⟨(s.ventured (c.searchRequest s query result options)).1, c',
        (s.ventured (c.searchRequest s query result options)).2⟩ := by
  unfold searchInto searchRequest asked
  cases (c.parts s >>= (normalize · query)) with
  | error e => exact ⟨c, rfl⟩
  | ok asked => exact ⟨_, rfl⟩

theorem searchInto_snd (query : Query) (result : ResultTable) (options : SearchOptions) :
    (c.searchInto s query result options).2 =
      match c.asked s query with
      | .error _ => result
      | .ok query => (s.search c.id query result options.operator options.mode).2.1 := by
  unfold searchInto asked
  cases (c.parts s >>= (normalize · query)) <;> rfl

theorem setSources_eq (refs : List SourceRef) :
    c.setSources s refs = s.ventured (c.sourcesRequest s refs) := by
  unfold setSources sourcesRequest
  cases c.parts s with
  | error e => rfl
  | ok scratch =>
    simp only [Bind.bind, Except.bind]
    cases refs.mapM (SourceRef.resolve s.database) <;> rfl

end IndexColumn

/-! ## Uses -/

/-- A call on a handle. -/
inductive Use where
  | assign (record : RecordId) (arg : UpdateArg)
  | add (record : RecordId) (v : Json) (sec : Nat)
  | delete (record : RecordId) (v : Json) (sec : Nat)
  | update (record : RecordId) (old new : Json) (sec : Nat)
  | sources
  | setSources (refs : List SourceRef)
  | search (query : Query) (options : SearchOptions)
  | searchInto (query : Query) (result : ResultTable) (options : SearchOptions)
  | unbind

/-- What a use answers when it succeeds. -/
inductive Answer where
  | done
  | argument (arg : UpdateArg)
  | objects (infos : List ObjectInfo)
  | table (result : ResultTable)

def Reply.map {α β : Type} (f : α → β) (reply : Reply α) : Reply β :=
  ⟨reply.result.map f, reply.column, reply.session⟩

namespace Use

/-- Looking at the sources or replacing them leaves a handle as it is. -/
def run (c : IndexColumn) (s : Session) : Use → Reply Answer
  | assign record arg => (c.assign s record arg).map .argument
  | add record v sec => (c.add s record v sec).map fun () => .done
  | delete record v sec => (c.delete s record v sec).map fun () => .done
  | update record old new sec => (c.update s record old new sec).map fun () => .done
  | sources => ⟨(c.sources s).1.map .objects, c, (c.sources s).2⟩
  | setSources refs => ⟨(c.setSources s refs).1.map fun () => .done, c, (c.setSources s refs).2⟩
  | search query options => (c.search s query options).map .table
  | searchInto query result options =>
    (c.searchInto s query result options).1.map fun () => .done
  | unbind => (c.unbind s).map fun () => .done

/-- The table that a caller gave to search into, after the use. -/
def table (c : IndexColumn) (s : Session) : Use → Option ResultTable
  | searchInto query result options => some (c.searchInto s query result options).2
  | _ => none

/-- The engine calls of a use, in order; each is made only if those before it succeed. -/
def requests (c : IndexColumn) (s : Session) : Use → List Request
  | assign record arg => (c.updateRequest s record arg).toOption.toList
  | add record v sec =>
    (c.updateRequest s record (.options ⟨some sec, none, some v⟩)).toOption.toList
  | delete record v sec =>
    (c.updateRequest s record (.options ⟨some sec, some v, none⟩)).toOption.toList
  | update record old new sec =>
    (c.updateRequest s record (.options ⟨some sec, some old, some new⟩)).toOption.toList
  | sources =>
    if c.isBound && s.isOpen c.context then [.sourceInfo c.id (.empty nilId false)] else []
  | setSources refs => (c.sourcesRequest s refs).toOption.toList
  | search query options =>
    match c.parts s with
    | .error _ => []
    | .ok _ =>
      .createResult c.range .all ::
        match (s.settle (s.database.createResult c.range .all)).1 with
        | .ok result => (c.searchRequest s query result options).toOption.toList
        | .error _ => []
  | searchInto query result options => (c.searchRequest s query result options).toOption.toList
  | unbind => if c.isBound && s.isOpen c.context && c.owner then [.removeObject c.id] else []

end Use
end Concordance
