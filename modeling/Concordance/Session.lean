import Concordance.Database.Define
import Concordance.Database.Records
import Concordance.Database.Remove
import Concordance.Database.Search
import Concordance.Database.Update

/-! # Sessions

A database with at most one open context on it. A context has a slot for one error: an engine call
that fails leaves its error there besides answering it, and the slot keeps it until it is checked.
Contexts are numbered, so that whoever holds a closed one can tell.
-/
namespace Concordance

structure Context where
  number : Nat
  error : Option Error

structure Session where
  database : Database
  context : Option Context
  /-- The number of the next context. -/
  nextContext : Nat

namespace Session

def start (database : Database) : Session := ⟨database, some ⟨0, none⟩, 1⟩

/-- Opens a context on the same database in place of the one before. -/
def openContext (s : Session) : Session :=
  { s with context := some ⟨s.nextContext, none⟩, nextContext := s.nextContext + 1 }

def closeContext (s : Session) : Session := { s with context := none }

/-- Goes on with another database, in a new context. -/
def replaceDatabase (s : Session) (database : Database) : Session :=
  { s with database }.openContext

def isOpen (s : Session) (number : Nat) : Bool := s.context.any (·.number = number)

/-- The error in the slot. -/
def pending (s : Session) : Option Error := s.context.bind Context.error

def withError (s : Session) (error : Option Error) : Session :=
  { s with context := s.context.map fun c => { c with error } }

/-- Leaves an error in the slot; it replaces an earlier one. -/
def setError (s : Session) (e : Error) : Session := s.withError (some e)

def clearError (s : Session) : Session := s.withError none

/-- Takes the error out of the slot and answers it. -/
def check (s : Session) : Except Error Unit × Session :=
  match s.pending with
  | some e => (.error e, s.clearError)
  | none => (.ok (), s)

/-- Engine errors go into the slot; others do not. -/
def report (s : Session) (e : Error) : Session :=
  match e with
  | .engine .. => s.setError e
  | _ => s

/-- An engine call: it answers, leaves a database, and reports a failure. -/
def call (s : Session) (outcome : Outcome α) : Except Error α × Session :=
  let s := { s with database := outcome.2 }
  match outcome.1 with
  | .ok a => (.ok a, s)
  | .error e => (.error e, s.report e)

/-- An engine call that changes nothing in the database. -/
def ask (s : Session) (answer : Except Error α) : Except Error α × Session :=
  s.call (answer, s.database)

/-- An error in the slot goes before the call's own answer and is taken out, so that none is left
for a later call. -/
def settle (s : Session) (answer : Except Error α) : Except Error α × Session :=
  match s.check with
  | (.error e, s) => (.error e, s)
  | (.ok (), s) => (answer, s)

def removeObject (s : Session) (id : ObjectId) : Except Error Unit × Session :=
  s.call (s.database.removeObject id)

/-- A buffer filled with the ids of an index's sources. -/
def sourceInfo (s : Session) (index : ObjectId) (out : Buffer) : Except Error Buffer × Session :=
  s.ask ((s.database.sourceIds index).map out.setIds)

def setSourceInfo (s : Session) (index : ObjectId) (sources : Buffer) :
    Except Error Unit × Session :=
  s.call (s.database.setSourceInfo index sources)

def indexUpdate (s : Session) (index : ObjectId) (record : RecordId) (sec : Nat)
    (old new : Option Buffer) : Except Error Unit × Session :=
  s.call (s.database.indexUpdate index record sec old new)

def createResult (s : Session) (keyTable : ObjectId) (flags : ResultFlags) :
    Except Error ResultTable × Session :=
  s.ask (s.database.createResult keyTable flags)

/-- Merges the matches into the table, which stays as it is when the engine refuses. -/
def search (s : Session) (index : ObjectId) (query : EngineQuery) (result : ResultTable)
    (operator : SelectOperator) (mode : SearchMode) :
    Except Error Unit × ResultTable × Session :=
  match s.ask (s.database.search index query result operator mode) with
  | (.ok merged, s) => (.ok (), merged, s)
  | (.error e, s) => (.error e, result, s)

/-- A buffer for values of an existing type; `nilId` asks for none. -/
def openBuffer (s : Session) (domain : ObjectId) (shallow : Bool) : Except Error Buffer :=
  if domain = nilId || (s.database.object? domain).isSome then .ok (.empty domain shallow)
  else .error (.setup s!"cannot open buffer: unknown type #{domain}")

end Session

/-- The context as messages show it. -/
def Context.debug (c : Context) : String :=
  "Context \x7b has_error: " ++ toString c.error.isSome ++ " \x7d"

end Concordance
