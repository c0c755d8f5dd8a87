import Concordance.Options
import Concordance.Session

/-! # Index columns

A handle on one index, with buffers that all its updates and searches reuse. It belongs to the
context it was bound in and is of no use after that one is closed. Unbinding gives the buffers back,
and a handle that owns its index then removes it.
-/
namespace Concordance

/-- The buffers of a handle. -/
structure Scratch where
  value : Buffer
  oldValue : Buffer
  /-- Term ids to search for. -/
  idQuery : Buffer
  /-- Texts to search for. -/
  textQuery : Buffer
  deriving DecidableEq, Repr

structure IndexColumn where
  /-- The number of the context. -/
  context : Nat
  id : ObjectId
  lexicon : ObjectId
  range : ObjectId
  owner : Bool
  /-- There while the handle is bound. -/
  scratch : Option Scratch
  deriving DecidableEq, Repr

/-- What a call on a handle answers, with the handle and the session after it. -/
structure Reply (α : Type) where
  result : Except Error α
  column : IndexColumn
  session : Session

def Scratch.new (s : Session) (lexicon range : ObjectId) : Except Error Scratch := do
  let value ← s.openBuffer range false
  let oldValue ← s.openBuffer range false
  let idQuery ← s.openBuffer lexicon false
  let textQuery ← s.openBuffer nilId true
  return ⟨value, oldValue, idQuery, textQuery⟩

namespace IndexColumn

/-- Binds a handle to an existing index. -/
def bind (s : Session) (id : ObjectId) (owner : Bool) : Except Error IndexColumn :=
  match s.context with
  | none => .error .contextClosed
  | some context =>
    match s.database.object? id with
    | none => .error (.resolution s!"#{id}" "no such column")
    | some info =>
      if !info.isIndex then .error (.argument "column" s!"{info.label} is not an index column")
      else
        (Scratch.new s info.domain info.range).map fun scratch =>
          ⟨context.number, id, info.domain, info.range, owner, some scratch⟩

/-- Binds a handle by name; it does not own the index. -/
def bindName (s : Session) (name : String) : Except Error IndexColumn :=
  match s.database.lookup? name with
  | some info => bind s info.id false
  | none =>
    if s.context.isNone then .error .contextClosed
    else .error (.resolution name "no such column")

def isBound (c : IndexColumn) : Bool := c.scratch.isSome

/-- Gives the buffers back and, for an owner, removes the index. A second call does nothing, and
nothing is removed once the context is closed. -/
def unbind (c : IndexColumn) (s : Session) : Reply Unit :=
  let released := { c with scratch := none }
  if c.isBound && s.isOpen c.context && c.owner then
    let (answer, s) := s.removeObject c.id
    let (answer, s) := s.settle answer
    ⟨answer, released, s⟩
  else ⟨.ok (), released, s⟩

/-- The index as the catalog has it now. -/
def info (c : IndexColumn) (s : Session) : Except Error ObjectInfo :=
  if !s.isOpen c.context then .error .contextClosed
  else
    match s.database.object? c.id with
    | some info => .ok info
    | none => .error (.resolution s!"#{c.id}" "column was removed")

def isIndex (c : IndexColumn) (s : Session) : Except Error Bool := (c.info s).map (·.isIndex)

/-- Index columns hold postings and no values, so they are no vectors. -/
def isVector (c : IndexColumn) (s : Session) : Except Error Bool := (c.info s).map fun _ => false

def isScalar (c : IndexColumn) (s : Session) : Except Error Bool := (c.info s).map (·.isColumn)

def hasFlag (c : IndexColumn) (s : Session) (flag : IndexFlags) : Except Error Bool :=
  (c.info s).map fun info => info.indexFlags?.any (·.contains flag)

/-- The buffers of a bound handle whose context is open. -/
def parts (c : IndexColumn) (s : Session) : Except Error Scratch :=
  if !s.isOpen c.context then .error .contextClosed
  else
    match c.scratch with
    | some scratch => .ok scratch
    | none => .error .contextClosed

def withScratch (c : IndexColumn) (scratch : Scratch) : IndexColumn :=
  { c with scratch := some scratch }

/-- The handle as messages show it. -/
def debug (c : IndexColumn) : String :=
  "IndexColumn \x7b " ++ s!"id: {c.id}, domain: {c.lexicon}, range: {c.range}, " ++
    s!"owner: {c.owner}, bound: {c.isBound}" ++ " \x7d"

end IndexColumn

end Concordance
