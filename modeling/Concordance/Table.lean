import Concordance.Keyed
import Concordance.Schema

/-! # Tables

The records of one table: which ids are live and, for keyed tables, the key of each record and the
record of each key. Ids are given out in order and never again.
-/
namespace Concordance

structure Table where
  kind : TableKind
  idOf : ByName RecordId
  keyOf : ById String
  live : IdSet
  next : RecordId

namespace Table

def empty (kind : TableKind) : Table := ⟨kind, ∅, ∅, ∅, 1⟩

/-- A new record without a key. The counter of ids goes on past the largest word. -/
def add (t : Table) : RecordId × Table :=
  (t.next, { t with live := t.live.insert t.next, next := t.next + 1 })

def find? (t : Table) (key : String) : Option RecordId := t.idOf[key]?

def key? (t : Table) (id : RecordId) : Option String := t.keyOf[id]?

def isLive (t : Table) (id : RecordId) : Bool := t.live.contains id

/-- The record of a key, made if there is none. -/
def addKey (t : Table) (key : String) : RecordId × Table :=
  match t.find? key with
  | some id => (id, t)
  | none =>
    let (id, t) := t.add
    (id, { t with idOf := t.idOf.insert key id, keyOf := t.keyOf.insert id key })

def erase (t : Table) (id : RecordId) : Table :=
  if t.isLive id then
    { t with
      live := t.live.erase id
      keyOf := t.keyOf.erase id
      idOf := match t.key? id with
        | some key => t.idOf.erase key
        | none => t.idOf }
  else t

def size (t : Table) : Nat := t.live.size

/-- Live records in order, each with its key. -/
def records (t : Table) : List (RecordId × Option String) :=
  t.live.toList.map fun id => (id, t.key? id)

/-- Live records with a key, in order of their ids. -/
def keyed (t : Table) : List (RecordId × String) :=
  t.live.toList.filterMap fun id => (t.key? id).map (id, ·)

def startsWith (s key : String) : Bool := s.toList.isPrefixOf key.toList

def endsWith (s key : String) : Bool := s.toList.isSuffixOf key.toList

/-- Records of the keys that start with a text, in key order. They follow one another from the text
itself on, so the scan stops at the first other key. -/
def startingWith (t : Table) (s : String) : List RecordId :=
  ((t.idOf.toList.dropWhile (·.1 < s)).takeWhile (startsWith s ·.1)).map (·.2)

/-- Records of the keys that end with a text, in key order. -/
def endingWith (t : Table) (s : String) : List RecordId :=
  (t.idOf.toList.filter (endsWith s ·.1)).map (·.2)

def insertRecord (t : Table) (record : RecordId × Option String) : Table :=
  let (id, key) := record
  let t := { t with live := t.live.insert id }
  match key with
  | some key => { t with idOf := t.idOf.insert key id, keyOf := t.keyOf.insert id key }
  | none => t

/-- The table with these live records, which gives out `next` next. -/
def restore (kind : TableKind) (next : RecordId) (records : List (RecordId × Option String)) :
    Table := records.foldl insertRecord { empty kind with next }

end Table

end Concordance
