import Concordance.Keyed
import Concordance.Query

/-! # Result tables

Matches of searches, keyed by record, and how further matches are merged into them.
-/
namespace Concordance

/-- What is known of one matching record. -/
structure Hit where
  score : Nat
  /-- Matching sections. -/
  subrecords : Nat
  deriving DecidableEq, Repr

/-- The matches of one search. -/
abbrev Matches := ById Hit

structure ResultFlags where
  hashKey : Bool
  withSubrecords : Bool
  deriving DecidableEq, Repr

namespace ResultFlags

def all : ResultFlags := ⟨true, true⟩

def bits (flags : ResultFlags) : Nat :=
  (if flags.hashKey then 0x1 else 0) + (if flags.withSubrecords then 0x80 else 0)

/-- Bits without a meaning are dropped. -/
def ofBits (bits : Nat) : ResultFlags := ⟨bits.testBit 0, bits.testBit 7⟩

end ResultFlags

structure ResultTable where
  /-- The table whose records are matched. -/
  keyTable : ObjectId
  flags : ResultFlags
  records : ById Hit

namespace ResultTable

def empty (keyTable : ObjectId) (flags : ResultFlags) : ResultTable := ⟨keyTable, flags, ∅⟩

def get? (t : ResultTable) (key : RecordId) : Option Hit := t.records[key]?

def contains (t : ResultTable) (key : RecordId) : Bool := t.records.contains key

def size (t : ResultTable) : Nat := t.records.size

def keys (t : ResultTable) : List RecordId := t.records.keys

def erase (t : ResultTable) (key : RecordId) : ResultTable :=
  { t with records := t.records.erase key }

def clear (t : ResultTable) : ResultTable := { t with records := ∅ }

/-- Adds a match to what is known. Sections are only counted if the table asks for it. -/
def accumulate (flags : ResultFlags) (known found : Hit) : Hit where
  score := saturate (known.score + found.score)
  subrecords :=
    if flags.withSubrecords then saturate (known.subrecords + found.subrecords)
    else known.subrecords

/-- `or` takes in every match, `and` keeps records that match again, `andNot` those that do not,
and `adjust` raises the scores of records that match again. -/
def merge (t : ResultTable) (found : Matches) (operator : SelectOperator) : ResultTable :=
  match operator with
  | .or =>
    { t with
      records := found.foldl
        (fun records key hit =>
          records.insert key (accumulate t.flags (records[key]?.getD ⟨0, 0⟩) hit)) t.records }
  | .and =>
    { t with
      records := t.records.filterMap fun key known =>
        found[key]?.map fun hit => accumulate t.flags known hit }
  | .andNot => { t with records := t.records.filter fun key _ => !found.contains key }
  | .adjust =>
    { t with
      records := t.records.map fun key known =>
        match found[key]? with
        | some hit => { known with score := saturate (known.score + hit.score) }
        | none => known }

end ResultTable

end Concordance
