import Concordance.Keyed
import Concordance.Schema

/-! # Postings

For each term, the records it occurs in, and in each section of a record its positions. Positions
are a multiset, kept sorted: a value that was added twice must be retracted twice. Each list names
its records apart from its entries, so that candidates can be found before positions are read; a
record leaves them with its last entry, and a term leaves the postings with its last record.
-/
namespace Concordance

/-! ## Sorted positions -/

namespace Positions

/-- Where a search among the `size` positions from `base` on ends up. It halves them until one is
left. -/
def search (ps : List Nat) (order : Nat → Ordering) (base size : Nat) : Nat :=
  if 1 < size then
    let half := size / 2
    let mid := base + half
    let base := if order (ps.getD mid 0) = .gt then base else mid
    search ps order base (size - half)
  else base
termination_by size

/-- Where a position in the wanted order stands, or else where it would have to be. -/
def find (ps : List Nat) (order : Nat → Ordering) : Except Nat Nat :=
  let base := search ps order 0 ps.length
  match ps[base]? with
  | none => .error 0
  | some q =>
    match order q with
    | .eq => .ok base
    | .lt => .error (base + 1)
    | .gt => .error base

/-- Where a position stands. -/
def find? (ps : List Nat) (p : Nat) : Option Nat := (find ps (compare · p)).toOption

/-- How many positions come before one. -/
def rank (ps : List Nat) (p : Nat) : Nat :=
  match find ps fun q => if q < p then .lt else .gt with
  | .ok i => i
  | .error i => i

/-- Puts a position in its place among sorted ones. -/
def insert (ps : List Nat) (p : Nat) : List Nat := ps.insertIdx (rank ps p) p

end Positions

/-! ## The occurrences of one term -/

/-- A section of a record. -/
structure PostingKey where
  record : RecordId
  sec : Nat
  deriving DecidableEq

namespace PostingKey

/-- By record, and then by section. -/
instance : Ord PostingKey := ⟨compareLex (compareOn record) (compareOn sec)⟩

instance : Std.TransOrd PostingKey :=
  inferInstanceAs (Std.TransCmp (compareLex (compareOn record) (compareOn sec)))

instance : Std.LawfulEqOrd PostingKey where
  eq_of_compare {a b} h := by
    obtain ⟨hrecord, hsec⟩ := Ordering.then_eq_eq.1 h
    cases a
    cases b
    simp only [mk.injEq]
    exact ⟨Std.LawfulEqCmp.eq_of_compare hrecord, Std.LawfulEqCmp.eq_of_compare hsec⟩

end PostingKey

/-- The occurrences of one term: the records that have any, and sorted positions by record and
section. -/
structure PostingList where
  records : IdSet
  entries : Std.ExtTreeMap PostingKey (List Nat)

namespace PostingList

def empty : PostingList := ⟨∅, ∅⟩

def positions (list : PostingList) (record : RecordId) (sec : Nat) : List Nat :=
  list.entries[(⟨record, sec⟩ : PostingKey)]?.getD []

/-- The sections of a record with their positions, in order. -/
def sections (list : PostingList) (record : RecordId) : List (Nat × List Nat) :=
  (list.entries.toList.filter (·.1.record = record)).map fun (key, positions) =>
    (key.sec, positions)

def add (list : PostingList) (record : RecordId) (sec position : Nat) : PostingList where
  entries := list.entries.insert ⟨record, sec⟩
    (Positions.insert (list.positions record sec) position)
  records := list.records.insert record

/-- Takes out the entry of a section, and the record if that was its last one. -/
def removeEntry (list : PostingList) (record : RecordId) (sec : Nat) : PostingList :=
  let list := { list with entries := list.entries.erase ⟨record, sec⟩ }
  if (list.sections record).isEmpty then { list with records := list.records.erase record }
  else list

/-- Takes out one occurrence, and tells whether it was there. -/
def remove (list : PostingList) (record : RecordId) (sec position : Nat) : Bool × PostingList :=
  match list.entries[(⟨record, sec⟩ : PostingKey)]? with
  | none => (false, list)
  | some positions =>
    match Positions.find? positions position with
    | none => (false, list)
    | some i =>
      let positions := positions.eraseIdx i
      if positions.isEmpty then (true, list.removeEntry record sec)
      else (true, { list with entries := list.entries.insert ⟨record, sec⟩ positions })

def removeRecord (list : PostingList) (record : RecordId) : PostingList where
  entries := (list.sections record).foldl
    (fun entries (sec, _) => entries.erase ⟨record, sec⟩) list.entries
  records := list.records.erase record

/-- The list without a record; a list that does not name it stays as it is. -/
def without (list : PostingList) (record : RecordId) : PostingList :=
  if list.records.contains record then list.removeRecord record else list

/-- Occurrences in all sections of a record. -/
def frequency (list : PostingList) (record : RecordId) : Nat :=
  total ((list.sections record).map (·.2.length))

def isEmpty (list : PostingList) : Bool := list.records.isEmpty

/-- All entries, by record and section. -/
def toList (list : PostingList) : List (RecordId × Nat × List Nat) :=
  list.entries.toList.map fun (key, positions) => (key.record, key.sec, positions)

end PostingList

/-! ## All terms -/

structure Postings where
  lists : ById PostingList

namespace Postings

def empty : Postings := ⟨∅⟩

def list (p : Postings) (term : RecordId) : PostingList := p.lists[term]?.getD .empty

def positions (p : Postings) (term record : RecordId) (sec : Nat) : List Nat :=
  (p.list term).positions record sec

def add (p : Postings) (term record : RecordId) (sec position : Nat) : Postings :=
  ⟨p.lists.insert term ((p.list term).add record sec position)⟩

/-- Takes out one occurrence, and tells whether it was there. -/
def take (p : Postings) (term record : RecordId) (sec position : Nat) : Bool × Postings :=
  match p.lists[term]? with
  | none => (false, p)
  | some list =>
    let (taken, list) := list.remove record sec position
    (taken, if list.isEmpty then ⟨p.lists.erase term⟩ else ⟨p.lists.insert term list⟩)

/-- Takes out one occurrence, if there is one. -/
def remove (p : Postings) (term record : RecordId) (sec position : Nat) : Postings :=
  (p.take term record sec position).2

/-- Takes a record out of all lists. -/
def removeRecord (p : Postings) (record : RecordId) : Postings :=
  ⟨p.lists.filterMap fun _ list =>
    let list := list.without record
    if list.isEmpty then none else some list⟩

def removeTerm (p : Postings) (term : RecordId) : Postings := ⟨p.lists.erase term⟩

/-- All entries, by term, record and section. -/
def entries (p : Postings) : List (RecordId × RecordId × Nat × List Nat) :=
  p.lists.toList.flatMap fun (term, list) => list.toList.map (term, ·)

end Postings

end Concordance
