import Concordance.Proofs.PostingCounts
import Mathlib.Data.Multiset.Filter

/-! # Runs of calls on postings

Postings beside a plain multiset of occurrences that goes through the same calls. A call keeps the
two in step, so that every run does: what is stored is what the replay of the run holds, a removal
fails exactly where the multiset has nothing to take out, the records of a list are those with an
entry, and no part of the postings is ever empty.
-/
namespace Concordance

/-- A term at a position, in a section of a record. -/
structure Occurrence where
  term : RecordId
  record : RecordId
  sec : Nat
  position : Nat
  deriving DecidableEq

inductive PostingCall where
  | add (o : Occurrence)
  | remove (o : Occurrence)
  | removeRecord (record : RecordId)
  | removeTerm (term : RecordId)

/-- What a call makes of a multiset. Taking out what is not there does nothing. -/
def PostingCall.replay (held : Multiset Occurrence) : PostingCall → Multiset Occurrence
  | .add o => o ::ₘ held
  | .remove o => held.erase o
  | .removeRecord record => held.filter (·.record ≠ record)
  | .removeTerm term => held.filter (·.term ≠ term)

namespace PostingList
variable {list : PostingList}

/-- A neat list names exactly the records that have an entry in some section. -/
theorem Neat.mem_records_iff_entry (h : list.Neat) (record : Nat) :
    record ∈ list.records ↔ ∃ sec ps, (record, sec, ps) ∈ list.toList := by
  simp only [mem_toList, h.mem_records]

theorem Neat.toList_ne_nil (h : list.Neat) (hlist : list.isEmpty = false) : list.toList ≠ [] := by
  intro hnil
  have hempty : list.isEmpty := h.isEmpty_iff.2 fun record sec => ?_
  · rw [hlist] at hempty
    cases hempty
  · have hnone := h.mem_records_iff_entry record
    simp only [hnil, List.not_mem_nil, exists_false, iff_false] at hnone
    exact Classical.byContradiction fun hne => hnone (h.mem_records_iff.2 ⟨sec, hne⟩)

end PostingList

namespace Postings
variable {p : Postings} {held : Multiset Occurrence}

def after (p : Postings) : PostingCall → Postings
  | .add o => p.add o.term o.record o.sec o.position
  | .remove o => p.remove o.term o.record o.sec o.position
  | .removeRecord record => p.removeRecord record
  | .removeTerm term => p.removeTerm term

/-- How often an occurrence is stored. -/
def stored (p : Postings) (o : Occurrence) : Nat :=
  (p.positions o.term o.record o.sec).count o.position

/-- Neat postings that store each occurrence as often as a multiset holds it. -/
structure Represents (p : Postings) (held : Multiset Occurrence) : Prop where
  neat : p.Neat
  stored_eq : ∀ o, p.stored o = held.count o

theorem represents_empty : empty.Represents 0 :=
  ⟨neat_empty, fun o => by simp [stored]⟩

theorem Represents.add (h : p.Represents held) (o : Occurrence) :
    (p.add o.term o.record o.sec o.position).Represents (o ::ₘ held) := by
  refine ⟨h.neat.add .., fun x => ?_⟩
  have hx := h.stored_eq x
  rw [stored] at hx
  rw [stored, positions_add, Multiset.count_cons]
  obtain ⟨t, r, s, q⟩ := x
  obtain ⟨term, record, sec, position⟩ := o
  by_cases hplace : t = term ∧ r = record ∧ s = sec
  · obtain ⟨rfl, rfl, rfl⟩ := hplace
    rw [if_pos ⟨rfl, rfl, rfl⟩, Positions.count_insert, hx]
    simp [eq_comm]
  · rw [if_neg hplace, hx, if_neg, Nat.add_zero]
    rintro ⟨⟩
    exact hplace ⟨rfl, rfl, rfl⟩

theorem Represents.remove (h : p.Represents held) (o : Occurrence) :
    (p.remove o.term o.record o.sec o.position).Represents (held.erase o) := by
  refine ⟨h.neat.remove .., fun x => ?_⟩
  have hx := h.stored_eq x
  rw [stored] at hx
  rw [stored, h.neat.positions_remove]
  by_cases hplace : x.term = o.term ∧ x.record = o.record ∧ x.sec = o.sec
  · obtain ⟨hterm, hrecord, hsec⟩ := hplace
    rw [if_pos ⟨hterm, hrecord, hsec⟩, ← hterm, ← hrecord, ← hsec]
    by_cases hposition : x.position = o.position
    · obtain rfl : x = o := by cases x; cases o; simp_all
      rw [List.count_erase_self, Multiset.count_erase_self, hx]
    · have hne : x ≠ o := fun heq => hposition (congrArg _ heq)
      rw [List.count_erase_of_ne hposition, Multiset.count_erase_of_ne hne, hx]
  · have hne : x ≠ o := by
      rintro rfl
      exact hplace ⟨rfl, rfl, rfl⟩
    rw [if_neg hplace, Multiset.count_erase_of_ne hne, hx]

theorem Represents.removeRecord (h : p.Represents held) (record : RecordId) :
    (p.removeRecord record).Represents (held.filter (·.record ≠ record)) := by
  refine ⟨h.neat.removeRecord record, fun o => ?_⟩
  rw [stored, h.neat.positions_removeRecord, Multiset.count_filter, ← h.stored_eq o]
  by_cases hrecord : o.record = record <;> simp [hrecord, stored]

theorem Represents.removeTerm (h : p.Represents held) (term : RecordId) :
    (p.removeTerm term).Represents (held.filter (·.term ≠ term)) := by
  refine ⟨h.neat.removeTerm term, fun o => ?_⟩
  rw [stored, positions_removeTerm, Multiset.count_filter, ← h.stored_eq o]
  by_cases hterm : o.term = term <;> simp [hterm, stored]

/-- One call keeps postings and multiset in step. -/
theorem Represents.after (h : p.Represents held) (call : PostingCall) :
    (p.after call).Represents (call.replay held) := by
  cases call with
  | add o => exact h.add o
  | remove o => exact h.remove o
  | removeRecord record => exact h.removeRecord record
  | removeTerm term => exact h.removeTerm term

theorem Represents.run (h : p.Represents held) (calls : List PostingCall) :
    (calls.foldl Postings.after p).Represents (calls.foldl PostingCall.replay held) := by
  induction calls generalizing p held with
  | nil => exact h
  | cons call rest ih => exact ih (h.after call)

theorem Represents.take_fst (h : p.Represents held) (o : Occurrence) :
    (p.take o.term o.record o.sec o.position).1 = true ↔ o ∈ held := by
  rw [h.neat.take_fst, ← List.count_pos_iff, ← Multiset.count_pos, ← h.stored_eq]
  rfl

/-- After any run of calls an occurrence is stored as often as the replay of the run holds it. A
removal finds its occurrence exactly if the replay holds it, and changes nothing if not. The list of
every term has an entry, names exactly the records with an entry in some section, and in each entry
positions, which are sorted. -/
theorem run_replays (calls : List PostingCall) :
    let p := calls.foldl Postings.after empty
    let held := calls.foldl PostingCall.replay 0
    (∀ o : Occurrence, (p.positions o.term o.record o.sec).count o.position = held.count o) ∧
    (∀ o : Occurrence, (p.take o.term o.record o.sec o.position).1 = true ↔ o ∈ held) ∧
    (∀ o : Occurrence, o ∉ held → p.after (.remove o) = p) ∧
    ∀ (term : RecordId) (list : PostingList), p.lists[term]? = some list → list.toList ≠ [] ∧
      (∀ record, record ∈ list.records ↔ ∃ sec ps, (record, sec, ps) ∈ list.toList) ∧
      ∀ record sec ps, (record, sec, ps) ∈ list.toList → ps ≠ [] ∧ ps.Pairwise (· ≤ ·) := by
  intro p held
  have h : p.Represents held := represents_empty.run calls
  refine ⟨h.stored_eq, h.take_fst, fun o ho => ?_, fun term list hlist => ?_⟩
  · rcases h.neat.take_cases o.term o.record o.sec o.position with ⟨-, heq⟩ | ⟨hmem, -⟩
    · exact congrArg Prod.snd heq
    · exact absurd ((h.take_fst o).1 ((h.neat.take_fst ..).2 hmem)) ho
  · have hneat := h.neat.lists hlist
    refine ⟨hneat.toList_ne_nil (h.neat.ne_empty hlist), hneat.mem_records_iff_entry,
      fun record sec ps hentry => ?_⟩
    exact hneat.kept (PostingList.mem_toList.1 hentry)

end Postings

end Concordance
