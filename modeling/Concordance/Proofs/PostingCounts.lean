import Concordance.Proofs.FiniteMaps
import Concordance.Proofs.SortedPositions

/-! # Postings as counts

Postings are told by how often each position occurs for a term, a record and a section. In neat
postings the records of a list are those that have an entry, no part is empty and positions are
sorted. Every operation keeps postings neat and is an equation about lists of positions, and neat
postings are equal once these lists are.
-/
namespace Concordance

namespace PostingList
variable {list list' : PostingList} {record sec position : Nat} {ps : List Nat}

/-- The positions of a section, if it has an entry. -/
def entryAt (list : PostingList) (record sec : Nat) : Option (List Nat) :=
  list.entries[(⟨record, sec⟩ : PostingKey)]?

theorem positions_eq (list : PostingList) (record sec : Nat) :
    list.positions record sec = (list.entryAt record sec).getD [] := rfl

theorem mem_sections : (sec, ps) ∈ list.sections record ↔ list.entryAt record sec = some ps := by
  simp only [sections, List.mem_map, List.mem_filter, decide_eq_true_eq, entryAt]
  constructor
  · rintro ⟨⟨key, qs⟩, ⟨hentry, rfl⟩, heq⟩
    cases heq
    exact Std.ExtTreeMap.mem_toList_iff_getElem?_eq_some.1 hentry
  · intro h
    exact ⟨(⟨record, sec⟩, ps), ⟨Std.ExtTreeMap.mem_toList_iff_getElem?_eq_some.2 h, rfl⟩, rfl⟩

theorem mem_toList : (record, sec, ps) ∈ list.toList ↔ list.entryAt record sec = some ps := by
  simp only [toList, List.mem_map, entryAt]
  constructor
  · rintro ⟨⟨key, qs⟩, hentry, heq⟩
    cases heq
    exact Std.ExtTreeMap.mem_toList_iff_getElem?_eq_some.1 hentry
  · intro h
    exact ⟨(⟨record, sec⟩, ps), Std.ExtTreeMap.mem_toList_iff_getElem?_eq_some.2 h, rfl⟩

theorem sections_eq_nil : list.sections record = [] ↔ ∀ sec, list.entryAt record sec = none := by
  rw [List.eq_nil_iff_forall_not_mem]
  constructor
  · intro hnone sec
    cases hentry : list.entryAt record sec with
    | none => rfl
    | some ps => exact absurd (mem_sections.2 hentry) (hnone _)
  · rintro hnone ⟨sec, ps⟩ hmem
    cases (hnone sec).symm.trans (mem_sections.1 hmem)

/-- Sections come in order. -/
theorem pairwise_sections (list : PostingList) (record : Nat) :
    (list.sections record).Pairwise (·.1 < ·.1) := by
  rw [sections, List.pairwise_map, List.pairwise_filter]
  refine list.entries.ordered_keys_toList.imp fun {a b} hlt ha hb => ?_
  have ha : a.1.record = record := of_decide_eq_true ha
  have hb : b.1.record = record := of_decide_eq_true hb
  have hlt : (compare a.1.record b.1.record).then (compare a.1.sec b.1.sec) = .lt := hlt
  rw [ha, hb, Nat.compare_eq_eq.2 rfl] at hlt
  exact Nat.compare_eq_lt.1 hlt

/-- The sections of a record are told by its entries. -/
theorem sections_congr (h : ∀ sec, list.entryAt record sec = list'.entryAt record sec) :
    list.sections record = list'.sections record := by
  have hnodup (l : PostingList) : (l.sections record).Nodup :=
    (l.pairwise_sections record).imp fun hlt heq => Nat.ne_of_lt hlt (congrArg Prod.fst heq)
  have hperm : (list.sections record).Perm (list'.sections record) := by
    rw [List.perm_ext_iff_of_nodup (hnodup list) (hnodup list')]
    rintro ⟨sec, ps⟩
    rw [mem_sections, mem_sections, h]
  refine hperm.eq_of_pairwise ?_ (list.pairwise_sections record) (list'.pairwise_sections record)
  intro a b _ _ hab hba
  exact absurd hab (Nat.lt_asymm hba)

/-! ### Entries after an operation -/

theorem entryAt_insert (entries : Std.ExtTreeMap PostingKey (List Nat)) (records : IdSet)
    (record sec : Nat) (ps : List Nat) (r s : Nat) :
    entryAt ⟨records, entries.insert ⟨record, sec⟩ ps⟩ r s =
      if r = record ∧ s = sec then some ps else entryAt ⟨records, entries⟩ r s := by
  simp only [entryAt, FiniteMap.getElem?_insert, PostingKey.mk.injEq]

theorem entryAt_erase (entries : Std.ExtTreeMap PostingKey (List Nat)) (records : IdSet)
    (record sec r s : Nat) : entryAt ⟨records, entries.erase ⟨record, sec⟩⟩ r s =
      if r = record ∧ s = sec then none else entryAt ⟨records, entries⟩ r s := by
  simp only [entryAt, FiniteMap.getElem?_erase, PostingKey.mk.injEq]

theorem entryAt_add (list : PostingList) (record sec position r s : Nat) :
    (list.add record sec position).entryAt r s =
      if r = record ∧ s = sec then some (Positions.insert (list.positions record sec) position)
      else list.entryAt r s := entryAt_insert ..

theorem entryAt_removeEntry (list : PostingList) (record sec r s : Nat) :
    (list.removeEntry record sec).entryAt r s =
      if r = record ∧ s = sec then none else list.entryAt r s := by
  simp only [removeEntry]
  split <;> exact entryAt_erase ..

theorem getElem?_foldl_erase (secs : List (Nat × List Nat))
    (entries : Std.ExtTreeMap PostingKey (List Nat)) (key : PostingKey) :
    (secs.foldl (fun entries s => entries.erase ⟨record, s.1⟩) entries)[key]? =
      if key.record = record ∧ key.sec ∈ secs.map (·.1) then none else entries[key]? := by
  induction secs generalizing entries with
  | nil => simp
  | cons s rest ih =>
    rw [List.foldl_cons, ih, FiniteMap.getElem?_erase]
    obtain ⟨r, sec⟩ := key
    simp only [List.map_cons, List.mem_cons, PostingKey.mk.injEq]
    by_cases hhere : r = record ∧ sec = s.1
    · simp [hhere.1, hhere.2]
    · rw [if_neg hhere]
      have hrest : (r = record ∧ sec ∈ rest.map (·.1)) ↔
          r = record ∧ (sec = s.1 ∨ sec ∈ rest.map (·.1)) :=
        and_congr_right fun hrecord => (or_iff_right fun hsec => hhere ⟨hrecord, hsec⟩).symm
      exact ite_congr (propext hrest) (fun _ => rfl) fun _ => rfl

theorem entryAt_removeRecord (list : PostingList) (record r s : Nat) :
    (list.removeRecord record).entryAt r s = if r = record then none else list.entryAt r s := by
  rw [entryAt, removeRecord, getElem?_foldl_erase]
  by_cases hr : r = record
  · subst hr
    rw [if_pos rfl]
    split
    · rfl
    · rename_i hnone
      cases hentry : list.entryAt r s with
      | none => exact hentry
      | some ps =>
        exact absurd ⟨rfl, List.mem_map.2 ⟨(s, ps), mem_sections.2 hentry, rfl⟩⟩ hnone
  · rw [if_neg hr, if_neg fun hkey => hr hkey.1]
    rfl

theorem positions_add (list : PostingList) (record sec position r s : Nat) :
    (list.add record sec position).positions r s =
      if r = record ∧ s = sec then Positions.insert (list.positions record sec) position
      else list.positions r s := by
  rw [positions_eq, entryAt_add]
  split <;> rfl

theorem positions_removeRecord (list : PostingList) (record r s : Nat) :
    (list.removeRecord record).positions r s = if r = record then [] else list.positions r s := by
  rw [positions_eq, entryAt_removeRecord]
  split <;> rfl

/-! ### Neat lists -/

/-- The records are those that have an entry, no entry is empty, and positions are sorted. -/
structure Neat (list : PostingList) : Prop where
  mem_records : ∀ {record}, record ∈ list.records ↔ ∃ sec ps, list.entryAt record sec = some ps
  kept : ∀ {record sec ps}, list.entryAt record sec = some ps → ps ≠ [] ∧ ps.Pairwise (· ≤ ·)

theorem neat_empty : empty.Neat := by
  constructor
  · simp [empty, entryAt]
  · intro record sec ps hentry
    simp [empty, entryAt] at hentry

theorem Neat.pairwise (h : list.Neat) (record sec : Nat) :
    (list.positions record sec).Pairwise (· ≤ ·) := by
  rw [positions_eq]
  cases hentry : list.entryAt record sec with
  | none => exact .nil
  | some ps => exact (h.kept hentry).2

/-- The entries of a neat list are what its lists of positions say. -/
theorem Neat.entryAt_eq (h : list.Neat) (record sec : Nat) : list.entryAt record sec =
    if list.positions record sec = [] then none else some (list.positions record sec) := by
  rw [positions_eq]
  cases hentry : list.entryAt record sec with
  | none => rfl
  | some ps => exact (if_neg (h.kept hentry).1).symm

/-- A neat list names the records that have a position. -/
theorem Neat.mem_records_iff (h : list.Neat) {record : Nat} :
    record ∈ list.records ↔ ∃ sec, list.positions record sec ≠ [] := by
  rw [h.mem_records]
  refine exists_congr fun sec => ?_
  rw [h.entryAt_eq]
  split <;> simp [*]

theorem Neat.add (h : list.Neat) (record sec position : Nat) :
    (list.add record sec position).Neat := by
  constructor
  · intro r
    have hrecords : r ∈ (list.add record sec position).records ↔ r = record ∨ r ∈ list.records := by
      rw [PostingList.add, Std.ExtTreeSet.mem_insert, Std.LawfulEqCmp.compare_eq_iff_eq,
        eq_comm]
    rw [hrecords, h.mem_records]
    constructor
    · rintro (rfl | ⟨s, ps, hentry⟩)
      · exact ⟨sec, _, (entryAt_add ..).trans (if_pos ⟨rfl, rfl⟩)⟩
      · simp only [entryAt_add]
        by_cases hkey : r = record ∧ s = sec
        · exact ⟨s, _, if_pos hkey⟩
        · exact ⟨s, ps, (if_neg hkey).trans hentry⟩
    · rintro ⟨s, ps, hentry⟩
      rw [entryAt_add] at hentry
      split at hentry
      · exact .inl (And.left ‹_›)
      · exact .inr ⟨s, ps, hentry⟩
  · intro r s ps hentry
    rw [entryAt_add] at hentry
    split at hentry
    · cases hentry
      exact ⟨Positions.insert_ne_nil _ _, Positions.pairwise_insert (h.pairwise record sec)⟩
    · exact h.kept hentry

theorem Neat.removeEntry (h : list.Neat) (record sec : Nat) :
    (list.removeEntry record sec).Neat := by
  constructor
  · intro r
    have hleft : (∃ s ps, (list.removeEntry record sec).entryAt r s = some ps) ↔
        ∃ s ps, entryAt ⟨list.records, list.entries.erase ⟨record, sec⟩⟩ r s = some ps := by
      simp only [entryAt_removeEntry, entryAt_erase]
    have hother : r ≠ record → ((∃ s ps, entryAt ⟨list.records,
        list.entries.erase ⟨record, sec⟩⟩ r s = some ps) ↔ r ∈ list.records) := by
      intro hr
      simp only [entryAt_erase, hr, false_and, if_false, h.mem_records]
    rw [hleft]
    simp only [PostingList.removeEntry]
    split
    · -- that was the last entry of the record
      rename_i hempty
      have hnone := sections_eq_nil.1 (List.isEmpty_iff.1 hempty)
      by_cases hr : r = record
      · subst hr
        simp [hnone]
      · rw [hother hr, Std.ExtTreeSet.mem_erase, Ne, Std.LawfulEqCmp.compare_eq_iff_eq,
          eq_comm, and_iff_right hr]
    · rename_i hsome
      by_cases hr : r = record
      · subst hr
        have hentry : ∃ s ps, entryAt ⟨list.records, list.entries.erase ⟨r, sec⟩⟩ r s =
            some ps := by
          obtain ⟨⟨s, ps⟩, hmem⟩ := List.exists_mem_of_ne_nil _ (mt List.isEmpty_iff.2 hsome)
          exact ⟨s, ps, mem_sections.1 hmem⟩
        refine ⟨fun _ => hentry, fun ⟨s, ps, hps⟩ => h.mem_records.2 ?_⟩
        rw [entryAt_erase] at hps
        split at hps
        · cases hps
        · exact ⟨s, ps, hps⟩
      · exact (hother hr).symm
  · intro r s ps hentry
    rw [entryAt_removeEntry] at hentry
    split at hentry
    · cases hentry
    · exact h.kept hentry

/-- Taking out an occurrence leaves the other positions of its section, or no entry if there are no
others. If there is no such occurrence nothing happens. -/
theorem Neat.remove_cases (h : list.Neat) (record sec position : Nat) :
    (position ∉ list.positions record sec ∧
      list.remove record sec position = (false, list)) ∨
    (position ∈ list.positions record sec ∧ list.remove record sec position =
      (true, if ((list.positions record sec).erase position).isEmpty then
          list.removeEntry record sec
        else ⟨list.records, list.entries.insert ⟨record, sec⟩
          ((list.positions record sec).erase position)⟩)) := by
  rw [positions_eq, remove]
  cases hentry : list.entryAt record sec with
  | none =>
    left
    simp only [entryAt] at hentry
    simp [hentry]
  | some ps =>
    have hsorted := (h.kept hentry).2
    simp only [entryAt] at hentry
    simp only [Option.getD_some, hentry]
    cases hfind : Positions.find? ps position with
    | none => exact .inl ⟨(Positions.find?_eq_none hsorted).1 hfind, rfl⟩
    | some i =>
      have hmem := List.mem_of_getElem? (Positions.getElem?_of_find? hfind)
      refine .inr ⟨hmem, ?_⟩
      dsimp only
      rw [Positions.eraseIdx_eq hsorted hfind]
      split <;> rfl

theorem Neat.positions_remove (h : list.Neat) (record sec position r s : Nat) :
    (list.remove record sec position).2.positions r s =
      if r = record ∧ s = sec then (list.positions record sec).erase position
      else list.positions r s := by
  rcases h.remove_cases record sec position with ⟨hnot, heq⟩ | ⟨-, heq⟩
  · rw [heq, List.erase_of_not_mem hnot]
    split
    · rename_i hkey
      rw [hkey.1, hkey.2]
    · rfl
  · rw [heq]
    dsimp only
    split
    · rename_i hempty
      rw [positions_eq, entryAt_removeEntry, List.isEmpty_iff.1 hempty]
      split <;> rfl
    · rw [positions_eq, entryAt_insert]
      split <;> rfl

theorem Neat.remove (h : list.Neat) (record sec position : Nat) :
    (list.remove record sec position).2.Neat := by
  rcases h.remove_cases record sec position with ⟨-, heq⟩ | ⟨hmem, heq⟩
  · rw [heq]
    exact h
  rw [heq]
  dsimp only
  split
  · exact h.removeEntry record sec
  · rename_i hleft
    have hentry : list.entryAt record sec = some (list.positions record sec) := by
      rw [h.entryAt_eq, if_neg (List.ne_nil_of_mem hmem)]
    constructor
    · intro r
      rw [h.mem_records]
      simp only [entryAt_insert]
      constructor
      · rintro ⟨s, ps, hps⟩
        by_cases hkey : r = record ∧ s = sec
        · exact ⟨s, _, if_pos hkey⟩
        · exact ⟨s, ps, (if_neg hkey).trans hps⟩
      · rintro ⟨s, ps, hps⟩
        split at hps
        · rename_i hkey
          exact ⟨sec, _, hkey.1 ▸ hentry⟩
        · exact ⟨s, ps, hps⟩
    · intro r s ps hps
      rw [entryAt_insert] at hps
      split at hps
      · cases hps
        exact ⟨fun hnil => hleft (List.isEmpty_iff.2 hnil),
          (h.pairwise record sec).erase position⟩
      · exact h.kept hps

theorem Neat.removeRecord (h : list.Neat) (record : Nat) : (list.removeRecord record).Neat := by
  constructor
  · intro r
    have hrecords : r ∈ (list.removeRecord record).records ↔ r ≠ record ∧ r ∈ list.records := by
      rw [PostingList.removeRecord, Std.ExtTreeSet.mem_erase, Ne,
        Std.LawfulEqCmp.compare_eq_iff_eq, eq_comm]
    rw [hrecords, h.mem_records]
    simp only [entryAt_removeRecord]
    by_cases hr : r = record <;> simp [hr]
  · intro r s ps hentry
    rw [entryAt_removeRecord] at hentry
    split at hentry
    · cases hentry
    · exact h.kept hentry

theorem Neat.without (h : list.Neat) (record : Nat) : (list.without record).Neat := by
  rw [PostingList.without]
  split
  · exact h.removeRecord record
  · exact h

/-- A list that does not name a record has no positions of it. -/
theorem Neat.positions_without (h : list.Neat) (record r s : Nat) :
    (list.without record).positions r s = if r = record then [] else list.positions r s := by
  rw [PostingList.without]
  split
  · exact positions_removeRecord list record r s
  · rename_i hnot
    split
    · rename_i hr
      rw [hr]
      exact Classical.byContradiction fun hne => hnot (h.mem_records_iff.2 ⟨s, hne⟩)
    · rfl

theorem Neat.isEmpty_iff (h : list.Neat) :
    list.isEmpty ↔ ∀ record sec, list.positions record sec = [] := by
  rw [isEmpty, Std.ExtTreeSet.isEmpty_iff, Std.ExtTreeSet.eq_empty_iff_forall_not_mem]
  simp only [h.mem_records_iff, not_exists, Classical.not_not]

/-- What a neat list has of a record is told by the positions. -/
theorem Neat.records_congr (h : list.Neat) (h' : list'.Neat) {record : Nat}
    (heq : ∀ sec, list.positions record sec = list'.positions record sec) :
    record ∈ list.records ↔ record ∈ list'.records := by
  rw [h.mem_records_iff, h'.mem_records_iff]
  simp only [heq]

theorem Neat.entryAt_congr (h : list.Neat) (h' : list'.Neat) {record : Nat}
    (heq : ∀ sec, list.positions record sec = list'.positions record sec) (sec : Nat) :
    list.entryAt record sec = list'.entryAt record sec := by
  rw [h.entryAt_eq, h'.entryAt_eq, heq]

theorem Neat.eq_of_positions (h : list.Neat) (h' : list'.Neat)
    (heq : ∀ record sec, list.positions record sec = list'.positions record sec) :
    list = list' := by
  have hrecords : list.records = list'.records := by
    apply Std.ExtTreeSet.ext_mem
    intro record
    exact h.records_congr h' (heq record)
  have hentries : list.entries = list'.entries := by
    apply Std.ExtTreeMap.ext_getElem?
    rintro ⟨record, sec⟩
    exact h.entryAt_congr h' (heq record) sec
  cases list
  cases list'
  simp only [mk.injEq]
  exact ⟨hrecords, hentries⟩

end PostingList

namespace Postings
variable {p q : Postings} {term record sec position : Nat}

theorem positions_add (p : Postings) (term record sec position t r s : Nat) :
    (p.add term record sec position).positions t r s =
      if t = term ∧ r = record ∧ s = sec then
        Positions.insert (p.positions term record sec) position
      else p.positions t r s := by
  by_cases ht : t = term
  · subst ht
    simp [add, positions, list, PostingList.positions_add]
  · simp [add, positions, list, ht]

theorem positions_removeTerm (p : Postings) (term t r s : Nat) :
    (p.removeTerm term).positions t r s = if t = term then [] else p.positions t r s := by
  by_cases ht : t = term <;>
    simp [removeTerm, positions, list, ht, PostingList.positions, PostingList.empty]

@[simp] theorem positions_empty (t r s : Nat) : empty.positions t r s = [] := by
  simp [empty, positions, list, PostingList.positions, PostingList.empty]

/-- No list is empty, and each one is neat. -/
structure Neat (p : Postings) : Prop where
  ne_empty : ∀ {term : Nat} {l}, p.lists[term]? = some l → l.isEmpty = false
  lists : ∀ {term : Nat} {l}, p.lists[term]? = some l → l.Neat

theorem neat_empty : Neat empty := by
  constructor <;> intro term l h <;> simp [empty] at h

theorem Neat.list (h : p.Neat) (term : Nat) : (p.list term).Neat := by
  simp only [Postings.list]
  cases hl : p.lists[term]? with
  | none => exact PostingList.neat_empty
  | some l => exact h.lists hl

theorem Neat.pairwise (h : p.Neat) (term record sec : Nat) :
    (p.positions term record sec).Pairwise (· ≤ ·) := (h.list term).pairwise record sec

theorem Neat.add (h : p.Neat) (term record sec position : Nat) :
    (p.add term record sec position).Neat := by
  constructor
  all_goals
    intro t l hl
    simp only [Postings.add, FiniteMap.getElem?_insert] at hl
    split at hl
  · cases hl
    exact Std.ExtTreeSet.isEmpty_eq_false_iff.2 Std.ExtTreeSet.insert_ne_empty
  · exact h.ne_empty hl
  · cases hl
    exact (h.list term).add record sec position
  · exact h.lists hl

/-- Taking out an occurrence shortens the list of its term, or takes the list away if nothing is
left of it. If there is no such occurrence nothing happens. -/
theorem Neat.take_cases (h : p.Neat) (term record sec position : Nat) :
    (position ∉ p.positions term record sec ∧ p.take term record sec position = (false, p)) ∨
    (position ∈ p.positions term record sec ∧ p.take term record sec position =
      (true, if ((p.list term).remove record sec position).2.isEmpty then ⟨p.lists.erase term⟩
        else ⟨p.lists.insert term ((p.list term).remove record sec position).2⟩)) := by
  rw [take, positions, Postings.list]
  cases hl : p.lists[term]? with
  | none => exact .inl ⟨by simp [PostingList.positions, PostingList.empty], rfl⟩
  | some l =>
    rw [Option.getD_some]
    dsimp only
    rcases (h.lists hl).remove_cases record sec position with ⟨hnot, heq⟩ | ⟨hmem, heq⟩
    · refine .inl ⟨hnot, ?_⟩
      rw [heq]
      simp only [h.ne_empty hl, Bool.false_eq_true, if_false, FiniteMap.insert_self hl]
    · refine .inr ⟨hmem, ?_⟩
      rw [heq]

theorem Neat.take_fst (h : p.Neat) (term record sec position : Nat) :
    (p.take term record sec position).1 = true ↔ position ∈ p.positions term record sec := by
  rcases h.take_cases term record sec position with ⟨hnot, heq⟩ | ⟨hmem, heq⟩
  · simp [heq, hnot]
  · simp [heq, hmem]

/-- A list after a removal is the shortened one, if something is left of it, or was there before. -/
theorem Neat.lists_remove (h : p.Neat) (term record sec position t : Nat) :
    (p.remove term record sec position).lists[t]? =
      if position ∈ p.positions term record sec ∧ t = term then
        (if ((p.list term).remove record sec position).2.isEmpty then none
          else some ((p.list term).remove record sec position).2)
      else p.lists[t]? := by
  rw [remove]
  rcases h.take_cases term record sec position with ⟨hnot, heq⟩ | ⟨hmem, heq⟩
  · rw [heq, if_neg fun hc => hnot hc.1]
  · rw [heq]
    have hkeep := FiniteMap.getElem?_keep p.lists
      ((p.list term).remove record sec position).2.isEmpty term t
      ((p.list term).remove record sec position).2
    simp only [hmem, true_and]
    rw [← hkeep]
    split <;> rfl

theorem Neat.list_of_remove (h : p.Neat) {term record sec position t : Nat} {l : PostingList}
    (hl : (p.remove term record sec position).lists[t]? = some l) :
    l.isEmpty = false ∧ l = ((p.list term).remove record sec position).2 ∨
      p.lists[t]? = some l := by
  rw [h.lists_remove] at hl
  split at hl
  · split at hl
    · cases hl
    · cases hl
      exact .inl ⟨Bool.eq_false_iff.2 ‹_›, rfl⟩
  · exact .inr hl

theorem Neat.remove (h : p.Neat) (term record sec position : Nat) :
    (p.remove term record sec position).Neat := by
  constructor
  all_goals
    intro t l hl
    rcases h.list_of_remove hl with ⟨hleft, heq⟩ | hbefore
  · exact hleft
  · exact h.ne_empty hbefore
  · exact heq ▸ (h.list term).remove record sec position
  · exact h.lists hbefore

theorem Neat.positions_remove (h : p.Neat) (term record sec position t r s : Nat) :
    (p.remove term record sec position).positions t r s =
      if t = term ∧ r = record ∧ s = sec then (p.positions term record sec).erase position
      else p.positions t r s := by
  have hlist : (p.remove term record sec position).positions t r s =
      if position ∈ p.positions term record sec ∧ t = term then
        ((p.list term).remove record sec position).2.positions r s
      else p.positions t r s := by
    rw [positions, Postings.list, h.lists_remove]
    split
    · split
      · rename_i hempty
        have hneat := (h.list term).remove record sec position
        rw [hneat.isEmpty_iff.1 hempty]
        simp [PostingList.positions, PostingList.empty]
      · rfl
    · rfl
  rw [hlist, (h.list term).positions_remove]
  by_cases ht : t = term
  · subst ht
    by_cases hmem : position ∈ p.positions t record sec
    · simp only [hmem, true_and, if_true]
      rfl
    · rw [if_neg fun hc => hmem hc.1, List.erase_of_not_mem hmem]
      split
      · rename_i hkey
        rw [hkey.2.1, hkey.2.2]
      · rfl
  · rw [if_neg fun hc => ht hc.2, if_neg fun hc => ht hc.1]

/-- What is left of a list when a record is taken out of all lists. -/
theorem getElem?_removeRecord (p : Postings) (record t : Nat) :
    (p.removeRecord record).lists[t]? = p.lists[t]?.bind fun list =>
      if (list.without record).isEmpty then none else some (list.without record) := by
  simp only [removeRecord, Std.ExtTreeMap.getElem?_filterMap']

theorem Neat.removeRecord (h : p.Neat) (record : Nat) : (p.removeRecord record).Neat := by
  constructor
  all_goals
    intro t l hl
    rw [getElem?_removeRecord, Option.bind_eq_some_iff] at hl
    obtain ⟨before, hbefore, hl⟩ := hl
    split at hl
    · cases hl
    cases hl
  · exact Bool.eq_false_iff.2 ‹_›
  · exact (h.lists hbefore).without record

theorem Neat.positions_removeRecord (h : p.Neat) (record t r s : Nat) :
    (p.removeRecord record).positions t r s = if r = record then [] else p.positions t r s := by
  rw [positions, positions, Postings.list, Postings.list, getElem?_removeRecord]
  cases hl : p.lists[t]? with
  | none => simp [PostingList.positions, PostingList.empty]
  | some l =>
    have hneat := h.lists hl
    rw [Option.bind_some, Option.getD_some, ← hneat.positions_without]
    split
    · rename_i hempty
      rw [(hneat.without record).isEmpty_iff.1 hempty]
      simp [PostingList.positions, PostingList.empty]
    · rfl

theorem Neat.removeTerm (h : p.Neat) (term : Nat) : (p.removeTerm term).Neat := by
  constructor
  all_goals
    intro t l hl
    simp only [Postings.removeTerm, FiniteMap.getElem?_erase] at hl
    split at hl
    · cases hl
  · exact h.ne_empty hl
  · exact h.lists hl

theorem Neat.getElem?_lists (h : p.Neat) (term : Nat) :
    p.lists[term]? = if (p.list term).isEmpty then none else some (p.list term) := by
  cases hl : p.lists[term]? with
  | none =>
    have hempty : (p.list term).isEmpty := by simp [Postings.list, hl, PostingList.isEmpty,
      PostingList.empty]
    rw [if_pos hempty]
  | some l =>
    have hlist : p.list term = l := by simp [Postings.list, hl]
    rw [hlist, h.ne_empty hl]
    rfl

/-- What neat postings have of a term is told by its positions. -/
theorem Neat.getElem?_lists_congr (h : p.Neat) (h' : q.Neat) {term term' : Nat}
    (heq : ∀ record sec, p.positions term record sec = q.positions term' record sec) :
    p.lists[term]? = q.lists[term']? := by
  rw [h.getElem?_lists, h'.getElem?_lists,
    (h.list term).eq_of_positions (h'.list term') heq]

/-- Neat postings with the same positions everywhere are the same. -/
theorem Neat.eq_of_positions (h : p.Neat) (h' : q.Neat)
    (heq : ∀ term record sec, p.positions term record sec = q.positions term record sec) :
    p = q := by
  have hlists : p.lists = q.lists := by
    apply Std.ExtTreeMap.ext_getElem?
    intro term
    exact h.getElem?_lists_congr h' (heq term)
  cases p
  cases q
  simpa using hlists

/-- Sorted positions are told by how often each occurs. -/
theorem Neat.positions_congr (h : p.Neat) (h' : q.Neat) {term term' record sec : Nat}
    (heq : ∀ position, (p.positions term record sec).count position =
      (q.positions term' record sec).count position) :
    p.positions term record sec = q.positions term' record sec :=
  Positions.eq_of_perm (h.pairwise term record sec) (h'.pairwise term' record sec)
    (List.perm_iff_count.2 heq)

/-- Neat postings are told by how often each position occurs. -/
theorem Neat.eq_of_count (h : p.Neat) (h' : q.Neat)
    (heq : ∀ term record sec position, (p.positions term record sec).count position =
      (q.positions term record sec).count position) : p = q :=
  h.eq_of_positions h' fun term record sec => h.positions_congr h' (heq term record sec)

end Postings

end Concordance
