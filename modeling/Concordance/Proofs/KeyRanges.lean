import Concordance.Proofs.Selecting
import Concordance.Proofs.Utf8

/-! # Ranges of keys

The keys that start with a text are looked up by a scan from the text on, which ends at the first
other key. That it finds all of them is a matter of the order alone and holds in every table. What
it finds are live records, each once, because keys and ids stand for each other however a table came
about.
-/
namespace Concordance.Table
variable {t : Table} {s : String} {next : RecordId} {records : List (RecordId × Option String)}

/-- Records as a snapshot lists them: under ids that have been given out, and no two with the same id
or the same key. -/
structure Listing (next : RecordId) (records : List (RecordId × Option String)) : Prop where
  lt_next : ∀ record ∈ records, record.1 < next
  distinct : records.Pairwise fun a b => a.1 ≠ b.1 ∧ ∀ key ∈ a.2, key ∉ b.2

/-- Tables that come about by entering keys and records, erasing, and restoring what was listed. -/
inductive Built : Table → Prop where
  | empty (kind : TableKind) : Built (empty kind)
  | add {t : Table} : Built t → Built t.add.2
  | addKey {t : Table} (key : String) : Built t → Built (t.addKey key).2
  | erase {t : Table} (id : RecordId) : Built t → Built (t.erase id)
  | restore (kind : TableKind) {next : RecordId} {records : List (RecordId × Option String)} :
      Listing next records → Built (restore kind next records)

theorem Paired.foldl_insertRecord (h : t.Paired) (hlisting : Listing t.next records)
    (hnew : ∀ record ∈ records, ¬ t.isLive record.1 ∧ ∀ key ∈ record.2, t.find? key = none) :
    (records.foldl Table.insertRecord t).Paired := by
  induction records generalizing t with
  | nil => exact h
  | cons record rest ih =>
    obtain ⟨id, key⟩ := record
    obtain ⟨hfirst, hrest⟩ := List.pairwise_cons.1 hlisting.distinct
    obtain ⟨hid, hkey⟩ := hnew (id, key) (List.mem_cons_self ..)
    have hlt := hlisting.lt_next (id, key) (List.mem_cons_self ..)
    apply ih (h.insertRecord key hid hlt hkey)
    · rw [next_insertRecord]
      exact ⟨fun r hr => hlisting.lt_next r (List.mem_cons_of_mem _ hr), hrest⟩
    · intro r hr
      obtain ⟨hr_id, hr_key⟩ := hfirst r hr
      obtain ⟨hr_live, hr_new⟩ := hnew r (List.mem_cons_of_mem _ hr)
      refine ⟨fun hlive => ?_, fun k hk => ?_⟩
      · rcases (isLive_insertRecord t id key r.1).1 hlive with heq | hlive
        · exact hr_id heq.symm
        · exact hr_live hlive
      · have hne : key ≠ some k := fun heq => hr_key k heq hk
        rw [find?_insertRecord, if_neg hne]
        exact hr_new k hk

theorem paired_restore (kind : TableKind) (hlisting : Listing next records) :
    (restore kind next records).Paired := by
  have hempty : Paired { empty kind with next } := by
    constructor <;> simp [empty, find?, key?, isLive]
  apply hempty.foldl_insertRecord hlisting
  intro record _
  simp [empty, find?, isLive]

theorem Built.paired (h : Built t) : t.Paired := by
  induction h with
  | empty kind => exact paired_empty kind
  | add _ ih => exact ih.add
  | addKey key _ ih => exact ih.addKey key
  | erase id _ ih => exact ih.erase id
  | restore kind hlisting => exact paired_restore kind hlisting

/-- What a table lists of itself can be restored. -/
theorem Paired.listing (h : t.Paired) : Listing t.next t.records := by
  constructor
  · intro record hrecord
    obtain ⟨id, hid, rfl⟩ := List.mem_map.1 hrecord
    exact h.lt_next (Std.ExtTreeSet.mem_toList.1 hid)
  · apply List.pairwise_map.2
    refine t.live.distinct_toList.imp fun {a b} hne => ?_
    have hab : a ≠ b := fun heq => hne (heq ▸ Std.ReflCmp.compare_self)
    refine ⟨hab, fun key ha hb => hab ?_⟩
    exact Option.some.inj ((h.find?_iff.2 ha).symm.trans (h.find?_iff.2 hb))

theorem Built.reopened (h : Built t) : Built (Table.restore t.kind t.next t.records) :=
  .restore t.kind h.paired.listing

theorem pairwise_utf8_idOf (t : Table) :
    t.idOf.toList.Pairwise fun a b => Text.utf8 a.1.toList < Text.utf8 b.1.toList :=
  t.pairwise_idOf.imp fun hab => Text.utf8_lt_utf8 (String.lt_iff.1 hab)

theorem Paired.key?_of_mem_idOf (h : t.Paired) {entry : String × RecordId}
    (hentry : entry ∈ t.idOf.toList) : t.key? entry.2 = some entry.1 :=
  h.find?_iff.1 (Std.ExtTreeMap.mem_toList_iff_getElem?_eq_some.1 hentry)

theorem Paired.mem_startingWith (h : t.Paired) {id : Nat} : id ∈ t.startingWith s ↔
    t.isLive id ∧ ∃ key, t.key? id = some key ∧ s.toList <+: key.toList := by
  rw [startingWith_eq_filter]
  simp only [List.mem_map, List.mem_filter, startsWith_iff]
  constructor
  · rintro ⟨entry, ⟨hentry, hstart⟩, rfl⟩
    have hkey := h.key?_of_mem_idOf hentry
    exact ⟨h.live_of_key hkey, entry.1, hkey, hstart⟩
  · rintro ⟨-, key, hkey, hstart⟩
    refine ⟨(key, id), ⟨?_, hstart⟩, rfl⟩
    exact Std.ExtTreeMap.mem_toList_iff_getElem?_eq_some.2 (h.find?_iff.2 hkey)

/-- The keys of what is found grow, byte by byte. -/
theorem Paired.pairwise_startingWith (h : t.Paired) : (t.startingWith s).Pairwise fun a b =>
    ∃ k l, t.key? a = some k ∧ t.key? b = some l ∧ Text.utf8 k.toList < Text.utf8 l.toList := by
  rw [startingWith_eq_filter]
  refine List.pairwise_map.2 ?_
  refine (t.pairwise_utf8_idOf.filter _).imp_of_mem fun {a b} ha hb hlt => ?_
  have hentry {e : String × RecordId}
      (he : e ∈ t.idOf.toList.filter fun e => startsWith s e.1) : t.key? e.2 = some e.1 :=
    h.key?_of_mem_idOf (List.mem_filter.1 he).1
  exact ⟨a.1, b.1, hentry ha, hentry hb, hlt⟩

/-- In any table the scan finds what filtering all keys gives, and these come in the order of their
bytes. In a table that came about by entering, erasing and restoring, it finds exactly the live
records whose key starts with the text, each once and in the order of the bytes of their keys. -/
theorem startingWith_spec (t : Table) (s : String) :
    t.startingWith s = (t.idOf.toList.filter fun entry => startsWith s entry.1).map (·.2) ∧
    (t.idOf.toList.Pairwise fun a b => Text.utf8 a.1.toList < Text.utf8 b.1.toList) ∧
    (Built t → (t.startingWith s).Nodup ∧
      (∀ id : Nat, id ∈ t.startingWith s ↔
        t.isLive id ∧ ∃ key, t.key? id = some key ∧ s.toList <+: key.toList) ∧
      (t.startingWith s).Pairwise fun a b => ∃ k l, t.key? a = some k ∧ t.key? b = some l ∧
        Text.utf8 k.toList < Text.utf8 l.toList) := by
  refine ⟨t.startingWith_eq_filter s, t.pairwise_utf8_idOf, fun hbuilt => ?_⟩
  have h := hbuilt.paired
  refine ⟨?_, fun id => h.mem_startingWith, h.pairwise_startingWith⟩
  apply h.pairwise_startingWith.imp
  rintro a _ ⟨k, l, hk, hl, hlt⟩ rfl
  obtain rfl : k = l := Option.some.inj (hk.symm.trans hl)
  exact absurd hlt (List.lt_irrefl _)

/-- Keys with characters of one, two and three bytes. One of them is erased, and what is left is
listed and restored. -/
def syllables : Table :=
  let entered := ["lo", "エン", "l", "é", "エンジン", "ll", "x"].foldl
    (fun t key => (t.addKey key).2) (empty .trie)
  let left := entered.erase 6
  restore left.kind left.next left.records

theorem built_syllables : Built syllables := by
  apply Built.reopened
  apply Built.erase
  iterate 7 apply Built.addKey
  exact .empty .trie

theorem startingWith_spec_syllables : Built syllables ∧
    (∀ s, (syllables.startingWith s).Nodup) ∧ syllables.startingWith "エン" = [2, 5] ∧
    syllables.startingWith "l" = [3, 1] ∧ syllables.startingWith "" = [3, 1, 7, 4, 2, 5] :=
  ⟨built_syllables, fun s => ((startingWith_spec syllables s).2.2 built_syllables).1,
    by decide +kernel, by decide +kernel, by decide +kernel⟩

end Concordance.Table
