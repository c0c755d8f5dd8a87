import Concordance.Proofs.Buffers
import Concordance.Proofs.Maintenance

/-! # Places that outgrow words

Tokenizing the sources of a record gives places of any size, and an index without sections shifts
those of each source behind the one before it. The postings have words for places, so that all places
from the last word on come to stand there. They are what tokenizing gives as long as no place is
beyond the last word.
-/
namespace Concordance
namespace Index
variable {ix : Index} {texts : Nat → Nat → List String} {record : Nat}

/-- The occurrences that tokenizing the texts of a source gives: in a section of its own, or else in
the first section after those of the sources before it. -/
def tokenizedSource (ix : Index) (source : Nat) (texts : List String) :
    List (String × Nat × Nat) :=
  (spread ix.tokenizer texts 0).map fun (term, position) =>
    if ix.flags.contains .withSection then (term, source, position)
    else (term, 1, (source - 1) * sectionSpan + position)

def tokenized (ix : Index) (texts : Nat → Nat → List String) (record : Nat) :
    List (String × Nat × Nat) :=
  (ix.sources.zipIdx 1).flatMap fun place => ix.tokenizedSource place.2 (texts place.1 record)

theorem contribution_eq_tokenizedSource (ix : Index) (source : Nat) (texts : List String) :
    ix.contribution source texts =
      (ix.tokenizedSource source texts).map fun o => (o.1, o.2.1, saturate o.2.2) := by
  rw [contribution, tokenizedSource, List.map_map]
  refine List.map_congr_left fun o _ => ?_
  simp only [Function.comp]
  split <;> rfl

/-- A rebuilt index is what tokenizing gives, with words for places. -/
theorem rebuilt_eq_tokenized (ix : Index) (texts : Nat → Nat → List String) (record : Nat) :
    ix.rebuilt texts record =
      (ix.tokenized texts record).map fun o => (o.1, o.2.1, saturate o.2.2) := by
  simp only [rebuilt, tokenized, List.map_flatMap, contribution_eq_tokenizedSource]

/-- The places of a term in a section, from the last word on. -/
def outgrown (os : List (String × Nat × Nat)) (term : String) (sec : Nat) : Nat :=
  os.countP fun o => o.1 = term ∧ o.2.1 = sec ∧ wordMax ≤ o.2.2

theorem count_saturate (os : List (String × Nat × Nat)) (t : String) (s q : Nat) :
    (os.map fun o => (o.1, o.2.1, saturate o.2.2)).count (t, s, q) =
      if q < wordMax then os.count (t, s, q) else if q = wordMax then outgrown os t s else 0 := by
  rw [List.count, List.countP_map]
  split
  · refine List.countP_congr fun o _ => ?_
    have hplace : min o.2.2 wordMax = q ↔ o.2.2 = q := by omega
    simp [Prod.ext_iff, saturate, hplace]
  · split
    · refine List.countP_congr fun o _ => ?_
      have hplace : min o.2.2 wordMax = q ↔ wordMax ≤ o.2.2 := by omega
      simp [Prod.ext_iff, saturate, hplace]
    · refine List.countP_eq_zero.2 fun o _ => ?_
      have hplace : min o.2.2 wordMax ≠ q := by omega
      simp [Prod.ext_iff, saturate, hplace]

theorem count_saturate_eq_iff (os : List (String × Nat × Nat)) :
    (∀ t s q, (os.map fun o => (o.1, o.2.1, saturate o.2.2)).count (t, s, q) = os.count (t, s, q)) ↔
      ∀ o ∈ os, o.2.2 ≤ wordMax := by
  constructor
  · rintro h ⟨t, s, q⟩ ho
    refine Nat.le_of_not_lt fun hlt : wordMax < q => ?_
    have hcount := List.count_pos_iff.2 ho
    rw [← h, count_saturate, if_neg (Nat.lt_asymm hlt), if_neg (Nat.ne_of_gt hlt)] at hcount
    cases hcount
  · intro h t s q
    have hsame : ∀ o ∈ os, (o.1, o.2.1, saturate o.2.2) = o := fun o ho => by
      rw [saturate, Nat.min_eq_left (h o ho)]
    rw [List.map_congr_left hsame, List.map_id']

end Index

namespace Database
variable {db : Database} {i : Nat} {ix : Index}

/-- Incremental maintenance is tokenizing the current texts of the sources, for a record exactly if
that gives no place beyond the last word. In any case the postings have each place below the last
word as often as tokenizing gives it, the last word for all places from there on, and nothing more. -/
theorem stored_eq_tokenized (h : Reached Maintaining db) (hix : db.indexes[i]? = some ix) :
    (∀ record, (∀ term sec position, db.stored ix term record sec position =
        (ix.tokenized db.textsOf record).count (term, sec, position)) ↔
      ∀ o ∈ ix.tokenized db.textsOf record, o.2.2 ≤ wordMax) ∧
    (∀ term record sec position, db.stored ix term record sec position =
      if position < wordMax then (ix.tokenized db.textsOf record).count (term, sec, position)
      else if position = wordMax then Index.outgrown (ix.tokenized db.textsOf record) term sec
      else 0) ∧
    ∀ {id record sec position}, position ∈ ix.postings.positions id record sec →
      ∃ term, db.recordId? ix.lexicon term = some id := by
  obtain ⟨hstored, hterm⟩ := stored_eq_rebuilt h hix
  simp only [Index.rebuilt_eq_tokenized] at hstored
  refine ⟨fun record => ?_, fun term record sec position => ?_, hterm⟩
  · simp only [hstored]
    exact Index.count_saturate_eq_iff _
  · rw [hstored, Index.count_saturate]

/-- The words of the body, behind those of the title. -/
theorem stored_eq_tokenized_notes : ∃ ix, notes.indexes[260]? = some ix ∧
    (∀ o ∈ ix.tokenized notes.textsOf 1, o.2.2 ≤ wordMax) ∧
    notes.stored ix "be" 1 1 0x100001 = 1 ∧ ∀ term sec position,
      notes.stored ix term 1 sec position =
        (ix.tokenized notes.textsOf 1).count (term, sec, position) := by
  have hix : notes.indexes[260]? = some (notes.indexes[260]?.get (by decide +kernel)) :=
    (Option.some_get _).symm
  have hwords : ∀ o ∈ (notes.indexes[260]?.get (by decide +kernel)).tokenized notes.textsOf 1,
      o.2.2 ≤ wordMax := by decide +kernel
  exact ⟨_, hix, hwords, by decide +kernel, ((stored_eq_tokenized reached_notes hix).1 1).2 hwords⟩

/-! ## One source too many -/

/-- A list of sources that pass the check is taken from a buffer. -/
theorem WellFormed.rewired_setSourceInfo (h : db.WellFormed) (hix : db.indexes[i]? = some ix)
    {sources : List ObjectId} (hcheck : ∀ s ∈ sources, db.checkSource ix.range s = .ok ())
    (hword : ∀ s ∈ sources, s < Word.limit 4) :
    db.Rewired (db.after (.setSourceInfo i ((Buffer.empty nilId false).setIds sources))) i
      sources := by
  obtain ⟨db', hinstall⟩ := h.installSources_of_check .ascending hix hcheck
  have hafter : db.after (.setSourceInfo i ((Buffer.empty nilId false).setIds sources)) = db' := by
    rw [Database.after, HashOrder.setSourceInfo, Buffer.ids_setIds _ hword]
    change (db.attempt (HashOrder.ascending.installSources db i sources >>= fun db =>
      pure ((), db))).2 = _
    rw [hinstall]
    rfl
  rw [hafter]
  exact (h.installSources hinstall).2.1

theorem Rewired.textsOf_column {db' : Database} {sources : List ObjectId}
    (h : db.Rewired db' i sources) {column : Nat} {values : Column}
    (hvalues : db.columns[column]? = some values) (record : Nat) :
    db'.textsOf column record = db.textsOf column record := by
  simp only [textsOf, h.columns, hvalues]

/-- The notes with their body listed as source 4097 times. -/
def repetitive : Database :=
  notes.after (.setSourceInfo 260 ((Buffer.empty nilId false).setIds (List.replicate 4097 259)))

theorem rewired_repetitive : notes.Rewired repetitive 260 (List.replicate 4097 259) := by
  have hix : notes.indexes[260]? = some (notes.indexes[260]?.get (by decide +kernel)) :=
    (Option.some_get _).symm
  have hkind : notes.kind? 259 =
      some (.column (notes.indexes[260]?.get (by decide +kernel)).range .text) := by decide +kernel
  refine reached_notes.maintained.1.rewired_setSourceInfo hix (fun s hs => ?_) fun s hs => ?_
  · rw [List.eq_of_mem_replicate hs]
    exact checkSource_eq_ok.2 (.inl ⟨.text, hkind⟩)
  · rw [List.eq_of_mem_replicate hs]
    decide

theorem reached_repetitive : Reached Maintaining repetitive := by
  refine .after _ reached_notes ⟨trivial, trivial, ?_⟩
  intro j jx k kx hjx hkx
  have hnotes : ∀ e ∈ notes.indexes.toList, e.1 = 260 ∧ e.2.lexicon = 256 := by decide +kernel
  have honly {i : Nat} {ix : Index} (hix : notes.indexes[i]? = some ix) :=
    hnotes (i, ix) (Std.ExtTreeMap.mem_toList_iff_getElem?_eq_some.2 hix)
  obtain ⟨jx', hjx', hlexicon, -⟩ := rewired_repetitive.same.index hjx
  obtain ⟨kx', hkx', -⟩ := rewired_repetitive.same.index hkx
  have hsources := rewired_repetitive.sources k
  rw [if_pos (honly hkx').1] at hsources
  obtain ⟨kx'', hkx'', hlist⟩ := Option.map_eq_some_iff.1 hsources
  obtain rfl := Option.some.inj (hkx''.symm.trans hkx)
  rw [hlist, ← hlexicon, (honly hjx').2]
  exact fun hmem => absurd (List.eq_of_mem_replicate hmem) (by decide)

theorem textsOf_repetitive : repetitive.textsOf 259 1 = ["to be"] := by
  have hnotes : notes.textsOf 259 1 = ["to be"] := by decide +kernel
  have hcolumn : (notes.columns[259]?).isSome := by decide +kernel
  obtain ⟨values, hvalues⟩ := Option.isSome_iff_exists.1 hcolumn
  exact (rewired_repetitive.textsOf_column hvalues 1).trans hnotes

/-- Where the body is listed for the last time, its first word stands behind the last word of the
numbers. The postings have nothing there. -/
theorem stored_ne_tokenized_repetitive : ∃ ix, Reached Maintaining repetitive ∧
    repetitive.indexes[260]? = some ix ∧ repetitive.stored ix "to" 1 1 0x100000000 = 0 ∧
      0 < (ix.tokenized repetitive.textsOf 1).count ("to", 1, 0x100000000) := by
  have hsources := rewired_repetitive.sources 260
  obtain ⟨ix, hix, hlist⟩ := Option.map_eq_some_iff.1 hsources
  refine ⟨ix, reached_repetitive, hix, ?_, ?_⟩
  · rw [(stored_eq_rebuilt reached_repetitive hix).1, Index.rebuilt_eq_tokenized,
      Index.count_saturate, if_neg (by decide), if_neg (by decide)]
  · have hlast : (259, 4097) ∈ ix.sources.zipIdx 1 := by
      rw [hlist]
      refine List.mem_iff_getElem?.2 ⟨4096, ?_⟩
      rw [List.getElem?_zipIdx, List.getElem?_replicate]
      rfl
    obtain ⟨jx, hjx, -, -, hflags, htokenizer⟩ := rewired_repetitive.same.index hix
    have hnotes : ∀ e ∈ notes.indexes.toList,
        e.2.flags.contains .withSection = false ∧ e.2.tokenizer = .delimit := by decide +kernel
    obtain ⟨hplain, hdelimit⟩ :=
      hnotes (260, jx) (Std.ExtTreeMap.mem_toList_iff_getElem?_eq_some.2 hjx)
    refine List.count_pos_iff.2 (List.mem_flatMap.2 ⟨_, hlast, ?_⟩)
    rw [textsOf_repetitive, Index.tokenizedSource, ← hflags, ← htokenizer, hplain, hdelimit]
    exact List.mem_map.2 ⟨("to", 0), by decide +kernel, rfl⟩

end Database
end Concordance
