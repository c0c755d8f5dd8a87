import Concordance.Proofs.FeedOrder
import Concordance.Proofs.RemovalOrder

/-! # Calls in any order

Nothing fixes the order in which a call visits the indexes of a database or the records of a source,
and nothing that a search by texts finds depends on it: after most calls not even the database does,
and after the others only the ids of new terms do. One call is an exception. When an object goes,
an index can bring back terms that its lexicon had lost, and an index that has this lexicon for a
source indexes them as keys if its turn comes later, but not if it came before.
-/
namespace Concordance
open Database

deriving instance DecidableEq for Delta

namespace HashOrder
variable {db : Database}

/-- A value, a key or a deletion leads to the same database in whatever order the indexes are fed.
A new list of sources and a new index lead, in whatever order the records and the indexes are
enumerated, to databases that differ at most in ids that the call gave to new terms, and searches by
texts cannot tell them apart. So does the removal of an object, unless it makes an index bring new
terms to a lexicon that another index which loses a source has for a source. -/
theorem calls_agree (hreached : Reached OwnFiles db) (e e' : HashOrder) :
    (∀ column record v, e.setValue db column record v = e'.setValue db column record v) ∧
      (∀ table key, e.addRecordWithKey db table key = e'.addRecordWithKey db table key) ∧
      (∀ table record, e.deleteRecord db table record = e'.deleteRecord db table record) ∧
      (∀ lexicon name range config, db.Agree (e.defineIndex db lexicon name range config)
        (e'.defineIndex db lexicon name range config)) ∧
      (∀ index sources,
        db.Agree (e.setSourceInfo db index sources) (e'.setSourceInfo db index sources)) ∧
      ∀ id, (∀ gone, db.doomed id = .ok gone → db.Quiet gone (db.bereft gone)) →
        db.Agree (e.removeObject db id) (e'.removeObject db id) := by
  have h := hreached.wellFormed_of_ownFiles
  refine ⟨fun column record v => ?_, fun table key => ?_, fun table record => ?_,
    e.defineIndex_agree e' h, e.setSourceInfo_agree e' h, e.removeObject_agree e' h⟩
  · rw [e.setValue_eq h, e'.setValue_eq h]
  · rw [e.addRecordWithKey_eq h, e'.addRecordWithKey_eq h]
  · rw [e.deleteRecord_eq h, e'.deleteRecord_eq h]

def descending : HashOrder where
  indexes m := m.toList.reverse
  values column := column.toList.reverse
  keys t := t.keyed.reverse
  indexes_perm _ := List.reverse_perm _
  values_perm _ := List.reverse_perm _
  keys_perm _ := List.reverse_perm _

/-- Two indexes lose the title of the notes, and neither has a lexicon for a source. -/
theorem calls_agree_titles : ∃ titles, titles = notes.after
      (.defineIndex 256 "titles" 257 ⟨.none, ["Notes.title"]⟩) ∧
    titles.doomed 258 = .ok [258] ∧ titles.bereft [258] = [260, 261] ∧
      titles.Agree (ascending.removeObject titles 258) (descending.removeObject titles 258) := by
  let titles := notes.after (.defineIndex 256 "titles" 257 ⟨.none, ["Notes.title"]⟩)
  have hreached : Reached OwnFiles titles := .after _ reached_ownFiles_notes trivial
  have hdoomed : titles.doomed 258 = .ok [258] := by decide +kernel
  have hbereft : titles.bereft [258] = [260, 261] := by decide +kernel
  have hapart : ∀ i ∈ titles.bereft [258], ∀ j ∈ titles.bereft [258],
      (titles.indexes[i]?.all fun ix => titles.indexes[j]?.all fun jx =>
        !jx.sources.contains ix.lexicon) = true := by
    decide +kernel
  refine ⟨titles, rfl, hdoomed, hbereft, (calls_agree hreached ascending descending).2.2.2.2.2 258
    fun gone hgone i hi j hj _ ix jx hix hjx hsource => ?_⟩
  obtain rfl := Except.ok.inj (hdoomed.symm.trans hgone)
  have hnot := hapart i hi j hj
  rw [hix, hjx] at hnot
  exact absurd hsource (by simpa using hnot)

/-! ## The exception -/

/-- Words with a head and a body, an index of both and one of heads and keys. A word has the body
"pear", which its lexicon has lost since. -/
def mislaid : Database :=
  (((((((((new.after (.createTable (some "Words") ⟨.hash, some .shortText, .delimit⟩)).after
    (.defineColumn 256 "head" .text)).after
    (.defineColumn 256 "body" .text)).after
    (.defineIndex 256 "texts" 256 ⟨.none, ["Words.head"]⟩)).after
    (.setSourceInfo 259 ((Buffer.empty nilId false).setIds [257, 258]))).after
    (.defineIndex 256 "keys" 256 ⟨.none, ["Words.head"]⟩)).after
    (.setSourceInfo 260 ((Buffer.empty nilId false).setIds [257, 256]))).after
    (.addRecordWithKey 256 "note")).after
    (.setValue 258 1 (.text "pear"))).after
    (.deleteRecord 256 2)

theorem reached_mislaid : Reached OwnFiles mislaid := by
  refine .after _ (.after _ (.after _ (.after _ (.after _ (.after _ (.after _ (.after _ (.after _
    (.after _ .new ?_) ?_) ?_) ?_) ?_) ?_) ?_) ?_) ?_) ?_
  all_goals exact trivial

theorem detach_of_deltas (e : HashOrder) {i range : Nat} {gone before kept rest : List ObjectId}
    {deltas : List Delta}
    (hix : db.indexes[i]?.map (fun ix => (ix.range, ix.sources)) = some (range, before))
    (hkept : before.filter (!gone.contains ·) = kept)
    (hcheck : kept.forM (db.checkSource range) = .ok ())
    (hdeltas : e.sourceDeltas db before kept = .ok deltas) :
    e.detach db gone (i :: rest) =
      e.detach ((db.applyDeltas i deltas).setSourceList i kept) gone rest := by
  obtain ⟨ix, hget, hix⟩ := Option.map_eq_some_iff.1 hix
  cases hix
  have hinstall : e.installSources db i kept =
      .ok ((db.applyDeltas i deltas).setSourceList i kept) :=
    bind_eq_ok.2 ⟨ix, index_eq_ok.2 hget, bind_eq_ok.2 ⟨(), hcheck,
      bind_eq_ok.2 ⟨deltas, hdeltas, rfl⟩⟩⟩
  simp only [detach, hget, Option.map_some, Option.getD_some, hkept, hinstall]

theorem placesLost_mislaid : placesLost [257, 258] [258] = [(257, 1), (258, 2)] ∧
    placesLost [258] [257, 258] = [(258, 1)] ∧ placesLost [257, 256] [256] = [(256, 2), (257, 1)] ∧
      placesLost [256] [257, 256] = [(256, 1)] := by
  refine ⟨?_, ?_, ?_, ?_⟩ <;>
    simp [placesLost, List.mergeSort, placeLe, List.zipIdx, List.MergeSort.Internal.splitInTwo]

def bodyUp : List Delta := [⟨1, 2, ["pear"], []⟩, ⟨1, 1, [], ["pear"]⟩]

def pears (db : Database) : Option (List RecordId) :=
  (db.search 260 (.compiled ⟨[⟨.or, "pear", .exact⟩]⟩) (.empty 256 .all) .or
    .exact).toOption.map ResultTable.keys

/-- In ascending order the word is back when the keys of its table move up. -/
theorem pears_ascending : pears (ascending.removeObject mislaid 257).2 = some [3] := by
  obtain ⟨hlost, hgained, hlost', hgained'⟩ := placesLost_mislaid
  have hdoomed : ascending.doomed mislaid 257 = .ok [257] := by decide +kernel
  have hbereft : ascending.bereft mislaid [257] = [259, 260] := by decide +kernel
  have htexts : ascending.sourceDeltas mislaid [257, 258] [258] = .ok bodyUp := by
    simp only [sourceDeltas, hlost, hgained]
    decide +kernel
  let fed := (mislaid.applyDeltas 259 bodyUp).setSourceList 259 [258]
  let keysUp : List Delta :=
    [⟨1, 2, ["note"], []⟩, ⟨3, 2, ["pear"], []⟩, ⟨1, 1, [], ["note"]⟩, ⟨3, 1, [], ["pear"]⟩]
  have hkeys : ascending.sourceDeltas fed [257, 256] [256] = .ok keysUp := by
    simp only [sourceDeltas, hlost', hgained']
    decide +kernel
  have hmislaid : mislaid.indexes[259]?.map (fun ix => (ix.range, ix.sources)) =
      some (256, [257, 258]) := by decide +kernel
  have hfed : fed.indexes[260]?.map (fun ix => (ix.range, ix.sources)) =
      some (256, [257, 256]) := by decide +kernel
  have hkept : [257, 258].filter (!List.contains [257] ·) = [258] := rfl
  have hkept' : [257, 256].filter (!List.contains [257] ·) = [256] := rfl
  have hdetach : ascending.detach mislaid [257] [259, 260] =
      (.ok (), (fed.applyDeltas 260 keysUp).setSourceList 260 [256]) := by
    rw [ascending.detach_of_deltas hmislaid hkept (by decide +kernel) htexts,
      ascending.detach_of_deltas hfed hkept' (by decide +kernel) hkeys, detach]
  simp only [removeObject, hdoomed, hbereft, hdetach]
  decide +kernel

/-- In descending order the keys move up before the word is back. -/
theorem pears_descending : pears (descending.removeObject mislaid 257).2 = some [] := by
  obtain ⟨hlost, hgained, hlost', hgained'⟩ := placesLost_mislaid
  have hdoomed : descending.doomed mislaid 257 = .ok [257] := by decide +kernel
  have hbereft : descending.bereft mislaid [257] = [260, 259] := by decide +kernel
  let keysUp : List Delta := [⟨1, 2, ["note"], []⟩, ⟨1, 1, [], ["note"]⟩]
  have hkeys : descending.sourceDeltas mislaid [257, 256] [256] = .ok keysUp := by
    simp only [sourceDeltas, hlost', hgained']
    decide +kernel
  let fed := (mislaid.applyDeltas 260 keysUp).setSourceList 260 [256]
  have htexts : descending.sourceDeltas fed [257, 258] [258] = .ok bodyUp := by
    simp only [sourceDeltas, hlost, hgained]
    decide +kernel
  have hmislaid : mislaid.indexes[260]?.map (fun ix => (ix.range, ix.sources)) =
      some (256, [257, 256]) := by decide +kernel
  have hfed : fed.indexes[259]?.map (fun ix => (ix.range, ix.sources)) =
      some (256, [257, 258]) := by decide +kernel
  have hkept : [257, 258].filter (!List.contains [257] ·) = [258] := rfl
  have hkept' : [257, 256].filter (!List.contains [257] ·) = [256] := rfl
  have hdetach : descending.detach mislaid [257] [260, 259] =
      (.ok (), (fed.applyDeltas 259 bodyUp).setSourceList 259 [258]) := by
    rw [descending.detach_of_deltas hmislaid hkept' (by decide +kernel) hkeys,
      descending.detach_of_deltas hfed hkept (by decide +kernel) htexts, detach]
  simp only [removeObject, hdoomed, hbereft, hdetach]
  decide +kernel

theorem removeObject_disagree : Reached OwnFiles mislaid ∧
    ¬ mislaid.Agree (ascending.removeObject mislaid 257) (descending.removeObject mislaid 257) := by
  refine ⟨reached_mislaid, fun hagree => ?_⟩
  have hsearch := hagree.search 260 (.compiled ⟨[⟨.or, "pear", .exact⟩]⟩) (fun _ _ => trivial)
    (.empty 256 .all) .or .exact
  have hpears : pears (descending.removeObject mislaid 257).2 =
      pears (ascending.removeObject mislaid 257).2 :=
    congrArg (fun found => found.toOption.map ResultTable.keys) hsearch
  rw [pears_ascending, pears_descending] at hpears
  cases hpears

end HashOrder
end Concordance
