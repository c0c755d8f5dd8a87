import Concordance.Proofs.HandUpdates
import Concordance.Proofs.Matching
import Concordance.Proofs.Reopening

/-! # Indexes that are fed and indexes that are updated by hand

An index without sources that is told by hand of every value that is stored, in each section in
which another index lists the column, stores the same by term key as that index, and finds the same
by texts. Deleting a record needs no word to either.
-/
namespace Concordance

/-- A call that stores a value of a record, or deletes a record. -/
inductive Edit where
  | store (column : ObjectId) (record : RecordId) (v : Json)
  | delete (record : RecordId)

/-- Carries out an edit of the range of a fed index. If a value has been stored, the index of the
handle is told of it and of the value before it, once for each place of the column in the fed
index. An error is one that the handle answers. -/
def Edit.run (fed : Index) (edit : Edit) :
    Session × IndexColumn → Except Error (Session × IndexColumn)
  | (s, c) =>
    match edit with
    | .store column record v =>
      match s.database.setValue column record v with
      | (.error _, db) => .ok ({ s with database := db }, c)
      | (.ok (), db) =>
        IndexColumn.updateAll record ((s.database.value? column record).getD .null) v
          (fed.placesOf column) ({ s with database := db }, c)
    | .delete record =>
      .ok ({ s with database := (s.database.deleteRecord fed.range record).2 }, c)

def Edit.runAll (fed : Index) (edits : List Edit) (state : Session × IndexColumn) :
    Except Error (Session × IndexColumn) :=
  edits.foldlM (fun state edit => edit.run fed state) state

/-- Two indexes of one range that tell texts in the same way, each with a lexicon of its own that is
not the range. The second has no sources. -/
structure Alike (fed kept : Index) : Prop where
  range : kept.range = fed.range
  flags : kept.flags = fed.flags
  tokenizer : kept.tokenizer = fed.tokenizer
  sources : kept.sources = []
  lexicon : kept.lexicon ≠ fed.lexicon
  fed_apart : fed.lexicon ≠ fed.range
  kept_apart : kept.lexicon ≠ fed.range

/-- A query by texts: a compiled one, or a buffer that does not hold a term of the lexicon. -/
def EngineQuery.ByTexts (lexicon : ObjectId) : EngineQuery → Prop
  | .buffer b => b.domain ≠ lexicon
  | .compiled _ => True

theorem Alike.of_frame {fed kept fed' kept' : Index} (h : Alike fed kept)
    (hfed : fed'.frame = fed.frame) (hkept : kept'.frame = kept.frame) : Alike fed' kept' := by
  obtain ⟨hlexicon, hrange, hflags, htokenizer, -⟩ := Index.frame_eq_iff.1 hfed
  obtain ⟨hlexicon', hrange', hflags', htokenizer', hsources'⟩ := Index.frame_eq_iff.1 hkept
  constructor
  · rw [hrange', hrange, h.range]
  · rw [hflags', hflags, h.flags]
  · rw [htokenizer', htokenizer, h.tokenizer]
  · rw [hsources', h.sources]
  · rw [hlexicon', hlexicon]
    exact h.lexicon
  · rw [hlexicon, hrange]
    exact h.fed_apart
  · rw [hlexicon', hrange]
    exact h.kept_apart

theorem Alike.effect {fed kept : Index} (h : Alike fed kept) (delta : Delta) :
    delta.effect kept = delta.effect fed := by
  have hplace : kept.place = fed.place := by
    funext sec
    rw [Index.place, Index.place, h.flags]
  have hoccurrences : kept.occurrences = fed.occurrences := by
    funext sec texts
    rw [Index.occurrences, Index.occurrences, h.tokenizer, hplace]
  have hshare : kept.share = fed.share := by
    funext sec texts t s q
    rw [Index.share, Index.share, hplace, hoccurrences]
  funext t r s q n
  simp only [Delta.effect, Delta.taken, Delta.given, hshare]

namespace Database
variable {db db' : Database} {a b : Nat} {fed : Index} {s : Session} {c : IndexColumn}

/-- The index `b` stores the same by term key as the index `a`, which is like `fed` but for its
postings. -/
def Mirrors (db : Database) (fed : Index) (a b : Nat) : Prop :=
  ∃ A B, db.indexes[a]? = some A ∧ db.indexes[b]? = some B ∧ A.frame = fed.frame ∧ Alike A B ∧
    ∀ t r s q, db.storedAt b t r s q = db.storedAt a t r s q

theorem stored_of_empty {ix : Index} (h : ix.postings = .empty) (t : String) (r s q : Nat) :
    db.stored ix t r s q = 0 := by
  simp only [stored, h]
  split
  · rfl
  · rfl

theorem Mirrors.goOn (h : db.Mirrors fed a b)
    (hframe : ∀ i : Nat, db'.indexes[i]?.map Index.frame = db.indexes[i]?.map Index.frame)
    (hstored : ∀ t r s q, db'.storedAt b t r s q = db'.storedAt a t r s q) :
    db'.Mirrors fed a b := by
  obtain ⟨A, B, hA, hB, hfed, halike, -⟩ := h
  obtain ⟨A', hA', hframeA⟩ := index_of_frames (fun i => (hframe i).symm) hA
  obtain ⟨B', hB', hframeB⟩ := index_of_frames (fun i => (hframe i).symm) hB
  exact ⟨A', B', hA', hB', hframeA.trans hfed, halike.of_frame hframeA hframeB, hstored⟩

/-! ## Storing -/

theorem WellFormed.indexTexts_value? (h : db.WellFormed) (record : Nat) {column table : Nat}
    {values : Column} {valueType : DataType} (hvalues : db.columns[column]? = some values)
    (hkind : db.kind? column = some (.column table valueType)) :
    ((db.value? column record).getD .null).indexTexts = .ok (db.textsOf column record) := by
  have hbefore : Database.textsBefore values[record]? = .ok (db.textsOf column record) :=
    h.textsBefore hvalues hkind
  have hget : db.value? column record = values[record]? := by simp [value?, hvalues]
  rw [hget]
  cases hv : values[record]? with
  | none =>
    rw [hv] at hbefore
    exact hbefore
  | some v =>
    rw [hv] at hbefore
    exact hbefore

theorem WellFormed.storedAt_changesIn (h : db.WellFormed) {i record : Nat} {ix : Index}
    (hix : db.indexes[i]? = some ix) (hlive : db.isLive ix.range record) (old new : List String)
    (secs : List Nat) :
    let db' := db.carry (IndexColumn.changesIn i record old new secs)
    db'.WellFormed ∧ db.Fed db' ∧ ∀ j t r s q, db'.storedAt j t r s q =
      if j = i then (secs.map fun sec => (⟨record, sec, old, new⟩ : Delta)).foldl
        (fun n delta => delta.effect ix t r s q n) (db.storedAt j t r s q)
      else db.storedAt j t r s q := by
  have hreceives : ∀ change ∈ IndexColumn.changesIn i record old new secs, db.Receives change := by
    intro change hc
    obtain ⟨sec, -, rfl⟩ := List.mem_map.1 hc
    exact .of_get hix hlive
  obtain ⟨hwf, hfed⟩ := h.carry hreceives
  refine ⟨hwf, hfed, fun j t r s q => ?_⟩
  rw [h.storedAt_carry hreceives, effectAt]
  by_cases hj : j = i
  · subst hj
    rw [if_pos rfl, hix, IndexColumn.changesIn, List.filter_eq_self.2, List.map_map]
    · rfl
    · intro change hc
      obtain ⟨sec, -, rfl⟩ := List.mem_map.1 hc
      exact decide_eq_true rfl
  · rw [if_neg hj, List.filter_eq_nil_iff.2]
    · cases hjx : db.indexes[j]? with
      | none => simp only [storedAt, hjx]
      | some jx => rfl
    · intro change hc
      obtain ⟨sec, -, rfl⟩ := List.mem_map.1 hc
      simpa using Ne.symm hj

/-- A value that has been stored is told to the fed index, and then by hand to the other. -/
theorem Mirrors.store (h : s.database.Mirrors fed a b) (hwf : s.database.WellFormed)
    (hc : c.Usable s b) {column record : Nat} {v : Json}
    (hcall : s.database.setValue column record v = (.ok (), db')) :
    ∃ s' c', IndexColumn.updateAll record ((s.database.value? column record).getD .null) v
        (fed.placesOf column) ({ s with database := db' }, c) = .ok (s', c') ∧
      s'.database.WellFormed ∧ c'.Usable s' b ∧ s'.database.Mirrors fed a b := by
  have hrevised := hwf.revised_setValue hcall
  have hwf' := (hwf.setValue hcall).1
  have husable := hc.withDatabase db'
  obtain ⟨A, B, hA, hB, hfed, halike, hstored⟩ := id h
  obtain ⟨B', hB', hframe⟩ := index_of_frames (fun i => (hrevised.frame i).symm) hB
  rcases hwf.setValue_cases hcall with ⟨e, he, -⟩ |
    ⟨-, table, valueType, values, texts, hkind, hlive, -, htexts, hvalues, -⟩
  · cases he
  have hbefore := hwf.indexTexts_value? record hvalues hkind
  have hstoredA := hwf.storedAt_setValue hcall htexts hA
  have hstoredB := hwf.storedAt_setValue hcall htexts hB
  revert hbefore hstoredA hstoredB
  generalize s.database.textsOf column record = old
  intro hbefore hstoredA hstoredB
  -- The engine feeds no index without sources.
  have hnone : B.placesOf column = [] := Index.placesOf_eq_nil.2 (by simp [halike.sources])
  simp only [hnone, List.map_nil, List.foldl_nil] at hstoredB
  rw [Index.placesOf_of_frame hfed] at hstoredA
  by_cases hsource : column ∈ A.sources
  · have hab : a ≠ b := by
      rintro rfl
      obtain rfl := Option.some.inj (hA.symm.trans hB)
      exact halike.lexicon rfl
    have hlive' : db'.isLive B'.range record := by
      rw [(Index.frame_eq_iff.1 hframe).2.1, halike.range]
      have hchecked := hwf.catalogued.source hA column hsource
      exact hrevised.isLive (isLive_of_checkSource hkind hlive hchecked)
    have hsecs : ∀ sec ∈ fed.placesOf column, 0 < sec := by
      exact fun sec hsec => (Index.mem_places (Index.mem_placesOf.1 hsec)).2.1
    obtain ⟨c', hrun, hc'⟩ := husable.updateAll hwf' hB' hlive' hbefore htexts hsecs
    obtain ⟨hwf'', hfed', hcarried⟩ :=
      hwf'.storedAt_changesIn hB' hlive' old texts (fed.placesOf column)
    refine ⟨_, c', hrun, hwf'', hc', h.goOn ?_ fun t r sec q => ?_⟩
    · exact fun i => (hfed'.frame i).trans (hrevised.frame i)
    · rw [hcarried, hcarried, if_pos rfl, if_neg hab, hstoredB, hstoredA, hstored]
      simp only [Delta.effect_eq_of_frame hframe, halike.effect]
  · have hnone : fed.placesOf column = [] := by
      rw [← Index.placesOf_of_frame hfed, Index.placesOf_eq_nil]
      exact hsource
    refine ⟨_, c, by rw [hnone]; rfl, hwf', husable, h.goOn hrevised.frame fun t r sec q => ?_⟩
    rw [hstoredB, hstoredA, hnone]
    exact hstored t r sec q

/-! ## Deleting -/

theorem WellFormed.storedAt_deleteRecord (h : db.WellFormed) {table record i : Nat} {ix : Index}
    (hcall : db.deleteRecord table record = (.ok (), db')) (hix : db.indexes[i]? = some ix)
    (hrange : ix.range = table) (hapart : ix.lexicon ≠ table) (t : String) (r s q : Nat) :
    db'.storedAt i t r s q = if r = record then 0 else db.storedAt i t r s q := by
  obtain ⟨db₁, u, hwf₁, hrevised, hu, -, rfl⟩ := h.deleteRecord_revised hcall
  obtain ⟨jx, hjx, hframe⟩ := index_of_frames (fun i => (hrevised.frame i).symm) hix
  obtain ⟨hlexicon, hrange', -⟩ := Index.frame_eq_iff.1 hframe
  have hforgotten : (db₁.forgetRecord table record).indexes[i]? =
      some (forgetIn table record jx) := by
    rw [indexes_forgetRecord, hjx, Option.map_some]
  have hkept : ¬ (jx.lexicon = table ∧ u.key? record = some t) := fun hc =>
    hapart (hlexicon ▸ hc.1)
  rw [storedAt_eq hforgotten, hwf₁.stored_forgetRecord hu record (hwf₁.posted.neat hjx),
    ← storedAt_eq hjx]
  by_cases hr : r = record
  · rw [if_pos (.inl ⟨hrange'.trans hrange, hr⟩), if_pos hr]
  · rw [if_neg fun hc => hc.elim (fun hc => hr hc.2) hkept, if_neg hr, hrevised.spared hr]

theorem Mirrors.delete (h : db.Mirrors fed a b) (hwf : db.WellFormed) (record : Nat) :
    (db.deleteRecord fed.range record).2.WellFormed ∧
      (db.deleteRecord fed.range record).2.Mirrors fed a b := by
  have hwf' : (db.after (.deleteRecord fed.range record)).WellFormed := hwf.after trivial
  rw [hwf.after_deleteRecord] at hwf'
  refine ⟨hwf', ?_⟩
  generalize hcall : db.deleteRecord fed.range record = result
  obtain ⟨outcome, db'⟩ := result
  rcases hwf.deleteRecord_cases hcall with ⟨-, -, rfl⟩ | ⟨rfl, -⟩
  · exact h
  · obtain ⟨db₁, u, -, hrevised, -, -, rfl⟩ := hwf.deleteRecord_revised hcall
    refine h.goOn ?_ fun t r s q => ?_
    · exact fun i => (frame_forgetRecord db₁ fed.range record i).trans (hrevised.frame i)
    · obtain ⟨A, B, hA, hB, hfed, halike, hstored⟩ := h
      obtain ⟨-, hrange, -⟩ := Index.frame_eq_iff.1 hfed
      rw [hwf.storedAt_deleteRecord hcall hA hrange (hrange ▸ halike.fed_apart),
        hwf.storedAt_deleteRecord hcall hB (halike.range.trans hrange) (hrange ▸ halike.kept_apart),
        hstored]

/-! ## Whole runs -/

theorem Mirrors.run (h : s.database.Mirrors fed a b) (hwf : s.database.WellFormed)
    (hc : c.Usable s b) (edit : Edit) :
    ∃ s' c', edit.run fed (s, c) = .ok (s', c') ∧ s'.database.WellFormed ∧ c'.Usable s' b ∧
      s'.database.Mirrors fed a b := by
  cases edit with
  | store column record v =>
    simp only [Edit.run]
    generalize hcall : s.database.setValue column record v = result
    obtain ⟨outcome, db'⟩ := result
    rcases hwf.setValue_cases hcall with ⟨e, rfl, rfl⟩ | ⟨rfl, -⟩
    · exact ⟨s, c, rfl, hwf, hc, h⟩
    · exact h.store hwf hc hcall
  | delete record =>
    obtain ⟨hwf', hmirrors⟩ := h.delete hwf record
    exact ⟨_, c, rfl, hwf', hc.withDatabase _, hmirrors⟩

theorem Mirrors.runAll (h : s.database.Mirrors fed a b) (hwf : s.database.WellFormed)
    (hc : c.Usable s b) (edits : List Edit) :
    ∃ s' c', Edit.runAll fed edits (s, c) = .ok (s', c') ∧
      s'.database.WellFormed ∧ c'.Usable s' b ∧ s'.database.Mirrors fed a b := by
  induction edits generalizing s c with
  | nil => exact ⟨s, c, rfl, hwf, hc, h⟩
  | cons edit rest ih =>
    obtain ⟨s₁, c₁, hrun, hwf₁, hc₁, h₁⟩ := h.run hwf hc edit
    obtain ⟨s', c', hrest, hdone⟩ := ih h₁ hwf₁ hc₁
    refine ⟨s', c', ?_, hdone⟩
    rw [Edit.runAll, List.foldlM_cons, hrun]
    exact hrest

/-! ## Searches -/

theorem search_congr {a b : Nat} {A B : Index} (hA : db.indexes[a]? = some A)
    (hB : db'.indexes[b]? = some B) (hrange : B.range = A.range)
    (hfound : ∀ text mode, db'.matchText B text mode = db.matchText A text mode)
    {query : EngineQuery} (hqueryA : query.ByTexts A.lexicon) (hqueryB : query.ByTexts B.lexicon)
    (result : ResultTable) (operator : SelectOperator) (mode : SearchMode) :
    db'.search b query result operator mode = db.search a query result operator mode := by
  have hmatches : db'.matchesOf B result.flags mode query =
      db.matchesOf A result.flags mode query := by
    cases query with
    | compiled q =>
      refine congrArg Except.ok (Std.ExtTreeMap.ext_getElem? fun record => ?_)
      exact getElem?_runClauses_congr (fun text mode => by rw [hfound]) result.flags q.clauses
    | buffer b =>
      have hneA : b.domain ≠ A.lexicon := hqueryA
      have hneB : b.domain ≠ B.lexicon := hqueryB
      simp only [matchesOf, matchBuffer, if_neg hneA, if_neg hneB, hfound]
  rw [search_of_get hA, search_of_get hB, hrange, hmatches]

theorem Mirrors.search_eq (h : db.Mirrors fed a b) (hwf : db.WellFormed) {query : EngineQuery}
    {A B : Index} (hA : db.indexes[a]? = some A) (hB : db.indexes[b]? = some B)
    (hqueryA : query.ByTexts A.lexicon) (hqueryB : query.ByTexts B.lexicon) (result : ResultTable)
    (operator : SelectOperator) (mode : SearchMode) :
    db.search b query result operator mode = db.search a query result operator mode := by
  obtain ⟨A', B', hA', hB', -, halike, hstored⟩ := h
  obtain rfl := Option.some.inj (hA.symm.trans hA')
  obtain rfl := Option.some.inj (hB.symm.trans hB')
  obtain ⟨lexicon, hlex, -⟩ := hwf.catalogued.lexicon_table hA
  obtain ⟨lexicon', hlex', -⟩ := hwf.catalogued.lexicon_table hB
  refine search_congr hA hB halike.range (fun text mode => ?_) hqueryA hqueryB result operator mode
  simp only [matchText, hlex, hlex']
  refine Std.ExtTreeMap.ext_getElem? fun record => ?_
  refine Index.getElem?_matchText_congr halike.tokenizer halike.flags (hwf.posted.neat hA)
    (hwf.posted.neat hB) (fun t s q => ?_) text mode
  rw [← stored_eq_tally B hlex', ← stored_eq_tally A hlex, ← storedAt_eq hA, ← storedAt_eq hB,
    hstored]

def KeepsToKeys (db : Database) (ix : Index) : Prop :=
  ∀ id record sec position, position ∈ ix.postings.positions id record sec →
    ∃ term, db.recordId? ix.lexicon term = some id

/-- Two alike indexes without postings, of which one is fed and the other is updated by hand. All
updates of a run succeed, and after each step of it, since it is a run up to there, the indexes
store the same by term key and every search by texts has the same outcome on both. -/
theorem search_eq_of_runAll (h : Reached OwnFiles s.database) {A B : Index}
    (hA : s.database.indexes[a]? = some A) (hB : s.database.indexes[b]? = some B)
    (halike : Alike A B) (hemptyA : A.postings = .empty) (hemptyB : B.postings = .empty)
    (hc : c.Usable s b) (edits : List Edit) :
    ∃ s' c' A' B', Edit.runAll A edits (s, c) = .ok (s', c') ∧
      s'.database.indexes[a]? = some A' ∧ s'.database.indexes[b]? = some B' ∧
      A'.frame = A.frame ∧ Alike A' B' ∧
      s'.database.KeepsToKeys A' ∧ s'.database.KeepsToKeys B' ∧
      (∀ term record sec position, s'.database.stored B' term record sec position =
        s'.database.stored A' term record sec position) ∧
      ∀ query, query.ByTexts A'.lexicon → query.ByTexts B'.lexicon → ∀ result operator mode,
        s'.database.search b query result operator mode =
          s'.database.search a query result operator mode := by
  have hstored : ∀ t r sec q, s.database.storedAt b t r sec q = s.database.storedAt a t r sec q := by
    intro t r sec q
    rw [storedAt_eq hA, storedAt_eq hB, stored_of_empty hemptyA, stored_of_empty hemptyB]
  obtain ⟨s', c', hrun, hwf, -, hmirrors⟩ :=
    Mirrors.runAll ⟨A, B, hA, hB, rfl, halike, hstored⟩ h.wellFormed_of_ownFiles hc edits
  obtain ⟨A', B', hA', hB', hframe, halike', hstored'⟩ := id hmirrors
  refine ⟨s', c', A', B', hrun, hA', hB', hframe, halike', ?_, ?_, ?_, ?_⟩
  · exact fun _ _ _ _ hq => hwf.term_of_posting hA' hq
  · exact fun _ _ _ _ hq => hwf.term_of_posting hB' hq
  · intro t r sec q
    rw [← storedAt_eq hA', ← storedAt_eq hB', hstored']
  · exact fun query hqueryA hqueryB => hmirrors.search_eq hwf hA' hB' hqueryA hqueryB

/-- Notes with two indexes, one of their titles and bodies and the other without sources. -/
def mirrored : Database :=
  (((((((((new.after (.createTable (some "Words") ⟨.hash, some .shortText, .delimit⟩)).after
    (.createTable (some "Terms") ⟨.trie, some .shortText, .delimit⟩)).after
    (.createTable (some "Notes") ⟨.array, none, .whole⟩)).after
    (.defineColumn 258 "title" .shortText)).after
    (.defineColumn 258 "body" .text)).after
    (.defineIndex 256 "fed" 258 ⟨.withPosition, ["Notes.title"]⟩)).after
    (.defineIndex 257 "kept" 258 ⟨.withPosition, []⟩)).after
    (.addRecord 258)).after
    (.setSourceInfo 261 ((Buffer.empty nilId false).setIds [259, 260]))).after
    (.setSourceInfo 261 ((Buffer.empty nilId false).setIds [259, 260, 259]))

/-- A note that gets a body, two titles, the second without a text, and another body. -/
def noteEdits : List Edit :=
  [.store 260 1 (.array [.text "not", .null, .text "to be"]), .store 259 1 (.text "being"),
    .store 259 1 (.text ""), .store 260 1 (.array [.text "to be", .integer 2])]

def keptIndex : IndexColumn :=
  ⟨0, 262, 257, 258, false, some ⟨.empty 258 false, .empty 258 false, .empty 257 false,
    .empty nilId true⟩⟩

theorem search_eq_of_runAll_mirrored : ∃ A B, mirrored.indexes[261]? = some A ∧
    mirrored.indexes[262]? = some B ∧ Alike A B ∧ keptIndex.Usable (.start mirrored) 262 ∧
      ∃ s' c', Edit.runAll A noteEdits (.start mirrored, keptIndex) = .ok (s', c') ∧
        s'.database.search 262 (.compiled ⟨[⟨.or, "to be", .exact⟩]⟩) (.empty 258 .all) .or
            .exact =
          s'.database.search 261 (.compiled ⟨[⟨.or, "to be", .exact⟩]⟩) (.empty 258 .all) .or
            .exact ∧
        (s'.database.search 261 (.compiled ⟨[⟨.or, "to be", .exact⟩]⟩) (.empty 258 .all) .or
          .exact).toOption.map ResultTable.keys = some [1] := by
  have hreached : Reached OwnFiles mirrored := by
    refine .after _ (.after _ (.after _ (.after _ (.after _ (.after _ (.after _ (.after _ (.after _
      (.after _ .new ?_) ?_) ?_) ?_) ?_) ?_) ?_) ?_) ?_) ?_
    all_goals exact trivial
  have hA : mirrored.indexes[261]? = some (mirrored.indexes[261]?.get (by decide +kernel)) :=
    (Option.some_get _).symm
  have hB : mirrored.indexes[262]? = some (mirrored.indexes[262]?.get (by decide +kernel)) :=
    (Option.some_get _).symm
  have halike : Alike (mirrored.indexes[261]?.get (by decide +kernel))
      (mirrored.indexes[262]?.get (by decide +kernel)) := by
    constructor <;> decide +kernel
  have hempty {ix : Index} (h : ix.postings.lists.isEmpty) : ix.postings = .empty :=
    congrArg Postings.mk (Std.ExtTreeMap.isEmpty_iff.1 h)
  have hbound : IndexColumn.bind (.start mirrored) 262 false = .ok keptIndex := by
    decide +kernel
  have husable := IndexColumn.usable_of_bind hbound rfl
  obtain ⟨s', c', A', B', hrun, -, -, -, -, -, -, -, hsearch⟩ :=
    search_eq_of_runAll (s := .start mirrored) hreached hA hB halike
      (hempty (by decide +kernel)) (hempty (by decide +kernel)) husable noteEdits
  have hequal := hsearch (.compiled ⟨[⟨.or, "to be", .exact⟩]⟩) trivial trivial
  refine ⟨_, _, hA, hB, halike, husable, s', c', hrun, hequal _ _ _, ?_⟩
  have hfound : (Edit.runAll (mirrored.indexes[261]?.get (by decide +kernel)) noteEdits
      (.start mirrored, keptIndex)).toOption.map (fun state =>
        (state.1.database.search 261 (.compiled ⟨[⟨.or, "to be", .exact⟩]⟩) (.empty 258 .all) .or
          .exact).toOption.map ResultTable.keys) = some (some [1]) := by
    decide +kernel
  rw [hrun] at hfound
  exact Option.some.inj hfound

end Database
end Concordance
