import Concordance.Database.Sources
import Concordance.Proofs.WellFormed

/-! # Feeding a well-formed database

A delta changes one lexicon and the postings of one index. Carrying any deltas keeps a database
well-formed as long as their records are live, and what the indexes then store is what the deltas
of each index make of what it stored before, one after another.
-/
namespace Concordance

/-- The index with its postings left out. -/
def Index.frame (ix : Index) : Index := { ix with postings := .empty }

theorem Index.frame_eq_iff {ix jx : Index} : ix.frame = jx.frame ↔
    ix.lexicon = jx.lexicon ∧ ix.range = jx.range ∧ ix.flags = jx.flags ∧
      ix.tokenizer = jx.tokenizer ∧ ix.sources = jx.sources := by
  simp [frame]

theorem Index.eq_of_frame {ix jx : Index} (hframe : jx.frame = ix.frame)
    (hpostings : jx.postings = ix.postings) : jx = ix := by
  obtain ⟨hlexicon, hrange, hflags, htokenizer, hsources⟩ := frame_eq_iff.1 hframe
  cases ix
  cases jx
  simp only [Index.mk.injEq]
  exact ⟨hlexicon, hrange, hflags, htokenizer, hsources, hpostings⟩

theorem Index.share_eq_of_frame {ix jx : Index} (h : ix.frame = jx.frame) :
    ix.share = jx.share := by
  have hframe : ∀ ix : Index, ix.frame.share = ix.share := fun _ => rfl
  rw [← hframe, h, hframe]

namespace Delta

/-- How often the old texts of a delta stand at a place. -/
def taken (delta : Delta) (ix : Index) (term : String) (record sec position : Nat) : Nat :=
  if record = delta.record then ix.share delta.sec delta.old term sec position else 0

/-- How often the new texts of a delta stand at a place. -/
def given (delta : Delta) (ix : Index) (term : String) (record sec position : Nat) : Nat :=
  if record = delta.record then ix.share delta.sec delta.new term sec position else 0

/-- What a delta makes of the count of one place. -/
def effect (delta : Delta) (ix : Index) (term : String) (record sec position n : Nat) : Nat :=
  n - delta.taken ix term record sec position + delta.given ix term record sec position

theorem effect_eq_of_frame {ix jx : Index} (h : ix.frame = jx.frame) (delta : Delta) :
    delta.effect ix = delta.effect jx := by
  funext t r s q n
  simp only [effect, taken, given, Index.share_eq_of_frame h]

end Delta

namespace Database
variable {db db' : Database}

/-- How often a position is stored for a term of an index, given by its text. -/
def stored (db : Database) (ix : Index) (term : String) (record sec position : Nat) : Nat :=
  match db.recordId? ix.lexicon term with
  | some id => (ix.postings.positions id record sec).count position
  | none => 0

theorem stored_eq_tally (ix : Index) {lexicon : Table}
    (h : db.tables[ix.lexicon]? = some lexicon) (term : String) (record sec position : Nat) :
    db.stored ix term record sec position = tally lexicon ix.postings term record sec position := by
  simp only [stored, recordId?, h, tally]
  rfl

theorem isLive_of_table {table record : Nat} {t : Table} (h : db.tables[table]? = some t) :
    db.isLive table record = t.isLive record := by
  simp [isLive, h]

/-! ## What feeding leaves alone -/

/-- Lexicons have grown and postings have changed, and nothing else. -/
structure Fed (db db' : Database) : Prop where
  objects : db'.objects = db.objects
  columns : db'.columns = db.columns
  names : db'.names = db.names
  nextId : db'.nextId = db.nextId
  table : ∀ {id : Nat} {t}, db.tables[id]? = some t → ∃ u, db'.tables[id]? = some u ∧ t.Grows u
  noTable : ∀ {id : Nat}, db.tables[id]? = none → db'.tables[id]? = none
  other : ∀ {id : Nat}, (∀ {i : Nat} {ix}, db.indexes[i]? = some ix → ix.lexicon ≠ id) →
    db'.tables[id]? = db.tables[id]?
  frame : ∀ i : Nat, db'.indexes[i]?.map Index.frame = db.indexes[i]?.map Index.frame

theorem Fed.refl (db : Database) : db.Fed db :=
  ⟨rfl, rfl, rfl, rfl, fun h => ⟨_, h, .refl _⟩, id, fun _ => rfl, fun _ => rfl⟩

theorem Fed.index (h : db.Fed db') {i : Nat} {ix : Index} (hix : db'.indexes[i]? = some ix) :
    ∃ jx, db.indexes[i]? = some jx ∧ jx.frame = ix.frame := by
  have hmap := h.frame i
  rw [hix, Option.map_some, eq_comm, Option.map_eq_some_iff] at hmap
  exact hmap

theorem Fed.index' (h : db.Fed db') {i : Nat} {ix : Index} (hix : db.indexes[i]? = some ix) :
    ∃ jx, db'.indexes[i]? = some jx ∧ jx.frame = ix.frame := by
  have hmap := h.frame i
  rw [hix, Option.map_some, Option.map_eq_some_iff] at hmap
  exact hmap

theorem Fed.noIndex_iff (h : db.Fed db') {i : Nat} :
    db'.indexes[i]? = none ↔ db.indexes[i]? = none := by
  have hmap := h.frame i
  constructor
  · intro hix
    rwa [hix, Option.map_none, eq_comm, Option.map_eq_none_iff] at hmap
  · intro hix
    rwa [hix, Option.map_none, Option.map_eq_none_iff] at hmap

theorem Fed.noIndex (h : db.Fed db') {i : Nat} (hix : db.indexes[i]? = none) :
    db'.indexes[i]? = none := h.noIndex_iff.2 hix

theorem Fed.noTable_iff (h : db.Fed db') {id : Nat} :
    db'.tables[id]? = none ↔ db.tables[id]? = none := by
  refine ⟨fun hnone => ?_, h.noTable⟩
  cases ht : db.tables[id]? with
  | none => rfl
  | some t =>
    obtain ⟨u, hu, -⟩ := h.table ht
    cases hnone.symm.trans hu

theorem Fed.trans {db'' : Database} (h : db.Fed db') (h' : db'.Fed db'') : db.Fed db'' where
  objects := h'.objects.trans h.objects
  columns := h'.columns.trans h.columns
  names := h'.names.trans h.names
  nextId := h'.nextId.trans h.nextId
  table ht := by
    obtain ⟨u, hu, hg⟩ := h.table ht
    obtain ⟨v, hv, hg'⟩ := h'.table hu
    exact ⟨v, hv, hg.trans hg'⟩
  noTable ht := h'.noTable (h.noTable ht)
  other hid := by
    refine (h'.other fun {i ix} hix => ?_).trans (h.other hid)
    obtain ⟨jx, hjx, hframe⟩ := h.index hix
    exact (Index.frame_eq_iff.1 hframe).1 ▸ hid hjx
  frame i := (h'.frame i).trans (h.frame i)

theorem Fed.same (h : db.Fed db') : db.SameCatalog db' where
  objects := h.objects
  names := h.names
  nextId := h.nextId
  tables id := by
    cases ht : db.tables[id]? with
    | none => rw [h.noTable ht]
    | some t =>
      obtain ⟨u, hu, hg⟩ := h.table ht
      simp [hu, hg.kind]
  columns id := by rw [h.columns]
  indexes i := by
    have hheader : Index.header ∘ Index.frame = Index.header := rfl
    have hmap := congrArg (Option.map Index.header) (h.frame i)
    rwa [Option.map_map, Option.map_map, hheader] at hmap

theorem Fed.isLive (h : db.Fed db') {table record : Nat} (hr : db.isLive table record) :
    db'.isLive table record := by
  cases ht : db.tables[table]? with
  | none => simp [Database.isLive, ht] at hr
  | some t =>
    obtain ⟨u, hu, hg⟩ := h.table ht
    rw [isLive_of_table ht] at hr
    rw [isLive_of_table hu]
    exact hg.live hr

theorem Fed.catalogued (hf : db.Fed db') (h : db.Catalogued) : db'.Catalogued := by
  refine h.of_same hf.same fun hix s hs => ?_
  obtain ⟨jx, hjx, hframe⟩ := hf.index hix
  obtain ⟨-, hrange, -, -, hsources⟩ := Index.frame_eq_iff.1 hframe
  exact hrange ▸ h.source hjx s (hsources ▸ hs)

/-! ## One delta -/

theorem applyDelta_of_get {i : Nat} {ix : Index} {lexicon : Table}
    (hix : db.indexes[i]? = some ix) (hlex : db.tables[ix.lexicon]? = some lexicon)
    (delta : Delta) :
    db.applyDelta i delta =
      { db with
        tables := db.tables.insert ix.lexicon (ix.change lexicon delta).1
        indexes := db.indexes.insert i { ix with postings := (ix.change lexicon delta).2 } } := by
  simp [applyDelta, hix, hlex]

theorem applyDelta_of_none {i : Nat} (hix : db.indexes[i]? = none) (delta : Delta) :
    db.applyDelta i delta = db := by
  simp [applyDelta, hix]

theorem applyDelta_of_noLexicon {i : Nat} {ix : Index} (hix : db.indexes[i]? = some ix)
    (hlex : db.tables[ix.lexicon]? = none) (delta : Delta) : db.applyDelta i delta = db := by
  simp [applyDelta, hix, hlex]

/-- A delta of no index does nothing; that of an index changes its lexicon and its postings. -/
theorem WellFormed.applyDelta_cases (h : db.WellFormed) (i : Nat) (delta : Delta) :
    (db.indexes[i]? = none ∧ db.applyDelta i delta = db) ∨
      ∃ ix lexicon, db.indexes[i]? = some ix ∧ db.tables[ix.lexicon]? = some lexicon ∧
        Matched lexicon ix.postings ∧ ix.postings.Neat ∧
        db.applyDelta i delta =
          { db with
            tables := db.tables.insert ix.lexicon (ix.change lexicon delta).1
            indexes := db.indexes.insert i
              { ix with postings := (ix.change lexicon delta).2 } } := by
  cases hix : db.indexes[i]? with
  | none => exact .inl ⟨rfl, applyDelta_of_none hix delta⟩
  | some ix =>
    obtain ⟨lexicon, hlex, -⟩ := h.catalogued.lexicon_table hix
    exact .inr ⟨ix, lexicon, rfl, hlex, h.posted.matched hix hlex,
      h.posted.neat hix, applyDelta_of_get hix hlex delta⟩

theorem WellFormed.fed_applyDelta (h : db.WellFormed) (i : Nat) (delta : Delta) :
    db.Fed (db.applyDelta i delta) := by
  rcases h.applyDelta_cases i delta with ⟨-, heq⟩ | ⟨ix, lexicon, hix, hlex, hm, hn, heq⟩
  · rw [heq]
    exact .refl db
  · rw [heq]
    refine ⟨rfl, rfl, rfl, rfl, ?_, ?_, ?_, ?_⟩
    · intro id t ht
      by_cases hid : id = ix.lexicon
      · subst hid
        cases hlex.symm.trans ht
        exact ⟨_, by simp, Index.grows_change hm hn delta⟩
      · exact ⟨t, by simpa [hid] using ht, .refl t⟩
    · intro id ht
      by_cases hid : id = ix.lexicon
      · subst hid
        rw [hlex] at ht
        cases ht
      · simpa [hid] using ht
    · intro id hid
      simp [Ne.symm (hid hix)]
    · intro j
      by_cases hj : j = i
      · subst hj
        simp [hix, Index.frame]
      · simp [hj]

theorem WellFormed.filled_applyDelta (h : db.WellFormed) (i : Nat) (delta : Delta) :
    (db.applyDelta i delta).Filled where
  sound {id t} ht := by
    rcases h.applyDelta_cases i delta with ⟨-, heq⟩ | ⟨ix, lexicon, hix, hlex, hm, hn, heq⟩
    · rw [heq] at ht
      exact h.filled.sound ht
    · rw [heq, FiniteMap.getElem?_insert] at ht
      split at ht
      · cases ht
        exact (Index.matched_change hm hn delta).sound
      · exact h.filled.sound ht
  value {column record v} hv := by
    have hfed := h.fed_applyDelta i delta
    rw [value?, hfed.columns] at hv
    obtain ⟨table, valueType, hkind, hr, hv⟩ := h.filled.value hv
    exact ⟨table, valueType, by rwa [hfed.same.kind?], hfed.isLive hr, hv⟩

theorem WellFormed.posted_applyDelta (h : db.WellFormed) {i : Nat} {delta : Delta}
    (hlive : ∀ ix, db.indexes[i]? = some ix → db.isLive ix.range delta.record) :
    (db.applyDelta i delta).Posted := by
  have hfed := h.fed_applyDelta i delta
  rcases h.applyDelta_cases i delta with ⟨-, heq⟩ | ⟨ix, lexicon, hix, hlex, hm, hn, heq⟩
  · rw [heq]
    exact h.posted
  · have hindex : ∀ {j : Nat} {jx : Index}, (db.applyDelta i delta).indexes[j]? = some jx →
        (j = i ∧ jx = { ix with postings := (ix.change lexicon delta).2 }) ∨
          db.indexes[j]? = some jx := by
      intro j jx hjx
      rw [heq, FiniteMap.getElem?_insert] at hjx
      split at hjx
      · exact .inl ⟨‹_›, (Option.some.inj hjx).symm⟩
      · exact .inr hjx
    have hchange := Index.matched_change hm hn delta
    refine ⟨?_, ?_, ?_⟩
    · intro j jx hjx
      rcases hindex hjx with ⟨-, rfl⟩ | hjx
      · exact Index.neat_change hn lexicon delta
      · exact h.posted.neat hjx
    · intro j jx t hjx ht
      rw [heq, FiniteMap.getElem?_insert] at ht
      rcases hindex hjx with ⟨-, rfl⟩ | hjx
      · rw [if_pos rfl] at ht
        cases ht
        exact hchange
      · split at ht
        · -- another index of the same lexicon, which has only grown
          rename_i hid
          cases ht
          have hmatched := h.posted.matched hjx (hid ▸ hlex)
          exact hmatched.grows (Index.grows_change hm hn delta) hchange.sound
        · exact h.posted.matched hjx ht
    · intro j jx hjx term r s q hq
      rcases hindex hjx with ⟨rfl, rfl⟩ | hjx
      · rcases Index.mem_of_mem_change hn hq with hq | ⟨rfl, hle⟩
        · exact ⟨hfed.isLive (h.posted.live hix hq).1, (h.posted.live hix hq).2⟩
        · exact ⟨hfed.isLive (hlive ix hix), hle⟩
      · exact ⟨hfed.isLive (h.posted.live hjx hq).1, (h.posted.live hjx hq).2⟩

theorem WellFormed.applyDelta (h : db.WellFormed) {i : Nat} {delta : Delta}
    (hlive : ∀ ix, db.indexes[i]? = some ix → db.isLive ix.range delta.record) :
    (db.applyDelta i delta).WellFormed := by
  have hfed := h.fed_applyDelta i delta
  exact ⟨hfed.catalogued h.catalogued, h.filled_applyDelta i delta, h.posted_applyDelta hlive,
    h.named.of_same hfed.same⟩

/-- Only the index of a delta stores anything else afterwards. -/
theorem WellFormed.stored_applyDelta (h : db.WellFormed) {i j : Nat} {delta : Delta}
    {jx jx' : Index} (hjx : db.indexes[j]? = some jx)
    (hjx' : (db.applyDelta i delta).indexes[j]? = some jx') (t : String) (r s q : Nat) :
    (db.applyDelta i delta).stored jx' t r s q =
      if j = i then delta.effect jx t r s q (db.stored jx t r s q) else db.stored jx t r s q := by
  rcases h.applyDelta_cases i delta with ⟨hnone, heq⟩ | ⟨ix, lexicon, hix, hlex, hm, hn, heq⟩
  · have hj : j ≠ i := by
      rintro rfl
      rw [hnone] at hjx
      cases hjx
    rw [heq] at hjx' ⊢
    cases hjx.symm.trans hjx'
    rw [if_neg hj]
  · have hchange := Index.matched_change hm hn delta
    by_cases hj : j = i
    · subst hj
      obtain rfl := Option.some.inj (hix.symm.trans hjx)
      rw [heq, FiniteMap.getElem?_insert, if_pos rfl] at hjx'
      cases hjx'
      have hlex' : (db.applyDelta j delta).tables[ix.lexicon]? =
          some (ix.change lexicon delta).1 := by
        simp [heq]
      rw [if_pos rfl, stored_eq_tally ix hlex,
        stored_eq_tally { ix with postings := (ix.change lexicon delta).2 } hlex',
        Index.tally_change hm hn]
      rfl
    · rw [heq, FiniteMap.getElem?_insert, if_neg hj] at hjx'
      cases hjx.symm.trans hjx'
      rw [if_neg hj]
      by_cases hid : jx.lexicon = ix.lexicon
      · -- the lexicon is shared, and the keys that it had keep their ids
        have hlex' : (db.applyDelta i delta).tables[jx.lexicon]? =
            some (ix.change lexicon delta).1 := by
          simp [heq, hid]
        have hm' := h.posted.matched hjx (hid ▸ hlex)
        rw [stored_eq_tally jx hlex', stored_eq_tally jx (hid ▸ hlex),
          hm'.tally_grows (Index.grows_change hm hn delta) hchange.sound]
      · have htable : (db.applyDelta i delta).tables[jx.lexicon]? = db.tables[jx.lexicon]? := by
          simp [heq, hid]
        simp only [stored, recordId?, htable]

/-! ## Many deltas -/

/-- Carries deltas into indexes, in this order. -/
def carry (db : Database) (changes : List (ObjectId × Delta)) : Database :=
  changes.foldl (fun db change => db.applyDelta change.1 change.2) db

theorem feed_eq_carry (db : Database) (fed : List (ObjectId × Nat)) (record : Nat)
    (old new : List String) :
    db.feed fed record old new =
      db.carry (fed.map fun place => (place.1, ⟨record, place.2, old, new⟩)) := by
  simp only [feed, carry, List.foldl_map]

theorem applyDeltas_eq_carry (db : Database) (i : Nat) (deltas : List Delta) :
    db.applyDeltas i deltas = db.carry (deltas.map (i, ·)) := by
  simp only [applyDeltas, carry, List.foldl_map]

/-- The record of a delta is live in the range of its index. -/
def Receives (db : Database) (change : ObjectId × Delta) : Prop :=
  ∀ ix, db.indexes[change.1]? = some ix → db.isLive ix.range change.2.record

theorem Receives.of_get {change : ObjectId × Delta} {ix : Index}
    (hix : db.indexes[change.1]? = some ix) (hlive : db.isLive ix.range change.2.record) :
    db.Receives change := by
  intro jx hjx
  obtain rfl := Option.some.inj (hix.symm.trans hjx)
  exact hlive

theorem Receives.fed {change : ObjectId × Delta} (h : db.Receives change) (hf : db.Fed db') :
    db'.Receives change := by
  intro ix hix
  obtain ⟨jx, hjx, hframe⟩ := hf.index hix
  exact (Index.frame_eq_iff.1 hframe).2.1 ▸ hf.isLive (h jx hjx)

theorem WellFormed.carry (h : db.WellFormed) {changes : List (ObjectId × Delta)}
    (hr : ∀ change ∈ changes, db.Receives change) :
    (db.carry changes).WellFormed ∧ db.Fed (db.carry changes) := by
  induction changes generalizing db with
  | nil => exact ⟨h, .refl db⟩
  | cons change rest ih =>
    have hfed := h.fed_applyDelta change.1 change.2
    have hstep := h.applyDelta (hr change (List.mem_cons_self ..))
    obtain ⟨hwf, hfed'⟩ := ih hstep fun c hc => (hr c (List.mem_cons_of_mem _ hc)).fed hfed
    exact ⟨hwf, hfed.trans hfed'⟩

/-- What an index stores after deltas is what its own deltas make of it, one after another. -/
theorem WellFormed.stored_carry (h : db.WellFormed) {changes : List (ObjectId × Delta)}
    (hr : ∀ change ∈ changes, db.Receives change) {j : Nat} {jx jx' : Index}
    (hjx : db.indexes[j]? = some jx) (hjx' : (db.carry changes).indexes[j]? = some jx')
    (t : String) (r s q : Nat) :
    (db.carry changes).stored jx' t r s q =
      ((changes.filter (·.1 = j)).map (·.2)).foldl
        (fun n delta => delta.effect jx t r s q n) (db.stored jx t r s q) := by
  induction changes generalizing db jx with
  | nil =>
    cases hjx.symm.trans hjx'
    rfl
  | cons change rest ih =>
    have hfed := h.fed_applyDelta change.1 change.2
    have hstep := h.applyDelta (hr change (List.mem_cons_self ..))
    obtain ⟨kx, hkx, hframe⟩ := hfed.index' hjx
    have hrest := ih hstep (fun c hc => (hr c (List.mem_cons_of_mem _ hc)).fed hfed) hkx hjx'
    have heffect : ∀ delta : Delta, delta.effect kx = delta.effect jx :=
      Delta.effect_eq_of_frame hframe
    rw [Database.carry, List.foldl_cons]
    rw [Database.carry] at hrest
    rw [hrest, h.stored_applyDelta hjx hkx]
    simp only [heffect]
    by_cases hj : j = change.1
    · simp [hj]
    · rw [if_neg hj, List.filter_cons_of_neg (by simpa using Ne.symm hj)]

end Database
end Concordance
