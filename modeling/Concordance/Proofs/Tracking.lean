import Concordance.Proofs.Installing

/-! # Counts that follow the texts

A step of the database moves each stored count by some monotone function. It tracks the texts if
that function takes what they yielded before to what they yield afterwards, or to less. Feeding the
change of one text tracks it exactly, and so does installing sources, but for an index with a
lexicon among its sources and a record whose key the feeding itself adds to that lexicon.
-/
namespace Concordance

theorem Delta.foldl_effect_mono (deltas : List Delta) (ix : Index) (t : String) (r s q : Nat)
    {m n : Nat} (h : m ≤ n) :
    deltas.foldl (fun n delta => delta.effect ix t r s q n) m ≤
      deltas.foldl (fun n delta => delta.effect ix t r s q n) n := by
  induction deltas generalizing m n with
  | nil => exact h
  | cons delta rest ih =>
    refine ih ?_
    simp only [Delta.effect]
    omega

/-- The texts after those of one source and record have changed. -/
def changeTexts (texts : Nat → Nat → List String) (source record : Nat) (new : List String) :
    Nat → Nat → List String :=
  fun s r => if s = source ∧ r = record then new else texts s r

/-- Feeding a change to the places of its source takes the old yield to the new one. -/
theorem Index.foldl_effect_places (ix : Index) (texts : Nat → Nat → List String)
    (source record : Nat) (new : List String) (places : List (ObjectId × Nat)) (t : String)
    (r s q k : Nat) :
    ((places.filter (·.1 = source)).map fun place =>
        (⟨record, place.2, texts source record, new⟩ : Delta)).foldl
        (fun n delta => delta.effect ix t r s q n) (k + ix.yield texts places t r s q) =
      k + ix.yield (changeTexts texts source record new) places t r s q := by
  induction places generalizing k with
  | nil => rfl
  | cons place rest ih =>
    rw [Index.yield_cons, Index.yield_cons, ← Nat.add_assoc, ← Nat.add_assoc]
    by_cases hp : place.1 = source
    · have hstep : (⟨record, place.2, texts source record, new⟩ : Delta).effect ix t r s q
            (k + ix.share place.2 (texts place.1 r) t s q + ix.yield texts rest t r s q) =
          k + ix.share place.2 (changeTexts texts source record new place.1 r) t s q +
            ix.yield texts rest t r s q := by
        simp only [Delta.effect, Delta.taken, Delta.given, changeTexts, hp]
        by_cases hr : r = record
        · subst hr
          simp only [and_self, if_true]
          omega
        · simp [hr]
      rw [List.filter_cons_of_pos (by simpa using hp), List.map_cons, List.foldl_cons, hstep]
      exact ih _
    · rw [List.filter_cons_of_neg (by simpa using hp)]
      have hsame : changeTexts texts source record new place.1 r = texts place.1 r := by
        simp [changeTexts, hp]
      rw [hsame]
      exact ih _

/-! ## The places of a source -/

namespace Index
variable {ix : Index} {source : Nat}

theorem mem_places {place : ObjectId × Nat} (hp : place ∈ ix.sources.zipIdx 1) :
    place.1 ∈ ix.sources ∧ 0 < place.2 ∧ place.2 ≤ ix.sources.length := by
  have hle := List.le_snd_of_mem_zipIdx hp
  have hlt := List.snd_lt_add_of_mem_zipIdx hp
  exact ⟨List.fst_mem_of_mem_zipIdx hp, by omega, by omega⟩

def placesOf (ix : Index) (source : ObjectId) : List Nat :=
  ((ix.sources.zipIdx 1).filter (·.1 = source)).map (·.2)

theorem mem_placesOf {sec : Nat} :
    sec ∈ ix.placesOf source ↔ (source, sec) ∈ ix.sources.zipIdx 1 := by
  simp [placesOf]

theorem placesOf_eq_nil : ix.placesOf source = [] ↔ source ∉ ix.sources := by
  constructor
  · intro hnone hsource
    obtain ⟨n, hn⟩ := List.mem_iff_getElem?.1 hsource
    have hmem := mem_placesOf.2 (List.mk_add_mem_zipIdx_iff_getElem?.2 hn)
    rw [hnone] at hmem
    cases hmem
  · intro hsource
    refine List.eq_nil_iff_forall_not_mem.2 fun sec hsec => hsource ?_
    exact (mem_places (mem_placesOf.1 hsec)).1

theorem placesOf_of_frame {jx : Index} (h : ix.frame = jx.frame) :
    ix.placesOf = jx.placesOf := by
  funext source
  rw [placesOf, placesOf, (frame_eq_iff.1 h).2.2.2.2]

end Index

namespace Database
variable {db db' : Database}

/-- How often a position is stored for a term of an index; never, if there is no such index. -/
def storedAt (db : Database) (i : Nat) (term : String) (record sec position : Nat) : Nat :=
  match db.indexes[i]? with
  | some ix => db.stored ix term record sec position
  | none => 0

theorem storedAt_eq {i : Nat} {ix : Index} (hix : db.indexes[i]? = some ix) (t : String)
    (r s q : Nat) : db.storedAt i t r s q = db.stored ix t r s q := by
  simp only [storedAt, hix]

/-- How often the sources of an index yield a term at a position when they hold these texts. -/
def yieldAt (db : Database) (texts : Nat → Nat → List String) (i : Nat) (term : String)
    (record sec position : Nat) : Nat :=
  match db.indexes[i]? with
  | some ix => ix.yield texts (ix.sources.zipIdx 1) term record sec position
  | none => 0

def producedAt (db : Database) : Nat → String → Nat → Nat → Nat → Nat := db.yieldAt db.textsOf

/-- A monotone move of the stored counts that takes the counts `want` to `want'`, or below; those of
an index and a record that are `exact` it takes to `want'`. -/
def Tracks (exact : Nat → Nat → Prop) (db : Database) (want : Nat → String → Nat → Nat → Nat → Nat)
    (db' : Database) (want' : Nat → String → Nat → Nat → Nat → Nat) : Prop :=
  ∀ i t r s q, ∃ f : Nat → Nat, (∀ m n, m ≤ n → f m ≤ f n) ∧
    db'.storedAt i t r s q = f (db.storedAt i t r s q) ∧
    f (want i t r s q) ≤ want' i t r s q ∧ (exact i r → f (want i t r s q) = want' i t r s q)

/-- The stored counts follow the texts. -/
def Follows (exact : Nat → Nat → Prop) (db db' : Database) : Prop :=
  Tracks exact db db.producedAt db' db'.producedAt

section Tracks
variable {exact exact' : Nat → Nat → Prop} {want want' want'' : Nat → String → Nat → Nat → Nat → Nat}

theorem Tracks.trans {db'' : Database} (h : Tracks exact db want db' want')
    (h' : Tracks exact' db' want' db'' want'') :
    Tracks (fun i r => exact i r ∧ exact' i r) db want db'' want'' := by
  intro i t r s q
  obtain ⟨f, hf, hstored, hle, heq⟩ := h i t r s q
  obtain ⟨g, hg, hstored', hle', heq'⟩ := h' i t r s q
  refine ⟨fun n => g (f n), fun m n hmn => hg _ _ (hf _ _ hmn), ?_, ?_, ?_⟩
  · rw [hstored', hstored]
  · exact Nat.le_trans (hg _ _ hle) hle'
  · rintro ⟨hexact, hexact'⟩
    dsimp only
    rw [heq hexact, heq' hexact']

theorem Tracks.imp (h : Tracks exact db want db' want') (himp : ∀ i r, exact' i r → exact i r) :
    Tracks exact' db want db' want' := by
  intro i t r s q
  obtain ⟨f, hf, hstored, hle, heq⟩ := h i t r s q
  exact ⟨f, hf, hstored, hle, fun hexact => heq (himp i r hexact)⟩

theorem Tracks.of_stored (hstored : ∀ i t r s q, db'.storedAt i t r s q = db.storedAt i t r s q)
    (hle : ∀ i t r s q, want i t r s q ≤ want' i t r s q)
    (heq : ∀ i r, exact i r → ∀ t s q, want i t r s q = want' i t r s q) :
    Tracks exact db want db' want' := by
  intro i t r s q
  exact ⟨id, fun _ _ hmn => hmn, hstored i t r s q, hle i t r s q,
    fun hexact => heq i r hexact t s q⟩

theorem Follows.refl (db : Database) : Follows exact db db :=
  Tracks.of_stored (fun _ _ _ _ _ => rfl) (fun _ _ _ _ _ => Nat.le_refl _)
    fun _ _ _ _ _ _ => rfl

end Tracks

/-! ## Deltas -/

/-- What deltas make of the count of a place. -/
def effectAt (db : Database) (changes : List (ObjectId × Delta)) (i : Nat) (term : String)
    (record sec position n : Nat) : Nat :=
  match db.indexes[i]? with
  | some ix => ((changes.filter (·.1 = i)).map (·.2)).foldl
      (fun n delta => delta.effect ix term record sec position n) n
  | none => 0

theorem WellFormed.storedAt_carry (h : db.WellFormed) {changes : List (ObjectId × Delta)}
    (hr : ∀ change ∈ changes, db.Receives change) (i : Nat) (t : String) (r s q : Nat) :
    (db.carry changes).storedAt i t r s q =
      db.effectAt changes i t r s q (db.storedAt i t r s q) := by
  have hfed := (h.carry hr).2
  cases hix : db.indexes[i]? with
  | none => simp only [storedAt, effectAt, hix, hfed.noIndex hix]
  | some ix =>
    obtain ⟨ix', hix', -⟩ := hfed.index' hix
    simp only [storedAt, effectAt, hix, hix']
    exact h.stored_carry hr hix hix' t r s q

theorem WellFormed.tracks_carry (h : db.WellFormed) {changes : List (ObjectId × Delta)}
    (hr : ∀ change ∈ changes, db.Receives change)
    (want : Nat → String → Nat → Nat → Nat → Nat) :
    Tracks (fun _ _ => True) db want (db.carry changes)
      fun i t r s q => db.effectAt changes i t r s q (want i t r s q) := by
  intro i t r s q
  refine ⟨db.effectAt changes i t r s q, fun m n hmn => ?_, h.storedAt_carry hr i t r s q,
    Nat.le_refl _, fun _ => rfl⟩
  simp only [effectAt]
  split
  · exact Delta.foldl_effect_mono _ _ t r s q hmn
  · exact Nat.le_refl _

/-- The sections in which an index lists a source are those of its list, in whatever order the
indexes are visited. -/
theorem filter_places {i : Nat} {ix : Index} (hix : db.indexes[i]? = some ix)
    {order : List (ObjectId × Index)} (hperm : order.Perm db.indexes.toList) (source : Nat) :
    (order.flatMap fun (id, ix) => ((ix.sources.zipIdx 1).filter (·.1 = source)).map
        fun (_, sec) => (id, sec)).filter (·.1 = i) =
      ((ix.sources.zipIdx 1).filter (·.1 = source)).map fun place => (i, place.2) := by
  apply FiniteMap.filter_flatMap hperm (fun e => ((e.2.sources.zipIdx 1).filter
    (·.1 = source)).map fun place => (e.1, place.2)) (·.1 = i) hix
  · intro place hp
    obtain ⟨_, -, rfl⟩ := List.mem_map.1 hp
    simp
  · intro e hne place hp
    obtain ⟨_, -, rfl⟩ := List.mem_map.1 hp
    simpa using hne

theorem filter_fedBy {i : Nat} {ix : Index} (hix : db.indexes[i]? = some ix) (source : Nat) :
    (db.fedBy source).filter (·.1 = i) =
      ((ix.sources.zipIdx 1).filter (·.1 = source)).map fun place => (i, place.2) :=
  filter_places hix .rfl source

/-- Feeding a change of texts to the indexes that list their source follows it exactly. -/
theorem effectAt_fedBy (texts : Nat → Nat → List String) (source record : Nat)
    (new : List String) (i : Nat) (t : String) (r s q : Nat) :
    db.effectAt ((db.fedBy source).map fun place =>
        (place.1, ⟨record, place.2, texts source record, new⟩)) i t r s q
        (db.yieldAt texts i t r s q) =
      db.yieldAt (changeTexts texts source record new) i t r s q := by
  simp only [effectAt, yieldAt]
  cases hix : db.indexes[i]? with
  | none => rfl
  | some ix =>
    dsimp only
    rw [List.filter_map, List.map_map]
    have hplaces := filter_fedBy hix source
    have heffect := ix.foldl_effect_places texts source record new (ix.sources.zipIdx 1) t r s q 0
    rw [Nat.zero_add, Nat.zero_add] at heffect
    rw [← heffect]
    congr 1
    exact (congrArg _ hplaces).trans (List.map_map ..)

theorem mem_fedBy {source : Nat} {place : ObjectId × Nat} (h : place ∈ db.fedBy source) :
    ∃ ix, db.indexes[place.1]? = some ix ∧ source ∈ ix.sources := by
  obtain ⟨entry, hentry, hplace⟩ := List.mem_flatMap.1 h
  obtain ⟨p, hp, rfl⟩ := List.mem_map.1 hplace
  obtain ⟨hp, hsource⟩ := List.mem_filter.1 hp
  refine ⟨entry.2, Std.ExtTreeMap.mem_toList_iff_getElem?_eq_some.1 hentry, ?_⟩
  rw [← of_decide_eq_true hsource]
  exact List.fst_mem_of_mem_zipIdx hp

theorem WellFormed.receives_fedBy (h : db.WellFormed) {source record : Nat}
    (hlive : ∀ range, db.checkSource range source = .ok () → db.isLive range record)
    (old new : List String) :
    ∀ change ∈ (db.fedBy source).map fun place =>
      ((place.1, ⟨record, place.2, old, new⟩) : ObjectId × Delta), db.Receives change := by
  intro change hc
  obtain ⟨place, hp, rfl⟩ := List.mem_map.1 hc
  obtain ⟨ix, hix, hsource⟩ := mem_fedBy hp
  exact .of_get hix (hlive ix.range (h.catalogued.source hix source hsource))

theorem WellFormed.feed (h : db.WellFormed) {source record : Nat}
    (hlive : ∀ range, db.checkSource range source = .ok () → db.isLive range record)
    (old new : List String) :
    (db.feed (db.fedBy source) record old new).WellFormed ∧
      db.Fed (db.feed (db.fedBy source) record old new) := by
  rw [feed_eq_carry]
  exact h.carry (h.receives_fedBy hlive old new)

theorem yieldAt_of_frames
    (h : ∀ i : Nat, db'.indexes[i]?.map Index.frame = db.indexes[i]?.map Index.frame)
    (texts : Nat → Nat → List String) : db'.yieldAt texts = db.yieldAt texts := by
  funext i t r s q
  have hmap := h i
  simp only [yieldAt]
  cases hix : db.indexes[i]? with
  | none =>
    rw [hix, Option.map_none, Option.map_eq_none_iff] at hmap
    rw [hmap]
  | some ix =>
    rw [hix, Option.map_some, Option.map_eq_some_iff] at hmap
    obtain ⟨ix', hix', hframe⟩ := hmap
    rw [hix']
    dsimp only
    rw [Index.yield_of_frame hframe, (Index.frame_eq_iff.1 hframe).2.2.2.2]

/-- A change of one text, fed to the indexes that list its source. -/
theorem WellFormed.tracks_feed (h : db.WellFormed) {source record : Nat}
    (hlive : ∀ range, db.checkSource range source = .ok () → db.isLive range record)
    (texts : Nat → Nat → List String) (new : List String) :
    Tracks (fun _ _ => True) db (db.yieldAt texts)
      (db.feed (db.fedBy source) record (texts source record) new)
      ((db.feed (db.fedBy source) record (texts source record) new).yieldAt
        (changeTexts texts source record new)) := by
  have hr := h.receives_fedBy hlive (texts source record) new
  have hcarry := h.tracks_carry hr (db.yieldAt texts)
  rw [yieldAt_of_frames (h.feed hlive _ new).2.frame, feed_eq_carry]
  refine (hcarry.trans (Tracks.of_stored (fun _ _ _ _ _ => rfl) ?_ ?_)).imp
    fun _ _ _ => ⟨trivial, trivial⟩
  · intro i t r s q
    exact Nat.le_of_eq (effectAt_fedBy texts source record new i t r s q)
  · intro i r _ t s q
    exact effectAt_fedBy texts source record new i t r s q

/-! ## Keys that feeding adds -/

/-- No lexicon is listed as a source. -/
def Apart (db : Database) : Prop :=
  ∀ (i : Nat) ix (j : Nat) jx, db.indexes[i]? = some ix → db.indexes[j]? = some jx →
    ix.lexicon ∉ jx.sources

instance (db : Database) : Decidable db.Apart :=
  decidable_of_iff (∀ e ∈ db.indexes.toList, ∀ e' ∈ db.indexes.toList,
      e.2.lexicon ∉ e'.2.sources) <| by
    constructor
    · intro h i ix j jx hix hjx
      exact h (i, ix) (Std.ExtTreeMap.mem_toList_iff_getElem?_eq_some.2 hix) (j, jx)
        (Std.ExtTreeMap.mem_toList_iff_getElem?_eq_some.2 hjx)
    · intro h e he e' he'
      exact h e.1 e.2 e'.1 e'.2 (Std.ExtTreeMap.mem_toList_iff_getElem?_eq_some.1 he)
        (Std.ExtTreeMap.mem_toList_iff_getElem?_eq_some.1 he')

/-- No lexicon is listed as a source of the index. -/
def ApartAt (db : Database) (i : Nat) : Prop :=
  ∀ ix (j : Nat) jx, db.indexes[i]? = some ix → db.indexes[j]? = some jx → jx.lexicon ∉ ix.sources

theorem Apart.apartAt (h : db.Apart) (i : Nat) : db.ApartAt i :=
  fun ix j jx hix hjx => h j jx i ix hjx hix

theorem Fed.textsOf_cases (hf : db.Fed db') (source record : Nat) :
    db.textsOf source record = [] ∨ db.textsOf source record = db'.textsOf source record := by
  simp only [textsOf, hf.columns]
  cases db.columns[source]? with
  | some values => exact .inr rfl
  | none =>
    cases hkey : db.recordKey? source record with
    | none => exact .inl rfl
    | some key =>
      right
      have hkey' : db'.recordKey? source record = some key := by
        simp only [recordKey?] at hkey ⊢
        cases ht : db.tables[source]? with
        | none =>
          rw [ht] at hkey
          cases hkey
        | some t =>
          obtain ⟨u, hu, hg⟩ := hf.table ht
          rw [ht] at hkey
          rw [hu]
          exact hg.key? hkey
      rw [hkey']

/-- Feeding adds keys to lexicons only. -/
theorem Fed.textsOf_eq (hf : db.Fed db') {source : Nat}
    (hsource : ∀ {i : Nat} {ix}, db.indexes[i]? = some ix → ix.lexicon ≠ source) (record : Nat) :
    db'.textsOf source record = db.textsOf source record := by
  simp only [textsOf, hf.columns, recordKey?, hf.other hsource]

/-- The ids of a table up to this one have been given out. -/
def GivenOut (db : Database) (table record : Nat) : Prop :=
  ∀ t, db.tables[table]? = some t → record < t.next

theorem Fed.givenOut (hf : db.Fed db') {table record : Nat} (h : db.GivenOut table record) :
    db'.GivenOut table record := by
  intro u hu
  cases ht : db.tables[table]? with
  | none =>
    rw [hf.noTable ht] at hu
    cases hu
  | some t =>
    obtain ⟨v, hv, hg⟩ := hf.table ht
    obtain rfl := Option.some.inj (hu.symm.trans hv)
    exact Nat.lt_of_lt_of_le (h t ht) hg.next

/-- Feeding adds keys for new records only. -/
theorem WellFormed.textsOf_fed (h : db.WellFormed) (h' : db'.WellFormed) (hf : db.Fed db')
    {source record : Nat} (hold : db.GivenOut source record) :
    db'.textsOf source record = db.textsOf source record := by
  have hkey : db'.recordKey? source record = db.recordKey? source record := by
    simp only [recordKey?]
    cases ht : db.tables[source]? with
    | none => rw [hf.noTable ht]
    | some t =>
      obtain ⟨u, hu, hg⟩ := hf.table ht
      rw [hu]
      exact hg.key?_old (h.filled.sound ht) (h'.filled.sound hu) (hold t ht)
  simp only [textsOf, hf.columns, hkey]

/-- Feeding adds no key of the record to a source of the index: a table among the sources is no
lexicon, or knows the record. -/
def Settled (db : Database) (known : Nat → Nat → Prop) (i record : Nat) : Prop :=
  ∀ ix, db.indexes[i]? = some ix → ∀ s ∈ ix.sources, ∀ t, db.tables[s]? = some t →
    (∀ (j : Nat) jx, db.indexes[j]? = some jx → jx.lexicon ≠ s) ∨ known s record

theorem ApartAt.settled {i : Nat} (h : db.ApartAt i) (known : Nat → Nat → Prop) (record : Nat) :
    db.Settled known i record := by
  intro ix hix s hs t ht
  refine .inl fun j jx hjx hlexicon => ?_
  exact h ix j jx hix hjx (hlexicon ▸ hs)

theorem Settled.imp {known known' : Nat → Nat → Prop} {i record : Nat}
    (h : db.Settled known i record)
    (himp : ∀ {s t}, db.tables[s]? = some t → known s record → known' s record) :
    db.Settled known' i record := by
  intro ix hix s hs t ht
  exact (h ix hix s hs t ht).imp_right (himp ht)

theorem index_of_frames
    (hframes : ∀ i : Nat, db'.indexes[i]?.map Index.frame = db.indexes[i]?.map Index.frame)
    {i : Nat} {ix : Index} (hix : db'.indexes[i]? = some ix) :
    ∃ jx, db.indexes[i]? = some jx ∧ jx.frame = ix.frame := by
  have hmap := hframes i
  rw [hix, Option.map_some, eq_comm, Option.map_eq_some_iff] at hmap
  exact hmap

theorem Settled.of_frames {known : Nat → Nat → Prop} {i record : Nat}
    (h : db'.Settled known i record) (hsame : db.SameCatalog db')
    (hframes : ∀ i : Nat, db'.indexes[i]?.map Index.frame = db.indexes[i]?.map Index.frame) :
    db.Settled known i record := by
  intro ix hix s hs t ht
  obtain ⟨jx, hjx, hframe⟩ := index_of_frames (fun i => (hframes i).symm) hix
  obtain ⟨u, hu, -⟩ := hsame.symm.table ht
  have hs' := (Index.frame_eq_iff.1 hframe).2.2.2.2 ▸ hs
  refine (h jx hjx s hs' u hu).imp_left fun hnot j kx hkx => ?_
  obtain ⟨kx', hkx', hframe'⟩ := index_of_frames (fun i => (hframes i).symm) hkx
  exact (Index.frame_eq_iff.1 hframe').1 ▸ hnot j kx' hkx'

/-- Texts that the database still holds, perhaps with further ones in sources where counts need not
be exact. -/
theorem tracks_texts {exact : Nat → Nat → Prop} {texts : Nat → Nat → List String}
    (hle : ∀ source record, texts source record = [] ∨
      texts source record = db.textsOf source record)
    (heq : ∀ {i r : Nat}, exact i r → ∀ {ix}, db.indexes[i]? = some ix → ∀ s ∈ ix.sources,
      texts s r = db.textsOf s r) :
    Tracks exact db (db.yieldAt texts) db db.producedAt := by
  refine Tracks.of_stored (fun _ _ _ _ _ => rfl) ?_ ?_
  · intro i t r s q
    simp only [producedAt, yieldAt]
    split
    · exact Index.yield_le (fun place _ => hle place.1 r) t s q
    · exact Nat.le_refl _
  · intro i r hexact t s q
    simp only [producedAt, yieldAt]
    split
    · rename_i ix hix
      refine Index.yield_congr (fun place hp => ?_) t s q
      exact heq hexact hix place.1 (List.fst_mem_of_mem_zipIdx hp)
    · rfl

/-- A source that no key came to while feeding holds the texts that it held. -/
theorem WellFormed.textsOf_settled (h : db.WellFormed) (h' : db'.WellFormed) (hf : db.Fed db')
    {source record : Nat} (hsettled : ∀ t, db.tables[source]? = some t →
      (∀ (j : Nat) jx, db.indexes[j]? = some jx → jx.lexicon ≠ source) ∨
        db.GivenOut source record) :
    db.textsOf source record = db'.textsOf source record := by
  cases ht : db.tables[source]? with
  | none =>
    refine (h.textsOf_fed h' hf fun t ht' => ?_).symm
    rw [ht] at ht'
    cases ht'
  | some t =>
    rcases hsettled t ht with hnot | hold
    · exact (hf.textsOf_eq (fun {j jx} hjx => hnot j jx hjx) record).symm
    · exact (h.textsOf_fed h' hf hold).symm

theorem WellFormed.tracks_fed (h : db.WellFormed) (h' : db'.WellFormed) (hf : db.Fed db') :
    Tracks (db'.Settled db.GivenOut) db' (db'.yieldAt db.textsOf) db' db'.producedAt := by
  refine Database.tracks_texts hf.textsOf_cases fun {i r} hsettled ix hix s hs => ?_
  obtain ⟨jx, hjx, hframe⟩ := hf.index hix
  refine h.textsOf_settled h' hf fun t ht => ?_
  exact hsettled.of_frames hf.same hf.frame jx hjx s
    ((Index.frame_eq_iff.1 hframe).2.2.2.2 ▸ hs) t ht

/-- What is stored first and then fed as a change of one text follows the texts. -/
theorem WellFormed.follows_feed (h : db'.WellFormed) {source record : Nat} {new : List String}
    (hlive : ∀ range, db'.checkSource range source = .ok () → db'.isLive range record)
    (hindexes : db'.indexes = db.indexes) (hstored : db'.storedAt = db.storedAt)
    (htexts : changeTexts db.textsOf source record new = db'.textsOf) :
    let fed := db'.feed (db'.fedBy source) record (db.textsOf source record) new
    Follows (fed.Settled db'.GivenOut) db fed := by
  intro fed
  have hyield : db'.yieldAt db.textsOf = db.producedAt := by
    funext i t r s q
    simp only [producedAt, yieldAt, hindexes]
  have hfeed := h.tracks_feed hlive db.textsOf new
  rw [htexts, hyield] at hfeed
  obtain ⟨hwf, hfed⟩ := h.feed hlive (db.textsOf source record) new
  have hstart : Tracks (fun _ _ => True) db db.producedAt db' db.producedAt :=
    .of_stored (fun i t r s q => by rw [hstored]) (fun _ _ _ _ _ => Nat.le_refl _)
      fun _ _ _ _ _ _ => rfl
  exact (hstart.trans (hfeed.trans (h.tracks_fed hwf hfed))).imp
    fun _ _ hsettled => ⟨trivial, trivial, hsettled⟩

end Database
end Concordance
