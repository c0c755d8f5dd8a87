import Concordance.Proofs.NewTerms
import Mathlib.Logic.Equiv.Defs
import Mathlib.Tactic.Choose

/-! # Databases with other term ids

Two databases are the same up to a renaming of term ids if each table has the same keys under
renamed ids and each index has the same occurrences under the renamed ids of its terms. Changes that
bring the same terms and come to the same counts, in whatever order, lead to databases of this kind,
and only ids that are new are renamed.
-/
namespace Concordance

namespace Table
variable {t u : Table} {σ : Equiv.Perm RecordId}

/-- The same table with other record ids. -/
structure Renamed (σ : Equiv.Perm RecordId) (t u : Table) : Prop where
  kind : u.kind = t.kind
  next : u.next = t.next
  find? : ∀ key, u.find? key = (t.find? key).map σ
  key? : ∀ id : Nat, u.key? (σ id) = t.key? id
  isLive : ∀ id : Nat, u.isLive (σ id) = t.isLive id

theorem Renamed.refl (t : Table) : t.Renamed (Equiv.refl _) t :=
  ⟨rfl, rfl, fun _ => Option.map_id'.symm, fun _ => rfl, fun _ => rfl⟩

/-- The id that the key of an id has in another table. -/
def counterpart (t u : Table) (id : RecordId) : RecordId :=
  ((t.key? id).bind u.find?).getD id

theorem counterpart_of_new {id : Nat} (hid : t.key? id = none) (u : Table) :
    t.counterpart u id = id := by
  simp [counterpart, hid]

theorem Sound.isSome_key? (h : t.Sound) (id : Nat) :
    (t.key? id).isSome ↔ t.kind.hasKey ∧ t.isLive id := by
  constructor
  · intro hid
    obtain ⟨key, hkey⟩ := Option.isSome_iff_exists.1 hid
    refine ⟨?_, h.live_of_key hkey⟩
    by_contra hkind
    cases hkey.symm.trans (h.unkeyed hkind id)
  · rintro ⟨hkind, hlive⟩
    exact Option.isSome_iff_exists.2 (h.keyed hkind hlive)

theorem SameKeys.symm (h : t.SameKeys u) : u.SameKeys t :=
  ⟨h.kind.symm, h.next.symm, fun id => (h.isLive id).symm, fun key => (h.isNone key).symm⟩

section SameKeys
variable (h : t.SameKeys u) (ht : t.Sound) (hu : u.Sound)
include h ht hu

theorem SameKeys.key?_eq_none {id : Nat} (hid : t.key? id = none) : u.key? id = none := by
  rw [← Option.not_isSome_iff_eq_none] at hid ⊢
  rw [hu.isSome_key?, h.kind, h.isLive, ← ht.isSome_key?]
  exact hid

omit hu in
theorem SameKeys.find?_counterpart {id : Nat} {key : String} (hid : t.key? id = some key) :
    u.find? key = some (t.counterpart u id) := by
  cases hfind : u.find? key with
  | none =>
    have hnone := (h.isNone key).1 (by rw [hfind]; rfl)
    rw [ht.find?_iff.2 hid] at hnone
    cases hnone
  | some i => simp [counterpart, hid, hfind]

theorem SameKeys.counterpart_counterpart (id : Nat) :
    u.counterpart t (t.counterpart u id) = id := by
  cases hid : t.key? id with
  | none =>
    rw [counterpart_of_new hid, counterpart_of_new (h.key?_eq_none ht hu hid)]
  | some key =>
    have hkey := hu.find?_iff.1 (h.find?_counterpart ht hid)
    have hback := h.symm.find?_counterpart hu hkey
    exact Option.some.inj (hback.symm.trans (ht.find?_iff.2 hid))

theorem SameKeys.exists_renamed : ∃ σ : Equiv.Perm RecordId, t.Renamed σ u ∧
    ∀ id : Nat, σ id ≠ id → ∃ key, t.key? id = some key ∧ u.find? key ≠ some id := by
  refine ⟨⟨t.counterpart u, u.counterpart t, h.counterpart_counterpart ht hu,
    h.symm.counterpart_counterpart hu ht⟩, ⟨h.kind, h.next, ?_, ?_, ?_⟩, ?_⟩
  · intro key
    cases hfind : t.find? key with
    | none => exact Option.isNone_iff_eq_none.1 ((h.isNone key).2 (by rw [hfind]; rfl))
    | some id => exact h.find?_counterpart ht (ht.find?_iff.1 hfind)
  · intro id
    change u.key? (t.counterpart u id) = t.key? id
    cases hid : t.key? id with
    | none => rw [counterpart_of_new hid, h.key?_eq_none ht hu hid]
    | some key => exact hu.find?_iff.1 (h.find?_counterpart ht hid)
  · intro id
    change u.isLive (t.counterpart u id) = t.isLive id
    cases hid : t.key? id with
    | none =>
      rw [counterpart_of_new hid]
      exact Bool.eq_iff_iff.2 (h.isLive id)
    | some key =>
      rw [ht.live_of_key hid, hu.live_of_key (hu.find?_iff.1 (h.find?_counterpart ht hid))]
  · intro id hne
    change t.counterpart u id ≠ id at hne
    cases hid : t.key? id with
    | none => exact absurd (counterpart_of_new hid u) hne
    | some key =>
      refine ⟨key, rfl, fun hfind => hne ?_⟩
      exact Option.some.inj ((h.find?_counterpart ht hid).symm.trans hfind)

end SameKeys
end Table

namespace Index
variable {ix jx : Index} {t u : Table} {σ : Equiv.Perm RecordId}

/-- The same index with other term ids. -/
structure Renamed (σ : Equiv.Perm RecordId) (ix jx : Index) : Prop where
  frame : jx.frame = ix.frame
  list : ∀ term : Nat, jx.postings.lists[σ term]? = ix.postings.lists[term]?

theorem Renamed.positions (h : ix.Renamed σ jx) (term record sec : Nat) :
    jx.postings.positions (σ term) record sec = ix.postings.positions term record sec := by
  simp only [Postings.positions, Postings.list, h.list]

theorem Renamed.neat (h : ix.Renamed σ jx) (hn : ix.postings.Neat) : jx.postings.Neat := by
  constructor
  all_goals
    intro term l hl
    rw [← σ.apply_symm_apply term, h.list] at hl
  · exact hn.ne_empty hl
  · exact hn.lists hl

/-- Renaming does not change how often a term, given by its text, occurs anywhere. -/
theorem Renamed.tally_eq (h : ix.Renamed σ jx) (ht : t.Renamed σ u) (term : String) (r s q : Nat) :
    tally u jx.postings term r s q = tally t ix.postings term r s q := by
  cases hfind : t.find? term with
  | none => rw [tally_of_new hfind, tally_of_new (by rw [ht.find?, hfind]; rfl)]
  | some id =>
    have hfind' : u.find? term = some (σ id) := by rw [ht.find?, hfind]; rfl
    rw [tally_of_find? hfind, tally_of_find? hfind', h.positions]

/-- Conversely, indexes over lexicons with renamed ids that tally alike differ by the renaming. -/
theorem renamed_of_tally (hframe : jx.frame = ix.frame) (hm : Matched t ix.postings)
    (hm' : Matched u jx.postings) (hn : ix.postings.Neat) (hn' : jx.postings.Neat)
    (ht : t.Renamed σ u) (htally : ∀ term r s q,
      tally u jx.postings term r s q = tally t ix.postings term r s q) : ix.Renamed σ jx := by
  refine ⟨hframe, fun term => hn'.getElem?_lists_congr hn fun record sec => ?_⟩
  cases hterm : t.key? term with
  | none =>
    rw [hm.positions_of_new hterm, hm'.positions_of_new (by rw [ht.key?, hterm])]
  | some key =>
    have hfind := hm.sound.find?_iff.2 hterm
    have hfind' : u.find? key = some (σ term) := by rw [ht.find?, hfind]; rfl
    refine hn'.positions_congr hn fun position => ?_
    rw [← tally_of_find? hfind', htally, tally_of_find? hfind]

end Index

namespace Database
variable {db db₁ db₂ : Database} {σ : ObjectId → Equiv.Perm RecordId}

/-- The same database with other ids for the terms of its lexicons. -/
structure Renamed (σ : ObjectId → Equiv.Perm RecordId) (db₁ db₂ : Database) : Prop where
  objects : db₂.objects = db₁.objects
  columns : db₂.columns = db₁.columns
  names : db₂.names = db₁.names
  nextId : db₂.nextId = db₁.nextId
  table : ∀ {id : Nat} {t}, db₁.tables[id]? = some t →
    ∃ u, db₂.tables[id]? = some u ∧ t.Renamed (σ id) u
  noTable : ∀ {id : Nat}, db₁.tables[id]? = none → db₂.tables[id]? = none
  index : ∀ {i : Nat} {ix}, db₁.indexes[i]? = some ix →
    ∃ jx, db₂.indexes[i]? = some jx ∧ ix.Renamed (σ ix.lexicon) jx
  noIndex : ∀ {i : Nat}, db₁.indexes[i]? = none → db₂.indexes[i]? = none

theorem Renamed.refl (db : Database) : db.Renamed (fun _ => Equiv.refl _) db where
  objects := rfl
  columns := rfl
  names := rfl
  nextId := rfl
  table ht := ⟨_, ht, .refl _⟩
  noTable ht := ht
  index hix := ⟨_, hix, rfl, fun _ => rfl⟩
  noIndex hix := hix

/-- With the same ids for all keys it is the same database. -/
theorem Renamed.eq_of_tables (h : db₁.Renamed σ db₂) (h₁ : db₁.WellFormed) (h₂ : db₂.WellFormed)
    (htables : db₂.tables = db₁.tables) : db₂ = db₁ := by
  have hindexes : db₂.indexes = db₁.indexes := by
    apply Std.ExtTreeMap.ext_getElem?
    intro i
    cases hix : db₁.indexes[i]? with
    | none => exact h.noIndex hix
    | some ix =>
      obtain ⟨jx, hjx, hrenamed⟩ := h.index hix
      obtain ⟨t, ht, -⟩ := h₁.catalogued.lexicon_table hix
      obtain ⟨u, hu, htable⟩ := h.table ht
      obtain rfl : t = u := Option.some.inj ((ht.symm.trans (by rw [htables])).trans hu)
      have hm := h₁.posted.matched hix ht
      have hm' := h₂.posted.matched hjx (by rwa [(Index.frame_eq_iff.1 hrenamed.frame).1])
      have hpostings : jx.postings = ix.postings := by
        refine (h₂.posted.neat hjx).eq_of_positions (h₁.posted.neat hix) fun term record sec => ?_
        cases hterm : t.key? term with
        | none => rw [hm.positions_of_new hterm, hm'.positions_of_new hterm]
        | some key =>
          have hfind := hm.sound.find?_iff.2 hterm
          -- the key has one id in the table that both share
          have hfixed : σ ix.lexicon term = term := by
            have hmap := htable.find? key
            rw [hfind] at hmap
            exact (Option.some.inj hmap).symm
          rw [← hrenamed.positions, hfixed]
      rw [hjx, Index.eq_of_frame hrenamed.frame hpostings]
  obtain ⟨objects, tables, columns, indexes, nextId, names⟩ := db₁
  obtain ⟨objects', tables', columns', indexes', nextId', names'⟩ := db₂
  obtain ⟨rfl, rfl, rfl, rfl, -⟩ := h
  obtain rfl : tables' = tables := htables
  obtain rfl : indexes' = indexes := hindexes
  rfl

/-! ## Feeding in another order -/

/-- Two databases that a call on a first one may leave are the same up to a renaming of ids that the
call gave out. -/
def RenamedSince (db db₁ db₂ : Database) : Prop :=
  ∃ σ, db₁.Renamed σ db₂ ∧ ∀ table record : Nat, σ table record ≠ record →
    ¬ db.GivenOut table record ∧ db₁.GivenOut table record

theorem RenamedSince.refl (db db₁ : Database) : db.RenamedSince db₁ db₁ :=
  ⟨_, .refl db₁, fun _ _ hne => absurd rfl hne⟩

theorem WellFormed.exists_perm (h : db.WellFormed) (h₁ : db₁.WellFormed) (h₂ : db₂.WellFormed)
    (hf₁ : db.Fed db₁) (hf₂ : db.Fed db₂) (id : Nat)
    (hkeys : ∀ {t u}, db₁.tables[id]? = some t → db₂.tables[id]? = some u → t.SameKeys u) :
    ∃ σ : Equiv.Perm RecordId,
      (∀ t u, db₁.tables[id]? = some t → db₂.tables[id]? = some u → t.Renamed σ u) ∧
        ∀ record : Nat, σ record ≠ record → ¬ db.GivenOut id record ∧ db₁.GivenOut id record := by
  cases hstart : db.tables[id]? with
  | none =>
    refine ⟨Equiv.refl _, fun t u ht => ?_, fun record hne => absurd rfl hne⟩
    rw [hf₁.noTable hstart] at ht
    cases ht
  | some start =>
    obtain ⟨t, ht, hg₁⟩ := hf₁.table hstart
    obtain ⟨u, hu, hg₂⟩ := hf₂.table hstart
    have hsound := h.filled.sound hstart
    obtain ⟨σ, hrenamed, hmoved⟩ :=
      (hkeys ht hu).exists_renamed (h₁.filled.sound ht) (h₂.filled.sound hu)
    refine ⟨σ, fun t' u' ht' hu' => ?_, fun record hne => ?_⟩
    · obtain rfl := Option.some.inj (ht.symm.trans ht')
      obtain rfl := Option.some.inj (hu.symm.trans hu')
      exact hrenamed
    · obtain ⟨key, hkey, hnot⟩ := hmoved record hne
      refine ⟨fun hold => hnot ?_, ?_⟩
      · -- An id that was given out keeps its key in both.
        rw [hg₁.key?_old hsound (h₁.filled.sound ht) (hold start hstart)] at hkey
        exact hg₂.find? (hsound.find?_iff.2 hkey)
      · intro t' ht'
        obtain rfl := Option.some.inj (ht.symm.trans ht')
        exact (h₁.filled.sound ht).lt_next ((h₁.filled.sound ht).live_of_key hkey)

theorem WellFormed.renamedSince (h : db.WellFormed) (h₁ : db₁.WellFormed) (h₂ : db₂.WellFormed)
    (hf₁ : db.Fed db₁) (hf₂ : db.Fed db₂)
    (hkeys : ∀ {id : Nat} {t u}, db₁.tables[id]? = some t → db₂.tables[id]? = some u →
      t.SameKeys u)
    (hstored : ∀ i t r s q, db₂.storedAt i t r s q = db₁.storedAt i t r s q) :
    db.RenamedSince db₁ db₂ := by
  choose σ hσ hmoved using fun id => h.exists_perm h₁ h₂ hf₁ hf₂ id hkeys
  refine ⟨σ, ⟨hf₂.objects.trans hf₁.objects.symm, hf₂.columns.trans hf₁.columns.symm,
    hf₂.names.trans hf₁.names.symm, hf₂.nextId.trans hf₁.nextId.symm, ?_, ?_, ?_, ?_⟩, hmoved⟩
  · intro id t ht
    obtain ⟨start, hstart, -⟩ := hf₁.same.table ht
    obtain ⟨u, hu, -⟩ := hf₂.table hstart
    exact ⟨u, hu, hσ id t u ht hu⟩
  · intro id ht
    exact hf₂.noTable (hf₁.noTable_iff.1 ht)
  · intro i ix hix
    obtain ⟨kx, hkx, hframe⟩ := hf₁.index hix
    obtain ⟨jx, hjx, hframe'⟩ := hf₂.index' hkx
    have hjxframe : jx.frame = ix.frame := hframe'.trans hframe
    have hlexicon := (Index.frame_eq_iff.1 hjxframe).1
    obtain ⟨t, ht, -⟩ := h₁.catalogued.lexicon_table hix
    obtain ⟨u, hu, -⟩ := h₂.catalogued.lexicon_table hjx
    have hu' : db₂.tables[ix.lexicon]? = some u := hlexicon ▸ hu
    refine ⟨jx, hjx, Index.renamed_of_tally hjxframe (h₁.posted.matched hix ht)
      (h₂.posted.matched hjx hu) (h₁.posted.neat hix) (h₂.posted.neat hjx)
      (hσ _ t u ht hu') fun term r s q => ?_⟩
    rw [← stored_eq_tally jx hu, ← stored_eq_tally ix ht, ← storedAt_eq hix, ← storedAt_eq hjx,
      hstored]
  · intro i hix
    exact hf₂.noIndex (hf₁.noIndex_iff.1 hix)

variable {changes changes' : List (ObjectId × Delta)}

/-- Changes that bring the same terms, perhaps in another order, and come to the same counts. -/
structure Reordered (db : Database) (changes changes' : List (ObjectId × Delta)) : Prop where
  receives : ∀ change ∈ changes, db.Receives change
  receives' : ∀ change ∈ changes', db.Receives change
  terms : ∀ lexicon : Nat, (db.termsFor lexicon changes).Perm (db.termsFor lexicon changes')
  effect : ∀ i t r s q n, db.effectAt changes' i t r s q n = db.effectAt changes i t r s q n

theorem Reordered.storedAt_eq (hc : db.Reordered changes changes') (h : db.WellFormed)
    (i : Nat) (t : String) (r s q : Nat) :
    (db.carry changes').storedAt i t r s q = (db.carry changes).storedAt i t r s q := by
  rw [h.storedAt_carry hc.receives, h.storedAt_carry hc.receives', hc.effect]

/-- Whatever order the changes come in, the databases differ by a renaming of new term ids. -/
theorem WellFormed.renamedSince_carry (h : db.WellFormed) (hc : db.Reordered changes changes') :
    db.RenamedSince (db.carry changes) (db.carry changes') := by
  obtain ⟨h₁, hf₁⟩ := h.carry hc.receives
  obtain ⟨h₂, hf₂⟩ := h.carry hc.receives'
  refine h.renamedSince h₁ h₂ hf₁ hf₂ (fun {id t u} ht hu => ?_) (hc.storedAt_eq h)
  exact h.sameKeys_carry hc.receives hc.receives' (hc.terms id) ht hu

/-- Changes that bring the same terms in the same order lead to the same database. -/
theorem WellFormed.carry_congr (h : db.WellFormed) (hc : db.Reordered changes changes')
    (hterms : ∀ lexicon : Nat, db.termsFor lexicon changes' = db.termsFor lexicon changes) :
    db.carry changes' = db.carry changes := by
  obtain ⟨σ, hrenamed, -⟩ := h.renamedSince_carry hc
  refine hrenamed.eq_of_tables (h.carry hc.receives).1 (h.carry hc.receives').1 ?_
  apply Std.ExtTreeMap.ext_getElem?
  intro id
  rw [h.tables_carry hc.receives, h.tables_carry hc.receives', hterms]

end Database
end Concordance
