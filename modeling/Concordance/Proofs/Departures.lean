import Concordance.Proofs.RemovalOrder

/-! # What goes with an object

An object takes with it what cannot be without it, and nothing else. The indexes that stay lose the
sources that go one after another, which leaves alone whatever belongs to no such index; only when
all of them have lost theirs is anything dropped.
-/
namespace Concordance.Database
variable {db db₁ db' : Database} {gone indexes indexes' : List ObjectId}

/-- A term that one of the indexes brings to its lexicon when it loses sources: it is among the texts
that a source it keeps holds in the end. -/
def Brought (db db' : Database) (gone indexes : List ObjectId) (lexicon : ObjectId)
    (term : String) : Prop :=
  ∃ i ∈ indexes, ∃ ix, db.indexes[i]? = some ix ∧ ix.lexicon = lexicon ∧
    ∃ source ∈ (ix.spare gone).sources, ∃ record,
      term ∈ ix.tokenizer.terms (db'.textsOf source record)

/-- Some indexes have lost the sources that go. Their lexicons may have got terms of the sources that
they keep, and nothing else has changed. -/
structure Shorn (db db' : Database) (gone indexes : List ObjectId) : Prop where
  objects : db'.objects = db.objects
  columns : db'.columns = db.columns
  names : db'.names = db.names
  nextId : db'.nextId = db.nextId
  lost : ∀ i ∈ indexes, ∀ ix, db.indexes[i]? = some ix →
    ∃ jx, db'.indexes[i]? = some jx ∧ jx.frame = (ix.spare gone).frame
  other : ∀ i : Nat, i ∉ indexes → db'.indexes[i]? = db.indexes[i]?
  table : ∀ table : Nat, ∃ terms, db'.tables[table]? = db.tables[table]?.map (·.addKeys terms) ∧
    ∀ term ∈ terms, db.Brought db' gone indexes table term
  grows : ∀ {table : Nat} {t u}, db.tables[table]? = some t → db'.tables[table]? = some u → t.Grows u
  texts : ∀ source record, db.textsOf source record = [] ∨
    db.textsOf source record = db'.textsOf source record

theorem mem_terms_of_texts {tokenizer : Tokenizer} {texts texts' : List String} {term : String}
    (h : texts = [] ∨ texts = texts') (hterm : term ∈ tokenizer.terms texts) :
    term ∈ tokenizer.terms texts' := by
  rcases h with rfl | rfl
  · cases hterm
  · exact hterm

theorem Shorn.refl (db : Database) (gone : List ObjectId) : db.Shorn db gone [] where
  objects := rfl
  columns := rfl
  names := rfl
  nextId := rfl
  lost i hi := by cases hi
  other _ _ := rfl
  table table := ⟨[], by simp, nofun⟩
  grows ht hu := Option.some.inj (ht.symm.trans hu) ▸ .refl _
  texts _ _ := .inr rfl

theorem Shorn.trans (h : db.Shorn db₁ gone indexes) (h' : db₁.Shorn db' gone indexes')
    (hdisjoint : ∀ i ∈ indexes, i ∉ indexes') : db.Shorn db' gone (indexes ++ indexes') where
  objects := h'.objects.trans h.objects
  columns := h'.columns.trans h.columns
  names := h'.names.trans h.names
  nextId := h'.nextId.trans h.nextId
  lost i hi ix hix := by
    by_cases hmem : i ∈ indexes
    · rw [h'.other i (hdisjoint i hmem)]
      exact h.lost i hmem ix hix
    · exact h'.lost i ((List.mem_append.1 hi).resolve_left hmem) ix (by rwa [h.other i hmem])
  other i hi := by
    rw [List.mem_append, not_or] at hi
    rw [h'.other i hi.2, h.other i hi.1]
  table table := by
    obtain ⟨terms, htable, hterms⟩ := h.table table
    obtain ⟨terms', htable', hterms'⟩ := h'.table table
    refine ⟨terms ++ terms', ?_, fun term hterm => ?_⟩
    · rw [htable', htable, Option.map_map]
      simp only [Function.comp_def, Table.addKeys_append]
    · rcases List.mem_append.1 hterm with hterm | hterm
      · obtain ⟨i, hi, ix, hix, hlexicon, source, hsource, record, hmem⟩ := hterms term hterm
        exact ⟨i, List.mem_append_left _ hi, ix, hix, hlexicon, source, hsource, record,
          mem_terms_of_texts (h'.texts source record) hmem⟩
      · obtain ⟨i, hi, ix, hix, hrest⟩ := hterms' term hterm
        have hnot : i ∉ indexes := fun hmem => hdisjoint i hmem hi
        exact ⟨i, List.mem_append_right _ hi, ix, (h.other i hnot).symm.trans hix, hrest⟩
  grows {table t u} ht hu := by
    obtain ⟨terms, htable, -⟩ := h.table table
    rw [ht, Option.map_some] at htable
    exact (h.grows ht htable).trans (h'.grows htable hu)
  texts source record := by
    rcases h.texts source record with hnil | hsame
    · exact .inl hnil
    · exact hsame ▸ h'.texts source record

/-! ## One index -/

theorem indexes_applyDelta_of_ne {i j : Nat} (hne : i ≠ j) (delta : Delta) :
    (db.applyDelta i delta).indexes[j]? = db.indexes[j]? := by
  cases hix : db.indexes[i]? with
  | none => rw [applyDelta_of_none hix]
  | some ix =>
    cases hlexicon : db.tables[ix.lexicon]? with
    | none => rw [applyDelta_of_noLexicon hix hlexicon]
    | some lexicon => simp [applyDelta_of_get hix hlexicon, Ne.symm hne]

theorem indexes_carry_of_ne {changes : List (ObjectId × Delta)} {j : Nat}
    (h : ∀ change ∈ changes, change.1 ≠ j) :
    (db.carry changes).indexes[j]? = db.indexes[j]? := by
  induction changes generalizing db with
  | nil => rfl
  | cons change rest ih =>
    obtain ⟨hne, hrest⟩ := List.forall_mem_cons.1 h
    exact (ih hrest).trans (indexes_applyDelta_of_ne hne change.2)

theorem WellFormed.exists_terms_lose (h : db.WellFormed) (e : HashOrder) {i : Nat} {ix : Index}
    (hix : db.indexes[i]? = some ix) (gone : List ObjectId) (table : Nat) :
    ∃ terms, (e.lose db gone i).tables[table]? = db.tables[table]?.map (·.addKeys terms) ∧
      ∀ term ∈ terms, ix.lexicon = table ∧ ∃ source ∈ (ix.spare gone).sources, ∃ record,
        term ∈ ix.tokenizer.terms (db.textsOf source record) := by
  obtain ⟨-, hreceives, hnew, -⟩ := e.lossDeltas_spec h hix gone
  refine ⟨_, h.tables_carry (List.forall_mem_map.2 hreceives) table, fun term hterm => ?_⟩
  obtain ⟨_, hchange, hterm⟩ := List.mem_flatMap.1 hterm
  obtain ⟨delta, hdelta, rfl⟩ := List.mem_map.1 hchange
  simp only [hix, Option.elim_some] at hterm
  split at hterm
  · rename_i hlexicon
    rcases hnew delta hdelta with hnil | ⟨place, hplace, htexts⟩
    · rw [hnil] at hterm
      cases hterm
    · exact ⟨hlexicon, place.1, fst_mem_of_mem_placesLost hplace, delta.record, htexts ▸ hterm⟩
  · cases hterm

theorem WellFormed.shorn_lose (h : db.WellFormed) (e : HashOrder) {i : Nat} {ix : Index}
    (hix : db.indexes[i]? = some ix) (gone : List ObjectId) :
    db.Shorn (e.lose db gone i) gone [i] := by
  have hfed := (e.wellFormed_lose h hix gone).2
  refine { hfed with lost := ?_, other := ?_, table := ?_, grows := ?_, texts := hfed.textsOf_cases }
  · intro j hj jx hjx
    obtain rfl := List.mem_singleton.1 hj
    obtain rfl := Option.some.inj (hix.symm.trans hjx)
    obtain ⟨kx, hkx, hframe⟩ := hfed.index' hix
    refine ⟨kx.spare gone, ?_, ?_⟩
    · rw [HashOrder.lose, getElem?_shed, hkx, Option.map_some, if_pos (List.mem_singleton_self _)]
    · obtain ⟨hlexicon, hrange, hflags, htokenizer, hsources⟩ := Index.frame_eq_iff.1 hframe
      simp only [Index.frame_eq_iff, Index.spare, hlexicon, hrange, hflags, htokenizer, hsources,
        and_self]
  · intro j hj
    rw [HashOrder.lose, getElem?_shed, indexes_carry_of_ne]
    · simp [List.mem_singleton.not.1 hj]
    · intro change hchange
      obtain ⟨delta, -, rfl⟩ := List.mem_map.1 hchange
      exact fun heq => hj (List.mem_singleton.2 heq.symm)
  · intro table
    obtain ⟨terms, htable, hterms⟩ := h.exists_terms_lose e hix gone table
    refine ⟨terms, htable, fun term hterm => ?_⟩
    obtain ⟨hlexicon, source, hsource, record, hmem⟩ := hterms term hterm
    exact ⟨i, List.mem_singleton_self i, ix, hix, hlexicon, source, hsource, record,
      mem_terms_of_texts (hfed.textsOf_cases source record) hmem⟩
  · intro table t u ht hu
    obtain ⟨v, hv, hgrows⟩ := hfed.table ht
    exact Option.some.inj (hv.symm.trans hu) ▸ hgrows

/-! ## All indexes -/

theorem WellFormed.shorn_detach (h : db.WellFormed) (e : HashOrder) (gone : List ObjectId)
    (hnodup : indexes.Nodup)
    (hindexes : ∀ i ∈ indexes, ∃ ix, db.indexes[i]? = some ix) :
    ∃ db', e.detach db gone indexes = (.ok (), db') ∧ db'.WellFormed ∧
      db.Shorn db' gone indexes := by
  induction indexes generalizing db with
  | nil => exact ⟨db, rfl, h, .refl db gone⟩
  | cons i rest ih =>
    obtain ⟨hi, hrest⟩ := List.nodup_cons.1 hnodup
    obtain ⟨⟨ix, hix⟩, hindexes⟩ := List.forall_mem_cons.1 hindexes
    have hwf₁ := (e.wellFormed_lose h hix gone).1
    have hshorn₁ := h.shorn_lose e hix gone
    -- The rest lose theirs in the database that the first one leaves, where they are as before.
    have hne : ∀ j ∈ rest, j ∉ [i] := fun j hj hmem => hi (List.mem_singleton.1 hmem ▸ hj)
    obtain ⟨db', hdetach, hwf, hshorn⟩ := ih hwf₁ hrest fun j hj => by
      rw [hshorn₁.other j (hne j hj)]
      exact hindexes j hj
    refine ⟨db', ?_, hwf, hshorn₁.trans hshorn fun j hmem hj => hne j hj hmem⟩
    have hinstall : e.installSources db i (ix.sources.filter (!gone.contains ·)) =
        .ok (e.lose db gone i) := (e.lossDeltas_spec h hix gone).2.2.2
    simp only [HashOrder.detach, hix, Option.map_some, Option.getD_some, hinstall]
    exact hdetach

/-! ## What goes, and what stays -/

/-- What goes with an object: itself, and if it is a table its columns and the indexes whose lexicon
it is. -/
def GoesWith (db : Database) (id i : Nat) : Prop :=
  i = id ∨ (∃ valueType, db.kind? i = some (.column id valueType)) ∨
    ∃ range flags, db.kind? i = some (.index id range flags)

/-- Objects have gone with their names and their data. The indexes that stay have lost the sources
that went, and those that had none of these are as they were. Tables have at most got terms, and only
as lexicons of indexes that lost a source, from the texts of sources that these keep. -/
structure Departed (db db' : Database) (gone : List ObjectId) : Prop where
  nextId : db'.nextId = db.nextId
  object : ∀ i : Nat, db'.objects[i]? = if i ∈ gone then none else db.objects[i]?
  name : ∀ (name : String) (i : Nat),
    db'.names[name]? = some i ↔ db.names[name]? = some i ∧ i ∉ gone
  column : ∀ i : Nat, db'.columns[i]? = if i ∈ gone then none else db.columns[i]?
  index : ∀ {i : Nat} {ix}, db.indexes[i]? = some ix → i ∉ gone → ∃ jx,
    db'.indexes[i]? = some jx ∧ jx.header = ix.header ∧ jx.sources = ix.sources.filter (· ∉ gone)
  untouched : ∀ {i : Nat} {ix}, db.indexes[i]? = some ix → i ∉ gone → (∀ s ∈ ix.sources, s ∉ gone) →
    db'.indexes[i]? = some ix
  noIndex : ∀ {i : Nat}, i ∈ gone ∨ db.indexes[i]? = none → db'.indexes[i]? = none
  table : ∀ {id : Nat} {t}, db.tables[id]? = some t → id ∉ gone → ∃ terms,
    db'.tables[id]? = some (t.addKeys terms) ∧ t.Grows (t.addKeys terms) ∧
      ∀ term ∈ terms, ∃ (i : Nat) (ix : Index), db.indexes[i]? = some ix ∧ i ∉ gone ∧
        ix.lexicon = id ∧ (∃ s ∈ ix.sources, s ∈ gone) ∧ ∃ source ∈ ix.sources, source ∉ gone ∧
          ∃ record, term ∈ ix.tokenizer.terms (db'.textsOf source record)
  noTable : ∀ {id : Nat}, id ∈ gone ∨ db.tables[id]? = none → db'.tables[id]? = none

/-- An object can go unless it is built in or a table that is the range of an index with another
lexicon. -/
theorem exists_doomed {id : Nat} : (∃ gone, db.doomed id = .ok gone) ↔
    ∃ kind, db.kind? id = some kind ∧ (∀ t, kind ≠ .type t) ∧
      ((∃ tableKind keyType tokenizer, kind = .table tableKind keyType tokenizer) →
        ∀ (i : Nat) ix, db.indexes[i]? = some ix → ix.range = id → ix.lexicon = id) := by
  rw [← indexOver?_eq_none]
  unfold doomed object? kind?
  cases db.objects[id]? with
  | none => simp
  | some info =>
    obtain ⟨_, name, kind⟩ := info
    cases kind with
    | type t => simp
    | table tableKind keyType tokenizer => cases db.indexOver? id <;> simp
    | column table valueType => simp
    | index lexicon range flags => simp

theorem Catalogued.mem_doomed (h : db.Catalogued) {id : Nat} (hgone : db.doomed id = .ok gone)
    (i : Nat) : i ∈ gone ↔ db.GoesWith id i := by
  rcases doomed_eq_ok hgone with ⟨_, _, _, -, -, rfl⟩ | ⟨rfl, hkind⟩
  · rw [List.mem_cons, mem_dependents, GoesWith]
  · refine List.mem_singleton.trans ⟨.inl, fun hi => hi.resolve_right fun hdependent => ?_⟩
    -- What depends on another object depends on a table.
    obtain ⟨t, ht⟩ : ∃ t, db.tables[id]? = some t := by
      rcases hdependent with ⟨valueType, hcolumn⟩ | ⟨range, flags, hindex⟩
      · exact (h.columnData hcolumn).2
      · obtain ⟨ix, hix⟩ := h.indexData hindex
        obtain ⟨t, ht, -⟩ := h.lexicon_table hix
        have hsame := (h.index hix).symm.trans hindex
        cases hsame
        exact ⟨t, ht⟩
    obtain ⟨_, _, htable⟩ := h.table ht
    rcases hkind with ⟨_, _, hother⟩ | ⟨_, _, _, hother⟩
    · cases htable.symm.trans hother
    · cases htable.symm.trans hother

theorem loses_of_mem_bereft {i : Nat} (hi : i ∈ db.bereft gone) :
    i ∉ gone ∧ ∃ ix, db.indexes[i]? = some ix ∧ ∃ s ∈ ix.sources, s ∈ gone := by
  obtain ⟨e, he, rfl⟩ := List.mem_map.1 hi
  obtain ⟨hmem, hcond⟩ := List.mem_filter.1 he
  obtain ⟨hkept, hany⟩ := (Bool.and_eq_true _ _).mp hcond
  obtain ⟨s, hs, hgone⟩ := List.any_eq_true.1 hany
  exact ⟨by simpa using hkept, e.2, Std.ExtTreeMap.mem_toList_iff_getElem?_eq_some.1 hmem, s, hs,
    List.contains_iff_mem.1 hgone⟩

/-- Once the indexes that stay have lost the sources that go, dropping these is all that is left. -/
theorem Shorn.departed (h : db.Shorn db₁ gone indexes) (hindexes : indexes.Perm (db.bereft gone))
    (hd : Dropped db₁ db' gone) (hn : db.Named) (hn' : db'.Named) : db.Departed db' gone where
  nextId := hd.nextId.trans h.nextId
  object i := by rw [hd.objects, h.objects]
  name name i := by
    rw [hn'.name_iff, hn.name_iff, hd.objects, h.objects]
    by_cases hi : i ∈ gone <;> simp [hi]
  column i := by rw [hd.columns, h.columns]
  index {i ix} hix hi := by
    rw [hd.indexes, if_neg hi]
    by_cases hbereft : i ∈ indexes
    · -- What it has left of its list is what dropping would leave of it.
      obtain ⟨jx, hjx, hframe⟩ := h.lost i hbereft ix hix
      obtain ⟨hlexicon, hrange, hflags, htokenizer, hsources⟩ := Index.frame_eq_iff.1 hframe
      refine ⟨jx, hjx, ?_, ?_⟩
      · simp only [Index.header, hlexicon, hrange, hflags, htokenizer, Index.spare]
      · simp [hsources, Index.spare]
    · refine ⟨ix, by rw [h.other i hbereft, hix], rfl, ?_⟩
      have hstays : ∀ s ∈ ix.sources, s ∉ gone := fun s hs hgone =>
        hbereft (hindexes.mem_iff.2 (mem_bereft hix hi hs hgone))
      exact (List.filter_eq_self.2 fun s hs => by simpa using hstays s hs).symm
  untouched {i ix} hix hi hsources := by
    rw [hd.indexes, if_neg hi, h.other i, hix]
    intro hbereft
    obtain ⟨-, jx, hjx, s, hs, hgone⟩ := loses_of_mem_bereft (hindexes.mem_iff.1 hbereft)
    obtain rfl := Option.some.inj (hix.symm.trans hjx)
    exact hsources s hs hgone
  noIndex {i} hi := by
    rw [hd.indexes]
    split
    · rfl
    · rename_i hkept
      have hnone := hi.resolve_left hkept
      rw [h.other i, hnone]
      intro hbereft
      obtain ⟨-, jx, hjx, -⟩ := loses_of_mem_bereft (hindexes.mem_iff.1 hbereft)
      cases hnone.symm.trans hjx
  table {id t} ht hid := by
    obtain ⟨terms, htable, hterms⟩ := h.table id
    rw [ht, Option.map_some] at htable
    refine ⟨terms, by rw [hd.tables, if_neg hid, htable], h.grows ht htable, fun term hterm => ?_⟩
    obtain ⟨i, hi, ix, hix, hlexicon, source, hsource, record, hmem⟩ := hterms term hterm
    obtain ⟨hkept, jx, hjx, hloses⟩ := loses_of_mem_bereft (hindexes.mem_iff.1 hi)
    obtain rfl := Option.some.inj (hix.symm.trans hjx)
    obtain ⟨hsource, hstays⟩ := List.mem_filter.1 hsource
    have hstays : source ∉ gone := by simpa using hstays
    refine ⟨i, ix, hix, hkept, hlexicon, hloses, source, hsource, hstays, record, ?_⟩
    have htexts : db'.textsOf source record = db₁.textsOf source record := by
      simp only [textsOf, recordKey?, hd.columns, hd.tables, if_neg hstays]
    rwa [htexts]
  noTable {id} hid := by
    rw [hd.tables]
    split
    · rfl
    · rename_i hkept
      obtain ⟨terms, htable, -⟩ := h.table id
      rw [htable, hid.resolve_left hkept, Option.map_none]

end Database

namespace HashOrder
open Database

/-- In every state that a run reaches, an object can be removed if it is not built in and, in the
case of a table, every index over it has it for its lexicon. Then it goes with its columns and the
indexes whose lexicon it is, and these alone, in whatever order the indexes are visited. -/
theorem removeObject_spec {db : Database} (hreached : Reached OwnFiles db) (e : HashOrder)
    (id : Nat) :
    ((e.removeObject db id).1 = .ok () ↔
        ∃ kind, db.kind? id = some kind ∧ (∀ t, kind ≠ .type t) ∧
          ((∃ tableKind keyType tokenizer, kind = .table tableKind keyType tokenizer) →
            ∀ (i : Nat) ix, db.indexes[i]? = some ix → ix.range = id → ix.lexicon = id)) ∧
      ((e.removeObject db id).1 = .ok () → ∃ gone, (∀ i, i ∈ gone ↔ db.GoesWith id i) ∧
        db.Departed (e.removeObject db id).2 gone) := by
  have h := hreached.wellFormed_of_ownFiles
  simp only [← exists_doomed, ← e.doomed_eq_ok_iff]
  unfold removeObject
  cases hdoomed : e.doomed db id with
  | error err => simp
  | ok gone =>
    have hgone := (e.doomed_eq_ok_iff db id).1 hdoomed
    have hperm := e.bereft_perm db gone
    obtain ⟨db₁, hdetach, hwf, hshorn⟩ := h.shorn_detach e gone
      (hperm.nodup_iff.2 (nodup_bereft db gone)) fun i hi => index_of_mem_bereft (hperm.mem_iff.1 hi)
    simp only [hdetach]
    refine ⟨iff_of_true trivial ⟨gone, rfl⟩, fun _ => ⟨gone, h.catalogued.mem_doomed hgone, ?_⟩⟩
    exact hshorn.departed hperm (dropped_foldl db₁ gone) h.named (hwf.named.foldl_drop gone)

/-- The title of the notes can go, and the body moves up in the index of both. The notes cannot,
because they are indexed by the words. The words can, and the index goes with them. -/
theorem removeObject_spec_notes : Reached OwnFiles notes ∧
    (∃ ix jx, notes.indexes[260]? = some ix ∧ ix.sources = [258, 259] ∧
      (ascending.removeObject notes 258).2.indexes[260]? = some jx ∧ jx.sources = [259] ∧
        (ascending.removeObject notes 258).2.names["Notes.title"]? = none) ∧
    (ascending.removeObject notes 257).1 ≠ .ok () ∧
    (ascending.removeObject notes 256).2.indexes[260]? = none ∧
      (ascending.removeObject notes 256).2.columns[259]? = notes.columns[259]? := by
  have hspec := removeObject_spec reached_ownFiles_notes ascending
  have hcatalogued := reached_ownFiles_notes.wellFormed_of_ownFiles.catalogued
  have hix : notes.indexes[260]? = some (notes.indexes[260]?.get (by decide +kernel)) :=
    (Option.some_get _).symm
  have htitle : notes.kind? 258 = some (.column 257 .shortText) := by decide +kernel
  have hnotes : notes.kind? 257 = some (.table .array none .whole) := by decide +kernel
  have hwords : notes.kind? 256 = some (.table .hash (some .shortText) .delimit) := by
    decide +kernel
  refine ⟨reached_ownFiles_notes, ?_, fun hok => ?_, ?_⟩
  · obtain ⟨gone, hgone, hdeparted⟩ := (hspec 258).2 ((hspec 258).1.2
      ⟨_, htitle, nofun, fun ⟨_, _, _, htable⟩ => by cases htable⟩)
    have hdoomed : notes.doomed 258 = .ok [258] := by decide +kernel
    have hmem : ∀ i : Nat, i ∈ gone ↔ i ∈ [258] := fun i =>
      (hgone i).trans (hcatalogued.mem_doomed hdoomed i).symm
    have hsources : (notes.indexes[260]?.get (by decide +kernel)).sources = [258, 259] := by
      decide +kernel
    obtain ⟨jx, hjx, -, hkept⟩ := hdeparted.index hix (by simp [hmem])
    refine ⟨_, jx, hix, hsources, hjx, by rw [hkept, hsources]; simp [hmem], ?_⟩
    refine Option.eq_none_iff_forall_ne_some.2 fun i hi => ?_
    obtain ⟨hi, hstays⟩ := (hdeparted.name "Notes.title" i).1 hi
    have hid : notes.names["Notes.title"]? = some 258 := by decide +kernel
    obtain rfl := Option.some.inj (hid.symm.trans hi)
    exact hstays ((hmem 258).2 (List.mem_singleton_self _))
  · obtain ⟨kind, hkind, -, hfree⟩ := (hspec 257).1.1 hok
    cases hnotes.symm.trans hkind
    have hsame := hfree ⟨_, _, _, rfl⟩ 260 _ hix (by decide +kernel)
    revert hsame
    decide +kernel
  · have hnone : notes.indexOver? 256 = none := by decide +kernel
    obtain ⟨gone, hgone, hdeparted⟩ := (hspec 256).2 ((hspec 256).1.2
      ⟨_, hwords, nofun, fun _ => indexOver?_eq_none.1 hnone⟩)
    have hdoomed : notes.doomed 256 = .ok [256, 260] := by decide +kernel
    have hmem : ∀ i : Nat, i ∈ gone ↔ i ∈ [256, 260] := fun i =>
      (hgone i).trans (hcatalogued.mem_doomed hdoomed i).symm
    exact ⟨hdeparted.noIndex (.inl (by simp [hmem])), by rw [hdeparted.column]; simp [hmem]⟩

end HashOrder
end Concordance
