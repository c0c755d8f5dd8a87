import Concordance.Proofs.Agreement
import Mathlib.Data.List.Perm.Basic

/-! # The order in which a source is enumerated

A new list of sources takes texts out first and then brings texts in. Whatever the order of the
records within each of the two, the counts come to the same and the same terms come to the lexicon,
so only the ids of new terms depend on it.
-/
namespace Concordance

theorem Delta.foldl_effect_perm {lost lost' gained gained' : List Delta} (hlost : lost.Perm lost')
    (hgained : gained.Perm gained') (hnew : ∀ delta ∈ lost, delta.new = [])
    (hold : ∀ delta ∈ gained, delta.old = []) (ix : Index) (t : String) (r s q n : Nat) :
    (lost' ++ gained').foldl (fun n delta => delta.effect ix t r s q n) n =
      (lost ++ gained).foldl (fun n delta => delta.effect ix t r s q n) n := by
  rw [List.foldl_append, List.foldl_append, foldl_effect_of_no_new hnew,
    foldl_effect_of_no_new fun delta hd => hnew delta (hlost.mem_iff.2 hd),
    foldl_effect_of_no_old hold,
    foldl_effect_of_no_old fun delta hd => hold delta (hgained.mem_iff.2 hd),
    total_perm (hlost.map _), total_perm (hgained.map _)]

/-- The same deltas in another order that comes to the same. -/
structure Delta.Shuffled (deltas deltas' : List Delta) : Prop where
  perm : deltas.Perm deltas'
  effect : ∀ (ix : Index) t r s q n, deltas'.foldl (fun n delta => delta.effect ix t r s q n) n =
    deltas.foldl (fun n delta => delta.effect ix t r s q n) n

theorem Delta.Shuffled.symm_trans {deltas deltas' deltas'' : List Delta}
    (h : Shuffled deltas deltas') (h' : Shuffled deltas deltas'') : Shuffled deltas' deltas'' where
  perm := h.perm.symm.trans h'.perm
  effect ix t r s q n := by rw [h.effect, h'.effect]

namespace HashOrder
open Database
variable (e : HashOrder) {db db' : Database} {range : Nat}

theorem sourceTexts_perm (h : db.WellFormed) {source : Nat}
    (hs : db.checkSource range source = .ok ()) :
    ∃ held held', db.sourceTexts source = .ok held ∧ e.sourceTexts db source = .ok held' ∧
      held.Perm held' := by
  rcases checkSource_eq_ok.1 hs with ⟨valueType, hkind⟩ | ⟨rfl, kind, keyType, tokenizer, hkind⟩
  · obtain ⟨⟨values, hvalues⟩, -⟩ := h.catalogued.columnData hkind
    have hread : ∀ entry ∈ values.toList,
        entry.2.indexTexts.map (entry.1, ·) = .ok (entry.1, entry.2.texts) := by
      intro entry hmem
      have hget := Std.ExtTreeMap.mem_toList_iff_getElem?_eq_some.1 hmem
      rw [(h.value_of_kind hvalues hkind hget).2.indexTexts]
      rfl
    have hperm := e.values_perm values
    refine ⟨_, _, ?_, ?_, (hperm.map fun entry => (entry.1, entry.2.texts)).symm⟩
    · simp only [Database.sourceTexts, hvalues]
      exact mapM_eq_ok hread
    · simp only [sourceTexts, hvalues]
      exact mapM_eq_ok fun entry hmem => hread entry (hperm.mem_iff.1 hmem)
  · obtain ⟨⟨t, ht⟩, -⟩ := h.catalogued.tableData hkind
    have hcolumn := h.catalogued.no_column_of_table ht
    refine ⟨_, _, ?_, ?_, ((e.keys_perm t).map fun entry => (entry.1, [entry.2])).symm⟩
    · simp only [Database.sourceTexts, hcolumn, ht]
    · simp only [sourceTexts, hcolumn, ht]

theorem placesDeltas_perm (h : db.WellFormed) {places : List (ObjectId × Nat)}
    (hs : ∀ place ∈ places, db.checkSource range place.1 = .ok ())
    (make : RecordId → Nat → List String → Delta) :
    ∃ lists lists', places.mapM (db.placeDeltas make) = .ok lists ∧
      places.mapM (e.placeDeltas db make) = .ok lists' ∧ lists.flatten.Perm lists'.flatten := by
  induction places with
  | nil => exact ⟨[], [], rfl, rfl, .rfl⟩
  | cons place rest ih =>
    obtain ⟨held, held', hheld, hheld', hperm⟩ :=
      e.sourceTexts_perm h (hs place (List.mem_cons_self ..))
    obtain ⟨lists, lists', hlists, hlists', hrest⟩ :=
      ih fun p hp => hs p (List.mem_cons_of_mem _ hp)
    have hplace : db.placeDeltas make place =
        .ok (held.map fun entry => make entry.1 place.2 entry.2) := by
      simp only [Database.placeDeltas, hheld]
      rfl
    have hplace' : e.placeDeltas db make place =
        .ok (held'.map fun entry => make entry.1 place.2 entry.2) := by
      simp only [placeDeltas, hheld']
      rfl
    refine ⟨_, _, mapM_cons_ok hplace hlists, mapM_cons_ok hplace' hlists', ?_⟩
    rw [List.flatten_cons, List.flatten_cons]
    exact (hperm.map _).append hrest

/-- The deltas of a new list of sources can be found in any order. They bring the texts of the new
places, and come to the same. -/
theorem sourceDeltas_shuffled (h : db.WellFormed) {before after : List ObjectId}
    (hbefore : ∀ s ∈ before, db.checkSource range s = .ok ())
    (hafter : ∀ s ∈ after, db.checkSource range s = .ok ()) :
    ∃ deltas deltas', db.sourceDeltas before after = .ok deltas ∧
      e.sourceDeltas db before after = .ok deltas' ∧ Delta.Shuffled deltas deltas' ∧
      ∀ delta ∈ deltas, delta.new = [] ∨ ∃ place ∈ placesLost after before,
        delta.new = db.textsOf place.1 delta.record := by
  have hbefore' : ∀ place ∈ placesLost before after, db.checkSource range place.1 = .ok () :=
    fun place hp => hbefore place.1 (fst_mem_of_mem_placesLost hp)
  have hafter' : ∀ place ∈ placesLost after before, db.checkSource range place.1 = .ok () :=
    fun place hp => hafter place.1 (fst_mem_of_mem_placesLost hp)
  obtain ⟨lost, hlost, hlostMem, -⟩ := h.placesDeltas .ascending (placesLost before after) hbefore'
    (fun record sec texts => ⟨record, sec, texts, []⟩) (fun _ _ _ => rfl)
    Delta.taken (fun _ _ _ _ _ _ _ _ => rfl)
  obtain ⟨gained, hgained, hgainedMem, -⟩ := h.placesDeltas .ascending (placesLost after before) hafter'
    (fun record sec texts => ⟨record, sec, [], texts⟩) (fun _ _ _ => rfl)
    Delta.given (fun _ _ _ _ _ _ _ _ => rfl)
  obtain ⟨lists, lost', hlists, hlost', hlostPerm⟩ := e.placesDeltas_perm h hbefore'
    fun record sec texts => ⟨record, sec, texts, []⟩
  obtain rfl := Except.ok.inj (hlost.symm.trans hlists)
  obtain ⟨lists, gained', hlists, hgained', hgainedPerm⟩ := e.placesDeltas_perm h hafter'
    fun record sec texts => ⟨record, sec, [], texts⟩
  obtain rfl := Except.ok.inj (hgained.symm.trans hlists)
  have hnew : ∀ delta ∈ lost.flatten, delta.new = [] := by
    intro delta hd
    obtain ⟨-, place, -, hdelta⟩ := hlostMem delta hd
    rw [hdelta]
  have hnewTexts : ∀ delta ∈ gained.flatten, ∃ place ∈ placesLost after before,
      delta.new = db.textsOf place.1 delta.record := by
    intro delta hd
    obtain ⟨-, place, hp, hdelta⟩ := hgainedMem delta hd
    exact ⟨place, hp, congrArg Delta.new hdelta⟩
  have hold : ∀ delta ∈ gained.flatten, delta.old = [] := by
    intro delta hd
    obtain ⟨-, place, -, hdelta⟩ := hgainedMem delta hd
    rw [hdelta]
  refine ⟨lost.flatten ++ gained.flatten, lost'.flatten ++ gained'.flatten, ?_, ?_, ⟨?_, ?_⟩, ?_⟩
  · change ascending.sourceDeltas db before after = _
    simp only [sourceDeltas, hlost, hgained]
    rfl
  · simp only [sourceDeltas, hlost', hgained']
    rfl
  · exact hlostPerm.append hgainedPerm
  · exact Delta.foldl_effect_perm hlostPerm hgainedPerm hnew hold
  · intro delta hd
    exact (List.mem_append.1 hd).imp (hnew delta) (hnewTexts delta)

end HashOrder

/-! ## Changes of several indexes -/

namespace Database
variable {db db' : Database} {indexes indexes' : List ObjectId} {deltas deltas' : Nat → List Delta}

def changesOf (indexes : List ObjectId) (deltas : Nat → List Delta) : List (ObjectId × Delta) :=
  indexes.flatMap fun i => (deltas i).map (i, ·)

theorem filter_changesOf (hnodup : indexes.Nodup) (i : Nat) :
    ((changesOf indexes deltas).filter (·.1 = i)).map (·.2) =
      if i ∈ indexes then deltas i else [] := by
  induction indexes with
  | nil => rfl
  | cons j rest ih =>
    obtain ⟨hj, hrest⟩ := List.nodup_cons.1 hnodup
    have htail := ih hrest
    simp only [changesOf] at htail
    rw [changesOf, List.flatMap_cons, List.filter_append, List.map_append, htail]
    by_cases hi : i = j
    · subst hi
      simp [hj, List.filter_map, Function.comp_def]
    · simp [hi, Ne.symm hi, List.filter_map, Function.comp_def]

theorem reordered_changesOf (hperm : indexes.Perm indexes') (hnodup : indexes.Nodup)
    (hdeltas : ∀ i ∈ indexes, Delta.Shuffled (deltas i) (deltas' i))
    (hr : ∀ change ∈ changesOf indexes deltas, db.Receives change) :
    db.Reordered (changesOf indexes deltas) (changesOf indexes' deltas') := by
  have hchanges : (changesOf indexes deltas).Perm (changesOf indexes' deltas') :=
    (List.Perm.flatMap_left _ fun i hi => (hdeltas i hi).perm.map _).trans (hperm.flatMap_right _)
  refine ⟨hr, fun change hc => hr change (hchanges.mem_iff.2 hc), fun lexicon =>
    hchanges.flatMap_right _, fun i t r s q n => ?_⟩
  simp only [effectAt]
  cases db.indexes[i]? with
  | none => rfl
  | some ix =>
    dsimp only
    rw [filter_changesOf hnodup, filter_changesOf (hperm.nodup_iff.1 hnodup)]
    by_cases hi : i ∈ indexes
    · rw [if_pos hi, if_pos (hperm.mem_iff.1 hi), (hdeltas i hi).effect]
    · rw [if_neg hi, if_neg fun hi' => hi (hperm.mem_iff.2 hi')]

theorem changesOf_single (i : Nat) (ds : List Delta) :
    changesOf [i] (fun _ => ds) = ds.map (i, ·) := by
  simp [changesOf]

end Database

namespace HashOrder
open Database
variable (e e' : HashOrder) {db db' : Database} {i : Nat} {sources : List ObjectId}

theorem installSources_shuffled (h : db.WellFormed) {ix : Index} (hix : db.indexes[i]? = some ix)
    (hcheck : ∀ s ∈ sources, db.checkSource ix.range s = .ok ()) :
    ∃ deltas deltas', db.sourceDeltas ix.sources sources = .ok deltas ∧
      e.sourceDeltas db ix.sources sources = .ok deltas' ∧ Delta.Shuffled deltas deltas' ∧
      (∀ change ∈ deltas.map (i, ·), db.Receives change) ∧
      e.installSources db i sources =
        .ok ((db.carry (deltas'.map (i, ·))).setSourceList i sources) := by
  obtain ⟨deltas, deltas', hdeltas, hdeltas', hshuffled, -⟩ :=
    e.sourceDeltas_shuffled h (h.catalogued.source hix) hcheck
  refine ⟨deltas, deltas', hdeltas, hdeltas', hshuffled, (h.receives_sources (e := .ascending) hix hcheck hdeltas).1,
    ?_⟩
  refine bind_eq_ok.2 ⟨ix, index_eq_ok.2 hix, bind_eq_ok.2 ⟨(), forM_eq_ok.2 hcheck,
    bind_eq_ok.2 ⟨deltas', hdeltas', ?_⟩⟩⟩
  rw [applyDeltas_eq_carry]
  rfl

/-- Sources are refused in no order or in all, and given them in any order the databases differ by
a renaming of new ids. -/
theorem installSources_renamed (h : db.WellFormed) (i : Nat) (sources : List ObjectId) :
    (∃ err, e.installSources db i sources = .error err ∧
        e'.installSources db i sources = .error err) ∨
      ∃ db₁ db₂, e.installSources db i sources = .ok db₁ ∧
        e'.installSources db i sources = .ok db₂ ∧ db.RenamedSince db₁ db₂ ∧ db₁.Posted := by
  cases hix : db.index i with
  | error err =>
    have hfail (o : HashOrder) : o.installSources db i sources = .error err := by
      simp only [installSources, hix]
      rfl
    exact .inl ⟨err, hfail e, hfail e'⟩
  | ok ix =>
    cases hcheck : sources.forM (db.checkSource ix.range) with
    | error err =>
      have hfail (o : HashOrder) : o.installSources db i sources = .error err := by
        simp only [installSources, hix, bind, Except.bind, hcheck]
      exact .inl ⟨err, hfail e, hfail e'⟩
    | ok _ =>
      have hget := index_eq_ok.1 hix
      have hcheck := forM_eq_ok.1 hcheck
      obtain ⟨deltas, deltas₁, hdeltas, -, hshuffled₁, hreceives, hinstall₁⟩ :=
        e.installSources_shuffled h hget hcheck
      obtain ⟨deltas', deltas₂, hdeltas', -, hshuffled₂, -, hinstall₂⟩ :=
        e'.installSources_shuffled h hget hcheck
      obtain rfl := Except.ok.inj (hdeltas.symm.trans hdeltas')
      have hreceives₁ : ∀ change ∈ deltas₁.map (i, ·), db.Receives change := fun change hc =>
        hreceives change ((hshuffled₁.perm.map (i, ·)).mem_iff.2 hc)
      have hreordered := reordered_changesOf (.refl [i]) (List.nodup_singleton i)
        (fun _ _ => hshuffled₁.symm_trans hshuffled₂) (by rwa [changesOf_single])
      rw [changesOf_single, changesOf_single] at hreordered
      obtain ⟨σ, hrenamed, hmoved⟩ := h.renamedSince_carry hreordered
      obtain ⟨hwf₁, hfed₁⟩ := h.carry hreceives₁
      obtain ⟨ix₁, hix₁, -⟩ := hfed₁.index' hget
      refine .inr ⟨_, _, hinstall₁, hinstall₂, ⟨σ, hrenamed.setSourceList i sources, ?_⟩,
        hwf₁.posted_setSourceList hix₁ sources⟩
      rw [setSourceList_of_get hix₁]
      exact hmoved

theorem setSourceInfo_agree (h : db.WellFormed) (i : ObjectId) (sources : Buffer) :
    db.Agree (e.setSourceInfo db i sources) (e'.setSourceInfo db i sources) := by
  cases hids : sources.ids with
  | error err =>
    simp only [setSourceInfo, hids]
    exact .refl ..
  | ok ids =>
    have hcall (o : HashOrder) : o.setSourceInfo db i sources =
        db.attempt (return ((), ← o.installSources db i ids)) := by
      simp only [setSourceInfo, hids]
      rfl
    rcases e.installSources_renamed e' h i ids with
      ⟨err, hinstall, hinstall'⟩ | ⟨db₁, db₂, hinstall, hinstall', hrenamed, hposted⟩
    · rw [hcall, hcall, hinstall, hinstall']
      exact .refl ..
    · rw [hcall, hcall, hinstall, hinstall']
      exact hrenamed.agree rfl hposted.neat

theorem installSources_claimName (db : Database) (i : Nat) (sources : List ObjectId)
    (name : String) (id : Nat) : e.installSources (db.claimName name id) i sources =
      (e.installSources db i sources).map (·.claimName name id) := by
  have hsame : e.installSources (db.claimName name id) i sources = (do
      let ix ← db.index i
      sources.forM (db.checkSource ix.range)
      let deltas ← e.sourceDeltas db ix.sources sources
      return ((db.claimName name id).applyDeltas i deltas).setSourceList i sources) := rfl
  rw [hsame]
  change _ = (·.claimName name id) <$> e.installSources db i sources
  simp only [installSources, map_bind, map_pure, applyDeltas_claimName, setSourceList_claimName]

/-- A planned index is given its sources, and after that its name, or refused with them. -/
theorem defineIndex_cases {lexicon range : ObjectId} {name : String} {config : IndexConfig}
    {plan : IndexPlan} (hplan : db.planIndex lexicon name range config = .ok plan) :
    ∃ refused : Database, ∀ o : HashOrder,
      (∃ fed, o.installSources (db.enterIndex lexicon range config.flags plan) db.nextId
          plan.sources = .ok fed ∧ o.defineIndex db lexicon name range config =
            (.ok db.nextId, fed.claimName plan.fullName db.nextId)) ∨
        ∃ err, o.installSources (db.enterIndex lexicon range config.flags plan) db.nextId
          plan.sources = .error err ∧
            o.defineIndex db lexicon name range config = (.error err, refused) := by
  let made := db.enterIndex lexicon range config.flags plan
  refine ⟨{ made with
    objects := made.objects.erase db.nextId
    indexes := made.indexes.erase db.nextId }, fun o => ?_⟩
  unfold defineIndex
  rw [hplan]
  dsimp only
  split
  · exact .inl ⟨_, ‹_›, rfl⟩
  · exact .inr ⟨_, ‹_›, rfl⟩

theorem defineIndex_agree (h : db.WellFormed) (lexicon : ObjectId) (name : String)
    (range : ObjectId) (config : IndexConfig) :
    db.Agree (e.defineIndex db lexicon name range config)
      (e'.defineIndex db lexicon name range config) := by
  cases hplan : db.planIndex lexicon name range config with
  | error err =>
    simp only [defineIndex, hplan]
    exact .refl ..
  | ok plan =>
    have hmade := (h.made_index hplan).wellFormed h
    obtain ⟨refused, hdefine⟩ := defineIndex_cases hplan
    have hrenamed := e.installSources_renamed e' hmade db.nextId plan.sources
    rw [installSources_claimName, installSources_claimName] at hrenamed
    rcases hdefine e with ⟨fed, hfed, hcall⟩ | ⟨err, herr, hcall⟩ <;>
      rcases hdefine e' with ⟨fed', hfed', hcall'⟩ | ⟨err', herr', hcall'⟩
    · rw [hfed, hfed'] at hrenamed
      rcases hrenamed with ⟨err, hbad, -⟩ | ⟨db₁, db₂, h₁, h₂, hrenamed, hposted⟩
      · cases hbad
      · cases h₁
        cases h₂
        rw [hcall, hcall']
        have hrenamed : db.RenamedSince (fed.claimName plan.fullName db.nextId)
            (fed'.claimName plan.fullName db.nextId) := hrenamed
        exact hrenamed.agree rfl hposted.neat
    · rw [hfed, herr'] at hrenamed
      rcases hrenamed with ⟨err, hbad, -⟩ | ⟨db₁, db₂, -, hbad, -⟩ <;> cases hbad
    · rw [herr, hfed'] at hrenamed
      rcases hrenamed with ⟨err, -, hbad⟩ | ⟨db₁, db₂, hbad, -⟩ <;> cases hbad
    · rw [hcall, hcall']
      exact .of_refusal ..

end HashOrder
end Concordance
