import Concordance.Proofs.Entering

/-! # Defining tables and columns

Every call that makes an object keeps a database well-formed and its counts at the texts. An index
is entered without sources and then given them; if these are refused only its id is lost.
-/
namespace Concordance.Database
variable {db db' : Database} {lexicon range : Nat}

theorem names_of_checkNewName {name : String} (h : db.checkNewName name = .ok ()) :
    db.names[name]? = none := by
  unfold checkNewName at h
  split at h
  · cases h
  · split at h
    · cases h
    · rename_i hnot
      rw [Std.ExtTreeMap.contains_eq_isSome_getElem?, Option.not_isSome_iff_eq_none] at hnot
      exact hnot

theorem WellFormed.createTable_cases (h : db.WellFormed) {name : Option String}
    {config : TableConfig} {outcome : Except Error ObjectId}
    (hcall : db.createTable name config = (outcome, db')) :
    (∃ e, outcome = .error e) ∧ db' = db ∨ outcome = .ok db.nextId ∧ db.Made db' := by
  rcases attempt_inv hcall with ⟨id, hok, houtcome⟩ | ⟨e, -, houtcome, heq⟩
  · right
    obtain ⟨_, hvalid, hok⟩ := bind_eq_ok.1 hok
    have hmade : id = db.nextId ∧
        db' = db.enter name (.table config.kind config.keyType config.tokenizer)
          (db.tables.insert db.nextId (.empty config.kind)) db.columns db.indexes ∧
        ∀ n, name = some n → db.names[n]? = none := by
      cases name with
      | none =>
        cases hok
        exact ⟨rfl, rfl, fun n hn => by cases hn⟩
      | some name =>
        obtain ⟨_, hname, hok⟩ := bind_eq_ok.1 hok
        cases hok
        refine ⟨rfl, rfl, fun n hn => ?_⟩
        cases hn
        exact names_of_checkNewName hname
    obtain ⟨rfl, rfl, hname⟩ := hmade
    have hf : Fresh db (.table config.kind config.keyType config.tokenizer)
        (some (.empty config.kind)) none none := .table hvalid
    have he := entered_enter name (.table config.kind config.keyType config.tokenizer)
      (fun id => FiniteMap.getElem?_insert db.tables db.nextId id (.empty config.kind))
      (FiniteMap.getElem?_of_none (h.catalogued.no_column (Nat.le_refl _)))
      (FiniteMap.getElem?_of_none (h.catalogued.no_index (Nat.le_refl _)))
    exact ⟨houtcome, _, _, _, _, _, he, hf, hname⟩
  · exact .inl ⟨⟨e, houtcome⟩, heq⟩

/-- A table starts empty. -/
theorem WellFormed.createTable (h : db.WellFormed) {name : Option String} {config : TableConfig}
    {outcome : Except Error ObjectId} (hcall : db.createTable name config = (outcome, db')) :
    db'.WellFormed ∧ Follows (fun _ _ => True) db db' := by
  rcases h.createTable_cases hcall with ⟨-, rfl⟩ | ⟨-, hmade⟩
  · exact ⟨h, .refl _⟩
  · exact ⟨hmade.wellFormed h, hmade.follows h⟩

theorem columnName_eq_ok {table : Nat} {name fullName : String}
    (h : db.columnName table name = .ok fullName) :
    ∃ kind keyType tokenizer, db.kind? table = some (.table kind keyType tokenizer) := by
  unfold columnName at h
  split at h
  · cases h
  · split at h
    · rename_i info hinfo
      split at h
      · rename_i htable
        obtain ⟨id, name, kind⟩ := info
        cases kind with
        | table kind keyType tokenizer =>
          exact ⟨kind, keyType, tokenizer, kind?_of_get hinfo⟩
        | _ => cases htable
      · cases h
    · cases h

theorem WellFormed.defineColumn_cases (h : db.WellFormed) {table : Nat} {name : String}
    {valueType : DataType} {outcome : Except Error ObjectId}
    (hcall : db.defineColumn table name valueType = (outcome, db')) :
    (∃ e, outcome = .error e) ∧ db' = db ∨ outcome = .ok db.nextId ∧ db.Made db' := by
  rcases attempt_inv hcall with ⟨id, hok, houtcome⟩ | ⟨e, -, houtcome, heq⟩
  · right
    obtain ⟨fullName, hfull, hok⟩ := bind_eq_ok.1 hok
    obtain ⟨_, hname, hok⟩ := bind_eq_ok.1 hok
    obtain ⟨kind, keyType, tokenizer, hkind⟩ := columnName_eq_ok hfull
    obtain ⟨⟨t, ht⟩, -⟩ := h.catalogued.tableData hkind
    obtain ⟨rfl, rfl⟩ : id = db.nextId ∧
        db' = db.enter (some fullName) (.column table valueType) db.tables
          (db.columns.insert db.nextId ∅) db.indexes := by
      cases hok
      exact ⟨rfl, rfl⟩
    have hf : Fresh db (.column table valueType) none (some ∅) none := .column ht
    have he := entered_enter (some fullName) (.column table valueType)
      (FiniteMap.getElem?_of_none (h.catalogued.no_table (Nat.le_refl _)))
      (fun id => FiniteMap.getElem?_insert db.columns db.nextId id ∅)
      (FiniteMap.getElem?_of_none (h.catalogued.no_index (Nat.le_refl _)))
    refine ⟨houtcome, _, _, _, _, _, he, hf, fun n hn => ?_⟩
    cases hn
    exact names_of_checkNewName hname
  · exact .inl ⟨⟨e, houtcome⟩, heq⟩

/-- A value column starts without values. -/
theorem WellFormed.defineColumn (h : db.WellFormed) {table : Nat} {name : String}
    {valueType : DataType} {outcome : Except Error ObjectId}
    (hcall : db.defineColumn table name valueType = (outcome, db')) :
    db'.WellFormed ∧ Follows (fun _ _ => True) db db' := by
  rcases h.defineColumn_cases hcall with ⟨-, rfl⟩ | ⟨-, hmade⟩
  · exact ⟨h, .refl _⟩
  · exact ⟨hmade.wellFormed h, hmade.follows h⟩

/-! ## Indexes -/

theorem planIndex_eq_ok {name : String} {config : IndexConfig} {plan : IndexPlan}
    (h : db.planIndex lexicon name range config = .ok plan) :
    db.names[plan.fullName]? = none ∧ db.lexiconTokenizer lexicon = .ok plan.tokenizer ∧
      ∃ t, db.tables[range]? = some t := by
  obtain ⟨fullName, -, h⟩ := bind_eq_ok.1 h
  obtain ⟨_, hname, h⟩ := bind_eq_ok.1 h
  obtain ⟨sources, -, h⟩ := bind_eq_ok.1 h
  obtain ⟨tokenizer, htokenizer, h⟩ := bind_eq_ok.1 h
  cases ht : db.tables[range]? with
  | none =>
    simp only [Std.ExtTreeMap.contains_eq_isSome_getElem?, ht] at h
    cases h
  | some t =>
    simp only [Std.ExtTreeMap.contains_eq_isSome_getElem?, ht] at h
    cases h
    exact ⟨names_of_checkNewName hname, htokenizer, t, rfl⟩

/-! Sources are installed before the index gets its name, which makes no difference. -/

theorem applyDelta_claimName (db : Database) (name : String) (id i : Nat) (delta : Delta) :
    (db.claimName name id).applyDelta i delta = (db.applyDelta i delta).claimName name id := by
  simp only [applyDelta, claimName]
  cases db.indexes[i]? with
  | none => rfl
  | some ix =>
    dsimp only
    cases db.tables[ix.lexicon]? <;> rfl

theorem applyDeltas_claimName (db : Database) (name : String) (id i : Nat) (deltas : List Delta) :
    (db.claimName name id).applyDeltas i deltas =
      (db.applyDeltas i deltas).claimName name id := by
  induction deltas generalizing db with
  | nil => rfl
  | cons delta rest ih =>
    simp only [applyDeltas, List.foldl_cons] at ih ⊢
    rw [applyDelta_claimName, ih]

theorem setSourceList_claimName (db : Database) (name : String) (id i : Nat)
    (sources : List ObjectId) : (db.claimName name id).setSourceList i sources =
      (db.setSourceList i sources).claimName name id := by
  simp only [setSourceList, claimName]
  cases db.indexes[i]? <;> rfl

theorem installSources_claimName {e : HashOrder} {i : Nat} {sources : List ObjectId}
    (h : e.installSources db i sources = .ok db') (name : String) (id : Nat) :
    e.installSources (db.claimName name id) i sources = .ok (db'.claimName name id) := by
  obtain ⟨ix, deltas, hix, hcheck, hdeltas, rfl⟩ := installSources_eq_ok h
  refine bind_eq_ok.2 ⟨ix, index_eq_ok.2 hix, bind_eq_ok.2 ⟨(), forM_eq_ok.2 hcheck,
    bind_eq_ok.2 ⟨deltas, hdeltas, ?_⟩⟩⟩
  rw [applyDeltas_claimName, setSourceList_claimName]
  rfl

theorem WellFormed.skipId (h : db.WellFormed) :
    ({ db with nextId := db.nextId + 1 } : Database).WellFormed where
  catalogued := { h.catalogued with
    id_lt := fun hid => Nat.lt_succ_of_lt (h.catalogued.id_lt hid)
    next_le := Nat.le_succ_of_le h.catalogued.next_le }
  filled := ⟨h.filled.sound, h.filled.value⟩
  posted := ⟨h.posted.neat, h.posted.matched, h.posted.live⟩
  named := ⟨h.named.name_iff⟩

/-- The database with the index of a plan entered, still without a name and sources. -/
def enterIndex (db : Database) (lexicon range : ObjectId) (flags : IndexFlags) (plan : IndexPlan) :
    Database :=
  { db.addObject (some plan.fullName) (.index lexicon range flags) with
    indexes := db.indexes.insert db.nextId ⟨lexicon, range, flags, plan.tokenizer, [], .empty⟩ }

theorem WellFormed.made_index (h : db.WellFormed) {name : String} {config : IndexConfig}
    {plan : IndexPlan} (hplan : db.planIndex lexicon name range config = .ok plan) :
    db.Made ((db.enterIndex lexicon range config.flags plan).claimName plan.fullName db.nextId) := by
  obtain ⟨hname, htokenizer, t, ht⟩ := planIndex_eq_ok hplan
  have hf : Fresh db (.index lexicon range config.flags) none none
      (some ⟨lexicon, range, config.flags, plan.tokenizer, [], .empty⟩) :=
    .index htokenizer ht
  have he := entered_enter (some plan.fullName) (.index lexicon range config.flags)
    (FiniteMap.getElem?_of_none (h.catalogued.no_table (Nat.le_refl _)))
    (FiniteMap.getElem?_of_none (h.catalogued.no_column (Nat.le_refl _)))
    (fun id => FiniteMap.getElem?_insert db.indexes db.nextId id
      ⟨lexicon, range, config.flags, plan.tokenizer, [], .empty⟩)
  refine ⟨_, _, _, _, _, he, hf, fun n hn => ?_⟩
  cases hn
  exact hname

/-- An index is refused before anything has changed, or its sources are refused when it has been
entered, which costs an id; or it is entered without sources and then given them. -/
theorem WellFormed.defineIndex_cases (h : db.WellFormed) {e : HashOrder} {name : String}
    {config : IndexConfig} {outcome : Except Error ObjectId}
    (hcall : e.defineIndex db lexicon name range config = (outcome, db')) :
    (∃ err, outcome = .error err ∧ db.planIndex lexicon name range config = .error err ∧
        db' = db) ∨
      ∃ plan, db.planIndex lexicon name range config = .ok plan ∧
        ((∃ err, outcome = .error err ∧ db' = { db with nextId := db.nextId + 1 }) ∨
          outcome = .ok db.nextId ∧ ∃ made : Database, db.Made made ∧ made.tables = db.tables ∧
            e.installSources made db.nextId plan.sources = .ok db') := by
  unfold HashOrder.defineIndex at hcall
  cases hplan : db.planIndex lexicon name range config with
  | error err =>
    rw [hplan] at hcall
    cases hcall
    exact .inl ⟨err, rfl, rfl, rfl⟩
  | ok plan =>
    right
    refine ⟨plan, rfl, ?_⟩
    rw [hplan] at hcall
    dsimp only at hcall
    split at hcall
    · right
      rename_i fed hfed
      cases hcall
      exact ⟨rfl, _, h.made_index hplan, rfl,
        installSources_claimName hfed plan.fullName db.nextId⟩
    · left
      cases hcall
      have hobjects := FiniteMap.erase_insert (h.catalogued.no_object (Nat.le_refl db.nextId))
        ⟨db.nextId, some plan.fullName, .index lexicon range config.flags⟩
      have hindexes := FiniteMap.erase_insert (h.catalogued.no_index (Nat.le_refl db.nextId))
        ⟨lexicon, range, config.flags, plan.tokenizer, [], .empty⟩
      refine ⟨_, rfl, ?_⟩
      simp only [addObject, hobjects, hindexes]

/-- An index is entered without sources, and what its sources hold is fed to it. -/
theorem WellFormed.defineIndex (h : db.WellFormed) {e : HashOrder} {name : String}
    {config : IndexConfig} {outcome : Except Error ObjectId}
    (hcall : e.defineIndex db lexicon name range config = (outcome, db')) :
    db'.WellFormed ∧ Follows (db'.Settled db.GivenOut) db db' := by
  rcases h.defineIndex_cases hcall with ⟨err, -, -, rfl⟩ |
    ⟨plan, -, ⟨err, -, rfl⟩ | ⟨-, made, hmade, htables, hinstall⟩⟩
  · exact ⟨h, .refl _⟩
  · exact ⟨h.skipId, .of_stored (fun _ _ _ _ _ => rfl) (fun _ _ _ _ _ => Nat.le_refl _)
      fun _ _ _ _ _ _ => rfl⟩
  · obtain ⟨hwf, -, hfollows⟩ := (hmade.wellFormed h).installSources hinstall
    refine ⟨hwf, ((hmade.follows h).trans hfollows).imp fun _ _ hsettled => ⟨trivial, ?_⟩⟩
    refine hsettled.imp fun _ hold t ht => hold t ?_
    rwa [← htables]

end Concordance.Database
