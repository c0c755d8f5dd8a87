import Concordance.Database.Remove
import Concordance.Proofs.Rewiring

/-! # Removing objects

What goes with an object is closed: no column, index or source that stays refers to it. So taking it
all away keeps a database well-formed, and the indexes that stay keep their counts.
-/
namespace Concordance.Database
variable {db db' : Database} {gone : List ObjectId}

/-! ## Detaching -/

/-- Indexes have lost sources that go, and nothing else of the catalog has changed. -/
structure Detached (db db' : Database) (gone : List ObjectId) : Prop where
  same : db.SameCatalog db'
  givenOut : ∀ {table record : Nat}, db.GivenOut table record → db'.GivenOut table record
  index : ∀ {i : Nat} {ix}, db'.indexes[i]? = some ix →
    ∃ jx, db.indexes[i]? = some jx ∧ jx.lexicon = ix.lexicon ∧
      (∀ s ∈ ix.sources, s ∈ jx.sources) ∧ ∀ s ∈ jx.sources, s ∉ gone → s ∈ ix.sources

theorem Detached.refl (db : Database) (gone : List ObjectId) : db.Detached db gone :=
  ⟨.refl db, fun hold => hold, fun hix => ⟨_, hix, rfl, fun _ hs => hs, fun _ hs _ => hs⟩⟩

theorem Detached.trans {db'' : Database} (h : db.Detached db' gone)
    (h' : db'.Detached db'' gone) : db.Detached db'' gone where
  same := h.same.trans h'.same
  givenOut hold := h'.givenOut (h.givenOut hold)
  index hix := by
    obtain ⟨jx, hjx, hlexicon, hsources, hkept⟩ := h'.index hix
    obtain ⟨kx, hkx, hlexicon', hsources', hkept'⟩ := h.index hjx
    exact ⟨kx, hkx, hlexicon'.trans hlexicon, fun s hs => hsources' s (hsources s hs),
      fun s hs hnot => hkept s (hkept' s hs hnot) hnot⟩

theorem Rewired.detached {i : Nat} {sources : List ObjectId} (h : db.Rewired db' i sources)
    (hsources : ∀ ix, db.indexes[i]? = some ix →
      (∀ s ∈ sources, s ∈ ix.sources) ∧ ∀ s ∈ ix.sources, s ∉ gone → s ∈ sources) :
    db.Detached db' gone where
  same := h.same
  givenOut := h.givenOut
  index {j jx} hjx := by
    obtain ⟨kx, hkx, hlexicon, -⟩ := h.same.index hjx
    have hmap := h.sources j
    rw [hjx, hkx, Option.map_some, Option.map_some] at hmap
    split at hmap
    · rename_i hj
      obtain ⟨hsub, hkept⟩ := hsources kx (hj ▸ hkx)
      rw [Option.some.inj hmap]
      exact ⟨kx, hkx, hlexicon, hsub, hkept⟩
    · rw [Option.some.inj hmap]
      exact ⟨kx, hkx, hlexicon, fun _ hs => hs, fun _ hs _ => hs⟩

theorem Detached.settled {known : Nat → Nat → Prop} {i record : Nat} (hd : db.Detached db' gone)
    (h : db.Settled known i record) : db'.Settled known i record := by
  intro ix hix s hs u hu
  obtain ⟨jx, hjx, -, hsources, -⟩ := hd.index hix
  obtain ⟨t, ht, -⟩ := hd.same.table hu
  refine (h jx hjx s (hsources s hs) t ht).imp_left fun hnot k kx hkx => ?_
  obtain ⟨lx, hlx, hlexicon, -⟩ := hd.index hkx
  exact hlexicon ▸ hnot k lx hlx

/-- Sources that go can always be taken out of indexes. -/
theorem WellFormed.detach (h : db.WellFormed) (e : HashOrder) (gone : List ObjectId)
    {list : List ObjectId} (hlist : ∀ i ∈ list, ∃ ix, db.indexes[i]? = some ix) :
    ∃ db', e.detach db gone list = (.ok (), db') ∧ db'.WellFormed ∧ db.Detached db' gone ∧
      Follows (db.Settled db.GivenOut) db db' ∧
        ∀ i ∈ list, ∀ ix, db'.indexes[i]? = some ix → ∀ s ∈ ix.sources, s ∉ gone := by
  induction list generalizing db with
  | nil => exact ⟨db, rfl, h, .refl _ _, .refl _, fun i hi => by cases hi⟩
  | cons i rest ih =>
    obtain ⟨ix, hix⟩ := hlist i (List.mem_cons_self ..)
    have hcheck : ∀ s ∈ ix.sources.filter (!gone.contains ·),
        db.checkSource ix.range s = .ok () := fun s hs =>
      h.catalogued.source hix s (List.mem_filter.1 hs).1
    obtain ⟨db₁, hinstall⟩ := h.installSources_of_check e hix hcheck
    obtain ⟨hwf₁, hrewired, hfollows₁⟩ := h.installSources hinstall
    have hdetached₁ : db.Detached db₁ gone := by
      refine hrewired.detached fun jx hjx => ?_
      obtain rfl := Option.some.inj (hix.symm.trans hjx)
      exact ⟨fun s hs => (List.mem_filter.1 hs).1,
        fun s hs hnot => List.mem_filter.2 ⟨hs, by simpa using hnot⟩⟩
    -- The rest is detached in the database that the first index leaves.
    have hlist₁ : ∀ j ∈ rest, ∃ jx, db₁.indexes[j]? = some jx := by
      intro j hj
      obtain ⟨jx, hjx⟩ := hlist j (List.mem_cons_of_mem _ hj)
      obtain ⟨kx, hkx, -⟩ := hdetached₁.same.symm.index hjx
      exact ⟨kx, hkx⟩
    obtain ⟨db', hcall, hwf, hdetached, hfollows, hgone⟩ := ih hwf₁ hlist₁
    refine ⟨db', ?_, hwf, hdetached₁.trans hdetached, ?_, ?_⟩
    · simp only [HashOrder.detach, hix, Option.map_some, Option.getD_some, hinstall]
      exact hcall
    · refine (hfollows₁.trans hfollows).imp fun _ _ hsettled => ?_
      have hsettled₁ := hdetached₁.settled hsettled
      exact ⟨hsettled₁, hsettled₁.imp fun _ => hdetached₁.givenOut⟩
    · intro j hj jx hjx s hs
      rcases List.mem_cons.1 hj with rfl | hj
      · obtain ⟨kx, hkx, -, hsources, -⟩ := hdetached.index hjx
        have hmap := hrewired.sources j
        rw [hkx, if_pos rfl, Option.map_some, Option.some.injEq] at hmap
        have hmem := hsources s hs
        rw [hmap] at hmem
        simpa using (List.mem_filter.1 hmem).2
      · exact hgone j hj jx hjx s hs

/-! ## Dropping -/

/-- Nothing that stays refers to what goes. -/
structure Closed (db : Database) (gone : List ObjectId) : Prop where
  user : ∀ {id : Nat} {t}, db.kind? id = some (.type t) → id ∉ gone
  column : ∀ {id table : Nat} {valueType}, db.kind? id = some (.column table valueType) →
    id ∉ gone → table ∉ gone
  index : ∀ {id : Nat} {ix}, db.indexes[id]? = some ix → id ∉ gone →
    ix.lexicon ∉ gone ∧ ix.range ∉ gone ∧ ∀ s ∈ ix.sources, s ∉ gone

/-- Objects have been taken away with their data. -/
structure Dropped (db db' : Database) (gone : List ObjectId) : Prop where
  objects : ∀ id : Nat, db'.objects[id]? = if id ∈ gone then none else db.objects[id]?
  tables : ∀ id : Nat, db'.tables[id]? = if id ∈ gone then none else db.tables[id]?
  columns : ∀ id : Nat, db'.columns[id]? = if id ∈ gone then none else db.columns[id]?
  indexes : ∀ id : Nat, db'.indexes[id]? = if id ∈ gone then none else db.indexes[id]?
  nextId : db'.nextId = db.nextId

theorem dropped_foldl (db : Database) (gone : List ObjectId) :
    Dropped db (gone.foldl drop db) gone := by
  induction gone generalizing db with
  | nil => constructor <;> simp
  | cons id rest ih =>
    have h := ih (db.drop id)
    constructor
    · intro i
      rw [List.foldl_cons, h.objects]
      simp only [drop, FiniteMap.getElem?_erase, List.mem_cons]
      by_cases hi : i = id <;> simp [hi]
    · intro i
      rw [List.foldl_cons, h.tables]
      simp only [drop, FiniteMap.getElem?_erase, List.mem_cons]
      by_cases hi : i = id <;> simp [hi]
    · intro i
      rw [List.foldl_cons, h.columns]
      simp only [drop, FiniteMap.getElem?_erase, List.mem_cons]
      by_cases hi : i = id <;> simp [hi]
    · intro i
      rw [List.foldl_cons, h.indexes]
      simp only [drop, FiniteMap.getElem?_erase, List.mem_cons]
      by_cases hi : i = id <;> simp [hi]
    · exact h.nextId

/-- The name of an object goes with it. -/
theorem Named.drop (h : db.Named) (id : ObjectId) : (db.drop id).Named where
  name_iff {n i} := by
    have hnames : (db.drop id).names[n]? =
        if (∃ info, db.objects[id]? = some info ∧ info.name = some n) then none
        else db.names[n]? := by
      simp only [Database.drop, object?]
      cases hobj : db.objects[id]? with
      | none => simp
      | some info =>
        obtain ⟨oid, name, kind⟩ := info
        cases name with
        | none => simp
        | some m => simp [eq_comm]
    have hobjects : (db.drop id).objects[i]? = if i = id then none else db.objects[i]? := by
      simp [Database.drop]
    rw [hnames, hobjects]
    by_cases hi : i = id
    · subst hi
      rw [if_pos rfl]
      split
      · simp
      · rename_i hnot
        simpa using fun hn => hnot (h.name_iff.1 hn)
    · rw [if_neg hi]
      split
      · rename_i hid
        have hnot : ¬ ∃ info, db.objects[i]? = some info ∧ info.name = some n := by
          intro hex
          have heq := (h.name_iff.2 hex).symm.trans (h.name_iff.2 hid)
          cases heq
          exact hi rfl
        simpa using hnot
      · exact h.name_iff

theorem Named.foldl_drop (h : db.Named) (gone : List ObjectId) :
    (gone.foldl Database.drop db).Named := by
  induction gone generalizing db with
  | nil => exact h
  | cons id rest ih => exact ih (h.drop id)

theorem Dropped.kind? (hd : Dropped db db' gone) (id : Nat) :
    db'.kind? id = if id ∈ gone then none else db.kind? id := by
  simp only [Database.kind?, hd.objects]
  split <;> rfl

theorem Dropped.kind_kept (hd : Dropped db db' gone) {id : Nat} {kind : ObjectKind}
    (hkind : db'.kind? id = some kind) : id ∉ gone ∧ db.kind? id = some kind := by
  rw [hd.kind?] at hkind
  split at hkind
  · cases hkind
  · exact ⟨‹_›, hkind⟩

theorem Dropped.kind_of (hd : Dropped db db' gone) {id : Nat} {kind : ObjectKind}
    (hid : id ∉ gone) (hkind : db.kind? id = some kind) : db'.kind? id = some kind := by
  rw [hd.kind?, if_neg hid, hkind]

theorem Dropped.index_kept (hd : Dropped db db' gone) {id : Nat} {ix : Index}
    (hix : db'.indexes[id]? = some ix) : id ∉ gone ∧ db.indexes[id]? = some ix := by
  rw [hd.indexes] at hix
  split at hix
  · cases hix
  · exact ⟨‹_›, hix⟩

theorem Dropped.table_of (hd : Dropped db db' gone) {id : Nat} {t : Table}
    (hid : id ∉ gone) (ht : db.tables[id]? = some t) : db'.tables[id]? = some t := by
  rw [hd.tables, if_neg hid, ht]

theorem Dropped.isLive (hd : Dropped db db' gone) {id : Nat} (hid : id ∉ gone) (record : Nat) :
    db'.isLive id record = db.isLive id record := by
  simp only [Database.isLive, hd.tables, if_neg hid]

theorem Dropped.catalogued (hd : Dropped db db' gone) (h : db.Catalogued) (hc : db.Closed gone) :
    db'.Catalogued where
  id_eq {id info} hid := by
    rw [hd.objects] at hid
    split at hid
    · cases hid
    · exact h.id_eq hid
  id_lt {id info} hid := by
    rw [hd.objects] at hid
    rw [hd.nextId]
    split at hid
    · cases hid
    · exact h.id_lt hid
  user_le {id info} hid htype := by
    rw [hd.objects] at hid
    split at hid
    · cases hid
    · exact h.user_le hid htype
  next_le := by
    rw [hd.nextId]
    exact h.next_le
  builtIn t := by
    have hkept := hc.user (kind?_of_get (h.builtIn t))
    rw [hd.objects, if_neg hkept]
    exact h.builtIn t
  type_eq hkind := h.type_eq (hd.kind_kept hkind).2
  table {id t} ht := by
    rw [hd.tables] at ht
    split at ht
    · cases ht
    · obtain ⟨keyType, tokenizer, hkind⟩ := h.table ht
      exact ⟨keyType, tokenizer, hd.kind_of ‹_› hkind⟩
  tableData hkind := by
    obtain ⟨hid, hkind⟩ := hd.kind_kept hkind
    obtain ⟨⟨t, ht⟩, hvalid⟩ := h.tableData hkind
    exact ⟨⟨t, hd.table_of hid ht⟩, hvalid⟩
  column {id values} hvalues := by
    rw [hd.columns] at hvalues
    split at hvalues
    · cases hvalues
    · obtain ⟨owner, valueType, hkind⟩ := h.column hvalues
      exact ⟨owner, valueType, hd.kind_of ‹_› hkind⟩
  columnData hkind := by
    obtain ⟨hid, hkind⟩ := hd.kind_kept hkind
    obtain ⟨⟨values, hvalues⟩, t, ht⟩ := h.columnData hkind
    exact ⟨⟨values, by rw [hd.columns, if_neg hid, hvalues]⟩, t,
      hd.table_of (hc.column hkind hid) ht⟩
  index hix := by
    obtain ⟨hid, hix⟩ := hd.index_kept hix
    exact hd.kind_of hid (h.index hix)
  indexData hkind := by
    obtain ⟨hid, hkind⟩ := hd.kind_kept hkind
    obtain ⟨ix, hix⟩ := h.indexData hkind
    exact ⟨ix, by rw [hd.indexes, if_neg hid, hix]⟩
  lexicon hix := by
    obtain ⟨hid, hix⟩ := hd.index_kept hix
    exact lexiconTokenizer_of_kind (hd.kind_of (hc.index hix hid).1) (h.lexicon hix)
  range hix := by
    obtain ⟨hid, hix⟩ := hd.index_kept hix
    obtain ⟨t, ht⟩ := h.range hix
    exact ⟨t, hd.table_of (hc.index hix hid).2.1 ht⟩
  source hix s hs := by
    obtain ⟨hid, hix⟩ := hd.index_kept hix
    exact checkSource_of_kind (hd.kind_of ((hc.index hix hid).2.2 s hs)) (h.source hix s hs)

theorem Dropped.wellFormed (hd : Dropped db db' gone) (h : db.WellFormed) (hc : db.Closed gone)
    (hn : db'.Named) : db'.WellFormed where
  catalogued := hd.catalogued h.catalogued hc
  filled := by
    constructor
    · intro id t ht
      rw [hd.tables] at ht
      split at ht
      · cases ht
      · exact h.filled.sound ht
    · intro column record v hv
      obtain ⟨values, hvalues, hget⟩ := value?_eq_some.1 hv
      rw [hd.columns] at hvalues
      split at hvalues
      · cases hvalues
      · rename_i hid
        obtain ⟨owner, valueType, hkind, hr, hv⟩ :=
          h.filled.value (value?_eq_some.2 ⟨values, hvalues, hget⟩)
        exact ⟨owner, valueType, hd.kind_of hid hkind,
          by rwa [hd.isLive (hc.column hkind hid)], hv⟩
  posted := by
    constructor
    · intro i ix hix
      exact h.posted.neat (hd.index_kept hix).2
    · intro i ix lexicon hix hlex
      obtain ⟨hid, hix⟩ := hd.index_kept hix
      rw [hd.tables, if_neg (hc.index hix hid).1] at hlex
      exact h.posted.matched hix hlex
    · intro i ix hix term record sec position hq
      obtain ⟨hid, hix⟩ := hd.index_kept hix
      rw [hd.isLive (hc.index hix hid).2.1]
      exact h.posted.live hix hq
  named := hn

/-- The indexes that stay keep their postings and their texts. -/
theorem Dropped.follows (hd : Dropped db db' gone) (hc : db.Closed gone) :
    Follows (fun _ _ => True) db db' := by
  intro i t r s q
  simp only [storedAt, producedAt, yieldAt]
  cases hix : db'.indexes[i]? with
  | none => exact ⟨fun _ => 0, fun _ _ _ => Nat.le_refl _, rfl, Nat.le_refl _, fun _ => rfl⟩
  | some ix =>
    obtain ⟨hid, hix⟩ := hd.index_kept hix
    obtain ⟨hlexicon, -, hsources⟩ := hc.index hix hid
    have hyield : ix.yield db.textsOf (ix.sources.zipIdx 1) t r s q =
        ix.yield db'.textsOf (ix.sources.zipIdx 1) t r s q := by
      refine Index.yield_congr (fun place hp => ?_) t s q
      have hkept := hsources place.1 (List.fst_mem_of_mem_zipIdx hp)
      simp only [textsOf, recordKey?, hd.columns, hd.tables, if_neg hkept]
    simp only [hix, hyield]
    refine ⟨id, fun _ _ hmn => hmn, ?_, Nat.le_refl _, fun _ => rfl⟩
    simp only [stored, recordId?, hd.tables, if_neg hlexicon]
    rfl

/-! ## What goes with an object -/

theorem mem_dependents {table id : Nat} : id ∈ db.dependents table ↔
    (∃ valueType, db.kind? id = some (.column table valueType)) ∨
      ∃ range flags, db.kind? id = some (.index table range flags) := by
  simp only [dependents, List.mem_map, List.mem_filter, kind?]
  constructor
  · rintro ⟨⟨i, info⟩, ⟨hmem, hdep⟩, rfl⟩
    have hget := Std.ExtTreeMap.mem_toList_iff_getElem?_eq_some.1 hmem
    obtain ⟨oid, name, kind⟩ := info
    dsimp only at hget ⊢
    cases kind with
    | column owner valueType =>
      obtain rfl : owner = table := by simpa [dependsOn] using hdep
      exact .inl ⟨valueType, by rw [hget]; rfl⟩
    | index lexicon range flags =>
      obtain rfl : lexicon = table := by simpa [dependsOn] using hdep
      exact .inr ⟨range, flags, by rw [hget]; rfl⟩
    | _ => simp [dependsOn] at hdep
  · intro hkind
    obtain ⟨info, hget, hdep⟩ : ∃ info, db.objects[id]? = some info ∧
        dependsOn table info = true := by
      rcases hkind with ⟨valueType, hkind⟩ | ⟨range, flags, hkind⟩
      · obtain ⟨info, hget, hinfo⟩ := Option.map_eq_some_iff.1 hkind
        exact ⟨info, hget, by simp [dependsOn, hinfo]⟩
      · obtain ⟨info, hget, hinfo⟩ := Option.map_eq_some_iff.1 hkind
        exact ⟨info, hget, by simp [dependsOn, hinfo]⟩
    exact ⟨(id, info), ⟨Std.ExtTreeMap.mem_toList_iff_getElem?_eq_some.2 hget, hdep⟩, rfl⟩

/-- Every index over the table has it for its lexicon as well. -/
theorem indexOver?_eq_none {table : Nat} : db.indexOver? table = none ↔
    ∀ (i : Nat) ix, db.indexes[i]? = some ix → ix.range = table → ix.lexicon = table := by
  simp only [indexOver?, Option.map_eq_none_iff, List.find?_eq_none, Prod.forall,
    Std.ExtTreeMap.mem_toList_iff_getElem?_eq_some, Bool.and_eq_true, decide_eq_true_eq, not_and,
    ne_eq, Decidable.not_not]

/-- What goes with an object: itself, and all that depends on it if it is a table. -/
theorem doomed_eq_ok {id : Nat} (h : db.doomed id = .ok gone) :
    (∃ kind keyType tokenizer, db.kind? id = some (.table kind keyType tokenizer) ∧
        db.indexOver? id = none ∧ gone = id :: db.dependents id) ∨
      gone = [id] ∧ ((∃ table valueType, db.kind? id = some (.column table valueType)) ∨
        ∃ lexicon range flags, db.kind? id = some (.index lexicon range flags)) := by
  unfold doomed object? at h
  cases hobj : db.objects[id]? with
  | none =>
    rw [hobj] at h
    cases h
  | some info =>
    have hkind := kind?_of_get hobj
    rw [hobj] at h
    obtain ⟨oid, name, kind⟩ := info
    dsimp only at h hkind
    cases kind with
    | type t => cases h
    | table kind keyType tokenizer =>
      dsimp only at h
      split at h
      · cases h
      · cases h
        exact .inl ⟨kind, keyType, tokenizer, hkind, ‹_›, rfl⟩
    | column table valueType =>
      cases h
      exact .inr ⟨rfl, .inl ⟨table, valueType, hkind⟩⟩
    | index lexicon range flags =>
      cases h
      exact .inr ⟨rfl, .inr ⟨lexicon, range, flags, hkind⟩⟩

/-- The only table that can go is the object itself, and then all that depends on it goes too. -/
theorem kind_of_mem_doomed {id i : Nat} (hgone : db.doomed id = .ok gone) (hmem : i ∈ gone) :
    (∃ kind keyType tokenizer, db.kind? i = some (.table kind keyType tokenizer) ∧
        db.indexOver? i = none ∧ gone = i :: db.dependents i) ∨
      (∃ table valueType, db.kind? i = some (.column table valueType)) ∨
        ∃ lexicon range flags, db.kind? i = some (.index lexicon range flags) := by
  rcases doomed_eq_ok hgone with ⟨kind, keyType, tokenizer, hid, hover, rfl⟩ | ⟨rfl, hid⟩
  · rcases List.mem_cons.1 hmem with rfl | hmem
    · exact .inl ⟨kind, keyType, tokenizer, hid, hover, rfl⟩
    · rcases mem_dependents.1 hmem with ⟨valueType, hkind⟩ | ⟨range, flags, hkind⟩
      · exact .inr (.inl ⟨id, valueType, hkind⟩)
      · exact .inr (.inr ⟨id, range, flags, hkind⟩)
  · obtain rfl := List.mem_singleton.1 hmem
    exact .inr hid

theorem Catalogued.eq_of_doomed (h : db.Catalogued) {id table : Nat} {t : Table}
    (hgone : db.doomed id = .ok gone) (ht : db.tables[table]? = some t) (hmem : table ∈ gone) :
    db.indexOver? table = none ∧ gone = table :: db.dependents table := by
  obtain ⟨keyType, tokenizer, hkind⟩ := h.table ht
  rcases kind_of_mem_doomed hgone hmem with ⟨_, _, _, -, hover, heq⟩ | ⟨_, _, hkind'⟩ |
    ⟨_, _, _, hkind'⟩
  · exact ⟨hover, heq⟩
  · rw [hkind] at hkind'
    cases hkind'
  · rw [hkind] at hkind'
    cases hkind'

theorem type_not_mem_of_doomed {id i : Nat} {t : DataType} (hgone : db.doomed id = .ok gone)
    (hkind : db.kind? i = some (.type t)) : i ∉ gone := by
  intro hmem
  have hcases := kind_of_mem_doomed hgone hmem
  rw [hkind] at hcases
  rcases hcases with ⟨_, _, _, heq, -⟩ | ⟨_, _, heq⟩ | ⟨_, _, _, heq⟩
  · cases heq
  · cases heq
  · cases heq

theorem index_of_mem_bereft {i : Nat} (hi : i ∈ db.bereft gone) :
    ∃ ix, db.indexes[i]? = some ix := by
  obtain ⟨e, he, rfl⟩ := List.mem_map.1 hi
  exact ⟨e.2, Std.ExtTreeMap.mem_toList_iff_getElem?_eq_some.1 (List.mem_filter.1 he).1⟩

theorem mem_bereft {i : Nat} {ix : Index} (hix : db.indexes[i]? = some ix) (hi : i ∉ gone)
    {s : ObjectId} (hs : s ∈ ix.sources) (hgone : s ∈ gone) : i ∈ db.bereft gone := by
  simp only [bereft, List.mem_map, List.mem_filter]
  refine ⟨(i, ix), ⟨Std.ExtTreeMap.mem_toList_iff_getElem?_eq_some.2 hix, ?_⟩, rfl⟩
  have hany : ix.sources.any gone.contains = true :=
    List.any_eq_true.2 ⟨s, hs, List.contains_iff_mem.2 hgone⟩
  simp [hi, hany]

/-- After detaching, what goes is closed. -/
theorem WellFormed.closed (h : db.WellFormed) {id : Nat} (hgone : db.doomed id = .ok gone)
    (hdetached : db.Detached db' gone)
    (hsources : ∀ i ∈ db.bereft gone, ∀ ix, db'.indexes[i]? = some ix →
      ∀ s ∈ ix.sources, s ∉ gone) : db'.Closed gone where
  user hkind := type_not_mem_of_doomed hgone (by rwa [hdetached.same.kind?] at hkind)
  column {c table valueType} hkind hc hmem := by
    rw [hdetached.same.kind?] at hkind
    obtain ⟨-, t, ht⟩ := h.catalogued.columnData hkind
    obtain ⟨-, rfl⟩ := h.catalogued.eq_of_doomed hgone ht hmem
    exact hc (List.mem_cons_of_mem _ (mem_dependents.2 (.inl ⟨valueType, hkind⟩)))
  index {i ix} hix hi := by
    obtain ⟨jx, hjx, hlexicon, hsub, -⟩ := hdetached.index hix
    obtain ⟨kx, hkx, -, hrange, -⟩ := hdetached.same.index hix
    obtain rfl := Option.some.inj (hjx.symm.trans hkx)
    have hkind := h.catalogued.index hjx
    have hlex : jx.lexicon ∉ gone := by
      intro hmem
      obtain ⟨t, ht, -⟩ := h.catalogued.lexicon_table hjx
      obtain ⟨-, rfl⟩ := h.catalogued.eq_of_doomed hgone ht hmem
      exact hi (List.mem_cons_of_mem _ (mem_dependents.2 (.inr ⟨_, _, hkind⟩)))
    refine ⟨hlexicon ▸ hlex, ?_, ?_⟩
    · rw [← hrange]
      intro hmem
      obtain ⟨t, ht⟩ := h.catalogued.range hjx
      obtain ⟨hover, -⟩ := h.catalogued.eq_of_doomed hgone ht hmem
      exact hlex (indexOver?_eq_none.1 hover i jx hjx rfl ▸ hmem)
    · intro s hs hmem
      exact hsources i (mem_bereft hjx hi (hsub s hs) hmem) ix hix s hs hmem

/-- An index goes with its lexicon, or else all by itself; then no index loses a source. -/
theorem WellFormed.lexicon_mem_doomed (h : db.WellFormed) {id i : Nat} {ix : Index}
    (hgone : db.doomed id = .ok gone) (hix : db.indexes[i]? = some ix) (hmem : i ∈ gone) :
    ix.lexicon ∈ gone ∨ db.bereft gone = [] := by
  have hkind := h.catalogued.index hix
  rcases doomed_eq_ok hgone with ⟨_, _, _, hid, -, rfl⟩ | ⟨rfl, -⟩
  · rcases List.mem_cons.1 hmem with rfl | hmem
    · rw [hkind] at hid
      cases hid
    · rcases mem_dependents.1 hmem with ⟨_, hkind'⟩ | ⟨_, _, hkind'⟩
      · rw [hkind] at hkind'
        cases hkind'
      · rw [hkind] at hkind'
        cases hkind'
        exact .inl (List.mem_cons_self ..)
  · obtain rfl := List.mem_singleton.1 hmem
    refine .inr (List.eq_nil_iff_forall_not_mem.2 fun j hj => ?_)
    obtain ⟨e, he, rfl⟩ := List.mem_map.1 hj
    obtain ⟨hmem, hany⟩ := List.mem_filter.1 he
    have hs : i ∈ e.2.sources := by
      obtain ⟨s, hs, hsi⟩ := List.any_eq_true.1 ((Bool.and_eq_true _ _).mp hany).2
      exact List.mem_singleton.1 (List.contains_iff_mem.1 hsi) ▸ hs
    have hjx := Std.ExtTreeMap.mem_toList_iff_getElem?_eq_some.1 hmem
    -- A source is a column or a table.
    have hsource := checkSource_eq_ok.1 (h.catalogued.source hjx i hs)
    simp only [hkind, Option.some.injEq, reduceCtorEq, exists_false, and_false, or_false] at hsource

/-- An object that has to stay is refused before anything has changed. Otherwise what goes is
detached, which leaves nothing that refers to it, and dropped. -/
theorem WellFormed.removeObject_cases (h : db.WellFormed) {e : HashOrder} {id : Nat}
    {outcome : Except Error Unit} (hcall : e.removeObject db id = (outcome, db')) :
    (∃ err, outcome = .error err ∧ db' = db) ∨ outcome = .ok () ∧
      ∃ gone db₁, db.doomed id = .ok gone ∧ e.detach db gone (e.bereft db gone) = (.ok (), db₁) ∧
        db₁.WellFormed ∧ db.Detached db₁ gone ∧
        Follows (db.Settled db.GivenOut) db db₁ ∧ db₁.Closed gone ∧
        (db₁ = db ∨ ∀ i ∈ gone, ∀ ix, db.indexes[i]? = some ix → ix.lexicon ∈ gone) ∧
        db' = gone.foldl drop db₁ := by
  unfold HashOrder.removeObject at hcall
  cases hdoomed : e.doomed db id with
  | error err =>
    rw [hdoomed] at hcall
    cases hcall
    exact .inl ⟨err, rfl, rfl⟩
  | ok gone =>
    have hgone := (e.doomed_eq_ok_iff db id).1 hdoomed
    have hperm := e.bereft_perm db gone
    have hbereft : ∀ i ∈ e.bereft db gone, ∃ ix, db.indexes[i]? = some ix :=
      fun _ hi => index_of_mem_bereft (hperm.mem_iff.1 hi)
    obtain ⟨db₁, hdetach, hwf, hdetached, hfollows, hsources⟩ := h.detach e gone hbereft
    simp only [hdoomed, hdetach] at hcall
    cases hcall
    have hsources' := fun i hi => hsources i (hperm.mem_iff.2 hi)
    have hlexicons : db₁ = db ∨ ∀ i ∈ gone, ∀ ix, db.indexes[i]? = some ix → ix.lexicon ∈ gone := by
      by_cases hnone : db.bereft gone = []
      · rw [hnone, List.perm_nil] at hperm
        rw [hperm] at hdetach
        cases hdetach
        exact .inl rfl
      · exact .inr fun i hi ix hix => (h.lexicon_mem_doomed hgone hix hi).resolve_right hnone
    exact .inr ⟨rfl, gone, db₁, hgone, hdetach, hwf, hdetached, hfollows,
      h.closed hgone hdetached hsources', hlexicons, rfl⟩

/-- A surviving index whose range is no lexicon of a surviving index has lost no such lexicon
either. -/
theorem WellFormed.settled_of_dropped (h : db.WellFormed) {db₁ : Database}
    (hdetached : db.Detached db₁ gone) (hclosed : db₁.Closed gone)
    (hdropped : Dropped db₁ db' gone)
    (hlexicons : ∀ i ∈ gone, ∀ ix, db.indexes[i]? = some ix → ix.lexicon ∈ gone)
    {known : Nat → Nat → Prop} {i r : Nat} {ix : Index} (hix : db'.indexes[i]? = some ix)
    (hsettled : db'.Settled known i r) : db.Settled known i r := by
  intro jx hjx s hs t ht
  obtain ⟨hi, hix₁⟩ := hdropped.index_kept hix
  obtain ⟨jx', hjx', -, -, hkept⟩ := hdetached.index hix₁
  obtain ⟨kx, hkx, -, hrange, -⟩ := hdetached.same.index hix₁
  obtain rfl := Option.some.inj (hjx.symm.trans hjx')
  obtain rfl := Option.some.inj (hjx.symm.trans hkx)
  obtain rfl : s = jx.range := h.catalogued.eq_of_checkSource ht (h.catalogued.source hjx s hs)
  have hstays : jx.range ∉ gone := hrange ▸ (hclosed.index hix₁ hi).2.1
  obtain ⟨u, hu, -⟩ := hdetached.same.symm.table ht
  refine (hsettled ix hix jx.range (hkept _ hs hstays) u (hdropped.table_of hstays hu)).imp_left
    fun hnot k kx hkx hlexicon => ?_
  by_cases hk : k ∈ gone
  · exact hstays (hlexicon ▸ hlexicons k hk kx hkx)
  · obtain ⟨kx₁, hkx₁, hlexicon₁, -⟩ := hdetached.same.symm.index hkx
    refine hnot k kx₁ ?_ (hlexicon₁.trans hlexicon)
    rw [hdropped.indexes, if_neg hk, hkx₁]

/-- An object goes with all that depends on it, and the indexes that stay follow their texts. -/
theorem WellFormed.removeObject (h : db.WellFormed) {e : HashOrder} {id : Nat}
    {outcome : Except Error Unit} (hcall : e.removeObject db id = (outcome, db')) :
    db'.WellFormed ∧ Follows (db'.Settled db.GivenOut) db db' := by
  rcases h.removeObject_cases hcall with ⟨err, -, rfl⟩ |
    ⟨-, gone, db₁, -, -, hwf, hdetached, hfollows, hclosed, hlexicons, rfl⟩
  · exact ⟨h, .refl _⟩
  have hdropped := dropped_foldl db₁ gone
  have hdrop := hdropped.follows hclosed
  refine ⟨hdropped.wellFormed hwf hclosed (hwf.named.foldl_drop gone), ?_⟩
  rcases hlexicons with rfl | hlexicons
  · exact hdrop.imp fun _ _ _ => trivial
  intro i t r s q
  obtain ⟨f, hmono, hstored, hle, heq⟩ := (hfollows.trans hdrop) i t r s q
  cases hix : (gone.foldl drop db₁).indexes[i]? with
  | none =>
    refine ⟨fun _ => 0, fun _ _ _ => Nat.le_refl _, ?_, Nat.zero_le _, fun _ => ?_⟩
    · simp only [storedAt, hix]
    · simp only [producedAt, yieldAt, hix]
  | some ix =>
    exact ⟨f, hmono, hstored, hle, fun hsettled =>
      heq ⟨h.settled_of_dropped hdetached hclosed hdropped hlexicons hix hsettled, trivial⟩⟩

end Concordance.Database
