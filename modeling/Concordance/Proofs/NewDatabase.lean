import Concordance.Proofs.WellFormed

/-! # The new database

A new database knows the built-in types and nothing else, and is well-formed.
-/
namespace Concordance

theorem DataType.ofId?_eq_some {id : Nat} {t : DataType} : ofId? id = some t ↔ t.id = id := by
  constructor
  · intro h
    simpa using List.find?_some h
  · rintro rfl
    exact ofId?_id t

theorem DataType.ofName?_eq_some {name : String} {t : DataType} :
    ofName? name = some t ↔ t.name = name := by
  constructor
  · intro h
    simpa using List.find?_some h
  · rintro rfl
    cases t <;> decide

/-- What a table of all types has under a key that tells them apart. -/
theorem DataType.map_find?_all {α β : Type} [DecidableEq α] {key : DataType → α} {f : DataType → β}
    {k : α} {b : β} (hinj : ∀ {t u}, key t = k → key u = k → t = u) :
    (all.reverse.find? (key · = k)).map f = some b ↔ ∃ t, key t = k ∧ b = f t := by
  rw [Option.map_eq_some_iff]
  constructor
  · rintro ⟨t, hfind, rfl⟩
    exact ⟨t, by simpa using List.find?_some hfind, rfl⟩
  · rintro ⟨t, ht, rfl⟩
    cases hfind : all.reverse.find? (key · = k) with
    | some u =>
      have hu : key u = k := by simpa using List.find?_some hfind
      exact ⟨u, rfl, congrArg f (hinj hu ht)⟩
    | none =>
      have hnot := List.find?_eq_none.1 hfind t (by cases t <;> decide)
      exact absurd ht (by simpa using hnot)

namespace Database
variable {db db' : Database}

theorem objects_foldl_addType (types : List DataType) (db : Database) (id : Nat) :
    (types.foldl addType db).objects[id]? =
      ((types.reverse.find? (·.id = id)).map fun t => ⟨t.id, some t.name, .type t⟩).or
        db.objects[id]? := by
  induction types generalizing db with
  | nil => rfl
  | cons t rest ih =>
    rw [List.foldl_cons, ih, List.reverse_cons, List.find?_append]
    cases rest.reverse.find? (·.id = id) with
    | some u => rfl
    | none =>
      by_cases h : id = t.id
      · simp [addType, h]
      · simp [addType, h, Ne.symm h]

theorem names_foldl_addType (types : List DataType) (db : Database) (name : String) :
    (types.foldl addType db).names[name]? =
      ((types.reverse.find? (·.name = name)).map DataType.id).or db.names[name]? := by
  induction types generalizing db with
  | nil => rfl
  | cons t rest ih =>
    rw [List.foldl_cons, ih, List.reverse_cons, List.find?_append]
    cases rest.reverse.find? (·.name = name) with
    | some u => rfl
    | none =>
      by_cases h : name = t.name
      · simp [addType, h]
      · simp [addType, h, Ne.symm h]

theorem stores_foldl_addType (types : List DataType) (db : Database) :
    (types.foldl addType db).tables = db.tables ∧ (types.foldl addType db).columns = db.columns ∧
      (types.foldl addType db).indexes = db.indexes ∧
        (types.foldl addType db).nextId = db.nextId := by
  induction types generalizing db with
  | nil => exact ⟨rfl, rfl, rfl, rfl⟩
  | cons t rest ih => exact ih (db.addType t)

theorem objects_new {id : Nat} {info : ObjectInfo} : new.objects[id]? = some info ↔
    ∃ t : DataType, t.id = id ∧ info = ⟨t.id, some t.name, .type t⟩ := by
  have hinj : ∀ {t u : DataType}, t.id = id → u.id = id → t = u := fun ht hu =>
    Option.some.inj ((DataType.ofId?_eq_some.2 ht).symm.trans (DataType.ofId?_eq_some.2 hu))
  rw [new, objects_foldl_addType, Std.ExtTreeMap.getElem?_empty, Option.or_none]
  exact DataType.map_find?_all hinj

theorem names_new {name : String} {id : Nat} : new.names[name]? = some id ↔
    ∃ t : DataType, t.name = name ∧ t.id = id := by
  have hinj : ∀ {t u : DataType}, t.name = name → u.name = name → t = u := fun ht hu =>
    Option.some.inj ((DataType.ofName?_eq_some.2 ht).symm.trans (DataType.ofName?_eq_some.2 hu))
  rw [new, names_foldl_addType, Std.ExtTreeMap.getElem?_empty, Option.or_none,
    DataType.map_find?_all hinj]
  simp only [eq_comm]

theorem kind?_new {id : Nat} {kind : ObjectKind} (h : new.kind? id = some kind) :
    ∃ t : DataType, t.id = id ∧ kind = .type t := by
  obtain ⟨info, hinfo, rfl⟩ := Option.map_eq_some_iff.1 h
  obtain ⟨t, ht, rfl⟩ := objects_new.1 hinfo
  exact ⟨t, ht, rfl⟩

theorem tables_new : new.tables = ∅ :=
  (stores_foldl_addType DataType.all ⟨∅, ∅, ∅, ∅, firstUserId, ∅⟩).1

theorem columns_new : new.columns = ∅ :=
  (stores_foldl_addType DataType.all ⟨∅, ∅, ∅, ∅, firstUserId, ∅⟩).2.1

theorem indexes_new : new.indexes = ∅ :=
  (stores_foldl_addType DataType.all ⟨∅, ∅, ∅, ∅, firstUserId, ∅⟩).2.2.1

theorem nextId_new : new.nextId = firstUserId :=
  (stores_foldl_addType DataType.all ⟨∅, ∅, ∅, ∅, firstUserId, ∅⟩).2.2.2

theorem catalogued_new : new.Catalogued where
  id_eq hinfo := by
    obtain ⟨t, ht, rfl⟩ := objects_new.1 hinfo
    exact ht
  id_lt hinfo := by
    obtain ⟨t, rfl, -⟩ := objects_new.1 hinfo
    rw [nextId_new]
    exact t.id_lt_firstUserId
  user_le hinfo htype := by
    obtain ⟨t, ht, rfl⟩ := objects_new.1 hinfo
    cases htype
  next_le := Nat.le_of_eq nextId_new.symm
  builtIn t := objects_new.2 ⟨t, rfl, rfl⟩
  type_eq hkind := by
    obtain ⟨u, hu, heq⟩ := kind?_new hkind
    cases heq
    exact hu.symm
  table ht := by simp [tables_new] at ht
  tableData hkind := by
    obtain ⟨u, -, heq⟩ := kind?_new hkind
    cases heq
  column hc := by simp [columns_new] at hc
  columnData hkind := by
    obtain ⟨u, -, heq⟩ := kind?_new hkind
    cases heq
  index hix := by simp [indexes_new] at hix
  indexData hkind := by
    obtain ⟨u, -, heq⟩ := kind?_new hkind
    cases heq
  lexicon hix := by simp [indexes_new] at hix
  range hix := by simp [indexes_new] at hix
  source hix := by simp [indexes_new] at hix

theorem named_new : new.Named where
  name_iff {name id} := by
    rw [names_new]
    constructor
    · rintro ⟨t, rfl, rfl⟩
      exact ⟨_, objects_new.2 ⟨t, rfl, rfl⟩, rfl⟩
    · rintro ⟨info, hinfo, hname⟩
      obtain ⟨t, ht, rfl⟩ := objects_new.1 hinfo
      exact ⟨t, Option.some.inj hname, ht⟩

theorem wellFormed_new : new.WellFormed := by
  have hfilled : new.Filled := by
    constructor
    · intro id t ht
      simp [tables_new] at ht
    · intro column record v hv
      simp [value?, columns_new] at hv
  have hposted : new.Posted := by
    constructor
    · intro i ix hix
      simp [indexes_new] at hix
    · intro i ix lexicon hix
      simp [indexes_new] at hix
    · intro i ix hix
      simp [indexes_new] at hix
  exact ⟨catalogued_new, hfilled, hposted, named_new⟩

end Database
end Concordance
