import Concordance.Database.Define
import Concordance.Database.Records
import Concordance.Database.Remove
import Concordance.Database.Update

/-! # Calls in every order of enumeration

The indexes of a database, the values of a column and the keys of a table are visited in some order
that nothing fixes. Here each call that visits them takes that order as an argument. In ascending
order of ids the calls are those of the database itself.
-/
namespace Concordance

/-- In which order the entries of each map are visited. -/
structure HashOrder where
  indexes : ById Index → List (ObjectId × Index)
  values : Column → List (RecordId × Json)
  keys : Table → List (RecordId × String)
  indexes_perm : ∀ m : ById Index, (indexes m).Perm m.toList
  values_perm : ∀ column : Column, (values column).Perm column.toList
  keys_perm : ∀ t : Table, (keys t).Perm t.keyed

namespace HashOrder

def ascending : HashOrder where
  indexes m := m.toList
  values column := column.toList
  keys := Table.keyed
  indexes_perm _ := .rfl
  values_perm _ := .rfl
  keys_perm _ := .rfl

variable (e : HashOrder)

/-! ## Records and values -/

/-- The indexes that list a source, as they are visited. -/
def fedBy (db : Database) (source : ObjectId) : List (ObjectId × Nat) :=
  (e.indexes db.indexes).flatMap fun (id, ix) =>
    ((ix.sources.zipIdx 1).filter (·.1 = source)).map fun (_, sec) => (id, sec)

/-- Carries the change of one record's texts into the indexes that list their source. -/
def feed (db : Database) (source : ObjectId) (record : RecordId) (old new : List String) :
    Database := db.feed (e.fedBy db source) record old new

def addRecordWithKey (db : Database) (table : ObjectId) (key : String) : Outcome RecordId :=
  db.attempt do
    let limit ← db.keyLimit table
    Database.checkKey limit key
    let t ← db.table table
    let isNew := (t.find? key).isNone
    let (id, t) := t.addKey key
    let added := { db with tables := db.tables.insert table t }
    return (id, if isNew then e.feed added table id [] [key] else added)

def retractValues (db : Database) (record : RecordId) : List ObjectId → Outcome Unit
  | [] => (.ok (), db)
  | column :: rest =>
    match db.value? column record with
    | none => retractValues db record rest
    | some v =>
      let erased := db.eraseValue column record
      match v.indexTexts with
      | .error err => (.error err, erased)
      | .ok texts => retractValues (e.feed erased column record texts []) record rest

def retractKey (db : Database) (table : ObjectId) (record : RecordId) : Database :=
  match db.recordKey? table record with
  | some key => e.feed db table record [key] []
  | none => db

def deleteRecord (db : Database) (table : ObjectId) (record : RecordId) : Outcome Unit :=
  match db.table table with
  | .error err => (.error err, db)
  | .ok t =>
    if !t.isLive record then (.error (Database.noRecord .noSuchObject record), db)
    else
      match e.retractValues db record (db.columnsOf table) with
      | (.error err, db) => (.error err, db)
      | (.ok (), db) => (.ok (), (e.retractKey db table record).forgetRecord table record)

def setValue (db : Database) (column : ObjectId) (record : RecordId) (v : Json) : Outcome Unit :=
  match db.checkValue column record v with
  | .error err => (.error err, db)
  | .ok (texts, values) =>
    let values' := if v.isNull then values.erase record else values.insert record v
    let stored := { db with columns := db.columns.insert column values' }
    match Database.textsBefore values[record]? with
    | .error err => (.error err, stored)
    | .ok old => (.ok (), e.feed stored column record old texts)

/-! ## Sources -/

/-- The texts that a source holds now, as its records are visited. -/
def sourceTexts (db : Database) (source : ObjectId) :
    Except Error (List (RecordId × List String)) :=
  match db.columns[source]? with
  | some column => (e.values column).mapM fun (record, v) => v.indexTexts.map (record, ·)
  | none =>
    match db.tables[source]? with
    | some t => .ok ((e.keys t).map fun (record, key) => (record, [key]))
    | none => .error (Database.noSource source)

def placeDeltas (db : Database) (make : RecordId → Nat → List String → Delta)
    (place : ObjectId × Nat) : Except Error (List Delta) := do
  return (← e.sourceTexts db place.1).map fun (record, texts) => make record place.2 texts

def sourceDeltas (db : Database) (before after : List ObjectId) : Except Error (List Delta) := do
  let lost ← (Database.placesLost before after).mapM
    (e.placeDeltas db fun record sec texts => ⟨record, sec, texts, []⟩)
  let gained ← (Database.placesLost after before).mapM
    (e.placeDeltas db fun record sec texts => ⟨record, sec, [], texts⟩)
  return lost.flatten ++ gained.flatten

def installSources (db : Database) (index : ObjectId) (sources : List ObjectId) :
    Except Error Database := do
  let ix ← db.index index
  sources.forM (db.checkSource ix.range)
  let deltas ← e.sourceDeltas db ix.sources sources
  return (db.applyDeltas index deltas).setSourceList index sources

def setSourceInfo (db : Database) (index : ObjectId) (sources : Buffer) : Outcome Unit :=
  db.attempt do
    let ids ← match sources.ids with
      | .ok ids => pure ids
      | .error err => .error (.engine .invalidArgument err.message)
    return ((), ← e.installSources db index ids)

def defineIndex (db : Database) (lexicon : ObjectId) (name : String) (range : ObjectId)
    (config : IndexConfig) : Outcome ObjectId :=
  match db.planIndex lexicon name range config with
  | .error err => (.error err, db)
  | .ok plan =>
    let id := db.nextId
    let made := db.addObject (some plan.fullName) (.index lexicon range config.flags)
    let ix : Index := ⟨lexicon, range, config.flags, plan.tokenizer, [], .empty⟩
    let made := { made with indexes := made.indexes.insert id ix }
    match e.installSources made id plan.sources with
    | .ok fed => (.ok id, fed.claimName plan.fullName id)
    | .error err =>
      (.error err, { made with objects := made.objects.erase id, indexes := made.indexes.erase id })

/-! ## Removing objects -/

/-- The first index over a table, with another table for its lexicon, that is met. -/
def indexOver? (db : Database) (table : ObjectId) : Option ObjectId :=
  ((e.indexes db.indexes).find? fun (_, ix) => ix.range = table && ix.lexicon ≠ table).map (·.1)

def doomed (db : Database) (id : ObjectId) : Except Error (List ObjectId) :=
  match db.object? id with
  | none => .error (.engine .noSuchObject s!"object #{id} not found")
  | some info =>
    match info.kind with
    | .type _ => .error (.engine .invalidOperation s!"{info.label} is built in")
    | .table .. =>
      match e.indexOver? db id with
      | some user => .error (.engine .invalidOperation s!"{info.label} is indexed by #{user}")
      | none => .ok (id :: db.dependents id)
    | _ => .ok [id]

def bereft (db : Database) (gone : List ObjectId) : List ObjectId :=
  ((e.indexes db.indexes).filter fun (id, ix) =>
    !gone.contains id && ix.sources.any gone.contains).map (·.1)

def detach (db : Database) (gone : List ObjectId) : List ObjectId → Outcome Unit
  | [] => (.ok (), db)
  | index :: rest =>
    let sources := ((db.indexes[index]?.map Index.sources).getD []).filter (!gone.contains ·)
    match e.installSources db index sources with
    | .ok db => detach db gone rest
    | .error err => (.error err, db)

def removeObject (db : Database) (id : ObjectId) : Outcome Unit :=
  match e.doomed db id with
  | .error err => (.error err, db)
  | .ok gone =>
    match e.detach db gone (e.bereft db gone) with
    | (.error err, db) => (.error err, db)
    | (.ok (), db) => (.ok (), gone.foldl Database.drop db)

/-! ## What goes with an object -/

theorem bereft_perm (db : Database) (gone : List ObjectId) :
    (e.bereft db gone).Perm (db.bereft gone) :=
  ((e.indexes_perm db.indexes).filter _).map _

/-- In every order the same objects have to stay, though another index may be named as the reason. -/
theorem doomed_toOption (db : Database) (id : ObjectId) :
    (e.doomed db id).toOption = (db.doomed id).toOption := by
  have hover : e.indexOver? db id = none ↔ db.indexOver? id = none := by
    simp only [indexOver?, Database.indexOver?, Option.map_eq_none_iff, List.find?_eq_none,
      (e.indexes_perm db.indexes).mem_iff]
  unfold doomed Database.doomed
  cases db.object? id with
  | none => rfl
  | some info =>
    dsimp only
    cases info.kind with
    | table kind keyType tokenizer =>
      dsimp only
      cases hfound : db.indexOver? id with
      | none => rw [hover.2 hfound]
      | some user =>
        obtain ⟨user', hfound'⟩ := Option.ne_none_iff_exists'.1
          fun hnone => Option.some_ne_none user (hfound.symm.trans (hover.1 hnone))
        rw [hfound']
        rfl
    | _ => rfl

theorem doomed_eq_ok_iff (db : Database) (id : ObjectId) {gone : List ObjectId} :
    e.doomed db id = .ok gone ↔ db.doomed id = .ok gone := by
  have hoption := e.doomed_toOption db id
  cases hdoomed : e.doomed db id <;> cases hdoomed' : db.doomed id <;>
    simp_all [Except.toOption]

/-! ## Ascending order -/

variable {e} (db : Database)

theorem addRecordWithKey_ascending :
    ascending.addRecordWithKey db = db.addRecordWithKey := rfl

theorem setValue_ascending : ascending.setValue db = db.setValue := rfl

theorem retractValues_ascending (record : RecordId) (columns : List ObjectId) :
    ascending.retractValues db record columns = db.retractValues record columns := by
  induction columns generalizing db with
  | nil => rfl
  | cons column rest ih =>
    unfold retractValues Database.retractValues
    cases db.value? column record with
    | none => exact ih db
    | some v =>
      dsimp only
      cases v.indexTexts with
      | error err => rfl
      | ok texts => exact ih _

theorem deleteRecord_ascending : ascending.deleteRecord db = db.deleteRecord := by
  funext table record
  unfold deleteRecord Database.deleteRecord
  simp only [retractValues_ascending]
  rfl

theorem installSources_ascending : ascending.installSources db = db.installSources := rfl

theorem setSourceInfo_ascending : ascending.setSourceInfo db = db.setSourceInfo := rfl

theorem defineIndex_ascending : ascending.defineIndex db = db.defineIndex := rfl

theorem detach_ascending (gone indexes : List ObjectId) :
    ascending.detach db gone indexes = db.detach gone indexes := by
  induction indexes generalizing db with
  | nil => rfl
  | cons index rest ih =>
    unfold detach Database.detach
    rw [installSources_ascending]
    dsimp only
    cases db.installSources index _ with
    | error err => rfl
    | ok db' => exact ih db'

theorem removeObject_ascending : ascending.removeObject db = db.removeObject := by
  funext id
  unfold removeObject Database.removeObject
  simp only [detach_ascending]
  rfl

end HashOrder
end Concordance
