import Concordance.Proofs.Integrity
import Concordance.Proofs.Refusals
import Concordance.Proofs.Revisions

/-! # Ids

An id is given out once: an object id by the call that makes the object, and a record id of a table
by the call that enters the record, be it for a caller or as a term that an index meets. As long as
the counters stay words, nothing ever has the id again, so that a caller who keeps one finds what it
stood for or nothing.
-/
namespace Concordance

/-- What may become of a table: an id that was given out stands for what it stood for, or for
nothing. -/
structure Table.Ages (t u : Table) : Prop where
  next : t.next ≤ u.next
  old : ∀ {id : Nat}, id < t.next → u.isLive id → t.isLive id ∧ u.key? id = t.key? id

namespace Table
variable {t u : Table}

theorem Ages.refl (t : Table) : t.Ages t := ⟨Nat.le_refl _, fun _ hlive => ⟨hlive, rfl⟩⟩

theorem Ages.trans {v : Table} (h : t.Ages u) (h' : u.Ages v) : t.Ages v where
  next := Nat.le_trans h.next h'.next
  old hid hlive := by
    obtain ⟨hlive', hkey'⟩ := h'.old (Nat.lt_of_lt_of_le hid h.next) hlive
    obtain ⟨hlive, hkey⟩ := h.old hid hlive'
    exact ⟨hlive, hkey'.trans hkey⟩

theorem Grows.ages (h : t.Grows u) (ht : t.Sound) (hu : u.Sound) : t.Ages u :=
  ⟨h.next, fun hid hlive => ⟨(h.old hid).1 hlive, h.key?_old ht hu hid⟩⟩

theorem Sound.ages_erase (h : t.Sound) (id : Nat) : t.Ages (t.erase id) where
  next := Nat.le_of_eq (next_erase t id).symm
  old {i} _ hlive := by
    obtain ⟨hne, hlive⟩ := (isLive_erase t id i).1 hlive
    exact ⟨hlive, by rw [h.key?_erase, if_neg hne]⟩

end Table

namespace Database
variable {db db' : Database} {spared : Nat → Nat → Prop}

theorem recordKey?_of_table {table record : Nat} {t : Table} (ht : db.tables[table]? = some t) :
    db.recordKey? table record = t.key? record := by
  simp [recordKey?, ht]

/-- The only table that goes with an object is the object itself. -/
theorem Catalogued.eq_id_of_doomed (h : db.Catalogued) {id table : Nat} {t : Table}
    {gone : List ObjectId} (hgone : db.doomed id = .ok gone)
    (ht : db.tables[table]? = some t) (hmem : table ∈ gone) : table = id := by
  rcases doomed_eq_ok hgone with ⟨_, _, _, -, -, heq⟩ | ⟨rfl, -⟩
  · exact (List.cons_eq_cons.1 ((h.eq_of_doomed hgone ht hmem).2.symm.trans heq)).1
  · exact List.mem_singleton.1 hmem

/-! ## One call -/

/-- A call that neither deletes a record nor removes its table. -/
def Spares (db : Database) (table record : Nat) : Call → Prop
  | .deleteRecord t r _ => (db.deleteRecord t r).1 = .ok () → ¬ (t = table ∧ r = record)
  | .removeObject id e => (e.removeObject db id).1 = .ok () → id ≠ table
  | _ => True

/-- What may become of a database: ids that were given out are not given to anything else, and the
records that are spared stay. -/
structure Later (spared : Nat → Nat → Prop) (db db' : Database) : Prop where
  nextId : db.nextId ≤ db'.nextId
  object : ∀ {id : Nat}, id < db.nextId →
    db'.objects[id]? = db.objects[id]? ∨ db'.objects[id]? = none
  table : ∀ {id : Nat} {u}, id < db.nextId → db'.tables[id]? = some u →
    ∃ t, db.tables[id]? = some t ∧ t.Ages u
  live : ∀ {table record : Nat}, spared table record → db.isLive table record →
    db'.isLive table record

theorem Later.refl (spared : Nat → Nat → Prop) (db : Database) : Later spared db db :=
  ⟨Nat.le_refl _, fun _ => .inl rfl, fun _ hu => ⟨_, hu, .refl _⟩, fun _ hlive => hlive⟩

theorem Later.trans {db'' : Database} (h : Later spared db db') (h' : Later spared db' db'') :
    Later spared db db'' where
  nextId := Nat.le_trans h.nextId h'.nextId
  object hid := by
    rcases h'.object (Nat.lt_of_lt_of_le hid h.nextId) with heq | hnone
    · rw [heq]
      exact h.object hid
    · exact .inr hnone
  table hid hv := by
    obtain ⟨u, hu, hages'⟩ := h'.table (Nat.lt_of_lt_of_le hid h.nextId) hv
    obtain ⟨t, ht, hages⟩ := h.table hid hu
    exact ⟨t, ht, hages.trans hages'⟩
  live hspared hlive := h'.live hspared (h.live hspared hlive)

theorem Grown.later (hg : db.Grown db') (h : db.WellFormed) (h' : db'.WellFormed) :
    Later spared db db' where
  nextId := Nat.le_of_eq hg.same.nextId.symm
  object _ := .inl (by rw [hg.same.objects])
  table {id u} _ hu := by
    obtain ⟨t, ht, -⟩ := hg.same.table hu
    obtain ⟨v, hv, hgrows⟩ := hg.table ht
    obtain rfl := Option.some.inj (hu.symm.trans hv)
    exact ⟨t, ht, hgrows.ages (h.filled.sound ht) (h'.filled.sound hu)⟩
  live _ hlive := hg.isLive hlive

theorem Made.later (hm : db.Made db') (h : db.WellFormed) : Later spared db db' := by
  obtain ⟨_, _, _, _, _, he, -⟩ := hm
  refine ⟨?_, fun hid => .inl ?_, fun {id u} hid hu => ?_, fun _ hlive => ?_⟩
  · rw [he.nextId]
    exact Nat.le_succ _
  · rw [he.objects, if_neg (Nat.ne_of_lt hid)]
  · rw [he.tables, if_neg (Nat.ne_of_lt hid)] at hu
    exact ⟨u, hu, .refl u⟩
  · exact he.isLive_old h.catalogued hlive

/-- An id is lost when the sources of a new index are refused. -/
theorem later_skipId (db : Database) : Later spared db { db with nextId := db.nextId + 1 } :=
  ⟨Nat.le_succ _, fun _ => .inl rfl, fun _ hu => ⟨_, hu, .refl _⟩, fun _ hlive => hlive⟩

theorem WellFormed.later_forgetRecord (h : db.WellFormed) {table record : Nat} {t : Table}
    (ht : db.tables[table]? = some t) (hspared : ¬ spared table record) :
    Later spared db (db.forgetRecord table record) where
  nextId := Nat.le_refl _
  object _ := .inl rfl
  table {id u} _ hu := by
    rw [tables_forgetRecord ht] at hu
    split at hu
    · rename_i hid
      cases hu
      exact ⟨t, hid ▸ ht, (h.filled.sound ht).ages_erase record⟩
    · exact ⟨u, hu, .refl u⟩
  live hs hlive := by
    refine (isLive_forgetRecord ht _ _).2 ⟨hlive, ?_⟩
    rintro ⟨rfl, rfl⟩
    exact hspared hs

theorem Dropped.later {gone : List ObjectId} (hd : Dropped db db' gone)
    (hspared : ∀ {table record : Nat}, spared table record → db.isLive table record →
      table ∉ gone) : Later spared db db' where
  nextId := Nat.le_of_eq hd.nextId.symm
  object {id} _ := by
    rw [hd.objects]
    split
    · exact .inr rfl
    · exact .inl rfl
  table {id u} _ hu := by
    rw [hd.tables] at hu
    split at hu
    · cases hu
    · exact ⟨u, hu, .refl u⟩
  live hs hlive := by rwa [hd.isLive (hspared hs hlive)]

theorem Reread.later (hr : db.Reread db') : Later spared db db' := by
  have hrest := hr.rest
  rw [hrest]
  exact ⟨Nat.le_refl _, fun _ => .inl rfl, fun _ hu => ⟨_, hu, .refl _⟩, fun _ hlive => hlive⟩

theorem WellFormed.later_defineIndex (h : db.WellFormed) (e : HashOrder) {lexicon range : Nat}
    {name : String} {config : IndexConfig} :
    Later spared db (e.defineIndex db lexicon name range config).2 := by
  rcases h.defineIndex_cases (Prod.eta (e.defineIndex db lexicon name range config)).symm with
    ⟨_, -, -, heq⟩ | ⟨plan, -, ⟨_, -, heq⟩ | ⟨-, made, hmade, -, hinstall⟩⟩
  · rw [heq]
    exact .refl _ db
  · rw [heq]
    exact later_skipId db
  · have hwf := hmade.wellFormed h
    exact (hmade.later h).trans
      ((hwf.grown_installSources hinstall).later hwf (hwf.installSources hinstall).1)

theorem WellFormed.later_deleteRecord (h : db.WellFormed) {table record : Nat}
    {outcome : Except Error Unit} (hcall : db.deleteRecord table record = (outcome, db'))
    (hspared : outcome = .ok () → ¬ spared table record) : Later spared db db' := by
  cases outcome with
  | error e =>
    rw [unchanged_of_cases (h.deleteRecord_cases hcall) rfl]
    exact .refl _ db
  | ok =>
    obtain ⟨db₁, t, hwf, hrevised, ht, -, rfl⟩ := h.deleteRecord_revised hcall
    exact (hrevised.toGrown.later h hwf).trans (hwf.later_forgetRecord ht (hspared rfl))

theorem WellFormed.later_removeObject (h : db.WellFormed) {e : HashOrder} {id : Nat}
    {outcome : Except Error Unit} (hcall : e.removeObject db id = (outcome, db'))
    (hspared : outcome = .ok () → ∀ record, ¬ spared id record) : Later spared db db' := by
  rcases h.removeObject_cases hcall with ⟨err, -, rfl⟩ |
    ⟨hok, gone, db₁, hgone, hdetach, hwf, hdetached, -, -, -, rfl⟩
  · exact .refl _ _
  · refine ((h.grown_detach hdetach).later h hwf).trans
      ((dropped_foldl db₁ gone).later fun {table record} hs hlive hmem => ?_)
    obtain ⟨u, hu⟩ := table_of_isLive hlive
    obtain ⟨t, ht, -⟩ := hdetached.same.table hu
    exact hspared hok record (h.catalogued.eq_id_of_doomed hgone ht hmem ▸ hs)

theorem WellFormed.later_of_grown (h : db.WellFormed) {call : Call} (hcall : call.InPlace)
    (hg : db.Grown (db.after call)) : Later spared db (db.after call) :=
  hg.later h (h.after hcall)

/-- What a call makes of ids that were given out before. -/
theorem WellFormed.later (h : db.WellFormed) {call : Call} (hcall : db.OwnFiles call)
    (hspared : ∀ {table record : Nat}, spared table record → db.Spares table record call) :
    Later spared db (db.after call) := by
  cases call with
  | createTable name config =>
    rcases h.createTable_cases (Prod.eta (db.createTable name config)).symm with
      ⟨-, heq⟩ | ⟨-, hmade⟩
    · exact h.later_of_grown trivial (.of_eq heq)
    · exact hmade.later h
  | defineColumn table name valueType =>
    rcases h.defineColumn_cases (Prod.eta (db.defineColumn table name valueType)).symm with
      ⟨-, heq⟩ | ⟨-, hmade⟩
    · exact h.later_of_grown trivial (.of_eq heq)
    · exact hmade.later h
  | defineIndex lexicon name range config e => exact h.later_defineIndex e
  | addRecord table => exact h.later_of_grown trivial (grown_addRecord (Prod.eta _).symm)
  | addRecordWithKey table key e =>
    refine h.later_of_grown trivial ?_
    rw [h.after_addRecordWithKey]
    exact h.grown_addRecordWithKey (Prod.eta _).symm
  | setValue column record v e =>
    refine h.later_of_grown trivial ?_
    rw [h.after_setValue]
    exact (h.revised_setValue (Prod.eta _).symm).toGrown
  | deleteRecord table record e =>
    rw [h.after_deleteRecord]
    exact h.later_deleteRecord (Prod.eta _).symm fun hok hs => hspared hs hok ⟨rfl, rfl⟩
  | setSourceInfo i sources e =>
    exact h.later_of_grown trivial (h.grown_setSourceInfo (Prod.eta _).symm)
  | indexUpdate i record sec old new =>
    exact h.later_of_grown trivial (h.revised_indexUpdate (Prod.eta _).symm).toGrown
  | removeObject id e =>
    exact h.later_removeObject (Prod.eta _).symm fun hok record hs => hspared hs hok rfl
  | reopen image =>
    obtain ⟨hsaved, hn⟩ := hcall
    simp only [Database.after]
    split
    · exact (h.reread_of_load hn hsaved ‹_›).later
    · exact .refl _ db

/-! ## What calls give out -/

theorem Made.nextId (hm : db.Made db') : db'.nextId = db.nextId + 1 := by
  obtain ⟨_, _, _, _, _, he, -⟩ := hm
  exact he.nextId

theorem Reached.later (h : Reached OwnFiles db) (hl : Leads (fun db call => db.OwnFiles call ∧
    ∀ {table record : Nat}, spared table record → db.Spares table record call) db db') :
    Later spared db db' := by
  induction hl with
  | refl => exact .refl _ _
  | after call hleads hok ih =>
    have hreached := h.leads (hleads.imp fun _ _ hboth => hboth.1)
    exact ih.trans (hreached.wellFormed_of_ownFiles.later hok.1 hok.2)

theorem Reached.later_of_leads (h : Reached OwnFiles db) (hl : Leads OwnFiles db db') :
    Later (fun _ _ => False) db db' :=
  h.later (hl.imp fun _ _ hcall => ⟨hcall, fun hnone => hnone.elim⟩)

section Reached
variable (h : Reached OwnFiles db)
include h

theorem Reached.kept {table record : Nat} (hlive : db.isLive table record)
    (hl : Leads (fun db call => db.OwnFiles call ∧ db.Spares table record call) db db') :
    db'.isLive table record ∧ db'.recordKey? table record = db.recordKey? table record := by
  have hlater : Later (fun t r => t = table ∧ r = record) db db' := by
    refine h.later (hl.imp fun _ _ hboth => ⟨hboth.1, ?_⟩)
    rintro _ _ ⟨rfl, rfl⟩
    exact hboth.2
  have hlive' := hlater.live ⟨rfl, rfl⟩ hlive
  refine ⟨hlive', ?_⟩
  obtain ⟨t, ht⟩ := table_of_isLive hlive
  obtain ⟨u, hu⟩ := table_of_isLive hlive'
  have hwf := h.wellFormed_of_ownFiles
  obtain ⟨t₁, ht₁, hages⟩ := hlater.table (hwf.catalogued.table_lt ht) hu
  obtain rfl := Option.some.inj (ht.symm.trans ht₁)
  rw [isLive_of_table ht] at hlive
  rw [isLive_of_table hu] at hlive'
  rw [recordKey?_of_table ht, recordKey?_of_table hu]
  exact (hages.old ((hwf.filled.sound ht).lt_next hlive) hlive').2

end Reached

end Database
end Concordance
