import Concordance.IndexColumn.Sources
import Concordance.Proofs.HandUpdates
import Concordance.Proofs.Integrity
import Mathlib.Data.List.Forall2

/-! # Source lists through a handle

A handle takes a list of references exactly if each of them means a live object that may feed the
index, and then the index has just these sources, in order. In every other case nothing is changed
at all, whichever of the references is bad and wherever the fault is found.
-/
namespace Concordance

/-! ## References -/

/-- The live objects that a reference means. -/
def SourceRef.Means (db : Database) : SourceRef → ObjectInfo → Prop
  | byId id, info => db.object? id = some info
  | byName name, info => db.object? info.id = some info ∧ info.name = some name
  | held before, info => db.object? before.id = some info

/-- The object is the table of the range itself, or a value column of it. -/
def ObjectInfo.Feeds (info : ObjectInfo) (range : ObjectId) : Prop :=
  info.id = range ∨ ∃ valueType, info.kind = .column range valueType

namespace SourceRef
variable {db : Database} {ref : SourceRef} {info : ObjectInfo}

theorem Means.object (h : ref.Means db info) (hwf : db.WellFormed) :
    db.object? info.id = some info := by
  cases ref with
  | byId id => exact hwf.catalogued.id_eq h ▸ h
  | byName name => exact h.1
  | held before => exact hwf.catalogued.id_eq h ▸ h

theorem Means.unique {other : ObjectInfo} (h : ref.Means db info) (h' : ref.Means db other)
    (hwf : db.WellFormed) : info = other := by
  cases ref with
  | byId id => exact Option.some.inj (h.symm.trans h')
  | byName name =>
    have hid := hwf.lookup?_iff.2 h
    exact Option.some.inj (hid.symm.trans (hwf.lookup?_iff.2 h'))
  | held before => exact Option.some.inj (h.symm.trans h')

theorem resolve_eq_ok (hwf : db.WellFormed) {id : ObjectId} :
    ref.resolve db = .ok id ↔ ∃ info, ref.Means db info ∧ info.id = id := by
  cases ref with
  | byId i =>
    simp only [resolve, Means]
    cases db.object? i <;> simp
  | byName name =>
    simp only [resolve, Means, ← hwf.lookup?_iff]
    cases db.lookup? name <;> simp
  | held before =>
    simp only [resolve, Means]
    cases db.object? before.id <;> simp

/-- References are resolved if each of them means an object, in the order in which they stand. -/
theorem mapM_resolve_eq_ok (hwf : db.WellFormed) {refs : List SourceRef} {ids : List ObjectId} :
    refs.mapM (resolve db) = .ok ids ↔
      ∃ infos, List.Forall₂ (Means db) refs infos ∧ infos.map ObjectInfo.id = ids := by
  induction refs generalizing ids with
  | nil => simp [pure, Except.pure, eq_comm]
  | cons ref rest ih =>
    rw [mapM_cons_eq_ok]
    constructor
    · rintro ⟨id, more, hid, hmore, rfl⟩
      obtain ⟨info, hmeans, rfl⟩ := (resolve_eq_ok hwf).1 hid
      obtain ⟨infos, hinfos, rfl⟩ := ih.1 hmore
      exact ⟨info :: infos, .cons hmeans hinfos, rfl⟩
    · rintro ⟨_, hinfos, rfl⟩
      cases hinfos with
      | cons hmeans hrest =>
        exact ⟨_, _, (resolve_eq_ok hwf).2 ⟨_, hmeans, rfl⟩, ih.2 ⟨_, hrest, rfl⟩, rfl⟩

theorem exists_means {refs : List SourceRef} (h : ∀ ref ∈ refs, ∃ info, ref.Means db info) :
    ∃ infos, List.Forall₂ (Means db) refs infos := by
  induction refs with
  | nil => exact ⟨[], .nil⟩
  | cons ref rest ih =>
    obtain ⟨⟨info, hmeans⟩, hrest⟩ := List.forall_mem_cons.1 h
    obtain ⟨infos, hinfos⟩ := ih hrest
    exact ⟨info :: infos, .cons hmeans hinfos⟩

theorem forall_means_iff (hwf : db.WellFormed) {refs : List SourceRef} {infos : List ObjectInfo}
    (h : List.Forall₂ (Means db) refs infos) {p : ObjectInfo → Prop} :
    (∀ ref ∈ refs, ∃ info, ref.Means db info ∧ p info) ↔ ∀ info ∈ infos, p info := by
  induction h with
  | nil => simp
  | cons hmeans _ ih =>
    rw [List.forall_mem_cons, List.forall_mem_cons, ih]
    refine and_congr_left fun _ => ⟨fun ⟨info, hinfo, hp⟩ => ?_, fun hp => ⟨_, hmeans, hp⟩⟩
    exact hmeans.unique hinfo hwf ▸ hp

end SourceRef

theorem Database.WellFormed.checkSource_iff {db : Database} (hwf : db.WellFormed) {range : ObjectId}
    (hrange : ∃ t, db.tables[range]? = some t) {info : ObjectInfo}
    (hobject : db.object? info.id = some info) :
    db.checkSource range info.id = .ok () ↔ info.Feeds range := by
  rw [checkSource_eq_ok, kind?_of_get hobject, ObjectInfo.Feeds]
  constructor
  · rintro (⟨valueType, hkind⟩ | ⟨heq, -⟩)
    · exact .inr ⟨valueType, Option.some.inj hkind⟩
    · exact .inl heq
  · rintro (heq | ⟨valueType, hkind⟩)
    · obtain ⟨t, ht⟩ := hrange
      obtain ⟨keyType, tokenizer, hkind⟩ := hwf.catalogued.table ht
      rw [← heq, kind?_of_get hobject] at hkind
      exact .inr ⟨heq, _, _, _, hkind⟩
    · exact .inl ⟨valueType, congrArg some hkind⟩

/-! ## Calls on a clean session -/

namespace Session
variable {s : Session}

/-- With an empty slot, a call that leaves the database alone when it fails leaves everything alone
then: settling takes its error out of the slot again. -/
theorem settle_call (hclean : s.pending = none) {α : Type} {outcome : Outcome α}
    (hkeep : ∀ e, outcome.1 = .error e → outcome.2 = s.database) :
    (s.call outcome).2.settle (s.call outcome).1 =
      (outcome.1, { s with database := outcome.2 }) := by
  obtain ⟨answer, db⟩ := outcome
  cases answer with
  | ok a =>
    have hclean' : { s with database := db }.pending = none := hclean
    exact settle_of_clean hclean' _
  | error e =>
    obtain rfl : db = s.database := hkeep e rfl
    obtain ⟨db, context, next⟩ := s
    cases context with
    | none => cases e <;> rfl
    | some context =>
      obtain ⟨number, error⟩ := context
      obtain rfl : error = none := hclean
      cases e <;> rfl

end Session

namespace IndexColumn
variable {c : IndexColumn} {s : Session} {i : Nat} {ix : Index}

theorem Usable.isOpen (h : c.Usable s i) : c.isBound ∧ s.isOpen c.context := by
  obtain ⟨scratch, hparts⟩ := h.parts
  obtain ⟨hopen, hscratch⟩ := parts_eq_ok.1 hparts
  exact ⟨by rw [isBound, hscratch]; rfl, hopen⟩

theorem Usable.sources (h : c.Usable s i) (hix : s.database.indexes[i]? = some ix)
    {infos : List ObjectInfo} (hsources : ix.sources = infos.map ObjectInfo.id)
    (hinfos : ∀ info ∈ infos, s.database.object? info.id = some info ∧ Word.Fits info.id) :
    c.sources s = (.ok infos, s) := by
  obtain ⟨hbound, hopen⟩ := h.isOpen
  have hids : s.database.sourceIds c.id = .ok ix.sources := by
    simp only [Database.sourceIds, h.id_eq, Database.index, hix]
    rfl
  have hpacked : s.sourceInfo c.id (.empty nilId false) =
      (.ok ((Buffer.empty nilId false).setIds ix.sources), s) := by
    rw [Session.sourceInfo, hids]
    rfl
  have hread : ((Buffer.empty nilId false).setIds ix.sources).ids = .ok ix.sources := by
    refine Buffer.ids_setIds _ fun id hid => ?_
    rw [hsources] at hid
    obtain ⟨info, hinfo, rfl⟩ := List.mem_map.1 hid
    exact (hinfos info hinfo).2
  have hobjects : ix.sources.mapM (sourceObject s.database) = .ok infos := by
    have hobject : ∀ info ∈ infos, (sourceObject s.database ∘ ObjectInfo.id) info = .ok info := by
      intro info hinfo
      simp only [Function.comp, sourceObject, (hinfos info hinfo).1]
    rw [hsources, List.mapM_map, mapM_eq_ok (g := fun info => info) hobject, List.map_id']
  simp only [IndexColumn.sources, hbound, hopen, hpacked, Session.settle_of_clean h.clean, hread,
    Bool.not_true, Bool.or_false, Bool.false_eq_true, if_false]
  exact Prod.ext hobjects rfl

/-- With a reference that cannot be resolved, the engine sees none of them. -/
theorem Usable.setSources_unresolved (h : c.Usable s i) {refs : List SourceRef} {fault : Error}
    (hids : refs.mapM (SourceRef.resolve s.database) = .error fault) :
    c.setSources s refs = (.error fault, s) := by
  obtain ⟨scratch, hparts⟩ := h.parts
  have hresolved : (do
      let _ ← c.parts s
      refs.mapM (SourceRef.resolve s.database)) = .error fault := by
    rw [hparts]
    exact hids
  simp only [IndexColumn.setSources, hresolved]

/-- With references that can be resolved, the call comes down to the engine's. -/
theorem Usable.setSources (h : c.Usable s i) {refs : List SourceRef} {ids : List ObjectId}
    (hids : refs.mapM (SourceRef.resolve s.database) = .ok ids) (hfits : ∀ id ∈ ids, Word.Fits id) :
    c.setSources s refs = match s.database.installSources i ids with
      | .ok db => (.ok (), { s with database := db })
      | .error e => (.error e, s) := by
  obtain ⟨scratch, hparts⟩ := h.parts
  have hresolved : (do
      let _ ← c.parts s
      refs.mapM (SourceRef.resolve s.database)) = .ok ids := by
    rw [hparts]
    exact hids
  have hengine : s.database.setSourceInfo i ((Buffer.empty nilId false).setIds ids) =
      match s.database.installSources i ids with
      | .ok db => (.ok (), db)
      | .error e => (.error e, s.database) := by
    simp only [Database.setSourceInfo, Buffer.ids_setIds _ hfits]
    change s.database.attempt (s.database.installSources i ids >>= fun db => pure ((), db)) = _
    cases s.database.installSources i ids <;> rfl
  simp only [IndexColumn.setSources, hresolved, Session.setSourceInfo, h.id_eq, hengine]
  rw [Session.settle_call h.clean]
  · cases s.database.installSources i ids <;> rfl
  · cases s.database.installSources i ids with
    | ok db => exact fun e he => by cases he
    | error e => exact fun _ _ => rfl

/-- In every state that a run reaches, with an empty slot, a handle on an index takes a list of
references exactly if each means a live object that is the range of the index or a value column of
it. Then the sources are these objects in the order of the list, repeated ones as often as the list
has them. Otherwise the whole session is as it was before, the slot still empty. -/
theorem setSources_spec (hreached : Database.Reached Database.OwnFiles s.database)
    (hnarrow : Word.Fits s.database.nextId) (hc : c.Usable s i)
    (hix : s.database.indexes[i]? = some ix) (refs : List SourceRef) :
    ((c.setSources s refs).1 = .ok () ↔
        ∀ ref ∈ refs, ∃ info, ref.Means s.database info ∧ info.Feeds ix.range) ∧
      ((c.setSources s refs).1 = .ok () → ∃ infos,
        List.Forall₂ (SourceRef.Means s.database) refs infos ∧
          c.sources (c.setSources s refs).2 = (.ok infos, (c.setSources s refs).2)) ∧
      ∀ e, (c.setSources s refs).1 = .error e → (c.setSources s refs).2 = s := by
  have hwf := hreached.wellFormed_of_ownFiles
  cases hids : refs.mapM (SourceRef.resolve s.database) with
  | error fault =>
    rw [hc.setSources_unresolved hids]
    refine ⟨⟨nofun, fun hall => ?_⟩, nofun, fun _ _ => rfl⟩
    obtain ⟨infos, hinfos⟩ := SourceRef.exists_means fun ref href =>
      (hall ref href).imp fun _ h => h.1
    cases hids.symm.trans ((SourceRef.mapM_resolve_eq_ok hwf).2 ⟨infos, hinfos, rfl⟩)
  | ok ids =>
    obtain ⟨infos, hinfos, rfl⟩ := (SourceRef.mapM_resolve_eq_ok hwf).1 hids
    have hobjects : ∀ info ∈ infos, s.database.object? info.id = some info ∧ Word.Fits info.id := by
      refine (SourceRef.forall_means_iff hwf hinfos).1 fun ref href => ?_
      obtain ⟨info, hmeans, -⟩ := (SourceRef.forall_means_iff (p := fun _ => True) hwf hinfos).2
        (fun _ _ => trivial) ref href
      have hobject := hmeans.object hwf
      exact ⟨info, hmeans, hobject, Nat.lt_trans (hwf.catalogued.id_lt hobject) hnarrow⟩
    have hfits : ∀ id ∈ infos.map ObjectInfo.id, Word.Fits id := by
      intro id hid
      obtain ⟨info, hinfo, rfl⟩ := List.mem_map.1 hid
      exact (hobjects info hinfo).2
    have hcheck : (∀ id ∈ infos.map ObjectInfo.id, s.database.checkSource ix.range id = .ok ()) ↔
        ∀ info ∈ infos, info.Feeds ix.range := by
      rw [List.forall_mem_map]
      exact forall₂_congr fun info hinfo =>
        hwf.checkSource_iff (hwf.catalogued.range hix) (hobjects info hinfo).1
    rw [hc.setSources hids hfits, SourceRef.forall_means_iff hwf hinfos, ← hcheck]
    cases hinstall : s.database.installSources i (infos.map ObjectInfo.id) with
    | error e =>
      refine ⟨⟨nofun, fun hall => ?_⟩, nofun, fun _ _ => rfl⟩
      obtain ⟨db', hok⟩ := hwf.installSources_of_check .ascending hix hall
      cases hinstall.symm.trans hok
    | ok db' =>
      obtain ⟨jx, deltas, hjx, hall, -, -⟩ := Database.installSources_eq_ok (e := .ascending) hinstall
      obtain rfl := Option.some.inj (hix.symm.trans hjx)
      refine ⟨⟨fun _ => hall, fun _ => rfl⟩, fun _ => ⟨infos, hinfos, ?_⟩, nofun⟩
      obtain ⟨-, hrewired, -⟩ := hwf.installSources (e := .ascending) hinstall
      have hsources := hrewired.sources i
      rw [if_pos rfl, Option.map_eq_some_iff] at hsources
      obtain ⟨jx, hjx, hsources⟩ := hsources
      refine (hc.withDatabase db').sources hjx hsources fun info hinfo => ?_
      rw [Database.object?, hrewired.same.objects]
      exact hobjects info hinfo

def notesIndex : IndexColumn :=
  ⟨0, 260, 256, 257, false, some ⟨.empty 257 false, .empty 257 false, .empty 256 false,
    .empty nilId true⟩⟩

/-- The index of the notes takes their title, their body and the title again. It takes nothing when
an index column comes after a good reference. -/
theorem setSources_spec_notes :
    (∃ infos, List.Forall₂ (SourceRef.Means Database.notes) [.byName "Notes.title",
        .held ⟨259, none, .type .text⟩, .byId 258] infos ∧
      (notesIndex.sources (notesIndex.setSources (.start Database.notes) [.byName "Notes.title",
        .held ⟨259, none, .type .text⟩, .byId 258]).2).1 = .ok infos) ∧
    (notesIndex.setSources (.start Database.notes) [.byName "Notes.body", .byId 260]).1 =
        .error (.engine .invalidArgument "source #260 is not a column of table #257") ∧
      (notesIndex.setSources (.start Database.notes) [.byName "Notes.body", .byId 260]).2 =
        .start Database.notes := by
  have hreached := Database.reached_ownFiles_notes
  have hnarrow : Word.Fits Database.notes.nextId := by decide +kernel
  have hbound : bind (.start Database.notes) 260 false = .ok notesIndex := by decide +kernel
  have husable := usable_of_bind hbound rfl
  have hix : Database.notes.indexes[260]? = some (Database.notes.indexes[260]?.get
      (by decide +kernel)) := (Option.some_get _).symm
  constructor
  · obtain ⟨-, hsources, -⟩ := setSources_spec (s := .start Database.notes) hreached hnarrow husable
      hix [.byName "Notes.title", .held ⟨259, none, .type .text⟩, .byId 258]
    obtain ⟨infos, hinfos, hsources⟩ := hsources (by decide +kernel)
    exact ⟨infos, hinfos, congrArg Prod.fst hsources⟩
  · have hrefused : (notesIndex.setSources (.start Database.notes)
        [.byName "Notes.body", .byId 260]).1 =
          .error (.engine .invalidArgument "source #260 is not a column of table #257") := by
      decide +kernel
    obtain ⟨-, -, hkept⟩ := setSources_spec (s := .start Database.notes) hreached hnarrow husable
      hix [.byName "Notes.body", .byId 260]
    exact ⟨hrefused, hkept _ hrefused⟩

end IndexColumn
end Concordance
