import Concordance.IndexColumn.Assign
import Concordance.Proofs.Buffers
import Concordance.Proofs.Revisions

/-! # Updates by hand

What an update through a handle does when nothing stands against it: the values come to the index as
the texts that the index would see in them, though they go through buffers and a null is not written
at all. So updates in several sections come down to deltas.
-/
namespace Concordance

theorem Session.settle_of_clean {s : Session} (h : s.pending = none) {α : Type}
    (answer : Except Error α) : s.settle answer = (answer, s) := by
  simp only [settle, check, h]

theorem Database.indexUpdate_of_texts {db : Database} {i record sec : Nat} {ix : Index}
    {old new : Option Buffer} {oldTexts newTexts : List String}
    (hix : db.indexes[i]? = some ix) (hlive : db.isLive ix.range record) (hsec : 0 < sec)
    (hold : sideTexts old = .ok oldTexts) (hnew : sideTexts new = .ok newTexts) :
    db.indexUpdate i record sec old new =
      (.ok (), db.applyDelta i ⟨record, sec, oldTexts, newTexts⟩) := by
  have hpositive : sec ≠ 0 := Nat.ne_of_gt hsec
  simp [indexUpdate, attempt, index, hpositive, hold, hnew, hix, hlive, bind, Except.bind, pure,
    Except.pure]

namespace IndexColumn

/-- A side of an update comes to the engine as the texts of its value. A null is left out like an
absent side, and has none. -/
theorem fill_present (b : Buffer) {side : Option Json} {texts : List String}
    (htexts : side.elim (.ok []) Json.indexTexts = .ok texts) : ∃ filled b',
      fill b (UpdateOptions.present side) = (.ok filled, b') ∧
        Database.sideTexts filled = .ok texts := by
  cases side with
  | none => exact ⟨none, b, rfl, htexts⟩
  | some v =>
    rw [Option.elim_some] at htexts
    cases hnull : v.isNull with
    | true =>
      cases v with
      | null => exact ⟨none, b, rfl, htexts⟩
      | _ => cases hnull
    | false =>
      obtain ⟨hwritten, hseen⟩ := b.isEmpty_rewind.appendValue htexts
      refine ⟨some (b.rewind.appendValue v).2, (b.rewind.appendValue v).2, ?_, ?_⟩
      · simp only [UpdateOptions.present, Option.filter, hnull, Bool.not_false, if_true, fill]
        rw [← Prod.eta (b.rewind.appendValue v), hwritten]
      · simp only [Database.sideTexts, hseen]

/-- The handle is one on the index, and can be used. -/
structure Usable (c : IndexColumn) (s : Session) (i : Nat) : Prop where
  id_eq : c.id = i
  parts : ∃ scratch, c.parts s = .ok scratch
  clean : s.pending = none

variable {c : IndexColumn} {s : Session} {i : Nat}

theorem parts_eq_ok {scratch : Scratch} :
    c.parts s = .ok scratch ↔ s.isOpen c.context ∧ c.scratch = some scratch := by
  unfold IndexColumn.parts
  cases s.isOpen c.context <;> cases c.scratch <;> simp

theorem exists_of_bind {owner : Bool} (h : bind s i owner = .ok c) : ∃ context info scratch,
    s.context = some context ∧ s.database.object? i = some info ∧
      Scratch.new s info.domain info.range = .ok scratch ∧
        c = ⟨context.number, i, info.domain, info.range, owner, some scratch⟩ := by
  unfold bind at h
  split at h
  · cases h
  · rename_i context hcontext
    split at h
    · cases h
    · rename_i info hinfo
      split at h
      · cases h
      · cases hscratch : Scratch.new s info.domain info.range with
        | error e =>
          rw [hscratch] at h
          cases h
        | ok scratch =>
          rw [hscratch] at h
          cases h
          exact ⟨context, info, scratch, hcontext, hinfo, hscratch, rfl⟩

theorem usable_of_bind {owner : Bool} (h : bind s i owner = .ok c) (hclean : s.pending = none) :
    c.Usable s i := by
  obtain ⟨context, info, scratch, hcontext, -, -, rfl⟩ := exists_of_bind h
  exact ⟨rfl, ⟨scratch, parts_eq_ok.2 ⟨by simp [Session.isOpen, hcontext], rfl⟩⟩, hclean⟩

/-- Neither another database in the session nor other buffers stand in the way of a handle. -/
theorem Usable.goOn (h : c.Usable s i) (db : Database) (scratch : Scratch) :
    (c.withScratch scratch).Usable { s with database := db } i where
  id_eq := h.id_eq
  parts := by
    obtain ⟨before, hparts⟩ := h.parts
    exact ⟨scratch, parts_eq_ok.2 ⟨(parts_eq_ok.1 hparts).1, rfl⟩⟩
  clean := h.clean

theorem Usable.withDatabase (h : c.Usable s i) (db : Database) :
    c.Usable { s with database := db } i := ⟨h.id_eq, h.parts, h.clean⟩

/-- An update of a live record succeeds when the values on its sides have texts, and tells the index
these. -/
theorem Usable.assignOptions (h : c.Usable s i) {ix : Index}
    (hix : s.database.indexes[i]? = some ix) {record sec : Nat}
    (hlive : s.database.isLive ix.range record) (hsec : 0 < sec) {old new : Option Json}
    {oldTexts newTexts : List String} (hold : old.elim (.ok []) Json.indexTexts = .ok oldTexts)
    (hnew : new.elim (.ok []) Json.indexTexts = .ok newTexts) :
    ∃ scratch, c.assignOptions s record ⟨some sec, old, new⟩ = ⟨.ok (), c.withScratch scratch,
      { s with database := s.database.applyDelta i ⟨record, sec, oldTexts, newTexts⟩ }⟩ := by
  obtain ⟨scratch, hparts⟩ := h.parts
  obtain ⟨oldSide, oldBuffer, hfillOld, hsideOld⟩ := fill_present scratch.oldValue hold
  obtain ⟨newSide, newBuffer, hfillNew, hsideNew⟩ := fill_present scratch.value hnew
  have hsection : UpdateOptions.effectiveSection ⟨some sec, old, new⟩ = .ok sec := by
    obtain ⟨n, rfl⟩ := Nat.exists_eq_succ_of_ne_zero (Nat.ne_of_gt hsec)
    rfl
  have hprepare : c.prepare s (.options ⟨some sec, old, new⟩) =
      .ok (.options ⟨some sec, old, new⟩, sec, scratch) :=
    bind_eq_ok.2 ⟨_, rfl, bind_eq_ok.2 ⟨_, hsection, bind_eq_ok.2 ⟨_, hparts, rfl⟩⟩⟩
  have hengine := Database.indexUpdate_of_texts hix hlive hsec hsideOld hsideNew
  have hsettle := Session.settle_of_clean
    (h.withDatabase (s.database.applyDelta i ⟨record, sec, oldTexts, newTexts⟩)).clean
    (Except.ok ())
  refine ⟨{ scratch with oldValue := oldBuffer, value := newBuffer }, ?_⟩
  simp only [IndexColumn.assignOptions, assign, hprepare, UpdateArg.oldSide, UpdateArg.newSide,
    hfillOld, hfillNew, Session.indexUpdate, h.id_eq, Session.call, hengine, hsettle]
  rfl

theorem Usable.assignOptions_goOn (h : c.Usable s i) (hwf : s.database.WellFormed) {ix : Index}
    (hix : s.database.indexes[i]? = some ix) {record sec : Nat}
    (hlive : s.database.isLive ix.range record) (hsec : 0 < sec) (old new : Option Json)
    {oldTexts newTexts : List String} (hold : old.elim (.ok []) Json.indexTexts = .ok oldTexts)
    (hnew : new.elim (.ok []) Json.indexTexts = .ok newTexts) :
    let db := s.database.applyDelta i ⟨record, sec, oldTexts, newTexts⟩
    (∃ c', c.assignOptions s record ⟨some sec, old, new⟩ =
        ⟨.ok (), c', { s with database := db }⟩ ∧ c'.Usable { s with database := db } i) ∧
      db.WellFormed ∧ ∃ jx, db.indexes[i]? = some jx ∧ jx.frame = ix.frame ∧
        db.isLive jx.range record := by
  obtain ⟨scratch, hupdate⟩ := h.assignOptions hix hlive hsec hold hnew
  have hreceives : s.database.Receives (i, ⟨record, sec, oldTexts, newTexts⟩) := .of_get hix hlive
  have hfed := hwf.fed_applyDelta i ⟨record, sec, oldTexts, newTexts⟩
  obtain ⟨jx, hjx, hframe⟩ := hfed.index' hix
  refine ⟨⟨_, hupdate, h.goOn _ scratch⟩, hwf.applyDelta hreceives, jx, hjx, hframe, ?_⟩
  exact (Index.frame_eq_iff.1 hframe).2.1 ▸ hfed.isLive hlive

/-! ## Updates in several sections -/

/-- Updates a record through the handle in one section after another, and stops at an error. -/
def updateAll (record : RecordId) (old new : Json) :
    List Nat → Session × IndexColumn → Except Error (Session × IndexColumn)
  | [], state => .ok state
  | sec :: rest, (s, c) =>
    match c.update s record old new sec with
    | ⟨.ok (), c, s⟩ => updateAll record old new rest (s, c)
    | ⟨.error e, _, _⟩ => .error e

def changesIn (i record : Nat) (old new : List String) (secs : List Nat) :
    List (ObjectId × Delta) :=
  secs.map fun sec => (i, ⟨record, sec, old, new⟩)

/-- Updates in several sections succeed, and come down to one delta for each section. -/
theorem Usable.updateAll (h : c.Usable s i) (hwf : s.database.WellFormed) {ix : Index}
    (hix : s.database.indexes[i]? = some ix) {record : Nat}
    (hlive : s.database.isLive ix.range record) {old new : Json} {oldTexts newTexts : List String}
    (hold : old.indexTexts = .ok oldTexts) (hnew : new.indexTexts = .ok newTexts)
    {secs : List Nat} (hsecs : ∀ sec ∈ secs, 0 < sec) :
    let db := s.database.carry (changesIn i record oldTexts newTexts secs)
    ∃ c', IndexColumn.updateAll record old new secs (s, c) = .ok ({ s with database := db }, c') ∧
      c'.Usable { s with database := db } i := by
  induction secs generalizing c s ix with
  | nil => exact ⟨c, rfl, h⟩
  | cons sec rest ih =>
    obtain ⟨hsec, hrest⟩ := List.forall_mem_cons.1 hsecs
    obtain ⟨⟨c₁, hupdate, husable₁⟩, hwf₁, jx, hjx, -, hlive₁⟩ :=
      h.assignOptions_goOn hwf hix hlive hsec (some old) (some new) hold hnew
    obtain ⟨c', hrun, husable⟩ := ih husable₁ hwf₁ hjx hlive₁ hrest
    refine ⟨c', ?_, husable⟩
    simp only [IndexColumn.updateAll, IndexColumn.update, hupdate]
    exact hrun

end IndexColumn
end Concordance
