import Concordance.Database.Update
import Concordance.Proofs.Defining
import Concordance.Proofs.FeedOrder
import Concordance.Proofs.NewDatabase
import Concordance.Proofs.Removing
import Concordance.Snapshot

/-! # Runs

The calls that change a database, and the databases that they reach from a new one. Each call visits
the entries of hash maps in an order of its own. Every call but a reopening keeps a database
well-formed, and every one that brings no texts of its own follows the texts that are stored.
-/
namespace Concordance

/-- A call that may change a database, in any order of enumeration. `reopen` loads the snapshot that
holds an image. -/
inductive Call where
  | createTable (name : Option String) (config : TableConfig)
  | defineColumn (table : ObjectId) (name : String) (valueType : DataType)
  | defineIndex (lexicon : ObjectId) (name : String) (range : ObjectId) (config : IndexConfig)
    (e : HashOrder := .ascending)
  | addRecord (table : ObjectId)
  | addRecordWithKey (table : ObjectId) (key : String) (e : HashOrder := .ascending)
  | setValue (column : ObjectId) (record : RecordId) (v : Json) (e : HashOrder := .ascending)
  | deleteRecord (table : ObjectId) (record : RecordId) (e : HashOrder := .ascending)
  | setSourceInfo (index : ObjectId) (sources : Buffer) (e : HashOrder := .ascending)
  | indexUpdate (index : ObjectId) (record : RecordId) (sec : Nat) (old new : Option Buffer)
  | removeObject (id : ObjectId) (e : HashOrder := .ascending)
  | reopen (image : Image)

namespace Call

def InPlace : Call → Prop
  | reopen _ => False
  | _ => True

/-- A call that changes postings only as it changes what the sources hold. -/
def Indexed : Call → Prop
  | indexUpdate .. | reopen _ => False
  | _ => True

end Call

namespace Database
variable {db db' : Database}

/-- The database after a call, whether it succeeded or failed. -/
def after (db : Database) : Call → Database
  | .createTable name config => (db.createTable name config).2
  | .defineColumn table name valueType => (db.defineColumn table name valueType).2
  | .defineIndex lexicon name range config e => (e.defineIndex db lexicon name range config).2
  | .addRecord table => (db.addRecord table).2
  | .addRecordWithKey table key e => (e.addRecordWithKey db table key).2
  | .setValue column record v e => (e.setValue db column record v).2
  | .deleteRecord table record e => (e.deleteRecord db table record).2
  | .setSourceInfo index sources e => (e.setSourceInfo db index sources).2
  | .indexUpdate index record sec old new => (db.indexUpdate index record sec old new).2
  | .removeObject id e => (e.removeObject db id).2
  | .reopen image =>
    match Snapshot.load (Snapshot.ofPayload (Image.codec.write image)) with
    | .ok loaded => loaded
    | .error _ => db

/-- The databases that runs of allowed calls reach from a new one. -/
inductive Reached (allowed : Database → Call → Prop) : Database → Prop
  | new : Reached allowed new
  | after {db : Database} (call : Call) (reached : Reached allowed db) (ok : allowed db call) :
    Reached allowed (db.after call)

theorem Reached.imp {allowed allowed' : Database → Call → Prop}
    (himp : ∀ db call, allowed db call → allowed' db call) (h : Reached allowed db) :
    Reached allowed' db := by
  induction h with
  | new => exact .new
  | after call _ hok ih => exact .after call ih (himp _ _ hok)

inductive Leads (allowed : Database → Call → Prop) (start : Database) : Database → Prop
  | refl : Leads allowed start start
  | after {db : Database} (call : Call) (leads : Leads allowed start db) (ok : allowed db call) :
    Leads allowed start (db.after call)

theorem Leads.imp {allowed allowed' : Database → Call → Prop}
    (himp : ∀ db call, allowed db call → allowed' db call) (h : Leads allowed db db') :
    Leads allowed' db db' := by
  induction h with
  | refl => exact .refl
  | after call _ hok ih => exact .after call ih (himp _ _ hok)

theorem Reached.leads {allowed : Database → Call → Prop} (h : Reached allowed db)
    (hl : Leads allowed db db') : Reached allowed db' := by
  induction hl with
  | refl => exact h
  | after call _ hok ih => exact .after call ih hok

/-! ## The remaining calls -/

theorem setSourceInfo_cases {e : HashOrder} {index : Nat} {sources : Buffer}
    {outcome : Except Error Unit} (hcall : e.setSourceInfo db index sources = (outcome, db')) :
    db' = db ∨ ∃ ids, e.installSources db index ids = .ok db' := by
  rcases attempt_inv hcall with ⟨u, hok, -⟩ | ⟨err, -, -, heq⟩
  · right
    cases hids : sources.ids with
    | error err =>
      simp only [hids] at hok
      cases hok
    | ok ids =>
      simp only [hids] at hok
      obtain ⟨_, hpure, hok⟩ := bind_eq_ok.1 hok
      cases hpure
      obtain ⟨installed, hinstall, hok⟩ := bind_eq_ok.1 hok
      cases hok
      exact ⟨ids, hinstall⟩
  · exact .inl heq

theorem WellFormed.setSourceInfo (h : db.WellFormed) {e : HashOrder} {index : Nat}
    {sources : Buffer} {outcome : Except Error Unit}
    (hcall : e.setSourceInfo db index sources = (outcome, db')) :
    db'.WellFormed ∧ Follows (db'.Settled db.GivenOut) db db' := by
  rcases setSourceInfo_cases hcall with rfl | ⟨ids, hinstall⟩
  · exact ⟨h, .refl _⟩
  · obtain ⟨hwf, -, hfollows⟩ := h.installSources hinstall
    exact ⟨hwf, hfollows⟩

theorem indexUpdate_eq_ok {index record sec : Nat} {old new : Option Buffer}
    (h : db.indexUpdate index record sec old new = (.ok (), db')) :
    ∃ ix oldTexts newTexts, sideTexts old = .ok oldTexts ∧ sideTexts new = .ok newTexts ∧
      0 < sec ∧ db.indexes[index]? = some ix ∧ db.isLive ix.range record ∧
        db' = db.applyDelta index ⟨record, sec, oldTexts, newTexts⟩ := by
  rcases attempt_inv h with ⟨u, hok, -⟩ | ⟨e, -, hanswer, -⟩
  · by_cases hsec : sec = 0
    · simp only [hsec, if_true] at hok
      cases hok
    · simp only [hsec, if_false] at hok
      obtain ⟨oldTexts, hold, hok⟩ := bind_eq_ok.1 hok
      obtain ⟨newTexts, hnew, hok⟩ := bind_eq_ok.1 hok
      obtain ⟨ix, hix, hok⟩ := bind_eq_ok.1 hok
      cases hlive : db.isLive ix.range record with
      | false =>
        simp only [hlive] at hok
        cases hok
      | true =>
        simp only [hlive] at hok
        cases hok
        exact ⟨ix, oldTexts, newTexts, hold, hnew, Nat.pos_of_ne_zero hsec, index_eq_ok.1 hix,
          hlive, rfl⟩
  · cases hanswer

theorem indexUpdate_cases {index record sec : Nat} {old new : Option Buffer}
    {outcome : Except Error Unit}
    (h : db.indexUpdate index record sec old new = (outcome, db')) : db' = db ∨
      ∃ ix oldTexts newTexts, 0 < sec ∧ db.indexes[index]? = some ix ∧
        db.isLive ix.range record ∧
          db' = db.applyDelta index ⟨record, sec, oldTexts, newTexts⟩ := by
  rcases attempt_inv h with ⟨u, -, rfl⟩ | ⟨e, -, -, heq⟩
  · obtain ⟨ix, oldTexts, newTexts, -, -, hdelta⟩ := indexUpdate_eq_ok h
    exact .inr ⟨ix, oldTexts, newTexts, hdelta⟩
  · exact .inl heq

theorem WellFormed.indexUpdate (h : db.WellFormed) {index record sec : Nat}
    {old new : Option Buffer} {outcome : Except Error Unit}
    (hcall : db.indexUpdate index record sec old new = (outcome, db')) : db'.WellFormed := by
  rcases indexUpdate_cases hcall with rfl | ⟨ix, oldTexts, newTexts, -, hix, hlive, rfl⟩
  · exact h
  · have hreceives : db.Receives (index, ⟨record, sec, oldTexts, newTexts⟩) := .of_get hix hlive
    exact h.applyDelta hreceives

/-! ## Orders that make no difference -/

section Fed
variable (h : db.WellFormed)
include h

theorem WellFormed.after_addRecordWithKey (table : ObjectId) (key : String) (e : HashOrder) :
    db.after (.addRecordWithKey table key e) = (db.addRecordWithKey table key).2 :=
  congrArg Prod.snd (e.addRecordWithKey_eq h table key)

theorem WellFormed.after_setValue (column : ObjectId) (record : RecordId) (v : Json)
    (e : HashOrder) :
    db.after (.setValue column record v e) = (db.setValue column record v).2 :=
  congrArg Prod.snd (e.setValue_eq h column record v)

theorem WellFormed.after_deleteRecord (table : ObjectId) (record : RecordId) (e : HashOrder) :
    db.after (.deleteRecord table record e) = (db.deleteRecord table record).2 :=
  congrArg Prod.snd (e.deleteRecord_eq h table record)

end Fed

/-! ## One step -/

/-- A call that deletes no record of a lexicon. -/
def KeepsTerms (db : Database) : Call → Prop
  | .deleteRecord table record _ =>
    (db.deleteRecord table record).1 = .ok () → ¬ db.IsLexicon table
  | _ => True

/-- A call that deletes no record of the index's lexicon. -/
def KeepsTermsOf (db : Database) (i : Nat) : Call → Prop
  | .deleteRecord table record _ =>
    (db.deleteRecord table record).1 = .ok () → ¬ db.IsLexiconOf i table
  | _ => True

theorem KeepsTerms.keepsTermsOf {call : Call} (h : db.KeepsTerms call) (i : Nat) :
    db.KeepsTermsOf i call := by
  cases call with
  | deleteRecord table record => exact fun hok ⟨ix, hix, hlexicon⟩ => h hok ⟨i, ix, hix, hlexicon⟩
  | _ => trivial

/-- A call that enters a record in a table under a key of the caller's. -/
def Enters (db : Database) (table record : Nat) : Call → Prop
  | .addRecordWithKey target key _ =>
    target = table ∧ (db.addRecordWithKey target key).1 = .ok record
  | _ => False

/-- The records of a table that a call knows before it feeds an index: those whose ids have been
given out, and the one that it enters. -/
def Knows (db : Database) (call : Call) (table record : Nat) : Prop :=
  db.GivenOut table record ∨ db.Enters table record call

theorem Settled.givenOut {call : Call} {i r : Nat} (h : db'.Settled (db.Knows call) i r)
    (hcall : ∀ table, ¬ db.Enters table r call) : db'.Settled db.GivenOut i r :=
  h.imp fun _ hknows => hknows.resolve_right (hcall _)

/-- A call that brings no texts of its own follows the texts that are stored. It does so exactly
for an index and a record unless it deletes a term of the index, or itself brings in the key of the
record as a term while the index lists the lexicon as a source. -/
theorem WellFormed.step (h : db.WellFormed) {call : Call} (hcall : call.Indexed) :
    (db.after call).WellFormed ∧
      Follows (fun i r => (db.after call).Settled (db.Knows call) i r ∧ db.KeepsTermsOf i call)
        db (db.after call) := by
  cases call with
  | createTable name config =>
    exact (h.createTable (Prod.eta _).symm).imp_right fun hf => hf.imp fun _ _ _ => trivial
  | defineColumn table name valueType =>
    exact (h.defineColumn (Prod.eta _).symm).imp_right fun hf => hf.imp fun _ _ _ => trivial
  | defineIndex lexicon name range config e =>
    refine (h.defineIndex (Prod.eta _).symm).imp_right fun hf => hf.imp fun _ _ hexact => ?_
    exact hexact.1.givenOut fun _ => not_false
  | addRecord table =>
    exact (h.addRecord (Prod.eta _).symm).imp_right fun hf => hf.imp fun _ _ _ => trivial
  | addRecordWithKey table key e =>
    rw [h.after_addRecordWithKey]
    refine (h.addRecordWithKey (Prod.eta _).symm).imp_right fun hf => hf.imp fun _ _ hexact => ?_
    refine hexact.1.imp fun _ hknows => hknows.imp_right ?_
    rintro ⟨rfl, hok⟩
    exact ⟨rfl, hok⟩
  | setValue column record v e =>
    rw [h.after_setValue]
    refine (h.setValue (Prod.eta _).symm).imp_right fun hf => hf.imp fun _ _ hexact => ?_
    exact hexact.1.givenOut fun _ => not_false
  | deleteRecord table record e =>
    rw [h.after_deleteRecord]
    refine (h.deleteRecord (Prod.eta _).symm).imp_right fun hf => hf.imp fun _ _ hexact => ?_
    exact ⟨hexact.1.givenOut fun _ => not_false, hexact.2⟩
  | setSourceInfo index sources e =>
    refine (h.setSourceInfo (Prod.eta _).symm).imp_right fun hf => hf.imp fun _ _ hexact => ?_
    exact hexact.1.givenOut fun _ => not_false
  | removeObject id e =>
    refine (h.removeObject (Prod.eta _).symm).imp_right fun hf => hf.imp fun _ _ hexact => ?_
    exact hexact.1.givenOut fun _ => not_false
  | indexUpdate index record sec old new => exact hcall.elim
  | reopen image => exact hcall.elim

/-- A call other than a reopening keeps a database well-formed. -/
theorem WellFormed.after (h : db.WellFormed) {call : Call} (hcall : call.InPlace) :
    (db.after call).WellFormed := by
  cases call with
  | indexUpdate index record sec old new => exact h.indexUpdate (Prod.eta _).symm
  | reopen image => exact hcall.elim
  | _ => exact (h.step (by trivial)).1

end Database
end Concordance
