import Concordance.Proofs.Reopening

/-! # Refused calls

A call that answers an error has changed nothing, although some calls answer their last errors after
they have begun to change things: those errors never come. The one trace that a refused call leaves
is the id of an index whose sources were turned down.
-/
namespace Concordance.Database
variable {db : Database}

def errorOf : Except Error α → Option Error
  | .ok _ => none
  | .error e => some e

theorem errorOf_eq_some {outcome : Except Error α} {e : Error} :
    errorOf outcome = some e ↔ outcome = .error e := by
  cases outcome <;> simp [errorOf]

def refusal? (db : Database) : Call → Option Error
  | .createTable name config => errorOf (db.createTable name config).1
  | .defineColumn table name valueType => errorOf (db.defineColumn table name valueType).1
  | .defineIndex lexicon name range config e =>
    errorOf (e.defineIndex db lexicon name range config).1
  | .addRecord table => errorOf (db.addRecord table).1
  | .addRecordWithKey table key e => errorOf (e.addRecordWithKey db table key).1
  | .setValue column record v e => errorOf (e.setValue db column record v).1
  | .deleteRecord table record e => errorOf (e.deleteRecord db table record).1
  | .setSourceInfo index sources e => errorOf (e.setSourceInfo db index sources).1
  | .indexUpdate index record sec old new => errorOf (db.indexUpdate index record sec old new).1
  | .removeObject id e => errorOf (e.removeObject db id).1
  | .reopen image => errorOf (Snapshot.load (Snapshot.ofPayload (Image.codec.write image)))

/-- The call finds nothing wrong with a new index before its sources are installed. -/
def InstallsNew (db : Database) : Call → Prop
  | .defineIndex lexicon name range config _ =>
    ∃ plan, db.planIndex lexicon name range config = .ok plan
  | _ => False

theorem snd_of_attempt_error {call : Except Error (α × Database)} {e : Error}
    (h : errorOf (db.attempt call).1 = some e) : (db.attempt call).2 = db :=
  attempt_error (e := e) (by rw [← errorOf_eq_some.1 h])

/-- A call that either changes nothing or succeeds changes nothing when it is refused. -/
theorem unchanged_of_cases {db' : Database} {outcome : Except Error Unit} {e : Error} {done : Prop}
    (hcases : (∃ e, outcome = .error e ∧ db' = db) ∨ outcome = .ok () ∧ done)
    (h : errorOf outcome = some e) : db' = db := by
  rcases hcases with ⟨_, -, hsame⟩ | ⟨hok, -⟩
  · exact hsame
  · rw [hok] at h
    cases h

/-- A refused call leaves the database as it was, but for the id that a new index has used up by
the time its sources are refused. -/
theorem after_of_refusal (hreached : Reached OwnFiles db) {call : Call} {err : Error}
    (hrefusal : db.refusal? call = some err) :
    ¬ db.InstallsNew call ∧ db.after call = db ∨
      db.InstallsNew call ∧ db.after call = { db with nextId := db.nextId + 1 } := by
  have h := hreached.wellFormed_of_ownFiles
  cases call with
  | createTable | defineColumn | addRecord | addRecordWithKey | setSourceInfo | indexUpdate =>
    exact .inl ⟨id, snd_of_attempt_error hrefusal⟩
  | defineIndex lexicon name range config e =>
    have houtcome := errorOf_eq_some.1 hrefusal
    rcases h.defineIndex_cases (Prod.eta (e.defineIndex db lexicon name range config)).symm with
      ⟨e', -, hplan, hsame⟩ | ⟨plan, hplan, ⟨e', -, hskip⟩ | ⟨hok, -⟩⟩
    · refine .inl ⟨?_, hsame⟩
      rintro ⟨plan, hplan'⟩
      cases hplan.symm.trans hplan'
    · exact .inr ⟨⟨plan, hplan⟩, hskip⟩
    · cases houtcome.symm.trans hok
  | setValue column record v e =>
    rw [refusal?, e.setValue_eq h] at hrefusal
    rw [h.after_setValue]
    exact .inl ⟨id, unchanged_of_cases (h.setValue_cases (Prod.eta _).symm) hrefusal⟩
  | deleteRecord table record e =>
    rw [refusal?, e.deleteRecord_eq h] at hrefusal
    rw [h.after_deleteRecord]
    exact .inl ⟨id, unchanged_of_cases (h.deleteRecord_cases (Prod.eta _).symm) hrefusal⟩
  | removeObject i e =>
    exact .inl ⟨id, unchanged_of_cases (h.removeObject_cases (Prod.eta _).symm) hrefusal⟩
  | reopen image =>
    simp only [refusal?, errorOf_eq_some] at hrefusal
    exact .inl ⟨id, by simp only [Database.after, hrefusal]⟩

/-- A range that an index needs cannot go, and its words are no source of an index over the notes;
the index that was to have them leaves an id behind. -/
theorem after_of_refusal_notes :
    (∃ e, notes.refusal? (.removeObject 257) = some e) ∧ notes.after (.removeObject 257) = notes ∧
      (∃ e, notes.refusal? (.defineIndex 256 "words" 257 ⟨.none, ["Words"]⟩) = some e) ∧
        notes.after (.defineIndex 256 "words" 257 ⟨.none, ["Words"]⟩) =
          { notes with nextId := notes.nextId + 1 } := by
  obtain ⟨e, he⟩ := Option.isSome_iff_exists.1
    (by decide +kernel : (notes.refusal? (.removeObject 257)).isSome)
  obtain ⟨e', he'⟩ := Option.isSome_iff_exists.1 (by decide +kernel :
    (notes.refusal? (.defineIndex 256 "words" 257 ⟨.none, ["Words"]⟩)).isSome)
  have hinstalls : notes.InstallsNew (.defineIndex 256 "words" 257 ⟨.none, ["Words"]⟩) := by
    have hplan : (notes.planIndex 256 "words" 257 ⟨.none, ["Words"]⟩).toOption.isSome := by
      decide +kernel
    cases h : notes.planIndex 256 "words" 257 ⟨.none, ["Words"]⟩ with
    | ok plan => exact ⟨plan, h⟩
    | error e =>
      rw [h] at hplan
      cases hplan
  have hrange := (after_of_refusal reached_ownFiles_notes he).resolve_right fun hright => hright.1
  have hsources := (after_of_refusal reached_ownFiles_notes he').resolve_left fun hleft =>
    hleft.1 hinstalls
  exact ⟨⟨e, he⟩, hrange.2, ⟨e', he'⟩, hsources.2⟩

end Concordance.Database
