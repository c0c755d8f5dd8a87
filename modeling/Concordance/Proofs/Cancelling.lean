import Concordance.Proofs.Matching
import Concordance.Proofs.SourceLists

/-! # Additions that are taken back

A caller who keeps an index by hand adds values and deletes them again. However the calls are
mixed, the index holds at any time what it held at first and the values that are still open. So when
every value has been deleted again the postings are those of the beginning, and only the lexicon may
have grown.
-/
namespace Concordance

structure Entry where
  record : RecordId
  sec : Nat
  value : Json

/-- A call of a caller who keeps an index by hand. -/
inductive Keeping where
  | add (entry : Entry)
  | delete (entry : Entry)

namespace Keeping

/-- With some entries open, every deletion is of an entry that was added before and that no other
deletion has closed, and in the end none is open. -/
inductive Balanced : List Entry → List Keeping → Prop where
  | done : Balanced [] []
  | add {e : Entry} {opened : List Entry} {rest : List Keeping} :
      Balanced (e :: opened) rest → Balanced opened (.add e :: rest)
  | delete {e : Entry} {front back : List Entry} {rest : List Keeping} :
      Balanced (front ++ back) rest → Balanced (front ++ e :: back) (.delete e :: rest)

def delta : Keeping → Delta
  | .add e => ⟨e.record, e.sec, [], e.value.texts⟩
  | .delete e => ⟨e.record, e.sec, e.value.texts, []⟩

end Keeping

/-! ## Calls that succeed -/

namespace Session
variable {s s' : Session} {α : Type} {a : α}

theorem settle_eq_ok {answer : Except Error α} (h : s.settle answer = (.ok a, s')) :
    answer = .ok a ∧ s' = s := by
  cases hpending : s.pending with
  | some e =>
    simp only [settle, check, hpending] at h
    cases h
  | none =>
    rw [settle_of_clean hpending] at h
    cases h
    exact ⟨rfl, rfl⟩

theorem call_eq_ok {outcome : Outcome α} (h : s.call outcome = (.ok a, s')) :
    outcome = (.ok a, s'.database) := by
  obtain ⟨answer, db⟩ := outcome
  cases answer <;> cases h
  rfl

end Session

theorem Database.sideTexts_of_appendValue {b b' : Buffer} {v : Json} (hempty : b.IsEmpty)
    (h : b.appendValue v = (.ok (), b')) : sideTexts (some b') = .ok v.texts := by
  obtain ⟨texts, htexts⟩ := Buffer.indexTexts_of_appendValue (congrArg Prod.fst h)
  have hseen := (hempty.appendValue htexts).2
  rw [h] at hseen
  simp only [sideTexts, hseen, Json.texts, htexts]

namespace IndexColumn

/-- The texts of a side of an update; a side that is left out has none. -/
def sideTextsOf (side : Option Json) : List String := side.elim [] Json.texts

theorem sideTexts_of_fill {b b' : Buffer} {side : Option Json} {filled : Option Buffer}
    (h : fill b (UpdateOptions.present side) = (.ok filled, b')) :
    Database.sideTexts filled = .ok (sideTextsOf side) := by
  cases side with
  | none =>
    cases h
    rfl
  | some v =>
    cases hnull : v.isNull with
    | true =>
      cases v with
      | null =>
        cases h
        rfl
      | _ => cases hnull
    | false =>
      simp only [UpdateOptions.present, Option.filter, hnull, Bool.not_false, if_true, fill] at h
      rcases hwritten : b.rewind.appendValue v with ⟨_ | u, written⟩
      · simp only [hwritten, Prod.mk.injEq, reduceCtorEq, false_and] at h
      · simp only [hwritten] at h
        cases h
        exact Database.sideTexts_of_appendValue b.isEmpty_rewind hwritten

theorem assignOptions_eq_ok {c : IndexColumn} {s : Session} {record sec : Nat}
    {old new : Option Json}
    (h : (c.assignOptions s record ⟨some sec, old, new⟩).result = .ok ()) :
    ∃ oldSide newSide, Database.sideTexts oldSide = .ok (sideTextsOf old) ∧
      Database.sideTexts newSide = .ok (sideTextsOf new) ∧
        s.indexUpdate c.id record sec oldSide newSide =
          (.ok (), (c.assignOptions s record ⟨some sec, old, new⟩).session) := by
  simp only [assignOptions, assign] at h ⊢
  cases hprepare : c.prepare s (.options ⟨some sec, old, new⟩) with
  | error e => simp only [hprepare, Except.map, reduceCtorEq] at h
  | ok prepared =>
    obtain ⟨update, n, scratch⟩ := prepared
    obtain ⟨_, hresolve, hprepared⟩ := bind_eq_ok.1 hprepare
    cases hresolve
    obtain ⟨_, hsection, hprepared⟩ := bind_eq_ok.1 hprepared
    obtain ⟨_, -, hprepared⟩ := bind_eq_ok.1 hprepared
    cases hprepared
    obtain rfl : n = sec := by
      cases sec with
      | zero => cases hsection
      | succ m => exact (Except.ok.inj hsection).symm
    simp only [hprepare, UpdateArg.oldSide, UpdateArg.newSide] at h ⊢
    rcases hold : fill scratch.oldValue (UpdateOptions.present old) with ⟨_ | oldSide, oldBuffer⟩
    · simp only [hold, Except.map, reduceCtorEq] at h
    rcases hnew : fill scratch.value (UpdateOptions.present new) with ⟨_ | newSide, newBuffer⟩
    · simp only [hold, hnew, Except.map, reduceCtorEq] at h
    refine ⟨oldSide, newSide, sideTexts_of_fill hold, sideTexts_of_fill hnew, ?_⟩
    simp only [hold, hnew] at h ⊢
    rcases hsettled : (s.indexUpdate c.id record n oldSide newSide).2.settle
      (s.indexUpdate c.id record n oldSide newSide).1 with ⟨_ | u, s'⟩
    · simp only [hsettled, Except.map, reduceCtorEq] at h
    · obtain ⟨hanswer, rfl⟩ := Session.settle_eq_ok hsettled
      exact Prod.ext hanswer rfl

end IndexColumn

namespace Session
variable {i : ObjectId} {s s' : Session}

/-- A call on an index, through any handle on it or with a buffer that holds the value. -/
inductive Tells (i : ObjectId) (s : Session) : Keeping → Session → Prop where
  | add {c : IndexColumn} {e : Entry} : c.id = i →
      (c.add s e.record e.value e.sec).result = .ok () →
        Tells i s (.add e) (c.add s e.record e.value e.sec).session
  | delete {c : IndexColumn} {e : Entry} : c.id = i →
      (c.delete s e.record e.value e.sec).result = .ok () →
        Tells i s (.delete e) (c.delete s e.record e.value e.sec).session
  | insert {b b' : Buffer} {e : Entry} {s' : Session} : b.IsEmpty →
      b.appendValue e.value = (.ok (), b') →
        s.indexUpdate i e.record e.sec none (some b') = (.ok (), s') → Tells i s (.add e) s'
  | retract {b b' : Buffer} {e : Entry} {s' : Session} : b.IsEmpty →
      b.appendValue e.value = (.ok (), b') →
        s.indexUpdate i e.record e.sec (some b') none = (.ok (), s') → Tells i s (.delete e) s'

inductive TellsAll (i : ObjectId) : Session → List Keeping → Session → Prop where
  | done (s : Session) : TellsAll i s [] s
  | next {s s₁ s' : Session} {call : Keeping} {rest : List Keeping} :
      Tells i s call s₁ → TellsAll i s₁ rest s' → TellsAll i s (call :: rest) s'

theorem indexUpdate_eq_ok {record sec : Nat} {old new : Option Buffer}
    (h : s.indexUpdate i record sec old new = (.ok (), s')) {oldTexts newTexts : List String}
    (hold : Database.sideTexts old = .ok oldTexts)
    (hnew : Database.sideTexts new = .ok newTexts) :
    s.database.Receives (i, ⟨record, sec, oldTexts, newTexts⟩) ∧
      s'.database = s.database.applyDelta i ⟨record, sec, oldTexts, newTexts⟩ := by
  obtain ⟨ix, _, _, hold', hnew', -, hix, hlive, hdatabase⟩ :=
    Database.indexUpdate_eq_ok (call_eq_ok h)
  obtain rfl := Except.ok.inj (hold.symm.trans hold')
  obtain rfl := Except.ok.inj (hnew.symm.trans hnew')
  exact ⟨.of_get hix hlive, hdatabase⟩

theorem Tells.delta {call : Keeping} (h : s.Tells i call s') :
    s.database.Receives (i, call.delta) ∧ s'.database = s.database.applyDelta i call.delta := by
  cases h with
  | add hid hok | delete hid hok =>
    obtain ⟨_, _, hold, hnew, hcall⟩ := IndexColumn.assignOptions_eq_ok hok
    exact indexUpdate_eq_ok (hid ▸ hcall) hold hnew
  | insert hempty hwritten hcall =>
    exact indexUpdate_eq_ok hcall rfl (Database.sideTexts_of_appendValue hempty hwritten)
  | retract hempty hwritten hcall =>
    exact indexUpdate_eq_ok hcall (Database.sideTexts_of_appendValue hempty hwritten) rfl

end Session

/-! ## What is open -/

def Entry.share (e : Entry) (ix : Index) (term : String) (record sec position : Nat) : Nat :=
  (Keeping.add e).delta.given ix term record sec position

namespace Database
variable {db db' : Database} {i : ObjectId} {ix : Index}

/-- The index stores what it stored at first, and besides the texts of the open entries. -/
structure Keeps (db db' : Database) (i : ObjectId) (ix : Index) (opened : List Entry) : Prop where
  wellFormed : db'.WellFormed
  fed : db.Fed db'
  stored : ∀ t r s q, db'.storedAt i t r s q =
    db.storedAt i t r s q + total (opened.map fun e => e.share ix t r s q)

theorem Keeps.refl (h : db.WellFormed) (i : ObjectId) (ix : Index) : db.Keeps db i ix [] :=
  ⟨h, .refl db, fun _ _ _ _ => rfl⟩

theorem effect_add (e : Entry) (ix : Index) (t : String) (r s q n : Nat) :
    (Keeping.add e).delta.effect ix t r s q n = n + e.share ix t r s q := by
  have htaken : (Keeping.add e).delta.taken ix t r s q = 0 := by
    simp [Delta.taken, Keeping.delta]
  rw [Delta.effect, htaken]
  rfl

theorem effect_delete (e : Entry) (ix : Index) (t : String) (r s q n : Nat) :
    (Keeping.delete e).delta.effect ix t r s q n = n - e.share ix t r s q := by
  have hgiven : (Keeping.delete e).delta.given ix t r s q = 0 := by
    simp [Delta.given, Keeping.delta]
  rw [Delta.effect, hgiven]
  rfl

theorem Keeps.applyDelta {opened after : List Entry} (h : db.Keeps db' i ix opened)
    (hix : db.indexes[i]? = some ix) {delta : Delta} (hreceives : db'.Receives (i, delta))
    (hcount : ∀ t r s q n, delta.effect ix t r s q
        (n + total (opened.map fun e => e.share ix t r s q)) =
      n + total (after.map fun e => e.share ix t r s q)) :
    db.Keeps (db'.applyDelta i delta) i ix after := by
  have hfed := h.wellFormed.fed_applyDelta i delta
  refine ⟨h.wellFormed.applyDelta hreceives, h.fed.trans hfed, fun t r s q => ?_⟩
  obtain ⟨jx, hjx, hframe⟩ := h.fed.index' hix
  obtain ⟨kx, hkx, -⟩ := hfed.index' hjx
  rw [storedAt_eq hkx, h.wellFormed.stored_applyDelta hjx hkx, if_pos rfl, ← storedAt_eq hjx,
    h.stored, Delta.effect_eq_of_frame hframe, hcount]

theorem Keeps.tellsAll {s s' : Session} {opened : List Entry} {calls : List Keeping}
    (h : db.Keeps s.database i ix opened) (hix : db.indexes[i]? = some ix)
    (hbalanced : Keeping.Balanced opened calls) (hcalls : s.TellsAll i calls s') :
    db.Keeps s'.database i ix [] := by
  -- The induction is on the calls; each opens or closes one entry.
  induction hcalls generalizing opened with
  | done s =>
    cases hbalanced
    exact h
  | next hcall _ ih =>
    obtain ⟨hreceives, hdatabase⟩ := hcall.delta
    cases hbalanced with
    | @add e _ _ hrest =>
      refine ih (hdatabase ▸ h.applyDelta hix hreceives fun t r s q n => ?_) hrest
      rw [effect_add, List.map_cons, total_cons]
      omega
    | @delete e front back _ hrest =>
      refine ih (hdatabase ▸ h.applyDelta hix hreceives fun t r s q n => ?_) hrest
      simp only [effect_delete, List.map_append, List.map_cons, total_append, total_cons]
      omega

theorem Keeps.eq (h : db.Keeps db' i ix []) (hwf : db.WellFormed)
    (hix : db.indexes[i]? = some ix) : db'.indexes[i]? = some ix := by
  obtain ⟨jx, hjx, hframe⟩ := h.fed.index' hix
  obtain ⟨lexicon, hlexicon, -⟩ := hwf.catalogued.lexicon_table hix
  obtain ⟨lexicon', hlexicon', hgrows⟩ := h.fed.table hlexicon
  have hlexicon_eq : jx.lexicon = ix.lexicon := (Index.frame_eq_iff.1 hframe).1
  have htally : ∀ t r s q, tally lexicon' jx.postings t r s q = tally lexicon ix.postings t r s q := by
    intro t r s q
    have hstored := h.stored t r s q
    rw [storedAt_eq hjx, storedAt_eq hix, stored_eq_tally ix hlexicon,
      stored_eq_tally jx (hlexicon_eq ▸ hlexicon')] at hstored
    exact hstored
  have hpostings : jx.postings = ix.postings := by
    refine (h.wellFormed.posted.neat hjx).eq_of_positions (hwf.posted.neat hix)
      fun term record sec => ?_
    exact Matched.positions_congr (hwf.posted.matched hix hlexicon)
      (h.wellFormed.posted.matched hjx (hlexicon_eq ▸ hlexicon')) (hwf.posted.neat hix)
      (h.wellFormed.posted.neat hjx) hgrows.key? (fun t s q => htally t record s q) term sec
  rw [hjx, Index.eq_of_frame hframe hpostings]

/-- From every state that a run reaches, calls that add values to one index and delete them again,
in any order in which each deletion comes after an addition of its own, lead back to the same index:
its postings are what they were, whatever they held before. Every key keeps its id. -/
theorem index_eq_of_balanced {s s' : Session} (h : Reached OwnFiles s.database)
    (hix : s.database.indexes[i]? = some ix) {calls : List Keeping}
    (hbalanced : Keeping.Balanced [] calls) (hcalls : s.TellsAll i calls s') :
    s'.database.indexes[i]? = some ix ∧ ∀ table key record,
      s.database.recordId? table key = some record →
        s'.database.recordId? table key = some record := by
  have hwf := h.wellFormed_of_ownFiles
  have hkeeps := (Keeps.refl hwf i ix).tellsAll hix hbalanced hcalls
  refine ⟨hkeeps.eq hwf hix, fun table key record hid => ?_⟩
  cases ht : s.database.tables[table]? with
  | none => simp [recordId?, ht] at hid
  | some t =>
    obtain ⟨u, hu, hgrows⟩ := hkeeps.fed.table ht
    have hfind : t.find? key = some record := by simpa [recordId?, ht] using hid
    simpa [recordId?, hu] using hgrows.find? hfind

/-- Calls on the index of the notes: a text with a new word and one with the words of the body, the
second in a section that no source feeds, are added and deleted in turn. -/
def noteCalls : List Keeping :=
  [.add ⟨1, 1, .text "to do"⟩, .add ⟨1, 3, .text "to be"⟩, .delete ⟨1, 1, .text "to do"⟩,
    .delete ⟨1, 3, .text "to be"⟩]

/-- The index is as before, and the new word stays in its lexicon. -/
theorem index_eq_of_balanced_notes : ∃ ix s', notes.indexes[260]? = some ix ∧
    Keeping.Balanced [] noteCalls ∧ (Session.start notes).TellsAll 260 noteCalls s' ∧
      s'.database.indexes[260]? = some ix ∧ notes.recordId? 256 "be" = some 2 ∧
        s'.database.recordId? 256 "be" = some 2 ∧ notes.recordId? 256 "do" = none ∧
          s'.database.recordId? 256 "do" = some 3 := by
  have hix : notes.indexes[260]? = some (notes.indexes[260]?.get (by decide +kernel)) :=
    (Option.some_get _).symm
  have hbalanced : Keeping.Balanced [] noteCalls :=
    .add (.add (@Keeping.Balanced.delete _ [_] [] _ (@Keeping.Balanced.delete _ [] [] _ .done)))
  have hcalls : (Session.start notes).TellsAll 260 noteCalls _ :=
    .next (.add (c := IndexColumn.notesIndex) rfl (by decide +kernel))
      (.next (.add (c := IndexColumn.notesIndex) rfl (by decide +kernel))
        (.next (.delete (c := IndexColumn.notesIndex) rfl (by decide +kernel))
          (.next (.delete (c := IndexColumn.notesIndex) rfl (by decide +kernel)) (.done _))))
  have hbe : notes.recordId? 256 "be" = some 2 := by decide +kernel
  obtain ⟨hsame, hkeys⟩ := index_eq_of_balanced (s := .start notes) reached_ownFiles_notes hix
    hbalanced hcalls
  exact ⟨_, _, hix, hbalanced, hcalls, hsame, hbe, hkeys 256 "be" 2 hbe, by decide +kernel,
    by decide +kernel⟩

end Database
end Concordance
