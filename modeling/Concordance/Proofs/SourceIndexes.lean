import Concordance.Proofs.Snapshots

/-! # Indexes that only their sources feed

One index, whatever happens to the others. While no caller updates it with texts of its own, none
of its terms is deleted and no lexicon is a source of it, it holds for every record what it would
hold if it were built from the current texts of its sources.
-/
namespace Concordance

/-- A call that brings an index texts of the caller's own. -/
def Call.Updates (i : Nat) : Call → Prop
  | indexUpdate index .. => index = i
  | _ => False

theorem Call.Indexed.not_updates {call : Call} (h : call.Indexed) (i : Nat) : ¬ call.Updates i := by
  cases call with
  | indexUpdate => exact h.elim
  | _ => exact id

namespace Database
variable {db db' : Database} {i record : Nat} {ix : Index}

/-- A call that leaves an index to its sources. It brings it no texts of its own, keeps its terms,
reopens nothing but what was saved, and lists no lexicon as a source of it. -/
def LeavesToSources (i : Nat) (db : Database) (call : Call) : Prop :=
  ¬ call.Updates i ∧ db.Genuine call ∧ db.KeepsTermsOf i call ∧ (db.after call).ApartAt i

theorem Maintaining.leavesToSources {call : Call} (h : Maintaining db call) (i : Nat) :
    db.LeavesToSources i call := by
  obtain ⟨hindexed, hkeeps, hapart⟩ := h
  exact ⟨hindexed.not_updates i, genuine_of_indexed hindexed, hkeeps.keepsTermsOf i,
    hapart.apartAt i⟩

theorem Reached.wellFormed_of_sources (h : Reached (LeavesToSources i) db) : db.WellFormed :=
  (h.imp fun _ _ hleaves => hleaves.2.1).wellFormed

/-! ## One record -/

/-- What an index stores for a record is what the current texts of the record yield. -/
def MaintainedFor (db : Database) (i record : Nat) : Prop :=
  ∀ t s q, db.storedAt i t record s q = db.producedAt i t record s q

theorem maintainedFor_new (i record : Nat) : new.MaintainedFor i record :=
  fun t s q => maintained_new i t record s q

theorem MaintainedFor.follows {exact : Nat → Nat → Prop} (h : db.MaintainedFor i record)
    (hf : Follows exact db db') (hexact : exact i record) : db'.MaintainedFor i record := by
  intro t s q
  obtain ⟨f, -, hstored, -, heq⟩ := hf i t record s q
  rw [hstored, h t s q, heq hexact]

/-- A delta for one index neither moves the postings of another nor the settled texts of its
sources. -/
theorem MaintainedFor.applyDelta (h : db.MaintainedFor i record) (hwf : db.WellFormed) {j : Nat}
    (hij : i ≠ j) {delta : Delta} (hwf' : (db.applyDelta j delta).WellFormed)
    (hsettled : (db.applyDelta j delta).Settled db.GivenOut i record) :
    (db.applyDelta j delta).MaintainedFor i record := by
  intro t s q
  have hfed := hwf.fed_applyDelta j delta
  have hproduced : (db.applyDelta j delta).producedAt i t record s q =
      db.producedAt i t record s q := by
    rw [producedAt, yieldAt_of_frames hfed.frame]
    simp only [producedAt, yieldAt]
    cases hix : db.indexes[i]? with
    | none => rfl
    | some ix =>
      refine Index.yield_congr (fun place hp => ?_) t s q
      refine (hwf.textsOf_settled hwf' hfed fun u hu => ?_).symm
      exact hsettled.of_frames hfed.same hfed.frame ix hix place.1
        (List.fst_mem_of_mem_zipIdx hp) u hu
  have hstored : (db.applyDelta j delta).storedAt i t record s q =
      db.storedAt i t record s q := by
    cases hix : db.indexes[i]? with
    | none => simp only [storedAt, hix, hfed.noIndex hix]
    | some ix =>
      obtain ⟨ix', hix', -⟩ := hfed.index' hix
      rw [storedAt_eq hix, storedAt_eq hix', hwf.stored_applyDelta hix hix', if_neg hij]
  rw [hproduced, hstored]
  exact h t s q

/-- A call keeps what the index stores for a record in step with the texts, unless it brings in the
key of the record as a term. -/
theorem MaintainedFor.after (h : db.MaintainedFor i record) (hwf : db.WellFormed) {call : Call}
    (hupdates : ¬ call.Updates i) (hgenuine : db.Genuine call) (hkeeps : db.KeepsTermsOf i call)
    (hsettled : (db.after call).Settled (db.Knows call) i record) :
    (db.after call).MaintainedFor i record := by
  have indexed (hindexed : call.Indexed) : (db.after call).MaintainedFor i record :=
    h.follows (hwf.step hindexed).2 ⟨hsettled, hkeeps⟩
  cases call with
  | indexUpdate index r sec old new =>
    have hwf' : (db.after (.indexUpdate index r sec old new)).WellFormed := hwf.after trivial
    have hsettled' := hsettled.givenOut fun _ => not_false
    rcases indexUpdate_cases (Prod.eta (db.indexUpdate index r sec old new)).symm with
      hsame | ⟨_, _, _, -, -, -, hdelta⟩
    · rwa [Database.after, hsame]
    · rw [Database.after, hdelta] at hwf' hsettled' ⊢
      exact h.applyDelta hwf (Ne.symm hupdates) hwf' hsettled'
  | reopen image =>
    obtain ⟨hsaved, hn, hread⟩ := hgenuine
    simp only [Database.after, hwf.load_eq hn hread hsaved]
    exact h
  | _ => exact indexed trivial

/-! ## All records -/

theorem Reached.maintainedFor (h : Reached (LeavesToSources i) db) (record : Nat) :
    db.MaintainedFor i record := by
  induction h with
  | new => exact maintainedFor_new i record
  | after call hreached hcall ih =>
    obtain ⟨hupdates, hgenuine, hkeeps, hapart⟩ := hcall
    exact ih.after hreached.wellFormed_of_sources hupdates hgenuine hkeeps (hapart.settled _ record)

end Database
end Concordance
