import Concordance.Proofs.Cancelling
import Concordance.Proofs.Renaming

/-! # Sections

A value that is taken out of one section of a record leaves alone what was put into another. An
index with sections holds them side by side. One without folds them into one and tells them apart by
positions, of which only the first 4096 sections have some to themselves: all later sections begin
and end at the largest word.
-/
namespace Concordance

namespace Index
variable {ix : Index} {sec sec' : Nat} {texts texts' : List String}

/-- The texts leave a gap before the positions of the next section. -/
def Spans (ix : Index) (texts : List String) : Prop :=
  ∀ o ∈ spread ix.tokenizer texts 0, o.2 < sectionSpan - 2

instance (ix : Index) (texts : List String) : Decidable (ix.Spans texts) :=
  inferInstanceAs (Decidable (∀ o ∈ spread ix.tokenizer texts 0, o.2 < sectionSpan - 2))

/-- The index has sections, or one of the two has positions of its own. -/
def TellsApart (ix : Index) (sec sec' : Nat) : Prop :=
  ix.flags.contains .withSection ∨ sec ≤ 4096 ∨ sec' ≤ 4096

/-! ## Where the sections stand -/

theorem section_of_mem_contribution (hsection : ix.flags.contains .withSection)
    {o : String × Nat × Nat} (ho : o ∈ ix.contribution sec texts) : o.2.1 = sec := by
  obtain ⟨p, -, rfl⟩ := List.mem_map.1 ho
  simp only [if_pos hsection]

/-- A folded section has the positions from its start up to the gap before the next, or, when that
start is no word any more, only the largest word. -/
theorem position_of_mem_contribution (hfolded : ¬ ix.flags.contains .withSection)
    (hspans : ix.Spans texts) (hsec : 0 < sec) {o : String × Nat × Nat}
    (ho : o ∈ ix.contribution sec texts) :
    if sec ≤ 4096 then (sec - 1) * sectionSpan ≤ o.2.2 ∧ o.2.2 + 2 < sec * sectionSpan
    else o.2.2 = wordMax := by
  obtain ⟨p, hp, rfl⟩ := List.mem_map.1 ho
  have hgap := hspans p hp
  simp only [if_neg hfolded, saturate, wordMax, sectionSpan] at hgap ⊢
  split <;> omega

theorem TellsApart.place_ne (h : ix.TellsApart sec sec') (hne : sec ≠ sec') (hsec : 0 < sec)
    (hsec' : 0 < sec') (hspans : ix.Spans texts) (hspans' : ix.Spans texts')
    {o o' : String × Nat × Nat} (ho : o ∈ ix.contribution sec texts)
    (ho' : o' ∈ ix.contribution sec' texts') : o.2 ≠ o'.2 := by
  intro heq
  by_cases hsection : ix.flags.contains .withSection
  · exact hne ((section_of_mem_contribution hsection ho).symm.trans
      ((congrArg Prod.fst heq).trans (section_of_mem_contribution hsection ho')))
  · have hposition := position_of_mem_contribution hsection hspans hsec ho
    have hposition' := position_of_mem_contribution hsection hspans' hsec' ho'
    have hword := h.resolve_left hsection
    rw [heq] at hposition
    simp only [wordMax, sectionSpan] at hposition hposition'
    split at hposition <;> split at hposition' <;> omega

theorem TellsApart.share_eq_zero (h : ix.TellsApart sec sec') (hne : sec ≠ sec') (hsec : 0 < sec)
    (hsec' : 0 < sec') (hspans : ix.Spans texts) (hspans' : ix.Spans texts') (t : String)
    (s q : Nat) : ix.share sec texts t s q = 0 ∨ ix.share sec' texts' t s q = 0 := by
  rw [share_eq_count, share_eq_count, List.count_eq_zero, List.count_eq_zero]
  by_contra hboth
  obtain ⟨hmem, hmem'⟩ := not_or.1 hboth
  exact h.place_ne hne hsec hsec' hspans hspans' (not_not.1 hmem) (not_not.1 hmem') rfl

end Index

namespace Database
variable {db : Database} {i : Nat} {ix : Index} {record sec sec' : Nat} {texts texts' : List String}

/-- Texts that come into a section and texts that leave another may do so in either order. -/
theorem WellFormed.applyDelta_comm (h : db.WellFormed) (hix : db.indexes[i]? = some ix)
    (hlive : db.isLive ix.range record)
    (hshare : ∀ t s q, ix.share sec texts t s q = 0 ∨ ix.share sec' texts' t s q = 0) :
    (db.applyDelta i ⟨record, sec, [], texts⟩).applyDelta i ⟨record, sec', texts', []⟩ =
      (db.applyDelta i ⟨record, sec', texts', []⟩).applyDelta i ⟨record, sec, [], texts⟩ := by
  have hreceives : ∀ delta : Delta, delta.record = record → db.Receives (i, delta) :=
    fun delta hrecord => .of_get hix (hrecord ▸ hlive)
  let change : ObjectId × Delta := (i, ⟨record, sec, [], texts⟩)
  let change' : ObjectId × Delta := (i, ⟨record, sec', texts', []⟩)
  have hterms : ∀ lexicon : Nat,
      db.termsFor lexicon [change, change'] = db.termsFor lexicon [change', change] := by
    intro lexicon
    simp [termsFor, hix, change, change', Tokenizer.terms]
  -- One delta brings no terms and the other takes none, so only the counts could tell the orders
  -- apart, and at each place one of the two leaves them as they are.
  suffices hreordered : db.Reordered [change', change] [change, change'] from
    h.carry_congr hreordered hterms
  refine ⟨?_, ?_, fun lexicon => .of_eq (hterms lexicon).symm, ?_⟩
  · simp [change, change', hreceives]
  · simp [change, change', hreceives]
  · intro j t r s q n
    by_cases hj : i = j
    · subst hj
      have hplace := hshare t s q
      by_cases hr : r = record
      · simp only [effectAt, hix, change, change', List.filter_cons, List.filter_nil, decide_true,
          if_true, List.map_cons, List.map_nil, List.foldl_cons, List.foldl_nil, Delta.effect,
          Delta.taken, Delta.given, hr, Index.share_nil]
        omega
      · simp [effectAt, hix, change, change', Delta.effect, Delta.taken, Delta.given, hr]
    · simp [effectAt, change, change', hj]

/-- What comes in after texts have left elsewhere is all there. -/
theorem WellFormed.share_le_storedAt (h : db.WellFormed) (hix : db.indexes[i]? = some ix)
    (delta : Delta) (t : String) (s q : Nat) :
    ix.share delta.sec delta.new t s q ≤ (db.applyDelta i delta).storedAt i t delta.record s q := by
  obtain ⟨jx, hjx, -⟩ := (h.fed_applyDelta i delta).index' hix
  rw [storedAt_eq hjx, h.stored_applyDelta hix hjx, if_pos rfl, Delta.effect, Delta.given,
    if_pos rfl]
  exact Nat.le_add_left ..

end Database

namespace IndexColumn
variable {c : IndexColumn} {s : Session} {i : ObjectId} {ix : Index}

/-- From every state that a run reaches, adding one value of a record in one section and deleting
another from a second one commute, if the index tells the sections apart and the values leave a gap
before the next section. Through a handle both succeed in either order and leave the same session,
in which the value that was added is all there. -/
theorem add_delete_comm (h : Database.Reached Database.OwnFiles s.database) (hc : c.Usable s i)
    (hix : s.database.indexes[i]? = some ix) {record sec sec' : Nat}
    (hlive : s.database.isLive ix.range record) (hsec : 0 < sec) (hsec' : 0 < sec')
    (hne : sec ≠ sec') {v w : Json} {texts texts' : List String} (hv : v.indexTexts = .ok texts)
    (hw : w.indexTexts = .ok texts') (hspans : ix.Spans texts) (hspans' : ix.Spans texts')
    (hapart : ix.TellsApart sec sec') :
    ∃ c₁ c₂ c₃ c₄ s₁ s₂ s',
      c.add s record v sec = ⟨.ok (), c₁, s₁⟩ ∧ c₁.delete s₁ record w sec' = ⟨.ok (), c₂, s'⟩ ∧
      c.delete s record w sec' = ⟨.ok (), c₃, s₂⟩ ∧ c₃.add s₂ record v sec = ⟨.ok (), c₄, s'⟩ ∧
      ∀ t n q, ix.share sec texts t n q ≤ s'.database.storedAt i t record n q := by
  have hwf := h.wellFormed_of_ownFiles
  obtain ⟨⟨c₁, hadd, hc₁⟩, hwf₁, jx, hjx, -, hlive₁⟩ :=
    hc.assignOptions_goOn hwf hix hlive hsec none (some v) rfl hv
  obtain ⟨⟨c₂, hdelete₁, -⟩, -⟩ :=
    hc₁.assignOptions_goOn hwf₁ hjx hlive₁ hsec' (some w) none hw rfl
  obtain ⟨⟨c₃, hdelete, hc₃⟩, hwf₃, kx, hkx, hframe, hlive₃⟩ :=
    hc.assignOptions_goOn hwf hix hlive hsec' (some w) none hw rfl
  obtain ⟨⟨c₄, hadd₃, -⟩, -⟩ :=
    hc₃.assignOptions_goOn hwf₃ hkx hlive₃ hsec none (some v) rfl hv
  -- Each run has applied the same two deltas, whatever its handle has come to hold.
  have hcomm := hwf.applyDelta_comm hix hlive fun t n q =>
    hapart.share_eq_zero hne hsec hsec' hspans hspans' t n q
  refine ⟨c₁, c₂, c₃, c₄, _, _, _, hadd, hcomm ▸ hdelete₁, hdelete, hadd₃, fun t n q => ?_⟩
  rw [← Index.share_eq_of_frame hframe]
  exact hwf₃.share_le_storedAt hkx ⟨record, sec, [], texts⟩ t n q

/-- Sections 4096 and 4097 of the notes are told apart: the word that comes into the later one stays
when it leaves the other. -/
theorem add_delete_comm_notes : ∃ c₁ c₂ c₃ c₄ s₁ s₂ s',
    notesIndex.add (.start Database.notes) 1 (.text "do") 4097 = ⟨.ok (), c₁, s₁⟩ ∧
      c₁.delete s₁ 1 (.text "do") 4096 = ⟨.ok (), c₂, s'⟩ ∧
      notesIndex.delete (.start Database.notes) 1 (.text "do") 4096 = ⟨.ok (), c₃, s₂⟩ ∧
      c₃.add s₂ 1 (.text "do") 4097 = ⟨.ok (), c₄, s'⟩ ∧
      1 ≤ s'.database.storedAt 260 "do" 1 1 wordMax := by
  have husable : notesIndex.Usable (.start Database.notes) 260 :=
    ⟨rfl, ⟨_, parts_eq_ok.2 ⟨by decide +kernel, rfl⟩⟩, rfl⟩
  have hix : Database.notes.indexes[260]? =
      some (Database.notes.indexes[260]?.get (by decide +kernel)) := (Option.some_get _).symm
  let ix := Database.notes.indexes[260]?.get (by decide +kernel)
  have hlive : Database.notes.isLive ix.range 1 := by decide +kernel
  have htexts : (Json.text "do").indexTexts = .ok ["do"] := rfl
  have hspans : ix.Spans ["do"] := by decide +kernel
  have hapart : ix.TellsApart 4097 4096 := .inr (.inr (Nat.le_refl _))
  have hshare : ix.share 4097 ["do"] "do" 1 wordMax = 1 := by decide +kernel
  obtain ⟨c₁, c₂, c₃, c₄, s₁, s₂, s', hadd, hdelete₁, hdelete, hadd₃, hkept⟩ :=
    add_delete_comm (s := .start Database.notes) Database.reached_ownFiles_notes husable hix hlive
      (by decide) (by decide) (by decide) htexts htexts hspans hspans hapart
  exact ⟨c₁, c₂, c₃, c₄, s₁, s₂, s', hadd, hdelete₁, hdelete, hadd₃,
    Nat.le_trans (Nat.le_of_eq hshare.symm) (hkept "do" 1 wordMax)⟩

/-- Sections 4097 and 4098 are not: the word that was added in one leaves with a deletion from the
other, and stays only if the deletion comes first. -/
theorem add_delete_not_comm_notes :
    let added := notesIndex.add (.start Database.notes) 1 (.text "do") 4097
    let retracted := added.column.delete added.session 1 (.text "do") 4098
    let deleted := notesIndex.delete (.start Database.notes) 1 (.text "do") 4098
    let restored := deleted.column.add deleted.session 1 (.text "do") 4097
    Database.Reached Database.OwnFiles Database.notes ∧
      (∃ ix, Database.notes.indexes[260]? = some ix ∧ Database.notes.isLive ix.range 1 ∧
        ix.Spans ["do"]) ∧
      retracted.result = .ok () ∧ restored.result = .ok () ∧
        retracted.session.database.storedAt 260 "do" 1 1 wordMax = 0 ∧
          restored.session.database.storedAt 260 "do" 1 1 wordMax = 1 := by
  have hix : Database.notes.indexes[260]? =
      some (Database.notes.indexes[260]?.get (by decide +kernel)) := (Option.some_get _).symm
  refine ⟨Database.reached_ownFiles_notes, ⟨_, hix, ?_, ?_⟩, ?_, ?_, ?_, ?_⟩
  all_goals decide +kernel

end IndexColumn
end Concordance
