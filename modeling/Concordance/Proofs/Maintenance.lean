import Concordance.Proofs.Runs

/-! # Maintenance

What an index would hold if it were built from the current texts of its sources, and that every run
keeps it at that: the postings never go beyond the rebuilt index, and are the rebuilt index as long
as no term is deleted and no lexicon is a source.
-/
namespace Concordance

theorem saturate_add (m n : Nat) : saturate (saturate m + n) = saturate (m + n) := by
  simp only [saturate]
  omega

/-- The tokens of texts with their positions, however large. A text starts two past the last token
before it. -/
def spread (tokenizer : Tokenizer) : List String → (start : Nat) → List (String × Nat)
  | [], _ => []
  | text :: rest, start =>
    let tokens := tokenizer.tokens .add text
    let last := tokens.foldl (fun last t => max last t.position) 0
    tokens.map (fun t => (t.text, start + t.position)) ++ spread tokenizer rest (start + (last + 2))

theorem spread_add (tokenizer : Tokenizer) (texts : List String) (k start : Nat) :
    spread tokenizer texts (k + start) =
      (spread tokenizer texts start).map fun o => (o.1, k + o.2) := by
  induction texts generalizing start with
  | nil => rfl
  | cons text rest ih =>
    simp only [spread, List.map_append, List.map_map, Nat.add_assoc]
    rw [ih]
    rfl

theorem positionedTokens_saturate (tokenizer : Tokenizer) (texts : List String) (start : Nat) :
    positionedTokens tokenizer texts (saturate start) =
      (spread tokenizer texts start).map fun o => (o.1, saturate o.2) := by
  induction texts generalizing start with
  | nil => rfl
  | cons text rest ih =>
    simp only [positionedTokens, spread, List.map_append, List.map_map, saturate_add]
    rw [ih]
    rfl

namespace Index

/-- The occurrences of a source's texts: in a section of its own, or else in the first section
after those of the sources before it. Positions are words and stop at the largest. -/
def contribution (ix : Index) (source : Nat) (texts : List String) : List (String × Nat × Nat) :=
  (spread ix.tokenizer texts 0).map fun (term, position) =>
    if ix.flags.contains .withSection then (term, source, saturate position)
    else (term, 1, saturate ((source - 1) * sectionSpan + position))

/-- What an index holds for a record if it is built from the texts of its sources: terms with their
sections and positions. -/
def rebuilt (ix : Index) (texts : Nat → Nat → List String) (record : Nat) :
    List (String × Nat × Nat) :=
  (ix.sources.zipIdx 1).flatMap fun place => ix.contribution place.2 (texts place.1 record)

theorem count_section (l : List (String × Nat)) (sec : Nat) (t : String) (s q : Nat) :
    (l.map fun o => (o.1, sec, o.2)).count (t, s, q) = if s = sec then l.count (t, q) else 0 := by
  induction l with
  | nil => simp
  | cons o rest ih =>
    by_cases hs : s = sec
    · simp only [hs, if_true] at ih ⊢
      simp [List.count_cons, ih, Prod.ext_iff]
    · simp only [hs, if_false] at ih ⊢
      simp [ih, Ne.symm hs]

theorem share_eq_count (ix : Index) (source : Nat) (texts : List String) (t : String) (s q : Nat) :
    ix.share source texts t s q = (ix.contribution source texts).count (t, s, q) := by
  simp only [share, occurrences, place, contribution]
  split
  · have hzero : saturate 0 = 0 := rfl
    have htokens := positionedTokens_saturate ix.tokenizer texts 0
    rw [hzero] at htokens
    rw [htokens, ← count_section, List.map_map]
    rfl
  · have hspread := spread_add ix.tokenizer texts ((source - 1) * sectionSpan) 0
    rw [Nat.add_zero] at hspread
    rw [positionedTokens_saturate, hspread, ← count_section, List.map_map, List.map_map]
    rfl

theorem yield_eq_count (ix : Index) (texts : Nat → Nat → List String) (t : String) (r s q : Nat) :
    ix.yield texts (ix.sources.zipIdx 1) t r s q = (ix.rebuilt texts r).count (t, s, q) := by
  simp only [yield, rebuilt, share_eq_count]
  exact List.count_flatMap.symm

end Index

namespace Database
variable {db : Database} {i : Nat} {ix : Index}

theorem producedAt_eq_count (hix : db.indexes[i]? = some ix) (t : String) (r s q : Nat) :
    db.producedAt i t r s q = (ix.rebuilt db.textsOf r).count (t, s, q) := by
  simp only [producedAt, yieldAt, hix]
  exact ix.yield_eq_count db.textsOf t r s q

/-- The terms of the postings of an index are records of its lexicon. -/
theorem WellFormed.term_of_posting (h : db.WellFormed) (hix : db.indexes[i]? = some ix)
    {id r s q : Nat} (hq : q ∈ ix.postings.positions id r s) :
    ∃ term, db.recordId? ix.lexicon term = some id := by
  obtain ⟨lexicon, hlex, -⟩ := h.catalogued.lexicon_table hix
  have hm := h.posted.matched hix hlex
  obtain ⟨term, hterm⟩ := hm.key hq
  refine ⟨term, ?_⟩
  simp only [recordId?, hlex]
  exact hm.sound.find?_iff.2 hterm

/-! ## Runs that keep their terms -/

/-- A call that keeps the terms of all lexicons, and lists none of them as a source. -/
def Maintaining (db : Database) (call : Call) : Prop :=
  call.Indexed ∧ db.KeepsTerms call ∧ (db.after call).Apart

/-- What is stored at a place is what the current texts yield there. -/
def Maintained (db : Database) : Prop :=
  ∀ i t r s q, db.storedAt i t r s q = db.producedAt i t r s q

theorem apart_new : new.Apart := by
  intro i ix j jx hix
  simp [indexes_new] at hix

theorem maintained_new : new.Maintained := by
  intro i t r s q
  simp [storedAt, producedAt, yieldAt, indexes_new]

theorem Maintained.follows {exact : Nat → Nat → Prop} {db' : Database} (h : db.Maintained)
    (hf : Follows exact db db') (hexact : ∀ i r, exact i r) : db'.Maintained := by
  intro i t r s q
  obtain ⟨f, -, hstored, -, heq⟩ := hf i t r s q
  rw [hstored, h i t r s q, heq (hexact i r)]

theorem Reached.maintained (h : Reached Maintaining db) :
    db.WellFormed ∧ db.Apart ∧ db.Maintained := by
  induction h with
  | new => exact ⟨wellFormed_new, apart_new, maintained_new⟩
  | after call _ hcall ih =>
    obtain ⟨hwf, hapart, hmaintained⟩ := ih
    obtain ⟨hindexed, hkeeps, hapart'⟩ := hcall
    obtain ⟨hwf', hfollows⟩ := hwf.step hindexed
    exact ⟨hwf', hapart', hmaintained.follows hfollows fun i r =>
      ⟨(hapart'.apartAt i).settled _ r, hkeeps.keepsTermsOf i⟩⟩

/-- Incremental maintenance is a rebuild: each place holds a position as often as the current texts
of the sources yield it there, and there are no other postings. -/
theorem stored_eq_rebuilt (h : Reached Maintaining db) (hix : db.indexes[i]? = some ix) :
    (∀ term record sec position, db.stored ix term record sec position =
        (ix.rebuilt db.textsOf record).count (term, sec, position)) ∧
      ∀ {id record sec position}, position ∈ ix.postings.positions id record sec →
        ∃ term, db.recordId? ix.lexicon term = some id := by
  obtain ⟨hwf, -, hmaintained⟩ := h.maintained
  refine ⟨fun term record sec position => ?_, fun hq => hwf.term_of_posting hix hq⟩
  rw [← producedAt_eq_count hix, ← storedAt_eq hix]
  exact hmaintained i term record sec position

/-- Notes with a title and a body, and an index of the words first in one and then in both. -/
def notes : Database :=
  (((((((new.after (.createTable (some "Words") ⟨.hash, some .shortText, .delimit⟩)).after
    (.createTable (some "Notes") ⟨.array, none, .whole⟩)).after
    (.defineColumn 257 "title" .shortText)).after
    (.defineColumn 257 "body" .text)).after
    (.addRecord 257)).after
    (.setValue 259 1 (.text "to be"))).after
    (.defineIndex 256 "notes" 257 ⟨.none, ["Notes.title"]⟩)).after
    (.setSourceInfo 260 ((Buffer.empty nilId false).setIds [258, 259]))

theorem reached_notes : Reached Maintaining notes := by
  refine .after _ (.after _ (.after _ (.after _ (.after _ (.after _ (.after _ (.after _ .new ?_)
    ?_) ?_) ?_) ?_) ?_) ?_) ?_
  all_goals exact ⟨trivial, trivial, by decide +kernel⟩

/-! ## Runs that delete terms -/

/-- What is stored at a place does not go beyond what the current texts yield there. -/
def Bounded (db : Database) : Prop := ∀ i t r s q, db.storedAt i t r s q ≤ db.producedAt i t r s q

theorem bounded_new : new.Bounded := by
  intro i t r s q
  simp [storedAt, indexes_new]

theorem Bounded.follows {exact : Nat → Nat → Prop} {db' : Database} (h : db.Bounded)
    (hf : Follows exact db db') : db'.Bounded := by
  intro i t r s q
  obtain ⟨f, hmono, hstored, hle, -⟩ := hf i t r s q
  rw [hstored]
  exact Nat.le_trans (hmono _ _ (h i t r s q)) hle

theorem Reached.bounded (h : Reached (fun _ call => call.Indexed) db) :
    db.WellFormed ∧ db.Bounded := by
  induction h with
  | new => exact ⟨wellFormed_new, bounded_new⟩
  | after call _ hcall ih =>
    obtain ⟨hwf, hfollows⟩ := ih.1.step hcall
    exact ⟨hwf, ih.2.follows hfollows⟩

/-- No posting outlives the text that it came from, whatever the order of the calls. -/
theorem stored_le_rebuilt (h : Reached (fun _ call => call.Indexed) db)
    (hix : db.indexes[i]? = some ix) :
    (∀ term record sec position, db.stored ix term record sec position ≤
        (ix.rebuilt db.textsOf record).count (term, sec, position)) ∧
      ∀ {id record sec position}, position ∈ ix.postings.positions id record sec →
        ∃ term, db.recordId? ix.lexicon term = some id := by
  obtain ⟨hwf, hbounded⟩ := h.bounded
  refine ⟨fun term record sec position => ?_, fun hq => hwf.term_of_posting hix hq⟩
  rw [← producedAt_eq_count hix, ← storedAt_eq hix]
  exact hbounded i term record sec position

/-- The notes after the term "be" has been deleted, which the body still has. -/
theorem stored_le_rebuilt_notes : ∃ ix,
    (notes.after (.deleteRecord 256 2)).indexes[260]? = some ix ∧
    (notes.after (.deleteRecord 256 2)).stored ix "be" 1 1 0x100001 = 0 ∧
      (notes.after (.deleteRecord 256 2)).stored ix "be" 1 1 0x100001 ≤
        (ix.rebuilt (notes.after (.deleteRecord 256 2)).textsOf 1).count ("be", 1, 0x100001) := by
  have hreached : Reached (fun _ call => call.Indexed) (notes.after (.deleteRecord 256 2)) :=
    .after _ (reached_notes.imp fun _ _ h => h.1) trivial
  have hix : (notes.after (.deleteRecord 256 2)).indexes[260]? =
      some ((notes.after (.deleteRecord 256 2)).indexes[260]?.get (by decide +kernel)) :=
    (Option.some_get _).symm
  exact ⟨_, hix, by decide +kernel, (stored_le_rebuilt hreached hix).1 _ _ _ _⟩

end Database
end Concordance
