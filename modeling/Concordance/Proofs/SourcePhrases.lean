import Concordance.Proofs.SourceIndexes
import Concordance.Proofs.WordSums

/-! # Phrases stay within a source

Sources are told apart by their sections, or else by the span of positions that each has to itself.
So a query whose tokens follow one another directly is counted source by source and text by text,
in an index that only its sources feed.
-/
namespace Concordance

/-- How often a query stands in the texts that each source holds for a record. -/
def Index.textCounts (ix : Index) (mode : SearchMode) (tokens : List Token)
    (texts : Nat → Nat → List String) (record : Nat) : List Nat :=
  ix.sources.map fun source =>
    total ((texts source record).map fun text => phraseCount mode tokens (textTerms ix.tokenizer text))

/-- The texts of a record leave each source a gap before the positions of the next. -/
def Index.Roomy (ix : Index) (texts : Nat → Nat → List String) (record : Nat) : Prop :=
  ∀ source ∈ ix.sources, ∀ o ∈ spread ix.tokenizer (texts source record) 0, o.2 < sectionSpan - 2

instance (ix : Index) (texts : Nat → Nat → List String) (record : Nat) :
    Decidable (ix.Roomy texts record) :=
  inferInstanceAs (Decidable (∀ source ∈ ix.sources,
    ∀ o ∈ spread ix.tokenizer (texts source record) 0, o.2 < sectionSpan - 2))

theorem inSection_map (held : List (String × Nat)) (sec s : Nat) :
    inSection (held.map fun o => (o.1, sec, o.2)) s = if sec = s then held else [] := by
  rw [inSection, List.filter_map, List.map_map]
  by_cases hs : sec = s
  · rw [List.filter_eq_self.2 fun o _ => by simp [hs], if_pos hs]
    exact List.map_id' held
  · rw [List.filter_eq_nil_iff.2 fun o _ => by simp [hs], if_neg hs]
    rfl

theorem inSection_flatMap {α : Type} (as : List α) (held : α → List (String × Nat × Nat))
    (sec : Nat) : inSection (as.flatMap held) sec = as.flatMap fun a => inSection (held a) sec := by
  rw [inSection, List.filter_flatMap, List.map_flatMap]
  rfl

namespace Index
variable {ix : Index} {texts : Nat → Nat → List String} {record : Nat}

/-- The terms of a source where they stand in the section that it feeds. -/
def placed (ix : Index) (texts : Nat → Nat → List String) (record : Nat)
    (place : ObjectId × Nat) : List (String × Nat) :=
  let start := if ix.flags.contains .withSection then 0 else (place.2 - 1) * sectionSpan
  (spread ix.tokenizer (texts place.1 record) 0).map fun o => (o.1, start + o.2)

/-- Texts that leave a gap are not saturated, as long as there are not too many sources. -/
theorem contribution_of_lt {n : Nat} (hn : n < 4096) {texts : List String}
    (hroom : ∀ o ∈ spread ix.tokenizer texts 0, o.2 < sectionSpan - 2) :
    ix.contribution n texts = (spread ix.tokenizer texts 0).map fun o =>
      (o.1, (ix.place n).1,
        (if ix.flags.contains .withSection then 0 else (n - 1) * sectionSpan) + o.2) := by
  rw [contribution]
  refine List.map_congr_left fun o ho => ?_
  have hlt := hroom o ho
  simp only [sectionSpan] at hlt
  cases hsec : ix.flags.contains .withSection with
  | true =>
    have hsat : saturate o.2 = o.2 := Nat.min_eq_left (by simp only [wordMax]; omega)
    simp [Index.place, hsec, hsat]
  | false =>
    have hsat : saturate ((n - 1) * sectionSpan + o.2) = (n - 1) * sectionSpan + o.2 :=
      Nat.min_eq_left (by simp only [wordMax, sectionSpan]; omega)
    simp [Index.place, hsec, hsat]

theorem contribution_eq (hroom : ix.Roomy texts record) (hcount : ix.sources.length < 4096)
    {place : ObjectId × Nat} (hp : place ∈ ix.sources.zipIdx 1) :
    ix.contribution place.2 (texts place.1 record) =
      (ix.placed texts record place).map fun o =>
        (o.1, (ix.place place.2).1, o.2) := by
  obtain ⟨hsource, -, hle⟩ := mem_places hp
  rw [contribution_of_lt (Nat.lt_of_le_of_lt hle hcount) (hroom place.1 hsource), placed,
    List.map_map]
  rfl

theorem phraseCount_placed {mode : SearchMode} {tokens : List Token} (h : Adjacent tokens)
    (place : ObjectId × Nat) :
    phraseCount mode tokens (ix.placed texts record place) =
      total ((texts place.1 record).map fun text =>
        phraseCount mode tokens (textTerms ix.tokenizer text)) := by
  rw [placed, phraseCount_shift, phraseCount_spread h]

theorem inSection_rebuilt (hroom : ix.Roomy texts record) (hcount : ix.sources.length < 4096)
    (sec : Nat) : inSection (ix.rebuilt texts record) sec =
      (ix.sources.zipIdx 1).flatMap fun place =>
        if (ix.place place.2).1 = sec then ix.placed texts record place else [] := by
  rw [rebuilt, inSection_flatMap]
  refine List.flatMap_congr fun place hp => ?_
  rw [contribution_eq hroom hcount hp, inSection_map]

/-- With sections, each holds the terms of its own source. -/
theorem inSection_place (hroom : ix.Roomy texts record) (hcount : ix.sources.length < 4096)
    (hsec : ix.flags.contains .withSection) {place : ObjectId × Nat}
    (hp : place ∈ ix.sources.zipIdx 1) :
    inSection (ix.rebuilt texts record) place.2 = ix.placed texts record place := by
  have hnodup : ((ix.sources.zipIdx 1).map (·.2)).Nodup := by
    rw [List.zipIdx_map_snd]
    exact List.nodup_range'
  obtain ⟨front, back, hsplit⟩ := List.append_of_mem hp
  rw [hsplit, List.map_append, List.map_cons, List.nodup_append, List.nodup_cons] at hnodup
  obtain ⟨-, ⟨hback, -⟩, hfront⟩ := hnodup
  have hnone : ∀ places : List (ObjectId × Nat), (∀ other ∈ places, other.2 ≠ place.2) →
      (places.flatMap fun other =>
        if (ix.place other.2).1 = place.2 then ix.placed texts record other else []) = [] := by
    intro places hplaces
    refine List.flatMap_eq_nil_iff.2 fun other ho => if_neg ?_
    simpa [Index.place, hsec] using hplaces other ho
  rw [inSection_rebuilt hroom hcount, hsplit, List.flatMap_append, List.flatMap_cons,
    hnone front fun other ho => hfront _ (List.mem_map_of_mem ho) _ (List.mem_cons_self ..),
    hnone back fun other ho heq => hback (heq ▸ List.mem_map_of_mem ho)]
  simp [Index.place, hsec]

theorem le_of_mem_placed (hsec : ix.flags.contains .withSection = false) {place : ObjectId × Nat}
    {o : String × Nat} (ho : o ∈ ix.placed texts record place) :
    (place.2 - 1) * sectionSpan ≤ o.2 := by
  obtain ⟨o, -, rfl⟩ := List.mem_map.1 ho
  simp [hsec]

theorem phraseCount_folded {mode : SearchMode} {tokens : List Token} (h : Adjacent tokens)
    (hsec : ix.flags.contains .withSection = false) {sources : List ObjectId} {k : Nat}
    (hk : 0 < k) (hroom : ∀ source ∈ sources, ∀ o ∈ spread ix.tokenizer (texts source record) 0,
      o.2 < sectionSpan - 2) :
    phraseCount mode tokens ((sources.zipIdx k).flatMap (ix.placed texts record)) =
      total (sources.map fun source => total ((texts source record).map fun text =>
        phraseCount mode tokens (textTerms ix.tokenizer text))) := by
  induction sources generalizing k with
  | nil => exact phraseCount_nil mode tokens
  | cons source rest ih =>
    have hrest := ih (Nat.succ_pos k) fun source hsource =>
      hroom source (List.mem_cons_of_mem _ hsource)
    rw [List.zipIdx_cons, List.flatMap_cons, phraseCount_append h, phraseCount_placed h, hrest,
      List.map_cons, total_cons]
    intro a ha b hb
    obtain ⟨place, hp, hb⟩ := List.mem_flatMap.1 hb
    have hplace := List.le_snd_of_mem_zipIdx hp
    have hb := le_of_mem_placed hsec hb
    obtain ⟨o, ho, rfl⟩ := List.mem_map.1 ha
    have ho := hroom source (List.mem_cons_self ..) o ho
    simp only [hsec, Bool.false_eq_true, if_false, sectionSpan] at ho hb ⊢
    omega

theorem section_of_mem_rebuilt (hroom : ix.Roomy texts record) (hcount : ix.sources.length < 4096)
    {o : String × Nat × Nat} (ho : o ∈ ix.rebuilt texts record) :
    ∃ place ∈ ix.sources.zipIdx 1, o.2.1 = (ix.place place.2).1 := by
  obtain ⟨place, hp, ho⟩ := List.mem_flatMap.1 ho
  rw [contribution_eq hroom hcount hp] at ho
  obtain ⟨o, -, rfl⟩ := List.mem_map.1 ho
  exact ⟨place, hp, rfl⟩

theorem lt_wordMax_of_mem_rebuilt (hroom : ix.Roomy texts record) (hcount : ix.sources.length < 4096)
    {o : String × Nat × Nat} (ho : o ∈ ix.rebuilt texts record) : o.2.2 < wordMax := by
  obtain ⟨place, hp, ho⟩ := List.mem_flatMap.1 ho
  obtain ⟨hsource, -, hle⟩ := mem_places hp
  rw [contribution_of_lt (Nat.lt_of_le_of_lt hle hcount) (hroom place.1 hsource)] at ho
  obtain ⟨a, ha, rfl⟩ := List.mem_map.1 ho
  have hlt := hroom place.1 hsource a ha
  simp only [sectionSpan, wordMax] at hlt ⊢
  split <;> omega

section Adjacent
variable {mode : SearchMode} {tokens : List Token} (hadjacent : Adjacent tokens)
  (hroom : ix.Roomy texts record) (hcount : ix.sources.length < 4096)
include hadjacent hroom hcount

theorem wrappedCount_rebuilt (sec : Nat) :
    wrappedCount mode tokens (inSection (ix.rebuilt texts record) sec) =
      phraseCount mode tokens (inSection (ix.rebuilt texts record) sec) := by
  refine wrappedCount_eq_phraseCount (phraseOverruns_eq_false_of_adjacent hadjacent ?_)
  intro token _ place hstands
  obtain ⟨o, ho, -, rfl⟩ := Token.standsAt_iff.1 hstands
  obtain ⟨a, ha, rfl⟩ := List.mem_map.1 ho
  exact lt_wordMax_of_mem_rebuilt hroom hcount (List.mem_filter.1 ha).1

/-- With sections, the places of a query in the texts of a source are those in its section. -/
theorem phraseCount_sections (hsec : ix.flags.contains .withSection = true) :
    ((ix.sources.zipIdx 1).map (·.2)).map (fun sec =>
        phraseCount mode tokens (inSection (ix.rebuilt texts record) sec)) =
      ix.textCounts mode tokens texts record := by
  have hcounts : ix.textCounts mode tokens texts record =
      (ix.sources.zipIdx 1).map fun place => total ((texts place.1 record).map fun text =>
        phraseCount mode tokens (textTerms ix.tokenizer text)) := by
    conv_lhs => rw [textCounts, ← List.zipIdx_map_fst 1 ix.sources, List.map_map]
    rfl
  rw [hcounts, List.map_map]
  refine List.map_congr_left fun place hp => ?_
  rw [Function.comp, inSection_place hroom hcount hsec hp, phraseCount_placed hadjacent]

theorem phraseCount_first (hsec : ix.flags.contains .withSection = false) :
    phraseCount mode tokens (inSection (ix.rebuilt texts record) 1) =
      total (ix.textCounts mode tokens texts record) := by
  rw [inSection_rebuilt hroom hcount]
  simp only [Index.place, hsec, Bool.false_eq_true, if_false, if_true]
  exact phraseCount_folded hadjacent hsec Nat.one_pos hroom

end Adjacent

/-- What a text finds in a record, told by the texts of its sources. -/
theorem getElem?_matchText_of_adjacent {lexicon : Table}
    (h : Holds lexicon ix.postings record (ix.rebuilt texts record)) (hn : ix.postings.Neat)
    (hroom : ix.Roomy texts record) (hcount : ix.sources.length < 4096)
    (hflags : ix.flags.contains .withPosition) {text : String} (mode : SearchMode)
    (htokens : ix.tokenizer.tokens .get text ≠ [])
    (hadjacent : Adjacent (ix.tokenizer.tokens .get text)) :
    (ix.matchText lexicon text mode)[record]? =
      let counts := ix.textCounts mode (ix.tokenizer.tokens .get text) texts record
      if 0 < total counts then
        some ⟨total counts,
          if ix.flags.contains .withSection then counts.countP (0 < ·) else 1⟩
      else none := by
  have hmatch {secs : List Nat} (hnodup : secs.Nodup)
      (hsecs : ∀ o ∈ ix.rebuilt texts record, o.2.1 ∈ secs) :=
    getElem?_matchText h hn hflags mode htokens hnodup hsecs
  simp only [wrappedCount_rebuilt hadjacent hroom hcount] at hmatch
  generalize ix.tokenizer.tokens .get text = tokens at hadjacent hmatch ⊢
  cases hsec : ix.flags.contains .withSection with
  | true =>
    -- Each source has its own section, and all of them are searched.
    rw [hmatch ?_ ?_, phraseCount_sections hadjacent hroom hcount hsec]
    · rfl
    · rw [List.zipIdx_map_snd]
      exact List.nodup_range'
    · intro o ho
      obtain ⟨place, hp, heq⟩ := section_of_mem_rebuilt hroom hcount ho
      have heq : o.2.1 = place.2 := by simpa [Index.place, hsec] using heq
      exact heq ▸ List.mem_map_of_mem hp
  | false =>
    -- The sources share the first section.
    have hone : ([1] : List Nat).Nodup := by decide
    have hsecs : ∀ o ∈ ix.rebuilt texts record, o.2.1 ∈ [1] := by
      intro o ho
      obtain ⟨place, -, heq⟩ := section_of_mem_rebuilt hroom hcount ho
      simpa [Index.place, hsec] using heq
    rw [hmatch hone hsecs]
    simp only [List.map_cons, List.map_nil, total_cons, total_nil, Nat.add_zero,
      phraseCount_first hadjacent hroom hcount hsec]
    split
    · rename_i hpos
      simp [hitOf, hpos]
    · rfl

end Index

namespace Database
variable {db : Database} {i : Nat} {ix : Index} {record : RecordId}

/-- An index that is maintained for a record holds what the texts of its sources contribute for the
record, and nothing else. -/
theorem MaintainedFor.holds (h : db.MaintainedFor i record) (hwf : db.WellFormed)
    (hix : db.indexes[i]? = some ix) : ∃ lexicon, db.tables[ix.lexicon]? = some lexicon ∧
      Holds lexicon ix.postings record (ix.rebuilt db.textsOf record) := by
  obtain ⟨lexicon, hlexicon, -⟩ := hwf.catalogued.lexicon_table hix
  refine ⟨lexicon, hlexicon, fun term sec position => ?_⟩
  rw [← stored_eq_tally ix hlexicon, ← storedAt_eq hix, ← producedAt_eq_count hix]
  exact h term sec position

theorem MaintainedFor.getElem?_matchText (h : db.MaintainedFor i record) (hwf : db.WellFormed)
    (hix : db.indexes[i]? = some ix) (hroom : ix.Roomy db.textsOf record)
    (hcount : ix.sources.length < 4096) (hflags : ix.flags.contains .withPosition) {text : String}
    (mode : SearchMode) (htokens : ix.tokenizer.tokens .get text ≠ [])
    (hadjacent : Adjacent (ix.tokenizer.tokens .get text)) :
    (db.matchText ix text mode)[record]? =
      let counts := ix.textCounts mode (ix.tokenizer.tokens .get text) db.textsOf record
      if 0 < total counts then
        some ⟨total counts,
          if ix.flags.contains .withSection then counts.countP (0 < ·) else 1⟩
      else none := by
  obtain ⟨lexicon, hlexicon, hholds⟩ := h.holds hwf hix
  simp only [matchText, hlexicon]
  have hn := hwf.posted.neat hix
  exact Index.getElem?_matchText_of_adjacent hholds hn hroom hcount hflags mode htokens hadjacent

end Database

end Concordance
