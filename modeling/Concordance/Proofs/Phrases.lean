import Concordance.Proofs.FeedCounts
import Concordance.Proofs.Selecting
import Concordance.Proofs.SourceTexts

/-! # What a text finds in a record

With positions, a record is found by the places where the tokens of the query stand together in one
section. Its score is the number of these places, whatever else the lexicon and the postings hold,
and it does not matter which ids the terms have. Places are words: past the last one they start
again with zero.
-/
namespace Concordance

/-- The terms of one section and where they stand. -/
def inSection (held : List (String × Nat × Nat)) (sec : Nat) : List (String × Nat) :=
  (held.filter (·.2.1 = sec)).map fun o => (o.1, o.2.2)

/-- Whether a term that the token selects stands at a position. -/
def Token.standsAt (mode : SearchMode) (token : Token) (held : List (String × Nat))
    (position : Nat) : Bool :=
  held.any fun o => token.selects mode o.1 && o.2 = position

theorem Token.standsAt_iff {mode : SearchMode} {token : Token} {held : List (String × Nat)}
    {position : Nat} : token.standsAt mode held position ↔
      ∃ o ∈ held, token.selects mode o.1 ∧ o.2 = position := by
  simp [standsAt]

theorem Token.standsAt_append (mode : SearchMode) (token : Token)
    (front back : List (String × Nat)) (position : Nat) :
    token.standsAt mode (front ++ back) position =
      (token.standsAt mode front position || token.standsAt mode back position) :=
  List.any_append

/-- How often the tokens of a query stand together among the terms of one section, each at its
distance from the first. -/
def phraseCount (mode : SearchMode) : List Token → List (String × Nat) → Nat
  | [], _ => 0
  | first :: rest, held =>
    held.countP fun o => first.selects mode o.1 &&
      rest.all fun token => token.standsAt mode held (o.2 + (token.position - first.position))

/-- The same count with places that wrap around. -/
def wrappedCount (mode : SearchMode) : List Token → List (String × Nat) → Nat
  | [], _ => 0
  | first :: rest, held =>
    held.countP fun o => first.selects mode o.1 && rest.all fun token =>
      token.standsAt mode held (wrap (o.2 + (token.position - first.position)))

/-- The lexicon and the postings hold exactly these occurrences of a record. -/
def Holds (lexicon : Table) (p : Postings) (record : RecordId)
    (held : List (String × Nat × Nat)) : Prop :=
  ∀ term sec position, tally lexicon p term record sec position = held.count (term, sec, position)

/-! ## Counting by terms -/

theorem countP_key_cons {k : String} {ks : List String} (hk : k ∉ ks) (held : List (String × Nat))
    (q : Nat) :
    held.countP (fun o => decide (o.1 ∈ k :: ks ∧ o.2 = q)) =
      held.count (k, q) + held.countP fun o => decide (o.1 ∈ ks ∧ o.2 = q) := by
  induction held with
  | nil => rfl
  | cons o rest ih =>
    rw [List.countP_cons, List.countP_cons, List.count_cons, ih]
    by_cases hterm : o.1 = k
    · have hks : o.1 ∉ ks := hterm ▸ hk
      by_cases hq : o.2 = q
      · simp [Prod.ext_iff, hterm, hk, hq]
        omega
      · simp [Prod.ext_iff, hterm, hk, hq]
    · by_cases hq : o.2 = q
      · simp [Prod.ext_iff, hterm, hq]
        omega
      · simp [Prod.ext_iff, hterm, hq]

theorem total_count {ks : List String} (hnodup : ks.Nodup) (held : List (String × Nat)) (q : Nat) :
    total (ks.map fun k => held.count (k, q)) =
      held.countP fun o => decide (o.1 ∈ ks ∧ o.2 = q) := by
  induction ks with
  | nil => simp
  | cons k ks ih =>
    obtain ⟨hk, hnodup⟩ := List.nodup_cons.1 hnodup
    rw [List.map_cons, total_cons, ih hnodup, countP_key_cons hk]

theorem count_inSection (held : List (String × Nat × Nat)) (sec : Nat) (term : String) (q : Nat) :
    (inSection held sec).count (term, q) = held.count (term, sec, q) := by
  induction held with
  | nil => rfl
  | cons o rest ih =>
    simp only [inSection, List.filter_cons] at ih ⊢
    by_cases hs : o.2.1 = sec <;> simp [hs, List.count_cons, ih, Prod.ext_iff]

namespace Postings
variable {lexicon : Table} {p : Postings} {record : RecordId} {held : List (String × Nat × Nat)}

/-- The slot of a token is where the terms that it selects stand in the section. -/
theorem slot_perm (h : Holds lexicon p record held) (mode : SearchMode) (token : Token)
    (offset sec : Nat) :
    (p.slot record sec ⟨offset, selectTerms lexicon mode token⟩).Perm
      (((inSection held sec).filter (token.selects mode ·.1)).map (·.2)) := by
  rw [List.perm_iff_count]
  intro q
  -- A key has one id, so the positions of the selected ids are those held under the selected keys.
  let entries := lexicon.idOf.toList.filter (token.selects mode ·.1)
  have hkeys : (entries.map (·.1)).Nodup :=
    (List.filter_sublist.map _).nodup (FiniteMap.nodup_keys lexicon.idOf)
  have hentry : ∀ e ∈ entries, (p.positions e.2 record sec).count q =
      (inSection held sec).count (e.1, q) := by
    intro e he
    have hfind : lexicon.find? e.1 = some e.2 :=
      Std.ExtTreeMap.mem_toList_iff_getElem?_eq_some.1 (List.mem_filter.1 he).1
    rw [count_inSection, ← h, tally_of_find? hfind]
  have hheld : ∀ o ∈ inSection held sec, o.1 ∈ entries.map (·.1) ↔ token.selects mode o.1 := by
    intro o ho
    have hcount := List.count_pos_iff.2 ho
    rw [count_inSection, ← h] at hcount
    constructor
    · intro hmem
      obtain ⟨e, he, heq⟩ := List.mem_map.1 hmem
      exact heq ▸ (List.mem_filter.1 he).2
    · intro hsel
      cases hfind : lexicon.find? o.1 with
      | none =>
        rw [tally_of_new hfind] at hcount
        cases hcount
      | some id =>
        refine List.mem_map.2 ⟨(o.1, id), List.mem_filter.2 ⟨?_, hsel⟩, rfl⟩
        exact Std.ExtTreeMap.mem_toList_iff_getElem?_eq_some.2 hfind
  calc (p.slot record sec ⟨offset, selectTerms lexicon mode token⟩).count q
      = total (entries.map fun e => (p.positions e.2 record sec).count q) := by
        rw [slot, selectTerms_eq, List.count_flatMap, List.map_map]
        rfl
    _ = total ((entries.map (·.1)).map fun k => (inSection held sec).count (k, q)) := by
        rw [List.map_map]
        exact congrArg total (List.map_congr_left hentry)
    _ = (inSection held sec).countP fun o => decide (o.1 ∈ entries.map (·.1) ∧ o.2 = q) :=
        total_count hkeys _ q
    _ = (((inSection held sec).filter (token.selects mode ·.1)).map (·.2)).count q := by
        rw [List.count, List.countP_map, List.countP_filter]
        refine List.countP_congr fun o ho => ?_
        simp [hheld o ho, and_comm]

theorem mem_slot (h : Holds lexicon p record held) {mode : SearchMode} {token : Token}
    {offset sec position : Nat} :
    position ∈ p.slot record sec ⟨offset, selectTerms lexicon mode token⟩ ↔
      token.standsAt mode (inSection held sec) position := by
  rw [(slot_perm h mode token offset sec).mem_iff, Token.standsAt_iff]
  simp

/-- The hits in a section are the places where the query stands. -/
theorem phraseHits_selections (h : Holds lexicon p record held) (mode : SearchMode)
    (tokens : List Token) (sec : Nat) :
    phraseHits ((selections lexicon mode tokens).map fun s => (s.offset, p.slot record sec s)) =
      wrappedCount mode tokens (inSection held sec) := by
  cases tokens with
  | nil => rfl
  | cons first rest =>
    simp only [selections, List.map_cons, phraseHits, wrappedCount, List.map_map, List.head?_cons,
      Option.map_some, Option.getD_some]
    rw [(slot_perm h mode first _ sec).countP_eq, List.countP_map, List.countP_filter]
    refine List.countP_congr fun o _ => ?_
    simp [List.all_map, mem_slot h, and_comm]

end Postings

/-! ## Hits -/

/-- The hits in some sections, and in how many there are any. -/
def hitOf (hits : List Nat) : Hit := ⟨total hits, hits.countP (0 < ·)⟩

section
variable {found : Matches} {record : Nat} {p : Prop} [Decidable p] {hit : Hit}

theorem contains_iff_of_getElem? (h : found[record]? = if p then some hit else none) :
    found.contains record ↔ p := by
  rw [Std.ExtTreeMap.contains_eq_isSome_getElem?, h]
  split <;> simp_all

theorem eq_of_getElem? (h : found[record]? = if p then some hit else none) {hit' : Hit}
    (hhit : found[record]? = some hit') : hit' = hit := by
  rw [h] at hhit
  split at hhit
  · exact (Option.some.inj hhit).symm
  · cases hhit

end

/-- Sections without a hit make no difference. -/
theorem hitOf_congr {secs secs' : List Nat} (hnodup : secs.Nodup) (hnodup' : secs'.Nodup)
    {hits : Nat → Nat} (hsecs : ∀ sec, 0 < hits sec → (sec ∈ secs ↔ sec ∈ secs')) :
    hitOf (secs.map hits) = hitOf (secs'.map hits) := by
  have hkept : ∀ secs : List Nat, hitOf (secs.map hits) =
      hitOf ((secs.filter fun sec => 0 < hits sec).map hits) := by
    intro secs
    induction secs with
    | nil => rfl
    | cons sec rest ih =>
      simp only [hitOf, Hit.mk.injEq, List.map_cons, total_cons, List.countP_cons] at ih ⊢
      by_cases hpos : 0 < hits sec
      · rw [List.filter_cons_of_pos (by simpa using hpos)]
        simp [ih, hpos]
      · rw [List.filter_cons_of_neg (by simpa using hpos)]
        simp [ih, hpos]
        omega
  have hperm : (secs.filter fun sec => 0 < hits sec).Perm
      (secs'.filter fun sec => 0 < hits sec) := by
    rw [List.perm_ext_iff_of_nodup (hnodup.filter _) (hnodup'.filter _)]
    intro sec
    simp only [List.mem_filter, decide_eq_true_eq]
    constructor
    · rintro ⟨hmem, hpos⟩
      exact ⟨(hsecs sec hpos).1 hmem, hpos⟩
    · rintro ⟨hmem, hpos⟩
      exact ⟨(hsecs sec hpos).2 hmem, hpos⟩
  rw [hkept secs, hkept secs', hitOf, hitOf, total_perm (hperm.map _),
    (hperm.map hits).countP_eq]

/-- Where a query stands, each of its tokens stands. -/
theorem standsAt_of_wrappedCount_pos {mode : SearchMode} {tokens : List Token}
    {held : List (String × Nat)} (h : 0 < wrappedCount mode tokens held) {token : Token}
    (ht : token ∈ tokens) : ∃ position, token.standsAt mode held position := by
  cases tokens with
  | nil => cases ht
  | cons first rest =>
    obtain ⟨o, ho, hplace⟩ := List.countP_pos_iff.1 h
    obtain ⟨hfirst, hrest⟩ := (Bool.and_eq_true _ _).mp hplace
    rcases List.mem_cons.1 ht with rfl | ht
    · exact ⟨o.2, Token.standsAt_iff.2 ⟨o, ho, hfirst, rfl⟩⟩
    · exact ⟨_, List.all_eq_true.1 hrest token ht⟩

theorem phraseCount_nil (mode : SearchMode) (tokens : List Token) :
    phraseCount mode tokens [] = 0 := by
  cases tokens <;> rfl

namespace Postings
variable {lexicon : Table} {p : Postings} {record : RecordId} {held : List (String × Nat × Nat)}

/-- Where a term has a position, its list names the record and the section. -/
theorem Neat.mem_of_mem_positions (hn : p.Neat) {term sec position : Nat}
    (h : position ∈ p.positions term record sec) :
    record ∈ (p.list term).records ∧ sec ∈ ((p.list term).sections record).map (·.1) := by
  have hne : (p.list term).positions record sec ≠ [] := List.ne_nil_of_mem h
  have hentry := ((hn.list term).entryAt_eq record sec).trans (if_neg hne)
  exact ⟨(hn.list term).mem_records_iff.2 ⟨sec, hne⟩,
    List.mem_map_of_mem (PostingList.mem_sections.2 hentry)⟩

theorem mem_foldl_insertMany {α : Type} {ids : α → List Nat} {as : List α} {start : IdSet}
    {id : Nat} : id ∈ as.foldl (fun found a => found.insertMany (ids a)) start ↔
      id ∈ start ∨ ∃ a ∈ as, id ∈ ids a := by
  induction as generalizing start with
  | nil => simp
  | cons a rest ih =>
    rw [List.foldl_cons, ih, Std.ExtTreeSet.mem_insertMany_list]
    simp [or_assoc]

theorem mem_recordsOf {terms : List RecordId} :
    record ∈ p.recordsOf terms ↔ ∃ term ∈ terms, record ∈ (p.list term).records := by
  rw [recordsOf, mem_foldl_insertMany]
  simp

theorem mem_sectionsOf {query : List Selection} {sec : Nat} :
    sec ∈ p.sectionsOf query record ↔ ∃ s ∈ query, ∃ term ∈ s.terms,
      sec ∈ ((p.list term).sections record).map (·.1) := by
  rw [sectionsOf, Std.ExtTreeSet.mem_toList, mem_foldl_insertMany]
  simp only [List.mem_flatMap]
  constructor
  · rintro (hnone | ⟨term, ⟨s, hs, hterm⟩, hsec⟩)
    · simp at hnone
    · exact ⟨s, hs, term, hterm, hsec⟩
  · rintro ⟨s, hs, term, hterm, hsec⟩
    exact .inr ⟨term, ⟨s, hs, hterm⟩, hsec⟩

theorem nodup_sectionsOf (query : List Selection) : (p.sectionsOf query record).Nodup := by
  refine Std.ExtTreeSet.distinct_toList.imp ?_
  intro a b hne heq
  exact hne (heq ▸ Std.ReflCmp.compare_self)

theorem mem_candidates {query : List Selection} (hquery : query ≠ []) :
    record ∈ p.candidates query ↔ ∀ s ∈ query, ∃ term ∈ s.terms, record ∈ (p.list term).records := by
  cases query with
  | nil => exact absurd rfl hquery
  | cons first rest =>
    simp only [candidates, List.mem_filter, Std.ExtTreeSet.mem_toList, mem_recordsOf,
      List.all_eq_true, List.any_eq_true, Std.ExtTreeSet.contains_iff_mem, List.forall_mem_cons]

theorem getElem?_matchSelections (phrase : Bool) (query : List Selection) :
    (p.matchSelections phrase query)[record]? =
      if record ∈ p.candidates query ∧ 0 < (p.hit phrase query record).score then
        some (p.hit phrase query record)
      else none := by
  have hfold : ∀ (records : List RecordId) (start : Matches), (records.foldl
      (fun found record =>
        let hit := p.hit phrase query record
        if 0 < hit.score then found.insert record hit else found) start)[record]? =
          if record ∈ records ∧ 0 < (p.hit phrase query record).score then
            some (p.hit phrase query record)
          else start[record]? := by
    intro records start
    induction records generalizing start with
    | nil => simp
    | cons r rest ih =>
      rw [List.foldl_cons, ih]
      by_cases hr : record = r
      · subst hr
        by_cases hpos : 0 < (p.hit phrase query record).score <;> simp [hpos]
      · by_cases hpos : 0 < (p.hit phrase query r).score <;> simp [hpos, hr]
  exact (hfold _ _).trans (by simp)

/-- With positions, a section has as many hits as places where the query stands. -/
theorem sectionHits_eq (h : Holds lexicon p record held) (mode : SearchMode) {tokens : List Token}
    (htokens : tokens ≠ []) (sec : Nat) :
    p.sectionHits (1 < tokens.length) (selections lexicon mode tokens) record sec =
      wrappedCount mode tokens (inSection held sec) := by
  by_cases hphrase : 1 < tokens.length
  · simp only [sectionHits, hphrase, decide_true, if_true]
    exact phraseHits_selections h mode tokens sec
  · obtain ⟨token, rfl⟩ : ∃ token, tokens = [token] := by
      match tokens, htokens with
      | [token], _ => exact ⟨token, rfl⟩
      | _ :: _ :: _, _ => simp at hphrase
    have hhits := phraseHits_selections h mode [token] sec
    simp only [selections, List.map_cons, List.map_nil, phraseHits, List.all_nil] at hhits
    simp only [sectionHits, hphrase, decide_false, Bool.false_eq_true, if_false, selections,
      List.map_cons, List.map_nil, total_cons, total_nil]
    rw [← hhits]
    simp

end Postings

theorem mem_selections {lexicon : Table} {mode : SearchMode} {tokens : List Token} {s : Selection}
    (hs : s ∈ selections lexicon mode tokens) :
    ∃ token ∈ tokens, ∃ offset, s = ⟨offset, selectTerms lexicon mode token⟩ := by
  obtain ⟨token, htoken, rfl⟩ := List.mem_map.1 hs
  exact ⟨token, htoken, _, rfl⟩

/-- Where a query stands in a section, each of its selections has a term there. -/
theorem Holds.term_of_wrappedCount {lexicon : Table} {p : Postings} {record : RecordId}
    {held : List (String × Nat × Nat)} (h : Holds lexicon p record held) (hn : p.Neat)
    {mode : SearchMode} {tokens : List Token} {sec : Nat} (hpos : 0 < wrappedCount mode tokens (inSection held sec))
    {s : Selection} (hs : s ∈ selections lexicon mode tokens) : ∃ term ∈ s.terms,
      record ∈ (p.list term).records ∧ sec ∈ ((p.list term).sections record).map (·.1) := by
  obtain ⟨token, htoken, offset, rfl⟩ := mem_selections hs
  obtain ⟨position, hstands⟩ := standsAt_of_wrappedCount_pos hpos htoken
  have hslot : position ∈ p.slot record sec ⟨offset, selectTerms lexicon mode token⟩ :=
    (Postings.mem_slot h).2 hstands
  obtain ⟨term, hterm, hposition⟩ := List.mem_flatMap.1 hslot
  exact ⟨term, hterm, hn.mem_of_mem_positions hposition⟩

theorem total_pos {ns : List Nat} : 0 < total ns ↔ ∃ n ∈ ns, 0 < n := by
  induction ns with
  | nil => simp
  | cons n rest ih =>
    rw [total_cons, Nat.add_pos_iff_pos_or_pos, ih]
    simp

/-- What a text finds in a record, told by the occurrences of the record. The sections are any that
have them all. -/
theorem Index.getElem?_matchText {ix : Index} {lexicon : Table} {record : RecordId}
    {held : List (String × Nat × Nat)} (h : Holds lexicon ix.postings record held)
    (hn : ix.postings.Neat) (hflags : ix.flags.contains .withPosition) {text : String} (mode : SearchMode)
    (htokens : ix.tokenizer.tokens .get text ≠ []) {secs : List Nat} (hnodup : secs.Nodup)
    (hsecs : ∀ o ∈ held, o.2.1 ∈ secs) :
    (ix.matchText lexicon text mode)[record]? =
      let hits := secs.map fun sec =>
        wrappedCount mode (ix.tokenizer.tokens .get text) (inSection held sec)
      if 0 < total hits then some (hitOf hits) else none := by
  simp only [Index.matchText, hflags, Bool.and_true]
  generalize ix.tokenizer.tokens .get text = tokens at htokens
  have hquery : selections lexicon mode tokens ≠ [] := by
    simpa [selections] using htokens
  have hhit : ix.postings.hit (1 < tokens.length) (selections lexicon mode tokens) record =
      hitOf (secs.map fun sec => wrappedCount mode tokens (inSection held sec)) := by
    have hsection := funext (Postings.sectionHits_eq h mode htokens)
    rw [Postings.hit, hsection]
    -- A section with a hit holds a token, so it is in both lists of sections.
    refine hitOf_congr (Postings.nodup_sectionsOf _) hnodup fun sec hpos =>
      ⟨fun _ => ?_, fun _ => ?_⟩
    · obtain ⟨token, htoken⟩ := List.exists_mem_of_ne_nil tokens htokens
      obtain ⟨position, hstands⟩ := standsAt_of_wrappedCount_pos hpos htoken
      obtain ⟨o, ho, -⟩ := Token.standsAt_iff.1 hstands
      obtain ⟨o', ho', rfl⟩ := List.mem_map.1 ho
      obtain ⟨hmem, hsec⟩ := List.mem_filter.1 ho'
      exact of_decide_eq_true hsec ▸ hsecs o' hmem
    · obtain ⟨s, hs⟩ := List.exists_mem_of_ne_nil _ hquery
      obtain ⟨term, hterm, -, hsec⟩ := h.term_of_wrappedCount hn hpos hs
      exact Postings.mem_sectionsOf.2 ⟨s, hs, term, hterm, hsec⟩
  have hterms (hpos : 0 < total (secs.map fun sec =>
      wrappedCount mode tokens (inSection held sec))) :
      ∀ s ∈ selections lexicon mode tokens, ∃ term ∈ s.terms,
        record ∈ (ix.postings.list term).records := by
    intro s hs
    obtain ⟨hits, hmem, hpos⟩ := total_pos.1 hpos
    obtain ⟨sec, -, rfl⟩ := List.mem_map.1 hmem
    obtain ⟨term, hterm, hcontains, -⟩ := h.term_of_wrappedCount hn hpos hs
    exact ⟨term, hterm, hcontains⟩
  cases hempty : (selections lexicon mode tokens).any (·.terms.isEmpty) with
  | true =>
    -- The search ends early when a token selects no term, and a hit would need one.
    obtain ⟨s, hs, hnone⟩ := List.any_eq_true.1 hempty
    rw [if_pos rfl, if_neg, Std.ExtTreeMap.getElem?_empty]
    intro hpos
    obtain ⟨term, hterm, -⟩ := hterms hpos s hs
    rw [List.isEmpty_iff.1 hnone] at hterm
    cases hterm
  | false =>
    rw [if_neg Bool.false_ne_true, Postings.getElem?_matchSelections, hhit]
    by_cases hpos : 0 < total (secs.map fun sec => wrappedCount mode tokens (inSection held sec))
    · rw [if_pos ⟨(Postings.mem_candidates hquery).2 (hterms hpos), hpos⟩, if_pos hpos]
    · rw [if_neg fun hfound => hpos hfound.2, if_neg hpos]

end Concordance
