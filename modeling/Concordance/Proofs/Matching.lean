import Concordance.Proofs.LivePostings
import Concordance.Proofs.WordSums
import Mathlib.Data.List.Count
import Mathlib.Data.List.Dedup

/-! # What a search says of one record

A search says of a record what its own occurrences say, told by the texts of the terms. So indexes
that hold the same occurrences of a record agree on it, whatever else they hold and whichever ids
their terms have. Merging says of a record what its own hits say.
-/
namespace Concordance

/-! ## The occurrences of a record -/

def heldOf (lexicon : Table) (p : Postings) (record : RecordId) : List (String × Nat × Nat) :=
  lexicon.idOf.toList.flatMap fun e =>
    ((p.list e.2).sections record).flatMap fun s => s.2.map fun q => (e.1, s.1, q)

theorem flatMap_filter {α β : Type} (p : α → Bool) (part : α → List β) (as : List α) :
    (as.filter p).flatMap part = as.flatMap fun a => if p a then part a else [] := by
  induction as with
  | nil => rfl
  | cons a rest ih => by_cases hp : p a <;> simp [hp, ih]

theorem count_sections (list : PostingList) (record : RecordId) (term : String)
    (sec position : Nat) :
    ((list.sections record).flatMap fun s => s.2.map fun q => (term, s.1, q)).count
        (term, sec, position) = (list.positions record sec).count position := by
  have hkey : ∀ e : PostingKey × List Nat, (term, sec, position) ∈
      (if e.1.record = record then e.2.map fun q => (term, e.1.sec, q) else []) →
        e.1 = ⟨record, sec⟩ := by
    rintro ⟨⟨r, s⟩, ps⟩ he
    split at he
    · rename_i hr
      obtain ⟨q, -, heq⟩ := List.mem_map.1 he
      cases heq
      exact congrArg (PostingKey.mk · s) hr
    · cases he
  have hinj : Function.Injective fun q : Nat => (term, sec, q) := fun a b hab => by simpa using hab
  rw [PostingList.sections, List.flatMap_map, flatMap_filter]
  simp only [decide_eq_true_eq]
  refine (FiniteMap.count_flatMap_toList list.entries _ hkey).trans ?_
  rw [PostingList.positions_eq, PostingList.entryAt]
  cases list.entries[(⟨record, sec⟩ : PostingKey)]? with
  | none => rfl
  | some ps => simpa using List.count_map_of_injective ps _ hinj position

theorem holds_heldOf (lexicon : Table) (p : Postings) (record : RecordId) :
    Holds lexicon p record (heldOf lexicon p record) := by
  intro term sec position
  rw [heldOf, FiniteMap.count_flatMap_toList (k := term)]
  · simp only [tally, Table.find?]
    cases lexicon.idOf[term]? with
    | none => rfl
    | some id => exact (count_sections _ record term sec position).symm
  · intro e he
    obtain ⟨s, -, hs⟩ := List.mem_flatMap.1 he
    obtain ⟨q, -, heq⟩ := List.mem_map.1 hs
    exact congrArg (·.1) heq

/-! ## Hits -/

/-- The hits of a query among the terms of one section: the places where it stands if it is a
phrase, and else whatever its tokens select. -/
def sectionScore (phrase : Bool) (mode : SearchMode) (tokens : List Token)
    (held : List (String × Nat)) : Nat :=
  if phrase then wrappedCount mode tokens held
  else total (tokens.map fun token => held.countP (token.selects mode ·.1))

theorem stands_of_sectionScore_pos {phrase : Bool} {mode : SearchMode} {tokens : List Token}
    {held : List (String × Nat)} (h : 0 < sectionScore phrase mode tokens held) :
    ∃ token ∈ tokens, ∃ position, token.standsAt mode held position := by
  cases phrase with
  | true =>
    rw [sectionScore, if_pos rfl] at h
    cases tokens with
    | nil => exact absurd h (Nat.lt_irrefl 0)
    | cons first rest =>
      exact ⟨first, List.mem_cons_self .., standsAt_of_wrappedCount_pos h (List.mem_cons_self ..)⟩
  | false =>
    rw [sectionScore, if_neg Bool.false_ne_true] at h
    obtain ⟨n, hn, hpos⟩ := total_pos.1 h
    obtain ⟨token, htoken, rfl⟩ := List.mem_map.1 hn
    obtain ⟨o, ho, hselects⟩ := List.countP_pos_iff.1 hpos
    exact ⟨token, htoken, o.2, Token.standsAt_iff.2 ⟨o, ho, hselects, rfl⟩⟩

namespace Postings
variable {lexicon : Table} {p : Postings} {record : RecordId} {held : List (String × Nat × Nat)}

theorem sectionHits_selections (h : Holds lexicon p record held) (phrase : Bool)
    (mode : SearchMode) (tokens : List Token) (sec : Nat) :
    p.sectionHits phrase (selections lexicon mode tokens) record sec =
      sectionScore phrase mode tokens (inSection held sec) := by
  rw [sectionHits, sectionScore, phraseHits_selections h, selections, List.map_map]
  split
  · rfl
  · refine congrArg total (List.map_congr_left fun token _ => ?_)
    rw [Function.comp, (slot_perm h mode token _ sec).length_eq, List.length_map,
      List.countP_eq_length_filter]

theorem exists_contains_iff (h : Holds lexicon p record held) (hn : p.Neat) {mode : SearchMode}
    {token : Token} : (∃ term ∈ selectTerms lexicon mode token, record ∈ (p.list term).records) ↔
      ∃ o ∈ held, token.selects mode o.1 := by
  constructor
  · rintro ⟨term, hterm, hrecord⟩
    obtain ⟨sec, position, hposition⟩ := hn.exists_position hrecord
    have hslot : position ∈ p.slot record sec ⟨0, selectTerms lexicon mode token⟩ :=
      List.mem_flatMap.2 ⟨term, hterm, hposition⟩
    obtain ⟨o, ho, hselects, -⟩ := Token.standsAt_iff.1 ((mem_slot h).1 hslot)
    obtain ⟨o', ho', rfl⟩ := List.mem_map.1 ho
    exact ⟨o', (List.mem_filter.1 ho').1, hselects⟩
  · rintro ⟨o, ho, hselects⟩
    have hstands : token.standsAt mode (inSection held o.2.1) o.2.2 := by
      refine Token.standsAt_iff.2 ⟨(o.1, o.2.2), ?_, hselects, rfl⟩
      exact List.mem_map.2 ⟨o, List.mem_filter.2 ⟨ho, by simp⟩, rfl⟩
    have hslot : o.2.2 ∈ p.slot record o.2.1 ⟨0, selectTerms lexicon mode token⟩ :=
      (mem_slot h).2 hstands
    obtain ⟨term, hterm, hposition⟩ := List.mem_flatMap.1 hslot
    exact ⟨term, hterm, (hn.mem_of_mem_positions hposition).1⟩

theorem mem_candidates_selections (h : Holds lexicon p record held) (hn : p.Neat)
    {mode : SearchMode} {tokens : List Token} :
    record ∈ p.candidates (selections lexicon mode tokens) ↔
      tokens ≠ [] ∧ ∀ token ∈ tokens, ∃ o ∈ held, token.selects mode o.1 := by
  by_cases htokens : tokens = []
  · simp [htokens, selections, candidates]
  · have hquery : selections lexicon mode tokens ≠ [] := by simpa [selections] using htokens
    rw [mem_candidates hquery]
    simp only [selections, List.forall_mem_map, exists_contains_iff h hn, htokens, ne_eq,
      not_false_eq_true, true_and]

theorem hit_selections (h : Holds lexicon p record held) (hn : p.Neat) (phrase : Bool)
    (mode : SearchMode) (tokens : List Token) {secs : List Nat} (hnodup : secs.Nodup)
    (hsecs : ∀ o ∈ held, o.2.1 ∈ secs) :
    p.hit phrase (selections lexicon mode tokens) record =
      hitOf (secs.map fun sec => sectionScore phrase mode tokens (inSection held sec)) := by
  rw [hit, funext (sectionHits_selections h phrase mode tokens)]
  refine hitOf_congr (nodup_sectionsOf _) hnodup fun sec hpos => ?_
  obtain ⟨token, htoken, position, hstands⟩ := stands_of_sectionScore_pos hpos
  constructor
  · intro _
    obtain ⟨o, ho, -⟩ := Token.standsAt_iff.1 hstands
    obtain ⟨o', ho', rfl⟩ := List.mem_map.1 ho
    obtain ⟨hmem, hsec⟩ := List.mem_filter.1 ho'
    exact of_decide_eq_true hsec ▸ hsecs o' hmem
  · intro _
    have hs : (⟨token.position - (tokens.head?.map Token.position).getD 0,
        selectTerms lexicon mode token⟩ : Selection) ∈ selections lexicon mode tokens :=
      List.mem_map_of_mem htoken
    obtain ⟨term, hterm, hposition⟩ := List.mem_flatMap.1 ((mem_slot h).2 hstands)
    exact mem_sectionsOf.2 ⟨_, hs, term, hterm, (hn.mem_of_mem_positions hposition).2⟩

end Postings

/-! ## Terms -/

theorem Postings.getElem?_matchTerm_congr {p p' : Postings} (hn : p.Neat) (hn' : p'.Neat)
    {term record : Nat}
    (heq : ∀ sec, p'.positions term record sec = p.positions term record sec) :
    (p'.matchTerm term)[record]? = (p.matchTerm term)[record]? := by
  have hrecord := (hn'.list term).records_congr (hn.list term) heq
  have hsections : (p'.list term).sections record = (p.list term).sections record :=
    PostingList.sections_congr ((hn'.list term).entryAt_congr (hn.list term) heq)
  simp only [getElem?_matchTerm, PostingList.frequency, hrecord, hsections]

/-- A term has the same positions in a record when the record holds the same occurrences and the
lexicon still has the old keys. -/
theorem Matched.positions_congr {lexicon lexicon' : Table} {p p' : Postings} {record : Nat}
    (h : Matched lexicon p) (h' : Matched lexicon' p') (hn : p.Neat) (hn' : p'.Neat)
    (hkey : ∀ {id : Nat} {k}, lexicon.key? id = some k → lexicon'.key? id = some k)
    (htally : ∀ t s q, tally lexicon' p' t record s q = tally lexicon p t record s q)
    (term sec : Nat) : p'.positions term record sec = p.positions term record sec := by
  refine hn'.positions_congr hn fun position => ?_
  cases hterm' : lexicon'.key? term with
  | none =>
    have hterm : lexicon.key? term = none := by
      cases hk : lexicon.key? term with
      | none => rfl
      | some k => cases hterm'.symm.trans (hkey hk)
    rw [h.positions_of_new hterm, h'.positions_of_new hterm']
  | some k =>
    rw [← tally_of_find? (h'.sound.find?_iff.2 hterm'), htally]
    cases hterm : lexicon.key? term with
    | some k' =>
      obtain rfl := Option.some.inj (hterm'.symm.trans (hkey hterm))
      exact tally_of_find? (h.sound.find?_iff.2 hterm) record sec position
    | none =>
      have hnew : lexicon.find? k = none := by
        cases hfind : lexicon.find? k with
        | none => rfl
        | some id =>
          have hid := h'.sound.find?_iff.2 (hkey (h.sound.find?_iff.1 hfind))
          obtain rfl := Option.some.inj (hid.symm.trans (h'.sound.find?_iff.2 hterm'))
          cases hterm.symm.trans (h.sound.find?_iff.1 hfind)
      rw [tally_of_new hnew, h.positions_of_new hterm, List.count_nil]

/-! ## Texts -/

namespace Index
variable {ix jx : Index} {lexicon lexicon' : Table} {record : RecordId}

/-- What a text finds in a record of any index, told by the occurrences of the record. -/
theorem getElem?_matchText_of_holds {held : List (String × Nat × Nat)}
    (h : Holds lexicon ix.postings record held) (hn : ix.postings.Neat) (text : String)
    (mode : SearchMode) {secs : List Nat} (hnodup : secs.Nodup)
    (hsecs : ∀ o ∈ held, o.2.1 ∈ secs) :
    (ix.matchText lexicon text mode)[record]? =
      let tokens := ix.tokenizer.tokens .get text
      let phrase := 1 < tokens.length && ix.flags.contains .withPosition
      let hits := secs.map fun sec => sectionScore phrase mode tokens (inSection held sec)
      if tokens ≠ [] ∧ (∀ token ∈ tokens, ∃ o ∈ held, token.selects mode o.1) ∧ 0 < total hits then
        some (hitOf hits)
      else none := by
  simp only [matchText]
  generalize ix.tokenizer.tokens .get text = tokens
  generalize (1 < tokens.length && ix.flags.contains .withPosition) = phrase
  cases hempty : (selections lexicon mode tokens).any (·.terms.isEmpty) with
  | true =>
    obtain ⟨s, hs, hnone⟩ := List.any_eq_true.1 hempty
    rw [if_pos rfl, if_neg, Std.ExtTreeMap.getElem?_empty]
    rintro ⟨-, hall, -⟩
    obtain ⟨token, htoken, offset, rfl⟩ := mem_selections hs
    obtain ⟨term, hterm, -⟩ := (Postings.exists_contains_iff h hn).2 (hall token htoken)
    have hnil : selectTerms lexicon mode token = [] := List.isEmpty_iff.1 hnone
    rw [hnil] at hterm
    cases hterm
  | false =>
    rw [if_neg Bool.false_ne_true, Postings.getElem?_matchSelections,
      Postings.hit_selections h hn phrase mode tokens hnodup hsecs]
    simp only [Postings.mem_candidates_selections h hn, and_assoc]
    rfl

theorem getElem?_matchText_congr (htokenizer : jx.tokenizer = ix.tokenizer)
    (hflags : jx.flags = ix.flags) (hn : ix.postings.Neat) (hn' : jx.postings.Neat)
    (htally : ∀ t s q, tally lexicon' jx.postings t record s q =
      tally lexicon ix.postings t record s q) (text : String) (mode : SearchMode) :
    (jx.matchText lexicon' text mode)[record]? = (ix.matchText lexicon text mode)[record]? := by
  let held := heldOf lexicon ix.postings record
  have h : Holds lexicon ix.postings record held := holds_heldOf lexicon ix.postings record
  have h' : Holds lexicon' jx.postings record held := fun t s q => (htally t s q).trans (h t s q)
  have hnodup := List.nodup_dedup (held.map (·.2.1))
  have hsecs : ∀ o ∈ held, o.2.1 ∈ (held.map (·.2.1)).dedup :=
    fun o ho => List.mem_dedup.2 (List.mem_map_of_mem ho)
  rw [getElem?_matchText_of_holds h hn text mode hnodup hsecs,
    getElem?_matchText_of_holds h' hn' text mode hnodup hsecs, htokenizer, hflags]

end Index

/-! ## Checked sums -/

namespace Index
variable {ix jx : Index} {lexicon lexicon' : Table} {record : RecordId}

/-- Whether looking for the phrase of a text in a record overruns the words. Nothing is looked for
but phrases, in candidates. -/
def overruns (ix : Index) (lexicon : Table) (text : String) (mode : SearchMode)
    (record : RecordId) : Bool :=
  let tokens := ix.tokenizer.tokens .get text
  let query := selections lexicon mode tokens
  (1 < tokens.length && ix.flags.contains .withPosition) &&
    (ix.postings.candidates query).contains record &&
      (ix.postings.sectionsOf query record).any fun sec =>
        Postings.phraseOverruns (query.map fun s => (s.offset, ix.postings.slot record sec s))

theorem overruns_iff {held : List (String × Nat × Nat)}
    (h : Holds lexicon ix.postings record held) (hn : ix.postings.Neat) {text : String}
    {mode : SearchMode} : ix.overruns lexicon text mode record ↔
      let tokens := ix.tokenizer.tokens .get text
      (1 < tokens.length && ix.flags.contains .withPosition) ∧
        (∀ token ∈ tokens, ∃ o ∈ held, token.selects mode o.1) ∧
          ∃ sec, phraseOverruns mode tokens (inSection held sec) := by
  simp only [overruns]
  generalize ix.tokenizer.tokens .get text = tokens
  rw [Bool.and_eq_true, Bool.and_eq_true, List.contains_iff_mem,
    Postings.mem_candidates_selections h hn, List.any_eq_true, and_assoc, and_assoc]
  simp only [Postings.phraseOverruns_selections h]
  refine and_congr_right fun _ => ⟨?_, ?_⟩
  · rintro ⟨-, hall, sec, -, hsec⟩
    exact ⟨hall, sec, hsec⟩
  · rintro ⟨hall, sec, hsec⟩
    cases tokens with
    | nil => cases hsec
    | cons first rest =>
      refine ⟨List.cons_ne_nil _ _, hall, sec, ?_, hsec⟩
      obtain ⟨o, ho, hplace⟩ := List.any_eq_true.1 hsec
      have hstands : first.standsAt mode (inSection held sec) o.2 :=
        Token.standsAt_iff.2 ⟨o, ho, ((Bool.and_eq_true _ _).mp hplace).1, rfl⟩
      have hs : (⟨first.position - first.position, selectTerms lexicon mode first⟩ : Selection) ∈
          selections lexicon mode (first :: rest) := List.mem_cons_self ..
      obtain ⟨term, hterm, hposition⟩ := List.mem_flatMap.1 ((Postings.mem_slot h).2 hstands)
      exact Postings.mem_sectionsOf.2 ⟨_, hs, term, hterm, (hn.mem_of_mem_positions hposition).2⟩

theorem overruns_congr (htokenizer : jx.tokenizer = ix.tokenizer) (hflags : jx.flags = ix.flags)
    (hn : ix.postings.Neat) (hn' : jx.postings.Neat)
    (htally : ∀ t s q, tally lexicon' jx.postings t record s q =
      tally lexicon ix.postings t record s q) (text : String) (mode : SearchMode) :
    jx.overruns lexicon' text mode record = ix.overruns lexicon text mode record := by
  have h := holds_heldOf lexicon ix.postings record
  have h' : Holds lexicon' jx.postings record (heldOf lexicon ix.postings record) :=
    fun t s q => (htally t s q).trans (h t s q)
  rw [Bool.eq_iff_iff, overruns_iff h hn, overruns_iff h' hn', htokenizer, hflags]

end Index

namespace Database

/-- Whether a search for a text overruns the words in a record. -/
def overruns (db : Database) (ix : Index) (text : String) (mode : SearchMode)
    (record : RecordId) : Bool :=
  db.tables[ix.lexicon]?.any fun lexicon => ix.overruns lexicon text mode record

/-- What a text finds in a build that checks sums for overflow. Such a build stops without an answer
when the search overruns the words in any candidate. -/
def checkedMatchText (db : Database) (ix : Index) (text : String) (mode : SearchMode) :
    Option Matches :=
  match db.tables[ix.lexicon]? with
  | some lexicon =>
    let query := selections lexicon mode (ix.tokenizer.tokens .get text)
    if (ix.postings.candidates query).any (ix.overruns lexicon text mode) then none
    else some (ix.matchText lexicon text mode)
  | none => some ∅

theorem matchText_of_checked {db : Database} {ix : Index} {text : String} {mode : SearchMode}
    {found : Matches} (h : db.checkedMatchText ix text mode = some found) :
    db.matchText ix text mode = found := by
  unfold checkedMatchText at h
  unfold matchText
  cases hlexicon : db.tables[ix.lexicon]? with
  | none =>
    rw [hlexicon] at h
    exact Option.some.inj h
  | some lexicon =>
    simp only [hlexicon] at h
    split at h
    · cases h
    · exact Option.some.inj h

/-- A build that checks sums answers unless some record makes it overrun the words. -/
theorem checkedMatchText_eq_none {db : Database} {ix : Index} {text : String} {mode : SearchMode} :
    db.checkedMatchText ix text mode = none ↔ ∃ record, db.overruns ix text mode record := by
  simp only [checkedMatchText, overruns]
  cases db.tables[ix.lexicon]? with
  | none => simp
  | some lexicon =>
    simp only [Option.any_some, ite_eq_left_iff, reduceCtorEq, imp_false, Classical.not_not,
      List.any_eq_true]
    refine exists_congr fun record => and_iff_right_of_imp fun hoverruns => ?_
    simp only [Index.overruns, Bool.and_eq_true, List.contains_iff_mem] at hoverruns
    exact hoverruns.1.2

end Database

/-! ## Merging -/

namespace ResultTable
variable {t t' : ResultTable} {found found' : Matches} {record : RecordId}

def mergeHit (flags : ResultFlags) (operator : SelectOperator) (known found : Option Hit) :
    Option Hit :=
  match operator with
  | .or => (found.map (accumulate flags (known.getD ⟨0, 0⟩))).or known
  | .and => known.bind fun known => found.map (accumulate flags known)
  | .andNot => if found.isSome then none else known
  | .adjust => known.map fun known =>
    match found with
    | some hit => { known with score := saturate (known.score + hit.score) }
    | none => known

theorem getElem?_foldl_accumulate (flags : ResultFlags) (start : ById Hit) :
    (found.toList.foldl (fun records e =>
      records.insert e.1 (accumulate flags (records[e.1]?.getD ⟨0, 0⟩) e.2)) start)[record]? =
        (found[record]?.map (accumulate flags (start[record]?.getD ⟨0, 0⟩))).or start[record]? := by
  have hother : ∀ (es : List (RecordId × Hit)) (start : ById Hit), (∀ e ∈ es, e.1 ≠ record) →
      (es.foldl (fun records e => records.insert e.1
        (accumulate flags (records[e.1]?.getD ⟨0, 0⟩) e.2)) start)[record]? = start[record]? := by
    intro es start hes
    induction es generalizing start with
    | nil => rfl
    | cons e rest ih =>
      have he := hes e (List.mem_cons_self ..)
      rw [List.foldl_cons, ih _ fun f hf => hes f (List.mem_cons_of_mem _ hf),
        FiniteMap.getElem?_insert, if_neg he.symm]
  cases hhit : found[record]? with
  | none =>
    refine hother _ start fun e he heq => ?_
    have hget := Std.ExtTreeMap.mem_toList_iff_getElem?_eq_some.1 he
    rw [heq, hhit] at hget
    cases hget
  | some hit =>
    obtain ⟨front, back, hl, hfront, hback⟩ := FiniteMap.toList_eq_append hhit
    rw [hl, List.foldl_append, List.foldl_cons, hother _ _ hback, FiniteMap.getElem?_insert,
      if_pos rfl, hother _ _ hfront]
    rfl

/-- Merging looks at one record at a time. -/
theorem getElem?_merge (t : ResultTable) (found : Matches) (operator : SelectOperator)
    (record : RecordId) : (t.merge found operator).records[record]? =
      mergeHit t.flags operator t.records[record]? found[record]? := by
  cases operator with
  | or =>
    simp only [merge, Std.ExtTreeMap.foldl_eq_foldl_toList]
    exact getElem?_foldl_accumulate t.flags t.records
  | and =>
    simp only [merge, mergeHit, Std.ExtTreeMap.getElem?_filterMap']
  | andNot =>
    simp only [merge, mergeHit, Std.ExtTreeMap.getElem?_filter',
      Std.ExtTreeMap.contains_eq_isSome_getElem?]
    cases t.records[record]? <;> cases found[record]? <;> rfl
  | adjust =>
    simp only [merge, mergeHit, Std.ExtTreeMap.getElem?_map]
    cases found[record]? <;> rfl

theorem flags_merge (t : ResultTable) (found : Matches) (operator : SelectOperator) :
    (t.merge found operator).flags = t.flags := by
  cases operator <;> rfl

/-- Tables that say the same of one record, and count sections in the same way. -/
def AgreeOn (record : RecordId) (t t' : ResultTable) : Prop :=
  t'.flags = t.flags ∧ t'.records[record]? = t.records[record]?

theorem AgreeOn.merge (h : AgreeOn record t t') (hfound : found'[record]? = found[record]?)
    (operator : SelectOperator) :
    AgreeOn record (t.merge found operator) (t'.merge found' operator) := by
  refine ⟨?_, ?_⟩
  · rw [flags_merge, flags_merge, h.1]
  · rw [getElem?_merge, getElem?_merge, h.1, h.2, hfound]

end ResultTable

namespace Database
variable {db db' : Database} {ix jx : Index} {record : RecordId}

theorem getElem?_runClauses_congr (hfound : ∀ text mode,
      (db'.matchText jx text mode)[record]? = (db.matchText ix text mode)[record]?)
    (flags : ResultFlags) (clauses : List Clause) :
    (db'.runClauses jx flags clauses).records[record]? =
      (db.runClauses ix flags clauses).records[record]? := by
  have hempty : ResultTable.AgreeOn record (.empty ix.range flags) (.empty jx.range flags) :=
    ⟨rfl, rfl⟩
  have hrun : ∀ (clauses : List Clause) {set set' : ResultTable},
      ResultTable.AgreeOn record set set' → ResultTable.AgreeOn record
        (clauses.foldl (fun set clause => db.mergeClause ix set clause clause.operator) set)
        (clauses.foldl (fun set clause => db'.mergeClause jx set clause clause.operator) set') := by
    intro clauses
    induction clauses with
    | nil => exact fun h => h
    | cons clause rest ih =>
      exact fun h => ih (h.merge (hfound clause.text clause.mode) clause.operator)
  cases clauses with
  | nil => rfl
  | cons first rest => exact (hrun rest (hempty.merge (hfound first.text first.mode) .or)).2

/-- Indexes with one lexicon find the same in a record by any query if they find the same in it by
terms and by texts. -/
theorem getElem?_matchesOf_congr (hlexicon : jx.lexicon = ix.lexicon)
    (hterm : ∀ term, (jx.postings.matchTerm term)[record]? = (ix.postings.matchTerm term)[record]?)
    (hfound : ∀ text mode,
      (db'.matchText jx text mode)[record]? = (db.matchText ix text mode)[record]?)
    (flags : ResultFlags) (mode : SearchMode) (query : EngineQuery) :
    (db'.matchesOf jx flags mode query).map (·[record]?) =
      (db.matchesOf ix flags mode query).map (·[record]?) := by
  cases query with
  | compiled q =>
    exact congrArg Except.ok (getElem?_runClauses_congr hfound flags q.clauses)
  | buffer b =>
    simp only [matchesOf, matchBuffer, hlexicon]
    split
    · split
      · exact congrArg Except.ok (hterm _)
      · rfl
    · split
      · split
        · exact congrArg Except.ok (hfound _ _)
        · rfl
      · rfl

theorem search_of_get {i : Nat} (hix : db.indexes[i]? = some ix) (query : EngineQuery)
    (result : ResultTable) (operator : SelectOperator) (mode : SearchMode) :
    db.search i query result operator mode =
      if result.keyTable ≠ ix.range then
        .error (.engine .invalidArgument
          s!"result table is keyed by #{result.keyTable}, index by #{ix.range}")
      else (db.matchesOf ix result.flags mode query).map (result.merge · operator) := by
  simp only [search, index, hix]
  by_cases hkey : result.keyTable = ix.range
  · cases query with
    | compiled q => simp [hkey, matchesOf, bind, Except.bind, pure, Except.pure, Except.map]
    | buffer b =>
      cases hfound : db.matchBuffer ix b mode <;>
        simp [hkey, matchesOf, hfound, bind, Except.bind, pure, Except.pure, Except.map]
  · simp [hkey, bind, Except.bind]

/-- A search brings a record into a table by its own matches only. -/
theorem getElem?_search_congr {i j : Nat} (hix : db.indexes[i]? = some ix)
    (hjx : db'.indexes[j]? = some jx) (hrange : jx.range = ix.range)
    {query : EngineQuery} {result : ResultTable} {mode : SearchMode}
    (hmatches : (db'.matchesOf jx result.flags mode query).map (·[record]?) =
      (db.matchesOf ix result.flags mode query).map (·[record]?)) (operator : SelectOperator) :
    (db'.search j query result operator mode).map (·.records[record]?) =
      (db.search i query result operator mode).map (·.records[record]?) := by
  rw [search_of_get hix, search_of_get hjx, hrange]
  split
  · rfl
  · revert hmatches
    cases db'.matchesOf jx result.flags mode query with
    | error e =>
      cases db.matchesOf ix result.flags mode query with
      | error e' => exact fun heq => congrArg Except.error (Except.error.inj heq)
      | ok found => exact fun heq => by cases heq
    | ok found' =>
      cases db.matchesOf ix result.flags mode query with
      | error e => exact fun heq => by cases heq
      | ok found =>
        intro heq
        have heq : found'[record]? = found[record]? := Except.ok.inj heq
        have hmerged : (result.merge found' operator).records[record]? =
            (result.merge found operator).records[record]? := by
          rw [ResultTable.getElem?_merge, ResultTable.getElem?_merge, heq]
        exact congrArg Except.ok hmerged

end Database
end Concordance
