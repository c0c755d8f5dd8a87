import Concordance.Proofs.CompiledQueries
import Concordance.Proofs.Matching
import Mathlib.Algebra.Order.BigOperators.Group.List
import Mathlib.Algebra.Order.Group.Nat

/-! # Looser search modes

A mode that selects more terms loses no match: each token stands at least where it stood, so a phrase
starts wherever it started. Merges that add matches keep this order between tables.
-/
namespace Concordance

/-- A match is no better than another if neither of its numbers is larger. -/
instance : LE Hit := ⟨fun hit hit' => hit.score ≤ hit'.score ∧ hit.subrecords ≤ hit'.subrecords⟩

/-- Whatever the first finds, the second finds too, with numbers at least as large. -/
def Matches.Below (found found' : Matches) : Prop :=
  ∀ (record : Nat) (hit : Hit), found[record]? = some hit →
    ∃ hit', found'[record]? = some hit' ∧ hit ≤ hit'

/-- The same clause of a query that takes in every match, perhaps with `startsWith` for `exact`. -/
structure Clause.Loosened (clause clause' : Clause) : Prop where
  operator : clause.operator = .or
  operator' : clause'.operator = .or
  text : clause'.text = clause.text
  mode : clause'.mode = clause.mode ∨ clause.mode = .exact ∧ clause'.mode = .startsWith

theorem Matches.Below.refl (found : Matches) : found.Below found :=
  fun _ hit h => ⟨hit, h, Nat.le_refl _, Nat.le_refl _⟩

/-! ## What tokens select -/

section
variable {tokenizer : Tokenizer} {text term : String} {token : Token}

theorem Token.selects_startsWith (h : token.selects .exact term) :
    token.selects .startsWith term := by
  simp only [selects] at h
  split at h
  · exact h
  · obtain rfl := of_decide_eq_true h
    exact Table.startsWith_iff.2 List.prefix_rfl

theorem Token.selects_endsWith (hlong : token.short = false) (h : token.selects .exact term) :
    token.selects .endsWith term := by
  simp only [selects, hlong, Bool.false_eq_true, if_false, decide_eq_true_eq] at h
  subst h
  exact List.isSuffixOf_iff_suffix.2 List.suffix_rfl

/-- Only a query for pairs has short tokens. -/
theorem Tokenizer.short_of_mem_tokens {mode : TokenMode}
    (htokenizer : tokenizer = .whole ∨ tokenizer = .delimit)
    (htoken : token ∈ tokenizer.tokens mode text) : token.short = false := by
  have htoken := (List.mem_filter.1 htoken).1
  rcases htokenizer with rfl | rfl
  · simp only [allTokens, wholeTokens] at htoken
    split at htoken
    · cases htoken
    · rw [List.mem_singleton.1 htoken]
  · obtain ⟨_, -, rfl⟩ := List.mem_map.1 htoken
    rfl

end

/-! ## What sections score -/

section
variable {mode mode' : SearchMode} {tokens : List Token} {held : List (String × Nat)}
  (hselects : ∀ token ∈ tokens, ∀ term, token.selects mode term → token.selects mode' term)
include hselects

theorem Token.standsAt_mono {token : Token} (htoken : token ∈ tokens) {position : Nat}
    (h : token.standsAt mode held position) : token.standsAt mode' held position := by
  obtain ⟨o, ho, hterm, hposition⟩ := standsAt_iff.1 h
  exact standsAt_iff.2 ⟨o, ho, hselects token htoken o.1 hterm, hposition⟩

theorem wrappedCount_mono : wrappedCount mode tokens held ≤ wrappedCount mode' tokens held := by
  cases tokens with
  | nil => exact Nat.le_refl _
  | cons first rest =>
    refine List.countP_mono_left fun o _ hplace => ?_
    simp only [Bool.and_eq_true, List.all_eq_true] at hplace ⊢
    refine ⟨hselects first (List.mem_cons_self ..) o.1 hplace.1, fun token htoken => ?_⟩
    exact Token.standsAt_mono hselects (List.mem_cons_of_mem _ htoken) (hplace.2 token htoken)

theorem sectionScore_mono (phrase : Bool) :
    sectionScore phrase mode tokens held ≤ sectionScore phrase mode' tokens held := by
  cases phrase with
  | true => exact wrappedCount_mono hselects
  | false =>
    refine List.sum_le_sum fun token htoken => ?_
    exact List.countP_mono_left fun o _ => hselects token htoken o.1

omit hselects in
/-- With larger scores, more sections have any. -/
theorem hitOf_mono (secs : List Nat) {hits hits' : Nat → Nat} (h : ∀ sec, hits sec ≤ hits' sec) :
    hitOf (secs.map hits) ≤ hitOf (secs.map hits') := by
  refine ⟨List.sum_le_sum fun sec _ => h sec, ?_⟩
  simp only [hitOf, List.countP_map]
  refine List.countP_mono_left fun sec _ hpos => ?_
  simp only [Function.comp_apply, decide_eq_true_eq] at hpos ⊢
  exact hpos.trans_le (h sec)

theorem Index.matchText_mono {ix : Index} (hn : ix.postings.Neat) (lexicon : Table) {text : String}
    (htokens : tokens = ix.tokenizer.tokens .get text) :
    (ix.matchText lexicon text mode).Below (ix.matchText lexicon text mode') := by
  subst htokens
  intro record hit hhit
  let held := heldOf lexicon ix.postings record
  have hsecs : ∀ o ∈ held, o.2.1 ∈ (held.map (·.2.1)).dedup :=
    fun o ho => List.mem_dedup.2 (List.mem_map_of_mem ho)
  have hfound (mode : SearchMode) := getElem?_matchText_of_holds
    (holds_heldOf lexicon ix.postings record) hn text mode (List.nodup_dedup _) hsecs
  rw [hfound] at hhit
  dsimp only at hhit
  split at hhit
  · rename_i hmatch
    obtain ⟨htokens, hall, hpos⟩ := hmatch
    cases hhit
    have hle := hitOf_mono (held.map (·.2.1)).dedup fun sec =>
      @sectionScore_mono mode mode' _ (inSection held sec) hselects
        (1 < (ix.tokenizer.tokens .get text).length && ix.flags.contains .withPosition)
    refine ⟨_, (hfound mode').trans (if_pos ⟨htokens, ?_, hpos.trans_le hle.1⟩), hle⟩
    intro token htoken
    obtain ⟨o, ho, hterm⟩ := hall token htoken
    exact ⟨o, ho, hselects token htoken o.1 hterm⟩
  · cases hhit

end

/-! ## Merging more -/

namespace ResultTable
variable {t t' : ResultTable} {flags : ResultFlags} {found found' : Matches}

theorem saturate_add_mono {a a' b b' : Nat} (ha : a ≤ a') (hb : b ≤ b') :
    saturate (a + b) ≤ saturate (a' + b') := by
  simp only [saturate]
  omega

theorem accumulate_mono {known known' hit hit' : Hit} (hknown : known ≤ known')
    (hhit : hit ≤ hit') : accumulate flags known hit ≤ accumulate flags known' hit' := by
  refine ⟨saturate_add_mono hknown.1 hhit.1, ?_⟩
  simp only [accumulate]
  split
  · exact saturate_add_mono hknown.2 hhit.2
  · exact hknown.2

/-- A match that is added takes nothing away from numbers of 32 bits. -/
theorem le_accumulate {known : Hit} (h : known.Fits) (hit : Hit) :
    known ≤ accumulate flags known hit := by
  have hzero : (⟨0, 0⟩ : Hit) ≤ hit := ⟨Nat.zero_le _, Nat.zero_le _⟩
  calc known = accumulate flags known ⟨0, 0⟩ := (accumulate_zero h).symm
    _ ≤ accumulate flags known hit := accumulate_mono ⟨Nat.le_refl _, Nat.le_refl _⟩ hzero

/-- Taking in more matches, a table that knows more still does. -/
theorem below_merge (hfits : t'.Fits) (hflags : t'.flags = t.flags)
    (hknown : Matches.Below t.records t'.records) (hfound : found.Below found') :
    Matches.Below (t.merge found .or).records (t'.merge found' .or).records := by
  intro key hit hhit
  rw [getElem?_merge] at hhit
  rw [getElem?_merge, hflags]
  cases hget : found[key]? with
  | some gain =>
    obtain ⟨gain', hget', hgain⟩ := hfound key gain hget
    rw [hget] at hhit
    cases hhit
    rw [hget']
    refine ⟨_, rfl, accumulate_mono ?_ hgain⟩
    cases hold : t.records[key]? with
    | none => exact ⟨Nat.zero_le _, Nat.zero_le _⟩
    | some known =>
      obtain ⟨known', hold', hle⟩ := hknown key known hold
      rw [hold']
      exact hle
  | none =>
    rw [hget] at hhit
    obtain ⟨known', hold', hle⟩ := hknown key hit hhit
    rw [hold']
    -- What only the second one finds is added to numbers that were large enough without it.
    cases hget' : found'[key]? with
    | none => exact ⟨known', rfl, hle⟩
    | some gain =>
      have hgain : known' ≤ accumulate t.flags known' gain := le_accumulate (hfits hold') gain
      exact ⟨_, rfl, hle.1.trans hgain.1, hle.2.trans hgain.2⟩

theorem below_mergeAll {steps steps' : List Merge} (hfits : t'.Fits) (hflags : t'.flags = t.flags)
    (hknown : Matches.Below t.records t'.records) (hsteps : List.Forall₂ (fun step step' =>
      step.operator = .or ∧ step'.operator = .or ∧ step.found.Below step'.found) steps steps') :
    Matches.Below (t.mergeAll steps).records (t'.mergeAll steps').records := by
  induction hsteps generalizing t t' with
  | nil => exact hknown
  | @cons step step' rest rest' hstep _ ih =>
    obtain ⟨hor, hor', hfound⟩ := hstep
    refine ih (hfits.merge step') ?_ ?_
    · rw [flags_merge, flags_merge, hflags]
    · simp only [hor, hor']
      exact below_merge hfits hflags hknown hfound

end ResultTable

/-- The seeding clause adds its matches, as all others do. -/
theorem Clause.Loosened.seeding {clauses clauses' : List Clause}
    (h : List.Forall₂ Loosened clauses clauses') :
    List.Forall₂ Loosened (seeding clauses) (seeding clauses') := by
  cases h with
  | nil => exact .nil
  | cons hfirst hrest => exact .cons ⟨rfl, rfl, hfirst.text, hfirst.mode⟩ hrest

namespace Database
variable {db : Database} {i : Nat} {ix : Index}

theorem WellFormed.matchText_below (h : db.WellFormed) (hix : db.indexes[i]? = some ix)
    {text : String} {mode mode' : SearchMode}
    (hselects : ∀ token ∈ ix.tokenizer.tokens .get text, ∀ term, token.selects mode term →
      token.selects mode' term) :
    (db.matchText ix text mode).Below (db.matchText ix text mode') := by
  obtain ⟨lexicon, hlexicon, -⟩ := h.catalogued.lexicon_table hix
  simp only [matchText, hlexicon]
  exact Index.matchText_mono hselects (h.posted.neat hix) lexicon rfl

/-- In every state that a run reaches, a looser mode loses no match. Whatever a text finds exactly it
finds as a prefix, and among terms that are whole texts or words also as a suffix, with a score and
a number of sections at least as large. So does a query whose clauses take in every match, when any
of them are loosened from the exact mode to prefixes. -/
theorem matches_below (h : Reached OwnFiles db) (hix : db.indexes[i]? = some ix) :
    (∀ text, (db.matchText ix text .exact).Below (db.matchText ix text .startsWith)) ∧
      (ix.tokenizer = .whole ∨ ix.tokenizer = .delimit → ∀ text,
        (db.matchText ix text .exact).Below (db.matchText ix text .endsWith)) ∧
      ∀ (flags : ResultFlags) (clauses clauses' : List Clause),
        List.Forall₂ Clause.Loosened clauses clauses' →
          Matches.Below (db.runClauses ix flags clauses).records
            (db.runClauses ix flags clauses').records := by
  have hwf := h.wellFormed_of_ownFiles
  have hstarts : ∀ text, (db.matchText ix text .exact).Below (db.matchText ix text .startsWith) :=
    fun text => hwf.matchText_below hix fun token _ term => Token.selects_startsWith
  refine ⟨hstarts, fun htokenizer text => ?_, fun flags clauses clauses' hclauses => ?_⟩
  · exact hwf.matchText_below hix fun token htoken term =>
      Token.selects_endsWith (Tokenizer.short_of_mem_tokens htokenizer htoken)
  · have hsteps : ∀ {clause clause' : Clause}, clause.Loosened clause' →
        (db.matchText ix clause.text clause.mode).Below
          (db.matchText ix clause'.text clause'.mode) := by
      intro clause clause' hclause
      rw [hclause.text]
      rcases hclause.mode with hmode | ⟨hexact, hloose⟩
      · rw [hmode]
        exact .refl _
      · rw [hexact, hloose]
        exact hstarts clause.text
    rw [runClauses_eq_mergeAll, runClauses_eq_mergeAll]
    refine ResultTable.below_mergeAll (ResultTable.fits_empty _ _) rfl (.refl _) ?_
    rw [List.forall₂_map_left_iff, List.forall₂_map_right_iff]
    exact (Clause.Loosened.seeding hclauses).imp fun _ _ hclause =>
      ⟨hclause.operator, hclause.operator', hsteps hclause⟩

/-- The verse has the word twice in its line and twice in its tags, and another one that begins with
the text of the second clause. -/
theorem matches_below_verses : ∃ ix, verses.indexes[260]? = some ix ∧
    (verses.matchText ix "be" .exact)[1]? = some ⟨4, 2⟩ ∧
    (∃ hit, (verses.matchText ix "be" .startsWith)[1]? = some hit ∧ ⟨4, 2⟩ ≤ hit) ∧
    (∃ hit, (verses.matchText ix "be" .endsWith)[1]? = some hit ∧ ⟨4, 2⟩ ≤ hit) ∧
    ∃ hit, (verses.runClauses ix .all [⟨.or, "be", .exact⟩, ⟨.or, "no", .startsWith⟩]).records[1]? =
      some hit ∧ ⟨4, 2⟩ ≤ hit := by
  have hreached : Reached OwnFiles verses :=
    reached_verses.imp fun _ _ ⟨hindexed, _⟩ => ownFiles_of_indexed hindexed
  have hix : verses.indexes[260]? = some (verses.indexes[260]?.get (by decide +kernel)) :=
    (Option.some_get _).symm
  have hloosened : List.Forall₂ Clause.Loosened [⟨.or, "be", .exact⟩, ⟨.or, "no", .exact⟩]
      [⟨.or, "be", .exact⟩, ⟨.or, "no", .startsWith⟩] :=
    .cons ⟨rfl, rfl, rfl, .inl rfl⟩ (.cons ⟨rfl, rfl, rfl, .inr ⟨rfl, rfl⟩⟩ .nil)
  obtain ⟨hstarts, hends, hclauses⟩ := matches_below hreached hix
  refine ⟨_, hix, by decide +kernel, hstarts "be" 1 ⟨4, 2⟩ (by decide +kernel),
    hends (.inr (by decide +kernel)) "be" 1 ⟨4, 2⟩ (by decide +kernel),
    hclauses .all _ _ hloosened 1 ⟨4, 2⟩ (by decide +kernel)⟩

end Database
end Concordance
