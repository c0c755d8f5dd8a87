import Concordance.Proofs.PhraseBlocks

/-! # Sums of places

The place where a token of a phrase should stand is a sum of two words. As long as no such sum that a
search forms overruns the words, places that wrap around are plain sums, and it makes no difference
whether sums are checked. Tokens that follow one another directly overrun nothing below the last
word.
-/
namespace Concordance

/-- Whether following a phrase from a start on overruns the words: the tokens are looked for in
order, up to the first that does not stand where it should. -/
def overruns (mode : SearchMode) (held : List (String × Nat)) (first : Token) (start : Nat) :
    List Token → Bool
  | [] => false
  | token :: rest =>
    let place := start + (token.position - first.position)
    wordMax < place || token.standsAt mode held place && overruns mode held first start rest

/-- Whether a query overruns the words from some place of its first token. -/
def phraseOverruns (mode : SearchMode) : List Token → List (String × Nat) → Bool
  | [], _ => false
  | first :: rest, held =>
    held.any fun o => first.selects mode o.1 && overruns mode held first o.2 rest

section
variable {mode : SearchMode} {first : Token} {rest tokens : List Token} {held : List (String × Nat)}

theorem all_wrap_eq {start : Nat} (h : overruns mode held first start rest = false) :
    (rest.all fun token => token.standsAt mode held (wrap (start + (token.position - first.position))))
      = rest.all fun token => token.standsAt mode held (start + (token.position - first.position)) := by
  induction rest with
  | nil => rfl
  | cons token rest ih =>
    simp only [overruns, Bool.or_eq_false_iff, decide_eq_false_iff_not, Nat.not_lt] at h
    obtain ⟨hplace, hrest⟩ := h
    rw [List.all_cons, List.all_cons, wrap_of_le hplace]
    -- The next sum is formed only if this token stands.
    cases hstands : token.standsAt mode held (start + (token.position - first.position)) with
    | false => rfl
    | true =>
      rw [hstands, Bool.true_and] at hrest
      rw [ih hrest]

/-- A query that overruns nothing stands at plain sums only. -/
theorem wrappedCount_eq_phraseCount (h : phraseOverruns mode tokens held = false) :
    wrappedCount mode tokens held = phraseCount mode tokens held := by
  cases tokens with
  | nil => rfl
  | cons first rest =>
    refine List.countP_congr fun o ho => ?_
    have hstart := List.any_eq_false.1 h o ho
    cases hselects : first.selects mode o.1 with
    | false => simp
    | true =>
      rw [hselects, Bool.true_and, Bool.not_eq_true] at hstart
      rw [all_wrap_eq hstart]

/-- Places that are words themselves are found whether sums wrap around or not. -/
theorem phraseCount_le_wrappedCount (hheld : ∀ o ∈ held, o.2 ≤ wordMax) :
    phraseCount mode tokens held ≤ wrappedCount mode tokens held := by
  cases tokens with
  | nil => exact Nat.le_refl _
  | cons first rest =>
    refine List.countP_mono_left fun o ho hplace => ?_
    simp only [Bool.and_eq_true, List.all_eq_true] at hplace ⊢
    refine ⟨hplace.1, fun token htoken => ?_⟩
    obtain ⟨o', ho', hselects, hposition⟩ := Token.standsAt_iff.1 (hplace.2 token htoken)
    rw [wrap_of_le (hposition ▸ hheld o' ho')]
    exact Token.standsAt_iff.2 ⟨o', ho', hselects, hposition⟩

theorem overruns_eq_false_of_le {start : Nat}
    (h : ∀ token ∈ rest, start + (token.position - first.position) ≤ wordMax) :
    overruns mode held first start rest = false := by
  induction rest with
  | nil => rfl
  | cons token rest ih =>
    obtain ⟨hplace, hrest⟩ := List.forall_mem_cons.1 h
    simp [overruns, Nat.not_lt.2 hplace, ih hrest]

theorem phraseOverruns_eq_false_of_le (h : ∀ o ∈ held, ∀ token ∈ tokens,
      o.2 + (token.position - (tokens.head?.map Token.position).getD 0) ≤ wordMax) :
    phraseOverruns mode tokens held = false := by
  cases tokens with
  | nil => rfl
  | cons first rest =>
    refine List.any_eq_false.2 fun o ho => ?_
    have hrest : overruns mode held first o.2 rest = false :=
      overruns_eq_false_of_le fun token htoken => h o ho token (List.mem_cons_of_mem _ htoken)
    simp [hrest]

theorem overruns_eq_false_of_adjacent {k : Nat} {before : Token}
    (hbefore : before.position = first.position + k) (h : Adjacent (before :: rest))
    (hstands : ∀ token ∈ rest, ∀ place, token.standsAt mode held place → place < wordMax)
    {start : Nat} (hstart : start + k < wordMax) :
    overruns mode held first start rest = false := by
  induction rest generalizing before k with
  | nil => rfl
  | cons token rest ih =>
    obtain ⟨hstep, hrest⟩ := List.isChain_cons_cons.1 h
    obtain ⟨hhere, hbehind⟩ := List.forall_mem_cons.1 hstands
    have hposition : token.position = first.position + (k + 1) := by omega
    have hplace : start + (token.position - first.position) = start + (k + 1) := by omega
    simp only [overruns, hplace, Bool.or_eq_false_iff, decide_eq_false_iff_not]
    refine ⟨by omega, ?_⟩
    cases hplaced : token.standsAt mode held (start + (k + 1)) with
    | false => rfl
    | true => exact ih hposition hrest hbehind (hhere _ hplaced)

/-- Below the last word, tokens that follow one another directly overrun nothing: each of them stands
before the next one is looked for. -/
theorem phraseOverruns_eq_false_of_adjacent (h : Adjacent tokens)
    (hstands : ∀ token ∈ tokens, ∀ place, token.standsAt mode held place → place < wordMax) :
    phraseOverruns mode tokens held = false := by
  cases tokens with
  | nil => rfl
  | cons first rest =>
    obtain ⟨hfirst, hrest⟩ := List.forall_mem_cons.1 hstands
    refine List.any_eq_false.2 fun o ho => ?_
    rw [Bool.and_eq_true, not_and, Bool.not_eq_true]
    intro hselects
    have hstart := hfirst o.2 (Token.standsAt_iff.2 ⟨o, ho, hselects, rfl⟩)
    exact overruns_eq_false_of_adjacent (Nat.add_zero _).symm h hrest hstart

end

namespace Postings
variable {lexicon : Table} {p : Postings} {record : RecordId} {held : List (String × Nat × Nat)}

/-- Whether following a phrase through its slots overruns the words. The slots are read in order, up
to the first that does not continue the phrase. -/
def overruns (start : Nat) : List (Nat × List Nat) → Bool
  | [] => false
  | (offset, slot) :: rest =>
    wordMax < start + offset || slot.contains (start + offset) && overruns start rest

/-- Whether counting the places of a phrase forms a sum that overruns the words. A build with checks
for overflow stops there. -/
def phraseOverruns : List (Nat × List Nat) → Bool
  | [] => false
  | (_, starts) :: rest => starts.any (overruns · rest)

theorem overruns_selections (h : Holds lexicon p record held) (mode : SearchMode) (first : Token)
    (rest : List Token) (sec start : Nat) :
    overruns start (rest.map fun token => (token.position - first.position,
        p.slot record sec ⟨token.position - first.position, selectTerms lexicon mode token⟩)) =
      Concordance.overruns mode (inSection held sec) first start rest := by
  induction rest with
  | nil => rfl
  | cons token rest ih =>
    have hslot (offset place : Nat) :
        (p.slot record sec ⟨offset, selectTerms lexicon mode token⟩).contains place =
          token.standsAt mode (inSection held sec) place := by
      rw [Bool.eq_iff_iff, List.contains_iff_mem, mem_slot h]
    simp only [List.map_cons, overruns, Concordance.overruns, hslot, ih]

theorem phraseOverruns_selections (h : Holds lexicon p record held) (mode : SearchMode)
    (tokens : List Token) (sec : Nat) :
    phraseOverruns ((selections lexicon mode tokens).map fun s => (s.offset, p.slot record sec s)) =
      Concordance.phraseOverruns mode tokens (inSection held sec) := by
  cases tokens with
  | nil => rfl
  | cons first rest =>
    simp only [selections, List.map_cons, phraseOverruns, Concordance.phraseOverruns, List.map_map,
      List.head?_cons, Option.map_some, Option.getD_some]
    rw [(slot_perm h mode first _ sec).any_eq, List.any_map, List.any_filter]
    refine List.any_congr rfl fun o => ?_
    exact congrArg _ (overruns_selections h mode first rest sec o.2)

end Postings

end Concordance
