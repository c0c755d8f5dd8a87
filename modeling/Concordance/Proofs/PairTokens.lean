import Concordance.Proofs.PairRuns
import Concordance.Proofs.PhraseBlocks

/-! # Pairs of printable characters

In a text of printable ASCII every character is a cluster of its own. So a text has a pair at each
character that is not a space, and the tokens of a query cover exactly its characters other than
spaces.
-/
namespace Concordance

namespace Text

/-- Printable characters of ASCII, spaces among them. -/
def Printable (text : List Char) : Prop := ∀ c ∈ text, 0x20 ≤ c.toNat ∧ c.toNat ≤ 0x7E

instance (text : List Char) : Decidable (Printable text) :=
  List.decidableBAll (fun c : Char => 0x20 ≤ c.toNat ∧ c.toNat ≤ 0x7E) text

theorem inRanges_eq_false {ranges : List (Nat × Nat)} {c : Char}
    (h : ∀ range ∈ ranges, c.toNat < range.1) : inRanges ranges c = false := by
  refine List.any_eq_false.2 fun range hrange hc => ?_
  have hlt := h range hrange
  simp at hc
  omega

theorem isBlank_iff {c : Char} (hc : 0x20 ≤ c.toNat ∧ c.toNat ≤ 0x7E) :
    isBlank c ↔ c = ' ' := by
  have hspace : c = ' ' ↔ c.toNat = 0x20 := by
    constructor
    · rintro rfl
      rfl
    · intro h
      exact Char.ext (UInt32.toNat_inj.1 h)
  simp [isBlank, inRanges, blankRanges, hspace]
  omega

namespace Cluster

/-- The state behind a printable character. -/
def State.plain : State := ⟨some .other, .idle, .idle, false⟩

theorem classify_printable {c : Char} (hc : 0x20 ≤ c.toNat ∧ c.toNat ≤ 0x7E) :
    classify c = .other := by
  rw [classify, if_pos ⟨hc.1, by omega⟩]

theorem isConsonant_printable {c : Char} (hc : 0x20 ≤ c.toNat ∧ c.toNat ≤ 0x7E) :
    isConsonant c = false := by
  have hranges : ∀ range ∈ consonantRanges, 0x7E < range.1 := by decide
  exact inRanges_eq_false fun range hrange => by have := hranges range hrange; omega

theorem next_printable {s : State} (hs : s = .start ∨ s = .plain) {c : Char}
    (hc : 0x20 ≤ c.toNat ∧ c.toNat ≤ 0x7E) : s.next c = .plain := by
  rcases hs with rfl | rfl <;>
    simp [State.next, State.start, State.plain, classify_printable hc, isConsonant_printable hc,
      nextPictograph, nextConjunct]

theorem joins_printable {s : State} (hs : s = .start ∨ s = .plain) {c : Char}
    (hc : 0x20 ≤ c.toNat ∧ c.toNat ≤ 0x7E) : s.joins c = false := by
  rcases hs with rfl | rfl <;>
    simp [State.joins, State.start, State.plain, classify_printable hc, isControl, syllableJoins]

theorem pieces_printable {s : State} (hs : s = .start ∨ s = .plain) {text : List Char}
    (h : Printable text) : pieces s text = ([], text.map fun c => [c]) := by
  induction text generalizing s with
  | nil => rfl
  | cons c rest ih =>
    have hc := h c (List.mem_cons_self ..)
    have hrest := ih (.inr (next_printable hs hc)) fun d hd => h d (List.mem_cons_of_mem _ hd)
    simp only [pieces, hrest, joins_printable hs hc, Bool.false_eq_true, if_false, List.map_cons]

end Cluster

theorem clusters_printable {text : List Char} (h : Printable text) :
    clusters text = text.map fun c => [c] := by
  rw [clusters, Cluster.pieces_printable (.inl rfl) h]

end Text

/-- The text of the token has a character where the whole text has it at an offset. -/
def Token.Covers (t : Token) (j : Nat) (c : Char) : Prop :=
  ∃ k, t.text.toList[k]? = some c ∧ j = t.position + k

namespace Tokenizer

theorem isGap_printable {c : Char} (hc : 0x20 ≤ c.toNat ∧ c.toNat ≤ 0x7E) :
    isGap [c] ↔ c = ' ' := by
  simp [isGap, Text.isBlank_iff hc]

/-- The pair that starts a text, or only its first character if that is the last of a run. -/
def leading : List Char → List Char
  | a :: b :: _ => if b = ' ' then [a] else [a, b]
  | text => text

theorem leading_cons (a : Char) (rest : List Char) :
    leading (a :: rest) = [a] ∧ rest.head?.all (· = ' ') ∨
      ∃ b more, rest = b :: more ∧ b ≠ ' ' ∧ leading (a :: rest) = [a, b] := by
  cases rest with
  | nil => exact .inl ⟨rfl, rfl⟩
  | cons b more =>
    by_cases hb : b = ' '
    · exact .inl (by simp [leading, hb])
    · exact .inr ⟨b, more, rfl, hb, by simp [leading, hb]⟩

section Tokens
variable {mode : TokenMode} {inRun : Bool} {i : Nat}

theorem pairTokens_space (rest : List Char) :
    pairTokens mode inRun i ((' ' :: rest).map fun c => [c]) =
      pairTokens mode false (i + 1) (rest.map fun c => [c]) := by
  rw [List.map_cons, pairTokens_gap (by decide)]

/-- Before a space or the end a character stands alone. -/
theorem pairTokens_single {a : Char} {rest : List Char} (h : Text.Printable (a :: rest))
    (ha : a ≠ ' ') (hrest : rest.head?.all (· = ' ')) :
    pairTokens mode inRun i ((a :: rest).map fun c => [c]) =
      pairTokens.alone mode inRun i [a] ++
        pairTokens mode true (i + 1) (rest.map fun c => [c]) := by
  have hgap := mt (isGap_printable (h a (List.mem_cons_self ..))).1 ha
  refine pairTokens_last hgap ?_
  cases rest with
  | nil => rfl
  | cons b more =>
    obtain rfl : b = ' ' := by simpa using hrest
    rfl

theorem pairTokens_pair {a b : Char} {more : List Char} (h : Text.Printable (a :: b :: more))
    (ha : a ≠ ' ') (hb : b ≠ ' ') :
    pairTokens mode inRun i ((a :: b :: more).map fun c => [c]) =
      ⟨String.ofList [a, b], i, false⟩ ::
        pairTokens mode true (i + 1) ((b :: more).map fun c => [c]) := by
  have hgapa := mt (isGap_printable (h a (List.mem_cons_self ..))).1 ha
  have hgapb := mt (isGap_printable (h b (by simp))).1 hb
  exact pairTokens_next hgapa hgapb _

/-- A text has a token at each character that is not a space: the pair that starts there. -/
theorem mem_pairTokens_add {text : List Char} (h : Text.Printable text) {t : Token} :
    t ∈ pairTokens .add inRun i (text.map fun c => [c]) ↔
      ∃ k c, text[k]? = some c ∧ c ≠ ' ' ∧
        t = ⟨String.ofList (leading (text.drop k)), i + k, false⟩ := by
  induction text generalizing inRun i with
  | nil => simp [pairTokens]
  | cons a rest ih =>
    have hrest : Text.Printable rest := fun c hc => h c (List.mem_cons_of_mem _ hc)
    rw [← Nat.or_exists_add_one]
    by_cases ha : a = ' '
    · subst ha
      rw [pairTokens_space, ih hrest]
      simp [Nat.add_assoc, Nat.add_comm 1]
    · have hhead : pairTokens .add inRun i ((a :: rest).map fun c => [c]) =
          ⟨String.ofList (leading (a :: rest)), i, false⟩ ::
            pairTokens .add true (i + 1) (rest.map fun c => [c]) := by
        rcases leading_cons a rest with ⟨hleading, hspace⟩ | ⟨b, more, rfl, hb, hleading⟩
        · rw [pairTokens_single h ha hspace, hleading]
          rfl
        · rw [pairTokens_pair h ha hb, hleading]
      rw [hhead, List.mem_cons, ih hrest]
      simp [ha, Nat.add_assoc, Nat.add_comm 1]

theorem covers_single {a c : Char} {short : Bool} {j : Nat} :
    Token.Covers ⟨String.ofList [a], i, short⟩ j c ↔ j = i ∧ a = c := by
  rw [Token.Covers, ← Nat.or_exists_add_one]
  simp [and_comm]

theorem covers_pair {a b c : Char} {short : Bool} {j : Nat} :
    Token.Covers ⟨String.ofList [a, b], i, short⟩ j c ↔ j = i ∧ a = c ∨ j = i + 1 ∧ b = c := by
  rw [Token.Covers, ← Nat.or_exists_add_one, ← Nat.or_exists_add_one]
  simp [and_comm]

/-- The tokens of a query cover its characters other than spaces. In the middle of a run the pair
before covers the first. -/
theorem covers_pairTokens_get {text : List Char} (h : Text.Printable text) {j : Nat} {c : Char} :
    ((∃ t ∈ pairTokens .get inRun i (text.map fun c => [c]), t.Covers j c) ∨
        inRun ∧ j = i ∧ text.head? = some c ∧ c ≠ ' ') ↔
      ∃ k, text[k]? = some c ∧ c ≠ ' ' ∧ j = i + k := by
  -- A pair covers the head of what is left as well, which the induction gets as the second case.
  induction text generalizing inRun i with
  | nil => simp [pairTokens]
  | cons a rest ih =>
    have hrest : Text.Printable rest := fun c hc => h c (List.mem_cons_of_mem _ hc)
    have hfalse := @ih false (i + 1) hrest
    have htrue := @ih true (i + 1) hrest
    simp only [Bool.false_eq_true, false_and, or_false, true_and] at hfalse htrue
    have hsucc : (∃ k, (a :: rest)[k + 1]? = some c ∧ c ≠ ' ' ∧ j = i + (k + 1)) ↔
        ∃ k, rest[k]? = some c ∧ c ≠ ' ' ∧ j = i + 1 + k :=
      exists_congr fun k => by rw [List.getElem?_cons_succ, Nat.add_assoc, Nat.add_comm 1]
    rw [← Nat.or_exists_add_one, hsucc]
    simp only [List.getElem?_cons_zero, List.head?_cons, Option.some.injEq, Nat.add_zero]
    by_cases ha : a = ' '
    · subst ha
      rw [pairTokens_space, hfalse]
      constructor
      · rintro (htail | ⟨-, -, rfl, hspace⟩)
        · exact .inr htail
        · exact absurd rfl hspace
      · rintro (⟨rfl, hspace, -⟩ | htail)
        · exact absurd rfl hspace
        · exact .inl htail
    · rcases leading_cons a rest with ⟨-, hspace⟩ | ⟨b, more, rfl, hb, -⟩
      · have hhead : ¬ (j = i + 1 ∧ rest.head? = some c ∧ c ≠ ' ') := by
          rintro ⟨-, hhead, hc⟩
          rw [hhead] at hspace
          exact hc (by simpa using hspace)
        rw [or_iff_left hhead] at htrue
        rw [pairTokens_single h ha hspace]
        cases inRun with
        | true =>
          simp only [pairTokens.alone, if_true, List.nil_append, htrue]
          grind
        | false =>
          simp only [pairTokens.alone, Bool.false_eq_true, if_false, List.singleton_append,
            List.mem_cons, or_and_right, exists_or, exists_eq_left, covers_single, htrue]
          grind
      · rw [pairTokens_pair h ha hb]
        simp only [List.mem_cons, or_and_right, exists_or, exists_eq_left, covers_pair,
          List.head?_cons, Option.some.injEq, ← htrue]
        grind

/-- A query token is a pair, or a short one for a run of a single character. -/
theorem of_mem_pairTokens_get {text : List Char} (h : Text.Printable text) {t : Token}
    (ht : t ∈ pairTokens .get inRun i (text.map fun c => [c])) :
    (∃ a b p, a ≠ ' ' ∧ b ≠ ' ' ∧ t = ⟨String.ofList [a, b], p, false⟩) ∨
      ∃ a p, a ≠ ' ' ∧ t = ⟨String.ofList [a], p, true⟩ := by
  induction text generalizing inRun i with
  | nil => simp [pairTokens] at ht
  | cons a rest ih =>
    have hrest : Text.Printable rest := fun c hc => h c (List.mem_cons_of_mem _ hc)
    by_cases ha : a = ' '
    · subst ha
      rw [pairTokens_space] at ht
      exact ih hrest ht
    · rcases leading_cons a rest with ⟨-, hspace⟩ | ⟨b, more, rfl, hb, -⟩
      · rw [pairTokens_single h ha hspace, List.mem_append] at ht
        rcases ht with ht | ht
        · cases inRun with
          | true => cases ht
          | false => exact .inr ⟨a, i, ha, by simpa [pairTokens.alone] using ht⟩
        · exact ih hrest ht
      · rw [pairTokens_pair h ha hb] at ht
        rcases List.mem_cons.1 ht with rfl | ht
        · exact .inl ⟨a, b, i, ha, hb, rfl⟩
        · exact ih hrest ht

/-- A query of several characters without a space has only pairs for tokens. -/
theorem exists_pair_of_mem {query : List Char} (hspace : ' ' ∉ query)
    (h : Text.Printable query) (hlong : 2 ≤ query.length) {t : Token}
    (ht : t ∈ pairTokens .get false 0 (query.map fun c => [c])) :
    ∃ a b, t.text = String.ofList [a, b] := by
  have hsolid {j : Nat} (hj : j < query.length) :
      solidAt (query.map fun c => [c]) j = some [query[j]] := by
    have hmem := List.getElem_mem hj
    refine solidAt_eq_some.2 ⟨by simp [hj], fun hgap => hspace ?_⟩
    rwa [← (isGap_printable (h _ hmem)).1 hgap]
  obtain ⟨i, hi⟩ := exists_place ht
  obtain ⟨c, hc, ⟨next, hnext, rfl⟩ | ⟨hnext, -⟩⟩ := tokenAt_cases hi
  · have hget := (solidAt_eq_some.1 hc).1
    have hget' := (solidAt_eq_some.1 hnext).1
    rw [List.getElem?_map] at hget hget'
    obtain ⟨a, -, rfl⟩ := Option.map_eq_some_iff.1 hget
    obtain ⟨b, -, rfl⟩ := Option.map_eq_some_iff.1 hget'
    exact ⟨a, b, rfl⟩
  · -- the last character has one of the run before it
    have hlast : query.length ≤ i + 1 := by
      refine Nat.le_of_not_lt fun hlt => ?_
      rw [hsolid hlt] at hnext
      cases hnext
    obtain ⟨hlt, -⟩ := List.getElem?_eq_some_iff.1 (solidAt_eq_some.1 hc).1
    rw [List.length_map] at hlt
    obtain ⟨k, rfl⟩ : ∃ k, i = k + 1 := ⟨i - 1, by omega⟩
    have hnone : (tokenAt .get (query.map fun c => [c]) (k + 1)).toList = _ := tokenAt_last hc hnext
    rw [followsSolid, hsolid (by omega), hi] at hnone
    cases hnone

end Tokens

/-! ## No term is too long -/

theorem utf8ByteSize_ofList_le (cs : List Char) :
    (String.ofList cs).utf8ByteSize ≤ 4 * cs.length := by
  induction cs with
  | nil => simp
  | cons c rest ih =>
    have hc := c.utf8Size_le_four
    rw [String.ofList_cons, String.utf8ByteSize_append, String.utf8ByteSize_singleton,
      List.length_cons]
    omega

theorem length_leading_le (text : List Char) : (leading text).length ≤ 2 := by
  match text with
  | [] => simp [leading]
  | [_] => simp [leading]
  | _ :: b :: _ => by_cases hb : b = ' ' <;> simp [leading, hb]

theorem tokens_printable {mode : TokenMode} {text : String} (h : Text.Printable text.toList) :
    Tokenizer.bigram.tokens mode text =
      pairTokens mode false 0 (text.toList.map fun c => [c]) := by
  rw [tokens, allTokens, bigrams_eq_pairTokens, Text.clusters_printable h]
  refine List.filter_eq_self.2 fun t ht => decide_eq_true ?_
  have hsize : ∃ cs : List Char, cs.length ≤ 2 ∧ t.text = String.ofList cs := by
    cases mode with
    | add =>
      obtain ⟨k, c, -, -, rfl⟩ := (mem_pairTokens_add h).1 ht
      exact ⟨_, length_leading_le _, rfl⟩
    | get =>
      rcases of_mem_pairTokens_get h ht with ⟨a, b, p, -, -, rfl⟩ | ⟨a, p, -, rfl⟩
      · exact ⟨[a, b], by simp, rfl⟩
      · exact ⟨[a], by simp, rfl⟩
  obtain ⟨cs, hlength, htext⟩ := hsize
  have hle := utf8ByteSize_ofList_le cs
  rw [htext, maxTermLength]
  omega

/-! ## What a query token selects -/

theorem leading_eq_pair {a b : Char} (hb : b ≠ ' ') {text : List Char} :
    leading text = [a, b] ↔ text[0]? = some a ∧ text[1]? = some b := by
  match text with
  | [] => simp [leading]
  | [_] => simp [leading]
  | x :: y :: _ =>
    by_cases hy : y = ' '
    · subst hy
      simp [leading, Ne.symm hb]
    · simp [leading, hy]

theorem prefix_leading {a : Char} {text : List Char} :
    [a] <+: leading text ↔ text[0]? = some a := by
  match text with
  | [] => simp [leading]
  | [x] => simp [leading, eq_comm]
  | x :: y :: _ => by_cases hy : y = ' ' <;> simp [leading, hy, eq_comm]

/-- A query token selects the token of a place if its characters are there. -/
theorem selects_leading {query text : List Char} (h : Text.Printable query) {t : Token}
    {inRun : Bool} {i : Nat} (ht : t ∈ pairTokens .get inRun i (query.map fun c => [c])) :
    t.selects .exact (String.ofList (leading text)) ↔
      ∀ (k : Nat) c, t.text.toList[k]? = some c → text[k]? = some c := by
  rcases of_mem_pairTokens_get h ht with ⟨a, b, p, -, hb, rfl⟩ | ⟨a, p, -, rfl⟩
  · simp only [Token.selects, Bool.false_eq_true, if_false, decide_eq_true_eq, String.ofList_inj,
      leading_eq_pair hb, String.toList_ofList]
    constructor
    · rintro ⟨ha, hb⟩ k c hk
      rcases k with _ | _ | k
      · simpa using ha.trans hk
      · simpa using hb.trans hk
      · simp at hk
    · exact fun hplace => ⟨hplace 0 a rfl, hplace 1 b rfl⟩
  · simp only [Token.selects, if_true, Table.startsWith_iff, String.toList_ofList, prefix_leading]
    constructor
    · intro ha k c hk
      rcases k with _ | k
      · simpa using ha.trans hk
      · simp at hk
    · exact fun hplace => hplace 0 a rfl

/-- In a text of printable characters a query token stands where its characters are. -/
theorem standsAt_printable {query : List Char} (h : Text.Printable query) {t : Token}
    {inRun : Bool} {i : Nat} (ht : t ∈ pairTokens .get inRun i (query.map fun c => [c]))
    {text : String} (htext : Text.Printable text.toList) {position : Nat} :
    t.standsAt .exact (textTerms .bigram text) position ↔
      ∀ (k : Nat) c, t.text.toList[k]? = some c → text.toList[position + k]? = some c := by
  rw [standsAt_textTerms, tokens_printable htext]
  constructor
  · rintro ⟨t', ht', hselects, hposition⟩ k c hk
    obtain ⟨start, _, -, -, rfl⟩ := (mem_pairTokens_add htext).1 ht'
    have hchar := (selects_leading h ht).1 hselects k c hk
    obtain rfl : start = position := by simpa using hposition
    rwa [List.getElem?_drop] at hchar
  · intro hplace
    obtain ⟨a, hfirst, ha⟩ : ∃ a, t.text.toList[0]? = some a ∧ a ≠ ' ' := by
      rcases of_mem_pairTokens_get h ht with ⟨a, b, p, ha, -, rfl⟩ | ⟨a, p, ha, rfl⟩ <;>
        exact ⟨a, by simp, ha⟩
    refine ⟨_, (mem_pairTokens_add htext).2 ⟨position, a, hplace 0 a hfirst, ha, rfl⟩,
      (selects_leading h ht).2 fun k c hk => ?_, Nat.zero_add position⟩
    rw [List.getElem?_drop]
    exact hplace k c hk

end Tokenizer

end Concordance
