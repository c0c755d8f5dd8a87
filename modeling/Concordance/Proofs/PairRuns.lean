import Concordance.Proofs.PairPlaces
import Mathlib.Data.String.Basic

/-! # Runs of clusters

The scan over the clusters of a text gives the token of each place. A run is a stretch of clusters
between two gaps, or between a gap and an end of the text; the scan knows where the run begins that
it is in, and has the tokens of all places before it.
-/
namespace Concordance

namespace Text

theorem getElem?_clusterIndices (offset : Nat) (cs : List (List Char)) (i : Nat) :
    (clusterIndices offset cs)[i]? =
      cs[i]?.map fun c => (offset + String.utf8Len (cs.take i).flatten, c) := by
  induction cs generalizing offset i with
  | nil => rfl
  | cons c rest ih =>
    cases i with
    | zero => simp [clusterIndices]
    | succ i =>
      simp only [clusterIndices, List.getElem?_cons_succ, ih, List.take_succ_cons,
        List.flatten_cons, String.utf8Len_append, String.utf8ByteSize_ofList, Nat.add_assoc]

theorem length_clusterIndices (offset : Nat) (cs : List (List Char)) :
    (clusterIndices offset cs).length = cs.length := by
  induction cs generalizing offset with
  | nil => rfl
  | cons c rest ih => rw [clusterIndices, List.length_cons, ih, List.length_cons]

end Text

namespace Tokenizer

section Slices
variable {text : String} {cs : List (List Char)} {i j : Nat}

theorem slice_ofList (l m r : List Char) :
    slice (String.ofList (l ++ m ++ r)) (String.utf8Len l) (String.utf8Len l + String.utf8Len m) =
      String.ofList m := String.extract_of_valid l m r

/-- The text between two clusters is that of the clusters there. -/
theorem slice_clusters (htext : cs.flatten = text.toList) (hij : i ≤ j) :
    slice text (String.utf8Len (cs.take i).flatten) (String.utf8Len (cs.take j).flatten) =
      String.ofList ((cs.drop i).take (j - i)).flatten := by
  have hsplit : cs.take j = cs.take i ++ (cs.drop i).take (j - i) := by
    rw [← List.take_add, Nat.add_sub_cancel' hij]
  have hparts : text = String.ofList ((cs.take i).flatten ++
      ((cs.drop i).take (j - i)).flatten ++ (cs.drop j).flatten) := by
    rw [← List.flatten_append, ← hsplit, ← List.flatten_append, List.take_append_drop, htext,
      String.ofList_toList]
  have hsize : String.utf8Len (cs.take j).flatten = String.utf8Len (cs.take i).flatten +
      String.utf8Len ((cs.drop i).take (j - i)).flatten := by
    rw [hsplit, List.flatten_append, String.utf8Len_append]
  rw [hsize]
  conv_lhs => rw [hparts]
  exact slice_ofList _ _ _

theorem byteAt_clusters (htext : cs.flatten = text.toList) (hi : i ≤ cs.length) :
    byteAt text (Text.clusterIndices 0 cs).toArray i = String.utf8Len (cs.take i).flatten := by
  rw [byteAt, List.getElem?_toArray, Text.getElem?_clusterIndices]
  rcases Nat.lt_or_eq_of_le hi with hlt | rfl
  · simp [List.getElem?_eq_getElem hlt]
  · rw [List.getElem?_eq_none (Nat.le_refl _), List.take_length, htext, ← String.utf8ByteSize_ofList,
      String.ofList_toList]
    rfl

end Slices

/-! ## One run -/

section Run
variable {text : String} {cs : List (List Char)} {mode : TokenMode} {start stop i : Nat}

/-- The clusters from `start` up to `stop` are a whole run. -/
structure IsRun (cs : List (List Char)) (start stop : Nat) : Prop where
  lt : start < stop
  le : stop ≤ cs.length
  solid : ∀ i, start ≤ i → i < stop → (solidAt cs i).isSome
  first : followsSolid cs start = false
  last : solidAt cs stop = none

theorem take_drop_one {c : List Char} (hc : cs[i]? = some c) : (cs.drop i).take 1 = [c] := by
  obtain ⟨hi, rfl⟩ := List.getElem?_eq_some_iff.1 hc
  rw [List.drop_eq_getElem_cons hi]
  rfl

theorem slice_one (htext : cs.flatten = text.toList) {c : List Char} (hc : cs[i]? = some c) :
    slice text (String.utf8Len (cs.take i).flatten) (String.utf8Len (cs.take (i + 1)).flatten) =
      String.ofList c := by
  rw [slice_clusters htext (Nat.le_add_right i 1), Nat.add_sub_cancel_left, take_drop_one hc,
    List.flatten_cons, List.flatten_nil, List.append_nil]

theorem slice_two (htext : cs.flatten = text.toList) {c next : List Char} (hc : cs[i]? = some c)
    (hnext : cs[i + 1]? = some next) :
    slice text (String.utf8Len (cs.take i).flatten) (String.utf8Len (cs.take (i + 2)).flatten) =
      String.ofList (c ++ next) := by
  have htwo : (cs.drop i).take 2 = [c, next] := by
    obtain ⟨hi, rfl⟩ := List.getElem?_eq_some_iff.1 hc
    rw [List.drop_eq_getElem_cons hi, List.take_succ_cons, take_drop_one hnext]
  rw [slice_clusters htext (by omega), Nat.add_sub_cancel_left, htwo]
  simp

/-- A run of one cluster gives the token of its place. -/
theorem runTokens_single (htext : cs.flatten = text.toList) (h : IsRun cs start (start + 1)) :
    runTokens text (Text.clusterIndices 0 cs).toArray mode start (start + 1) =
      (tokenAt mode cs start).toList := by
  obtain ⟨c, hc⟩ := Option.isSome_iff_exists.1 (h.solid start (Nat.le_refl _) h.lt)
  have hget := (solidAt_eq_some.1 hc).1
  rw [tokenAt_last hc h.last, h.first, runTokens, if_pos (Nat.add_sub_cancel_left ..),
    List.getElem?_toArray, Text.getElem?_clusterIndices, hget]
  have hend : 0 + String.utf8Len (cs.take start).flatten + (String.ofList c).utf8ByteSize =
      String.utf8Len (cs.take (start + 1)).flatten := by
    rw [List.take_add_one, hget, Option.toList_some, List.flatten_append, String.utf8Len_append,
      String.utf8ByteSize_ofList, List.flatten_cons, List.flatten_nil, List.append_nil,
      Nat.zero_add]
  simp only [Option.map_some, Option.toList_some, List.map_cons, List.map_nil, hend]
  rw [Nat.zero_add, slice_one htext hget]
  cases mode <;> rfl

/-- In a query the loop over a run stops before the last cluster. -/
theorem takeWhile_run (mode : TokenMode) (start m : Nat) :
    (List.range' start (m + 1)).takeWhile (fun i => !(i + 1 = start + m + 1 && mode = .get)) =
      List.range' start m ++ if mode = .get then [] else [start + m] := by
  have hbefore : ∀ i ∈ List.range' start m, !(i + 1 = start + m + 1 && mode = .get) := by
    intro i hi
    have := List.mem_range'_1.1 hi
    simp only [Bool.not_eq_true', Bool.and_eq_false_iff, decide_eq_false_iff_not]
    exact .inl (by omega)
  rw [List.range'_concat, Nat.one_mul, List.takeWhile_append_of_pos hbefore]
  cases mode <;> simp

/-- A run gives the tokens of its places. -/
theorem runTokens_eq (htext : cs.flatten = text.toList) (h : IsRun cs start stop) :
    runTokens text (Text.clusterIndices 0 cs).toArray mode start stop =
      (List.range' start (stop - start)).filterMap (tokenAt mode cs) := by
  obtain ⟨m, rfl⟩ : ∃ m, stop = start + m + 1 := ⟨stop - start - 1, by have := h.lt; omega⟩
  have hlen : start + m + 1 - start = m + 1 := by omega
  rcases Nat.eq_zero_or_pos m with rfl | hm
  · rw [Nat.add_zero] at h ⊢
    rw [runTokens_single htext h, Nat.add_sub_cancel_left, List.range'_one, List.filterMap_cons]
    cases tokenAt mode cs start <;> rfl
  rw [runTokens, if_neg (by omega), hlen, takeWhile_run, List.map_append, List.range'_concat,
    Nat.one_mul, List.filterMap_append]
  have hle := h.le
  congr 1
  · -- every cluster but the last has another of the run behind it
    rw [← List.filterMap_eq_map]
    refine List.filterMap_congr fun i hi => ?_
    have hi := List.mem_range'_1.1 hi
    obtain ⟨c, hc⟩ := Option.isSome_iff_exists.1 (h.solid i hi.1 (by omega))
    obtain ⟨next, hnext⟩ := Option.isSome_iff_exists.1 (h.solid (i + 1) (by omega) (by omega))
    rw [tokenAt_pair hc hnext, Function.comp_apply, if_neg (by omega),
      byteAt_clusters htext (by omega), byteAt_clusters htext (by omega),
      slice_two htext (solidAt_eq_some.1 hc).1 (solidAt_eq_some.1 hnext).1]
  · obtain ⟨c, hc⟩ := Option.isSome_iff_exists.1 (h.solid (start + m) (by omega) (by omega))
    have hfollows : followsSolid cs (start + m) = true := by
      obtain ⟨k, rfl⟩ : ∃ k, m = k + 1 := ⟨m - 1, by omega⟩
      exact h.solid (start + k) (by omega) (by omega)
    have htoken : (tokenAt mode cs (start + m)).toList = _ := tokenAt_last hc h.last
    rw [hfollows] at htoken
    rw [List.filterMap_cons, List.filterMap_nil]
    cases mode with
    | get =>
      have hnone : tokenAt .get cs (start + m) = none := Option.toList_eq_nil_iff.1 htoken
      rw [hnone]
      rfl
    | add =>
      have hsome : tokenAt .add cs (start + m) = some ⟨String.ofList c, start + m, false⟩ :=
        Option.toList_eq_singleton_iff.1 htoken
      rw [hsome, if_neg (by decide), List.map_cons, List.map_nil, if_pos rfl,
        byteAt_clusters htext (by omega), byteAt_clusters htext hle,
        slice_one htext (solidAt_eq_some.1 hc).1]

end Run

/-! ## The scan -/

/-- What the scan knows before a place: it is between two runs, or inside the run that began at
`start`, and it has the tokens of the places before that. -/
inductive Scan.Reads (cs : List (List Char)) (mode : TokenMode) (k : Nat) : Scan → Prop
  | between {tokens : Array Token} (gap : followsSolid cs k = false)
    (read : tokens.toList = (List.range k).filterMap (tokenAt mode cs)) :
    Scan.Reads cs mode k ⟨none, tokens⟩
  | inside {tokens : Array Token} (start : Nat) (lt : start < k)
    (solid : ∀ i, start ≤ i → i < k → (solidAt cs i).isSome) (first : followsSolid cs start = false)
    (read : tokens.toList = (List.range start).filterMap (tokenAt mode cs)) :
    Scan.Reads cs mode k ⟨some start, tokens⟩

section Scanning
variable {text : String} {cs : List (List Char)} {mode : TokenMode} {k : Nat} {s : Scan}

theorem all_isGap_iff : ((Text.clusterIndices 0 cs).toArray[k]?.all fun (_, cluster) =>
    isGap cluster) = (solidAt cs k).isNone := by
  rw [List.getElem?_toArray, Text.getElem?_clusterIndices, solidAt]
  cases cs[k]? with
  | none => rfl
  | some c => cases hc : isGap c <;> simp [hc]

theorem filterMap_range_succ (h : tokenAt mode cs k = none) :
    (List.range (k + 1)).filterMap (tokenAt mode cs) =
      (List.range k).filterMap (tokenAt mode cs) := by
  rw [List.range_succ, List.filterMap_append, List.filterMap_cons, h, List.filterMap_nil,
    List.append_nil]

theorem Scan.Reads.step (htext : cs.flatten = text.toList) (h : Scan.Reads cs mode k s)
    (hk : k ≤ cs.length) :
    Scan.Reads cs mode (k + 1) (s.step text (Text.clusterIndices 0 cs).toArray mode k) := by
  rw [Scan.step, all_isGap_iff]
  cases hsolid : solidAt cs k with
  | none =>
    have hfollows : followsSolid cs (k + 1) = false := by rw [followsSolid, hsolid]; rfl
    cases h with
    | between gap read =>
      refine .between hfollows ?_
      rw [read, filterMap_range_succ (tokenAt_gap hsolid)]
    | @inside tokens start lt solid first read =>
      refine .between hfollows ?_
      have hrun : IsRun cs start k := ⟨lt, hk, solid, first, hsolid⟩
      have hparts : List.range k = List.range start ++ List.range' start (k - start) := by
        have happend := @List.range'_append_1 0 start (k - start)
        rw [Nat.zero_add, Nat.add_sub_cancel' (Nat.le_of_lt lt)] at happend
        rw [List.range_eq_range', List.range_eq_range', happend]
      rw [filterMap_range_succ (tokenAt_gap hsolid), hparts, List.filterMap_append, ← read,
        ← runTokens_eq htext hrun]
      simp
  | some c =>
    cases h with
    | between gap read =>
      refine .inside k (Nat.lt_succ_self k) (fun i hki hik => ?_) gap read
      obtain rfl : i = k := by omega
      rw [hsolid]
      rfl
    | inside start lt solid first read =>
      refine .inside start (by omega) (fun i hsi hik => ?_) first read
      rcases Nat.lt_or_eq_of_le (Nat.le_of_lt_succ hik) with hik | rfl
      · exact solid i hsi hik
      · rw [hsolid]
        rfl

theorem Scan.Reads.foldl (htext : cs.flatten = text.toList) (hk : k ≤ cs.length + 1) :
    Scan.Reads cs mode k ((List.range k).foldl
      (Scan.step text (Text.clusterIndices 0 cs).toArray mode) ⟨none, #[]⟩) := by
  induction k with
  | zero => exact .between rfl rfl
  | succ k ih =>
    rw [List.range_succ, List.foldl_append]
    exact (ih (by omega)).step htext (by omega)

/-- The scan gives the token of each place. -/
theorem bigrams_eq_filterMap (text : String) (mode : TokenMode) :
    bigrams text mode = (List.range (Text.clusters text.toList).length).filterMap
      (tokenAt mode (Text.clusters text.toList)) := by
  have htext := Text.clusters_flatten text.toList
  have hreads : Scan.Reads _ mode _ _ := .foldl htext (Nat.le_refl _)
  have hpast : solidAt (Text.clusters text.toList) (Text.clusters text.toList).length = none := by
    rw [solidAt, List.getElem?_eq_none (Nat.le_refl _)]
    rfl
  rw [bigrams, List.size_toArray, Text.length_clusterIndices]
  revert hreads
  generalize (List.range _).foldl _ _ = s
  intro hreads
  cases hreads with
  | between gap read => rw [read, filterMap_range_succ (tokenAt_gap hpast)]
  | inside start lt solid first read =>
    -- the flush past the end leaves no run open
    have := solid _ (Nat.le_of_lt_succ lt) (Nat.lt_succ_self _)
    rw [hpast] at this
    cases this

theorem bigrams_eq_pairTokens (text : String) (mode : TokenMode) :
    bigrams text mode = pairTokens mode false 0 (Text.clusters text.toList) := by
  rw [bigrams_eq_filterMap, pairTokens_eq_filterMap]

end Scanning

/-! ## What the tokens of a text are -/

/-- The tokens of a text stand one behind another, whatever tokenizer gives them. -/
theorem pairwise_tokens (tokenizer : Tokenizer) (mode : TokenMode) (text : String) :
    (tokenizer.tokens mode text).Pairwise fun s t => s.position < t.position := by
  refine List.Pairwise.filter _ ?_
  cases tokenizer with
  | whole =>
    rw [allTokens, wholeTokens]
    split
    · exact .nil
    · exact List.pairwise_singleton _ _
  | delimit =>
    have hpositions : ((Text.words text.toList).zipIdx.map (·.2)).Pairwise (· < ·) := by
      rw [List.zipIdx_map_snd]
      exact List.pairwise_lt_range'
    exact List.pairwise_map.2 (List.pairwise_map.1 hpositions)
  | bigram =>
    rw [allTokens, bigrams_eq_pairTokens]
    exact pairwise_pairTokens mode _

theorem first_le_of_mem {tokenizer : Tokenizer} {text : String} {first : Token}
    {rest : List Token} (htokens : tokenizer.tokens mode text = first :: rest) {t : Token}
    (ht : t ∈ first :: rest) : first.position ≤ t.position := by
  have hpairwise := tokenizer.pairwise_tokens mode text
  rw [htokens] at hpairwise
  rcases List.mem_cons.1 ht with rfl | ht
  · exact Nat.le_refl _
  · exact Nat.le_of_lt ((List.pairwise_cons.1 hpairwise).1 t ht)

theorem ne_empty_of_mem_tokens {tokenizer : Tokenizer} {mode : TokenMode} {text : String}
    {t : Token} (h : t ∈ tokenizer.tokens mode text) : t.text.toList ≠ [] := by
  have h := (List.mem_filter.1 h).1
  cases tokenizer with
  | whole =>
    simp only [allTokens, wholeTokens] at h
    split at h <;> simp_all
  | delimit =>
    simp only [allTokens, wordTokens, List.mem_map] at h
    obtain ⟨⟨word, i⟩, hw, rfl⟩ := h
    simpa using Text.ne_nil_of_mem_words (List.fst_mem_of_mem_zipIdx hw)
  | bigram =>
    rw [allTokens, bigrams_eq_pairTokens] at h
    exact ne_empty_of_mem_pairTokens (fun _ => Text.ne_nil_of_mem_clusters) h

/-- The pair tokens of a text are those of its clusters, place after place, without the ones that
are too long. A query token is a token of the text, or if it is short then the text has the same
term at the same position. -/
theorem tokens_bigram (text : String) :
    let clusters := Text.clusters text.toList
    (clusters.flatten = text.toList ∧ ∀ c ∈ clusters, c ≠ []) ∧
    (∀ mode, bigram.tokens mode text =
      ((List.range clusters.length).filterMap (tokenAt mode clusters)).filter
        (·.text.utf8ByteSize ≤ 4095)) ∧
    ∀ t ∈ bigram.tokens .get text, (t.short = false → t ∈ bigram.tokens .add text) ∧
      (t.short → ⟨t.text, t.position, false⟩ ∈ bigram.tokens .add text) := by
  intro clusters
  refine ⟨⟨Text.clusters_flatten text.toList, fun _ => Text.ne_nil_of_mem_clusters⟩,
    fun mode => ?_, fun t ht => ?_⟩
  · rw [tokens, allTokens, bigrams_eq_filterMap]
    rfl
  · obtain ⟨hall, hsize⟩ := List.mem_filter.1 ht
    rw [allTokens, bigrams_eq_pairTokens] at hall
    have hadd : (⟨t.text, t.position, false⟩ : Token) ∈ bigram.tokens .add text := by
      rw [tokens, allTokens, bigrams_eq_pairTokens]
      exact List.mem_filter.2 ⟨mem_pairTokens_add_of_get hall, hsize⟩
    refine ⟨fun hshort => ?_, fun _ => hadd⟩
    rwa [← hshort] at hadd

example : bigram.tokens .get "ab c " = [⟨"ab", 0, false⟩, ⟨"c", 3, true⟩] := by decide +kernel

end Tokenizer
end Concordance
