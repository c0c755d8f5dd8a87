import Concordance.Tokenizer

/-! # Pairs, place by place

The pair tokens of a text, told place by place: the token of a cluster is a matter of the cluster
and its two neighbours. Where a cluster has another of its run behind it, adding and looking up give
the same token; a cluster alone is always added and is looked up, as a short one, only if it is the
whole run.
-/
namespace Concordance.Tokenizer

/-- Tokens of the clusters from position `i` on, one for each cluster that is no gap. It takes in
the next cluster of its run. Without a next one it stands alone: always when adding, and in a query
only if the run has no other cluster, so that the query token is short. -/
def pairTokens (mode : TokenMode) (inRun : Bool) (i : Nat) : List (List Char) → List Token
  | [] => []
  | cluster :: rest =>
    if isGap cluster then pairTokens mode false (i + 1) rest
    else
      let here : List Token :=
        match rest with
        | next :: _ =>
          if isGap next then alone cluster else [⟨String.ofList (cluster ++ next), i, false⟩]
        | [] => alone cluster
      here ++ pairTokens mode true (i + 1) rest
where
  alone (cluster : List Char) : List Token :=
    match mode with
    | .add => [⟨String.ofList cluster, i, false⟩]
    | .get => if inRun then [] else [⟨String.ofList cluster, i, true⟩]

theorem ne_empty_of_mem_pairTokens {mode : TokenMode} {inRun : Bool} {i : Nat}
    {cs : List (List Char)} (hcs : ∀ c ∈ cs, c ≠ []) {t : Token}
    (h : t ∈ pairTokens mode inRun i cs) : t.text.toList ≠ [] := by
  induction cs generalizing inRun i with
  | nil => simp [pairTokens] at h
  | cons c rest ih =>
    have hc : c ≠ [] := hcs c (by simp)
    have hrest : ∀ d ∈ rest, d ≠ [] := fun d hd => hcs d (by simp [hd])
    have alone_ne {s : Token} (hs : s ∈ pairTokens.alone mode inRun i c) : s.text.toList ≠ [] := by
      cases mode <;> simp only [pairTokens.alone] at hs
      · simp_all
      · split at hs <;> simp_all
    simp only [pairTokens] at h
    split at h
    · exact ih hrest h
    · rcases List.mem_append.1 h with h | h
      · cases rest with
        | nil => exact alone_ne h
        | cons next more =>
          simp only at h
          split at h
          · exact alone_ne h
          · simp_all
      · exact ih hrest h

section Runs
variable {mode : TokenMode} {inRun : Bool} {i : Nat} {c : List Char}

theorem pairTokens_gap (hc : isGap c) (rest : List (List Char)) :
    pairTokens mode inRun i (c :: rest) = pairTokens mode false (i + 1) rest := by
  cases rest <;> simp [pairTokens, hc]

/-- The run of a cluster ends behind it, or goes on with the next one. -/
theorem run_cases (rest : List (List Char)) :
    rest.head?.all isGap ∨ ∃ next more, rest = next :: more ∧ ¬ isGap next := by
  cases rest with
  | nil => exact .inl rfl
  | cons next more =>
    by_cases hnext : isGap next
    · exact .inl hnext
    · exact .inr ⟨next, more, rfl, hnext⟩

/-- A cluster without another of its run behind it stands alone. -/
theorem pairTokens_last (hc : ¬ isGap c) {rest : List (List Char)}
    (hrest : rest.head?.all isGap) : pairTokens mode inRun i (c :: rest) =
      pairTokens.alone mode inRun i c ++ pairTokens mode true (i + 1) rest := by
  cases rest with
  | nil => simp only [pairTokens, if_neg hc]
  | cons next more =>
    have hnext : isGap next := hrest
    rw [pairTokens, if_neg hc]
    simp only [if_pos hnext]

/-- A cluster forms a pair with the next one of its run. -/
theorem pairTokens_next {next : List Char} (hc : ¬ isGap c) (hnext : ¬ isGap next)
    (more : List (List Char)) : pairTokens mode inRun i (c :: next :: more) =
      ⟨String.ofList (c ++ next), i, false⟩ :: pairTokens mode true (i + 1) (next :: more) := by
  rw [pairTokens, if_neg hc]
  simp only [if_neg hnext]
  rfl

end Runs

/-! ## The token of a place -/

/-- The cluster at a place, unless it is a gap. -/
def solidAt (clusters : List (List Char)) (i : Nat) : Option (List Char) :=
  clusters[i]?.filter fun c => !isGap c

/-- Whether a place comes directly behind a cluster of its run. -/
def followsSolid (clusters : List (List Char)) : (i : Nat) → Bool
  | 0 => false
  | i + 1 => (solidAt clusters i).isSome

/-- The token of a place. A cluster takes in the one behind it. Without one it stands alone: always
when adding, and in a query only if it has no cluster before it either. -/
def tokenAt (mode : TokenMode) (clusters : List (List Char)) (i : Nat) : Option Token :=
  match solidAt clusters i, solidAt clusters (i + 1), mode with
  | none, _, _ => none
  | some c, some next, _ => some ⟨String.ofList (c ++ next), i, false⟩
  | some c, none, .add => some ⟨String.ofList c, i, false⟩
  | some c, none, .get => if followsSolid clusters i then none else some ⟨String.ofList c, i, true⟩

section Places
variable {mode : TokenMode} {clusters : List (List Char)} {i : Nat} {c : List Char} {t : Token}

theorem solidAt_drop (clusters : List (List Char)) (i k : Nat) :
    solidAt (clusters.drop i) k = solidAt clusters (i + k) := by
  rw [solidAt, solidAt, List.getElem?_drop]

theorem solidAt_gap (hc : isGap c) (rest : List (List Char)) : solidAt (c :: rest) 0 = none := by
  simp [solidAt, hc]

theorem solidAt_solid (hc : ¬ isGap c) (rest : List (List Char)) :
    solidAt (c :: rest) 0 = some c := by
  simp [solidAt, hc]

theorem solidAt_last {rest : List (List Char)} (hrest : rest.head?.all isGap) :
    solidAt rest 0 = none := by
  cases rest with
  | nil => rfl
  | cons next more => exact solidAt_gap hrest more

theorem solidAt_eq_some : solidAt clusters i = some c ↔ clusters[i]? = some c ∧ ¬ isGap c := by
  simp [solidAt, Option.filter_eq_some_iff]

theorem tokenAt_gap (h : solidAt clusters i = none) : tokenAt mode clusters i = none := by
  simp only [tokenAt, h]

theorem tokenAt_pair {next : List Char} (h : solidAt clusters i = some c)
    (hnext : solidAt clusters (i + 1) = some next) :
    tokenAt mode clusters i = some ⟨String.ofList (c ++ next), i, false⟩ := by
  simp only [tokenAt, h, hnext]

theorem tokenAt_last (h : solidAt clusters i = some c) (hnext : solidAt clusters (i + 1) = none) :
    (tokenAt mode clusters i).toList = pairTokens.alone mode (followsSolid clusters i) i c := by
  simp only [tokenAt, h, hnext]
  cases mode with
  | add => rfl
  | get => cases followsSolid clusters i <;> rfl

/-- A token is a pair, or else it is of a cluster alone and short in a query. -/
theorem tokenAt_cases (h : tokenAt mode clusters i = some t) :
    ∃ c, solidAt clusters i = some c ∧
      ((∃ next, solidAt clusters (i + 1) = some next ∧ t = ⟨String.ofList (c ++ next), i, false⟩) ∨
        solidAt clusters (i + 1) = none ∧ t = ⟨String.ofList c, i, mode = .get⟩) := by
  cases hhere : solidAt clusters i with
  | none =>
    rw [tokenAt_gap hhere] at h
    cases h
  | some c =>
    refine ⟨c, rfl, ?_⟩
    cases hnext : solidAt clusters (i + 1) with
    | some next =>
      rw [tokenAt_pair hhere hnext] at h
      exact .inl ⟨next, rfl, (Option.some.inj h).symm⟩
    | none =>
      have hmem : (tokenAt mode clusters i).toList = _ := tokenAt_last hhere hnext
      rw [h] at hmem
      refine .inr ⟨rfl, ?_⟩
      cases mode with
      | add => exact List.head_eq_of_cons_eq hmem
      | get =>
        cases hfollows : followsSolid clusters i with
        | false =>
          rw [hfollows] at hmem
          exact List.head_eq_of_cons_eq hmem
        | true =>
          rw [hfollows] at hmem
          cases hmem

/-- Reading the clusters from a place on gives the tokens of the places from there on. -/
theorem pairTokens_drop (mode : TokenMode) {cs : List (List Char)} (hcs : clusters.drop i = cs) :
    pairTokens mode (followsSolid clusters i) i cs =
      (List.range' i cs.length).filterMap (tokenAt mode clusters) := by
  induction cs generalizing i with
  | nil => rfl
  | cons c rest ih =>
    have hrest : clusters.drop (i + 1) = rest := by
      rw [← List.drop_drop, hcs, List.drop_one, List.tail_cons]
    have htail := ih hrest
    have hhere := solidAt_drop clusters i 0
    have hnext := solidAt_drop clusters (i + 1) 0
    rw [hcs, Nat.add_zero] at hhere
    rw [hrest, Nat.add_zero] at hnext
    have hplaces : (List.range' i (rest.length + 1)).filterMap (tokenAt mode clusters) =
        (tokenAt mode clusters i).toList ++
          (List.range' (i + 1) rest.length).filterMap (tokenAt mode clusters) := by
      rw [List.range'_succ, List.filterMap_cons]
      cases tokenAt mode clusters i <;> rfl
    rw [List.length_cons, hplaces, ← htail, followsSolid, ← hhere]
    by_cases hc : isGap c
    · have hgap := hhere.symm.trans (solidAt_gap hc rest)
      rw [pairTokens_gap hc, tokenAt_gap hgap, solidAt_gap hc]
      rfl
    · have hsolid := hhere.symm.trans (solidAt_solid hc rest)
      rw [solidAt_solid hc]
      rcases run_cases rest with hlast | ⟨next, more, rfl, hgoes⟩
      · rw [pairTokens_last hc hlast, tokenAt_last hsolid (hnext.symm.trans (solidAt_last hlast))]
        rfl
      · rw [pairTokens_next hc hgoes,
          tokenAt_pair hsolid (hnext.symm.trans (solidAt_solid hgoes more))]
        rfl

theorem pairTokens_eq_filterMap (mode : TokenMode) (clusters : List (List Char)) :
    pairTokens mode false 0 clusters =
      (List.range clusters.length).filterMap (tokenAt mode clusters) := by
  rw [List.range_eq_range']
  exact pairTokens_drop mode List.drop_zero

theorem exists_place (h : t ∈ pairTokens mode false 0 clusters) :
    ∃ i, tokenAt mode clusters i = some t := by
  rw [pairTokens_eq_filterMap] at h
  obtain ⟨i, -, hi⟩ := List.mem_filterMap.1 h
  exact ⟨i, hi⟩

/-! ## What the tokens of a text are -/

theorem position_of_tokenAt (h : tokenAt mode clusters i = some t) : t.position = i := by
  obtain ⟨_, -, ⟨_, -, rfl⟩ | ⟨-, rfl⟩⟩ := tokenAt_cases h <;> rfl

/-- Tokens stand one behind another. -/
theorem pairwise_pairTokens (mode : TokenMode) (clusters : List (List Char)) :
    (pairTokens mode false 0 clusters).Pairwise fun s t => s.position < t.position := by
  rw [pairTokens_eq_filterMap]
  apply List.pairwise_filterMap.2
  apply List.pairwise_lt_range.imp
  intro i j hij s hs t ht
  rwa [position_of_tokenAt hs, position_of_tokenAt ht]

/-- A query has a token only where a text has one, and of the same text. It is the same token unless
it is short. -/
theorem tokenAt_add_of_get (h : tokenAt .get clusters i = some t) :
    tokenAt .add clusters i = some { t with short := false } := by
  obtain ⟨c, hhere, ⟨next, hnext, rfl⟩ | ⟨hnext, rfl⟩⟩ := tokenAt_cases h
  · exact tokenAt_pair hhere hnext
  · simp only [tokenAt, hhere, hnext]

theorem mem_pairTokens_add_of_get (h : t ∈ pairTokens .get false 0 clusters) :
    { t with short := false } ∈ pairTokens .add false 0 clusters := by
  rw [pairTokens_eq_filterMap] at h ⊢
  obtain ⟨i, hi, hget⟩ := List.mem_filterMap.1 h
  exact List.mem_filterMap.2 ⟨i, hi, tokenAt_add_of_get hget⟩

/-- A query token that is not short is a pair of neighbours, neither of them a gap. -/
theorem exists_neighbours (h : t ∈ pairTokens .get false 0 clusters) (hshort : t.short = false) :
    ∃ front a b back, clusters = front ++ a :: b :: back ∧ ¬ isGap a ∧ ¬ isGap b ∧
      t.text = String.ofList (a ++ b) := by
  obtain ⟨i, hi⟩ := exists_place h
  obtain ⟨a, ha, ⟨b, hb, rfl⟩ | ⟨-, rfl⟩⟩ := tokenAt_cases hi
  · obtain ⟨hgeta, hgapa⟩ := solidAt_eq_some.1 ha
    obtain ⟨hgetb, hgapb⟩ := solidAt_eq_some.1 hb
    obtain ⟨hlt, rfl⟩ := List.getElem?_eq_some_iff.1 hgeta
    obtain ⟨hlt', rfl⟩ := List.getElem?_eq_some_iff.1 hgetb
    refine ⟨clusters.take i, clusters[i], clusters[i + 1], clusters.drop (i + 2), ?_, hgapa, hgapb,
      rfl⟩
    rw [← List.drop_eq_getElem_cons hlt', ← List.drop_eq_getElem_cons hlt, List.take_append_drop]
  · cases hshort

end Places

end Concordance.Tokenizer
