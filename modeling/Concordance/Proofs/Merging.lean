import Concordance.Proofs.Matching
import Mathlib.Data.List.Induction

/-! # Sequences of merges

What a result table knows of a key after any number of merges. The key is there or not by set
algebra alone. While it is there its score and its sections only grow, and stop at the largest word,
so they are a sum over the merges since it came in; a key that leaves is forgotten. Hence merges
that all add, or all select, may come in any order.
-/
namespace Concordance

/-- Matches, and how they are combined with what a table holds. -/
structure Merge where
  operator : SelectOperator
  found : Matches

namespace Merge

/-- Whether a key is in a table after the merge. -/
def keeps (step : Merge) (key : RecordId) (present : Bool) : Bool :=
  match step.operator with
  | .or => present || step.found.contains key
  | .and => present && step.found.contains key
  | .andNot => present && !step.found.contains key
  | .adjust => present

/-- What the merge adds to a key that stays. -/
def gain (step : Merge) (key : RecordId) : Hit :=
  match step.operator, step.found[key]? with
  | .or, some hit | .and, some hit => hit
  | .adjust, some hit => ⟨hit.score, 0⟩
  | _, _ => ⟨0, 0⟩

end Merge

/-- The numbers of a hit are 32-bit words. -/
structure Hit.Fits (hit : Hit) : Prop where
  score : hit.score ≤ wordMax
  subrecords : hit.subrecords ≤ wordMax

namespace ResultTable
variable {t : ResultTable} {key : RecordId} {flags : ResultFlags}

/-- The hits of a table have numbers of 32 bits. -/
def Fits (t : ResultTable) : Prop := ∀ {key : Nat} {hit}, t.records[key]? = some hit → hit.Fits

def mergeAll (t : ResultTable) (steps : List Merge) : ResultTable :=
  steps.foldl (fun t step => t.merge step.found step.operator) t

/-- Whether a key is in a table after some merges, from whether it was there before. -/
def presentAfter (key : RecordId) (present : Bool) (steps : List Merge) : Bool :=
  steps.foldl (fun present step => step.keeps key present) present

/-- The merges that count for a key in the table, and what they started from: all of them if the key
has been there throughout, and otherwise those from the last that brought it in. -/
inductive Counts (t : ResultTable) (key : RecordId) : List Merge → Hit → List Merge → Prop
  | throughout {known : Hit} {steps : List Merge} (hknown : t.get? key = some known)
      (hstays : ∀ step ∈ steps, step.keeps key true) : Counts t key steps known steps
  | since {front back : List Merge} {entry : Merge}
      (habsent : presentAfter key (t.contains key) front = false)
      (hoperator : entry.operator = .or) (hfound : entry.found.contains key)
      (hstays : ∀ step ∈ back, step.keeps key true) :
      Counts t key (front ++ entry :: back) ⟨0, 0⟩ (entry :: back)

/-! ## One merge -/

theorem saturate_le (n : Nat) : saturate n ≤ wordMax := Nat.min_le_right _ _

theorem saturate_of_le {n : Nat} (h : n ≤ wordMax) : saturate n = n := Nat.min_eq_left h

theorem saturate_saturate_add (a b : Nat) : saturate (saturate a + b) = saturate (a + b) := by
  simp only [saturate]
  omega

/-- Adding up hits one after the other is adding their sum. -/
theorem accumulate_accumulate (flags : ResultFlags) (known a b : Hit) :
    accumulate flags (accumulate flags known a) b =
      accumulate flags known ⟨a.score + b.score, a.subrecords + b.subrecords⟩ := by
  cases hflag : flags.withSubrecords <;>
    simp [accumulate, hflag, saturate_saturate_add, Nat.add_assoc]

theorem accumulate_zero {known : Hit} (h : known.Fits) :
    accumulate flags known ⟨0, 0⟩ = known := by
  simp [accumulate, saturate_of_le h.score, saturate_of_le h.subrecords]

theorem fits_accumulate {known : Hit} (h : known.subrecords ≤ wordMax) (found : Hit) :
    (accumulate flags known found).Fits where
  score := saturate_le _
  subrecords := by
    simp only [accumulate]
    split
    · exact saturate_le _
    · exact h

theorem isSome_mergeHit (step : Merge) (known : Option Hit) :
    (mergeHit flags step.operator known step.found[key]?).isSome = step.keeps key known.isSome := by
  simp only [Merge.keeps, Std.ExtTreeMap.contains_eq_isSome_getElem?]
  cases step.operator <;> cases known <;> cases step.found[key]? <;> rfl

theorem mergeHit_of_keeps {step : Merge} {known : Hit} (hknown : known.Fits)
    (hkeeps : step.keeps key true) :
    mergeHit flags step.operator (some known) step.found[key]? =
      some (accumulate flags known (step.gain key)) := by
  have hzero : accumulate flags known ⟨0, 0⟩ = known := accumulate_zero hknown
  simp only [Merge.keeps, Std.ExtTreeMap.contains_eq_isSome_getElem?] at hkeeps
  simp only [Merge.gain, mergeHit]
  cases hoperator : step.operator <;> cases hfound : step.found[key]? <;>
    simp_all [accumulate, saturate_of_le hknown.subrecords]

theorem mergeHit_of_enters {step : Merge} (hoperator : step.operator = .or)
    (hfound : step.found.contains key) : mergeHit flags step.operator none step.found[key]? =
      some (accumulate flags ⟨0, 0⟩ (step.gain key)) := by
  rw [Std.ExtTreeMap.contains_eq_isSome_getElem?, Option.isSome_iff_exists] at hfound
  obtain ⟨hit, hhit⟩ := hfound
  simp [Merge.gain, hoperator, hhit, mergeHit]

theorem enters_of_keeps {step : Merge} (h : step.keeps key false) :
    step.operator = .or ∧ step.found.contains key := by
  simp only [Merge.keeps] at h
  cases hoperator : step.operator <;> simp_all

theorem fits_mergeHit {step : Merge} {known : Option Hit} {hit : Hit}
    (hknown : ∀ before, known = some before → before.Fits)
    (h : mergeHit flags step.operator known step.found[key]? = some hit) : hit.Fits := by
  have hkeeps : step.keeps key known.isSome := by
    rw [← isSome_mergeHit, h]
    rfl
  cases known with
  | some before =>
    rw [mergeHit_of_keeps (hknown before rfl) hkeeps] at h
    cases h
    exact fits_accumulate (hknown before rfl).subrecords _
  | none =>
    obtain ⟨hoperator, hfound⟩ := enters_of_keeps hkeeps
    rw [mergeHit_of_enters hoperator hfound] at h
    cases h
    exact fits_accumulate (Nat.zero_le _) _

theorem Fits.merge (h : t.Fits) (step : Merge) : (t.merge step.found step.operator).Fits := by
  intro key hit hhit
  rw [getElem?_merge] at hhit
  exact fits_mergeHit (fun _ => h) hhit

theorem fits_empty (keyTable : ObjectId) (flags : ResultFlags) : (empty keyTable flags).Fits := by
  intro key hit hhit
  simp [empty] at hhit

/-! ## Any number of merges -/

theorem mergeAll_append (t : ResultTable) (front back : List Merge) :
    t.mergeAll (front ++ back) = (t.mergeAll front).mergeAll back := List.foldl_append ..

theorem flags_mergeAll (t : ResultTable) (steps : List Merge) :
    (t.mergeAll steps).flags = t.flags := by
  induction steps generalizing t with
  | nil => rfl
  | cons step rest ih => exact (ih _).trans (flags_merge ..)

theorem Fits.mergeAll (h : t.Fits) (steps : List Merge) : (t.mergeAll steps).Fits := by
  induction steps generalizing t with
  | nil => exact h
  | cons step rest ih => exact ih (h.merge step)

theorem contains_merge (t : ResultTable) (step : Merge) (key : RecordId) :
    (t.merge step.found step.operator).contains key = step.keeps key (t.contains key) := by
  rw [contains, contains, Std.ExtTreeMap.contains_eq_isSome_getElem?,
    Std.ExtTreeMap.contains_eq_isSome_getElem?, getElem?_merge, isSome_mergeHit]

/-- Membership is the fold of what the single merges say of it. -/
theorem contains_mergeAll (t : ResultTable) (steps : List Merge) (key : RecordId) :
    (t.mergeAll steps).contains key = presentAfter key (t.contains key) steps := by
  induction steps generalizing t with
  | nil => rfl
  | cons step rest ih => exact (ih _).trans (by rw [contains_merge]; rfl)

/-- All that merges add to a key that stays. -/
def gains (key : RecordId) (steps : List Merge) : Hit where
  score := total (steps.map fun step => (step.gain key).score)
  subrecords := total (steps.map fun step => (step.gain key).subrecords)

theorem accumulate_gains (flags : ResultFlags) (known : Hit) (key : RecordId) (step : Merge)
    (rest : List Merge) :
    accumulate flags (accumulate flags known (step.gain key)) (gains key rest) =
      accumulate flags known (gains key (step :: rest)) := accumulate_accumulate ..

/-- While a key stays, the gains add up. -/
theorem getElem?_mergeAll_of_stays {known : Hit} {steps : List Merge}
    (hknown : t.records[key]? = some known) (hfits : known.Fits)
    (hstays : ∀ step ∈ steps, step.keeps key true) :
    (t.mergeAll steps).records[key]? = some (accumulate t.flags known (gains key steps)) := by
  induction steps generalizing t known with
  | nil => exact hknown.trans (congrArg some (accumulate_zero hfits).symm)
  | cons step rest ih =>
    obtain ⟨hstep, hrest⟩ := List.forall_mem_cons.1 hstays
    have hmerged : (t.merge step.found step.operator).records[key]? =
        some (accumulate t.flags known (step.gain key)) := by
      rw [getElem?_merge, hknown, mergeHit_of_keeps hfits hstep]
    calc (t.mergeAll (step :: rest)).records[key]?
        = some (accumulate t.flags (accumulate t.flags known (step.gain key))
            (gains key rest)) := by
          rw [← flags_merge t step.found step.operator] at hmerged ⊢
          exact ih hmerged (fits_accumulate hfits.subrecords _) hrest
      _ = some (accumulate t.flags known (gains key (step :: rest))) := by
          rw [accumulate_gains]

theorem getElem?_mergeAll_of_counts (hfits : t.Fits) {steps counted : List Merge} {base : Hit}
    (h : Counts t key steps base counted) :
    (t.mergeAll steps).records[key]? = some (accumulate t.flags base (gains key counted)) := by
  cases h with
  | throughout hknown hstays => exact getElem?_mergeAll_of_stays hknown (hfits hknown) hstays
  | @since front back entry habsent hoperator hfound hstays =>
    have hnone : (t.mergeAll front).records[key]? = none := by
      rwa [← contains_mergeAll, contains, Std.ExtTreeMap.contains_eq_isSome_getElem?,
        Option.isSome_eq_false_iff, Option.isNone_iff_eq_none] at habsent
    have hentered : ((t.mergeAll front).merge entry.found entry.operator).records[key]? =
        some (accumulate t.flags ⟨0, 0⟩ (entry.gain key)) := by
      rw [getElem?_merge, hnone, flags_mergeAll, mergeHit_of_enters hoperator hfound]
    have hflags : ((t.mergeAll front).merge entry.found entry.operator).flags = t.flags := by
      rw [flags_merge, flags_mergeAll]
    calc (t.mergeAll (front ++ entry :: back)).records[key]?
        = (((t.mergeAll front).merge entry.found entry.operator).mergeAll back).records[key]? := by
          rw [mergeAll_append]
          rfl
      _ = some (accumulate t.flags (accumulate t.flags ⟨0, 0⟩ (entry.gain key))
            (gains key back)) := by
          rw [← hflags] at hentered ⊢
          exact getElem?_mergeAll_of_stays hentered (fits_accumulate (Nat.zero_le _) _) hstays
      _ = some (accumulate t.flags ⟨0, 0⟩ (gains key (entry :: back))) := by
          rw [accumulate_gains]

theorem Counts.snoc {steps counted : List Merge} {base : Hit} (h : Counts t key steps base counted)
    {step : Merge} (hkeeps : step.keeps key true) :
    Counts t key (steps ++ [step]) base (counted ++ [step]) := by
  have hstays {steps : List Merge} (h : ∀ step ∈ steps, step.keeps key true) :
      ∀ s ∈ steps ++ [step], s.keeps key true := by
    intro s hs
    rcases List.mem_append.1 hs with hs | hs
    · exact h s hs
    · exact List.mem_singleton.1 hs ▸ hkeeps
  cases h with
  | throughout hknown h => exact .throughout hknown (hstays h)
  | since habsent hoperator hfound h =>
    rw [List.append_assoc]
    exact .since habsent hoperator hfound (hstays h)

theorem exists_counts {steps : List Merge} (h : (t.mergeAll steps).contains key) :
    ∃ base counted, Counts t key steps base counted := by
  induction steps using List.reverseRecOn with
  | nil =>
    rw [contains, Std.ExtTreeMap.contains_eq_isSome_getElem?, Option.isSome_iff_exists] at h
    obtain ⟨known, hknown⟩ := h
    exact ⟨known, [], .throughout hknown (by simp)⟩
  | append_singleton front step ih =>
    have hkeeps : step.keeps key ((t.mergeAll front).contains key) := by
      rw [← contains_merge, ← h, mergeAll_append]
      rfl
    cases hpresent : (t.mergeAll front).contains key with
    | true =>
      obtain ⟨base, counted, hcounts⟩ := ih hpresent
      exact ⟨base, _, hcounts.snoc (hpresent ▸ hkeeps)⟩
    | false =>
      obtain ⟨hoperator, hfound⟩ := enters_of_keeps (hpresent ▸ hkeeps)
      rw [contains_mergeAll] at hpresent
      exact ⟨⟨0, 0⟩, [step], .since hpresent hoperator hfound (by simp)⟩

/-! ## The order of merges -/

theorem eq_of_records {t' : ResultTable} (hkeyTable : t'.keyTable = t.keyTable)
    (hflags : t'.flags = t.flags) (h : ∀ key : Nat, t'.records[key]? = t.records[key]?) :
    t' = t := by
  obtain ⟨keyTable, flags, records⟩ := t
  obtain ⟨keyTable', flags', records'⟩ := t'
  obtain rfl : keyTable' = keyTable := hkeyTable
  obtain rfl : flags' = flags := hflags
  obtain rfl : records' = records := Std.ExtTreeMap.ext_getElem? fun {key} => h key
  rfl

theorem keyTable_merge (t : ResultTable) (found : Matches) (operator : SelectOperator) :
    (t.merge found operator).keyTable = t.keyTable := by
  cases operator <;> rfl

theorem mergeHit_right_comm {operator : SelectOperator}
    (hoperator : operator = .or ∨ operator = .and) (known a b : Option Hit) :
    mergeHit flags operator (mergeHit flags operator known a) b =
      mergeHit flags operator (mergeHit flags operator known b) a := by
  rcases hoperator with rfl | rfl <;> cases known <;> cases a <;> cases b <;>
    simp [mergeHit, accumulate_accumulate, Nat.add_comm]

theorem merge_right_comm (t : ResultTable) {operator : SelectOperator}
    (hoperator : operator = .or ∨ operator = .and) (a b : Matches) :
    (t.merge a operator).merge b operator = (t.merge b operator).merge a operator := by
  refine eq_of_records ?_ ?_ fun key => ?_
  · simp only [keyTable_merge]
  · simp only [flags_merge]
  · simp only [getElem?_merge, flags_merge, mergeHit_right_comm hoperator]

/-- Merges that all add, or that all select, may come in any order. -/
theorem mergeAll_perm (t : ResultTable) {operator : SelectOperator}
    (hoperator : operator = .or ∨ operator = .and) {steps steps' : List Merge}
    (hsteps : ∀ step ∈ steps, step.operator = operator) (h : steps.Perm steps') :
    t.mergeAll steps = t.mergeAll steps' := by
  refine h.foldl_eq' (fun a ha b hb t => ?_) t
  rw [hsteps a ha, hsteps b hb]
  exact merge_right_comm t hoperator _ _

/-- After any merges a key is in the table exactly if set algebra says so, and then some of the
merges count for it. Its score is what it started from and the scores of its matches among these,
and its sections are counted in the same way if the table asks for it. In a block of merges that all
add, or that all select, the order makes no difference. -/
theorem mergeAll_spec (hfits : t.Fits) (steps : List Merge) :
    (∀ key, (t.mergeAll steps).contains key = presentAfter key (t.contains key) steps) ∧
    (∀ key, (t.mergeAll steps).contains key → ∃ base counted, Counts t key steps base counted) ∧
    (∀ key base counted, Counts t key steps base counted → (t.mergeAll steps).get? key = some {
        score := min (base.score + total (counted.map fun step => (step.gain key).score))
          (2 ^ 32 - 1)
        subrecords :=
          if t.flags.withSubrecords then
            min (base.subrecords + total (counted.map fun step => (step.gain key).subrecords))
              (2 ^ 32 - 1)
          else base.subrecords }) ∧
    ∀ front block block' back operator, operator = .or ∨ operator = .and →
      steps = front ++ block ++ back → (∀ step ∈ block, step.operator = operator) →
        block.Perm block' → t.mergeAll (front ++ block' ++ back) = t.mergeAll steps := by
  refine ⟨contains_mergeAll t steps, fun key => exists_counts,
    fun key base counted h => getElem?_mergeAll_of_counts hfits h, ?_⟩
  rintro front block block' back operator hoperator rfl hblock hperm
  simp only [mergeAll_append, mergeAll_perm (t.mergeAll front) hoperator hblock hperm]

/-- A record that is taken out, comes back and gains more than a word can hold, while another one
leaves for good. -/
def returning : List Merge :=
  let merge (operator : SelectOperator) (hits : List (RecordId × Hit)) : Merge :=
    ⟨operator, .ofList hits⟩
  [merge .or [(1, ⟨2, 1⟩), (2, ⟨1, 1⟩)], merge .andNot [(1, ⟨9, 9⟩)], merge .or [(1, ⟨5, 2⟩)],
    merge .or [(1, ⟨3, 1⟩), (2, ⟨4, 1⟩)], merge .adjust [(1, ⟨0xFFFFFFFE, 7⟩), (3, ⟨1, 1⟩)],
    merge .and [(1, ⟨0, 1⟩)]]

theorem mergeAll_spec_returning : (empty 257 .all).Fits ∧
    ((empty 257 .all).mergeAll returning).get? 1 = some ⟨0xFFFFFFFF, 4⟩ ∧
    ((empty 257 .all).mergeAll returning).contains 2 = false ∧
      (empty 257 .all).mergeAll
          (returning.take 2 ++ ((returning.drop 2).take 2).reverse ++ returning.drop 4) =
        (empty 257 .all).mergeAll returning := by
  obtain ⟨hpresent, -, hvalue, hperm⟩ := mergeAll_spec (fits_empty 257 .all) returning
  have hcounts : Counts (empty 257 .all) 1 (returning.take 2 ++ returning[2] :: returning.drop 3)
      ⟨0, 0⟩ (returning[2] :: returning.drop 3) :=
    .since (by decide +kernel) rfl (by decide +kernel) (by decide +kernel)
  refine ⟨fits_empty 257 .all, (hvalue 1 _ _ hcounts).trans (by decide +kernel), ?_, ?_⟩
  · rw [hpresent]
    decide +kernel
  · exact hperm _ _ _ _ .or (.inl rfl) rfl (by decide +kernel) (List.reverse_perm _).symm

end ResultTable
end Concordance
