import Concordance.Database.Search
import Concordance.Proofs.TableKeys

/-! # The terms that a token selects

Looking a query token up in a lexicon finds exactly the terms that the token stands for. A scan of
the keys in their order finds all that begin with a text, because these follow one another.
-/
namespace Concordance

namespace Table

theorem startsWith_iff {s key : String} : startsWith s key ↔ s.toList <+: key.toList := by
  rw [startsWith, List.isPrefixOf_iff_prefix]

theorem not_lt_of_startsWith {s key : List Char} (h : s <+: key) : ¬ key < s := by
  obtain ⟨rest, rfl⟩ := h
  induction s with
  | nil => exact List.not_lt_nil _
  | cons c s ih =>
    rw [List.cons_append, List.cons_lt_cons_iff]
    rintro (hc | ⟨-, hs⟩)
    · exact Char.lt_irrefl _ hc
    · exact ih hs

/-- A text between another and one that begins with that other begins with it too. -/
theorem prefix_of_between {s a b : List Char} (hs : ¬ a < s) (hab : a < b) (hb : s <+: b) :
    s <+: a := by
  induction s generalizing a b with
  | nil => exact List.nil_prefix
  | cons c s ih =>
    obtain ⟨rest, rfl⟩ := hb
    cases a with
    | nil => exact absurd (List.nil_lt_cons c s) hs
    | cons d a =>
      rw [List.cons_append, List.cons_lt_cons_iff] at hab
      rw [List.cons_lt_cons_iff] at hs
      obtain rfl : d = c := by
        rcases hab with hdc | ⟨rfl, -⟩
        · exact absurd (.inl hdc) hs
        · rfl
      have hrest : a < s ++ rest := by
        rcases hab with hdd | ⟨-, hrest⟩
        · exact absurd hdd (Char.lt_irrefl d)
        · exact hrest
      have htail := ih (fun hlt => hs (.inr ⟨rfl, hlt⟩)) hrest (List.prefix_append s rest)
      exact List.cons_prefix_cons.2 ⟨rfl, htail⟩

theorem pairwise_idOf (t : Table) : t.idOf.toList.Pairwise fun a b => a.1 < b.1 := by
  refine Std.ExtTreeMap.ordered_keys_toList.imp fun {a b} h => ?_
  exact compareOfLessAndEq_eq_lt.1 h

/-- In order, the entries that begin with a text are the first ones from the text itself on. -/
theorem takeWhile_startsWith {s : String} {es : List (String × RecordId)}
    (h : es.Pairwise fun a b => a.1 < b.1) (hs : ∀ e ∈ es, ¬ e.1 < s) :
    es.takeWhile (fun e => startsWith s e.1) = es.filter fun e => startsWith s e.1 := by
  induction es with
  | nil => rfl
  | cons e rest ih =>
    obtain ⟨he, hrest⟩ := List.pairwise_cons.1 h
    have htail := ih hrest fun f hf => hs f (List.mem_cons_of_mem _ hf)
    cases hpre : startsWith s e.1 with
    | true => simp only [List.takeWhile_cons, List.filter_cons, hpre, if_true, htail]
    | false =>
      simp only [List.takeWhile_cons, List.filter_cons, hpre, Bool.false_eq_true, if_false]
      refine (List.filter_eq_nil_iff.2 fun f hf hf' => ?_).symm
      have hbetween := prefix_of_between
        (fun hlt => hs e (List.mem_cons_self ..) (String.lt_iff.2 hlt))
        (String.lt_iff.1 (he f hf)) (startsWith_iff.1 hf')
      rw [startsWith_iff.2 hbetween] at hpre
      cases hpre

theorem dropWhile_takeWhile {s : String} {es : List (String × RecordId)}
    (h : es.Pairwise fun a b => a.1 < b.1) :
    (es.dropWhile fun e => e.1 < s).takeWhile (fun e => startsWith s e.1) =
      es.filter fun e => startsWith s e.1 := by
  induction es with
  | nil => rfl
  | cons e rest ih =>
    obtain ⟨he, hrest⟩ := List.pairwise_cons.1 h
    by_cases hlt : e.1 < s
    · have hno : startsWith s e.1 = false := by
        rw [Bool.eq_false_iff]
        intro hpre
        exact not_lt_of_startsWith (startsWith_iff.1 hpre) (String.lt_iff.1 hlt)
      simp only [List.dropWhile_cons, List.filter_cons, hlt, hno, decide_true, if_true,
        Bool.false_eq_true, if_false]
      exact ih hrest
    · have hge : ∀ f ∈ e :: rest, ¬ f.1 < s := by
        intro f hf hfs
        rcases List.mem_cons.1 hf with rfl | hf
        · exact hlt hfs
        · exact hlt (String.lt_trans (he f hf) hfs)
      simp only [List.dropWhile_cons, hlt, decide_false, Bool.false_eq_true, if_false]
      exact takeWhile_startsWith h hge

theorem startingWith_eq_filter (t : Table) (s : String) :
    t.startingWith s = (t.idOf.toList.filter fun e => startsWith s e.1).map (·.2) :=
  congrArg _ (dropWhile_takeWhile t.pairwise_idOf)

end Table

/-- Whether a query token stands for a term. -/
def Token.selects (mode : SearchMode) (token : Token) (term : String) : Bool :=
  match mode with
  | .endsWith => Table.endsWith token.text term
  | .startsWith => Table.startsWith token.text term
  | .exact => if token.short then Table.startsWith token.text term else term = token.text

/-- The terms that a token selects are all those of the lexicon that it stands for, in key order. -/
theorem selectTerms_eq (lexicon : Table) (mode : SearchMode) (token : Token) :
    selectTerms lexicon mode token =
      (lexicon.idOf.toList.filter (token.selects mode ·.1)).map (·.2) := by
  have hscan := lexicon.startingWith_eq_filter token.text
  cases mode with
  | endsWith => rfl
  | startsWith => exact hscan
  | exact =>
    simp only [selectTerms, Token.selects]
    cases hshort : token.short with
    | true => exact hscan
    | false =>
      have hentry := FiniteMap.filter_toList lexicon.idOf token.text
      simp only [Bool.false_eq_true, if_false, Table.find?]
      rw [hentry]
      cases lexicon.idOf[token.text]? <;> rfl

end Concordance
