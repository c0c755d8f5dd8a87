import Concordance.IndexColumn.Search
import Concordance.Proofs.Outcomes
import Concordance.Proofs.WordPhrases

/-! # Searches that fail

What a search into a table does to the table when it answers an error. The table stays as it is
when the search itself fails. It does not when the search went well and only the slot of the
context held an error from an earlier call, which is then the answer.
-/
namespace Concordance

namespace Session
variable {s : Session}

theorem settle_eq_error {α : Type} {answer : Except Error α} {e : Error}
    (h : (s.settle answer).1 = .error e) : s.pending = some e ∨ answer = .error e := by
  cases hpending : s.pending with
  | some pending =>
    simp only [settle, check, hpending] at h
    cases h
    exact .inl rfl
  | none =>
    simp only [settle, check, hpending] at h
    exact .inr h

/-- A search that the engine carries out merges its matches and leaves the context alone; one that
it refuses leaves the table alone. -/
theorem search_cases (index : ObjectId) (query : EngineQuery) (result : ResultTable)
    (operator : SelectOperator) (mode : SearchMode) :
    (∃ merged, s.database.search index query result operator mode = .ok merged ∧
        s.search index query result operator mode = (.ok (), merged, s)) ∨
      ∃ e, s.database.search index query result operator mode = .error e ∧
        s.search index query result operator mode = (.error e, result, s.report e) := by
  cases hfound : s.database.search index query result operator mode with
  | ok merged => exact .inl ⟨merged, rfl, by simp only [search, ask, call, hfound]⟩
  | error e => exact .inr ⟨e, rfl, by simp only [search, ask, call, hfound]⟩

end Session

namespace IndexColumn
variable {c : IndexColumn} {s : Session} {query : Query} {result : ResultTable}
  {options : SearchOptions}

/-- A search that answers an error leaves the table as it was, unless the error is one that the
slot of the context held before and the engine merged its matches. -/
theorem searchInto_eq_error {e : Error}
    (h : (c.searchInto s query result options).1.result = .error e) :
    (c.searchInto s query result options).2 = result ∨
      s.pending = some e ∧ ∃ asked, s.database.search c.id asked result options.operator
        options.mode = .ok (c.searchInto s query result options).2 := by
  cases hquery : c.parts s >>= (normalize · query) with
  | error fault =>
    left
    simp only [searchInto, hquery]
  | ok asked =>
    simp only [searchInto, hquery] at h ⊢
    rcases s.search_cases c.id asked.1 result options.operator options.mode with
      ⟨merged, hfound, hsearch⟩ | ⟨fault, -, hsearch⟩
    · rw [hsearch] at h ⊢
      rcases Session.settle_eq_error h with hpending | hanswer
      · exact .inr ⟨hpending, asked.1, hfound⟩
      · cases hanswer
    · rw [hsearch]
      exact .inl rfl

def versesIndex : IndexColumn :=
  ⟨0, 260, 256, 257, false, some ⟨.empty 257 false, .empty 257 false, .empty 256 false,
    .empty nilId true⟩⟩

/-- A table for the records of another table than the index has. -/
theorem searchInto_eq_error_verses :
    (versesIndex.searchInto (.start Database.verses) (.text (Text.utf8 "to be".toList))
      (.empty 256 .all) .default).2 = .empty 256 .all := by
  have herror : (versesIndex.searchInto (.start Database.verses)
      (.text (Text.utf8 "to be".toList)) (.empty 256 .all) .default).1.result =
        .error (.engine .invalidArgument "result table is keyed by #256, index by #257") := by
    decide +kernel
  rcases searchInto_eq_error herror with hsame | ⟨hpending, -⟩
  · exact hsame
  · cases hpending

/-- After an object that is not there was to be removed, a search that fills the table answers the
error of that call. -/
theorem searchInto_pending_verses :
    let s := ((Session.start Database.verses).removeObject 999).2
    (bind s 260 false).toOption = some versesIndex ∧
      (versesIndex.searchInto s (.text (Text.utf8 "to be".toList)) (.empty 257 .all)
          .default).1.result = .error (.engine .noSuchObject "object #999 not found") ∧
        (versesIndex.searchInto s (.text (Text.utf8 "to be".toList)) (.empty 257 .all)
          .default).2.keys = [1] ∧
          (ResultTable.empty 257 .all).keys = [] := by
  decide +kernel

end IndexColumn

end Concordance
