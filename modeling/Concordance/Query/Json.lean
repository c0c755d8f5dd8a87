import Concordance.Query
import Concordance.Json.Place
import Concordance.Json.Shape

/-! # Queries as JSON -/
namespace Concordance

open Json (Shaped)

def SelectOperator.toJson (operator : SelectOperator) : Json := .text operator.name

/-- An operator is written by any of its names. -/
def SelectOperator.ofJson (v : Json) : Shaped SelectOperator := do
  match SelectOperator.parse (← v.toText) with
  | .ok operator => return operator
  | .error e => .error (Json.Place.settled e.message)

def SearchMode.toJson (mode : SearchMode) : Json := .text mode.name

def SearchMode.ofJson : Json → Shaped SearchMode :=
  Json.toChoice (SearchMode.all.map fun mode => (mode.name, mode))

namespace Clause

def toJson (clause : Clause) : Json :=
  .ofFields
    [("operator", clause.operator.toJson), ("text", .text clause.text),
     ("mode", clause.mode.toJson)]

structure Parts where
  operator : Option SelectOperator
  text : Option String
  mode : Option SearchMode

def record : Json.Record Parts Clause where
  name := "Clause"
  fields :=
    [⟨"operator", [], (·.operator.isSome), fun s v => do
       return { s with operator := ← SelectOperator.ofJson v }⟩,
     ⟨"text", [], (·.text.isSome), fun s v => do return { s with text := ← v.toText }⟩,
     ⟨"mode", [], (·.mode.isSome), fun s v => do return { s with mode := ← SearchMode.ofJson v }⟩]
  onlyKeys := none
  start := ⟨none, none, none⟩
  finish s := do
    let operator ← Json.required "operator" s.operator
    let text ← Json.required "text" s.text
    let mode ← Json.required "mode" s.mode
    return ⟨operator, text, mode⟩

def ofJson (v : Json) : Shaped Clause := record.read v

end Clause

namespace CompiledQuery

def toJson (query : CompiledQuery) : Json :=
  .ofFields [("clauses", .array (query.clauses.map Clause.toJson))]

def record : Json.Record (Option (List Clause)) CompiledQuery where
  name := "CompiledQuery"
  fields := [⟨"clauses", [], (·.isSome), fun _ v => do return some (← v.toList Clause.ofJson)⟩]
  onlyKeys := none
  start := none
  finish s := return ⟨← Json.required "clauses" s⟩

def ofJson (v : Json) : Shaped CompiledQuery := record.read v

end CompiledQuery

end Concordance
