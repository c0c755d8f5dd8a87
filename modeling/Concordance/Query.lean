import Concordance.Schema

/-! # Queries

The forms a search may take, and the operators that combine its matches with earlier ones.
-/
namespace Concordance

/-- How new matches are combined with what a result table holds. -/
inductive SelectOperator where
  | or | and | andNot | adjust
  deriving DecidableEq, Repr

namespace SelectOperator

def name : SelectOperator → String
  | or => "or"
  | and => "and"
  | andNot => "but"
  | adjust => "adjust"

/-- Reads an operator's name or sign in any case. -/
def parse (name : String) : Except Error SelectOperator :=
  match Text.lowercase name with
  | "or" | "||" => .ok or
  | "and" | "+" | "&&" => .ok and
  | "but" | "not" | "-" | "and_not" => .ok andNot
  | "adjust" | ">" => .ok adjust
  | other => .error (.argument "operator" s!"unknown operator: {other}")

end SelectOperator

/-- How a query term selects keys of the lexicon. -/
inductive SearchMode where
  | exact | startsWith | endsWith
  deriving DecidableEq, Repr

namespace SearchMode

def all : List SearchMode := [exact, startsWith, endsWith]

def name : SearchMode → String
  | exact => "exact"
  | startsWith => "prefix"
  | endsWith => "suffix"

/-- Reads a mode's name in any case. -/
def parse (name : String) : Except Error SearchMode :=
  match Text.lowercase name with
  | "exact" => .ok exact
  | "prefix" => .ok startsWith
  | "suffix" => .ok endsWith
  | other => .error (.argument "mode" s!"unknown search mode: {other}")

end SearchMode

/-- One step of a compiled query. -/
structure Clause where
  operator : SelectOperator
  text : String
  mode : SearchMode
  deriving DecidableEq, Repr

/-- Clauses to be merged in order, each with its own operator; that of the first has no effect. -/
structure CompiledQuery where
  clauses : List Clause
  deriving DecidableEq, Repr

namespace CompiledQuery

def empty : CompiledQuery := ⟨[]⟩

def push (query : CompiledQuery) (operator : SelectOperator) (text : String) (mode : SearchMode) :
    CompiledQuery := ⟨query.clauses ++ [⟨operator, text, mode⟩]⟩

def size (query : CompiledQuery) : Nat := query.clauses.length

end CompiledQuery

inductive Query where
  /-- A record of the lexicon. -/
  | term (id : RecordId)
  /-- A text to be tokenized, as bytes that must be UTF-8. -/
  | text (bytes : List UInt8)
  | compiled (query : CompiledQuery)

end Concordance
