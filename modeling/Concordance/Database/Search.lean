import Concordance.Buffer
import Concordance.Database.Feed
import Concordance.ResultTable

/-! # Searching

The records that an index finds for a term or for a text. Each token of a text selects keys of the
lexicon. A text matches a record in which every token has some selected key; with positions, the
tokens must also stand together in one section, at the distances they have in the text.
-/
namespace Concordance

/-- The terms that a query token selects. -/
def selectTerms (lexicon : Table) (mode : SearchMode) (token : Token) : List RecordId :=
  match mode with
  | .endsWith => lexicon.endingWith token.text
  | .startsWith => lexicon.startingWith token.text
  | .exact =>
    if token.short then lexicon.startingWith token.text else (lexicon.find? token.text).toList

/-- One token of a query: its distance from the first token, and the terms it selects. -/
structure Selection where
  offset : Nat
  terms : List RecordId

def selections (lexicon : Table) (mode : SearchMode) (tokens : List Token) : List Selection :=
  let base := (tokens.head?.map Token.position).getD 0
  tokens.map fun t => ⟨t.position - base, selectTerms lexicon mode t⟩

namespace Postings

/-- The matches of a single term: every record it occurs in. -/
def matchTerm (p : Postings) (term : RecordId) : Matches :=
  let list := p.list term
  list.records.toList.foldl
    (fun found record =>
      found.insert record ⟨list.frequency record, (list.sections record).length⟩) ∅

/-- The records that some of the terms occur in. -/
def recordsOf (p : Postings) (terms : List RecordId) : IdSet :=
  terms.foldl (fun records term => records.insertMany (p.list term).records.toList) ∅

/-- The records in which each selection has a term. -/
def candidates (p : Postings) : List Selection → List RecordId
  | [] => []
  | first :: rest =>
    (p.recordsOf first.terms).toList.filter fun record =>
      rest.all fun s => s.terms.any fun term => (p.list term).records.contains record

/-- The sections of a record that hold one of the selected terms. -/
def sectionsOf (p : Postings) (query : List Selection) (record : RecordId) : List Nat :=
  ((query.flatMap Selection.terms).foldl
    (fun (found : IdSet) term =>
      found.insertMany (((p.list term).sections record).map (·.1))) ∅).toList

/-- Where the terms of a selection occur in a section of a record. -/
def slot (p : Postings) (record : RecordId) (sec : Nat) (s : Selection) : List Nat :=
  s.terms.flatMap fun term => p.positions term record sec

/-- The number of places where a phrase starts: every slot continues it at the slot's offset. Sums of
positions wrap around, as words do where sums are not checked. -/
def phraseHits : List (Nat × List Nat) → Nat
  | [] => 0
  | (_, starts) :: rest =>
    let rest := rest.map fun (offset, slot) => (offset, (.ofList slot : IdSet))
    starts.countP fun start => rest.all fun (offset, slot) => slot.contains (wrap (start + offset))

/-- The hits of a query in one section of a record. -/
def sectionHits (p : Postings) (phrase : Bool) (query : List Selection) (record : RecordId)
    (sec : Nat) : Nat :=
  if phrase then phraseHits (query.map fun s => (s.offset, p.slot record sec s))
  else total (query.map fun s => (p.slot record sec s).length)

/-- Hits over all sections, and the number of sections that have any. -/
def hit (p : Postings) (phrase : Bool) (query : List Selection) (record : RecordId) : Hit :=
  let hits := (p.sectionsOf query record).map (p.sectionHits phrase query record)
  ⟨total hits, hits.countP (0 < ·)⟩

/-- The matches of selections, for a phrase or for all of them anywhere. -/
def matchSelections (p : Postings) (phrase : Bool) (query : List Selection) : Matches :=
  (p.candidates query).foldl
    (fun found record =>
      let hit := p.hit phrase query record
      if 0 < hit.score then found.insert record hit else found) ∅

end Postings

/-- The matches of a text. A token that selects nothing leaves no match. -/
def Index.matchText (ix : Index) (lexicon : Table) (text : String) (mode : SearchMode) : Matches :=
  let tokens := ix.tokenizer.tokens .get text
  let query := selections lexicon mode tokens
  if query.any (·.terms.isEmpty) then ∅
  else ix.postings.matchSelections (1 < tokens.length && ix.flags.contains .withPosition) query

/-- What an engine is asked to search for. -/
inductive EngineQuery where
  | buffer (buffer : Buffer)
  | compiled (query : CompiledQuery)

namespace Database

def matchText (db : Database) (ix : Index) (text : String) (mode : SearchMode) : Matches :=
  match db.tables[ix.lexicon]? with
  | some lexicon => ix.matchText lexicon text mode
  | none => ∅

/-- Merges the matches of a clause, in the clause's own mode. -/
def mergeClause (db : Database) (ix : Index) (set : ResultTable)
    (clause : Clause) (operator : SelectOperator) : ResultTable :=
  set.merge (db.matchText ix clause.text clause.mode) operator

/-- The clauses of a query merged in order into an empty table; the first one seeds it. -/
def runClauses (db : Database) (ix : Index) (flags : ResultFlags) : List Clause → ResultTable
  | [] => .empty ix.range flags
  | first :: rest =>
    rest.foldl (fun set clause => db.mergeClause ix set clause clause.operator)
      (db.mergeClause ix (.empty ix.range flags) first .or)

/-- A buffer typed to the lexicon holds a term id, and one without a type or of a text type holds a
text. -/
def matchBuffer (db : Database) (ix : Index) (b : Buffer) (mode : SearchMode) :
    Except Error Matches :=
  if b.domain = ix.lexicon then
    match b.word? with
    | some term => .ok (ix.postings.matchTerm term)
    | none => .error (.engine .invalidArgument "term id query must be 4 bytes")
  else if b.domain = nilId || (DataType.ofId? b.domain).any DataType.isText then
    match b.text with
    | .ok text => .ok (db.matchText ix text mode)
    | .error e => .error (.engine .invalidArgument e.message)
  else .error (.engine .invalidArgument s!"cannot search with a query typed #{b.domain}")

/-- Searches an index and merges the matches into a table keyed by the index's range. -/
def search (db : Database) (index : ObjectId) (query : EngineQuery) (result : ResultTable)
    (operator : SelectOperator) (mode : SearchMode) : Except Error ResultTable := do
  let ix ← db.index index
  if result.keyTable ≠ ix.range then
    .error (.engine .invalidArgument
      s!"result table is keyed by #{result.keyTable}, index by #{ix.range}")
  let found ← match query with
    | .buffer b => db.matchBuffer ix b mode
    | .compiled q => pure (db.runClauses ix result.flags q.clauses).records
  return result.merge found operator

/-- An empty table keyed by the records of a table. -/
def createResult (db : Database) (keyTable : ObjectId) (flags : ResultFlags) :
    Except Error ResultTable :=
  if db.tables.contains keyTable then .ok (.empty keyTable flags)
  else .error (.engine .invalidArgument s!"#{keyTable} is not a table")

end Database

end Concordance
