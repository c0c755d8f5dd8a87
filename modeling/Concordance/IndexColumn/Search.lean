import Concordance.IndexColumn

/-! # Searching through a handle -/
namespace Concordance.IndexColumn

/-- A query in the form that the engine takes, with the buffers after it was put into one. -/
def normalize (scratch : Scratch) : Query → Except Error (EngineQuery × Scratch)
  | .compiled query => .ok (.compiled query, scratch)
  | .term id =>
    let buffer := scratch.idQuery.rewind.setWord id
    .ok (.buffer buffer, { scratch with idQuery := buffer })
  | .text bytes =>
    match Text.ofUtf8 bytes with
    | .error fault => .error (.argument "query" s!"query text is not UTF-8: {fault.message}")
    | .ok _ =>
      let buffer := scratch.textQuery.rewind.setBytes bytes
      .ok (.buffer buffer, { scratch with textQuery := buffer })

/-- Merges the matches of a query into a table. -/
def searchInto (c : IndexColumn) (s : Session) (query : Query) (result : ResultTable)
    (options : SearchOptions) : Reply Unit × ResultTable :=
  match c.parts s >>= (normalize · query) with
  | .error e => (⟨.error e, c, s⟩, result)
  | .ok (query, scratch) =>
    let (answer, result, s) := s.search c.id query result options.operator options.mode
    let (answer, s) := s.settle answer
    (⟨answer, c.withScratch scratch, s⟩, result)

/-- The matches of a query, in a new table keyed by the index's range. -/
def search (c : IndexColumn) (s : Session) (query : Query) (options : SearchOptions) :
    Reply ResultTable :=
  match c.parts s with
  | .error e => ⟨.error e, c, s⟩
  | .ok _ =>
    let (answer, s) := s.createResult c.range .all
    match s.settle answer with
    | (.error e, s) => ⟨.error e, c, s⟩
    | (.ok result, s) =>
      let (reply, result) := c.searchInto s query result options
      ⟨reply.result.map fun () => result, reply.column, reply.session⟩

end Concordance.IndexColumn
