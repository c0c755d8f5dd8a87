import Concordance.Database

/-! # Feeding indexes

How the texts of a record reach an index: they are tokenized, each token gets a position in the
section of its source, and the postings of the terms change by what was retracted and inserted.
-/
namespace Concordance

/-- Where a source's tokens start in an index that folds all sections into one: the sources keep
this distance, so that no phrase runs from one into the next. -/
def sectionSpan : Nat := 0x100000

/-- Texts to retract and to insert for one record, in one section. -/
structure Delta where
  record : RecordId
  sec : Nat
  old : List String
  new : List String

/-- Tokens of the texts with their positions. A text starts two past the last token before it, so
that texts of one value form no phrase together. -/
def positionedTokens (tokenizer : Tokenizer) : List String → (start : Nat) → List (String × Nat)
  | [], _ => []
  | text :: rest, start =>
    let tokens := tokenizer.tokens .add text
    let last := tokens.foldl (fun last t => max last t.position) 0
    tokens.map (fun t => (t.text, saturate (start + t.position))) ++
      positionedTokens tokenizer rest (saturate (start + (last + 2)))

namespace Index

/-- The section and the first position for the texts of a section. -/
def place (ix : Index) (sec : Nat) : Nat × Nat :=
  if ix.flags.contains .withSection then (sec, 0)
  else (1, saturate ((sec - 1) * sectionSpan))

/-- The occurrences that texts of a section have in the index, in order. -/
def occurrences (ix : Index) (sec : Nat) (texts : List String) : List (String × Nat) :=
  positionedTokens ix.tokenizer texts (ix.place sec).2

end Index

/-- Takes out the occurrences whose term the lexicon has. -/
def retract (lexicon : Table) (record : RecordId) (sec : Nat) (postings : Postings)
    (occurrences : List (String × Nat)) : Postings :=
  occurrences.foldl
    (fun postings (term, position) =>
      match lexicon.find? term with
      | some id => postings.remove id record sec position
      | none => postings)
    postings

/-- Adds one occurrence, and its term if the lexicon lacks it. -/
def insertOccurrence (record : RecordId) (sec : Nat) (state : Table × Postings)
    (occurrence : String × Nat) : Table × Postings :=
  let (id, lexicon) := state.1.addKey occurrence.1
  (lexicon, state.2.add id record sec occurrence.2)

/-- The lexicon and the postings of an index after a delta. -/
def Index.change (ix : Index) (lexicon : Table) (delta : Delta) : Table × Postings :=
  let sec := (ix.place delta.sec).1
  let kept := retract lexicon delta.record sec ix.postings (ix.occurrences delta.sec delta.old)
  (ix.occurrences delta.sec delta.new).foldl (insertOccurrence delta.record sec) (lexicon, kept)

namespace Database

/-- Carries a delta into an index; nothing can go wrong any more. -/
def applyDelta (db : Database) (index : ObjectId) (delta : Delta) : Database :=
  match db.indexes[index]? with
  | none => db
  | some ix =>
    match db.tables[ix.lexicon]? with
    | none => db
    | some lexicon =>
      let (lexicon, postings) := ix.change lexicon delta
      { db with
        tables := db.tables.insert ix.lexicon lexicon
        indexes := db.indexes.insert index { ix with postings } }

/-- The indexes that list a source, each with the section that the source feeds. -/
def fedBy (db : Database) (source : ObjectId) : List (ObjectId × Nat) :=
  db.indexes.toList.flatMap fun (id, ix) =>
    ((ix.sources.zipIdx 1).filter (·.1 = source)).map fun (_, sec) => (id, sec)

/-- Carries the change of one record's texts into the given indexes, in this order. -/
def feed (db : Database) (fed : List (ObjectId × Nat)) (record : RecordId)
    (old new : List String) : Database :=
  fed.foldl (fun db (index, sec) => db.applyDelta index ⟨record, sec, old, new⟩) db

end Database

end Concordance
