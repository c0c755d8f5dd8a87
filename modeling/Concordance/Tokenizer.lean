import Concordance.Error
import Concordance.Text.Blank
import Concordance.Text.Cluster
import Concordance.Text.Lowercase

/-! # Tokenizers

How a text falls into terms. The same tokenizer runs when a value is added and when a query is
looked up, and gives the same positions, so that a phrase is a matter of comparing positions. No
token is longer than `maxTermLength`.
-/
namespace Concordance

/-- `whole` takes a text as one term, `delimit` its words, `bigram` its pairs of neighbouring
clusters. -/
inductive Tokenizer where
  | whole | delimit | bigram
  deriving DecidableEq, Repr

inductive TokenMode where
  | add | get
  deriving DecidableEq, Repr

structure Token where
  text : String
  position : Nat
  /-- A query token shorter than the tokenizer's unit, which stands for every key it begins. -/
  short : Bool
  deriving DecidableEq, Repr

namespace Tokenizer

def name : Tokenizer → String
  | whole => "None"
  | delimit => "Delimit"
  | bigram => "Bigram"

def all : List Tokenizer := [whole, delimit, bigram]

/-- Reads a tokenizer's name in any case; the empty name is that of `whole`. -/
def parse (name : String) : Except Error Tokenizer :=
  match Text.lowercase name with
  | "none" | "" => .ok whole
  | "delimit" | "tokendelimit" => .ok delimit
  | "bigram" | "tokenbigram" => .ok bigram
  | other => .error (.argument "tokenizer" s!"unknown tokenizer: {other}")

/-- Terms of more bytes than this are left out. -/
def maxTermLength : Nat := 4095

def wholeTokens (text : String) : List Token :=
  if text.isEmpty then [] else [⟨text, 0, false⟩]

def wordTokens (text : List Char) : List Token :=
  (Text.words text).zipIdx.map fun (word, i) => ⟨String.ofList word, i, false⟩

/-- A cluster of blanks separates runs of clusters. -/
def isGap (cluster : List Char) : Bool := cluster.all Text.isBlank

section Bigrams
variable (text : String) (clusters : Array (Nat × List Char)) (mode : TokenMode)

/-- The byte at which a cluster begins; past the last cluster that is the end of the text. -/
def byteAt (i : Nat) : Nat := (clusters[i]?.map (·.1)).getD text.utf8ByteSize

/-- The text from one byte up to another. -/
def slice (start stop : Nat) : String := String.Pos.Raw.extract text ⟨start⟩ ⟨stop⟩

/-- The tokens of the run of clusters from `start` up to `stop`. A run of one cluster is that
cluster, which is short in a query. In a longer run each cluster takes in the next one; the last
cluster stands alone, and a query stops before it. -/
def runTokens (start stop : Nat) : List Token :=
  if stop - start = 1 then
    clusters[start]?.toList.map fun (offset, cluster) =>
      ⟨slice text offset (offset + (String.ofList cluster).utf8ByteSize), start, mode = .get⟩
  else
    ((List.range' start (stop - start)).takeWhile fun i => !(i + 1 = stop && mode = .get)).map
      fun i => ⟨slice text (byteAt text clusters i)
        (byteAt text clusters (if i + 1 = stop then stop else i + 2)), i, false⟩

/-- A scan over clusters: where the run begins that it is in, and the tokens of the runs before. -/
structure Scan where
  runStart : Option Nat
  tokens : Array Token

/-- One place further. A gap ends a run, and so does the place past the last cluster. -/
def Scan.step (s : Scan) (i : Nat) : Scan :=
  let isSpace := clusters[i]?.all fun (_, cluster) => isGap cluster
  match s.runStart, isSpace with
  | none, false => { s with runStart := some i }
  | some start, true => ⟨none, s.tokens ++ runTokens text clusters mode start i⟩
  | _, _ => s

/-- The tokens of all runs of a text. Positions count clusters, gaps included. -/
def bigrams : List Token :=
  let clusters := (Text.clusterIndices 0 (Text.clusters text.toList)).toArray
  ((List.range (clusters.size + 1)).foldl (Scan.step text clusters mode) ⟨none, #[]⟩).tokens.toList

end Bigrams

def allTokens (tokenizer : Tokenizer) (mode : TokenMode) (text : String) : List Token :=
  match tokenizer with
  | whole => wholeTokens text
  | delimit => wordTokens text.toList
  | bigram => bigrams text mode

/-- The tokens of a text, in order. A term too long is left out and keeps its position. -/
def tokens (tokenizer : Tokenizer) (mode : TokenMode) (text : String) : List Token :=
  (allTokens tokenizer mode text).filter (·.text.utf8ByteSize ≤ maxTermLength)

theorem utf8ByteSize_le_of_mem_tokens {tokenizer : Tokenizer} {mode : TokenMode} {text : String}
    {t : Token} (h : t ∈ tokenizer.tokens mode text) : t.text.utf8ByteSize ≤ maxTermLength := by
  simpa using (List.mem_filter.1 h).2

end Tokenizer

end Concordance
