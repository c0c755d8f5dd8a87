import Concordance.Text.CodePoint
import Concordance.Text.Cluster.Ranges

/-! # Grapheme clusters

A text falls into clusters, the pieces that a reader takes for one character. `clusters` applies the
extended cluster rules from left to right; the state it carries is all that a rule may look back at.
The pieces are never empty and concatenate to the text.
-/
namespace Concordance.Text

namespace Cluster

/-- What a character does to the boundaries beside it. -/
inductive Class where
  | carriageReturn | lineFeed | control | extend | joiner | regional | prepended | spacingMark
  | leadingJamo | vowelJamo | trailingJamo | openSyllable | closedSyllable | pictographic | other
  deriving DecidableEq, Repr

/-- A Hangul syllable is closed by a trailing consonant unless its number is a multiple of 28. -/
def syllableClass (c : Char) : Class :=
  if (c.toNat - 0xAC00) % 28 = 0 then .openSyllable else .closedSyllable

def classify (c : Char) : Class :=
  if 0x20 ≤ c.toNat ∧ c.toNat < 0x7F then .other
  else if c = '\r' then .carriageReturn
  else if c = '\n' then .lineFeed
  else if c.toNat = 0x200D then .joiner
  else if 0xAC00 ≤ c.toNat ∧ c.toNat ≤ 0xD7A3 then syllableClass c
  else if 0x1F1E6 ≤ c.toNat ∧ c.toNat ≤ 0x1F1FF then .regional
  else if inRanges controlRanges c then .control
  else if inRanges extendRanges c then .extend
  else if inRanges spacingMarkRanges c then .spacingMark
  else if inRanges prependRanges c then .prepended
  else if inRanges leadingJamoRanges c then .leadingJamo
  else if inRanges vowelJamoRanges c then .vowelJamo
  else if inRanges trailingJamoRanges c then .trailingJamo
  else if inRanges pictographicRanges c then .pictographic
  else .other

def isConsonant (c : Char) : Bool := inRanges consonantRanges c

def isLinker (c : Char) : Bool := inRanges linkerRanges c

/-- How far a sequence that may bind the next character has come. -/
inductive Progress where
  | idle | started | linked
  deriving DecidableEq, Repr

/-- What the rules need to know of the text before a boundary. -/
structure State where
  /-- Class of the last character. -/
  last : Option Class
  /-- A pictograph and its marks, then a joiner. -/
  pictograph : Progress
  /-- A consonant and its marks, with a linker among them. -/
  conjunct : Progress
  /-- The text ends in an odd number of regional indicators. -/
  oddRegional : Bool
  deriving DecidableEq, Repr

def State.start : State := ⟨none, .idle, .idle, false⟩

def nextPictograph : Progress → Class → Progress
  | _, .pictographic => .started
  | .started, .extend => .started
  | .started, .joiner => .linked
  | _, _ => .idle

/-- The non-joiner U+200C is the one mark that ends a conjunct. -/
def nextConjunct (progress : Progress) (c : Char) (cls : Class) : Progress :=
  if isConsonant c then .started
  else if isLinker c then if progress = .idle then .idle else .linked
  else if (cls = .extend ∧ c.toNat ≠ 0x200C) ∨ cls = .joiner then progress
  else .idle

def State.next (s : State) (c : Char) : State :=
  let cls := classify c
  { last := some cls
    pictograph := nextPictograph s.pictograph cls
    conjunct := nextConjunct s.conjunct c cls
    oddRegional := cls = .regional && !s.oddRegional }

def isControl : Class → Bool
  | .carriageReturn | .lineFeed | .control => true
  | _ => false

def syllableJoins : Class → Class → Bool
  | .leadingJamo, .leadingJamo | .leadingJamo, .vowelJamo
  | .leadingJamo, .openSyllable | .leadingJamo, .closedSyllable => true
  | .openSyllable, .vowelJamo | .openSyllable, .trailingJamo => true
  | .vowelJamo, .vowelJamo | .vowelJamo, .trailingJamo => true
  | .closedSyllable, .trailingJamo | .trailingJamo, .trailingJamo => true
  | _, _ => false

/-- There is no boundary between the text before and the character. -/
def State.joins (s : State) (c : Char) : Bool :=
  match s.last with
  | none => false
  | some before =>
    let cls := classify c
    if before = .carriageReturn ∧ cls = .lineFeed then true
    else if isControl before || isControl cls then false
    else syllableJoins before cls
      || cls = .extend || cls = .joiner || cls = .spacingMark || before = .prepended
      || (s.conjunct = .linked && isConsonant c)
      || (s.pictograph = .linked && cls = .pictographic)
      || (s.oddRegional && cls = .regional)

/-- The rest of the cluster that is open in `s`, and the clusters after it. -/
def pieces : State → List Char → List Char × List (List Char)
  | _, [] => ([], [])
  | s, c :: rest =>
    let (tail, later) := pieces (s.next c) rest
    if s.joins c then (c :: tail, later) else ([], (c :: tail) :: later)

theorem pieces_flatten (s : State) (text : List Char) :
    (pieces s text).1 ++ (pieces s text).2.flatten = text := by
  induction text generalizing s with
  | nil => rfl
  | cons c rest ih =>
    have := ih (s.next c)
    by_cases h : s.joins c <;> simp_all [pieces]

theorem ne_nil_of_mem_pieces {s : State} {text piece : List Char}
    (h : piece ∈ (pieces s text).2) : piece ≠ [] := by
  induction text generalizing s with
  | nil => simp [pieces] at h
  | cons c rest ih =>
    simp only [pieces] at h
    split at h
    · exact ih h
    · rcases List.mem_cons.1 h with rfl | h
      · simp
      · exact ih h

end Cluster

def clusters (text : List Char) : List (List Char) := (Cluster.pieces .start text).2

/-- Clusters that follow one another from a byte on, each with the byte at which it begins. -/
def clusterIndices (offset : Nat) : List (List Char) → List (Nat × List Char)
  | [] => []
  | cluster :: rest =>
    (offset, cluster) :: clusterIndices (offset + (String.ofList cluster).utf8ByteSize) rest

theorem clusters_flatten (text : List Char) : (clusters text).flatten = text := by
  have h := Cluster.pieces_flatten .start text
  cases text with
  | nil => rfl
  | cons c rest =>
    have : (Cluster.pieces .start (c :: rest)).1 = [] := by
      simp [Cluster.pieces, Cluster.State.joins, Cluster.State.start]
    simpa [clusters, this] using h

theorem ne_nil_of_mem_clusters {text piece : List Char} (h : piece ∈ clusters text) :
    piece ≠ [] := Cluster.ne_nil_of_mem_pieces h

end Concordance.Text
