import Concordance.Json
import Concordance.Json.Place

/-! # Reading JSON

A reader of JSON texts that says where a text goes wrong: by line, and by bytes since the line
began. Integers stay integers while they fit 64 bits; any other number is rounded as its digits are
combined, first to a significand of at most 64 bits and then by one power of ten.
-/
namespace Concordance.Json

/-- What is wrong with a text. -/
inductive Problem where
  | endInList | endInObject | endInString | endInValue
  | expectedColon | expectedListComma | expectedObjectComma
  | expectedLiteral | expectedValue
  | badEscape | badNumber | numberRange | loneSurrogate | endOfHexEscape
  | controlCharacter | keyNotString | trailingComma | trailingCharacters | tooDeep
  deriving DecidableEq, Repr

def Problem.message : Problem → String
  | endInList => "EOF while parsing a list"
  | endInObject => "EOF while parsing an object"
  | endInString => "EOF while parsing a string"
  | endInValue => "EOF while parsing a value"
  | expectedColon => "expected `:`"
  | expectedListComma => "expected `,` or `]`"
  | expectedObjectComma => "expected `,` or `\x7d`"
  | expectedLiteral => "expected ident"
  | expectedValue => "expected value"
  | badEscape => "invalid escape"
  | badNumber => "invalid number"
  | numberRange => "number out of range"
  | loneSurrogate => "lone leading surrogate in hex escape"
  | endOfHexEscape => "unexpected end of hex escape"
  | controlCharacter => "control character (\\u0000-\\u001F) found while parsing a string"
  | keyNotString => "key must be a string"
  | trailingComma => "trailing comma"
  | trailingCharacters => "trailing characters"
  | tooDeep => "recursion limit exceeded"

/-- A problem and where it was noticed. -/
structure Fault where
  problem : Problem
  place : Place
  deriving DecidableEq, Repr

def Fault.message (fault : Fault) : String := fault.problem.message ++ fault.place.text

/-- The text still to be read, and the place reached in it. -/
structure Cursor where
  rest : List Char
  place : Place

namespace Cursor

def start (text : String) : Cursor := ⟨text.toList, 1, 0⟩

def advance (cursor : Cursor) : Cursor :=
  match cursor.rest with
  | [] => cursor
  | '\n' :: rest => ⟨rest, cursor.place.line + 1, 0⟩
  | c :: rest => ⟨rest, cursor.place.line, cursor.place.column + c.utf8Size⟩

def byteSize : List Char → Nat
  | [] => 0
  | c :: rest => c.utf8Size + byteSize rest

/-- The place some bytes further on, which may be inside a character. -/
def ahead (line column : Nat) : (bytes : Nat) → List Char → Place
  | 0, _ | _, [] => ⟨line, column⟩
  | bytes, '\n' :: rest => ahead (line + 1) 0 (bytes - 1) rest
  | bytes, c :: rest =>
    if bytes ≤ c.utf8Size then ⟨line, column + bytes⟩
    else ahead line (column + c.utf8Size) (bytes - c.utf8Size) rest

def faultAfter (cursor : Cursor) (bytes : Nat) (problem : Problem) : Fault :=
  ⟨problem, ahead cursor.place.line cursor.place.column bytes cursor.rest⟩

/-- A fault at the place reached. -/
def fault (cursor : Cursor) (problem : Problem) : Fault := ⟨problem, cursor.place⟩

/-- A fault in the next byte. -/
def nextFault (cursor : Cursor) (problem : Problem) : Fault := cursor.faultAfter 1 problem

/-- A fault at the end of the text. -/
def endFault (cursor : Cursor) (problem : Problem) : Fault :=
  cursor.faultAfter (byteSize cursor.rest) problem

end Cursor

abbrev Reading (α : Type) := StateT Cursor (Except Fault) α

namespace Reading

def fail (problem : Problem) : Reading α := fun cursor => .error (cursor.fault problem)

def failNext (problem : Problem) : Reading α := fun cursor => .error (cursor.nextFault problem)

def peek : Reading (Option Char) := fun cursor => .ok (cursor.rest.head?, cursor)

def skip : Reading Unit := fun cursor => .ok ((), cursor.advance)

def isSpace (c : Char) : Bool := c = ' ' || c = '\n' || c = '\t' || c = '\r'

def skipSpaces : List Char → Cursor → Cursor
  | [], cursor => cursor
  | c :: rest, cursor => if isSpace c then skipSpaces rest cursor.advance else cursor

/-- The first character that is not white space. -/
def peekToken : Reading (Option Char) := fun cursor =>
  let cursor := skipSpaces cursor.rest cursor
  .ok (cursor.rest.head?, cursor)

/-- The rest of a literal whose first letter has been read. -/
def literal : List Char → Reading Unit
  | [] => pure ()
  | expected :: more => do
    match ← peek with
    | none => fail .endInValue
    | some c => if c = expected then do skip; literal more else failNext .expectedLiteral

def isDigit (c : Char) : Bool := '0' ≤ c && c ≤ '9'

def digitValue (c : Char) : Nat := c.toNat - '0'.toNat

/-- Reads digits while `push` takes them; it is asked with the value so far. -/
def digitsFrom (push : Nat → Nat → Option Nat) : List Char → Nat → Nat → Cursor →
    (Nat × Nat × Bool) × Cursor
  | [], value, count, cursor => ((value, count, true), cursor)
  | c :: rest, value, count, cursor =>
    if isDigit c then
      match push value (digitValue c) with
      | some value => digitsFrom push rest value (count + 1) cursor.advance
      | none => ((value, count, false), cursor)
    else ((value, count, true), cursor)

/-- Appends digits to a value no larger than `limit`. Answers the value, the number of digits, and
whether all of them could be taken. -/
def digits (limit value : Nat) : Reading (Nat × Nat × Bool) := fun cursor =>
  .ok (digitsFrom (fun v d => if v * 10 + d ≤ limit then some (v * 10 + d) else none)
    cursor.rest value 0 cursor)

/-- Reads past digits and counts them. -/
def skipDigits : Reading Nat := fun cursor =>
  let ((_, count, _), cursor) := digitsFrom (fun v _ => some v) cursor.rest 0 0 cursor
  .ok (count, cursor)

def maxSignificand : Nat := 0xFFFFFFFFFFFFFFFF

def maxExponent : Nat := 0x7FFFFFFF

def power (k : Nat) : Binary64 := (Binary64.ofRatio (Nat.pow 10 k) 1).getD .zero

/-- Divides by powers of ten too large for the format, 308 places at a time. -/
def divide (tries : Nat) (x : Binary64) (places : Nat) : Binary64 :=
  match tries with
  | 0 => x
  | tries + 1 =>
    if places ≤ 308 then (x.div (power places)).getD .zero
    else if x.isZero then x
    else divide tries ((x.div (power 308)).getD .zero) (places - 308)

def signed (negative : Bool) (x : Binary64) : Binary64 := { x with negative }

/-- The number `significand * 10 ^ exponent`. -/
def scaled (negative : Bool) (significand : Nat) (exponent : Int) : Reading Binary64 := do
  let x := (Binary64.ofRatio significand 1).getD .zero
  if exponent < 0 then
    return signed negative (divide 5 x (-exponent).toNat)
  else if exponent ≤ 308 then
    match x.mul (power exponent.toNat) with
    | some y => return signed negative y
    | none => fail .numberRange
  else if x.isZero then return signed negative x
  else fail .numberRange

/-- The exponent part, from its letter on. -/
def exponentPart (negative : Bool) (significand : Nat) (exponent : Int) : Reading Binary64 := do
  skip
  let down ← do
    match ← peek with
    | some '+' => skip; pure false
    | some '-' => skip; pure true
    | _ => pure false
  match ← peek with
  | none => fail .endInValue
  | some c =>
    if !isDigit c then failNext .badNumber
    else
      skip
      let (value, _, whole) ← digits maxExponent (digitValue c)
      if whole then
        scaled negative significand (if down then exponent - value else exponent + value)
      else
        skip
        if significand ≠ 0 ∧ !down then fail .numberRange
        else
          let _ ← skipDigits
          return signed negative .zero

def afterDigits (negative : Bool) (significand : Nat) (exponent : Int) : Reading Binary64 := do
  match ← peek with
  | some 'e' | some 'E' => exponentPart negative significand exponent
  | _ => scaled negative significand exponent

/-- The fraction, from its point on. Digits beyond the significand's room are dropped. -/
def fraction (negative : Bool) (significand : Nat) (exponent : Int) : Reading Binary64 := do
  skip
  let (value, count, whole) ← digits maxSignificand significand
  if whole then
    if count = 0 then
      match ← peek with
      | some _ => failNext .badNumber
      | none => failNext .endInValue
    else afterDigits negative value (exponent - count)
  else
    let _ ← skipDigits
    afterDigits negative value (exponent - count)

/-- An integer too long for the significand: each further digit is a power of ten. -/
def longInteger (negative : Bool) (significand : Nat) : Reading Binary64 := do
  let count ← skipDigits
  match ← peek with
  | some '.' => fraction negative significand count
  | _ => afterDigits negative significand count

def numberTail (negative : Bool) (significand : Nat) : Reading Json := do
  match ← peek with
  | some '.' => return float (← fraction negative significand 0)
  | some 'e' | some 'E' => return float (← exponentPart negative significand 0)
  | _ =>
    if !negative then return integer significand
    else if significand = 0 ∨ 0x8000000000000000 < significand then
      return float (signed true ((Binary64.ofRatio significand 1).getD .zero))
    else return integer (-significand)

/-- A number, from its first digit on. -/
def number (negative : Bool) : Reading Json := do
  match ← peek with
  | none => fail .endInValue
  | some c =>
    if c = '0' then
      skip
      match ← peek with
      | some d => if isDigit d then failNext .badNumber else numberTail negative 0
      | none => numberTail negative 0
    else if isDigit c then
      skip
      let (value, _, whole) ← digits maxSignificand (digitValue c)
      if whole then numberTail negative value
      else return float (← longInteger negative value)
    else failNext .badNumber

def hexValue (c : Char) : Option Nat :=
  if isDigit c then some (digitValue c)
  else if 'a' ≤ c && c ≤ 'f' then some (c.toNat - 'a'.toNat + 10)
  else if 'A' ≤ c && c ≤ 'F' then some (c.toNat - 'A'.toNat + 10)
  else none

/-- Four hexadecimal digits. -/
def hexEscape : Reading Nat := fun cursor =>
  let four := cursor.rest.take 4
  if Cursor.byteSize four < 4 then .error (cursor.endFault .endInString)
  else
    match four.mapM hexValue with
    | some [a, b, c, d] =>
      .ok (((a * 16 + b) * 16 + c) * 16 + d, cursor.advance.advance.advance.advance)
    | _ => .error (cursor.faultAfter 4 .badEscape)

/-- Reads past a character that must come next in an escape. -/
def expectInEscape (expected : Char) : Reading Unit := do
  match ← peek with
  | none => fail .endInString
  | some c => if c = expected then skip else failNext .endOfHexEscape

/-- An escape by number; a character beyond U+FFFF is written as two of them. -/
def unicodeEscape : Reading Char := do
  let high ← hexEscape
  if 0xDC00 ≤ high ∧ high ≤ 0xDFFF then fail .loneSurrogate
  else if high < 0xD800 ∨ 0xDBFF < high then return Char.ofNat high
  else
    expectInEscape '\\'
    expectInEscape 'u'
    let low ← hexEscape
    if low < 0xDC00 ∨ 0xDFFF < low then fail .loneSurrogate
    else return Char.ofNat (0x10000 + (high - 0xD800) * 0x400 + (low - 0xDC00))

/-- An escape, after its backslash. -/
def escapeTail : Reading Char := do
  match ← peek with
  | none => fail .endInString
  | some '"' => skip; return '"'
  | some '\\' => skip; return '\\'
  | some '/' => skip; return '/'
  | some 'b' => skip; return '\x08'
  | some 'f' => skip; return '\x0c'
  | some 'n' => skip; return '\n'
  | some 'r' => skip; return '\r'
  | some 't' => skip; return '\t'
  | some 'u' => skip; unicodeEscape
  | some _ => failNext .badEscape

/-- The characters of a string up to its closing quote, last one first in `read`. -/
def stringTail (fuel : Nat) (read : List Char) : Reading String := do
  match fuel with
  | 0 => fail .endInString
  | fuel + 1 =>
    match ← peek with
    | none => fail .endInString
    | some c =>
      if c = '"' then do skip; return String.ofList read.reverse
      else if c = '\\' then do
        skip
        let c ← escapeTail
        stringTail fuel (c :: read)
      else if c.toNat < 0x20 then failNext .controlCharacter
      else do
        skip
        stringTail fuel (c :: read)

/-- A string, after its opening quote. -/
def string (fuel : Nat) : Reading String := stringTail fuel []

mutual

/-- A value, inside at most `depth - 1` further lists and objects. -/
def value (fuel depth : Nat) : Reading Json := do
  match fuel with
  | 0 => fail .endInValue
  | fuel + 1 =>
    match ← peekToken with
    | none => failNext .endInValue
    | some c =>
      if c = 'n' then do skip; literal ['u', 'l', 'l']; return null
      else if c = 't' then do skip; literal ['r', 'u', 'e']; return bool true
      else if c = 'f' then do skip; literal ['a', 'l', 's', 'e']; return bool false
      else if c = '-' then do skip; number true
      else if isDigit c then number false
      else if c = '"' then do skip; return text (← string fuel)
      else if c = '[' then
        if depth ≤ 1 then failNext .tooDeep
        else do
          skip
          return array (← items fuel (depth - 1) true)
      else if c = '\x7b' then
        if depth ≤ 1 then failNext .tooDeep
        else do
          skip
          return ofFields (← fields fuel (depth - 1) true)
      else failNext .expectedValue

/-- The items of a list up to its end. -/
def items (fuel depth : Nat) (first : Bool) : Reading (List Json) := do
  match fuel with
  | 0 => fail .endInList
  | fuel + 1 =>
    match ← peekToken with
    | none => failNext .endInList
    | some c =>
      if c = ']' then do skip; return []
      else if first then do
        let item ← value fuel depth
        return item :: (← items fuel depth false)
      else if c = ',' then do
        skip
        match ← peekToken with
        | none => failNext .endInValue
        | some c =>
          if c = ']' then failNext .trailingComma
          else do
            let item ← value fuel depth
            return item :: (← items fuel depth false)
      else failNext .expectedListComma

/-- The fields of an object up to its end. -/
def fields (fuel depth : Nat) (first : Bool) : Reading (List (String × Json)) := do
  match fuel with
  | 0 => fail .endInObject
  | fuel + 1 =>
    match ← peekToken with
    | none => failNext .endInObject
    | some c =>
      if c = '\x7d' then do skip; return []
      else if first then
        if c = '"' then field fuel depth else failNext .keyNotString
      else if c = ',' then do
        skip
        match ← peekToken with
        | none => failNext .endInValue
        | some c =>
          if c = '"' then field fuel depth
          else if c = '\x7d' then failNext .trailingComma
          else failNext .keyNotString
      else failNext .expectedObjectComma

/-- One field, from the quote of its key on, and the fields after it. -/
def field (fuel depth : Nat) : Reading (List (String × Json)) := do
  match fuel with
  | 0 => fail .endInObject
  | fuel + 1 =>
    skip
    let key ← string fuel
    match ← peekToken with
    | none => failNext .endInObject
    | some c =>
      if c = ':' then do
        skip
        let v ← value fuel depth
        return (key, v) :: (← fields fuel depth false)
      else failNext .expectedColon

end

/-- A text that is one value and nothing more. -/
def document (fuel : Nat) : Reading Json := do
  let v ← value fuel 128
  match ← peekToken with
  | none => return v
  | some _ => failNext .trailingCharacters

end Reading

/-- The value that a text spells. Of two steps of the reader in a row at least one takes a
character, so that half of the fuel is always left for the characters of a string. -/
def read (source : String) : Except Fault Json :=
  (Reading.document (4 * source.length + 4) (Cursor.start source)).map (·.1)

end Concordance.Json
