import Concordance.Text.CodePoint
import Concordance.Text.Quoted.Ranges

/-! # Quoted text

A text between double quotes, fit for a message: quotes, backslashes and line controls are escaped,
and characters that would not show are written as their number.
-/
namespace Concordance.Text

namespace Quoted

/-- The code point in hexadecimal, as in `\u{200b}`. -/
def numbered (c : Char) : List Char :=
  ['\\', 'u', '\x7b'] ++ Nat.toDigits 16 c.toNat ++ ['\x7d']

def escape (c : Char) : List Char :=
  match c with
  | '\x00' => ['\\', '0']
  | '\t' => ['\\', 't']
  | '\r' => ['\\', 'r']
  | '\n' => ['\\', 'n']
  | '"' => ['\\', '"']
  | '\\' => ['\\', '\\']
  | c => if inRanges hiddenRanges c then numbered c else [c]

end Quoted

def quoted (text : String) : String :=
  String.ofList ('"' :: text.toList.flatMap Quoted.escape ++ ['"'])

end Concordance.Text
