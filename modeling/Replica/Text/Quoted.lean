import Replica.Text.Shown

/-!
# Text as it is quoted in messages

A quoted text stands between double quotes. Quotes, backslashes and the usual controls have a short
escape; every other character that is not shown as itself is spelled by its code point, in lowercase
hexadecimal without leading zeros.
-/
namespace Replica.Text

/-- The spelling of a character by its code point. -/
def spellCode (c : Char) : List Char :=
  ['\\', 'u', '\x7b'] ++ Nat.toDigits 16 c.toNat ++ ['\x7d']

/-- The spelling of one character inside a quoted text. -/
def quoteChar (c : Char) : List Char :=
  match c with
  | '\x00' => ['\\', '0']
  | '\t' => ['\\', 't']
  | '\r' => ['\\', 'r']
  | '\n' => ['\\', 'n']
  | '"' => ['\\', '"']
  | '\\' => ['\\', '\\']
  | _ => if isShown c then [c] else spellCode c

/-- The text between double quotes, with every hidden character spelled out. -/
def quote (s : String) : String :=
  String.ofList ('"' :: s.toList.flatMap quoteChar ++ ['"'])

end Replica.Text
