/-
# ManagedCode.Text.Quoted — the quoted form of a text.

A quoted text stands between double quotes.  Inside, the quote and the backslash are escaped, as are
newline, carriage return, tab and NUL by their letters; every other character that would not be seen as
itself is written as its code in hexadecimal, without padding, between braces.
-/
import ManagedCode.Text.Ranges

namespace ManagedCode.Text

/-- A character that is seen as itself: it prints, and it does not merge into the one before. -/
def isPlain (c : Char) : Bool :=
  let code := c.toNat
  if code < 0x7F then 0x20 ≤ code
  else !(unprintable.holds code || graphemeExtending.holds code)

/-- The code of a character between braces. -/
def codeEscape (c : Char) : List Char :=
  ['\\', 'u', '{'] ++ Nat.toDigits 16 c.toNat ++ ['}']

/-- The quoted form of one character. -/
def quoteChar : Char → List Char
  | '"' => ['\\', '"']
  | '\\' => ['\\', '\\']
  | '\n' => ['\\', 'n']
  | '\r' => ['\\', 'r']
  | '\t' => ['\\', 't']
  | '\x00' => ['\\', '0']
  | c => if isPlain c then [c] else codeEscape c

/-- **`quote`** — the quoted form of a text. -/
def quote (text : String) : String :=
  String.ofList ('"' :: text.toList.flatMap quoteChar ++ ['"'])

/-- Texts in brackets, each quoted. -/
def quoteList (texts : List String) : String :=
  "[" ++ ", ".intercalate (texts.map quote) ++ "]"

/-- The text with blanks appended until it has at least `width` characters. -/
def padTo (width : Nat) (text : String) : String :=
  text ++ String.ofList (List.replicate (width - text.length) ' ')

end ManagedCode.Text
