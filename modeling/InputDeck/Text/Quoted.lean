import InputDeck.Text.ExtendingMark
import InputDeck.Text.Printable

/-!
# Quoted texts in messages

A message shows a text of the deck between double quotes. Quotes and backslashes are escaped, the
common controls have short escapes, and every other character that would not be seen as itself is
given by its code point in hexadecimal digits between braces.
-/

namespace InputDeck.Text

/-- The code point of a character, in lower-case hexadecimal digits between braces. -/
def codePointEscape (c : Char) : List Char :=
  ['\\', 'u', '\x7b'] ++ Nat.toDigits 16 c.toNat ++ ['\x7d']

/-- The form of one character between the quotes of a message. -/
def quotedChar (c : Char) : List Char :=
  match c with
  | '\x00' => ['\\', '0']
  | '\t' => ['\\', 't']
  | '\r' => ['\\', 'r']
  | '\n' => ['\\', 'n']
  | '"' => ['\\', '"']
  | '\\' => ['\\', '\\']
  | c => if isExtendingMark c || !isPrintable c then codePointEscape c else [c]

/-- A text between quotes, as messages show it. -/
def quoted (text : String) : String :=
  String.ofList ('"' :: text.toList.flatMap quotedChar ++ ['"'])

example : quoted "a\"b" = "\"a\\\"b\"" := by decide +kernel

example : quoted "\u200b\u0301" = "\"\\u\x7b200b\x7d\\u\x7b301\x7d\"" := by decide +kernel

end InputDeck.Text
