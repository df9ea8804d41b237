/-
A text in double quotes, so that every character of it can be read off the page.

Six characters have a short escape: the quote, the backslash, tab, line feed,
carriage return and the zero character. Unseen characters are written by number, in
hexadecimal between braces. All others, letters of any script among them, stand for
themselves; so does the apostrophe.
-/
import TwinTable.Text.Unseen

set_option autoImplicit false

namespace TwinTable.Text.Quoted

/-- The escape by number. -/
def byNumber (c : Char) : List Char :=
  ['\\', 'u', '\x7b'] ++ Nat.toDigits 16 c.toNat ++ ['\x7d']

/-- How one character is written between quotes. -/
def encodeChar (c : Char) : List Char :=
  if c = '"' then ['\\', '"']
  else if c = '\\' then ['\\', '\\']
  else if c = '\t' then ['\\', 't']
  else if c = '\n' then ['\\', 'n']
  else if c = '\r' then ['\\', 'r']
  else if c = '\x00' then ['\\', '0']
  else if isUnseen c then byNumber c
  else [c]

/-- The text in quotes. -/
def encode (s : String) : String :=
  String.ofList ('"' :: s.toList.flatMap encodeChar ++ ['"'])

end TwinTable.Text.Quoted
