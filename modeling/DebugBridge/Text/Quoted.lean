import DebugBridge.Text.Blank
import DebugBridge.Text.Unprintable

/-!
# Quoted text

A text between double quotes in which every character can be told from its neighbours: the quote,
the backslash and the usual controls are written with a backslash and a letter, and what shows no
shape of its own is written by its code point in lower-case hexadecimal digits.

## Main definitions

* `escapeChar`: how one character is written inside the quotes;
* `quoted`: a text between quotes;
* `quotedList`: a list of quoted texts between brackets.
-/

namespace DebugBridge.Text

/-- Whether a character is written by its code point. -/
def isUnprintable (c : Char) : Bool :=
  inRanges unprintableRanges c.toNat

/-- A character by its code point. -/
def codePoint (c : Char) : List Char :=
  ['\\', 'u', '\x7b'] ++ Nat.toDigits 16 c.toNat ++ ['\x7d']

/-- How one character is written inside the quotes. -/
def escapeChar (c : Char) : List Char :=
  if c = '\t' then ['\\', 't']
  else if c = '\r' then ['\\', 'r']
  else if c = '\n' then ['\\', 'n']
  else if c = '\x00' then ['\\', '0']
  else if c = '"' then ['\\', '"']
  else if c = '\\' then ['\\', '\\']
  else if isUnprintable c then codePoint c
  else [c]

/-- A text between double quotes. -/
def quoted (s : String) : String :=
  "\"" ++ String.ofList (s.toList.flatMap escapeChar) ++ "\""

/-- A list of quoted texts between brackets. -/
def quotedList (texts : List String) : String :=
  "[" ++ ", ".intercalate (texts.map quoted) ++ "]"

end DebugBridge.Text
