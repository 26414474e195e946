import InjectorTree.Text.Unprintable
import InjectorTree.Text.Extending
import InjectorTree.Text.Ignorable

/-!
# Quoted text

A text is quoted so that the end of the quotation, and every character in it, can be told apart:

* NUL, tab, line feed, carriage return, the quotation mark and the backslash are written as a backslash
  and one character;
* a character that extends the one before it, is drawn as nothing, or has no printed form, is written by its
  code point, `\u` with the hexadecimal digits in braces;
* any other character is written as it is, the apostrophe among them.
-/

namespace InjectorTree.Text

/-- A character written by its code point. -/
def codePointEscape (c : Char) : List Char :=
  ['\\', 'u', '\x7b'] ++ Nat.toDigits 16 c.toNat ++ ['\x7d']

/-- One character of a quotation. -/
def quotedChar (c : Char) : List Char :=
  if c = '\x00' then ['\\', '0']
  else if c = '\t' then ['\\', 't']
  else if c = '\n' then ['\\', 'n']
  else if c = '\r' then ['\\', 'r']
  else if c = '"' then ['\\', '"']
  else if c = '\\' then ['\\', '\\']
  else if isExtending c || isIgnorable c || isUnprintable c then codePointEscape c
  else [c]

/-- The characters of a text, as they stand between the quotation marks. -/
def quotedChars (cs : List Char) : List Char :=
  cs.flatMap quotedChar

/-- A text between quotation marks. -/
def quote (text : String) : String :=
  String.ofList ('"' :: quotedChars text.toList ++ ['"'])

@[simp] theorem quotedChars_cons (c : Char) (cs : List Char) :
    quotedChars (c :: cs) = quotedChar c ++ quotedChars cs := by
  simp [quotedChars]

end InjectorTree.Text
