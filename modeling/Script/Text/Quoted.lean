import Script.Text.Printable

/-!
# Quoted text

How a text is shown inside a message: between double quotes, on one line, with every character that
cannot be shown by itself written as an escape. A single quote stands as it is.
-/

namespace Script

/-- The escape that names a character by its code point, in lower-case hexadecimal. -/
def codePointEscape (c : Char) : List Char :=
  ['\\', 'u', '{'] ++ Nat.toDigits 16 c.toNat ++ ['}']

def quotedChar (c : Char) : List Char :=
  if c = '"' then ['\\', '"']
  else if c = '\\' then ['\\', '\\']
  else if c = '\n' then ['\\', 'n']
  else if c = '\r' then ['\\', 'r']
  else if c = '\t' then ['\\', 't']
  else if c = '\x00' then ['\\', '0']
  else if isCombining c || !isPrintable c then codePointEscape c
  else [c]

def quotedChars (cs : List Char) : List Char :=
  '"' :: cs.flatMap quotedChar ++ ['"']

def quote (s : String) : String :=
  String.ofList (quotedChars s.toList)

end Script
