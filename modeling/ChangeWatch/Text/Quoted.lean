import ChangeWatch.Text.Hidden

/-!
Quoted text. A quote, a backslash and the common controls are written with a backslash and a letter,
hidden characters by their number in braces, and everything else as it is.
-/
namespace ChangeWatch.Text

/-- The lower-case hexadecimal digits of a number. -/
def hex (n : Nat) : List Char := Nat.toDigits 16 n

/-- One character inside quotes. -/
def quoteChar (c : Char) : List Char :=
  if c = '\x00' then ['\\', '0']
  else if c = '\t' then ['\\', 't']
  else if c = '\r' then ['\\', 'r']
  else if c = '\n' then ['\\', 'n']
  else if c = '\\' then ['\\', '\\']
  else if c = '"' then ['\\', '"']
  else if isHidden c then ['\\', 'u', '\x7b'] ++ hex c.toNat ++ ['\x7d']
  else [c]

def quoteChars (cs : List Char) : List Char := '"' :: (cs.flatMap quoteChar ++ ['"'])

/-- The text between double quotes. -/
def quote (s : String) : String := String.ofList (quoteChars s.toList)

end ChangeWatch.Text
