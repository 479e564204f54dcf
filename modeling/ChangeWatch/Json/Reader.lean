import ChangeWatch.Json.Draft

/-!
Reads the text of a JSON document. Every step takes at least one character or goes one level further
into the grammar, so twice the length of the text bounds the number of steps.
-/
namespace ChangeWatch.Json

namespace Draft

def isBlank (c : Char) : Bool := c == ' ' || c == '\n' || c == '\t' || c == '\r'

def skipBlank (s : List Char) : List Char := s.dropWhile isBlank

def hexValue? (c : Char) : Option Nat :=
  if '0' ≤ c ∧ c ≤ '9' then some (c.toNat - '0'.toNat)
  else if 'a' ≤ c ∧ c ≤ 'f' then some (c.toNat - 'a'.toNat + 10)
  else if 'A' ≤ c ∧ c ≤ 'F' then some (c.toNat - 'A'.toNat + 10)
  else none

/-- Four hexadecimal digits. -/
def unit? : List Char → Option (Nat × List Char)
  | a :: b :: c :: d :: rest => do
    let a ← hexValue? a
    let b ← hexValue? b
    let c ← hexValue? c
    let d ← hexValue? d
    return (((a * 16 + b) * 16 + c) * 16 + d, rest)
  | _ => none

/-- The character after a backslash, for the escapes of one letter. -/
def escaped? (c : Char) : Option Char :=
  if c = '"' ∨ c = '\\' ∨ c = '/' then some c
  else if c = 'b' then some '\x08'
  else if c = 'f' then some '\x0c'
  else if c = 'n' then some '\n'
  else if c = 'r' then some '\r'
  else if c = 't' then some '\t'
  else none

def isHigh (unit : Nat) : Bool := decide (0xd800 ≤ unit) && decide (unit < 0xdc00)

def isLow (unit : Nat) : Bool := decide (0xdc00 ≤ unit) && decide (unit < 0xe000)

/-- Reads up to the closing quote. The characters read so far stand in reverse; they are lost once
half of a surrogate pair has been met. -/
def text : Nat → Option (List Char) → List Char → Option (Option String × List Char)
  | 0, _, _ => none
  | _ + 1, _, [] => none
  | _ + 1, read, '"' :: rest => some (read.map fun cs => String.ofList cs.reverse, rest)
  | steps + 1, read, '\\' :: 'u' :: rest => do
    let (unit, rest) ← unit? rest
    if isLow unit then text steps none rest
    else if isHigh unit then
      match rest with
      | '\\' :: 'u' :: tail =>
        let (low, after) ← unit? tail
        if isLow low then
          let c := Char.ofNat (0x10000 + (unit - 0xd800) * 0x400 + (low - 0xdc00))
          text steps (read.map (c :: ·)) after
        else text steps none rest
      | _ => text steps none rest
    else text steps (read.map (Char.ofNat unit :: ·)) rest
  | steps + 1, read, '\\' :: c :: rest => do
    let c ← escaped? c
    text steps (read.map (c :: ·)) rest
  | steps + 1, read, c :: rest =>
    if c = '\\' ∨ c.toNat < 0x20 then none else text steps (read.map (c :: ·)) rest

/-- A run of digits that must not be empty. -/
def digits? (s : List Char) : Option (List Char × List Char) :=
  let run := s.takeWhile Char.isDigit
  if run.isEmpty then none else some (run, s.dropWhile Char.isDigit)

def fraction? : List Char → Option (Option (List Char) × List Char)
  | '.' :: rest => (digits? rest).map fun (run, rest) => (some run, rest)
  | rest => some (none, rest)

/-- An exponent with its sign. -/
def exponent? : List Char → Option (Option Int × List Char)
  | c :: rest =>
    if c = 'e' ∨ c = 'E' then
      match rest with
      | '-' :: rest => (digits? rest).map fun (run, rest) => (some (-(digitsValue run : Int)), rest)
      | '+' :: rest => (digits? rest).map fun (run, rest) => (some (digitsValue run : Int), rest)
      | rest => (digits? rest).map fun (run, rest) => (some (digitsValue run : Int), rest)
    else some (none, c :: rest)
  | [] => some (none, [])

/-- A numeral; a leading zero stands alone. -/
def numeral? (s : List Char) : Option (Numeral × List Char) := do
  let (negative, s) := match s with
    | '-' :: rest => (true, rest)
    | rest => (false, rest)
  let (whole, s) ← digits? s
  if whole.length ≠ 1 ∧ whole.head? = some '0' then none
  else
    let (fraction, s) ← fraction? s
    let (exponent, s) ← exponent? s
    return ({ negative, whole, fraction, exponent }, s)

mutual
/-- A value and what follows it. -/
def value : Nat → List Char → Option (Draft × List Char)
  | 0, _ => none
  | steps + 1, s =>
    match skipBlank s with
    | 'n' :: 'u' :: 'l' :: 'l' :: rest => some (.null, rest)
    | 't' :: 'r' :: 'u' :: 'e' :: rest => some (.bool true, rest)
    | 'f' :: 'a' :: 'l' :: 's' :: 'e' :: rest => some (.bool false, rest)
    | '"' :: rest => (text (rest.length + 1) (some []) rest).map fun (s, rest) => (.string s, rest)
    | '[' :: rest =>
      match skipBlank rest with
      | ']' :: rest => some (.array [], rest)
      | rest => (items steps rest).map fun (items, rest) => (.array items, rest)
    | '\x7b' :: rest =>
      match skipBlank rest with
      | '\x7d' :: rest => some (.object [], rest)
      | rest => (fields steps rest).map fun (fields, rest) => (.object fields, rest)
    | rest => (numeral? rest).map fun (n, rest) => (.number n, rest)

/-- The items of an array, up to and with its closing bracket. -/
def items : Nat → List Char → Option (List Draft × List Char)
  | 0, _ => none
  | steps + 1, s => do
    let (first, s) ← value steps s
    match skipBlank s with
    | ',' :: rest => (items steps rest).map fun (others, rest) => (first :: others, rest)
    | ']' :: rest => some ([first], rest)
    | _ => none

/-- The fields of an object, up to and with its closing brace. -/
def fields : Nat → List Char → Option (List (Option String × Draft) × List Char)
  | 0, _ => none
  | steps + 1, s =>
    match skipBlank s with
    | '"' :: rest => do
      let (name, s) ← text (rest.length + 1) (some []) rest
      match skipBlank s with
      | ':' :: rest =>
        let (first, s) ← value steps rest
        match skipBlank s with
        | ',' :: rest => (fields steps rest).map fun (others, rest) => ((name, first) :: others, rest)
        | '\x7d' :: rest => some ([(name, first)], rest)
        | _ => none
      | _ => none
    | _ => none
end

/-- The one value that makes up a text, with blanks around it. -/
def ofText? (s : String) : Option Draft :=
  let s := s.toList
  match value (2 * s.length + 2) s with
  | some (draft, rest) => if (skipBlank rest).isEmpty then some draft else none
  | none => none

end Draft

/-- The document that a text denotes. -/
def ofText? (s : String) : Option Json := (Draft.ofText? s).bind (Draft.toJson? Draft.nesting)

end ChangeWatch.Json
