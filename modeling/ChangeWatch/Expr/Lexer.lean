import ChangeWatch.Expr.Error
import ChangeWatch.Expr.Printer
import ChangeWatch.Number.Numeral

/-!
Cuts the text of an expression into tokens. At every position the longest token is taken: a word as
far as its letters go, a number with a fraction and an exponent where they are complete, a string up
to its closing quote. Blanks between tokens are dropped.
-/
namespace ChangeWatch

namespace Lexer

def isBlank (c : Char) : Bool := c == ' ' || c == '\t' || c == '\r' || c == '\n'

def byteSize : List Char → Nat
  | [] => 0
  | c :: cs => c.utf8Size + byteSize cs

/-- The letters of a string literal behind its opening quote, and what follows the closing quote if
there is one. A backslash takes the next character with it, unless that ends the line. -/
def literalBody (quote : Char) : List Char → List Char × Option (List Char)
  | [] => ([], none)
  | '\\' :: d :: rest =>
    if d = '\n' then ([], none)
    else
      let (body, after) := literalBody quote rest
      ('\\' :: d :: body, after)
  | c :: rest =>
    if c = quote then ([], some rest)
    else if c = '\\' then ([], none)
    else
      let (body, after) := literalBody quote rest
      (c :: body, after)

def hexDigit? (c : Char) : Option Nat :=
  if '0' ≤ c ∧ c ≤ '9' then some (c.toNat - '0'.toNat)
  else if 'a' ≤ c ∧ c ≤ 'f' then some (c.toNat - 'a'.toNat + 10)
  else if 'A' ≤ c ∧ c ≤ 'F' then some (c.toNat - 'A'.toNat + 10)
  else none

/-- A hexadecimal number; a plus sign may stand in front. -/
def hexNumber? : List Char → Option Nat
  | '+' :: c :: digits => digitsOf (c :: digits)
  | digits => digitsOf digits
where
  digitsOf (digits : List Char) : Option Nat :=
    digits.foldlM (fun n c => (hexDigit? c).map (16 * n + ·)) 0

/-- The character with a number, if there is one. -/
def scalar? (n : Nat) : Option Char := if n.isValidChar then some (Char.ofNat n) else none

/-- The character that an escape of one letter stands for. -/
def escaped (c : Char) : Char :=
  if c = 'n' then '\n'
  else if c = 't' then '\t'
  else if c = 'r' then '\r'
  else if c = 'b' then '\x08'
  else if c = 'f' then '\x0c'
  else if c = 'v' then '\x0b'
  else if c = '0' then '\x00'
  else c

/-- Resolves the escapes of a string literal. -/
def unescape : List Char → Option (List Char)
  | [] => some []
  | '\\' :: 'u' :: a :: b :: c :: d :: rest => do
    let n ← hexNumber? [a, b, c, d]
    let code ← scalar? n
    let others ← unescape rest
    return code :: others
  | '\\' :: c :: rest => if c = 'u' then none else (unescape rest).map (escaped c :: ·)
  | c :: rest => if c = '\\' then none else (unescape rest).map (c :: ·)

/-- The meaning of a word. -/
def word (s : String) : Token :=
  if s = "true" then .keyword .true
  else if s = "false" then .keyword .false
  else if s = "null" then .keyword .null
  else if s = "undefined" then .keyword .undefined
  else .ident s

/-- An exponent, if it is complete: its text, its value and the rest. -/
def exponent? : List Char → Option (List Char × Int × List Char)
  | e :: rest =>
    if e = 'e' ∨ e = 'E' then
      match rest with
      | '-' :: rest => (run rest).map fun (ds, rest) => (e :: '-' :: ds, -(digitsValue ds : Int), rest)
      | '+' :: rest => (run rest).map fun (ds, rest) => (e :: '+' :: ds, (digitsValue ds : Int), rest)
      | rest => (run rest).map fun (ds, rest) => (e :: ds, (digitsValue ds : Int), rest)
    else none
  | [] => none
where
  run (s : List Char) : Option (List Char × List Char) :=
    let ds := s.takeWhile Char.isDigit
    if ds.isEmpty then none else some (ds, s.dropWhile Char.isDigit)

/-- A fraction, if the point is followed by a digit: its digits and the rest. -/
def fraction? : List Char → Option (List Char × List Char)
  | '.' :: rest =>
    let ds := rest.takeWhile Char.isDigit
    if ds.isEmpty then none else some (ds, rest.dropWhile Char.isDigit)
  | _ => none

/-- A whole number that fits 64 bits, or the nearest float. -/
def integer (digits : List Char) : Token :=
  ((int64? (digitsValue digits)).map .int).getD (.float (floatOfDecimal (digitsValue digits) 0))

/-- What stands at the start of a text: a token and its letters, or letters that are no token. -/
inductive Cut where
  | token (token : Token) (letters rest : List Char)
  | invalid (letters : List Char)

/-- A number, given its whole digits. -/
def number (whole : List Char) (s : List Char) : Cut :=
  let (fraction, fractionText, s) := match fraction? s with
    | some (ds, rest) => (some ds, '.' :: ds, rest)
    | none => (none, [], s)
  let (exponent, exponentText, s) := match exponent? s with
    | some (text, e, rest) => (some e, text, rest)
    | none => (none, [], s)
  let letters := whole ++ fractionText ++ exponentText
  if fraction.isNone && exponent.isNone then .token (integer whole) letters s
  else
    let numeral : Numeral := { negative := false, whole, fraction, exponent }
    .token (.float numeral.nearest) letters s

/-- A string literal, from its opening quote. -/
def literal (quote : Char) (s : List Char) : Cut :=
  match literalBody quote s with
  | (body, none) => .invalid (quote :: body)
  | (body, some rest) =>
    let letters := quote :: (body ++ [quote])
    match unescape body with
    | some cs => .token (.str (String.ofList cs)) letters rest
    | none => .invalid letters

/-- The longest symbol that starts with a character. -/
def symbol (c : Char) (s : List Char) : Cut :=
  let one (symbol : Symbol) : Cut := .token (.symbol symbol) [c] s
  let longer (symbol : Symbol) (letters rest : List Char) : Cut :=
    .token (.symbol symbol) (c :: letters) rest
  match c, s with
  | '=', '=' :: '=' :: rest => longer .strictEqual ['=', '='] rest
  | '=', '=' :: rest => longer .equal ['='] rest
  | '!', '=' :: '=' :: rest => longer .strictNotEqual ['=', '='] rest
  | '!', '=' :: rest => longer .notEqual ['='] rest
  | '!', _ => one .bang
  | '<', '=' :: rest => longer .lessEqual ['='] rest
  | '<', _ => one .less
  | '>', '=' :: rest => longer .greaterEqual ['='] rest
  | '>', _ => one .greater
  | '&', '&' :: rest => longer .and ['&'] rest
  | '|', '|' :: rest => longer .or ['|'] rest
  | '|', _ => one .bar
  | '+', _ => one .plus
  | '-', _ => one .minus
  | '*', _ => one .star
  | '/', _ => one .slash
  | '%', _ => one .percent
  | '?', _ => one .question
  | ':', _ => one .colon
  | '.', _ => one .dot
  | ',', _ => one .comma
  | '(', _ => one .leftParen
  | ')', _ => one .rightParen
  | '[', _ => one .leftBracket
  | ']', _ => one .rightBracket
  | '\x7b', _ => one .leftBrace
  | '\x7d', _ => one .rightBrace
  | _, _ => .invalid [c]

/-- The longest token that starts with a character. -/
def cut (c : Char) (s : List Char) : Cut :=
  if isNameStart c then
    let letters := c :: s.takeWhile isNamePart
    .token (word (String.ofList letters)) letters (s.dropWhile isNamePart)
  else if c.isDigit then number (c :: s.takeWhile Char.isDigit) (s.dropWhile Char.isDigit)
  else if c = '"' ∨ c = '\'' then literal c s
  else if c = '.' ∧ (fraction? (c :: s)).isSome then number [] (c :: s)
  else symbol c s

/-- Cuts a text that starts at the given byte offset. Every step takes at least one character. -/
def cutAll : Nat → Nat → List Char → Except Fault (List Spanned)
  | _, _, [] => .ok []
  | 0, _, _ => .ok []
  | steps + 1, offset, c :: s =>
    if isBlank c then cutAll steps (offset + c.utf8Size) s
    else match cut c s with
      | .invalid letters => .error (.invalidToken (String.ofList letters) offset)
      | .token token letters rest =>
        let stop := offset + byteSize letters
        match cutAll steps stop rest with
        | .ok tokens => .ok ({ token, start := offset, stop } :: tokens)
        | .error fault => .error fault

end Lexer

/-- The tokens of a text whose first byte has the given offset. -/
def tokenizeFrom (offset : Nat) (text : List Char) : Except Fault (List Spanned) :=
  Lexer.cutAll text.length offset text

/-- The tokens of a text. -/
def tokenize (input location : String) : Except ParseError (List Spanned) :=
  match tokenizeFrom 0 input.toList with
  | .ok tokens => .ok tokens
  | .error fault => .error { fault, input, location }

end ChangeWatch
