import Milp.Decimal.Shortest

/-! The tokens of JSON text. -/
namespace Milp.Json

/-- A number as it is written: `±coefficient · 10^exponent`. -/
structure Numeral where
  negative : Bool
  coefficient : Nat
  exponent : Int
  /-- Written without a point and without an exponent. -/
  whole : Bool
deriving DecidableEq, Repr

/-- The double nearest to a number. -/
def Numeral.toFloat (n : Numeral) : Float :=
  let x := Decimal.toFloat ⟨n.coefficient, n.exponent⟩
  if n.negative then -x else x

inductive Token
  | openBrace
  | closeBrace
  | openBracket
  | closeBracket
  | colon
  | comma
  | null
  | bool (b : Bool)
  | number (n : Numeral)
  /-- A string; without a value if an escape in it stands for half a character. -/
  | string (s : Option String)
  /-- From here on the text is not JSON. -/
  | bad
deriving DecidableEq, Repr

/-- The number that digits stand for. -/
def ofDigits (ds : List Char) : Nat := ds.foldl (fun n d => n * 10 + (d.toNat - '0'.toNat)) 0

/-- Reads `.digits`, if there is a point. -/
def lexFraction : List Char → Option (List Char × List Char)
  | '.' :: cs =>
    let ds := cs.takeWhile Char.isDigit
    if ds.isEmpty then none else some (ds, cs.dropWhile Char.isDigit)
  | cs => some ([], cs)

/-- Reads the digits after an exponent mark and sign. -/
def lexPower (negative : Bool) (cs : List Char) : Option (Option Int × List Char) :=
  let ds := cs.takeWhile Char.isDigit
  if ds.isEmpty then none
  else
    let n : Int := ofDigits ds
    some (some (if negative then -n else n), cs.dropWhile Char.isDigit)

/-- Reads an exponent, if there is a mark for it. -/
def lexExponent : List Char → Option (Option Int × List Char)
  | c :: cs =>
    if c = 'e' || c = 'E' then
      match cs with
      | '-' :: cs => lexPower true cs
      | '+' :: cs => lexPower false cs
      | cs => lexPower false cs
    else some (none, c :: cs)
  | [] => some (none, [])

/-- Reads a number without its sign. Whole parts have no leading zeros. -/
def lexUnsigned (negative : Bool) (cs : List Char) : Option (Numeral × List Char) := do
  let ds := cs.takeWhile Char.isDigit
  if ds.isEmpty || (ds.length > 1 && ds.head? == some '0') then none
  let (fs, cs) ← lexFraction (cs.dropWhile Char.isDigit)
  let (power, cs) ← lexExponent cs
  return (⟨negative, ofDigits (ds ++ fs), power.getD 0 - fs.length, fs.isEmpty && power.isNone⟩, cs)

def lexNumber : List Char → Option (Numeral × List Char)
  | '-' :: cs => lexUnsigned true cs
  | cs => lexUnsigned false cs

def hexValue (c : Char) : Option Nat :=
  if '0' ≤ c && c ≤ '9' then some (c.toNat - '0'.toNat)
  else if 'a' ≤ c && c ≤ 'f' then some (c.toNat - 'a'.toNat + 10)
  else if 'A' ≤ c && c ≤ 'F' then some (c.toNat - 'A'.toNat + 10)
  else none

def hexUnit (a b c d : Char) : Option Nat := do
  return (((← hexValue a) * 16 + (← hexValue b)) * 16 + (← hexValue c)) * 16 + (← hexValue d)

/-- What a backslash and a letter stand for. -/
def unescape : Char → Option Char
  | '"' => some '"'
  | '\\' => some '\\'
  | '/' => some '/'
  | 'b' => some '\x08'
  | 'f' => some '\x0c'
  | 'n' => some '\n'
  | 'r' => some '\r'
  | 't' => some '\t'
  | _ => none

def isHighSurrogate (n : Nat) : Bool := 0xD800 ≤ n && n < 0xDC00

def isLowSurrogate (n : Nat) : Bool := 0xDC00 ≤ n && n < 0xE000

/-- The character of a surrogate pair. -/
def paired (high low : Nat) : Char := Char.ofNat (0x10000 + (high - 0xD800) * 0x400 + (low - 0xDC00))

/-- The second half of a surrogate pair, if it comes next, and how many characters it takes. -/
def lowSurrogate? : List Char → Option Nat
  | '\\' :: 'u' :: a :: b :: c :: d :: _ => (hexUnit a b c d).filter isLowSurrogate
  | _ => none

/-- Reads a string up to its closing quote. `acc` is what was read, last character first; `skip` is
how many characters were read ahead. -/
def lexString (acc : Option (List Char)) (skip : Nat) : List Char → Option (Option String × List Char)
  | [] => none
  | c :: cs =>
    match skip with
    | n + 1 => lexString acc n cs
    | 0 =>
      if c = '"' then some (acc.map fun acc => String.ofList acc.reverse, cs)
      else if c = '\\' then
        match cs with
        | 'u' :: a :: b :: c :: d :: rest =>
          match hexUnit a b c d with
          | none => none
          | some n =>
            if isHighSurrogate n then
              match lowSurrogate? rest with
              | some low => lexString (acc.map (paired n low :: ·)) 11 cs
              | none => lexString none 5 cs
            else if isLowSurrogate n then lexString none 5 cs
            else lexString (acc.map (Char.ofNat n :: ·)) 5 cs
        | e :: _ => match unescape e with
          | some c => lexString (acc.map (c :: ·)) 1 cs
          | none => none
        | [] => none
      else if c.toNat < 0x20 then none
      else lexString (acc.map (c :: ·)) 0 cs

/-- The space, the tab, and the characters that end a line. -/
def isBlank (c : Char) : Bool := c = ' ' || c = '\n' || c = '\t' || c = '\r'

/-- The tokens of a text, up to the first place where it is not JSON. Each token takes at least one
character, so as many rounds as there are characters are enough. -/
def tokensFrom : (fuel : Nat) → List Char → List Token
  | 0, [] => []
  | 0, _ => [.bad]
  | _ + 1, [] => []
  | n + 1, c :: cs =>
    if isBlank c then tokensFrom n cs
    else match c with
      | '\x7b' => .openBrace :: tokensFrom n cs
      | '\x7d' => .closeBrace :: tokensFrom n cs
      | '[' => .openBracket :: tokensFrom n cs
      | ']' => .closeBracket :: tokensFrom n cs
      | ':' => .colon :: tokensFrom n cs
      | ',' => .comma :: tokensFrom n cs
      | '"' => match lexString (some []) 0 cs with
        | some (s, rest) => .string s :: tokensFrom n rest
        | none => [.bad]
      | 'n' => match cs with
        | 'u' :: 'l' :: 'l' :: rest => .null :: tokensFrom n rest
        | _ => [.bad]
      | 't' => match cs with
        | 'r' :: 'u' :: 'e' :: rest => .bool true :: tokensFrom n rest
        | _ => [.bad]
      | 'f' => match cs with
        | 'a' :: 'l' :: 's' :: 'e' :: rest => .bool false :: tokensFrom n rest
        | _ => [.bad]
      | _ => match lexNumber (c :: cs) with
        | some (m, rest) => .number m :: tokensFrom n rest
        | none => [.bad]

def tokens (text : String) : List Token := tokensFrom text.length text.toList

end Milp.Json
