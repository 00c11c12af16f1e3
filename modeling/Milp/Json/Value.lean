import Milp.Decimal.Layout

/-! JSON values and their text, on one line or laid out over several. -/
namespace Milp

/-- A JSON value. The members of an object keep their order. -/
inductive Json
  | null
  | bool (b : Bool)
  | int (n : Int)
  | float (x : Float)
  | string (s : String)
  | array (items : List Json)
  | object (members : List (String × Json))

namespace Json

def hexDigit (n : Nat) : Char := (Nat.toDigits 16 n).headD '0'

/-- How a character stands in a string. -/
def escape (c : Char) : List Char :=
  if c = '"' then ['\\', '"']
  else if c = '\\' then ['\\', '\\']
  else if c = '\n' then ['\\', 'n']
  else if c = '\r' then ['\\', 'r']
  else if c = '\t' then ['\\', 't']
  else if c = '\x08' then ['\\', 'b']
  else if c = '\x0c' then ['\\', 'f']
  else if c.toNat < 0x20 then ['\\', 'u', '0', '0', hexDigit (c.toNat / 16), hexDigit (c.toNat % 16)]
  else [c]

def quote (s : String) : String := "\"" ++ String.ofList (s.toList.flatMap escape) ++ "\""

/-- The text of a value that holds no others. -/
def atom : Json → String
  | .null => "null"
  | .bool b => if b then "true" else "false"
  | .int n => toString n
  | .float x => NumberLayout.document.render x
  | .string s => quote s
  | .array _ => "[]"
  | .object _ => "\x7b\x7d"

mutual

/-- The text of a value without white space. -/
def compact : Json → String
  | .array (first :: rest) => "[" ++ compact first ++ compactItems rest ++ "]"
  | .object ((key, value) :: rest) => "\x7b" ++ quote key ++ ":" ++ compact value ++ compactMembers rest ++ "\x7d"
  | v => v.atom

def compactItems : List Json → String
  | [] => ""
  | v :: rest => "," ++ compact v ++ compactItems rest

def compactMembers : List (String × Json) → String
  | [] => ""
  | (key, v) :: rest => "," ++ quote key ++ ":" ++ compact v ++ compactMembers rest

end

/-- A new line, indented by two spaces for each level. -/
def newLine (depth : Nat) : String := "\n" ++ String.ofList (List.replicate (2 * depth) ' ')

mutual

/-- The text of a value with each item and member on a line of its own. -/
def pretty (depth : Nat) : Json → String
  | .array (first :: rest) =>
    "[" ++ newLine (depth + 1) ++ pretty (depth + 1) first ++ prettyItems (depth + 1) rest ++ newLine depth ++ "]"
  | .object ((key, value) :: rest) =>
    "\x7b" ++ newLine (depth + 1) ++ quote key ++ ": " ++ pretty (depth + 1) value ++
      prettyMembers (depth + 1) rest ++ newLine depth ++ "\x7d"
  | v => v.atom

def prettyItems (depth : Nat) : List Json → String
  | [] => ""
  | v :: rest => "," ++ newLine depth ++ pretty depth v ++ prettyItems depth rest

def prettyMembers (depth : Nat) : List (String × Json) → String
  | [] => ""
  | (key, v) :: rest =>
    "," ++ newLine depth ++ quote key ++ ": " ++ pretty depth v ++ prettyMembers depth rest

end

end Json
end Milp
