import Milp.Json.Reading

/-! Reading values from tokens. The first problem in reading order is the one that is reported. -/
namespace Milp.Json

/-- Why a text was not read. -/
inductive DecodeError
  | malformed
  | missingField (name : String)
  | duplicateField (name : String)
  | unknownVariant (found : String) (known : List String)
deriving DecidableEq, Repr

private def ticked (s : String) : String := "\x60" ++ s ++ "\x60"

/-- The names that were expected; two are joined by "or". -/
def expected : List String → String
  | [a] => "expected " ++ ticked a
  | [a, b] => "expected " ++ ticked a ++ " or " ++ ticked b
  | names => "expected one of " ++ ", ".intercalate (names.map ticked)

/-- The words for an error; a text that is malformed has none. -/
def DecodeError.message? : DecodeError → Option String
  | .malformed => none
  | .missingField name => some ("missing field " ++ ticked name)
  | .duplicateField name => some ("duplicate field " ++ ticked name)
  | .unknownVariant found known => some ("unknown variant " ++ ticked found ++ ", " ++ expected known)

abbrev Decoder (β : Type) := ReaderT NumberReader (StateT (List Token) (Except DecodeError)) β

namespace Decoder

variable {β γ σ : Type}

def fail : Decoder β := throw .malformed

/-- The next token. -/
def next : Decoder Token := fun _ ts =>
  match ts with
  | [] => .error .malformed
  | t :: rest => .ok (t, rest)

/-- The next token, which is left there. -/
def peek : Decoder Token := fun _ ts =>
  match ts with
  | [] => .error .malformed
  | t :: _ => .ok (t, ts)

def expect (t : Token) : Decoder Unit := do
  if (← next) ≠ t then fail

def text : Decoder String := do
  match ← next with
  | .string (some s) => return s
  | _ => fail

/-- One of the named values. -/
def oneOf (known : List (String × β)) : Decoder β := do
  let name ← text
  match known.lookup name with
  | some v => return v
  | none => throw (.unknownVariant name (known.map (·.1)))

/-- A number, as the reader reads it. -/
def float : Decoder Float := do
  match ← next with
  | .number n => match (← read).read n with
    | some x => return x
    | none => fail
  | _ => fail

/-- A whole number of 64 bits, written without sign, point and exponent. -/
def word : Decoder UInt64 := do
  match ← next with
  | .number n =>
    if n.whole && !n.negative && n.coefficient < Nat.pow 2 64 then return UInt64.ofNat n.coefficient else fail
  | _ => fail

/-- A value, or `null` for none. -/
def optional (d : Decoder β) : Decoder (Option β) := do
  match ← peek with
  | .null => do
    discard next
    return none
  | _ => some <$> d

/-- The rest of a list, from an item on. -/
def items (item : Decoder β) : (fuel : Nat) → Decoder (List β)
  | 0 => fail
  | fuel + 1 => do
    let x ← item
    match ← next with
    | .comma => return x :: (← items item fuel)
    | .closeBracket => return [x]
    | _ => fail

def list (item : Decoder β) : Decoder (List β) := do
  expect .openBracket
  match ← peek with
  | .closeBracket => do
    discard next
    return []
  | _ => items item (← get).length

/-- The rest of an object, from a key on; `member` reads what follows a key. -/
def members (member : String → σ → Decoder σ) : (fuel : Nat) → σ → Decoder σ
  | 0, _ => fail
  | fuel + 1, s => do
    let key ← text
    let s ← member key s
    match ← next with
    | .comma => members member fuel s
    | .closeBrace => return s
    | _ => fail

/-- The members of an object whose brace was read. -/
def openObject (member : String → σ → Decoder σ) (s : σ) : Decoder σ := do
  match ← peek with
  | .closeBrace => do
    discard next
    return s
  | _ => members member (← get).length s

/-- Where one is while a value is skipped. -/
inductive Frame
  | array
  | object
deriving DecidableEq, Repr

/-- What is to come while a value is skipped. -/
inductive Awaiting
  | value
  /-- A value, or the end of the array that has just begun. -/
  | valueOrEnd
  | key
  /-- A key, or the end of the object that has just begun. -/
  | keyOrEnd
  | colon
  /-- A comma, or the end of the frame. -/
  | separator
deriving DecidableEq, Repr

/-- One token of a skipped value; `none` if it does not fit. -/
def skipToken : Awaiting → List Frame → Token → Option (Awaiting × List Frame)
  | .valueOrEnd, .array :: fs, .closeBracket => some (.separator, fs)
  | .value, fs, t | .valueOrEnd, fs, t => match t with
    | .openBrace => some (.keyOrEnd, .object :: fs)
    | .openBracket => some (.valueOrEnd, .array :: fs)
    | .null | .bool _ | .number _ | .string _ => some (.separator, fs)
    | _ => none
  | .keyOrEnd, .object :: fs, .closeBrace => some (.separator, fs)
  | .key, fs, .string _ | .keyOrEnd, fs, .string _ => some (.colon, fs)
  | .colon, fs, .colon => some (.value, fs)
  | .separator, .array :: fs, .comma => some (.value, .array :: fs)
  | .separator, .object :: fs, .comma => some (.key, .object :: fs)
  | .separator, .array :: fs, .closeBracket => some (.separator, fs)
  | .separator, .object :: fs, .closeBrace => some (.separator, fs)
  | _, _, _ => none

/-- Skips tokens until the value that was begun is complete, however deep it is. -/
def skipFrom (a : Awaiting) (fs : List Frame) : Decoder Unit := fun r ts =>
  match ts with
  | [] => .error .malformed
  | t :: rest => match skipToken a fs t with
    | none => .error .malformed
    | some (.separator, []) => .ok ((), rest)
    | some (a, fs) => skipFrom a fs r rest

/-- Skips a value. -/
def skip : Decoder Unit := skipFrom .value []

/-- Reads a whole text as one value. -/
def run (d : Decoder β) (r : NumberReader) (source : String) : Except DecodeError β :=
  match d r (tokens source) with
  | .ok (x, []) => .ok x
  | .ok (_, _ :: _) => .error .malformed
  | .error e => .error e

end Decoder
end Milp.Json
