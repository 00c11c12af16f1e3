import Milp.Json.Decoder
import Milp.Json.Value

/-! Types with a JSON form: how a value is written, and how it is read. -/
namespace Milp.Json

structure Codec (β : Type) where
  write : β → Json
  read : Decoder β

namespace Codec

variable {β γ : Type}

def encode (c : Codec β) (x : β) : String := (c.write x).compact

def encodePretty (c : Codec β) (x : β) : String := (c.write x).pretty 0

/-- The value that a text stands for, where numbers are read by `r`. -/
def decodeBy (c : Codec β) (r : NumberReader) (source : String) : Except DecodeError β := c.read.run r source

def decode (c : Codec β) (source : String) : Except DecodeError β := c.decodeBy .scaling source

/-- The text of the value that a text stands for, without white space. -/
def recode (c : Codec β) (source : String) : Except DecodeError String := c.encode <$> c.decode source

def text : Codec String := ⟨.string, Decoder.text⟩

/-- A number. What is not finite has no JSON form and is written as `null`. -/
def float : Codec Float := ⟨.float, Decoder.float⟩

def word : Codec UInt64 := ⟨fun n => .int n.toNat, Decoder.word⟩

def optional (c : Codec β) : Codec (Option β) where
  write
    | some x => c.write x
    | none => .null
  read := Decoder.optional c.read

def list (c : Codec β) : Codec (List β) where
  write xs := .array (xs.map c.write)
  read := Decoder.list c.read

/-- The same form for another type. -/
def iso (c : Codec β) (make : β → γ) (back : γ → β) : Codec γ where
  write x := c.write (back x)
  read := make <$> c.read

/-- A named value: its name, or an object with the name as its only key and `null` under it. -/
def named (known : List (String × β)) (name : β → String) : Codec β where
  write x := .string (name x)
  read := do
    match ← Decoder.peek with
    | .openBrace => do
      discard Decoder.next
      let x ← Decoder.oneOf known
      Decoder.expect .colon
      Decoder.expect .null
      Decoder.expect .closeBrace
      return x
    | _ => Decoder.oneOf known

/-- An alternative of a tagged value. -/
structure Alternative (β : Type) where
  tag : String
  read : Decoder β

/-- A value under its tag, as an object with one key. -/
def tagged (alternatives : List (Alternative β)) (write : β → String × Json) : Codec β where
  write x := .object [write x]
  read := do
    let known := alternatives.map fun a => (a.tag, a.read)
    match ← Decoder.peek with
    | .openBrace => do
      discard Decoder.next
      let read ← Decoder.oneOf known
      Decoder.expect .colon
      let x ← read
      Decoder.expect .closeBrace
      return x
    | _ => do
      discard (Decoder.oneOf known)
      Decoder.fail

end Codec

/-- A member of an object. -/
structure Member (β : Type) where
  name : String
  codec : Codec β
  /-- The value of a field that is not there. -/
  fallback : Option β := none
  /-- Whether an array of the fields may end before this one. -/
  trailing : Bool := false
  /-- Values that are not written. -/
  hidden : β → Bool := fun _ => false

/-- The members of an object, and their values as a product of type `σ`. -/
structure Members (σ : Type) where
  /-- The values that were read so far. -/
  Slots : Type
  empty : Slots
  write : σ → List (String × Json)
  /-- What to do with a key, if it is a field's. -/
  member : String → Slots → Option (Decoder Slots)
  /-- The values, if every field has one. -/
  finish : Slots → Except DecodeError σ
  /-- The values in order, from the first item or one after a comma. -/
  items : (first : Bool) → Decoder σ

namespace Members

variable {β σ : Type}

def nil : Members Unit where
  Slots := Unit
  empty := ()
  write _ := []
  member _ _ := none
  finish _ := .ok ()
  items _ := Decoder.expect .closeBracket

/-- Reads a field's value after its key. A second value is an error before it is read. -/
def readMember (f : Member β) (slot : Option β) : Decoder (Option β) := do
  if slot.isSome then throw (.duplicateField f.name)
  Decoder.expect .colon
  some <$> f.codec.read

/-- Reads a field's value in an array, unless the array ends here. -/
def readItem (f : Member β) (first : Bool) : Decoder β := do
  match ← Decoder.peek, f.trailing, f.fallback with
  | .closeBracket, true, some x => return x
  | _, _, _ => do
    unless first do Decoder.expect .comma
    f.codec.read

def cons (f : Member β) (rest : Members σ) : Members (β × σ) where
  Slots := Option β × rest.Slots
  empty := (none, rest.empty)
  write x := (if f.hidden x.1 then [] else [(f.name, f.codec.write x.1)]) ++ rest.write x.2
  member key slots :=
    if key = f.name then some do return (← readMember f slots.1, slots.2)
    else (rest.member key slots.2).map fun d => do return (slots.1, ← d)
  finish slots := do
    match slots.1 <|> f.fallback with
    | some x => return (x, ← rest.finish slots.2)
    | none => throw (.missingField f.name)
  items first := do
    let x ← readItem f first
    return (x, ← rest.items false)

/-- An object with these fields in any order, other members skipped; or an array of the fields. -/
def codec (fs : Members σ) : Codec σ where
  write x := .object (fs.write x)
  read := do
    match ← Decoder.next with
    | .openBrace => do
      let slots ← Decoder.openObject (fun key slots => match fs.member key slots with
        | some d => d
        | none => do
          Decoder.expect .colon
          Decoder.skip
          return slots) fs.empty
      liftExcept (fs.finish slots)
    | .openBracket => fs.items true
    | _ => Decoder.fail

end Members
end Milp.Json
