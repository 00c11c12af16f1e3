import Milp.Table
import Milp.Variable

/-! Linear expressions: lists of terms that belong to one model. -/
namespace Milp

/-- A number, or a number times a variable of some model. -/
inductive Term (α : Type)
  | constant (value : α)
  | linear (coefficient : α) (id : String) (owner : Token)

namespace Term

variable {α : Type}

def ofVariable (c : α) (v : Variable α) : Term α := .linear c v.identifier v.owner

def coefficient : Term α → α
  | .constant c => c
  | .linear c _ _ => c

def name? : Term α → Option String
  | .constant _ => none
  | .linear _ id _ => some id

def isConstant (t : Term α) : Bool := t.name?.isNone

def scale [Mul α] (s : α) : Term α → Term α
  | .constant c => .constant (c * s)
  | .linear c id owner => .linear (c * s) id owner

/-- Terms are told apart by variable and coefficient, not by owner. -/
instance [BEq α] : BEq (Term α) where
  beq s t := s.name? == t.name? && s.coefficient == t.coefficient

/-- By variable, constants first, and then by coefficient. -/
def le [Scalar α] (s t : Term α) : Bool :=
  match s.name?, t.name? with
  | none, some _ => true
  | some _, none => false
  | some a, some b =>
    if a < b then true else if b < a then false else Scalar.order s.coefficient t.coefficient != .gt
  | none, none => Scalar.order s.coefficient t.coefficient != .gt

def text [NumberText α] : Term α → String
  | .constant c => NumberText.text c
  | .linear c id _ => NumberText.text c ++ "." ++ id

end Term

/-- A sum of terms. Every variable term carries the owner of the expression. -/
structure Expression (α : Type) where
  owner : Token
  terms : List (Term α) := []

namespace Expression

variable {α : Type}

def isEmpty (e : Expression α) : Bool := e.terms.isEmpty

def size (e : Expression α) : Nat := e.terms.length

/-- The variables of an expression, one for each variable term. -/
def names (e : Expression α) : List String := e.terms.filterMap Term.name?

def addConstant (e : Expression α) (c : α) : Expression α :=
  { e with terms := e.terms ++ [.constant c] }

/-- Refuses a variable of another model. -/
def addTerm (e : Expression α) (t : Term α) : Except (ModelError α) (Expression α) :=
  match t with
  | .constant _ => .ok { e with terms := e.terms ++ [t] }
  | .linear _ id owner =>
    if owner = e.owner then .ok { e with terms := e.terms ++ [t] } else .error (.foreignVariable id)

def addScaled (e : Expression α) (c : α) (v : Variable α) : Except (ModelError α) (Expression α) :=
  e.addTerm (.ofVariable c v)

def addVariable [Scalar α] (e : Expression α) (v : Variable α) : Except (ModelError α) (Expression α) :=
  e.addScaled Scalar.one v

/-- Refuses an expression of another model. -/
def add (e other : Expression α) : Except (ModelError α) (Expression α) :=
  if other.owner = e.owner then .ok { e with terms := e.terms ++ other.terms }
  else .error .foreignExpression

def scale [Mul α] (e : Expression α) (s : α) : Expression α :=
  { e with terms := e.terms.map (Term.scale s) }

/-- Adds `c` to the first term of variable `id`, or appends a term for it. -/
def absorb [Add α] (c : α) (id : String) (owner : Token) : List (Term α) → List (Term α)
  | [] => [.linear c id owner]
  | .linear c' id' owner' :: rest =>
    if id' = id then .linear (c' + c) id' owner' :: rest else .linear c' id' owner' :: absorb c id owner rest
  | t :: rest => t :: absorb c id owner rest

/-- The variable terms, one for each variable, in the order of first appearance. -/
def linearTerms [Add α] (ts : List (Term α)) : List (Term α) :=
  ts.foldl (fun acc t => match t with
    | .constant _ => acc
    | .linear c id owner => absorb c id owner acc) []

/-- The constants of an expression, in order. -/
def constants (e : Expression α) : List α :=
  e.terms.filterMap fun t => match t with
    | .constant c => some c
    | .linear .. => none

/-- Collects like terms; a constant that is not zero comes last. -/
def reduce [Scalar α] (e : Expression α) : Expression α :=
  let c := e.constants.foldl (· + ·) Scalar.zero
  { e with terms := linearTerms e.terms ++ if c == Scalar.zero then [] else [.constant c] }

/-- The sum of the constants. -/
def constantPart [Scalar α] (e : Expression α) : α :=
  e.constants.foldl (· + ·) Scalar.emptySum

/-- The net coefficient of each variable. -/
def linearPart [Scalar α] (e : Expression α) : Table α :=
  e.terms.foldl (fun t term => match term with
    | .constant _ => t
    | .linear c id _ => t.insert id ((t.find? id).getD Scalar.zero + c)) .empty

/-- The value of the expression, if each of its variables has one. -/
def evaluate [Scalar α] (values : Table α) (e : Expression α) : Option α :=
  e.terms.foldlM (fun acc term => match term with
    | .constant c => some (acc + c)
    | .linear c id _ => (values.find? id).map fun v => acc + c * v) Scalar.zero

/-- The terms in the order of `Term.le`. -/
def sorted [Scalar α] (e : Expression α) : List (Term α) := e.terms.mergeSort Term.le

/-- Equality up to the order of the terms. -/
instance [Scalar α] : BEq (Expression α) where
  beq a b := a.size == b.size && a.sorted == b.sorted

/-- Whether two expressions are equal once like terms are collected. -/
def equivalent [Scalar α] (a b : Expression α) : Bool := a.reduce == b.reduce

def text [NumberText α] (e : Expression α) : String :=
  " + ".intercalate (e.terms.map Term.text)

end Expression

/-- Which way an objective is driven. -/
inductive Direction
  | minimize
  | maximize
deriving DecidableEq, Repr

def Direction.name : Direction → String
  | .minimize => "MINIMIZE"
  | .maximize => "MAXIMIZE"

structure Objective (α : Type) where
  expression : Expression α
  direction : Direction

end Milp
