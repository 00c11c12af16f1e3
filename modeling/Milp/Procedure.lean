import Milp.Program

/-! Programs written step by step. -/
namespace Milp

/-- A part of a program: it is told how the program goes on with what it found out. -/
def Procedure {α η κ : Type} (A : Adapter α η κ) (ω : Type) (p : Purpose) (β : Type) :=
  (β → Program A ω p) → Program A ω p

namespace Procedure

variable {α η κ ω : Type} {A : Adapter α η κ} {p : Purpose}

instance : Monad (Procedure A ω p) where
  pure x next := next x
  bind d f next := d fun x => f x next

def model : Procedure A ω p (Model A) := Program.read

/-- Changes the shared state; gives back what it was. -/
def share (f : ω → ω) : Procedure A ω p ω := Program.share f

def note (events : List (Event α)) : Procedure A ω p Unit := fun next => Program.note events (next ())

end Procedure

/-- A part of a program that may fail. -/
abbrev Routine {α η κ : Type} (A : Adapter α η κ) (ω : Type) (p : Purpose) (β : Type) :=
  ExceptT (ModelError α) (Procedure A ω p) β

namespace Routine

variable {α η κ ω β : Type} {A : Adapter α η κ} {p : Purpose}

/-- The program that ends with what a routine gives back. -/
def toProgram (r : Routine A ω p (p.Value α)) : Program A ω p := ExceptT.run r .finish

def model : Routine A ω p (Model A) := ExceptT.lift Procedure.model

def look (f : Model A → Except (ModelError α) β) : Routine A ω p β := do liftExcept (f (← model))

/-- A name, which counts as a failure of the model if it is refused. -/
def naming (r : Except NameError β) : Routine A ω p β := ExceptT.mk (pure (r.mapError ModelError.naming))

def act (a : Action α) : Routine A ω p a.Value := ExceptT.mk (Program.act a)

def spawn (k : Kind) (id description : String) (generator : Option Naming.Namer)
    (routine : Group k → Routine A ω .group Unit) : Routine A ω p (Group k) :=
  ExceptT.mk (Program.spawn k id description generator fun g => (routine g).toProgram)

def attach (direction : Direction) (routine : Routine A ω .objective (Expression α)) : Routine A ω p Unit :=
  ExceptT.mk (Program.attach direction routine.toProgram)

end Routine
end Milp
