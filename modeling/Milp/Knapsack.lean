import Milp.Procedure
import Milp.Recipe
import Milp.Solver.Exact
import Milp.Solving
import Milp.Store

/-! An example: which items to take on a hike, when the knapsack holds fifteen kilograms. -/
namespace Milp.Knapsack

structure Item where
  name : String
  /-- In kilograms. -/
  weight : Float
  value : Float

def items : List Item :=
  [⟨"Tent", 7, 150⟩, ⟨"Stove", 3, 90⟩, ⟨"Food", 4, 120⟩, ⟨"Water", 5, 100⟩, ⟨"Camera", 2, 80⟩]

def capacity : Float := 15

abbrev solver : Adapter Float Nat Nat := matrix Solver.exact

def slots (item : Item) : List Naming.Slot := [.text item.name]

/-- Names with the name of an item in their only slot. -/
def itemNames (stem : String) : Except NameError Naming.Generator :=
  (Naming.Generator.new stem 1).withCheck (.ofCondition (.oneOf 0 (items.flatMap slots)))

variable {p : Purpose}

/-- One variable for each item: one when it goes into the knapsack. -/
def declareTaken (g : Group .var) : Routine solver Unit p Unit :=
  items.forM fun item => do
    let name ← Routine.naming (g.name (slots item))
    discard (Routine.act (.createVariable name .boolean 0 1 g))

/-- One constant for each item. -/
def declareConstants (value : Item → Float) (g : Group .constant) : Routine solver Unit p Unit :=
  items.forM fun item => do
    let name ← Routine.naming (g.name (slots item))
    discard (Routine.act (.createConstant name (value item) g))

/-- The sum of the constants of the items that are taken. -/
def taken (constants taken : Naming.Generator) : Routine solver Unit p (Expression Float) := do
  let products ← items.mapM fun item => do
    return .product (← Routine.naming (constants.name (slots item))) (← Routine.naming (taken.name (slots item)))
  Routine.look (·.build products)

def declareLimit (weights taken : Naming.Generator) (g : Group .constraint) : Routine solver Unit p Unit := do
  let load ← Knapsack.taken weights taken
  let m ← Routine.model
  discard (Routine.act (.addConstraint "WeightLimit" load .lessEqual (m.expression.addConstant capacity) g))

def declare : Routine solver Unit .group Unit := do
  let names ← Routine.naming (itemNames "Take")
  let weights ← Routine.naming (itemNames "Weight")
  let values ← Routine.naming (itemNames "Value")
  discard (Routine.spawn .var "Take" "1 when the item goes in the knapsack" names declareTaken)
  discard (Routine.spawn .constant "Weights" "item weights in kg" weights (declareConstants Item.weight))
  discard (Routine.spawn .constant "Values" "item values in $" values (declareConstants Item.value))
  discard (Routine.spawn .constraint "Capacity" "weight limit" none (declareLimit weights names))
  Routine.attach .maximize (taken values names)

/-- The number rounded to a whole one; halfway goes to the even neighbour. -/
def wholeText (x : Float) : String :=
  match Binary64.value? x with
  | some r => (if r < 0 then "-" else "") ++ toString (Binary64.divRoundEven r.num.natAbs r.den)
  | none => NumberText.text x

/-- A time in the largest of three units that has a whole part. -/
def durationText (millis : UInt64) : String :=
  if millis = 0 then "0ns"
  else if millis < 1000 then toString millis ++ "ms"
  else NumberText.text (Binary64.ofRat (mkRat millis.toNat 1000)) ++ "s"

def padLeft (width : Nat) (s : String) : String := "".pushn ' ' (width - s.length) ++ s

def padRight (width : Nat) (s : String) : String := s.pushn ' ' (width - s.length)

def itemLine (item : Item) : String :=
  "  " ++ padRight 8 item.name ++ " " ++ padLeft 4 (NumberText.text item.weight) ++ " kg  $" ++
    padLeft 4 (NumberText.text item.value)

/-- An item is packed if its variable is nearer to one than to zero. -/
def isPacked (m : Model solver) (item : Item) : Except (ModelError Float) Bool := do
  return (← m.variableResult ("Take-/-" ++ item.name)).getD 0 > 0.5

/-- What is said about a solution: the total, the time, and the items. -/
def solutionLines (m : Model solver) : Except (ModelError Float) (List String) := do
  let packed ← items.filterM (isPacked m)
  return ["Total value: $" ++ wholeText (← m.objectiveValue), "Solve time: " ++ durationText (← m.time), "",
    "Packed items:"] ++ packed.map itemLine

/-- The example while it runs: the model, the files that it writes, and the lines that it says. -/
structure Show where
  run : Run solver Unit
  files : FileTree
  lines : List String := []

abbrev Act (β : Type) := ExceptT StoreError (StateM Show) β

def say (lines : List String) : Act Unit := modify fun s => { s with lines := s.lines ++ lines }

/-- Work on the model. -/
def work {β : Type} (step : Step solver Unit β) : Act β := ExceptT.adapt StoreError.model fun s =>
  let r := step s.run
  (r.1, { s with run := r.2 })

def save (store : Store) : Act Unit := fun s =>
  let r := store.exportModel s.run.model (s.files, s.run.journal)
  (r.1, { s with files := r.2.1, run := { s.run with journal := r.2.2 } })

/-- Declares the model, solves it, and writes it to files. -/
def play : Act Unit := do
  say ["=== 0/1 Knapsack ===", ""]
  work declare.toProgram.run
  work Run.init
  let status ← work Run.compute
  say ["Status: " ++ status.text]
  if status.isOptimal then
    work Run.extract
    say (← work (liftExcept (solutionLines (← get).run.model)))
  let store : Store := {}
  save store
  say ["", "Model written to " ++ store.folder]

/-- The example before it begins. -/
def opening (files : FileTree) : Show where
  run := { model := .new ⟨0⟩ "Knapsack" { config := { timeLimit := some 10 } }, world := () }
  files

end Milp.Knapsack
