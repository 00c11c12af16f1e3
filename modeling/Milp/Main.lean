import Milp.Knapsack

/-! The knapsack on the command line: what it says, its log on the error stream, and its files. -/
namespace Milp.Knapsack

/-- Puts what stands at a place onto the disk. -/
def writeNode (place : List String) : FileNode → IO Unit
  | .folder => IO.FS.createDirAll ("/".intercalate place)
  | .file content => IO.FS.writeBinFile ("/".intercalate place) content

/-- Events that are worth a line: all but those for debugging. -/
def isLogged (l : LogLine) : Bool := l.level ≠ .debug

def execute : IO UInt32 := do
  let (result, final) := play (opening {})
  final.lines.forM fun line => IO.println line
  ((final.run.journal.map Event.line).filter isLogged).forM fun line => IO.eprintln line.text
  final.files.nodes.reverse.forM fun (place, node) => writeNode place node
  match result with
  | .ok _ => return 0
  | .error e => do
    IO.eprintln ("Error: " ++ e.message?.getD "the files could not be used")
    return 1

end Milp.Knapsack

def main : IO UInt32 := Milp.Knapsack.execute
