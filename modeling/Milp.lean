import Milp.Adapter
import Milp.Adapter.Either
import Milp.Adapter.Matrix
import Milp.Adapter.Recorder
import Milp.Adapter.Replay
import Milp.Adapter.Rounded
import Milp.Adapter.Scripted
import Milp.Adapter.Traced
import Milp.Binary64
import Milp.Capture
import Milp.Comparison
import Milp.Constraint
import Milp.Decimal.Layout
import Milp.Decimal.Reading
import Milp.Decimal.Shortest
import Milp.Declaration
import Milp.Edit
import Milp.Error
import Milp.Event
import Milp.Expression
import Milp.FileTree
import Milp.Format
import Milp.Group
import Milp.Initialization
import Milp.Issues
import Milp.Json.Codec
import Milp.Json.Decoder
import Milp.Json.Reading
import Milp.Json.Token
import Milp.Json.Value
import Milp.Kind
import Milp.Knapsack
import Milp.Main
import Milp.Model
import Milp.Naming.Assembly
import Milp.Naming.Check
import Milp.Naming.Generator
import Milp.Naming.Slot
import Milp.Phase
import Milp.Procedure
import Milp.Program
import Milp.Proofs.Activity
import Milp.Proofs.Assembly
import Milp.Proofs.Blind
import Milp.Proofs.CanonicalRow
import Milp.Proofs.Captured
import Milp.Proofs.Change
import Milp.Proofs.Collected
import Milp.Proofs.Current
import Milp.Proofs.Declaration
import Milp.Proofs.Domains
import Milp.Proofs.Extended
import Milp.Proofs.Growth
import Milp.Proofs.Handles
import Milp.Proofs.Idle
import Milp.Proofs.Initialized
import Milp.Proofs.Invariance
import Milp.Proofs.Lifecycle
import Milp.Proofs.Merge
import Milp.Proofs.Observed
import Milp.Proofs.Order
import Milp.Proofs.Phases
import Milp.Proofs.Problem
import Milp.Proofs.Reduction
import Milp.Proofs.Regular
import Milp.Proofs.Restored
import Milp.Proofs.RoundTrip
import Milp.Proofs.Solved
import Milp.Proofs.Solves
import Milp.Proofs.Soundness
import Milp.Proofs.Table
import Milp.Proofs.Transparency
import Milp.Proofs.Triple
import Milp.Proofs.Unrestored
import Milp.Recipe
import Milp.Registry
import Milp.Restore
import Milp.Run
import Milp.Scalar
import Milp.Solution
import Milp.Solver.Dictionary
import Milp.Solver.Directions
import Milp.Solver.Exact
import Milp.Solver.Lattice
import Milp.Solver.Mixed
import Milp.Solver.Relaxation
import Milp.Solver.Search
import Milp.Solving
import Milp.Spawning
import Milp.Store
import Milp.Stored
import Milp.Table
import Milp.Text.Blank
import Milp.Text.Printable
import Milp.Text.Quoted
import Milp.VarType
import Milp.Variable
import Milp.Workspace
import Milp.Proofs.Ledger
import Milp.Proofs.Coherence
import Milp.Proofs.Drafts
import Milp.Proofs.Sketches
import Milp.Proofs.Owners
import Milp.Proofs.Local
import Milp.Proofs.Watched
import Milp.Proofs.Acceptance
import Milp.Proofs.Bits
import Milp.Proofs.Decimals
import Milp.Proofs.Numerals
import Milp.Proofs.Spelling
import Milp.Proofs.Codecs
import Milp.Proofs.Rereading
import Milp.Proofs.StoredNumbers
import Milp.Proofs.Documents
import Milp.Proofs.Exported
import Milp.Proofs.Imported
import Milp.Proofs.Infinities
import Milp.Proofs.Reopened
import Milp.Proofs.Numbers
import Milp.Proofs.Drawn
import Milp.Proofs.GivenBack
import Milp.Proofs.Reimported
import Milp.Proofs.Sharing
import Milp.Proofs.Closed
import Milp.Proofs.Handed
import Milp.Proofs.Bookkeeping
import Milp.Proofs.Lasting
import Milp.Proofs.Noted
import Milp.Proofs.Permanence
import Milp.Proofs.Recording
import Milp.Proofs.Obliging
import Milp.Proofs.Rebuilt
import Milp.Proofs.Admitted
import Milp.Proofs.Unordered
import Milp.Proofs.OwnNames
import Milp.Proofs.Union
import Milp.Proofs.NormalForm
import Milp.Proofs.Equality
import Milp.Proofs.Equivalence
import Milp.Proofs.Readings
import Milp.Proofs.Admissible
import Milp.Proofs.Diary
import Milp.Proofs.Rounds
import Milp.Proofs.Scheduled
import Milp.Proofs.GroupPhases
import Milp.Proofs.Names
import Milp.Proofs.Separators
import Milp.Proofs.Aborted
import Milp.Proofs.Endings
import Milp.Proofs.Ranks
import Milp.Proofs.Nearest
import Milp.Proofs.Ranged
import Milp.Proofs.Transferred
import Milp.Proofs.Multisets
