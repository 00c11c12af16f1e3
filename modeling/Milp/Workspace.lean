import Milp.Run
import Milp.Store

/-! Several models side by side, with one shared state, one journal, and the files that they are stored in. -/
namespace Milp

/-- A model with the programs that wait on it. -/
structure Bench {η κ : Type} (A : Adapter Float η κ) (ω : Type) where
  model : Model A
  agenda : Agenda A ω := {}

/-- Models by key. -/
structure Workspace {η κ : Type} (A : Adapter Float η κ) (ω : Type) where
  world : ω
  benches : Table (Bench A ω) := .empty
  /-- How many models there were so far; the next one's token. -/
  created : Nat := 0
  files : FileTree := {}
  journal : List (Event Float) := []

namespace Workspace

variable {η κ ω β : Type} {A : Adapter Float η κ}

/-- Puts a new model under a key. One that is there gives way. -/
def create (w : Workspace A ω) (key id : String) (adapter : A.State) : Model A × Workspace A ω :=
  let model : Model A := .new ⟨w.created⟩ id adapter
  (model, { w with
    benches := w.benches.insert key { model }
    created := w.created + 1
    journal := w.journal ++ [.modelCreated model.adapterName] })

/-- What is under a key; if there is nothing, a new model of that identifier. -/
def bench (w : Workspace A ω) (key : String) (adapter : A.State) : Bench A ω × Workspace A ω :=
  match w.benches.find? key with
  | some b => (b, w)
  | none =>
    let (model, w) := w.create key key adapter
    ({ model }, w)

/-- Runs a step on what is under a key. -/
def run (w : Workspace A ω) (key : String) (b : Bench A ω) (step : Step A ω β) :
    Except (ModelError Float) β × Workspace A ω :=
  let (r, s) := step { model := b.model, agenda := b.agenda, world := w.world, journal := w.journal }
  (r, { w with
    benches := w.benches.insert key ⟨s.model, s.agenda⟩
    world := s.world
    journal := s.journal })

/-- Writes files from a model. -/
def exporting (w : Workspace A ω) (work : Store.Export β) : Except StoreError β × Workspace A ω :=
  let (r, files, journal) := work (w.files, w.journal)
  (r, { w with files, journal })

/-- Declares what is in files on the model under a key. -/
def importing (w : Workspace A ω) (key : String) (b : Bench A ω) (work : FileTree → Store.Import A β) :
    Except StoreError β × Workspace A ω :=
  let (r, model, journal) := work w.files (b.model, w.journal)
  (r, { w with benches := w.benches.insert key { b with model }, journal })

end Workspace
end Milp
