import Milp.Proofs.Bookkeeping
import Milp.Proofs.Lasting
import Milp.Proofs.Workspaces

/-! Programs that note the values that they give to constants. Whatever is done with the models of a process
is done the same with these notes. -/
namespace Milp

section Runs

variable {α η κ ω : Type} {A : Adapter α η κ}

/-- An action that gives a constant a value, and does so, is a setting; the others are none. -/
def Setting.of (key : String) {ε : Type} : (a : Action α) → Except ε a.Value → List (Setting α)
  | .setConstant id value, .ok _ => [⟨key, id, value⟩]
  | _, _ => []

theorem Setting.key_of {key : String} {ε : Type} {a : Action α} {r : Except ε a.Value} :
    ∀ s ∈ Setting.of key a r, s.key = key := by
  intro s hs
  unfold Setting.of at hs
  split at hs
  · rw [List.mem_singleton.mp hs]
  · cases hs

namespace Program

/-- The program with a list of the settings that it makes on the model under a key. -/
def noted (key : String) :
    {p : Purpose} → Program A ω p → Program A (ω × List (Setting α)) p
  | _, .finish r => .finish r
  | _, .read next => .read fun m => (next m).noted key
  | _, .share f next => .share (fun w => (f w.1, w.2)) fun w => (next w.1).noted key
  | _, .note events next => .note events (next.noted key)
  | _, .act a next => .act a fun r =>
    .share (fun w => (w.1, w.2 ++ Setting.of key a r)) fun _ => (next r).noted key
  | _, .spawn k id description generator program next =>
    .spawn k id description generator (fun g => (program g).noted key) fun r => (next r).noted key
  | _, .attach direction program next =>
    .attach direction (program.noted key) fun r => (next r).noted key

/-- The program notes its settings on the model under the key. -/
def Noting (key : String) {p : Purpose} (P : Program A (ω × List (Setting α)) p) : Prop :=
  ∃ P' : Program A ω p, P = P'.noted key

end Program

/-- To note settings is to keep books. -/
def noting (key : String) : Bookkeeping A (ω × List (Setting α)) ω where
  shared := Prod.fst
  program _ _ P := P.noted key

variable [Unbounded α]

theorem faithful_noting (key : String) : (noting (A := A) (ω := ω) key).Faithful := by
  intro group p P
  induction P generalizing group with
  | finish r => exact fun t s hts => ⟨rfl, hts⟩
  | read next ih =>
    intro t s hts
    simp only [noting, Program.noted, Program.run, hts.model]
    exact ih s.model group t s hts
  | share f next ih =>
    intro t s hts
    have hworld : t.world.1 = s.world := hts.world
    simp only [noting, Program.noted, Program.run, hworld]
    exact ih s.world group _ _ ⟨hts.model, hts.agenda, rfl, hts.journal⟩
  | note events next ih => exact fun t s hts => ih group _ _ (hts.record events)
  | act a next ih =>
    intro t s hts
    obtain ⟨r, t', s', hx, hy, hw⟩ := (Bookkeeping.agrees_edit a.perform).outcomes hts
    simp only [noting, Program.noted, Program.run, hx, hy]
    exact ih r group _ _ ⟨hw.model, hw.agenda, hw.world, hw.journal⟩
  | spawn k id description generator program next _ ih =>
    intro t s hts
    obtain ⟨r, t', s', hx, hy, hw⟩ :=
      (Bookkeeping.agrees_edit (Edit.createGroup k id description generator)).outcomes hts
    simp only [noting, Program.noted, Program.run, hx, hy]
    cases r with
    | ok g => exact ih (.ok g) group _ _ (hw.insert k id (program g))
    | error e => exact ih (.error e) group _ _ hw
  | attach direction program next _ ih =>
    intro t s hts
    have ho : t.model.checkObjectiveOpen = s.model.checkObjectiveOpen := by rw [hts.model]
    simp only [noting, Program.noted, Program.run, ho]
    cases s.model.checkObjectiveOpen with
    | ok u => exact ih (.ok ()) group _ _ (hts.attach direction program)
    | error e => exact ih (.error e) group _ _ hts

end Runs

variable {η κ ω : Type} {A : Adapter Float η κ}

/-- The deed with settings noted. -/
def Deed.noted : Deed A ω → Deed A (ω × List (Setting Float))
  | .create key id adapter => .create key id adapter
  | .operate key o => .operate key ((noting key).operation o)
  | .importModel key store => .importModel key store
  | .importGroup key store k id => .importGroup key store k id
  | .exportModel key store => .exportModel key store
  | .files t => .files t

/-- The bench, on which all that waits notes its settings. -/
def Bench.noted (key : String) (b : Bench A ω) : Bench A (ω × List (Setting Float)) :=
  ⟨b.model, (noting key).agenda b.agenda⟩

namespace Workspace

/-- The workspace with an empty list of settings. -/
def noting (w : Workspace A ω) : Workspace A (ω × List (Setting Float)) where
  world := (w.world, [])
  benches := w.benches.map Bench.noted
  created := w.created
  files := w.files
  journal := w.journal

/-- The first workspace is the second one with a list of settings. -/
structure Notes (t : Workspace A (ω × List (Setting Float))) (w : Workspace A ω) : Prop where
  world : t.world.1 = w.world
  benches : t.benches = w.benches.map Bench.noted
  created : t.created = w.created
  files : t.files = w.files
  journal : t.journal = w.journal

variable {t : Workspace A (ω × List (Setting Float))} {w : Workspace A ω}

theorem notes_noting (w : Workspace A ω) : w.noting.Notes w := ⟨rfl, rfl, rfl, rfl, rfl⟩

namespace Notes

theorem find? (h : t.Notes w) (key : String) :
    t.benches.find? key = (w.benches.find? key).map (Bench.noted key) := by
  rw [h.benches, Table.find?_map]

theorem insert (h : t.Notes w) (key : String) (b : Bench A ω) :
    t.benches.insert key (b.noted key) = (w.benches.insert key b).map Bench.noted := by
  rw [h.benches, Table.map_insert]

theorem operate (h : t.Notes w) (key : String) (b : Bench A ω) (o : Operation A ω) :
    (t.operate key (b.noted key) ((Milp.noting key).operation o)).Notes (w.operate key b o) := by
  have hruns : (Milp.noting key).Follows (t.runOf (b.noted key)) (w.runOf b) :=
    ⟨rfl, rfl, h.world, h.journal⟩
  have hafter := (faithful_noting key).after hruns o
  rw [operate_eq, operate_eq]
  refine ⟨hafter.world, ?_, h.created, h.files, hafter.journal⟩
  rw [hafter.model, hafter.agenda]
  exact h.insert key ⟨((w.runOf b).after o).model, ((w.runOf b).after o).agenda⟩

theorem importing {β : Type} (h : t.Notes w) (key : String) (b : Bench A ω)
    (work : FileTree → Store.Import A β) :
    (t.importing key (b.noted key) work).2.Notes (w.importing key b work).2 := by
  unfold Workspace.importing
  rw [h.files, h.journal]
  exact ⟨h.world, h.insert key { b with model := _ }, h.created, rfl, rfl⟩

theorem exporting {β : Type} (h : t.Notes w) (work : Store.Export β) :
    (t.exporting work).2.Notes (w.exporting work).2 := by
  unfold Workspace.exporting
  rw [h.files, h.journal]
  exact ⟨h.world, h.benches, h.created, rfl, rfl⟩

/-- Noting settings changes nothing that a deed does, -/
theorem after (h : t.Notes w) (d : Deed A ω) : (t.after d.noted).Notes (w.after d) := by
  cases d with
  | create key id adapter =>
    simp only [Deed.noted, Workspace.after, create, h.created, h.journal]
    exact ⟨h.world, h.insert key { model := .new ⟨w.created⟩ id adapter }, rfl, h.files, rfl⟩
  | operate key o =>
    simp only [Deed.noted, Workspace.after, h.find?]
    cases w.benches.find? key with
    | some b => exact h.operate key b o
    | none => exact h
  | importModel key store =>
    simp only [Deed.noted, Workspace.after, h.find?]
    cases w.benches.find? key with
    | some b => exact h.importing key b _
    | none => exact h
  | importGroup key store k id =>
    simp only [Deed.noted, Workspace.after, h.find?]
    cases w.benches.find? key with
    | some b => exact h.importing key b _
    | none => exact h
  | exportModel key store =>
    simp only [Deed.noted, Workspace.after, h.find?]
    cases w.benches.find? key with
    | some b => exact h.exporting _
    | none => exact h
  | files t' => exact ⟨h.world, h.benches, h.created, rfl, h.journal⟩

/-- or that is done by many of them. -/
theorem afterAll (h : t.Notes w) (ds : List (Deed A ω)) :
    (t.afterAll (ds.map Deed.noted)).Notes (w.afterAll ds) := by
  induction ds generalizing t w with
  | nil => exact h
  | cons d rest ih => exact ih (h.after d)

end Notes

end Workspace
end Milp
