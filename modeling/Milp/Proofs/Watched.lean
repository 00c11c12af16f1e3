import Milp.Proofs.Bookkeeping

/-! Programs that keep a record of their own: which groups were accepted with a program, and which of
these programs ran to their end. Keeping it changes nothing else. -/
namespace Milp

variable {α β γ η κ ω : Type} {A : Adapter α η κ}

/-- An entry in the record. A group is accepted at a stage of the model. -/
inductive Mark
  | accepted (k : Kind) (id : String) (stage : Stage)
  | ran (k : Kind) (id : String)
deriving DecidableEq

/-- What the end of a program adds to the record. -/
def Mark.last {ε β : Type} (group : Option (Kind × String)) (r : Except ε β) : List Mark :=
  match group, r with
  | some g, .ok _ => [.ran g.1 g.2]
  | _, _ => []

/-- What creating a group with a program adds to it. -/
def Mark.created {ε β : Type} (k : Kind) (id : String) (stage : Stage) (r : Except ε β) : List Mark :=
  match r with
  | .ok _ => [.accepted k id stage]
  | .error _ => []

namespace Program

/-- Adds to the record and goes on. -/
def mark {p : Purpose} (ms : List Mark) (next : Program A (ω × List Mark) p) :
    Program A (ω × List Mark) p :=
  .share (fun w => (w.1, w.2 ++ ms)) fun _ => next

/-- The program with the record, run for a group or for none. -/
def watched (group : Option (Kind × String)) :
    {p : Purpose} → Program A ω p → Program A (ω × List Mark) p
  | _, .finish r => mark (Mark.last group r) (.finish r)
  | _, .read next => .read fun m => (next m).watched group
  | _, .share f next => .share (fun w => (f w.1, w.2)) fun w => (next w.1).watched group
  | _, .note events next => .note events (next.watched group)
  | _, .act a next => .act a fun r => (next r).watched group
  | _, .spawn k id description generator program next => .read fun m =>
    .spawn k id description generator (fun g => (program g).watched (some (k, id))) fun r =>
      mark (Mark.created k id m.stage r) ((next r).watched group)
  | _, .attach direction program next =>
    .attach direction (program.watched none) fun r => (next r).watched group

end Program

def Operation.watched : Operation A ω → Operation A (ω × List Mark)
  | .declare P => .declare (P.watched none)
  | .init => .init
  | .compute => .compute
  | .extract => .extract

/-- The programs of a kind, each watched for its group. -/
def Table.watched (k : Kind) (t : Table (Program A ω .group)) :
    Table (Program A (ω × List Mark) .group) :=
  t.map fun id P => P.watched (some (k, id))

def Agenda.watched (a : Agenda A ω) : Agenda A (ω × List Mark) where
  vars := a.vars.watched .var
  constraints := a.constraints.watched .constraint
  constants := a.constants.watched .constant
  objective := a.objective.map fun o => (o.1, o.2.watched none)

namespace Run

/-- The first run is the second one with a record. -/
structure Watches (t : Run A (ω × List Mark)) (s : Run A ω) : Prop where
  model : t.model = s.model
  agenda : t.agenda = s.agenda.watched
  world : t.world.1 = s.world
  journal : t.journal = s.journal

/-- From runs of which one watches the other, two steps answer the same, and leave such runs. -/
def Matches (x : Step A (ω × List Mark) β) (y : Step A ω β) : Prop :=
  ∀ t s, t.Watches s → (x t).1 = (y s).1 ∧ (x t).2.Watches (y s).2

theorem watches_new (token : Token) (id : String) (start : A.State) (world : ω) :
    (new token id start (world, []) : Run A (ω × List Mark)).Watches (new token id start world) :=
  ⟨rfl, rfl, rfl, rfl⟩

/-- To keep the record is to keep books. -/
def marking : Bookkeeping A (ω × List Mark) ω where
  shared := Prod.fst
  program group _ P := P.watched group

theorem watches_iff_follows {t : Run A (ω × List Mark)} {s : Run A ω} :
    t.Watches s ↔ marking.Follows t s :=
  ⟨fun h => ⟨h.model, h.agenda, h.world, h.journal⟩, fun h => ⟨h.model, h.agenda, h.world, h.journal⟩⟩

theorem Watches.entries {t : Run A (ω × List Mark)} {s : Run A ω} (h : t.Watches s) {k : Kind} :
    (t.agenda.programs k).entries =
      (s.agenda.programs k).entries.map fun e => (e.1, e.2.watched (some (k, e.1))) :=
  (watches_iff_follows.mp h).entries

theorem Matches.of_agrees {x : Step A (ω × List Mark) β} {y : Step A ω β}
    (h : marking.Agrees x y) : Matches x y := fun t s hts =>
  (h t s (watches_iff_follows.mp hts)).imp_right watches_iff_follows.mpr

/-- Steps that do not look at the programs have nothing to do with the record. -/
theorem Local.matches {x : ∀ ω, Step A ω β} (h : Local x) (ω : Type) :
    Matches (x (ω × List Mark)) (x ω) :=
  .of_agrees (Bookkeeping.agrees_of_local h)

variable [Unbounded α]

theorem faithful_marking : (marking (A := A) (ω := ω)).Faithful := by
  intro group p P
  induction P generalizing group with
  | finish r => exact fun t s hts => ⟨rfl, hts.model, hts.agenda, hts.world, hts.journal⟩
  | read next ih =>
    intro t s hts
    simp only [marking, Program.watched, Program.run, hts.model]
    exact ih s.model group t s hts
  | share f next ih =>
    intro t s hts
    have hworld : t.world.1 = s.world := hts.world
    simp only [marking, Program.watched, Program.run, hworld]
    exact ih s.world group _ _ ⟨hts.model, hts.agenda, rfl, hts.journal⟩
  | note events next ih => exact fun t s hts => ih group _ _ (hts.record events)
  | act a next ih =>
    intro t s hts
    obtain ⟨r, t', s', hx, hy, hw⟩ := (Bookkeeping.agrees_edit a.perform).outcomes hts
    simp only [marking, Program.watched, Program.run, hx, hy]
    exact ih r group t' s' hw
  | spawn k id description generator program next _ ih =>
    intro t s hts
    obtain ⟨r, t', s', hx, hy, hw⟩ :=
      (Bookkeeping.agrees_edit (Edit.createGroup k id description generator)).outcomes hts
    simp only [marking, Program.watched, Program.mark, Program.run, hx, hy]
    cases r with
    | ok g =>
      have hw' := hw.insert k id (program g)
      exact ih (.ok g) group _ _ ⟨hw'.model, hw'.agenda, hw'.world, hw'.journal⟩
    | error e => exact ih (.error e) group _ _ ⟨hw.model, hw.agenda, hw.world, hw.journal⟩
  | attach direction program next _ ih =>
    intro t s hts
    have ho : t.model.checkObjectiveOpen = s.model.checkObjectiveOpen := by rw [hts.model]
    simp only [marking, Program.watched, Program.run, ho]
    cases s.model.checkObjectiveOpen with
    | ok u => exact ih (.ok ()) group _ _ (hts.attach direction program)
    | error e => exact ih (.error e) group _ _ hts

/-- A round of all that waits, taken off the agenda first. -/
theorem matches_waiting (phase : Phase) (k : Kind) {t : Run A (ω × List Mark)} {s : Run A ω}
    (h : t.Watches s) :
    ∃ r t' s', Program.runAll phase (t.agenda.programs k).entries (t.withPrograms k .empty) =
        (r, t') ∧
      Program.runAll phase (s.agenda.programs k).entries (s.withPrograms k .empty) = (r, s') ∧
      t'.Watches s' := by
  obtain ⟨r, t', s', ht, hs, hw⟩ := faithful_marking.waiting phase k (watches_iff_follows.mp h)
  exact ⟨r, t', s', ht, hs, watches_iff_follows.mpr hw⟩

theorem matches_rounds (phase : Phase) (k : Kind) (done : List (String × Program A ω .group))
    (s : Run A ω) (t : Run A (ω × List Mark)) (hts : t.Watches s) :
    (Program.rounds phase k (done.map fun e => (e.1, e.2.watched (some (k, e.1)))) t).1 =
        (Program.rounds phase k done s).1 ∧
      (Program.rounds phase k (done.map fun e => (e.1, e.2.watched (some (k, e.1)))) t).2.Watches
        (Program.rounds phase k done s).2 :=
  (faithful_marking.rounds phase k done s t (watches_iff_follows.mp hts)).imp_right
    watches_iff_follows.mpr

theorem matches_buildObjective :
    Matches (ω := ω) (A := A) Run.buildObjective Run.buildObjective :=
  .of_agrees faithful_marking.buildObjective

theorem matches_init : Matches (ω := ω) (A := A) Run.init Run.init :=
  .of_agrees faithful_marking.init

/-- A watched run does what the run itself does, operation by operation. -/
theorem Watches.after {t : Run A (ω × List Mark)} {s : Run A ω} (h : t.Watches s)
    (o : Operation A ω) : (t.after o.watched).Watches (s.after o) := by
  have hoperation : o.watched = marking.operation o := by cases o <;> rfl
  rw [hoperation]
  exact watches_iff_follows.mpr (faithful_marking.after (watches_iff_follows.mp h) o)

theorem Watches.afterAll {t : Run A (ω × List Mark)} {s : Run A ω} (h : t.Watches s)
    (os : List (Operation A ω)) :
    (t.afterAll (os.map Operation.watched)).Watches (s.afterAll os) := by
  induction os generalizing t s with
  | nil => exact h
  | cons o rest ih => exact ih (h.after o)

end Run
end Milp
