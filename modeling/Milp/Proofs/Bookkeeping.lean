import Milp.Proofs.Lifecycle
import Milp.Proofs.Local
import Milp.Proofs.Transparency

/-! Programs that keep books beside what they share. As long as each of them does what it did without
books, so does every operation on a model, and every life. -/
namespace Milp

variable {α β γ η κ ω ω' : Type} {A : Adapter α η κ}

/-- How programs keep books: each is written anew, for its group or for none, on a shared state that has
the old one in it. -/
structure Bookkeeping (A : Adapter α η κ) (ω' ω : Type) where
  shared : ω' → ω
  program : Option (Kind × String) → {p : Purpose} → Program A ω p → Program A ω' p

namespace Bookkeeping

variable (B : Bookkeeping A ω' ω)

/-- The programs of a kind, each written for its group. -/
def table (k : Kind) (t : Table (Program A ω .group)) : Table (Program A ω' .group) :=
  t.map fun id P => B.program (some (k, id)) P

def agenda (a : Agenda A ω) : Agenda A ω' where
  vars := B.table .var a.vars
  constraints := B.table .constraint a.constraints
  constants := B.table .constant a.constants
  objective := a.objective.map fun o => (o.1, B.program none o.2)

def operation : Operation A ω → Operation A ω'
  | .declare P => .declare (B.program none P)
  | .init => .init
  | .compute => .compute
  | .extract => .extract

theorem programs_agenda (a : Agenda A ω) (k : Kind) :
    (B.agenda a).programs k = B.table k (a.programs k) := by
  cases k <;> rfl

theorem agenda_withPrograms (a : Agenda A ω) (k : Kind) (t : Table (Program A ω .group)) :
    B.agenda (a.withPrograms k t) = (B.agenda a).withPrograms k (B.table k t) := by
  cases k <;> rfl

theorem table_insert (k : Kind) (t : Table (Program A ω .group)) (id : String)
    (P : Program A ω .group) :
    B.table k (t.insert id P) = (B.table k t).insert id (B.program (some (k, id)) P) :=
  Table.map_insert (fun id P => B.program (some (k, id)) P) t id P

theorem table_insertAll (k : Kind) (t : Table (Program A ω .group))
    (done : List (String × Program A ω .group)) :
    B.table k (t.insertAll done) =
      (B.table k t).insertAll (done.map fun e => (e.1, B.program (some (k, e.1)) e.2)) := by
  induction done generalizing t with
  | nil => rfl
  | cons e rest ih => exact (ih _).trans (congrArg (Table.insertAll · _) (B.table_insert k t e.1 e.2))

/-- The first run is the second one with books. -/
structure Follows (t : Run A ω') (s : Run A ω) : Prop where
  model : t.model = s.model
  agenda : t.agenda = B.agenda s.agenda
  world : B.shared t.world = s.world
  journal : t.journal = s.journal

/-- From runs of which one follows the other, two steps answer the same, and leave such runs. -/
def Agrees (x : Step A ω' β) (y : Step A ω β) : Prop :=
  ∀ t s, B.Follows t s → (x t).1 = (y s).1 ∧ B.Follows (x t).2 (y s).2

variable {B} {t : Run A ω'} {s : Run A ω}

namespace Follows

theorem record (h : B.Follows t s) (events : List (Event α)) :
    B.Follows (t.record events) (s.record events) :=
  ⟨h.model, h.agenda, h.world, congrArg (· ++ events) h.journal⟩

theorem withPrograms (h : B.Follows t s) (k : Kind) (ps : Table (Program A ω .group)) :
    B.Follows (t.withPrograms k (B.table k ps)) (s.withPrograms k ps) := by
  refine ⟨h.model, ?_, h.world, h.journal⟩
  rw [Run.withPrograms, Run.withPrograms, agenda_withPrograms, h.agenda]

theorem entries (h : B.Follows t s) {k : Kind} :
    (t.agenda.programs k).entries =
      (s.agenda.programs k).entries.map fun e => (e.1, B.program (some (k, e.1)) e.2) := by
  rw [h.agenda, programs_agenda]
  rfl

theorem isEmpty (h : B.Follows t s) {k : Kind} :
    (t.agenda.programs k).isEmpty = (s.agenda.programs k).isEmpty := by
  simp [Table.isEmpty, h.entries]

/-- A program that is left behind is left behind with books. -/
theorem insert (h : B.Follows t s) (k : Kind) (id : String) (P : Program A ω .group) :
    B.Follows (t.withPrograms k ((t.agenda.programs k).insert id (B.program (some (k, id)) P)))
      (s.withPrograms k ((s.agenda.programs k).insert id P)) := by
  have hw := h.withPrograms k ((s.agenda.programs k).insert id P)
  rwa [table_insert, ← programs_agenda, ← h.agenda] at hw

theorem insertAll (h : B.Follows t s) (k : Kind) (done : List (String × Program A ω .group)) :
    B.Follows (t.withPrograms k ((t.agenda.programs k).insertAll
        (done.map fun e => (e.1, B.program (some (k, e.1)) e.2))))
      (s.withPrograms k ((s.agenda.programs k).insertAll done)) := by
  have hw := h.withPrograms k ((s.agenda.programs k).insertAll done)
  rwa [table_insertAll, ← programs_agenda, ← h.agenda] at hw

theorem attach (h : B.Follows t s) (direction : Direction) (P : Program A ω .objective) :
    B.Follows { t with agenda := { t.agenda with objective := some (direction, B.program none P) } }
      { s with agenda := { s.agenda with objective := some (direction, P) } } := by
  refine ⟨h.model, ?_, h.world, h.journal⟩
  simp only [h.agenda, Bookkeeping.agenda, Option.map_some]

end Follows

namespace Agrees

theorem outcomes {x : Step A ω' β} {y : Step A ω β} (h : B.Agrees x y) (hts : B.Follows t s) :
    ∃ r t' s', x t = (r, t') ∧ y s = (r, s') ∧ B.Follows t' s' := by
  obtain ⟨hr, hw⟩ := h t s hts
  exact ⟨(x t).1, (x t).2, (y s).2, rfl, Prod.ext hr.symm rfl, hw⟩

theorem bind {x : Step A ω' β} {y : Step A ω β} {f : β → Step A ω' γ} {g : β → Step A ω γ}
    (h : B.Agrees x y) (hf : ∀ b, B.Agrees (f b) (g b)) : B.Agrees (x >>= f) (y >>= g) := by
  intro t s hts
  obtain ⟨r, t', s', hx, hy, hw⟩ := h.outcomes hts
  rw [bind_apply, bind_apply, hx, hy]
  cases r with
  | ok b => exact hf b t' s' hw
  | error e => exact ⟨rfl, hw⟩

theorem tryCatch {x : Step A ω' β} {y : Step A ω β} {f : ModelError α → Step A ω' β}
    {g : ModelError α → Step A ω β} (h : B.Agrees x y) (hf : ∀ e, B.Agrees (f e) (g e)) :
    B.Agrees (tryCatch x f) (tryCatch y g) := by
  intro t s hts
  obtain ⟨r, t', s', hx, hy, hw⟩ := h.outcomes hts
  rw [tryCatch_apply, tryCatch_apply, hx, hy]
  cases r with
  | ok b => exact ⟨rfl, hw⟩
  | error e => exact hf e t' s' hw

end Agrees

theorem agrees_pure (b : β) : B.Agrees (pure b) (pure b) := fun _ _ h => ⟨rfl, h⟩

theorem agrees_get {f : Run A ω' → Step A ω' β} {g : Run A ω → Step A ω β}
    (h : ∀ t s, B.Follows t s → (f t t).1 = (g s s).1 ∧ B.Follows (f t t).2 (g s s).2) :
    B.Agrees (get >>= f) (get >>= g) := h

theorem agrees_edit (e : Edit A β) : B.Agrees (Run.edit e) (Run.edit e) := by
  intro t s hts
  unfold Run.edit
  rw [hts.model, hts.journal]
  exact ⟨rfl, rfl, hts.agenda, hts.world, rfl⟩

/-- Steps that do not look at the programs have nothing to do with the books. -/
theorem agrees_of_local {x : ∀ ω, Step A ω β} (h : Run.Local x) : B.Agrees (x ω') (x ω) := by
  obtain ⟨e, he⟩ := h
  rw [he, he]
  exact agrees_edit e

variable [Unbounded α]

variable (B) in
/-- Every program does with books what it does without. -/
def Faithful : Prop :=
  ∀ (group : Option (Kind × String)) {p : Purpose} (P : Program A ω p),
    B.Agrees (B.program group P).run P.run

namespace Faithful

variable (hB : B.Faithful)

include hB

theorem runAll (phase : Phase) (k : Kind) (ps : List (String × Program A ω .group)) :
    B.Agrees (Program.runAll phase (ps.map fun e => (e.1, B.program (some (k, e.1)) e.2)))
      (Program.runAll phase ps) := by
  induction ps with
  | nil => exact fun t s hts => ⟨rfl, hts⟩
  | cons e rest ih =>
    obtain ⟨group, P⟩ := e
    intro t s hts
    obtain ⟨r, t', s', hx, hy, hw⟩ :=
      (hB (some (k, group)) P).outcomes (hts.record [.initializerStarted phase group])
    simp only [List.map_cons, Program.runAll, hx, hy]
    cases r with
    | ok u => exact ih t' s' hw
    | error e => exact ⟨rfl, hw.record _⟩

/-- A round of all that waits, taken off the agenda first. -/
theorem waiting (phase : Phase) (k : Kind) (h : B.Follows t s) :
    ∃ r t' s', Program.runAll phase (t.agenda.programs k).entries (t.withPrograms k .empty) =
        (r, t') ∧
      Program.runAll phase (s.agenda.programs k).entries (s.withPrograms k .empty) = (r, s') ∧
      B.Follows t' s' := by
  rw [h.entries]
  exact (hB.runAll phase k _).outcomes (h.withPrograms k .empty)

theorem rounds (phase : Phase) (k : Kind) (done : List (String × Program A ω .group))
    (s : Run A ω) (t : Run A ω') (hts : B.Follows t s) :
    (Program.rounds phase k (done.map fun e => (e.1, B.program (some (k, e.1)) e.2)) t).1 =
        (Program.rounds phase k done s).1 ∧
      B.Follows (Program.rounds phase k
        (done.map fun e => (e.1, B.program (some (k, e.1)) e.2)) t).2
        (Program.rounds phase k done s).2 := by
  fun_induction Program.rounds phase k done s generalizing t with
  | case1 done s pending he =>
    rw [Program.rounds_empty (hts.isEmpty.trans he)]
    exact ⟨rfl, hts.insertAll k done⟩
  | case2 done s pending he done' s' hs' ih =>
    have he' : (t.agenda.programs k).isEmpty = false := hts.isEmpty.trans (by simpa using he)
    obtain ⟨r, t', u, ht', hu, hw⟩ := hB.waiting phase k hts
    cases hs'.symm.trans hu
    have h := ih t' hw
    rw [List.map_append, ← hts.entries] at h
    rw [Program.rounds_ok he' ht']
    exact h
  | case3 done s pending he done' e s' hs' =>
    have he' : (t.agenda.programs k).isEmpty = false := hts.isEmpty.trans (by simpa using he)
    obtain ⟨r, t', u, ht', hu, hw⟩ := hB.waiting phase k hts
    cases hs'.symm.trans hu
    have h := hw.insertAll k done'
    rw [List.map_append, ← hts.entries] at h
    rw [Program.rounds_error he' ht']
    exact ⟨rfl, h⟩

theorem runGroups (phase : Phase) (k : Kind) :
    B.Agrees (Run.runGroups phase k) (Run.runGroups phase k) :=
  (agrees_of_local (Run.local_enter phase)).bind fun _ t s hts => hB.rounds phase k [] s t hts

theorem buildObjective : B.Agrees Run.buildObjective Run.buildObjective := by
  refine agrees_get fun t s hts => ?_
  rw [hts.agenda, agenda]
  cases s.agenda.objective with
  | none => exact agrees_pure () t s hts
  | some o => exact ((hB none o.2).bind fun e => agrees_edit _) t s hts

theorem phases : B.Agrees Run.phases Run.phases :=
  (agrees_of_local Run.local_initModel).bind fun _ => (hB.runGroups _ _).bind fun _ =>
    (hB.runGroups _ _).bind fun _ => (agrees_of_local Run.local_initVariables).bind fun _ =>
      (hB.runGroups _ _).bind fun _ => (agrees_of_local Run.local_ensureSound).bind fun _ =>
        (agrees_of_local Run.local_initConstraints).bind fun _ =>
          (agrees_of_local (Run.local_enter _)).bind fun _ =>
            hB.buildObjective.bind fun _ => agrees_of_local Run.local_handObjective

theorem handOver : B.Agrees Run.handOver Run.handOver := by
  refine (agrees_of_local Run.local_ensureSound).bind fun _ => agrees_get fun t s hts => ?_
  rw [hts.model]
  have hphases := hB.phases.tryCatch fun e => agrees_of_local (Run.local_initFailed e)
  exact ((agrees_of_local (Run.local_log _)).bind fun _ => hphases.bind fun _ =>
    agrees_of_local Run.local_initFinished) t s hts

theorem init : B.Agrees Run.init Run.init := by
  refine agrees_get fun t s hts => ?_
  rw [hts.model]
  by_cases hs : s.model.stage ≠ .declaring
  · simpa only [if_pos hs] using
      ((agrees_of_local (Run.local_throw _)).bind fun _ => hB.handOver) t s hts
  · simpa only [if_neg hs] using hB.handOver t s hts

/-- Every operation does with books what it does without, -/
theorem after (h : B.Follows t s) (o : Operation A ω) :
    B.Follows (t.after (B.operation o)) (s.after o) := by
  cases o with
  | declare P => exact (hB none P t s h).2
  | init => exact (hB.init t s h).2
  | compute => exact (agrees_of_local Run.local_compute t s h).2
  | extract => exact (agrees_of_local Run.local_extract t s h).2

/-- and so does a whole life. -/
theorem afterAll (h : B.Follows t s) (os : List (Operation A ω)) :
    B.Follows (t.afterAll (os.map B.operation)) (s.afterAll os) := by
  induction os generalizing t s with
  | nil => exact h
  | cons o rest ih => exact ih (hB.after h o)

end Faithful
end Bookkeeping
end Milp
