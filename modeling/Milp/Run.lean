import Milp.Issues
import Milp.Spawning

/-! A model with its programs, the state that they share, and the journal of what happened. -/
namespace Milp

structure Run {α η κ : Type} (A : Adapter α η κ) (ω : Type) where
  model : Model A
  agenda : Agenda A ω := {}
  world : ω
  journal : List (Event α) := []

/-- Work on a run. What was done before a failure stays done. -/
abbrev Step {α η κ : Type} (A : Adapter α η κ) (ω β : Type) := ExceptT (ModelError α) (StateM (Run A ω)) β

namespace Run

variable {α η κ ω β : Type} {A : Adapter α η κ}

def record (s : Run A ω) (events : List (Event α)) : Run A ω := { s with journal := s.journal ++ events }

def withPrograms (s : Run A ω) (k : Kind) (t : Table (Program A ω .group)) : Run A ω :=
  { s with agenda := s.agenda.withPrograms k t }

/-- Work on the model alone. -/
def edit (e : Edit A β) : Step A ω β := fun s =>
  let r := e (s.model, s.journal)
  (r.1, { s with model := r.2.1, journal := r.2.2 })

@[simp] theorem agenda_edit (e : Edit A β) (s : Run A ω) : (edit e s).2.agenda = s.agenda := rfl

theorem agenda_eq_of_edit {e : Edit A β} {s s' : Run A ω} {r : Except (ModelError α) β}
    (h : edit e s = (r, s')) : s'.agenda = s.agenda := by
  rw [← agenda_edit e s, h]

end Run

namespace Program

variable {α η κ ω : Type} {A : Adapter α η κ} [Unbounded α]

/-- Runs a program to its end. The programs that it leaves behind are put on the agenda. -/
def run : {p : Purpose} → Program A ω p → Step A ω (p.Value α)
  | _, .finish r, s => (r, s)
  | _, .read next, s => (next s.model).run s
  | _, .share f next, s => (next s.world).run { s with world := f s.world }
  | _, .note events next, s => next.run (s.record events)
  | _, .act a next, s =>
    let (r, s) := Run.edit a.perform s
    (next r).run s
  | _, .spawn k id description generator program next, s =>
    match Run.edit (Edit.createGroup k id description generator) s with
    | (.ok g, s) => (next (.ok g)).run (s.withPrograms k ((s.agenda.programs k).insert id (program g)))
    | (.error e, s) => (next (.error e)).run s
  | _, .attach direction program next, s =>
    match s.model.checkObjectiveOpen with
    | .ok () => (next (.ok ())).run { s with agenda := { s.agenda with objective := some (direction, program) } }
    | .error e => (next (.error e)).run s

end Program

namespace Agenda

variable {α η κ ω : Type} {A : Adapter α η κ}

@[simp] theorem programs_withPrograms_self (a : Agenda A ω) (k : Kind) (t : Table (Program A ω .group)) :
    (a.withPrograms k t).programs k = t := by
  cases k <;> rfl

theorem programs_withPrograms_of_ne (a : Agenda A ω) {k k' : Kind} (h : k' ≠ k)
    (t : Table (Program A ω .group)) : (a.withPrograms k t).programs k' = a.programs k' := by
  cases k <;> cases k' <;> first | rfl | exact absurd rfl h

end Agenda

theorem Table.mem_values_insert {β : Type} {t : Table β} {k : String} {v w : β}
    (h : w ∈ (t.insert k v).values) : w = v ∨ w ∈ t.values := by
  obtain ⟨e, he, rfl⟩ := List.mem_map.mp h
  rcases Table.mem_place he with rfl | he
  · exact .inl rfl
  · exact .inr (List.mem_map_of_mem he)

namespace Program

variable {α η κ ω : Type} {A : Adapter α η κ} [Unbounded α]

/-- What a run puts on the agenda was left behind by the program. -/
theorem mem_programs_run {p : Purpose} (P : Program A ω p) (k : Kind) (s : Run A ω) :
    ∀ Q ∈ ((P.run s).2.agenda.programs k).values, Q ∈ (s.agenda.programs k).values ∨ Spawns P Q := by
  induction P generalizing s with
  | finish r => intro Q h; exact .inl h
  | read next ih => intro Q h; exact (ih _ _ Q h).imp id (.read _)
  | share f next ih => intro Q h; exact (ih _ _ Q h).imp id (.share _)
  | note events next ih => intro Q h; exact (ih _ Q h).imp id .note
  | act a next ih => intro Q h; exact (ih _ _ Q h).imp id (.act _)
  | spawn k' id description generator program next _ ih =>
    intro Q h
    simp only [run] at h
    split at h
    next g s' hs =>
      have hs' : s'.agenda = s.agenda := Run.agenda_eq_of_edit hs
      rcases ih _ _ Q h with h | h
      · by_cases hk : k = k'
        · subst hk
          simp only [Run.withPrograms, Agenda.programs_withPrograms_self, hs'] at h
          rcases Table.mem_values_insert h with rfl | h
          · exact .inr (.here g)
          · exact .inl h
        · simp only [Run.withPrograms, Agenda.programs_withPrograms_of_ne _ hk, hs'] at h
          exact .inl h
      · exact .inr (.spawn _ h)
    next e s' hs =>
      have hs' : s'.agenda = s.agenda := Run.agenda_eq_of_edit hs
      exact (ih _ _ Q h).imp (hs' ▸ ·) (.spawn _)
  | attach direction program next _ ih =>
    intro Q h
    simp only [run] at h
    split at h
    · refine (ih _ _ Q h).imp (fun h => ?_) (.attach _)
      cases k <;> exact h
    · exact (ih _ _ Q h).imp id (.attach _)

end Program
end Milp
