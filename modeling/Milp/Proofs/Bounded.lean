import Milp.Proofs.Idle

/-! Initialization within so many rounds to a phase: when that is enough, it is the initialization itself,
in a form that can be evaluated. -/
namespace Milp

variable {α β γ η κ ω : Type} {A : Adapter α η κ} [Unbounded α]

/-- So many rounds at most; none if there would be more. -/
def Program.roundsWithin (phase : Phase) (k : Kind) :
    Nat → List (String × Program A ω .group) → Run A ω →
      Option (Except (ModelError α) Unit × Run A ω)
  | 0, _, _ => none
  | n + 1, done, s =>
    let pending := s.agenda.programs k
    if pending.isEmpty then some (.ok (), s.withPrograms k (pending.insertAll done))
    else
      let done := done ++ pending.entries
      match runAll phase pending.entries (s.withPrograms k .empty) with
      | (.ok (), t) => roundsWithin phase k n done t
      | (.error e, t) => some (.error e, t.withPrograms k ((t.agenda.programs k).insertAll done))

theorem Program.rounds_eq_of_within {phase : Phase} {k : Kind} {n : Nat}
    {done : List (String × Program A ω .group)} {s : Run A ω}
    {r : Except (ModelError α) Unit × Run A ω} (h : roundsWithin phase k n done s = some r) :
    rounds phase k done s = r := by
  induction n generalizing done s with
  | zero => cases h
  | succ n ih =>
    simp only [roundsWithin] at h
    split at h
    next he => rw [rounds_empty he, Option.some.inj h]
    next he =>
      have he : (s.agenda.programs k).isEmpty = false := by simpa using he
      split at h
      next t ht => exact (rounds_ok he ht).trans (ih h)
      next e t ht => rw [rounds_error he ht, Option.some.inj h]

/-- Some number of rounds is always enough. -/
theorem Program.exists_roundsWithin (phase : Phase) (k : Kind) (done : List (String × Program A ω .group))
    (s : Run A ω) : ∃ n, roundsWithin phase k n done s = some (rounds phase k done s) := by
  fun_induction rounds phase k done s with
  | case1 done s pending he => exact ⟨1, if_pos he⟩
  | case2 done s pending he done' t ht ih =>
    obtain ⟨n, hn⟩ := ih
    refine ⟨n + 1, (if_neg he).trans ?_⟩
    rw [ht]
    exact hn
  | case3 done s pending he done' e t ht =>
    refine ⟨1, (if_neg he).trans ?_⟩
    rw [ht]

namespace Run

/-- Where the first step succeeds, it does what the second one does. -/
def Attains (x y : Step A ω β) : Prop := ∀ s b t, x s = (.ok b, t) → y s = (.ok b, t)

omit [Unbounded α] in
theorem attains_refl (x : Step A ω β) : Attains x x := fun _ _ _ h => h

omit [Unbounded α] in
theorem Attains.bind {x y : Step A ω β} {f g : β → Step A ω γ} (h : Attains x y)
    (hf : ∀ b, Attains (f b) (g b)) : Attains (x >>= f) (y >>= g) := by
  intro s c u hs
  rw [bind_apply] at hs ⊢
  match hx : x s with
  | (.ok b, t) =>
    rw [hx] at hs
    rw [h s b t hx]
    exact hf b t c u hs
  | (.error e, t) =>
    rw [hx] at hs
    cases hs

omit [Unbounded α] in
theorem Attains.of_isOk {x y : Step A ω Unit} (h : Attains x y) {s : Run A ω} (hx : (x s).1.isOk = true) :
    y s = (.ok (), (x s).2) := by
  refine h s () _ ?_
  match hr : x s with
  | (.ok (), t) => rfl
  | (.error e, t) => simp [hr, Except.isOk, Except.toBool] at hx

def runGroupsWithin (n : Nat) (phase : Phase) (k : Kind) : Step A ω Unit := do
  enter phase
  fun s => (Program.roundsWithin phase k n [] s).getD (.error (.invalid []), s)

/-- The phases, with a bound to the rounds of each. -/
def phasesWithin (n : Nat) : Step A ω Unit := do
  initModel
  runGroupsWithin n .constantGroups .constant
  runGroupsWithin n .variableGroups .var
  initVariables
  runGroupsWithin n .constraintGroups .constraint
  ensureSound
  initConstraints
  initObjective

theorem attains_runGroupsWithin (n : Nat) (phase : Phase) (k : Kind) :
    Attains (runGroupsWithin n phase k : Step A ω Unit) (runGroups phase k) := by
  refine (attains_refl _).bind fun _ s u t h => ?_
  cases hr : Program.roundsWithin phase k n [] s with
  | none =>
    rw [hr] at h
    cases h
  | some r =>
    rw [hr] at h
    exact (Program.rounds_eq_of_within hr).trans h

theorem attains_phasesWithin (n : Nat) : Attains (phasesWithin n : Step A ω Unit) phases :=
  (attains_refl _).bind fun _ => (attains_runGroupsWithin n _ _).bind fun _ =>
    (attains_runGroupsWithin n _ _).bind fun _ => (attains_refl _).bind fun _ =>
      (attains_runGroupsWithin n _ _).bind fun _ => attains_refl _

/-- An initialization that comes through its phases within a bound can be evaluated. -/
theorem init_within {s : Run A ω} (n : Nat) (hs : s.model.stage = .declaring)
    (hi : s.model.issues.isEmpty = true)
    (hp : (phasesWithin n (s.record [.initStarted s.model.adapterName])).1.isOk = true) :
    Run.init s =
      let t := (phasesWithin n (s.record [.initStarted s.model.adapterName])).2
      (.ok (), { t with
        model := { t.model with stage := .initialized }
        journal := t.journal ++ [.initFinished t.model.columns.size t.model.lines.size] }) := by
  match hr : phasesWithin n (s.record [.initStarted s.model.adapterName]) with
  | (.ok (), t) => exact init_of_phases hs hi (attains_phasesWithin n _ _ _ hr)
  | (.error e, t) => simp [hr, Except.isOk, Except.toBool] at hp

end Run
end Milp
