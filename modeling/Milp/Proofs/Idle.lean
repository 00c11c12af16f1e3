import Milp.Proofs.Solves
import Milp.Proofs.Transparency

/-! Initialization when no program waits: a plain sequence of steps, which can be evaluated. -/
namespace Milp

variable {α β γ η κ ω : Type} {A : Adapter α η κ}

theorem bind_congr_at {ε σ : Type} {x : ExceptT ε (StateM σ) β} {f g : β → ExceptT ε (StateM σ) γ}
    {s : σ} (h : ∀ b, f b (x s).2 = g b (x s).2) : (x >>= f) s = (x >>= g) s := by
  rw [bind_apply, bind_apply]
  revert h
  match x s with
  | (.ok b, t) => exact fun h => h b
  | (.error e, t) => exact fun _ => rfl

namespace Run

/-- The step leaves the programs that wait as they are. -/
def KeepsAgenda (x : Step A ω β) : Prop := ∀ s, (x s).2.agenda = s.agenda

theorem KeepsAgenda.bind {x : Step A ω β} {f : β → Step A ω γ} (h : KeepsAgenda x)
    (hf : ∀ b, KeepsAgenda (f b)) :
    KeepsAgenda (x >>= f) := by
  intro s
  have hs := h s
  rw [bind_apply]
  revert hs
  match x s with
  | (.ok b, t) => exact fun hs => (hf b t).trans hs
  | (.error e, t) => exact id

theorem KeepsAgenda.forM {l : List γ} {f : γ → Step A ω Unit} (h : ∀ c, KeepsAgenda (f c)) :
    KeepsAgenda (l.forM f) := by
  induction l with
  | nil => exact fun _ => rfl
  | cons c rest ih => exact (h c).bind fun _ => ih

theorem keepsAgenda_call (occasion : Occasion) (h : Hook A.State β) :
    KeepsAgenda (call occasion h : Step A ω β) := by
  refine KeepsAgenda.bind (fun _ => rfl) fun r => ?_
  cases r with
  | ok b => exact fun _ => rfl
  | error e => exact fun _ => rfl

theorem keepsAgenda_initModel : KeepsAgenda (initModel : Step A ω Unit) :=
  KeepsAgenda.bind (fun _ => rfl) fun _ => KeepsAgenda.bind (fun _ => rfl) fun _ =>
    keepsAgenda_call _ _

theorem keepsAgenda_initVariables : KeepsAgenda (initVariables : Step A ω Unit) := by
  refine KeepsAgenda.bind (fun _ => rfl) fun _ => KeepsAgenda.bind (fun _ => rfl) fun s =>
    KeepsAgenda.bind (KeepsAgenda.forM fun e => ?_) fun _ => fun _ => rfl
  exact (keepsAgenda_call _ _).bind fun _ _ => rfl

theorem withPrograms_self (s : Run A ω) (k : Kind) :
    s.withPrograms k (s.agenda.programs k) = s := by
  cases k <;> rfl

variable [Unbounded α]

/-- The phases of a model whose groups are filled already. -/
def plainPhases : Step A ω Unit := do
  initModel
  enter .constantGroups
  enter .variableGroups
  initVariables
  enter .constraintGroups
  ensureSound
  initConstraints
  initObjective

variable {s : Run A ω}

/-- Without programs that wait, a round of groups only enters its phase. -/
theorem runGroups_idle {phase : Phase} {k : Kind} (h : (s.agenda.programs k).isEmpty = true) :
    runGroups phase k s = enter phase s := by
  have hr : runGroups phase k s =
      (.ok (), (enter phase s).2.withPrograms k (s.agenda.programs k)) :=
    Program.rounds_empty (s := (enter phase s).2) h
  exact hr.trans (congrArg (Prod.mk _) (withPrograms_self (enter phase s).2 k))

theorem phases_idle (h : ∀ k, (s.agenda.programs k).isEmpty = true) : phases s = plainPhases s := by
  have hgroups {phase : Phase} {k : Kind} {f g : Unit → Step A ω Unit} {t : Run A ω}
      (ht : t.agenda = s.agenda) (hfg : ∀ t : Run A ω, t.agenda = s.agenda → f () t = g () t) :
      (runGroups phase k >>= f) t = (enter phase >>= g) t := by
    have hr : runGroups phase k t = enter phase t := runGroups_idle (ht ▸ h k)
    rw [bind_apply, hr]
    exact hfg (enter phase t).2 ht
  refine bind_congr_at fun _ => hgroups (keepsAgenda_initModel s) fun t ht =>
    hgroups ht fun t ht => ?_
  refine bind_congr_at fun _ => hgroups ((keepsAgenda_initVariables t).trans ht) fun _ _ => rfl

theorem ensureSound_apply (hi : s.model.issues.isEmpty = true) : ensureSound s = (.ok (), s) := by
  change ((if s.model.issues.isEmpty = true then _ else _ : Step A ω Unit) s) = _
  rw [if_pos hi]
  rfl

/-- A model that has issues is refused, and stays as it is. -/
theorem init_unsound (hs : s.model.stage = .declaring) (hi : s.model.issues.isEmpty = false) :
    Run.init s =
      (.error (.invalid s.model.issues), s.record (s.model.issues.map .issueFound)) := by
  have hsound : ensureSound s =
      (.error (.invalid s.model.issues), s.record (s.model.issues.map .issueFound)) := by
    change ((if s.model.issues.isEmpty = true then _ else _ : Step A ω Unit) s) = _
    rw [hi]
    rfl
  rw [init_apply hs, handOver, bind_apply, hsound]

/-- A sound model that comes through the phases is initialized. -/
theorem init_of_phases {t : Run A ω} (hs : s.model.stage = .declaring)
    (hi : s.model.issues.isEmpty = true)
    (hp : phases (s.record [.initStarted s.model.adapterName]) = (.ok (), t)) :
    Run.init s = (.ok (), { t with
      model := { t.model with stage := .initialized }
      journal := t.journal ++ [.initFinished t.model.columns.size t.model.lines.size] }) := by
  rw [init_apply hs, handOver, bind_apply, ensureSound_apply hi]
  change (tryCatch phases _ >>= _ : Step A ω Unit)
    (s.record [.initStarted s.model.adapterName]) = _
  rw [bind_apply, tryCatch_apply, hp]
  rfl

theorem stage_init (hs : s.model.stage = .declaring) (hi : s.model.issues.isEmpty = true)
    (hp : (phases (s.record [.initStarted s.model.adapterName])).1.isOk = true) :
    (Run.init s).2.model.stage = .initialized := by
  match hr : phases (s.record [.initStarted s.model.adapterName]) with
  | (.ok (), t) => rw [init_of_phases hs hi hr]
  | (.error e, t) => simp [hr, Except.isOk, Except.toBool] at hp

/-- Without programs that wait, an initialized model can be evaluated. -/
theorem after_init_idle (h : ∀ k, (s.agenda.programs k).isEmpty = true)
    (hs : s.model.stage = .declaring) (hi : s.model.issues.isEmpty = true)
    (hp : (plainPhases (s.record [.initStarted s.model.adapterName])).1.isOk = true) :
    s.after .init =
      let t := (plainPhases (s.record [.initStarted s.model.adapterName])).2
      { t with
        model := { t.model with stage := .initialized }
        journal := t.journal ++ [.initFinished t.model.columns.size t.model.lines.size] } := by
  have hidle := phases_idle (s := s.record [.initStarted s.model.adapterName]) h
  match hr : plainPhases (s.record [.initStarted s.model.adapterName]) with
  | (.ok (), t) => rw [after, init_of_phases hs hi (hidle.trans hr)]
  | (.error e, t) => simp [hr, Except.isOk, Except.toBool] at hp

end Run
end Milp
