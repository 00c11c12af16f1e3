import Milp.Proofs.Invariance
import Milp.Proofs.Transparency

/-! Lives in which nothing is restored: programs then only declare, and whatever declarations keep
lasts through all of initialization. -/
namespace Milp

open Relation

variable {α η κ ω : Type} {A : Adapter α η κ}

/-- The action declares what was stored. -/
def Action.Restores : Action α → Prop
  | .restore _ | .restoreVariables _ | .restoreConstraints _ | .restoreConstants _
  | .restoreHeader _ => True
  | _ => False

theorem Edit.moves_perform_declared [Unbounded α] {a : Action α} (h : ¬a.Restores) :
    Moves Model.Declared (a.perform : Edit A a.Value) := by
  cases a with
  | createGroup => exact moves_createGroup _ _ _ _
  | createVariable => exact moves_createVariable _ _ _ _ _
  | addConstraint => exact moves_addConstraint _ _ _ _ _
  | createConstant => exact moves_createConstant _ _ _
  | setConstant => exact moves_setConstant _ _
  | setObjective => exact moves_setObjective _ _
  | _ => exact absurd trivial h

/-- Whatever it is answered, the program restores nothing, nor do the programs that it leaves
behind. A program that only happens to restore nothing does what one of these does: the branches
that it does not take can be cut. -/
def Program.NeverRestores : {p : Purpose} → Program A ω p → Prop
  | _, .finish _ => True
  | _, .read next => ∀ m, (next m).NeverRestores
  | _, .share _ next => ∀ w, (next w).NeverRestores
  | _, .note _ next => next.NeverRestores
  | _, .act a next => ¬a.Restores ∧ ∀ r, (next r).NeverRestores
  | _, .spawn _ _ _ _ program next =>
    (∀ g, (program g).NeverRestores) ∧ ∀ r, (next r).NeverRestores
  | _, .attach _ program next => program.NeverRestores ∧ ∀ r, (next r).NeverRestores

def Operation.NeverRestores : Operation A ω → Prop
  | .declare P => P.NeverRestores
  | _ => True

theorem Program.NeverRestores.observed {p : Purpose} {P : Program A ω p} (h : P.NeverRestores) :
    P.observed.NeverRestores := by
  induction P with
  | finish => trivial
  | read next ih => exact fun m => ih _ (h m.unobserved)
  | share f next ih => exact fun w => ih w (h w)
  | note events next ih => exact ih h
  | act a next ih => exact ⟨h.1, fun r => ih r (h.2 r)⟩
  | spawn k id description generator program next ihp ih =>
    exact ⟨fun g => ihp g (h.1 g), fun r => ih r (h.2 r)⟩
  | attach direction program next ihp ih => exact ⟨ihp h.1, fun r => ih r (h.2 r)⟩

theorem Operation.NeverRestores.observed {o : Operation A ω} (h : o.NeverRestores) :
    o.observed.NeverRestores := by
  cases o with
  | declare P => exact Program.NeverRestores.observed h
  | _ => trivial

/-- No program that waits restores anything. -/
structure Agenda.NeverRestores (a : Agenda A ω) : Prop where
  programs : ∀ k, ∀ P ∈ (a.programs k).values, P.NeverRestores
  objective : ∀ o ∈ a.objective, o.2.NeverRestores

namespace Agenda.NeverRestores

variable {a : Agenda A ω}

theorem withPrograms (h : a.NeverRestores) (k : Kind) {t : Table (Program A ω .group)}
    (ht : ∀ P ∈ t.values, P.NeverRestores) : (a.withPrograms k t).NeverRestores where
  programs k' := by
    by_cases hk : k' = k
    · rw [hk, programs_withPrograms_self]
      exact ht
    · rw [programs_withPrograms_of_ne a hk]
      exact h.programs k'
  objective := by cases k <;> exact h.objective

theorem insertAll {t : Table (Program A ω .group)} (ht : ∀ P ∈ t.values, P.NeverRestores)
    {done : List (String × Program A ω .group)} (h : ∀ e ∈ done, e.2.NeverRestores) :
    ∀ P ∈ (t.insertAll done).values, P.NeverRestores := by
  induction done generalizing t with
  | nil => exact ht
  | cons e rest ih =>
    refine ih (fun P hP => ?_) fun d hd => h d (List.mem_cons_of_mem _ hd)
    rcases Table.mem_values_insert hP with rfl | hP
    · exact h e List.mem_cons_self
    · exact ht P hP

end Agenda.NeverRestores

namespace Run

/-- Nothing waits that restores, and the model has a property. -/
structure Unrestored (J : Model A → Prop) (s : Run A ω) : Prop where
  agenda : s.agenda.NeverRestores
  model : J s.model

variable {J : Model A → Prop} (hJ : ∀ m m', Model.Declared m m' → J m → J m')

include hJ in
theorem declared_invariant {m m' : Model A} (h : ReflTransGen Model.Declared m m') (hm : J m) :
    J m' := by
  induction h with
  | refl => exact hm
  | tail _ h ih => exact hJ _ _ h ih

include hJ in
theorem Unrestored.edit {β : Type} {s : Run A ω} (h : s.Unrestored J) {e : Edit A β}
    (he : Edit.Moves Model.Declared e) : Unrestored J (Run.edit e s).2 :=
  ⟨h.agenda, declared_invariant hJ (he (s.model, s.journal)) h.model⟩

variable [Unbounded α]

include hJ

/-- What declarations keep is kept by programs that restore nothing, -/
theorem unrestored_run {p : Purpose} {P : Program A ω p} (hP : P.NeverRestores) {s : Run A ω}
    (h : s.Unrestored J) : Unrestored J (P.run s).2 := by
  induction P generalizing s with
  | finish r => exact h
  | read next ih => exact ih _ (hP _) h
  | share f next ih => exact ih _ (hP _) ⟨h.agenda, h.model⟩
  | note events next ih => exact ih hP ⟨h.agenda, h.model⟩
  | act a next ih => exact ih _ (hP.2 _) (h.edit hJ (Edit.moves_perform_declared hP.1))
  | spawn k id description generator program next _ ih =>
    have hg := h.edit hJ (Edit.moves_createGroup k id description generator)
    simp only [Program.run]
    split
    next g t ht =>
      rw [ht] at hg
      refine ih _ (hP.2 _) ⟨hg.agenda.withPrograms k fun Q hQ => ?_, hg.model⟩
      rcases Table.mem_values_insert hQ with rfl | hQ
      · exact hP.1 g
      · exact hg.agenda.programs k Q hQ
    next e t ht =>
      rw [ht] at hg
      exact ih _ (hP.2 _) hg
  | attach direction program next _ ih =>
    simp only [Program.run]
    split
    · refine ih _ (hP.2 _) ⟨⟨h.agenda.programs, fun o ho => ?_⟩, h.model⟩
      cases ho
      exact hP.1
    · exact ih _ (hP.2 _) h

theorem unrestored_runAll (phase : Phase) {ps : List (String × Program A ω .group)}
    (hps : ∀ e ∈ ps, e.2.NeverRestores) {s : Run A ω} (h : s.Unrestored J) :
    Unrestored J (Program.runAll phase ps s).2 := by
  induction ps generalizing s with
  | nil => exact h
  | cons p rest ih =>
    obtain ⟨group, P⟩ := p
    have hr : Unrestored J (P.run (s.record [.initializerStarted phase group])).2 :=
      unrestored_run hJ (hps _ List.mem_cons_self) ⟨h.agenda, h.model⟩
    simp only [Program.runAll]
    split
    next t ht =>
      rw [ht] at hr
      exact ih (fun e he => hps e (List.mem_cons_of_mem _ he)) hr
    next e t ht =>
      rw [ht] at hr
      exact ⟨hr.agenda, hr.model⟩

/-- by the rounds in which they run, -/
theorem unrestored_rounds (phase : Phase) (k : Kind) {done : List (String × Program A ω .group)}
    (hdone : ∀ e ∈ done, e.2.NeverRestores) {s : Run A ω} (h : s.Unrestored J) :
    Unrestored J (Program.rounds phase k done s).2 := by
  have hpending (s : Run A ω) (h : s.Unrestored J) :
      ∀ e ∈ (s.agenda.programs k).entries, e.2.NeverRestores := fun e he =>
    h.agenda.programs k e.2 (List.mem_map_of_mem he)
  have hall (s : Run A ω) (h : s.Unrestored J) : Unrestored J
      (Program.runAll phase (s.agenda.programs k).entries (s.withPrograms k .empty)).2 :=
    unrestored_runAll hJ phase (hpending s h) ⟨h.agenda.withPrograms k nofun, h.model⟩
  have hback (s : Run A ω) (h : s.Unrestored J) (done : List (String × Program A ω .group))
      (hdone : ∀ e ∈ done, e.2.NeverRestores) :
      Unrestored J (s.withPrograms k ((s.agenda.programs k).insertAll done)) :=
    ⟨h.agenda.withPrograms k (Agenda.NeverRestores.insertAll (h.agenda.programs k) hdone), h.model⟩
  have hmore (s : Run A ω) (h : s.Unrestored J) {done : List (String × Program A ω .group)}
      (hdone : ∀ e ∈ done, e.2.NeverRestores) :
      ∀ e ∈ done ++ (s.agenda.programs k).entries, e.2.NeverRestores := fun e he =>
    (List.mem_append.mp he).elim (hdone e) (hpending s h e)
  fun_induction Program.rounds phase k done s with
  | case1 done s pending _ => exact hback s h done hdone
  | case2 done s pending _ done' t ht ih =>
    have hr := hall s h
    rw [ht] at hr
    exact ih (hmore s h hdone) hr
  | case3 done s pending _ done' e t ht =>
    have hr := hall s h
    rw [ht] at hr
    exact hback t hr done' (hmore s h hdone)

/-- and by all of initialization, if it depends only on what is declared. -/
theorem enduring_unrestored
    (hplain : ∀ (m : Model A) (adapter : A.State) columns lines stage, J m →
      J { m with adapter, columns, lines, stage }) :
    Enduring (ω := ω) (Unrestored J) where
  log _ _ h := ⟨h.agenda, h.model⟩
  stage s _ h := ⟨h.agenda, hplain s.model _ _ _ _ h.model⟩
  answer s _ _ h := ⟨h.agenda, hplain s.model _ _ _ _ h.model⟩
  column s _ _ h := ⟨h.agenda, hplain s.model _ _ _ _ h.model⟩
  line s _ _ h := ⟨h.agenda, hplain s.model _ _ _ _ h.model⟩
  rounds phase k := Triple.of_after fun _ h => unrestored_rounds hJ phase k (by simp) h
  objective := by
    refine Triple.get_bind fun s hs => ?_
    split
    next direction program ho =>
      have hP : program.NeverRestores := hs.agenda.objective _ ho
      refine Triple.bind (Q := fun _ => Unrestored J) (Triple.of_after ?_) fun e =>
        Triple.of_after fun t ht => ?_
      · rintro t rfl
        exact unrestored_run hJ hP hs
      · exact ht.edit hJ (Edit.moves_setObjective _ _)
    next =>
      rintro t rfl
      exact hs

end Run
end Milp
