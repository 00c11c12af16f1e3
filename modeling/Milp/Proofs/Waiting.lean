import Milp.Proofs.Invariance
import Milp.Proofs.Local

/-! Programs that keep to a discipline: what every run of one of them keeps, and every program that it
leaves behind keeps, lasts through all of initialization. -/
namespace Milp

variable {α η κ ω : Type} {A : Adapter α η κ}

/-- All programs that wait are of this sort. -/
structure Agenda.All (Q : ∀ {p : Purpose}, Program A ω p → Prop) (a : Agenda A ω) : Prop where
  programs : ∀ k, ∀ P ∈ (a.programs k).values, Q P
  objective : ∀ o ∈ a.objective, Q o.2

namespace Agenda.All

variable {Q : ∀ {p : Purpose}, Program A ω p → Prop} {a : Agenda A ω}

theorem empty : ({} : Agenda A ω).All Q where
  programs k P h := by cases k <;> cases h
  objective o h := by cases h

theorem withPrograms (h : a.All Q) (k : Kind) {t : Table (Program A ω .group)}
    (ht : ∀ P ∈ t.values, Q P) : (a.withPrograms k t).All Q where
  programs k' := by
    by_cases hk : k' = k
    · rw [hk, programs_withPrograms_self]
      exact ht
    · rw [programs_withPrograms_of_ne a hk]
      exact h.programs k'
  objective := by cases k <;> exact h.objective

/-- A program joins those that wait. -/
theorem insert (h : a.All Q) (k : Kind) (id : String) {P : Program A ω .group} (hP : Q P) :
    (a.withPrograms k ((a.programs k).insert id P)).All Q := by
  refine h.withPrograms k fun P' hP' => ?_
  rcases Table.mem_values_insert hP' with rfl | hP'
  · exact hP
  · exact h.programs k P' hP'

theorem attach (h : a.All Q) (direction : Direction) {P : Program A ω .objective} (hP : Q P) :
    ({ a with objective := some (direction, P) } : Agenda A ω).All Q where
  programs := h.programs
  objective o ho := by
    cases ho
    exact hP

theorem insertAll {t : Table (Program A ω .group)} (ht : ∀ P ∈ t.values, Q P)
    {done : List (String × Program A ω .group)} (h : ∀ e ∈ done, Q e.2) :
    ∀ P ∈ (t.insertAll done).values, Q P := by
  induction done generalizing t with
  | nil => exact ht
  | cons e rest ih =>
    refine ih (fun P hP => ?_) fun d hd => h d (List.mem_cons_of_mem _ hd)
    rcases Table.mem_values_insert hP with rfl | hP
    · exact h e List.mem_cons_self
    · exact ht P hP

end Agenda.All

namespace Run

/-- Only programs of one sort wait, and the model and what is shared have a property. -/
structure Orderly (Q : ∀ {p : Purpose}, Program A ω p → Prop) (I : Model A → ω → Prop)
    (s : Run A ω) : Prop where
  agenda : s.agenda.All Q
  state : I s.model s.world

variable {Q : ∀ {p : Purpose}, Program A ω p → Prop} {I : Model A → ω → Prop}
  {G : Expression α → Prop}

theorem Orderly.record {s : Run A ω} (h : s.Orderly Q I) (events : List (Event α)) :
    (s.record events).Orderly Q I := ⟨h.agenda, h.state⟩

/-- A step that works on the model only needs to keep the property of the model. -/
theorem Orderly.of_local {β : Type} {s : Run A ω} (h : s.Orderly Q I) {x : ∀ ω, Step A ω β}
    (hx : Local x) (hm : I (x ω s).2.model s.world) : (x ω s).2.Orderly Q I := by
  obtain ⟨e, he⟩ := hx
  rw [he] at hm ⊢
  exact ⟨h.agenda, hm⟩

variable [Unbounded α]

/-- Runs of such programs keep to the property, and build only expressions that may be the objective
under it. -/
structure Discipline (Q : ∀ {p : Purpose}, Program A ω p → Prop) (I : Model A → ω → Prop)
    (G : Expression α → Prop) : Prop where
  run : ∀ {p : Purpose} {P : Program A ω p}, Q P → ∀ s, Orderly Q I s → Orderly Q I (P.run s).2
  built : ∀ {P : Program A ω .objective}, Q P → ∀ s e, Orderly Q I s →
    (P.run s).1 = .ok e → G e
  objective : ∀ m m' w e direction, I m w → G e → m.setObjective e direction = .ok m' → I m' w
  plain : ∀ (m : Model A) w adapter columns lines stage, I m w →
    I { m with adapter, columns, lines, stage } w

namespace Discipline

variable (h : Discipline Q I G)
include h

theorem runAll (phase : Phase) {ps : List (String × Program A ω .group)} (hps : ∀ e ∈ ps, Q e.2)
    {s : Run A ω} (hs : s.Orderly Q I) : Orderly Q I (Program.runAll phase ps s).2 := by
  induction ps generalizing s with
  | nil => exact hs
  | cons e rest ih =>
    obtain ⟨group, P⟩ := e
    have hr := h.run (hps _ List.mem_cons_self) _ (hs.record [.initializerStarted phase group])
    simp only [Program.runAll]
    split
    next t ht =>
      rw [ht] at hr
      exact ih (fun e he => hps e (List.mem_cons_of_mem _ he)) hr
    next e t ht =>
      rw [ht] at hr
      exact hr.record _

theorem rounds (phase : Phase) (k : Kind) {done : List (String × Program A ω .group)}
    (hdone : ∀ e ∈ done, Q e.2) {s : Run A ω} (hs : s.Orderly Q I) :
    Orderly Q I (Program.rounds phase k done s).2 := by
  have hpending (s : Run A ω) (hs : s.Orderly Q I) :
      ∀ e ∈ (s.agenda.programs k).entries, Q e.2 := fun e he =>
    hs.agenda.programs k e.2 (List.mem_map_of_mem he)
  have hall (s : Run A ω) (hs : s.Orderly Q I) : Orderly Q I
      (Program.runAll phase (s.agenda.programs k).entries (s.withPrograms k .empty)).2 :=
    h.runAll phase (hpending s hs) ⟨hs.agenda.withPrograms k nofun, hs.state⟩
  have hback (s : Run A ω) (hs : s.Orderly Q I) (done : List (String × Program A ω .group))
      (hdone : ∀ e ∈ done, Q e.2) :
      Orderly Q I (s.withPrograms k ((s.agenda.programs k).insertAll done)) :=
    ⟨hs.agenda.withPrograms k (Agenda.All.insertAll (hs.agenda.programs k) hdone), hs.state⟩
  have hmore (s : Run A ω) (hs : s.Orderly Q I) {done : List (String × Program A ω .group)}
      (hdone : ∀ e ∈ done, Q e.2) : ∀ e ∈ done ++ (s.agenda.programs k).entries, Q e.2 :=
    fun e he => (List.mem_append.mp he).elim (hdone e) (hpending s hs e)
  fun_induction Program.rounds phase k done s with
  | case1 done s pending _ => exact hback s hs done hdone
  | case2 done s pending _ done' t ht ih =>
    have hr := hall s hs
    rw [ht] at hr
    exact ih (hmore s hs hdone) hr
  | case3 done s pending _ done' e t ht =>
    have hr := hall s hs
    rw [ht] at hr
    exact hback t hr done' (hmore s hs hdone)

theorem buildObjective :
    Preserves (Orderly Q I) (Run.buildObjective : Step A ω Unit) := by
  refine Triple.get_bind fun s hs => ?_
  split
  next direction P ho =>
    have hP : Q P := hs.agenda.objective _ ho
    have hrun : Triple (fun t => t = s) P.run (fun e t => Orderly Q I t ∧ G e)
        fun _ => Orderly Q I := by
      rintro t rfl
      have hr := h.run hP t hs
      have hb := h.built hP t
      revert hr hb
      match P.run t with
      | (.ok e, u) => exact fun hr hb => ⟨hr, hb e hs rfl⟩
      | (.error e, u) => exact fun hr _ => hr
    refine hrun.bind fun e t ⟨ht, he⟩ => ?_
    simp only [edit, Edit.setObjective, Edit.change_apply]
    cases hm : t.model.setObjective e direction with
    | ok m => exact ⟨ht.agenda, h.objective _ _ _ _ _ ht.state he hm⟩
    | error e => exact ht
  next =>
    rintro t rfl
    exact hs

theorem enduring : Enduring (Orderly Q I) where
  log _ events hs := hs.record events
  stage s _ hs := ⟨hs.agenda, h.plain s.model _ _ _ _ _ hs.state⟩
  answer s _ _ hs := ⟨hs.agenda, h.plain s.model _ _ _ _ _ hs.state⟩
  column s _ _ hs := ⟨hs.agenda, h.plain s.model _ _ _ _ _ hs.state⟩
  line s _ _ hs := ⟨hs.agenda, h.plain s.model _ _ _ _ _ hs.state⟩
  rounds phase k := Triple.of_after fun _ hs => h.rounds phase k (by simp) hs
  objective := h.buildObjective

end Discipline

end Run
end Milp
