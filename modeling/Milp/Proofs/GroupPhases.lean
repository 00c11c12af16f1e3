import Milp.Proofs.Acceptance
import Milp.Proofs.Scheduled

/-! The phases of the groups in the life of a model. Each program that was accepted in time runs in the
phase of its kind and never again, and the model keeps it, whether the phase succeeds or not. -/
namespace Milp

open scoped List

variable {α β η κ ω : Type} {A : Adapter α η κ}

/-- These groups are there. -/
def Model.Knows (G : ∀ k, Group k → Prop) (m : Model A) : Prop :=
  ∀ k g, G k g → (m.registry k).groups.find? g.identifier = some g

theorem Model.Knows.tick {G : ∀ k, Group k → Prop} (m m' : Model A) (ht : Tick m m') (h : m.Knows G) :
    m'.Knows G := by
  cases ht with
  | change hc => exact fun k g hg => hc.grows.groups k g.identifier g (h k g hg)
  | _ => exact fun k g hg => by cases k <;> exact h _ g hg

/-- The programs that began had been accepted, began once, and in the phase of their kind; and none began
after a failure. -/
structure Diary.InOrder (D : Diary A ω) : Prop where
  begun : ∀ k, (D.begun k).Subperm (D.accepted k)
  phase : ∀ k id P stage, .begun k id P stage ∈ D → stage = .initializing k.groupPhase
  halts : D.Halts

/-- The diary is in order and fits a run: the programs that were accepted are those on the agenda, each of
them for another group, which the model has. -/
structure Diary.Explains (D : Diary A ω) (s : Run A ω) : Prop extends D.InOrder where
  groups : ∀ k g program, .accepted k g program ∈ D →
    (s.model.registry k).groups.find? g.identifier = some g
  once : ∀ k, ((D.accepted k).map Prod.fst).Nodup
  kept : ∀ k, (s.agenda.programs k).entries ~ D.accepted k

/-- No program waits for a group that is missing: the lookup of its group finds the one that it was
accepted for. -/
theorem Diary.Explains.registered {D : Diary A ω} {s : Run A ω} (h : D.Explains s) {k : Kind} {id : String}
    {P : Program A ω .group} (hP : (s.agenda.programs k).find? id = some P) :
    ∃ g program, (s.model.registry k).groups.find? id = some g ∧ .accepted k g program ∈ D ∧
      P = program g := by
  obtain ⟨g, program, haccepted, heq⟩ :=
    Diary.mem_accepted ((h.kept k).mem_iff.mp (Table.find?_eq_some_iff.mp hP))
  obtain ⟨rfl, rfl⟩ := Prod.mk.inj heq
  exact ⟨g, program, h.groups k g program haccepted, haccepted, rfl⟩

namespace Run

/-- The diary is in order, and every program that was accepted waits. -/
structure Regulated (t : Run A (ω × Diary A ω)) : Prop extends t.diary.InOrder where
  held : t.Held fun _ => []

/-- No program has failed, and none has begun of a kind that is not done with. -/
structure Poised (done : Kind → Prop) (t : Run A (ω × Diary A ω)) : Prop extends Regulated t where
  calm : ∀ e ∈ t.diary, e.isFailed = false
  fresh : ∀ k, ¬done k → t.diary.begun k = []

variable {done done' : Kind → Prop} {t t' : Run A (ω × Diary A ω)} {D : Diary A ω}

theorem Poised.mono (h : t.Poised done) (hdone : ∀ k, done k → done' k) : t.Poised done' where
  toRegulated := h.toRegulated
  calm := h.calm
  fresh k hk := h.fresh k (mt (hdone k) hk)

theorem Regulated.explains {s : Run A ω} (h : t.Regulated) (hs : logging.Follows t s) :
    t.diary.Explains s where
  toInOrder := h.toInOrder
  groups k g program hmem := hs.model ▸ h.held.known k g program hmem
  once := h.held.once
  kept k := h.held.perm ((congrArg (Agenda.programs · k) hs.agenda).trans (logging.programs_agenda _ k))

/-- While no program begins, it goes on like this. -/
theorem Regulated.logs (h : t.Regulated) (hl : Logs D t t') (hD : ∀ e ∈ D, e.isAccepted = true) :
    t'.Regulated where
  held := hl.held _ h.held
  begun k := by
    rw [hl.diary, Diary.begun_append, Diary.accepted_append, Diary.begun_of_accepted hD, List.append_nil]
    exact (h.begun k).trans (List.sublist_append_left ..).subperm
  phase k id P stage hmem := by
    rw [hl.diary] at hmem
    refine h.phase k id P stage ((List.mem_append.mp hmem).resolve_right fun hm => ?_)
    cases hD _ hm
  halts := by
    rw [hl.diary]
    exact h.halts.append hD

theorem Poised.logs (h : t.Poised done) (hl : Logs D t t') (hD : ∀ e ∈ D, e.isAccepted = true) :
    t'.Poised done where
  toRegulated := h.toRegulated.logs hl hD
  calm e he := by
    rw [hl.diary] at he
    exact (List.mem_append.mp he).elim (h.calm e) (Diary.not_failed_of_accepted hD e)
  fresh k hk := by
    rw [hl.diary, Diary.begun_append, h.fresh k hk, Diary.begun_of_accepted hD, List.append_nil]

/-- A step that works on the model only, and leaves the groups there, adds nothing to the diary. -/
theorem Local.logs {x : ∀ ω, Step A ω β} (hx : Local x)
    (hg : ∀ G, Preserves (fun s => s.model.Knows G) (x (ω × Diary A ω))) (t : Run A (ω × Diary A ω)) :
    (x _ t).2.agenda = t.agenda ∧ (x _ t).2.diary = t.diary ∧ ∀ away, t.Held away → (x _ t).2.Held away := by
  let G (k : Kind) (g : Group k) : Prop := (t.model.registry k).groups.find? g.identifier = some g
  have hknows : (x _ t).2.model.Knows G := Triple.after (hg G) fun _ _ h => h
  obtain ⟨e, he⟩ := hx
  rw [he] at hknows ⊢
  refine ⟨rfl, rfl, fun away ht => ⟨ht.waits, ht.objective, fun k g program hmem => ?_, ht.once⟩⟩
  exact hknows k g (ht.known k g program hmem)

theorem Regulated.of_local {x : ∀ ω, Step A ω β} (hx : Local x)
    (hg : ∀ G, Preserves (fun s => s.model.Knows G) (x (ω × Diary A ω))) (h : t.Regulated) :
    (x _ t).2.Regulated := by
  obtain ⟨-, hd, hheld⟩ := hx.logs hg t
  exact ⟨hd ▸ h.toInOrder, hheld _ h.held⟩

theorem Local.regulated {x : ∀ ω, Step A ω β} (hx : Local x)
    (hg : ∀ G, Preserves (fun s => s.model.Knows G) (x (ω × Diary A ω))) :
    Preserves Regulated (x (ω × Diary A ω)) := Triple.of_after fun _ ht => ht.of_local hx hg

theorem Poised.of_local {x : ∀ ω, Step A ω β} (hx : Local x)
    (hg : ∀ G, Preserves (fun s => s.model.Knows G) (x (ω × Diary A ω))) (h : t.Poised done) :
    (x _ t).2.Poised done := by
  obtain ⟨-, hd, -⟩ := hx.logs hg t
  exact ⟨h.toRegulated.of_local hx hg, hd ▸ h.calm, hd ▸ h.fresh⟩

theorem Local.poised {x : ∀ ω, Step A ω β} (hx : Local x)
    (hg : ∀ G, Preserves (fun s => s.model.Knows G) (x (ω × Diary A ω))) (done : Kind → Prop) :
    Triple (Poised done) (x (ω × Diary A ω)) (fun _ => Poised done) fun _ => Regulated := by
  have hafter : Triple (Poised done) (x (ω × Diary A ω)) (fun _ => Poised done) fun _ => Poised done :=
    Triple.of_after fun t ht => ht.of_local hx hg
  exact hafter.imp (fun _ h => h) (fun _ _ h => h) fun _ _ h => h.toRegulated

/-- The diary is in order, and as long as the model is being declared, nothing has begun. -/
def Steady (t : Run A (ω × Diary A ω)) : Prop :=
  t.Regulated ∧ (t.model.stage = .declaring → t.Poised fun _ => False)

theorem Poised.steady (h : t.Poised fun _ => False) : t.Steady := ⟨h.toRegulated, fun _ => h⟩

theorem poised_start (m : Model A) (world : ω) :
    Poised (fun _ => False) ({ model := m, world := (world, []) } : Run A (ω × Diary A ω)) where
  held := ⟨fun k => ⟨.empty, by cases k <;> rfl, .refl _⟩, nofun, nofun, fun _ => .nil⟩
  begun _ := List.nil_subperm
  phase := nofun
  halts := .nil
  calm := nofun
  fresh _ _ := rfl

variable [Unbounded α]

theorem enduring_knows (G : ∀ k, Group k → Prop) :
    Enduring (A := A) (ω := ω) fun s => s.model.Knows G := enduring_of_ticks Model.Knows.tick

/-- The phase of a kind's groups keeps to the schedule, and in the end everything waits again. -/
theorem runGroups_scheduled (ht : t.Regulated) (k : Kind) : ∃ T D,
    t.agenda.programs k = logging.table k T ∧
      Schedule k (.initializing k.groupPhase) T.entries D (runGroups k.groupPhase k t).1.isOk ∧
      (runGroups k.groupPhase k t).2.diary = t.diary ++ D ∧
      (runGroups k.groupPhase k t).2.Held fun _ => [] := by
  obtain ⟨T, hT, -⟩ := ht.held.waits k
  let u : Run A (ω × Diary A ω) := (enter k.groupPhase t).2
  have hu : u.Held fun _ => [] :=
    ((local_enter k.groupPhase).logs (fun G => (enduring_knows G).enter k.groupPhase) t).2.2 _ ht.held
  obtain ⟨D, hschedule, hdiary, hheld⟩ : ∃ D,
      Schedule k u.model.stage T.entries D (Program.rounds k.groupPhase k [] u).1.isOk ∧
        (Program.rounds k.groupPhase k [] u).2.diary = u.diary ++ D ∧
        (Program.rounds k.groupPhase k [] u).2.Held (Function.update (fun _ => []) k []) :=
    scheduled_rounds [] u (fun _ => []) T rfl hu hT
  rw [Function.update_eq_self_iff.mpr rfl] at hheld
  exact ⟨T, D, hT, hschedule, hdiary, hheld⟩

/-- In it programs begin that had not, at most once, -/
theorem Poised.regulated (ht : t.Poised done) {k : Kind} (hk : ¬done k) :
    (runGroups k.groupPhase k t).2.Regulated := by
  obtain ⟨T, D, hT, hschedule, hdiary, hheld⟩ := runGroups_scheduled ht.toRegulated k
  refine ⟨⟨fun k' => ?_, fun k' id P stage hmem => ?_, ?_⟩, hheld⟩
  · rw [hdiary, Diary.begun_append, Diary.accepted_append]
    by_cases hk' : k' = k
    · subst hk'
      rw [ht.fresh k' hk, List.nil_append]
      exact hschedule.subperm.trans ((ht.held.perm hT).append_right _).subperm
    · rw [hschedule.begun_of_ne hk', List.append_nil]
      exact (ht.begun k').trans (List.sublist_append_left ..).subperm
  · rw [hdiary] at hmem
    rcases List.mem_append.mp hmem with hmem | hmem
    · exact ht.phase k' id P stage hmem
    · obtain ⟨rfl, hstage⟩ := hschedule.of_begun hmem
      exact hstage
  · rw [hdiary]
    exact Diary.halts_append ht.calm hschedule.halts

/-- and if it succeeds, exactly once. -/
theorem Poised.perm (ht : t.Poised done) {k : Kind} (hk : ¬done k)
    (hok : (runGroups k.groupPhase k t).1 = .ok ()) :
    (runGroups k.groupPhase k t).2.diary.begun k ~ (runGroups k.groupPhase k t).2.diary.accepted k := by
  obtain ⟨T, D, hT, hschedule, hdiary, -⟩ := runGroups_scheduled ht.toRegulated k
  rw [hok] at hschedule
  rw [hdiary, Diary.begun_append, Diary.accepted_append, ht.fresh k hk, List.nil_append]
  exact hschedule.perm.trans ((ht.held.perm hT).append_right _)

theorem runGroups_poised {k : Kind} (hk : ¬done k) :
    Triple (Poised (A := A) (ω := ω) done) (runGroups k.groupPhase k)
      (fun _ => Poised fun k' => done k' ∨ k' = k) fun _ => Regulated := by
  intro t ht
  have hregulated := ht.regulated hk
  obtain ⟨T, D, -, hschedule, hdiary, -⟩ := runGroups_scheduled ht.toRegulated k
  revert hregulated hschedule hdiary
  match runGroups k.groupPhase k t with
  | (.ok (), u) =>
    intro hregulated hschedule hdiary
    refine ⟨hregulated, fun e he => ?_, fun k' hk' => ?_⟩
    · rw [hdiary] at he
      exact (List.mem_append.mp he).elim (ht.calm e) (hschedule.calm e)
    · obtain ⟨hdone, hne⟩ := not_or.mp hk'
      rw [hdiary, Diary.begun_append, ht.fresh k' hdone, hschedule.begun_of_ne hne]
      rfl
  | (.error e, u) => exact fun hregulated _ _ => hregulated

/-- What comes before the phase of a kind's groups. -/
def upTo : Kind → Step A ω Unit
  | .constant => initModel
  | .var => do
    initModel
    runGroups .constantGroups .constant
  | .constraint => do
    initModel
    runGroups .constantGroups .constant
    runGroups .variableGroups .var
    initVariables

/-- What comes after it. -/
def onwards : Kind → Step A ω Unit
  | .constant => do
    runGroups .variableGroups .var
    initVariables
    runGroups .constraintGroups .constraint
    ensureSound
    initConstraints
    initObjective
  | .var => do
    initVariables
    runGroups .constraintGroups .constraint
    ensureSound
    initConstraints
    initObjective
  | .constraint => do
    ensureSound
    initConstraints
    initObjective

theorem phases_eq_upTo (k : Kind) :
    (phases : Step A ω Unit) = (do upTo k; runGroups k.groupPhase k; onwards k) := by
  cases k with
  | constant => rfl
  | var | constraint =>
    simp only [upTo, bind_assoc]
    rfl

/-- When the phase of a kind's groups begins, only programs of the kinds before have begun. -/
theorem upTo_poised (k : Kind) : Triple (Poised (A := A) (ω := ω) fun _ => False) (upTo k)
    (fun _ => Poised fun k' => k'.groupPhase.index < k.groupPhase.index) fun _ => Regulated := by
  have hmodel := (local_initModel (A := A)).poised (ω := ω) (fun G => (enduring_knows G).initModel)
    fun _ => False
  cases k with
  | constant => exact hmodel.imp (fun _ h => h) (fun _ t ht => ht.mono nofun) fun _ _ h => h
  | var =>
    refine (hmodel.bind fun _ => runGroups_poised (k := .constant) not_false).imp (fun _ h => h)
      (fun _ t ht => ht.mono ?_) fun _ _ h => h
    rintro k' (h | rfl)
    · exact h.elim
    · decide
  | constraint =>
    have hvars : ¬(False ∨ Kind.var = .constant) := by decide
    refine (hmodel.bind fun _ => (runGroups_poised (k := .constant) not_false).bind fun _ =>
      (runGroups_poised (k := .var) hvars).bind fun _ =>
        local_initVariables.poised (fun G => (enduring_knows G).initVariables) _).imp
      (fun _ h => h) (fun _ t ht => ht.mono ?_) fun _ _ h => h
    rintro k' ((h | rfl) | rfl)
    · exact h.elim
    · decide
    · decide

theorem agrees_upTo (k : Kind) : logging.Agrees (A := A) (ω := ω) (upTo k) (upTo k) := by
  have hmodel := Bookkeeping.agrees_of_local (B := logging (ω := ω)) (local_initModel (A := A))
  have hgroups (k : Kind) := faithful_logging (A := A) (ω := ω).runGroups k.groupPhase k
  cases k with
  | constant => exact hmodel
  | var => exact hmodel.bind fun _ => hgroups .constant
  | constraint =>
    exact hmodel.bind fun _ => (hgroups .constant).bind fun _ => (hgroups .var).bind fun _ =>
      Bookkeeping.agrees_of_local local_initVariables

theorem buildObjective_regulated : Preserves (Regulated (A := A) (ω := ω)) buildObjective := by
  refine Triple.get_bind fun t ht => ?_
  match ho : t.agenda.objective with
  | none => exact Triple.pure fun _ h => h ▸ ht
  | some (direction, program) =>
    obtain ⟨P, rfl⟩ := ht.held.objective (direction, program) ho
    refine Triple.bind (Q := fun _ => Regulated) (Triple.of_after ?_) fun e =>
      Triple.of_after fun u hu => hu.logs (logs_edit (.setObjective e direction) u) (List.forall_mem_nil _)
    rintro u rfl
    obtain ⟨D, hD, hlogs⟩ := logs_logged P none u
    exact ht.logs hlogs ((List.append_nil D).symm ▸ hD)

theorem phases_regulated : Triple (Poised (A := A) (ω := ω) fun _ => False) phases
    (fun _ => Regulated) fun _ => Regulated := by
  have henter := (local_enter (A := A) .objective).regulated (ω := ω) fun G =>
    (enduring_knows G).enter .objective
  have honwards : Preserves (Regulated (A := A) (ω := ω)) (onwards .constraint) :=
    preserves_bind (local_ensureSound.regulated fun G => (enduring_knows G).ensureSound) fun _ =>
      preserves_bind (local_initConstraints.regulated fun G => (enduring_knows G).initConstraints) fun _ =>
        preserves_bind henter fun _ => preserves_bind buildObjective_regulated fun _ =>
          local_handObjective.regulated fun G => (enduring_knows G).handObjective
  rw [phases_eq_upTo .constraint]
  refine (upTo_poised .constraint).bind fun _ => ((runGroups_poised (k := .constraint) ?_).imp (fun _ h => h)
    (fun _ _ ht => ht.toRegulated) fun _ _ h => h).bind fun _ => honwards
  exact lt_irrefl _

theorem handOver_steady : Triple (Poised (A := A) (ω := ω) fun _ => False) handOver (fun _ => Regulated)
    fun _ => Steady := by
  have hsound : Triple (Poised (A := A) (ω := ω) fun _ => False) ensureSound
      (fun _ => Poised fun _ => False) fun _ => Steady :=
    Triple.imp (Triple.of_after fun t ht =>
      ht.of_local local_ensureSound fun G => (enduring_knows G).ensureSound) (fun _ h => h)
      (fun _ _ h => h) fun _ _ h => ⟨h.toRegulated, fun _ => h⟩
  refine hsound.bind fun _ => Triple.get_bind fun t ht => ?_
  have hlog : Triple (fun u => u = t) (Run.log [.initStarted t.model.adapterName])
      (fun _ => Poised (ω := ω) fun _ => False) fun _ => Steady := by
    rintro u rfl
    exact ht.of_local (local_log _) fun G => (enduring_knows G).keepsLog _
  refine hlog.bind fun _ => Triple.bind (Q := fun _ => Regulated) (phases_regulated.tryCatch fun e => ?_)
    fun _ => ?_
  · intro u hu
    have hfailed : Preserves (Regulated (A := A) (ω := ω)) _ :=
      (local_initFailed e).regulated fun G => preserves_get fun _ =>
        preserves_bind ((enduring_knows G).keepsLog _) fun _ =>
          preserves_bind ((enduring_knows G).setStage _) fun _ => preserves_throw e
    exact ⟨hfailed u hu, nofun⟩
  · have hfinished : Preserves (Regulated (A := A) (ω := ω)) _ :=
      local_initFinished.regulated fun G => preserves_bind ((enduring_knows G).setStage _) fun _ =>
        preserves_get fun _ => (enduring_knows G).keepsLog _
    exact fun u hu => hfinished u hu

theorem Steady.after (h : t.Steady) (o : Operation A ω) : (t.after (logging.operation o)).Steady := by
  cases o with
  | declare P =>
    obtain ⟨D, hD, hlogs⟩ := logs_logged P none t
    have hlogs : Logs D t ((P.logged none).run t).2 := (List.append_nil D) ▸ hlogs
    exact ⟨h.1.logs hlogs hD, fun hstage => (h.2 (hlogs.stage.symm.trans hstage)).logs hlogs hD⟩
  | init =>
    change (t.after .init).Steady
    by_cases hstage : t.model.stage = .declaring
    · rw [show t.after .init = (handOver t).2 from congrArg Prod.snd (init_apply hstage)]
      refine Triple.after ((handOver_steady.and handOver_stage).imp (fun _ h => h) ?_ fun _ _ h => h.1)
        ⟨h.2 hstage, hstage⟩
      rintro u t ⟨hregulated, hinitialized⟩
      exact ⟨hregulated, fun hdeclaring => nomatch hinitialized.symm.trans hdeclaring⟩
    · rwa [show t.after .init = t from congrArg Prod.snd (init_closed hstage)]
  | compute =>
    refine ⟨h.1.of_local local_compute fun G => Triple.of_after fun s hs =>
      (settling_of_ticks Model.Knows.tick).compute hs, fun hstage => ?_⟩
    have hafter : t.after (logging.operation .compute) = t := after_compute_of_declaring hstage
    rw [hafter] at hstage ⊢
    exact h.2 hstage
  | extract =>
    refine ⟨h.1.of_local local_extract fun G => Triple.of_after fun s hs =>
      (settling_of_ticks Model.Knows.tick).extract hs, fun hstage => ?_⟩
    have hafter : t.after (logging.operation .extract) = t := after_extract_of_declaring hstage
    rw [hafter] at hstage ⊢
    exact h.2 hstage

theorem Steady.afterAll (h : t.Steady) (os : List (Operation A ω)) :
    (t.afterAll (os.map logging.operation)).Steady := by
  induction os generalizing t with
  | nil => exact h
  | cons o rest ih => exact ih (h.after o)

/-- A life with a diary goes as the life itself, and at any time the diary explains it. The phase of a
kind's groups, when a model that is being declared comes to it, ends after some number of rounds. No
program of the kind began before. From the programs that wait, the phase keeps to the schedule; after it,
whether it succeeds or not, the diary explains the run as before, and if it succeeds, all programs of the
kind that were accepted until then have begun. -/
theorem initializers_scheduled (m : Model A) (world : ω) (os : List (Operation A ω)) :
    let s : Run A ω := afterAll { model := m, world } os
    let t : Run A (ω × Diary A ω) := afterAll { model := m, world := (world, []) } (os.map logging.operation)
    logging.Follows t s ∧ t.diary.Explains s ∧
      ∀ k, (phases : Step A ω Unit) = (do upTo k; runGroups k.groupPhase k; onwards k) ∧
        ∀ s₀, s.model.stage = .declaring →
          upTo k (s.record [.initStarted s.model.adapterName]) = (.ok (), s₀) →
          ∃ n r s₁, runGroups k.groupPhase k s₀ = (r, s₁) ∧
            Program.roundsWithin k.groupPhase k n [] (enter k.groupPhase s₀).2 = some (r, s₁) ∧
            ∃ t₀ t₁ D, upTo k (t.record [.initStarted t.model.adapterName]) = (.ok (), t₀) ∧
              logging.Follows t₀ s₀ ∧ runGroups k.groupPhase k t₀ = (r, t₁) ∧ logging.Follows t₁ s₁ ∧
              t₀.diary.begun k = [] ∧ t₁.diary = t₀.diary ++ D ∧
              Schedule k (.initializing k.groupPhase) (s₀.agenda.programs k).entries D r.isOk ∧
              t₁.diary.Explains s₁ ∧ (r = .ok () → t₁.diary.begun k ~ t₁.diary.accepted k) := by
  intro s t
  have hfollows : logging.Follows t s := faithful_logging.afterAll ⟨rfl, rfl, rfl, rfl⟩ os
  have hsteady : t.Steady := (poised_start m world).steady.afterAll os
  refine ⟨hfollows, hsteady.1.explains hfollows, fun k => ⟨phases_eq_upTo k, fun s₀ hstage hup => ?_⟩⟩
  have hbegin : Poised (fun _ => False) (t.record [.initStarted t.model.adapterName]) :=
    (hsteady.2 ((congrArg Model.stage hfollows.model).trans hstage)).of_local (local_log _) fun G =>
      (enduring_knows G).keepsLog _
  have hrecord : logging.Follows (t.record [.initStarted t.model.adapterName])
      (s.record [.initStarted s.model.adapterName]) := hfollows.model ▸ hfollows.record _
  obtain ⟨_, t₀, _, ht₀, hs₀, hfollows₀⟩ := (agrees_upTo k).outcomes hrecord
  cases hs₀.symm.trans hup
  have hpoised := (upTo_poised k).ok hbegin ht₀
  have hk : ¬k.groupPhase.index < k.groupPhase.index := lt_irrefl _
  obtain ⟨T, D, hT, hschedule, hdiary, -⟩ := runGroups_scheduled hpoised.toRegulated k
  have hregulated := hpoised.regulated hk
  have hperm := hpoised.perm hk
  obtain ⟨r, t₁, s₁, ht₁, hs₁, hfollows₁⟩ := (faithful_logging.runGroups k.groupPhase k).outcomes hfollows₀
  rw [ht₁] at hschedule hdiary hregulated hperm
  obtain rfl : s₀.agenda.programs k = T := by
    refine table_injective t₀.model t₀.world.1 (Eq.trans ?_ hT)
    rw [hfollows₀.agenda, logging.programs_agenda]
  obtain ⟨n, hn⟩ := Program.exists_roundsWithin k.groupPhase k [] (enter k.groupPhase s₀).2
  exact ⟨n, r, s₁, hs₁, hn.trans (congrArg some hs₁), t₀, t₁, D, ht₀, hfollows₀, ht₁, hfollows₁,
    hpoised.fresh k hk, hdiary, hschedule, hregulated.explains hfollows₁, hperm⟩

/-- A group of variables whose program creates another one: after two rounds both programs have begun. -/
theorem initializers_scheduled_nested :
    let s : Run (recorder Float) Unit :=
      afterAll { model := .new ⟨0⟩ "depot" {}, world := () } [.declare (Program.nested .var)]
    let t : Run (recorder Float) (Unit × Diary (recorder Float) Unit) :=
      afterAll { model := .new ⟨0⟩ "depot" {}, world := ((), []) }
        ([.declare (Program.nested .var)].map logging.operation)
    ∃ s₀ s₁ t₀ t₁, s.model.stage = .declaring ∧
      upTo .var (s.record [.initStarted s.model.adapterName]) = (.ok (), s₀) ∧
      runGroups .variableGroups .var s₀ = (.ok (), s₁) ∧
      upTo .var (t.record [.initStarted t.model.adapterName]) = (.ok (), t₀) ∧
      runGroups .variableGroups .var t₀ = (.ok (), t₁) ∧
      (t₁.diary.begun .var).map Prod.fst ~ ["inner", "outer"] := by
  intro s t
  let first : Step (recorder Float) Unit Unit := do
    initModel
    runGroupsWithin 2 .constantGroups .constant
  have hfirst : Attains first (upTo .var) := (attains_refl _).bind fun _ => attains_runGroupsWithin 2 _ _
  let s₀ := (first (s.record [.initStarted s.model.adapterName])).2
  let s₁ := (runGroupsWithin 3 .variableGroups .var s₀).2
  have hstage : s.model.stage = .declaring := rfl
  have hs₀ : upTo .var _ = (.ok (), s₀) := hfirst.of_isOk rfl
  have hs₁ : runGroups .variableGroups .var s₀ = (.ok (), s₁) :=
    (attains_runGroupsWithin 3 _ _).of_isOk rfl
  have hkeys : (s₁.agenda.programs .var).keys = ["inner", "outer"] := rfl
  obtain ⟨-, -, hphases⟩ := initializers_scheduled (A := recorder Float) (.new ⟨0⟩ "depot" {}) ()
    [.declare (Program.nested .var)]
  obtain ⟨n, r, s₁', hrun, -, t₀, t₁, D, ht₀, -, ht₁, -, -, -, -, hexplains, hbegun⟩ :=
    (hphases .var).2 s₀ hstage hs₀
  cases hs₁.symm.trans hrun
  refine ⟨s₀, s₁, t₀, t₁, hstage, hs₀, hs₁, ht₀, ht₁, ?_⟩
  calc (t₁.diary.begun .var).map Prod.fst
      ~ (t₁.diary.accepted .var).map Prod.fst := (hbegun rfl).map _
    _ ~ (s₁.agenda.programs .var).keys := ((hexplains.kept .var).map _).symm
    _ = ["inner", "outer"] := hkeys

end Run
end Milp
