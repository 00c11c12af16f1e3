import Milp.Proofs.Waiting
import Milp.Proofs.Watched

/-! No accepted program is lost: by the end of an initialization that succeeds, each one has run to its
own end, except those of constant groups that came too late for theirs. -/
namespace Milp

variable {α β η κ ω : Type} {A : Adapter α η κ}

/-- The phase in which the programs of a kind's groups run. -/
def Kind.groupPhase : Kind → Phase
  | .constant => .constantGroups
  | .var => .variableGroups
  | .constraint => .constraintGroups

/-- Whether the phase of a kind's groups is not over. -/
def Stage.feeds (stage : Stage) (k : Kind) : Bool :=
  match stage with
  | .declaring => true
  | .initializing phase => decide (phase.index ≤ k.groupPhase.index)
  | _ => false

/-- Groups of constants are accepted after their phase, groups of other kinds are not. -/
theorem Stage.feeds_of_admits {stage : Stage} {k : Kind} (h : stage.admits k = true)
    (hk : k ≠ .constant) : stage.feeds k = true := by
  cases stage with
  | declaring => rfl
  | initializing phase =>
    cases k with
    | var => exact h
    | constraint => exact h
    | constant => exact absurd rfl hk
  | _ => cases h

/-- By the record, a program was accepted while its phase was not over, and did not run yet. -/
def Due (ms : List Mark) (k : Kind) (id : String) : Prop :=
  ∃ stage, .accepted k id stage ∈ ms ∧ (k = .constant → stage.feeds .constant = true) ∧
    .ran k id ∉ ms

theorem Due.of_append {ms more : List Mark} {k : Kind} {id : String} (h : Due (ms ++ more) k id) :
    Due ms k id ∨ ∃ stage, .accepted k id stage ∈ more ∧
      (k = .constant → stage.feeds .constant = true) := by
  obtain ⟨stage, ha, hf, hr⟩ := h
  have hr : Mark.ran k id ∉ ms := fun hm => hr (List.mem_append_left _ hm)
  rcases List.mem_append.mp ha with ha | ha
  · exact .inl ⟨stage, ha, hf, hr⟩
  · exact .inr ⟨stage, ha, hf⟩

namespace Run

/-- What is on the record of a run. -/
def marks (t : Run A (ω × List Mark)) : List Mark := t.world.2

/-- The group has a program that waits. -/
def Waits (t : Run A ω) (k : Kind) (id : String) : Prop := (t.agenda.programs k).contains id = true

/-- What running programs comes to for the record: nothing is taken back, and whatever becomes due
waits. -/
structure Proceeds (t t' : Run A (ω × List Mark)) : Prop where
  stage : t'.model.stage = t.model.stage
  ran : ∀ k id, .ran k id ∈ t.marks → .ran k id ∈ t'.marks
  waits : ∀ k id, t.Waits k id → t'.Waits k id
  due : ∀ k id, Due t'.marks k id → Due t.marks k id ∨ t.model.stage.feeds k = true ∧ t'.Waits k id

variable {t t' t'' : Run A (ω × List Mark)}

theorem Proceeds.refl (t : Run A (ω × List Mark)) : t.Proceeds t :=
  ⟨rfl, fun _ _ h => h, fun _ _ h => h, fun _ _ h => .inl h⟩

theorem Proceeds.trans (h : t.Proceeds t') (h' : t'.Proceeds t'') : t.Proceeds t'' where
  stage := h'.stage.trans h.stage
  ran k id hr := h'.ran k id (h.ran k id hr)
  waits k id hw := h'.waits k id (h.waits k id hw)
  due k id hd := by
    rcases h'.due k id hd with hd | ⟨hf, hw⟩
    · exact (h.due k id hd).imp_right fun ⟨hf, hw⟩ => ⟨hf, h'.waits k id hw⟩
    · exact .inr ⟨h.stage ▸ hf, hw⟩

/-- Nothing happened to the record or to what waits. -/
theorem Proceeds.of_eq (hs : t'.model.stage = t.model.stage) (ha : t'.agenda = t.agenda)
    (hm : t'.marks = t.marks) : t.Proceeds t' :=
  ⟨hs, fun _ _ h => hm ▸ h, fun k id h => by rwa [Waits, ha], fun _ _ h => .inl (hm ▸ h)⟩

/-- Marks that accept nothing. -/
theorem Proceeds.mark (t : Run A (ω × List Mark)) {ms : List Mark}
    (hms : ∀ k id stage, .accepted k id stage ∉ ms) :
    t.Proceeds { t with world := (t.world.1, t.world.2 ++ ms) } := by
  refine ⟨rfl, fun k id h => List.mem_append_left _ h, fun _ _ h => h, fun k id hd => ?_⟩
  rcases hd.of_append with hd | ⟨stage, ha, -⟩
  · exact .inl hd
  · exact absurd ha (hms k id stage)

theorem edit_createGroup_eq_ok {ω : Type} {t t' : Run A ω} {k : Kind} {id description : String}
    {generator : Option Naming.Namer} {g : Group k}
    (h : Run.edit (Edit.createGroup k id description generator) t = (.ok g, t')) :
    ∃ m journal, t.model.createGroup k id description generator = .ok (g, m) ∧
      t' = { t with model := m, journal } := by
  unfold Run.edit Edit.createGroup at h
  rw [Edit.declare_apply] at h
  cases hm : t.model.createGroup k id description generator with
  | error e =>
    simp only [hm] at h
    cases h
  | ok r =>
    simp only [hm] at h
    cases h
    exact ⟨r.2, _, rfl, rfl⟩

variable [Unbounded α]

theorem proceeds_edit (a : Action α) (t : Run A (ω × List Mark)) :
    t.Proceeds (Run.edit a.perform t).2 :=
  .of_eq (Model.grows_of_changes (Edit.moves_perform a (t.model, t.journal))).stage rfl rfl

omit [Unbounded α] in
/-- A group is accepted with its program while groups of its kind are. -/
theorem proceeds_spawn {k : Kind} {id description : String} {generator : Option Naming.Namer}
    {g : Group k} {P : Program A (ω × List Mark) .group}
    (h : Run.edit (Edit.createGroup k id description generator) t = (.ok g, t')) :
    t.Proceeds { t'.withPrograms k ((t'.agenda.programs k).insert id P) with
      world := (t'.world.1, t'.world.2 ++ [.accepted k id t.model.stage]) } := by
  obtain ⟨m, journal, hm, rfl⟩ := edit_createGroup_eq_ok h
  have hadmits := (Model.createGroup_eq_ok.mp hm).1
  have hwaits (k' : Kind) (id' : String) (h' : t.Waits k' id' ∨ k' = k ∧ id' = id) :
      (t.withPrograms k ((t.agenda.programs k).insert id P)).Waits k' id' := by
    unfold Waits Run.withPrograms
    by_cases hk : k' = k
    · subst hk
      rw [Agenda.programs_withPrograms_self, Table.contains_insert]
      rcases h' with h' | ⟨-, rfl⟩
      · have h' : (t.agenda.programs k').contains id' = true := h'
        simp [h']
      · simp
    · rw [Agenda.programs_withPrograms_of_ne _ hk]
      exact h'.resolve_right fun h' => hk h'.1
  refine ⟨(Model.Grows.createGroup hm).stage, fun k' id' hr => ?_, fun k' id' h' =>
    hwaits k' id' (.inl h'), fun k' id' hd => ?_⟩
  · exact List.mem_append_left _ hr
  · rcases Due.of_append hd with hd | ⟨stage, hacc, hf⟩
    · exact .inl hd
    · obtain ⟨rfl, rfl, rfl⟩ := Mark.accepted.inj (List.mem_singleton.mp hacc)
      refine .inr ⟨?_, hwaits k' id' (.inr ⟨rfl, rfl⟩)⟩
      by_cases hk : k' = .constant
      · subst hk
        exact hf rfl
      · exact Stage.feeds_of_admits hadmits hk

/-- Whatever a program does, what it makes due waits. -/
theorem proceeds_run {p : Purpose} (P : Program A ω p) (group : Option (Kind × String))
    (t : Run A (ω × List Mark)) : t.Proceeds ((P.watched group).run t).2 := by
  induction P generalizing group t with
  | finish r =>
    refine Proceeds.mark t fun k id stage => ?_
    unfold Mark.last
    split <;> simp
  | read next ih => exact ih t.model group t
  | share f next ih =>
    have hshare : t.Proceeds { t with world := (f t.world.1, t.world.2) } := .of_eq rfl rfl rfl
    exact hshare.trans (ih t.world.1 group _)
  | note events next ih =>
    have hnote : t.Proceeds (t.record events) := .of_eq rfl rfl rfl
    exact hnote.trans (ih group _)
  | act a next ih => exact (proceeds_edit a t).trans (ih _ group _)
  | spawn k id description generator program next _ ih =>
    simp only [Program.watched, Program.mark, Program.run]
    split
    next g u hu => exact (proceeds_spawn hu).trans (ih (.ok g) group _)
    next e u hu =>
      have hedit : t.Proceeds u := by
        have ht := proceeds_edit (.createGroup k id description generator) t
        have hu' : (Run.edit (Action.createGroup k id description generator).perform t).2 = u :=
          congrArg Prod.snd hu
        rwa [hu'] at ht
      refine hedit.trans (Proceeds.trans ?_ (ih (.error e) group _))
      exact Proceeds.mark u fun k id stage h => by cases h
  | attach direction program next _ ih =>
    simp only [Program.watched, Program.run]
    split
    · refine Proceeds.trans ?_ (ih (.ok ()) group _)
      refine ⟨rfl, fun _ _ h => h, fun k id h => ?_, fun _ _ h => .inl h⟩
      cases k <;> exact h
    · exact ih _ group t

/-- A program that ends well is on the record. -/
theorem ran_of_run {P : Program A ω .group} {k : Kind} {id : String} {u : Unit}
    (h : (P.watched (some (k, id))).run t = (.ok u, t')) : .ran k id ∈ t'.marks := by
  have hall {p : Purpose} (P : Program A ω p) (t t' : Run A (ω × List Mark)) (v : p.Value α)
      (h : (P.watched (some (k, id))).run t = (.ok v, t')) : .ran k id ∈ t'.marks := by
    induction P generalizing t with
    | finish r =>
      obtain ⟨rfl, rfl⟩ := Prod.mk.inj h
      exact List.mem_append_right _ (List.mem_singleton_self _)
    | read next ih => exact ih t.model t v h
    | share f next ih => exact ih t.world.1 _ v h
    | note events next ih => exact ih _ v h
    | act a next ih => exact ih _ _ v h
    | spawn k id description generator program next _ ih =>
      simp only [Program.watched, Program.mark, Program.run] at h
      split at h <;> exact ih _ _ v h
    | attach direction program next _ ih =>
      simp only [Program.watched, Program.run] at h
      split at h <;> exact ih _ _ v h
  exact hall P t t' u h

/-- All programs of a round that succeeds have run. -/
theorem proceeds_runAll (phase : Phase) (k : Kind) (ps : List (String × Program A ω .group))
    (h : Program.runAll phase (ps.map fun e => (e.1, e.2.watched (some (k, e.1)))) t =
      (.ok (), t')) : t.Proceeds t' ∧ ∀ e ∈ ps, .ran k e.1 ∈ t'.marks := by
  induction ps generalizing t with
  | nil =>
    cases h
    exact ⟨.refl _, nofun⟩
  | cons e rest ih =>
    obtain ⟨group, P⟩ := e
    have hstart : t.Proceeds (t.record [.initializerStarted phase group]) := .of_eq rfl rfl rfl
    have hrun := proceeds_run P (some (k, group)) (t.record [.initializerStarted phase group])
    simp only [List.map_cons, Program.runAll] at h
    split at h
    next u hu =>
      rw [hu] at hrun
      obtain ⟨hrest, hran⟩ := ih h
      refine ⟨hstart.trans (hrun.trans hrest), fun e he => ?_⟩
      rcases List.mem_cons.mp he with rfl | he
      · exact hrest.ran k group (ran_of_run hu)
      · exact hran e he
    next => cases h

/-- Some kinds are done with: all that is due is of other kinds, and waits. -/
def Ready (done : Kind → Prop) (t : Run A (ω × List Mark)) : Prop :=
  ∀ k id, Due t.marks k id → ¬done k ∧ t.Waits k id

omit [Unbounded α] in
theorem Ready.of_eq {done : Kind → Prop} (h : t.Ready done) (ha : t'.agenda = t.agenda)
    (hm : t'.marks = t.marks) : t'.Ready done := by
  intro k id hd
  obtain ⟨hk, hw⟩ := h k id (hm ▸ hd)
  exact ⟨hk, by rwa [Waits, ha]⟩

omit [Unbounded α] in
theorem Ready.proceeds {done : Kind → Prop} (h : t.Ready done) (hp : t.Proceeds t')
    (hf : ∀ k, done k → t.model.stage.feeds k = false) : t'.Ready done := by
  intro k id hd
  rcases hp.due k id hd with hd | ⟨hk, hw⟩
  · obtain ⟨hk, hw⟩ := h k id hd
    exact ⟨hk, hp.waits k id hw⟩
  · refine ⟨fun hdone => ?_, hw⟩
    rw [hf k hdone] at hk
    cases hk

/-- After a round that succeeds, whatever waited has run, and whatever is due waits for the next. -/
theorem ready_runAll {done : Kind → Prop} {phase : Phase} {k : Kind} {s : Run A ω}
    (hs : t.Watches s) (hr : t.Ready done) (hf : ∀ k', done k' → t.model.stage.feeds k' = false)
    (h : Program.runAll phase (t.agenda.programs k).entries (t.withPrograms k .empty) =
      (.ok (), t')) :
    t'.Ready done ∧ t'.model.stage = t.model.stage ∧ ∃ s' : Run A ω, t'.Watches s' := by
  obtain ⟨r, t'', s', ht, -, hw⟩ := matches_waiting phase k hs
  obtain ⟨-, rfl⟩ := Prod.mk.inj (h.symm.trans ht)
  rw [hs.entries] at h
  obtain ⟨hp, hran⟩ := proceeds_runAll phase k _ h
  refine ⟨fun k' id hd => ?_, hp.stage, s', hw⟩
  have hcases : Due t.marks k' id ∨ t.model.stage.feeds k' = true ∧ t'.Waits k' id :=
    hp.due k' id hd
  rcases hcases with hdue | ⟨hk, hwaits⟩
  · obtain ⟨hk, hwaits⟩ := hr k' id hdue
    have hne : k' ≠ k := by
      rintro rfl
      obtain ⟨P, hP⟩ := Table.contains_iff.mp hwaits
      have hmem : (id, P) ∈ (t.agenda.programs k').entries := Table.find?_eq_some_iff.mp hP
      rw [hs.entries] at hmem
      obtain ⟨e, he, heq⟩ := List.mem_map.mp hmem
      obtain ⟨rfl, -⟩ := Prod.mk.inj heq
      obtain ⟨-, -, -, hnot⟩ := hd
      exact hnot (hran e he)
    refine ⟨hk, hp.waits k' id ?_⟩
    rw [Waits, Run.withPrograms, Agenda.programs_withPrograms_of_ne _ hne]
    exact hwaits
  · refine ⟨fun hdone => ?_, hwaits⟩
    rw [hf k' hdone] at hk
    cases hk

/-- Rounds that succeed leave nothing due of their kind. -/
theorem ready_rounds {done : Kind → Prop} {phase : Phase} {k : Kind}
    {ps : List (String × Program A (ω × List Mark) .group)} (hw : ∃ s, t.Watches s)
    (hr : t.Ready done) (hf : ∀ k', done k' → t.model.stage.feeds k' = false)
    (h : Program.rounds phase k ps t = (.ok (), t')) : t'.Ready fun k' => done k' ∨ k' = k := by
  fun_induction Program.rounds phase k ps t with
  | case1 ps t pending he =>
    obtain ⟨-, rfl⟩ := Prod.mk.inj h
    intro k' id hd
    obtain ⟨hk, hwaits⟩ := hr k' id hd
    have hne : k' ≠ k := by
      rintro rfl
      have hmem : id ∈ pending.keys := Table.mem_keys.mpr hwaits
      have hnil : pending.entries = [] := by simpa [Table.isEmpty] using he
      simp [Table.keys, hnil] at hmem
    refine ⟨not_or.mpr ⟨hk, hne⟩, ?_⟩
    rw [Waits, Run.withPrograms, Agenda.programs_withPrograms_of_ne _ hne]
    exact hwaits
  | case2 ps t pending he ps' u hu ih =>
    obtain ⟨s, hs⟩ := hw
    obtain ⟨hru, hstage, hwu⟩ := ready_runAll hs hr hf hu
    exact ih hwu hru (fun k' hk' => hstage ▸ hf k' hk') h
  | case3 => cases h

/-- The run is one with a record, and its programs are accounted for. -/
def Accounted (done : Kind → Prop) (t : Run A (ω × List Mark)) : Prop :=
  (∃ s : Run A ω, t.Watches s) ∧ t.Ready done

omit [Unbounded α] in
theorem Local.accounted {x : ∀ ω, Step A ω β} (h : Local x) (done : Kind → Prop) :
    Preserves (Accounted (ω := ω) done) (x (ω × List Mark)) := by
  refine Triple.of_after fun t ⟨⟨s, hs⟩, hr⟩ => ⟨⟨_, (h.matches ω t s hs).2⟩, ?_⟩
  obtain ⟨e, he⟩ := h
  rw [he]
  exact hr.of_eq rfl rfl

omit [Unbounded α] in
theorem enter_accounted (done : Kind → Prop) (phase : Phase) :
    Triple (Accounted (ω := ω) done) (Run.enter phase : Step A _ Unit)
      (fun _ t => Accounted (ω := ω) done t ∧ t.model.stage = .initializing phase)
      fun _ _ => True := by
  intro t ht
  exact ⟨(local_enter phase).accounted done t ht, rfl⟩

/-- The phase of a kind's groups, when the kinds that are done with have had theirs. -/
theorem runGroups_accounted {done : Kind → Prop} {phase : Phase} (k : Kind)
    (hf : ∀ k', done k' → (Stage.initializing phase).feeds k' = false) :
    Triple (Accounted (ω := ω) done) (Run.runGroups phase k : Step A _ Unit)
      (fun _ => Accounted (ω := ω) fun k' => done k' ∨ k' = k) fun _ _ => True := by
  refine (enter_accounted done phase).bind fun _ => ?_
  rintro t ⟨⟨⟨s, hs⟩, hr⟩, hstage⟩
  have hw := (matches_rounds phase k [] s t hs).2
  match hrounds : Program.rounds phase k [] t with
  | (.ok (), t') =>
    simp only [List.map_nil, hrounds] at hw
    exact ⟨⟨_, hw⟩, ready_rounds ⟨s, hs⟩ hr (fun k' hk' => hstage ▸ hf k' hk') hrounds⟩
  | (.error e, t') => trivial

/-- Building the objective makes nothing due once all kinds are done with. -/
theorem buildObjective_accounted :
    Triple (fun t => Accounted (A := A) (ω := ω) (fun _ => True) t ∧
        t.model.stage = .initializing .objective) Run.buildObjective
      (fun _ => Accounted (ω := ω) fun _ => True) fun _ _ => True := by
  rintro t ⟨⟨⟨s, hs⟩, hr⟩, hstage⟩
  have hw := (matches_buildObjective t s hs).2
  have hready : (Run.buildObjective t).2.Ready fun _ => True := by
    have hafter : Triple (fun u => u = t) Run.buildObjective
        (fun _ u => u.Ready (ω := ω) fun _ => True) fun _ u => u.Ready (ω := ω) fun _ => True := by
      refine Triple.get_bind fun u hu => ?_
      subst hu
      rw [hs.agenda, Agenda.watched]
      cases s.agenda.objective with
      | none => exact Triple.pure fun _ h => h ▸ hr
      | some o =>
        have hrun : (o.2.watched none |>.run u).2.Ready fun _ => True :=
          hr.proceeds (proceeds_run o.2 none u) fun k _ => by
            rw [hstage]
            cases k <;> rfl
        refine Triple.bind (Q := fun _ v => v.Ready fun _ => True)
          (Triple.of_after fun v hv => hv ▸ hrun) fun e => Triple.of_after fun v hv => ?_
        exact hv.of_eq rfl rfl
    exact Triple.after hafter rfl
  revert hw hready
  obtain ⟨r, t'⟩ := Run.buildObjective t
  cases r with
  | ok => exact fun hw hready => ⟨⟨_, hw⟩, hready⟩
  | error e => exact fun _ _ => trivial

omit [Unbounded α] in
theorem Accounted.mono {done done' : Kind → Prop} (h : ∀ k, done k ↔ done' k)
    (ht : t.Accounted (ω := ω) done) : t.Accounted (ω := ω) done' :=
  ⟨ht.1, fun k id hd => ⟨fun hk => (ht.2 k id hd).1 ((h k).mpr hk), (ht.2 k id hd).2⟩⟩

/-- All phases together leave nothing due. -/
theorem phases_accounted :
    Triple (Accounted (A := A) (ω := ω) fun _ => False) Run.phases
      (fun _ => Accounted (ω := ω) fun _ => True) fun _ _ => True := by
  have hlocal {x : ∀ ω, Step A ω Unit} (h : Local x) (done : Kind → Prop) :
      Triple (Accounted (ω := ω) done) (x (ω × List Mark)) (fun _ => Accounted (ω := ω) done)
        fun _ _ => True :=
    (h.accounted done).imp (fun _ h => h) (fun _ _ h => h) fun _ _ _ => trivial
  refine (hlocal local_initModel _).bind fun _ => ?_
  refine (runGroups_accounted .constant (by simp)).bind fun _ => ?_
  refine (runGroups_accounted .var ?_).bind fun _ => ?_
  · rintro k (hk | rfl)
    · exact hk.elim
    · rfl
  refine (hlocal local_initVariables _).bind fun _ => ?_
  refine (runGroups_accounted .constraint ?_).bind fun _ => ?_
  · rintro k ((hk | rfl) | rfl)
    · exact hk.elim
    · rfl
    · rfl
  refine (hlocal local_ensureSound _).bind fun _ => (hlocal local_initConstraints _).bind fun _ => ?_
  refine Triple.imp (P := Accounted fun _ => True) ?_ (fun t ht => ht.mono fun k => ?_)
    (fun _ _ h => h) fun _ _ h => h
  · refine (enter_accounted _ .objective).bind fun _ => buildObjective_accounted.bind fun _ => ?_
    exact hlocal local_handObjective _
  · cases k <;> simp

theorem handOver_accounted :
    Triple (Accounted (A := A) (ω := ω) fun _ => False) Run.handOver
      (fun _ => Accounted (ω := ω) fun _ => True)
      fun _ t => t.model.stage = .declaring → t.Ready (ω := ω) fun _ => False := by
  have hsound : Triple (Accounted (A := A) (ω := ω) fun _ => False) Run.ensureSound
      (fun _ => Accounted (ω := ω) fun _ => False)
      fun _ t => t.model.stage = .declaring → t.Ready (ω := ω) fun _ => False :=
    (local_ensureSound.accounted _).imp (fun _ h => h) (fun _ _ h => h) fun _ _ h _ => h.2
  refine hsound.bind fun _ => Triple.get_bind fun t ht => ?_
  have hlog : Triple (fun u => u = t) (Run.log [.initStarted t.model.adapterName])
      (fun _ => Accounted (ω := ω) fun _ => False)
      fun _ u => u.model.stage = .declaring → u.Ready (ω := ω) fun _ => False := by
    rintro u rfl
    exact (local_log [.initStarted u.model.adapterName]).accounted _ u ht
  refine hlog.bind fun _ => Triple.bind (Q := fun _ => Accounted (ω := ω) fun _ => True) ?_ fun _ =>
    ((local_initFinished.accounted _).imp (fun _ h => h) (fun _ _ h => h) ?_)
  · refine phases_accounted.tryCatch fun e => ?_
    intro u _ hu
    cases hu
  · intro _ u h _ k id hd
    exact absurd trivial (h.2 k id hd).1

/-- While a model is being declared, whatever is due waits. -/
def Prepared (t : Run A (ω × List Mark)) : Prop :=
  t.model.stage = .declaring → t.Ready fun _ => False

theorem Prepared.after {s : Run A ω} (h : t.Prepared) (hs : t.Watches s) (o : Operation A ω) :
    (t.after o.watched).Prepared := by
  intro hstage
  cases o with
  | declare P =>
    have hp : t.Proceeds (t.after (.declare (P.watched none))) := proceeds_run P none t
    exact (h (hp.stage.symm.trans hstage)).proceeds hp fun _ hk => hk.elim
  | init =>
    by_cases hd : t.model.stage = .declaring
    · have hinit : t.after .init = (Run.handOver t).2 := congrArg Prod.snd (init_apply hd)
      have hover := handOver_accounted t ⟨⟨s, hs⟩, h hd⟩
      rw [Operation.watched, hinit] at hstage ⊢
      revert hover hstage
      obtain ⟨r, u⟩ := Run.handOver t
      cases r with
      | ok => exact fun _ hu k id hd => absurd trivial (hu.2 k id hd).1
      | error e => exact fun hstage hu => hu hstage
    · have hinit : t.after .init = t := congrArg Prod.snd (init_closed hd)
      rw [Operation.watched, hinit] at hstage
      exact absurd hstage hd
  | compute =>
    have hafter : t.after (Operation.watched .compute) = t := after_compute_of_declaring hstage
    rw [hafter] at hstage ⊢
    exact h hstage
  | extract =>
    have hafter : t.after (Operation.watched .extract) = t := after_extract_of_declaring hstage
    rw [hafter] at hstage ⊢
    exact h hstage

theorem Prepared.afterAll {s : Run A ω} (h : t.Prepared) (hs : t.Watches s)
    (os : List (Operation A ω)) : (t.afterAll (os.map Operation.watched)).Prepared := by
  induction os generalizing t s with
  | nil => exact h
  | cons o rest ih => exact ih (h.after hs o) (hs.after o)

end Run
end Milp
