import Milp.Proofs.Admitted
import Milp.Proofs.Rebuilt

/-! Declarations in any order. What is declared, captured and handed over depends on which declarations
were accepted, not on when, and of those that compete for a name one is accepted. -/
namespace Milp

variable {α η κ ω : Type} {A : Adapter α η κ}

/-- Something was declared there; the objective can be declared again. -/
def Place.Taken (m : Model A) : Place → Prop
  | .group k id => (m.registry k).groups.contains id = true
  | .entity k id => (m.registry k).entities.contains id = true
  | .objective => False

namespace Declaration

variable {d d' : Declaration A ω} {m m' : Model A} {k : Kind} {id : String}

theorem Adds.token (h : d.Adds m m') : m'.token = m.token := (congrArg Model.token h.setting :)

theorem Adds.variableFactory (h : d.Adds m m') : m'.variableFactory = m.variableFactory :=
  (congrArg Model.variableFactory h.setting :)

theorem Adds.constraintFactory (h : d.Adds m m') : m'.constraintFactory = m.constraintFactory :=
  (congrArg Model.constraintFactory h.setting :)

theorem Adds.stage (h : d.Adds m m') : m'.stage = m.stage := (congrArg Model.stage h.setting :)

theorem place_of_member {group : String} (h : d.member? = some (k, group, id)) :
    d.place = .entity k id := by
  cases d with
  | group => cases h
  | var => cases h; rfl
  | constraint => cases h; rfl
  | constant => cases h; rfl
  | objective => cases h

theorem exists_member (h : d.place = .entity k id) : ∃ group, d.member? = some (k, group, id) := by
  cases d with
  | group => cases h
  | var => cases h; exact ⟨_, rfl⟩
  | constraint => cases h; exact ⟨_, rfl⟩
  | constant => cases h; exact ⟨_, rfl⟩
  | objective => cases h

theorem Held.taken (h : d.Held m) (hd : d.place ≠ .objective) : d.place.Taken m := by
  cases d with
  | group => exact Table.contains_of_find? h
  | var =>
    obtain ⟨v, -, hv⟩ := h
    exact Table.contains_of_find? hv
  | constraint =>
    obtain ⟨c, -, hc⟩ := h
    exact Table.contains_of_find? hc
  | constant => exact Table.contains_of_find? h
  | objective => exact absurd rfl hd

theorem Fits.not_taken (h : d.Fits m) : ¬d.place.Taken m := by
  intro ht
  cases hp : d.place with
  | group k id =>
    rw [hp] at ht
    cases (h.group k id hp).2.symm.trans ht
  | entity k id =>
    rw [hp] at ht
    obtain ⟨group, hmember⟩ := exists_member hp
    cases (h.member k group id hmember).2.symm.trans ht
  | objective =>
    rw [hp] at ht
    exact ht

theorem Made.fits (h : d.Made m m') : d.Fits m := (exists_made_iff.mp ⟨m', h⟩).1

/-- What is taken stays taken. -/
theorem Made.taken (h : d.Made m m') {p : Place} (hp : p.Taken m) : p.Taken m' := by
  have hne : d.place ≠ p := fun hd => h.fits.not_taken (hd ▸ hp)
  cases p with
  | group k id =>
    obtain ⟨g, hg⟩ := Table.contains_iff.mp hp
    exact Table.contains_of_find? ((h.adds.groups k id hne).trans hg)
  | entity k id =>
    obtain ⟨e, he⟩ := Table.contains_iff.mp hp
    exact Table.contains_of_find? ((h.adds.entities k id hne).trans he)
  | objective => exact hp

/-- A declaration under another name is no obstacle. -/
theorem Made.fits_of_ne (h : d'.Made m m') (hne : d'.place ≠ d.place) (hd : d.Fits m) :
    d.Fits m' where
  timely := by
    rw [h.adds.stage]
    exact hd.timely
  group k id hp := by
    obtain ⟨hblank, habsent⟩ := hd.group k id hp
    refine ⟨hblank, Table.find?_eq_none_iff.mp ?_⟩
    rw [h.adds.groups k id (hp ▸ hne)]
    exact Table.find?_eq_none_iff.mpr habsent
  member k group id hm := by
    obtain ⟨hgroup, habsent⟩ := hd.member k group id hm
    obtain ⟨g, hg⟩ := Table.contains_iff.mp hgroup
    refine ⟨Table.contains_of_find? (h.declared.grows.groups k group g hg), ?_⟩
    apply Table.find?_eq_none_iff.mp
    rw [h.adds.entities k id (place_of_member hm ▸ hne)]
    exact Table.find?_eq_none_iff.mpr habsent
  owned e he := h.declared.grows.owns (hd.owned e he)

theorem Made.accepted (h : d'.Made m m') (hd : d.Accepted m) : d.Accepted m' := by
  cases d with
  | var =>
    obtain ⟨v, hv⟩ := hd
    refine ⟨v, ?_⟩
    rw [h.adds.variableFactory, h.adds.token]
    exact hv
  | constraint =>
    obtain ⟨c, hc⟩ := hd
    refine ⟨c, ?_⟩
    rw [h.adds.constraintFactory]
    exact hc
  | _ => exact hd

/-- What is declared stays as it was declared, until another objective is. -/
theorem Made.held (h : d'.Made m m') (hd : d.Held m)
    (hobjective : d.place = .objective → d'.place ≠ .objective) : d.Held m' := by
  have hne : d'.place ≠ d.place := by
    intro heq
    by_cases hp : d.place = .objective
    · exact hobjective hp (heq.trans hp)
    · exact h.fits.not_taken (heq ▸ hd.taken hp)
  cases d with
  | group k id =>
    have hgroup := h.adds.groups k id hne
    exact hgroup.trans hd
  | var id =>
    obtain ⟨v, hv, hentity⟩ := hd
    refine ⟨v, ?_, (h.adds.entities .var id hne).trans hentity⟩
    rw [h.adds.variableFactory, h.adds.token]
    exact hv
  | constraint id =>
    obtain ⟨c, hc, hentity⟩ := hd
    refine ⟨c, ?_, (h.adds.entities .constraint id hne).trans hentity⟩
    rw [h.adds.constraintFactory]
    exact hc
  | constant id => exact (h.adds.entities .constant id hne).trans hd
  | objective => exact (h.adds.objective hne).trans hd

/-- Under a name there is the same in all models that have what is declared there. -/
theorem Held.find?_group {id : String} (h : d.Held m) (h' : d.Held m')
    (hp : d.place = .group k id) :
    (m'.registry k).groups.find? id = (m.registry k).groups.find? id := by
  cases d with
  | group => cases hp; exact Eq.trans h' (Eq.symm h)
  | _ => cases hp

theorem Held.find?_entity {id : String} (h : d.Held m) (h' : d.Held m')
    (hp : d.place = .entity k id) (htoken : m'.token = m.token)
    (hvariables : m'.variableFactory = m.variableFactory)
    (hconstraints : m'.constraintFactory = m.constraintFactory) :
    (m'.registry k).entities.find? id = (m.registry k).entities.find? id := by
  cases d with
  | var =>
    cases hp
    obtain ⟨v, hv, he⟩ := h
    obtain ⟨v', hv', he'⟩ := h'
    rw [hvariables, htoken] at hv'
    obtain rfl : v' = v := Except.ok.inj (hv'.symm.trans hv)
    exact he'.trans he.symm
  | constraint =>
    cases hp
    obtain ⟨c, hc, he⟩ := h
    obtain ⟨c', hc', he'⟩ := h'
    rw [hconstraints] at hc'
    obtain rfl : c' = c := Except.ok.inj (hc'.symm.trans hc)
    exact he'.trans he.symm
  | constant => cases hp; exact Eq.trans h' (Eq.symm h)
  | _ => cases hp

/-- The later model has all that is declared, and is as the first one in everything else. -/
structure Collects (ds : List (Declaration A ω)) (m m' : Model A) : Prop where
  held : ∀ d ∈ ds, d.Held m'
  groups : ∀ k id, (∀ d ∈ ds, d.place ≠ .group k id) →
    (m'.registry k).groups.find? id = (m.registry k).groups.find? id
  entities : ∀ k id, (∀ d ∈ ds, d.place ≠ .entity k id) →
    (m'.registry k).entities.find? id = (m.registry k).entities.find? id
  objective : (∀ d ∈ ds, d.place ≠ .objective) → m'.objective = m.objective
  setting : { m' with
    vars := m.vars, constraints := m.constraints, constants := m.constants
    objective := m.objective } = m

theorem collects_nil (m : Model A) : Collects ([] : List (Declaration A ω)) m m :=
  ⟨nofun, fun _ _ _ => rfl, fun _ _ _ => rfl, fun _ => rfl, rfl⟩

theorem Collects.cons {ds : List (Declaration A ω)} {m'' : Model A} (hd : d.Adds m m')
    (h : Collects ds m' m'') (hheld : d.Held m'') : Collects (d :: ds) m m'' where
  held := List.forall_mem_cons.mpr ⟨hheld, h.held⟩
  groups k id hne := by
    obtain ⟨hhead, hrest⟩ := List.forall_mem_cons.mp hne
    exact (h.groups k id hrest).trans (hd.groups k id hhead)
  entities k id hne := by
    obtain ⟨hhead, hrest⟩ := List.forall_mem_cons.mp hne
    exact (h.entities k id hrest).trans (hd.entities k id hhead)
  objective hne := by
    obtain ⟨hhead, hrest⟩ := List.forall_mem_cons.mp hne
    exact (h.objective hrest).trans (hd.objective hhead)
  setting := by
    have hset := congrArg (fun n : Model A => { n with
      vars := m.vars, constraints := m.constraints, constants := m.constants
      objective := m.objective }) h.setting
    exact hset.trans hd.setting

section Unique

variable {ds es : List (Declaration A ω)} {m₀ m₀' : Model A}

theorem Collects.eq_with (h : Collects ds m₀ m) : m = { m₀ with
    vars := m.vars, constraints := m.constraints, constants := m.constants
    objective := m.objective } := by
  rw [← h.setting]

/-- The same declarations make the same registry, in whatever order they come. -/
theorem Collects.registry_eq (h : Collects ds m₀ m) (h' : Collects es m₀' m')
    (hmem : ∀ d, d ∈ es ↔ d ∈ ds) (h₀ : m₀' = { m₀ with adapter := m₀'.adapter }) (k : Kind) :
    m'.registry k = m.registry k := by
  have hstart : m₀'.registry k = m₀.registry k := by
    rw [h₀]
    cases k <;> rfl
  have htoken : m'.token = m.token := by
    rw [h.eq_with, h'.eq_with, h₀]
  have hvariables : m'.variableFactory = m.variableFactory := by
    rw [h.eq_with, h'.eq_with, h₀]
  have hconstraints : m'.constraintFactory = m.constraintFactory := by
    rw [h.eq_with, h'.eq_with, h₀]
  have hgroups : (m'.registry k).groups = (m.registry k).groups := by
    apply Table.ext_find?
    intro id
    by_cases hd : ∃ d ∈ ds, d.place = .group k id
    · obtain ⟨d, hd, hp⟩ := hd
      exact (h.held d hd).find?_group (h'.held d ((hmem d).mpr hd)) hp
    · have hne : ∀ d ∈ ds, d.place ≠ .group k id := fun d hm hp => hd ⟨d, hm, hp⟩
      rw [h.groups k id hne, h'.groups k id fun d hm => hne d ((hmem d).mp hm), hstart]
  have hentities : (m'.registry k).entities = (m.registry k).entities := by
    apply Table.ext_find?
    intro id
    by_cases hd : ∃ d ∈ ds, d.place = .entity k id
    · obtain ⟨d, hd, hp⟩ := hd
      exact (h.held d hd).find?_entity (h'.held d ((hmem d).mpr hd)) hp htoken hvariables
        hconstraints
    · have hne : ∀ d ∈ ds, d.place ≠ .entity k id := fun d hm hp => hd ⟨d, hm, hp⟩
      rw [h.entities k id hne, h'.entities k id fun d hm => hne d ((hmem d).mp hm), hstart]
  calc m'.registry k = ⟨(m'.registry k).groups, (m'.registry k).entities⟩ := rfl
    _ = m.registry k := by rw [hgroups, hentities]

theorem Collects.objective_eq (h : Collects ds m₀ m) (h' : Collects es m₀' m')
    (hmem : ∀ d, d ∈ es ↔ d ∈ ds) (h₀ : m₀' = { m₀ with adapter := m₀'.adapter }) :
    m'.objective = m.objective := by
  by_cases hd : ∃ d ∈ ds, d.place = .objective
  · obtain ⟨d, hd, hp⟩ := hd
    have hheld := h.held d hd
    have hheld' := h'.held d ((hmem d).mpr hd)
    cases d with
    | objective => exact Eq.trans hheld' (Eq.symm hheld)
    | _ => cases hp
  · have hne : ∀ d ∈ ds, d.place ≠ .objective := fun d hm hp => hd ⟨d, hm, hp⟩
    rw [h.objective hne, h'.objective fun d hm => hne d ((hmem d).mp hm), h₀]

/-- And so the same model, but for what the adapter knows. -/
theorem Collects.unique (h : Collects ds m₀ m) (h' : Collects es m₀' m')
    (hmem : ∀ d, d ∈ es ↔ d ∈ ds) (h₀ : m₀' = { m₀ with adapter := m₀'.adapter }) :
    m' = { m with adapter := m'.adapter } := by
  have hvars : m'.vars = m.vars := h.registry_eq h' hmem h₀ .var
  have hconstraints : m'.constraints = m.constraints := h.registry_eq h' hmem h₀ .constraint
  have hconstants : m'.constants = m.constants := h.registry_eq h' hmem h₀ .constant
  have hobjective := h.objective_eq h' hmem h₀
  have hadapter : m'.adapter = m₀'.adapter := by rw [h'.eq_with]
  calc m' = { m₀' with
        vars := m'.vars, constraints := m'.constraints, constants := m'.constants
        objective := m'.objective } := h'.eq_with
    _ = { m₀ with
        adapter := m₀'.adapter, vars := m.vars, constraints := m.constraints
        constants := m.constants, objective := m.objective } := by
      rw [hvars, hconstraints, hconstants, hobjective, h₀]
    _ = { m with adapter := m'.adapter } := by
      rw [hadapter]
      exact congrArg (fun n : Model A => { n with adapter := m₀'.adapter }) h.eq_with.symm

end Unique

end Declaration

theorem Recorder.Holds.eq [Scalar α] {m m' : Model (recorder α)} {r r' : Record α}
    (h : Holds m r) (h' : Holds m' r') (hidentifier : m'.identifier = m.identifier)
    (hvars : m'.vars = m.vars) (hconstraints : m'.constraints = m.constraints)
    (hobjective : m'.objective = m.objective) : r' = r := by
  cases r
  cases r'
  simp only [Record.mk.injEq]
  refine ⟨?_, ?_, ?_, ?_⟩
  · exact h'.identifier.trans (hidentifier.trans h.identifier.symm)
  · exact h'.columns.trans (hvars ▸ h.columns.symm)
  · exact h'.rows.trans (hconstraints ▸ h.rows.symm)
  · exact h'.objective.trans (hobjective.trans h.objective.symm)

namespace Run

variable [Unbounded α] {s : Run A ω} {d : Declaration A ω} {ds : List (Declaration A ω)}

/-- What becomes of declarations that are made in turn, whether or not those before them succeeded. -/
def outcomes (s : Run A ω) : List (Declaration A ω) →
    List (Declaration A ω × Except (ModelError α) Unit)
  | [] => []
  | d :: ds => (d, (d.program.run s).1) :: outcomes (d.program.run s).2 ds

/-- The run after them. -/
def declared (s : Run A ω) (ds : List (Declaration A ω)) : Run A ω :=
  s.afterAll (ds.map fun d => .declare d.program)

def Accepts (s : Run A ω) (ds : List (Declaration A ω)) : Prop := ∀ x ∈ s.outcomes ds, x.2 = .ok ()

theorem accepts_of_all (h : (s.outcomes ds).all (·.2.isOk) = true) : s.Accepts ds := by
  intro x hx
  exact eq_ok_of_isOk (List.all_eq_true.mp h x hx)

theorem accepts_cons : s.Accepts (d :: ds) ↔
    (d.program.run s).1 = .ok () ∧ (d.program.run s).2.Accepts ds := List.forall_mem_cons

theorem held_declared (h : s.Accepts ds) (hd : d.Held s.model)
    (hobjective : d.place = .objective → ∀ d' ∈ ds, d'.place ≠ .objective) :
    d.Held (s.declared ds).model := by
  induction ds generalizing s with
  | nil => exact hd
  | cons d' rest ih =>
    obtain ⟨hok, hrest⟩ := accepts_cons.mp h
    have hheld := (Declaration.made_of_run hok).1.held hd fun hp => hobjective hp d' List.mem_cons_self
    exact ih hrest hheld fun hp d'' hd'' => hobjective hp d'' (List.mem_cons_of_mem _ hd'')

/-- With one objective at most, what is accepted is collected. -/
theorem collects_declared (h : s.Accepts ds) (ho : ds.countP (·.place = .objective) ≤ 1) :
    Declaration.Collects ds s.model (s.declared ds).model := by
  induction ds generalizing s with
  | nil => exact Declaration.collects_nil _
  | cons d rest ih =>
    obtain ⟨hok, hrest⟩ := accepts_cons.mp h
    have hadds := (Declaration.made_of_run hok).2.model
    rw [List.countP_cons] at ho
    have hcollects := ih hrest (by omega)
    have hheld : d.Held ((d.program.run s).2.declared rest).model := by
      refine held_declared hrest hadds.held fun hp d' hd' => ?_
      have hzero : rest.countP (·.place = .objective) = 0 := by
        simp only [hp, decide_true, if_true] at ho
        omega
      simpa using List.countP_eq_zero.mp hzero d' hd'
    exact hcollects.cons hadds hheld

theorem agenda_declared (h : s.Accepts ds) (hds : ∀ d ∈ ds, d.programmed? = none) :
    (s.declared ds).agenda.objective = s.agenda.objective ∧
      ∀ k, (s.declared ds).agenda.programs k = s.agenda.programs k := by
  induction ds generalizing s with
  | nil => exact ⟨rfl, fun k => rfl⟩
  | cons d rest ih =>
    obtain ⟨hok, hrest⟩ := accepts_cons.mp h
    obtain ⟨hplain, hplains⟩ := List.forall_mem_cons.mp hds
    have henters := (Declaration.made_of_run hok).2
    obtain ⟨hobjective, hprograms⟩ := ih hrest hplains
    refine ⟨hobjective.trans henters.builder, fun k => (hprograms k).trans ?_⟩
    apply Table.ext_find?
    intro id
    exact henters.programs k id (by simp [hplain])

section Competition

variable {p : Place}

theorem countP_outcomes_taken (hp : p.Taken s.model) :
    (s.outcomes ds).countP (fun x => decide (x.1.place = p) && x.2.isOk) = 0 := by
  induction ds generalizing s with
  | nil => rfl
  | cons d rest ih =>
    have htaken : p.Taken (d.program.run s).2.model := by
      have houtcome := d.outcome s
      generalize d.program.run s = o at houtcome
      cases houtcome with
      | made hm ht => exact hm.taken hp
      | refused e hm => exact hp
    have hhead : (decide (d.place = p) && (d.program.run s).1.isOk) = false := by
      rw [Bool.and_eq_false_iff, decide_eq_false_iff_not]
      by_cases hd : d.place = p
      · right
        cases hr : (d.program.run s).1 with
        | ok u => exact absurd (hd ▸ hp) (Declaration.made_of_run hr).1.fits.not_taken
        | error e => rfl
      · exact .inl hd
    rw [outcomes, List.countP_cons, ih htaken, hhead]
    rfl

/-- Of declarations that compete for a name, among others, the first one is accepted and no other. -/
theorem countP_outcomes_eq_one (hp : p ≠ .objective) (hd : ∃ d ∈ ds, d.place = p)
    (hok : ∀ d ∈ ds, d.place = p → (d.program.run s).1 = .ok ()) :
    (s.outcomes ds).countP (fun x => decide (x.1.place = p) && x.2.isOk) = 1 := by
  induction ds generalizing s with
  | nil =>
    obtain ⟨d, hd, -⟩ := hd
    cases hd
  | cons d rest ih =>
    rw [outcomes, List.countP_cons]
    by_cases hplace : d.place = p
    · have hfirst := hok d List.mem_cons_self hplace
      have htaken : p.Taken (d.program.run s).2.model :=
        hplace ▸ (Declaration.made_of_run hfirst).2.model.held.taken (hplace ▸ hp)
      rw [countP_outcomes_taken htaken, hfirst]
      simp [hplace, Except.isOk, Except.toBool]
    · have hrest : ∀ d' ∈ rest, d'.place = p →
          (d'.program.run (d.program.run s).2).1 = .ok () := by
        intro d' hd' hp'
        have hbefore := hok d' (List.mem_cons_of_mem _ hd') hp'
        have houtcome := d.outcome s
        generalize d.program.run s = o at houtcome
        cases houtcome with
        | refused e hm => exact hbefore
        | made hm ht =>
          have hmade := (Declaration.made_of_run hbefore).1
          have hfits := hm.fits_of_ne (fun h => hplace (h.trans hp')) hmade.fits
          have haccepted := hm.accepted (Declaration.exists_made_iff.mp ⟨_, hmade⟩).2
          exact Declaration.run_eq_ok.mpr ⟨hfits, haccepted⟩
      have hone : ∃ d' ∈ rest, d'.place = p := by
        obtain ⟨d', hd', hp'⟩ := hd
        rcases List.mem_cons.mp hd' with rfl | hd'
        · exact absurd hp' hplace
        · exact ⟨d', hd', hp'⟩
      rw [ih hone hrest]
      simp [hplace]

end Competition

section Handover

variable {ω : Type} {σ σ' : Recorder.State α} {s t : Run (recorder α) ω}

/-- Two models that are the same but for their adapters are handed over alike by recorders. -/
theorem init_alike (hs : s.Reachable σ) (ht : t.Reachable σ')
    (hmodel : t.model = { s.model with adapter := t.model.adapter })
    (hrecord : t.model.adapter.record = s.model.adapter.record)
    (hstage : s.model.stage = .declaring)
    (hobjective : s.agenda.objective = none ∧ t.agenda.objective = none)
    (hprograms : ∀ k, (s.agenda.programs k).isEmpty = true ∧ (t.agenda.programs k).isEmpty = true) :
    (Run.init t).1 = (Run.init s).1 ∧
      (t.after .init).model = { (s.after .init).model with
        adapter := (t.after .init).model.adapter } ∧
      (t.after .init).model.adapter.record = (s.after .init).model.adapter.record := by
  have hstage' : t.model.stage = .declaring := by rw [hmodel, hstage]
  have hissues : t.model.issues = s.model.issues := by
    rw [hmodel]
    rfl
  by_cases hi : s.model.issues = []
  · obtain ⟨s', σ₁, columns, lines, hinit, hs'⟩ :=
      init_obliged Recorder.obliging hstage (fun k => (hprograms k).1) hobjective.1 hi
    obtain ⟨t', σ₂, columns', lines', hinit', ht'⟩ :=
      init_obliged Recorder.obliging hstage' (fun k => (hprograms k).2) hobjective.2
        (hissues.trans hi)
    have hafter : s.after .init = s' := congrArg Prod.snd hinit
    have hafter' : t.after .init = t' := congrArg Prod.snd hinit'
    have hreachable : s'.Reachable σ := hafter ▸ hs.after .init
    have hreachable' : t'.Reachable σ' := hafter' ▸ ht.after .init
    have hready : s'.model.stage = .initialized := by rw [hs']
    have hready' : t'.model.stage = .initialized := by rw [ht']
    obtain ⟨r, hr, hholds⟩ := hreachable.holds (.inl hready)
    obtain ⟨r', hr', hholds'⟩ := hreachable'.holds (.inl hready')
    obtain ⟨hcolumns, hcolumnKeys, hlines, hlineKeys⟩ := hreachable.numbered (.inl hready)
    obtain ⟨hcolumns', hcolumnKeys', hlines', hlineKeys'⟩ := hreachable'.numbered (.inl hready')
    have hidentifier : t'.model.identifier = s'.model.identifier := by rw [ht', hs', hmodel]
    have hvars : t'.model.vars = s'.model.vars := by rw [ht', hs', hmodel]
    have hconstraints : t'.model.constraints = s'.model.constraints := by rw [ht', hs', hmodel]
    have hsame : t'.model.objective = s'.model.objective := by rw [ht', hs', hmodel]
    have hc : t'.model.columns = s'.model.columns :=
      hcolumns.eq hcolumns' (by rw [hcolumnKeys, hcolumnKeys', hvars])
    have hl : t'.model.lines = s'.model.lines :=
      hlines.eq hlines' (by rw [hlineKeys, hlineKeys', hconstraints])
    have hrr : r' = r := hholds.eq hholds' hidentifier hvars hconstraints hsame
    rw [hafter, hafter', hinit, hinit', hr, hr', hrr]
    refine ⟨rfl, ?_, rfl⟩
    calc t'.model = { s'.model with
          adapter := t'.model.adapter, columns := t'.model.columns, lines := t'.model.lines } := by
          rw [ht', hs', hmodel]
      _ = { s'.model with adapter := t'.model.adapter } := by rw [hc, hl]
  · have hempty : s.model.issues.isEmpty = false := by simpa using hi
    have hempty' : t.model.issues.isEmpty = false := hissues ▸ hempty
    have hafter := init_unsound hstage hempty
    have hafter' := init_unsound hstage' hempty'
    rw [after, after, hafter, hafter', hissues]
    exact ⟨rfl, hmodel, hrecord⟩

end Handover

/-- Two models of one name and one token on which the same groups, variables, constraints, constants and
objective are declared, each time in another order, are captured as the same document. They are handed
over alike: with the same result, the same record of columns, rows and objective, and the same handles.
And of any number of declarations of one group or of one entity that would each be accepted if it came
first, exactly one is accepted, in whatever order they come and whatever else is declared among them. -/
theorem declared_in_any_order :
    (∀ (token : Token) (id : String) (σ σ' : Recorder.State α) (world world' : ω)
        (ds es : List (Declaration (recorder α) ω)),
      let s : Run (recorder α) ω := new token id σ world
      let t : Run (recorder α) ω := new token id σ' world'
      σ'.record = σ.record → ds.Perm es → (∀ d ∈ ds, d.programmed? = none) →
      ds.countP (·.place = .objective) ≤ 1 → s.Accepts ds → t.Accepts es →
      let s' := (s.declared ds).after .init
      let t' := (t.declared es).after .init
      (∃ d, (s.declared ds).model.capture = .ok d ∧ (t.declared es).model.capture = .ok d) ∧
        (Run.init (t.declared es)).1 = (Run.init (s.declared ds)).1 ∧
        t'.model = { s'.model with adapter := t'.model.adapter } ∧
        t'.model.adapter.record = s'.model.adapter.record) ∧
    ∀ (s : Run A ω) (p : Place) (ds : List (Declaration A ω)), p ≠ .objective →
      (∃ d ∈ ds, d.place = p) → (∀ d ∈ ds, d.place = p → (d.program.run s).1 = .ok ()) →
      (s.outcomes ds).countP (fun x => decide (x.1.place = p) && x.2.isOk) = 1 := by
  constructor
  · intro token id σ σ' world world' ds es s t hrecord hperm hplain hobjective hs ht s' t'
    have hA : (recorder α).Usual := fun _ => ⟨rfl, rfl⟩
    have hcollects := collects_declared hs hobjective
    have hcollects' := collects_declared ht (hperm.countP_eq _ ▸ hobjective)
    have hplain' : ∀ d ∈ es, d.programmed? = none := fun d hd => hplain d (hperm.mem_iff.mpr hd)
    have hmodel : (t.declared es).model = { (s.declared ds).model with
        adapter := (t.declared es).model.adapter } :=
      hcollects.unique hcollects' (fun d => hperm.mem_iff.symm) rfl
    have hadapter : (s.declared ds).model.adapter = σ := by rw [hcollects.eq_with]; rfl
    have hadapter' : (t.declared es).model.adapter = σ' := by rw [hcollects'.eq_with]; rfl
    have hstage : (s.declared ds).model.stage = .declaring := by rw [hcollects.eq_with]; rfl
    have hreachable : (s.declared ds).Reachable σ := (Reachable.new token id world).afterAll _
    have hreachable' : (t.declared es).Reachable σ' := (Reachable.new token id world').afterAll _
    have hm := hreachable.regular hA
    have hcapture := Model.capture_eq hm.vars.named hm.constraints.named hm.constants.named
    refine ⟨⟨_, hcapture, ?_⟩, ?_⟩
    · rw [hmodel]
      exact hcapture
    · obtain ⟨hbuilder, hprograms⟩ := agenda_declared hs hplain
      obtain ⟨hbuilder', hprograms'⟩ := agenda_declared ht hplain'
      refine init_alike hreachable hreachable' hmodel ?_ hstage ⟨hbuilder, hbuilder'⟩ fun k => ?_
      · rw [hadapter, hadapter', hrecord]
      · rw [hprograms, hprograms']
        cases k <;> exact ⟨rfl, rfl⟩
  · intro s p ds hp hd hok
    exact countP_outcomes_eq_one hp hd hok

/-- Boxes on a shelf, with a rate and a cost, in two orders; and boxes that are declared twice. -/
theorem declared_in_any_order_shelf :
    let shelf : Group .var := ⟨"shelf", "what is kept", none⟩
    let boxes (g : Group .var) : Declaration (recorder Float) Unit := .var "boxes" .integer 0 3 g
    let group : Declaration (recorder Float) Unit := .group .var "shelf" "what is kept" none none
    let rate : Declaration (recorder Float) Unit := .constant "rate" 2 (.default .constant)
    let cost : Declaration (recorder Float) Unit :=
      .objective ⟨⟨0⟩, [.linear 2 "boxes" ⟨0⟩]⟩ .minimize
    let s : Run (recorder Float) Unit := new ⟨0⟩ "depot" {} ()
    let ds := [group, boxes shelf, rate, cost]
    let es := [rate, group, boxes shelf, cost]
    (∃ d, (s.declared ds).model.capture = .ok d ∧ (s.declared es).model.capture = .ok d) ∧
      (∃ r, ((s.declared ds).after .init).model.adapter.record = some r ∧
        ((s.declared es).after .init).model.adapter.record = some r ∧ r.columns = ["boxes"] ∧
        r.objective.isSome = true) ∧
      ((s.declared [group]).outcomes [boxes shelf, rate, boxes (.default .var)]).countP
        (fun x => decide (x.1.place = .entity .var "boxes") && x.2.isOk) = 1 := by
  intro shelf boxes group rate cost s ds es
  obtain ⟨horder, hcompete⟩ :=
    declared_in_any_order (α := Float) (A := recorder Float) (ω := Unit)
  have hperm : ds.Perm es := List.Perm.trans
    ((List.Perm.swap rate (boxes shelf) [cost]).cons group) (List.Perm.swap rate group _)
  have hplain : ∀ d ∈ ds, d.programmed? = none := by
    intro d hd
    simp only [ds, List.mem_cons, List.not_mem_nil, or_false] at hd
    rcases hd with rfl | rfl | rfl | rfl <;> rfl
  have hone : ds.countP (·.place = .objective) ≤ 1 := by decide
  have hs : s.Accepts ds := accepts_of_all (by decide)
  have ht : s.Accepts es := accepts_of_all rfl
  have hfirst : ((boxes shelf).program.run (s.declared [group])).1 = .ok () :=
    eq_ok_of_isOk rfl
  have hsecond : ((boxes (.default .var)).program.run (s.declared [group])).1 = .ok () :=
    eq_ok_of_isOk rfl
  have hrecord : ((s.declared ds).after .init).model.adapter.record.map (fun r =>
      (r.columns, r.objective.isSome)) = some (["boxes"], true) := by
    rw [after_init_idle (fun k => by cases k <;> rfl) (by decide +kernel) (by decide +kernel)
      (by decide +kernel)]
    decide +kernel
  obtain ⟨hcaptured, -, -, hsame⟩ := horder ⟨0⟩ "depot" {} {} () () ds es rfl hperm hplain hone hs ht
  have hboxes := hcompete (s.declared [group]) (.entity .var "boxes")
    [boxes shelf, rate, boxes (.default .var)] (by decide) ⟨boxes shelf, List.mem_cons_self, rfl⟩
  refine ⟨hcaptured, ?_, hboxes fun d hd hp => ?_⟩
  · -- From here on it does not matter which runs these are.
    generalize (s.declared ds).after .init = s', (s.declared es).after .init = t' at hrecord hsame
    obtain ⟨r, hr, hheld⟩ := Option.map_eq_some_iff.mp hrecord
    obtain ⟨hcolumns, hobjective⟩ := Prod.mk.inj hheld
    exact ⟨r, hr, hsame.trans hr, hcolumns, hobjective⟩
  simp only [List.mem_cons, List.not_mem_nil, or_false] at hd
  rcases hd with rfl | rfl | rfl
  · exact hfirst
  · cases hp
  · exact hsecond

end Run
end Milp
