import Milp.Adapter.Recorder
import Milp.Proofs.Handles
import Milp.Proofs.Idle
import Milp.Proofs.Problem
import Milp.Proofs.Unrestored

/-! What a model shows of a solution is what the last solve left of it, and nothing older. -/
namespace Milp

variable {α η κ ω : Type} {A : Adapter α η κ}

/-- In one of the exchanges the value was read. -/
def Reported (xs : List (Exchange α η κ)) (id : String) (x : α) : Prop :=
  ∃ columns values, (⟨.extract columns, .ok values⟩ : Exchange α η κ) ∈ xs ∧
    values.find? id = some x

namespace Model

variable [Scalar α]

/-- All that the model shows of a solution: these figures, and values that were reported. -/
structure Shows (m : Model A) (solution : Solution α) (reported : String → α → Prop) : Prop where
  variableFactory : m.variableFactory = Variable.new
  solution : m.solution = solution
  results : ∀ id p x, m.vars.entities.find? id = some p → p.entity.result = some x → reported id x

variable {m m' : Model A} {solution : Solution α} {reported : String → α → Prop}

theorem shows_new (hA : A.Usual) (token : Token) (id : String) (adapter : A.State) :
    (Model.new token id adapter : Model A).Shows {} fun _ _ => False where
  variableFactory := (hA adapter).1
  solution := rfl
  results _ _ _ h := nomatch h

theorem Shows.mono (h : m.Shows solution reported) {reported' : String → α → Prop}
    (hr : ∀ id x, reported id x → reported' id x) : m.Shows solution reported' where
  variableFactory := h.variableFactory
  solution := h.solution
  results id p x hp hx := hr id x (h.results id p x hp hx)

/-- A declaration shows nothing new. -/
theorem Shows.declared (h : m.Shows solution reported) (hd : Declared m m') :
    m'.Shows solution reported := by
  cases hd with
  | @group k id description generator g hm =>
    obtain ⟨-, -, -, -, rfl⟩ := createGroup_eq_ok.mp hm
    cases k <;> exact ⟨h.variableFactory, h.solution, h.results⟩
  | var hm =>
    obtain ⟨-, -, -, hv, rfl⟩ := createVariable_eq_ok.mp hm
    rw [h.variableFactory, Variable.new_eq_ok] at hv
    obtain ⟨-, -, rfl⟩ := hv
    refine ⟨h.variableFactory, h.solution, fun n p x hp hx => ?_⟩
    rw [Table.find?_insert] at hp
    split at hp
    · cases hp
      cases hx
    · exact h.results n p x hp hx
  | constraint hm =>
    obtain ⟨-, -, -, -, -, -, rfl⟩ := addConstraint_eq_ok.mp hm
    exact ⟨h.variableFactory, h.solution, h.results⟩
  | constant hm =>
    obtain ⟨-, -, -, -, -, rfl⟩ := createConstant_eq_ok.mp hm
    exact ⟨h.variableFactory, h.solution, h.results⟩
  | value hm =>
    obtain ⟨-, rfl⟩ := setConstant_eq_ok.mp hm
    exact ⟨h.variableFactory, h.solution, h.results⟩
  | objective hm =>
    obtain ⟨-, -, rfl⟩ := setObjective_eq_ok.mp hm
    exact ⟨h.variableFactory, h.solution, h.results⟩

theorem Shows.cleared (h : m.Shows solution reported) (adapter : A.State)
    (solution' : Solution α) (stage : Stage) (reported' : String → α → Prop) :
    Shows { Run.clearSolution m with adapter, solution := solution', stage } solution'
      reported' where
  variableFactory := h.variableFactory
  solution := rfl
  results id p x hp hx := by
    have hp : (m.vars.entities.map fun _ p =>
        { p with entity := { p.entity with result := none } }).find? id = some p := hp
    rw [Table.find?_map] at hp
    obtain ⟨q, -, rfl⟩ := Option.map_eq_some_iff.mp hp
    cases hx

theorem Shows.withResults (h : m.Shows solution reported) (values : Table α) :
    (m.withResults values).Shows solution fun id x =>
      reported id x ∨ values.find? id = some x where
  variableFactory := h.variableFactory
  solution := h.solution
  results id p x hp hx := by
    rw [find?_withResults] at hp
    obtain ⟨q, hq, rfl⟩ := Option.map_eq_some_iff.mp hp
    rcases Option.or_eq_some_iff.mp hx with hx | ⟨-, hx⟩
    · exact .inr hx
    · exact .inl (h.results id q x hq hx)

/-- The model shows nothing, or what the last solve reported and what was read since. -/
inductive Current (m : Model A.observed) : Prop
  | unsolved (hs : m.stage ≠ .solved) (h : m.Shows {} fun _ _ => False)
  | solved (before after : List (Exchange α η κ)) (columns : Handles η) (solution : Solution α)
      (events : List (Event α)) (hs : m.stage = .solved)
      (hx : m.exchanges = before ++ ⟨.compute columns, .ok (solution, events)⟩ :: after)
      (hafter : ∀ x ∈ after, ∃ columns, x.request = .extract columns)
      (h : m.Shows solution (Reported after))

theorem Current.shows {m : Model A.observed} (h : m.Current) :
    ∃ solution reported, m.Shows solution reported := by
  cases h with
  | unsolved _ h => exact ⟨_, _, h⟩
  | solved _ _ _ _ _ _ _ _ h => exact ⟨_, _, h⟩

theorem Current.declared {m m' : Model A.observed} (h : m.Current) (hd : Declared m m') :
    m'.Current := by
  have hg := hd.grows
  have hx : m'.exchanges = m.exchanges := congrArg Prod.snd hg.adapter
  cases h with
  | unsolved hs h => exact .unsolved (hg.stage ▸ hs) (h.declared hd)
  | solved before after columns solution events hs hm hafter h =>
    exact .solved before after columns solution events (hg.stage.trans hs) (hx.trans hm) hafter
      (h.declared hd)

/-- After one more exchange, in which values were asked for. -/
theorem Current.read {m m' : Model A.observed} (h : m.Current) (hs : m.stage = .solved)
    (hs' : m'.stage = .solved) {x : Exchange α η κ} (hx : m'.exchanges = m.exchanges ++ [x])
    (hq : ∃ columns, x.request = .extract columns)
    (hshows : ∀ solution reported, m.Shows solution reported →
      m'.Shows solution fun id v => reported id v ∨ Reported [x] id v) : m'.Current := by
  cases h with
  | unsolved hn => exact absurd hs hn
  | solved before after columns solution events _ hm hafter h =>
    refine .solved before (after ++ [x]) columns solution events hs' ?_ ?_ ((hshows _ _ h).mono ?_)
    · rw [hx, hm, List.append_assoc]
      rfl
    · simpa [or_imp, forall_and] using ⟨hafter, hq⟩
    · rintro id v (⟨columns, values, hv, hid⟩ | ⟨columns, values, hv, hid⟩)
      · exact ⟨columns, values, List.mem_append_left _ hv, hid⟩
      · exact ⟨columns, values, List.mem_append_right _ hv, hid⟩

end Model

namespace Run

variable [Unbounded α] {s : Run A.observed ω}

theorem current_init (h : s.Unrestored Model.Current) :
    (Run.init s).2.Unrestored Model.Current := by
  by_cases hs : s.model.stage = .declaring
  · have hshows : s.Unrestored fun m => m.Shows {} fun _ _ => False := by
      refine ⟨h.agenda, ?_⟩
      cases h.model with
      | unsolved _ h => exact h
      | solved _ _ _ _ _ hs' => cases hs.symm.trans hs'
    have hend : Enduring (ω := ω)
        (Unrestored (A := A.observed) fun m => m.Shows {} fun _ _ => False) :=
      enduring_unrestored (fun _ _ hd h => h.declared hd)
        fun _ _ _ _ _ h => ⟨h.variableFactory, h.solution, h.results⟩
    rw [init_apply hs]
    obtain ⟨ha, hm⟩ := Triple.after hend.handOver hshows
    exact ⟨ha, .unsolved (handOver_not_solved hs) hm⟩
  · rw [init_closed hs]
    exact h

omit [Unbounded α] in
theorem current_compute [Scalar α] (h : s.Unrestored Model.Current) :
    (Run.compute s).2.Unrestored Model.Current := by
  obtain ⟨ha, hm⟩ := h
  obtain ⟨_, _, hshows⟩ := hm.shows
  rcases compute_cases s with ⟨-, ht⟩ |
    ⟨-, ⟨solution, events, state, journal, hr, ht⟩ | ⟨e, state, journal, hr, ht⟩⟩
  · rw [ht]
    exact ⟨ha, hm⟩
  · obtain ⟨-, hx⟩ := Adapter.observe_eq hr
    have hcleared := hshows.cleared state solution .solved (Reported (κ := κ) (η := η) [])
    rw [ht]
    exact ⟨ha, .solved s.model.exchanges [] s.model.columns solution events rfl hx
      (fun _ h => absurd h List.not_mem_nil) hcleared⟩
  · have hcleared := hshows.cleared state {} .failed fun _ _ => False
    rw [ht]
    exact ⟨ha, .unsolved nofun hcleared⟩

omit [Unbounded α] in
theorem current_extract [Scalar α] (h : s.Unrestored Model.Current) :
    (Run.extract s).2.Unrestored Model.Current := by
  obtain ⟨ha, hm⟩ := h
  rcases extract_cases s with ⟨-, ht⟩ |
    ⟨hs, ⟨values, state, journal, hr, ht⟩ | ⟨e, state, hr, ht⟩⟩
  · rw [ht]
    exact ⟨ha, hm⟩
  · obtain ⟨-, hx⟩ := Adapter.observe_eq hr
    rw [ht]
    refine ⟨ha, hm.read hs hs hx ⟨_, rfl⟩ fun solution reported hshows => ?_⟩
    have hplain : Model.Shows { s.model with adapter := state } solution reported :=
      ⟨hshows.variableFactory, hshows.solution, hshows.results⟩
    exact (hplain.withResults values).mono fun id v => Or.imp_right fun hv =>
      ⟨s.model.columns, values, List.mem_singleton_self _, hv⟩
  · obtain ⟨-, hx⟩ := Adapter.observe_eq hr
    rw [ht]
    exact ⟨ha, hm.read hs hs hx ⟨_, rfl⟩ fun solution reported hshows =>
      ⟨hshows.variableFactory, hshows.solution, fun id p x hp hv =>
        .inl (hshows.results id p x hp hv)⟩⟩

theorem current_after (h : s.Unrestored Model.Current) {o : Operation A.observed ω}
    (ho : o.NeverRestores) : (s.after o).Unrestored Model.Current := by
  cases o with
  | declare P => exact unrestored_run (fun _ _ hd h => h.declared hd) ho h
  | init => exact current_init h
  | compute => exact current_compute h
  | extract => exact current_extract h

theorem current_afterAll (h : s.Unrestored Model.Current) {os : List (Operation A.observed ω)}
    (hos : ∀ o ∈ os, o.NeverRestores) : (s.afterAll os).Unrestored Model.Current := by
  induction os generalizing s with
  | nil => exact h
  | cons o rest ih =>
    exact ih (current_after h (hos o List.mem_cons_self)) fun o ho =>
      hos o (List.mem_cons_of_mem _ ho)

/-- In every life without restores a model shows no solution until it is solved, and then just what
its last solve reported, with results that were read after it. Reading gives each registered
variable the value that is reported for it; values for other names change nothing. Programs may stop
anywhere, so that what they see in between is covered too. -/
theorem solution_current (hA : A.Usual) (token : Token) (id : String) (start : A.State) (world : ω)
    (os : List (Operation A ω)) (hos : ∀ o ∈ os, o.NeverRestores) :
    let s := (new token id start world).afterAll os
    let t := (new (A := A.observed) token id (start, []) world).afterAll (os.map Operation.observed)
    t.Observes s ∧ A.Answers start t.model.exchanges t.model.adapter.1 ∧
      (s.model.stage ≠ .solved →
        s.model.solution = {} ∧ ∀ v ∈ s.model.vars.values, v.result = none) ∧
      (s.model.stage = .solved → ∃ before columns solution events after,
        t.model.exchanges = before ++ ⟨.compute columns, .ok (solution, events)⟩ :: after ∧
        (∀ x ∈ after, ∃ columns, x.request = .extract columns) ∧ s.model.solution = solution ∧
        ∀ id x, s.model.variableResult id = .ok (some x) → Reported after id x) ∧
      ∀ s', Run.extract s = (.ok (), s') → ∃ values state,
        A.extract s.model.columns s.model.adapter = (.ok values, state) ∧
        s'.model = { s.model with adapter := state }.withResults
          (values.filter fun id _ => s.model.vars.contains id) ∧
        ∀ id x, s.model.vars.contains id = true → values.find? id = some x →
          s'.model.variableResult id = .ok (some x) := by
  intro s t
  have hts : t.Observes s := (observes_new token id start world).afterAll os
  have ht : t.Reachable (start, []) := (Reachable.new token id world).afterAll _
  have hnew : (new (A := A.observed) token id (start, []) world).Unrestored Model.Current := by
    have hobserved : A.observed.Usual := fun σ => hA σ.1
    refine ⟨⟨fun k => ?_, nofun⟩, .unsolved nofun (Model.shows_new hobserved ..)⟩
    cases k <;> exact nofun
  have hcurrent : t.model.Current := by
    refine (current_afterAll hnew fun o ho => ?_).model
    obtain ⟨o', ho', rfl⟩ := List.mem_map.mp ho
    exact (hos o' ho').observed
  have hvars : s.model.vars = t.model.vars := by rw [← hts.model]; rfl
  have hsolution : s.model.solution = t.model.solution := by rw [← hts.model]; rfl
  refine ⟨hts, ht.answers, fun hs => ?_, fun hs => ?_, fun s' hs' => ?_⟩
  · cases hcurrent with
    | solved _ _ _ _ _ hs' => exact absurd (hts.stage.trans hs') hs
    | unsolved _ h =>
      refine ⟨hsolution.trans h.solution, fun v hv => ?_⟩
      rw [hvars] at hv
      obtain ⟨p, hp, rfl⟩ := List.mem_map.mp hv
      obtain ⟨e, he, rfl⟩ := List.mem_map.mp hp
      exact Option.eq_none_iff_forall_ne_some.mpr fun x hx =>
        h.results e.1 e.2 x (Table.find?_eq_some_iff.mpr he) hx
  · cases hcurrent with
    | unsolved hn => exact absurd (hts.stage.symm.trans hs) hn
    | solved before after columns solution events _ hx hafter h =>
      refine ⟨before, columns, solution, events, after, hx, hafter, hsolution.trans h.solution,
        fun id x hid => ?_⟩
      obtain ⟨p, hp, hr⟩ := Model.variableResult_eq_ok.mp hid
      exact h.results id p x (hvars ▸ hp) hr
  · obtain ⟨-, values, state, hr, hm⟩ := extract_eq_ok hs'
    have hread : s'.model = { s.model with adapter := state }.withResults
        (values.filter fun id _ => s.model.vars.contains id) :=
      hm.trans (Model.withResults_filter { s.model with adapter := state } values).symm
    refine ⟨values, state, hr, hread, fun id x hc hid => ?_⟩
    obtain ⟨p, hp⟩ := Table.contains_iff.mp hc
    have hp' := Model.find?_withResults { s.model with adapter := state } values id
    rw [← hm, hp, hid] at hp'
    exact Model.variableResult_eq_ok.mpr ⟨_, hp', rfl⟩

theorem load_neverRestores {A : Adapter Extended Nat Nat} :
    (Program.load : Program A Unit .group).NeverRestores := by
  refine ⟨not_false, fun r => ?_⟩
  cases r with
  | error e => trivial
  | ok x =>
    refine ⟨not_false, fun r => ?_⟩
    cases r with
    | error e => trivial
    | ok c => exact ⟨not_false, fun _ => trivial⟩

/-- An adapter that is going to find three boxes. -/
def prepared : Recorder.State Extended where
  outcome := { status := some (.status .optimal) }
  results := .ofList [("boxes", .finite 3)]

theorem solution_current_prepared :
    let os : List (Operation (recorder Extended) Unit) :=
      [.declare Program.load, .init, .compute, .extract]
    let s := (new ⟨0⟩ "load" prepared ()).afterAll os
    (recorder Extended).Usual ∧ (∀ o ∈ os, o.NeverRestores) ∧ s.model.stage = .solved ∧
      s.model.results = [("boxes", .finite 3)] ∧
      ∃ xs : List (Exchange Extended Nat Nat), (∀ x ∈ xs, ∃ columns, x.request = .extract columns) ∧
        ∀ id x, s.model.variableResult id = .ok (some x) → Reported xs id x := by
  intro os s
  have hA : (recorder Extended).Usual := fun _ => ⟨rfl, rfl⟩
  have hos : ∀ o ∈ os, o.NeverRestores := by
    simpa [os, Operation.NeverRestores] using load_neverRestores
  have hs : s = ((((new ⟨0⟩ "load" prepared ()).after (.declare Program.load)).after .init).after
    .compute).after .extract := rfl
  rw [after_init_idle (fun k => by cases k <;> rfl) rfl
    (by decide +kernel) (by decide +kernel)] at hs
  have hstage : s.model.stage = .solved := by
    rw [hs]
    decide +kernel
  have hresults : s.model.results = [("boxes", .finite 3)] := by
    rw [hs]
    decide +kernel
  obtain ⟨-, -, -, hsolved, -⟩ := solution_current hA ⟨0⟩ "load" prepared () os hos
  obtain ⟨_, _, _, _, after, -, hafter, -, hreported⟩ := hsolved hstage
  exact ⟨hA, hos, hstage, hresults, after, hafter, hreported⟩

end Run
end Milp
