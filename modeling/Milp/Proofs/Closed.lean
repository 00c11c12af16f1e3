import Milp.Adapter.Recorder
import Milp.Adapter.Scripted
import Milp.Binary64
import Milp.Proofs.Idle
import Milp.Proofs.Restored

/-! Restoring on a model whose declarations are closed: nothing can be declared there any more, and
only the figures of a stored solve get through. -/
namespace Milp

variable {α β γ η κ E F : Type} {A : Adapter α η κ} {k : Kind}

/-- Nothing may be declared any more. -/
def Stage.isClosed : Stage → Bool
  | .initialized | .solved | .failed => true
  | .declaring | .initializing _ => false

namespace Stage

variable {s : Stage}

theorem admits_of_isClosed (h : s.isClosed = true) (k : Kind) : s.admits k = false := by
  cases s with
  | declaring | initializing => cases h
  | initialized | solved | failed => rfl

theorem admitsObjective_of_isClosed (h : s.isClosed = true) : s.admitsObjective = false := by
  cases s with
  | declaring | initializing => cases h
  | initialized | solved | failed => rfl

end Stage

/-- The group is there, and nothing is stored in it. -/
def Stored.Group.isHollow (s : Stored.Group F) (r : Registry k E) : Bool :=
  r.groups.contains s.identifier && s.members.isEmpty

/-- No objective is stored, or one without a direction, which is skipped. -/
def Stored.Header.isHollow (s : Stored.Header α) : Bool := s.objective.isNone || s.direction.isNone

/-- Nothing in the document has to be declared on the model. -/
def Document.isHollow (d : Document α) (m : Model A) : Bool :=
  d.constantGroups.all (·.isHollow m.constants) && (d.variableGroups.all (·.isHollow m.vars) &&
    (d.constraintGroups.all (·.isHollow m.constraints) && d.header.isHollow))

namespace Edit

/-- The edit fails on a model and leaves it as it was. -/
def Fails (m : Model A) (e : Edit A β) : Prop :=
  ∀ journal, ∃ x journal', e (m, journal) = (.error x, m, journal')

variable {m m' : Model A}

theorem Fails.bind {e : Edit A β} {f : β → Edit A γ} (h : Fails m e) : Fails m (e >>= f) := by
  intro journal
  obtain ⟨x, journal', h⟩ := h journal
  exact ⟨x, journal', by rw [bind_apply, h]⟩

theorem Leads.bind_fails {e : Edit A β} {f : β → Edit A γ} {b : β} (h : Leads m e b m)
    (hf : Fails m (f b)) : Fails m (e >>= f) := by
  intro journal
  obtain ⟨journal', h⟩ := h journal
  obtain ⟨x, journal'', hf⟩ := hf journal'
  exact ⟨x, journal'', by rw [bind_apply, h]; exact hf⟩

/-- What is looked up may be missing, but if it is found, the rest fails. -/
theorem fails_look_bind {f : Model A → Except (ModelError α) β} {g : β → Edit A γ}
    (h : ∀ b, Fails m (g b)) : Fails m (look f >>= g) := by
  cases hf : f m with
  | error x => exact Fails.bind fun journal => ⟨x, journal, by rw [look_apply, hf]⟩
  | ok b => exact (leads_look hf).bind_fails (h b)

theorem leads_record (m : Model A) (events : List (Event α)) : Leads m (record events) () m :=
  fun journal => ⟨journal ++ events, rfl⟩

theorem fails_declare {f : Model A → Except (ModelError α) (β × Model A)}
    {events : β → List (Event α)} (h : ∀ r, f m ≠ .ok r) : Fails m (declare f events) := by
  intro journal
  rw [declare_apply]
  cases hf : f m with
  | error x => exact ⟨x, journal, rfl⟩
  | ok r => exact absurd hf (h r)

theorem fails_change {f : Model A → Except (ModelError α) (Model A)} (h : ∀ r, f m ≠ .ok r) :
    Fails m (change f) := by
  intro journal
  rw [change_apply]
  cases hf : f m with
  | error x => exact ⟨x, journal, rfl⟩
  | ok r => exact absurd hf (h r)

/-- The edit succeeds exactly on a condition, and then leaves a certain model; else it leaves the
model as it was. -/
structure Decides (m : Model A) (e : Edit A Unit) (c : Bool) (m' : Model A) : Prop where
  leads : c = true → Leads m e () m'
  fails : c = false → Fails m e

theorem Decides.apply {e : Edit A Unit} {c : Bool} (h : Decides m e c m')
    (journal : List (Event α)) :
    (e (m, journal)).1.isOk = c ∧ (e (m, journal)).2.1 = if c then m' else m := by
  cases c with
  | true =>
    obtain ⟨journal', h⟩ := h.leads rfl journal
    rw [h]
    exact ⟨rfl, rfl⟩
  | false =>
    obtain ⟨x, journal', h⟩ := h.fails rfl journal
    rw [h]
    exact ⟨rfl, rfl⟩

theorem Decides.bind {e : Edit A Unit} {f : Unit → Edit A Unit} {c c' : Bool} (h : Decides m e c m)
    (hf : Decides m (f ()) c' m') : Decides m (e >>= f) (c && c') m' where
  leads hc := by
    rw [Bool.and_eq_true] at hc
    exact (h.leads hc.1).bind (hf.leads hc.2)
  fails hc := by
    cases c with
    | false => exact (h.fails rfl).bind
    | true => exact (h.leads rfl).bind_fails (hf.fails (by simpa using hc))

theorem Decides.forM {l : List γ} {f : γ → Edit A Unit} {p : γ → Bool}
    (h : ∀ c, Decides m (f c) (p c) m) : Decides m (l.forM f) (l.all p) m := by
  induction l with
  | nil => exact ⟨fun _ => leads_pure m (), nofun⟩
  | cons c rest ih => exact (h c).bind ih

/-- Where a kind is closed, a group passes only if it is there and has no members. -/
theorem decides_restoreGroup {member : Group k → F → Edit A Unit} (hk : m.stage.admits k = false)
    (hmember : ∀ g x, Fails m (member g x)) (s : Stored.Group F) :
    Decides m (restoreGroup k s member) (s.isHollow (m.registry k)) m := by
  obtain ⟨id, description, members⟩ := s
  unfold Stored.Group.isHollow restoreGroup
  dsimp only
  cases hg : (m.registry k).groups.find? id with
  | none =>
    have hmissing : (m.registry k).groups.contains id = false := Table.find?_eq_none_iff.mp hg
    have herr : m.group k id = .error (.unknownGroup k id) := by rw [Model.group, Registry.group, hg]
    have hcreate : Fails m (createGroup k id description none) := by
      refine fails_declare fun r hr => ?_
      have hadmits := (Model.createGroup_eq_ok.mp hr).1
      rw [hk] at hadmits
      cases hadmits
    rw [hmissing]
    constructor
    · intro h
      cases h
    · intro _
      refine (leads_model m).bind_fails ?_
      rw [herr]
      exact hcreate.bind
  | some g =>
    have hthere : (m.registry k).groups.contains id = true := Table.contains_of_find? hg
    have hok : m.group k id = .ok g := Registry.group_eq_ok.mpr hg
    have hmembers : Decides m (members.forM (member g)) members.isEmpty m := by
      cases members with
      | nil =>
        constructor
        · exact fun _ => leads_pure m ()
        · intro h
          cases h
      | cons x rest =>
        constructor
        · intro h
          cases h
        · exact fun _ => (hmember g x).bind
    have hmodel : Decides m (restoreGroup k ⟨id, description, members⟩ member) members.isEmpty m := by
      refine ⟨fun h => leads_restoreGroup_present hg (hmembers.leads h), fun h => ?_⟩
      refine (leads_model m).bind_fails ?_
      rw [hok]
      exact (leads_pure m g).bind_fails (hmembers.fails h)
    rw [hthere, Bool.true_and]
    exact hmodel

section Closed

variable (hm : m.stage.isClosed = true)

include hm

theorem fails_restoreConstant (g : Group .constant) (c : Stored.Constant α) :
    Fails m (restoreConstant g c) := by
  refine Fails.bind (fails_declare fun r hr => ?_)
  have hopen := (Model.createConstant_eq_ok.mp hr).1
  rw [Stage.admits_of_isClosed hm] at hopen
  cases hopen

theorem fails_restoreVariable [Unbounded α] (g : Group .var) (v : Stored.Variable α) :
    Fails m (restoreVariable g v) := by
  refine Fails.bind (Fails.bind (fails_declare fun r hr => ?_))
  have hopen := (Model.createVariable_eq_ok.mp hr).1
  rw [Stage.admits_of_isClosed hm] at hopen
  cases hopen

theorem fails_restoreConstraint (g : Group .constraint) (c : Stored.Constraint α) :
    Fails m (restoreConstraint g c) := by
  refine fails_look_bind fun left => fails_look_bind fun right => Fails.bind (fails_declare fun r hr => ?_)
  have hopen := (Model.addConstraint_eq_ok.mp hr).1
  rw [Stage.admits_of_isClosed hm] at hopen
  cases hopen

/-- An objective is refused, but the figures are not. -/
theorem decides_restoreHeader (s : Stored.Header α) :
    Decides m (restoreHeader s) s.isHollow { m with solution := s.solution } := by
  have hset (e : Expression α) (direction : Direction) : Fails m (setObjective e direction) := by
    refine fails_change fun r hr => ?_
    have hopen := (Model.setObjective_eq_ok.mp hr).1
    rw [Stage.admitsObjective_of_isClosed hm] at hopen
    cases hopen
  have hfigures : Leads m (setSolution s.solution) () { m with solution := s.solution } :=
    leads_setSolution m s.solution
  obtain ⟨identifier, variableGroups, constraintGroups, constantGroups, objective, direction, solution⟩ := s
  cases objective with
  | none => exact ⟨fun _ => hfigures, nofun⟩
  | some e =>
    cases direction with
    | none =>
      exact ⟨fun _ => (leads_record m [.objectiveSkipped identifier]).bind hfigures, nofun⟩
    | some direction =>
      exact ⟨nofun, fun _ => fails_look_bind fun e => (hset e direction).bind⟩

theorem decides_restore [Unbounded α] (d : Document α) :
    Decides m (restore d) (d.isHollow m) { m with solution := d.header.solution } := by
  have hconstants (s) : Decides m (restoreConstants s) (s.isHollow m.constants) m :=
    decides_restoreGroup (Stage.admits_of_isClosed hm _) (fails_restoreConstant hm) s
  have hvars (s) : Decides m (restoreVariables s) (s.isHollow m.vars) m :=
    decides_restoreGroup (Stage.admits_of_isClosed hm _) (fails_restoreVariable hm) s
  have hconstraints (s) : Decides m (restoreConstraints s) (s.isHollow m.constraints) m :=
    decides_restoreGroup (Stage.admits_of_isClosed hm _) (fails_restoreConstraint hm) s
  exact (Decides.forM hconstants).bind ((Decides.forM hvars).bind
    ((Decides.forM hconstraints).bind (decides_restoreHeader hm d.header)))

/-- Restoring documents one after another, whether they are refused or not, leaves the figures of the
last that was accepted. -/
theorem restoreAll_closed [Unbounded α] (journal : List (Event α)) (ds : List (Document α)) :
    (ds.foldl (fun s d => (restore d s).2) (m, journal)).1 =
      { m with solution :=
        ((ds.filter (·.isHollow m)).getLast?.map (·.header.solution)).getD m.solution } := by
  induction ds generalizing m journal with
  | nil => rfl
  | cons d rest ih =>
    obtain ⟨-, hd⟩ := (decides_restore hm d).apply journal
    rw [List.foldl_cons]
    generalize (restore d (m, journal)).2 = t at hd
    obtain ⟨m', journal'⟩ := t
    cases hc : d.isHollow m with
    | false =>
      rw [hc] at hd
      obtain rfl : m' = m := hd
      rw [ih hm, List.filter_cons_of_neg (by simp [hc])]
    | true =>
      rw [hc] at hd
      obtain rfl : m' = { m with solution := d.header.solution } := hd
      have hlast : (((d :: rest).filter (·.isHollow m)).getLast?.map (·.header.solution)).getD m.solution =
          ((rest.filter (·.isHollow m)).getLast?.map (·.header.solution)).getD d.header.solution := by
        rw [List.filter_cons, if_pos hc, List.getLast?_cons]
        cases (rest.filter (·.isHollow m)).getLast? <;> rfl
      rw [hlast]
      -- whether a document is hollow does not depend on the figures
      exact ih (m := { m with solution := d.header.solution }) hm journal'

/-- On a closed model a document that has something to declare is refused and changes nothing; any
other is accepted, and its figures replace those of the model. So whatever is restored, in any order,
all else stays. -/
theorem restore_closed [Unbounded α] (journal : List (Event α)) :
    (∀ d : Document α, (restore d (m, journal)).1.isOk = d.isHollow m ∧
      (restore d (m, journal)).2.1 =
        if d.isHollow m then { m with solution := d.header.solution } else m) ∧
    ∀ ds : List (Document α), (ds.foldl (fun s d => (restore d s).2) (m, journal)).1 =
      { m with solution :=
        ((ds.filter (·.isHollow m)).getLast?.map (·.header.solution)).getD m.solution } :=
  ⟨fun d => (decides_restore hm d).apply journal, restoreAll_closed hm journal⟩

end Closed
end Edit

/-- What a model with nothing on it is stored as once it was solved. -/
def Document.report : Document Float where
  header :=
    { identifier := "depot"
      variableGroups := .empty
      constraintGroups := .empty
      constantGroups := .empty
      solution := { status := some (.status .optimal) } }
  variableGroups := []
  constraintGroups := []
  constantGroups := []

namespace Run

/-- An adapter whose solves crash. -/
def crashing : Recorder.State Float × Script Float :=
  ({}, { failures := [(.compute, .failed "native crash")] })

def crashed : Run (Adapter.scripted (recorder Float)) Unit :=
  (new ⟨0⟩ "depot" crashing ()).afterAll [.init, .compute]

theorem crashed_failed : crashed.model.stage = .failed ∧ crashed.model.solution = {} := by
  have h : crashed = ((new ⟨0⟩ "depot" crashing ()).after .init).after .compute := rfl
  rw [after_init_idle (fun k => by cases k <;> rfl) rfl
    rfl rfl] at h
  rw [h]
  exact ⟨rfl, rfl⟩

/-- A variable to declare is reason enough to refuse a document. -/
theorem restore_closed_crashed :
    crashed.Reachable crashing ∧ crashed.model.stage.isClosed = true ∧
      crashed.model.solution = {} ∧
      let boxes : Stored.Variable Float := ⟨"boxes", .integer, none, none, some 3⟩
      let d : Document Float := { Document.report with
        variableGroups := [⟨"Default", "", [boxes]⟩] }
      d.isHollow crashed.model = false ∧
        (Edit.restore d (crashed.model, [])).1.isOk = false ∧
        (Edit.restore d (crashed.model, [])).2.1 = crashed.model := by
  have hs : crashed.Reachable crashing := (Reachable.new _ _ _).afterAll _
  have hclosed : crashed.model.stage.isClosed = true := by
    rw [crashed_failed.1]
    rfl
  refine ⟨hs, hclosed, crashed_failed.2, ?_⟩
  intro boxes d
  have hollow : d.isHollow crashed.model = false := by
    simp [d, Document.isHollow, Stored.Group.isHollow]
  obtain ⟨hrefused, hsame⟩ := (Edit.restore_closed hclosed []).1 d
  rw [hollow] at hrefused hsame
  exact ⟨hollow, hrefused, hsame⟩

/-- A model that failed to be solved takes over the figures of a stored solve, and reports them. -/
theorem failed_model_reports :
    crashed.Reachable crashing ∧ crashed.model.stage = .failed ∧
      crashed.model.status = .error (.missingSolution .status) ∧
      (Edit.restore Document.report (crashed.model, [])).2.1.stage = .failed ∧
      (Edit.restore Document.report (crashed.model, [])).2.1.status = .ok .optimal := by
  obtain ⟨hstage, hsolution⟩ := crashed_failed
  have hrestored : Edit.restore Document.report (crashed.model, []) =
      (.ok (), { crashed.model with solution := Document.report.header.solution }, []) := rfl
  refine ⟨(Reachable.new _ _ _).afterAll _, hstage, ?_, ?_, ?_⟩
  · rw [Model.status, Model.figure, hsolution]
    rfl
  · rw [hrestored]
    exact hstage
  · rw [hrestored]
    rfl

end Run
end Milp
