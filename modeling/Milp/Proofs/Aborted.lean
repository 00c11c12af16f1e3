import Milp.Proofs.Closed
import Milp.Proofs.Solves
import Milp.Proofs.Workspaces

/-! Restoring and importing that fail: what was declared before the failure stays, but nothing that the model
had is lost. -/
namespace Milp

variable {α β η κ : Type} {A : Adapter α η κ}

namespace Model

/-- The later model has the objective, the figures and the stage of the first one, and the results of its
variables. -/
structure Retains (m m' : Model A) : Prop where
  objective : m'.objective = m.objective
  solution : m'.solution = m.solution
  stage : m'.stage = m.stage
  results : ∀ id r, m.variableResult id = .ok r → m'.variableResult id = .ok r

variable {m m' m'' : Model A}

theorem Retains.refl (m : Model A) : m.Retains m where
  objective := rfl
  solution := rfl
  stage := rfl
  results _ _ h := h

theorem Retains.trans (h : m.Retains m') (h' : m'.Retains m'') : m.Retains m'' where
  objective := h'.objective.trans h.objective
  solution := h'.solution.trans h.solution
  stage := h'.stage.trans h.stage
  results id r hr := h'.results id r (h.results id r hr)

/-- A variable that was there has its result still, if it is found as it was. -/
theorem variableResult_of_find? (h : ∀ id p, m.vars.entities.find? id = some p →
    m'.vars.entities.find? id = some p) (id : String) (r : Option α) (hr : m.variableResult id = .ok r) :
    m'.variableResult id = .ok r := by
  obtain ⟨p, hp, hpr⟩ := variableResult_eq_ok.mp hr
  exact variableResult_eq_ok.mpr ⟨p, h id p hp, hpr⟩

theorem find?_giveResult_of_ne {id id' : String} (h : id' ≠ id) (x : α) :
    (m.giveResult id x).vars.entities.find? id' = m.vars.entities.find? id' := by
  rw [giveResult, Registry.modify, Table.find?_modify, if_neg h]

/-- Only a variable that is new is given a result. -/
theorem coversGroups_retains : Edit.CoversGroups (A := A) Retains where
  group h := by
    obtain ⟨-, -, -, -, rfl⟩ := createGroup_eq_ok.mp h
    rename_i k _ _ _ _
    cases k <;> exact { Retains.refl _ with }
  var h := by
    obtain ⟨-, -, hnew, -, rfl⟩ := createVariable_eq_ok.mp h
    exact { Retains.refl _ with
      results := variableResult_of_find? fun _ _ => find?_insert_of_absent hnew }
  restored h x := by
    obtain ⟨-, -, hnew, -, rfl⟩ := createVariable_eq_ok.mp h
    refine { Retains.refl _ with results := variableResult_of_find? fun id p hp => ?_ }
    rw [find?_giveResult_of_ne (ne_of_absent hnew hp)]
    exact find?_insert_of_absent hnew hp
  constraint h := by
    obtain ⟨-, -, -, -, -, -, rfl⟩ := addConstraint_eq_ok.mp h
    exact { Retains.refl _ with }
  constant h := by
    obtain ⟨-, -, -, -, -, rfl⟩ := createConstant_eq_ok.mp h
    exact { Retains.refl _ with }

end Model

namespace Edit

/-- A header that is refused changes nothing: its objective is looked at before it is stored, and the figures
come last. -/
theorem restoreHeader_triple (J : Model A → Prop) (h : Stored.Header α) :
    Triple (fun s => J s.1) (restoreHeader h : Edit A Unit) (fun _ _ => True) fun _ s => J s.1 := by
  have hfigures {P : Model A × List (Event α) → Prop} :
      Triple P (setSolution h.solution : Edit A Unit) (fun _ _ => True) fun _ s => J s.1 :=
    Triple.modify fun _ _ => trivial
  have hobjective (e : Expression α) (direction : Direction) :
      Triple (fun s => J s.1) (setObjective e direction : Edit A Unit) (fun _ _ => True) fun _ s => J s.1 :=
    change_triple (Q := fun _ => True) (fun _ _ _ _ => trivial) fun _ => id
  unfold restoreHeader
  split
  · exact Triple.bind (keeps_look _) fun e => Triple.bind (hobjective e _) fun _ => hfigures
  · exact Triple.bind (keeps_record _) fun _ => hfigures
  · exact hfigures

end Edit

theorem exists_error {ε : Type} {r : Except ε β} (h : r.isOk = false) : ∃ e, r = .error e := by
  cases r with
  | ok b => cases h
  | error e => exact ⟨e, rfl⟩

section Float

variable {A : Adapter Float η κ}

theorem Store.restoringGroups_retains (m : Model A) : RestoringGroups m.Retains :=
  restoringGroups_of_covers Model.coversGroups_retains fun _ _ hstep h => h.trans hstep

/-- When a document or a store is refused, at whatever point, the model has its objective, its figures, its
stage and the results of its variables as before. -/
theorem Model.retains_of_error (m : Model A) (journal : List (Event Float)) :
    (∀ d : Document Float, (Edit.restore d (m, journal)).1.isOk = false →
      m.Retains (Edit.restore d (m, journal)).2.1) ∧
    ∀ (s : Store) (t : FileTree), (s.importModel t (m, journal)).1.isOk = false →
      m.Retains (s.importModel t (m, journal)).2.1 := by
  have hgroups := Store.restoringGroups_retains m
  have hheader := Edit.restoreHeader_triple m.Retains
  constructor
  · intro d hd
    obtain ⟨e, he⟩ := exists_error hd
    exact (Store.restore_triple (K := fun _ => True) hgroups hheader d).of_error (.refl m) he
  · intro s t ht
    obtain ⟨e, he⟩ := exists_error ht
    exact (Store.importModel_triple (K := fun _ => True) hgroups hheader s t).of_error (.refl m) he

/-- The first constant of the group stays, though the group as a whole is refused. -/
theorem Model.retains_of_error_depot :
    let boxes : Variable Float := ⟨"boxes", .integer, 0, 9, ⟨0⟩, some 3⟩
    let m : Model (recorder Float) := { (Model.new ⟨0⟩ "depot" {} : Model (recorder Float)) with
      vars := ⟨Table.empty.insert "Default" (Group.default .var), Table.empty.insert "boxes" ⟨"Default", boxes⟩⟩
      objective := some ⟨⟨⟨0⟩, []⟩, .minimize⟩
      solution := { status := some (.status .optimal) } }
    let weight : Stored.Constant Float := ⟨"weight", 2⟩
    let d : Document Float := { Document.report with
      constantGroups := [⟨"Default", "", [weight, weight]⟩] }
    (Edit.restore d (m, [])).1.isOk = false ∧
      (Edit.restore d (m, [])).2.1.constants.contains "weight" = true ∧
      (Edit.restore d (m, [])).2.1.variableResult "boxes" = .ok (some 3) ∧
      m.Retains (Edit.restore d (m, [])).2.1 ∧
      (Store.importModel {} {} (m, [])).1.isOk = false ∧
      m.Retains (Store.importModel {} {} (m, [])).2.1 := by
  intro boxes m weight d
  have hrestore : (Edit.restore d (m, [])).1.isOk = false := by decide
  have himport : (Store.importModel {} {} (m, [])).1.isOk = false := by decide +kernel
  have hresult : m.variableResult "boxes" = .ok (some 3) :=
    Model.variableResult_eq_ok.mpr ⟨⟨"Default", boxes⟩, by simp [m, Table.find?_insert], rfl⟩
  obtain ⟨hdocuments, hstores⟩ := Model.retains_of_error m []
  have hretains := hdocuments d hrestore
  exact ⟨hrestore, by decide +kernel, hretains.results _ _ hresult, hretains, himport, hstores _ _ himport⟩

end Float
end Milp
