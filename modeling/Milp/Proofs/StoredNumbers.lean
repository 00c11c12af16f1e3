import Milp.Proofs.Rereading
import Milp.Stored

/-! The numbers of stored models: what holds of each of them, and what is left of a model whose numbers were
written and read. -/
namespace Milp

section Lists

variable {β γ : Type} {f : β → Option γ} {l : List β} {l' : List γ}

theorem exists_of_mem_mapM (h : l.mapM f = some l') {y : γ} (hy : y ∈ l') : ∃ x ∈ l, f x = some y := by
  induction l generalizing l' with
  | nil =>
    cases h
    cases hy
  | cons a rest ih =>
    rw [List.mapM_cons] at h
    obtain ⟨b, hb, h⟩ := Option.bind_eq_some_iff.mp h
    obtain ⟨rest', hrest, h⟩ := Option.bind_eq_some_iff.mp h
    cases h
    rcases List.mem_cons.mp hy with rfl | hy
    · exact ⟨a, List.mem_cons_self, hb⟩
    · obtain ⟨x, hx, hfx⟩ := ih hrest hy
      exact ⟨x, List.mem_cons_of_mem a hx, hfx⟩

theorem exists_mem_of_mapM (h : l.mapM f = some l') {x : β} (hx : x ∈ l) : ∃ y ∈ l', f x = some y := by
  induction l generalizing l' with
  | nil => cases hx
  | cons a rest ih =>
    rw [List.mapM_cons] at h
    obtain ⟨b, hb, h⟩ := Option.bind_eq_some_iff.mp h
    obtain ⟨rest', hrest, h⟩ := Option.bind_eq_some_iff.mp h
    cases h
    rcases List.mem_cons.mp hx with rfl | hx
    · exact ⟨b, List.mem_cons_self, hb⟩
    · obtain ⟨y, hy, hfx⟩ := ih hrest hx
      exact ⟨y, List.mem_cons_of_mem b hy, hfx⟩

/-- A list stays as it is just when each of its items does. -/
theorem mapM_self {f : β → Option β} : l.mapM f = some l ↔ ∀ x ∈ l, f x = some x := by
  induction l with
  | nil => exact ⟨fun _ => nofun, fun _ => rfl⟩
  | cons a rest ih =>
    rw [List.mapM_cons, List.forall_mem_cons, ← ih]
    cases f a with
    | none => exact ⟨nofun, nofun⟩
    | some b => cases rest.mapM f <;> simp

theorem optionMapM_self {f : β → Option β} {o : Option β} : o.mapM f = some o ↔ ∀ x ∈ o, f x = some x := by
  cases o with
  | none => exact ⟨fun _ => nofun, fun _ => rfl⟩
  | some a => cases h : f a <;> simp [h]

end Lists

namespace Stored

variable {P Q : Float → Prop} {r : Json.NumberReader} {E : Type}

/-- The number of the term has the property. -/
def Term.Each (P : Float → Prop) (t : Term Float) : Prop := P t.coefficient

instance [DecidablePred P] : DecidablePred (Term.Each P) := fun t => inferInstanceAs (Decidable (P t.coefficient))

def Expression.Each (P : Float → Prop) (e : Expression Float) : Prop := ∀ t ∈ e.terms, t.Each P

instance [DecidablePred P] : DecidablePred (Expression.Each P) := fun e =>
  inferInstanceAs (Decidable (∀ t ∈ e.terms, t.Each P))

/-- The bounds that there are have the property. -/
structure Variable.Bounds (P : Float → Prop) (v : Variable Float) : Prop where
  lower : ∀ x ∈ v.lower, P x
  upper : ∀ x ∈ v.upper, P x

/-- The bounds that there are and the result, if there is one, have the property. -/
structure Variable.Each (P : Float → Prop) (v : Variable Float) : Prop extends v.Bounds P where
  result : ∀ x ∈ v.result, P x

instance [DecidablePred P] : DecidablePred (Variable.Each P) := fun v =>
  decidable_of_iff ((∀ x ∈ v.lower, P x) ∧ (∀ x ∈ v.upper, P x) ∧ ∀ x ∈ v.result, P x)
    ⟨fun h => ⟨⟨h.1, h.2.1⟩, h.2.2⟩, fun h => ⟨h.lower, h.upper, h.result⟩⟩

structure Constraint.Each (P : Float → Prop) (c : Constraint Float) : Prop where
  left : c.left.Each P
  right : c.right.Each P

instance [DecidablePred P] : DecidablePred (Constraint.Each P) := fun c =>
  decidable_of_iff (c.left.Each P ∧ c.right.Each P) ⟨fun h => ⟨h.1, h.2⟩, fun h => ⟨h.left, h.right⟩⟩

def Constant.Each (P : Float → Prop) (c : Constant Float) : Prop := P c.value

instance [DecidablePred P] : DecidablePred (Constant.Each P) := fun c => inferInstanceAs (Decidable (P c.value))

/-- All members of the group have the property. -/
def Group.All (P : E → Prop) (g : Group E) : Prop := ∀ e ∈ g.members, P e

instance (P : E → Prop) [DecidablePred P] : DecidablePred (Group.All P) := fun g =>
  inferInstanceAs (Decidable (∀ e ∈ g.members, P e))

end Stored

def SolutionValue.Each (P : Float → Prop) : SolutionValue Float → Prop
  | .float x => P x
  | .status _ | .millis _ => True

instance {P : Float → Prop} [DecidablePred P] : DecidablePred (SolutionValue.Each P)
  | .float x => inferInstanceAs (Decidable (P x))
  | .status _ | .millis _ => .isTrue trivial

def Solution.Each (P : Float → Prop) (s : Solution Float) : Prop := ∀ k, ∀ v ∈ s.get? k, v.Each P

instance {P : Float → Prop} [DecidablePred P] : DecidablePred (Solution.Each P) := fun s =>
  decidable_of_iff (∀ k ∈ SolutionKey.all, ∀ v ∈ s.get? k, v.Each P)
    ⟨fun h k => h k (by cases k <;> decide), fun h k _ => h k⟩

theorem Solution.each_empty (P : Float → Prop) : ({} : Solution Float).Each P := fun k _ h => by cases k <;> cases h

structure Stored.Header.Each (P : Float → Prop) (h : Stored.Header Float) : Prop where
  objective : ∀ e ∈ h.objective, e.Each P
  solution : h.solution.Each P

instance {P : Float → Prop} [DecidablePred P] : DecidablePred (Stored.Header.Each P) := fun h =>
  decidable_of_iff ((∀ e ∈ h.objective, e.Each P) ∧ h.solution.Each P)
    ⟨fun h => ⟨h.1, h.2⟩, fun h => ⟨h.objective, h.solution⟩⟩

namespace Document

section Members

variable {α : Type} (d : Document α)

def vars : List (Stored.Variable α) := d.variableGroups.flatMap (·.members)

def constraints : List (Stored.Constraint α) := d.constraintGroups.flatMap (·.members)

def constants : List (Stored.Constant α) := d.constantGroups.flatMap (·.members)

end Members

variable {P : Float → Prop}

/-- All numbers in the document have the property. -/
structure Each (P : Float → Prop) (d : Document Float) : Prop where
  header : d.header.Each P
  variableGroups : ∀ g ∈ d.variableGroups, g.All (Stored.Variable.Each P)
  constraintGroups : ∀ g ∈ d.constraintGroups, g.All (Stored.Constraint.Each P)
  constantGroups : ∀ g ∈ d.constantGroups, g.All (Stored.Constant.Each P)

instance [DecidablePred P] : DecidablePred (Each P) := fun d =>
  decidable_of_iff (d.header.Each P ∧ (∀ g ∈ d.variableGroups, g.All (Stored.Variable.Each P)) ∧
    (∀ g ∈ d.constraintGroups, g.All (Stored.Constraint.Each P)) ∧
    ∀ g ∈ d.constantGroups, g.All (Stored.Constant.Each P))
    ⟨fun h => ⟨h.1, h.2.1, h.2.2.1, h.2.2.2⟩,
      fun h => ⟨h.header, h.variableGroups, h.constraintGroups, h.constantGroups⟩⟩

/-- All bounds of variables in the document have the property. -/
def Bounds (P : Float → Prop) (d : Document Float) : Prop :=
  ∀ g ∈ d.variableGroups, g.All (Stored.Variable.Bounds P)

theorem Each.bounds {d : Document Float} (h : d.Each P) : d.Bounds P :=
  fun g hg v hv => (h.variableGroups g hg v hv).toBounds

end Document

section Finite

/-! Numbers that are finite. -/

abbrev Stored.Term.Finite (t : Stored.Term Float) : Prop := t.Each fun x => x.isFinite = true

abbrev Stored.Expression.Finite (e : Stored.Expression Float) : Prop := e.Each fun x => x.isFinite = true

abbrev Stored.Variable.Finite (v : Stored.Variable Float) : Prop := v.Each fun x => x.isFinite = true

abbrev Stored.Constraint.Finite (c : Stored.Constraint Float) : Prop := c.Each fun x => x.isFinite = true

abbrev Stored.Constant.Finite (c : Stored.Constant Float) : Prop := c.Each fun x => x.isFinite = true

abbrev Solution.Finite (s : Solution Float) : Prop := s.Each fun x => x.isFinite = true

abbrev Stored.Header.Finite (h : Stored.Header Float) : Prop := h.Each fun x => x.isFinite = true

/-- All numbers in the document are finite. -/
abbrev Document.Finite (d : Document Float) : Prop := d.Each fun x => x.isFinite = true

end Finite

section Mono

variable {P Q : Float → Prop} (h : ∀ x, P x → Q x)
include h

theorem Stored.Expression.Each.mono {e : Stored.Expression Float} (he : e.Each P) : e.Each Q :=
  fun t ht => h _ (he t ht)

theorem Stored.Variable.Each.mono {v : Stored.Variable Float} (hv : v.Each P) : v.Each Q :=
  ⟨⟨fun x hx => h x (hv.lower x hx), fun x hx => h x (hv.upper x hx)⟩, fun x hx => h x (hv.result x hx)⟩

theorem Stored.Constraint.Each.mono {c : Stored.Constraint Float} (hc : c.Each P) : c.Each Q :=
  ⟨hc.left.mono h, hc.right.mono h⟩

theorem SolutionValue.Each.mono {v : SolutionValue Float} (hv : v.Each P) : v.Each Q := by
  cases v with
  | float x => exact h x hv
  | status s => exact trivial
  | millis n => exact trivial

theorem Stored.Header.Each.mono {header : Stored.Header Float} (hh : header.Each P) : header.Each Q :=
  ⟨fun e he => (hh.objective e he).mono h, fun k v hv => (hh.solution k v hv).mono h⟩

theorem Document.Each.mono {d : Document Float} (hd : d.Each P) : d.Each Q where
  header := hd.header.mono h
  variableGroups g hg v hv := (hd.variableGroups g hg v hv).mono h
  constraintGroups g hg c hc := (hd.constraintGroups g hg c hc).mono h
  constantGroups g hg c hc := h _ (hd.constantGroups g hg c hc)

end Mono

/-! What is left of records whose numbers were written and read. -/

namespace Stored

variable {r : Json.NumberReader} {E : Type}

def Term.reread (r : Json.NumberReader) (t : Term Float) : Option (Term Float) := do
  return { t with coefficient := ← r.reread t.coefficient }

def Expression.reread (r : Json.NumberReader) (e : Expression Float) : Option (Expression Float) := do
  return ⟨← e.terms.mapM (Term.reread r)⟩

def Variable.reread (r : Json.NumberReader) (v : Variable Float) : Option (Variable Float) := do
  return { v with
    lower := ← r.rereadOptional v.lower, upper := ← r.rereadOptional v.upper, result := ← r.rereadOptional v.result }

def Constraint.reread (r : Json.NumberReader) (c : Constraint Float) : Option (Constraint Float) := do
  return { c with left := ← c.left.reread r, right := ← c.right.reread r }

def Constant.reread (r : Json.NumberReader) (c : Constant Float) : Option (Constant Float) := do
  return { c with value := ← r.reread c.value }

/-- A group of members of which each comes to something. -/
def Group.reread (f : E → Option E) (g : Group E) : Option (Group E) := do
  return { g with members := ← g.members.mapM f }

end Stored

def SolutionValue.reread (r : Json.NumberReader) : SolutionValue Float → Option (SolutionValue Float)
  | .float x => SolutionValue.float <$> r.reread x
  | v => some v

def Solution.reread (r : Json.NumberReader) (s : Solution Float) : Option (Solution Float) := do
  return {
    status := ← s.status.mapM (SolutionValue.reread r), objective := ← s.objective.mapM (SolutionValue.reread r),
    mipGap := ← s.mipGap.mapM (SolutionValue.reread r), time := ← s.time.mapM (SolutionValue.reread r) }

def Stored.Header.reread (r : Json.NumberReader) (h : Stored.Header Float) : Option (Stored.Header Float) := do
  return { h with objective := ← h.objective.mapM (Stored.Expression.reread r), solution := ← h.solution.reread r }

def Document.reread (r : Json.NumberReader) (d : Document Float) : Option (Document Float) := do
  return {
    header := ← d.header.reread r,
    variableGroups := ← d.variableGroups.mapM (Stored.Group.reread (Stored.Variable.reread r)),
    constraintGroups := ← d.constraintGroups.mapM (Stored.Group.reread (Stored.Constraint.reread r)),
    constantGroups := ← d.constantGroups.mapM (Stored.Group.reread (Stored.Constant.reread r)) }

section Read

/-! What is read of a record has its names. -/

variable {r : Json.NumberReader} {E : Type}

namespace Stored

theorem Variable.reread_eq_some {v v' : Variable Float} (h : v.reread r = some v') :
    v'.identifier = v.identifier ∧ r.rereadOptional v.lower = some v'.lower ∧
      r.rereadOptional v.upper = some v'.upper ∧ r.rereadOptional v.result = some v'.result := by
  obtain ⟨lower, hlower, h⟩ := Option.bind_eq_some_iff.mp h
  obtain ⟨upper, hupper, h⟩ := Option.bind_eq_some_iff.mp h
  obtain ⟨result, hresult, h⟩ := Option.bind_eq_some_iff.mp h
  cases h
  exact ⟨rfl, hlower, hupper, hresult⟩

theorem Constraint.identifier_reread {c c' : Constraint Float} (h : c.reread r = some c') :
    c'.identifier = c.identifier := by
  obtain ⟨left, -, h⟩ := Option.bind_eq_some_iff.mp h
  obtain ⟨right, -, h⟩ := Option.bind_eq_some_iff.mp h
  cases h
  rfl

theorem Constant.identifier_reread {c c' : Constant Float} (h : c.reread r = some c') :
    c'.identifier = c.identifier := by
  obtain ⟨value, -, h⟩ := Option.bind_eq_some_iff.mp h
  cases h
  rfl

/-- The names of the groups are read as they are written, and so is whether there is an objective. -/
theorem Header.reread_eq_some {h h' : Header Float} (hh : h.reread r = some h') :
    h'.variableGroups = h.variableGroups ∧ h'.constraintGroups = h.constraintGroups ∧
      h'.constantGroups = h.constantGroups ∧ h.objective.mapM (Expression.reread r) = some h'.objective ∧
        h.solution.reread r = some h'.solution := by
  obtain ⟨objective, hobjective, hh⟩ := Option.bind_eq_some_iff.mp hh
  obtain ⟨solution, hsolution, hh⟩ := Option.bind_eq_some_iff.mp hh
  cases hh
  exact ⟨rfl, rfl, rfl, hobjective, hsolution⟩

variable {f : E → Option E} {gs gs' : List (Group E)}

theorem Group.members_reread {g g' : Group E} (h : g.reread f = some g') : g.members.mapM f = some g'.members := by
  obtain ⟨members, hmembers, h⟩ := Option.bind_eq_some_iff.mp h
  cases h
  exact hmembers

/-- What is read is read of something. -/
theorem exists_of_mem_reread (h : gs.mapM (Group.reread f) = some gs') {e' : E}
    (he : e' ∈ gs'.flatMap (·.members)) : ∃ e ∈ gs.flatMap (·.members), f e = some e' := by
  obtain ⟨g', hg', he⟩ := List.mem_flatMap.mp he
  obtain ⟨g, hg, hread⟩ := exists_of_mem_mapM h hg'
  obtain ⟨e, hmem, hfe⟩ := exists_of_mem_mapM (Group.members_reread hread) he
  exact ⟨e, List.mem_flatMap.mpr ⟨g, hg, hmem⟩, hfe⟩

/-- Everything is read. -/
theorem exists_mem_of_reread (h : gs.mapM (Group.reread f) = some gs') {e : E}
    (he : e ∈ gs.flatMap (·.members)) : ∃ e' ∈ gs'.flatMap (·.members), f e = some e' := by
  obtain ⟨g, hg, he⟩ := List.mem_flatMap.mp he
  obtain ⟨g', hg', hread⟩ := exists_mem_of_mapM h hg
  obtain ⟨e', hmem, hfe⟩ := exists_mem_of_mapM (Group.members_reread hread) he
  exact ⟨e', List.mem_flatMap.mpr ⟨g', hg', hmem⟩, hfe⟩

end Stored

theorem Document.reread_eq_some {d d' : Document Float} : d.reread r = some d' ↔
    d.header.reread r = some d'.header ∧
      d.variableGroups.mapM (Stored.Group.reread (Stored.Variable.reread r)) = some d'.variableGroups ∧
        d.constraintGroups.mapM (Stored.Group.reread (Stored.Constraint.reread r)) = some d'.constraintGroups ∧
          d.constantGroups.mapM (Stored.Group.reread (Stored.Constant.reread r)) = some d'.constantGroups := by
  constructor
  · intro h
    obtain ⟨header, hheader, h⟩ := Option.bind_eq_some_iff.mp h
    obtain ⟨vars, hvars, h⟩ := Option.bind_eq_some_iff.mp h
    obtain ⟨constraints, hconstraints, h⟩ := Option.bind_eq_some_iff.mp h
    obtain ⟨constants, hconstants, h⟩ := Option.bind_eq_some_iff.mp h
    cases h
    exact ⟨hheader, hvars, hconstraints, hconstants⟩
  · rintro ⟨hheader, hvars, hconstraints, hconstants⟩
    rw [reread, hheader, hvars, hconstraints, hconstants]
    rfl

end Read

section Self

/-! A record is left as it is just when all numbers in it are given back. -/

variable {r : Json.NumberReader} {E : Type}

namespace Stored

theorem Term.reread_self {t : Term Float} : t.reread r = some t ↔ t.Each r.GivesBack := by
  obtain ⟨x, id⟩ := t
  change (r.reread x).bind (fun y => some (⟨y, id⟩ : Term Float)) = some ⟨x, id⟩ ↔ r.reread x = some x
  cases r.reread x <;> simp

theorem Expression.reread_self {e : Expression Float} : e.reread r = some e ↔ e.Each r.GivesBack := by
  obtain ⟨ts⟩ := e
  have hterms : ts.mapM (Term.reread r) = some ts ↔ ∀ t ∈ ts, t.Each r.GivesBack := by
    simp only [mapM_self, Term.reread_self]
  change (ts.mapM (Term.reread r)).bind (fun ts' => some (⟨ts'⟩ : Expression Float)) = some ⟨ts⟩ ↔ _
  rw [Expression.Each, ← hterms]
  cases ts.mapM (Term.reread r) <;> simp

theorem Variable.reread_self {v : Variable Float} : v.reread r = some v ↔ v.Each r.GivesBack := by
  obtain ⟨id, varType, lower, upper, result⟩ := v
  have heach : (⟨id, varType, lower, upper, result⟩ : Variable Float).Each r.GivesBack ↔
      r.rereadOptional lower = some lower ∧ r.rereadOptional upper = some upper ∧
        r.rereadOptional result = some result := by
    simp only [Json.NumberReader.rereadOptional_self]
    exact ⟨fun h => ⟨h.lower, h.upper, h.result⟩, fun h => ⟨⟨h.1, h.2.1⟩, h.2.2⟩⟩
  rw [heach]
  simp only [reread, Option.bind_eq_bind, Option.pure_def]
  cases r.rereadOptional lower <;> cases r.rereadOptional upper <;> cases r.rereadOptional result <;> simp

theorem Constraint.reread_self {c : Constraint Float} : c.reread r = some c ↔ c.Each r.GivesBack := by
  obtain ⟨id, left, comparison, right⟩ := c
  have heach : (⟨id, left, comparison, right⟩ : Constraint Float).Each r.GivesBack ↔
      left.reread r = some left ∧ right.reread r = some right := by
    simp only [Expression.reread_self]
    exact ⟨fun h => ⟨h.left, h.right⟩, fun h => ⟨h.1, h.2⟩⟩
  rw [heach]
  simp only [reread, Option.bind_eq_bind, Option.pure_def]
  cases left.reread r <;> cases right.reread r <;> simp

theorem Constant.reread_self {c : Constant Float} : c.reread r = some c ↔ c.Each r.GivesBack := by
  obtain ⟨id, x⟩ := c
  change (r.reread x).bind (fun y => some (⟨id, y⟩ : Constant Float)) = some ⟨id, x⟩ ↔ r.reread x = some x
  cases r.reread x <;> simp

theorem Group.reread_self {f : E → Option E} {g : Group E} :
    g.reread f = some g ↔ g.All fun e => f e = some e := by
  obtain ⟨id, description, members⟩ := g
  rw [Group.All, ← mapM_self]
  simp only [reread, Option.bind_eq_bind, Option.pure_def]
  cases members.mapM f <;> simp

end Stored

theorem SolutionValue.reread_self {v : SolutionValue Float} : v.reread r = some v ↔ v.Each r.GivesBack := by
  cases v with
  | float x =>
    change (r.reread x).map SolutionValue.float = some (.float x) ↔ r.reread x = some x
    cases r.reread x <;> simp
  | status s => exact ⟨fun _ => trivial, fun _ => rfl⟩
  | millis n => exact ⟨fun _ => trivial, fun _ => rfl⟩

theorem Solution.reread_self {s : Solution Float} : s.reread r = some s ↔ s.Each r.GivesBack := by
  have heach : s.Each r.GivesBack ↔ s.status.mapM (SolutionValue.reread r) = some s.status ∧
      s.objective.mapM (SolutionValue.reread r) = some s.objective ∧
        s.mipGap.mapM (SolutionValue.reread r) = some s.mipGap ∧ s.time.mapM (SolutionValue.reread r) = some s.time := by
    simp only [optionMapM_self, SolutionValue.reread_self]
    exact ⟨fun h => ⟨h .status, h .objective, h .mipGap, h .time⟩,
      fun ⟨hstatus, hobjective, hgap, htime⟩ k => by
        cases k with
        | status => exact hstatus
        | objective => exact hobjective
        | mipGap => exact hgap
        | time => exact htime⟩
  rw [heach]
  obtain ⟨status, objective, mipGap, time⟩ := s
  simp only [reread, Option.bind_eq_bind, Option.pure_def]
  cases status.mapM (SolutionValue.reread r) <;> cases objective.mapM (SolutionValue.reread r) <;>
    cases mipGap.mapM (SolutionValue.reread r) <;> cases time.mapM (SolutionValue.reread r) <;> simp

theorem Stored.Header.reread_self {h : Stored.Header Float} : h.reread r = some h ↔ h.Each r.GivesBack := by
  have heach : h.Each r.GivesBack ↔
      h.objective.mapM (Stored.Expression.reread r) = some h.objective ∧ h.solution.reread r = some h.solution := by
    simp only [optionMapM_self, Stored.Expression.reread_self, Solution.reread_self]
    exact ⟨fun h => ⟨h.objective, h.solution⟩, fun h => ⟨h.1, h.2⟩⟩
  rw [heach]
  obtain ⟨id, vars, constraints, constants, objective, direction, solution⟩ := h
  simp only [reread, Option.bind_eq_bind, Option.pure_def]
  cases objective.mapM (Stored.Expression.reread r) <;> cases solution.reread r <;> simp

theorem Document.reread_self {d : Document Float} : d.reread r = some d ↔ d.Each r.GivesBack := by
  simp only [Document.reread_eq_some, mapM_self, Stored.Group.reread_self, Stored.Header.reread_self,
    Stored.Variable.reread_self, Stored.Constraint.reread_self, Stored.Constant.reread_self]
  exact ⟨fun h => ⟨h.1, h.2.1, h.2.2.1, h.2.2.2⟩,
    fun h => ⟨h.header, h.variableGroups, h.constraintGroups, h.constantGroups⟩⟩

end Self
end Milp
