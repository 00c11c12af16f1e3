import Milp.Proofs.Captured
import Milp.Proofs.Change
import Milp.Proofs.Collected
import Milp.Proofs.Regular

/-! Restoring a captured model: group by group, everything in it is declared on the model that takes
it over. -/
namespace Milp

variable {α β γ η κ E F : Type} {A : Adapter α η κ} {k : Kind}

namespace Edit

/-- The edit succeeds on a model and leaves another one. -/
def Leads (m : Model A) (e : Edit A β) (b : β) (m' : Model A) : Prop :=
  ∀ journal, ∃ journal', e (m, journal) = (.ok b, m', journal')

variable {m m' m'' : Model A}

theorem leads_pure (m : Model A) (b : β) : Leads m (pure b) b m := fun journal => ⟨journal, rfl⟩

theorem Leads.bind {e : Edit A β} {f : β → Edit A γ} {b : β} {c : γ} (h : Leads m e b m')
    (hf : Leads m' (f b) c m'') :
    Leads m (e >>= f) c m'' := by
  intro journal
  obtain ⟨journal', h⟩ := h journal
  obtain ⟨journal'', hf⟩ := hf journal'
  exact ⟨journal'', by rw [bind_apply, h]; exact hf⟩

theorem Leads.discard {e : Edit A β} {b : β} (h : Leads m e b m') : Leads m (discard e) () m' :=
  h.bind (leads_pure _ _)

theorem leads_model (m : Model A) : Leads m model m m := fun journal => ⟨journal, rfl⟩

theorem leads_look {f : Model A → Except (ModelError α) β} {b : β} (h : f m = .ok b) :
    Leads m (look f) b m :=
  fun journal => ⟨journal, by rw [look_apply, h]⟩

theorem leads_declare {f : Model A → Except (ModelError α) (β × Model A)}
    {events : β → List (Event α)} {b : β} (h : f m = .ok (b, m')) :
    Leads m (declare f events) b m' :=
  fun journal => ⟨journal ++ events b, by rw [declare_apply, h]⟩

theorem leads_change {f : Model A → Except (ModelError α) (Model A)} (h : f m = .ok m') :
    Leads m (change f) () m' :=
  fun journal => ⟨journal, by rw [change_apply, h]⟩

theorem leads_setResult {id : String} {x : α} (h : m.vars.entities.contains id = true) :
    Leads m (setResult id x) () (m.giveResult id x) := by
  obtain ⟨p, hp⟩ := Table.contains_iff.mp h
  have hv : m.vars.entity id = (.ok p.entity : Except (ModelError α) (Variable α)) :=
    Registry.entity_eq_ok.mpr ⟨p, hp, rfl⟩
  intro journal
  rw [setResult_apply, hv]
  exact ⟨journal, rfl⟩

theorem leads_setSolution (m : Model A) (s : Solution α) :
    Leads m (setSolution s) () { m with solution := s } :=
  fun journal => ⟨journal, rfl⟩

/-- A loop follows the part of its list that is done. -/
theorem leads_forM {l : List γ} {f : γ → Edit A Unit} (I : List γ → Model A)
    (h : ∀ done c rest, l = done ++ c :: rest → Leads (I done) (f c) () (I (done ++ [c]))) :
    Leads (I []) (l.forM f) () (I l) := by
  have step (rest : List γ) : ∀ done, l = done ++ rest → Leads (I done) (rest.forM f) () (I l) := by
    induction rest with
    | nil =>
      intro done hl
      rw [hl, List.append_nil]
      exact leads_pure _ _
    | cons c rest ih =>
      intro done hl
      exact (h done c rest hl).bind (ih (done ++ [c]) (by simp [hl]))
  exact step l [] rfl

end Edit

namespace Model

@[simp] theorem registry_withRegistry (m : Model A) (k : Kind) (r : Registry k (k.Entity α)) :
    (m.withRegistry k r).registry k = r := by cases k <;> rfl

@[simp] theorem withRegistry_withRegistry (m : Model A) (k : Kind)
    (r r' : Registry k (k.Entity α)) :
    (m.withRegistry k r).withRegistry k r' = m.withRegistry k r' := by cases k <;> rfl

@[simp] theorem stage_withRegistry (m : Model A) (k : Kind) (r : Registry k (k.Entity α)) :
    (m.withRegistry k r).stage = m.stage := by cases k <;> rfl

end Model

open Edit (Leads)

section Groups

variable {base : Model A} {member : Group k → F → Edit A Unit} {store : E → F} {f : E → k.Entity α}
  {r : Registry k E} {r₀ : Registry k (k.Entity α)}

/-- Restoring a member declares it, in any registry that has its group and nothing of its name. -/
def Declares (base : Model A) (member : Group k → F → Edit A Unit) (store : E → F)
    (f : E → k.Entity α) (r : Registry k E) : Prop :=
  ∀ (g : Group k) id p (reg : Registry k (k.Entity α)), r.entities.find? id = some p →
    reg.groups.contains g.identifier = true → reg.entities.contains id = false →
    Leads (base.withRegistry k reg) (member g (store p.entity)) ()
      (base.withRegistry k { reg with
        entities := reg.entities.insert id ⟨g.identifier, f p.entity⟩ })

theorem Declares.members (h : Declares base member store f r) {g : Group k}
    {es : List (String × Placed E)} (hes : ∀ e ∈ es, r.entities.find? e.1 = some e.2)
    (ha : es.Pairwise fun a b => a.1 < b.1) {reg : Registry k (k.Entity α)}
    (hg : reg.groups.contains g.identifier = true)
    (hr : ∀ e ∈ es, reg.entities.contains e.1 = false) :
    Leads (base.withRegistry k reg) ((es.map fun e => store e.2.entity).forM (member g)) ()
      (base.withRegistry k { reg with
        entities := reg.entities.insertAll
          (es.map fun e => (e.1, ⟨g.identifier, f e.2.entity⟩)) }) := by
  induction es generalizing reg with
  | nil => exact Edit.leads_pure _ _
  | cons e rest ih =>
    obtain ⟨he, hrest⟩ := List.pairwise_cons.mp ha
    refine (h g e.1 e.2 reg (hes e (by simp)) hg (hr e (by simp))).bind ?_
    refine ih (fun d hd => hes d (by simp [hd])) hrest hg fun d hd => ?_
    have hne : d.1 ≠ e.1 := (Std.ne_of_lt (he d hd)).symm
    simp [hne, hr d (by simp [hd])]

theorem leads_restoreGroup_present {m m' : Model A} {s : Stored.Group F} {g : Group k}
    (hg : (m.registry k).groups.find? s.identifier = some g)
    (h : Leads m (s.members.forM (member g)) () m') :
    Leads m (Edit.restoreGroup k s member) () m' := by
  have hok : m.group k s.identifier = .ok g := Registry.group_eq_ok.mpr hg
  refine (Edit.leads_model m).bind ?_
  rw [hok]
  exact (Edit.leads_pure m g).bind h

theorem leads_restoreGroup_absent {m m' m'' : Model A} {s : Stored.Group F} {g : Group k}
    (hg : (m.registry k).groups.find? s.identifier = none)
    (hc : m.createGroup k s.identifier s.description none = .ok (g, m'))
    (h : Leads m' (s.members.forM (member g)) () m'') :
    Leads m (Edit.restoreGroup k s member) () m'' := by
  have herr : m.group k s.identifier = .error (.unknownGroup k s.identifier) := by
    rw [Model.group, Registry.group, hg]
  refine (Edit.leads_model m).bind ?_
  rw [herr]
  exact (Edit.leads_declare hc).bind h

/-- Restoring a group takes over the group and its members. -/
theorem Declares.group (h : Declares base member store f r) (hs : base.stage = .declaring)
    (hn : r₀.Named) {id : String} {g : Group k} (hg : r.groups.find? id = some g)
    (hid : g.identifier = id) (hb : Text.isBlank id = false) {ids : List String} (hids : id ∉ ids)
    (hr : ∀ e ∈ (r.inGroup id).entries, r₀.entities.contains e.1 = false) :
    Leads (base.withRegistry k (r₀.merge ((r.within ids).copy f)))
      (Edit.restoreGroup k (r.storedGroup store id g.description) member) ()
      (base.withRegistry k (r₀.merge ((r.within (ids ++ [id])).copy f))) := by
  let reg := r₀.merge ((r.within ids).copy f)
  let reg' := r₀.merge ((r.within (ids ++ [id])).copy f)
  have hgroups : reg'.groups = if r₀.groups.contains id then reg.groups else
      reg.groups.insert id ⟨id, g.description, none⟩ := Registry.groups_merge hg hid
  have hfind : reg.groups.find? id = r₀.groups.find? id := Registry.find?_merge_within hids
  have hmembers (g' : Group k) (hid' : g'.identifier = id) (hc : reg'.groups.contains id = true) :
      Leads (base.withRegistry k ⟨reg'.groups, reg.entities⟩)
        (((r.inGroup id).entries.map fun e => store e.2.entity).forM (member g')) ()
          (base.withRegistry k reg') := by
    have he : reg'.entities = reg.entities.insertAll
      ((r.inGroup id).entries.map fun e => (e.1, ⟨id, f e.2.entity⟩)) := Registry.entities_merge hr
    have hreg : reg' = ⟨reg'.groups, reg.entities.insertAll
      ((r.inGroup id).entries.map fun e => (e.1, ⟨g'.identifier, f e.2.entity⟩))⟩ := by rw [hid',
        ← he]
    rw [hreg]
    exact h.members (fun e he => Table.find?_eq_some_iff.mpr (List.mem_of_mem_filter he))
      (r.inGroup id).ascending (hid' ▸ hc) fun e he =>
        Registry.contains_merge_within hids he (hr e he)
  by_cases hc : r₀.groups.contains id = true
  · obtain ⟨g', hg'⟩ := Table.contains_iff.mp hc
    rw [if_pos hc] at hgroups
    have hall := hmembers g' (hn id g' hg') (hgroups ▸ Table.contains_of_find? (hfind.trans hg'))
    rw [hgroups] at hall
    refine leads_restoreGroup_present (g := g') ?_ hall
    rw [Model.registry_withRegistry]
    exact hfind.trans hg'
  · have hnone : r₀.groups.find? id = none := by simpa [Table.find?_eq_none_iff] using hc
    rw [if_neg hc] at hgroups
    have hall := hmembers ⟨id, g.description, none⟩ rfl (hgroups ▸ by simp)
    refine leads_restoreGroup_absent (g := ⟨id, g.description, none⟩) ?_
      (Model.createGroup_eq_ok.mpr ?_) hall
    · rw [Model.registry_withRegistry]
      exact hfind.trans hnone
    · rw [Model.registry_withRegistry, Model.stage_withRegistry, Model.withRegistry_withRegistry,
        hs, hgroups]
      exact ⟨by cases k <;> rfl, hb, Table.find?_eq_none_iff.mp (hfind.trans hnone), rfl, rfl⟩

/-- The next group in order is one that is not taken over yet. -/
theorem Declares.next (h : Declares base member store f r) (hs : base.stage = .declaring)
    (hn : r₀.Named)
    (hg : ∀ id g, r.groups.find? id = some g → g.identifier = id ∧ Text.isBlank id = false)
    {done rest : List (String × Group k)} {e : String × Group k}
    (hl : r.groups.entries = done ++ e :: rest)
    (hr : ∀ d ∈ (r.inGroup e.1).entries, r₀.entities.contains d.1 = false) :
    Leads (base.withRegistry k (r₀.merge ((r.within (done.map Prod.fst)).copy f)))
      (Edit.restoreGroup k (r.storedGroup store e.1 e.2.description) member) ()
      (base.withRegistry k (r₀.merge ((r.within ((done ++ [e]).map Prod.fst)).copy f))) := by
  have hfind : r.groups.find? e.1 = some e.2 := Table.find?_eq_some_iff.mpr (by simp [hl])
  obtain ⟨hid, hb⟩ := hg e.1 e.2 hfind
  simpa using h.group hs hn hfind hid hb (Table.not_mem_of_entries hl) hr

/-- Restoring all groups takes over the whole registry. -/
theorem Declares.groups (h : Declares base member store f r) (hs : base.stage = .declaring)
    (hn : r₀.Named)
    (hg : ∀ id g, r.groups.find? id = some g → g.identifier = id ∧ Text.isBlank id = false)
    (he : ∀ id p, r.entities.find? id = some p → r.groups.contains p.group = true)
    (hr : ∀ id, r.entities.contains id = true → r₀.entities.contains id = false) :
    Leads (base.withRegistry k r₀) ((r.stored store).forM fun s => Edit.restoreGroup k s member) ()
      (base.withRegistry k (r₀.merge (r.copy f))) := by
  let I (done : List (String × Group k)) : Model A :=
    base.withRegistry k (r₀.merge ((r.within (done.map Prod.fst)).copy f))
  have hloop : Leads (I []) (r.groups.entries.forM fun e =>
      Edit.restoreGroup k (r.storedGroup store e.1 e.2.description) member) ()
        (I r.groups.entries) := by
    refine Edit.leads_forM I fun done e rest hl => h.next hs hn hg hl fun d hd => hr d.1 ?_
    exact Table.contains_of_find? (Table.find?_eq_some_iff.mpr (List.mem_of_mem_filter hd))
  have hnil : I [] = base.withRegistry k r₀ :=
    congrArg (base.withRegistry k) (r.merge_within_nil r₀ f)
  have hall : I r.groups.entries = base.withRegistry k (r₀.merge (r.copy f)) :=
    congrArg (fun r' => base.withRegistry k (r₀.merge (Registry.copy f r')))
      (Registry.within_keys he)
  rw [hnil, hall] at hloop
  rw [Registry.stored, List.forM_eq_forM, List.forM_map]
  exact hloop

end Groups

/-- The variable on the model with this token. -/
def Variable.moveTo (owner : Token) (v : Variable α) : Variable α := { v with owner }

section Members

variable {base : Model A}

theorem declares_constant {r : Registry .constant (Constant α)} (hs : base.stage = .declaring)
    (hr : r.Regular (·.identifier)) :
    Declares base Edit.restoreConstant Constant.store (fun c => c) r := by
  intro g id p reg hp hg hc
  obtain ⟨-, hid, hb⟩ := hr.entities id p hp
  obtain ⟨group, ⟨identifier, value⟩⟩ := p
  cases hid
  refine (Edit.leads_declare (b := ⟨identifier, value⟩) (Model.createConstant_eq_ok.mpr ?_)).discard
  exact ⟨by rw [Model.stage_withRegistry, hs]; rfl, hb, hg, hc, rfl, rfl⟩

/-- Bounds that are stored come back. -/
def Variable.Storable [Unbounded α] (v : Variable α) : Prop :=
  v.store.lower.getD Unbounded.negativeInfinity = v.lower ∧
    v.store.upper.getD Unbounded.infinity = v.upper

theorem declares_variable [Unbounded α] {r : Registry .var (Variable α)}
    (hs : base.stage = .declaring) (hf : base.variableFactory = Variable.new)
    (hr : r.Regular (·.identifier))
    (hbounds : ∀ id p, r.entities.find? id = some p →
      Scalar.le p.entity.lower p.entity.upper = true)
    (hstore : ∀ id p, r.entities.find? id = some p → p.entity.Storable) :
    Declares base Edit.restoreVariable Variable.store (Variable.moveTo base.token) r := by
  intro g id p reg hp hg hc
  obtain ⟨-, hid, hb⟩ := hr.entities id p hp
  obtain ⟨hl, hu⟩ := hstore id p hp
  have hle := hbounds id p hp
  obtain ⟨group, v⟩ := p
  cases hid
  let fresh : Variable α := ⟨v.identifier, v.varType, v.lower, v.upper, base.token, none⟩
  have hcreate : Leads (base.withRegistry .var reg)
      (Edit.createVariable v.identifier v.varType (v.store.lower.getD Unbounded.negativeInfinity)
        (v.store.upper.getD Unbounded.infinity) g) fresh
      (base.withRegistry .var { reg with
        entities := reg.entities.insert v.identifier ⟨g.identifier, fresh⟩ }) := by
    rw [hl, hu]
    refine Edit.leads_declare (Model.createVariable_eq_ok.mpr ?_)
    refine ⟨by rw [Model.stage_withRegistry, hs]; rfl, hg, hc, ?_, rfl⟩
    change base.variableFactory _ _ _ _ _ = _
    rw [hf]
    exact Variable.new_eq_ok.mpr ⟨hb, hle, rfl⟩
  refine hcreate.discard.bind ?_
  simp only [Variable.store]
  cases hx : v.result with
  | none =>
    have hfresh : fresh = v.moveTo base.token := by rw [Variable.moveTo, hx]
    rw [hfresh]
    exact Edit.leads_pure _ _
  | some x =>
    have hgiven : (base.withRegistry .var { reg with
        entities := reg.entities.insert v.identifier ⟨g.identifier, fresh⟩ }).giveResult
          v.identifier x =
        base.withRegistry .var { reg with
          entities := reg.entities.insert v.identifier ⟨g.identifier, v.moveTo base.token⟩ } := by
      have hmove : v.moveTo base.token = { fresh with result := some x } := by
        rw [Variable.moveTo, hx]
      rw [hmove]
      exact congrArg (fun t => base.withRegistry .var { reg with entities := t })
        (Table.modify_insert ..)
    rw [← hgiven]
    exact Edit.leads_setResult (by simp [Model.withRegistry])

/-- An expression comes back as the model's own. -/
theorem Model.restoreExpression_owned [Scalar α] {m : Model A} {e : Expression α}
    (h : ∀ id ∈ e.names, ∃ p, m.vars.entities.find? id = some p ∧ p.entity.identifier = id ∧
      p.entity.owner = m.token) :
    m.restoreExpression e.store = .ok (e.collected m.token) ∧ m.Owns (e.collected m.token) := by
  refine ⟨Model.restoreExpression_store h, rfl, fun id hid => ?_⟩
  obtain ⟨p, hp, -⟩ := h id (e.names_collected m.token id hid)
  exact Table.contains_of_find? hp

theorem declares_constraint [Scalar α] {r : Registry .constraint (Constraint α)}
    (hs : base.stage = .declaring) (hf : base.constraintFactory = Constraint.new)
    (hr : r.Regular (·.identifier))
    (hvars : ∀ id p, r.entities.find? id = some p →
      ∀ n ∈ p.entity.left.names ++ p.entity.right.names,
      ∃ q, base.vars.entities.find? n = some q ∧ q.entity.identifier = n ∧
        q.entity.owner = base.token)
    (hsides : ∀ id p, r.entities.find? id = some p →
      (p.entity.left.isEmpty && p.entity.right.isEmpty) = false) :
    Declares base Edit.restoreConstraint Constraint.store (Constraint.collected base.token) r := by
  intro g id p reg hp hg hc
  obtain ⟨-, hid, hb⟩ := hr.entities id p hp
  have hv := hvars id p hp
  have hne := hsides id p hp
  obtain ⟨group, c⟩ := p
  rw [Bool.and_eq_false_iff] at hne
  cases hid
  let m := base.withRegistry .constraint reg
  obtain ⟨hleft, hleftOwned⟩ := Model.restoreExpression_owned (m := m) (e := c.left) fun n hn =>
    hv n (List.mem_append_left _ hn)
  obtain ⟨hright, hrightOwned⟩ := Model.restoreExpression_owned (m := m) (e := c.right) fun n hn =>
    hv n (List.mem_append_right _ hn)
  refine (Edit.leads_look hleft).bind ((Edit.leads_look hright).bind ?_)
  refine (Edit.leads_declare (b := c.collected base.token)
    (Model.addConstraint_eq_ok.mpr ?_)).discard
  refine ⟨by rw [Model.stage_withRegistry, hs]; rfl, hleftOwned, hrightOwned, hg, hc, ?_, rfl⟩
  change base.constraintFactory _ _ _ _ = _
  rw [hf]
  refine Constraint.new_eq_ok.mpr ⟨hb, rfl, Bool.and_eq_false_iff.mpr ?_, rfl⟩
  exact hne.imp (Expression.isEmpty_collected_of_terms _) (Expression.isEmpty_collected_of_terms _)

end Members

variable {η' κ' : Type} {A' : Adapter α η' κ'}

/-- The model once it has taken over everything that another one declares, with what that one
solved. -/
def Model.takeOver [Scalar α] (n : Model A') (m : Model A) : Model A' :=
  { n with
    vars := n.vars.merge (m.vars.copy (Variable.moveTo n.token))
    constraints := n.constraints.merge (m.constraints.copy (Constraint.collected n.token))
    constants := n.constants.merge (m.constants.copy fun c => c)
    objective := (m.objective.map fun o => ⟨o.expression.collected n.token, o.direction⟩).or
      n.objective
    solution := m.solution }

section Whole

theorem Registry.Regular.named {name : E → String} {r : Registry k E} (h : r.Regular name) :
    r.Named :=
  fun id g hg => (h.groups id g hg).1

theorem Declares.registry {member : Group k → F → Edit A Unit} {store : E → F} {f : E → k.Entity α}
    {r : Registry k E} {base : Model A} {name : E → String} {name' : k.Entity α → String}
    (h : Declares base member store f r) (hs : base.stage = .declaring) (hr : r.Regular name)
    (hn : (base.registry k).Regular name')
    (hd : ∀ id, r.entities.contains id = true → (base.registry k).entities.contains id = false) :
    Leads base ((r.stored store).forM fun s => Edit.restoreGroup k s member) ()
      (base.withRegistry k ((base.registry k).merge (r.copy f))) := by
  have hall := h.groups hs hn.named hr.groups (fun id p hp => (hr.entities id p hp).1) hd
  have hself : base.withRegistry k (base.registry k) = base := by cases k <;> rfl
  rwa [hself] at hall

variable [Unbounded α] {n : Model A'} {m : Model A}

/-- The header brings the objective and what was solved. -/
theorem leads_restoreHeader (hs : n.stage = .declaring)
    (ho : ∀ o ∈ m.objective, ∀ id ∈ o.expression.names,
      ∃ p, n.vars.entities.find? id = some p ∧ p.entity.identifier = id ∧
        p.entity.owner = n.token) :
    Leads n (Edit.restoreHeader m.storeHeader) () { n with
      objective := (m.objective.map fun o => ⟨o.expression.collected n.token, o.direction⟩).or
        n.objective
      solution := m.solution } := by
  unfold Edit.restoreHeader Model.storeHeader
  cases hm : m.objective with
  | none => exact Edit.leads_setSolution _ _
  | some o =>
    obtain ⟨hrestore, howned⟩ := Model.restoreExpression_owned (ho o hm)
    have hset : Leads n (Edit.setObjective (o.expression.collected n.token) o.direction) ()
        { n with objective := some ⟨o.expression.collected n.token, o.direction⟩ } :=
      Edit.leads_change (Model.setObjective_eq_ok.mpr ⟨by rw [hs]; rfl, howned, rfl⟩)
    exact (Edit.leads_look hrestore).bind (hset.bind (Edit.leads_setSolution _ _))

/-- The model once it has taken over the constants and the variables of another one. -/
def Model.stocked (n : Model A') (m : Model A) : Model A' :=
  { n with
    constants := n.constants.merge (m.constants.copy fun c => c)
    vars := n.vars.merge (m.vars.copy (Variable.moveTo n.token)) }

/-- Then it has all variables of the other one, and they are its own. -/
theorem Model.exists_stocked (hm : m.Regular)
    (hd : ∀ id, m.vars.contains id = true → n.vars.contains id = false) {id : String}
    (hid : m.vars.contains id = true) :
    ∃ p, (n.stocked m).vars.entities.find? id = some p ∧ p.entity.identifier = id ∧
      p.entity.owner = n.token := by
  obtain ⟨p, hp⟩ := Table.contains_iff.mp hid
  have hnone : n.vars.entities.find? id = none := Table.find?_eq_none_iff.mpr (hd id hid)
  refine ⟨⟨p.group, p.entity.moveTo n.token⟩, ?_, (hm.vars.entities id p hp).2.1, rfl⟩
  change ((n.vars.entities.union (m.vars.copy (Variable.moveTo n.token)).entities).find? id) = _
  rw [Table.find?_union, hnone, Registry.copy, Table.find?_map, hp]
  rfl

theorem stocked_names (hm : m.Regular)
    (hd : ∀ id, m.vars.contains id = true → n.vars.contains id = false) (id : String)
    (p : Placed (Constraint α)) (hp : m.constraints.entities.find? id = some p) :
    ∀ v ∈ p.entity.left.names ++ p.entity.right.names,
      ∃ q, (n.stocked m).vars.entities.find? v = some q ∧ q.entity.identifier = v ∧
        q.entity.owner = n.token := by
  intro v hv
  obtain ⟨hleft, hright, -⟩ := hm.sides id p hp
  exact Model.exists_stocked hm hd ((List.mem_append.mp hv).elim (hleft.2 v) (hright.2 v))

/-- And so it accepts the constraints. -/
theorem declares_stocked (hn : n.Regular) (hs : n.stage = .declaring) (hm : m.Regular)
    (hd : ∀ id, m.vars.contains id = true → n.vars.contains id = false) :
    Declares (n.stocked m) Edit.restoreConstraint Constraint.store (Constraint.collected n.token)
      m.constraints :=
  declares_constraint hs hn.constraintFactory hm.constraints (stocked_names hm hd)
    fun id p hp => (hm.sides id p hp).2.2

/-- Restoring the document of a model takes over the model, where none of its names is taken. -/
theorem leads_restore (hn : n.Regular) (hs : n.stage = .declaring) (hm : m.Regular)
    (hstore : ∀ id p, m.vars.entities.find? id = some p → p.entity.Storable)
    (hd : ∀ k id, (m.registry k).entities.contains id = true →
      (n.registry k).entities.contains id = false) :
    Leads n (Edit.restore m.document) () (n.takeOver m) := by
  let n₁ := n.withRegistry .constant (n.constants.merge (m.constants.copy fun c => c))
  let n₂ := n.stocked m
  let n₃ := n₂.withRegistry .constraint
    (n.constraints.merge (m.constraints.copy (Constraint.collected n.token)))
  have hs₁ : n₁.stage = .declaring := hs
  have hs₂ : n₂.stage = .declaring := hs
  have hs₃ : n₃.stage = .declaring := hs
  have hconstants : Leads n _ () n₁ :=
    (declares_constant hs hm.constants).registry hs hm.constants hn.constants (hd .constant)
  have hvariables : Leads n₁ _ () n₂ :=
    (declares_variable hs₁ hn.variableFactory hm.vars (fun id p hp => (hm.bounds id p hp).1)
      hstore).registry hs hm.vars hn.vars (hd .var)
  have hconstraints : Leads n₂ _ () n₃ :=
    (declares_stocked hn hs hm (hd .var)).registry hs₂ hm.constraints hn.constraints
      (hd .constraint)
  have hheader : Leads n₃ (Edit.restoreHeader m.storeHeader) () (n.takeOver m) :=
    leads_restoreHeader hs₃ fun o ho id hid =>
      Model.exists_stocked hm (hd .var) ((hm.objective o ho).2 id hid)
  exact hconstants.bind (hvariables.bind (hconstraints.bind hheader))

end Whole
end Milp
