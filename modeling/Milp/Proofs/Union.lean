import Milp.Proofs.Reimported

/-! Restoring on a model that has declared things of its own: the two are united, and nothing can be in the
way but a name that both have. -/
namespace Milp

variable {α β γ η κ η' κ' E F : Type} {A : Adapter α η κ} {A' : Adapter α η' κ'} {k : Kind}

namespace Registry

variable {r : Registry k E} {group id : String}

theorem ensureAbsent_taken (h : r.entities.contains id = true) :
    (r.ensureAbsent id : Except (ModelError α) Unit) = .error (.duplicateEntity k id) :=
  if_pos h

theorem discard_group (h : r.groups.contains group = true) :
    (discard (r.group group) : Except (ModelError α) Unit) = .ok () := by
  obtain ⟨g, hg⟩ := Table.contains_iff.mp h
  exact discard_eq_ok.mpr ⟨g, group_eq_ok.mpr hg⟩

end Registry

namespace Model

variable {m : Model A} {id : String}

/-- A name that is taken is found out once everything else is in order. -/
theorem createConstant_taken {value : α} {group : Group .constant}
    (ho : m.stage.admits .constant = true) (hb : Text.isBlank id = false)
    (hg : m.constants.groups.contains group.identifier = true)
    (hid : m.constants.entities.contains id = true) :
    m.createConstant id value group = .error (.duplicateEntity .constant id) := by
  have hopen : m.checkOpen .constant = .ok () := checkOpen_eq_ok.mpr ho
  have hnew : (Constant.new id value : Except (ModelError α) _) = .ok ⟨id, value⟩ :=
    Constant.new_eq_ok.mpr ⟨hb, rfl⟩
  rw [createConstant, hopen, hnew]
  change (m.constants.insert group.identifier id _ >>= _) = _
  rw [Registry.insert, Registry.discard_group hg, Registry.ensureAbsent_taken hid]
  rfl

theorem createVariable_taken {varType : VarType} {lower upper : α} {group : Group .var}
    (ho : m.stage.admits .var = true) (hg : m.vars.groups.contains group.identifier = true)
    (hid : m.vars.entities.contains id = true) :
    m.createVariable id varType lower upper group = .error (.duplicateEntity .var id) := by
  have hopen : m.checkOpen .var = .ok () := checkOpen_eq_ok.mpr ho
  rw [createVariable, hopen, Registry.discard_group hg, Registry.ensureAbsent_taken hid]
  rfl

theorem addConstraint_taken {left right : Expression α} {comparison : Comparison}
    {group : Group .constraint} (ho : m.stage.admits .constraint = true) (hl : m.Owns left)
    (hr : m.Owns right) (hg : m.constraints.groups.contains group.identifier = true)
    (hid : m.constraints.entities.contains id = true) :
    m.addConstraint id left comparison right group = .error (.duplicateEntity .constraint id) := by
  have hopen : m.checkOpen .constraint = .ok () := checkOpen_eq_ok.mpr ho
  have hleft : m.checkOwned left = .ok () := checkOwned_eq_ok.mpr hl
  have hright : m.checkOwned right = .ok () := checkOwned_eq_ok.mpr hr
  rw [addConstraint, hopen, hleft, hright, Registry.discard_group hg, Registry.ensureAbsent_taken hid]
  rfl

end Model

namespace Edit

variable {m m' : Model A} {e : Edit A β} {ids : String → Prop}

/-- The edit fails on a model because one of these names is taken. -/
def Collides (m : Model A) (e : Edit A β) (k : Kind) (ids : String → Prop) : Prop :=
  ∀ journal, ∃ id m' journal', ids id ∧ e (m, journal) = (.error (.duplicateEntity k id), m', journal')

theorem Collides.bind (h : Collides m e k ids) (f : β → Edit A γ) : Collides m (e >>= f) k ids := by
  intro journal
  obtain ⟨id, m', journal', hid, h⟩ := h journal
  exact ⟨id, m', journal', hid, by rw [bind_apply, h]⟩

theorem Leads.bind_collides {f : β → Edit A γ} {b : β} (h : Leads m e b m')
    (hf : Collides m' (f b) k ids) : Collides m (e >>= f) k ids := by
  intro journal
  obtain ⟨journal', h⟩ := h journal
  obtain ⟨id, m'', journal'', hid, hf⟩ := hf journal'
  exact ⟨id, m'', journal'', hid, by rw [bind_apply, h]; exact hf⟩

theorem Collides.imp {ids' : String → Prop} (h : Collides m e k ids) (hids : ∀ id, ids id → ids' id) :
    Collides m e k ids' := by
  intro journal
  obtain ⟨id, m', journal', hid, h⟩ := h journal
  exact ⟨id, m', journal', hids id hid, h⟩

theorem collides_declare {f : Model A → Except (ModelError α) (β × Model A)}
    {events : β → List (Event α)} {id : String} (h : f m = .error (.duplicateEntity k id))
    (hid : ids id) : Collides m (declare f events) k ids :=
  fun journal => ⟨id, m, journal, hid, by rw [declare_apply, h]⟩

/-- A loop fails at the first element that clashes. -/
theorem collides_forM {l : List γ} {f : γ → Edit A Unit} (I : List γ → Model A) {P : γ → Prop}
    (hlead : ∀ done c rest, l = done ++ c :: rest → ¬P c →
      Leads (I done) (f c) () (I (done ++ [c])))
    (hclash : ∀ done c rest, l = done ++ c :: rest → P c → Collides (I done) (f c) k ids)
    (h : ∃ c ∈ l, P c) : Collides (I []) (l.forM f) k ids := by
  have step (rest : List γ) : ∀ done, l = done ++ rest → (∃ c ∈ rest, P c) →
      Collides (I done) (rest.forM f) k ids := by
    induction rest with
    | nil =>
      rintro done - ⟨c, hc, -⟩
      cases hc
    | cons c rest ih =>
      rintro done hl ⟨d, hd, hpd⟩
      by_cases hc : P c
      · exact (hclash done c rest hl hc).bind _
      · have hrest : d ∈ rest := (List.mem_cons.mp hd).resolve_left fun hdc => hc (hdc ▸ hpd)
        exact (hlead done c rest hl hc).bind_collides (ih (done ++ [c]) (by simp [hl])
          ⟨d, hrest, hpd⟩)
  exact step l [] rfl h

end Edit

open Edit (Leads Collides)

section Groups

variable {base : Model A} {member : Group k → F → Edit A Unit} {store : E → F} {f : E → k.Entity α}
  {r : Registry k E} {r₀ : Registry k (k.Entity α)}

/-- Restoring a member fails in any registry that has its group and its name. -/
def Clashes (base : Model A) (member : Group k → F → Edit A Unit) (store : E → F)
    (r : Registry k E) : Prop :=
  ∀ (g : Group k) id p (reg : Registry k (k.Entity α)), r.entities.find? id = some p →
    reg.groups.contains g.identifier = true → reg.entities.contains id = true →
    Collides (base.withRegistry k reg) (member g (store p.entity)) k (· = id)

/-- Both registries have this name. -/
def Registry.Shares (r : Registry k E) (r₀ : Registry k F) (id : String) : Prop :=
  r.entities.contains id = true ∧ r₀.entities.contains id = true

theorem Clashes.members (hc : Clashes base member store r) (h : Declares base member store f r)
    {g : Group k} {es : List (String × Placed E)} (hes : ∀ e ∈ es, r.entities.find? e.1 = some e.2)
    (ha : es.Pairwise fun a b => a.1 < b.1) {reg : Registry k (k.Entity α)}
    (hg : reg.groups.contains g.identifier = true)
    (hr : ∃ e ∈ es, reg.entities.contains e.1 = true) :
    Collides (base.withRegistry k reg) ((es.map fun e => store e.2.entity).forM (member g)) k
      (fun id => (∃ e ∈ es, e.1 = id) ∧ reg.entities.contains id = true) := by
  induction es generalizing reg with
  | nil =>
    obtain ⟨e, he, -⟩ := hr
    cases he
  | cons e rest ih =>
    obtain ⟨hlt, hrest⟩ := List.pairwise_cons.mp ha
    have hfind : r.entities.find? e.1 = some e.2 := hes e (by simp)
    cases htaken : reg.entities.contains e.1 with
    | true =>
      refine ((hc g e.1 e.2 reg hfind hg htaken).imp fun id hid => ?_).bind _
      exact ⟨⟨e, by simp, hid.symm⟩, hid ▸ htaken⟩
    | false =>
      -- the name that this member brings is none of those that follow
      have hsame (d : String × Placed E) (hd : d ∈ rest) :
          (reg.entities.insert e.1 ⟨g.identifier, f e.2.entity⟩).contains d.1 =
            reg.entities.contains d.1 := by
        simp [(Std.ne_of_lt (hlt d hd)).symm]
      obtain ⟨d, hd, hdtaken⟩ := hr
      have hdrest : d ∈ rest := by
        refine (List.mem_cons.mp hd).resolve_left fun hde => ?_
        rw [hde, htaken] at hdtaken
        cases hdtaken
      refine (h g e.1 e.2 reg hfind hg htaken).bind_collides ?_
      refine Edit.Collides.imp (ih (fun c hc => hes c (by simp [hc])) hrest hg
        ⟨d, hdrest, (hsame d hdrest).trans hdtaken⟩) ?_
      rintro id ⟨⟨c, hc, rfl⟩, hcontains⟩
      exact ⟨⟨c, by simp [hc], rfl⟩, (hsame c hc).symm.trans hcontains⟩

/-- The members of a group are restored in the group of its name, or in a new one. -/
theorem collides_restoreGroup {reg : Registry k (k.Entity α)} {s : Stored.Group F} {ids : String → Prop}
    (hs : base.stage = .declaring) (hb : Text.isBlank s.identifier = false)
    (hn : ∀ g, reg.groups.find? s.identifier = some g → g.identifier = s.identifier)
    (h : ∀ (g : Group k) groups, groups.contains g.identifier = true →
      Collides (base.withRegistry k ⟨groups, reg.entities⟩) (s.members.forM (member g)) k ids) :
    Collides (base.withRegistry k reg) (Edit.restoreGroup k s member) k ids := by
  refine (Edit.leads_model _).bind_collides ?_
  rw [Model.group, Model.registry_withRegistry, Registry.group]
  cases hg : reg.groups.find? s.identifier with
  | some g =>
    refine (Edit.leads_pure _ g).bind_collides (h g reg.groups ?_)
    rw [hn g hg]
    exact Table.contains_of_find? hg
  | none =>
    let g : Group k := ⟨s.identifier, s.description, none⟩
    have hcreate : (base.withRegistry k reg).createGroup k s.identifier s.description none =
        .ok (g, base.withRegistry k ⟨reg.groups.insert s.identifier g, reg.entities⟩) := by
      refine Model.createGroup_eq_ok.mpr ⟨?_, hb, ?_, rfl, ?_⟩
      · rw [Model.stage_withRegistry, hs]
        cases k <;> rfl
      · rw [Model.registry_withRegistry]
        exact Table.find?_eq_none_iff.mp hg
      · rw [Model.registry_withRegistry, Model.withRegistry_withRegistry]
    exact (Edit.leads_declare hcreate).bind_collides (h g _ (by simp [g]))

theorem Clashes.group (hc : Clashes base member store r) (h : Declares base member store f r)
    (hs : base.stage = .declaring) (hn : r₀.Named) {id description : String}
    (hb : Text.isBlank id = false) {ids : List String} (hids : id ∉ ids)
    (hr : ∃ e ∈ (r.inGroup id).entries, r₀.entities.contains e.1 = true) :
    Collides (base.withRegistry k (r₀.merge ((r.within ids).copy f)))
      (Edit.restoreGroup k (r.storedGroup store id description) member) k (r.Shares r₀) := by
  have hfind (e : String × Placed E) (he : e ∈ (r.inGroup id).entries) : r.entities.find? e.1 = some e.2 :=
    Table.find?_eq_some_iff.mpr (List.mem_of_mem_filter he)
  refine collides_restoreGroup hs hb (fun g hg => hn id g (Registry.find?_merge_within hids ▸ hg)) ?_
  intro g groups hg
  refine (hc.members h hfind (r.inGroup id).ascending hg ?_).imp ?_
  · obtain ⟨e, he, htaken⟩ := hr
    exact ⟨e, he, by simp [Registry.merge, htaken]⟩
  · rintro _ ⟨⟨e, he, rfl⟩, htaken⟩
    refine ⟨Table.contains_of_find? (hfind e he), ?_⟩
    cases hfree : r₀.entities.contains e.1 with
    | true => rfl
    | false => exact (Registry.contains_merge_within hids he hfree).symm.trans htaken

/-- Where the registries share a name, the first group that has one is where restoring fails. -/
theorem Clashes.groups (hc : Clashes base member store r) (h : Declares base member store f r)
    (hs : base.stage = .declaring) (hn : r₀.Named)
    (hg : ∀ id g, r.groups.find? id = some g → g.identifier = id ∧ Text.isBlank id = false)
    (he : ∀ id p, r.entities.find? id = some p → r.groups.contains p.group = true)
    (hr : ∃ id, r.Shares r₀ id) :
    Collides (base.withRegistry k r₀) ((r.stored store).forM fun s => Edit.restoreGroup k s member) k
      (r.Shares r₀) := by
  let I (done : List (String × Group k)) : Model A :=
    base.withRegistry k (r₀.merge ((r.within (done.map Prod.fst)).copy f))
  let clashes (e : String × Group k) : Prop :=
    ∃ d ∈ (r.inGroup e.1).entries, r₀.entities.contains d.1 = true
  have hloop : Collides (I []) (r.groups.entries.forM fun e =>
      Edit.restoreGroup k (r.storedGroup store e.1 e.2.description) member) k (r.Shares r₀) := by
    refine Edit.collides_forM I (P := clashes) (fun done e rest hl hfree => ?_)
      (fun done e rest hl hclash => ?_) ?_
    · refine h.next hs hn hg hl fun d hd => ?_
      exact Bool.eq_false_iff.mpr fun htaken => hfree ⟨d, hd, htaken⟩
    · have hfind : r.groups.find? e.1 = some e.2 := Table.find?_eq_some_iff.mpr (by simp [hl])
      exact hc.group h hs hn (hg e.1 e.2 hfind).2 (Table.not_mem_of_entries hl) hclash
    · obtain ⟨id, hid, htaken⟩ := hr
      obtain ⟨p, hp⟩ := Table.contains_iff.mp hid
      obtain ⟨g, hgroup⟩ := Table.contains_iff.mp (he id p hp)
      have hmember : (id, p) ∈ (r.inGroup p.group).entries :=
        List.mem_filter.mpr ⟨Table.find?_eq_some_iff.mp hp, by simp⟩
      exact ⟨(p.group, g), Table.find?_eq_some_iff.mp hgroup, (id, p), hmember, htaken⟩
  have hnil : I [] = base.withRegistry k r₀ :=
    congrArg (base.withRegistry k) (r.merge_within_nil r₀ f)
  rw [hnil] at hloop
  rw [Registry.stored, List.forM_eq_forM, List.forM_map]
  exact hloop

theorem Clashes.registry {name : E → String} {name' : k.Entity α → String}
    (hc : Clashes base member store r) (h : Declares base member store f r) (hs : base.stage = .declaring)
    (hr : r.Regular name) (hn : (base.registry k).Regular name')
    (hshares : ∃ id, r.Shares (base.registry k) id) :
    Collides base ((r.stored store).forM fun s => Edit.restoreGroup k s member) k
      (r.Shares (base.registry k)) := by
  have hall := hc.groups h hs hn.named hr.groups (fun id p hp => (hr.entities id p hp).1) hshares
  have hself : base.withRegistry k (base.registry k) = base := by cases k <;> rfl
  rwa [hself] at hall

end Groups

section Members

variable {base : Model A}

theorem clashes_constant {r : Registry .constant (Constant α)} (hs : base.stage = .declaring)
    (hr : r.Regular (·.identifier)) :
    Clashes base Edit.restoreConstant Constant.store r := by
  intro g id p reg hp hg hc
  obtain ⟨-, rfl, hb⟩ := hr.entities id p hp
  have hopen : (base.withRegistry .constant reg).stage.admits .constant = true := by
    rw [Model.stage_withRegistry, hs]
    rfl
  have htaken : Collides (base.withRegistry .constant reg)
      (Edit.createConstant p.entity.identifier p.entity.value g) .constant (· = p.entity.identifier) :=
    Edit.collides_declare (Model.createConstant_taken hopen hb hg hc) rfl
  exact htaken.bind _

theorem clashes_variable [Unbounded α] {r : Registry .var (Variable α)} (hs : base.stage = .declaring)
    (hr : r.Regular (·.identifier)) :
    Clashes base Edit.restoreVariable Variable.store r := by
  intro g id p reg hp hg hc
  obtain ⟨-, rfl, -⟩ := hr.entities id p hp
  have hopen : (base.withRegistry .var reg).stage.admits .var = true := by
    rw [Model.stage_withRegistry, hs]
    rfl
  have htaken : Collides (base.withRegistry .var reg)
      (Edit.createVariable p.entity.identifier p.entity.varType
        (p.entity.store.lower.getD Unbounded.negativeInfinity)
        (p.entity.store.upper.getD Unbounded.infinity) g) .var (· = p.entity.identifier) :=
    Edit.collides_declare (Model.createVariable_taken hopen hg hc) rfl
  exact (htaken.bind _).bind _

theorem clashes_constraint [Scalar α] {r : Registry .constraint (Constraint α)}
    (hs : base.stage = .declaring) (hr : r.Regular (·.identifier))
    (hvars : ∀ id p, r.entities.find? id = some p →
      ∀ n ∈ p.entity.left.names ++ p.entity.right.names,
      ∃ q, base.vars.entities.find? n = some q ∧ q.entity.identifier = n ∧
        q.entity.owner = base.token) :
    Clashes base Edit.restoreConstraint Constraint.store r := by
  intro g id p reg hp hg hc
  obtain ⟨-, rfl, -⟩ := hr.entities id p hp
  have hv := hvars p.entity.identifier p hp
  have hopen : (base.withRegistry .constraint reg).stage.admits .constraint = true := by
    rw [Model.stage_withRegistry, hs]
    rfl
  let m := base.withRegistry .constraint reg
  obtain ⟨hleft, hleftOwned⟩ := Model.restoreExpression_owned (m := m) (e := p.entity.left) fun n hn =>
    hv n (List.mem_append_left _ hn)
  obtain ⟨hright, hrightOwned⟩ := Model.restoreExpression_owned (m := m) (e := p.entity.right) fun n hn =>
    hv n (List.mem_append_right _ hn)
  have htaken : Collides m
      (Edit.addConstraint p.entity.identifier (p.entity.left.collected base.token) p.entity.comparison
        (p.entity.right.collected base.token) g) .constraint (· = p.entity.identifier) :=
    Edit.collides_declare (Model.addConstraint_taken hopen hleftOwned hrightOwned hg hc) rfl
  exact (Edit.leads_look hleft).bind_collides ((Edit.leads_look hright).bind_collides (htaken.bind _))

end Members

section Whole

variable [Unbounded α] {m : Model A} {n : Model A'}

/-- Where the models share a name, restoring one on the other fails, and for nothing but such a name. -/
theorem collides_restore (hn : n.Regular) (hs : n.stage = .declaring) (hm : m.Regular)
    (hstore : ∀ id p, m.vars.entities.find? id = some p → p.entity.Storable)
    (hshares : ∃ k id, (m.registry k).Shares (n.registry k) id) :
    ∃ k, Collides n (Edit.restore m.document) k ((m.registry k).Shares (n.registry k)) := by
  let n₁ := n.withRegistry .constant (n.constants.merge (m.constants.copy fun c => c))
  have hs₁ : n₁.stage = .declaring := hs
  have hfree {k : Kind} (h : ¬∃ id, (m.registry k).Shares (n.registry k) id) (id : String)
      (hid : (m.registry k).entities.contains id = true) : (n.registry k).entities.contains id = false :=
    Bool.eq_false_iff.mpr fun htaken => h ⟨id, hid, htaken⟩
  have hconstant : Declares n Edit.restoreConstant Constant.store (fun c => c) m.constants :=
    declares_constant hs hm.constants
  by_cases hc : ∃ id, (m.registry .constant).Shares (n.registry .constant) id
  · exact ⟨.constant, ((clashes_constant hs hm.constants).registry hconstant hs hm.constants hn.constants
      hc).bind _⟩
  have hconstants : Leads n _ () n₁ :=
    hconstant.registry hs hm.constants hn.constants (hfree hc)
  have hvariable : Declares n₁ Edit.restoreVariable Variable.store (Variable.moveTo n.token) m.vars :=
    declares_variable hs₁ hn.variableFactory hm.vars (fun id p hp => (hm.bounds id p hp).1) hstore
  by_cases hv : ∃ id, (m.registry .var).Shares (n.registry .var) id
  · exact ⟨.var, hconstants.bind_collides
      (((clashes_variable hs₁ hm.vars).registry hvariable hs₁ hm.vars hn.vars hv).bind _)⟩
  have hvariables : Leads n₁ _ () (n.stocked m) :=
    hvariable.registry hs₁ hm.vars hn.vars (hfree hv)
  have hlast : ∃ id, (m.registry .constraint).Shares (n.registry .constraint) id := by
    obtain ⟨k, hk⟩ := hshares
    cases k with
    | constant => exact absurd hk hc
    | var => exact absurd hk hv
    | constraint => exact hk
  have hclashes : Clashes (n.stocked m) Edit.restoreConstraint Constraint.store m.constraints :=
    clashes_constraint hs hm.constraints (stocked_names hm (hfree hv))
  exact ⟨.constraint, hconstants.bind_collides (hvariables.bind_collides
    ((hclashes.registry (declares_stocked hn hs hm (hfree hv)) hs hm.constraints hn.constraints hlast).bind
      _))⟩

end Whole

namespace Kind

/-- The name of an entity. -/
def entityName : (k : Kind) → k.Entity Float → String
  | .var => (·.identifier)
  | .constraint => (·.identifier)
  | .constant => (·.identifier)

/-- The name of an entity as it is stored. -/
def formName : (k : Kind) → k.Form → String
  | .var => (·.identifier)
  | .constraint => (·.identifier)
  | .constant => (·.identifier)

/-- An entity as it stands, with no like terms collected. -/
def written : (k : Kind) → k.Entity Float → k.Form
  | .var => Variable.store
  | .constraint => Constraint.written
  | .constant => Constant.store

/-- What comes back of an entity on the model with this token. -/
def moved (owner : Token) : (k : Kind) → k.Entity Float → k.Entity Float
  | .var => Variable.moveTo owner
  | .constraint => Constraint.collected owner
  | .constant => id

theorem formName_store (e : k.Entity Float) : k.formName (k.store e) = k.entityName e := by
  cases k <;> rfl

theorem written_moved (owner : Token) (e : k.Entity Float) : k.written (k.moved owner e) = k.store e := by
  cases k with
  | var => rfl
  | constraint => exact e.written_collected owner
  | constant => rfl

end Kind

namespace Document

/-- The groups of a kind. -/
def groups (d : Document Float) : (k : Kind) → List (Stored.Group k.Form)
  | .var => d.variableGroups
  | .constraint => d.constraintGroups
  | .constant => d.constantGroups

/-- The document has an entity of this name in this group. -/
def Lists (d : Document Float) (k : Kind) (group id : String) : Prop :=
  ∃ g ∈ d.groups k, g.identifier = group ∧ ∃ s ∈ g.members, k.formName s = id

/-- It has one in any group. -/
def Names (d : Document Float) (k : Kind) (id : String) : Prop := ∃ group, d.Lists k group id

end Document

section Registries

variable {r : Registry k E} {r₀ : Registry k F} {f : E → F} {group id : String}

namespace Registry

theorem find?_groups_merge : (r₀.merge (r.copy f)).groups.find? id =
    (r₀.groups.find? id).or ((r.groups.find? id).map fun g => { g with generator := none }) := by
  rw [merge, Table.find?_union, copy, Table.find?_map]

theorem find?_entities_merge : (r₀.merge (r.copy f)).entities.find? id =
    (r₀.entities.find? id).or ((r.entities.find? id).map fun p => ⟨p.group, f p.entity⟩) := by
  rw [merge, Table.find?_union, copy, Table.find?_map]

/-- A group has the members that it has in either registry, where no name is in both. -/
theorem mem_members_merge (h : ¬∃ id, r.Shares r₀ id) :
    id ∈ (r₀.merge (r.copy f)).members group ↔ id ∈ r₀.members group ∨ id ∈ r.members group := by
  rw [mem_members, mem_members, mem_members, find?_entities_merge]
  cases hr₀ : r₀.entities.find? id with
  | none => simp
  | some p =>
    have hr : r.entities.find? id = none :=
      Table.find?_eq_none_iff.mpr (Bool.eq_false_iff.mpr fun hid =>
        h ⟨id, hid, Table.contains_of_find? hr₀⟩)
    simp [hr]

theorem mem_stored {store : E → F} {s : Stored.Group F} :
    s ∈ r.stored store ↔
      ∃ id g, r.groups.find? id = some g ∧ s = r.storedGroup store id g.description := by
  simp only [stored, List.mem_map, Prod.exists, Table.find?_eq_some_iff, eq_comm (a := s)]

end Registry

end Registries

namespace Model

variable {A : Adapter Float η κ} {A' : Adapter Float η' κ'} {m : Model A} {n n' : Model A'}

/-- The later model has what the model had and what the document has. A group that the model had already
stays as it was, and so does all that is neither declared nor a figure of a solve. -/
structure Unites (n : Model A') (d : Document Float) (n' : Model A') : Prop where
  groups : ∀ k id, (n'.registry k).groups.contains id = true ↔
    (n.registry k).groups.contains id = true ∨ ∃ g ∈ d.groups k, g.identifier = id
  kept : ∀ k id g, (n.registry k).groups.find? id = some g → (n'.registry k).groups.find? id = some g
  added : ∀ k, ∀ g ∈ d.groups k, (n.registry k).groups.contains g.identifier = false →
    (n'.registry k).groups.find? g.identifier = some ⟨g.identifier, g.description, none⟩
  members : ∀ k group id, id ∈ (n'.registry k).members group ↔
    id ∈ (n.registry k).members group ∨ d.Lists k group id
  entities : ∀ k id p, (n.registry k).entities.find? id = some p →
    (n'.registry k).entities.find? id = some p
  restored : ∀ k, ∀ g ∈ d.groups k, ∀ s ∈ g.members, ∃ e,
    (n'.registry k).entities.find? (k.formName s) = some ⟨g.identifier, e⟩ ∧ k.written e = s
  objective : d.header.objective = none → n'.objective = n.objective
  replaced : ∀ e ∈ d.header.objective, ∃ o, n'.objective = some o ∧ o.expression.owner = n.token ∧
    o.expression.written = e ∧ d.header.direction = some o.direction
  solution : n'.solution = d.header.solution
  setting : { n' with
    vars := n.vars, constraints := n.constraints, constants := n.constants
    objective := n.objective, solution := n.solution } = n

theorem groups_document (m : Model A) (k : Kind) : m.document.groups k = m.storedGroups k := by
  cases k <;> rfl

theorem registry_takeOver (n : Model A') (m : Model A) (k : Kind) :
    (n.takeOver m).registry k = (n.registry k).merge ((m.registry k).copy (k.moved n.token)) := by
  cases k <;> rfl

theorem Regular.registry (h : m.Regular) (k : Kind) : (m.registry k).Regular k.entityName := by
  cases k with
  | var => exact h.vars
  | constraint => exact h.constraints
  | constant => exact h.constants

theorem exists_of_mem_groups {g : Stored.Group k.Form} (hm : m.Regular) (hg : g ∈ m.document.groups k) :
    ∃ group, (m.registry k).groups.find? g.identifier = some group ∧
      ({ group with generator := none } : Group k) = ⟨g.identifier, g.description, none⟩ := by
  rw [groups_document] at hg
  obtain ⟨id, group, hgroup, rfl⟩ := Registry.mem_stored.mp hg
  obtain rfl : group.identifier = id := (hm.registry k).named id group hgroup
  exact ⟨group, hgroup, rfl⟩

theorem contains_groups_document (hm : m.Regular) {id : String} :
    (∃ g ∈ m.document.groups k, g.identifier = id) ↔ (m.registry k).groups.contains id = true := by
  constructor
  · rintro ⟨g, hg, rfl⟩
    obtain ⟨group, hgroup, -⟩ := exists_of_mem_groups hm hg
    exact Table.contains_of_find? hgroup
  · intro hid
    obtain ⟨group, hgroup⟩ := Table.contains_iff.mp hid
    refine ⟨(m.registry k).storedGroup k.store id group.description, ?_, rfl⟩
    rw [groups_document]
    exact Registry.mem_stored.mpr ⟨id, group, hgroup, rfl⟩

/-- What is stored in a group are the entities that are registered there. -/
theorem exists_of_mem_members {g : Stored.Group k.Form} (hm : m.Regular) (hg : g ∈ m.document.groups k)
    {s : k.Form} (hs : s ∈ g.members) :
    ∃ e, (m.registry k).entities.find? (k.formName s) = some ⟨g.identifier, e⟩ ∧ s = k.store e := by
  rw [groups_document] at hg
  obtain ⟨id, group, hgroup, rfl⟩ := Registry.mem_stored.mp hg
  obtain ⟨e, he, rfl⟩ := List.mem_map.mp hs
  obtain ⟨he, hid⟩ := List.mem_filter.mp he
  have hfind : (m.registry k).entities.find? e.1 = some e.2 := Table.find?_eq_some_iff.mpr he
  have hname : k.formName (k.store e.2.entity) = e.1 :=
    (k.formName_store _).trans ((hm.registry k).entities e.1 e.2 hfind).2.1
  obtain rfl : e.2.group = id := by simpa using hid
  refine ⟨e.2.entity, ?_, rfl⟩
  rw [hname, hfind]
  rfl

theorem lists_document (hm : m.Regular) {group id : String} :
    m.document.Lists k group id ↔ id ∈ (m.registry k).members group := by
  rw [Registry.mem_members]
  constructor
  · rintro ⟨g, hg, rfl, s, hs, rfl⟩
    obtain ⟨e, he, -⟩ := exists_of_mem_members hm hg hs
    exact ⟨_, he, rfl⟩
  · rintro ⟨p, hp, rfl⟩
    obtain ⟨hgroup, hname, -⟩ := (hm.registry k).entities id p hp
    obtain ⟨g, hg⟩ := Table.contains_iff.mp hgroup
    refine ⟨(m.registry k).storedGroup k.store p.group g.description, ?_, rfl, k.store p.entity, ?_, ?_⟩
    · rw [groups_document]
      exact Registry.mem_stored.mpr ⟨p.group, g, hg, rfl⟩
    · exact List.mem_map.mpr ⟨(id, p), List.mem_filter.mpr ⟨Table.find?_eq_some_iff.mp hp, by simp⟩, rfl⟩
    · rw [k.formName_store, hname]

theorem names_document (hm : m.Regular) {id : String} :
    m.document.Names k id ↔ (m.registry k).entities.contains id = true := by
  simp only [Document.Names, lists_document hm, Registry.mem_members, Table.contains_iff]
  exact ⟨fun ⟨_, p, hp, _⟩ => ⟨p, hp⟩, fun ⟨p, hp⟩ => ⟨p.group, p, hp, rfl⟩⟩

/-- Taking over all of a model unites the two, where no name is in both. -/
theorem Regular.unites (hm : m.Regular)
    (hd : ∀ k, ¬∃ id, (m.registry k).Shares (n.registry k) id) :
    n.Unites m.document (n.takeOver m) where
  groups k id := by
    rw [registry_takeOver, contains_groups_document hm, ← Bool.or_eq_true]
    simp [Registry.merge, Registry.copy]
  kept k id g hg := by
    rw [registry_takeOver, Registry.find?_groups_merge, hg]
    rfl
  added k g hg hnone := by
    obtain ⟨group, hgroup, hsame⟩ := exists_of_mem_groups hm hg
    rw [registry_takeOver, Registry.find?_groups_merge, Table.find?_eq_none_iff.mpr hnone, hgroup, ← hsame]
    rfl
  members k group id := by
    rw [registry_takeOver, Registry.mem_members_merge (hd k), lists_document hm]
  entities k id p hp := by
    rw [registry_takeOver, Registry.find?_entities_merge, hp]
    rfl
  restored k g hg s hs := by
    obtain ⟨e, he, rfl⟩ := exists_of_mem_members hm hg hs
    refine ⟨k.moved n.token e, ?_, k.written_moved n.token e⟩
    have hfree : (n.registry k).entities.find? (k.formName (k.store e)) = none :=
      Table.find?_eq_none_iff.mpr (Bool.eq_false_iff.mpr fun htaken =>
        hd k ⟨_, Table.contains_of_find? he, htaken⟩)
    rw [registry_takeOver, Registry.find?_entities_merge, hfree, he]
    rfl
  objective hnone := by
    have hobjective : m.objective = none := Option.map_eq_none_iff.mp hnone
    change (m.objective.map _).or n.objective = n.objective
    rw [hobjective]
    rfl
  replaced e he := by
    obtain ⟨o, ho, rfl⟩ := Option.map_eq_some_iff.mp he
    refine ⟨⟨o.expression.collected n.token, o.direction⟩, ?_, rfl, o.expression.written_collected n.token, ?_⟩
    · change (m.objective.map _).or n.objective = _
      rw [ho]
      rfl
    · change m.objective.map _ = _
      rw [ho]
      rfl
  solution := rfl
  setting := rfl

theorem shares_reopened {id : String} :
    (m.reopened.registry k).Shares (n.registry k) id ↔ (m.registry k).Shares (n.registry k) id := by
  rw [Registry.Shares, contains_reopened, Registry.Shares]

/-- Where no name is in both models, restoring one on the other succeeds and unites them. -/
theorem Regular.restore_free (hm : m.Regular) (hn : n.Regular) (hs : n.stage = .declaring)
    (hd : ∀ k, ¬∃ id, (m.registry k).Shares (n.registry k) id) (journal : List (Event Float)) :
    ∃ n' journal', Edit.restore m.document (n, journal) = (.ok (), n', journal') ∧
      n.Unites m.document n' := by
  have hfree (k : Kind) (id : String) (hid : (m.registry k).entities.contains id = true) :
      (n.registry k).entities.contains id = false :=
    Bool.eq_false_iff.mpr fun htaken => hd k ⟨id, hid, htaken⟩
  obtain ⟨journal', hr⟩ := hm.leads_restore hn hs hfree journal
  have hunites : n.Unites m.reopened.document (n.takeOver m.reopened) :=
    hm.reopened.unites fun k ⟨id, h⟩ => hd k ⟨id, shares_reopened.mp h⟩
  exact ⟨_, journal', hr, m.document_reopened ▸ hunites⟩

/-- Where a name is in both, restoring fails, and it does so for such a name. -/
theorem Regular.restore_shared (hm : m.Regular) (hn : n.Regular) (hs : n.stage = .declaring)
    (hd : ∃ k id, (m.registry k).Shares (n.registry k) id) (journal : List (Event Float)) :
    ∃ k id, (m.registry k).Shares (n.registry k) id ∧ ∃ n' journal',
      Edit.restore m.document (n, journal) = (.error (.duplicateEntity k id), n', journal') := by
  obtain ⟨k, id, hid⟩ := hd
  obtain ⟨k, hcollides⟩ := collides_restore hn hs hm.reopened (fun _ _ hp => m.storable_reopened hp)
    ⟨k, id, shares_reopened.mpr hid⟩
  obtain ⟨id, n', journal', hid, hr⟩ := hcollides journal
  exact ⟨k, id, shares_reopened.mp hid, n', journal', m.document_reopened ▸ hr⟩

/-- Restoring a captured model on another one unites the two, unless a name is taken on both sides. Where one
is, restoring fails for such a name, and it fails for nothing else. -/
theorem Attained.restore_unites (hm : m.Attained) (hA : A.Usual) (hn : n.Attained) (hA' : A'.Usual)
    (hs : n.stage = .declaring) :
    ∃ d, m.capture = .ok d ∧ ∀ journal,
      ((Edit.restore d (n, journal)).1 = .ok () ↔
        ∀ k id, d.Names k id → (n.registry k).entities.contains id = false) ∧
      (∀ n' journal', Edit.restore d (n, journal) = (.ok (), n', journal') → n.Unites d n') ∧
      ∀ e n' journal', Edit.restore d (n, journal) = (.error e, n', journal') →
        ∃ k id, e = .duplicateEntity k id ∧ d.Names k id ∧ (n.registry k).entities.contains id = true := by
  have hregular : m.Regular := hm.regular hA
  have hn' : n.Regular := hn.regular hA'
  refine ⟨m.document, hm.kept.capture, fun journal => ?_⟩
  by_cases hd : ∃ k id, (m.registry k).Shares (n.registry k) id
  · obtain ⟨k, id, ⟨hid, htaken⟩, n', journal', hr⟩ := hregular.restore_shared hn' hs hd journal
    have hname : m.document.Names k id := (names_document hregular).mpr hid
    refine ⟨⟨fun h => ?_, fun hfree => ?_⟩, fun n'' journal'' h => ?_, fun e n'' journal'' h => ?_⟩
    · cases (congrArg Prod.fst hr).symm.trans h
    · cases htaken.symm.trans (hfree k id hname)
    · cases hr.symm.trans h
    · cases hr.symm.trans h
      exact ⟨k, id, rfl, hname, htaken⟩
  · obtain ⟨n', journal', hr, hunites⟩ :=
      hregular.restore_free hn' hs (fun k ⟨id, h⟩ => hd ⟨k, id, h⟩) journal
    refine ⟨⟨fun _ k id hid => ?_, fun _ => congrArg Prod.fst hr⟩, fun n'' journal'' h => ?_,
      fun e n'' journal'' h => ?_⟩
    · exact Bool.eq_false_iff.mpr fun htaken => hd ⟨k, id, (names_document hregular).mp hid, htaken⟩
    · cases hr.symm.trans h
      exact hunites
    · cases hr.symm.trans h

/-- A model with one variable, on a shelf of this description. -/
def shelved (description id : String) : Model (recorder Float) :=
  let m : Model (recorder Float) := .new ⟨0⟩ "depot" {}
  { m with vars := {
    groups := m.vars.groups.insert "shelf" ⟨"shelf", description, none⟩
    entities := m.vars.entities.insert id ⟨"shelf", id, .integer, 0, 3, ⟨0⟩, none⟩ } }

theorem attained_shelved (description : String) {id : String} (hb : Text.isBlank id = false) :
    (shelved description id).Attained := by
  let m : Model (recorder Float) := .new ⟨0⟩ "depot" {}
  let g : Group .var := ⟨"shelf", description, none⟩
  let m' : Model (recorder Float) := { m with vars := { m.vars with groups := m.vars.groups.insert "shelf" g } }
  have hgroup : m.createGroup .var "shelf" description none = .ok (g, m') :=
    createGroup_eq_ok.mpr ⟨rfl, by decide, rfl, rfl, rfl⟩
  have hle : Scalar.le (0 : Float) 3 = true := rfl
  have hvariable : m'.createVariable id .integer 0 3 g =
      .ok (⟨id, .integer, 0, 3, ⟨0⟩, none⟩, shelved description id) :=
    createVariable_eq_ok.mpr ⟨rfl, rfl, rfl, Variable.new_eq_ok.mpr ⟨hb, hle, rfl⟩, rfl⟩
  exact ((attained_new ..).tick (.change (.declared (.group hgroup)))).tick
    (.change (.declared (.var hvariable)))

/-- Boxes are added to the crates on a shelf that is there already. Once they are there, they cannot be
restored again. -/
theorem Attained.restore_unites_shelf :
    let m := shelved "what is kept" "boxes"
    let n := shelved "what is sold" "crates"
    ∃ d, m.capture = .ok d ∧
      (∃ n' journal, Edit.restore d (n, []) = (.ok (), n', journal) ∧
        "boxes" ∈ (n'.registry .var).members "shelf" ∧ "crates" ∈ (n'.registry .var).members "shelf" ∧
        (n'.registry .var).groups.find? "shelf" = some ⟨"shelf", "what is sold", none⟩) ∧
      ∃ m' journal, Edit.restore d (m, []) = (.error (.duplicateEntity .var "boxes"), m', journal) := by
  intro m n
  have hA : (recorder Float).Usual := usual_recorder
  have hm : m.Attained := attained_shelved _ (by decide)
  have hn : n.Attained := attained_shelved _ (by decide)
  have hregular : m.Regular := hm.regular hA
  have hboxes (k : Kind) (id : String) :
      (m.registry k).entities.contains id = true ↔ k = .var ∧ id = "boxes" := by
    cases k with
    | var => simp [m, registry, shelved, Model.new, Registry.new]
    | constraint | constant => simp [m, registry, shelved, Model.new, Registry.new]
  obtain ⟨d, hd, hrestore⟩ := hm.restore_unites hA hn hA rfl
  obtain ⟨d', hd', hagain⟩ := hm.restore_unites hA hm hA rfl
  obtain rfl : d = m.document := Except.ok.inj (hd.symm.trans hm.kept.capture)
  obtain rfl : d' = m.document := Except.ok.inj (hd'.symm.trans hm.kept.capture)
  refine ⟨m.document, hd, ?_, ?_⟩
  · obtain ⟨hok, hunites, -⟩ := hrestore []
    have hfree : ∀ k id, m.document.Names k id → (n.registry k).entities.contains id = false := by
      intro k id hid
      obtain ⟨rfl, rfl⟩ := (hboxes k id).mp ((names_document hregular).mp hid)
      rfl
    have hr := hok.mpr hfree
    generalize Edit.restore m.document (n, []) = x at hr hunites
    obtain ⟨r, n', journal⟩ := x
    obtain rfl : r = .ok () := hr
    have hu := hunites n' journal rfl
    refine ⟨n', journal, rfl, (hu.members .var "shelf" "boxes").mpr (.inr ?_),
      (hu.members .var "shelf" "crates").mpr (.inl ?_), hu.kept .var "shelf" _ rfl⟩
    · exact (lists_document hregular).mpr (Registry.mem_members.mpr ⟨_, rfl, rfl⟩)
    · exact Registry.mem_members.mpr ⟨_, rfl, rfl⟩
  · obtain ⟨hok, -, herror⟩ := hagain []
    have hboxes' := (hboxes .var "boxes").mpr ⟨rfl, rfl⟩
    generalize Edit.restore m.document (m, []) = x at hok herror
    obtain ⟨r, m', journal⟩ := x
    cases r with
    | ok u => cases (hok.mp rfl .var "boxes" ((names_document hregular).mpr hboxes')).symm.trans hboxes'
    | error e =>
      obtain ⟨k, id, rfl, -, htaken⟩ := herror e m' journal rfl
      obtain ⟨rfl, rfl⟩ := (hboxes k id).mp htaken
      exact ⟨m', journal, rfl⟩

end Model
end Milp
