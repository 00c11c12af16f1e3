import Milp.Adapter.Recorder
import Milp.Proofs.Captured
import Milp.Proofs.Ledger
import Milp.Proofs.Restored
import Milp.Proofs.Workspaces

/-! The ledgers of a model are coherent at any time, so that whatever is listed can be looked up and
captured. -/
namespace Milp

open Relation

variable {α η κ ω : Type} {A : Adapter α η κ} {k : Kind} {E F : Type}

namespace Registry

/-- One write to a registry. -/
inductive Written (α : Type) : Registry k E → Registry k E → Prop
  | addGroup {r r' : Registry k E} {g : Group k}
      (h : (r.addGroup g : Except (ModelError α) _) = .ok r') : Written α r r'
  | insert {r r' : Registry k E} {group id : String} {entity : E}
      (h : (r.insert group id entity : Except (ModelError α) _) = .ok r') : Written α r r'
  | update (r : Registry k E) (f : String → E → E) : Written α r
      { r with entities := r.entities.map fun id p => { p with entity := f id p.entity } }

variable {r r' : Registry k E}

theorem written_modify (r : Registry k E) (id : String) (f : E → E) : Written α r (r.modify id f) := by
  have hr : r.modify id f = { r with
      entities := r.entities.map fun id' p =>
        { p with entity := if id' = id then f p.entity else p.entity } } := by
    unfold modify Table.modify
    congr 2
    funext id' p
    split <;> rfl
  rw [hr]
  exact .update r fun id' e => if id' = id then f e else e

theorem Written.kept (h : Written α r r') (hk : r.ledger.Kept α) : r'.ledger.Kept α := by
  cases h with
  | addGroup h =>
    have hl := ledger_addGroup (α := α) hk.coherent
    exact hk.addGroup ((hl _).trans (congrArg (Except.map ledger) h))
  | insert h => exact hk.insert ((ledger_insert (α := α) r ..).trans (congrArg (Except.map ledger) h))
  | update f => exact ledger_update r f ▸ hk.update f

end Registry

namespace Model

open Registry (Written)

variable {m m' : Model A}

theorem registry_withRegistry_of_ne (m : Model A) {k k' : Kind} (h : k' ≠ k)
    (r : Registry k (k.Entity α)) : (m.withRegistry k r).registry k' = m.registry k' := by
  cases k <;> cases k' <;> first | rfl | exact absurd rfl h

/-- The registries of a model are written one write at a time. -/
def Writes (m m' : Model A) : Prop :=
  ∀ k, ReflTransGen (Written α) (m.registry k) (m'.registry k)

theorem Writes.refl (m : Model A) : m.Writes m := fun _ => .refl

theorem writes_of {k : Kind} {r : Registry k (k.Entity α)} (h : Written α (m.registry k) r) :
    m.Writes (m.withRegistry k r) := by
  intro k'
  by_cases hk : k' = k
  · subst hk
    rw [registry_withRegistry]
    exact .single h
  · rw [registry_withRegistry_of_ne m hk]

theorem writes_createVariable {id : String} {varType : VarType} {lower upper : α}
    {group : Group .var} {v : Variable α}
    (h : m.createVariable id varType lower upper group = .ok (v, m')) : m.Writes m' := by
  obtain ⟨-, hg, hid, -, rfl⟩ := createVariable_eq_ok.mp h
  exact writes_of (k := .var) (.insert (Registry.insert_eq_ok.mpr ⟨hg, hid, rfl⟩))

theorem Declared.writes (h : Declared m m') : m.Writes m' := by
  cases h with
  | group h =>
    obtain ⟨-, -, hid, rfl, rfl⟩ := createGroup_eq_ok.mp h
    exact writes_of (.addGroup (g := ⟨_, _, _⟩) (Registry.addGroup_eq_ok.mpr ⟨hid, rfl⟩))
  | var h => exact writes_createVariable h
  | constraint h =>
    obtain ⟨-, -, -, hg, hid, -, rfl⟩ := addConstraint_eq_ok.mp h
    exact writes_of (k := .constraint) (.insert (Registry.insert_eq_ok.mpr ⟨hg, hid, rfl⟩))
  | constant h =>
    obtain ⟨-, -, hg, hid, -, rfl⟩ := createConstant_eq_ok.mp h
    exact writes_of (k := .constant) (.insert (Registry.insert_eq_ok.mpr ⟨hg, hid, rfl⟩))
  | value h =>
    obtain ⟨-, rfl⟩ := setConstant_eq_ok.mp h
    exact writes_of (k := .constant) (Registry.written_modify ..)
  | objective h =>
    obtain ⟨-, -, rfl⟩ := setObjective_eq_ok.mp h
    exact Writes.refl m

theorem writes_giveResult (m : Model A) (id : String) (x : α) : m.Writes (m.giveResult id x) :=
  writes_of (k := .var) (Registry.written_modify ..)

theorem Change.writes (h : Change m m') : m.Writes m' := by
  cases h with
  | declared h => exact h.writes
  | restored h x => exact fun k => (writes_createVariable h k).trans (writes_giveResult _ _ x k)
  | solution s => exact Writes.refl m

theorem Tick.writes (h : Tick m m') : m.Writes m' := by
  cases h with
  | change h => exact h.writes
  | cleared => exact writes_of (k := .var) (.update m.vars fun _ v => { v with result := none })
  | result id x => exact writes_giveResult m id x
  | _ => exact Writes.refl m

/-- The ledgers of a model are as separate writes leave them. -/
def Kept (m : Model A) : Prop := ∀ k, (m.registry k).ledger.Kept α

theorem Kept.tick (h : m.Kept) (ht : Tick m m') : m'.Kept := by
  intro k
  have hall (r r' : Registry k (k.Entity α)) (hr : r.ledger.Kept α)
      (hw : ReflTransGen (Written α) r r') : r'.ledger.Kept α := by
    induction hw with
    | refl => exact hr
    | tail _ hw ih => exact hw.kept ih
  exact hall _ _ (h k) (ht.writes k)

theorem kept_new (token : Token) (id : String) (adapter : A.State) :
    (Model.new token id adapter : Model A).Kept := by
  intro k
  have hr : ((Model.new token id adapter : Model A).registry k) = .new k _ := by cases k <;> rfl
  rw [hr, Registry.ledger_new]
  exact .new

theorem Attained.kept (h : m.Attained) : m.Kept := h.invariant (fun _ _ ht hk => hk.tick ht) kept_new

/-- Members of a group that is there can be looked up. -/
theorem members_of_mem_groupIds (m : Model A) {group : String} (hg : group ∈ m.groupIds k) :
    ∃ ids, m.members k group = .ok ids ∧
      ((m.registry k).ledger.memberIds group : Except (ModelError α) _) = .ok ids ∧
      ∀ id ∈ ids, ∃ e, m.entity k id = .ok e := by
  obtain ⟨g, hg⟩ := Table.contains_iff.mp (Table.mem_keys.mp hg)
  have hok : m.members k group = .ok ((m.registry k).members group) := by
    have hgroup : m.group k group = .ok g := Registry.group_eq_ok.mpr hg
    rw [Model.members, hgroup]
    rfl
  refine ⟨_, hok, (Registry.ledger_memberIds ..).trans hok, fun id hid => ?_⟩
  obtain ⟨p, hp⟩ := Table.contains_iff.mp (Table.mem_keys.mp hid)
  rw [Table.find?_filter] at hp
  exact ⟨p.entity, Registry.entity_eq_ok.mpr ⟨p, (Option.filter_eq_some_iff.mp hp).1, rfl⟩⟩

end Model

namespace Registry

variable {r : Registry k E}

/-- Each entity is in one of the groups, and in one only. -/
theorem perm_inGroup (h : r.ledger.Coherent) :
    (r.groups.keys.flatMap fun group => (r.inGroup group).entries).Perm r.entities.entries := by
  refine (List.perm_ext_iff_of_nodup ?_ r.entities.nodup_entries).mpr fun e => ?_
  · refine List.nodup_flatMap.mpr ⟨fun group _ => (r.inGroup group).nodup_entries, ?_⟩
    refine r.groups.nodup_keys.imp fun {g g'} hne => ?_
    intro e he he'
    have hg : e.2.group = g := by simpa using (List.mem_filter.mp he).2
    have hg' : e.2.group = g' := by simpa using (List.mem_filter.mp he').2
    exact hne (hg.symm.trans hg')
  · rw [List.mem_flatMap]
    constructor
    · rintro ⟨group, -, he⟩
      exact List.mem_of_mem_filter he
    · intro he
      have hg := contains_group h (Table.find?_eq_some_iff.mpr he)
      exact ⟨e.2.group, Table.mem_keys.mpr hg, List.mem_filter.mpr ⟨he, by simp⟩⟩

theorem perm_stored (h : r.ledger.Coherent) (store : E → F) :
    ((r.stored store).flatMap (·.members)).Perm (r.values.map store) := by
  have hl : (r.stored store).flatMap (·.members) =
      (r.groups.keys.flatMap fun group => (r.inGroup group).entries).map
        fun e => store e.2.entity := by
    simp [stored, storedGroup, Table.keys, List.map_flatMap, List.flatMap_map]
  have hr : r.values.map store = r.entities.entries.map fun e => store e.2.entity := by
    simp [values, Table.values]
  rw [hl, hr]
  exact (perm_inGroup h).map _

end Registry

/-- The groups are those of these identifiers, with these entities in them, each in one group. -/
structure Stored.Lists (gs : List (Stored.Group F)) (ids : List String) (entities : List F) :
    Prop where
  groups : gs.map (·.identifier) = ids
  once : (gs.flatMap (·.members)).Perm entities

theorem Model.Kept.lists {m : Model A} (h : m.Kept) (k : Kind) (store : k.Entity α → F) :
    Stored.Lists ((m.registry k).stored store) (m.groupIds k) ((m.entities k).map store) where
  groups := by simp [Registry.stored, Registry.storedGroup, groupIds, Table.keys]
  once := Registry.perm_stored (h k).coherent store

/-- The ledgers of every model are coherent at any time, whatever was done and whatever failed, so
that members of a group can be looked up, and the whole model can be captured. -/
theorem Workspace.ledgers_coherent {A : Adapter Float η κ} (world : ω) (files : FileTree)
    (ds : List (Deed A ω)) {key : String} {b : Bench A ω}
    (hb : ((fresh world files).afterAll ds).benches.find? key = some b) :
    (∀ k, (b.model.registry k).ledger.Kept Float ∧ (b.model.registry k).ledger.Coherent ∧
      ∀ group ∈ b.model.groupIds k, ∃ ids, b.model.members k group = .ok ids ∧
        ((b.model.registry k).ledger.memberIds group : Except (ModelError Float) _) = .ok ids ∧
        ∀ id ∈ ids, ∃ e, b.model.entity k id = .ok e) ∧
    ∃ d, b.model.capture = .ok d ∧
      Stored.Lists d.variableGroups (b.model.groupIds .var)
        ((b.model.entities .var).map Variable.store) ∧
      Stored.Lists d.constraintGroups (b.model.groupIds .constraint)
        ((b.model.entities .constraint).map Constraint.store) ∧
      Stored.Lists d.constantGroups (b.model.groupIds .constant)
        ((b.model.entities .constant).map Constant.store) := by
  have hkept : b.model.Kept :=
    each_afterAll (fun _ _ ht h => h.tick ht) Model.kept_new world files ds key b hb
  have hnamed (k : Kind) : (b.model.registry k).Named := (hkept k).coherent.named
  refine ⟨fun k => ⟨hkept k, (hkept k).coherent, fun group hg =>
    b.model.members_of_mem_groupIds hg⟩, b.model.document, ?_, ?_, ?_, ?_⟩
  · exact Model.capture_eq (hnamed .var) (hnamed .constraint) (hnamed .constant)
  · exact hkept.lists .var _
  · exact hkept.lists .constraint _
  · exact hkept.lists .constant _

/-- Puts boxes into a new group, and then again under the same name, which is refused. -/
def Program.shelve : Program (recorder Float) Unit .group :=
  .act (.createGroup .var "stock" "what is kept" none) fun
    | .error e => .finish (.error e)
    | .ok g => .act (.createVariable "boxes" .integer 0 3 g) fun _ =>
      .act (.createVariable "boxes" .integer 0 5 g) fun _ => .finish (.ok ())

theorem Workspace.ledgers_coherent_shelved :
    let ds : List (Deed (recorder Float) Unit) :=
      [.create "depot" "depot" {}, .operate "depot" (.declare Program.shelve)]
    ∃ b, ((fresh () {}).afterAll ds).benches.find? "depot" = some b ∧
      b.model.members .var "stock" = .ok ["boxes"] ∧
      ∃ d, b.model.capture = .ok d ∧ Stored.Lists d.variableGroups (b.model.groupIds .var)
        ((b.model.entities .var).map Variable.store) := by
  intro ds
  have hshelved : (((fresh () {}).afterAll ds).benches.find? "depot").any (fun b =>
      (b.model.members .var "stock").toOption == some ["boxes"]) = true := by rfl
  obtain ⟨b, hb, hids⟩ := Option.any_eq_true _ _ |>.mp hshelved
  obtain ⟨hmembers, d, hd, hvars, -⟩ := ledgers_coherent () {} ds hb
  have hstock : b.model.members .var "stock" = .ok ["boxes"] := by
    cases hm : b.model.members .var "stock" with
    | error e => simp [hm, Except.toOption] at hids
    | ok ids => simpa [hm, Except.toOption] using hids
  exact ⟨b, hb, hstock, d, hd, hvars⟩

end Milp
