import Milp.Stored
import Milp.Proofs.Declaration
import Milp.Proofs.Merge

/-! A registry as three tables that are written separately: groups, the members of each group, and
entities. What the writing operations keep of them, and why a registry is such a ledger. -/
namespace Milp

/-- Groups, the identifiers in each group, and entities, in a table each. -/
structure Ledger (k : Kind) (E : Type) where
  groups : Table (Group k)
  members : Table Stored.Names
  entities : Table E

namespace Ledger

variable {k : Kind} {E α : Type}

def new (k : Kind) (E : Type) : Ledger k E where
  groups := Table.empty.insert k.defaultGroup (Group.default k)
  members := Table.empty.insert k.defaultGroup .empty
  entities := .empty

/-- A new group has no members. -/
def addGroup (l : Ledger k E) (g : Group k) : Except (ModelError α) (Ledger k E) :=
  if l.groups.contains g.identifier then .error (.duplicateGroup k g.identifier)
  else .ok { l with
    groups := l.groups.insert g.identifier g
    members := l.members.insert g.identifier .empty }

def group (l : Ledger k E) (id : String) : Except (ModelError α) (Group k) :=
  match l.groups.find? id with
  | some g => .ok g
  | none => .error (.unknownGroup k id)

/-- Writes an entity down twice: among the members of its group and among the entities. -/
def insert (l : Ledger k E) (group id : String) (entity : E) :
    Except (ModelError α) (Ledger k E) := do
  discard (l.group group)
  if l.entities.contains id then throw (.duplicateEntity k id)
  let ids := (l.members.find? group).getD .empty
  return { l with
    members := l.members.insert group (ids.insert id ())
    entities := l.entities.insert id entity }

/-- Changes entities where they stand. -/
def update (l : Ledger k E) (f : String → E → E) : Ledger k E :=
  { l with entities := l.entities.map f }

/-- The identifiers in a group, ascending. -/
def memberIds (l : Ledger k E) (group : String) : Except (ModelError α) (List String) := do
  discard (l.group group)
  return ((l.members.find? group).map Table.keys).getD []

/-- The group has a member of this identifier. -/
def Holds (l : Ledger k E) (group id : String) : Prop :=
  ∃ ids, l.members.find? group = some ids ∧ ids.contains id = true

/-- The three tables agree. -/
structure Coherent (l : Ledger k E) : Prop where
  keys : l.members.keys = l.groups.keys
  default : l.groups.contains k.defaultGroup = true
  named : ∀ id g, l.groups.find? id = some g → g.identifier = id
  unique : ∀ id, l.entities.contains id = true → ∃! group, l.Holds group id
  registered : ∀ group id, l.Holds group id → l.entities.contains id = true

/-- What three separate tables come to, written by these operations only. -/
inductive Kept (α : Type) : Ledger k E → Prop
  | new : Kept α (.new k E)
  | addGroup {l l' : Ledger k E} (h : Kept α l) {g : Group k}
      (hg : (l.addGroup g : Except (ModelError α) _) = .ok l') : Kept α l'
  | insert {l l' : Ledger k E} (h : Kept α l) {group id : String} {entity : E}
      (hi : (l.insert group id entity : Except (ModelError α) _) = .ok l') : Kept α l'
  | update {l : Ledger k E} (h : Kept α l) (f : String → E → E) : Kept α (l.update f)

variable {l l' : Ledger k E}

theorem addGroup_eq_ok {g : Group k} :
    (l.addGroup g : Except (ModelError α) _) = .ok l' ↔ l.groups.contains g.identifier = false ∧
      l' = { l with
        groups := l.groups.insert g.identifier g
        members := l.members.insert g.identifier .empty } := by
  unfold addGroup
  split
  next h => simp [h]
  next h => simpa [h] using eq_comm

theorem group_eq_ok {id : String} {g : Group k} :
    (l.group id : Except (ModelError α) _) = .ok g ↔ l.groups.find? id = some g := by
  unfold group
  split <;> simp_all

theorem insert_eq_ok {group id : String} {entity : E} :
    (l.insert group id entity : Except (ModelError α) _) = .ok l' ↔
      l.groups.contains group = true ∧ l.entities.contains id = false ∧
        l' = { l with
          members := l.members.insert group (((l.members.find? group).getD .empty).insert id ())
          entities := l.entities.insert id entity } := by
  unfold insert
  simp only [bind_eq_ok, discard_eq_ok, group_eq_ok, Table.contains_iff (t := l.groups)]
  cases hc : l.entities.contains id with
  | true => simp [throw, throwThe, MonadExceptOf.throw]
  | false => simp [pure, Except.pure, eq_comm]

theorem holds_insert_members {ids : Stored.Names} {group group' id : String} :
    Holds { l with members := l.members.insert group ids } group' id ↔
      if group' = group then ids.contains id = true else l.Holds group' id := by
  unfold Holds
  rw [Table.find?_insert]
  split <;> simp

theorem coherent_new : (Ledger.new k E).Coherent where
  keys := rfl
  default := by simp [new]
  named id g h := by
    rw [new, Table.find?_insert] at h
    split at h
    next hid =>
      cases h
      exact hid.symm
    next => cases h
  unique id h := by simp [new] at h
  registered group id h := by
    obtain ⟨ids, hids, hid⟩ := h
    rw [new, Table.find?_insert] at hids
    split at hids
    · cases hids
      simp at hid
    · cases hids

namespace Coherent

variable (h : l.Coherent)
include h

theorem contains_members (group : String) :
    l.members.contains group = l.groups.contains group := Table.keys_eq_iff.mp h.keys group

/-- A group that is not there has no members. -/
theorem not_holds {group id : String} (hg : l.groups.contains group = false) :
    ¬l.Holds group id := by
  rintro ⟨ids, hids, -⟩
  have hm : l.members.contains group = true := Table.contains_of_find? hids
  rw [h.contains_members, hg] at hm
  cases hm

/-- Both tables get the new group, and nothing is in it. -/
theorem addGroup {g : Group k} (hg : (l.addGroup g : Except (ModelError α) _) = .ok l') :
    l'.Coherent := by
  obtain ⟨hn, rfl⟩ := addGroup_eq_ok.mp hg
  have hholds (group id : String) :
      Holds { l with
        groups := l.groups.insert g.identifier g
        members := l.members.insert g.identifier .empty } group id ↔ l.Holds group id := by
    refine holds_insert_members.trans ?_
    split
    next heq => simp [heq, h.not_holds hn]
    next => rfl
  refine ⟨?_, ?_, fun id g' hg' => ?_, fun id hid => ?_, fun group id hid => ?_⟩
  · exact Table.keys_eq_iff.mpr fun id => by simp [h.contains_members id]
  · simp [h.default]
  · rw [Table.find?_insert] at hg'
    split at hg'
    next heq =>
      cases hg'
      exact heq.symm
    next => exact h.named id g' hg'
  · simpa only [hholds] using h.unique id hid
  · exact h.registered group id ((hholds group id).mp hid)

/-- The new entity is in its group, and in no other: an entity of a group is registered, and this
one was not. -/
theorem insert {group id : String} {entity : E}
    (hi : (l.insert group id entity : Except (ModelError α) _) = .ok l') : l'.Coherent := by
  obtain ⟨hg, ha, rfl⟩ := insert_eq_ok.mp hi
  obtain ⟨ids, hids⟩ : ∃ ids, l.members.find? group = some ids :=
    Table.contains_iff.mp ((h.contains_members group).trans hg)
  have hholds (group' id' : String) :
      Holds { l with
        members := l.members.insert group (((l.members.find? group).getD .empty).insert id ())
        entities := l.entities.insert id entity } group' id' ↔
          (group' = group ∧ id' = id) ∨ l.Holds group' id' := by
    refine holds_insert_members.trans ?_
    split
    next heq =>
      subst heq
      simp [Holds, hids]
    next hne => simp [hne]
  have hnew (group' : String) : ¬l.Holds group' id := fun hm => by
    simp [h.registered group' id hm] at ha
  refine ⟨?_, h.default, h.named, fun id' hid' => ?_, fun group' id' hid' => ?_⟩
  · refine Table.keys_eq_iff.mpr fun id' => ?_
    by_cases heq : id' = group
    · simp [heq, hg]
    · simp [heq, h.contains_members id']
  · simp only [hholds]
    by_cases heq : id' = id
    · subst heq
      exact ⟨group, .inl ⟨rfl, rfl⟩, fun group' hm => (hm.resolve_right (hnew group')).1⟩
    · have hid : l.entities.contains id' = true := by simpa [heq] using hid'
      simpa [heq] using h.unique id' hid
  · rcases (hholds group' id').mp hid' with ⟨-, rfl⟩ | hm
    · simp
    · simp [h.registered group' id' hm]

theorem update (f : String → E → E) : (l.update f).Coherent where
  keys := h.keys
  default := h.default
  named := h.named
  unique id hid := h.unique id (by simpa [Ledger.update] using hid)
  registered group id hid := by simpa [Ledger.update] using h.registered group id hid

end Coherent

theorem Kept.coherent {α : Type} (h : l.Kept α) : l.Coherent := by
  induction h with
  | new => exact coherent_new
  | addGroup _ hg ih => exact ih.addGroup hg
  | insert _ hi ih => exact ih.insert hi
  | update _ f ih => exact ih.update f

end Ledger

namespace Registry

variable {k : Kind} {E α : Type} {r r' : Registry k E}

/-- The registry written out in three tables. -/
def ledger (r : Registry k E) : Ledger k E where
  groups := r.groups
  members := r.groups.map fun id _ => (r.inGroup id).map fun _ _ => ()
  entities := r.entities.map fun _ p => p.entity

theorem find?_members (r : Registry k E) (group : String) :
    r.ledger.members.find? group =
      (r.groups.find? group).map fun _ => (r.inGroup group).map fun _ _ => () :=
  Table.find?_map ..

theorem holds_ledger {group id : String} :
    r.ledger.Holds group id ↔
      r.groups.contains group = true ∧ ∃ p, r.entities.find? id = some p ∧ p.group = group := by
  unfold Ledger.Holds
  rw [find?_members, Table.contains_iff]
  simp [inGroup, Option.any_eq_true]

/-- In a coherent ledger an entity is in a group that is there, -/
theorem contains_group (h : r.ledger.Coherent) {id : String} {p : Placed E}
    (hp : r.entities.find? id = some p) : r.groups.contains p.group = true := by
  have hid : r.ledger.entities.contains id = true := by
    simpa [ledger] using Table.contains_of_find? hp
  obtain ⟨group, hholds, -⟩ := h.unique id hid
  obtain ⟨hg, q, hq, rfl⟩ := holds_ledger.mp hholds
  obtain rfl : q = p := Option.some.inj (hq.symm.trans hp)
  exact hg

/-- and nothing is in one that is not. -/
theorem inGroup_eq_empty (h : r.ledger.Coherent) {group : String}
    (hg : r.groups.contains group = false) : r.inGroup group = .empty := by
  apply Table.ext_find?
  intro id
  rw [inGroup, Table.find?_filter]
  cases hp : r.entities.find? id with
  | none => rfl
  | some p =>
    have hne : p.group ≠ group := by
      rintro rfl
      rw [contains_group h hp] at hg
      cases hg
    simp [Option.filter, hne]

theorem ledger_new (k : Kind) (E : Type) : (Registry.new k E).ledger = .new k E := by
  have hm : (Registry.new k E).ledger.members = (Ledger.new k E).members := by
    apply Table.ext_find?
    intro id
    rw [find?_members, Registry.new, Ledger.new, Table.find?_insert, Table.find?_insert]
    split <;> rfl
  rw [Ledger.mk.injEq]
  exact ⟨rfl, hm, rfl⟩

/-- Adding a group is the same in both forms, -/
theorem ledger_addGroup (h : r.ledger.Coherent) (g : Group k) :
    r.ledger.addGroup g = (r.addGroup g : Except (ModelError α) _).map ledger := by
  unfold Ledger.addGroup Registry.addGroup
  by_cases hg : r.groups.contains g.identifier = true
  · simp [hg, ledger, Except.map]
  · have hm : ledger { r with groups := r.groups.insert g.identifier g } =
        { r.ledger with
          groups := r.groups.insert g.identifier g
          members := r.ledger.members.insert g.identifier .empty } := by
      rw [Ledger.mk.injEq]
      refine ⟨rfl, Table.ext_find? fun id => ?_, rfl⟩
      rw [find?_members, Table.find?_insert, Table.find?_insert]
      split
      next heq =>
        have hempty : r.inGroup id = .empty :=
          inGroup_eq_empty h (by simpa [heq] using hg)
        exact congrArg (fun t => some (t.map fun _ _ => ())) hempty
      next => exact (find?_members r id).symm
    have hg' : r.ledger.groups.contains g.identifier = false := by simpa [ledger] using hg
    simp only [hg, hg', Except.map]
    exact congrArg Except.ok hm.symm

/-- A new entity is in its own group only. -/
theorem inGroup_insert {group id : String} {entity : E} (hid : r.entities.contains id = false)
    (group' : String) :
    inGroup { r with entities := r.entities.insert id ⟨group, entity⟩ } group' =
      if group' = group then (r.inGroup group).insert id ⟨group, entity⟩ else r.inGroup group' := by
  have hnone : r.entities.find? id = none := Table.find?_eq_none_iff.mpr hid
  apply Table.ext_find?
  intro id'
  by_cases hg : group' = group
  · subst hg
    rw [if_pos rfl, inGroup, Table.find?_filter, Table.find?_insert, Table.find?_insert, inGroup,
      Table.find?_filter]
    split <;> simp [Option.filter]
  · rw [if_neg hg, inGroup, inGroup, Table.find?_filter, Table.find?_filter, Table.find?_insert]
    split
    next heq => simp [heq, hnone, Option.filter, Ne.symm hg]
    next => rfl

/-- and so is inserting an entity. -/
theorem ledger_insert (r : Registry k E) (group id : String) (entity : E) :
    r.ledger.insert group id entity =
      (r.insert group id entity : Except (ModelError α) _).map ledger := by
  have hgroup : (r.ledger.group group : Except (ModelError α) _) = r.group group := rfl
  unfold Ledger.insert Registry.insert Registry.ensureAbsent
  rw [hgroup]
  cases hg : (r.group group : Except (ModelError α) _) with
  | error e => rfl
  | ok g =>
    have hid : r.ledger.entities.contains id = r.entities.contains id := Table.contains_map ..
    rw [hid]
    cases hc : r.entities.contains id with
    | true => rfl
    | false =>
      have hm : ledger { r with entities := r.entities.insert id ⟨group, entity⟩ } =
          { r.ledger with
            members := r.ledger.members.insert group
              (((r.ledger.members.find? group).getD .empty).insert id ())
            entities := r.ledger.entities.insert id entity } := by
        rw [Ledger.mk.injEq]
        refine ⟨rfl, Table.ext_find? fun group' => ?_, ?_⟩
        · rw [find?_members, Table.find?_insert, find?_members, find?_members, inGroup_insert hc,
            Registry.group_eq_ok.mp hg]
          split
          next heq => simp [heq, Registry.group_eq_ok.mp hg, Table.map_insert]
          next => rfl
        · exact Table.map_insert (fun _ p => p.entity) r.entities id ⟨group, entity⟩
      exact congrArg Except.ok hm.symm

/-- A change to the entities is one in both forms. -/
theorem ledger_update (r : Registry k E) (f : String → E → E) :
    ledger { r with entities := r.entities.map fun id p => { p with entity := f id p.entity } } =
      r.ledger.update f := by
  have hg (group : String) :
      inGroup { r with entities := r.entities.map fun id p => { p with entity := f id p.entity } }
        group = (r.inGroup group).map fun id p => { p with entity := f id p.entity } := by
    apply Table.ext_find?
    intro id
    rw [inGroup, Table.find?_filter, Table.find?_map, Table.find?_map, inGroup, Table.find?_filter]
    cases r.entities.find? id with
    | none => rfl
    | some p => by_cases hp : p.group = group <;> simp [Option.filter, hp]
  rw [Ledger.update, ledger, Ledger.mk.injEq]
  refine ⟨rfl, Table.ext_find? fun group => ?_, ?_⟩
  · rw [Table.find?_map, find?_members, hg, Table.map_map]
  · simp only [ledger, Table.map_map]

theorem ledger_memberIds (r : Registry k E) (group : String) :
    (r.ledger.memberIds group : Except (ModelError α) _) =
      (do discard (r.group group); return r.members group) := by
  have hgroup : (r.ledger.group group : Except (ModelError α) _) = r.group group := rfl
  unfold Ledger.memberIds
  rw [hgroup]
  cases hg : (r.group group : Except (ModelError α) _) with
  | error e => rfl
  | ok g =>
    rw [find?_members, Registry.group_eq_ok.mp hg, Option.map_some, Option.map_some, Option.getD_some,
      Table.keys_map]
    rfl

end Registry

end Milp
