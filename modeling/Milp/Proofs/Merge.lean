import Milp.Registry
import Milp.Proofs.Table

/-! What a registry takes over from another one, group by group. -/
namespace Milp.Registry

variable {k : Kind} {E F : Type}

/-- The groups without their generators, and each entity as `f` makes it. -/
def copy (f : E → F) (r : Registry k E) : Registry k F :=
  ⟨r.groups.map fun _ g => { g with generator := none }, r.entities.map fun _ p =>
    ⟨p.group, f p.entity⟩⟩

/-- Some of the groups, with what is in them. -/
def within (ids : List String) (r : Registry k E) : Registry k E :=
  ⟨r.groups.filter fun id _ => ids.contains id, r.entities.filter fun _ p => ids.contains p.group⟩

/-- Both registries together. A group that is in both is that of the first. -/
def merge (r r' : Registry k E) : Registry k E :=
  ⟨r.groups.union r'.groups, r.entities.union r'.entities⟩

/-- The entities of a group. -/
def inGroup (r : Registry k E) (group : String) : Table (Placed E) :=
  r.entities.filter fun _ p => p.group == group

variable {r : Registry k E} {r₀ : Registry k F} {f : E → F} {ids : List String} {id : String}

theorem mem_members {group : String} :
    id ∈ r.members group ↔ ∃ p, r.entities.find? id = some p ∧ p.group = group := by
  rw [members, Table.mem_keys, Table.contains_iff]
  simp only [Table.find?_filter, Option.filter_eq_some_iff, beq_iff_eq]

theorem merge_within_nil (r : Registry k E) (r₀ : Registry k F) (f : E → F) :
    r₀.merge ((r.within []).copy f) = r₀ := by
  have hg : r₀.groups.union ((r.within []).copy f).groups = r₀.groups := by
    apply Table.ext_find?
    intro k'
    simp [Table.find?_union, copy, within, Table.find?_map, Table.find?_filter]
  have he : r₀.entities.union ((r.within []).copy f).entities = r₀.entities := by
    apply Table.ext_find?
    intro k'
    simp [Table.find?_union, copy, within, Table.find?_map, Table.find?_filter]
  rw [merge, hg, he]

theorem within_keys (h : ∀ id p, r.entities.find? id = some p → r.groups.contains p.group = true) :
    r.within r.groups.keys = r := by
  have hg : r.groups.filter (fun id _ => r.groups.keys.contains id) = r.groups := by
    apply Table.ext_find?
    intro k'
    rw [Table.find?_filter]
    cases hf : r.groups.find? k' with
    | none => rfl
    | some g => simp [Table.mem_keys, Table.contains_of_find? hf, Option.filter]
  have he : r.entities.filter (fun _ p => r.groups.keys.contains p.group) = r.entities := by
    apply Table.ext_find?
    intro k'
    rw [Table.find?_filter]
    cases hf : r.entities.find? k' with
    | none => rfl
    | some p => simp [Table.mem_keys, h k' p hf, Option.filter]
  rw [within, hg, he]

/-- The next group is taken over, unless one of its name is there. -/
theorem groups_merge {g : Group k} (hg : r.groups.find? id = some g) (hid : g.identifier = id) :
    (r₀.merge ((r.within (ids ++ [id])).copy f)).groups =
      if r₀.groups.contains id then (r₀.merge ((r.within ids).copy f)).groups
      else (r₀.merge ((r.within ids).copy f)).groups.insert id ⟨id, g.description, none⟩ := by
  apply Table.ext_find?
  intro k'
  have hmerge (ids : List String) : (r₀.merge ((r.within ids).copy f)).groups.find? k' =
      (r₀.groups.find? k').or (((r.groups.find? k').filter fun _ => ids.contains k').map
        fun g => { g with generator := none }) := by
    rw [merge, Table.find?_union, copy, Table.find?_map, within, Table.find?_filter]
  by_cases hk : k' = id
  · subst hk
    have hall : (ids ++ [k']).contains k' = true := by simp
    rw [hmerge]
    split
    next hc =>
      obtain ⟨g', hg'⟩ := Table.contains_iff.mp hc
      rw [hmerge, hg']
      rfl
    next hc =>
      have hnone : r₀.groups.find? k' = none := by simpa [Table.find?_eq_none_iff] using hc
      rw [Table.find?_insert, if_pos rfl, hnone, hg]
      simp [Option.filter, ← hid]
  · have hc : (ids ++ [id]).contains k' = ids.contains k' := by simp [hk]
    rw [hmerge, hc]
    split
    · rw [hmerge]
    · rw [Table.find?_insert, if_neg hk, hmerge]

/-- And its entities, none of which are there. -/
theorem entities_merge (h : ∀ e ∈ (r.inGroup id).entries, r₀.entities.contains e.1 = false) :
    (r₀.merge ((r.within (ids ++ [id])).copy f)).entities =
      (r₀.merge ((r.within ids).copy f)).entities.insertAll
        ((r.inGroup id).entries.map fun e => (e.1, ⟨id, f e.2.entity⟩)) := by
  let added : Table (Placed F) := (r.inGroup id).map fun _ p => ⟨id, f p.entity⟩
  apply Table.ext_find?
  intro k'
  have hmerge (ids : List String) : (r₀.merge ((r.within ids).copy f)).entities.find? k' =
      (r₀.entities.find? k').or (((r.entities.find? k').filter fun p => ids.contains p.group).map
        fun p => ⟨p.group, f p.entity⟩) := by
    rw [merge, Table.find?_union, copy, Table.find?_map, within, Table.find?_filter]
  have hadded : added.find? k' =
      ((r.entities.find? k').filter fun p => p.group == id).map fun p => ⟨id, f p.entity⟩ := by
    rw [Table.find?_map, inGroup, Table.find?_filter]
  refine Eq.trans ?_ (Table.find?_insertAll _ added.ascending k').symm
  change _ = (added.find? k').or _
  rw [hmerge, hmerge, hadded]
  cases hk : r.entities.find? k' with
  | none => simp
  | some p =>
    by_cases hp : p.group = id
    · have hm : (k', p) ∈ (r.inGroup id).entries := by
        rw [← Table.find?_eq_some_iff, inGroup, Table.find?_filter, hk]
        simp [Option.filter, hp]
      have hnone : r₀.entities.find? k' = none := Table.find?_eq_none_iff.mpr (h _ hm)
      simp [Option.filter, hp, hnone]
    · simp [Option.filter, hp]

/-- A group that is still to come is found only where it was before. -/
theorem find?_merge_within (h : id ∉ ids) :
    (r₀.merge ((r.within ids).copy f)).groups.find? id = r₀.groups.find? id := by
  rw [merge, Table.find?_union, copy, Table.find?_map, within, Table.find?_filter]
  simp [h]

/-- And its entities are not there yet. -/
theorem contains_merge_within (h : id ∉ ids) {e : String × Placed E}
    (he : e ∈ (r.inGroup id).entries) (hr : r₀.entities.contains e.1 = false) :
    (r₀.merge ((r.within ids).copy f)).entities.contains e.1 = false := by
  obtain ⟨hm, hg⟩ := List.mem_filter.mp he
  have hf : r.entities.find? e.1 = some e.2 := Table.find?_eq_some_iff.mpr hm
  have hid : e.2.group = id := by simpa using hg
  simp [merge, copy, within, hr, hf, hid, h]

end Milp.Registry
