import Milp.Capture
import Milp.Proofs.Declaration
import Milp.Proofs.Merge

/-! The document of a model in closed form: its header, and its groups with their members. -/
namespace Milp

variable {α β γ ε η κ E F : Type} {A : Adapter α η κ} {k : Kind}

theorem mapM_map_ok {l : List β} {h : β → γ} {f : γ → Except ε F} {g : β → F}
    (hf : ∀ b ∈ l, f (h b) = .ok (g b)) :
    (l.map h).mapM f = .ok (l.map g) := by
  induction l with
  | nil => rfl
  | cons b rest ih =>
    rw [List.map_cons, List.mapM_cons, hf b (by simp), ih fun c hc => hf c (by simp [hc])]
    rfl

namespace Registry

/-- The stored form of a group with its members. -/
def storedGroup (store : E → F) (r : Registry k E) (id description : String) : Stored.Group F :=
  ⟨id, description, (r.inGroup id).entries.map fun e => store e.2.entity⟩

def stored (store : E → F) (r : Registry k E) : List (Stored.Group F) :=
  r.groups.entries.map fun e => r.storedGroup store e.1 e.2.description

/-- Every group goes by the name that it is registered under. -/
def Named (r : Registry k E) : Prop := ∀ id g, r.groups.find? id = some g → g.identifier = id

/-- A copy is stored as the original, when its entities are. -/
theorem stored_copy {G : Type} {store : E → G} {store' : F → G} {f : E → F} {r : Registry k E}
    (h : ∀ id p, r.entities.find? id = some p → store' (f p.entity) = store p.entity) :
    (r.copy f).stored store' = r.stored store := by
  simp only [stored, storedGroup, copy, Table.map, List.map_map]
  refine List.map_congr_left fun e _ => ?_
  simp only [Function.comp_apply, inGroup, Table.filter, List.filter_map, List.map_map,
    Stored.Group.mk.injEq, true_and]
  refine List.map_congr_left fun d hd => ?_
  exact h d.1 d.2 (Table.find?_eq_some_iff.mpr (List.mem_of_mem_filter hd))

end Registry

namespace Model

variable {m : Model A}

theorem storeGroup_eq {g : Group k} (hg : (m.registry k).groups.contains g.identifier = true)
    (store : k.Entity α → E) :
    m.storeGroup g store = .ok ((m.registry k).storedGroup store g.identifier g.description) := by
  obtain ⟨g', hg'⟩ := Table.contains_iff.mp hg
  have hids : m.members k g.identifier =
      .ok (((m.registry k).inGroup g.identifier).entries.map Prod.fst) := by
    have hgroup : m.group k g.identifier = .ok g' := Registry.group_eq_ok.mpr hg'
    rw [members, hgroup]
    rfl
  have hmembers : (((m.registry k).inGroup g.identifier).entries.map Prod.fst).mapM
      (fun id => do return store (← m.entity k id) : String → Except (ModelError α) E) =
      .ok (((m.registry k).inGroup g.identifier).entries.map fun e => store e.2.entity) := by
    refine mapM_map_ok fun e he => ?_
    have hf : (m.registry k).entities.find? e.1 = some e.2 :=
      Table.find?_eq_some_iff.mpr (List.mem_of_mem_filter he)
    have he' : m.entity k e.1 = .ok e.2.entity := Registry.entity_eq_ok.mpr ⟨e.2, hf, rfl⟩
    rw [he']
    rfl
  rw [storeGroup, bind_eq_ok]
  exact ⟨_, hids, bind_eq_ok.mpr ⟨_, hmembers, rfl⟩⟩

theorem storeGroups_eq (hn : (m.registry k).Named) (store : k.Entity α → E) :
    ((m.groupIds k).mapM fun id => do m.storeGroup (← m.group k id) store) =
      .ok ((m.registry k).stored store) := by
  refine mapM_map_ok fun e he => ?_
  have hf : (m.registry k).groups.find? e.1 = some e.2 := Table.find?_eq_some_iff.mpr he
  have hid := hn e.1 e.2 hf
  have hg : m.group k e.1 = .ok e.2 := Registry.group_eq_ok.mpr hf
  have hs := storeGroup_eq (g := e.2) (hid ▸ Table.contains_of_find? hf) store
  rw [hid] at hs
  rw [hg]
  exact hs

variable [Unbounded α]

/-- What a model is captured as. -/
def document (m : Model A) : Document α :=
  ⟨m.storeHeader, m.vars.stored Variable.store, m.constraints.stored Constraint.store,
    m.constants.stored Constant.store⟩

/-- Capture never fails. -/
theorem capture_eq (hv : m.vars.Named) (hc : m.constraints.Named) (hk : m.constants.Named) :
    m.capture = .ok m.document := by
  have hvars := storeGroups_eq (k := .var) hv Variable.store
  have hconstraints := storeGroups_eq (k := .constraint) hc Constraint.store
  have hconstants := storeGroups_eq (k := .constant) hk Constant.store
  unfold capture
  simp only [storeVariables, storeConstraints, storeConstants]
  rw [hvars, hconstraints, hconstants]
  rfl

end Model
end Milp
