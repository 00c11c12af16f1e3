import Milp.Group
import Milp.Table

/-! The groups of one kind and the entities in them. -/
namespace Milp

/-- An entity with the group that it is in. -/
structure Placed (E : Type) where
  group : String
  entity : E

/-- Groups by identifier, and entities by identifier; an entity is in exactly one group. -/
structure Registry (k : Kind) (E : Type) where
  groups : Table (Group k)
  entities : Table (Placed E)

namespace Registry

variable {k : Kind} {E α : Type}

/-- Only the default group, with nothing in it. -/
def new (k : Kind) (E : Type) : Registry k E :=
  ⟨Table.empty.insert k.defaultGroup (Group.default k), .empty⟩

def addGroup (r : Registry k E) (g : Group k) : Except (ModelError α) (Registry k E) :=
  if r.groups.contains g.identifier then .error (.duplicateGroup k g.identifier)
  else .ok { r with groups := r.groups.insert g.identifier g }

def group (r : Registry k E) (id : String) : Except (ModelError α) (Group k) :=
  match r.groups.find? id with
  | some g => .ok g
  | none => .error (.unknownGroup k id)

/-- The identifiers of the entities in a group, ascending. -/
def members (r : Registry k E) (group : String) : List String :=
  (r.entities.filter fun _ p => p.group == group).keys

def ensureAbsent (r : Registry k E) (id : String) : Except (ModelError α) Unit :=
  if r.entities.contains id then .error (.duplicateEntity k id) else .ok ()

/-- Registers an entity in a group that is there, under an identifier that is not. -/
def insert (r : Registry k E) (group id : String) (entity : E) : Except (ModelError α) (Registry k E) := do
  discard (r.group group)
  r.ensureAbsent id
  return { r with entities := r.entities.insert id ⟨group, entity⟩ }

def entity (r : Registry k E) (id : String) : Except (ModelError α) E :=
  match r.entities.find? id with
  | some p => .ok p.entity
  | none => .error (.unknownEntity k id)

def contains (r : Registry k E) (id : String) : Bool := r.entities.contains id

/-- The entities in ascending order of their identifiers. -/
def values (r : Registry k E) : List E := r.entities.values.map (·.entity)

def modify (r : Registry k E) (id : String) (f : E → E) : Registry k E :=
  { r with entities := r.entities.modify id fun p => { p with entity := f p.entity } }

def mapEntities (r : Registry k E) (f : E → E) : Registry k E :=
  { r with entities := r.entities.map fun _ p => { p with entity := f p.entity } }

end Registry
end Milp
