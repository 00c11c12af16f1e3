/-! Finite maps from identifiers, kept in ascending order of their keys. -/
namespace Milp

/-- A list of entries with strictly ascending keys. -/
structure Table (β : Type) where
  entries : List (String × β)
  ascending : entries.Pairwise fun a b => a.1 < b.1

namespace Table

variable {β γ : Type}

theorem ext {s t : Table β} (h : s.entries = t.entries) : s = t := by
  cases s; cases t; cases h; rfl

instance [BEq β] : BEq (Table β) where
  beq s t := s.entries == t.entries

def empty : Table β := ⟨[], .nil⟩

instance : Inhabited (Table β) := ⟨empty⟩

/-- Puts an entry in its place; an entry of the same key gives way. -/
def place (k : String) (v : β) : List (String × β) → List (String × β)
  | [] => [(k, v)]
  | e :: rest =>
    if k < e.1 then (k, v) :: e :: rest
    else if k = e.1 then (k, v) :: rest
    else e :: place k v rest

theorem mem_place {k : String} {v : β} {a : String × β} {es : List (String × β)}
    (h : a ∈ place k v es) : a = (k, v) ∨ a ∈ es := by
  induction es with
  | nil => simpa [place] using h
  | cons e rest ih =>
    simp only [place] at h
    split at h
    · simpa using h
    · split at h
      · simp only [List.mem_cons] at h ⊢
        rcases h with h | h <;> simp [h]
      · simp only [List.mem_cons] at h ⊢
        rcases h with h | h
        · simp [h]
        · rcases ih h with h | h <;> simp [h]

theorem pairwise_place {k : String} {v : β} {es : List (String × β)}
    (h : es.Pairwise fun a b => a.1 < b.1) : (place k v es).Pairwise fun a b => a.1 < b.1 := by
  induction es with
  | nil => simp [place]
  | cons e rest ih =>
    have hr := (List.pairwise_cons.mp h).2
    have he := (List.pairwise_cons.mp h).1
    simp only [place]
    split
    case isTrue hk =>
      refine List.pairwise_cons.mpr ⟨fun a ha => ?_, h⟩
      rcases List.mem_cons.mp ha with rfl | ha
      · exact hk
      · exact String.lt_trans hk (he a ha)
    case isFalse hk =>
      split
      case isTrue hk' =>
        exact List.pairwise_cons.mpr ⟨fun a ha => hk' ▸ he a ha, hr⟩
      case isFalse hk' =>
        refine List.pairwise_cons.mpr ⟨fun a ha => ?_, ih hr⟩
        rcases mem_place ha with rfl | ha
        · exact Std.lt_of_le_of_ne (Std.not_lt.mp hk) (Ne.symm hk')
        · exact he a ha

def insert (t : Table β) (k : String) (v : β) : Table β :=
  ⟨place k v t.entries, pairwise_place t.ascending⟩

def find? (t : Table β) (k : String) : Option β := t.entries.lookup k

def contains (t : Table β) (k : String) : Bool := (t.find? k).isSome

def keys (t : Table β) : List String := t.entries.map (·.1)

def values (t : Table β) : List β := t.entries.map (·.2)

def isEmpty (t : Table β) : Bool := t.entries.isEmpty

def size (t : Table β) : Nat := t.entries.length

/-- Changes every value and keeps the keys. -/
def map (f : String → β → γ) (t : Table β) : Table γ :=
  ⟨t.entries.map fun e => (e.1, f e.1 e.2), t.ascending.map _ fun _ _ h => h⟩

/-- The entries whose key and value pass. -/
def filter (p : String → β → Bool) (t : Table β) : Table β :=
  ⟨t.entries.filter fun e => p e.1 e.2, t.ascending.filter _⟩

/-- Changes the value of one key, if it has one. -/
def modify (t : Table β) (k : String) (f : β → β) : Table β :=
  t.map fun k' v => if k' = k then f v else v

/-- Later entries of the list win. -/
def insertAll (t : Table β) (es : List (String × β)) : Table β :=
  es.foldl (fun t e => t.insert e.1 e.2) t

def ofList (es : List (String × β)) : Table β := empty.insertAll es

@[simp] theorem find?_empty (k : String) : (empty : Table β).find? k = none := rfl

theorem lookup_cons_ite {ι : Type} [BEq ι] [LawfulBEq ι] [DecidableEq ι] (k : ι) (e : ι × β) (es : List (ι × β)) :
    (e :: es).lookup k = if k = e.1 then some e.2 else es.lookup k := by
  rw [List.lookup_cons]
  split <;> simp_all

theorem lookup_place (k k' : String) (v : β) (es : List (String × β)) :
    (place k v es).lookup k' = if k' = k then some v else es.lookup k' := by
  induction es with
  | nil => simp [place, lookup_cons_ite]
  | cons e rest ih =>
    simp only [place]
    split
    · rw [lookup_cons_ite]
    · split
      case isTrue h => simp only [lookup_cons_ite, h]; split <;> rfl
      case isFalse h =>
        simp only [lookup_cons_ite, ih]
        by_cases he : k' = e.1
        · simp [he, Ne.symm h]
        · simp [he]

/-- An entry is found under its own key, and the others as before. -/
theorem find?_insert (t : Table β) (k k' : String) (v : β) :
    (t.insert k v).find? k' = if k' = k then some v else t.find? k' := lookup_place ..

theorem find?_map (f : String → β → γ) (t : Table β) (k : String) : (t.map f).find? k = (t.find? k).map (f k) := by
  obtain ⟨es, h⟩ := t
  simp only [find?, map]
  clear h
  induction es with
  | nil => rfl
  | cons e rest ih =>
    rw [List.map_cons, lookup_cons_ite, lookup_cons_ite, ih]
    split <;> simp_all

end Table
end Milp
