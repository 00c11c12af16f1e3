import Milp.Table
import Mathlib.Data.List.Sort
import Mathlib.Order.Basic

/-! Laws of finite maps: a map is what lookup finds in it. -/
namespace Milp.Table

variable {β γ : Type}

theorem keys_ascending (t : Table β) : t.keys.Pairwise (· < ·) := t.ascending.map _ fun _ _ h => h

theorem nodup_keys (t : Table β) : t.keys.Nodup := t.keys_ascending.imp fun h => Std.ne_of_lt h

theorem nodup_entries (t : Table β) : t.entries.Nodup := .of_map _ t.nodup_keys

theorem find?_eq_some_iff {t : Table β} {k : String} {v : β} :
    t.find? k = some v ↔ (k, v) ∈ t.entries := by
  obtain ⟨es, h⟩ := t
  simp only [find?]
  induction es with
  | nil => simp
  | cons e rest ih =>
    obtain ⟨he, hr⟩ := List.pairwise_cons.mp h
    rw [lookup_cons_ite, List.mem_cons]
    split
    next hk =>
      subst hk
      rw [Option.some_inj]
      refine ⟨fun hv => .inl (Prod.ext rfl hv.symm), fun hv => ?_⟩
      rcases hv with hv | hv
      · exact (congrArg Prod.snd hv).symm
      · exact absurd (he _ hv) Std.lt_irrefl
    next hk =>
      rw [ih hr]
      exact ⟨.inr, fun hv => hv.resolve_left fun heq => hk (congrArg Prod.fst heq)⟩

theorem contains_iff {t : Table β} {k : String} : t.contains k = true ↔ ∃ v, t.find? k = some v :=
  Option.isSome_iff_exists

theorem contains_of_find? {t : Table β} {k : String} {v : β} (h : t.find? k = some v) :
    t.contains k = true :=
  contains_iff.mpr ⟨v, h⟩

theorem find?_eq_none_iff {t : Table β} {k : String} : t.find? k = none ↔ t.contains k = false := by
  simp [contains]

/-- A first part of the entries ascends. -/
theorem ascending_of_entries {t : Table β} {done rest : List (String × β)} {e : String × β}
    (h : t.entries = done ++ e :: rest) : (done ++ [e]).Pairwise fun a b => a.1 < b.1 := by
  have ha := t.ascending
  rw [h, List.append_cons] at ha
  exact (List.pairwise_append.mp ha).1

/-- An entry that is still to come has another key than those before. -/
theorem not_mem_of_entries {t : Table β} {done rest : List (String × β)} {e : String × β}
    (h : t.entries = done ++ e :: rest) : e.1 ∉ done.map Prod.fst := by
  have hn := t.nodup_keys
  rw [keys, h, List.map_append, List.nodup_append] at hn
  exact fun hm => hn.2.2 e.1 hm e.1 (by simp) rfl

theorem length_keys (t : Table β) : t.keys.length = t.size := List.length_map _

theorem mem_keys {t : Table β} {k : String} : k ∈ t.keys ↔ t.contains k = true := by
  simp only [keys, List.mem_map, contains_iff, find?_eq_some_iff]
  exact ⟨fun ⟨e, he, hk⟩ => ⟨e.2, hk ▸ he⟩, fun ⟨v, hv⟩ => ⟨_, hv, rfl⟩⟩

/-- Two maps that find the same are the same. -/
theorem ext_find? {s t : Table β} (h : ∀ k, s.find? k = t.find? k) : s = t := by
  have hp : s.entries.Perm t.entries :=
    (List.perm_ext_iff_of_nodup s.nodup_entries t.nodup_entries).mpr fun e => by
      rw [← find?_eq_some_iff, ← find?_eq_some_iff, h]
  exact ext (hp.eq_of_pairwise
    (fun a b _ _ hab hba => absurd (String.lt_trans hab hba) Std.lt_irrefl) s.ascending t.ascending)

@[simp] theorem contains_empty (k : String) : (empty : Table β).contains k = false := rfl

@[simp] theorem contains_insert (t : Table β) (k k' : String) (v : β) :
    (t.insert k v).contains k' = (decide (k' = k) || t.contains k') := by
  simp only [contains, find?_insert]
  by_cases h : k' = k <;> simp [h]

@[simp] theorem contains_map (f : String → β → γ) (t : Table β) (k : String) :
    (t.map f).contains k = t.contains k := by
  simp [contains, find?_map]

@[simp] theorem contains_modify (t : Table β) (k k' : String) (f : β → β) :
    (t.modify k f).contains k' = t.contains k' := contains_map ..

theorem find?_modify (t : Table β) (k k' : String) (f : β → β) :
    (t.modify k f).find? k' = if k' = k then (t.find? k').map f else t.find? k' := by
  rw [modify, find?_map]
  split <;> simp

theorem find?_filter (p : String → β → Bool) (t : Table β) (k : String) :
    (t.filter p).find? k = (t.find? k).filter (p k) := by
  apply Option.ext
  intro v
  rw [Option.filter_eq_some_iff, find?_eq_some_iff, find?_eq_some_iff]
  simp [filter]

@[simp] theorem keys_map (f : String → β → γ) (t : Table β) : (t.map f).keys = t.keys := by
  simp [keys, map]

@[simp] theorem keys_modify (t : Table β) (k : String) (f : β → β) : (t.modify k f).keys = t.keys :=
  keys_map ..

theorem place_of_last {k : String} {v : β} {es : List (String × β)} (h : ∀ e ∈ es, e.1 < k) :
    place k v es = es ++ [(k, v)] := by
  induction es with
  | nil => rfl
  | cons e rest ih =>
    have he : e.1 < k := h e (by simp)
    rw [place, if_neg (Std.not_lt.mpr (Std.le_of_lt he)), if_neg (Std.ne_of_lt he).symm,
      ih fun d hd => h d (by simp [hd])]
    rfl

theorem entries_insert_of_last {t : Table β} {k : String} (v : β) (h : ∀ e ∈ t.entries, e.1 < k) :
    (t.insert k v).entries = t.entries ++ [(k, v)] := place_of_last h

theorem map_insert (f : String → β → γ) (t : Table β) (k : String) (v : β) :
    (t.insert k v).map f = (t.map f).insert k (f k v) := by
  apply ext_find?
  intro k'
  simp only [find?_map, find?_insert]
  split
  next h => rw [h]; rfl
  next => rfl

theorem map_map {δ : Type} (f : String → β → γ) (g : String → γ → δ) (t : Table β) :
    (t.map f).map g = t.map fun k v => g k (f k v) := by
  apply ext
  simp [map, Function.comp_def]

@[simp] theorem map_empty (f : String → β → γ) : (empty : Table β).map f = empty := rfl

/-- An entry stands where its key does. -/
theorem getElem?_entries {t : Table β} {k : String} {v : β} {i : Nat} (h : t.find? k = some v)
    (hi : t.keys[i]? = some k) : t.entries[i]? = some (k, v) := by
  rw [keys, List.getElem?_map] at hi
  obtain ⟨e, he, rfl⟩ := Option.map_eq_some_iff.mp hi
  have hv : t.find? e.1 = some e.2 := find?_eq_some_iff.mpr (List.mem_of_getElem? he)
  rw [he, ← Option.some.inj (hv.symm.trans h)]

theorem find?_insertAll (t : Table β) {es : List (String × β)}
    (h : es.Pairwise fun a b => a.1 < b.1) (k : String) :
    (t.insertAll es).find? k = (es.lookup k).or (t.find? k) := by
  induction es generalizing t with
  | nil => rfl
  | cons e rest ih =>
    obtain ⟨he, hr⟩ := List.pairwise_cons.mp h
    have hi : t.insertAll (e :: rest) = (t.insert e.1 e.2).insertAll rest := rfl
    rw [hi, ih _ hr, find?_insert, lookup_cons_ite]
    split
    next hk =>
      have hnone : List.lookup k rest = none := by
        rw [List.lookup_eq_none_iff]
        intro d hd
        simpa [hk] using Std.ne_of_lt (he d hd)
      rw [hnone]
      rfl
    next => rfl

/-- What is in ascending order already becomes a table as it is. -/
theorem ofList_of_ascending {es : List (String × β)} (h : es.Pairwise fun a b => a.1 < b.1) :
    ofList es = ⟨es, h⟩ := by
  apply ext_find?
  intro k
  rw [ofList, find?_insertAll _ h, find?_empty, Option.or_none]
  rfl

theorem find?_ofList_filterMap {γ : Type} (t : Table β) (f : β → Option γ) (k : String) :
    (ofList (t.entries.filterMap fun e => (f e.2).map (e.1, ·))).find? k = (t.find? k).bind f := by
  have h : (t.entries.filterMap fun e => (f e.2).map (e.1, ·)).Pairwise fun a b => a.1 < b.1 := by
    rw [List.pairwise_filterMap]
    refine t.ascending.imp fun {a b} hab c hc d hd => ?_
    obtain ⟨_, -, rfl⟩ := Option.map_eq_some_iff.mp hc
    obtain ⟨_, -, rfl⟩ := Option.map_eq_some_iff.mp hd
    exact hab
  apply Option.ext
  intro v
  rw [ofList_of_ascending h, find?_eq_some_iff, Option.bind_eq_some_iff, List.mem_filterMap]
  constructor
  · rintro ⟨e, he, hv⟩
    obtain ⟨w, hw, hk⟩ := Option.map_eq_some_iff.mp hv
    cases hk
    exact ⟨e.2, find?_eq_some_iff.mpr he, hw⟩
  · rintro ⟨b, hb, hv⟩
    exact ⟨(k, b), find?_eq_some_iff.mp hb, by rw [hv]; rfl⟩

/-- Both maps together; where both have an entry, the first one counts. -/
def union (t u : Table β) : Table β := u.insertAll t.entries

theorem find?_union (t u : Table β) (k : String) :
    (t.union u).find? k = (t.find? k).or (u.find? k) :=
  u.find?_insertAll t.ascending k

@[simp] theorem contains_union (t u : Table β) (k : String) :
    (t.union u).contains k = (t.contains k || u.contains k) := by
  simp only [contains, find?_union, Option.isSome_or]

@[simp] theorem contains_filter (p : String → β → Bool) (t : Table β) (k : String) :
    (t.filter p).contains k = ((t.find? k).any (p k)) := by
  rw [contains, find?_filter]
  cases t.find? k with
  | none => rfl
  | some v => cases h : p k v <;> simp [h]

/-- Two maps have the same keys when they contain the same. -/
theorem keys_eq_iff {s : Table β} {t : Table γ} :
    s.keys = t.keys ↔ ∀ k, s.contains k = t.contains k := by
  constructor
  · intro h k
    rw [Bool.eq_iff_iff, ← mem_keys, ← mem_keys, h]
  · intro h
    have hunits : s.map (fun _ _ => ()) = t.map fun _ _ => () := by
      apply ext_find?
      intro k
      have hk : (s.find? k).isSome = (t.find? k).isSome := h k
      rw [find?_map, find?_map]
      cases hs : s.find? k <;> cases ht : t.find? k <;> simp_all
    rw [← keys_map (fun _ _ => ()) s, ← keys_map (fun _ _ => ()) t, hunits]

theorem modify_insert (t : Table β) (k : String) (v : β) (f : β → β) :
    (t.insert k v).modify k f = t.insert k (f v) := by
  apply ext_find?
  intro k'
  rw [find?_modify, find?_insert, find?_insert]
  split <;> simp_all

end Milp.Table
