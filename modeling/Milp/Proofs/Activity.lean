import Milp.Proofs.Assembly
import Milp.Proofs.Extended

/-! What lines and costs sum to at given values of the columns. -/
namespace Milp

variable {α : Type}

/-- What the factors of a line sum to at given values of the columns. -/
def Line.activity [Scalar α] (values : List α) (l : Line α) : Option α :=
  l.factors.foldlM (fun acc f => (values[f.1]?).map fun v => acc + f.2 * v) Scalar.zero

theorem Table.Numbered.biUnique {t : Table Nat} (h : t.Numbered) :
    Relator.BiUnique fun id i => t.find? id = some i := by
  constructor
  · intro id i id' hi hi'
    exact Option.some.inj ((h.find?_eq_some_iff.mp hi).symm.trans (h.find?_eq_some_iff.mp hi'))
  · intro id i i' hi hi'
    exact Option.some.inj (hi.symm.trans hi')

theorem Table.Numbered.lt {t : Table Nat} (h : t.Numbered) {id : String} {i : Nat}
    (hi : t.find? id = some i) :
    i < t.size := by
  obtain ⟨hlt, -⟩ := List.getElem?_eq_some_iff.mp (h.find?_eq_some_iff.mp hi)
  rwa [length_keys] at hlt

namespace Matrix

section Factors

variable {columns : Handles Nat} {terms : List (String × α)} {factors : List (Nat × α)}

theorem indexed_names (h : indexed terms columns = .ok factors) :
    List.Forall₂ (fun id i => columns.find? id = some i) (terms.map Prod.fst)
      (factors.map Prod.fst) := by
  rw [List.forall₂_map_left_iff, List.forall₂_map_right_iff]
  exact (indexed_eq_ok.mp h).imp fun _ _ ht => ht.1

/-- Different variables have different columns. -/
theorem indexed_nodup (hn : columns.Numbered) (h : indexed terms columns = .ok factors)
    (ht : (terms.map Prod.fst).Nodup) : (factors.map Prod.fst).Nodup :=
  (List.rel_nodup hn.biUnique (indexed_names h)).mp ht

theorem indexed_lt (hn : columns.Numbered) (h : indexed terms columns = .ok factors) :
    ∀ i ∈ factors.map Prod.fst, i < columns.size := by
  intro i hi
  obtain ⟨j, hj, rfl⟩ := List.mem_iff_getElem.mp hi
  have hnames := indexed_names h
  exact hn.lt (hnames.get (hnames.length_eq ▸ hj) hj)

theorem exists_of_indexed (h : indexed terms columns = .ok factors) {t : String × α}
    (ht : t ∈ terms) :
    ∃ i, columns.find? t.1 = some i ∧ (i, t.2) ∈ factors := by
  have hf := indexed_eq_ok.mp h
  clear h
  induction hf with
  | nil => cases ht
  | @cons u f rest factors hu _ ih =>
    obtain ⟨hi, hc⟩ := hu
    rcases List.mem_cons.mp ht with rfl | ht
    · exact ⟨f.1, hi, by rw [← hc]; exact List.mem_cons_self ..⟩
    · obtain ⟨i, hi, hm⟩ := ih ht
      exact ⟨i, hi, List.mem_cons_of_mem _ hm⟩

end Factors

section Lines

variable [Scalar α] {columns : Handles Nat} {c : Constraint α} {l : Line α}

/-- A line sums to what the row does, when columns have the values of their variables. -/
theorem LineFor.activity (h : LineFor columns c l) {values : List α} {table : Table α}
    (hv : ∀ id i, columns.find? id = some i → values[i]? = table.find? id) :
    l.activity values = c.row.evaluate table := by
  have hf := indexed_eq_ok.mp h.factors
  unfold Line.activity Row.evaluate
  generalize (Scalar.zero : α) = acc
  generalize c.row.terms = terms at hf
  generalize l.factors = factors at hf
  induction hf generalizing acc with
  | nil => rfl
  | @cons t f rest factors ht _ ih =>
    obtain ⟨hi, hc⟩ := ht
    rw [List.foldlM_cons, List.foldlM_cons, hv t.1 f.1 hi, hc]
    cases table.find? t.1 with
    | none => rfl
    | some v => exact ih _

/-- So a line has each column once. -/
theorem LineFor.nodup (h : LineFor columns c l) (hn : columns.Numbered) :
    (l.factors.map Prod.fst).Nodup :=
  indexed_nodup hn h.factors (c.names_row ▸ nodup_eraseDups _)

theorem LineFor.lt (h : LineFor columns c l) (hn : columns.Numbered) :
    ∀ i ∈ l.factors.map Prod.fst, i < columns.size := indexed_lt hn h.factors

end Lines

section Costs

variable {columns : Handles Nat}

/-- A term adds its coefficient to the cost of its column. -/
theorem costsOf_concat [Scalar α] (count : Nat) (terms : List (Nat × α)) (t : Nat × α) :
    costsOf count (terms ++ [t]) = (costsOf count terms).modify t.1 (· + t.2) := by
  simp [costsOf]

theorem length_costsOf [Scalar α] (count : Nat) (terms : List (Nat × α)) :
    (costsOf count terms).length = count := by
  induction terms using List.reverseRecOn with
  | nil => simp [costsOf]
  | append_singleton terms t ih => rw [costsOf_concat, List.length_modify, ih]

/-- A column that one term has gets the coefficient of this term. -/
theorem getElem?_costsOf [Scalar α] {count : Nat} {terms : List (Nat × α)}
    (hn : (terms.map Prod.fst).Nodup) {t : Nat × α} (ht : t ∈ terms) (hlt : t.1 < count) :
    (costsOf count terms)[t.1]? = some (Scalar.zero + t.2) := by
  have hz (terms : List (Nat × α)) (i : Nat) (hi : i < count) (h : i ∉ terms.map Prod.fst) :
      (costsOf count terms)[i]? = some Scalar.zero := by
    induction terms using List.reverseRecOn with
    | nil => simp [costsOf, hi]
    | append_singleton terms t ih =>
      simp only [List.map_append, List.mem_append, not_or, List.map_singleton,
        List.mem_singleton] at h
      rw [costsOf_concat, List.getElem?_modify, ih h.1]
      simp [Ne.symm h.2]
  induction terms using List.reverseRecOn with
  | nil => cases ht
  | append_singleton terms u ih =>
    rw [List.map_append, List.nodup_append] at hn
    obtain ⟨hterms, -, hu⟩ := hn
    rw [costsOf_concat, List.getElem?_modify]
    rcases List.mem_append.mp ht with ht | ht
    · have hne : t.1 ≠ u.1 := hu t.1 (List.mem_map_of_mem ht) u.1 (by simp)
      rw [ih hterms ht]
      simp [hne.symm]
    · obtain rfl := List.mem_singleton.mp ht
      have hnot : t.1 ∉ terms.map Prod.fst := fun hm => hu t.1 hm t.1 (by simp) rfl
      rw [hz terms t.1 hlt hnot]
      simp

/-- What costs sum to at the values of the columns. -/
def dot (costs values : List Rat) : Rat := ((costs.zip values).map fun t => t.1 * t.2).sum

theorem dot_modify {costs values : List Rat} (h : values.length = costs.length) (i : Nat)
    (c : Rat) : dot (costs.modify i (· + c)) values = dot costs values + c * values.getD i 0 := by
  induction costs generalizing values i with
  | nil => simp [dot, List.eq_nil_of_length_eq_zero h]
  | cons d costs ih =>
    cases values with
    | nil => cases h
    | cons v values =>
      cases i with
      | zero =>
        simp only [dot, List.modify_zero_cons, List.zip_cons_cons, List.map_cons, List.sum_cons,
          List.getD_cons_zero]
        ring
      | succ i =>
        have hd := ih (Nat.succ.inj h) i
        simp only [dot, List.modify_succ_cons, List.zip_cons_cons, List.map_cons, List.sum_cons,
          List.getD_cons_succ] at hd ⊢
        rw [hd]
        ring

/-- Factors sum to what their terms do, when columns have the values of their variables. -/
theorem sum_indexed {x : String → Rat} {values : List Rat} {terms : List (String × Rat)}
    {factors : List (Nat × Rat)} (h : indexed terms columns = .ok factors)
    (hv : ∀ id i, columns.find? id = some i → values[i]? = some (x id)) :
    (factors.map fun t => t.2 * values.getD t.1 0).sum = Row.total x terms := by
  have hf := indexed_eq_ok.mp h
  clear h
  induction hf with
  | nil => rfl
  | @cons t f _ _ hk _ ih =>
    rw [List.map_cons, List.sum_cons, Row.total_cons, ih, List.getD_eq_getElem?_getD,
      hv t.1 f.1 hk.1, hk.2]
    rfl

/-- No term is lost: costs sum to what the terms do. -/
theorem dot_costsOf {count : Nat} {values : List Rat} (h : values.length = count)
    (terms : List (Nat × Rat)) :
    dot (costsOf count terms) values = (terms.map fun t => t.2 * values.getD t.1 0).sum := by
  induction terms using List.reverseRecOn with
  | nil =>
    have hz (count : Nat) (values : List Rat) : dot (List.replicate count 0) values = 0 := by
      induction count generalizing values with
      | zero => rfl
      | succ count ih =>
        cases values with
        | nil => rfl
        | cons v values => simpa [dot, List.replicate_succ] using ih values
    exact hz count values
  | append_singleton terms t ih =>
    rw [costsOf_concat, dot_modify (by rw [length_costsOf, h]), ih]
    simp

theorem objectiveAt_eq (p : Problem Rat) (values : List Rat) :
    objectiveAt p values = p.offset + dot p.costs values := by
  have hf := Expression.foldl_constants ((p.costs.zip values).map fun t => t.1 * t.2) 0
  rw [zero_add] at hf
  exact congrArg (p.offset + ·) hf

end Costs

section Exact

variable {β : Type} [Scalar α] [Scalar β] {f : α → β}

omit [Scalar α] [Scalar β] in
theorem indexed_map (terms : List (String × α)) (columns : Handles Nat) :
    indexed (terms.map fun t => (t.1, f t.2)) columns =
      (indexed terms columns).map fun fs => fs.map fun t => (t.1, f t.2) := by
  induction terms with
  | nil => rfl
  | cons t rest ih =>
    rw [List.map_cons, indexed_cons, indexed_cons, ih]
    cases columns.require t.1 with
    | error e => rfl
    | ok i => cases indexed rest columns <;> rfl

theorem costsOf_map (hf : ScalarHom f) (count : Nat) (terms : List (Nat × α)) :
    costsOf count (terms.map fun t => (t.1, f t.2)) = (costsOf count terms).map f := by
  induction terms using List.reverseRecOn with
  | nil => simp [costsOf, hf.zero]
  | append_singleton terms t ih =>
    rw [List.map_append, List.map_singleton, costsOf_concat, costsOf_concat, ih]
    apply List.ext_getElem?
    intro i
    rw [List.getElem?_modify, List.getElem?_map, List.getElem?_map, List.getElem?_modify]
    cases (costsOf count terms)[i]? with
    | none => rfl
    | some c =>
      split
      · exact congrArg some (hf.add c t.2).symm
      · rfl

/-- The objective of exact numbers is exact. -/
theorem objectiveAt_map (hf : ScalarHom f) {p : Problem α} {q : Problem β}
    (hc : q.costs = p.costs.map f) (ho : q.offset = f p.offset) (values : List α) :
    objectiveAt q (values.map f) = f (objectiveAt p values) := by
  have hz : (q.costs.zip (values.map f)).map (fun t => t.1 * t.2) =
      ((p.costs.zip values).map fun t => t.1 * t.2).map f := by
    rw [hc, List.zip_map, List.map_map, List.map_map]
    exact List.map_congr_left fun t _ => (hf.mul t.1 t.2).symm
  rw [objectiveAt, objectiveAt, hz, ho, ← hf.emptySum, foldl_map hf, hf.add]

end Exact

/-- At values of the variables the costs come to what the objective does. -/
theorem Priced.evaluate {columns : Handles Nat} {o : Objective Extended} {p : Problem Extended}
    (h : Priced columns (some o) p) (hf : Extended.FiniteTerms o.expression) {x : String → Rat}
    {values : List Rat} (hl : values.length = p.columns.length)
    (hv : ∀ id i, columns.find? id = some i → values[i]? = some (x id)) {table : Table Rat}
    (ht : ∀ id ∈ o.expression.names, table.find? id = some (x id)) :
    o.expression.evaluate (table.map fun _ => .finite) =
      some (objectiveAt p (values.map .finite)) := by
  obtain ⟨e, direction⟩ := o
  obtain ⟨e, rfl⟩ := hf.exists_map
  obtain ⟨terms, hi, hc, ho, -⟩ := h
  let part := e.reduce.linearPart
  have hpart : (e.map Extended.finite).reduce.linearPart.entries = part.entries.map fun t =>
      (t.1, .finite t.2) := by
    rw [Expression.reduce_map Extended.finite_hom, Expression.linearPart_map Extended.finite_hom]
    rfl
  rw [hpart, indexed_map] at hi
  cases hi' : indexed part.entries columns with
  | error err =>
    rw [hi'] at hi
    cases hi
  | ok factors =>
    rw [hi'] at hi
    cases hi
    let p' : Problem Rat :=
      { identifier := p.identifier, costs := costsOf p.columns.length factors,
        offset := e.reduce.constantPart }
    have hobjective : objectiveAt p (values.map .finite) = .finite (objectiveAt p' values) := by
      apply objectiveAt_map Extended.finite_hom (hc.trans (costsOf_map Extended.finite_hom _ _))
      rw [ho, Expression.reduce_map Extended.finite_hom,
        Expression.constantPart_map Extended.finite_hom]
    have hdot : dot p'.costs values = Row.total x part.entries := by
      rw [dot_costsOf hl, sum_indexed hi' hv]
    have hoffset : p'.offset = e.reduce.constants.sum := e.reduce.constantPart_eq
    have hvalue : objectiveAt p' values = e.value x := by
      rw [objectiveAt_eq, hdot, Expression.total_linearPart, hoffset, add_comm]
      exact Expression.value_reduce x e
    rw [hobjective, hvalue, Expression.evaluate_map Extended.finite_hom,
      Expression.evaluate_of_values fun id hid => ht id (by rwa [Expression.names_map])]
    rfl

end Matrix
end Milp
