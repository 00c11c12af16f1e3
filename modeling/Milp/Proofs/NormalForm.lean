import Milp.Proofs.Collected

/-! The normal form of an expression: collecting like terms keeps the value, leaves each variable once
and at most one constant, agrees with the two sums that are taken term by term, and is done once. -/
namespace Milp

/-- In a list with each key once, lookup finds just the entries. -/
theorem lookup_eq_some_iff_of_nodup {β : Type} {es : List (String × β)} (h : (es.map Prod.fst).Nodup)
    {k : String} {v : β} : es.lookup k = some v ↔ (k, v) ∈ es := by
  induction es with
  | nil => simp
  | cons e rest ih =>
    obtain ⟨he, hr⟩ := List.nodup_cons.mp h
    rw [Table.lookup_cons_ite, List.mem_cons, Prod.mk_inj]
    split
    next hk =>
      subst hk
      have hnot : (e.1, v) ∉ rest := fun hm => he (List.mem_map.mpr ⟨_, hm, rfl⟩)
      simp [hnot, eq_comm]
    next hk => simp [hk, ih hr]

theorem Row.lookup_absorb {α : Type} [Add α] (id id' : String) (c : α) (acc : List (String × α)) :
    (absorb id c acc).lookup id' =
      if id' = id then some ((acc.lookup id).elim c (· + c)) else acc.lookup id' := by
  induction acc with
  | nil => simp [absorb, Table.lookup_cons_ite]
  | cons e rest ih =>
    simp only [absorb]
    split
    next h =>
      subst h
      simp only [Table.lookup_cons_ite, if_true, Option.elim_some]
      split <;> rfl
    next h =>
      simp only [Table.lookup_cons_ite, ih, if_neg (Ne.symm h)]
      by_cases hid : id' = e.1
      · rw [if_pos hid, if_neg (hid ▸ h), if_pos hid]
      · rw [if_neg hid, if_neg hid]

namespace Expression

variable {e : Expression Rat} {values : Table Rat}

/-- An expression with a value has one for each of its variables. -/
theorem contains_of_evaluate {x : Rat} (h : e.evaluate values = some x) :
    ∀ id ∈ e.names, values.contains id = true := by
  obtain ⟨owner, ts⟩ := e
  simp only [evaluate, names] at h ⊢
  induction ts using List.reverseRecOn generalizing x with
  | nil =>
    intro id hid
    cases hid
  | append_singleton ts t ih =>
    rw [List.foldlM_append] at h
    obtain ⟨y, hy, ht⟩ := Option.bind_eq_some_iff.mp h
    intro id hid
    rw [List.filterMap_append, List.mem_append] at hid
    refine hid.elim (ih hy id) fun hid => ?_
    cases t with
    | constant c => simp [List.filterMap_cons] at hid
    | linear c id' owner' =>
      obtain rfl : id = id' := by simpa using hid
      cases hv : values.find? id with
      | none => simp [hv] at ht
      | some v => exact Table.contains_of_find? hv

theorem evaluate_of_contains (h : ∀ id ∈ e.names, values.contains id = true) :
    e.evaluate values = some (e.value fun id => (values.find? id).getD 0) := by
  refine evaluate_of_values fun id hid => ?_
  obtain ⟨v, hv⟩ := Table.contains_iff.mp (h id hid)
  simp [hv]

/-- The value depends on what the terms come to, and whether there is one on the variables only. -/
theorem evaluate_congr {a b : Expression Rat} (hn : ∀ id, id ∈ a.names ↔ id ∈ b.names)
    (hv : ∀ x, a.value x = b.value x) : a.evaluate values = b.evaluate values := by
  by_cases h : ∀ id ∈ a.names, values.contains id = true
  · rw [evaluate_of_contains h, evaluate_of_contains fun id hid => h id ((hn id).mpr hid), hv]
  · have hnone {e : Expression Rat} (he : ¬∀ id ∈ e.names, values.contains id = true) :
        e.evaluate values = none :=
      Option.eq_none_iff_forall_ne_some.mpr fun x hx => he (contains_of_evaluate hx)
    rw [hnone h, hnone fun hb => h fun id hid => hb id ((hn id).mp hid)]

theorem evaluate_reduce (e : Expression Rat) (values : Table Rat) :
    e.reduce.evaluate values = e.evaluate values :=
  evaluate_congr (fun id => by rw [names_reduce, List.mem_eraseDups]) fun x => value_reduce x e

/-- What was collected under a variable is its net coefficient. -/
theorem lookup_factors_reduce (e : Expression Rat) (id : String) :
    (e.reduce.terms.filterMap Term.factor?).lookup id = e.linearPart.find? id := by
  rw [factors_reduce]
  obtain ⟨owner, ts⟩ := e
  simp only [linearPart]
  induction ts using List.reverseRecOn generalizing id with
  | nil => rfl
  | append_singleton ts t ih =>
    rw [Row.absorbSide_concat, List.foldl_concat]
    cases t with
    | constant c => exact ih id
    | linear c id' owner' =>
      have hsum (x : Option Rat) : x.elim c (· + c) = x.getD 0 + c := by
        cases x with
        | none => exact (zero_add c).symm
        | some x => rfl
      simp only [Term.factor?_linear, Option.elim_some, id_eq]
      rw [Row.lookup_absorb, Table.find?_insert, ih id', ih id, hsum]
      rfl

/-- Each variable has one factor, and these are its entries among the net coefficients. -/
theorem perm_factors_reduce (e : Expression Rat) :
    (e.reduce.terms.filterMap Term.factor?).Perm e.linearPart.entries := by
  have hkeys : ((e.reduce.terms.filterMap Term.factor?).map Prod.fst).Nodup := by
    rw [← names_eq_factors, ← names, names_reduce]
    exact nodup_eraseDups _
  refine (List.perm_ext_iff_of_nodup (.of_map _ hkeys) e.linearPart.nodup_entries).mpr fun f => ?_
  rw [← lookup_eq_some_iff_of_nodup hkeys, lookup_factors_reduce]
  exact Table.find?_eq_some_iff

/-- The sum of the constants, which collecting drops when it is zero. -/
def constant? (e : Expression Rat) : Option Rat :=
  if e.constants.sum = 0 then none else some e.constants.sum

theorem reduce_terms (e : Expression Rat) :
    e.reduce.terms = linearTerms e.terms ++ e.constant?.toList.map Term.constant := by
  have hc : e.constants.foldl (· + ·) Scalar.zero = e.constants.sum := e.constantPart_eq
  have hz : (e.constants.sum == Scalar.zero) = true ↔ e.constants.sum = 0 := beq_iff_eq
  simp only [reduce, hc, hz, constant?]
  split <;> rfl

/-- Collected terms stay as they are. -/
theorem reduce_terms_reduce (e : Expression Rat) : e.reduce.reduce.terms = e.reduce.terms := by
  have hcollected : linearTerms (linearTerms e.terms) = linearTerms e.terms := by
    apply linearTerms_of_nodup (constants_linearTerms _)
    rw [names_linearTerms]
    exact nodup_eraseDups _
  have hlinear : linearTerms e.reduce.terms = linearTerms e.terms := by
    rw [reduce_terms]
    cases e.constant? with
    | none => rw [Option.toList_none, List.map_nil, List.append_nil, hcollected]
    | some c => exact (linearTerms_append_constant _ c).trans hcollected
  have hconstant : e.reduce.constant? = e.constant? := by
    rw [constant?, constant?, sum_constants_reduce]
  rw [reduce_terms e.reduce, hlinear, hconstant, reduce_terms]

/-- Where no term is a constant, each has a name. -/
theorem map_name?_of_linear {ts : List (Term Rat)} (h : ts.filterMap Term.constant? = []) :
    ts.map Term.name? = (ts.filterMap Term.name?).map some := by
  induction ts with
  | nil => rfl
  | cons t rest ih =>
    cases t with
    | constant c => simp at h
    | linear c id owner => exact congrArg (some id :: ·) (ih h)

/-- Collecting like terms brings an expression to its normal form: with the same value for every
assignment, or as before without one; each variable once, in the order of first appearance and with its
net coefficient, and then the sum of the constants unless it is zero. A second time changes nothing. -/
theorem reduce_normal (e : Expression Rat) :
    (∀ values : Table Rat, e.reduce.evaluate values = e.evaluate values) ∧
    (∃ (linear : List (Term Rat)) (c : Option Rat),
      e.reduce.terms = linear ++ c.toList.map Term.constant ∧
      linear.map Term.name? = e.names.eraseDups.map some ∧
      (linear.filterMap Term.factor?).Perm e.linearPart.entries ∧
      (∀ x ∈ c, x ≠ 0) ∧ c.getD 0 = e.constantPart) ∧
    e.reduce.names.Nodup ∧ (∀ id, id ∈ e.reduce.names ↔ id ∈ e.names) ∧
    e.reduce.reduce.terms = e.reduce.terms := by
  refine ⟨e.evaluate_reduce, ⟨linearTerms e.terms, e.constant?, e.reduce_terms, ?_, ?_, ?_, ?_⟩, ?_, ?_,
    e.reduce_terms_reduce⟩
  · rw [map_name?_of_linear (constants_linearTerms _), names_linearTerms, names]
  · have hfactors := e.perm_factors_reduce
    rwa [factors_reduce, ← factors_linearTerms] at hfactors
  · intro x hx
    unfold constant? at hx
    split at hx
    next => cases hx
    next h => exact Option.some.inj hx ▸ h
  · rw [constantPart_eq, constant?]
    split
    next h => exact h.symm
    next => rfl
  · rw [names_reduce]
    exact nodup_eraseDups _
  · intro id
    rw [names_reduce, List.mem_eraseDups]

/-- A variable that cancels stays with a zero; constants that cancel do not. -/
example :
    let t : Token := ⟨0⟩
    let e : Expression Rat := ⟨t, [.constant 2, .linear 1 "y" t, .linear 4 "x" t, .constant (-2),
      .linear (-1) "y" t]⟩
    e.reduce.terms.map Term.factor? = [some ("y", 0), some ("x", 4)] := by
  decide +kernel

end Expression
end Milp
