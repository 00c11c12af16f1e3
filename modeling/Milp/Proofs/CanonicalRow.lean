import Milp.Proofs.Reduction

/-! A constraint and its matrix row: the same variables, and the same solutions. -/
namespace Milp

/-- A comparison depends on the difference of its sides alone. -/
theorem Comparison.holds_of_sub_eq (op : Comparison) {l r v b : Rat} (h : l - r = v - b) (t : Rat) :
    op.holds l r t = op.holds v b t := by
  cases op with
  | lessEqual =>
    have hle : l ≤ r + t ↔ v ≤ b + t := by constructor <;> intro <;> linarith
    exact decide_eq_decide.mpr hle
  | greaterEqual =>
    have hle : r ≤ l + t ↔ b ≤ v + t := by constructor <;> intro <;> linarith
    exact decide_eq_decide.mpr hle
  | equal => exact congrArg (fun d => Scalar.le (Scalar.abs d) t) h

namespace Constraint

variable {α : Type} [Scalar α]

/-- A row names the variables of both sides, those of the left side first. -/
theorem names_row (c : Constraint α) :
    c.row.terms.map Prod.fst = (c.left.names ++ c.right.names).eraseDups := by
  have hl : (Row.absorbSide id [] c.left.reduce.terms).map Prod.fst = c.left.names.eraseDups := by
    rw [Row.names_absorbSide id [] _ List.nodup_nil]
    exact (congrArg List.eraseDups c.left.names_reduce).trans
      (eraseDups_of_nodup (nodup_eraseDups _))
  have hr : c.right.reduce.terms.filterMap Term.name? = c.right.names.eraseDups :=
    c.right.names_reduce
  rw [row, Row.names_absorbSide _ _ _ (hl ▸ nodup_eraseDups _), hl, hr, eraseDups_append_right,
    List.eraseDups_append, List.eraseDups_append, eraseDups_of_nodup (nodup_eraseDups _)]
  simp [List.removeAll]

/-- The sides of a row differ as those of the constraint do. -/
theorem total_row_sub_bound (c : Constraint Rat) (x : String → Rat) :
    c.left.value x - c.right.value x = Row.total x c.row.terms - c.row.bound := by
  have hid (q : Rat) : id q = 1 * q := (one_mul q).symm
  have hneg (q : Rat) : -q = -1 * q := (neg_one_mul q).symm
  have hside (e : Expression Rat) :
      Row.total x (e.reduce.terms.filterMap Term.factor?) = e.value x - e.constants.sum := by
    have h := Expression.value_reduce x e
    rw [Expression.value, Expression.sum_constants_reduce] at h
    linarith
  have ht : Row.total x c.row.terms = Row.total x (c.left.reduce.terms.filterMap Term.factor?) -
      Row.total x (c.right.reduce.terms.filterMap Term.factor?) := by
    rw [row, Row.total_absorbSide x hneg, Row.total_absorbSide x hid, Row.total_nil]
    ring
  have hb : c.row.bound = c.right.constants.sum - c.left.constants.sum :=
    congrArg₂ (· - ·) c.right.constantPart_eq c.left.constantPart_eq
  rw [ht, hb, hside, hside]
  ring

/-- At the same values a constraint and its row hold alike. -/
theorem holds_row (c : Constraint Rat) {values : Table Rat} {x : String → Rat}
    (hx : ∀ id ∈ c.left.names ++ c.right.names, values.find? id = some (x id)) :
    ∃ l r v, c.left.evaluate values = some l ∧ c.right.evaluate values = some r ∧
      c.row.evaluate values = some v ∧
      ∀ t, c.comparison.holds l r t = c.row.comparison.holds v c.row.bound t := by
  have hrow (id : String) (h : id ∈ c.row.terms.map Prod.fst) : values.find? id = some (x id) :=
    hx id (List.mem_eraseDups.mp (c.names_row ▸ h))
  have hleft := Expression.evaluate_of_values fun id h => hx id (List.mem_append_left _ h)
  have hright := Expression.evaluate_of_values fun id h => hx id (List.mem_append_right _ h)
  refine ⟨_, _, _, hleft, hright, Row.evaluate_of_values hrow, fun t => ?_⟩
  exact c.comparison.holds_of_sub_eq (c.total_row_sub_bound x) t

/-- A constraint and its row hold for the same values of their variables, up to any tolerance. The
row has each variable of the constraint once, in the order of first appearance. -/
theorem row_faithful (c : Constraint Rat) :
    (∀ values : Table Rat, (∀ id ∈ c.left.names ++ c.right.names, values.contains id = true) →
      ∃ l r v, c.left.evaluate values = some l ∧ c.right.evaluate values = some r ∧
        c.row.evaluate values = some v ∧
        ∀ t, c.comparison.holds l r t = c.row.comparison.holds v c.row.bound t) ∧
    c.row.terms.map Prod.fst = (c.left.names ++ c.right.names).eraseDups ∧
    (c.row.terms.map Prod.fst).Nodup ∧
    ∀ id, id ∈ c.row.terms.map Prod.fst ↔ id ∈ c.left.names ∨ id ∈ c.right.names := by
  refine ⟨fun values hv => ?_, c.names_row, c.names_row ▸ nodup_eraseDups _, fun id => ?_⟩
  · have hx (id : String) (h : id ∈ c.left.names ++ c.right.names) :
        values.find? id = some ((values.find? id).getD 0) := by
      obtain ⟨v, hv⟩ := Table.contains_iff.mp (hv id h)
      simp [hv]
    exact c.holds_row hx
  · rw [c.names_row, List.mem_eraseDups, List.mem_append]

theorem row_faithful_shared :
    let t : Token := ⟨0⟩
    let c : Constraint Rat := ⟨"c", ⟨t, [.linear 2 "x" t, .constant 1]⟩, .lessEqual,
      ⟨t, [.linear 1 "y" t, .linear 3 "x" t, .constant 5]⟩⟩
    let values : Table Rat := .ofList [("x", 1), ("y", 2)]
    (∀ id ∈ c.left.names ++ c.right.names, values.contains id = true) ∧
      ∃ l r v, c.left.evaluate values = some l ∧ c.right.evaluate values = some r ∧
        c.row.evaluate values = some v ∧
        ∀ t, c.comparison.holds l r t = c.row.comparison.holds v c.row.bound t :=
  ⟨by decide, (row_faithful _).1 _ (by decide)⟩

end Constraint
end Milp
