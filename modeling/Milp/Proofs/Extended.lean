import Mathlib.Data.Rat.Floor
import Mathlib.Algebra.Order.Field.Rat
import Milp.Proofs.CanonicalRow

/-! Doubles read without rounding: exact numbers, two infinities, and what is not a number. -/
namespace Milp

inductive Extended
  | undefined
  | infinite (negative : Bool)
  | finite (x : Rat)
deriving DecidableEq

namespace Extended

def add : Extended → Extended → Extended
  | .undefined, _ | _, .undefined => .undefined
  | .infinite s, .infinite t => if s = t then .infinite s else .undefined
  | .infinite s, .finite _ => .infinite s
  | .finite _, .infinite t => .infinite t
  | .finite x, .finite y => .finite (x + y)

def neg : Extended → Extended
  | .undefined => .undefined
  | .infinite s => .infinite !s
  | .finite x => .finite (-x)

/-- An infinity times a number; its sign is that of the product. -/
def scaleInfinite (s : Bool) (x : Rat) : Extended :=
  if x = 0 then .undefined else .infinite (s ^^ decide (x < 0))

def mul : Extended → Extended → Extended
  | .undefined, _ | _, .undefined => .undefined
  | .infinite s, .infinite t => .infinite (s ^^ t)
  | .infinite s, .finite x | .finite x, .infinite s => scaleInfinite s x
  | .finite x, .finite y => .finite (x * y)

/-- What is not a number compares with nothing, itself included. -/
def le : Extended → Extended → Bool
  | .undefined, _ | _, .undefined => false
  | .infinite true, _ | _, .infinite false => true
  | .finite x, .finite y => x ≤ y
  | _, _ => false

def abs : Extended → Extended
  | .undefined => .undefined
  | .infinite _ => .infinite false
  | .finite x => .finite (if x < 0 then -x else x)

def ceil : Extended → Extended
  | .finite x => .finite x.ceil
  | x => x

/-- By size; what is not a number comes last. -/
def order : Extended → Extended → Ordering
  | .undefined, .undefined => .eq
  | .undefined, _ => .gt
  | _, .undefined => .lt
  | x, y => if x = y then .eq else if le x y then .lt else .gt

instance : Scalar Extended where
  add := add
  sub x y := add x (neg y)
  mul := mul
  neg := neg
  beq x y := decide (x ≠ .undefined) && decide (x = y)
  zero := .finite 0
  one := .finite 1
  emptySum := .finite 0
  le := le
  lt x y := le x y && !le y x
  abs := abs
  ceil := ceil
  order := order

instance : Unbounded Extended where
  infinity := .infinite false
  negativeInfinity := .infinite true
  isFinite
    | .finite _ => true
    | _ => false

theorem zero_add (x : Extended) : Scalar.zero + x = x := by
  cases x with
  | finite x => exact congrArg finite (Rat.zero_add x)
  | _ => rfl

end Extended

/-- Numbers of one kind are among those of another, with the same arithmetic and comparisons. -/
structure ScalarHom {α β : Type} [Scalar α] [Scalar β] (f : α → β) : Prop where
  add : ∀ x y, f (x + y) = f x + f y
  sub : ∀ x y, f (x - y) = f x - f y
  mul : ∀ x y, f (x * y) = f x * f y
  neg : ∀ x, f (-x) = -f x
  beq : ∀ x y, (f x == f y) = (x == y)
  zero : f Scalar.zero = Scalar.zero
  emptySum : f Scalar.emptySum = Scalar.emptySum
  le : ∀ x y, Scalar.le (f x) (f y) = Scalar.le x y
  abs : ∀ x, Scalar.abs (f x) = f (Scalar.abs x)

theorem Extended.finite_hom : ScalarHom Extended.finite where
  add _ _ := rfl
  sub x y := congrArg Extended.finite (sub_eq_add_neg x y)
  mul _ _ := rfl
  neg _ := rfl
  beq x y := by
    change (decide (Extended.finite x ≠ .undefined) && decide (Extended.finite x = .finite y)) = _
    simp [BEq.beq]
  zero := rfl
  emptySum := rfl
  le _ _ := rfl
  abs _ := rfl

section Maps

variable {α β : Type} (f : α → β)

def Term.map : Term α → Term β
  | .constant c => .constant (f c)
  | .linear c id owner => .linear (f c) id owner

def Expression.map (e : Expression α) : Expression β := ⟨e.owner, e.terms.map (Term.map f)⟩

def Constraint.map (c : Constraint α) : Constraint β :=
  ⟨c.identifier, c.left.map f, c.comparison, c.right.map f⟩

def Row.map (r : Row α) : Row β := ⟨r.terms.map fun t => (t.1, f t.2), r.comparison, f r.bound⟩

end Maps

section Hom

variable {α β : Type} [Scalar α] [Scalar β] {f : α → β}

omit [Scalar α] [Scalar β] in
@[simp] theorem Term.name?_map (t : Term α) : (t.map f).name? = t.name? := by cases t <;> rfl

omit [Scalar α] [Scalar β] in
theorem Expression.names_map (e : Expression α) : (e.map f).names = e.names := by
  rw [names, names, map, List.filterMap_map]
  exact List.filterMap_congr fun t _ => t.name?_map

omit [Scalar α] [Scalar β] in
theorem Expression.constants_map (e : Expression α) : (e.map f).constants = e.constants.map f := by
  rw [constants_eq, constants_eq, map, List.filterMap_map, List.map_filterMap]
  exact List.filterMap_congr fun t _ => by cases t <;> rfl

variable (hf : ScalarHom f)
include hf

theorem Comparison.holds_map (op : Comparison) (l r t : α) :
    op.holds (f l) (f r) (f t) = op.holds l r t := by
  cases op with
  | lessEqual => exact (congrArg _ (hf.add r t).symm).trans (hf.le l (r + t))
  | greaterEqual => exact (congrArg _ (hf.add l t).symm).trans (hf.le r (l + t))
  | equal =>
    have hs : Scalar.abs (f l - f r) = f (Scalar.abs (l - r)) := by rw [← hf.sub, hf.abs]
    exact (congrArg (Scalar.le · (f t)) hs).trans (hf.le _ t)

theorem foldl_map (cs : List α) (c : α) :
    (cs.map f).foldl (· + ·) (f c) = f (cs.foldl (· + ·) c) := by
  induction cs generalizing c with
  | nil => rfl
  | cons d rest ih => rw [List.map_cons, List.foldl_cons, List.foldl_cons, ← hf.add, ih]

namespace Expression

theorem absorb_map (c : α) (id : String) (owner : Token) (acc : List (Term α)) :
    absorb (f c) id owner (acc.map (Term.map f)) = (absorb c id owner acc).map (Term.map f) := by
  induction acc with
  | nil => rfl
  | cons t rest ih =>
    cases t with
    | constant c' => exact congrArg _ ih
    | linear c' id' owner' =>
      simp only [List.map_cons, Term.map, absorb]
      split
      · rw [← hf.add]
        rfl
      · rw [ih]
        rfl

theorem linearTerms_map (ts : List (Term α)) :
    linearTerms (ts.map (Term.map f)) = (linearTerms ts).map (Term.map f) := by
  induction ts using List.reverseRecOn with
  | nil => rfl
  | append_singleton ts t ih =>
    rw [List.map_append, List.map_singleton, linearTerms_concat, linearTerms_concat, ih]
    cases t with
    | constant c => rfl
    | linear c id owner => exact absorb_map hf c id owner _

theorem reduce_map (e : Expression α) : (e.map f).reduce = e.reduce.map f := by
  have hc : (e.map f).constants.foldl (· + ·) Scalar.zero =
      f (e.constants.foldl (· + ·) Scalar.zero) := by
    rw [constants_map, ← hf.zero, foldl_map hf]
  have hz (c : α) : (f c == Scalar.zero) = (c == Scalar.zero) := by rw [← hf.zero, hf.beq]
  simp only [reduce, hc, hz]
  simp only [map, linearTerms_map hf, List.map_append]
  split <;> rfl

theorem constantPart_map (e : Expression α) : (e.map f).constantPart = f e.constantPart := by
  rw [constantPart, constants_map, ← hf.emptySum, foldl_map hf]
  rfl

theorem linearPart_map (e : Expression α) : (e.map f).linearPart = e.linearPart.map fun _ => f := by
  obtain ⟨owner, ts⟩ := e
  simp only [linearPart, map]
  induction ts using List.reverseRecOn with
  | nil => rfl
  | append_singleton ts t ih =>
    rw [List.map_append, List.map_singleton, List.foldl_concat, List.foldl_concat, ih]
    cases t with
    | constant c => rfl
    | linear c id owner =>
      have hd (x : Option α) : (x.map f).getD Scalar.zero = f (x.getD Scalar.zero) := by
        cases x with
        | none => exact hf.zero.symm
        | some x => rfl
      simp only [Term.map, Table.map_insert, Table.find?_map, hd, hf.add]

theorem evaluate_map (e : Expression α) (values : Table α) :
    (e.map f).evaluate (values.map fun _ => f) = (e.evaluate values).map f := by
  obtain ⟨owner, ts⟩ := e
  simp only [evaluate, map]
  induction ts using List.reverseRecOn with
  | nil => exact congrArg some hf.zero.symm
  | append_singleton ts t ih =>
    rw [List.map_append, List.map_singleton, List.foldlM_append, List.foldlM_append, ih]
    cases ts.foldlM (fun acc term => match term with
      | .constant c => some (acc + c)
      | .linear c id _ => (values.find? id).map fun v => acc + c * v) Scalar.zero with
    | none => rfl
    | some x =>
      cases t with
      | constant c => exact congrArg some (hf.add x c).symm
      | linear c id owner =>
        cases hv : values.find? id with
        | none => simp [Term.map, Table.find?_map, hv]
        | some v => simp [Term.map, Table.find?_map, hv, hf.add, hf.mul]

end Expression

theorem Row.absorb_map (id : String) (c : α) (acc : List (String × α)) :
    Row.absorb id (f c) (acc.map fun t => (t.1, f t.2)) = (Row.absorb id c acc).map fun t =>
      (t.1, f t.2) := by
  induction acc with
  | nil => rfl
  | cons t rest ih =>
    simp only [List.map_cons, Row.absorb]
    split
    · rw [← hf.add]
      rfl
    · rw [ih]
      rfl

theorem Row.absorbSide_map {sign : α → α} {sign' : β → β} (hs : ∀ c, sign' (f c) = f (sign c))
    (acc : List (String × α)) (ts : List (Term α)) :
    Row.absorbSide sign' (acc.map fun t => (t.1, f t.2)) (ts.map (Term.map f)) =
      (Row.absorbSide sign acc ts).map fun t => (t.1, f t.2) := by
  induction ts using List.reverseRecOn with
  | nil => rfl
  | append_singleton ts t ih =>
    rw [List.map_append, List.map_singleton, Row.absorbSide_concat, Row.absorbSide_concat, ih]
    cases t with
    | constant c => rfl
    | linear c id owner =>
      simp only [Term.map, Term.factor?_linear, Option.elim_some, hs]
      exact Row.absorb_map hf id (sign c) _

theorem Constraint.row_map (c : Constraint α) : (c.map f).row = c.row.map f := by
  have hl : (c.map f).left.reduce.terms = c.left.reduce.terms.map (Term.map f) :=
    congrArg Expression.terms (Expression.reduce_map hf c.left)
  have hr : (c.map f).right.reduce.terms = c.right.reduce.terms.map (Term.map f) :=
    congrArg Expression.terms (Expression.reduce_map hf c.right)
  have hb : (c.map f).right.constantPart - (c.map f).left.constantPart =
      f (c.right.constantPart - c.left.constantPart) := by
    rw [hf.sub]
    exact congrArg₂ (· - ·) (Expression.constantPart_map hf c.right)
      (Expression.constantPart_map hf c.left)
  have hid (x : α) : id (f x) = f (id x) := rfl
  have ht := Row.absorbSide_map hf hid [] c.left.reduce.terms
  have ht' := Row.absorbSide_map hf (fun x => (hf.neg x).symm)
      (Row.absorbSide id [] c.left.reduce.terms)
    c.right.reduce.terms
  rw [row, row, Row.map, hl, hr, hb]
  rw [List.map_nil] at ht
  rw [ht, ht']
  rfl

theorem Row.evaluate_map (r : Row α) (values : Table α) :
    (r.map f).evaluate (values.map fun _ => f) = (r.evaluate values).map f := by
  obtain ⟨terms, comparison, bound⟩ := r
  simp only [evaluate, map]
  induction terms using List.reverseRecOn with
  | nil => exact congrArg some hf.zero.symm
  | append_singleton ts t ih =>
    rw [List.map_append, List.map_singleton, List.foldlM_append, List.foldlM_append, ih]
    cases ts.foldlM (fun acc e => (values.find? e.1).map fun v => acc + e.2 * v) Scalar.zero with
    | none => rfl
    | some x =>
      cases hv : values.find? t.1 with
      | none => simp [Table.find?_map, hv]
      | some v => simp [Table.find?_map, hv, hf.add, hf.mul]

end Hom

namespace Extended

/-- Every coefficient and every constant is a number, and finite. -/
def FiniteTerms (e : Expression Extended) : Prop :=
  ∀ t ∈ e.terms, Unbounded.isFinite t.coefficient = true

theorem exists_finite {x : Extended} (h : Unbounded.isFinite x = true) : ∃ q, x = finite q := by
  cases x with
  | finite q => exact ⟨q, rfl⟩
  | undefined => cases h
  | infinite s => cases h

/-- Such an expression is one of exact numbers. -/
theorem FiniteTerms.exists_map {e : Expression Extended} (h : FiniteTerms e) :
    ∃ e' : Expression Rat, e = e'.map finite := by
  obtain ⟨owner, ts⟩ := e
  have hts : ∃ ts' : List (Term Rat), ts = ts'.map (Term.map finite) := by
    induction ts with
    | nil => exact ⟨[], rfl⟩
    | cons t rest ih =>
      obtain ⟨rest', rfl⟩ := ih fun u hu => h u (List.mem_cons_of_mem _ hu)
      obtain ⟨q, hq⟩ := exists_finite (h t (List.mem_cons_self ..))
      cases t with
      | constant c => exact ⟨.constant q :: rest', by rw [List.map_cons, Term.map, ← hq]; rfl⟩
      | linear c id owner =>
        exact ⟨.linear q id owner :: rest', by rw [List.map_cons, Term.map, ← hq]; rfl⟩
  obtain ⟨ts', rfl⟩ := hts
  exact ⟨⟨owner, ts'⟩, rfl⟩

/-- Where its terms are finite, a constraint holds as its row does. -/
theorem holds_row {c : Constraint Extended} (hl : FiniteTerms c.left) (hr : FiniteTerms c.right)
    {values : Table Rat} {x : String → Rat}
    (hx : ∀ id ∈ c.left.names ++ c.right.names, values.find? id = some (x id)) :
    ∃ l r v, c.left.evaluate (values.map fun _ => finite) = some l ∧
      c.right.evaluate (values.map fun _ => finite) = some r ∧
      c.row.evaluate (values.map fun _ => finite) = some v ∧
      ∀ t, c.comparison.holds l r (finite t) = c.row.comparison.holds v c.row.bound (finite t) := by
  obtain ⟨identifier, left, comparison, right⟩ := c
  obtain ⟨left', rfl⟩ := hl.exists_map
  obtain ⟨right', rfl⟩ := hr.exists_map
  let c : Constraint Rat := ⟨identifier, left', comparison, right'⟩
  have hrow : (c.map finite).row = c.row.map finite := Constraint.row_map finite_hom c
  simp only [Expression.names_map] at hx
  obtain ⟨l, r, v, hl, hr, hv, ht⟩ := c.holds_row hx
  refine ⟨finite l, finite r, finite v, ?_, ?_, ?_, fun t => ?_⟩
  · exact (Expression.evaluate_map finite_hom left' values).trans (congrArg (Option.map finite) hl)
  · exact (Expression.evaluate_map finite_hom right' values).trans (congrArg (Option.map finite) hr)
  · exact hrow ▸ (Row.evaluate_map finite_hom c.row values).trans (congrArg (Option.map finite) hv)
  · calc comparison.holds (finite l) (finite r) (finite t)
        = comparison.holds l r t := Comparison.holds_map finite_hom ..
      _ = c.row.comparison.holds v c.row.bound t := ht t
      _ = c.row.comparison.holds (finite v) (finite c.row.bound) (finite t) :=
          (Comparison.holds_map finite_hom ..).symm
      _ = (c.map finite).row.comparison.holds (finite v) (c.map finite).row.bound (finite t) := by
        rw [hrow]; rfl

end Extended
end Milp
