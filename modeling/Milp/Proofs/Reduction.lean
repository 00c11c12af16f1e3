import Milp.Constraint
import Milp.Proofs.Table
import Mathlib.Algebra.BigOperators.Group.List.Basic
import Mathlib.Data.List.Induction
import Mathlib.Tactic.Ring
import Mathlib.Tactic.Linarith

/-! Collecting like terms: which variables are left, in which order, and what the value is. -/
namespace Milp

section FirstAppearance

variable {ι : Type} [BEq ι] [LawfulBEq ι]

theorem eraseDups_concat (as : List ι) (b : ι) :
    (as ++ [b]).eraseDups = if b ∈ as then as.eraseDups else as.eraseDups ++ [b] := by
  rw [List.eraseDups_append]
  by_cases h : b ∈ as <;> simp [List.cons_removeAll, List.eraseDups_cons, h]

theorem nodup_eraseDups (as : List ι) : as.eraseDups.Nodup := by
  induction as using List.reverseRecOn with
  | nil => simp
  | append_singleton as b ih =>
    rw [eraseDups_concat]
    split
    next => exact ih
    next h =>
      refine List.nodup_append.mpr ⟨ih, by simp, fun a ha b' hb hab => h ?_⟩
      rw [← List.mem_singleton.mp hb, ← hab]
      exact List.mem_eraseDups.mp ha

theorem eraseDups_of_nodup {as : List ι} (h : as.Nodup) : as.eraseDups = as := by
  induction as using List.reverseRecOn with
  | nil => rfl
  | append_singleton as b ih =>
    obtain ⟨has, -, hb⟩ := List.nodup_append.mp h
    have hnot : b ∉ as := fun hm => hb b hm b (by simp) rfl
    rw [eraseDups_concat, if_neg hnot, ih has]

theorem eraseDups_append_right (as bs : List ι) :
    (as ++ bs.eraseDups).eraseDups = (as ++ bs).eraseDups := by
  induction bs using List.reverseRecOn with
  | nil => simp
  | append_singleton bs b ih =>
    rw [eraseDups_concat bs]
    split
    next h => rw [ih, ← List.append_assoc, eraseDups_concat, if_pos (List.mem_append_right _ h)]
    next h => rw [← List.append_assoc, ← List.append_assoc, eraseDups_concat,
      eraseDups_concat, ih]; simp

end FirstAppearance

namespace Term

variable {α : Type}

/-- The variable of a term and its coefficient. -/
def factor? : Term α → Option (String × α)
  | .constant _ => none
  | .linear c id _ => some (id, c)

/-- The number that a term is, if it has no variable. -/
def constant? : Term α → Option α
  | .constant c => some c
  | .linear .. => none

@[simp] theorem factor?_constant (c : α) : (Term.constant c).factor? = none := rfl
@[simp] theorem factor?_linear (c : α) (id : String) (owner : Token) :
    (linear c id owner).factor? = some (id, c) :=
  rfl
@[simp] theorem name?_constant (c : α) : (Term.constant c).name? = none := rfl
@[simp] theorem name?_linear (c : α) (id : String) (owner : Token) :
    (linear c id owner).name? = some id :=
  rfl
@[simp] theorem constant?_constant (c : α) : (Term.constant c).constant? = some c := rfl
@[simp] theorem constant?_linear (c : α) (id : String) (owner : Token) :
    (linear c id owner).constant? = none :=
  rfl

theorem name?_eq (t : Term α) : t.name? = t.factor?.map Prod.fst := by
  cases t <;> rfl

end Term

namespace Row

section Order

variable {α : Type} [Add α]

theorem names_absorb (id : String) (c : α) (acc : List (String × α)) :
    (absorb id c acc).map Prod.fst =
      if id ∈ acc.map Prod.fst then acc.map Prod.fst else acc.map Prod.fst ++ [id] := by
  induction acc with
  | nil => rfl
  | cons e rest ih =>
    simp only [absorb]
    split
    next h => simp [h]
    next h =>
      rw [List.map_cons, ih]
      by_cases hm : id ∈ rest.map Prod.fst <;> simp_all [Ne.symm h]

theorem absorbSide_concat (sign : α → α) (acc : List (String × α)) (ts : List (Term α))
    (t : Term α) : absorbSide sign acc (ts ++ [t]) =
      t.factor?.elim (absorbSide sign acc ts) fun f =>
        absorb f.1 (sign f.2) (absorbSide sign acc ts) := by
  cases t <;> simp [absorbSide, Term.factor?]

/-- The variables of a row keep the order in which they came. -/
theorem names_absorbSide (sign : α → α) (acc : List (String × α)) (ts : List (Term α))
    (h : (acc.map Prod.fst).Nodup) :
    (absorbSide sign acc ts).map Prod.fst =
      (acc.map Prod.fst ++ ts.filterMap Term.name?).eraseDups := by
  induction ts using List.reverseRecOn with
  | nil => simp [absorbSide, eraseDups_of_nodup h]
  | append_singleton ts t ih =>
    rw [absorbSide_concat]
    cases t with
    | constant c => simpa [List.filterMap_cons] using ih
    | linear c id owner =>
      rw [List.filterMap_append, ← List.append_assoc]
      simp only [Term.factor?_linear, Term.name?_linear, Option.elim_some, List.filterMap_cons,
        List.filterMap_nil]
      rw [eraseDups_concat, names_absorb, ih]
      simp only [List.mem_eraseDups]

end Order

/-- What the factors of a row sum to, each variable at its value. -/
def total (x : String → Rat) (fs : List (String × Rat)) : Rat := (fs.map fun f => f.2 * x f.1).sum

@[simp] theorem total_nil (x : String → Rat) : total x [] = 0 := rfl

@[simp] theorem total_append (x : String → Rat) (fs gs : List (String × Rat)) :
    total x (fs ++ gs) = total x fs + total x gs := by
  simp [total]

@[simp] theorem total_cons (x : String → Rat) (f : String × Rat) (fs : List (String × Rat)) :
    total x (f :: fs) = f.2 * x f.1 + total x fs := List.sum_cons

theorem total_absorb (x : String → Rat) (id : String) (c : Rat) (acc : List (String × Rat)) :
    total x (absorb id c acc) = total x acc + c * x id := by
  induction acc with
  | nil => simp [absorb]
  | cons e rest ih =>
    simp only [absorb]
    split
    next h => simp only [total_cons, h]; ring
    next h => simp only [total_cons, ih]; ring

/-- A side adds its own total, changed as its coefficients are. -/
theorem total_absorbSide (x : String → Rat) {s : Rat} {sign : Rat → Rat} (hs : ∀ c, sign c = s * c)
    (acc : List (String × Rat)) (ts : List (Term Rat)) :
    total x (absorbSide sign acc ts) = total x acc + s * total x (ts.filterMap Term.factor?) := by
  induction ts using List.reverseRecOn with
  | nil => simp [absorbSide]
  | append_singleton ts t ih =>
    rw [absorbSide_concat, List.filterMap_append, total_append, mul_add, ← add_assoc, ← ih]
    cases t with
    | constant c => simp [List.filterMap_cons]
    | linear c id owner => simp [total_absorb, hs, mul_assoc]

/-- A new entry takes the place of what the table had under its key. -/
theorem total_insert (x : String → Rat) (t : Table Rat) (k : String) (v : Rat) :
    total x (t.insert k v).entries = total x t.entries + (v - (t.find? k).getD 0) * x k := by
  obtain ⟨es, h⟩ := t
  simp only [Table.insert, Table.find?]
  induction es with
  | nil => simp [Table.place]
  | cons e rest ih =>
    obtain ⟨he, hr⟩ := List.pairwise_cons.mp h
    rw [Table.place, Table.lookup_cons_ite]
    split
    next hk =>
      have hnone : List.lookup k rest = none := by
        rw [List.lookup_eq_none_iff]
        intro d hd
        simpa using (Std.ne_of_lt (String.lt_trans hk (he d hd)))
      simp only [if_neg (Std.ne_of_lt hk), hnone, total_cons, Option.getD_none]
      ring
    next hk =>
      split
      next hk' =>
        simp only [total_cons, Option.getD_some, hk']
        ring
      next hk' =>
        rw [total_cons, ih hr, total_cons]
        ring

/-- A row has a value when all its variables have one. -/
theorem evaluate_of_values {r : Row Rat} {values : Table Rat} {x : String → Rat}
    (hx : ∀ id ∈ r.terms.map Prod.fst, values.find? id = some (x id)) :
    r.evaluate values = some (total x r.terms) := by
  obtain ⟨fs, comparison, bound⟩ := r
  simp only [evaluate] at hx ⊢
  induction fs using List.reverseRecOn with
  | nil => rfl
  | append_singleton fs f ih =>
    have hf : values.find? f.1 = some (x f.1) := hx _ (by simp)
    rw [List.foldlM_append, ih fun id hid => hx id (List.map_append ▸ List.mem_append_left _ hid)]
    simp [hf]

end Row

namespace Expression

theorem names_eq_factors {α : Type} (ts : List (Term α)) :
    ts.filterMap Term.name? = (ts.filterMap Term.factor?).map Prod.fst := by
  rw [List.map_filterMap]
  exact List.filterMap_congr fun t _ => t.name?_eq

theorem constants_eq {α : Type} (e : Expression α) :
    e.constants = e.terms.filterMap Term.constant? :=
  List.filterMap_congr fun t _ => by cases t <;> rfl

section Order

variable {α : Type} [Add α]

theorem linearTerms_concat (ts : List (Term α)) (t : Term α) :
    linearTerms (ts ++ [t]) = match t with
      | .constant _ => linearTerms ts
      | .linear c id owner => absorb c id owner (linearTerms ts) := by
  cases t <;> simp [linearTerms]

theorem factors_absorb (c : α) (id : String) (owner : Token) (acc : List (Term α)) :
    (absorb c id owner acc).filterMap Term.factor? =
      Row.absorb id c (acc.filterMap Term.factor?) := by
  induction acc with
  | nil => rfl
  | cons t rest ih =>
    cases t with
    | constant c' => exact ih
    | linear c' id' owner' =>
      simp only [absorb, List.filterMap_cons, Term.factor?_linear, Row.absorb]
      split <;> simp [ih]

/-- Collected like terms have the factors of a row. -/
theorem factors_linearTerms (ts : List (Term α)) :
    (linearTerms ts).filterMap Term.factor? = Row.absorbSide id [] ts := by
  induction ts using List.reverseRecOn with
  | nil => rfl
  | append_singleton ts t ih =>
    rw [linearTerms_concat, Row.absorbSide_concat, ← ih]
    cases t with
    | constant c => rfl
    | linear c id owner => exact factors_absorb c id owner _

theorem names_linearTerms (ts : List (Term α)) :
    (linearTerms ts).filterMap Term.name? = (ts.filterMap Term.name?).eraseDups := by
  rw [names_eq_factors, factors_linearTerms, Row.names_absorbSide id [] ts List.nodup_nil]
  rfl

theorem constants_absorb (c : α) (id : String) (owner : Token) (acc : List (Term α)) :
    (absorb c id owner acc).filterMap Term.constant? = acc.filterMap Term.constant? := by
  induction acc with
  | nil => rfl
  | cons t rest ih =>
    cases t with
    | constant c' => simp only [absorb, List.filterMap_cons, ih]
    | linear c' id' owner' =>
      simp only [absorb]
      split
      next => rfl
      next => exact ih

theorem constants_linearTerms (ts : List (Term α)) :
    (linearTerms ts).filterMap Term.constant? = [] := by
  induction ts using List.reverseRecOn with
  | nil => rfl
  | append_singleton ts t ih =>
    rw [linearTerms_concat]
    cases t with
    | constant c => exact ih
    | linear c id owner => exact (constants_absorb c id owner _).trans ih

end Order

section Reduce

variable {α : Type} [Scalar α]

/-- Collecting like terms keeps the first appearance of each variable. -/
theorem names_reduce (e : Expression α) : e.reduce.names = e.names.eraseDups := by
  simp only [reduce, names, List.filterMap_append, names_linearTerms]
  split <;> simp [List.filterMap_cons]

theorem factors_reduce (e : Expression α) :
    e.reduce.terms.filterMap Term.factor? = Row.absorbSide id [] e.terms := by
  simp only [reduce, List.filterMap_append, factors_linearTerms]
  split <;> simp [List.filterMap_cons]

/-- At most one constant is left, and it is not zero. -/
theorem constants_reduce (e : Expression α) :
    e.reduce.constants =
      if e.constants.foldl (· + ·) Scalar.zero == Scalar.zero then []
      else [e.constants.foldl (· + ·) Scalar.zero] := by
  rw [constants_eq e.reduce, reduce, List.filterMap_append, constants_linearTerms, List.nil_append]
  split <;> rfl

/-- The net coefficients are of the variables of the expression. -/
theorem contains_linearPart (e : Expression α) (id : String) :
    e.linearPart.contains id = true ↔ id ∈ e.names := by
  obtain ⟨owner, ts⟩ := e
  simp only [linearPart, names]
  induction ts using List.reverseRecOn with
  | nil => simp
  | append_singleton ts t ih =>
    rw [List.foldl_concat, List.filterMap_append, List.mem_append, ← ih]
    cases t with
    | constant c => simp
    | linear c id' owner' => simp [or_comm]

end Reduce

theorem foldl_constants (cs : List Rat) (c : Rat) : cs.foldl (· + ·) c = c + cs.sum := by
  induction cs generalizing c with
  | nil => simp
  | cons d rest ih => rw [List.foldl_cons, ih, List.sum_cons, add_assoc]

theorem constantPart_eq (e : Expression Rat) : e.constantPart = e.constants.sum :=
  (foldl_constants e.constants 0).trans (zero_add _)

/-- Net coefficients sum to what the terms do. -/
theorem total_linearPart (x : String → Rat) (e : Expression Rat) :
    Row.total x e.linearPart.entries = Row.total x (e.terms.filterMap Term.factor?) := by
  obtain ⟨owner, ts⟩ := e
  simp only [linearPart]
  induction ts using List.reverseRecOn with
  | nil => rfl
  | append_singleton ts t ih =>
    rw [List.foldl_concat, List.filterMap_append, Row.total_append, ← ih]
    cases t with
    | constant c => simp [List.filterMap_cons]
    | linear c id owner =>
      have hz : (Scalar.zero : Rat) = 0 := rfl
      simp [Row.total_insert, hz]

/-- Collecting like terms keeps the sum of the constants. -/
theorem sum_constants_reduce (e : Expression Rat) : e.reduce.constants.sum = e.constants.sum := by
  have hc : e.constants.foldl (· + ·) Scalar.zero = e.constants.sum := e.constantPart_eq
  rw [constants_reduce, hc]
  split
  next h => exact (beq_iff_eq.mp h).symm
  next h => exact List.sum_singleton

/-- The value of an expression, each variable at its own. -/
def value (x : String → Rat) (e : Expression Rat) : Rat :=
  Row.total x (e.terms.filterMap Term.factor?) + e.constants.sum

/-- An expression has a value when all its variables have one. -/
theorem evaluate_of_values {e : Expression Rat} {values : Table Rat} {x : String → Rat}
    (hx : ∀ id ∈ e.names, values.find? id = some (x id)) :
    e.evaluate values = some (e.value x) := by
  obtain ⟨owner, ts⟩ := e
  simp only [evaluate, value, constants_eq, names] at hx ⊢
  induction ts using List.reverseRecOn with
  | nil => exact congrArg some (add_zero 0).symm
  | append_singleton ts t ih =>
    rw [List.foldlM_append, ih fun id hid =>
      hx id (List.filterMap_append ▸ List.mem_append_left _ hid)]
    cases t with
    | constant c => simp [List.filterMap_cons, add_assoc]
    | linear c id owner =>
      have hid : values.find? id = some (x id) := hx id (by simp)
      simp [List.filterMap_cons, hid, add_right_comm]

theorem value_reduce (x : String → Rat) (e : Expression Rat) : e.reduce.value x = e.value x := by
  have hid (c : Rat) : id c = 1 * c := (one_mul c).symm
  rw [value, value, sum_constants_reduce, factors_reduce, Row.total_absorbSide x hid,
    Row.total_nil, zero_add, one_mul]

end Expression
end Milp
