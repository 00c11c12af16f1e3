import Mathlib.Algebra.Order.Field.Rat
import Mathlib.Data.Prod.Lex
import Mathlib.Data.String.Basic
import Mathlib.Order.WithBot
import Milp.Expression

/-! Equality of expressions: the same variables with the same coefficients, each as often, in any
order. -/
namespace Milp

namespace Term

/-- What a term is told apart by. -/
def summand {α : Type} (t : Term α) : Option String × α := (t.name?, t.coefficient)

/-- Where a term is sorted: by its variable, below all of them if it has none, and then by its
coefficient. -/
def rank (t : Term Rat) : WithBot String ×ₗ Rat := toLex (t.name?, t.coefficient)

theorem beq_iff {s t : Term Rat} : (s == t) = true ↔ s.summand = t.summand := by
  change (s.name? == t.name? && s.coefficient == t.coefficient) = true ↔ _
  rw [Bool.and_eq_true, beq_iff_eq, beq_iff_eq, summand, summand, Prod.mk_inj]

/-- Coefficients are in the order of their size. -/
theorem order_ne_gt {x y : Rat} : (Scalar.order x y != .gt) = true ↔ x ≤ y := by
  change ((if x < y then .lt else if x = y then .eq else .gt : Ordering) != .gt) = true ↔ x ≤ y
  split
  next h => exact iff_of_true rfl h.le
  next h =>
    split
    next he => exact iff_of_true rfl he.le
    next he => exact iff_of_false nofun fun hle => h (lt_of_le_of_ne hle he)

section Order

variable {α β : Type} [Scalar α] [LinearOrder β] {f : α → β}

/-- Where a term is sorted if coefficients are by this key. -/
def rankBy (f : α → β) (t : Term α) : WithBot String ×ₗ β := toLex (t.name?, f t.coefficient)

theorem le_iff_rankBy (hf : ∀ x y, (Scalar.order x y != .gt) = true ↔ f x ≤ f y) {s t : Term α} :
    Term.le s t = true ↔ s.rankBy f ≤ t.rankBy f := by
  rw [rankBy, rankBy, Prod.Lex.toLex_le_toLex]
  cases s with
  | constant c =>
    cases t with
    | constant d =>
      change (Scalar.order c d != .gt) = true ↔
        (⊥ : WithBot String) < ⊥ ∨ (⊥ : WithBot String) = ⊥ ∧ f c ≤ f d
      rw [hf]
      simp
    | linear d id' owner' => exact iff_of_true rfl (.inl (WithBot.bot_lt_coe id'))
  | linear c id owner =>
    cases t with
    | constant d =>
      refine iff_of_false nofun ?_
      change ¬((id : WithBot String) < ⊥ ∨ (id : WithBot String) = ⊥ ∧ f c ≤ f d)
      simp
    | linear d id' owner' =>
      change (if id < id' then true else if id' < id then false else Scalar.order c d != .gt) = true ↔
        (id : WithBot String) < id' ∨ (id : WithBot String) = id' ∧ f c ≤ f d
      rw [WithBot.coe_lt_coe, WithBot.coe_inj]
      rcases lt_trichotomy id id' with h | rfl | h
      · simp [h]
      · rw [if_neg (lt_irrefl id), if_neg (lt_irrefl id), hf]
        simp
      · simp [h, h.not_gt, h.ne']

end Order

theorem beq_list_iff {ss ts : List (Term Rat)} :
    (ss == ts) = true ↔ ss.map summand = ts.map summand := by
  induction ss generalizing ts with
  | nil => cases ts <;> simp
  | cons s rest ih =>
    cases ts with
    | nil => simp
    | cons t rest' =>
      rw [List.cons_beq_cons, Bool.and_eq_true, beq_iff, ih, List.map_cons, List.map_cons, List.cons.injEq]

end Term

namespace Expression

theorem pairwise_sorted {α β : Type} [Scalar α] [LinearOrder β] {f : α → β}
    (hf : ∀ x y, (Scalar.order x y != .gt) = true ↔ f x ≤ f y) (e : Expression α) :
    e.sorted.Pairwise fun s t => s.rankBy f ≤ t.rankBy f := by
  have hle (s t : Term α) : Term.le s t = true ↔ s.rankBy f ≤ t.rankBy f := Term.le_iff_rankBy hf
  refine (List.pairwise_mergeSort ?_ ?_ e.terms).imp (hle _ _).mp
  · intro s t u hst htu
    exact (hle s u).mpr (((hle s t).mp hst).trans ((hle t u).mp htu))
  · intro s t
    rw [Bool.or_eq_true, hle, hle]
    exact le_total _ _

theorem sorted_pairwise (e : Expression Rat) : e.sorted.Pairwise fun s t => s.rank ≤ t.rank :=
  pairwise_sorted (f := id) (fun _ _ => Term.order_ne_gt) e

/-- Sorted terms are in one order only, up to owners. -/
theorem summands_eq_of_perm {ss ts : List (Term Rat)} (hperm : (ss.map Term.summand).Perm (ts.map Term.summand))
    (hs : ss.Pairwise fun s t => s.rank ≤ t.rank) (ht : ts.Pairwise fun s t => s.rank ≤ t.rank) :
    ss.map Term.summand = ts.map Term.summand := by
  have hpairwise {us : List (Term Rat)} (hu : us.Pairwise fun s t => s.rank ≤ t.rank) :
      (us.map Term.summand).Pairwise fun p q => (toLex p : WithBot String ×ₗ Rat) ≤ toLex q :=
    List.pairwise_map.mpr hu
  exact hperm.eq_of_pairwise (fun p q _ _ hpq hqp => le_antisymm (α := WithBot String ×ₗ Rat) hpq hqp)
    (hpairwise hs) (hpairwise ht)

theorem sorted_perm (e : Expression Rat) :
    (e.sorted.map Term.summand).Perm (e.terms.map Term.summand) :=
  (List.mergeSort_perm _ _).map _

/-- Two expressions are equal when one has the terms of the other in some order. -/
theorem beq_iff_perm {a b : Expression Rat} :
    (a == b) = true ↔ (a.terms.map Term.summand).Perm (b.terms.map Term.summand) := by
  have hdef : (a == b) = true ↔ a.size = b.size ∧ a.sorted.map Term.summand = b.sorted.map Term.summand := by
    change (a.size == b.size && a.sorted == b.sorted) = true ↔ _
    rw [Bool.and_eq_true, beq_iff_eq, Term.beq_list_iff]
  rw [hdef]
  constructor
  · rintro ⟨-, hsorted⟩
    exact (a.sorted_perm.symm.trans (.of_eq hsorted)).trans b.sorted_perm
  · intro h
    refine ⟨by simpa [size] using h.length_eq, ?_⟩
    exact summands_eq_of_perm ((a.sorted_perm.trans h).trans b.sorted_perm.symm) a.sorted_pairwise
      b.sorted_pairwise

end Expression
end Milp
