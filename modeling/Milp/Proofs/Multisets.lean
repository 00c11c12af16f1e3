import Milp.Proofs.Equality
import Milp.Proofs.Ranks

/-! Expressions are equal when they are the same multiset of terms. Doubles of the same size can differ in
rank, but an expression in doubles is sorted as one in numbers is. -/
namespace Milp

open Extended (ofFloat finite)

namespace Term

theorem coefficient_map {α β : Type} (f : α → β) (t : Term α) : (t.map f).coefficient = f t.coefficient := by
  cases t <;> rfl

/-- Terms keep their differences when equality of their coefficients is kept. -/
theorem beq_map {α β : Type} [BEq α] [BEq β] {f : α → β} (hf : ∀ x y, (f x == f y) = (x == y))
    (ss ts : List (Term α)) : (ss.map (Term.map f) == ts.map (Term.map f)) = (ss == ts) := by
  have hterm (s t : Term α) : (s.map f == t.map f) = (s == t) := by
    change ((s.map f).name? == (t.map f).name? && (s.map f).coefficient == (t.map f).coefficient) = _
    rw [name?_map, name?_map, coefficient_map, coefficient_map, hf]
    rfl
  induction ss generalizing ts with
  | nil => cases ts <;> rfl
  | cons s rest ih =>
    cases ts with
    | nil => rfl
    | cons t rest' => rw [List.map_cons, List.map_cons, List.cons_beq_cons, List.cons_beq_cons, hterm, ih]

theorem map_finite_injective : Function.Injective (Term.map finite) := by
  intro s t h
  cases s <;> cases t <;> cases h <;> rfl

theorem order_ne_gt_iff {x y : Float} :
    (Scalar.order x y != .gt) = true ↔ Scalar.rank x ≤ Scalar.rank y :=
  bne_iff_ne.trans compare_le_iff_le

section Reading

variable {s t : Term Float} {s' t' : Term Rat}

theorem name?_of_reading (h : t.map ofFloat = t'.map finite) : t.name? = t'.name? := by
  rw [← name?_map (f := ofFloat), h, name?_map]

theorem coefficient_of_reading (h : t.map ofFloat = t'.map finite) :
    ofFloat t.coefficient = finite t'.coefficient := by
  rw [← coefficient_map ofFloat, h, coefficient_map]

theorem defined_of_reading (h : t.map ofFloat = t'.map finite) : ofFloat t.coefficient ≠ .undefined := by
  simp [coefficient_of_reading h]

/-- What is sorted before as a double is so as the number that it stands for. -/
theorem rank_le_of_reading (hs : s.map ofFloat = s'.map finite) (ht : t.map ofFloat = t'.map finite)
    (h : s.rankBy Scalar.rank ≤ t.rankBy Scalar.rank) : s'.rank ≤ t'.rank := by
  rw [rankBy, rankBy, Prod.Lex.toLex_le_toLex, name?_of_reading hs, name?_of_reading ht] at h
  rw [rank, rank, Prod.Lex.toLex_le_toLex]
  refine h.imp_right fun hequal => ⟨hequal.1, ?_⟩
  have hle := Scalar.le_of_rank_le (defined_of_reading hs) (defined_of_reading ht) hequal.2
  rw [coefficient_of_reading hs, coefficient_of_reading ht] at hle
  exact of_decide_eq_true hle

theorem pairwise_of_reading {ss : List (Term Float)} {ts : List (Term Rat)}
    (h : ss.map (Term.map ofFloat) = ts.map (Term.map finite))
    (hss : ss.Pairwise fun s t => s.rankBy Scalar.rank ≤ t.rankBy Scalar.rank) :
    ts.Pairwise fun s t => s.rank ≤ t.rank := by
  have hreading : (ts.map (Term.map finite)).Pairwise fun u v => ∀ s' t' : Term Rat,
      u = s'.map finite → v = t'.map finite → s'.rank ≤ t'.rank := by
    rw [← h, List.pairwise_map]
    exact hss.imp fun hle s' t' hs ht => rank_le_of_reading hs ht hle
  exact (List.pairwise_map.mp hreading).imp fun hle => hle _ _ rfl rfl

end Reading

end Term

namespace Expression

variable {e : Expression Float} {e' : Expression Rat}

/-- Sorted as doubles, the terms are sorted as numbers. -/
theorem exists_sorted (h : e.map ofFloat = e'.map finite) : ∃ ts : List (Term Rat),
    e.sorted.map (Term.map ofFloat) = ts.map (Term.map finite) ∧
      ts.map Term.summand = e'.sorted.map Term.summand := by
  have hterms : e.terms.map (Term.map ofFloat) = e'.terms.map (Term.map finite) := congrArg terms h
  have hperm : e.sorted.Perm e.terms := List.mergeSort_perm _ _
  have hfinite : Extended.FiniteTerms ((⟨e.owner, e.sorted⟩ : Expression Float).map ofFloat) := by
    intro t ht
    have ht' : t ∈ e'.terms.map (Term.map finite) := hterms ▸ (hperm.map _).mem_iff.mp ht
    obtain ⟨t', -, rfl⟩ := List.mem_map.mp ht'
    rw [Term.coefficient_map]
    rfl
  obtain ⟨⟨_, ts⟩, hts⟩ := hfinite.exists_map
  have hts : e.sorted.map (Term.map ofFloat) = ts.map (Term.map finite) := congrArg terms hts
  have hsorted : ts.Pairwise fun s t => s.rank ≤ t.rank :=
    Term.pairwise_of_reading hts (pairwise_sorted (fun _ _ => Term.order_ne_gt_iff) e)
  have hperm' : ts.Perm e'.terms := by
    rw [← List.map_perm_map_iff Term.map_finite_injective, ← hts, ← hterms]
    exact hperm.map _
  exact ⟨ts, hts, summands_eq_of_perm ((hperm'.map _).trans e'.sorted_perm.symm) hsorted e'.sorted_pairwise⟩

/-- Expressions in doubles are equal when those in the numbers are that the doubles stand for. -/
theorem beq_reading {a b : Expression Float} {a' b' : Expression Rat} (ha : a.map ofFloat = a'.map finite)
    (hb : b.map ofFloat = b'.map finite) : (a == b) = (a' == b') := by
  obtain ⟨ss, hss, hsorted⟩ := exists_sorted ha
  obtain ⟨ts, hts, hsorted'⟩ := exists_sorted hb
  have hlists : (a.sorted == b.sorted) = (a'.sorted == b'.sorted) := by
    calc (a.sorted == b.sorted)
        = (a.sorted.map (Term.map ofFloat) == b.sorted.map (Term.map ofFloat)) :=
          (Term.beq_map Extended.beq_ofFloat ..).symm
      _ = (ss == ts) := by rw [hss, hts, Term.beq_map Extended.finite_hom.beq]
      _ = (a'.sorted == b'.sorted) := by
        rw [Bool.eq_iff_iff, Term.beq_list_iff, Term.beq_list_iff, hsorted, hsorted']
  have hsize {e : Expression Float} {e' : Expression Rat} (h : e.map ofFloat = e'.map finite) :
      e.size = e'.size := by
    simpa [map, size] using congrArg size h
  change (a.size == b.size && a.sorted == b.sorted) = (a'.size == b'.size && a'.sorted == b'.sorted)
  rw [hlists, hsize ha, hsize hb]

/-- The same multiset has each term as often. -/
theorem perm_summands_iff {ss ts : List (Term Rat)} : (ss.map Term.summand).Perm (ts.map Term.summand) ↔
    ∀ t : Term Rat, ss.countP (· == t) = ts.countP (· == t) := by
  have hcount (us : List (Term Rat)) (t : Term Rat) :
      (us.map Term.summand).count t.summand = us.countP (· == t) := by
    rw [List.count_eq_countP, List.countP_map]
    refine List.countP_congr fun u _ => ?_
    rw [Term.beq_iff]
    exact beq_iff_eq
  rw [List.perm_iff_count]
  constructor
  · intro h t
    rw [← hcount, ← hcount, h]
  · rintro h ⟨name, c⟩
    obtain ⟨t, ht⟩ : ∃ t : Term Rat, t.summand = (name, c) := by
      cases name with
      | none => exact ⟨.constant c, rfl⟩
      | some id => exact ⟨.linear c id ⟨0⟩, rfl⟩
    rw [← ht, hcount, hcount, h]

/-- Two expressions are equal when they have the same terms, each as often, in any order. This is an
equivalence, and it is the one that is decided for the doubles that stand for the numbers. -/
theorem beq_multiset :
    (∀ a b : Expression Rat,
      ((a == b) = true ↔ (a.terms.map Term.summand).Perm (b.terms.map Term.summand)) ∧
      ((a == b) = true ↔ ∀ t : Term Rat, a.terms.countP (· == t) = b.terms.countP (· == t)) ∧
      (a.terms.Perm b.terms → (a == b) = true)) ∧
    (Equivalence fun a b : Expression Rat => (a == b) = true) ∧
    ∀ (a b : Expression Float) (a' b' : Expression Rat), a.map ofFloat = a'.map finite →
      b.map ofFloat = b'.map finite → (a == b) = (a' == b') := by
  have hequivalence : Equivalence fun a b : Expression Rat => (a == b) = true := by
    refine ⟨fun a => ?_, fun h => ?_, fun h h' => ?_⟩
    · exact beq_iff_perm.mpr (.refl _)
    · exact beq_iff_perm.mpr (beq_iff_perm.mp h).symm
    · exact beq_iff_perm.mpr ((beq_iff_perm.mp h).trans (beq_iff_perm.mp h'))
  refine ⟨fun a b => ⟨beq_iff_perm, ?_, fun h => ?_⟩, hequivalence, fun a b a' b' => beq_reading⟩
  · exact beq_iff_perm.trans perm_summands_iff
  · exact beq_iff_perm.mpr (h.map _)

end Expression
end Milp
