import Milp.Proofs.Equality
import Milp.Proofs.NormalForm

/-! Equivalence of expressions decides whether two of them mean the same: whether they have the same
value, or both none, whatever the values of variables. -/
namespace Milp

/-- The values of a function at some keys. -/
def Table.tabulate {β : Type} (x : String → β) (ids : List String) : Table β :=
  .ofList (ids.map fun id => (id, x id))

theorem Table.find?_tabulate {β : Type} (x : String → β) (ids : List String) (id : String) :
    (tabulate x ids).find? id = if id ∈ ids then some (x id) else none := by
  induction ids using List.reverseRecOn with
  | nil => rfl
  | append_singleton ids last ih =>
    have hlast : tabulate x (ids ++ [last]) = (tabulate x ids).insert last (x last) := by
      simp [tabulate, ofList, insertAll]
    rw [hlast, find?_insert, ih]
    by_cases h : id = last <;> simp [h]

theorem Table.contains_tabulate {β : Type} (x : String → β) (ids : List String) (id : String) :
    (tabulate x ids).contains id = true ↔ id ∈ ids := by
  rw [contains, find?_tabulate]
  split <;> simp_all

/-- What a summand adds, each variable at its value. -/
def weigh (x : String → Rat) : Option String × Rat → Rat
  | (none, c) => c
  | (some id, c) => c * x id

/-- At one for a variable and zero for the others, factors sum to its own. -/
theorem Row.total_single {fs : List (String × Rat)} (hn : (fs.map Prod.fst).Nodup) {id : String} {c : Rat}
    (h : (id, c) ∈ fs) : total (fun n => if n = id then 1 else 0) fs = c := by
  induction fs with
  | nil => cases h
  | cons f rest ih =>
    obtain ⟨hf, hr⟩ := List.nodup_cons.mp hn
    rw [total_cons]
    rcases List.mem_cons.mp h with rfl | h
    · have hrest : total (fun n => if n = id then 1 else 0) rest = 0 := by
        apply List.sum_eq_zero
        intro q hq
        obtain ⟨g, hg, rfl⟩ := List.mem_map.mp hq
        have hne : g.1 ≠ id := fun he => hf (List.mem_map.mpr ⟨g, hg, he⟩)
        simp only [if_neg hne, mul_zero]
      rw [hrest, if_pos rfl, mul_one, add_zero]
    · have hne : f.1 ≠ id := fun he => hf (List.mem_map.mpr ⟨_, h, he.symm⟩)
      rw [ih hr h, if_neg hne, mul_zero, zero_add]

/-- Factors of the same variables, each once, that always come to the same are the same. -/
theorem Row.perm_of_total {fs gs : List (String × Rat)} (hf : (fs.map Prod.fst).Nodup)
    (hg : (gs.map Prod.fst).Nodup) (hn : ∀ id, id ∈ fs.map Prod.fst ↔ id ∈ gs.map Prod.fst)
    (ht : ∀ x, total x fs = total x gs) : fs.Perm gs := by
  have hsub {fs gs : List (String × Rat)} (hf : (fs.map Prod.fst).Nodup) (hg : (gs.map Prod.fst).Nodup)
      (hn : ∀ id ∈ fs.map Prod.fst, id ∈ gs.map Prod.fst) (ht : ∀ x, total x fs = total x gs) :
      ∀ f ∈ fs, f ∈ gs := by
    rintro ⟨id, c⟩ hmem
    obtain ⟨⟨id', d⟩, hd, rfl⟩ := List.mem_map.mp (hn id (List.mem_map_of_mem hmem))
    have hcd : c = d := by rw [← total_single hf hmem, ht, total_single hg hd]
    exact hcd ▸ hd
  exact (List.perm_ext_iff_of_nodup (.of_map _ hf) (.of_map _ hg)).mpr fun f =>
    ⟨hsub hf hg (fun id => (hn id).mp) ht f, hsub hg hf (fun id => (hn id).mpr) (fun x => (ht x).symm) f⟩

namespace Expression

variable {a b : Expression Rat}

theorem names_eq_summands (e : Expression Rat) :
    e.names = (e.terms.map Term.summand).filterMap Prod.fst := by
  rw [names, List.filterMap_map]
  rfl

theorem value_eq_sum (x : String → Rat) (e : Expression Rat) :
    e.value x = ((e.terms.map Term.summand).map (weigh x)).sum := by
  obtain ⟨owner, ts⟩ := e
  rw [value, constants_eq]
  induction ts with
  | nil => exact add_zero 0
  | cons t rest ih =>
    rw [List.map_cons, List.map_cons, List.sum_cons, ← ih]
    cases t with
    | constant c => exact add_left_comm _ c _
    | linear c id owner => exact add_assoc (c * x id) _ _

/-- Summands are factors and constants. -/
theorem perm_summands (ts : List (Term Rat)) :
    (ts.map Term.summand).Perm ((ts.filterMap Term.factor?).map (fun f => (some f.1, f.2)) ++
      (ts.filterMap Term.constant?).map fun c => (none, c)) := by
  induction ts with
  | nil => exact .nil
  | cons t rest ih =>
    cases t with
    | constant c => exact (ih.cons (none, c)).trans List.perm_middle.symm
    | linear c id owner => exact ih.cons (some id, c)

/-- Equal expressions have the same value. -/
theorem evaluate_of_beq (h : (a == b) = true) (values : Table Rat) :
    a.evaluate values = b.evaluate values := by
  have hperm := beq_iff_perm.mp h
  refine evaluate_congr (fun id => ?_) fun x => ?_
  · rw [names_eq_summands, names_eq_summands]
    exact (hperm.filterMap _).mem_iff
  · rw [value_eq_sum, value_eq_sum]
    exact (hperm.map _).sum_eq

/-- Where one expression has a value the other has one too, so it has no other variables. -/
theorem names_of_evaluate (h : ∀ values : Table Rat, a.evaluate values = b.evaluate values) :
    ∀ id ∈ b.names, id ∈ a.names := by
  intro id hid
  let zeros : Table Rat := .tabulate (fun _ => 0) a.names
  have ha : a.evaluate zeros = some _ :=
    evaluate_of_contains fun n hn => (Table.contains_tabulate ..).mpr hn
  exact (Table.contains_tabulate ..).mp (contains_of_evaluate ((h zeros).symm.trans ha) id hid)

theorem value_of_evaluate (h : ∀ values : Table Rat, a.evaluate values = b.evaluate values)
    (x : String → Rat) : a.value x = b.value x := by
  let values : Table Rat := .tabulate x a.names
  have hfind (id : String) (hid : id ∈ a.names) : values.find? id = some (x id) := by
    rw [Table.find?_tabulate, if_pos hid]
  have ha := evaluate_of_values hfind
  have hb := evaluate_of_values fun id hid => hfind id (names_of_evaluate h id hid)
  exact Option.some.inj (ha.symm.trans ((h values).trans hb))

theorem sum_constants_of_evaluate (h : ∀ values : Table Rat, a.evaluate values = b.evaluate values) :
    a.constants.sum = b.constants.sum := by
  have hzero (e : Expression Rat) : e.value (fun _ => 0) = e.constants.sum := by simp [value, Row.total]
  rw [← hzero, ← hzero, value_of_evaluate h]

/-- What collecting leaves is determined by the values: the net coefficient of a variable is the
difference that it makes, and the constant is the value at zero. -/
theorem reduce_beq_of_evaluate (h : ∀ values : Table Rat, a.evaluate values = b.evaluate values) :
    (a.reduce == b.reduce) = true := by
  have hreduce (values : Table Rat) : a.reduce.evaluate values = b.reduce.evaluate values := by
    rw [evaluate_reduce, evaluate_reduce, h]
  have hsum := sum_constants_of_evaluate h
  have hkeys (e : Expression Rat) :
      (e.reduce.terms.filterMap Term.factor?).map Prod.fst = e.names.eraseDups := by
    rw [← names_eq_factors, ← names, names_reduce]
  have hnames (id : String) : id ∈ a.names.eraseDups ↔ id ∈ b.names.eraseDups := by
    rw [List.mem_eraseDups, List.mem_eraseDups]
    exact ⟨names_of_evaluate (fun values => (h values).symm) id, names_of_evaluate h id⟩
  have hfactors : (a.reduce.terms.filterMap Term.factor?).Perm (b.reduce.terms.filterMap Term.factor?) := by
    refine Row.perm_of_total (hkeys a ▸ nodup_eraseDups _) (hkeys b ▸ nodup_eraseDups _) (fun id => ?_)
      fun x => ?_
    · rw [hkeys, hkeys, hnames]
    · have hx := value_of_evaluate hreduce x
      rw [value, value, sum_constants_reduce, sum_constants_reduce, hsum] at hx
      exact add_right_cancel hx
  have hconstants : a.reduce.constants = b.reduce.constants := by
    have hfold (e : Expression Rat) : e.constants.foldl (· + ·) Scalar.zero = e.constants.sum :=
      e.constantPart_eq
    rw [constants_reduce, constants_reduce, hfold, hfold, hsum]
  rw [constants_eq, constants_eq] at hconstants
  refine beq_iff_perm.mpr ((perm_summands _).trans (.trans ?_ (perm_summands _).symm))
  rw [hconstants]
  exact (hfactors.map _).append_right _

/-- Two expressions are equivalent exactly when they always have the same value, or both none. -/
theorem equivalent_iff_evaluate (a b : Expression Rat) :
    a.equivalent b = true ↔ ∀ values : Table Rat, a.evaluate values = b.evaluate values := by
  constructor
  · intro h values
    rw [← evaluate_reduce a, ← evaluate_reduce b, evaluate_of_beq h]
  · exact reduce_beq_of_evaluate

end Expression
end Milp
