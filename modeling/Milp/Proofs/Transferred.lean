import Milp.Adapter.Recorder
import Milp.Proofs.Collected
import Milp.Proofs.Owners

/-! Expressions that are handed to another model in their stored form. -/
namespace Milp

variable {η κ : Type} {A : Adapter Extended η κ} {m : Model A}

namespace Expression

variable {e : Expression Extended}

/-- Terms are variables and constants. -/
theorem terms_eq_nil : e.terms = [] ↔ e.names = [] ∧ e.constants = [] := by
  rw [names, constants_eq, List.filterMap_eq_nil_iff, List.filterMap_eq_nil_iff]
  constructor
  · intro h
    simp [h]
  · rintro ⟨hnames, hconstants⟩
    refine List.eq_nil_iff_forall_not_mem.mpr fun t ht => ?_
    cases t with
    | constant c => cases hconstants _ ht
    | linear c id owner => cases hnames _ ht

theorem reduce_constants : e.reduce.constants =
    if e.constantSum == Scalar.zero then [] else [e.constantSum] := e.constants_reduce

/-- Collecting leaves nothing where no variable is named and the constants cancel. -/
theorem reduce_terms_eq_nil : e.reduce.terms = [] ↔ e.names = [] ∧ e.constantSum = Scalar.zero := by
  have hnames : e.names.eraseDups = [] ↔ e.names = [] := by
    simp only [List.eq_nil_iff_forall_not_mem, List.mem_eraseDups]
  have hzero : (e.constantSum == Scalar.zero) = true ↔ e.constantSum = Scalar.zero :=
    ⟨eq_zero_of_beq, fun h => by rw [h]; rfl⟩
  rw [terms_eq_nil, names_reduce, hnames, reduce_constants, ← hzero]
  split
  next h => simp [h]
  next h => simp [h]

/-- A zero is stored for terms of which collecting leaves nothing, and for nothing else. -/
theorem zero_mem_store : ⟨Scalar.zero, none⟩ ∈ e.store.terms ↔
    e.isEmpty = false ∧ e.names = [] ∧ e.constantSum = Scalar.zero := by
  rw [← reduce_terms_eq_nil]
  have hnothing : ((e.reduce.terms.map fun t => (⟨t.coefficient, t.name?⟩ : Stored.Term Extended)).isEmpty &&
      !e.isEmpty) = true ↔ e.isEmpty = false ∧ e.reduce.terms = [] := by
    simp [and_comm]
  unfold store
  dsimp only
  split
  next h => exact iff_of_true (List.mem_singleton_self _) (hnothing.mp h)
  next h =>
    refine iff_of_false (fun hmem => ?_) (mt hnothing.mpr h)
    obtain ⟨t, ht, heq⟩ := List.mem_map.mp hmem
    cases t with
    | linear c id owner => cases heq
    | constant c =>
      -- a constant that collecting leaves is not zero
      obtain rfl : c = Scalar.zero := congrArg Stored.Term.coefficient heq
      have hkept : Scalar.zero ∈ e.reduce.constants := by
        rw [constants_eq]
        exact List.mem_filterMap.mpr ⟨_, ht, rfl⟩
      rw [reduce_constants] at hkept
      split at hkept
      next => cases hkept
      next hne => exact hne (List.mem_singleton.mp hkept ▸ rfl)

end Expression

namespace Model

/-- The stored form of an expression, of any model, comes back on each model that has its variables: as an
equivalent expression of that model, empty if the one that was stored is, and with the same stored form. -/
theorem Attained.restores_stored (hm : m.Attained) (hA : A.Usual) {e : Expression Extended}
    (he : Extended.FiniteTerms e) (hid : ∀ id ∈ e.names, m.vars.contains id = true) :
    (∃ e', m.restoreExpression e.store = .ok e' ∧ e'.equivalent e = true ∧ e'.isEmpty = e.isEmpty ∧
      m.Names e' ∧ e'.store = e.store) ∧
    (⟨Scalar.zero, none⟩ ∈ e.store.terms ↔
      e.isEmpty = false ∧ e.names = [] ∧ e.constantSum = Scalar.zero) := by
  have hregular : m.Regular := hm.regular hA
  have hrestored : m.restoreExpression e.store = .ok (e.collected m.token) := by
    refine restoreExpression_store fun id h => ?_
    obtain ⟨p, hp⟩ := Table.contains_iff.mp (hid id h)
    exact ⟨p, hp, (hregular.vars.entities id p hp).2.1, (hregular.bounds id p hp).2⟩
  have howns : m.Owns (e.collected m.token) := ⟨rfl, fun id h => hid id (e.names_collected _ id h)⟩
  have hnames : m.Names (e.collected m.token) :=
    hregular.names (homogeneous_restoreExpression hrestored) howns
  exact ⟨⟨_, hrestored, e.equivalent_collected _ (.of_finite he), e.isEmpty_collected _, hnames,
    e.store_collected _⟩, Expression.zero_mem_store⟩

/-- Constants that cancel are handed to another model: alone they leave a zero, beside a variable nothing. -/
theorem Attained.restores_stored_shelf :
    let other : Token := ⟨1⟩
    let alone : Expression Extended := ⟨other, [.constant (.finite 2), .constant (.finite (-2))]⟩
    let beside : Expression Extended := ⟨other, .linear (.finite 3) "boxes" other :: alone.terms⟩
    ∃ m : Model (recorder Extended), m.Attained ∧ m.token ≠ other ∧
      (∃ e, m.restoreExpression alone.store = .ok e ∧ e.equivalent alone = true ∧ e.isEmpty = false ∧
        m.Names e ∧ e.store = alone.store ∧ ⟨Scalar.zero, none⟩ ∈ alone.store.terms) ∧
      ∃ e, m.restoreExpression beside.store = .ok e ∧ e.equivalent beside = true ∧ e.isEmpty = false ∧
        m.Names e ∧ e.store = beside.store ∧ ⟨Scalar.zero, none⟩ ∉ beside.store.terms := by
  intro other alone beside
  obtain ⟨m, hm, htoken, hboxes⟩ : ∃ m : Model (recorder Extended), m.Attained ∧ m.token = ⟨0⟩ ∧
      m.vars.contains "boxes" = true := by
    have hle : Scalar.le (Extended.finite 0) (.finite 3) = true := rfl
    have hvariable : (Model.new ⟨0⟩ "depot" {} : Model (recorder Extended)).createVariable "boxes" .integer
        (.finite 0) (.finite 3) (.default .var) = .ok (_, _) :=
      createVariable_eq_ok.mpr ⟨rfl, rfl, rfl, Variable.new_eq_ok.mpr ⟨by decide, hle, rfl⟩, rfl⟩
    exact ⟨_, (attained_new ..).tick (.change (.declared (.var hvariable))), rfl, rfl⟩
  have hA : (recorder Extended).Usual := fun _ => ⟨rfl, rfl⟩
  have hfinite : Extended.FiniteTerms alone := List.all_eq_true.mp (by rfl)
  have hfinite' : Extended.FiniteTerms beside := List.all_eq_true.mp (by rfl)
  have hcancel : alone.constantSum = Scalar.zero := congrArg Extended.finite (by norm_num)
  obtain ⟨⟨e, he, hequivalent, hempty, hnames, hstore⟩, hzero⟩ := hm.restores_stored hA hfinite nofun
  obtain ⟨⟨e', he', hequivalent', hempty', hnames', hstore'⟩, hzero'⟩ := hm.restores_stored hA hfinite'
    fun id hid => List.mem_singleton.mp hid ▸ hboxes
  refine ⟨m, hm, by rw [htoken]; decide, ⟨e, he, hequivalent, hempty, hnames, hstore, ?_⟩,
    e', he', hequivalent', hempty', hnames', hstore', ?_⟩
  · exact hzero.mpr ⟨rfl, rfl, hcancel⟩
  · exact fun hmem => List.cons_ne_nil _ _ (hzero'.mp hmem).2.1

end Model
end Milp
