import Mathlib.Data.Real.Basic
import Milp.Proofs.Problem

/-! The values that a variable is declared to take, and those that its column leaves a solver. They
are the same for real and for whole variables; for binary ones the column knows only that they are
whole. -/
namespace Milp

variable {ω : Type}

namespace Extended

/-- The number is not below this bound. -/
def AtMost : Extended → ℝ → Prop
  | .undefined, _ => False
  | .infinite negative, _ => negative = true
  | .finite q, x => q ≤ x

/-- The number is not above this bound. -/
def AtLeast : Extended → ℝ → Prop
  | .undefined, _ => False
  | .infinite negative, _ => negative = false
  | .finite q, x => x ≤ q

variable {b c : Extended} {x y : ℝ}

theorem AtMost.mono (h : b.AtMost x) (hxy : x ≤ y) : b.AtMost y := by
  cases b with
  | undefined => exact h
  | infinite => exact h
  | finite q => exact le_trans h hxy

theorem AtLeast.mono (h : b.AtLeast x) (hyx : y ≤ x) : b.AtLeast y := by
  cases b with
  | undefined => exact h
  | infinite => exact h
  | finite q => exact le_trans hyx h

theorem atMost_ratCast {q : ℚ} : b.AtMost q ↔ Scalar.le b (.finite q) = true := by
  change b.AtMost q ↔ le b (.finite q) = true
  rcases b with _ | ⟨_ | _⟩ | r <;> simp [AtMost, le]

theorem atLeast_ratCast {q : ℚ} : b.AtLeast q ↔ Scalar.le (.finite q) b = true := by
  change b.AtLeast q ↔ le (.finite q) b = true
  rcases b with _ | ⟨_ | _⟩ | r <;> simp [AtLeast, le]

theorem lt_of_atMost {q : ℚ} (h : b.AtMost x) (hb : Scalar.lt (.finite q) b = true) : q < x := by
  change (le (.finite q) b && !le b (.finite q)) = true at hb
  rcases b with _ | ⟨_ | _⟩ | r
  · exact h.elim
  · cases h
  · simp [le] at hb
  · have hqr : q ≤ r ∧ q < r := by simpa [le] using hb
    exact lt_of_lt_of_le (by exact_mod_cast hqr.2) h

theorem lt_of_atLeast {q : ℚ} (h : b.AtLeast x) (hb : Scalar.lt b (.finite q) = true) : x < q := by
  change (le b (.finite q) && !le (.finite q) b) = true at hb
  rcases b with _ | ⟨_ | _⟩ | r
  · exact h.elim
  · simp [le] at hb
  · cases h
  · have hrq : r ≤ q ∧ r < q := by simpa [le] using hb
    exact lt_of_le_of_lt h (by exact_mod_cast hrq.2)

/-- Two bounds that are numbers compare. -/
theorem le_of_not_lt (hb : b ≠ .undefined) (hc : c ≠ .undefined) (h : Scalar.lt b c = false) :
    Scalar.le c b = true := by
  change (le b c && !le c b) = false at h
  change le c b = true
  rcases b with _ | ⟨_ | _⟩ | q <;> rcases c with _ | ⟨_ | _⟩ | r <;> simp_all [le]
  exact (le_total r q).elim id h

theorem ne_undefined_of_le (h : Scalar.le b c = true) : b ≠ .undefined ∧ c ≠ .undefined := by
  change le b c = true at h
  constructor
  · rintro rfl
    cases h
  · rintro rfl
    cases b <;> cases h

theorem ceil_ne_undefined (h : b ≠ .undefined) : (Scalar.ceil b : Extended) ≠ .undefined := by
  cases b with
  | undefined => exact absurd rfl h
  | infinite | finite => exact nofun

end Extended

/-- The numbers that a type is about. -/
def VarType.values : VarType → Set ℝ
  | .double => Set.univ
  | .integer => Set.range fun n : ℤ => (n : ℝ)
  | .boolean => {0, 1}

/-- The numbers of its type within its bounds. -/
def Variable.values (v : Variable Extended) : Set ℝ :=
  {x | x ∈ v.varType.values ∧ v.lower.AtMost x ∧ v.upper.AtLeast x}

/-- The numbers within the bounds of a column, and only whole ones if it is whole. -/
def Column.values (c : Column Extended) : Set ℝ :=
  {x | (c.integer = true → ∃ n : ℤ, (n : ℝ) = x) ∧ c.lower.AtMost x ∧ c.upper.AtLeast x}

namespace Variable

variable {v : Variable Extended}

/-- A column leaves every value of its variable, -/
theorem values_subset_column (v : Variable Extended) : v.values ⊆ v.column.values := by
  rintro x ⟨hx, hbounds⟩
  refine ⟨fun hi => ?_, hbounds⟩
  change v.varType.isIntegral = true at hi
  cases ht : v.varType with
  | double => simp [ht, VarType.isIntegral] at hi
  | integer => rwa [ht] at hx
  | boolean =>
    rw [ht] at hx
    rcases hx with rfl | rfl
    · exact ⟨0, Int.cast_zero⟩
    · exact ⟨1, Int.cast_one⟩

/-- and no others, unless the variable is binary. -/
theorem column_values (ht : v.varType ≠ .boolean) : v.column.values = v.values := by
  refine Set.Subset.antisymm ?_ v.values_subset_column
  rintro x ⟨hx, hbounds⟩
  refine ⟨?_, hbounds⟩
  change v.varType.isIntegral = true → _ at hx
  cases hv : v.varType with
  | double => trivial
  | integer => exact hx (by rw [hv]; rfl)
  | boolean => exact absurd hv ht

/-- Bounds without issue, as far as a binary variable goes. -/
theorem bounds_of_issue (hi : v.issue? = none) (hle : Scalar.le v.lower v.upper = true)
    (ht : v.varType = .boolean) :
    Scalar.le v.lower (.finite 1) = true ∧ Scalar.le (.finite 0) v.upper = true ∧
      Scalar.le (Scalar.ceil v.lower) v.upper = true := by
  obtain ⟨hl, hu⟩ := Extended.ne_undefined_of_le hle
  simp only [issue?, ht, decide_true, Bool.true_and, VarType.isIntegral] at hi
  split at hi
  · cases hi
  next hunit =>
    split at hi
    · cases hi
    next hwhole =>
      simp only [Bool.or_eq_true, not_or, Bool.not_eq_true] at hunit hwhole
      exact ⟨Extended.le_of_not_lt nofun hl hunit.1, Extended.le_of_not_lt hu nofun hunit.2,
        Extended.le_of_not_lt hu (Extended.ceil_ne_undefined hl) hwhole⟩

theorem atMost_one (h : Scalar.le v.lower (.finite 1) = true) : v.lower.AtMost 1 := by
  have := Extended.atMost_ratCast.mpr h
  simpa using this

theorem atLeast_zero (h : Scalar.le (.finite 0) v.upper = true) : v.upper.AtLeast 0 := by
  have := Extended.atLeast_ratCast.mpr h
  simpa using this

/-- Bounds without issue leave a binary variable a value. -/
theorem values_nonempty (hi : v.issue? = none) (hle : Scalar.le v.lower v.upper = true)
    (ht : v.varType = .boolean) : v.values.Nonempty := by
  obtain ⟨hone, hzero, hceil⟩ := bounds_of_issue hi hle ht
  by_cases hl : Scalar.le v.lower (.finite 0) = true
  · refine ⟨0, by rw [ht]; exact .inl rfl, ?_, atLeast_zero hzero⟩
    have := Extended.atMost_ratCast.mpr hl
    simpa using this
  · refine ⟨1, by rw [ht]; exact .inr rfl, atMost_one hone, ?_⟩
    -- above zero and not above one, the lower bound rounds up to one
    have hc : (Scalar.ceil v.lower : Extended) = .finite 1 := by
      change Extended.le v.lower (.finite 1) = true at hone
      change ¬Extended.le v.lower (.finite 0) = true at hl
      rcases hv : v.lower with _ | ⟨_ | _⟩ | q
      · simp [hv, Extended.le] at hone
      · simp [hv, Extended.le] at hone
      · simp [hv, Extended.le] at hl
      · have hq1 : q.ceil ≤ 1 := Rat.ceil_le_iff.mpr (by simpa [hv, Extended.le] using hone)
        have hq0 : ¬q.ceil ≤ 0 := fun h => hl (by
          simpa [hv, Extended.le] using Rat.ceil_le_iff.mp h)
        have hq : q.ceil = 1 := by omega
        change Extended.finite (q.ceil : ℚ) = .finite 1
        rw [hq, Int.cast_one]
    rw [hc] at hceil
    have := Extended.atLeast_ratCast.mpr hceil
    simpa using this

/-- The column of a binary variable leaves no other values just when its bounds rule them out. -/
theorem column_values_eq_iff (hi : v.issue? = none) (hle : Scalar.le v.lower v.upper = true)
    (ht : v.varType = .boolean) :
    v.column.values = v.values ↔
      Scalar.lt (.finite (-1)) v.lower = true ∧ Scalar.lt v.upper (.finite 2) = true := by
  obtain ⟨hl, hu⟩ := Extended.ne_undefined_of_le hle
  obtain ⟨hone, hzero, -⟩ := bounds_of_issue hi hle ht
  constructor
  · intro heq
    have hout (n : ℤ) (hlower : v.lower.AtMost n) (hupper : v.upper.AtLeast n) :
        n = 0 ∨ n = 1 := by
      have hn : (n : ℝ) ∈ v.values := heq ▸ ⟨fun _ => ⟨n, rfl⟩, hlower, hupper⟩
      have hn' : (n : ℝ) ∈ v.varType.values := hn.1
      rw [ht] at hn'
      have hn' : (n : ℝ) = 0 ∨ (n : ℝ) = 1 := hn'
      exact_mod_cast hn'
    constructor
    · by_contra hlt
      have hm := Extended.atMost_ratCast.mpr
        (Extended.le_of_not_lt nofun hl (Bool.not_eq_true _ ▸ hlt))
      have := hout (-1) (by simpa using hm) ((atLeast_zero hzero).mono (by norm_num))
      omega
    · by_contra hlt
      have hm := Extended.atLeast_ratCast.mpr
        (Extended.le_of_not_lt hu nofun (Bool.not_eq_true _ ▸ hlt))
      have := hout 2 ((atMost_one hone).mono (by norm_num)) (by simpa using hm)
      omega
  · rintro ⟨hlower, hupper⟩
    refine Set.Subset.antisymm ?_ v.values_subset_column
    rintro x ⟨hx, hlx, hux⟩
    obtain ⟨n, rfl⟩ := hx (by rw [column, ht]; rfl)
    have hn1 : (-1 : ℤ) < n := by exact_mod_cast Extended.lt_of_atMost hlx hlower
    have hn2 : n < 2 := by exact_mod_cast Extended.lt_of_atLeast hux hupper
    refine ⟨?_, hlx, hux⟩
    rw [ht]
    have hn : n = 0 ∨ n = 1 := by omega
    rcases hn with rfl | rfl
    · exact .inl Int.cast_zero
    · exact .inr Int.cast_one

end Variable

namespace Run

variable {oracle : Oracle Extended}

/-- Once a model is initialized, the column of each variable leaves a solver the values of the
variable, and no others if the variable is real or whole. A binary one has a value; its column
leaves all whole numbers within the bounds, which are the values only if the bounds are narrow
enough. -/
theorem column_domain {start : Matrix.State Extended} {s : Run (matrix oracle) ω}
    (h : s.Reachable start) (hs : s.model.stage = .initialized ∨ s.model.stage = .solved) :
    ∃ p, s.model.adapter.problem = some p ∧ ∀ id v, s.model.entity .var id = .ok v →
      ∃ i c, s.model.columns.find? id = some i ∧ p.columns[i]? = some c ∧ v.values ⊆ c.values ∧
        (v.varType ≠ .boolean → c.values = v.values) ∧
        (v.varType = .boolean → v.values.Nonempty ∧ (c.values = v.values ↔
          Scalar.lt (.finite (-1)) v.lower = true ∧ Scalar.lt v.upper (.finite 2) = true)) := by
  have hm : s.model.Regular := h.regular fun _ => ⟨rfl, rfl⟩
  have hissues := (Model.issues_eq_nil.mp (h.sound hs)).1
  obtain ⟨p, hp, ha⟩ := h.assembles hs
  refine ⟨p, hp, fun id v hv => ?_⟩
  obtain ⟨q, hq, rfl⟩ := Registry.entity_eq_ok.mp hv
  obtain ⟨i, hi⟩ : ∃ i, s.model.columns.find? id = some i := by
    rw [← Table.contains_iff, ← Table.mem_keys, ha.columnKeys, Table.mem_keys]
    exact Table.contains_of_find? hq
  have hcolumn : p.columns[i]? = some q.entity.column := by
    rw [ha.column hm hq hi, Variable.column, (hm.vars.entities id q hq).2.1]
  have hissue : q.entity.issue? = none :=
    hissues _ (List.mem_map_of_mem (Table.find?_eq_some_iff.mp hq))
  have hle := (hm.bounds id q hq).1
  exact ⟨i, _, hi, hcolumn, q.entity.values_subset_column, Variable.column_values, fun ht =>
    ⟨Variable.values_nonempty hissue hle ht, Variable.column_values_eq_iff hissue hle ht⟩⟩

/-- A binary variable with bounds that are too wide for it. -/
def wide : Run (matrix fun _ _ (_ : Problem Extended) => ⟨.status .optimal, []⟩) Unit :=
  (new ⟨0⟩ "wide" ({} : Matrix.State Extended) ()).after <| .declare <|
    .act (.createVariable "b" .boolean (.finite 0) (.finite 3) (.default .var)) fun r =>
      .finish (discard r)

theorem initialized_wide : (wide.after .init).Reachable ({} : Matrix.State Extended) ∧
    (wide.after .init).model.stage = .initialized ∧
    (wide.after .init).model.entity .var "b" =
      .ok ⟨"b", .boolean, .finite 0, .finite 3, ⟨0⟩, none⟩ ∧
    (wide.after .init).model.adapter.problem.map (·.columns) =
      some [⟨"b", .finite 0, .finite 3, true⟩] ∧
    (wide.after .init).model.columns.find? "b" = some 0 := by
  refine ⟨((Reachable.new _ _ _).after _).after _, ?_⟩
  rw [after_init_idle (fun k => by cases k <;> rfl) rfl
    rfl rfl]
  exact ⟨rfl, rfl, rfl, rfl⟩

theorem column_domain_wide :
    let s := wide.after .init
    s.Reachable ({} : Matrix.State Extended) ∧ s.model.stage = .initialized ∧
      ∃ p v i c, s.model.adapter.problem = some p ∧ s.model.entity .var "b" = .ok v ∧
        s.model.columns.find? "b" = some i ∧ p.columns[i]? = some c ∧ v.values ⊆ c.values ∧
        v.values.Nonempty ∧ c.values ≠ v.values := by
  obtain ⟨hs, hstage, hv, -⟩ := initialized_wide
  obtain ⟨p, hp, hall⟩ := column_domain hs (.inl hstage)
  obtain ⟨i, c, hi, hc, hsub, -, hbinary⟩ := hall "b" _ hv
  obtain ⟨hne, hiff⟩ := hbinary rfl
  refine ⟨hs, hstage, p, _, i, c, hp, hv, hi, hc, hsub, hne, fun heq => ?_⟩
  exact absurd (hiff.mp heq).2 (by decide)

/-- A solver may answer two for this variable, which is not one of its values. -/
theorem wide_column_admits_two :
    let s := wide.after .init
    s.Reachable ({} : Matrix.State Extended) ∧ s.model.stage = .initialized ∧
      ∃ p v c, s.model.adapter.problem = some p ∧ s.model.entity .var "b" = .ok v ∧
        s.model.columns.find? "b" = some 0 ∧ p.columns[0]? = some c ∧
        (2 : ℝ) ∈ c.values ∧ (2 : ℝ) ∉ v.values := by
  obtain ⟨hs, hstage, hv, hp, hi⟩ := initialized_wide
  obtain ⟨p, hp, hc⟩ := Option.map_eq_some_iff.mp hp
  refine ⟨hs, hstage, p, _, _, hp, hv, hi, by rw [hc]; rfl, ?_, ?_⟩
  · refine ⟨fun _ => ⟨2, by norm_num⟩, ?_, ?_⟩
    · norm_num [Extended.AtMost]
    · norm_num [Extended.AtLeast]
  · rintro ⟨h | h, -⟩ <;> norm_num at h

end Run
end Milp
