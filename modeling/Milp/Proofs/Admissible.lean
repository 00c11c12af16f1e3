import Milp.Proofs.Domains
import Milp.Proofs.Readings

/-! What a validation says about bounds. It reports a variable just when its bounds leave it no value,
and then once. -/
namespace Milp

namespace Extended

variable {b c : Extended}

/-- A whole number between two bounds shows that the lower one, rounded up, is not above the other. -/
theorem not_lt_ceil {n : ℤ} (hb : b.AtMost n) (hc : c.AtLeast n) :
    Scalar.lt c (Scalar.ceil b) = false := by
  have hc' : Scalar.le (.finite n) c = true := atLeast_ratCast.mp (by simpa using hc)
  have hceil : Scalar.le (Scalar.ceil b) c = true := by
    rcases b with _ | ⟨_ | _⟩ | q
    · exact hb.elim
    · cases hb
    · rcases c with _ | ⟨_ | _⟩ | r
      · exact hc.elim
      · rfl
      · cases hc
      · rfl
    · have hqn : (q : ℝ) ≤ n := hb
      have hq : q.ceil ≤ n := Rat.ceil_le_iff.mpr (by exact_mod_cast hqn)
      rcases c with _ | ⟨_ | _⟩ | r
      · exact hc.elim
      · rfl
      · cases hc
      · have hnr : (n : ℝ) ≤ r := hc
        have hr : (n : ℚ) ≤ r := by exact_mod_cast hnr
        exact decide_eq_true ((Int.cast_le.mpr hq).trans hr)
  change (le c (ceil b) && !le (ceil b) c) = false
  rw [show le (ceil b) c = true from hceil, Bool.not_true, Bool.and_false]

/-- Bounds in order have a number between them. -/
theorem exists_between (hle : Scalar.le b c = true) (hb : b ≠ .infinite false)
    (hc : c ≠ .infinite true) : ∃ q : ℚ, b.AtMost q ∧ c.AtLeast q := by
  obtain ⟨hb', hc'⟩ := ne_undefined_of_le hle
  rcases b with _ | ⟨_ | _⟩ | q
  · exact absurd rfl hb'
  · exact absurd rfl hb
  · rcases c with _ | ⟨_ | _⟩ | r
    · exact absurd rfl hc'
    · exact ⟨0, rfl, rfl⟩
    · exact absurd rfl hc
    · exact ⟨r, rfl, le_refl _⟩
  · refine ⟨q, le_refl _, ?_⟩
    exact atLeast_ratCast.mpr hle

/-- A whole number is between them if the lower one, rounded up, is not above the other. -/
theorem exists_whole_between (hceil : Scalar.le (Scalar.ceil b) c = true) (hb : b ≠ .infinite false)
    (hc : c ≠ .infinite true) : ∃ n : ℤ, b.AtMost n ∧ c.AtLeast n := by
  obtain ⟨hb', hc'⟩ := ne_undefined_of_le hceil
  rcases b with _ | ⟨_ | _⟩ | q
  · exact absurd rfl hb'
  · exact absurd rfl hb
  · rcases c with _ | ⟨_ | _⟩ | r
    · exact absurd rfl hc'
    · exact ⟨0, rfl, rfl⟩
    · exact absurd rfl hc
    · have hfloor : (r.floor : ℚ) ≤ r := Rat.floor_le r
      have hr : ((r.floor : ℤ) : ℝ) ≤ r := by exact_mod_cast hfloor
      exact ⟨r.floor, rfl, hr⟩
  · have hround : q ≤ q.ceil := Rat.le_ceil
    have hq : (q : ℝ) ≤ (q.ceil : ℤ) := by exact_mod_cast hround
    have hupper := atLeast_ratCast.mpr hceil
    exact ⟨q.ceil, hq, by simpa using hupper⟩

end Extended

namespace Variable

variable {v : Variable Extended} {x : ℝ}

theorem issue?_of_mem_values (hx : x ∈ v.values) : v.issue? = none := by
  obtain ⟨htype, hlower, hupper⟩ := hx
  unfold issue?
  cases ht : v.varType with
  | double => rfl
  | integer =>
    rw [ht] at htype
    obtain ⟨n, rfl⟩ := htype
    simp [Extended.not_lt_ceil hlower hupper]
  | boolean =>
    rw [ht] at htype
    have hunit : ∃ n : ℤ, (n : ℝ) = x ∧ 0 ≤ n ∧ n ≤ 1 := by
      rcases htype with rfl | rfl
      · exact ⟨0, Int.cast_zero, by omega⟩
      · exact ⟨1, Int.cast_one, by omega⟩
    obtain ⟨n, rfl, h0, h1⟩ := hunit
    have hone : Scalar.lt Scalar.one v.lower = false := by
      refine Bool.eq_false_iff.mpr fun hlt => ?_
      have hn : ((1 : ℚ) : ℝ) < n := Extended.lt_of_atMost hlower hlt
      have : 1 < n := by exact_mod_cast hn
      omega
    have hzero : Scalar.lt v.upper Scalar.zero = false := by
      refine Bool.eq_false_iff.mpr fun hlt => ?_
      have hn : (n : ℝ) < ((0 : ℚ) : ℝ) := Extended.lt_of_atLeast hupper hlt
      have : n < 0 := by exact_mod_cast hn
      omega
    simp [hone, hzero, Extended.not_lt_ceil hlower hupper]

theorem values_nonempty_of_issue? (hi : v.issue? = none) (hle : Scalar.le v.lower v.upper = true)
    (hl : v.lower ≠ .infinite false) (hu : v.upper ≠ .infinite true) : v.values.Nonempty := by
  cases ht : v.varType with
  | double =>
    obtain ⟨q, hlower, hupper⟩ := Extended.exists_between hle hl hu
    exact ⟨q, by rw [ht]; trivial, hlower, hupper⟩
  | integer =>
    obtain ⟨hl', hu'⟩ := Extended.ne_undefined_of_le hle
    have hlt : Scalar.lt v.upper (Scalar.ceil v.lower) = false := by
      simpa [issue?, ht, VarType.isIntegral] using hi
    obtain ⟨n, hlower, hupper⟩ :=
      Extended.exists_whole_between (Extended.le_of_not_lt hu' (Extended.ceil_ne_undefined hl') hlt) hl hu
    exact ⟨n, by rw [ht]; exact ⟨n, rfl⟩, hlower, hupper⟩
  | boolean => exact values_nonempty hi hle ht

/-- There is an issue with bounds in order just when they leave no value. -/
theorem isSome_issue?_iff (hle : Scalar.le v.lower v.upper = true) (hl : v.lower ≠ .infinite false)
    (hu : v.upper ≠ .infinite true) : v.issue?.isSome = true ↔ v.values = ∅ := by
  constructor
  · intro hissue
    refine Set.eq_empty_iff_forall_notMem.mpr fun x hx => ?_
    rw [issue?_of_mem_values hx] at hissue
    cases hissue
  · intro hempty
    refine Option.isSome_iff_ne_none.mpr fun hi => ?_
    exact (values_nonempty_of_issue? hi hle hl hu).ne_empty hempty

/-- A variable as its doubles are read. -/
def exact (v : Variable Float) : Variable Extended :=
  { v with
    lower := Extended.ofFloat v.lower
    upper := Extended.ofFloat v.upper
    result := v.result.map Extended.ofFloat }

theorem isSome_issue? {α : Type} [Scalar α] (v : Variable α) : v.issue?.isSome =
    (decide (v.varType = .boolean) && (Scalar.lt Scalar.one v.lower || Scalar.lt v.upper Scalar.zero) ||
      v.varType.isIntegral && Scalar.lt v.upper (Scalar.ceil v.lower)) := by
  unfold issue?
  split
  next h => rw [h]; rfl
  next h =>
    rw [Bool.eq_false_iff.mpr h, Bool.false_or]
    split
    next h' => rw [h']; rfl
    next h' => rw [Bool.eq_false_iff.mpr h']; rfl

theorem isSome_issue?_exact (v : Variable Float) : v.exact.issue?.isSome = v.issue?.isSome := by
  rw [isSome_issue?, isSome_issue?]
  simp only [exact, ← Extended.ofFloat_zero, ← Extended.ofFloat_one, Extended.lt_ofFloat,
    Extended.ceil_ofFloat]
  rfl

/-- The variable was made by this library's factory; a solve may have found a result for it since. -/
def Accepted {α : Type} [Scalar α] (v : Variable α) : Prop :=
  ∃ owner id varType lower upper, new owner id varType lower upper = .ok v.forget

theorem Accepted.le {α : Type} [Scalar α] {v : Variable α} (h : v.Accepted) :
    Scalar.le v.lower v.upper = true := by
  obtain ⟨owner, id, varType, lower, upper, hnew⟩ := h
  obtain ⟨-, hle, hv⟩ := new_eq_ok.mp hnew
  cases v
  cases hv
  exact hle

theorem Accepted.isSome_issue?_iff {v : Variable Float} (h : v.Accepted) (hl : v.lower ≠ Unbounded.infinity)
    (hu : v.upper ≠ Unbounded.negativeInfinity) : v.issue?.isSome = true ↔ v.exact.values = ∅ := by
  rw [← isSome_issue?_exact]
  refine v.exact.isSome_issue?_iff ?_ ?_ ?_
  · exact (Extended.le_ofFloat _ _).trans h.le
  · exact fun hlower => hl (Extended.eq_infinity_of_ofFloat hlower)
  · exact fun hupper => hu (Extended.eq_infinity_of_ofFloat hupper)

end Variable

/-- The variable that an issue with bounds is about. -/
def Issue.bounded? {α : Type} : Issue α → Option String
  | .outsideUnit id _ _ | .noInteger id _ _ => some id
  | _ => none

theorem Variable.bounded?_of_issue? {α : Type} [Scalar α] {v : Variable α} {issue : Issue α}
    (h : v.issue? = some issue) : issue.bounded? = some v.identifier := by
  unfold issue? at h
  split at h
  · cases h
    rfl
  · split at h <;> cases h
    rfl

namespace Model

section Reported

variable {α η κ : Type} [Scalar α] {A : Adapter α η κ}

/-- The issues with bounds, each under the identifier of its variable. -/
def reported (m : Model A) : Table (Issue α) where
  entries := m.vars.entities.entries.filterMap fun e => e.2.entity.issue?.map (e.1, ·)
  ascending := by
    refine m.vars.entities.ascending.filterMap _ fun e e' he f hf f' hf' => ?_
    obtain ⟨_, -, rfl⟩ := Option.map_eq_some_iff.mp hf
    obtain ⟨_, -, rfl⟩ := Option.map_eq_some_iff.mp hf'
    exact he

theorem find?_reported {m : Model A} {id : String} {issue : Issue α} :
    m.reported.find? id = some issue ↔
      ∃ v, m.entity .var id = .ok v ∧ v.issue? = some issue := by
  rw [Table.find?_eq_some_iff]
  simp only [reported, List.mem_filterMap, Option.map_eq_some_iff, Prod.mk.injEq]
  constructor
  · rintro ⟨⟨id', p⟩, he, _, hissue, rfl, rfl⟩
    exact ⟨p.entity, Registry.entity_eq_ok.mpr ⟨p, Table.find?_eq_some_iff.mpr he, rfl⟩, hissue⟩
  · rintro ⟨v, hv, hissue⟩
    obtain ⟨p, hp, rfl⟩ := Registry.entity_eq_ok.mp hv
    exact ⟨(id, p), Table.find?_eq_some_iff.mp hp, issue, hissue, rfl, rfl⟩

theorem contains_reported {m : Model A} {id : String} {v : Variable α} (hv : m.entity .var id = .ok v) :
    m.reported.contains id = v.issue?.isSome := by
  rw [Bool.eq_iff_iff, Table.contains_iff, Option.isSome_iff_exists]
  refine exists_congr fun issue => find?_reported.trans ⟨?_, fun h => ⟨v, hv, h⟩⟩
  rintro ⟨w, hw, hissue⟩
  rw [hv] at hw
  cases hw
  exact hissue

/-- They are all the issues with bounds that there are. -/
theorem filter_issues (m : Model A) : m.issues.filter (·.bounded?.isSome) = m.reported.values := by
  have hvars : m.vars.values.filterMap Variable.issue? = m.reported.values := by
    simp only [Registry.values, Table.values, reported, List.map_map, List.filterMap_map, List.map_filterMap]
    refine List.filterMap_congr fun e _ => ?_
    rw [Option.map_map]
    exact Option.map_id'.symm
  have hbounded : ∀ issue ∈ m.vars.values.filterMap Variable.issue?, issue.bounded?.isSome = true := by
    intro issue hissue
    obtain ⟨v, -, hv⟩ := List.mem_filterMap.mp hissue
    rw [Variable.bounded?_of_issue? hv]
    rfl
  have hconstraints : ∀ issue ∈ m.constraints.values.flatMap m.constraintIssues, issue.bounded? = none := by
    intro issue hissue
    obtain ⟨c, -, hc⟩ := List.mem_flatMap.mp hissue
    rcases List.mem_append.mp hc with hc | hc
    · split at hc
      · cases hc
      · rw [List.mem_singleton.mp hc]
        rfl
    · obtain ⟨id, -, rfl⟩ := List.mem_map.mp hc
      rfl
  obtain ⟨last, hissues, hobjective⟩ : ∃ last, m.issues = m.vars.values.filterMap Variable.issue? ++
      m.constraints.values.flatMap m.constraintIssues ++ last ∧ ∀ issue ∈ last, issue.bounded? = none := by
    refine ⟨_, rfl, fun issue hissue => ?_⟩
    cases ho : m.objective with
    | none =>
      rw [ho] at hissue
      cases hissue
    | some o =>
      rw [ho] at hissue
      obtain ⟨id, -, rfl⟩ := List.mem_map.mp hissue
      rfl
  rw [hissues, List.filter_append, List.filter_append, List.filter_eq_self.mpr hbounded, hvars,
    List.filter_eq_nil_iff.mpr fun issue h => by simp [hconstraints issue h],
    List.filter_eq_nil_iff.mpr fun issue h => by simp [hobjective issue h], List.append_nil, List.append_nil]

/-- Where no other variable has its identifier, that of a reported variable is named once. -/
theorem count_bounded {m : Model A} {id : String} {v : Variable α} (hv : m.entity .var id = .ok v)
    (hown : ∀ id' w, m.entity .var id' = .ok w → w.identifier = v.identifier → id' = id) :
    (m.issues.filterMap Issue.bounded?).count v.identifier = if m.reported.contains id then 1 else 0 := by
  have hnames : m.issues.filterMap Issue.bounded? = m.reported.entries.filterMap (·.2.bounded?) := by
    have hvalues : m.reported.values.filterMap Issue.bounded? =
        m.reported.entries.filterMap (·.2.bounded?) := List.filterMap_map
    rw [← hvalues, ← filter_issues, List.filterMap_filter]
    refine List.filterMap_congr fun issue _ => ?_
    cases issue.bounded? <;> rfl
  have hkey : ∀ e ∈ m.reported.entries, e.2.bounded? = some v.identifier ↔ e.1 = id := by
    intro e he
    obtain ⟨w, hw, hissue⟩ := find?_reported.mp (Table.find?_eq_some_iff.mpr he)
    rw [Variable.bounded?_of_issue? hissue, Option.some_inj]
    refine ⟨hown e.1 w hw, fun hid => ?_⟩
    rw [hid, hv] at hw
    cases hw
    rfl
  calc (m.issues.filterMap Issue.bounded?).count v.identifier
      = m.reported.entries.countP fun e => decide (e.2.bounded? = some v.identifier) := by
        rw [hnames, List.count, List.countP_filterMap]
        refine List.countP_congr fun e _ => ?_
        cases e.2.bounded? <;> simp
    _ = m.reported.entries.countP fun e => e.1 == id :=
        List.countP_congr fun e he => by simp [hkey e he]
    _ = m.reported.keys.count id := by
        rw [Table.keys, List.count, List.countP_map]
        rfl
    _ = if m.reported.contains id then 1 else 0 := by
        simp only [m.reported.nodup_keys.count, Table.mem_keys]

end Reported

variable {η κ : Type} {A : Adapter Float η κ}

/-- The issues with bounds are at most one for each variable, and name it. A variable from this library's
factory, with a lower bound that is not infinity and an upper bound that is not negative infinity, is among
them just when no number of its type lies within its bounds, which real variables cannot be. Its identifier
is then named once, unless another variable has it too. Without issues, every such variable has a value. -/
theorem bounds_reported (m : Model A) : ∃ reported : Table (Issue Float),
    m.issues.filter (·.bounded?.isSome) = reported.values ∧
    (∀ id issue, reported.find? id = some issue →
      ∃ v, m.entity .var id = .ok v ∧ issue.bounded? = some v.identifier) ∧
    ∀ id v, m.entity .var id = .ok v → v.Accepted → v.lower ≠ Unbounded.infinity →
      v.upper ≠ Unbounded.negativeInfinity →
      (reported.contains id = true ↔ v.exact.values = ∅) ∧
      (v.varType = .double → reported.contains id = false) ∧
      ((∀ id' w, m.entity .var id' = .ok w → w.identifier = v.identifier → id' = id) →
        (v.exact.values = ∅ → (m.issues.filterMap Issue.bounded?).count v.identifier = 1) ∧
        (v.exact.values.Nonempty → (m.issues.filterMap Issue.bounded?).count v.identifier = 0)) ∧
      (m.issues = [] → v.exact.values.Nonempty) := by
  refine ⟨m.reported, m.filter_issues, fun id issue h => ?_, fun id v hv ha hl hu => ?_⟩
  · obtain ⟨v, hv, hissue⟩ := find?_reported.mp h
    exact ⟨v, hv, Variable.bounded?_of_issue? hissue⟩
  have hiff : m.reported.contains id = true ↔ v.exact.values = ∅ := by
    rw [contains_reported hv]
    exact ha.isSome_issue?_iff hl hu
  refine ⟨hiff, fun ht => ?_, fun hown => ?_, fun hm => ?_⟩
  · rw [contains_reported hv, Variable.isSome_issue?, ht]
    rfl
  · rw [count_bounded hv hown]
    refine ⟨fun hempty => if_pos (hiff.mpr hempty), fun hne => if_neg fun hc => ?_⟩
    exact hne.ne_empty (hiff.mp hc)
  · refine Set.nonempty_iff_ne_empty.mpr fun hempty => ?_
    obtain ⟨issue, hissue⟩ := Table.contains_iff.mp (hiff.mpr hempty)
    have hmem : issue ∈ m.reported.values := List.mem_map_of_mem (Table.find?_eq_some_iff.mp hissue)
    rw [← filter_issues, hm] at hmem
    cases hmem

/-- A binary variable between one half and three quarters is not outside the unit interval, but has no
value. -/
theorem bounds_reported_half : ∃ (m : Model (recorder Float)) (v : Variable Float),
    (Model.new ⟨0⟩ "depot" {} : Model (recorder Float)).createVariable "open" .boolean 0.5 0.75 (.default .var) =
      .ok (v, m) ∧ m.entity .var "open" = .ok v ∧ v.Accepted ∧ v.lower ≠ Unbounded.infinity ∧
      v.upper ≠ Unbounded.negativeInfinity ∧
      (∀ id' w, m.entity .var id' = .ok w → w.identifier = v.identifier → id' = "open") ∧
      v.exact.values = ∅ ∧ (m.issues.filterMap Issue.bounded?).count "open" = 1 := by
  let v : Variable Float := ⟨"open", .boolean, 0.5, 0.75, ⟨0⟩, none⟩
  have hnew : Variable.new ⟨0⟩ "open" .boolean (0.5 : Float) 0.75 = .ok v :=
    Variable.new_eq_ok.mpr ⟨by decide, rfl, rfl⟩
  obtain ⟨m, hm⟩ : ∃ m, (Model.new ⟨0⟩ "depot" {} : Model (recorder Float)).createVariable "open" .boolean
      0.5 0.75 (.default .var) = .ok (v, m) := ⟨_, createVariable_eq_ok.mpr ⟨rfl, rfl, rfl, hnew, rfl⟩⟩
  obtain ⟨-, -, -, -, hm'⟩ := createVariable_eq_ok.mp hm
  have hv : m.entity .var "open" = .ok v := by
    rw [hm']
    rfl
  have hown : ∀ id' w, m.entity .var id' = .ok w → w.identifier = v.identifier → id' = "open" := by
    intro id' w hw _
    obtain ⟨p, hp, -⟩ := Registry.entity_eq_ok.mp hw
    rw [hm'] at hp
    change (Table.empty.insert "open" (⟨_, v⟩ : Placed (Variable Float))).find? id' = some p at hp
    rw [Table.find?_insert] at hp
    split at hp
    next h => exact h
    next => cases hp
  have hl : v.lower ≠ Unbounded.infinity := fun h => by
    have hfinite : Unbounded.isFinite v.lower = true := by decide
    rw [h, Binary64.not_isFinite_infinity] at hfinite
    cases hfinite
  have hu : v.upper ≠ Unbounded.negativeInfinity := fun h => by
    have hfinite : Unbounded.isFinite v.upper = true := by decide
    rw [h, Binary64.not_isFinite_negativeInfinity] at hfinite
    cases hfinite
  have ha : v.Accepted := ⟨_, _, _, _, _, hnew⟩
  have hempty : v.exact.values = ∅ := (ha.isSome_issue?_iff hl hu).mp (by decide)
  obtain ⟨reported, -, -, hreported⟩ := bounds_reported m
  obtain ⟨-, -, hcount, -⟩ := hreported "open" v hv ha hl hu
  exact ⟨m, v, hm, hv, ha, hl, hu, hown, hempty, (hcount hown).1 hempty⟩

end Model
end Milp
