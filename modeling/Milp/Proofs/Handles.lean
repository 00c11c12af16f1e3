import Milp.Adapter.Matrix
import Milp.Adapter.Recorder
import Milp.Proofs.Invariance
import Milp.Proofs.Transparency

/-! Every variable that an adapter is asked about has a handle, and an initialized model has no
issues. -/
namespace Milp

variable {α η κ ω : Type} {A : Adapter α η κ}

namespace Model

variable [Scalar α] {m : Model A.observed}

theorem Valid.resolved (h : m.Valid) : ∀ q ∈ m.requests, q.Resolved := by
  cases h with
  | declaring _ h => simp [Model.requests, h.exchanges]
  | ready _ h => exact h.resolved
  | failed _ h => exact h.resolved

theorem Valid.sound (h : m.Valid) (hs : m.stage = .initialized ∨ m.stage = .solved) :
    m.issues = [] := by
  cases h with
  | declaring h => simp_all
  | ready _ h =>
    obtain ⟨_, _, _, hm, -⟩ := h
    exact hm.sound
  | failed h => simp_all

end Model

section Lookups

variable {σ β γ : Type} {M : String → Prop}

/-- The hook misses only handles of these variables. -/
def MissesOnly (M : String → Prop) (h : Hook σ β) : Prop :=
  Triple (fun _ => True) h (fun _ _ => True) fun e _ => ∀ n, e = .missingHandle n → M n

theorem missesOnly_bind {h : Hook σ β} {f : β → Hook σ γ} (hh : MissesOnly M h)
    (hf : ∀ b, MissesOnly M (f b)) :
    MissesOnly M (h >>= f) := Triple.bind hh hf

theorem missesOnly_pure (b : β) : MissesOnly M (pure b : Hook σ β) := Triple.pure fun _ _ => trivial

theorem missesOnly_throw {e : AdapterError} (h : ∀ n, e ≠ .missingHandle n) :
    MissesOnly M (throw e : Hook σ β) :=
  Triple.throw fun _ _ n hn => absurd hn (h n)

theorem missesOnly_modify (f : σ → σ) : MissesOnly M (modify f : Hook σ PUnit) := fun _ _ => trivial

theorem missesOnly_get {f : σ → Hook σ β} (h : ∀ s, MissesOnly M (f s)) :
    MissesOnly M (get >>= f) :=
  Triple.get_bind fun s _ => (h s).imp (fun _ _ => trivial) (fun _ _ h => h) (fun _ _ h => h)

theorem missesOnly_forM {l : List γ} {f : γ → Hook σ PUnit} (h : ∀ c ∈ l, MissesOnly M (f c)) :
    MissesOnly M (l.forM f) :=
  Triple.forM (fun _ _ => True) fun _ c _ hl => h c (by simp [hl])

theorem missesOnly_except {x : Except AdapterError β}
    (h : ∀ n, x = .error (.missingHandle n) → M n) : MissesOnly M (liftExcept x : Hook σ β) := by
  intro s _
  cases x with
  | ok b => trivial
  | error e => exact fun n hn => h n (hn ▸ rfl)

theorem require_eq_error {columns : Handles η} {id n : String} :
    columns.require id = .error (.missingHandle n) ↔ n = id ∧ columns.contains id = false := by
  rw [← Table.find?_eq_none_iff, Handles.require]
  cases h : columns.find? id with
  | some x => simp
  | none => simp [eq_comm]

theorem missesOnly_require {columns : Handles η} {id : String}
    (h : columns.contains id = false → M id) :
    MissesOnly M (discard (liftExcept (columns.require id)) : Hook σ Unit) := by
  refine missesOnly_bind (missesOnly_except fun n hn => ?_) fun _ => missesOnly_pure _
  obtain ⟨rfl, hc⟩ := require_eq_error.mp hn
  exact h hc

theorem MissesOnly.of_error {h : Hook σ β} (hh : MissesOnly M h) {s : σ} {n : String}
    (he : (h s).1 = .error (.missingHandle n)) : M n := Triple.of_error hh trivial he n rfl

end Lookups

namespace Recorder

variable [Scalar α] {M : String → Prop}

omit [Scalar α] in
theorem missesOnly_record : MissesOnly M (record (α := α)) :=
  missesOnly_get fun s => by
    split
    · exact missesOnly_pure _
    · exact missesOnly_throw nofun

omit [Scalar α] in
theorem missesOnly_initConstraint (row : Row α) (columns : Handles Nat) :
    MissesOnly (fun n => n ∈ row.terms.map (·.1) ∧ columns.contains n = false)
      (initConstraint row columns) :=
  missesOnly_bind (missesOnly_forM fun _ ht => missesOnly_require fun hc =>
    ⟨List.mem_map_of_mem ht, hc⟩) fun _ =>
    missesOnly_bind missesOnly_record fun _ => missesOnly_bind (missesOnly_modify _) fun _ =>
      missesOnly_pure _

theorem missesOnly_initObjective (o : Objective α) (columns : Handles Nat) :
    MissesOnly (fun n => n ∈ o.expression.names ∧ columns.contains n = false)
      (initObjective o columns) :=
  missesOnly_bind (missesOnly_forM fun id hid => missesOnly_require fun hc =>
    ⟨(o.expression.contains_linearPart id).mp (Table.mem_keys.mp hid), hc⟩) fun _ =>
      missesOnly_bind missesOnly_record fun _ => missesOnly_modify _

theorem looksUpGiven : (recorder α).LooksUpGiven where
  model _ _ _ := (missesOnly_modify (M := fun _ => False) _).of_error
  var _ _ _ := (missesOnly_bind (M := fun _ => False) missesOnly_record fun _ =>
    missesOnly_bind (missesOnly_modify _) fun _ => missesOnly_pure _).of_error
  constraint _ row columns _ _ := (missesOnly_initConstraint row columns).of_error
  objective o columns _ _ := (missesOnly_initObjective o columns).of_error
  compute _ _ _ := (missesOnly_bind (M := fun _ => False) (missesOnly_bind
    (missesOnly_bind missesOnly_record fun _ => missesOnly_pure _) fun _ => missesOnly_get fun _ =>
      missesOnly_pure _) fun _ => missesOnly_pure _).of_error
  extract _ _ _ := (missesOnly_get (M := fun _ => False) fun _ => missesOnly_pure _).of_error

end Recorder

namespace Matrix

variable [Scalar α] {M : String → Prop}

omit [Scalar α] in
theorem missesOnly_problem : MissesOnly M (problem (α := α)) :=
  missesOnly_get fun s => by
    split
    · exact missesOnly_pure _
    · exact missesOnly_throw nofun

omit [Scalar α] in
theorem mem_of_indexed_eq_error {terms : List (String × α)} {columns : Handles Nat} {n : String}
    (h : indexed terms columns = .error (.missingHandle n)) :
    n ∈ terms.map (·.1) ∧ columns.contains n = false := by
  induction terms with
  | nil => cases h
  | cons t rest ih =>
    rw [indexed, List.mapM_cons] at h
    cases hr : columns.require t.1 with
    | error e =>
      rw [hr] at h
      cases h
      obtain ⟨rfl, hc⟩ := require_eq_error.mp hr
      exact ⟨by simp, hc⟩
    | ok i =>
      rw [hr] at h
      cases hi : indexed rest columns with
      | error e =>
        unfold indexed at hi
        rw [hi] at h
        cases h
        obtain ⟨hn, hc⟩ := ih hi
        exact ⟨List.mem_cons_of_mem _ hn, hc⟩
      | ok fs =>
        unfold indexed at hi
        rw [hi] at h
        cases h

omit [Scalar α] in
theorem missesOnly_initConstraint (c : Constraint α) (row : Row α) (columns : Handles Nat) :
    MissesOnly (fun n => n ∈ row.terms.map (·.1) ∧ columns.contains n = false)
      (initConstraint c row columns) :=
  missesOnly_bind (missesOnly_except fun _ h => mem_of_indexed_eq_error h) fun _ =>
    missesOnly_bind missesOnly_problem fun _ => missesOnly_bind (missesOnly_modify _) fun _ =>
      missesOnly_pure _

theorem missesOnly_initObjective (o : Objective α) (columns : Handles Nat) :
    MissesOnly (fun n => n ∈ o.expression.names ∧ columns.contains n = false)
      (initObjective o columns) := by
  refine missesOnly_bind (missesOnly_except fun n h => ?_) fun _ =>
    missesOnly_bind missesOnly_problem fun _ =>
    missesOnly_modify _
  obtain ⟨hn, hc⟩ := mem_of_indexed_eq_error h
  have hn : n ∈ o.expression.reduce.linearPart.keys := hn
  rw [Table.mem_keys, Expression.contains_linearPart, Expression.names_reduce,
    List.mem_eraseDups] at hn
  exact ⟨hn, hc⟩

omit [Scalar α] in
theorem checkLines_ne (p : Problem α) (n : String) : checkLines p ≠ .error (.missingHandle n) := by
  intro h
  obtain ⟨l, -, hl⟩ := exists_of_forM_eq_error h
  obtain ⟨f, -, hf⟩ := exists_of_forM_eq_error hl
  split at hf <;> cases hf

theorem missesOnly_compute (oracle : Oracle α) : MissesOnly M (compute oracle) :=
  missesOnly_bind missesOnly_problem fun p =>
    missesOnly_bind (missesOnly_except fun n h => absurd h (checkLines_ne p n)) fun _ =>
      missesOnly_get fun _ => missesOnly_bind (missesOnly_modify _) fun _ => missesOnly_pure _

omit [Scalar α] in
theorem missesOnly_extract (columns : Handles Nat) : MissesOnly M (extract (α := α) columns) :=
  missesOnly_bind (missesOnly_bind missesOnly_problem fun _ => missesOnly_pure _) fun _ =>
    missesOnly_get fun s => by
    split <;> exact missesOnly_pure _

theorem looksUpGiven (oracle : Oracle α) : (matrix oracle).LooksUpGiven where
  model _ _ _ := (missesOnly_modify (M := fun _ => False) _).of_error
  var _ _ _ := (missesOnly_bind (M := fun _ => False) missesOnly_problem fun _ =>
    missesOnly_bind (missesOnly_modify _) fun _ => missesOnly_pure _).of_error
  constraint c row columns _ _ := (missesOnly_initConstraint c row columns).of_error
  objective o columns _ _ := (missesOnly_initObjective o columns).of_error
  compute _ _ _ := (missesOnly_compute (M := fun _ => False) oracle).of_error
  extract columns _ _ := (missesOnly_extract (M := fun _ => False) columns).of_error

end Matrix

namespace Run

variable [Unbounded α]

theorem Reachable.answers {start : A.State} {s : Run A.observed ω} (h : s.Reachable (start, [])) :
    A.Answers start s.model.exchanges s.model.adapter.1 := by
  have hnew (token : Token) (id : String) :
      A.Answers start (Model.new (A := A.observed) token id (start, [])).exchanges start := rfl
  refine h.invariant (J := fun m => A.Answers start m.exchanges m.adapter.1)
    (fun m m' ht hm => ?_) hnew
  cases ht with
  | change h =>
    have ha : m'.adapter = m.adapter := h.grows.adapter
    rw [Model.exchanges, ha]
    exact hm
  | answer q =>
    rw [Adapter.answer_observed]
    exact Adapter.answers_append.mpr ⟨m.adapter.1, hm, rfl, rfl⟩
  | _ => exact hm

/-- An initialized model has no issues. -/
theorem Reachable.sound {start : A.State} {s : Run A ω} (h : s.Reachable start)
    (hs : s.model.stage = .initialized ∨ s.model.stage = .solved) : s.model.issues = [] := by
  obtain ⟨t, ht, hts⟩ := h.observed
  have hi := ht.valid.sound (hts.stage ▸ hs)
  rw [← hts.model]
  exact hi

/-- In every life of a model, each row and each objective that the adapter is given comes with the
handles of all variables in it. An adapter that looks up only those misses none, and an initialized
model has no issues. -/
theorem requests_resolved (token : Token) (id : String) (start : A.State) (world : ω)
    (os : List (Operation A ω)) :
    let s := (new token id start world).afterAll os
    let t := (new (A := A.observed) token id (start, []) world).afterAll (os.map Operation.observed)
    t.Observes s ∧ A.Answers start t.model.exchanges t.model.adapter.1 ∧
      (∀ q ∈ t.model.requests, q.Resolved) ∧
      (A.LooksUpGiven → ∀ x ∈ t.model.exchanges, ¬x.Missing) ∧
      (s.model.stage = .initialized ∨ s.model.stage = .solved → s.model.issues = []) := by
  intro s t
  have hts : t.Observes s := (observes_new token id start world).afterAll os
  have ht : t.Reachable (start, []) := (Reachable.new token id world).afterAll _
  have hresolved := ht.valid.resolved
  refine ⟨hts, ht.answers, hresolved, fun hA x hx => ?_, fun hs => ?_⟩
  · obtain ⟨σ, hσ⟩ := ht.answers.exists_state x hx
    rintro ⟨n, hn⟩
    exact hA.answer (hresolved x.request (List.mem_map_of_mem hx)) σ n (hσ.symm.trans hn)
  · have hi := ht.valid.sound (hts.stage ▸ hs)
    rw [← hts.model]
    exact hi

end Run
end Milp
