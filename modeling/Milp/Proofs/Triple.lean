/-! Pre- and postconditions of work on a state that may fail: of edits, of steps, and of hooks. -/
namespace Milp

variable {ε σ β γ : Type}

theorem bind_apply (x : ExceptT ε (StateM σ) β) (f : β → ExceptT ε (StateM σ) γ) (s : σ) :
    (x >>= f) s = match x s with
      | (.ok b, t) => f b t
      | (.error e, t) => (.error e, t) := by
  change (match x s with | (r, t) => ExceptT.bindCont f r t) = _
  match x s with
  | (.ok b, t) => rfl
  | (.error e, t) => rfl

theorem apply_bind_eq_ok {x : ExceptT ε (StateM σ) β} {f : β → ExceptT ε (StateM σ) γ} {s u : σ} {c : γ}
    (h : (x >>= f) s = (.ok c, u)) : ∃ b t, x s = (.ok b, t) ∧ f b t = (.ok c, u) := by
  rw [bind_apply] at h
  match hx : x s with
  | (.ok b, t) =>
    rw [hx] at h
    exact ⟨b, t, rfl, h⟩
  | (.error e, t) =>
    rw [hx] at h
    cases h

theorem tryCatch_apply (x : ExceptT ε (StateM σ) β) (f : ε → ExceptT ε (StateM σ) β) (s : σ) :
    (tryCatch x f) s = match x s with
      | (.ok b, t) => (.ok b, t)
      | (.error e, t) => f e t := by
  change (match x s with | (r, t) => (match r with
    | .ok b => pure (.ok b)
    | .error e => f e : StateM σ (Except ε β)) t) = _
  match x s with
  | (.ok b, t) => rfl
  | (.error e, t) => rfl

/-- From a state with `P`, the work ends in one with `Q`, or fails in one with `E`. -/
def Triple (P : σ → Prop) (x : ExceptT ε (StateM σ) β) (Q : β → σ → Prop) (E : ε → σ → Prop) :
    Prop :=
  ∀ s, P s → match x s with
    | (.ok b, t) => Q b t
    | (.error e, t) => E e t

namespace Triple

variable {P : σ → Prop} {x : ExceptT ε (StateM σ) β} {Q : β → σ → Prop} {E : ε → σ → Prop}

theorem ok (h : Triple P x Q E) {s t : σ} {b : β} (hs : P s) (hx : x s = (.ok b, t)) : Q b t := by
  have := h s hs
  rwa [hx] at this

theorem error (h : Triple P x Q E) {s t : σ} {e : ε} (hs : P s) (hx : x s = (.error e, t)) :
    E e t := by
  have := h s hs
  rwa [hx] at this

theorem of_error (h : Triple P x Q E) {s : σ} {e : ε} (hs : P s) (hx : (x s).1 = .error e) :
    E e (x s).2 :=
  h.error hs (Prod.ext hx rfl)

/-- What holds after every end holds of the state that is left. -/
theorem after {I : σ → Prop} (h : Triple P x (fun _ => I) fun _ => I) {s : σ} (hs : P s) :
    I (x s).2 := by
  have := h s hs
  revert this
  match x s with
  | (.ok b, t) => exact id
  | (.error e, t) => exact id

theorem of_after {I : σ → Prop} (h : ∀ s, P s → I (x s).2) :
    Triple P x (fun _ => I) fun _ => I := by
  intro s hs
  have hx := h s hs
  revert hx
  match x s with
  | (.ok b, t) => exact id
  | (.error e, t) => exact id

theorem imp {P' : σ → Prop} {Q' : β → σ → Prop} {E' : ε → σ → Prop} (h : Triple P x Q E)
    (hP : ∀ s, P' s → P s) (hQ : ∀ b s, Q b s → Q' b s) (hE : ∀ e s, E e s → E' e s) :
    Triple P' x Q' E' := by
  intro s hs
  have := h s (hP s hs)
  revert this
  match x s with
  | (.ok b, t) => exact hQ b t
  | (.error e, t) => exact hE e t

theorem and {P' : σ → Prop} {Q' : β → σ → Prop} {E' : ε → σ → Prop} (h : Triple P x Q E)
    (h' : Triple P' x Q' E') :
    Triple (fun s => P s ∧ P' s) x (fun b s => Q b s ∧ Q' b s) fun e s => E e s ∧ E' e s := by
  intro s hs
  have hx := h s hs.1
  have hx' := h' s hs.2
  revert hx hx'
  match x s with
  | (.ok b, t) => exact fun hQ hQ' => ⟨hQ, hQ'⟩
  | (.error e, t) => exact fun hE hE' => ⟨hE, hE'⟩

theorem pure {b : β} (h : ∀ s, P s → Q b s) : Triple P (Pure.pure b : ExceptT ε (StateM σ) β) Q E :=
  h

theorem throw {e : ε} (h : ∀ s, P s → E e s) :
    Triple P (MonadExcept.throw e : ExceptT ε (StateM σ) β) Q E :=
  h

theorem bind {f : β → ExceptT ε (StateM σ) γ} {R : γ → σ → Prop} (h : Triple P x Q E)
    (hf : ∀ b, Triple (Q b) (f b) R E) : Triple P (x >>= f) R E := by
  intro s hs
  have hx := h s hs
  revert hx
  rw [bind_apply]
  match x s with
  | (.ok b, t) => exact hf b t
  | (.error e, t) => exact id

theorem at_state (h : ∀ s, P s → Triple (fun t => t = s) x Q E) : Triple P x Q E :=
  fun s hs => h s hs s rfl

/-- The precondition is known of the state that the work starts in. -/
theorem from_state (h : Triple P x Q E) {s : σ} (hs : P s) : Triple (fun t => t = s) x Q E := by
  rintro t rfl
  exact h t hs

/-- A step that answers with the state itself. -/
theorem get_bind {f : σ → ExceptT ε (StateM σ) γ} {R : γ → σ → Prop}
    (h : ∀ s, P s → Triple (fun t => t = s) (f s) R E) : Triple P (get >>= f) R E :=
  fun s hs => h s hs s rfl

theorem modify {f : σ → σ} {Q : PUnit → σ → Prop} (h : ∀ s, P s → Q ⟨⟩ (f s)) :
    Triple P (modify f : ExceptT ε (StateM σ) PUnit) Q E := h

/-- Work behind a check that may stop it. -/
theorem guard {c : Prop} [Decidable c] {e : ε} (he : c → ∀ s, P s → E e s)
    (h : ¬c → Triple P x Q E) :
    Triple P (if c then MonadExcept.throw e >>= fun _ : PUnit => x else x) Q E := by
  split
  next hc => exact (throw (Q := fun _ _ => False) (he hc)).bind fun _ _ h => h.elim
  next hc => exact h hc

/-- A loop keeps what speaks of the part of the list that is done. -/
theorem forM {l : List γ} {f : γ → ExceptT ε (StateM σ) PUnit} (I : List γ → σ → Prop)
    (h : ∀ done c rest, l = done ++ c :: rest →
      Triple (I done) (f c) (fun _ => I (done ++ [c])) E) :
    Triple (I []) (l.forM f) (fun _ => I l) E := by
  have step (rest : List γ) : ∀ done, l = done ++ rest →
      Triple (I done) (rest.forM f) (fun _ => I l) E := by
    induction rest with
    | nil =>
      intro done hl
      rw [hl, List.append_nil]
      exact pure fun s hs => hs
    | cons c rest ih =>
      intro done hl
      exact (h done c rest hl).bind fun _ => ih (done ++ [c]) (by simp [hl])
  exact step l [] rfl

theorem tryCatch {f : ε → ExceptT ε (StateM σ) β} {E' : ε → σ → Prop} (h : Triple P x Q E)
    (hf : ∀ e, Triple (E e) (f e) Q E') : Triple P (tryCatch x f) Q E' := by
  intro s hs
  have hx := h s hs
  revert hx
  rw [tryCatch_apply]
  match x s with
  | (.ok b, t) => exact id
  | (.error e, t) => exact hf e t

end Triple
end Milp
