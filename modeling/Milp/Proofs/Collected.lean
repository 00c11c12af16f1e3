import Milp.Capture
import Milp.Restore
import Milp.Proofs.Declaration
import Milp.Proofs.Extended

/-! Expressions that come back from their stored form: the collected terms, on another model. -/
namespace Milp

variable {α η κ : Type} {A : Adapter α η κ}

namespace Term

def withOwner (owner : Token) : Term α → Term α
  | .constant c => .constant c
  | .linear c id _ => .linear c id owner

variable (owner : Token) (t : Term α)

@[simp] theorem coefficient_withOwner : (t.withOwner owner).coefficient = t.coefficient := by
  cases t <;> rfl

@[simp] theorem name?_withOwner : (t.withOwner owner).name? = t.name? := by cases t <;> rfl

@[simp] theorem factor?_withOwner : (t.withOwner owner).factor? = t.factor? := by cases t <;> rfl

@[simp] theorem constant?_withOwner : (t.withOwner owner).constant? = t.constant? := by
  cases t <;> rfl

theorem le_withOwner [Scalar α] (s : Term α) :
    Term.le (s.withOwner owner) (t.withOwner owner) = Term.le s t := by
  simp only [Term.le, name?_withOwner, coefficient_withOwner]

end Term

namespace Expression

section Order

variable [Add α]

theorem absorb_of_absent {c : α} {id : String} {owner : Token} {ts : List (Term α)}
    (h : id ∉ ts.filterMap Term.name?) : absorb c id owner ts = ts ++ [.linear c id owner] := by
  induction ts with
  | nil => rfl
  | cons t rest ih =>
    cases t with
    | constant c' =>
      have hrest := ih (by simpa [List.filterMap_cons] using h)
      exact congrArg (Term.constant c' :: ·) hrest
    | linear c' id' owner' =>
      simp only [List.filterMap_cons, Term.name?_linear, List.mem_cons, not_or] at h
      rw [absorb, if_neg (Ne.symm h.1), ih h.2]
      rfl

/-- Terms of different variables are collected already. -/
theorem linearTerms_of_nodup {ts : List (Term α)} (hc : ts.filterMap Term.constant? = [])
    (hn : (ts.filterMap Term.name?).Nodup) : linearTerms ts = ts := by
  induction ts using List.reverseRecOn with
  | nil => rfl
  | append_singleton ts t ih =>
    rw [List.filterMap_append, List.append_eq_nil_iff] at hc
    rw [List.filterMap_append, List.nodup_append] at hn
    obtain ⟨hts, -, hne⟩ := hn
    rw [linearTerms_concat, ih hc.1 hts]
    cases t with
    | constant c => simp at hc
    | linear c id owner =>
      exact absorb_of_absent fun hm => hne id hm id (by simp) rfl

theorem linearTerms_append_constant (ts : List (Term α)) (c : α) :
    linearTerms (ts ++ [.constant c]) = linearTerms ts := linearTerms_concat ts _

end Order

variable [Scalar α]

/-- What comes back from the stored form of an expression, on the model with this token. -/
def collected (owner : Token) (e : Expression α) : Expression α :=
  ⟨owner, if e.reduce.terms.isEmpty && !e.isEmpty then [.constant Scalar.zero]
    else e.reduce.terms.map (Term.withOwner owner)⟩

theorem names_collected (owner : Token) (e : Expression α) :
    ∀ id ∈ (e.collected owner).names, id ∈ e.names := by
  intro id hid
  unfold collected names at hid
  split at hid
  next => cases hid
  next =>
    have hn : (e.reduce.terms.map (Term.withOwner owner)).filterMap Term.name? =
        e.reduce.names := by
      rw [List.filterMap_map]
      exact List.filterMap_congr fun t _ => t.name?_withOwner owner
    rw [hn, names_reduce, List.mem_eraseDups] at hid
    exact hid

/-- What has terms keeps some. -/
theorem isEmpty_collected_of_terms (owner : Token) {e : Expression α} (h : e.isEmpty = false) :
    (e.collected owner).isEmpty = false := by
  rw [collected, isEmpty]
  split
  next => rfl
  next hr => simpa [h] using hr

end Expression

theorem Row.absorbSide_withOwner [Add α] (sign : α → α) (acc : List (String × α)) (owner : Token)
    (ts : List (Term α)) :
    absorbSide sign acc (ts.map (Term.withOwner owner)) = absorbSide sign acc ts := by
  induction ts using List.reverseRecOn with
  | nil => rfl
  | append_singleton ts t ih =>
    rw [List.map_append, List.map_singleton, absorbSide_concat, absorbSide_concat, ih,
      Term.factor?_withOwner]

section Restoring

variable {m : Model A}

/-- The stored form of a term is read back as a term of this model. -/
theorem Model.restoreTerm_eq {t : Term α} {e : Expression α} (he : e.owner = m.token)
    (ht : ∀ id ∈ t.name?, ∃ p, m.vars.entities.find? id = some p ∧ p.entity.identifier = id ∧
      p.entity.owner = m.token) :
    (match t.name? with
      | none => .ok (e.addConstant t.coefficient)
      | some id => do e.addScaled t.coefficient (← m.entity .var id) :
        Except (ModelError α) (Expression α)) =
    .ok { e with terms := e.terms ++ [t.withOwner m.token] } := by
  cases t with
  | constant c => rfl
  | linear c id owner =>
    obtain ⟨p, hp, hpid, hpo⟩ := ht id rfl
    have hentity : m.entity .var id = .ok p.entity := Registry.entity_eq_ok.mpr ⟨p, hp, rfl⟩
    have hadd : e.addScaled c p.entity =
        .ok { e with terms := e.terms ++ [.linear c id m.token] } := by
      rw [Expression.addScaled, Term.ofVariable, Expression.addTerm,
        if_pos (hpo.trans he.symm), hpid, hpo]
    exact bind_eq_ok.mpr ⟨_, hentity, hadd⟩

variable [Scalar α]

/-- A stored expression comes back, when its variables are there. -/
theorem Model.restoreExpression_store {e : Expression α}
    (h : ∀ id ∈ e.names, ∃ p, m.vars.entities.find? id = some p ∧ p.entity.identifier = id ∧
      p.entity.owner = m.token) :
    m.restoreExpression e.store = .ok (e.collected m.token) := by
  have hfold (ts : List (Term α)) (e' : Expression α) (he' : e'.owner = m.token)
      (hts : ∀ t ∈ ts, ∀ id ∈ t.name?, ∃ p, m.vars.entities.find? id = some p ∧
        p.entity.identifier = id ∧ p.entity.owner = m.token) :
      (ts.map fun t => (⟨t.coefficient, t.name?⟩ : Stored.Term α)).foldlM
        (fun e t => match t.id with
        | none => (.ok (e.addConstant t.coefficient) : Except (ModelError α) (Expression α))
        | some id => do e.addScaled t.coefficient (← m.entity .var id)) e' =
      .ok { e' with terms := e'.terms ++ ts.map (Term.withOwner m.token) } := by
    induction ts generalizing e' with
    | nil => simp [pure, Except.pure]
    | cons t rest ih =>
      rw [List.map_cons, List.foldlM_cons]
      refine bind_eq_ok.mpr ⟨_, restoreTerm_eq he' (hts t (by simp)), ?_⟩
      rw [ih { e' with terms := e'.terms ++ [t.withOwner m.token] } he' fun u hu =>
        hts u (by simp [hu])]
      simp
  have hnames (t : Term α) (ht : t ∈ e.reduce.terms) (id : String) (hid : id ∈ t.name?) :
      id ∈ e.names := by
    have hr : id ∈ e.reduce.names := List.mem_filterMap.mpr ⟨t, ht, hid⟩
    rw [e.names_reduce, List.mem_eraseDups] at hr
    exact hr
  unfold restoreExpression Expression.store Expression.collected
  simp only [List.isEmpty_map]
  split
  · rfl
  · exact hfold _ m.expression rfl fun t ht id hid => h id (hnames t ht id hid)

end Restoring

theorem beq_map_self [BEq α] {l : List α} {f : α → α} (h : ∀ a ∈ l, (f a == a) = true) :
    (l.map f == l) = true := by
  induction l with
  | nil => rfl
  | cons a rest ih =>
    rw [List.map_cons, List.cons_beq_cons, h a (by simp), ih fun b hb => h b (by simp [hb])]
    rfl

theorem Extended.FiniteTerms.reduce {e : Expression Extended} (h : FiniteTerms e) :
    FiniteTerms e.reduce := by
  obtain ⟨e', rfl⟩ := h.exists_map
  rw [Expression.reduce_map finite_hom]
  intro t ht
  obtain ⟨t', -, rfl⟩ := List.mem_map.mp ht
  cases t' <;> rfl

namespace Expression

variable (owner : Token) (e : Expression Extended)

/-- The sum of the constants, which collecting drops when it is zero. -/
def constantSum : Extended := e.constants.foldl (· + ·) Scalar.zero

theorem constants_eq_of_collected : (e.collected owner).constants =
    if e.constantSum == Scalar.zero then
      if e.reduce.terms.isEmpty && !e.isEmpty then [Scalar.zero] else []
    else [e.constantSum] := by
  have hr : e.reduce.constants = if e.constantSum == Scalar.zero then [] else [e.constantSum] :=
    e.constants_reduce
  rw [constants_eq, collected]
  split
  next h =>
    have hempty : e.reduce.terms = [] := by simp_all
    have hnone : e.reduce.constants = [] := by rw [constants, hempty]; rfl
    rw [hr] at hnone
    split at hnone
    next hz => rw [if_pos hz]; rfl
    next => cases hnone
  next h =>
    have hm : (e.reduce.terms.map (Term.withOwner owner)).filterMap Term.constant? =
        e.reduce.constants := by
      rw [List.filterMap_map, constants_eq]
      exact List.filterMap_congr fun t _ => t.constant?_withOwner owner
    rw [hm, hr]

theorem eq_zero_of_beq {x : Extended} (h : (x == Scalar.zero) = true) : x = Scalar.zero :=
  of_decide_eq_true (Bool.and_eq_true_iff.mp h).2

theorem constantSum_collected : (e.collected owner).constantSum = e.constantSum := by
  rw [constantSum, constants_eq_of_collected]
  split
  next h =>
    rw [eq_zero_of_beq h]
    split
    · exact Extended.zero_add _
    · rfl
  next => exact Extended.zero_add _

theorem linearTerms_collected :
    linearTerms (e.collected owner).terms = (linearTerms e.terms).map (Term.withOwner owner) := by
  have hlinear : linearTerms ((linearTerms e.terms).map (Term.withOwner owner)) =
      (linearTerms e.terms).map (Term.withOwner owner) := by
    apply linearTerms_of_nodup
    · rw [List.filterMap_map, ← constants_linearTerms e.terms]
      exact List.filterMap_congr fun t _ => t.constant?_withOwner owner
    · have hn : ((linearTerms e.terms).map (Term.withOwner owner)).filterMap Term.name? =
          (linearTerms e.terms).filterMap Term.name? := by
        rw [List.filterMap_map]
        exact List.filterMap_congr fun t _ => t.name?_withOwner owner
      rw [hn, names_linearTerms]
      exact nodup_eraseDups _
  unfold collected
  split
  next h =>
    have hempty : e.reduce.terms = [] := by simp_all
    rw [(List.append_eq_nil_iff.mp hempty).1]
    rfl
  next h =>
    rw [reduce]
    split
    next => rw [List.append_nil, hlinear]
    next => rw [List.map_append, List.map_singleton, Term.withOwner,
      linearTerms_append_constant, hlinear]

/-- Collected terms stay as they are when they are collected again. -/
theorem reduce_collected :
    (e.collected owner).reduce = ⟨owner, e.reduce.terms.map (Term.withOwner owner)⟩ := by
  have hs := e.constantSum_collected owner
  have hl := e.linearTerms_collected owner
  rw [constantSum, constantSum] at hs
  rw [reduce, reduce, hs, hl]
  simp only [List.map_append]
  split <;> rfl

theorem isEmpty_collected : (e.collected owner).isEmpty = e.isEmpty := by
  cases h : e.isEmpty with
  | true =>
    obtain ⟨o, ts⟩ := e
    cases List.isEmpty_iff.mp h
    rfl
  | false => exact isEmpty_collected_of_terms owner h

/-- A collected expression has the same stored form. -/
theorem store_collected : (e.collected owner).store = e.store := by
  have hterms : (e.collected owner).reduce.terms.map
      (fun t => (⟨t.coefficient, t.name?⟩ : Stored.Term Extended)) = e.reduce.terms.map fun t =>
        ⟨t.coefficient, t.name?⟩ := by
    rw [reduce_collected, List.map_map]
    exact List.map_congr_left fun t _ => by simp
  rw [store, store, hterms, isEmpty_collected]

/-- No net coefficient of the expression is without a value. -/
def Defined (e : Expression Extended) : Prop := ∀ t ∈ e.reduce.terms, t.coefficient ≠ .undefined

theorem Defined.of_finite {e : Expression Extended} (h : Extended.FiniteTerms e) : e.Defined := by
  intro t ht hu
  have hfinite := h.reduce t ht
  rw [hu] at hfinite
  cases hfinite

/-- And it is equivalent. -/
theorem equivalent_collected {e : Expression Extended} (h : e.Defined) :
    (e.collected owner).equivalent e = true := by
  have hsorted : (e.collected owner).reduce.sorted =
      e.reduce.sorted.map (Term.withOwner owner) := by
    rw [reduce_collected, sorted, sorted]
    exact (List.map_mergeSort fun s _ t _ => (Term.le_withOwner owner t s).symm).symm
  have hbeq (t : Term Extended) (ht : t ∈ e.reduce.sorted) : (t.withOwner owner == t) = true := by
    have hdefined : t.coefficient ≠ .undefined := h t (List.mem_mergeSort.mp ht)
    have hcoefficient : (t.coefficient == t.coefficient) = true := by
      change (decide (t.coefficient ≠ .undefined) && decide (t.coefficient = t.coefficient)) = true
      rw [decide_eq_true hdefined, decide_eq_true rfl, Bool.and_self]
    change ((t.withOwner owner).name? == t.name? &&
      (t.withOwner owner).coefficient == t.coefficient) = true
    rw [Term.name?_withOwner, Term.coefficient_withOwner, hcoefficient, beq_self_eq_true,
      Bool.and_self]
  have hsize : (e.collected owner).reduce.size = e.reduce.size := by
    rw [reduce_collected, size, size, List.length_map]
  change ((e.collected owner).reduce.size == e.reduce.size &&
    (e.collected owner).reduce.sorted == e.reduce.sorted) = true
  rw [hsize, hsorted, beq_self_eq_true, Bool.true_and]
  exact beq_map_self hbeq

end Expression

namespace Constraint

/-- What comes back from the stored form of a constraint. -/
def collected [Scalar α] (owner : Token) (c : Constraint α) : Constraint α :=
  ⟨c.identifier, c.left.collected owner, c.comparison, c.right.collected owner⟩

variable (owner : Token) (c : Constraint Extended)

/-- It stands for the same row. -/
theorem row_collected : (c.collected owner).row = c.row := by
  have hb (e : Expression Extended) : (e.collected owner).constantPart = e.constantPart :=
    e.constantSum_collected owner
  simp only [row, collected, Expression.reduce_collected, Row.absorbSide_withOwner, hb]

theorem store_collected : (c.collected owner).store = c.store := by
  rw [store, store, collected, Expression.store_collected, Expression.store_collected]

end Constraint
end Milp
