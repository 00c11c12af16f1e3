import Milp.Proofs.Coherence
import Milp.Proofs.Infinities

/-! Bounds in documents: one absent value stands for both infinities, and a side that has none is open when
it is restored. -/
namespace Milp

variable {α β γ η κ η' κ' E F : Type} {A : Adapter α η κ} {A' : Adapter α η' κ'} {k : Kind}

/-- The variable with each side that is stored without a bound open. -/
def Variable.reopen [Unbounded α] (v : Variable α) : Variable α :=
  { v with
    lower := v.store.lower.getD Unbounded.negativeInfinity
    upper := v.store.upper.getD Unbounded.infinity }

namespace Model

section Restored

variable [Unbounded α]

/-- The model has a variable as it is stored, open where no bound is stored. -/
def Reopens (m : Model A) (v : Stored.Variable α) : Prop :=
  ∃ p, m.vars.entities.find? v.identifier = some p ∧
    p.entity.lower = v.lower.getD Unbounded.negativeInfinity ∧ p.entity.upper = v.upper.getD Unbounded.infinity

variable {m m' : Model A} {v : Stored.Variable α}

/-- Bounds do not change once a variable is declared. -/
theorem Reopens.change (hc : Change m m') (h : m.Reopens v) : m'.Reopens v := by
  obtain ⟨p, hp, hl, hu⟩ := h
  obtain ⟨r, hr⟩ := hc.grows.vars v.identifier p hp
  exact ⟨_, hr, hl, hu⟩

theorem Reopens.giveResult (h : m.Reopens v) (id : String) (x : α) : (m.giveResult id x).Reopens v := by
  obtain ⟨p, hp, hl, hu⟩ := h
  simp only [Reopens, Model.giveResult, Registry.modify, Table.find?_modify, hp]
  split
  · exact ⟨_, rfl, hl, hu⟩
  · exact ⟨_, rfl, hl, hu⟩

end Restored
end Model

namespace Edit

variable [Unbounded α]

open Model (Reopens)

/-- Restoring a variable declares it with the bounds that are stored. -/
theorem restoreVariable_reopens (g : Group .var) (v : Stored.Variable α) :
    Triple (fun s => s.1.variableFactory = Variable.new) (restoreVariable g v : Edit A Unit)
      (fun _ s => s.1.Reopens v) fun _ _ => True := by
  intro s hs
  have hfactory : s.1.variableFactory = Variable.new := hs
  rw [restoreVariable, bind_apply, discard_apply, createVariable, declare_apply]
  cases hc : s.1.createVariable v.identifier v.varType (v.lower.getD Unbounded.negativeInfinity)
    (v.upper.getD Unbounded.infinity) g with
  | error e => exact trivial
  | ok r =>
    obtain ⟨w, m⟩ := r
    obtain ⟨-, -, -, hv, rfl⟩ := Model.createVariable_eq_ok.mp hc
    rw [hfactory, Variable.new_eq_ok] at hv
    obtain ⟨-, -, rfl⟩ := hv
    let w : Variable α := ⟨v.identifier, v.varType, v.lower.getD Unbounded.negativeInfinity,
      v.upper.getD Unbounded.infinity, s.1.token, none⟩
    let vars := { s.1.vars with entities := s.1.vars.entities.insert v.identifier ⟨g.identifier, w⟩ }
    have hreopens : Reopens { s.1 with vars } v := ⟨_, by rw [Table.find?_insert, if_pos rfl], rfl, rfl⟩
    cases v.result with
    | none => exact hreopens
    | some x =>
      simp only [setResult_apply]
      split
      next h =>
        split at h
        next => cases h; exact hreopens.giveResult _ x
        next => cases h
      next => exact trivial

/-- The factory is the usual one, and the model has these variables as they are stored. -/
def Reopened (vs : List (Stored.Variable α)) (m : Model A) : Prop :=
  m.variableFactory = Variable.new ∧ ∀ v ∈ vs, m.Reopens v

theorem Reopened.change {vs : List (Stored.Variable α)} {m m' : Model A} (hc : Model.Change m m')
    (h : Reopened vs m) : Reopened vs m' :=
  ⟨hc.grows.variableFactory.trans h.1, fun v hv => (h.2 v hv).change hc⟩

/-- When the edit succeeds, the variables that the model has are these. -/
def Opens (vs : List (Stored.Variable α)) (e : Edit A β) (vs' : List (Stored.Variable α)) : Prop :=
  Triple (fun s => Reopened vs s.1) e (fun _ s => Reopened vs' s.1) fun _ _ => True

variable {vs vs' vs'' : List (Stored.Variable α)}

theorem opens_of_moves {e : Edit A β} (h : Moves Model.Change e) : Opens vs e vs := by
  have hkeeps : Keeps (Reopened vs) e := h.keeps fun _ _ => Reopened.change
  exact Triple.imp hkeeps (fun _ hs => hs) (fun _ _ hs => hs) fun _ _ _ => trivial

theorem Opens.bind {e : Edit A β} {f : β → Edit A γ} (h : Opens vs e vs') (hf : ∀ b, Opens vs' (f b) vs'') :
    Opens vs (e >>= f) vs'' := Triple.bind h hf

theorem opens_forM {l : List γ} {f : γ → Edit A Unit} {members : γ → List (Stored.Variable α)}
    (h : ∀ vs c, Opens vs (f c) (vs ++ members c)) : Opens vs (l.forM f) (vs ++ l.flatMap members) := by
  induction l generalizing vs with
  | nil => exact Triple.pure fun _ hs => (List.append_nil vs).symm ▸ hs
  | cons c rest ih =>
    rw [List.flatMap_cons, ← List.append_assoc]
    exact (h vs c).bind fun _ => ih

theorem opens_restoreVariable (vs : List (Stored.Variable α)) (g : Group .var) (v : Stored.Variable α) :
    Opens vs (restoreVariable g v : Edit A Unit) (vs ++ [v]) := by
  have hkeeps : Opens vs (restoreVariable g v : Edit A Unit) vs :=
    opens_of_moves (moves_restoreVariable covers_change.toCoversGroups g v)
  refine (hkeeps.and (restoreVariable_reopens g v)).imp (fun s hs => ⟨hs, hs.1⟩) (fun _ s hs => ?_)
    fun _ _ _ => trivial
  obtain ⟨⟨hfactory, hold⟩, hnew⟩ := hs
  refine ⟨hfactory, fun w hw => ?_⟩
  rcases List.mem_append.mp hw with hw | hw
  · exact hold w hw
  · exact List.mem_singleton.mp hw ▸ hnew

theorem opens_restoreVariables (vs : List (Stored.Variable α)) (g : Stored.Group (Stored.Variable α)) :
    Opens vs (restoreVariables g : Edit A Unit) (vs ++ g.members) := by
  have hmembers (group : Group .var) :
      Opens vs (g.members.forM (restoreVariable group) : Edit A Unit) (vs ++ g.members) := by
    have hloop : Opens vs (g.members.forM (restoreVariable group) : Edit A Unit) (vs ++ g.members.flatMap ([·])) :=
      opens_forM fun vs v => opens_restoreVariable vs group v
    rwa [List.flatMap_singleton'] at hloop
  refine (opens_of_moves moves_model).bind fun m => ?_
  split
  · exact (opens_of_moves (moves_pure _)).bind hmembers
  · exact (opens_of_moves (moves_createGroup _ _ _ _).change).bind hmembers

/-- What a document has of variables is found on the model afterwards. -/
theorem opens_restore (d : Document α) :
    Opens [] (restore d : Edit A Unit) (d.variableGroups.flatMap (·.members)) :=
  (opens_of_moves (moves_forM fun g _ => moves_restoreConstants covers_change.toCoversGroups g)).bind fun _ =>
    (opens_forM opens_restoreVariables).bind fun _ =>
      (opens_of_moves (moves_forM fun g _ => moves_restoreConstraints covers_change.toCoversGroups g)).bind fun _ =>
        opens_of_moves (moves_restoreHeader covers_change _)

end Edit

namespace Variable

variable {v : Variable Float}

/-- A number that is not finite gives way to one that is stored in the same way. -/
theorem finite_getD [Unbounded α] {d : α} (x : α) (hd : Unbounded.isFinite d = false) :
    let finite (x : α) := if Unbounded.isFinite x then some x else none
    finite ((finite x).getD d) = finite x := by
  cases hx : Unbounded.isFinite x <;> simp [hx, hd]

/-- Open sides are stored without a bound, as they were before. -/
theorem store_reopen (v : Variable Float) : v.reopen.store = v.store := by
  have hl := finite_getD v.lower Binary64.not_isFinite_negativeInfinity
  have hu := finite_getD v.upper Binary64.not_isFinite_infinity
  exact congrArg₂ (fun lower upper : Option Float =>
    (⟨v.identifier, v.varType, lower, upper, v.result⟩ : Stored.Variable Float)) hl hu

theorem storable_reopen (v : Variable Float) : v.reopen.Storable := by
  rw [Storable, store_reopen]
  exact ⟨rfl, rfl⟩

theorem le_reopen (h : Scalar.le v.lower v.upper = true) :
    Scalar.le v.reopen.lower v.reopen.upper = true := by
  obtain ⟨hl, hu⟩ := Binary64.numbers_of_le h
  simp only [reopen, store]
  cases Unbounded.isFinite v.lower with
  | false =>
    cases Unbounded.isFinite v.upper with
    | false => exact Binary64.le_infinity (x := Unbounded.negativeInfinity) fun hu => by cases hu
    | true => exact Binary64.negativeInfinity_le hu
  | true =>
    cases Unbounded.isFinite v.upper with
    | false => exact Binary64.le_infinity hl
    | true => exact h

/-- Opening a side changes its bound only where that is the infinity of the other side. -/
theorem lower_reopen (h : Scalar.le v.lower v.upper = true) :
    v.reopen.lower = v.lower ↔ v.lower ≠ Unbounded.infinity := by
  simp only [reopen, store]
  cases hf : Unbounded.isFinite v.lower with
  | true =>
    refine ⟨fun _ hl => ?_, fun _ => rfl⟩
    rw [hl, Binary64.not_isFinite_infinity] at hf
    cases hf
  | false =>
    simp only [Bool.false_eq_true, if_false, Option.getD_none]
    rcases Binary64.eq_infinity hf (Binary64.numbers_of_le h).1 with hl | hl <;> rw [hl]
    · exact ⟨fun he => absurd he.symm Binary64.infinity_ne, fun hn => absurd rfl hn⟩
    · exact ⟨fun _ => Binary64.infinity_ne.symm, fun _ => rfl⟩

theorem upper_reopen (h : Scalar.le v.lower v.upper = true) :
    v.reopen.upper = v.upper ↔ v.upper ≠ Unbounded.negativeInfinity := by
  simp only [reopen, store]
  cases hf : Unbounded.isFinite v.upper with
  | true =>
    refine ⟨fun _ hu => ?_, fun _ => rfl⟩
    rw [hu, Binary64.not_isFinite_negativeInfinity] at hf
    cases hf
  | false =>
    simp only [Bool.false_eq_true, if_false, Option.getD_none]
    rcases Binary64.eq_infinity hf (Binary64.numbers_of_le h).2 with hu | hu <;> rw [hu]
    · exact ⟨fun _ => Binary64.infinity_ne, fun _ => rfl⟩
    · exact ⟨fun he => absurd he Binary64.infinity_ne, fun hn => absurd rfl hn⟩

end Variable

namespace Registry

/-- Entities that are stored as before leave what is stored as it was. -/
theorem stored_mapEntities {store : E → F} {f : E → E} {r : Registry k E} (h : ∀ e, store (f e) = store e) :
    (r.mapEntities f).stored store = r.stored store := by
  simp only [stored, storedGroup, mapEntities, inGroup, Table.map, Table.filter, List.filter_map, List.map_map]
  refine List.map_congr_left fun e _ => ?_
  simp only [Function.comp_def, h]

end Registry

namespace Model

variable {A : Adapter Float η κ} {A' : Adapter Float η' κ'} {m : Model A}

/-- The model with all sides open that are stored without a bound. -/
def reopened (m : Model A) : Model A := { m with vars := m.vars.mapEntities Variable.reopen }

theorem document_reopened (m : Model A) : m.reopened.document = m.document := by
  have hvars : (m.vars.mapEntities Variable.reopen).stored Variable.store = m.vars.stored Variable.store :=
    Registry.stored_mapEntities Variable.store_reopen
  rw [document, document]
  exact congrArg (fun vars => (⟨m.storeHeader, vars, _, _⟩ : Document Float)) hvars

theorem Regular.reopened (h : m.Regular) : m.reopened.Regular :=
  h.changeVars (fun _ _ => ⟨rfl, rfl, rfl⟩) fun id p hp => Variable.le_reopen (h.bounds id p hp).1

theorem contains_reopened (m : Model A) (k : Kind) (id : String) :
    (m.reopened.registry k).entities.contains id = (m.registry k).entities.contains id := by
  cases k with
  | var => exact Table.contains_map ..
  | constraint | constant => rfl

theorem storable_reopened (m : Model A) {id : String} {p : Placed (Variable Float)}
    (hp : m.reopened.vars.entities.find? id = some p) : p.entity.Storable := by
  obtain ⟨q, -, rfl⟩ := Option.map_eq_some_iff.mp (Table.find?_map .. ▸ hp)
  exact q.entity.storable_reopen

/-- Any model that is built with the usual factories is restored, its sides open where they have no
bound that is finite. -/
theorem Regular.leads_restore (h : m.Regular) {n : Model A'} (hn : n.Regular) (hs : n.stage = .declaring)
    (hd : ∀ k id, (m.registry k).entities.contains id = true → (n.registry k).entities.contains id = false) :
    Edit.Leads n (Edit.restore m.document) () (n.takeOver m.reopened) := by
  rw [← m.document_reopened]
  exact Milp.leads_restore hn hs h.reopened (fun _ _ hp => m.storable_reopened hp)
    fun k id hid => hd k id (m.contains_reopened k id ▸ hid)

theorem Kept.capture (h : m.Kept) : m.capture = .ok m.document :=
  capture_eq (h .var).coherent.named (h .constraint).coherent.named (h .constant).coherent.named

theorem Reached.kept (h : m.Reached) : m.Kept := h.attained.kept

theorem Reached.regular (hA : A.Usual) (h : m.Reached) : m.Regular := h.attained.regular hA

/-- Restoring succeeds on a fresh model. -/
theorem Regular.restores (h : m.Regular) (hA' : A'.Usual) (token : Token) (id : String) (adapter : A'.State)
    (journal : List (Event Float)) :
    ∃ journal', Edit.restore m.document ((Model.new token id adapter : Model A'), journal) =
      (.ok (), (Model.new token id adapter).takeOver m.reopened, journal') :=
  h.leads_restore (regular_new hA' token id adapter) rfl (fun k _ _ => by cases k <;> rfl) journal

/-- Every variable comes back with the bounds that it is stored with. -/
theorem Kept.bounds_of_restore (h : m.Kept) (hA' : A'.Usual) {token : Token} {id : String} {adapter : A'.State}
    {journal journal' : List (Event Float)} {m' : Model A'}
    (hr : Edit.restore m.document ((Model.new token id adapter : Model A'), journal) = (.ok (), m', journal'))
    {v : String} {p : Placed (Variable Float)} (hp : m.vars.entities.find? v = some p) :
    ∃ p', m'.vars.entities.find? p.entity.identifier = some p' ∧ p'.entity.lower = p.entity.reopen.lower ∧
      p'.entity.upper = p.entity.reopen.upper := by
  obtain ⟨g, hg⟩ := Table.contains_iff.mp (Registry.contains_group (h .var).coherent hp)
  have hgroup : (m.vars.storedGroup Variable.store p.group g.description) ∈ m.document.variableGroups :=
    List.mem_map.mpr ⟨(p.group, g), Table.find?_eq_some_iff.mp hg, rfl⟩
  have hmember : p.entity.store ∈ (m.vars.storedGroup Variable.store p.group g.description).members :=
    List.mem_map.mpr ⟨(v, p), List.mem_filter.mpr ⟨Table.find?_eq_some_iff.mp hp, by simp⟩, rfl⟩
  have hfresh : Edit.Reopened [] (Model.new token id adapter : Model A') := ⟨(hA' adapter).1, nofun⟩
  exact ((Edit.opens_restore m.document).ok hfresh hr).2 _ (List.mem_flatMap.mpr ⟨_, hgroup, hmember⟩)

/-- In what is restored of a captured model every bound is as it was, with two exceptions: a lower bound that
is infinity and an upper bound that is minus infinity, of which the document has no more than that they
are not finite. -/
theorem Reached.bounds_restored (hm : m.Reached) (hA' : A'.Usual) (token : Token) (id : String)
    (adapter : A'.State) (journal : List (Event Float)) :
    ∃ d, m.capture = .ok d ∧
      (A.Usual → ∃ m' journal',
        Edit.restore d ((Model.new token id adapter : Model A'), journal) = (.ok (), m', journal')) ∧
      ∀ m' journal', Edit.restore d ((Model.new token id adapter : Model A'), journal) = (.ok (), m', journal') →
        ∀ v p, m.vars.entities.find? v = some p → Scalar.le p.entity.lower p.entity.upper = true →
          ∃ p', m'.vars.entities.find? p.entity.identifier = some p' ∧
            (p'.entity.lower = p.entity.lower ↔ p.entity.lower ≠ Unbounded.infinity) ∧
            (p'.entity.upper = p.entity.upper ↔ p.entity.upper ≠ Unbounded.negativeInfinity) := by
  refine ⟨m.document, hm.kept.capture,
    fun hA => ⟨_, (hm.regular hA).restores hA' token id adapter journal⟩, ?_⟩
  intro m' journal' hr v p hp hle
  obtain ⟨p', hp', hl, hu⟩ := hm.kept.bounds_of_restore hA' hr hp
  refine ⟨p', hp', ?_, ?_⟩
  · rw [hl]
    exact Variable.lower_reopen hle
  · rw [hu]
    exact Variable.upper_reopen hle

end Model

theorem usual_recorder : (recorder Float).Usual := fun _ => ⟨rfl, rfl⟩

/-- Declares boxes, with these bounds. -/
def Program.span (lower upper : Float) : Program (recorder Float) Unit .group :=
  .act (.createVariable "boxes" .double lower upper (.default .var)) fun _ => .finish (.ok ())

def Workspace.spanned (lower upper : Float) : Workspace (recorder Float) Unit :=
  (fresh () {}).afterAll [.create "depot" "depot" {}, .operate "depot" (.declare (Program.span lower upper))]

/-- The boxes of the depot, if they are there, by the bits of their bounds. -/
def Workspace.boxes? (w : Workspace (recorder Float) Unit) : Option (String × UInt64 × UInt64) := do
  let p ← (← w.benches.find? "depot").model.vars.entities.find? "boxes"
  return (p.entity.identifier, p.entity.lower.toBits, p.entity.upper.toBits)

theorem Workspace.exists_boxes (w : Workspace (recorder Float) Unit) (lower upper : Float)
    (h : w.boxes? = some ("boxes", lower.toBits, upper.toBits)) :
    ∃ b, w.benches.find? "depot" = some b ∧ ∃ p, b.model.vars.entities.find? "boxes" = some p ∧
      p.entity.identifier = "boxes" ∧ p.entity.lower = lower ∧ p.entity.upper = upper := by
  obtain ⟨b, hb, h⟩ := Option.bind_eq_some_iff.mp h
  obtain ⟨p, hp, h⟩ := Option.bind_eq_some_iff.mp h
  simp only [pure, Option.some.injEq, Prod.mk.injEq] at h
  obtain ⟨hid, hl, hu⟩ := h
  exact ⟨b, hb, p, hp, hid, Binary64.ext_toBits hl, Binary64.ext_toBits hu⟩

namespace Model

/-- A side without a bound stays open. -/
theorem bounds_restored_open :
    (recorder Float).Usual ∧ ∃ b, (Workspace.spanned 0 Unbounded.infinity).benches.find? "depot" = some b ∧
      b.model.Reached ∧ ∃ d, b.model.capture = .ok d ∧ ∃ m' journal',
        Edit.restore d ((Model.new ⟨1⟩ "depot" {} : Model (recorder Float)), []) = (.ok (), m', journal') ∧
        ∃ p, m'.vars.entities.find? "boxes" = some p ∧ p.entity.lower = 0 ∧
          p.entity.upper = Unbounded.infinity := by
  have hA : (recorder Float).Usual := usual_recorder
  obtain ⟨b, hb, p, hp, hid, hl, hu⟩ := Workspace.exists_boxes (.spanned 0 Unbounded.infinity) 0
    Unbounded.infinity rfl
  have hm : b.model.Reached := Workspace.reached hb
  obtain ⟨d, hd, hok, hbounds⟩ := hm.bounds_restored hA ⟨1⟩ "depot" {} []
  obtain ⟨m', journal', hr⟩ := hok hA
  obtain ⟨p', hp', hl', hu'⟩ := hbounds m' journal' hr "boxes" p hp (by rw [hl, hu]; rfl)
  rw [hid] at hp'
  have hzero : (0 : Float) ≠ Unbounded.infinity := fun h => by
    have hfinite : Unbounded.isFinite (0 : Float) = true := rfl
    rw [h, Binary64.not_isFinite_infinity] at hfinite
    cases hfinite
  have hlower := hl'.mpr (hl ▸ hzero)
  have hupper := hu'.mpr (hu ▸ Binary64.infinity_ne)
  exact ⟨hA, b, hb, hm, d, hd, m', journal', hr, p', hp', hlower.trans hl, hupper.trans hu⟩

/-- A variable is accepted with infinity for both of its bounds, but comes back free. -/
theorem lower_infinity_lost :
    ∃ b, (Workspace.spanned Unbounded.infinity Unbounded.infinity).benches.find? "depot" = some b ∧
      ∃ p, b.model.vars.entities.find? "boxes" = some p ∧ p.entity.lower = Unbounded.infinity ∧
        p.entity.upper = Unbounded.infinity ∧ Scalar.le p.entity.lower p.entity.upper = true ∧
        ∃ d, b.model.capture = .ok d ∧ ∃ m' journal',
          Edit.restore d ((Model.new ⟨1⟩ "depot" {} : Model (recorder Float)), []) = (.ok (), m', journal') ∧
          ∃ p', m'.vars.entities.find? "boxes" = some p' ∧ p'.entity.upper = p.entity.upper ∧
            p'.entity.lower = Unbounded.negativeInfinity ∧ p'.entity.lower ≠ p.entity.lower := by
  have hA : (recorder Float).Usual := usual_recorder
  obtain ⟨b, hb, p, hp, hid, hl, hu⟩ := Workspace.exists_boxes
    (.spanned Unbounded.infinity Unbounded.infinity) Unbounded.infinity Unbounded.infinity rfl
  have hm : b.model.Reached := Workspace.reached hb
  have hle : Scalar.le p.entity.lower p.entity.upper = true := by rw [hl, hu]; rfl
  obtain ⟨journal', hr⟩ := (hm.regular hA).restores hA ⟨1⟩ "depot" {} []
  obtain ⟨p', hp', hl', hu'⟩ := hm.kept.bounds_of_restore hA hr hp
  have hlower : p'.entity.lower = Unbounded.negativeInfinity := by
    rw [hl']
    change (if Unbounded.isFinite p.entity.lower = true then some p.entity.lower else none).getD _ = _
    rw [hl, Binary64.not_isFinite_infinity]
    rfl
  have hupper : p'.entity.upper = p.entity.upper := by
    rw [hu', Variable.upper_reopen hle, hu]
    exact Binary64.infinity_ne
  rw [hid] at hp'
  refine ⟨b, hb, p, hp, hl, hu, hle, _, hm.kept.capture, _, journal', hr, p', hp', hupper, hlower, ?_⟩
  rw [hlower, hl]
  exact Binary64.infinity_ne.symm

end Model

end Milp
