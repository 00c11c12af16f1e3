import Milp.Proofs.Sketches

/-! Models side by side keep their variables to themselves: an expression speaks of the variables of one
model, and what is declared on a model of variables that are registered there. -/
namespace Milp

variable {η κ ω : Type} {A : Adapter Float η κ}

/-- What is declared is a sketch. -/
def Operation.Sketched : Operation A (Desk Float ω) → Prop
  | .declare P => P.Sketched
  | _ => True

def Deed.Sketched : Deed A (Desk Float ω) → Prop
  | .operate _ o => o.Sketched
  | _ => True

namespace Run

variable {s : Run A (Desk Float ω)}

theorem settling_tidy (d : Desk Float ω) : Settling fun m : Model A => Tidy m d where
  cleared _ h := ⟨h.1.of_eq rfl rfl rfl, h.2⟩
  answer _ _ h := ⟨h.1.of_eq rfl rfl rfl, h.2⟩
  solved _ _ h := ⟨h.1.of_eq rfl rfl rfl, h.2⟩
  failed _ h := ⟨h.1.of_eq rfl rfl rfl, h.2⟩
  results _ _ h := ⟨h.1.of_eq rfl rfl rfl, h.2⟩

theorem orderly_after (hs : s.Orderly Program.Sketched Tidy) {o : Operation A (Desk Float ω)}
    (ho : o.Sketched) : (s.after o).Orderly Program.Sketched Tidy := by
  cases o with
  | declare P =>
    obtain ⟨S, rfl⟩ := ho
    exact (S.orderly_run hs).1
  | init => exact Triple.after (discipline_sketched.enduring).init hs
  | compute => exact hs.of_local local_compute ((settling_tidy s.world).compute hs.state)
  | extract => exact hs.of_local local_extract ((settling_tidy s.world).extract hs.state)

end Run

theorem Model.Tick.token {α : Type} {A : Adapter α η κ} {m m' : Model A} (h : Tick m m') :
    m'.token = m.token := by
  cases h with
  | change hc => exact hc.grows.token
  | _ => rfl

theorem Store.restoring_homogeneous : Restoring (A := A) Model.Homogeneous where
  constants := Edit.even_restoreConstants
  vars := Edit.even_restoreVariables
  constraints := Edit.even_restoreConstraints
  header := Edit.even_restoreHeader

namespace Workspace

/-- No two models have the same token, and none the next one. -/
structure Numbered (w : Workspace A ω) : Prop where
  below : ∀ key b, w.benches.find? key = some b → b.model.token.number < w.created
  distinct : ∀ key key' b b', w.benches.find? key = some b → w.benches.find? key' = some b' →
    b.model.token = b'.model.token → key = key'

theorem Numbered.replace {w w' : Workspace A ω} (h : w.Numbered) {key : String} {b b' : Bench A ω}
    (hkey : w.benches.find? key = some b) (hb : w'.benches = w.benches.insert key b')
    (ht : b'.model.token = b.model.token) (hc : w'.created = w.created) : w'.Numbered := by
  have hfound (key' : String) (b₁ : Bench A ω) (h₁ : w'.benches.find? key' = some b₁) :
      ∃ b₀, w.benches.find? key' = some b₀ ∧ b₁.model.token = b₀.model.token := by
    rw [hb, Table.find?_insert] at h₁
    split at h₁
    next heq =>
      cases h₁
      exact ⟨b, heq ▸ hkey, ht⟩
    next => exact ⟨b₁, h₁, rfl⟩
  constructor
  · intro key' b₁ h₁
    obtain ⟨b₀, h₀, heq⟩ := hfound key' b₁ h₁
    rw [heq, hc]
    exact h.below key' b₀ h₀
  · intro key₁ key₂ b₁ b₂ h₁ h₂ heq
    obtain ⟨c₁, h₁, heq₁⟩ := hfound key₁ b₁ h₁
    obtain ⟨c₂, h₂, heq₂⟩ := hfound key₂ b₂ h₂
    exact h.distinct key₁ key₂ c₁ c₂ h₁ h₂ (heq₁.symm.trans (heq.trans heq₂))

theorem Numbered.create {w w' : Workspace A ω} (h : w.Numbered) {key : String} {b : Bench A ω}
    (hb : w'.benches = w.benches.insert key b) (ht : b.model.token = ⟨w.created⟩)
    (hc : w'.created = w.created + 1) : w'.Numbered := by
  have hfound (key' : String) (b₁ : Bench A ω) (h₁ : w'.benches.find? key' = some b₁) :
      key' = key ∧ b₁ = b ∨ w.benches.find? key' = some b₁ := by
    rw [hb, Table.find?_insert] at h₁
    split at h₁
    next heq =>
      cases h₁
      exact .inl ⟨heq, rfl⟩
    next => exact .inr h₁
  constructor
  · intro key' b₁ h₁
    rcases hfound key' b₁ h₁ with ⟨-, rfl⟩ | h₁
    · rw [ht, hc]
      exact Nat.lt_succ_self _
    · rw [hc]
      exact Nat.lt_succ_of_lt (h.below key' b₁ h₁)
  · intro key₁ key₂ b₁ b₂ h₁ h₂ heq
    have hne (key' : String) (b' : Bench A ω) (h' : w.benches.find? key' = some b') :
        b'.model.token ≠ b.model.token := by
      intro heq
      have := h.below key' b' h'
      rw [heq, ht] at this
      exact absurd this (Nat.lt_irrefl _)
    rcases hfound key₁ b₁ h₁ with ⟨rfl, rfl⟩ | h₁ <;> rcases hfound key₂ b₂ h₂ with ⟨rfl, rfl⟩ | h₂
    · rfl
    · exact absurd heq.symm (hne _ _ h₂)
    · exact absurd heq (hne _ _ h₁)
    · exact h.distinct key₁ key₂ b₁ b₂ h₁ h₂ heq

theorem Numbered.after {w : Workspace A ω} (h : w.Numbered) (d : Deed A ω) : (w.after d).Numbered := by
  cases effect_after w d with
  | none hb _ hc =>
    constructor
    · intro key b hkey
      rw [hc]
      exact h.below key b (hb ▸ hkey)
    · intro key key' b b' hkey hkey'
      exact h.distinct key key' b b' (hb ▸ hkey) (hb ▸ hkey')
  | created key id adapter _ hb _ hc => exact h.create hb rfl hc
  | operated key o _ b hkey hb _ hc =>
    refine h.replace hkey hb ?_ hc
    exact Run.keeps_after (J := fun m => m.token = b.model.token)
      (fun _ _ ht hm => ht.token.trans hm) (s := w.runOf b) rfl o
  | restored key b hkey m hm hb _ hc =>
    refine h.replace hkey hb ?_ hc
    exact hm (fun m => m.token = b.model.token)
      (Store.restoring_of_changes fun _ _ hc hm => hc.grows.token.trans hm) rfl

/-- Nothing in the workspace mixes models. -/
structure Unmixed (w : Workspace A (Desk Float ω)) : Prop where
  desk : w.world.Homogeneous
  benches : ∀ key b, w.benches.find? key = some b →
    b.model.Homogeneous ∧ b.agenda.All Program.Sketched
  numbered : w.Numbered

theorem unmixed_fresh (state : ω) (files : FileTree) :
    (fresh { state } files : Workspace A (Desk Float ω)).Unmixed where
  desk := Desk.homogeneous_empty state
  benches key b h := by
    rw [fresh, Table.find?_empty] at h
    cases h
  numbered := by
    constructor
    · intro key b h
      rw [fresh, Table.find?_empty] at h
      cases h
    · intro key key' b b' h
      rw [fresh, Table.find?_empty] at h
      cases h

/-- The bench under one key changes, and the others stay. -/
theorem Unmixed.put {w w' : Workspace A (Desk Float ω)} (h : w.Unmixed) {key : String}
    {b : Bench A (Desk Float ω)} (hb : w'.benches = w.benches.insert key b)
    (hm : b.model.Homogeneous ∧ b.agenda.All Program.Sketched) :
    ∀ key' b', w'.benches.find? key' = some b' →
      b'.model.Homogeneous ∧ b'.agenda.All Program.Sketched := by
  intro key' b' h'
  rw [hb, Table.find?_insert] at h'
  split at h'
  · cases h'
    exact hm
  · exact h.benches key' b' h'

theorem Unmixed.after (hA : A.Usual) {w : Workspace A (Desk Float ω)} (h : w.Unmixed)
    {d : Deed A (Desk Float ω)} (hd : d.Sketched) : (w.after d).Unmixed := by
  have hn := h.numbered.after d
  cases effect_after w d with
  | none hb hw =>
    refine ⟨hw ▸ h.desk, fun key b hkey => h.benches key b (hb ▸ hkey), hn⟩
  | created key id adapter _ hb hw =>
    exact ⟨hw ▸ h.desk, h.put hb ⟨Model.homogeneous_new hA _ _ _, .empty⟩, hn⟩
  | operated key o hop b hkey hb hw =>
    obtain ⟨hm, ha⟩ := h.benches key b hkey
    have ho : o.Sketched := by
      rw [hop] at hd
      exact hd
    have hs := Run.orderly_after (s := w.runOf b) ⟨ha, hm, h.desk⟩ ho
    exact ⟨hw ▸ hs.state.2, h.put hb ⟨hs.state.1, hs.agenda⟩, hn⟩
  | restored key b hkey m hm hb hw =>
    obtain ⟨hhom, ha⟩ := h.benches key b hkey
    exact ⟨hw ▸ h.desk, h.put hb ⟨hm _ Store.restoring_homogeneous hhom, ha⟩, hn⟩

end Workspace

/-- The expression belongs to the model, and each of its variable terms names a variable that the model
has registered as its own. -/
def Model.Names {α : Type} {A : Adapter α η κ} (m : Model A) (e : Expression α) : Prop :=
  e.owner = m.token ∧ ∀ c id owner, Term.linear c id owner ∈ e.terms → owner = m.token ∧
    ∃ v, m.entity .var id = .ok v ∧ v.identifier = id ∧ v.owner = m.token

theorem Model.Regular.names {α : Type} [Scalar α] {A : Adapter α η κ} {m : Model A}
    (h : m.Regular) {e : Expression α} (he : e.Homogeneous) (ho : m.Owns e) : m.Names e := by
  refine ⟨ho.1, fun c id owner ht => ⟨(he c id owner ht).trans ho.1, ?_⟩⟩
  have hid : id ∈ e.names := List.mem_filterMap.mpr ⟨_, ht, rfl⟩
  obtain ⟨p, hp⟩ := Table.contains_iff.mp (ho.2 id hid)
  have hv : m.entity .var id = .ok p.entity := Registry.entity_eq_ok.mpr ⟨p, hp, rfl⟩
  exact ⟨p.entity, hv, (h.vars.entities id p hp).2.1, (h.bounds id p hp).2⟩

/-- Whatever is done with several models, by sketches of any kind: an expression has terms of one model
only, and what is declared on a model names its own variables. -/
theorem Workspace.terms_owned (hA : A.Usual) (state : ω) (files : FileTree)
    (ds : List (Deed A (Desk Float ω))) (hds : ∀ d ∈ ds, d.Sketched) :
    let w := (fresh { state } files).afterAll ds
    (∀ name, (w.world.expression name).Homogeneous) ∧
    (∀ key b, w.benches.find? key = some b →
      (∀ id c, b.model.entity .constraint id = .ok c → b.model.Names c.left ∧ b.model.Names c.right) ∧
      ∀ o, b.model.objective = some o → b.model.Names o.expression) ∧
    ∀ key key' b b', w.benches.find? key = some b → w.benches.find? key' = some b' →
      b.model.token = b'.model.token → key = key' := by
  intro w
  have hu : w.Unmixed :=
    invariant_afterAll (fun _ _ h hd => h.after hA hd) (unmixed_fresh state files) ds hds
  have hr : w.Each Model.Regular :=
    each_afterAll (fun _ _ ht h => h.tick ht) (fun token id σ => Model.regular_new hA token id σ)
      { state } files ds
  refine ⟨hu.desk, fun key b hkey => ⟨fun id c hc => ?_, fun o ho => ?_⟩, hu.numbered.distinct⟩
  · obtain ⟨p, hp, rfl⟩ := Registry.entity_eq_ok.mp hc
    obtain ⟨hl, hr', -⟩ := (hr key b hkey).sides id p hp
    obtain ⟨hhl, hhr⟩ := (hu.benches key b hkey).1.sides id p hp
    exact ⟨(hr key b hkey).names hhl hl, (hr key b hkey).names hhr hr'⟩
  · have hobjective := (hu.benches key b hkey).1.objective o ho
    exact (hr key b hkey).names hobjective ((hr key b hkey).objective o ho)

/-- Limits how many boxes there are; a variable of the same name that is another model's is refused. -/
def Sketch.load : Sketch (recorder Float) Unit .group :=
  .act (.createVariable "boxes" .integer 0 3 (.default .var)) trivial fun
    | .error e => .finish (.error e)
    | .ok v => .draft "load" (.new v.owner) fun _ => .draft "load" (.addScaled "load" 2 v) fun _ =>
      .draft "load" (.addScaled "load" 2 { v with owner := ⟨v.owner.number + 1⟩ }) fun _ =>
      .draft "room" (.new v.owner) fun _ => .draft "room" (.addConstant "room" 6) fun _ =>
      .addConstraint "limit" "load" .lessEqual "room" (.default .constraint) fun _ =>
      .finish (.ok ())

/-- Both models have boxes, but the load is that of the second one only. -/
theorem Workspace.terms_owned_loaded :
    let ds : List (Deed (recorder Float) (Desk Float Unit)) :=
      [.create "depot" "depot" {}, .create "annex" "annex" {},
        .operate "depot" (.declare Sketch.load.program),
        .operate "annex" (.declare Sketch.load.program),
        .operate "depot" (.declare (Sketch.setObjective "load" .maximize .finish).program),
        .operate "annex" (.declare (Sketch.setObjective "load" .maximize .finish).program)]
    let w := (fresh { state := () } {}).afterAll ds
    (recorder Float).Usual ∧ (∀ d ∈ ds, d.Sketched) ∧
      ((w.benches.find? "depot").map fun b => (b.model.objective.isSome, b.model.token.number)) =
        some (false, 0) ∧
      ∃ b o c, w.benches.find? "annex" = some b ∧ b.model.objective = some o ∧
        b.model.entity .constraint "limit" = .ok c ∧ c.left.names = ["boxes"] ∧
        b.model.Names o.expression ∧ b.model.Names c.left ∧ b.model.Names c.right := by
  intro ds w
  have hA : (recorder Float).Usual := fun _ => ⟨rfl, rfl⟩
  have hds : ∀ d ∈ ds, d.Sketched := by
    intro d hd
    simp only [ds, List.mem_cons, List.not_mem_nil, or_false] at hd
    rcases hd with rfl | rfl | rfl | rfl | rfl | rfl
    · trivial
    · trivial
    all_goals exact ⟨_, rfl⟩
  have hdepot : ((w.benches.find? "depot").map fun b =>
      (b.model.objective.isSome, b.model.token.number)) = some (false, 0) := rfl
  have hannex : ((w.benches.find? "annex").any fun b => b.model.objective.isSome &&
      (b.model.entity .constraint "limit").toOption.any fun c => c.left.names == ["boxes"]) =
        true := rfl
  obtain ⟨b, hb, hstate⟩ := (Option.any_eq_true _ _).mp hannex
  obtain ⟨ho, hlimit⟩ := (Bool.and_eq_true _ _).mp hstate
  obtain ⟨o, ho⟩ := Option.isSome_iff_exists.mp ho
  obtain ⟨c, hc, hnames⟩ := (Option.any_eq_true _ _).mp hlimit
  have hc : b.model.entity .constraint "limit" = .ok c := by
    cases he : b.model.entity .constraint "limit" with
    | error e => simp [he, Except.toOption] at hc
    | ok c' => simpa [he, Except.toOption] using hc
  obtain ⟨-, hmodels, -⟩ := terms_owned hA () {} ds hds
  obtain ⟨hsides, hobjective⟩ := hmodels "annex" b hb
  exact ⟨hA, hds, hdepot, b, o, c, hb, ho, hc, by simpa using hnames, hobjective o ho,
    (hsides _ c hc).1, (hsides _ c hc).2⟩

end Milp
