import Milp.Adapter.Recorder
import Milp.Proofs.Noted
import Milp.Proofs.Waiting

/-! What is once declared stays, whatever is done later with the models of a process. -/
namespace Milp

open Relation

section Runs

variable {α η κ ω : Type} {A : Adapter α η κ}

/-- All programs of an agenda are written anew. -/
theorem Bookkeeping.all_agenda {ω' : Type} (B : Bookkeeping A ω' ω)
    {Q : ∀ {p : Purpose}, Program A ω' p → Prop}
    (hQ : ∀ group {p : Purpose} (P : Program A ω p), Q (B.program group P)) (a : Agenda A ω) :
    (B.agenda a).All Q where
  programs k P hP := by
    rw [B.programs_agenda] at hP
    obtain ⟨e, he, rfl⟩ := List.mem_map.mp hP
    obtain ⟨e', -, rfl⟩ := List.mem_map.mp he
    exact hQ _ e'.2
  objective o ho := by
    obtain ⟨o', -, rfl⟩ := Option.mem_map.mp ho
    exact hQ none o'.2

/-- Since the model was this one, and these settings were noted, it lasted, but for the settings that were
noted then. -/
def Model.LastsFrom (m₀ : Model A) (noted : List (Setting α)) (key : String) (m : Model A)
    (w : ω × List (Setting α)) : Prop :=
  ∃ more, w.2 = noted ++ more ∧ (∀ s ∈ more, s.key = key) ∧ m₀.Lasts more key m

variable {m₀ m m' : Model A} {noted ss : List (Setting α)} {key : String}
  {w : ω × List (Setting α)}

theorem Model.LastsFrom.trans (h : m₀.LastsFrom noted key m w) (hm : m.Lasts ss key m')
    (hss : ∀ s ∈ ss, s.key = key) (world : ω) :
    m₀.LastsFrom noted key m' (world, w.2 ++ ss) := by
  obtain ⟨more, hw, hkey, hlasts⟩ := h
  refine ⟨more ++ ss, ?_, ?_, hlasts.trans hm⟩
  · rw [hw, List.append_assoc]
  · intro s hs
    exact (List.mem_append.mp hs).elim (hkey s) (hss s)

theorem Model.LastsFrom.step (h : m₀.LastsFrom noted key m w) (hm : m.Lasts [] key m') :
    m₀.LastsFrom noted key m' w := by
  obtain ⟨more, hw, hkey, hlasts⟩ := h
  exact ⟨more, hw, hkey, by simpa using hlasts.trans hm⟩

variable [Unbounded α]

/-- All that an action can do to what is declared is to give a constant another value. -/
theorem Action.lasts_perform (key : String) (a : Action α) (s : Model A × List (Event α)) :
    s.1.Lasts (Setting.of key a (a.perform s).1) key (a.perform s).2.1 := by
  by_cases ha : ∃ id x, a = .setConstant id x
  · obtain ⟨id, x, rfl⟩ := ha
    simp only [Action.perform, Edit.setConstant, Edit.change_apply]
    cases hm : s.1.setConstant id x with
    | ok m => exact Model.lasts_setConstant hm key
    | error e => exact .refl s.1 key
  · have hne (id : String) (x : α) : a ≠ .setConstant id x := fun h => ha ⟨id, x, h⟩
    have hnone : Setting.of key a (a.perform s).1 = [] := by
      unfold Setting.of
      split
      · exact absurd rfl (hne _ _)
      · rfl
    have hsteps {m m' : Model A} (h : ReflTransGen (fun m m' => m.Lasts [] key m') m m') :
        m.Lasts [] key m' := by
      induction h with
      | refl => exact .refl m key
      | tail _ h ih => exact ih.trans h
    rw [hnone]
    exact hsteps (Edit.moves_perform_of_ne (Model.covers_lasts key) hne s)

namespace Run

open Program (Noting)

variable {t : Run A (ω × List (Setting α))}

/-- A run in which all that waits notes its settings. -/
abbrev Lasting (m₀ : Model A) (noted : List (Setting α)) (key : String)
    (t : Run A (ω × List (Setting α))) : Prop :=
  t.Orderly (Noting key) (m₀.LastsFrom noted key)

theorem lasting_noted {p : Purpose} (P : Program A ω p) (ht : t.Lasting m₀ noted key) :
    ((P.noted key).run t).2.Lasting m₀ noted key := by
  induction P generalizing t with
  | finish r => exact ht
  | read next ih => exact ih t.model ht
  | share f next ih => exact ih t.world.1 ⟨ht.agenda, ht.state⟩
  | note events next ih => exact ih (ht.record events)
  | act a next ih =>
    have hlasts := Action.lasts_perform key a (t.model, t.journal)
    exact ih _ ⟨ht.agenda, ht.state.trans hlasts Setting.key_of _⟩
  | spawn k id description generator program next _ ih =>
    have hlasts := Action.lasts_perform key (.createGroup k id description generator)
      (t.model, t.journal)
    have hstate := ht.state.step hlasts
    simp only [Program.noted, Program.run]
    split
    next g u hu =>
      obtain rfl : u = _ := (congrArg Prod.snd hu).symm
      exact ih (.ok g) ⟨ht.agenda.insert k id ⟨program g, rfl⟩, hstate⟩
    next e u hu =>
      obtain rfl : u = _ := (congrArg Prod.snd hu).symm
      exact ih (.error e) ⟨ht.agenda, hstate⟩
  | attach direction program next _ ih =>
    simp only [Program.noted, Program.run]
    split
    · exact ih (.ok ()) ⟨ht.agenda.attach direction ⟨program, rfl⟩, ht.state⟩
    · exact ih _ ht

theorem discipline_noting (m₀ : Model A) (noted : List (Setting α)) (key : String) :
    Discipline (A := A) (ω := ω × List (Setting α)) (Noting key) (m₀.LastsFrom noted key)
      fun _ => True where
  run := by
    rintro p P ⟨P', rfl⟩ t ht
    exact lasting_noted P' ht
  built _ _ _ _ _ := trivial
  objective m m' w e direction h _ hm := h.step ((Model.covers_lasts key).objective hm)
  plain m w adapter columns lines stage h :=
    h.step (m.lasts_with key adapter columns lines stage m.solution)

omit [Unbounded α] in
/-- Solving and reading give no values to constants, and take nothing away. -/
theorem settling_lastsFrom (w : ω × List (Setting α)) :
    Settling fun m => m₀.LastsFrom noted key m w where
  cleared m h := h.step (lasts_clearSolution m key)
  answer m _ h := h.step (m.lasts_with key _ _ _ _ _)
  solved m solution h := h.step (m.lasts_with key _ _ _ .solved solution)
  failed m h := h.step (m.lasts_with key _ _ _ .failed _)
  results m values h := h.step (lasts_withResults m values key)

theorem lasting_after (ht : t.Lasting m₀ noted key) (o : Operation A ω) :
    (t.after ((noting key).operation o)).Lasting m₀ noted key := by
  cases o with
  | declare P => exact lasting_noted P ht
  | init => exact Triple.after (discipline_noting m₀ noted key).enduring.init ht
  | compute => exact ht.of_local local_compute ((settling_lastsFrom t.world).compute ht.state)
  | extract => exact ht.of_local local_extract ((settling_lastsFrom t.world).extract ht.state)

end Run
end Runs

namespace Workspace

variable {η κ ω : Type} {A : Adapter Float η κ} {t : Workspace A (ω × List (Setting Float))}

/-- What was declared on the model under a key has lasted there since nothing was noted, and all that waits
notes its settings. -/
structure Lasting (m₀ : Model A) (key : String) (t : Workspace A (ω × List (Setting Float))) :
    Prop where
  model : ∃ b, t.benches.find? key = some b ∧ m₀.Lasts t.world.2 key b.model
  agendas : ∀ key b, t.benches.find? key = some b → b.agenda.All (Program.Noting key)

/-- Under one key the bench changes, and the settings that are new are those of the model under it. -/
theorem Lasting.put {m₀ : Model A} {key key' : String} {t t' : Workspace A (ω × List (Setting Float))}
    (h : t.Lasting m₀ key) {b b' : Bench A (ω × List (Setting Float))}
    (hb : t.benches.find? key' = some b) (hb' : t'.benches = t.benches.insert key' b')
    (hlasts : b.model.LastsFrom t.world.2 key' b'.model t'.world)
    (hall : b'.agenda.All (Program.Noting key')) : t'.Lasting m₀ key := by
  obtain ⟨more, hmore, hkeys, hlasts⟩ := hlasts
  obtain ⟨b₀, hb₀, hm₀⟩ := h.model
  constructor
  · rw [hb', hmore, Table.find?_insert]
    by_cases heq : key = key'
    · subst heq
      obtain rfl : b₀ = b := Option.some.inj (hb₀.symm.trans hb)
      exact ⟨b', if_pos rfl, hm₀.trans hlasts⟩
    · have hother : ∀ s ∈ more, s.key ≠ key := fun s hs hkey => heq (hkey.symm.trans (hkeys s hs))
      exact ⟨b₀, (if_neg heq).trans hb₀, hm₀.append hother⟩
  · intro key₁ b₁ hb₁
    rw [hb', Table.find?_insert] at hb₁
    split at hb₁
    next heq =>
      cases hb₁
      exact heq ▸ hall
    next => exact h.agendas key₁ b₁ hb₁

theorem Lasting.after {m₀ : Model A} {key : String} (h : t.Lasting m₀ key) {d : Deed A ω}
    (hd : ∀ id adapter, d ≠ .create key id adapter) : (t.after d.noted).Lasting m₀ key := by
  have hstart (key' : String) (b : Bench A (ω × List (Setting Float))) :
      b.model.LastsFrom t.world.2 key' b.model t.world :=
    ⟨[], (List.append_nil _).symm, nofun, .refl b.model key'⟩
  cases effect_after t d.noted with
  | none hb hw =>
    constructor
    · rw [hb, hw]
      exact h.model
    · rw [hb]
      exact h.agendas
  | created key' id adapter hcreate hb hw =>
    have hne : key ≠ key' := by
      rintro rfl
      cases d with
      | create key₁ id₁ adapter₁ =>
        cases hcreate
        exact hd id adapter rfl
      | _ => cases hcreate
    obtain ⟨b₀, hb₀, hm₀⟩ := h.model
    constructor
    · rw [hb, hw, Table.find?_insert, if_neg hne]
      exact ⟨b₀, hb₀, hm₀⟩
    · intro key₁ b₁ hb₁
      rw [hb, Table.find?_insert] at hb₁
      split at hb₁
      · cases hb₁
        exact .empty
      · exact h.agendas key₁ b₁ hb₁
  | operated key' o ho b hkey hb hw =>
    cases d with
    | operate key₁ o₁ =>
      cases ho
      have hrun : (t.runOf b).Lasting b.model t.world.2 key' :=
        ⟨h.agendas key' b hkey, hstart key' b⟩
      have hafter := Run.lasting_after hrun o₁
      exact h.put hkey hb (hw ▸ hafter.state) hafter.agenda
    | _ => cases ho
  | restored key' b hkey m hm hb hw =>
    have hrestoring : Store.Restoring fun m' : Model A => b.model.Lasts [] key' m' :=
      Store.restoring_of_covers (Model.covers_lasts key') fun _ _ hstep h => h.trans hstep
    have hlasts := hm _ hrestoring (.refl b.model key')
    exact h.put hkey hb (hw ▸ (hstart key' b).step hlasts) (h.agendas key' b hkey)

/-- Whatever is done with the models of a process, except to put another one in its place, a model keeps
what was declared on it: no group, variable, constraint or constant goes, or changes, apart from the
results of variables and the values that constants were given. -/
theorem declared_lasts (w : Workspace A ω) {key : String} {b : Bench A ω}
    (hb : w.benches.find? key = some b) (ds : List (Deed A ω))
    (hds : ∀ id adapter, .create key id adapter ∉ ds) :
    let t := w.noting.afterAll (ds.map Deed.noted)
    t.Notes (w.afterAll ds) ∧ ∃ b', (w.afterAll ds).benches.find? key = some b' ∧
      b.model.Lasts t.world.2 key b'.model := by
  intro t
  have hnotes : t.Notes (w.afterAll ds) := (notes_noting w).afterAll ds
  have hstart : w.noting.Lasting b.model key := by
    constructor
    · exact ⟨b.noted key, by rw [(notes_noting w).find?, hb]; rfl, .refl b.model key⟩
    · intro key' b' hb'
      rw [(notes_noting w).find?] at hb'
      obtain ⟨b₁, -, rfl⟩ := Option.map_eq_some_iff.mp hb'
      exact (Milp.noting key').all_agenda (fun _ _ P => ⟨P, rfl⟩) b₁.agenda
  have hlasting : t.Lasting b.model key := by
    refine invariant_afterAll (Q := fun d' => ∃ d : Deed A ω, d' = d.noted ∧
      ∀ id adapter, d ≠ .create key id adapter) ?_ hstart _ fun d' hd' => ?_
    · rintro t' d' ht' ⟨d, rfl, hd⟩
      exact ht'.after hd
    · obtain ⟨d, hd, rfl⟩ := List.mem_map.mp hd'
      exact ⟨d, rfl, fun id adapter h => hds id adapter (h ▸ hd)⟩
  obtain ⟨b', hb', hlasts⟩ := hlasting.model
  rw [hnotes.find?] at hb'
  obtain ⟨b₁, hb₁, rfl⟩ := Option.map_eq_some_iff.mp hb'
  exact ⟨hnotes, b₁, hb₁, hlasts⟩

end Workspace

/-- Performs one action. -/
def Program.doing (a : Action Float) : Program (recorder Float) Unit .group :=
  .act a fun r => .finish (r.map fun _ => ())

/-- The rate that is declared on the model, if there is one, with its group. -/
def Model.rate? (m : Model (recorder Float)) : Option (String × Float) :=
  (m.constants.entities.find? "rate").map fun p => (p.group, p.entity.value)

/-- A rate can be given another value, but it cannot be declared once more, and what another model's rate is
has nothing to do with it. -/
theorem Workspace.declared_lasts_rate :
    let rate (value : Float) : Action Float := .createConstant "rate" value (.default .constant)
    let w : Workspace (recorder Float) Unit := (fresh () {}).afterAll
      [.create "depot" "depot" {}, .operate "depot" (.declare (.doing (rate 2)))]
    let ds : List (Deed (recorder Float) Unit) :=
      [.operate "depot" (.declare (.doing (.setConstant "rate" 3))),
        .operate "depot" (.declare (.doing (.setConstant "margin" 4))),
        .operate "depot" (.declare (.doing (rate 5))),
        .create "annex" "annex" {}, .operate "annex" (.declare (.doing (rate 6))),
        .operate "annex" (.declare (.doing (.setConstant "rate" 7)))]
    let t := w.noting.afterAll (ds.map Deed.noted)
    ∃ b b', w.benches.find? "depot" = some b ∧ b.model.rate? = some ("Default_Constants", 2) ∧
      (∀ id adapter, .create "depot" id adapter ∉ ds) ∧
      t.world.2 = [⟨"depot", "rate", 3⟩, ⟨"annex", "rate", 7⟩] ∧
      (w.afterAll ds).benches.find? "depot" = some b' ∧
      b'.model.rate? = some ("Default_Constants", 3) := by
  intro rate w ds t
  have hdepot : ((w.benches.find? "depot").any fun b =>
      decide (b.model.rate? = some ("Default_Constants", 2))) = true := rfl
  obtain ⟨b, hb, hrate⟩ := (Option.any_eq_true _ _).mp hdepot
  have hrate : b.model.rate? = some ("Default_Constants", 2) := of_decide_eq_true hrate
  have hds : ∀ id adapter, .create "depot" id adapter ∉ ds := by
    intro id adapter h
    simp [ds] at h
  have hset : t.world.2 = [⟨"depot", "rate", 3⟩, ⟨"annex", "rate", 7⟩] := by decide
  obtain ⟨-, b', hb', hlasts⟩ := declared_lasts w hb ds hds
  refine ⟨b, b', hb, hrate, hds, hset, hb', ?_⟩
  have hlast : Setting.last t.world.2 "depot" "rate" = some 3 := by
    rw [hset]
    rfl
  obtain ⟨p, hp, hvalue⟩ := Option.map_eq_some_iff.mp hrate
  rw [Model.rate?, hlasts.constants "rate" p hp, hlast]
  simp only [Prod.mk.injEq] at hvalue
  simp [hvalue.1]

end Milp
