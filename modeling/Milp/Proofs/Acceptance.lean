import Milp.Adapter.Recorder
import Milp.Proofs.Accounted
import Milp.Proofs.Bounded
import Milp.Proofs.Restored

/-! A group is accepted once, so that its name stands for its program; and whatever was accepted in time
has run when initialization succeeds. -/
namespace Milp

variable {α η κ ω : Type} {A : Adapter α η κ}

/-- The group that an entry of the record accepts. -/
def Mark.group? : Mark → Option (Kind × String)
  | .accepted k id _ => some (k, id)
  | .ran .. => none

/-- The accepted groups are there, and each was accepted once. -/
structure Recorded (m : Model A) (ms : List Mark) : Prop where
  known : ∀ k id stage, .accepted k id stage ∈ ms → (m.registry k).groups.contains id = true
  once : (ms.filterMap Mark.group?).Nodup

namespace Recorded

variable {m m' : Model A} {ms : List Mark}

theorem groups (h : Recorded m ms)
    (hg : ∀ k id, (m.registry k).groups.contains id = true →
      (m'.registry k).groups.contains id = true) : Recorded m' ms where
  known k id stage hm := hg k id (h.known k id stage hm)
  once := h.once

theorem grows (h : Recorded m ms) (hg : m.Grows m') : Recorded m' ms :=
  h.groups fun k id hid => by
    obtain ⟨g, hg'⟩ := Table.contains_iff.mp hid
    exact Table.contains_of_find? (hg.groups k id g hg')

theorem ran (h : Recorded m ms) {more : List Mark} (hmore : more.filterMap Mark.group? = []) :
    Recorded m (ms ++ more) where
  known k id stage hm := by
    refine h.known k id stage ((List.mem_append.mp hm).resolve_right fun hm => ?_)
    have hs : (k, id) ∈ more.filterMap Mark.group? := List.mem_filterMap.mpr ⟨_, hm, rfl⟩
    rw [hmore] at hs
    cases hs
  once := by simpa [List.filterMap_append, hmore] using h.once

/-- The name of a new group was not taken. -/
theorem created (h : Recorded m ms) {k : Kind} {id description : String}
    {generator : Option Naming.Namer} {g : Group k}
    (hm : m.createGroup k id description generator = .ok (g, m')) (stage : Stage) :
    Recorded m' (ms ++ [.accepted k id stage]) := by
  have hgrows := h.grows (Model.Grows.createGroup hm)
  obtain ⟨-, -, hfree, -, rfl⟩ := Model.createGroup_eq_ok.mp hm
  refine ⟨fun k' id' stage' hacc => ?_, ?_⟩
  · rcases List.mem_append.mp hacc with hacc | hacc
    · exact hgrows.known k' id' stage' hacc
    · obtain ⟨rfl, rfl, -⟩ := Mark.accepted.inj (List.mem_singleton.mp hacc)
      rw [Model.registry_withRegistry]
      exact Table.contains_of_find? (Table.find?_insert ..|>.trans (if_pos rfl))
  · have hnew : (k, id) ∉ ms.filterMap Mark.group? := by
      intro hmem
      obtain ⟨mark, hmark, hg⟩ := List.mem_filterMap.mp hmem
      cases mark with
      | accepted k' id' stage' =>
        obtain ⟨rfl, rfl⟩ := Prod.mk.inj (Option.some.inj hg)
        rw [h.known k' id' stage' hmark] at hfree
        cases hfree
      | ran => cases hg
    rw [List.filterMap_append]
    exact List.nodup_append.mpr ⟨h.once, by simp [Mark.group?], by
      intro a ha b hb
      have hb : b = (k, id) := by simpa [Mark.group?] using hb
      exact fun hab => hnew (hb ▸ hab ▸ ha)⟩

theorem tick (h : Recorded m ms) (ht : Model.Tick m m') : Recorded m' ms := by
  cases ht with
  | change hc => exact h.grows hc.grows
  | _ => exact h.groups fun k id hid => by cases k <;> exact hid

end Recorded

/-- The program keeps a record. -/
def Program.Watching {p : Purpose} (P : Program A (ω × List Mark) p) : Prop :=
  ∃ (P' : Program A ω p) (group : Option (Kind × String)), P = P'.watched group

namespace Run

variable [Unbounded α] {t : Run A (ω × List Mark)}

open Program (Watching)

theorem orderly_watched {p : Purpose} (P : Program A ω p) (group : Option (Kind × String))
    (ht : t.Orderly Watching fun m w => Recorded m w.2) :
    ((P.watched group).run t).2.Orderly Watching fun m w => Recorded m w.2 := by
  induction P generalizing group t with
  | finish r =>
    refine ⟨ht.agenda, ht.state.ran ?_⟩
    unfold Mark.last
    split <;> rfl
  | read next ih => exact ih t.model group ht
  | share f next ih => exact ih t.world.1 group ⟨ht.agenda, ht.state⟩
  | note events next ih => exact ih group (ht.record events)
  | act a next ih =>
    have hgrows := Model.grows_of_changes (Edit.moves_perform a (t.model, t.journal))
    exact ih _ group ⟨ht.agenda, ht.state.grows hgrows⟩
  | spawn k id description generator program next _ ih =>
    simp only [Program.watched, Program.mark, Program.run]
    split
    next g u hu =>
      obtain ⟨m, journal, hm, rfl⟩ := edit_createGroup_eq_ok hu
      exact ih (.ok g) group ⟨ht.agenda.insert k id ⟨program g, some (k, id), rfl⟩,
        ht.state.created hm t.model.stage⟩
    next e u hu =>
      have hgrows := Model.grows_of_changes
        (Edit.moves_perform (.createGroup k id description generator) (t.model, t.journal))
      obtain rfl : u = _ := (congrArg Prod.snd hu).symm
      exact ih (.error e) group ⟨ht.agenda, (ht.state.grows hgrows).ran rfl⟩
  | attach direction program next _ ih =>
    simp only [Program.watched, Program.run]
    split
    · exact ih (.ok ()) group ⟨ht.agenda.attach direction ⟨program, none, rfl⟩, ht.state⟩
    · exact ih _ group ht

theorem discipline_watching :
    Discipline (A := A) (ω := ω × List Mark) Watching (fun m w => Recorded m w.2)
      fun _ => True where
  run := by
    rintro p P ⟨P', group, rfl⟩ t ht
    exact orderly_watched P' group ht
  built _ _ _ _ _ := trivial
  objective m m' w e direction h _ hm := h.grows (Model.Grows.setObjective hm)
  plain m w adapter columns lines stage h := h.groups fun k id hid => by cases k <;> exact hid

theorem orderly_after_watched (ht : t.Orderly Watching fun m w => Recorded m w.2)
    (o : Operation A ω) : (t.after o.watched).Orderly Watching fun m w => Recorded m w.2 := by
  have htick (m m' : Model A) (h : Model.Tick m m') (hm : Recorded m t.world.2) :
      Recorded m' t.world.2 := hm.tick h
  cases o with
  | declare P => exact orderly_watched P none ht
  | init => exact Triple.after discipline_watching.enduring.init ht
  | compute => exact ht.of_local local_compute ((settling_of_ticks htick).compute ht.state)
  | extract => exact ht.of_local local_extract ((settling_of_ticks htick).extract ht.state)

theorem orderly_afterAll_watched (ht : t.Orderly Watching fun m w => Recorded m w.2)
    (os : List (Operation A ω)) :
    (t.afterAll (os.map Operation.watched)).Orderly Watching fun m w => Recorded m w.2 := by
  induction os generalizing t with
  | nil => exact ht
  | cons o rest ih => exact ih (orderly_after_watched ht o)

/-- A life with a record goes as the life itself. In it each group is accepted once, and an
initialization that succeeds has run all programs that were accepted while the phase of their kind was
not over: those of constant groups that came later stay behind. -/
theorem initializers_ran (token : Token) (id : String) (start : A.State) (world : ω)
    (os : List (Operation A ω)) :
    let s := (new token id start world).afterAll os
    let t := (new token id start (world, [])).afterAll (os.map Operation.watched)
    t.Watches s ∧ (Run.init t).1 = (Run.init s).1 ∧ (Run.init t).2.Watches (Run.init s).2 ∧
      ((Run.init t).2.marks.filterMap Mark.group?).Nodup ∧
      ((Run.init s).1 = .ok () → ∀ k group stage, .accepted k group stage ∈ (Run.init t).2.marks →
        (k = .constant → stage.feeds .constant = true) → .ran k group ∈ (Run.init t).2.marks) := by
  intro s t
  have hs : t.Watches s := (watches_new token id start world).afterAll os
  have hnew : (new token id start (world, []) : Run A (ω × List Mark)).Orderly Watching
      fun m w => Recorded m w.2 := ⟨.empty, nofun, .nil⟩
  have hrecorded := orderly_after_watched (orderly_afterAll_watched hnew os) .init
  have hprepared : t.Prepared :=
    Prepared.afterAll (fun _ _ _ ⟨_, h, _⟩ => nomatch h) (watches_new token id start world) os
  obtain ⟨hresult, hwatches⟩ := matches_init t s hs
  refine ⟨hs, hresult, hwatches, hrecorded.state.once, fun hok k group stage hacc hfeeds => ?_⟩
  have hdeclaring : t.model.stage = .declaring := by
    by_contra hne
    rw [← hresult, init_closed hne] at hok
    cases hok
  have hover := handOver_accounted t ⟨⟨s, hs⟩, hprepared hdeclaring⟩
  rw [← hresult, init_apply hdeclaring] at hok
  rw [init_apply hdeclaring] at hacc ⊢
  by_contra hran
  revert hover hok hacc hran
  match Run.handOver t with
  | (.ok (), u) =>
    intro hok hacc hu hran
    exact (hu.2 k group ⟨stage, hacc, hfeeds, hran⟩).1 trivial
  | (.error e, u) =>
    intro hok
    cases hok

end Run

/-- Creates a group of variables whose program creates another group with a program. -/
def Program.nested (k : Kind) : Program (recorder Float) Unit .group :=
  .spawn .var "outer" "" none
    (fun _ => .spawn k "inner" "" none (fun _ => .finish (.ok ())) fun r => .finish (r.map fun _ => ()))
    fun r => .finish (r.map fun _ => ())

namespace Run

/-- With a group of constraints inside, both programs run. -/
theorem initializers_ran_nested :
    let s : Run (recorder Float) Unit :=
      (new ⟨0⟩ "depot" ({} : Recorder.State Float) ()).afterAll [.declare (Program.nested .constraint)]
    let t : Run (recorder Float) (Unit × List Mark) :=
      (new ⟨0⟩ "depot" ({} : Recorder.State Float) ((), [])).afterAll
        ([.declare (Program.nested .constraint)].map Operation.watched)
    (Run.init s).1 = .ok () ∧
      .accepted .var "outer" .declaring ∈ (Run.init t).2.marks ∧
      .accepted .constraint "inner" (.initializing .variableGroups) ∈ (Run.init t).2.marks ∧
      .ran .var "outer" ∈ (Run.init t).2.marks ∧ .ran .constraint "inner" ∈ (Run.init t).2.marks := by
  intro s t
  obtain ⟨-, hresult, -, -, hran⟩ := initializers_ran ⟨0⟩ "depot" ({} : Recorder.State Float) ()
    [.declare (Program.nested .constraint)]
  have hinit : Run.init t = _ :=
    init_within 2 rfl rfl (by decide +kernel)
  have hok : (Run.init s).1 = .ok () := hresult.symm.trans (congrArg Prod.fst hinit)
  have houter : .accepted .var "outer" .declaring ∈ (Run.init t).2.marks := by
    rw [hinit]
    decide +kernel
  have hinner : .accepted .constraint "inner" (.initializing .variableGroups) ∈
      (Run.init t).2.marks := by
    rw [hinit]
    decide +kernel
  exact ⟨hok, houter, hinner, hran hok _ _ _ houter nofun, hran hok _ _ _ hinner nofun⟩

/-- A group of constants inside is accepted too, but the phase of constants is over, and its program
does not run. -/
theorem initializer_lost :
    let t : Run (recorder Float) (Unit × List Mark) :=
      (new ⟨0⟩ "depot" ({} : Recorder.State Float) ((), [])).afterAll
        ([.declare (Program.nested .constant)].map Operation.watched)
    (Run.init t).1 = .ok () ∧
      .accepted .constant "inner" (.initializing .variableGroups) ∈ (Run.init t).2.marks ∧
      .ran .constant "inner" ∉ (Run.init t).2.marks := by
  intro t
  have hinit : Run.init t = _ :=
    init_within 2 rfl rfl (by decide +kernel)
  refine ⟨congrArg Prod.fst hinit, ?_, ?_⟩
  · rw [hinit]
    decide +kernel
  · rw [hinit]
    decide +kernel

end Run
end Milp
