import Milp.Proofs.Diary

/-! What the diary of a phase looks like: programs run in rounds, each in ascending order of the groups,
and the programs that are accepted in one round are those of the next. Every program that is accepted is
then accounted for. -/
namespace Milp

variable {α η κ ω : Type} {A : Adapter α η κ}

/-- A round of programs of one kind at one stage. They begin in turn, and as long as one of them runs,
groups are accepted; the first that fails is the last that begins. -/
inductive Round (k : Kind) (stage : Stage) :
    List (String × Program A ω .group) → Diary A ω → Bool → Prop
  | done : Round k stage [] [] true
  | next {id : String} {P : Program A ω .group} {rest : List (String × Program A ω .group)}
      {D D' : Diary A ω} {ok : Bool} (haccepted : ∀ e ∈ D, e.isAccepted = true)
      (hrest : Round k stage rest D' ok) :
      Round k stage ((id, P) :: rest) (.begun k id P stage :: D ++ D') ok
  | failed {id : String} {P : Program A ω .group} {rest : List (String × Program A ω .group)}
      {D : Diary A ω} (haccepted : ∀ e ∈ D, e.isAccepted = true) :
      Round k stage ((id, P) :: rest) (.begun k id P stage :: D ++ [.failed k id]) false

/-- Rounds of programs of one kind at one stage. In each round the programs that wait run in ascending
order of their groups; those that are accepted meanwhile wait for the next round. After a round with a
failure there is no other, and otherwise there are rounds until nothing waits. -/
inductive Schedule (k : Kind) (stage : Stage) :
    List (String × Program A ω .group) → Diary A ω → Bool → Prop
  | finished : Schedule k stage [] [] true
  | round {pending next : List (String × Program A ω .group)} {D D' : Diary A ω} {ok : Bool}
      (hpending : pending ≠ []) (hascending : pending.Pairwise fun a b => a.1 < b.1)
      (hround : Round k stage pending D true) (hnext : next.Perm (D.accepted k))
      (hrest : Schedule k stage next D' ok) : Schedule k stage pending (D ++ D') ok
  | stopped {pending : List (String × Program A ω .group)} {D : Diary A ω}
      (hascending : pending.Pairwise fun a b => a.1 < b.1) (hround : Round k stage pending D false) :
      Schedule k stage pending D false

/-- No program begins once one has failed. -/
def Diary.Halts (D : Diary A ω) : Prop := D.Pairwise fun a b => a.isFailed = true → b.isBegun = false

namespace Diary

variable {D D' : Diary A ω} {k : Kind}

theorem begun_of_accepted (h : ∀ e ∈ D, e.isAccepted = true) : D.begun k = [] := by
  refine List.filterMap_eq_nil_iff.mpr fun e he => ?_
  cases e with
  | accepted => rfl
  | begun | failed => cases h _ he

theorem not_failed_of_accepted (h : ∀ e ∈ D, e.isAccepted = true) : ∀ e ∈ D, e.isFailed = false := by
  intro e he
  cases e with
  | accepted => rfl
  | begun | failed => cases h _ he

variable {id : String} {P : Program A ω .group} {stage : Stage}

/-- The diary of one program that runs. -/
theorem begun_of_begun (h : ∀ e ∈ D, e.isAccepted = true) :
    begun (.begun k id P stage :: D) k = [(id, P)] := by
  have hhead : begun (.begun k id P stage :: D) k = (id, P) :: D.begun k := by simp [begun, Entry.begun?]
  rw [hhead, begun_of_accepted h]

theorem eq_of_begun_mem (h : ∀ e ∈ D, e.isAccepted = true) {k' : Kind} {id' : String}
    {P' : Program A ω .group} {s : Stage} (hmem : .begun k' id' P' s ∈ .begun k id P stage :: D) :
    k' = k ∧ s = stage := by
  rcases List.mem_cons.mp hmem with heq | hmem
  · obtain ⟨rfl, -, -, rfl⟩ := Entry.begun.inj heq
    exact ⟨rfl, rfl⟩
  · cases h _ hmem

theorem not_failed_of_begun (h : ∀ e ∈ D, e.isAccepted = true) :
    ∀ e ∈ .begun k id P stage :: D, e.isFailed = false :=
  List.forall_mem_cons.mpr ⟨rfl, not_failed_of_accepted h⟩

theorem halts_append (hD : ∀ e ∈ D, e.isFailed = false) (hD' : D'.Halts) : Halts (D ++ D') := by
  refine List.pairwise_append.mpr
    ⟨List.pairwise_of_forall_mem_list fun a ha b _ => ?_, hD', fun a ha b _ => ?_⟩
  · simp [hD a ha]
  · simp [hD a ha]

theorem Halts.append (hD : D.Halts) (hD' : ∀ e ∈ D', e.isAccepted = true) : Halts (D ++ D') := by
  have hbegun : ∀ e ∈ D', e.isBegun = false := by
    intro e he
    cases e with
    | accepted | failed => rfl
    | begun => cases hD' _ he
  exact List.pairwise_append.mpr ⟨hD,
    List.pairwise_of_forall_mem_list fun _ _ b hb _ => hbegun b hb, fun _ _ b hb _ => hbegun b hb⟩

end Diary

namespace Round

variable {k : Kind} {stage : Stage} {ps : List (String × Program A ω .group)} {D : Diary A ω} {ok : Bool}

/-- What begins in a round is a first part of what waits, and all of it if nothing fails. -/
theorem begun (h : Round k stage ps D ok) : D.begun k <+: ps ∧ (ok = true → D.begun k = ps) := by
  induction h with
  | done => exact ⟨List.prefix_rfl, fun _ => rfl⟩
  | next haccepted _ ih =>
    rw [Diary.begun_append, Diary.begun_of_begun haccepted]
    exact ⟨List.cons_prefix_cons.mpr ⟨rfl, ih.1⟩, fun hok => congrArg _ (ih.2 hok)⟩
  | failed haccepted =>
    rw [Diary.begun_append, Diary.begun_of_begun haccepted]
    exact ⟨List.cons_prefix_cons.mpr ⟨rfl, List.nil_prefix⟩, nofun⟩

/-- Only programs of its kind begin in a round, and at its stage. -/
theorem of_begun (h : Round k stage ps D ok) {k' : Kind} {id : String} {P : Program A ω .group} {s : Stage}
    (hmem : .begun k' id P s ∈ D) : k' = k ∧ s = stage := by
  induction h with
  | done => cases hmem
  | next haccepted _ ih => exact (List.mem_append.mp hmem).elim (Diary.eq_of_begun_mem haccepted) ih
  | failed haccepted =>
    refine (List.mem_append.mp hmem).elim (Diary.eq_of_begun_mem haccepted) fun hlast => ?_
    cases List.mem_singleton.mp hlast

theorem calm (h : Round k stage ps D true) : ∀ e ∈ D, e.isFailed = false := by
  generalize hok : true = ok at h
  induction h with
  | done => exact nofun
  | next haccepted _ ih =>
    exact fun e he => (List.mem_append.mp he).elim (Diary.not_failed_of_begun haccepted e) (ih hok e)
  | failed => cases hok

theorem halts (h : Round k stage ps D ok) : D.Halts := by
  induction h with
  | done => exact .nil
  | next haccepted _ ih => exact Diary.halts_append (Diary.not_failed_of_begun haccepted) ih
  | failed haccepted =>
    exact Diary.halts_append (Diary.not_failed_of_begun haccepted) (List.pairwise_singleton ..)

end Round

namespace Schedule

variable {k : Kind} {stage : Stage} {pending : List (String × Program A ω .group)} {D : Diary A ω}
  {ok : Bool}

theorem of_begun (h : Schedule k stage pending D ok) {k' : Kind} {id : String} {P : Program A ω .group}
    {s : Stage} (hmem : .begun k' id P s ∈ D) : k' = k ∧ s = stage := by
  induction h with
  | finished => cases hmem
  | round _ _ hround _ _ ih => exact (List.mem_append.mp hmem).elim hround.of_begun ih
  | stopped _ hround => exact hround.of_begun hmem

theorem begun_of_ne (h : Schedule k stage pending D ok) {k' : Kind} (hk : k' ≠ k) : D.begun k' = [] := by
  refine List.filterMap_eq_nil_iff.mpr fun e he => ?_
  cases e with
  | begun k'' id P s =>
    obtain ⟨rfl, -⟩ := h.of_begun he
    exact if_neg hk.symm
  | accepted | failed => rfl

theorem calm (h : Schedule k stage pending D true) : ∀ e ∈ D, e.isFailed = false := by
  generalize hok : true = ok at h
  induction h with
  | finished => exact nofun
  | round _ _ hround _ _ ih => exact fun e he => (List.mem_append.mp he).elim (hround.calm e) (ih hok e)
  | stopped => cases hok

theorem halts (h : Schedule k stage pending D ok) : D.Halts := by
  induction h with
  | finished => exact .nil
  | round _ _ hround _ _ ih => exact Diary.halts_append hround.calm ih
  | stopped _ hround => exact hround.halts

/-- What waits and what is accepted begins at most once, -/
theorem subperm (h : Schedule k stage pending D ok) : (D.begun k).Subperm (pending ++ D.accepted k) := by
  induction h with
  | finished => exact List.nil_subperm
  | @round pending next D D' ok _ _ hround hnext _ ih =>
    rw [Diary.begun_append, Diary.accepted_append, hround.begun.2 rfl]
    exact (List.subperm_append_left pending).mpr (ih.trans (hnext.append_right _).subperm)
  | stopped _ hround => exact (hround.begun.1.sublist.trans (List.sublist_append_left ..)).subperm

/-- and exactly once if there is no failure. -/
theorem perm (h : Schedule k stage pending D true) : (D.begun k).Perm (pending ++ D.accepted k) := by
  generalize hok : true = ok at h
  induction h with
  | finished => exact .refl _
  | @round pending next D D' ok _ _ hround hnext _ ih =>
    rw [Diary.begun_append, Diary.accepted_append, hround.begun.2 rfl]
    exact ((ih hok).trans (hnext.append_right _)).append_left pending
  | stopped => cases hok

end Schedule
end Milp
