import Milp.Proofs.Bookkeeping

/-! Programs that keep a diary: which groups were accepted, and with which programs; which of these
programs began, and when; and which of them failed. Keeping it changes nothing else. -/
namespace Milp

variable {α η κ ω : Type} {A : Adapter α η κ}

/-- An entry in the diary. The program of a group is told which group it is for. -/
inductive Entry (A : Adapter α η κ) (ω : Type)
  | accepted (k : Kind) (g : Group k) (program : Group k → Program A ω .group)
  | begun (k : Kind) (id : String) (P : Program A ω .group) (stage : Stage)
  | failed (k : Kind) (id : String)

abbrev Diary (A : Adapter α η κ) (ω : Type) := List (Entry A ω)

namespace Entry

def isAccepted : Entry A ω → Bool
  | .accepted .. => true
  | _ => false

def isBegun : Entry A ω → Bool
  | .begun .. => true
  | _ => false

def isFailed : Entry A ω → Bool
  | .failed .. => true
  | _ => false

/-- A group of this kind that is accepted here, with the program for it. -/
def accepted? (k : Kind) : Entry A ω → Option (String × Program A ω .group)
  | .accepted k' g program => if k' = k then some (g.identifier, program g) else none
  | _ => none

/-- The program of a group of this kind that begins here. -/
def begun? (k : Kind) : Entry A ω → Option (String × Program A ω .group)
  | .begun k' id P _ => if k' = k then some (id, P) else none
  | _ => none

/-- What the end of a program adds to the diary, -/
def last {ε β : Type} (group : Option (Kind × String)) (r : Except ε β) : Diary A ω :=
  match group, r with
  | some g, .error _ => [.failed g.1 g.2]
  | _, _ => []

/-- and what creating a group with a program adds. -/
def created {ε : Type} (k : Kind) (program : Group k → Program A ω .group) (r : Except ε (Group k)) :
    Diary A ω :=
  match r with
  | .ok g => [.accepted k g program]
  | .error _ => []

end Entry

namespace Diary

/-- The groups of a kind that were accepted, in turn, each with the program for it. -/
def accepted (D : Diary A ω) (k : Kind) : List (String × Program A ω .group) :=
  D.filterMap (Entry.accepted? k)

/-- The programs of groups of a kind that began, in turn. -/
def begun (D : Diary A ω) (k : Kind) : List (String × Program A ω .group) := D.filterMap (Entry.begun? k)

variable {D D' : Diary A ω} {k : Kind}

@[simp] theorem accepted_append : accepted (D ++ D') k = D.accepted k ++ D'.accepted k :=
  List.filterMap_append

@[simp] theorem begun_append : begun (D ++ D') k = D.begun k ++ D'.begun k := List.filterMap_append

theorem mem_accepted {e : String × Program A ω .group} (h : e ∈ D.accepted k) :
    ∃ (g : Group k) (program : Group k → Program A ω .group),
      .accepted k g program ∈ D ∧ e = (g.identifier, program g) := by
  obtain ⟨entry, hmem, hentry⟩ := List.mem_filterMap.mp h
  cases entry with
  | accepted k' g program =>
    obtain ⟨rfl, he⟩ := Option.ite_none_right_eq_some.mp hentry
    exact ⟨g, program, hmem, (Option.some.inj he).symm⟩
  | begun | failed => cases hentry

/-- Entries that accept nothing. -/
theorem accepted_eq_nil (h : ∀ e ∈ D, e.isAccepted = false) : D.accepted k = [] := by
  refine List.filterMap_eq_nil_iff.mpr fun e he => ?_
  cases e with
  | accepted => cases h _ he
  | begun | failed => rfl

theorem accepted_of_accepted (g : Group k) (program : Group k → Program A ω .group) :
    accepted [.accepted k g program] k = [(g.identifier, program g)] := by
  simp [accepted, Entry.accepted?]

theorem accepted_of_ne {k' : Kind} (h : k' ≠ k) (g : Group k) (program : Group k → Program A ω .group) :
    accepted [.accepted k g program] k' = [] := by
  simp [accepted, Entry.accepted?, h.symm]

end Diary

namespace Program

/-- Adds to the diary and goes on. -/
def write {p : Purpose} (es : Diary A ω) (next : Program A (ω × Diary A ω) p) : Program A (ω × Diary A ω) p :=
  .share (fun w => (w.1, w.2 ++ es)) fun _ => next

/-- Notes that a program begins. -/
def opened (group : Kind × String) (P : Program A ω .group) (next : Program A (ω × Diary A ω) .group) :
    Program A (ω × Diary A ω) .group :=
  .read fun m => write [.begun group.1 group.2 P m.stage] next

/-- The program with a diary, run for a group or for none. -/
def logged (group : Option (Kind × String)) : {p : Purpose} → Program A ω p → Program A (ω × Diary A ω) p
  | _, .finish r => write (Entry.last group r) (.finish r)
  | _, .read next => .read fun m => (next m).logged group
  | _, .share f next => .share (fun w => (f w.1, w.2)) fun w => (next w.1).logged group
  | _, .note events next => .note events (next.logged group)
  | _, .act a next => .act a fun r => (next r).logged group
  | _, .spawn k id description generator program next =>
    .spawn k id description generator
      (fun g => opened (k, id) (program g) ((program g).logged (some (k, id)))) fun r =>
        write (Entry.created k program r) ((next r).logged group)
  | _, .attach direction program next =>
    .attach direction (program.logged none) fun r => (next r).logged group

end Program

namespace Run

/-- The programs of groups note that they begin. -/
def logging : Bookkeeping A (ω × Diary A ω) ω where
  shared := Prod.fst
  program group p P := match group, p, P with
    | some g, .group, P => Program.opened g P (P.logged (some g))
    | group, _, P => P.logged group

/-- A program that begins is known by what it notes. -/
theorem program_injective (m : Model A) (w : ω) {g : Kind × String} {P P' : Program A ω .group}
    (h : logging.program (some g) P = logging.program (some g) P') : P = P' := by
  have hread := congrFun (Program.read.inj h) m
  have hshare := congrFun (Program.share.inj hread).1 (w, [])
  have hentry := (List.cons.inj (Prod.mk.inj hshare).2).1
  exact (Entry.begun.inj hentry).2.2.1

theorem table_injective (m : Model A) (w : ω) {k : Kind} {T T' : Table (Program A ω .group)}
    (h : logging.table k T = logging.table k T') : T = T' := by
  refine Table.ext_find? fun id => ?_
  have hid : (logging.table k T).find? id = (logging.table k T').find? id := congrArg (·.find? id) h
  simp only [Bookkeeping.table, Table.find?_map] at hid
  cases hP : T.find? id with
  | none =>
    rw [hP, Option.map_none, eq_comm, Option.map_eq_none_iff] at hid
    exact hid.symm
  | some P =>
    rw [hP, Option.map_some, eq_comm, Option.map_eq_some_iff] at hid
    obtain ⟨P', hP', hprogram⟩ := hid
    rw [hP', program_injective m w hprogram]

variable [Unbounded α]

theorem agrees_logged (group : Option (Kind × String)) {p : Purpose} (P : Program A ω p) :
    logging.Agrees (P.logged group).run P.run := by
  induction P generalizing group with
  | finish r => exact fun t s hts => ⟨rfl, hts.model, hts.agenda, hts.world, hts.journal⟩
  | read next ih =>
    intro t s hts
    simp only [Program.logged, Program.run, hts.model]
    exact ih s.model group t s hts
  | share f next ih =>
    intro t s hts
    have hworld : t.world.1 = s.world := hts.world
    simp only [Program.logged, Program.run, hworld]
    exact ih s.world group _ _ ⟨hts.model, hts.agenda, rfl, hts.journal⟩
  | note events next ih => exact fun t s hts => ih group _ _ (hts.record events)
  | act a next ih =>
    intro t s hts
    obtain ⟨r, t', s', hx, hy, hw⟩ := (Bookkeeping.agrees_edit a.perform).outcomes hts
    simp only [Program.logged, Program.run, hx, hy]
    exact ih r group t' s' hw
  | spawn k id description generator program next _ ih =>
    intro t s hts
    obtain ⟨r, t', s', hx, hy, hw⟩ :=
      (Bookkeeping.agrees_edit (Edit.createGroup k id description generator)).outcomes hts
    simp only [Program.logged, Program.write, Program.run, hx, hy]
    cases r with
    | ok g =>
      have hw' := hw.insert k id (program g)
      exact ih (.ok g) group _ _ ⟨hw'.model, hw'.agenda, hw'.world, hw'.journal⟩
    | error e => exact ih (.error e) group _ _ ⟨hw.model, hw.agenda, hw.world, hw.journal⟩
  | attach direction program next _ ih =>
    intro t s hts
    have ho : t.model.checkObjectiveOpen = s.model.checkObjectiveOpen := by rw [hts.model]
    simp only [Program.logged, Program.run, ho]
    cases s.model.checkObjectiveOpen with
    | ok u => exact ih (.ok ()) group _ _ (hts.attach direction program)
    | error e => exact ih (.error e) group _ _ hts

theorem faithful_logging : (logging (A := A) (ω := ω)).Faithful := by
  intro group p P t s hts
  match group, p, P with
  | none, _, P => exact agrees_logged none P t s hts
  | some g, .objective, P => exact agrees_logged (some g) P t s hts
  | some g, .group, P =>
    exact agrees_logged (some g) P _ s ⟨hts.model, hts.agenda, hts.world, hts.journal⟩

end Run
end Milp
