import Mathlib.Logic.Function.Basic
import Milp.Proofs.Accounted
import Milp.Proofs.Restored
import Milp.Proofs.Rounds

/-! The phase of a kind's groups keeps to the schedule, and in the end all programs that were accepted
are on the agenda again. -/
namespace Milp

open scoped List

variable {α β η κ ω : Type} {A : Adapter α η κ}

namespace Table

variable {t : Table β}

theorem perm_insert {k : String} (h : t.contains k = false) (v : β) :
    (t.insert k v).entries.Perm ((k, v) :: t.entries) := by
  have hplace {es : List (String × β)} (hes : k ∉ es.map Prod.fst) :
      (place k v es).Perm ((k, v) :: es) := by
    induction es with
    | nil => exact .refl _
    | cons e rest ih =>
      obtain ⟨hne, hrest⟩ := not_or.mp (mt List.mem_cons.mpr hes)
      unfold place
      split
      · exact .refl _
      · exact ((ih hrest).cons e).trans (.swap ..)
  refine hplace fun hk => ?_
  rw [Table.mem_keys.mp hk] at h
  cases h

/-- Entries with keys of their own all find a place. -/
theorem perm_insertAll {es : List (String × β)} (h : ((es ++ t.entries).map Prod.fst).Nodup) :
    (t.insertAll es).entries.Perm (es ++ t.entries) := by
  induction es generalizing t with
  | nil => exact .refl _
  | cons e rest ih =>
    have hfree : t.contains e.1 = false := by
      rw [Bool.eq_false_iff]
      intro hc
      have hkey : e.1 ∈ (rest ++ t.entries).map Prod.fst := by
        rw [List.map_append]
        exact List.mem_append_right _ (Table.mem_keys.mpr hc)
      exact (List.nodup_cons.mp h).1 hkey
    have hinsert := perm_insert hfree e.2
    have hmiddle : (rest ++ (t.insert e.1 e.2).entries).Perm (e :: rest ++ t.entries) :=
      (hinsert.append_left rest).trans List.perm_middle
    have hnodup : ((rest ++ (t.insert e.1 e.2).entries).map Prod.fst).Nodup :=
      (hmiddle.map _).nodup_iff.mpr h
    exact (ih hnodup).trans hmiddle

end Table

namespace Run

/-- The diary of a run. -/
def diary (t : Run A (ω × Diary A ω)) : Diary A ω := t.world.2

/-- The programs that were accepted for groups of a kind are those on the agenda and those that were
taken away from it; and each group was accepted once, and is there. -/
structure Held (away : Kind → List (String × Program A ω .group)) (t : Run A (ω × Diary A ω)) : Prop where
  waits : ∀ k, ∃ T, t.agenda.programs k = logging.table k T ∧
    (away k ++ T.entries).Perm (t.diary.accepted k)
  objective : ∀ o ∈ t.agenda.objective, ∃ P : Program A ω .objective, o.2 = P.logged none
  known : ∀ k g program, .accepted k g program ∈ t.diary →
    (t.model.registry k).groups.find? g.identifier = some g
  once : ∀ k, ((t.diary.accepted k).map Prod.fst).Nodup

variable {away : Kind → List (String × Program A ω .group)} {t t' t'' : Run A (ω × Diary A ω)}

/-- Of the diary only what is accepted matters, and of the model only that its groups stay. -/
theorem Held.of_eq (h : t.Held away) (ha : t'.agenda = t.agenda) {D : Diary A ω}
    (hd : t'.diary = t.diary ++ D) (hD : ∀ e ∈ D, e.isAccepted = false)
    (hg : ∀ k id g, (t.model.registry k).groups.find? id = some g →
      (t'.model.registry k).groups.find? id = some g) : t'.Held away := by
  have haccepted (k : Kind) : t'.diary.accepted k = t.diary.accepted k := by
    rw [hd, Diary.accepted_append, Diary.accepted_eq_nil hD, List.append_nil]
  refine ⟨fun k => ?_, ha ▸ h.objective, fun k g program hmem => ?_, fun k => haccepted k ▸ h.once k⟩
  · rw [ha, haccepted]
    exact h.waits k
  · rw [hd] at hmem
    refine hg k g.identifier g (h.known k g program ((List.mem_append.mp hmem).resolve_right fun hm => ?_))
    cases hD _ hm

/-- A program that is accepted waits. -/
theorem Held.spawn (h : t.Held away) {k : Kind} {id description : String}
    {generator : Option Naming.Namer} {program : Group k → Program A ω .group} {g : Group k}
    (hu : Run.edit (Edit.createGroup k id description generator) t = (.ok g, t')) :
    Held away { t'.withPrograms k ((t'.agenda.programs k).insert id
        (logging.program (some (k, id)) (program g))) with
      world := (t'.world.1, t'.world.2 ++ [.accepted k g program]) } := by
  obtain ⟨m, journal, hm, rfl⟩ := edit_createGroup_eq_ok hu
  have hgroups := (Model.Grows.createGroup hm).groups
  obtain ⟨-, -, hfree, hg, hm'⟩ := Model.createGroup_eq_ok.mp hm
  have hid : g.identifier = id := by rw [hg]
  have haccepted : Diary.accepted (t.diary ++ [.accepted k g program]) k =
      t.diary.accepted k ++ [(id, program g)] := by
    rw [Diary.accepted_append, Diary.accepted_of_accepted, hid]
  have hothers {k' : Kind} (hk : k' ≠ k) : Diary.accepted (t.diary ++ [.accepted k g program]) k' =
      t.diary.accepted k' := by
    rw [Diary.accepted_append, Diary.accepted_of_ne hk, List.append_nil]
  have hnew : id ∉ (t.diary.accepted k).map Prod.fst := fun hmem => by
    obtain ⟨e, he, rfl⟩ := List.mem_map.mp hmem
    obtain ⟨g', program', hmem', rfl⟩ := Diary.mem_accepted he
    rw [Table.contains_of_find? (h.known k g' program' hmem')] at hfree
    cases hfree
  refine ⟨fun k' => ?_, ?_, fun k' g' program' hmem => ?_, fun k' => ?_⟩
  · by_cases hk : k' = k
    · subst hk
      obtain ⟨T, hT, hperm⟩ := h.waits k'
      have hfreeT : T.contains id = false := by
        refine Bool.eq_false_iff.mpr fun hc => hnew ?_
        obtain ⟨P, hP⟩ := Table.contains_iff.mp hc
        have hmem : (id, P) ∈ away k' ++ T.entries :=
          List.mem_append_right _ (Table.find?_eq_some_iff.mp hP)
        exact List.mem_map_of_mem (hperm.mem_iff.mp hmem)
      refine ⟨T.insert id (program g), ?_, ?_⟩
      · change (Agenda.withPrograms _ k' _).programs k' = _
        rw [Agenda.programs_withPrograms_self, hT, Bookkeeping.table_insert]
      · change (away k' ++ (T.insert id (program g)).entries).Perm
          (Diary.accepted (t.diary ++ [.accepted k' g program]) k')
        rw [haccepted]
        calc away k' ++ (T.insert id (program g)).entries
            ~ away k' ++ (id, program g) :: T.entries := (Table.perm_insert hfreeT _).append_left _
          _ ~ (id, program g) :: (away k' ++ T.entries) := List.perm_middle
          _ ~ (id, program g) :: t.diary.accepted k' := hperm.cons _
          _ ~ t.diary.accepted k' ++ [(id, program g)] := (List.perm_append_singleton _ _).symm
    · obtain ⟨T, hT, hperm⟩ := h.waits k'
      refine ⟨T, ?_, ?_⟩
      · change (Agenda.withPrograms _ k _).programs k' = _
        rw [Agenda.programs_withPrograms_of_ne _ hk, hT]
      · change (away k' ++ T.entries) ~ Diary.accepted (t.diary ++ [.accepted k g program]) k'
        rwa [hothers hk]
  · cases k <;> exact h.objective
  · rcases List.mem_append.mp hmem with hmem | hmem
    · exact hgroups k' g'.identifier g' (h.known k' g' program' hmem)
    · obtain ⟨rfl, hg', -⟩ := Entry.accepted.inj (List.mem_singleton.mp hmem)
      obtain rfl := eq_of_heq hg'
      change (m.registry k').groups.find? g'.identifier = some g'
      rw [hid, hm', Model.registry_withRegistry]
      exact (Table.find?_insert ..).trans (if_pos rfl)
  · change ((Diary.accepted (t.diary ++ [.accepted k g program]) k').map Prod.fst).Nodup
    by_cases hk : k' = k
    · subst hk
      rw [haccepted, List.map_append]
      refine List.nodup_append.mpr ⟨h.once k', List.nodup_singleton _, fun a ha b hb hab => hnew ?_⟩
      have hb : b = id := List.mem_singleton.mp hb
      rwa [← hb, ← hab]
    · rw [hothers hk]
      exact h.once k'

/-- What the steps of programs come to: so much is added to the diary, the stage stays, and nothing that
was accepted is lost. -/
structure Logs (D : Diary A ω) (t t' : Run A (ω × Diary A ω)) : Prop where
  diary : t'.diary = t.diary ++ D
  stage : t'.model.stage = t.model.stage
  held : ∀ away, t.Held away → t'.Held away

variable {D D' : Diary A ω}

theorem Logs.trans (h : Logs D t t') (h' : Logs D' t' t'') : Logs (D ++ D') t t'' where
  diary := by rw [h'.diary, h.diary, List.append_assoc]
  stage := h'.stage.trans h.stage
  held away ht := h'.held away (h.held away ht)

/-- Nothing is added to the diary, and the model and the agenda stay. -/
theorem Logs.quiet (hm : t'.model = t.model) (ha : t'.agenda = t.agenda) (hd : t'.diary = t.diary) :
    Logs [] t t' where
  diary := by rw [hd, List.append_nil]
  stage := by rw [hm]
  held away ht := ht.of_eq ha (by rw [hd, List.append_nil]) (List.forall_mem_nil _) fun _ _ _ h => hm ▸ h

theorem Logs.write (t : Run A (ω × Diary A ω)) (hD : ∀ e ∈ D, e.isAccepted = false) :
    Logs D t { t with world := (t.world.1, t.world.2 ++ D) } :=
  ⟨rfl, rfl, fun _ ht => ht.of_eq rfl rfl hD fun _ _ _ h => h⟩

/-- The program of a group with the diary. -/
abbrev dress (k : Kind) (e : String × Program A ω .group) : String × Program A (ω × Diary A ω) .group :=
  (e.1, logging.program (some (k, e.1)) e.2)

theorem Held.perm (h : t.Held away) {k : Kind} {T : Table (Program A ω .group)}
    (hT : t.agenda.programs k = logging.table k T) : away k ++ T.entries ~ t.diary.accepted k := by
  obtain ⟨T', hT', hperm⟩ := h.waits k
  obtain rfl : T = T' := table_injective t.model t.world.1 (hT.symm.trans hT')
  exact hperm

/-- When a round begins, the group of every program that waits is looked up and found: it is the one that
the program was accepted for. -/
theorem Held.registered (h : t.Held away) {k : Kind} {T : Table (Program A ω .group)}
    (hT : t.agenda.programs k = logging.table k T) {id : String} {P : Program A ω .group}
    (hP : T.find? id = some P) :
    ∃ g program, (t.model.registry k).groups.find? id = some g ∧ .accepted k g program ∈ t.diary ∧
      P = program g := by
  have hmem : (id, P) ∈ away k ++ T.entries :=
    List.mem_append_right _ (Table.find?_eq_some_iff.mp hP)
  obtain ⟨g, program, haccepted, heq⟩ := Diary.mem_accepted ((h.perm hT).mem_iff.mp hmem)
  obtain ⟨rfl, rfl⟩ := Prod.mk.inj heq
  exact ⟨g, program, h.known k g program haccepted, haccepted, rfl⟩

/-- The programs of a kind are taken off the agenda, -/
theorem Held.take (h : t.Held away) {k : Kind} {T : Table (Program A ω .group)}
    (hT : t.agenda.programs k = logging.table k T) :
    (t.withPrograms k .empty).Held (Function.update away k (away k ++ T.entries)) := by
  refine ⟨fun k' => ?_, by cases k <;> exact h.objective, h.known, h.once⟩
  by_cases hk : k' = k
  · subst hk
    refine ⟨.empty, Agenda.programs_withPrograms_self .., ?_⟩
    rw [Function.update_self]
    exact (List.append_nil _).symm ▸ h.perm hT
  · obtain ⟨T', hT', hperm⟩ := h.waits k'
    refine ⟨T', (Agenda.programs_withPrograms_of_ne _ hk _).trans hT', ?_⟩
    rwa [Function.update_of_ne hk]

/-- and put back. -/
theorem Held.back (h : t.Held away) (k : Kind) :
    (t.withPrograms k ((t.agenda.programs k).insertAll ((away k).map (dress k)))).Held
      (Function.update away k []) := by
  refine ⟨fun k' => ?_, by cases k <;> exact h.objective, h.known, h.once⟩
  by_cases hk : k' = k
  · subst hk
    obtain ⟨T, hT, hperm⟩ := h.waits k'
    have hnodup : ((away k' ++ T.entries).map Prod.fst).Nodup := (hperm.map _).nodup_iff.mpr (h.once k')
    refine ⟨T.insertAll (away k'), ?_, ?_⟩
    · rw [hT, ← Bookkeeping.table_insertAll]
      exact Agenda.programs_withPrograms_self ..
    · rw [Function.update_self, List.nil_append]
      exact (Table.perm_insertAll hnodup).trans hperm
  · obtain ⟨T, hT, hperm⟩ := h.waits k'
    refine ⟨T, (Agenda.programs_withPrograms_of_ne _ hk _).trans hT, ?_⟩
    rwa [Function.update_of_ne hk]

variable [Unbounded α]

theorem logs_edit (a : Action α) (t : Run A (ω × Diary A ω)) : Logs [] t (Run.edit a.perform t).2 := by
  have hgrows := Model.grows_of_changes (Edit.moves_perform a (t.model, t.journal))
  have hd : (Run.edit a.perform t).2.diary = t.diary ++ [] := (List.append_nil _).symm
  exact ⟨hd, hgrows.stage, fun away ht => ht.of_eq rfl hd (List.forall_mem_nil _) hgrows.groups⟩

/-- While a program runs, groups are accepted; its failure is noted. -/
theorem logs_logged {p : Purpose} (P : Program A ω p) (group : Option (Kind × String))
    (t : Run A (ω × Diary A ω)) : ∃ D, (∀ e ∈ D, e.isAccepted = true) ∧
      Logs (D ++ Entry.last group ((P.logged group).run t).1) t ((P.logged group).run t).2 := by
  induction P generalizing group t with
  | finish r =>
    refine ⟨[], nofun, Logs.write t fun e he => ?_⟩
    unfold Entry.last at he
    split at he
    · rw [List.mem_singleton.mp he]
      rfl
    · cases he
  | read next ih => exact ih t.model group t
  | share f next ih =>
    have hshare : Logs [] t { t with world := (f t.world.1, t.world.2) } := Logs.quiet rfl rfl rfl
    obtain ⟨D, hD, h⟩ := ih t.world.1 group { t with world := (f t.world.1, t.world.2) }
    exact ⟨D, hD, hshare.trans h⟩
  | note events next ih =>
    have hnote : Logs [] t (t.record events) := Logs.quiet rfl rfl rfl
    obtain ⟨D, hD, h⟩ := ih group (t.record events)
    exact ⟨D, hD, hnote.trans h⟩
  | act a next ih =>
    obtain ⟨D, hD, h⟩ := ih (Run.edit a.perform t).1 group (Run.edit a.perform t).2
    exact ⟨D, hD, (logs_edit a t).trans h⟩
  | spawn k id description generator program next _ ih =>
    simp only [Program.logged, Program.write, Program.run]
    split
    next g u hu =>
      obtain ⟨m, journal, hm, hu'⟩ := edit_createGroup_eq_ok hu
      have haccept : Logs [.accepted k g program] t
          { u.withPrograms k ((u.agenda.programs k).insert id (logging.program (some (k, id)) (program g))) with
            world := (u.world.1, u.world.2 ++ [.accepted k g program]) } :=
        ⟨by rw [hu']; rfl, by rw [hu']; exact (Model.Grows.createGroup hm).stage, fun away ht => ht.spawn hu⟩
      obtain ⟨D, hD, h⟩ := ih (.ok g) group _
      exact ⟨.accepted k g program :: D, List.forall_mem_cons.mpr ⟨rfl, hD⟩, haccept.trans h⟩
    next e u hu =>
      have hedit : Logs [] t u := by
        have ht := logs_edit (.createGroup k id description generator) t
        have hu' : (Run.edit (Action.createGroup k id description generator).perform t).2 = u :=
          congrArg Prod.snd hu
        rwa [hu'] at ht
      have hwrite : Logs [] u { u with world := (u.world.1, u.world.2 ++ []) } := Logs.write u nofun
      obtain ⟨D, hD, h⟩ := ih (.error e) group _
      exact ⟨D, hD, (hedit.trans hwrite).trans h⟩
  | attach direction program next _ ih =>
    simp only [Program.logged, Program.run]
    split
    next =>
      have hattach : Logs [] t
          { t with agenda := { t.agenda with objective := some (direction, program.logged none) } } := by
        refine ⟨(List.append_nil _).symm, rfl, fun away ht => ⟨fun k => ?_, ?_, ht.known, ht.once⟩⟩
        · have hwaits := ht.waits k
          cases k <;> exact hwaits
        · rintro o ho
          cases ho
          exact ⟨program, rfl⟩
      obtain ⟨D, hD, h⟩ := ih (.ok ()) group _
      exact ⟨D, hD, hattach.trans h⟩
    next e _ => exact ih (.error e) group t

/-- A round of programs leaves the diary of a round. -/
theorem logs_runAll (phase : Phase) (k : Kind) (ps : List (String × Program A ω .group))
    (t : Run A (ω × Diary A ω)) :
    ∃ D, Round k t.model.stage ps D (Program.runAll phase (ps.map (dress k)) t).1.isOk ∧
      Logs D t (Program.runAll phase (ps.map (dress k)) t).2 := by
  induction ps generalizing t with
  | nil => exact ⟨[], .done, .quiet rfl rfl rfl⟩
  | cons e rest ih =>
    obtain ⟨id, P⟩ := e
    let u : Run A (ω × Diary A ω) := t.record [.initializerStarted phase id]
    have hwrite : Logs [.begun k id P t.model.stage] u
        { u with world := (u.world.1, u.world.2 ++ [.begun k id P u.model.stage]) } :=
      Logs.write u fun e he => by rw [List.mem_singleton.mp he]; rfl
    have hopened := (Logs.quiet rfl rfl rfl : Logs [] t u).trans hwrite
    obtain ⟨D, hD, hrun⟩ := logs_logged P (some (k, id))
      { u with world := (u.world.1, u.world.2 ++ [.begun k id P u.model.stage]) }
    have hdress : (dress k (id, P)).2.run u = (P.logged (some (k, id))).run
        { u with world := (u.world.1, u.world.2 ++ [.begun k id P u.model.stage]) } := rfl
    rw [← hdress] at hrun
    simp only [List.map_cons, Program.runAll]
    split
    next v hv =>
      rw [hv] at hrun
      have hrun : Logs (D ++ []) _ v := hrun
      rw [List.append_nil] at hrun
      obtain ⟨D', hround, hrest⟩ := ih v
      rw [show v.model.stage = t.model.stage from hrun.stage] at hround
      exact ⟨_, .next hD hround, (hopened.trans hrun).trans hrest⟩
    next e v hv =>
      rw [hv] at hrun
      have hrun : Logs (D ++ [.failed k id]) _ v := hrun
      have hnoted : Logs [] v (v.record [.initializerFailed phase id e]) := .quiet rfl rfl rfl
      have hall := (hopened.trans hrun).trans hnoted
      rw [List.append_nil] at hall
      exact ⟨_, .failed hD, hall⟩

/-- Rounds of programs leave the diary of a schedule, and put all programs back. -/
theorem scheduled_rounds {phase : Phase} {k : Kind} (done : List (String × Program A (ω × Diary A ω) .group))
    (t : Run A (ω × Diary A ω)) (away : Kind → List (String × Program A ω .group))
    (T : Table (Program A ω .group)) (hdone : done = (away k).map (dress k)) (h : t.Held away)
    (hT : t.agenda.programs k = logging.table k T) :
    ∃ D, Schedule k t.model.stage T.entries D (Program.rounds phase k done t).1.isOk ∧
      (Program.rounds phase k done t).2.diary = t.diary ++ D ∧
      (Program.rounds phase k done t).2.Held (Function.update away k []) := by
  fun_induction Program.rounds phase k done t generalizing away T with
  | case1 done t pending he =>
    have hnil : T.entries = [] := by
      have hempty : (t.agenda.programs k).isEmpty = true := he
      rw [hT] at hempty
      simpa [Table.isEmpty, Bookkeeping.table, Table.map] using hempty
    refine ⟨[], hnil ▸ .finished, (List.append_nil _).symm, ?_⟩
    rw [hdone]
    exact h.back k
  | case2 done t pending he done' u hu ih =>
    have hentries : pending.entries = T.entries.map (dress k) := congrArg Table.entries hT
    have hne : T.entries ≠ [] := fun hnil => he (by simp [Table.isEmpty, hentries, hnil])
    obtain ⟨D, hround, hlogs⟩ := logs_runAll phase k T.entries (t.withPrograms k .empty)
    rw [← hentries, hu] at hround hlogs
    have hheld := hlogs.held _ (h.take hT)
    have hdone' : done' = (Function.update away k (away k ++ T.entries) k).map (dress k) := by
      rw [Function.update_self, List.map_append, ← hdone, ← hentries]
    obtain ⟨T', hT', hperm⟩ := hheld.waits k
    have hnext : T'.entries ~ D.accepted k := by
      rw [Function.update_self, hlogs.diary, Diary.accepted_append] at hperm
      exact (List.perm_append_left_iff _).mp (hperm.trans ((h.perm hT).symm.append_right _))
    obtain ⟨D', hrest, hdiary, hback⟩ := ih _ T' hdone' hheld hT'
    rw [show u.model.stage = t.model.stage from hlogs.stage] at hrest
    rw [Function.update_idem] at hback
    refine ⟨D ++ D', .round hne T.ascending hround hnext hrest, ?_, hback⟩
    rw [hdiary, hlogs.diary, List.append_assoc]
    rfl
  | case3 done t pending he done' e u hu =>
    have hentries : pending.entries = T.entries.map (dress k) := congrArg Table.entries hT
    obtain ⟨D, hround, hlogs⟩ := logs_runAll phase k T.entries (t.withPrograms k .empty)
    rw [← hentries, hu] at hround hlogs
    have hback := (hlogs.held _ (h.take hT)).back k
    have hdone' : done' = (Function.update away k (away k ++ T.entries) k).map (dress k) := by
      rw [Function.update_self, List.map_append, ← hdone, ← hentries]
    rw [← hdone', Function.update_idem] at hback
    exact ⟨D, .stopped T.ascending hround, hlogs.diary, hback⟩

end Run
end Milp
