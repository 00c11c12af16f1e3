import Milp.Naming.Generator
import Milp.Proofs.Declaration
import Mathlib.Data.List.Induction
import Mathlib.Data.String.Lemmas

/-! The names that a generator gives, and what it answers where it gives none: which of the checks that
were attached to it, in any order, has the word. -/
namespace Milp.Naming

variable {n : Nat} {slots : List Slot}

namespace Condition

/-- The slots that the condition reads. -/
def reads : Condition → List Nat
  | .kind slot _ | .range slot _ _ | .oneOf slot _ => [slot]
  | .distinct first second => [first, second]

/-- What the condition asks of the values that it reads. -/
def Allows : Condition → List Slot → Prop
  | .kind _ kinds, [s] => s.kind ∈ kinds
  | .range _ lower upper, [s] => ∃ x, s.number? = some x ∧ lower ≤ x ∧ x ≤ upper
  | .oneOf _ values, [s] => ∃ v ∈ values, (s == v) = true
  | .distinct _ _, [a, b] => (a == b) = false
  | _, _ => False

/-- The values that the condition reads, if all of its slots are there. -/
def values? (c : Condition) (slots : List Slot) : Option (List Slot) := c.reads.mapM (slots[·]?)

theorem slot_mem_reads (c : Condition) : c.slot ∈ c.reads := by
  cases c with
  | kind slot | range slot | oneOf slot => exact List.mem_singleton_self slot
  | distinct first second =>
    rcases Nat.le_total first second with h | h
    · simp [slot, reads, Nat.max_eq_right h]
    · simp [slot, reads, Nat.max_eq_left h]

theorem le_slot {c : Condition} {i : Nat} (h : i ∈ c.reads) : i ≤ c.slot := by
  cases c with
  | kind | range | oneOf => exact (List.mem_singleton.mp h).le
  | distinct first second =>
    rcases List.mem_pair.mp h with rfl | rfl
    · exact Nat.le_max_left ..
    · exact Nat.le_max_right ..

/-- Where the last slot that is read is there, all of them are. -/
theorem exists_values {c : Condition} (h : c.slot < slots.length) : ∃ vs, c.values? slots = some vs := by
  have hthere (is : List Nat) (his : ∀ i ∈ is, i < slots.length) :
      ∃ vs, is.mapM (slots[·]?) = some vs := by
    induction is with
    | nil => exact ⟨[], rfl⟩
    | cons i rest ih =>
      obtain ⟨vs, hvs⟩ := ih fun j hj => his j (by simp [hj])
      have hi : i < slots.length := his i List.mem_cons_self
      exact ⟨slots[i] :: vs, by simp [List.mapM_cons, hvs, hi]⟩
  exact hthere c.reads fun i hi => (le_slot hi).trans_lt h

/-- The test of a condition reads its slots, and asks of their values what it should. -/
theorem holds_iff (c : Condition) (slots : List Slot) :
    c.holds slots = true ↔ ∃ vs, c.values? slots = some vs ∧ c.Allows vs := by
  cases c with
  | kind slot kinds => cases h : slots[slot]? <;> simp [holds, values?, reads, Allows, h]
  | range slot lower upper =>
    cases h : slots[slot]? with
    | none => simp [holds, values?, reads, h]
    | some s => cases hx : s.number? <;> simp [holds, values?, reads, Allows, h, hx]
  | oneOf slot values =>
    cases h : slots[slot]? <;> simp [holds, values?, reads, Allows, h, List.contains_iff_exists_mem_beq,
      -List.contains_eq_mem]
  | distinct first second =>
    cases h : slots[first]? <;> cases h' : slots[second]? <;>
      simp [holds, values?, reads, Allows, h, h', bne]

end Condition

namespace Rule

/-- The slots that the rule reads are there, and their values are as it asks. -/
def Passes (r : Rule) (slots : List Slot) : Prop :=
  ∃ vs, r.condition.values? slots = some vs ∧ r.condition.Allows vs

/-- The slots that the rule reads are there, but their values are not as it asks. -/
def Refuses (r : Rule) (slots : List Slot) : Prop :=
  ∃ vs, r.condition.values? slots = some vs ∧ ¬r.condition.Allows vs

variable {r : Rule}

theorem check_eq_ok : r.check.run slots = .ok () ↔ r.Passes slots := by
  rw [Passes, ← Condition.holds_iff, run_check]
  split
  next h => simp [h]
  next h => simp [h]

theorem check_eq_error {e : NameError} :
    r.check.run slots = .error e ↔ ¬r.Passes slots ∧ e = .rejected r.reason := by
  rw [Passes, ← Condition.holds_iff, run_check]
  split
  next h => simp [h]
  next h => simp [h, eq_comm]

theorem Refuses.not_passes (h : r.Refuses slots) : ¬r.Passes slots := by
  rintro ⟨vs, hvs, hallows⟩
  obtain ⟨ws, hws, hnot⟩ := h
  cases hvs.symm.trans hws
  exact hnot hallows

/-- A rule whose slots are there passes or refuses. -/
theorem refuses_iff (h : r.slot < slots.length) : r.Refuses slots ↔ ¬r.Passes slots := by
  refine ⟨Refuses.not_passes, fun hnot => ?_⟩
  obtain ⟨vs, hvs⟩ := Condition.exists_values (c := r.condition) h
  exact ⟨vs, hvs, fun hallows => hnot ⟨vs, hvs, hallows⟩⟩

end Rule

/-- Checks by the last slot that they read, those of one slot in their order. -/
def bySlot (n : Nat) (cs : List Check) : List (List Check) :=
  (List.range n).map fun i => cs.filter (·.slot == i)

section BySlot

variable {cs : List Check} {c : Check}

theorem mem_flatten_bySlot : c ∈ (bySlot n cs).flatten ↔ c ∈ cs ∧ c.slot < n := by
  simp [bySlot, and_comm]

theorem pairwise_flatten_bySlot (n : Nat) (cs : List Check) :
    (bySlot n cs).flatten.Pairwise fun c d => c.slot ≤ d.slot := by
  rw [bySlot, List.pairwise_flatten, List.pairwise_map, List.forall_mem_map]
  constructor
  · intro i _
    refine List.pairwise_of_forall_mem_list fun c hc d hd => ?_
    simp_all
  · refine List.pairwise_lt_range.imp fun {i j} hij c hc d hd => ?_
    simp_all [Nat.le_of_lt]

theorem filter_flatten_bySlot (n : Nat) (cs : List Check) (i : Nat) :
    (bySlot n cs).flatten.filter (·.slot == i) = if i < n then cs.filter (·.slot == i) else [] := by
  induction n with
  | zero => rfl
  | succ n ih =>
    have hlast : (cs.filter (·.slot == n)).filter (·.slot == i) =
        if i = n then cs.filter (·.slot == i) else [] := by
      rw [List.filter_filter]
      split
      next h => simp [h]
      next h => exact List.filter_eq_nil_iff.mpr fun c _ => by simp; omega
    rw [bySlot, List.range_succ, List.map_append, List.flatten_append, List.filter_append,
      show (List.range n).map _ = bySlot n cs from rfl, ih]
    simp only [List.map_singleton, List.flatten_singleton, hlast]
    rcases Nat.lt_trichotomy i n with h | h | h
    · simp [h, h.ne, Nat.lt_succ_of_lt h]
    · simp [h]
    · simp [h.not_gt, h.ne', show ¬i < n + 1 by omega]

theorem modify_bySlot (n : Nat) (cs : List Check) (c : Check) :
    (bySlot n cs).modify c.slot (· ++ [c]) = bySlot n (cs ++ [c]) := by
  refine List.ext_getElem (by simp [bySlot]) fun i hi hi' => ?_
  rw [List.getElem_modify]
  by_cases hc : c.slot = i <;> simp [bySlot, List.filter_append, List.filter_cons, hc]

end BySlot

namespace Generator

theorem text_eq (separator stem : String) (slots : List Slot) :
    slots.foldl (fun text s => text ++ separator ++ s.display) stem =
      stem ++ String.join (slots.map fun s => separator ++ s.display) := by
  induction slots generalizing stem with
  | nil => simp [String.join]
  | cons s rest ih =>
    rw [List.foldl_cons, ih, ← String.toList_inj]
    simp [String.toList_join]

/-- What a generator says in a name for these slots. -/
def text (g : Generator) (slots : List Slot) : String :=
  g.stem ++ String.join (slots.map fun s => g.separator ++ s.display)

variable {g : Generator} {name : String} {e : NameError}

/-- The number of the slots is looked at first, then the checks, in their order. -/
theorem name_eq (g : Generator) (slots : List Slot) : g.name slots =
    if slots.length = g.indexCount then
      (g.checks.flatten.forM fun c => c.run slots) >>= fun _ => .ok (g.text slots)
    else .error (.arityMismatch g.indexCount slots.length) := by
  unfold Generator.name text
  rw [text_eq]
  by_cases h : slots.length = g.indexCount
  · rw [if_neg (not_not_intro h), if_pos h]
    rfl
  · rw [if_pos h, if_neg h]
    rfl

theorem name_eq_ok : g.name slots = .ok name ↔ slots.length = g.indexCount ∧
    (∀ c ∈ g.checks.flatten, c.run slots = .ok ()) ∧ name = g.text slots := by
  rw [name_eq]
  split
  next h =>
    rw [bind_eq_ok]
    simp only [forM_eq_ok, Except.ok.injEq, exists_const, h, true_and, eq_comm (a := name)]
  next h => simp [h]

theorem name_eq_error (h : slots.length = g.indexCount) (he : g.name slots = .error e) :
    ∃ before c after, g.checks.flatten = before ++ c :: after ∧ (∀ d ∈ before, d.run slots = .ok ()) ∧
      c.run slots = .error e := by
  rw [name_eq, if_pos h] at he
  cases hchecks : g.checks.flatten.forM fun c => c.run slots with
  | ok u =>
    rw [hchecks] at he
    cases he
  | error e' =>
    rw [hchecks] at he
    cases he
    exact forM_eq_error hchecks

end Generator

/-- A step in setting up a generator. -/
inductive Fitting
  | separator (text : String)
  | rule (r : Rule)

namespace Fitting

/-- The separator that the step brings, if any. -/
def separator? : Fitting → Option String
  | .separator text => if Text.isBlank text then none else some text
  | .rule _ => none

/-- The rule that the step attaches, if any, to a generator with so many slots. -/
def rule? (n : Nat) : Fitting → Option Rule
  | .separator _ => none
  | .rule r => if r.slot < n then some r else none

end Fitting

/-- The rules that the steps attach, in turn. -/
def attached (n : Nat) (fs : List Fitting) : List Rule := fs.filterMap (Fitting.rule? n)

/-- The last separator that the steps bring, or the one that is there without them. -/
def lastSeparator (fs : List Fitting) : String :=
  (fs.filterMap Fitting.separator?).getLast?.getD Generator.defaultSeparator

theorem attached_concat (n : Nat) (fs : List Fitting) (f : Fitting) :
    attached n (fs ++ [f]) = attached n fs ++ (f.rule? n).toList := by
  rw [attached, List.filterMap_append]
  cases h : f.rule? n <;> simp [attached, h]

theorem lastSeparator_concat (fs : List Fitting) (f : Fitting) :
    lastSeparator (fs ++ [f]) = f.separator?.getD (lastSeparator fs) := by
  rw [lastSeparator, List.filterMap_append]
  cases h : f.separator? <;> simp [lastSeparator, h]

theorem slot_lt_of_attached {fs : List Fitting} {r : Rule} (h : r ∈ attached n fs) : r.slot < n := by
  obtain ⟨f, -, hf⟩ := List.mem_filterMap.mp h
  cases f with
  | separator => cases hf
  | rule d =>
    obtain ⟨hd, hr⟩ := Option.ite_none_right_eq_some.mp hf
    exact Option.some.inj hr ▸ hd

namespace Generator

/-- The generator after a step. A rule that is refused leaves it as it was. -/
def fit (g : Generator) : Fitting → Generator
  | .separator text => g.withSeparator text
  | .rule r => match g.withCheck r.check with
    | .ok g => g
    | .error _ => g

/-- A new generator after some steps. -/
def fitted (stem : String) (n : Nat) (fs : List Fitting) : Generator := fs.foldl fit (.new stem n)

/-- What the steps come to: the last separator, and the rules that were attached, by slot. -/
theorem fitted_eq (stem : String) (n : Nat) (fs : List Fitting) :
    fitted stem n fs =
      ⟨Text.trim stem, lastSeparator fs, bySlot n ((attached n fs).map Rule.check)⟩ := by
  induction fs using List.reverseRecOn with
  | nil => simp [fitted, new, lastSeparator, attached, bySlot, List.map_const']
  | append_singleton fs f ih =>
    have hstep : fitted stem n (fs ++ [f]) = (fitted stem n fs).fit f := List.foldl_concat ..
    rw [hstep, ih, attached_concat, lastSeparator_concat, List.map_append]
    cases f with
    | separator text =>
      rw [fit, withSeparator, Fitting.separator?]
      by_cases h : Text.isBlank text = true <;> simp [h, Fitting.rule?]
    | rule r =>
      have hcount :
          indexCount ⟨Text.trim stem, lastSeparator fs, bySlot n ((attached n fs).map Rule.check)⟩ = n := by
        simp [indexCount, bySlot]
      rw [fit, withCheck, hcount, Rule.slot_check, Fitting.rule?]
      by_cases h : r.slot < n <;> simp [h, Fitting.separator?, ← modify_bySlot]

/-- The check that is looked at first of those that do not pass reads no later slot than any other of
them, and of those that read up to the same slot it was attached first. -/
theorem first_of_bySlot {cs before after : List Check} {c : Check} (hcs : ∀ d ∈ cs, d.slot < n)
    (hsplit : (bySlot n cs).flatten = before ++ c :: after) (hbefore : ∀ d ∈ before, d.run slots = .ok ()) :
    ∃ earlier later, cs = earlier ++ c :: later ∧ (∀ d ∈ earlier, d.run slots ≠ .ok () → c.slot < d.slot) ∧
      ∀ d ∈ later, d.run slots ≠ .ok () → c.slot ≤ d.slot := by
  have hsorted := pairwise_flatten_bySlot n cs
  rw [hsplit, List.pairwise_append, List.pairwise_cons] at hsorted
  have hle : ∀ d ∈ cs, d.run slots ≠ .ok () → c.slot ≤ d.slot := by
    intro d hd hnot
    have hmem : d ∈ before ++ c :: after := hsplit ▸ mem_flatten_bySlot.mpr ⟨hd, hcs d hd⟩
    rcases List.mem_append.mp hmem with hd | hd
    · exact absurd (hbefore d hd) hnot
    · rcases List.mem_cons.mp hd with rfl | hd
      · exact le_rfl
      · exact hsorted.2.1.1 d hd
  have hc : c.slot < n := by
    have hmem : c ∈ (bySlot n cs).flatten := by simp [hsplit]
    exact (mem_flatten_bySlot.mp hmem).2
  have hsame := filter_flatten_bySlot n cs c.slot
  rw [hsplit, if_pos hc, List.filter_append, List.filter_cons_of_pos (by simp), eq_comm] at hsame
  obtain ⟨first, rest, rfl, hfirst, hrest⟩ := List.filter_eq_append_iff.mp hsame
  obtain ⟨second, later, rfl, hsecond, -, -⟩ := List.filter_eq_cons_iff.mp hrest
  refine ⟨first ++ second, later, (List.append_assoc ..).symm, fun d hd hnot => ?_, fun d hd hnot => ?_⟩
  · have hmem : d ∈ first ++ (second ++ c :: later) := by
      rw [← List.append_assoc]
      exact List.mem_append_left _ hd
    refine lt_of_le_of_ne (hle d hmem hnot) fun heq => ?_
    rcases List.mem_append.mp hd with hd | hd
    · have hmem : d ∈ first.filter (·.slot == c.slot) := List.mem_filter.mpr ⟨hd, by simp [heq]⟩
      rw [hfirst] at hmem
      exact hnot (hbefore d (List.mem_filter.mp hmem).1)
    · exact hsecond d hd (by simp [heq])
  · exact hle d (by simp [hd]) hnot

/-- Whatever was attached in whatever order, a name is given just if there are as many slots as there should be
and every attached rule passes; the slots that a rule reads are there then. Else the number of the slots
is the reason, or a rule that refuses: the one that reads up to the first slot, and of several such
rules the one that was attached first. -/
theorem name_fitted (stem : String) (n : Nat) (fs : List Fitting) (slots : List Slot) :
    let answer := (fitted stem n fs).name slots
    let rules := attached n fs
    (∀ name, answer = .ok name ↔ slots.length = n ∧ (∀ r ∈ rules, r.Passes slots) ∧
      name = Text.trim stem ++ String.join (slots.map fun s => lastSeparator fs ++ s.display)) ∧
    (slots.length ≠ n → answer = .error (.arityMismatch n slots.length)) ∧
    (∀ r ∈ rules, r.slot < n ∧ r.slot ∈ r.condition.reads ∧ ∀ i ∈ r.condition.reads, i ≤ r.slot) ∧
    (slots.length = n → (∀ r ∈ rules, ∃ vs, r.condition.values? slots = some vs) ∧
      ∀ e, answer = .error e → ∃ earlier r later, rules = earlier ++ r :: later ∧ r.Refuses slots ∧
        e = .rejected r.reason ∧ (∀ d ∈ earlier, d.Refuses slots → r.slot < d.slot) ∧
        ∀ d ∈ later, d.Refuses slots → r.slot ≤ d.slot) := by
  intro answer rules
  have hslots : ∀ r ∈ rules, r.slot < n := fun r hr => slot_lt_of_attached hr
  have hcs : ∀ c ∈ rules.map Rule.check, c.slot < n := List.forall_mem_map.mpr hslots
  have hfitted := fitted_eq stem n fs
  have hcount : (fitted stem n fs).indexCount = n := by simp [hfitted, indexCount, bySlot]
  have hrefuses {d : Rule} (hd : d.Refuses slots) : d.check.run slots ≠ .ok () :=
    mt Rule.check_eq_ok.mp hd.not_passes
  refine ⟨fun name => ?_, fun h => ?_, fun r hr => ⟨hslots r hr, r.condition.slot_mem_reads, fun i =>
    Condition.le_slot⟩, fun h => ⟨fun r hr => Condition.exists_values (h ▸ hslots r hr), fun e he => ?_⟩⟩
  · have hall : (∀ c ∈ (fitted stem n fs).checks.flatten, c.run slots = .ok ()) ↔
        ∀ r ∈ rules, r.Passes slots := by
      simp only [hfitted, mem_flatten_bySlot, ← Rule.check_eq_ok]
      exact ⟨fun hpass r hr => hpass r.check ⟨List.mem_map_of_mem hr, hslots r hr⟩,
        fun hpass c hc => (List.forall_mem_map (P := fun c => c.run slots = .ok ())).mpr hpass c hc.1⟩
    rw [name_eq_ok, hcount, hall, text, hfitted]
  · change (fitted stem n fs).name slots = _
    rw [name_eq, hcount, if_neg h]
  · obtain ⟨before, c, after, hsplit, hbefore, hc⟩ := name_eq_error (h.trans hcount.symm) he
    rw [hfitted] at hsplit
    obtain ⟨earlier, later, hrules, hearlier, hlater⟩ := first_of_bySlot hcs hsplit hbefore
    obtain ⟨earlier, rest, hsame, rfl, hrest⟩ := List.map_eq_append_iff.mp hrules
    obtain ⟨r, later, rfl, rfl, rfl⟩ := List.map_eq_cons_iff.mp hrest
    obtain ⟨hnot, rfl⟩ := Rule.check_eq_error.mp hc
    have hrn : r.slot < slots.length := h ▸ hslots r (by simp [hsame])
    exact ⟨earlier, r, later, hsame, (Rule.refuses_iff hrn).mpr hnot, rfl,
      fun d hd hr => hearlier _ (List.mem_map_of_mem hd) (hrefuses hr),
      fun d hd hr => hlater _ (List.mem_map_of_mem hd) (hrefuses hr)⟩

/-- Two rules refuse: the one that was attached last reads an earlier slot, and has the word. -/
theorem name_fitted_shelves :
    let text : Rule := .ofCondition (.kind 0 [.text])
    let int : Rule := .ofCondition (.kind 1 [.int])
    let fs : List Fitting := [.rule int, .separator "_", .rule text, .rule (.ofCondition (.kind 2 [.int])),
      .separator " "]
    let g := fitted " shelf " 2 fs
    g.name [.text "left", .int 1] = .ok "shelf_left_1" ∧
      g.name [.text "left"] = .error (.arityMismatch 2 1) ∧
      g.name [.int 1, .text "left"] = .error (.rejected text.reason) ∧
      ∃ earlier later, attached 2 fs = earlier ++ text :: later ∧ text.Refuses [.int 1, .text "left"] ∧
        ∀ d ∈ earlier, d.Refuses [.int 1, .text "left"] → text.slot < d.slot := by
  intro text int fs g
  have hattached : attached 2 fs = [int, text] := rfl
  obtain ⟨hok, -, -, -⟩ := name_fitted " shelf " 2 fs [.text "left", .int 1]
  obtain ⟨-, harity, -, -⟩ := name_fitted " shelf " 2 fs [.text "left"]
  obtain ⟨-, -, -, hrefused⟩ := name_fitted " shelf " 2 fs [.int 1, .text "left"]
  have herror : g.name [.int 1, .text "left"] = .error (.rejected text.reason) := rfl
  refine ⟨(hok _).mpr ⟨rfl, ?_, ?_⟩, harity (by decide), herror, ?_⟩
  · rw [hattached]
    simp only [List.forall_mem_cons]
    exact ⟨⟨[.int 1], rfl, List.mem_singleton_self _⟩, ⟨[.text "left"], rfl, List.mem_singleton_self _⟩, nofun⟩
  · rfl
  · obtain ⟨-, hfirst⟩ := hrefused rfl
    obtain ⟨earlier, c, later, hsplit, hc, hreason, hearlier, -⟩ := hfirst _ herror
    have hmem : c ∈ [int, text] := by simp [← hattached, hsplit]
    simp only [List.mem_cons, List.not_mem_nil, or_false] at hmem
    rcases hmem with rfl | rfl
    · exact absurd hreason (by decide)
    · exact ⟨earlier, later, hsplit, hc, hearlier⟩

end Generator
end Milp.Naming
