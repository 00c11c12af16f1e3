import Milp.Program

/-! Which programs a program may leave behind, and why that comes to an end. -/
namespace Milp.Program

variable {α η κ ω : Type} {A : Adapter α η κ}

/-- Somewhere in `P`, a group is created with the program `Q`. -/
inductive Spawns : {p : Purpose} → Program A ω p → Program A ω .group → Prop
  | here {p : Purpose} {k : Kind} {id description : String} {generator : Option Naming.Namer}
      {program : Group k → Program A ω .group} {next : Except (ModelError α) (Group k) → Program A ω p}
      (g : Group k) : Spawns (.spawn k id description generator program next) (program g)
  | spawn {p : Purpose} {k : Kind} {id description : String} {generator : Option Naming.Namer}
      {program : Group k → Program A ω .group} {next : Except (ModelError α) (Group k) → Program A ω p}
      {Q : Program A ω .group} (r : Except (ModelError α) (Group k)) (h : Spawns (next r) Q) :
      Spawns (.spawn k id description generator program next) Q
  | read {p : Purpose} {next : Model A → Program A ω p} {Q : Program A ω .group} (m : Model A)
      (h : Spawns (next m) Q) : Spawns (.read next) Q
  | share {p : Purpose} {f : ω → ω} {next : ω → Program A ω p} {Q : Program A ω .group} (w : ω)
      (h : Spawns (next w) Q) : Spawns (.share f next) Q
  | note {p : Purpose} {events : List (Event α)} {next : Program A ω p} {Q : Program A ω .group}
      (h : Spawns next Q) : Spawns (.note events next) Q
  | act {p : Purpose} {a : Action α} {next : Except (ModelError α) a.Value → Program A ω p}
      {Q : Program A ω .group} (r : Except (ModelError α) a.Value) (h : Spawns (next r) Q) :
      Spawns (.act a next) Q
  | attach {p : Purpose} {direction : Direction} {program : Program A ω .objective}
      {next : Except (ModelError α) Unit → Program A ω p} {Q : Program A ω .group}
      (r : Except (ModelError α) Unit) (h : Spawns (next r) Q) : Spawns (.attach direction program next) Q

/-- `Q` is left behind by `P`. -/
def Spawned (Q P : Program A ω .group) : Prop := Spawns P Q

theorem acc_of_spawns {p : Purpose} (P : Program A ω p) :
    ∀ Q, Spawns P Q → Acc (Spawned (A := A) (ω := ω)) Q := by
  induction P with
  | finish r => intro Q h; cases h
  | read next ih => intro Q h; cases h with | read m h => exact ih m Q h
  | share f next ih => intro Q h; cases h with | share w h => exact ih w Q h
  | note events next ih => intro Q h; cases h with | note h => exact ih Q h
  | act a next ih => intro Q h; cases h with | act r h => exact ih r Q h
  | spawn k id description generator program next ihp ihn =>
    intro Q h
    cases h with
    | here g => exact ⟨_, fun Q' h' => ihp g Q' h'⟩
    | spawn r h => exact ihn r Q h
  | attach direction program next _ ih => intro Q h; cases h with | attach r h => exact ih r Q h

theorem acc_spawned (P : Program A ω .group) : Acc Spawned P := ⟨P, fun Q h => acc_of_spawns P Q h⟩

/-- Each of the later programs was left behind by one of the earlier, of which there was at least one. -/
def Follows (later earlier : List (Program A ω .group)) : Prop :=
  earlier ≠ [] ∧ ∀ Q ∈ later, ∃ P ∈ earlier, Spawns P Q

theorem acc_follows_of_mem_iff {l l' : List (Program A ω .group)} (h : ∀ P, P ∈ l ↔ P ∈ l')
    (hl : Acc Follows l) : Acc Follows l' := by
  refine ⟨_, fun c hc => hl.inv ⟨?_, fun Q hQ => ?_⟩⟩
  · intro he
    obtain ⟨P, rest, rfl⟩ := List.exists_cons_of_ne_nil hc.1
    have := (h P).mpr (by simp)
    simp [he] at this
  · obtain ⟨P, hP, hs⟩ := hc.2 Q hQ
    exact ⟨P, (h P).mpr hP, hs⟩

theorem acc_follows_nil : Acc (Follows (A := A) (ω := ω)) [] := ⟨_, fun _ h => absurd rfl h.1⟩

theorem acc_follows_append {a : List (Program A ω .group)} (ha : Acc Follows a) :
    ∀ b, Acc Follows b → Acc Follows (a ++ b) := by
  classical
  induction ha with
  | intro a ha ih =>
    intro b hb
    by_cases hea : a = []
    · simpa [hea] using hb
    by_cases heb : b = []
    · simpa [heb] using Acc.intro a ha
    refine ⟨_, fun c hc => ?_⟩
    let inA := fun Q : Program A ω .group => decide (∃ P ∈ a, Spawns P Q)
    refine acc_follows_of_mem_iff (l := c.filter inA ++ c.filter fun Q => !inA Q) ?_
      (ih _ ⟨hea, ?_⟩ _ (hb.inv ⟨heb, ?_⟩))
    · intro P
      simp only [List.mem_append, List.mem_filter, ← and_or_left, Bool.not_eq_true', and_iff_left_iff_imp]
      intro _
      cases inA P <;> simp
    · intro Q hQ
      simpa [inA] using (List.mem_filter.mp hQ).2
    · intro Q hQ
      obtain ⟨hc', hn⟩ := List.mem_filter.mp hQ
      obtain ⟨P, hP, hs⟩ := hc.2 Q hc'
      rcases List.mem_append.mp hP with hP | hP
      · have : (∃ P ∈ a, Spawns P Q) := ⟨P, hP, hs⟩
        simp [inA, this] at hn
      · exact ⟨P, hP, hs⟩

theorem acc_follows_singleton (P : Program A ω .group) : Acc Follows [P] := by
  induction acc_spawned P with
  | intro P _ ih =>
    refine ⟨_, fun c hc => ?_⟩
    have hall : ∀ Q ∈ c, Acc Follows [Q] := fun Q hQ => by
      obtain ⟨P', hP', hs⟩ := hc.2 Q hQ
      rw [List.mem_singleton.mp hP'] at hs
      exact ih Q hs
    clear hc
    induction c with
    | nil => exact acc_follows_nil
    | cons Q rest ihc =>
      exact acc_follows_append (hall Q (by simp)) rest (ihc fun R hR => hall R (by simp [hR]))

/-- Rounds of programs, each left behind by the round before, come to an end. -/
theorem wellFounded_follows : WellFounded (Follows (A := A) (ω := ω)) := by
  refine ⟨fun l => ?_⟩
  induction l with
  | nil => exact acc_follows_nil
  | cons P rest ih => exact acc_follows_append (acc_follows_singleton P) rest ih

instance : WellFoundedRelation (List (Program A ω .group)) := ⟨Follows, wellFounded_follows⟩

end Milp.Program
