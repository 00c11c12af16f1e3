import Milp.Proofs.Names
import Mathlib.Data.List.Infix

/-! Whether the texts in a name can be told from it. They can where each text ends at the first separator;
for a separator that overlaps itself it is not enough that no text contains it. -/
namespace Milp.Naming

/-- Followed by the separator, the text has it only at its end. -/
def Delimits (sep t : List Char) : Prop := ∀ u v, t ++ sep = u ++ sep ++ v → v = []

/-- A beginning of the separator, though not all of it, is also its end. -/
def Overlaps (sep : List Char) : Prop := ∃ x y z, x ≠ [] ∧ y ≠ [] ∧ sep = x ++ y ∧ sep = y ++ z

section Delimits

variable {sep t t' r r' x : List Char}

/-- Where a longer text is delimited, what comes before the separator is not cut short. -/
theorem Delimits.eq_nil (h : Delimits sep (t ++ x)) (heq : sep ++ r = x ++ (sep ++ r')) : x = [] := by
  have hwhole : x ++ sep <+: sep ++ r := ⟨r', by rw [heq, List.append_assoc]⟩
  have hprefix : sep <+: x ++ sep :=
    List.prefix_of_prefix_length_le (List.prefix_append sep r) hwhole (by simp)
  obtain ⟨v, hv⟩ := hprefix
  have hempty : v = [] := h t v (by rw [List.append_assoc, ← hv, List.append_assoc])
  have hlength := congrArg List.length hv
  rw [hempty, List.append_nil, List.length_append] at hlength
  exact List.length_eq_zero_iff.mp (by omega)

/-- Two delimited texts before a separator are the same, and so is what comes after it. -/
theorem Delimits.unique (h : Delimits sep t) (h' : Delimits sep t')
    (heq : t ++ (sep ++ r) = t' ++ (sep ++ r')) : t = t' ∧ r = r' := by
  have ht : t = t' := by
    rcases List.append_eq_append_iff.mp heq with ⟨x, rfl, hx⟩ | ⟨x, rfl, hx⟩
    · rw [h'.eq_nil hx, List.append_nil]
    · rw [h.eq_nil hx, List.append_nil]
  subst ht
  exact ⟨rfl, List.append_cancel_left (List.append_cancel_left heq)⟩

/-- The text does not contain the separator, not even with its beginning after it. -/
theorem delimits_iff (hsep : sep ≠ []) : Delimits sep t ↔ ¬sep <:+: t ++ sep.dropLast := by
  obtain ⟨body, last, rfl⟩ := (List.eq_nil_or_concat' sep).resolve_left hsep
  rw [List.dropLast_concat]
  constructor
  · rintro h ⟨u, v, heq⟩
    have hlast := h u (v ++ [last]) (by rw [← List.append_assoc, ← heq, List.append_assoc])
    simp at hlast
  · intro h u v heq
    rcases List.eq_nil_or_concat' v with hv | ⟨w, b, rfl⟩
    · exact hv
    · rw [← List.append_assoc, ← List.append_assoc] at heq
      exact absurd ⟨u, w, (List.append_inj' heq rfl).1.symm⟩ h

/-- A separator that does not overlap itself delimits every text that does not contain it. -/
theorem delimits_of_not_infix (hsep : ¬Overlaps sep) (h : ¬sep <:+: t) : Delimits sep t := by
  intro u v heq
  rw [List.append_assoc] at heq
  rcases List.append_eq_append_iff.mp heq with ⟨x, rfl, hx⟩ | ⟨x, rfl, hx⟩
  · have hlength := congrArg List.length hx
    simp only [List.length_append] at hlength
    exact List.length_eq_zero_iff.mp (by omega)
  · -- `x` is what the text has after the place where the separator is said to be
    rcases List.append_eq_append_iff.mp hx with ⟨y, rfl, -⟩ | ⟨y, hsplit, hback⟩
    · exact absurd ⟨u, y, List.append_assoc ..⟩ h
    · by_contra hv
      have hlength := congrArg List.length hx
      simp only [List.length_append] at hlength
      have hne : x ≠ [] := fun hnil => hv (List.length_eq_zero_iff.mp (by simp_all))
      have hyne : y ≠ [] := by
        rintro rfl
        exact h ⟨u, [], by simp [hsplit]⟩
      exact hsep ⟨x, y, v, hne, hyne, hsplit, hback⟩

/-- What an overlapping separator is good for: of two texts on each side, one on each is empty. -/
theorem Overlaps.exists_ambiguous (h : Overlaps sep) : ∃ x z, x ≠ [] ∧ ¬sep <:+: x ∧ ¬sep <:+: z ∧
    sep ++ ([] ++ (sep ++ z)) = sep ++ (x ++ (sep ++ [])) := by
  obtain ⟨x, y, z, hx, hy, hsplit, hback⟩ := h
  have hlength := congrArg List.length (hsplit.symm.trans hback)
  have hxlen : x.length < sep.length := by
    rw [hsplit, List.length_append]
    exact Nat.lt_add_of_pos_right (List.length_pos_iff.mpr hy)
  have hzlen : z.length < sep.length := by
    simp only [List.length_append] at hlength
    omega
  refine ⟨x, z, hx, fun hin => ?_, fun hin => ?_, ?_⟩
  · exact absurd hin.length_le (by omega)
  · exact absurd hin.length_le (by omega)
  · calc sep ++ ([] ++ (sep ++ z)) = sep ++ (x ++ (y ++ z)) := by
          rw [List.nil_append]
          nth_rewrite 2 [hsplit]
          rw [List.append_assoc]
      _ = sep ++ (x ++ (sep ++ [])) := by rw [← hback, List.append_nil]

/-- Each text after a separator. -/
def separated (sep : List Char) (ts : List (List Char)) : List Char := ts.flatMap (sep ++ ·)

/-- As many texts, all but the last of which are delimited, are known from what they make together. -/
theorem separated_injective {ts ts' : List (List Char)} (hlength : ts.length = ts'.length)
    (hd : ∀ t ∈ ts.dropLast, Delimits sep t) (hd' : ∀ t ∈ ts'.dropLast, Delimits sep t)
    (heq : separated sep ts = separated sep ts') : ts = ts' := by
  induction ts generalizing ts' with
  | nil => exact (List.length_eq_zero_iff.mp hlength.symm).symm
  | cons t rest ih =>
    obtain ⟨t', rest', rfl⟩ := List.exists_cons_of_length_eq_add_one hlength.symm
    have hrest : rest.length = rest'.length := Nat.succ.inj hlength
    simp only [separated, List.flatMap_cons, List.append_assoc] at heq
    have heq := List.append_cancel_left heq
    cases rest with
    | nil =>
      obtain rfl : rest' = [] := List.length_eq_zero_iff.mp hrest.symm
      simpa using heq
    | cons s rest =>
      obtain ⟨s', rest', rfl⟩ := List.exists_cons_of_length_eq_add_one hrest.symm
      rw [List.dropLast_cons_cons, List.forall_mem_cons] at hd hd'
      simp only [List.flatMap_cons, List.append_assoc] at heq
      obtain ⟨rfl, hcut⟩ := hd.1.unique hd'.1 heq
      have htail : s :: rest = s' :: rest' :=
        ih hrest hd.2 hd'.2 (by simp [separated, hcut])
      rw [htail]

end Delimits

namespace Generator

variable {g : Generator} {slots slots' : List Slot} {name : String}

/-- The texts of the slots, as they stand in a name. -/
def texts (slots : List Slot) : List (List Char) := slots.map fun s => s.display.toList

theorem toList_text (g : Generator) (slots : List Slot) :
    (g.text slots).toList = g.stem.toList ++ separated g.separator.toList (texts slots) := by
  simp [text, String.toList_join, separated, texts, List.flatMap_map]

/-- A name tells the texts of its slots if all of them but the last are delimited. -/
theorem displays_injective (h : g.name slots = .ok name) (h' : g.name slots' = .ok name)
    (hd : ∀ s ∈ slots.dropLast ++ slots'.dropLast, Delimits g.separator.toList s.display.toList) :
    slots.map Slot.display = slots'.map Slot.display := by
  obtain ⟨hlength, -, hname⟩ := name_eq_ok.mp h
  obtain ⟨hlength', -, hname'⟩ := name_eq_ok.mp h'
  have htext : (g.text slots).toList = (g.text slots').toList := by rw [← hname, ← hname']
  rw [toList_text, toList_text] at htext
  have htexts : texts slots = texts slots' := by
    refine separated_injective (by simp [texts, hlength, hlength']) ?_ ?_ (List.append_cancel_left htext)
    · intro t ht
      rw [texts, ← List.map_dropLast] at ht
      obtain ⟨s, hs, rfl⟩ := List.mem_map.mp ht
      exact hd s (List.mem_append_left _ hs)
    · intro t ht
      rw [texts, ← List.map_dropLast] at ht
      obtain ⟨s, hs, rfl⟩ := List.mem_map.mp ht
      exact hd s (List.mem_append_right _ hs)
  have hstrings := congrArg (List.map String.ofList) htexts
  simpa [texts, Function.comp_def] using hstrings

/-- Lists of slots whose texts do not contain the separator, with different texts and one name. -/
def Collides (g : Generator) : Prop :=
  ∃ slots slots' name, g.name slots = .ok name ∧ g.name slots' = .ok name ∧
    (∀ s ∈ slots ++ slots', ¬g.separator.toList <:+: s.display.toList) ∧
    slots.map Slot.display ≠ slots'.map Slot.display

/-- Only a separator that overlaps itself lets names collide, and only between two slots. -/
theorem Collides.overlaps (h : g.Collides) : Overlaps g.separator.toList ∧ 2 ≤ g.indexCount := by
  obtain ⟨slots, slots', name, hname, hname', hfree, hne⟩ := h
  constructor
  · by_contra hover
    refine hne (displays_injective hname hname' fun s hs => delimits_of_not_infix hover (hfree s ?_))
    rcases List.mem_append.mp hs with hs | hs
    · exact List.mem_append_left _ (List.mem_of_mem_dropLast hs)
    · exact List.mem_append_right _ (List.mem_of_mem_dropLast hs)
  · by_contra hcount
    have hshort {ss : List Slot} (hlength : ss.length = g.indexCount) : ss.dropLast = [] :=
      List.length_eq_zero_iff.mp (by rw [List.length_dropLast]; omega)
    refine hne (displays_injective hname hname' fun s hs => ?_)
    rw [hshort (name_eq_ok.mp hname).1, hshort (name_eq_ok.mp hname').1] at hs
    cases hs

/-- Where nothing is checked, such a separator does let names collide. -/
theorem collides_of_overlaps (hchecks : g.checks.flatten = []) (hover : Overlaps g.separator.toList)
    (hcount : 2 ≤ g.indexCount) : g.Collides := by
  obtain ⟨x, z, hx, hxfree, hzfree, hsame⟩ := hover.exists_ambiguous
  have hempty : ¬g.separator.toList <:+: "".toList := by
    obtain ⟨_, y, _, _, hy, hsplit, -⟩ := hover
    intro hin
    have hnil := List.infix_nil.mp hin
    simp_all
  let rest : List Slot := List.replicate (g.indexCount - 2) (.text "")
  let slots : List Slot := .text "" :: .text (.ofList z) :: rest
  let slots' : List Slot := .text (.ofList x) :: .text "" :: rest
  have hlength : slots.length = g.indexCount := by simp [slots, rest]; omega
  have hlength' : slots'.length = g.indexCount := by simp [slots', rest]; omega
  have htext : g.text slots = g.text slots' := by
    rw [← String.toList_inj, toList_text, toList_text]
    have hwhole := congrArg (g.stem.toList ++ · ++ separated g.separator.toList (texts rest)) hsame
    simpa [separated, texts, slots, slots', Slot.display] using hwhole
  refine ⟨slots, slots', g.text slots, name_eq_ok.mpr ⟨hlength, by simp [hchecks], rfl⟩,
    name_eq_ok.mpr ⟨hlength', by simp [hchecks], htext⟩, ?_, ?_⟩
  · simp only [slots, slots', rest, List.mem_append, List.mem_cons, List.mem_replicate]
    rintro s ((rfl | rfl | ⟨-, rfl⟩) | rfl | rfl | ⟨-, rfl⟩) <;>
      simpa only [Slot.display, String.toList_ofList]
  · intro hdisplay
    have hfirst : "" = String.ofList x := (List.cons.inj hdisplay).1
    exact hx (by simpa using congrArg String.toList hfirst.symm)

/-- Which separators let names collide. -/
theorem collides_iff (hchecks : g.checks.flatten = []) :
    g.Collides ↔ Overlaps g.separator.toList ∧ 2 ≤ g.indexCount :=
  ⟨Collides.overlaps, fun ⟨hover, hcount⟩ => collides_of_overlaps hchecks hover hcount⟩

/-- Accepted slots with one name have the same texts, one by one, if none contains the separator and, for a
separator that overlaps itself, all but the last are delimited. -/
theorem displays_eq_of_name_eq (h : g.name slots = .ok name) (h' : g.name slots' = .ok name)
    (hfree : ∀ s ∈ slots ++ slots', ¬g.separator.toList <:+: s.display.toList)
    (hends : Overlaps g.separator.toList →
      ∀ s ∈ slots.dropLast ++ slots'.dropLast, Delimits g.separator.toList s.display.toList) :
    slots.map Slot.display = slots'.map Slot.display := by
  by_cases hover : Overlaps g.separator.toList
  · exact displays_injective h h' (hends hover)
  · by_contra hne
    exact hover (Collides.overlaps ⟨slots, slots', name, h, h', hfree, hne⟩).1

/-- A number and its text are different slots that stand for the same in a name, also where a check of one's
own asks that the texts differ from each other. -/
theorem displays_eq_of_name_eq_shelf :
    let differ : Check :=
      ⟨1, fun slots => if (slots.map Slot.display).Nodup then .ok () else .error (.rejected "twice the same")⟩
    let g : Generator := { new "shelf" 2 with checks := [[], [differ]] }
    let slots : List Slot := [.text "left", .int 1]
    let slots' : List Slot := [.text "left", .text "1"]
    (new "shelf" 2).withCheck differ = .ok g ∧
      g.name slots = .ok "shelf-/-left-/-1" ∧ g.name slots' = .ok "shelf-/-left-/-1" ∧
      slots.map Slot.display = slots'.map Slot.display := by
  intro differ g slots slots'
  have hname : g.name slots = .ok "shelf-/-left-/-1" := rfl
  have hname' : g.name slots' = .ok "shelf-/-left-/-1" := rfl
  have hfree : ∀ s ∈ slots ++ slots', ¬g.separator.toList <:+: s.display.toList := by decide
  refine ⟨rfl, hname, hname', displays_eq_of_name_eq hname hname' hfree fun _ s hs => ?_⟩
  have hdelimits : ∀ s ∈ slots.dropLast ++ slots'.dropLast,
      ¬g.separator.toList <:+: s.display.toList ++ g.separator.toList.dropLast := by decide
  exact (delimits_iff (by decide)).mpr (hdelimits s hs)

/-- Two lists of slots that the default separator runs together, though no text of theirs contains it. -/
theorem default_separator_collides :
    let g := new "C" 2
    let slots : List Slot := [.text "x-/", .text "y"]
    let slots' : List Slot := [.text "x", .text "/-y"]
    g.name slots = .ok "C-/-x-/-/-y" ∧ g.name slots' = .ok "C-/-x-/-/-y" ∧
      (∀ s ∈ slots ++ slots', ¬g.separator.toList <:+: s.display.toList) ∧
      slots.map Slot.display ≠ slots'.map Slot.display := by
  decide

end Generator
end Milp.Naming
