import Milp.Json.Codec
import Milp.Proofs.Spelling

/-! What codecs read: whatever the text, and whoever reads the numbers in it, only values with a property. -/
namespace Milp.Json

variable {β γ σ : Type}

namespace Decoder

variable {d : Decoder β} {f : β → Decoder γ} {r : NumberReader} {ts rest : List Token} {x : β} {y : γ}
  {e : DecodeError}

theorem bind_ok (h : d r ts = .ok (x, rest)) : (d >>= f) r ts = f x r rest := by
  change StateT.bind (d r) (fun x => f x r) ts = _
  simp only [StateT.bind, h]
  rfl

theorem bind_error (h : d r ts = .error e) : (d >>= f) r ts = .error e := by
  change StateT.bind (d r) (fun x => f x r) ts = _
  simp only [StateT.bind, h]
  rfl

/-- What succeeds in two steps succeeds in the first. -/
theorem exists_of_bind_ok (h : (d >>= f) r ts = .ok (y, rest)) :
    ∃ x mid, d r ts = .ok (x, mid) ∧ f x r mid = .ok (y, rest) := by
  cases hd : d r ts with
  | error e =>
    rw [bind_error hd] at h
    cases h
  | ok p =>
    rw [bind_ok hd] at h
    exact ⟨p.1, p.2, rfl, h⟩

theorem map_ok (g : β → γ) (h : d r ts = .ok (x, rest)) : (g <$> d) r ts = .ok (g x, rest) := by
  change StateT.map g (d r) ts = _
  simp only [StateT.map, h]
  rfl

theorem map_error (g : β → γ) (h : d r ts = .error e) : (g <$> d) r ts = .error e := by
  change StateT.map g (d r) ts = _
  simp only [StateT.map, h]
  rfl

theorem exists_of_map_ok {g : β → γ} (h : (g <$> d) r ts = .ok (y, rest)) :
    ∃ x, d r ts = .ok (x, rest) ∧ g x = y := by
  cases hd : d r ts with
  | error e =>
    rw [map_error g hd] at h
    cases h
  | ok p =>
    rw [map_ok g hd] at h
    cases h
    exact ⟨p.1, rfl, rfl⟩

theorem expect_ok (t : Token) (r : NumberReader) (rest : List Token) :
    expect t r (t :: rest) = .ok ((), rest) := by
  unfold expect
  rw [bind_ok (d := next) (x := t) rfl]
  simp
  rfl

theorem peek_ok (t : Token) (r : NumberReader) (rest : List Token) : peek r (t :: rest) = .ok (t, t :: rest) := rfl

theorem text_ok (s : String) (r : NumberReader) (rest : List Token) :
    text r (.string (some s) :: rest) = .ok (s, rest) := rfl

theorem oneOf_ok {known : List (String × β)} {name : String} (h : known.lookup name = some x)
    (r : NumberReader) (rest : List Token) : oneOf known r (.string (some name) :: rest) = .ok (x, rest) := by
  unfold oneOf
  rw [bind_ok (text_ok name r rest), h]
  rfl

theorem mem_of_oneOf_ok {known : List (String × β)} (h : oneOf known r ts = .ok (x, rest)) :
    ∃ name, (name, x) ∈ known := by
  unfold oneOf at h
  obtain ⟨name, mid, -, hlookup⟩ := exists_of_bind_ok h
  cases hv : known.lookup name with
  | none =>
    rw [hv] at hlookup
    cases hlookup
  | some v =>
    rw [hv] at hlookup
    cases hlookup
    obtain ⟨before, after, rfl, -⟩ := List.lookup_eq_some_iff.mp hv
    exact ⟨name, List.mem_append_right _ (List.mem_cons_self ..)⟩

end Decoder

/-- What a codec reads has the property. -/
def Codec.Yields (c : Codec β) (P : β → Prop) : Prop :=
  ∀ r ts x rest, c.read r ts = .ok (x, rest) → P x

namespace Codec

open Decoder

variable {c : Codec β} {P : β → Prop} {Q : γ → Prop} {r : NumberReader}

theorem Yields.any (c : Codec β) : c.Yields fun _ => True := fun _ _ _ _ _ => trivial

/-- No text has a number that is not finite. -/
theorem yields_float : float.Yields fun x => x.isFinite = true := by
  intro r ts x rest h
  obtain ⟨t, mid, -, h⟩ := exists_of_bind_ok h
  cases t with
  | number n =>
    obtain ⟨r', _, hr, h⟩ := exists_of_bind_ok h
    cases hr
    cases hx : r.read n with
    | some x' =>
      simp only [hx] at h
      cases h
      exact r.finite _ _ hx
    | none =>
      simp only [hx] at h
      cases h
  | _ => cases h

theorem Yields.optional (h : c.Yields P) : c.optional.Yields fun o => ∀ x ∈ o, P x := by
  intro r ts o rest hread
  obtain ⟨t, mid, -, hread⟩ := exists_of_bind_ok hread
  split at hread
  case h_1 =>
    obtain ⟨_, _, _, hread⟩ := exists_of_bind_ok hread
    cases hread
    nofun
  case h_2 =>
    obtain ⟨x, hx, rfl⟩ := exists_of_map_ok hread
    rintro _ ⟨⟩
    exact h _ _ _ _ hx

theorem Yields.items (h : c.Yields P) {fuel : Nat} {ts rest : List Token} {xs : List β}
    (hread : Decoder.items c.read fuel r ts = .ok (xs, rest)) : ∀ x ∈ xs, P x := by
  induction fuel generalizing ts xs with
  | zero => cases hread
  | succ fuel ih =>
    unfold Decoder.items at hread
    obtain ⟨x, mid, hx, hread⟩ := exists_of_bind_ok hread
    obtain ⟨t, mid', -, hread⟩ := exists_of_bind_ok hread
    have hhead := h _ _ _ _ hx
    split at hread
    case h_1 =>
      obtain ⟨ys, mid'', hys, hread⟩ := exists_of_bind_ok hread
      cases hread
      exact List.forall_mem_cons.mpr ⟨hhead, ih hys⟩
    case h_2 =>
      cases hread
      exact List.forall_mem_singleton.mpr hhead
    case h_3 => cases hread

theorem Yields.list (h : c.Yields P) : c.list.Yields fun xs => ∀ x ∈ xs, P x := by
  intro r ts xs rest hread
  obtain ⟨-, mid, -, hread⟩ := exists_of_bind_ok hread
  obtain ⟨t, mid', -, hread⟩ := exists_of_bind_ok hread
  split at hread
  case h_1 =>
    obtain ⟨_, _, -, hread⟩ := exists_of_bind_ok hread
    cases hread
    nofun
  case h_2 =>
    obtain ⟨_, _, -, hread⟩ := exists_of_bind_ok hread
    exact h.items hread

theorem Yields.iso {make : β → γ} {back : γ → β} (h : c.Yields P) (hmake : ∀ x, P x → Q (make x)) :
    (c.iso make back).Yields Q := by
  intro r ts y rest hread
  obtain ⟨x, hx, rfl⟩ := exists_of_map_ok hread
  exact hmake x (h _ _ _ _ hx)

theorem yields_tagged {alternatives : List (Alternative β)} {write : β → String × Json}
    (h : ∀ a ∈ alternatives, ∀ r ts x rest, a.read r ts = .ok (x, rest) → P x) :
    (tagged alternatives write).Yields P := by
  intro r ts x rest hread
  obtain ⟨t, mid, -, hread⟩ := exists_of_bind_ok hread
  split at hread
  case h_1 =>
    obtain ⟨_, _, -, hread⟩ := exists_of_bind_ok hread
    obtain ⟨read, _, hone, hread⟩ := exists_of_bind_ok hread
    obtain ⟨_, _, -, hread⟩ := exists_of_bind_ok hread
    obtain ⟨y, _, hy, hread⟩ := exists_of_bind_ok hread
    obtain ⟨_, _, -, hread⟩ := exists_of_bind_ok hread
    cases hread
    obtain ⟨name, hmem⟩ := mem_of_oneOf_ok hone
    obtain ⟨a, ha, heq⟩ := List.mem_map.mp hmem
    cases heq
    exact h a ha _ _ _ _ hy
  case h_2 =>
    obtain ⟨_, _, -, hread⟩ := exists_of_bind_ok hread
    cases hread

end Codec

section Objects

open Decoder

variable {member : String → σ → Decoder σ} {r : NumberReader} {s s' : σ} {P : σ → Prop} {ts rest : List Token}

/-- What every member preserves, an object preserves. -/
theorem members_keeps {fuel : Nat}
    (hmember : ∀ key s ts s' rest, P s → member key s r ts = .ok (s', rest) → P s') (hs : P s)
    (h : Decoder.members member fuel s r ts = .ok (s', rest)) : P s' := by
  induction fuel generalizing s ts with
  | zero => cases h
  | succ fuel ih =>
    unfold Decoder.members at h
    obtain ⟨key, _, -, h⟩ := exists_of_bind_ok h
    obtain ⟨mid, _, hmid, h⟩ := exists_of_bind_ok h
    obtain ⟨t, _, -, h⟩ := exists_of_bind_ok h
    have hkept := hmember _ _ _ _ _ hs hmid
    split at h
    case h_1 => exact ih hkept h
    case h_2 =>
      cases h
      exact hkept
    case h_3 => cases h

theorem openObject_keeps
    (hmember : ∀ key s ts s' rest, P s → member key s r ts = .ok (s', rest) → P s') (hs : P s)
    (h : Decoder.openObject member s r ts = .ok (s', rest)) : P s' := by
  unfold Decoder.openObject at h
  obtain ⟨t, _, -, h⟩ := exists_of_bind_ok h
  split at h
  case h_1 =>
    obtain ⟨_, _, -, h⟩ := exists_of_bind_ok h
    cases h
    exact hs
  case h_2 =>
    obtain ⟨_, _, -, h⟩ := exists_of_bind_ok h
    exact members_keeps hmember hs h

end Objects

/-- Whether a field is read or left out, its value has the property. -/
structure Member.Yields (f : Member β) (P : β → Prop) : Prop where
  codec : f.codec.Yields P
  fallback : ∀ x ∈ f.fallback, P x

namespace Members

open Decoder

/-- What reading an object of these fields does at a key. -/
def step (fs : Members σ) (key : String) (slots : fs.Slots) : Decoder fs.Slots :=
  match fs.member key slots with
  | some d => d
  | none => do
    Decoder.expect .colon
    Decoder.skip
    return slots

variable {fs : Members σ} {P : σ → Prop} {Q : β → Prop} {f : Member β} {key : String} {o : Option β}
  {s : fs.Slots} {r : NumberReader} {ts rest : List Token}

theorem step_same : (cons f fs).step f.name (o, s) = (fun o' => (o', s)) <$> readMember f o := by
  unfold step
  simp only [cons, if_true, map_eq_pure_bind]

theorem step_other (hkey : key ≠ f.name) :
    (cons f fs).step key (o, s) = (fun s' => (o, s')) <$> fs.step key s := by
  unfold step
  simp only [cons, if_neg hkey]
  cases fs.member key s with
  | some d => simp only [Option.map_some, map_eq_pure_bind]
  | none => simp only [Option.map_none, map_eq_pure_bind, bind_assoc, pure_bind]

theorem finish_ok {a : β} {b : σ} (ha : (o <|> f.fallback) = some a)
    (hb : fs.finish s = .ok b) : (cons f fs).finish (o, s) = .ok (a, b) := by
  simp only [cons, ha, hb]
  rfl

theorem finish_yields {a : β} {b : σ} (h : (cons f fs).finish (o, s) = .ok (a, b)) :
    (o <|> f.fallback) = some a ∧ fs.finish s = .ok b := by
  simp only [cons] at h
  split at h
  case h_1 x hx =>
    cases hb : fs.finish s with
    | error e =>
      rw [hb] at h
      cases h
    | ok y =>
      rw [hb] at h
      cases h
      exact ⟨hx, rfl⟩
  case h_2 => cases h

/-- What is read of the fields has the property, from an object as from an array: some property of the
slots holds at first and lasts, and makes the values have theirs. -/
structure Yields (fs : Members σ) (P : σ → Prop) : Prop where
  slots : ∃ H : fs.Slots → Prop, H fs.empty ∧
    (∀ r key s ts s' rest, H s → fs.step key s r ts = .ok (s', rest) → H s') ∧
      ∀ s x, H s → fs.finish s = .ok x → P x
  items : ∀ first r ts x rest, fs.items first r ts = .ok (x, rest) → P x

theorem Yields.codec (h : fs.Yields P) : fs.codec.Yields P := by
  intro r ts x rest hread
  obtain ⟨H, hempty, hstep, hfinish⟩ := h.slots
  obtain ⟨t, _, -, hread⟩ := exists_of_bind_ok hread
  split at hread
  case h_1 =>
    obtain ⟨slots, _, hobject, hread⟩ := exists_of_bind_ok hread
    have hslots := openObject_keeps (hstep r) hempty hobject
    cases hx : fs.finish slots with
    | error e =>
      rw [hx] at hread
      cases hread
    | ok y =>
      rw [hx] at hread
      cases hread
      exact hfinish _ _ hslots hx
  case h_2 => exact h.items _ _ _ _ _ hread
  case h_3 => cases hread

theorem yields_nil : nil.Yields fun _ => True where
  slots := ⟨fun _ => True, trivial, fun _ _ _ _ _ _ _ _ => trivial, fun _ _ _ _ => trivial⟩
  items _ _ _ _ _ _ := trivial

theorem readMember_yields (hf : f.Yields Q) {o' : Option β} (h : readMember f o r ts = .ok (o', rest)) :
    ∀ a ∈ o', Q a := by
  unfold readMember at h
  split at h
  case isTrue => cases h
  case isFalse =>
    obtain ⟨_, _, -, h⟩ := exists_of_bind_ok h
    obtain ⟨a, ha, rfl⟩ := exists_of_map_ok h
    rintro _ ⟨⟩
    exact hf.codec _ _ _ _ ha

theorem readItem_yields (hf : f.Yields Q) {first : Bool} {a : β} (h : readItem f first r ts = .ok (a, rest)) :
    Q a := by
  have hfallback := hf.fallback
  unfold readItem at h
  obtain ⟨t, _, -, h⟩ := exists_of_bind_ok h
  revert h hfallback
  generalize f.trailing = trailing
  generalize f.fallback = fallback
  intro hfallback h
  split at h
  case h_1 =>
    cases h
    exact hfallback _ rfl
  case h_2 =>
    cases first with
    | false =>
      obtain ⟨_, _, -, h⟩ := exists_of_bind_ok h
      exact hf.codec _ _ _ _ h
    | true => exact hf.codec _ _ _ _ h

/-- A slot that is filled holds what its field yields. -/
def Filled (Q : β → Prop) (H : fs.Slots → Prop) (s : (cons f fs).Slots) : Prop :=
  (∀ a ∈ s.1, Q a) ∧ H s.2

theorem Filled.step {H : fs.Slots → Prop} (hf : f.Yields Q)
    (hH : ∀ key s ts s' rest, H s → fs.step key s r ts = .ok (s', rest) → H s')
    {s s' : (cons f fs).Slots} (hs : Filled Q H s)
    (hread : (cons f fs).step key s r ts = .ok (s', rest)) : Filled Q H s' := by
  obtain ⟨o, s⟩ := s
  obtain ⟨ho, hs⟩ := hs
  by_cases hkey : key = f.name
  · subst hkey
    rw [step_same] at hread
    obtain ⟨_, hmember, rfl⟩ := exists_of_map_ok hread
    exact ⟨readMember_yields hf hmember, hs⟩
  · rw [step_other hkey] at hread
    obtain ⟨_, hmember, rfl⟩ := exists_of_map_ok hread
    exact ⟨ho, hH _ _ _ _ _ hs hmember⟩

theorem Filled.finish {H : fs.Slots → Prop} (hf : f.Yields Q)
    (hH : ∀ s x, H s → fs.finish s = .ok x → P x) {s : (cons f fs).Slots} {x : β × σ}
    (hs : Filled Q H s) (hdone : (cons f fs).finish s = .ok x) : Q x.1 ∧ P x.2 := by
  obtain ⟨o, s⟩ := s
  obtain ⟨a, b⟩ := x
  obtain ⟨ho, hs⟩ := hs
  obtain ⟨ha, hb⟩ := finish_yields hdone
  refine ⟨?_, hH s b hs hb⟩
  cases o with
  | none => exact hf.fallback a ha
  | some a' =>
    cases ha
    exact ho _ rfl

theorem Yields.cons (h : fs.Yields P) (hf : f.Yields Q) :
    (Members.cons f fs).Yields fun x => Q x.1 ∧ P x.2 where
  slots := by
    obtain ⟨H, hempty, hstep, hfinish⟩ := h.slots
    have hfilled : Filled (f := f) Q H (Members.cons f fs).empty := ⟨nofun, hempty⟩
    exact ⟨Filled Q H, hfilled, fun r _ _ _ _ _ hs => hs.step hf (hstep r), fun _ _ hs => hs.finish hf hfinish⟩
  items first r ts x rest hread := by
    obtain ⟨a, _, ha, hread⟩ := exists_of_bind_ok hread
    obtain ⟨b, _, hb, hread⟩ := exists_of_bind_ok hread
    cases hread
    exact ⟨readItem_yields hf ha, h.items _ _ _ _ _ hb⟩

end Members

theorem Codec.Yields.of_decode {c : Codec β} {P : β → Prop} (h : c.Yields P) {r : NumberReader} {source : String}
    {x : β} (hx : c.decodeBy r source = .ok x) : P x := by
  unfold decodeBy Decoder.run at hx
  split at hx
  case h_1 y hread =>
    cases hx
    exact h _ _ _ _ hread
  case h_2 => cases hx
  case h_3 => cases hx

end Milp.Json
