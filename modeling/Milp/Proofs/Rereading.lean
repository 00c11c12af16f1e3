import Milp.Proofs.Codecs

/-! What becomes of a value in its text: numbers are what their reader makes of them, or are refused with all
that they are a part of, and nothing else changes. -/
namespace Milp.Json

variable {β γ σ : Type}

/-- No value begins with the end of another. -/
theorem exists_spelling (v : Json) : ∃ t ts, v.spelling = t :: ts ∧ t ≠ .closeBracket := by
  match v with
  | .null | .bool _ | .int _ | .string _ | .array [] | .object [] => exact ⟨_, _, rfl, nofun⟩
  | .float x =>
    refine ⟨_, _, rfl, ?_⟩
    unfold floatToken
    split <;> nofun
  | .array (_ :: _) | .object (_ :: _) => exact ⟨_, _, rfl, nofun⟩

theorem length_spellingItems (items : List Json) : items.length ≤ (spellingItems items).length := by
  induction items with
  | nil => exact Nat.le_refl _
  | cons v rest ih =>
    simp only [spellingItems, List.length_cons, List.length_append]
    omega

theorem length_spellingMembers (members : List (String × Json)) :
    members.length ≤ (spellingMembers members).length := by
  induction members with
  | nil => exact Nat.le_refl _
  | cons m rest ih =>
    obtain ⟨key, v⟩ := m
    simp only [spellingMembers, List.length_cons, List.length_append]
    omega

namespace NumberReader

variable {r : NumberReader} {x y : Float}

/-- What is read where the double was written. What is not finite has no text. -/
def reread (r : NumberReader) (x : Float) : Option Float :=
  match floatToken x with
  | .number n => r.read n
  | _ => none

/-- What is read where a number was written that may be missing. What is not finite is written as if it were. -/
def rereadOptional (r : NumberReader) (o : Option Float) : Option (Option Float) :=
  (o.filter Float.isFinite).mapM r.reread

/-- The reader reads the double where it was written. -/
def GivesBack (r : NumberReader) (x : Float) : Prop := r.reread x = some x

instance (r : NumberReader) : DecidablePred r.GivesBack := fun x => inferInstanceAs (Decidable (r.reread x = some x))

theorem isFinite_of_reread (h : r.reread x = some y) : y.isFinite = true := by
  unfold reread at h
  split at h
  · exact r.finite _ _ h
  · cases h

theorem GivesBack.isFinite (h : r.GivesBack x) : x.isFinite = true := isFinite_of_reread h

theorem rereadOptional_finite (hx : x.isFinite = true) : r.rereadOptional (some x) = (r.reread x).map some := by
  rw [rereadOptional, Option.filter_some_pos hx]
  rfl

theorem rereadOptional_self {o : Option Float} : r.rereadOptional o = some o ↔ ∀ x ∈ o, r.GivesBack x := by
  cases o with
  | none => exact ⟨fun _ => nofun, fun _ => rfl⟩
  | some x =>
    have hmem : (∀ y ∈ some x, r.GivesBack y) ↔ r.GivesBack x := ⟨fun h => h x rfl, by rintro h _ ⟨⟩; exact h⟩
    rw [hmem]
    cases hx : x.isFinite with
    | true =>
      rw [rereadOptional_finite hx, GivesBack]
      cases r.reread x <;> simp
    | false =>
      rw [rereadOptional, Option.filter_some_neg (by simp [hx])]
      refine ⟨nofun, fun h => ?_⟩
      rw [h.isFinite] at hx
      cases hx

theorem floatToken_of_not_finite (hx : x.isFinite = false) : floatToken x = .null := by
  rw [floatToken, render_of_not_finite hx]
  rfl

theorem givesBack_nearest (hx : x.isFinite = true) : nearest.GivesBack x := by
  obtain ⟨n, hn, htoken, -⟩ := exists_floatToken hx
  unfold GivesBack reread
  rw [htoken]
  change Option.filter Float.isFinite (some n.toFloat) = some x
  rw [hn, Option.filter_some_pos hx]

end NumberReader

namespace Decoder

variable {d : Decoder β} {f : β → Decoder γ} {r : NumberReader} {ts mid rest : List Token} {o : Option β}

/-- A value and what comes after it, or a text that is refused. -/
def outcome (o : Option β) (rest : List Token) : Except DecodeError (β × List Token) :=
  match o with
  | some x => .ok (x, rest)
  | none => .error .malformed

theorem bind_outcome {g : β → Option γ} (h : d r ts = outcome o mid)
    (hf : ∀ x, o = some x → f x r mid = outcome (g x) rest) : (d >>= f) r ts = outcome (o.bind g) rest := by
  cases o with
  | none => exact bind_error h
  | some x => exact (bind_ok h).trans (hf x rfl)

theorem map_outcome (g : β → γ) (h : d r ts = outcome o rest) : (g <$> d) r ts = outcome (o.map g) rest := by
  cases o with
  | none => exact map_error g h
  | some x => exact map_ok g h

end Decoder

/-- What is read of the text of a value, whatever comes after it. -/
def Codec.Rereads (c : Codec β) (r : NumberReader) (f : β → Option β) : Prop :=
  ∀ x rest, c.read r ((c.write x).spelling ++ rest) = Decoder.outcome (f x) rest

namespace Codec

open Decoder

variable {c : Codec β} {r : NumberReader} {f g : β → Option β}

theorem Rereads.congr (h : c.Rereads r f) (hfg : ∀ x, f x = g x) : c.Rereads r g := by
  intro x rest
  rw [h x rest, hfg x]

theorem rereads_text : text.Rereads r some := fun s rest => text_ok s r rest

theorem rereads_float : float.Rereads r r.reread := by
  intro x rest
  change Decoder.float r (floatToken x :: rest) = outcome (r.reread x) rest
  unfold Decoder.float NumberReader.reread
  rw [bind_ok (d := next) (x := floatToken x) rfl]
  cases floatToken x with
  | number n =>
    simp only
    rw [bind_ok (d := MonadReader.read) (x := r) rfl]
    cases r.read n with
    | some y => rfl
    | none => rfl
  | _ => rfl

theorem rereads_word : word.Rereads r some := by
  intro n rest
  change Decoder.word r (intToken n.toNat :: rest) = _
  unfold Decoder.word
  rw [bind_ok (d := next) (x := intToken n.toNat) rfl]
  have hn := n.toNat_lt
  have hsign : decide ((n.toNat : Int) < 0) = false := decide_eq_false (by omega)
  simp [intToken, hsign, hn]
  rfl

/-- What is there is not written as what is not there. -/
def Present (c : Codec β) : Prop := ∀ x, (c.write x).spelling.head? ≠ some .null

theorem optional_some {t : Token} {ts : List Token} (ht : t ≠ .null) :
    Decoder.optional c.read r (t :: ts) = (some <$> c.read) r (t :: ts) := by
  unfold Decoder.optional
  rw [bind_ok (peek_ok t r ts)]
  split
  case h_1 => exact absurd rfl ht
  case h_2 => rfl

theorem Rereads.optional (h : c.Rereads r f) (hpresent : c.Present) : c.optional.Rereads r (Option.mapM f) := by
  intro o rest
  cases o with
  | none => rfl
  | some x =>
    have hread := map_outcome some (h x rest)
    have hnull := hpresent x
    obtain ⟨t, ts, hspelling, -⟩ := exists_spelling (c.write x)
    change Decoder.optional c.read r ((c.write x).spelling ++ rest) = _
    rw [hspelling] at hnull
    rw [hspelling, List.cons_append] at hread ⊢
    rw [optional_some fun h => hnull (congrArg some h), hread]
    rfl

theorem rereads_optional_float : Codec.float.optional.Rereads r r.rereadOptional := by
  intro o rest
  cases o with
  | none => rfl
  | some x =>
    have hread := map_outcome some (rereads_float (r := r) x rest)
    change Decoder.optional Codec.float.read r (floatToken x :: rest) =
      outcome (((some x).filter Float.isFinite).mapM r.reread) rest
    change (some <$> Codec.float.read) r (floatToken x :: rest) = _ at hread
    cases hx : x.isFinite with
    | false =>
      rw [NumberReader.floatToken_of_not_finite hx, Option.filter_some_neg (by simp [hx])]
      rfl
    | true =>
      obtain ⟨n, -, htoken, -⟩ := exists_floatToken hx
      rw [optional_some (by rw [htoken]; nofun), hread, Option.filter_some_pos hx]
      rfl

theorem Rereads.items (h : c.Rereads r f) {x : β} {xs : List β} {fuel : Nat} (hfuel : xs.length < fuel)
    (rest : List Token) :
    Decoder.items c.read fuel r ((c.write x).spelling ++
      (spellingItems (xs.map c.write) ++ (.closeBracket :: rest))) = outcome ((x :: xs).mapM f) rest := by
  induction xs generalizing x fuel with
  | nil =>
    obtain ⟨fuel, rfl⟩ := Nat.exists_eq_succ_of_ne_zero (Nat.ne_zero_of_lt hfuel)
    rw [List.mapM_cons, List.mapM_nil]
    exact bind_outcome (h x _) fun y _ => rfl
  | cons y ys ih =>
    obtain ⟨fuel, rfl⟩ := Nat.exists_eq_succ_of_ne_zero (Nat.ne_zero_of_lt hfuel)
    have hys := ih (x := y) (Nat.lt_of_succ_lt_succ hfuel)
    rw [List.mapM_cons]
    refine bind_outcome (h x _) fun x' _ => ?_
    simp only [List.map_cons, spellingItems, List.cons_append, List.append_assoc]
    rw [bind_ok (d := next) (x := .comma) rfl]
    exact bind_outcome hys fun _ _ => rfl

theorem Rereads.list (h : c.Rereads r f) : c.list.Rereads r (List.mapM f) := by
  intro xs rest
  cases xs with
  | nil => rfl
  | cons x xs =>
    have hlength : xs.length < ((c.write x).spelling ++
        (spellingItems (xs.map c.write) ++ (.closeBracket :: rest))).length := by
      have hitems := length_spellingItems (xs.map c.write)
      rw [List.length_map] at hitems
      simp only [List.length_append, List.length_cons]
      omega
    change Decoder.list c.read r (.openBracket :: ((c.write x).spelling ++
      (spellingItems (xs.map c.write) ++ [.closeBracket])) ++ rest) = _
    simp only [List.cons_append, List.append_assoc, List.nil_append]
    have hitems := h.items (x := x) hlength rest
    obtain ⟨t, ts, hspelling, ht⟩ := exists_spelling (c.write x)
    rw [hspelling, List.cons_append] at hitems ⊢
    unfold Decoder.list
    rw [bind_ok (expect_ok ..), bind_ok (peek_ok ..)]
    split
    case h_1 => exact absurd rfl ht
    case h_2 =>
      rw [bind_ok (d := get) rfl]
      exact hitems

theorem Rereads.iso (h : c.Rereads r f) (make : β → γ) (back : γ → β) :
    (c.iso make back).Rereads r fun y => (f (back y)).map make := fun y rest => map_outcome make (h (back y) rest)

theorem rereads_named {known : List (String × β)} {name : β → String}
    (hname : ∀ x, known.lookup (name x) = some x) : (named known name).Rereads r some :=
  fun x rest => oneOf_ok (hname x) r rest

theorem present_named {known : List (String × β)} {name : β → String} : (named known name).Present := fun _ => nofun

theorem present_text : text.Present := fun _ => nofun

/-- A tagged value comes to what the alternative of its tag makes of it. -/
theorem rereads_tagged {alternatives : List (Alternative β)} {write : β → String × Json}
    (h : ∀ x, ∃ read, (alternatives.map fun a => (a.tag, a.read)).lookup (write x).1 = some read ∧
      ∀ rest, read r ((write x).2.spelling ++ rest) = outcome (f x) rest) :
    (tagged alternatives write).Rereads r f := by
  intro x rest
  obtain ⟨read, hlookup, hread⟩ := h x
  change (tagged alternatives write).read r (.openBrace :: .string (some (write x).1) :: .colon ::
    ((write x).2.spelling ++ ([] ++ [.closeBrace])) ++ rest) = _
  simp only [List.nil_append, List.cons_append, List.append_assoc]
  unfold tagged
  simp only
  rw [bind_ok (peek_ok ..)]
  simp only
  rw [bind_ok (d := discard next) rfl, bind_ok (oneOf_ok hlookup ..), bind_ok (expect_ok ..),
    ← (f x).bind_fun_some]
  refine bind_outcome (hread _) fun y _ => ?_
  rw [bind_ok (expect_ok ..)]
  rfl

end Codec

section Objects

open Decoder

variable {member : String → σ → Decoder σ} {r : NumberReader} {s : σ} {ms : List (String × Json)} {o : Option σ}

/-- What reading these members comes to, one after the other: another state, or nothing if one of them is
refused. -/
inductive Feeds (member : String → σ → Decoder σ) (r : NumberReader) :
    σ → List (String × Json) → Option σ → Prop
  | nil (s : σ) : Feeds member r s [] (some s)
  | stop {s : σ} {key : String} {v : Json} {ms : List (String × Json)}
      (first : ∀ rest, member key s r (.colon :: (v.spelling ++ rest)) = .error .malformed) :
      Feeds member r s ((key, v) :: ms) none
  | cons {s s' : σ} {key : String} {v : Json} {ms : List (String × Json)} {o : Option σ}
      (first : ∀ rest, member key s r (.colon :: (v.spelling ++ rest)) = .ok (s', rest))
      (others : Feeds member r s' ms o) : Feeds member r s ((key, v) :: ms) o

theorem Feeds.members {key : String} {v : Json} (h : Feeds member r s ((key, v) :: ms) o)
    {fuel : Nat} (hfuel : ms.length < fuel) (rest : List Token) :
    Decoder.members member fuel s r (.string (some key) :: .colon :: (v.spelling ++
      (spellingMembers ms ++ (.closeBrace :: rest)))) = outcome o rest := by
  induction ms generalizing s key v fuel with
  | nil =>
    obtain ⟨fuel, rfl⟩ := Nat.exists_eq_succ_of_ne_zero (Nat.ne_zero_of_lt hfuel)
    unfold Decoder.members
    rw [bind_ok (text_ok ..)]
    cases h with
    | stop first => exact bind_error (first _)
    | cons first others =>
      cases others
      rw [bind_ok (first _)]
      rfl
  | cons m ms ih =>
    obtain ⟨fuel, rfl⟩ := Nat.exists_eq_succ_of_ne_zero (Nat.ne_zero_of_lt hfuel)
    obtain ⟨key', v'⟩ := m
    unfold Decoder.members
    rw [bind_ok (text_ok ..)]
    cases h with
    | stop first => exact bind_error (first _)
    | cons first others =>
      have hothers := ih others (Nat.lt_of_succ_lt_succ hfuel)
      rw [bind_ok (first _)]
      simp only [spellingMembers, List.cons_append, List.append_assoc]
      rw [bind_ok (d := next) (x := .comma) rfl]
      exact hothers

/-- The members of an object are read after its brace. -/
theorem Feeds.openObject (h : Feeds member r s ms o) (rest : List Token) : ∃ ts,
    (Json.object ms).spelling ++ rest = .openBrace :: ts ∧
      Decoder.openObject member s r ts = outcome o rest := by
  match ms, h with
  | [], h =>
    cases h
    exact ⟨_, rfl, rfl⟩
  | (key, v) :: ms, h =>
    refine ⟨.string (some key) :: .colon ::
      (v.spelling ++ (spellingMembers ms ++ (.closeBrace :: rest))), ?_, ?_⟩
    · simp [spelling]
    · have hlength := length_spellingMembers ms
      unfold Decoder.openObject
      rw [bind_ok (peek_ok ..)]
      simp only
      rw [bind_ok (d := get) rfl]
      exact h.members (by simp only [List.length_cons, List.length_append]; omega) rest

end Objects

/-- What is read of the text of a field. A value that is not written is the one that is taken when the field
is not there. -/
structure Member.Rereads (m : Member β) (r : NumberReader) (f : β → Option β) : Prop where
  codec : m.codec.Rereads r f
  hidden : ∀ x, m.hidden x = true → m.fallback = some x ∧ f x = some x

namespace Members

open Decoder

/-- What is read of the texts of fields: the members that are written fill the slots, or one of them is
refused. -/
structure Rereads (fs : Members σ) (r : NumberReader) (names : List String) (g : σ → Option σ) : Prop where
  named : ∀ x, ∀ m ∈ fs.write x, m.1 ∈ names
  feeds : ∀ x, (∃ slots y, Feeds fs.step r fs.empty (fs.write x) (some slots) ∧ fs.finish slots = .ok y ∧
    g x = some y) ∨ Feeds fs.step r fs.empty (fs.write x) none ∧ g x = none

variable {fs : Members σ} {r : NumberReader} {names : List String} {m : Member β} {f : β → Option β}
  {g : σ → Option σ} {o : Option β} {s : fs.Slots}

theorem Rereads.codec (h : fs.Rereads r names g) : fs.codec.Rereads r g := by
  intro x rest
  change fs.codec.read r ((Json.object (fs.write x)).spelling ++ rest) = _
  rcases h.feeds x with ⟨slots, y, hfeeds, hfinish, hy⟩ | ⟨hfeeds, hnone⟩
  · obtain ⟨ts, hts, hobject⟩ := hfeeds.openObject rest
    rw [hts, hy]
    change (Decoder.openObject fs.step fs.empty >>= fun slots => liftExcept (fs.finish slots)) r ts = _
    rw [bind_ok hobject, hfinish]
    rfl
  · obtain ⟨ts, hts, hobject⟩ := hfeeds.openObject rest
    rw [hts, hnone]
    change (Decoder.openObject fs.step fs.empty >>= fun slots => liftExcept (fs.finish slots)) r ts = _
    exact bind_error hobject

theorem rereads_nil : nil.Rereads r [] some where
  named _ _ h := nomatch h
  feeds _ := .inl ⟨(), (), .nil (), rfl, rfl⟩

theorem readMember_outcome (hf : m.Rereads r f) (a : β) (rest : List Token) :
    readMember m none r (.colon :: ((m.codec.write a).spelling ++ rest)) = outcome ((f a).map some) rest := by
  unfold readMember
  simp only [Option.isSome_none, Bool.false_eq_true, if_false]
  rw [bind_ok (expect_ok ..)]
  exact map_outcome some (hf.codec a rest)

/-- Members that are other fields' leave a slot as it is. -/
theorem feeds_other {ms : List (String × Json)} {s' : Option fs.Slots} (h : Feeds fs.step r s ms s')
    (hms : ∀ v ∈ ms, v.1 ≠ m.name) : Feeds (cons m fs).step r (o, s) ms (s'.map (o, ·)) := by
  induction h with
  | nil => exact .nil _
  | stop first =>
    refine .stop fun rest => ?_
    rw [step_other (hms _ List.mem_cons_self)]
    exact map_error _ (first rest)
  | cons first others ih =>
    refine .cons (fun rest => ?_) (ih fun v hv => hms v (List.mem_cons_of_mem _ hv))
    rw [step_other (hms _ List.mem_cons_self)]
    exact map_ok _ (first rest)

theorem write_cons {a : β} {b : σ} : (cons m fs).write (a, b) =
    if m.hidden a = true then fs.write b else (m.name, m.codec.write a) :: fs.write b := by
  simp only [cons]
  split
  · rfl
  · rfl

theorem Rereads.named_cons (h : fs.Rereads r names g) (x : β × σ) :
    ∀ v ∈ (cons m fs).write x, v.1 ∈ m.name :: names := by
  intro v hv
  obtain ⟨a, b⟩ := x
  rw [write_cons] at hv
  split at hv
  case isTrue => exact List.mem_cons_of_mem _ (h.named b v hv)
  case isFalse =>
    rcases List.mem_cons.mp hv with rfl | hv
    · exact List.mem_cons_self
    · exact List.mem_cons_of_mem _ (h.named b v hv)

/-- Once the slot of the first field is filled, or will be by the value that it has otherwise, the others
decide. -/
theorem Rereads.feeds_others (h : fs.Rereads r names g) (hname : m.name ∉ names) {a : β} (b : σ)
    (ha : (o <|> m.fallback) = some a) :
    (∃ slots y, Feeds (cons m fs).step r (o, fs.empty) (fs.write b) (some slots) ∧
      (cons m fs).finish slots = .ok y ∧ (g b).map (a, ·) = some y) ∨
      Feeds (cons m fs).step r (o, fs.empty) (fs.write b) none ∧ (g b).map (a, ·) = none := by
  have hms : ∀ v ∈ fs.write b, v.1 ≠ m.name := fun v hv heq => hname (heq ▸ h.named b v hv)
  rcases h.feeds b with ⟨slots, y, hfeeds, hfinish, hy⟩ | ⟨hfeeds, hnone⟩
  · exact .inl ⟨(o, slots), (a, y), feeds_other hfeeds hms, finish_ok ha hfinish, by rw [hy]; rfl⟩
  · exact .inr ⟨feeds_other hfeeds hms, by rw [hnone]; rfl⟩

/-- One more field, of another name. -/
theorem Rereads.cons (h : fs.Rereads r names g) (hf : m.Rereads r f) (hname : m.name ∉ names) :
    (Members.cons m fs).Rereads r (m.name :: names) fun x => (f x.1).bind fun a => (g x.2).map (a, ·) where
  named := h.named_cons
  feeds := by
    rintro ⟨a, b⟩
    change (∃ slots y, Feeds _ r (none, fs.empty) _ _ ∧ _ ∧ _) ∨ Feeds _ r (none, fs.empty) _ _ ∧ _
    rw [write_cons]
    split
    case isTrue hhidden =>
      obtain ⟨hfallback, hself⟩ := hf.hidden a hhidden
      rw [hself]
      exact h.feeds_others hname b hfallback
    case isFalse =>
      have hread (rest : List Token) : (Members.cons m fs).step m.name (none, fs.empty) r
          (.colon :: ((m.codec.write a).spelling ++ rest)) =
            outcome (((f a).map some).map fun o => (o, fs.empty)) rest := by
        rw [step_same]
        exact map_outcome _ (readMember_outcome hf a rest)
      cases ha : f a with
      | none =>
        rw [ha] at hread
        exact .inr ⟨.stop hread, rfl⟩
      | some a' =>
        rw [ha] at hread
        rcases h.feeds_others (o := some a') hname b rfl with ⟨slots, y, hfeeds, hdone⟩ | ⟨hfeeds, hnone⟩
        · exact .inl ⟨slots, y, .cons hread hfeeds, hdone⟩
        · exact .inr ⟨.cons hread hfeeds, hnone⟩

end Members

namespace Codec

variable {c : Codec β} {r : NumberReader} {f : β → Option β} {x y : β}

theorem Rereads.decode_iff (h : c.Rereads r f) {source : String} (hsource : tokens source = (c.write x).spelling) :
    c.decodeBy r source = .ok y ↔ f x = some y := by
  have hread := h x []
  rw [List.append_nil] at hread
  unfold decodeBy Decoder.run
  rw [hsource, hread]
  cases f x with
  | none => exact ⟨nofun, nofun⟩
  | some z => exact ⟨fun h => by cases h; rfl, fun h => by cases h; rfl⟩

/-- What is read of the text of a value, on one line or over several. -/
theorem Rereads.decode_encode (h : c.Rereads r f) : c.decodeBy r (c.encode x) = .ok y ↔ f x = some y :=
  h.decode_iff (tokens_compact _)

theorem Rereads.decode_encodePretty (h : c.Rereads r f) :
    c.decodeBy r (c.encodePretty x) = .ok y ↔ f x = some y := h.decode_iff (tokens_pretty _)

end Codec
end Milp.Json
