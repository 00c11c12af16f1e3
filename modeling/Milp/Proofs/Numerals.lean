import Milp.Decimal.Layout
import Milp.Json.Token
import Milp.Proofs.Decimals

/-! Numbers in text: what is written for a finite double in any layout is read as a number, and that
number is the double. -/
namespace Milp.Json

variable {negative : Bool} {ds fs rest : List Char}

theorem ofDigits_eq (ds : List Char) : ofDigits ds = Nat.ofDigitChars 10 ds 0 := by
  unfold ofDigits
  rw [Nat.ofDigitChars_eq_foldl]
  simp only [Nat.mul_comm]

theorem ofDigits_append (ds fs : List Char) :
    ofDigits (ds ++ fs) = 10 ^ fs.length * ofDigits ds + ofDigits fs := by
  rw [ofDigits_eq, ofDigits_eq, ofDigits_eq, Nat.ofDigitChars_append, Nat.ofDigitChars_eq_ofDigitChars_zero]

theorem ofDigits_zeros (n : Nat) : ofDigits (List.replicate n '0') = 0 := by
  rw [ofDigits_eq, Nat.ofDigitChars_replicate_zero, Nat.mul_zero]

theorem ofDigits_toDigits (n : Nat) : ofDigits (Nat.toDigits 10 n) = n := by
  rw [ofDigits_eq, Nat.ofDigitChars_ten_toDigits]

/-- Only digits, and at least one. -/
structure Digits (ds : List Char) : Prop where
  ne_nil : ds ≠ []
  digit : ∀ c ∈ ds, c.isDigit = true

theorem Digits.toDigits (n : Nat) : Digits (Nat.toDigits 10 n) :=
  ⟨Nat.toDigits_ne_nil, fun _ hc => Nat.isDigit_of_mem_toDigits (by decide) (by decide) hc⟩

/-- What follows digits does not begin with one. -/
def Stopped (rest : List Char) : Prop := ∀ c ∈ rest.head?, c.isDigit = false

theorem takeWhile_digits (hds : ∀ c ∈ ds, c.isDigit = true) (hrest : Stopped rest) :
    (ds ++ rest).takeWhile Char.isDigit = ds := by
  rw [List.takeWhile_append_of_pos hds]
  cases rest with
  | nil => simp
  | cons c cs => simp [hrest c rfl]

theorem dropWhile_digits (hds : ∀ c ∈ ds, c.isDigit = true) (hrest : Stopped rest) :
    (ds ++ rest).dropWhile Char.isDigit = rest := by
  rw [List.dropWhile_append_of_pos hds]
  cases rest with
  | nil => simp
  | cons c cs => simp [hrest c rfl]

/-- What follows a number does not go on with it. -/
def Ended (rest : List Char) : Prop :=
  ∀ c ∈ rest.head?, c.isDigit = false ∧ c ≠ '.' ∧ c ≠ 'e' ∧ c ≠ 'E'

theorem Ended.stopped (h : Ended rest) : Stopped rest := fun c hc => (h c hc).1

/-- The digits of a fraction after its point. -/
def afterPoint (fs : List Char) : List Char := if fs = [] then [] else '.' :: fs

theorem stopped_afterPoint (hrest : Stopped rest) : Stopped (afterPoint fs ++ rest) := by
  unfold afterPoint
  split
  · exact hrest
  · rintro c ⟨⟩
    decide

theorem lexFraction_afterPoint (hfs : ∀ c ∈ fs, c.isDigit = true) (hstop : Stopped rest)
    (hpoint : rest.head? ≠ some '.') : lexFraction (afterPoint fs ++ rest) = some (fs, rest) := by
  unfold afterPoint
  split
  case isTrue hnil =>
    subst hnil
    cases rest with
    | nil => rfl
    | cons c cs =>
      have hc : c ≠ '.' := fun h => hpoint (by rw [h]; rfl)
      unfold lexFraction
      split
      case h_1 heq =>
        cases heq
        exact absurd rfl hc
      case h_2 => rfl
  case isFalse hne =>
    change (if ((fs ++ rest).takeWhile Char.isDigit).isEmpty then none
      else some ((fs ++ rest).takeWhile Char.isDigit, (fs ++ rest).dropWhile Char.isDigit)) = _
    rw [takeWhile_digits hfs hstop, dropWhile_digits hfs hstop]
    simp [hne]

theorem lexExponent_none (h : Ended rest) : lexExponent rest = some (none, rest) := by
  cases rest with
  | nil => rfl
  | cons c cs =>
    obtain ⟨-, -, he, hE⟩ := h c rfl
    simp [lexExponent, he, hE]

theorem lexPower_digits (hds : Digits ds) (hrest : Stopped rest) :
    lexPower negative (ds ++ rest) =
      some (some (if negative then -(ofDigits ds : Int) else ofDigits ds), rest) := by
  unfold lexPower
  rw [takeWhile_digits hds.digit hrest, dropWhile_digits hds.digit hrest]
  simp [hds.ne_nil]

/-- The whole part of a number: no leading zero before another digit. -/
structure Whole (ds : List Char) : Prop extends Digits ds where
  leading : 1 < ds.length → ds.head? ≠ some '0'

theorem Whole.zero : Whole ['0'] where
  ne_nil := List.cons_ne_nil _ _
  digit c hc := by
    rw [List.mem_singleton.mp hc]
    rfl
  leading h := absurd h (by simp)

theorem lexUnsigned_whole (hds : Whole ds) (hstop : Stopped rest) :
    lexUnsigned negative (ds ++ rest) = do
      let (fs, cs) ← lexFraction rest
      let (power, cs) ← lexExponent cs
      return (⟨negative, ofDigits (ds ++ fs), power.getD 0 - fs.length,
        fs.isEmpty && power.isNone⟩, cs) := by
  have hlead : (ds.isEmpty || (ds.length > 1 && ds.head? == some '0')) = false := by
    have hne := hds.ne_nil
    have hleading := hds.leading
    simp only [Bool.or_eq_false_iff, List.isEmpty_eq_false_iff, Bool.and_eq_false_imp, decide_eq_true_eq,
      beq_eq_false_iff_ne]
    exact ⟨hne, hleading⟩
  unfold lexUnsigned
  rw [takeWhile_digits hds.digit hstop, dropWhile_digits hds.digit hstop]
  simp only [hlead]
  rfl

/-- A number without an exponent. -/
theorem lexUnsigned_plain (negative : Bool) (fs : List Char) (hds : Whole ds)
    (hfs : ∀ c ∈ fs, c.isDigit = true) (hrest : Ended rest) :
    lexUnsigned negative (ds ++ (afterPoint fs ++ rest)) =
      some (⟨negative, ofDigits (ds ++ fs), -fs.length, fs.isEmpty⟩, rest) := by
  have hpoint : rest.head? ≠ some '.' := fun h => (hrest '.' h).2.1 rfl
  rw [lexUnsigned_whole hds (stopped_afterPoint hrest.stopped),
    lexFraction_afterPoint hfs hrest.stopped hpoint]
  simp [lexExponent_none hrest]

/-- A number with an exponent after a mark and a sign. -/
theorem lexUnsigned_power {ps : List Char} {sign : Bool} (hds : Whole ds)
    (hfs : ∀ c ∈ fs, c.isDigit = true) (hps : Digits ps) (hrest : Ended rest) :
    lexUnsigned negative (ds ++ (afterPoint fs ++ ('e' :: (if sign then '-' else '+') :: (ps ++ rest)))) =
      some (⟨negative, ofDigits (ds ++ fs),
        (if sign then -(ofDigits ps : Int) else ofDigits ps) - fs.length, false⟩, rest) := by
  have hstop : Stopped ('e' :: (if sign then '-' else '+') :: (ps ++ rest)) := by
    rintro c ⟨⟩
    decide
  have hexponent : lexExponent ('e' :: (if sign then '-' else '+') :: (ps ++ rest)) =
      some (some (if sign then -(ofDigits ps : Int) else ofDigits ps), rest) := by
    cases sign with
    | false => exact lexPower_digits hps hrest.stopped
    | true => exact lexPower_digits hps hrest.stopped
  rw [lexUnsigned_whole hds (stopped_afterPoint hstop), lexFraction_afterPoint hfs hstop (by simp)]
  simp [hexponent]

/-- The number that a numeral is written as, without its sign. -/
def Numeral.decimal (n : Numeral) : Decimal := ⟨n.coefficient, n.exponent⟩

/-- Whatever sign stands before it and whatever comes after it, the text is read as this number. -/
def Reads (text : List Char) (r : ℚ) : Prop :=
  ∀ negative, ∃ n : Numeral, n.negative = negative ∧ n.decimal.toRat = r ∧
    ∀ rest, Ended rest → lexUnsigned negative (text ++ rest) = some (n, rest)

variable {n : Nat}

/-- Digits of which the first is not zero. -/
structure Significant (ds : List Char) : Prop extends Digits ds where
  leading : ds.head? ≠ some '0'

theorem Significant.whole (h : Significant ds) : Whole ds := ⟨h.toDigits, fun _ => h.leading⟩

theorem Significant.append (h : Significant ds) (hfs : ∀ c ∈ fs, c.isDigit = true) :
    Significant (ds ++ fs) := by
  obtain ⟨⟨hne, hdigit⟩, hleading⟩ := h
  refine ⟨⟨by simp [hne], ?_⟩, ?_⟩
  · intro c hc
    exact (List.mem_append.mp hc).elim (hdigit c) (hfs c)
  · rw [List.head?_append_of_ne_nil _ hne]
    exact hleading

theorem Significant.take (h : Significant ds) (hn : 0 < n) : Significant (ds.take n) := by
  obtain ⟨⟨hne, hdigit⟩, hleading⟩ := h
  refine ⟨⟨?_, fun c hc => hdigit c (List.mem_of_mem_take hc)⟩, ?_⟩
  · rw [Ne, List.take_eq_nil_iff]
    exact fun h' => h'.elim (by omega) hne
  · rw [List.head?_take, if_neg (by omega)]
    exact hleading

theorem isDigit_of_mem_zeros {c : Char} (h : c ∈ List.replicate n '0') : c.isDigit = true := by
  rw [List.eq_of_mem_replicate h]
  rfl

theorem head?_toDigits (hn : n ≠ 0) : (Nat.toDigits 10 n).head? ≠ some '0' := by
  induction n using Nat.strongRecOn with
  | ind n ih =>
    rw [Nat.toDigits_eq_if (by decide)]
    split
    case isTrue hlt =>
      have hdigit : ∀ k : Fin 10, k.val ≠ 0 → Nat.digitChar k.val ≠ '0' := by decide
      simpa using hdigit ⟨n, hlt⟩ hn
    case isFalse hge =>
      rw [List.head?_append_of_ne_nil _ Nat.toDigits_ne_nil]
      exact ih (n / 10) (by omega) (by omega)

theorem significant_toDigits (hn : n ≠ 0) : Significant (Nat.toDigits 10 n) :=
  ⟨.toDigits n, head?_toDigits hn⟩

/-- Only zeros are cut off at the end. -/
theorem exists_zeros (ds : List Char) :
    ∃ k, ds = (ds.reverse.dropWhile (· == '0')).reverse ++ List.replicate k '0' := by
  refine ⟨(ds.reverse.takeWhile (· == '0')).length, ?_⟩
  have hzeros : (ds.reverse.takeWhile (· == '0')) =
      List.replicate (ds.reverse.takeWhile (· == '0')).length '0' := by
    apply List.eq_replicate_of_mem
    intro c hc
    exact eq_of_beq (List.all_eq_true.mp List.all_takeWhile c hc)
  rw [← List.reverse_replicate, ← hzeros, ← List.reverse_append, List.takeWhile_append_dropWhile,
    List.reverse_reverse]

theorem reads_plain (fs : List Char) (hds : Whole ds) (hfs : ∀ c ∈ fs, c.isDigit = true) :
    Reads (ds ++ afterPoint fs) ((ofDigits (ds ++ fs) : ℚ) * 10 ^ (-fs.length : Int)) := by
  intro negative
  refine ⟨⟨negative, ofDigits (ds ++ fs), -fs.length, fs.isEmpty⟩, rfl, Decimal.toRat_eq _, ?_⟩
  intro rest hrest
  rw [List.append_assoc, lexUnsigned_plain negative fs hds hfs hrest]

theorem reads_power {ps : List Char} (sign : Bool) (hds : Whole ds)
    (hfs : ∀ c ∈ fs, c.isDigit = true) (hps : Digits ps) :
    Reads (ds ++ (afterPoint fs ++ ('e' :: (if sign then '-' else '+') :: ps)))
      ((ofDigits (ds ++ fs) : ℚ) *
        10 ^ ((if sign then -(ofDigits ps : Int) else ofDigits ps) - fs.length)) := by
  intro negative
  refine ⟨⟨negative, ofDigits (ds ++ fs), (if sign then -(ofDigits ps : Int) else ofDigits ps) - fs.length,
    false⟩, rfl, Decimal.toRat_eq _, ?_⟩
  intro rest hrest
  rw [List.append_assoc, List.append_assoc, List.cons_append, List.cons_append,
    lexUnsigned_power hds hfs hps hrest]

end Milp.Json

namespace Milp.NumberLayout

open Json Binary64

variable {d : Decimal} {ds : List Char} {point : Int}

/-- The digits of a decimal stand for it. -/
theorem digits_spec (hd : d.coefficient ≠ 0) : Significant (digits d).1 ∧
    d.toRat = (ofDigits (digits d).1 : ℚ) * 10 ^ ((digits d).2 - (digits d).1.length) := by
  obtain ⟨k, hk⟩ := exists_zeros (Nat.toDigits 10 d.coefficient)
  have hsignificant := significant_toDigits hd
  have hvalue := ofDigits_toDigits d.coefficient
  change Significant ((Nat.toDigits 10 d.coefficient).reverse.dropWhile (· == '0')).reverse ∧
    d.toRat = (ofDigits ((Nat.toDigits 10 d.coefficient).reverse.dropWhile (· == '0')).reverse : ℚ) *
      10 ^ (((Nat.toDigits 10 d.coefficient).length : Int) + d.exponent -
        ((Nat.toDigits 10 d.coefficient).reverse.dropWhile (· == '0')).reverse.length)
  revert hk hsignificant hvalue
  generalize ((Nat.toDigits 10 d.coefficient).reverse.dropWhile (· == '0')).reverse = ds
  intro hk hsignificant hvalue
  rw [hk] at hsignificant hvalue ⊢
  rw [ofDigits_append, ofDigits_zeros, List.length_replicate, Nat.add_zero] at hvalue
  have hne : ds ≠ [] := by
    rintro rfl
    exact hd (by rw [← hvalue]; rfl)
  refine ⟨⟨⟨hne, fun c hc => hsignificant.digit c (List.mem_append_left _ hc)⟩, ?_⟩, ?_⟩
  · have hlead := hsignificant.leading
    rw [List.head?_append_of_ne_nil _ hne] at hlead
    exact hlead
  · rw [Decimal.toRat_eq, ← hvalue, List.length_append, List.length_replicate]
    push_cast
    rw [show (ds.length : Int) + k + d.exponent - ds.length = k + d.exponent by omega,
      zpow_add₀ (by norm_num), zpow_natCast]
    ring

theorem toList_zeros (n : Nat) : (zeros n).toList = List.replicate n '0' := String.toList_ofList

theorem ofDigits_append_zeros (ds : List Char) (n : Nat) :
    ofDigits (ds ++ List.replicate n '0') = 10 ^ n * ofDigits ds := by
  rw [ofDigits_append, ofDigits_zeros, List.length_replicate, Nat.add_zero]

/-- Some zeros after the point, or no point at all. -/
theorem exists_afterPoint (pointed : Bool) :
    ∃ j, (if pointed then ".0" else "").toList = afterPoint (List.replicate j '0') := by
  cases pointed with
  | false => exact ⟨0, rfl⟩
  | true => exact ⟨1, rfl⟩

/-- All digits after the point, and zeros before them. -/
theorem reads_fraction (n : Nat) (hds : Digits ds) :
    Reads ("0." ++ zeros n ++ String.ofList ds).toList ((ofDigits ds : ℚ) * 10 ^ (-n - ds.length : Int)) := by
  have hfs : ∀ c ∈ List.replicate n '0' ++ ds, c.isDigit = true := fun c hc =>
    (List.mem_append.mp hc).elim isDigit_of_mem_zeros (hds.digit c)
  have htext : ("0." ++ zeros n ++ String.ofList ds).toList =
      ['0'] ++ afterPoint (List.replicate n '0' ++ ds) := by
    simp [afterPoint, hds.ne_nil, toList_zeros]
  have hvalue : ofDigits (['0'] ++ (List.replicate n '0' ++ ds)) = ofDigits ds := by
    rw [ofDigits_append, ofDigits_append (List.replicate n '0'), ofDigits_zeros]
    simp [ofDigits]
  have hreads := reads_plain _ Whole.zero hfs
  rw [hvalue, List.length_append, List.length_replicate] at hreads
  rw [htext, show (-n : Int) - ds.length = -((n + ds.length : Nat) : Int) by omega]
  exact hreads

/-- All digits before the point, and zeros up to it. -/
theorem reads_padded (k : Nat) (pointed : Bool) (hds : Significant ds) :
    Reads (String.ofList ds ++ zeros k ++ if pointed then ".0" else "").toList
      ((ofDigits ds : ℚ) * 10 ^ (k : Int)) := by
  obtain ⟨j, hj⟩ := exists_afterPoint pointed
  have hdigits : Whole (ds ++ List.replicate k '0') :=
    (hds.append fun _ hc => isDigit_of_mem_zeros hc).whole
  have hreads := reads_plain (List.replicate j '0') hdigits fun _ hc => isDigit_of_mem_zeros hc
  have hvalue : (ofDigits (ds ++ List.replicate k '0' ++ List.replicate j '0') : ℚ) * 10 ^ (-j : Int) =
      ofDigits ds * 10 ^ (k : Int) := by
    rw [ofDigits_append_zeros, ofDigits_append_zeros, zpow_neg, zpow_natCast, zpow_natCast]
    push_cast
    field_simp
  rw [List.length_replicate, hvalue] at hreads
  simpa [toList_zeros, hj] using hreads

/-- The point among the digits. -/
theorem reads_parted {n : Nat} (hn : 0 < n) (hlength : n < ds.length) (hds : Significant ds) :
    Reads (String.ofList (ds.take n) ++ "." ++ String.ofList (ds.drop n)).toList
      ((ofDigits ds : ℚ) * 10 ^ (n - ds.length : Int)) := by
  have hdrop : ∀ c ∈ ds.drop n, c.isDigit = true := fun c hc => hds.digit c (List.mem_of_mem_drop hc)
  have htext : (String.ofList (ds.take n) ++ "." ++ String.ofList (ds.drop n)).toList =
      ds.take n ++ afterPoint (ds.drop n) := by
    simp [afterPoint, hlength]
  have hreads := reads_plain _ (hds.take hn).whole hdrop
  rw [List.take_append_drop, List.length_drop] at hreads
  rw [htext, show (n : Int) - ds.length = -((ds.length - n : Nat) : Int) by omega]
  exact hreads

/-- Digits are written around the point so that they stand for the number. -/
theorem reads_positional {pointed : Bool} (hds : Significant ds) :
    Reads (writePositional pointed ds point).toList ((ofDigits ds : ℚ) * 10 ^ (point - ds.length)) := by
  unfold writePositional
  split
  case isTrue hsmall =>
    have hreads := reads_fraction (-point).toNat hds.toDigits
    rwa [show -((-point).toNat : Int) = point by omega] at hreads
  case isFalse hpositive =>
    obtain ⟨n, rfl⟩ := Int.eq_ofNat_of_zero_le (show 0 ≤ point by omega)
    simp only [Int.toNat_natCast]
    split
    case isTrue hwhole =>
      have hreads := reads_padded (n - ds.length) pointed hds
      rwa [Nat.cast_sub hwhole] at hreads
    case isFalse hpart => exact reads_parted (by omega) (by omega) hds

/-- So are they with an exponent, which is the power of ten of the first digit. -/
theorem reads_scientific (power : Int) (hds : Significant ds) :
    Reads (writeScientific ds power).toList ((ofDigits ds : ℚ) * 10 ^ (power + 1 - ds.length)) := by
  obtain ⟨⟨hne, hdigit⟩, -⟩ := hds
  cases ds with
  | nil => exact absurd rfl hne
  | cons d rest =>
    have hwhole : Whole [d] :=
      ⟨⟨by simp, fun c hc => hdigit c (List.mem_cons.mpr (.inl (List.mem_singleton.mp hc)))⟩, by simp⟩
    have hrest : ∀ c ∈ rest, c.isDigit = true := fun c hc => hdigit c (List.mem_cons_of_mem d hc)
    have hreads := reads_power (decide (power < 0)) hwhole hrest (.toDigits power.natAbs)
    have hpower : (if decide (power < 0) = true then -(ofDigits (Nat.toDigits 10 power.natAbs) : Int)
        else ofDigits (Nat.toDigits 10 power.natAbs)) = power := by
      rw [ofDigits_toDigits]
      simp only [decide_eq_true_eq]
      split <;> omega
    have htext : (writeScientific (d :: rest) power).toList = [d] ++ (afterPoint rest ++
        ('e' :: (if decide (power < 0) then '-' else '+') :: Nat.toDigits 10 power.natAbs)) := by
      unfold writeScientific afterPoint
      by_cases hsign : power < 0 <;> cases rest <;> simp [hsign]
    have hlength : power + 1 - ((rest.length + 1 : Nat) : Int) = power - rest.length := by omega
    rw [hpower] at hreads
    rw [htext, List.length_cons, hlength]
    exact hreads

/-- A number with its sign is read as the number without one. -/
theorem lexNumber_signed {text rest : List Char} {n : Numeral} {negative : Bool}
    (h : lexUnsigned negative (text ++ rest) = some (n, rest)) :
    lexNumber ((if negative then ['-'] else []) ++ text ++ rest) = some (n, rest) := by
  cases negative with
  | true => exact h
  | false =>
    change lexNumber (text ++ rest) = _
    unfold lexNumber
    split
    case h_1 cs heq =>
      rw [heq] at h
      cases h
    case h_2 => exact h

theorem toFloat_eq_signed (n : Numeral) : n.toFloat = signed n.negative (ofRat n.decimal.toRat) := by
  rw [← Decimal.toFloat_eq_ofRat]
  rfl

/-- Zero and its point. -/
theorem reads_zero (pointed : Bool) : Reads (if pointed then "0.0" else "0").toList 0 := by
  obtain ⟨j, hj⟩ := exists_afterPoint pointed
  have htext : (if pointed then "0.0" else "0").toList = ['0'] ++ afterPoint (List.replicate j '0') := by
    rw [← hj]
    cases pointed <;> rfl
  have hvalue : ofDigits (['0'] ++ List.replicate j '0') = 0 := by
    rw [ofDigits_append_zeros]
    exact Nat.mul_zero _
  have hreads := reads_plain (List.replicate j '0') Whole.zero fun _ hc => isDigit_of_mem_zeros hc
  rw [hvalue, Nat.cast_zero, zero_mul] at hreads
  rwa [htext]

/-- What is written for a double, after its sign, stands for a number that rounds to it. -/
theorem exists_reads (layout : NumberLayout) {x : Float} {negative : Bool} {mantissa : Nat}
    {exponent : Int} (hfinite : ofFloat x = .finite negative mantissa exponent)
    (hcanonical : Canonical mantissa exponent) :
    ∃ text r, (layout.render x).toList = (if negative then ['-'] else []) ++ text ∧ Reads text r ∧
      ofRat r = magnitude mantissa exponent := by
  have hsign : (if negative then "-" else "").toList = if negative then ['-'] else [] := by
    cases negative <;> rfl
  unfold render
  rw [hfinite]
  simp only
  by_cases hm : mantissa = 0
  · subst hm
    refine ⟨_, 0, ?_, reads_zero layout.pointed, ?_⟩
    · rw [if_pos rfl, String.toList_append, hsign]
    · rw [← hcanonical.ofRat, Nat.cast_zero, zero_mul]
  · obtain ⟨hreadsBack, hcoefficient⟩ :=
      Decimal.toFloat_shortest layout.tie (Nat.pos_of_ne_zero hm) hcanonical
    revert hreadsBack hcoefficient
    generalize Decimal.shortest layout.tie mantissa exponent = d
    intro hreadsBack hcoefficient
    obtain ⟨hdigits, hvalue⟩ := digits_spec hcoefficient
    rw [Decimal.toFloat_eq_ofRat] at hreadsBack
    rw [if_neg hm, String.toList_append, hsign]
    refine ⟨_, d.toRat, rfl, ?_, hreadsBack⟩
    rw [hvalue]
    split
    · exact reads_positional hdigits
    · have hscientific := reads_scientific ((digits d).2 - 1) hdigits
      rwa [Int.sub_add_cancel] at hscientific

/-- A finite double is written as a number that reads as that double, in every layout. -/
theorem exists_numeral (layout : NumberLayout) {x : Float} (hx : x.isFinite = true) :
    ∃ n : Numeral, n.toFloat = x ∧
      ∀ rest, Ended rest → lexNumber ((layout.render x).toList ++ rest) = some (n, rest) := by
  obtain ⟨negative, mantissa, exponent, hfinite⟩ := isFinite_iff_ofFloat.mp hx
  obtain ⟨hcanonical, hsigned⟩ := ofFloat_eq_finite hfinite
  obtain ⟨text, r, htext, hreads, hr⟩ := exists_reads layout hfinite hcanonical
  obtain ⟨n, hnegative, hvalue, hlex⟩ := hreads negative
  refine ⟨n, ?_, fun rest hrest => ?_⟩
  · rw [toFloat_eq_signed, hvalue, hr, hnegative, hsigned]
  · rw [htext]
    exact lexNumber_signed (hlex rest hrest)

end Milp.NumberLayout
