import Milp.Json.Value
import Milp.Proofs.Numerals

/-! The tokens of a value: its text has them in either layout, with whatever comes after it. -/
namespace Milp.Json

variable {rest cs : List Char} {ts : List Token} {t : Token} {x : Float}

theorem hexUnit_control (n : Fin 32) :
    hexUnit '0' '0' (hexDigit (n.val / 16)) (hexDigit (n.val % 16)) = some n.val := by
  revert n
  decide

/-- A character is read back from how it stands in a string. -/
theorem lexString_escape (acc : List Char) (c : Char) (cs : List Char) :
    lexString (some acc) 0 (escape c ++ cs) = lexString (some (c :: acc)) 0 cs := by
  unfold escape
  split
  case isTrue h => subst h; rfl
  split
  case isTrue h => subst h; rfl
  split
  case isTrue h => subst h; rfl
  split
  case isTrue h => subst h; rfl
  split
  case isTrue h => subst h; rfl
  split
  case isTrue h => subst h; rfl
  split
  case isTrue h => subst h; rfl
  split
  case isTrue hcontrol =>
    have hhex := hexUnit_control ⟨c.toNat, hcontrol⟩
    have hhigh : isHighSurrogate c.toNat = false := by
      unfold isHighSurrogate
      simp
      omega
    have hlow : isLowSurrogate c.toNat = false := by
      unfold isLowSurrogate
      simp
      omega
    simp [lexString, hhex, hhigh, hlow]
  case isFalse hquote hslash _ _ _ _ _ hprintable =>
    simp [lexString, hquote, hslash, hprintable]

theorem lexString_escapes (acc s cs : List Char) :
    lexString (some acc) 0 (s.flatMap escape ++ '"' :: cs) =
      some (some (String.ofList (acc.reverse ++ s)), cs) := by
  induction s generalizing acc with
  | nil => simp [lexString]
  | cons c s ih =>
    rw [List.flatMap_cons, List.append_assoc, lexString_escape, ih]
    simp

/-- With enough rounds the text has these tokens. -/
def Lexes (cs : List Char) (ts : List Token) : Prop := ∀ fuel, cs.length ≤ fuel → tokensFrom fuel cs = ts

theorem Lexes.nil : Lexes [] [] := by
  intro fuel _
  cases fuel <;> rfl

/-- One token in front of the others takes one round. -/
theorem Lexes.cons (h : Lexes rest ts) (hlt : rest.length < cs.length)
    (hstep : ∀ fuel, tokensFrom (fuel + 1) cs = t :: tokensFrom fuel rest) : Lexes cs (t :: ts) := by
  intro fuel hfuel
  cases fuel with
  | zero => omega
  | succ fuel => rw [hstep, h fuel (by omega)]

theorem Lexes.blank {c : Char} (h : Lexes rest ts) (hc : isBlank c = true) : Lexes (c :: rest) ts := by
  intro fuel hfuel
  cases fuel with
  | zero => simp at hfuel
  | succ fuel =>
    rw [List.length_cons] at hfuel
    simp only [tokensFrom, hc, if_true]
    exact h fuel (by omega)

theorem Lexes.quote (h : Lexes rest ts) (s : String) :
    Lexes ((quote s).toList ++ rest) (.string (some s) :: ts) := by
  have htext : (Json.quote s).toList ++ rest = '"' :: (s.toList.flatMap escape ++ '"' :: rest) := by
    simp [Json.quote]
  rw [htext]
  refine h.cons (by simp; omega) fun fuel => ?_
  have hlex := lexString_escapes [] s.toList rest
  simp [tokensFrom, isBlank, hlex]

/-- A number begins with a sign or a digit. -/
theorem exists_cons_of_lexNumber {n : Numeral} (h : lexNumber cs = some (n, rest)) :
    ∃ c tail, cs = c :: tail ∧ (c = '-' ∨ c.isDigit = true) := by
  cases cs with
  | nil => cases h
  | cons c tail =>
    refine ⟨c, tail, rfl, ?_⟩
    by_cases hminus : c = '-'
    · exact .inl hminus
    · right
      by_contra hdigit
      have hlex : lexNumber (c :: tail) = lexUnsigned false (c :: tail) := by
        unfold lexNumber
        split
        case h_1 heq =>
          cases heq
          exact absurd rfl hminus
        case h_2 => rfl
      rw [hlex] at h
      simp [lexUnsigned, hdigit] at h

theorem Lexes.number {n : Numeral} (h : Lexes rest ts) (hlt : rest.length < cs.length)
    (hn : lexNumber cs = some (n, rest)) : Lexes cs (.number n :: ts) := by
  obtain ⟨c, tail, rfl, hc⟩ := exists_cons_of_lexNumber hn
  refine h.cons hlt fun fuel => ?_
  have hother (d : Char) (hd : (d == '-' || d.isDigit) = false) : c ≠ d := by
    rintro rfl
    rcases hc with rfl | hc
    · cases hd
    · simp [hc] at hd
  have hblank : isBlank c = false := by
    simp [isBlank, hother ' ' rfl, hother '\n' rfl, hother '\t' rfl, hother '\r' rfl]
  rw [tokensFrom, hblank, hn]
  · rfl
  all_goals exact hother _ rfl

/-- The token of a double. What is not finite is written as `null`. -/
def floatToken (x : Float) : Token :=
  match lexNumber (NumberLayout.document.render x).toList with
  | some (n, _) => .number n
  | none => .null

/-- The token of a whole number. -/
def intToken (n : Int) : Token := .number ⟨decide (n < 0), n.natAbs, 0, true⟩

mutual

/-- The tokens of a value. -/
def spelling : Json → List Token
  | .null => [.null]
  | .bool b => [.bool b]
  | .int n => [intToken n]
  | .float x => [floatToken x]
  | .string s => [.string (some s)]
  | .array [] => [.openBracket, .closeBracket]
  | .array (first :: rest) => .openBracket :: (spelling first ++ (spellingItems rest ++ [.closeBracket]))
  | .object [] => [.openBrace, .closeBrace]
  | .object ((key, value) :: rest) =>
    .openBrace :: .string (some key) :: .colon :: (spelling value ++ (spellingMembers rest ++ [.closeBrace]))

def spellingItems : List Json → List Token
  | [] => []
  | v :: rest => .comma :: (spelling v ++ spellingItems rest)

def spellingMembers : List (String × Json) → List Token
  | [] => []
  | (key, v) :: rest => .comma :: .string (some key) :: .colon :: (spelling v ++ spellingMembers rest)

end

theorem exists_floatToken (hx : x.isFinite = true) : ∃ n : Numeral, n.toFloat = x ∧
    floatToken x = .number n ∧
      ∀ rest, Ended rest → lexNumber ((NumberLayout.document.render x).toList ++ rest) = some (n, rest) := by
  obtain ⟨n, hn, hlex⟩ := NumberLayout.exists_numeral .document hx
  refine ⟨n, hn, ?_, hlex⟩
  have hself := hlex [] nofun
  rw [List.append_nil] at hself
  unfold floatToken
  rw [hself]

theorem Ended.cons {c : Char} (hc : (c.isDigit || c == '.' || c == 'e' || c == 'E') = false) :
    Ended (c :: rest) := by
  rintro d ⟨⟩
  simpa [and_assoc] using hc

theorem Lexes.mark {c : Char} {t : Token} (h : Lexes rest ts)
    (hstep : ∀ fuel, tokensFrom (fuel + 1) (c :: rest) = t :: tokensFrom fuel rest) :
    Lexes (c :: rest) (t :: ts) := h.cons (Nat.lt_succ_self _) hstep

theorem Lexes.null (h : Lexes rest ts) : Lexes ("null".toList ++ rest) (.null :: ts) :=
  h.cons (by simp; omega) fun _ => rfl

theorem Lexes.bool (h : Lexes rest ts) (b : Bool) :
    Lexes ((if b then "true" else "false").toList ++ rest) (.bool b :: ts) := by
  cases b with
  | false => exact h.cons (by simp; omega) fun _ => rfl
  | true => exact h.cons (by simp; omega) fun _ => rfl

theorem Lexes.numeral {text : List Char} {n : Numeral} (h : Lexes rest ts) (hrest : Ended rest)
    (hn : ∀ rest, Ended rest → lexNumber (text ++ rest) = some (n, rest)) :
    Lexes (text ++ rest) (.number n :: ts) := by
  have hne : text ≠ [] := by
    rintro rfl
    have hself := hn [] nofun
    cases hself
  have hpos := List.length_pos_iff.mpr hne
  exact h.number (by rw [List.length_append]; omega) (hn rest hrest)

theorem lexNumber_toString (n : Int) (hrest : Ended rest) :
    lexNumber ((toString n).toList ++ rest) = some (⟨decide (n < 0), n.natAbs, 0, true⟩, rest) := by
  have hwhole (m : Nat) : Whole (Nat.toDigits 10 m) := by
    refine ⟨.toDigits m, fun hlength => head?_toDigits ?_⟩
    rintro rfl
    simp at hlength
  have hreads (negative : Bool) (m : Nat) : lexUnsigned negative (Nat.toDigits 10 m ++ rest) =
      some (⟨negative, m, 0, true⟩, rest) := by
    have hplain := lexUnsigned_plain negative [] (hwhole m) nofun hrest
    rw [List.append_nil, ofDigits_toDigits] at hplain
    exact hplain
  cases n with
  | ofNat m =>
    have htext : (toString (Int.ofNat m)).toList = Nat.toDigits 10 m := Nat.toList_repr
    rw [htext]
    exact NumberLayout.lexNumber_signed (hreads false m)
  | negSucc m =>
    have htext : (toString (Int.negSucc m)).toList = '-' :: Nat.toDigits 10 (m + 1) := by
      change ("-" ++ (m + 1).repr).toList = _
      simp
    have hsign : decide (Int.negSucc m < 0) = true := decide_eq_true (Int.negSucc_lt_zero m)
    rw [htext, hsign]
    exact hreads true (m + 1)

theorem render_of_not_finite (hx : x.isFinite = false) : NumberLayout.document.render x = "null" := by
  unfold NumberLayout.render
  split
  case h_1 => rfl
  case h_2 => split <;> rfl
  case h_3 negative mantissa exponent h =>
    have hfinite := Binary64.isFinite_iff_ofFloat.mpr ⟨_, _, _, h⟩
    rw [hx] at hfinite
    cases hfinite

theorem Lexes.float (h : Lexes rest ts) (hrest : Ended rest) (x : Float) :
    Lexes ((NumberLayout.document.render x).toList ++ rest) (floatToken x :: ts) := by
  cases hx : x.isFinite with
  | false =>
    have htoken : floatToken x = .null := by
      unfold floatToken
      rw [render_of_not_finite hx]
      rfl
    rw [htoken, render_of_not_finite hx]
    exact h.null
  | true =>
    obtain ⟨n, -, htoken, hlex⟩ := exists_floatToken hx
    rw [htoken]
    exact h.numeral hrest hlex

theorem Lexes.int (h : Lexes rest ts) (hrest : Ended rest) (n : Int) :
    Lexes ((toString n).toList ++ rest) (intToken n :: ts) :=
  h.numeral hrest fun _ => lexNumber_toString n

mutual

/-- The text of a value without white space has the tokens of the value. -/
theorem lexes_compact (v : Json) {rest : List Char} {ts : List Token} (h : Lexes rest ts)
    (hrest : Ended rest) :
    Lexes (v.compact.toList ++ rest) (v.spelling ++ ts) := by
  match v with
  | .null => exact h.null
  | .bool b => exact h.bool b
  | .int n => exact h.int hrest n
  | .float x => exact h.float hrest x
  | .string s => exact h.quote s
  | .array [] => exact (h.mark (c := ']') fun _ => rfl).mark (c := '[') fun _ => rfl
  | .object [] => exact (h.mark (c := '\x7d') fun _ => rfl).mark (c := '\x7b') fun _ => rfl
  | .array (first :: others) =>
    have hclose : Lexes (']' :: rest) (.closeBracket :: ts) := h.mark fun _ => rfl
    obtain ⟨hothers, hended⟩ := lexes_compactItems others hclose (.cons (c := ']') rfl)
    have hfirst := lexes_compact first hothers hended
    simpa [compact, spelling] using hfirst.mark (c := '[') fun _ => rfl
  | .object ((key, value) :: others) =>
    have hclose : Lexes ('\x7d' :: rest) (.closeBrace :: ts) := h.mark fun _ => rfl
    obtain ⟨hothers, hended⟩ := lexes_compactMembers others hclose (.cons (c := '\x7d') rfl)
    have hvalue := lexes_compact value hothers hended
    have hkey := (hvalue.mark (c := ':') fun _ => rfl).quote key
    simpa [compact, spelling] using hkey.mark (c := '\x7b') fun _ => rfl

theorem lexes_compactItems (items : List Json) {rest : List Char} {ts : List Token} (h : Lexes rest ts)
    (hrest : Ended rest) :
    Lexes ((compactItems items).toList ++ rest) (spellingItems items ++ ts) ∧
      Ended ((compactItems items).toList ++ rest) := by
  match items with
  | [] => exact ⟨h, hrest⟩
  | v :: others =>
    obtain ⟨hothers, hended⟩ := lexes_compactItems others h hrest
    have hv := (lexes_compact v hothers hended).mark (c := ',') fun _ => rfl
    have htext : (compactItems (v :: others)).toList ++ rest =
        ',' :: (v.compact.toList ++ ((compactItems others).toList ++ rest)) := by
      simp [compactItems]
    rw [htext]
    exact ⟨by simpa [spellingItems] using hv, .cons rfl⟩

theorem lexes_compactMembers (members : List (String × Json)) {rest : List Char} {ts : List Token}
    (h : Lexes rest ts) (hrest : Ended rest) :
    Lexes ((compactMembers members).toList ++ rest) (spellingMembers members ++ ts) ∧
      Ended ((compactMembers members).toList ++ rest) := by
  match members with
  | [] => exact ⟨h, hrest⟩
  | (key, v) :: others =>
    obtain ⟨hothers, hended⟩ := lexes_compactMembers others h hrest
    have hkey := ((lexes_compact v hothers hended).mark (c := ':') fun _ => rfl).quote key
    have hv := hkey.mark (c := ',') fun _ => rfl
    have htext : (compactMembers ((key, v) :: others)).toList ++ rest =
        ',' :: ((quote key).toList ++ ':' ::
          (v.compact.toList ++ ((compactMembers others).toList ++ rest))) := by
      simp [compactMembers]
    rw [htext]
    exact ⟨by simpa [spellingMembers] using hv, .cons rfl⟩

end

theorem Lexes.newLine (h : Lexes rest ts) (depth : Nat) :
    Lexes ((newLine depth).toList ++ rest) ts := by
  have hblanks (n : Nat) : Lexes (List.replicate n ' ' ++ rest) ts := by
    induction n with
    | zero => exact h
    | succ n ih => exact ih.blank rfl
  have htext : (Json.newLine depth).toList ++ rest = '\n' :: (List.replicate (2 * depth) ' ' ++ rest) := by
    simp [Json.newLine]
  rw [htext]
  exact (hblanks _).blank rfl

theorem ended_newLine (depth : Nat) : Ended ((newLine depth).toList ++ rest) := by
  have htext : (newLine depth).toList ++ rest = '\n' :: (List.replicate (2 * depth) ' ' ++ rest) := by
    simp [newLine]
  rw [htext]
  exact .cons rfl

mutual

/-- The text of a value over several lines has the same tokens. -/
theorem lexes_pretty (depth : Nat) (v : Json) {rest : List Char} {ts : List Token} (h : Lexes rest ts)
    (hrest : Ended rest) : Lexes ((v.pretty depth).toList ++ rest) (v.spelling ++ ts) := by
  match v with
  | .null => exact h.null
  | .bool b => exact h.bool b
  | .int n => exact h.int hrest n
  | .float x => exact h.float hrest x
  | .string s => exact h.quote s
  | .array [] =>
    have hclose : Lexes (']' :: rest) (.closeBracket :: ts) := h.mark fun _ => rfl
    simpa [pretty, atom, spelling] using hclose.mark (c := '[') fun _ => rfl
  | .object [] =>
    have hclose : Lexes ('\x7d' :: rest) (.closeBrace :: ts) := h.mark fun _ => rfl
    simpa [pretty, atom, spelling] using hclose.mark (c := '\x7b') fun _ => rfl
  | .array (first :: others) =>
    have hclose : Lexes (']' :: rest) (.closeBracket :: ts) := h.mark fun _ => rfl
    obtain ⟨hothers, hended⟩ :=
      lexes_prettyItems (depth + 1) others (hclose.newLine depth) (ended_newLine depth)
    have hfirst := (lexes_pretty (depth + 1) first hothers hended).newLine (depth + 1)
    simpa [pretty, spelling] using hfirst.mark (c := '[') fun _ => rfl
  | .object ((key, value) :: others) =>
    have hclose : Lexes ('\x7d' :: rest) (.closeBrace :: ts) := h.mark fun _ => rfl
    obtain ⟨hothers, hended⟩ :=
      lexes_prettyMembers (depth + 1) others (hclose.newLine depth) (ended_newLine depth)
    have hvalue := (lexes_pretty (depth + 1) value hothers hended).blank (c := ' ') rfl
    have hkey := ((hvalue.mark (c := ':') fun _ => rfl).quote key).newLine (depth + 1)
    simpa [pretty, spelling] using hkey.mark (c := '\x7b') fun _ => rfl

theorem lexes_prettyItems (depth : Nat) (items : List Json) {rest : List Char} {ts : List Token}
    (h : Lexes rest ts) (hrest : Ended rest) :
    Lexes ((prettyItems depth items).toList ++ rest) (spellingItems items ++ ts) ∧
      Ended ((prettyItems depth items).toList ++ rest) := by
  match items with
  | [] => exact ⟨h, hrest⟩
  | v :: others =>
    obtain ⟨hothers, hended⟩ := lexes_prettyItems depth others h hrest
    have hv := ((lexes_pretty depth v hothers hended).newLine depth).mark (c := ',') fun _ => rfl
    have htext : (prettyItems depth (v :: others)).toList ++ rest =
        ',' :: ((newLine depth).toList ++ ((v.pretty depth).toList ++
          ((prettyItems depth others).toList ++ rest))) := by
      simp [prettyItems]
    rw [htext]
    exact ⟨by simpa [spellingItems] using hv, .cons rfl⟩

theorem lexes_prettyMembers (depth : Nat) (members : List (String × Json)) {rest : List Char}
    {ts : List Token} (h : Lexes rest ts) (hrest : Ended rest) :
    Lexes ((prettyMembers depth members).toList ++ rest) (spellingMembers members ++ ts) ∧
      Ended ((prettyMembers depth members).toList ++ rest) := by
  match members with
  | [] => exact ⟨h, hrest⟩
  | (key, v) :: others =>
    obtain ⟨hothers, hended⟩ := lexes_prettyMembers depth others h hrest
    have hvalue := (lexes_pretty depth v hothers hended).blank (c := ' ') rfl
    have hkey := ((hvalue.mark (c := ':') fun _ => rfl).quote key).newLine depth
    have hv := hkey.mark (c := ',') fun _ => rfl
    have htext : (prettyMembers depth ((key, v) :: others)).toList ++ rest =
        ',' :: ((newLine depth).toList ++ ((quote key).toList ++ ':' :: ' ' ::
          ((v.pretty depth).toList ++ ((prettyMembers depth others).toList ++ rest)))) := by
      simp [prettyMembers]
    rw [htext]
    exact ⟨by simpa [spellingMembers] using hv, .cons rfl⟩

end

/-- A text laid out in either way is read as the tokens of the value. -/
theorem tokens_compact (v : Json) : tokens v.compact = v.spelling := by
  have h := lexes_compact v Lexes.nil nofun
  rw [List.append_nil, List.append_nil] at h
  exact h _ (Nat.le_of_eq String.length_toList)

theorem tokens_pretty (v : Json) : tokens (v.pretty 0) = v.spelling := by
  have h := lexes_pretty 0 v Lexes.nil nofun
  rw [List.append_nil, List.append_nil] at h
  exact h _ (Nat.le_of_eq String.length_toList)

end Milp.Json
