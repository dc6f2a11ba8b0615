import SymbolPatterns.Json.Printer
import SymbolPatterns.Json.Token

/-!
Strings and integers are read back from their written form. A string ends at its
closing quote whatever follows; an integer ends where no digit, point or
exponent follows.
-/

namespace SymbolPatterns.Json

private theorem hexQuad_control : ∀ n < 32, ∀ rest : List Char,
    hexQuad ('0' :: '0' :: hexDigit (n / 16) :: hexDigit (n % 16) :: rest) = .ok (n, rest) := by
  have hdigits : ∀ n < 16, hexValue? (hexDigit n) = some n := by decide
  intro n hn rest
  have hzero : hexValue? '0' = some 0 := by decide
  have hhigh := hdigits (n / 16) (by omega)
  have hlow := hdigits (n % 16) (by omega)
  simp only [hexQuad, hzero, hhigh, hlow]
  congr 2
  omega

/-- A character is read back from what is written for it, in one step, whether
it is written as it is or with an escape. -/
theorem stringChars_escaped (c : Char) (bound : List Char) (first : Char) (rest : List Char) :
    stringChars (first :: bound) (escaped c ++ rest) =
      (stringChars bound rest).map fun (chars, rest) => (c :: chars, rest) := by
  have hmap : ∀ result : Except Fault (List Char × List Char),
      (do let (chars, rest) ← result
          Except.ok (c :: chars, rest)) =
        result.map fun (chars, rest) => (c :: chars, rest) := by
    intro result
    cases result <;> rfl
  unfold escaped
  split
  all_goals try exact hmap _
  next hquote hbackslash _ _ _ _ _ =>
    split
    · next hcontrol =>
      have hquad := hexQuad_control c.toNat hcontrol rest
      have hescape : escape ('u' :: '0' :: '0' :: hexDigit (c.toNat / 16) ::
          hexDigit (c.toNat % 16) :: rest) = .ok (c, rest) := by
        have hlow : ¬(0xdc00 ≤ c.toNat ∧ c.toNat ≤ 0xdfff) := by omega
        have hplain : c.toNat < 0xd800 ∨ 0xdfff < c.toNat := by omega
        simp [escape, hquad, bind, Except.bind, hlow, hplain, Char.ofNat_toNat]
      simp only [List.cons_append, List.nil_append, stringChars]
      rw [if_neg (by decide), if_pos trivial, hescape]
      exact hmap _
    · next hcontrol =>
      simp only [List.cons_append, List.nil_append, stringChars]
      rw [if_neg hquote, if_neg hbackslash, if_neg hcontrol]
      exact hmap _

theorem stringChars_flatMap_escaped {chars bound : List Char} (rest : List Char)
    (h : chars.length < bound.length) :
    stringChars bound (chars.flatMap escaped ++ '"' :: rest) = .ok (chars, rest) := by
  induction chars generalizing bound with
  | nil =>
      cases bound with
      | nil => simp at h
      | cons first bound => simp [stringChars]
  | cons c chars ih =>
      cases bound with
      | nil => simp at h
      | cons first bound =>
          simp only [List.length_cons] at h
          rw [List.flatMap_cons, List.append_assoc, stringChars_escaped, ih (by omega)]
          rfl

private theorem length_le_flatMap_escaped (chars : List Char) :
    chars.length ≤ (chars.flatMap escaped).length := by
  have hone : ∀ c, 0 < (escaped c).length := by
    intro c
    unfold escaped
    split
    all_goals try simp
    split <;> simp
  induction chars with
  | nil => simp
  | cons c chars ih =>
      have hc := hone c
      simp only [List.flatMap_cons, List.length_cons, List.length_append]
      omega

/-- A string is read back from its text without the opening quote, which the
reader has taken already to see that it is a string. -/
theorem stringAfter_text (text : String) (rest : List Char) :
    stringAfter (text.toList.flatMap escaped ++ '"' :: rest) = .ok (text, rest) := by
  have hbound : text.toList.length <
      (text.toList.flatMap escaped ++ '"' :: rest).length := by
    have hle := length_le_flatMap_escaped text.toList
    simp only [List.length_append, List.length_cons]
    omega
  rw [stringAfter, stringChars_flatMap_escaped rest hbound]
  simp [bind, Except.bind, pure, Except.pure]

/-- What may follow a number: nothing that would go on with it. A digit would
make another number of it, and so would a point or an exponent. -/
def EndsNumber (rest : List Char) : Prop :=
  ∀ c tail, rest = c :: tail → isDigit c = false ∧ c ≠ '.' ∧ c ≠ 'e' ∧ c ≠ 'E'

theorem isDigit_of_mem_natText {n : Nat} {c : Char} (h : c ∈ natText n) : isDigit c = true :=
  Nat.isDigit_of_mem_toDigits (by decide) (by decide) h

theorem takeWhile_digits {ds rest : List Char} (hds : ∀ c ∈ ds, isDigit c = true)
    (hrest : EndsNumber rest) :
    (ds ++ rest).takeWhile isDigit = ds ∧ (ds ++ rest).dropWhile isDigit = rest := by
  have hstop : rest.takeWhile isDigit = [] ∧ rest.dropWhile isDigit = rest := by
    cases rest with
    | nil => exact ⟨rfl, rfl⟩
    | cons c tail =>
        have hc := (hrest c tail rfl).1
        simp [hc]
  constructor
  · rw [List.takeWhile_append_of_pos hds, hstop.1, List.append_nil]
  · rw [List.dropWhile_append_of_pos hds, hstop.2]

theorem digits_append {ds rest : List Char} (hne : ds ≠ []) (hds : ∀ c ∈ ds, isDigit c = true)
    (hrest : EndsNumber rest) : digits (ds ++ rest) = .ok (ds, rest) := by
  obtain ⟨htake, hdrop⟩ := takeWhile_digits hds hrest
  cases ds with
  | nil => exact absurd rfl hne
  | cons c ds =>
      have hc := hds c List.mem_cons_self
      simp only [List.cons_append] at htake hdrop ⊢
      simp only [digits, hc, if_true, htake, hdrop]

private theorem head_natText {n : Nat} (h : 0 < n) {c : Char} {ds : List Char}
    (hds : natText n = c :: ds) : c ≠ '0' := by
  induction n using Nat.strongRecOn generalizing ds with
  | ind n ih =>
      rcases Nat.lt_or_ge n 10 with hlt | hge
      · rw [natText, Nat.toDigits_of_lt_base hlt] at hds
        obtain ⟨rfl, -⟩ := List.cons.inj hds
        have hdigit : ∀ m < 10, 0 < m → Nat.digitChar m ≠ '0' := by decide
        exact hdigit n hlt h
      · rw [natText, Nat.toDigits_of_base_le (by decide) hge] at hds
        cases hfront : natText (n / 10) with
        | nil => exact absurd hfront Nat.toDigits_ne_nil
        | cons first front =>
            rw [natText] at hfront
            rw [hfront] at hds
            obtain ⟨rfl, -⟩ := List.cons.inj hds
            exact ih (n / 10) (by omega) (by omega) hfront

theorem wholeDigits_natText (n : Nat) {rest : List Char} (hrest : EndsNumber rest) :
    wholeDigits (natText n ++ rest) = .ok (natText n, rest) := by
  have hdigits : digits (natText n ++ rest) = .ok (natText n, rest) :=
    digits_append Nat.toDigits_ne_nil (fun c hc => isDigit_of_mem_natText hc) hrest
  rcases Nat.eq_zero_or_pos n with rfl | hpos
  · have hzero : natText 0 = ['0'] := Nat.toDigits_zero 10
    rw [hzero] at hdigits ⊢
    cases rest with
    | nil => exact hdigits
    | cons c tail =>
        have hc := (hrest c tail rfl).1
        simp [wholeDigits, hc]
  · unfold wholeDigits
    split
    · next c tail heq =>
      cases htext : natText n with
      | nil => exact absurd htext Nat.toDigits_ne_nil
      | cons first ds =>
          rw [htext, List.cons_append] at heq
          exact absurd (List.cons.inj heq).1 (head_natText hpos htext)
    · exact hdigits

/-- Digits are added up as long as the number that they make fits. Beyond that
they would count as an exponent, which does not happen to an integer in range. -/
theorem addWhole_eq {d : Scaled} (ds : List Char) (hexponent : d.exponent = 0)
    (hfits : Nat.ofDigitChars 10 ds d.significand ≤ greatestInteger) :
    d.addWhole ds = ⟨Nat.ofDigitChars 10 ds d.significand, 0⟩ := by
  induction ds generalizing d with
  | nil =>
      obtain ⟨significand, exponent⟩ := d
      obtain rfl : exponent = 0 := hexponent
      simp [Scaled.addWhole]
  | cons c ds ih =>
      have hnext : d.significand * 10 + digitValue c =
          10 * d.significand + (c.toNat - '0'.toNat) := by
        rw [Nat.mul_comm]
        rfl
      rw [Nat.ofDigitChars_cons] at hfits ⊢
      have hgrows : 10 * d.significand + (c.toNat - '0'.toNat) ≤
          Nat.ofDigitChars 10 ds (10 * d.significand + (c.toNat - '0'.toNat)) := by
        rw [Nat.ofDigitChars_eq_ofDigitChars_zero]
        have hpow : 0 < 10 ^ ds.length := Nat.pow_pos (by decide)
        have hmul := Nat.le_mul_of_pos_left (10 * d.significand + (c.toNat - '0'.toNat)) hpow
        omega
      unfold Scaled.addWhole
      simp only [hnext]
      rw [if_neg (by omega)]
      exact ih hexponent hfits

theorem pointPart_ends {rest : List Char} (h : EndsNumber rest) :
    pointPart rest = .ok (none, rest) := by
  unfold pointPart
  split
  · exact absurd rfl (h _ _ rfl).2.1
  · rfl

theorem exponentPart_ends {rest : List Char} (h : EndsNumber rest) :
    exponentPart rest = .ok (none, rest) := by
  unfold exponentPart
  split
  · next c tail =>
    have hc := h c tail rfl
    rw [if_neg (by simp [hc.2.2])]
  · rfl

/-- An integer is read back from its digits. A zero with a sign is left out:
it is read as a number with a fraction. -/
theorem numberAfter_natText (negative : Bool) {n : Nat} {rest : List Char}
    (hfits : n ≤ greatestInteger) (hsign : negative = true → 0 < n ∧ leastInteger ≤ -(n : Int))
    (hrest : EndsNumber rest) :
    numberAfter negative (natText n ++ rest) =
      .ok (.integer (if negative then -(n : Int) else n), rest) := by
  have hvalue : Nat.ofDigitChars 10 (natText n) 0 = n := Nat.ofDigitChars_ten_toDigits
  have hscaled : Scaled.addWhole ⟨0, 0⟩ (natText n) = ⟨n, 0⟩ := by
    have h : Scaled.addWhole ⟨0, 0⟩ (natText n) = ⟨Nat.ofDigitChars 10 (natText n) 0, 0⟩ :=
      addWhole_eq (natText n) rfl (by rw [hvalue]; exact hfits)
    rwa [hvalue] at h
  have hnumber : numberOf negative (natText n) none none =
      .ok (.integer (if negative then -(n : Int) else n)) := by
    unfold numberOf
    simp only [hscaled]
    cases negative with
    | false => simp
    | true =>
        obtain ⟨hpos, hleast⟩ := hsign rfl
        have hn : n ≠ 0 := by omega
        have hnot : ¬-(n : Int) < leastInteger := by omega
        simp [hn, hnot]
  simp [numberAfter, wholeDigits_natText n hrest, pointPart_ends hrest, exponentPart_ends hrest,
    hnumber, bind, Except.bind, pure, Except.pure]

end SymbolPatterns.Json
