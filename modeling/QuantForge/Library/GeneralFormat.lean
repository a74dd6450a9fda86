import Mathlib.Data.List.DropRight
import QuantForge.Library.JsonText
import QuantForge.Library.Significant

/-! How `%g` writes a number, and what a reader of JSON numbers makes of it. -/
namespace QuantForge.Library

def trimZeros (digits : List Char) : List Char := digits.rdropWhile (· == '0')

def fractionText (digits : List Char) : List Char :=
  match trimZeros digits with
  | [] => []
  | c :: rest => '.' :: c :: rest

def exponentText (e : Int) : List Char :=
  (if e < 0 then '-' else '+') ::
    if e.natAbs < 10 then '0' :: Nat.toDigits 10 e.natAbs else Nat.toDigits 10 e.natAbs

/-- The number is written out when its exponent is from -4 up to the number of its digits. -/
def Scientific.text {p : Nat} (s : Scientific p) : List Char :=
  let digits := Nat.toDigits 10 s.significand
  if -4 ≤ s.exponent ∧ s.exponent ≤ p then
    if 0 ≤ s.exponent then
      digits.take (s.exponent.toNat + 1) ++ fractionText (digits.drop (s.exponent.toNat + 1))
    else '0' :: fractionText (List.replicate (-s.exponent - 1).toNat '0' ++ digits)
  else digits.take 1 ++ fractionText (digits.drop 1) ++ 'e' :: exponentText s.exponent

def general (p : Nat) (q : ℚ) : List Char :=
  if h : 0 < q then (Scientific.ofPos p q h).text
  else if h : 0 < -q then '-' :: (Scientific.ofPos p (-q) h).text
  else ['0']

section Digits

variable {digits whole : List Char}

theorem trimZeros_append (digits : List Char) :
    ∃ k, digits = trimZeros digits ++ List.replicate k '0' := by
  refine ⟨(digits.rtakeWhile (· == '0')).length, ?_⟩
  have hzeros : digits.rtakeWhile (· == '0') =
      List.replicate (digits.rtakeWhile (· == '0')).length '0' :=
    List.eq_replicate_of_mem fun c hc => by simpa using List.mem_rtakeWhile_imp hc
  rw [← hzeros]
  exact List.rdropWhile_append_rtakeWhile.symm

theorem mem_of_mem_trimZeros {c : Char} (h : c ∈ trimZeros digits) : c ∈ digits :=
  (List.rdropWhile_prefix _ _).subset h

theorem ofDigitChars_trimZeros (whole digits : List Char) :
    (Nat.ofDigitChars 10 (whole ++ trimZeros digits) 0 : ℚ) / 10 ^ (trimZeros digits).length =
      Nat.ofDigitChars 10 (whole ++ digits) 0 / 10 ^ digits.length := by
  obtain ⟨k, hk⟩ := trimZeros_append digits
  conv_rhs => rw [hk]
  rw [← List.append_assoc, Nat.ofDigitChars_append (l := whole ++ trimZeros digits),
    Nat.ofDigitChars_replicate_zero, List.length_append, List.length_replicate, pow_add]
  push_cast
  field_simp

end Digits

theorem isDigit_of_mem_toDigits {n : Nat} {c : Char} (h : c ∈ Nat.toDigits 10 n) :
    c.isDigit = true :=
  Nat.isDigit_of_mem_toDigits (by decide) (by decide) h

theorem readExponent_exponentText (e : Int) : Json.readExponent (exponentText e) = some e := by
  obtain ⟨digits, hdigits, hne, hall, hvalue⟩ : ∃ digits,
      (if e.natAbs < 10 then '0' :: Nat.toDigits 10 e.natAbs else Nat.toDigits 10 e.natAbs) =
        digits ∧ digits ≠ [] ∧ (∀ c ∈ digits, c.isDigit = true) ∧
        Nat.ofDigitChars 10 digits 0 = e.natAbs := by
    refine ⟨_, rfl, ?_⟩
    split
    · refine ⟨List.cons_ne_nil _ _, ?_, ?_⟩
      · exact List.forall_mem_cons.mpr ⟨rfl, fun c hc => isDigit_of_mem_toDigits hc⟩
      · rw [Nat.ofDigitChars_cons]
        exact Nat.ofDigitChars_ten_toDigits
    · exact ⟨Nat.toDigits_ne_nil, fun c hc => isDigit_of_mem_toDigits hc,
        Nat.ofDigitChars_ten_toDigits⟩
  have hcast : (e.natAbs : Int) = |e| := Int.natCast_natAbs e
  rw [exponentText, hdigits]
  split
  · rename_i hneg
    rw [Json.readExponent]
    simpa [hne, hvalue, hcast, abs_of_neg hneg] using hall
  · rename_i hnonneg
    rw [Json.readExponent]
    simpa [hne, hvalue, hcast, abs_of_nonneg (not_lt.mp hnonneg)] using hall

theorem readNumber_parts {whole digits tail : List Char} {e : Int} (hwhole : Json.WholeDigits whole)
    (hdigits : ∀ c ∈ digits, c.isDigit = true) (htail : Json.ExponentPart tail e) :
    Json.readNumber (whole ++ (fractionText digits ++ tail)) =
      some ((Nat.ofDigitChars 10 (whole ++ digits) 0 : ℚ) / 10 ^ digits.length * 10 ^ e) := by
  rw [← ofDigitChars_trimZeros, fractionText]
  cases htrim : trimZeros digits with
  | nil =>
      rw [List.nil_append, Json.readNumber_whole hwhole htail]
      simp
  | cons c rest =>
      exact Json.readNumber_fraction hwhole (List.cons_ne_nil _ _)
        (fun d hd => hdigits d (mem_of_mem_trimZeros (htrim ▸ hd))) htail

namespace Scientific

variable {p : Nat} (s : Scientific p)

theorem significand_pos : 0 < s.significand := (Nat.pow_pos (by decide)).trans_le s.low

theorem length_toDigits : (Nat.toDigits 10 s.significand).length = p + 1 := by
  have hle : (Nat.toDigits 10 s.significand).length ≤ p + 1 :=
    (Nat.length_toDigits_le_iff (by decide) p.succ_pos).mpr s.high
  refine hle.antisymm ?_
  by_contra hshort
  obtain rfl | hp := p.eq_zero_or_pos
  · exact absurd (Nat.length_toDigits_pos (b := 10) (n := s.significand)) (by omega)
  · have hlow := (Nat.length_toDigits_le_iff (by decide) hp).mp
      (show (Nat.toDigits 10 s.significand).length ≤ p by omega)
    exact absurd s.low (not_le.mpr hlow)

theorem ofDigitChars_take_drop (k : Nat) :
    Nat.ofDigitChars 10 ((Nat.toDigits 10 s.significand).take k ++
      (Nat.toDigits 10 s.significand).drop k) 0 = s.significand := by
  rw [List.take_append_drop, Nat.ofDigitChars_ten_toDigits]

theorem readNumber_text : Json.readNumber s.text = some s.value := by
  have hfraction : ∀ k, ∀ c ∈ (Nat.toDigits 10 s.significand).drop k, c.isDigit = true :=
    fun k c hc => isDigit_of_mem_toDigits (List.mem_of_mem_drop hc)
  have hlength := s.length_toDigits
  unfold text
  dsimp only
  split
  · rename_i hrange
    split
    · rename_i hnonneg
      obtain ⟨k, hk⟩ := Int.eq_ofNat_of_zero_le hnonneg
      have hread := readNumber_parts (Json.wholeDigits_take s.significand_pos k)
        (hfraction (k + 1)) .absent
      rw [List.append_nil, s.ofDigitChars_take_drop, List.length_drop, hlength] at hread
      rw [hk, Int.toNat_natCast, hread, value, hk]
      have hexponent : (k : Int) - p = -((p + 1 - (k + 1) : Nat) : Int) := by omega
      rw [hexponent, zpow_neg, zpow_natCast, zpow_zero, mul_one, div_eq_mul_inv]
    · rename_i hneg
      obtain ⟨k, hk⟩ := Int.eq_ofNat_of_zero_le (a := -s.exponent - 1) (by omega)
      have hwhole : Json.WholeDigits ['0'] := ⟨List.cons_ne_nil _ _, by simp, fun _ => rfl⟩
      have hdigits : ∀ c ∈ List.replicate k '0' ++ Nat.toDigits 10 s.significand,
          c.isDigit = true := by
        intro c hc
        obtain hzero | hdigit := List.mem_append.mp hc
        · rw [List.eq_of_mem_replicate hzero]
          rfl
        · exact isDigit_of_mem_toDigits hdigit
      have hread := readNumber_parts hwhole hdigits .absent
      have hvalue : Nat.ofDigitChars 10
          (['0'] ++ (List.replicate k '0' ++ Nat.toDigits 10 s.significand)) 0 =
            s.significand := by
        have hzeros : ['0'] ++ (List.replicate k '0' ++ Nat.toDigits 10 s.significand) =
            List.replicate (k + 1) '0' ++ Nat.toDigits 10 s.significand := rfl
        rw [hzeros, Nat.ofDigitChars_append, Nat.ofDigitChars_replicate_zero, mul_zero,
          Nat.ofDigitChars_ten_toDigits]
      rw [List.append_nil, hvalue, List.length_append, List.length_replicate, hlength] at hread
      rw [hk, Int.toNat_natCast]
      refine hread.trans ?_
      have hexponent : s.exponent - p = -((k + (p + 1) : Nat) : Int) := by
        push_cast
        omega
      rw [value, hexponent, zpow_neg, zpow_natCast, zpow_zero, mul_one, div_eq_mul_inv]
  · have hread := readNumber_parts (Json.wholeDigits_take s.significand_pos 0) (hfraction 1)
      (.power (readExponent_exponentText s.exponent))
    rw [s.ofDigitChars_take_drop, List.length_drop, hlength] at hread
    rw [List.append_assoc]
    refine hread.trans ?_
    rw [value, zpow_sub₀ (by norm_num), zpow_natCast, Nat.add_sub_cancel]
    congr 1
    ring

theorem head_text : s.text.head? ≠ some '-' := by
  unfold text
  dsimp only
  split
  · split
    · exact (Json.wholeDigits_take s.significand_pos _).head_ne_minus _
    · simp
  · rw [List.append_assoc]
    exact (Json.wholeDigits_take s.significand_pos 0).head_ne_minus _

theorem isNumberChar_text : ∀ c ∈ s.text, Json.isNumberChar c = true := by
  have hdigit : ∀ c : Char, c.isDigit = true → Json.isNumberChar c = true := fun c hc => by
    simp [Json.isNumberChar, hc]
  have hdigits : ∀ c ∈ Nat.toDigits 10 s.significand, Json.isNumberChar c = true := fun c hc =>
    hdigit c (isDigit_of_mem_toDigits hc)
  have hfraction : ∀ digits : List Char, (∀ c ∈ digits, Json.isNumberChar c = true) →
      ∀ c ∈ fractionText digits, Json.isNumberChar c = true := by
    intro digits hall c hc
    rw [fractionText] at hc
    cases htrim : trimZeros digits with
    | nil =>
        rw [htrim] at hc
        cases hc
    | cons d rest =>
        rw [htrim] at hc
        obtain rfl | hmem := List.mem_cons.mp hc
        · rfl
        · exact hall c (mem_of_mem_trimZeros (htrim ▸ hmem))
  have hexponent : ∀ e, ∀ c ∈ exponentText e, Json.isNumberChar c = true := by
    intro e c hc
    obtain rfl | hmem := List.mem_cons.mp hc
    · split <;> rfl
    · split at hmem
      · obtain rfl | hmem := List.mem_cons.mp hmem
        · rfl
        · exact hdigit c (isDigit_of_mem_toDigits hmem)
      · exact hdigit c (isDigit_of_mem_toDigits hmem)
  intro c hc
  unfold text at hc
  dsimp only at hc
  split at hc
  · split at hc
    · obtain hc | hc := List.mem_append.mp hc
      · exact hdigits c (List.mem_of_mem_take hc)
      · exact hfraction _ (fun d hd => hdigits d (List.mem_of_mem_drop hd)) c hc
    · obtain rfl | hc := List.mem_cons.mp hc
      · rfl
      · refine hfraction _ (fun d hd => ?_) c hc
        obtain hzero | hd := List.mem_append.mp hd
        · rw [List.eq_of_mem_replicate hzero]
          rfl
        · exact hdigits d hd
  · obtain hc | hc := List.mem_append.mp hc
    · obtain hc | hc := List.mem_append.mp hc
      · exact hdigits c (List.mem_of_mem_take hc)
      · exact hfraction _ (fun d hd => hdigits d (List.mem_of_mem_drop hd)) c hc
    · obtain rfl | hc := List.mem_cons.mp hc
      · rfl
      · exact hexponent _ c hc

end Scientific

section General

variable (p : Nat) (q : ℚ)

/-- What is written is read as the value with the digits that are kept. -/
theorem readNumber_general : Json.readNumber (general p q) = some (significant p q) := by
  unfold general significant
  split
  · exact Scientific.readNumber_text _
  · split
    · rw [Json.readNumber_minus (Scientific.head_text _), Scientific.readNumber_text]
      rfl
    · exact Json.readNumber_toDigits 0

theorem isNumberChar_general : ∀ c ∈ general p q, Json.isNumberChar c = true := by
  unfold general
  split
  · exact Scientific.isNumberChar_text _
  · split
    · exact List.forall_mem_cons.mpr ⟨rfl, Scientific.isNumberChar_text _⟩
    · simp [Json.isNumberChar]

theorem general_ne_nil : general p q ≠ [] := by
  intro h
  have hread := readNumber_general p q
  rw [h] at hread
  cases hread

theorem generalMember_of_plain {key : List Char} (hkey : key.all Json.isPlain) {c : Char}
    (hc : Json.isNumberChar c = false) (r : List Char) :
    Json.Text (.one .member) (key, .number (significant p q))
      ('"' :: (key ++ '"' :: ':' :: (general p q ++ c :: r))) (c :: r) := by
  have hchars := isNumberChar_general p q
  refine Json.member_of_plain hkey ?_
  have hskip : Json.skip (general p q ++ c :: r) = general p q ++ c :: r := by
    cases htext : general p q with
    | nil => exact absurd htext (general_ne_nil p q)
    | cons d rest =>
        have hd := hchars d (htext ▸ List.mem_cons_self)
        refine List.dropWhile_cons_of_neg ?_
        rintro hblank
        simp only [Json.isBlank, Bool.or_eq_true, beq_iff_eq] at hblank
        obtain ((rfl | rfl) | rfl) | rfl := hblank <;> exact absurd hd (by decide)
  have htake : (general p q ++ c :: r).takeWhile Json.isNumberChar = general p q := by
    rw [List.takeWhile_append_of_pos hchars, List.takeWhile_cons_of_neg (by simp [hc]),
      List.append_nil]
  have hdrop : (general p q ++ c :: r).dropWhile Json.isNumberChar = c :: r := by
    rw [List.dropWhile_append_of_pos hchars, List.dropWhile_cons_of_neg (by simp [hc])]
  have htext := Json.Text.number (s := general p q ++ c :: r) (q := significant p q) (by
    rw [htake, readNumber_general])
  rw [hskip]
  rwa [hdrop] at htext

end General

end QuantForge.Library
