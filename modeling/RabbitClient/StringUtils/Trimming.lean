import RabbitClient.Library.Binary64
import RabbitClient.StringUtils.JsonFaithful
import RabbitClient.StringUtils.Timestamp
import Mathlib.Data.List.Induction

/-! When the trailing zeros that `to_string` trims are those of a fraction. -/
namespace RabbitClient.StringUtils

open Bytes

/-- The number of fraction digits; a negative precision stands for the default. -/
def fractionDigits (p : Int) : Nat := if p < 0 then 6 else p.toNat

def signText (negative : Bool) : Bytes := if negative then ascii "-" else []

/-- The digits of a number that is a multiple of a power of 10, with a point before the last
ones. -/
def pointText (places n : Nat) : Bytes :=
  decimal (n / 10 ^ places) ++
    if places = 0 then [] else ofChar '.' :: padded places (decimal (n % 10 ^ places))

/-- `std::fixed` with a precision, rounding to nearest. -/
def fixedText (p : Int) (x : Binary64) : Bytes :=
  let places := fractionDigits p
  signText x.negative ++
    pointText places (divHalfEven (x.units * 10 ^ places) Binary64.unitsOfOne)

/-- A point or a number other than zero is more than zeros. -/
theorem exists_ne_zero_pointText {places n : Nat} (h : 0 < places ∨ 0 < n) :
    ∃ c ∈ pointText places n, c ≠ ofChar '0' := by
  by_cases hplaces : places = 0
  · subst hplaces
    obtain ⟨c, hc, h0⟩ := exists_ne_zero_decimal (n := n) (by omega)
    exact ⟨c, by simpa [pointText] using hc, h0⟩
  · refine ⟨ofChar '.', ?_, by decide⟩
    simp [pointText, hplaces]

/-- What a stream prints for doubles; the logarithm is exact. -/
def binary64 : FixedFormat Binary64 where
  abs_ge_one x := decide (1 ≤ x.units / Binary64.unitsOfOne)
  log10_abs x := ((decimal (x.units / Binary64.unitsOfOne)).length : Int) - 1
  fixed := fixedText
  fixed_point p x hp := by
    have hplaces : 0 < fractionDigits p := by
      rw [fractionDigits, if_neg (by omega)]
      omega
    obtain ⟨c, hc, h0⟩ := exists_ne_zero_pointText (Or.inl hplaces)
    exact ⟨c, List.mem_append_right _ hc, h0⟩
  fixed_ge_one p x hx := by
    have hone : 1 ≤ x.units / Binary64.unitsOfOne := of_decide_eq_true hx
    have h : 0 < fractionDigits p ∨
        0 < divHalfEven (x.units * 10 ^ fractionDigits p) Binary64.unitsOfOne := by
      rcases Nat.eq_zero_or_pos (fractionDigits p) with hplaces | hplaces
      · right
        rw [hplaces, pow_zero, mul_one]
        exact hone.trans (div_le_divHalfEven _ _)
      · exact Or.inl hplaces
    obtain ⟨c, hc, h0⟩ := exists_ne_zero_pointText h
    exact ⟨c, List.mem_append_right _ hc, h0⟩

/-- Digits, and a point with digits or none. -/
def unsignedValue (b : Bytes) : Rat :=
  let digits := (b.dropWhile (· ≠ ofChar '.')).tail
  ofDigits (b.takeWhile (· ≠ ofChar '.')) + ofDigits digits / 10 ^ digits.length

/-- A minus sign or none before them. -/
def decimalValue (b : Bytes) : Rat :=
  if b.head? = some (ofChar '-') then -unsignedValue b.tail else unsignedValue b

variable {Double : Type} {a b digits : Bytes} {n : Nat}

/-- What is written to the stream. -/
def untrimmed (fmt : FixedFormat Double) (num : Double) : Bytes :=
  fmt.fixed (15 - (if fmt.abs_ge_one num then fmt.log10_abs num else 1) - 1) num

/-- The loop, from the last character down, and what it leaves. -/
def trim (text : Bytes) : Except Exception Bytes :=
  match text.reverse.dropWhile (· = ofChar '0') with
  | [] => .error .out_of_range
  | c :: l =>
    if c = ofChar '.' then .ok (text.take (l.length + 2)) else .ok (text.take (l.length + 1))

theorem to_string_eq_trim (fmt : FixedFormat Double) (num : Double) :
    to_string fmt num = trim (untrimmed fmt num) := rfl

/-- A text is zeros only, or there is a last character that is none. -/
theorem exists_zeros (b : Bytes) :
    b = List.replicate b.length (ofChar '0') ∨
      ∃ a c k, c ≠ ofChar '0' ∧ b = a ++ c :: List.replicate k (ofChar '0') := by
  induction b using List.reverseRecOn with
  | nil => exact Or.inl rfl
  | append_singleton b c ih =>
    by_cases hc : c = ofChar '0'
    · subst hc
      rcases ih with hzeros | ⟨a, d, k, hd, hb⟩
      · left
        rw [List.length_append, List.length_singleton, List.replicate_succ', ← hzeros]
      · refine Or.inr ⟨a, d, k + 1, hd, ?_⟩
        rw [hb, List.replicate_succ', List.append_assoc, List.cons_append]
    · exact Or.inr ⟨b, c, 0, hc, rfl⟩

/-- The zeros behind the last other character go, except for one behind a point. -/
theorem trim_eq (a : Bytes) {c : UInt8} (k : Nat) (hc : c ≠ ofChar '0') :
    trim (a ++ c :: List.replicate k (ofChar '0')) =
      .ok (if c = ofChar '.' then a ++ c :: (List.replicate k (ofChar '0')).take 1
        else a ++ [c]) := by
  have hdrop : (a ++ c :: List.replicate k (ofChar '0')).reverse.dropWhile
      (· = ofChar '0') = c :: a.reverse := by
    rw [List.reverse_append, List.reverse_cons, List.reverse_replicate, List.append_assoc,
      List.dropWhile_append_of_pos (by simp), List.singleton_append,
      List.dropWhile_cons_of_neg (by simpa using hc)]
  rw [trim, hdrop]
  simp only [List.length_reverse]
  split <;> simp [List.take_append]

theorem point_notMem_decimal (n : Nat) : ofChar '.' ∉ decimal n :=
  notMem_decimal (.inl (by decide)) n

theorem unsignedValue_whole (h : ofChar '.' ∉ b) : unsignedValue b = ofDigits b := by
  have hall := ne_of_notMem h
  rw [unsignedValue, List.takeWhile_eq_self_iff.mpr hall, List.dropWhile_eq_nil_iff.mpr hall]
  simp [ofDigits]

theorem unsignedValue_point (h : ofChar '.' ∉ b) (digits : Bytes) :
    unsignedValue (b ++ ofChar '.' :: digits) =
      ofDigits b + (ofDigits digits : Rat) / 10 ^ digits.length := by
  have hall := ne_of_notMem h
  rw [unsignedValue, List.takeWhile_append_of_pos hall, List.dropWhile_append_of_pos hall,
    List.takeWhile_cons_of_neg (by simp), List.dropWhile_cons_of_neg (by simp)]
  simp

/-- The sign is read back. -/
theorem decimalValue_signText (negative : Bool) (h : ofChar '-' ∉ b) :
    decimalValue (signText negative ++ b) =
      (if negative then -1 else 1) * unsignedValue b := by
  have hhead : b.head? ≠ some (ofChar '-') := fun hb => h (List.mem_of_head? hb)
  cases negative with
  | false => simp [signText, decimalValue, hhead]
  | true => simp [signText, decimalValue, ascii]

theorem minus_notMem_decimal (n : Nat) : ofChar '-' ∉ decimal n :=
  notMem_decimal (.inl (by decide)) n

/-- Zeros at the end of a fraction do not count. -/
theorem ofDigits_zeros (a : Bytes) (k : Nat) :
    (ofDigits (a ++ List.replicate k (ofChar '0')) : Rat) /
        10 ^ (a ++ List.replicate k (ofChar '0')).length = ofDigits a / 10 ^ a.length := by
  rw [ofDigits_append, ofDigits_replicate, List.length_append, List.length_replicate, pow_add]
  push_cast
  field_simp
  simp

theorem decimalValue_point (negative : Bool) (n : Nat) (h : ∀ c ∈ digits, isdigit c = true) :
    decimalValue (signText negative ++ (decimal n ++ ofChar '.' :: digits)) =
      (if negative then -1 else 1) * (n + (ofDigits digits : Rat) / 10 ^ digits.length) := by
  have hminus : ofChar '-' ∉ decimal n ++ ofChar '.' :: digits := by
    intro hc
    rcases List.mem_append.mp hc with hc | hc
    · exact minus_notMem_decimal n hc
    rcases List.mem_cons.mp hc with hc | hc
    · exact absurd hc (by decide)
    · exact absurd (h _ hc) (by decide)
  rw [decimalValue_signText negative hminus, unsignedValue_point (point_notMem_decimal n),
    ofDigits_decimal]

/-- Where there is a point, the number stays. -/
theorem trim_point (negative : Bool) (n : Nat) (hdigits : ∀ c ∈ digits, isdigit c = true)
    (hne : digits ≠ []) :
    ∃ text, trim (signText negative ++ (decimal n ++ ofChar '.' :: digits)) = .ok text ∧
      decimalValue text =
        decimalValue (signText negative ++ (decimal n ++ ofChar '.' :: digits)) := by
  have hzero : isdigit (ofChar '0') = true := by decide
  have hpoint : ofChar '.' ≠ ofChar '0' := by decide
  rcases exists_zeros digits with hzeros | ⟨d, c, k, hc, rfl⟩
  · -- zeros only: one of them stays
    have hlen : 0 < digits.length := List.length_pos_iff.mpr hne
    refine ⟨signText negative ++ (decimal n ++ ofChar '.' :: [ofChar '0']), ?_, ?_⟩
    · rw [hzeros, ← List.append_assoc, trim_eq _ _ hpoint, if_pos rfl, List.take_replicate,
        Nat.min_eq_left hlen, List.append_assoc]
      rfl
    · rw [decimalValue_point negative n hdigits,
        decimalValue_point negative n (by simp [hzero]), hzeros, ofDigits_replicate]
      simp [ofDigits, ofChar]
  · have hd : ∀ e ∈ d ++ [c], isdigit e = true := by
      intro e he
      apply hdigits
      rw [← List.singleton_append, ← List.append_assoc]
      exact List.mem_append_left _ he
    have hcpoint : c ≠ ofChar '.' := by
      rintro rfl
      exact absurd (hd (ofChar '.') (by simp)) (by decide)
    have hsplit : d ++ c :: List.replicate k (ofChar '0') =
        (d ++ [c]) ++ List.replicate k (ofChar '0') := by simp
    refine ⟨signText negative ++ (decimal n ++ ofChar '.' :: (d ++ [c])), ?_, ?_⟩
    · have htrim := trim_eq (signText negative ++ (decimal n ++ ofChar '.' :: d)) k hc
      rw [if_neg hcpoint] at htrim
      simpa using htrim
    · rw [decimalValue_point negative n hdigits, decimalValue_point negative n hd, hsplit,
        ofDigits_zeros]

/-- Where there is none, the number stays only if it is not a multiple of 10. -/
theorem trim_whole (negative : Bool) (hn : 0 < n) :
    ∃ text, trim (signText negative ++ decimal n) = .ok text ∧
      (decimalValue text = decimalValue (signText negative ++ decimal n) ↔ ¬ 10 ∣ n) := by
  rcases exists_zeros (decimal n) with hzeros | ⟨d, c, k, hc, hdecimal⟩
  · obtain ⟨c, hmem, hc⟩ := exists_ne_zero_decimal (n := n) (by omega)
    rw [hzeros] at hmem
    exact absurd (List.eq_of_mem_replicate hmem) hc
  · have hsplit : decimal n = (d ++ [c]) ++ List.replicate k (ofChar '0') := by simp [hdecimal]
    have hsub : ∀ e ∈ d ++ [c], e ∈ decimal n := by
      intro e he
      rw [hsplit]
      exact List.mem_append_left _ he
    have hcpoint : c ≠ ofChar '.' := by
      rintro rfl
      exact point_notMem_decimal n (hsub _ (by simp))
    refine ⟨signText negative ++ (d ++ [c]), ?_, ?_⟩
    · have htrim := trim_eq (signText negative ++ d) k hc
      rw [if_neg hcpoint] at htrim
      rw [hdecimal]
      simpa using htrim
    -- the digits that stay are a number that does not end in zero
    have hvalue : n = ofDigits (d ++ [c]) * 10 ^ k := by
      have h := ofDigits_decimal n
      rw [hsplit, ofDigits_append, ofDigits_replicate, List.length_replicate] at h
      exact h.symm
    have hlast : ofDigits (d ++ [c]) = ofDigits d * 10 + (c.toNat - 48) := by
      rw [ofDigits_append]
      simp [ofDigits]
    have hrange := mem_decimal (hsub c (by simp))
    have hne : c.toNat ≠ 48 := fun h => hc (UInt8.toNat_inj.mp h)
    rw [decimalValue_signText negative (minus_notMem_decimal n),
      decimalValue_signText negative (fun h => minus_notMem_decimal n (hsub _ h)),
      unsignedValue_whole (point_notMem_decimal n),
      unsignedValue_whole (fun h => point_notMem_decimal n (hsub _ h)), ofDigits_decimal]
    have hsign : (if negative then -1 else 1 : Rat) ≠ 0 := by cases negative <;> simp
    rw [mul_right_inj' hsign, Nat.cast_inj]
    constructor
    · intro h
      omega
    · intro h
      cases k with
      | zero => omega
      | succ k =>
        rw [pow_succ, ← mul_assoc] at hvalue
        exact absurd (Dvd.intro_left _ hvalue.symm) h

/-- The loop ends inside the text, and what it leaves denotes the same number. -/
def Kept (x : Binary64) : Prop :=
  ∃ text, to_string binary64 x = .ok text ∧ decimalValue text = decimalValue (untrimmed binary64 x)

/-- The precision that `to_string` computes. -/
def limit (x : Binary64) : Int :=
  15 - (if binary64.abs_ge_one x then binary64.log10_abs x else 1) - 1

/-- It leaves no room for a fraction where 15 digits stand before the point. -/
theorem limit_eq_zero_iff (x : Binary64) : limit x = 0 ↔ 10 ^ 14 ≤ x.abs ∧ x.abs < 10 ^ 15 := by
  have hlo := Binary64.natCast_le_abs_iff (x := x) (10 ^ 14)
  have hhi := Binary64.abs_lt_natCast_iff (x := x) (10 ^ 15)
  rw [Nat.cast_pow, Nat.cast_ofNat] at hlo hhi
  rw [hlo, hhi]
  simp only [limit, binary64, decide_eq_true_eq]
  generalize x.units / Binary64.unitsOfOne = whole
  have h15 := length_decimal_le_iff (n := whole) (k := 15) (by omega)
  have h14 := length_decimal_le_iff (n := whole) (k := 14) (by omega)
  split <;> omega

theorem kept_iff {x : Binary64} {text : Bytes} (h : trim (untrimmed binary64 x) = .ok text) :
    Kept x ↔ decimalValue text = decimalValue (untrimmed binary64 x) := by
  rw [Kept, to_string_eq_trim, h]
  constructor
  · rintro ⟨text', htext, hvalue⟩
    cases htext
    exact hvalue
  · exact fun hvalue => ⟨text, rfl, hvalue⟩

/-- The number stays, unless there is no room for a fraction and the whole number that is printed
ends in zero. -/
theorem to_string_kept_iff (x : Binary64) :
    Kept x ↔ ¬ (10 ^ 14 ≤ x.abs ∧ x.abs < 10 ^ 15 ∧ 10 ∣ x.nearest) := by
  have huntrimmed : untrimmed binary64 x = fixedText (limit x) x := rfl
  rw [← and_assoc, ← limit_eq_zero_iff]
  by_cases hlimit : limit x = 0
  · have htext : untrimmed binary64 x = signText x.negative ++ decimal x.nearest := by
      rw [huntrimmed, hlimit]
      simp [fixedText, fractionDigits, pointText, Binary64.nearest]
    have hpos : 0 < x.nearest := by
      have hlo := ((limit_eq_zero_iff x).mp hlimit).1
      have hone : ((1 : Nat) : Rat) ≤ x.abs := by
        rw [Nat.cast_one]
        exact (one_le_pow₀ (by norm_num)).trans hlo
      exact ((Binary64.natCast_le_abs_iff 1).mp hone).trans (div_le_divHalfEven _ _)
    obtain ⟨text, htrim, hvalue⟩ := trim_whole x.negative hpos
    rw [← htext] at htrim hvalue
    rw [kept_iff htrim, hvalue]
    simp [hlimit]
  · have hplaces : 0 < fractionDigits (limit x) := by
      rw [fractionDigits]
      split <;> omega
    generalize hn : divHalfEven (x.units * 10 ^ fractionDigits (limit x)) Binary64.unitsOfOne = n
    have htext : untrimmed binary64 x = signText x.negative ++
        (decimal (n / 10 ^ fractionDigits (limit x)) ++ ofChar '.' ::
          padded (fractionDigits (limit x)) (decimal (n % 10 ^ fractionDigits (limit x)))) := by
      rw [huntrimmed, fixedText]
      simp only [hn, pointText, if_neg hplaces.ne']
    have hne : padded (fractionDigits (limit x))
        (decimal (n % 10 ^ fractionDigits (limit x))) ≠ [] := by
      have hlen := length_padded hplaces (Nat.mod_lt n (Nat.pow_pos (n := fractionDigits (limit x))
        (show 0 < 10 by decide)))
      rw [← List.length_pos_iff, hlen]
      exact hplaces
    obtain ⟨text, htrim, hvalue⟩ := trim_point x.negative
      (n / 10 ^ fractionDigits (limit x)) (fun c hc => isdigit_padded hc) hne
    rw [← htext] at htrim hvalue
    rw [kept_iff htrim]
    simp [hvalue, hlimit]

/-- A hundred trillions. -/
def hundredTrillions : Binary64 where
  negative := false
  exponent := 1023 + 46
  fraction := 10 ^ 14 * 2 ^ 6 - 2 ^ 52
  exponent_lt := by decide
  fraction_lt := by decide

/-- They are printed as 1. -/
theorem not_kept_hundredTrillions : ¬ Kept hundredTrillions := by
  have htrim : trim (untrimmed binary64 hundredTrillions) = .ok (ascii "1") := by decide +kernel
  have hvalue : decimalValue (ascii "1") ≠ decimalValue (untrimmed binary64 hundredTrillions) := by
    decide +kernel
  rw [kept_iff htrim]
  exact hvalue

end RabbitClient.StringUtils
