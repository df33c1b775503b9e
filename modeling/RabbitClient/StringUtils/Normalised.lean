import RabbitClient.StringUtils.PadDigits
import Mathlib.Tactic.Linarith

/-! When a timestamp that `check_format_time` has padded denotes the same fraction of a second. -/
namespace RabbitClient.StringUtils

open Bytes Runs

/-- A point, digits, and the letter Z or nothing. -/
structure FractionPart where
  digits : Bytes
  isDigits : ∀ c ∈ digits, isdigit c = true
  zulu : Bool

def FractionPart.letter (part : FractionPart) : Bytes := if part.zulu then ascii "Z" else []

def FractionPart.text (part : FractionPart) : Bytes :=
  ofChar '.' :: (part.digits ++ part.letter)

/-- A timestamp whose numbers have any number of digits, in any format; no separator is a point or
the mark of `check_format_time`. -/
structure LooseStamp where
  format : List Conversion
  separators : ∀ c, .literal c ∈ format →
    isdigit c = false ∧ c ≠ ofChar '.' ∧ c ≠ ofChar '@'
  number : TimeField → Bytes
  number_ne_nil : ∀ f, number f ≠ []
  isDigits : ∀ f, ∀ c ∈ number f, isdigit c = true
  part : Option FractionPart

/-- The text before the fraction. -/
def LooseStamp.fields (stamp : LooseStamp) : Bytes :=
  stamp.format.flatMap fun
    | .field f => stamp.number f
    | .literal c => [c]

def LooseStamp.text (stamp : LooseStamp) : Bytes :=
  stamp.fields ++ match stamp.part with
    | none => []
    | some part => part.text

variable {stamp : LooseStamp} {part : FractionPart}

theorem ne_of_isdigit {c d : UInt8} (hc : isdigit c = true) (hd : isdigit d = false) : c ≠ d := by
  rintro rfl
  exact absurd (hc.symm.trans hd) (by decide)

theorem ne_of_mem_fields {c : UInt8} (h : c ∈ stamp.fields) : c ≠ ofChar '.' ∧ c ≠ ofChar '@' := by
  obtain ⟨conversion, hmem, hc⟩ := List.mem_flatMap.mp h
  cases conversion with
  | field f =>
    have hdigit := stamp.isDigits f c hc
    exact ⟨ne_of_isdigit hdigit rfl, ne_of_isdigit hdigit rfl⟩
  | literal d =>
    rw [List.mem_singleton] at hc
    subst hc
    exact (stamp.separators c hmem).2

theorem point_notMem_fields (stamp : LooseStamp) : ofChar '.' ∉ stamp.fields :=
  fun h => (ne_of_mem_fields h).1 rfl

theorem not_isdigit_letter (part : FractionPart) : ∀ c ∈ part.letter, isdigit c = false := by
  rw [FractionPart.letter]
  cases part.zulu with
  | false => exact List.forall_mem_nil _
  | true => exact List.forall_mem_singleton.mpr rfl

theorem at_notMem_text (stamp : LooseStamp) : ofChar '@' ∉ stamp.text := by
  rw [LooseStamp.text, List.mem_append, not_or]
  refine ⟨fun h => (ne_of_mem_fields h).2 rfl, ?_⟩
  cases stamp.part with
  | none => exact List.not_mem_nil
  | some part =>
    intro hc
    rcases List.mem_cons.mp hc with hpoint | hc
    · exact absurd hpoint (by decide)
    rcases List.mem_append.mp hc with hdigit | hletter
    · exact ne_of_isdigit (part.isDigits _ hdigit) rfl rfl
    · rw [FractionPart.letter] at hletter
      cases hzulu : part.zulu <;> rw [hzulu] at hletter <;> exact absurd hletter (by decide)

/-- A digit on its own counts ten times less behind a zero. -/
theorem ofDigits_zero_cons {d : UInt8} (hd : isdigit d = true) :
    (ofDigits [ofChar '0', d] : Rat) / 10 ^ 2 = (ofDigits [d] : Rat) / 10 ^ 1 ↔ d = ofChar '0' := by
  have hvalue : ofDigits [ofChar '0', d] = ofDigits [d] := by
    rw [← List.singleton_append, ofDigits_append]
    simp [ofDigits, ofChar]
  rw [hvalue]
  constructor
  · intro h
    have hzero : (ofDigits [d] : Rat) = 0 := by linarith
    have hnat : d.toNat - 48 = 0 := by
      rw [Nat.cast_eq_zero] at hzero
      simpa [ofDigits] using hzero
    have hlo := (isdigit_iff.mp hd).1
    exact UInt8.toNat_inj.mp (show d.toNat = 48 by omega)
  · rintro rfl
    simp [ofDigits, ofChar]

/-- The digits behind the point, padded. -/
theorem insertBefore_part (part : FractionPart) :
    fractionLoop (insertBefore (ofChar '0') (beside isdigit padSides) (some (ofChar '.'))
        (part.digits ++ part.letter)) = fractionLoop (part.digits ++ part.letter) ↔
      ∀ d, part.digits = [d] → d = ofChar '0' := by
  have hletter := not_isdigit_letter part
  have hspared : ∀ prev, insertBefore (ofChar '0') (beside isdigit alone) prev part.letter =
      part.letter :=
    insertBefore_eq_self fun c hc prev next => by simp [beside, hletter c hc]
  rw [insertBefore_padSides_some]
  have hdigits := part.isDigits
  generalize part.digits = digits at hdigits
  rcases digits with _ | ⟨d, _ | ⟨e, digits⟩⟩
  · simp [hspared]
  · have hisdigit : isdigit d = true := hdigits d (List.mem_cons_self ..)
    have hpoint : isdigit (ofChar '.') = false := by decide
    have htest : beside isdigit alone (some (ofChar '.')) d part.letter.head? = true := by
      cases hhead : part.letter.head? with
      | none => simp [beside, alone, hisdigit, hpoint]
      | some c => simp [beside, alone, hisdigit, hpoint, hletter c (List.mem_of_head? hhead)]
    have hpadded : insertBefore (ofChar '0') (beside isdigit alone) (some (ofChar '.'))
        ([d] ++ part.letter) = [ofChar '0', d] ++ part.letter := by
      simp [insertBefore, htest, hspared]
    have hzero : ∀ c ∈ [ofChar '0', d], isdigit c = true := by
      simp [hisdigit, show isdigit (ofChar '0') = true by decide]
    rw [hpadded, fractionLoop_append_of_not_isdigit hletter,
      fractionLoop_append_of_not_isdigit hletter, fractionLoop_digits hzero,
      fractionLoop_digits hdigits]
    simpa using ofDigits_zero_cons hisdigit
  · have he : isdigit e = true := hdigits e (by simp)
    -- a run of several digits stays as it is
    have hrun : (d :: e :: digits).IsChain fun a b => (isdigit a == isdigit b) = true := by
      apply List.Pairwise.isChain
      apply List.pairwise_of_forall_mem_list
      intro a ha b hb
      rw [hdigits a ha, hdigits b hb]
      rfl
    have htest : beside isdigit alone (some (ofChar '.')) d (some e) = false := by
      simp [beside, alone, he]
    have hpadded : insertBefore (ofChar '0') (beside isdigit alone) (some (ofChar '.'))
        (d :: e :: digits ++ part.letter) = d :: e :: digits ++ part.letter := by
      rw [List.cons_append, insertBefore, insertBefore_run hrun, hspared]
      simp [htest]
    rw [hpadded]
    simp

/-- A padded timestamp denotes the same fraction of a second exactly if the fraction is not a
single digit other than zero. -/
theorem fraction_check_format_time_iff (stamp : LooseStamp) :
    fraction (check_format_time stamp.text) = fraction stamp.text ↔
      ∀ part ∈ stamp.part, ∀ d, part.digits = [d] → d = ofChar '0' := by
  have hpoint := point_notMem_fields stamp
  rw [check_format_time_eq (at_notMem_text stamp)]
  cases hpart : stamp.part with
  | none =>
    have htext : stamp.text = stamp.fields := by simp [LooseStamp.text, hpart]
    have hpadded : ofChar '.' ∉
        insertBefore (ofChar '0') (beside isdigit padSides) none stamp.fields := by
      intro hc
      rcases mem_insertBefore hc with hzero | hc
      · exact absurd hzero (by decide)
      · exact hpoint hc
    simp [htext, fraction, hpoint, hpadded]
  | some part =>
    have htext : stamp.text = stamp.fields ++ ofChar '.' :: (part.digits ++ part.letter) := by
      simp [LooseStamp.text, FractionPart.text, hpart]
    have hspared : ∀ prev next, beside isdigit padSides prev (ofChar '.') next = false := by
      intro prev next
      rfl
    obtain ⟨padded, hmem, heq⟩ := exists_insertBefore_append (z := ofChar '0') hspared none
      stamp.fields (part.digits ++ part.letter)
    have hpadded : ofChar '.' ∉ padded := by
      intro hc
      rcases hmem _ hc with hzero | hc
      · exact absurd hzero (by decide)
      · exact hpoint hc
    rw [htext, heq, fraction_point hpadded, fraction_point hpoint, insertBefore_part]
    simp

theorem separator_of_mem_FORMAT (c : UInt8) (h : .literal c ∈ FORMAT) :
    isdigit c = false ∧ c ≠ ofChar '.' ∧ c ≠ ofChar '@' := by
  have hc : c = ofChar '-' ∨ c = ofChar 'T' ∨ c = ofChar ':' := by
    simp only [FORMAT, List.mem_cons, reduceCtorEq, Conversion.literal.injEq, false_or] at h
    rcases h with h | h | h | h | h | h <;> simp_all
  rcases hc with rfl | rfl | rfl <;> decide

/-- The third of January 2024 at 04:05:06. -/
def january : TimeField → Bytes
  | .year => ascii "2024"
  | .month => ascii "01"
  | .day => ascii "03"
  | .hour => ascii "04"
  | .minute => ascii "05"
  | .second => ascii "06"

theorem january_ne_nil (f : TimeField) : january f ≠ [] := by
  cases f <;> decide

theorem isdigit_january (f : TimeField) : ∀ c ∈ january f, isdigit c = true := by
  rw [← List.all_eq_true]
  cases f <;> decide

theorem isdigit_seven : ∀ c ∈ ascii "7", isdigit c = true := List.forall_mem_singleton.mpr rfl

/-- Seven tenths of a second later. -/
def sevenTenths : LooseStamp where
  format := FORMAT
  separators := separator_of_mem_FORMAT
  number := january
  number_ne_nil := january_ne_nil
  isDigits := isdigit_january
  part := some { digits := ascii "7", isDigits := isdigit_seven, zulu := false }

/-- They become seven hundredths. -/
theorem fraction_check_format_time_sevenTenths :
    ¬ fraction (check_format_time sevenTenths.text) = fraction sevenTenths.text := by
  decide +kernel

end RabbitClient.StringUtils
