import RabbitClient.Library.Bytes

/-! Texts in which bytes are written as a percent sign and two hexadecimal digits. -/
namespace PercentCoding

open Bytes

variable {plain : UInt8 → Bool}

def hexValue (c : UInt8) : Option Nat :=
  if 48 ≤ c ∧ c ≤ 57 then some (c.toNat - 48)
  else if 97 ≤ c ∧ c ≤ 102 then some (c.toNat - 87)
  else if 65 ≤ c ∧ c ≤ 70 then some (c.toNat - 55)
  else none

/-- The byte string that a text stands for. -/
def decode : Bytes → Option Bytes
  | [] => some []
  | c :: b =>
    if c = ofChar '%' then
      match b with
      | high :: low :: b => do
        let h ← hexValue high
        let l ← hexValue low
        return UInt8.ofNat (16 * h + l) :: (← decode b)
      | _ => none
    else do return c :: (← decode b)

/-- Texts of plain characters and of groups of a percent sign and two hexadecimal digits. -/
inductive Encoded (plain : UInt8 → Bool) : Bytes → Prop where
  | nil : Encoded plain []
  | char {c : UInt8} {b : Bytes} (hc : plain c = true) (h : Encoded plain b) :
      Encoded plain (c :: b)
  | group {high low : UInt8} {b : Bytes} (hh : (hexValue high).isSome)
      (hl : (hexValue low).isSome) (h : Encoded plain b) :
      Encoded plain (ofChar '%' :: high :: low :: b)

def hexDigit (n : Nat) : UInt8 := UInt8.ofNat (if n < 10 then 48 + n else 87 + n)

/-- A byte as a group. -/
def group (c : UInt8) : Bytes := [ofChar '%', hexDigit (c.toNat / 16), hexDigit (c.toNat % 16)]

theorem hexValue_hexDigit {n : Nat} (h : n < 16) : hexValue (hexDigit n) = some n := by
  have hall : ∀ n < 16, hexValue (hexDigit n) = some n := by decide
  exact hall n h

/-- A group is read back. -/
theorem decode_group (c : UInt8) (b : Bytes) :
    decode (group c ++ b) = (decode b).map (c :: ·) := by
  have hlt := c.toNat_lt
  have hvalue : 16 * (c.toNat / 16) + c.toNat % 16 = c.toNat := Nat.div_add_mod ..
  have hh : hexValue (hexDigit (c.toNat / 16)) = some (c.toNat / 16) :=
    hexValue_hexDigit (by omega)
  have hl : hexValue (hexDigit (c.toNat % 16)) = some (c.toNat % 16) :=
    hexValue_hexDigit (by omega)
  simp only [group, List.cons_append, List.nil_append, decode, if_true, hh, hl,
    Option.bind_eq_bind, Option.bind_some, hvalue, UInt8.ofNat_toNat]
  cases decode b <;> rfl

theorem decode_plain {c : UInt8} (hc : c ≠ ofChar '%') (b : Bytes) :
    decode (c :: b) = (decode b).map (c :: ·) := by
  cases h : decode b with
  | none =>
    unfold decode
    rw [if_neg hc, h]
    rfl
  | some text =>
    unfold decode
    rw [if_neg hc, h]
    rfl

theorem encoded_group (c : UInt8) {b : Bytes} (h : Encoded plain b) : Encoded plain (group c ++ b) := by
  have hlt := c.toNat_lt
  refine .group ?_ ?_ h
  · rw [hexValue_hexDigit (by omega)]
    rfl
  · rw [hexValue_hexDigit (by omega)]
    rfl

theorem notMem_of_encoded {c : UInt8} {b : Bytes} (hplain : plain c = false) (hpercent : c ≠ ofChar '%')
    (hhex : hexValue c = none) (h : Encoded plain b) : c ∉ b := by
  induction h with
  | nil => exact List.not_mem_nil
  | char hc _ ih =>
    rw [List.mem_cons, not_or]
    refine ⟨?_, ih⟩
    rintro rfl
    simp [hplain] at hc
  | group hh hl _ ih =>
    simp only [List.mem_cons, not_or]
    refine ⟨hpercent, ?_, ?_, ih⟩
    · rintro rfl
      simp [hhex] at hh
    · rintro rfl
      simp [hhex] at hl

end PercentCoding
