import RabbitClient.Library.PercentCoding

/-! Which byte strings `urlEncode` writes so that percent-decoding gives them back. -/
namespace RabbitClient.StringUtils

open Bytes PercentCoding

theorem dont_escape_notMem : 0 ∉ ascii "._-$,;~()" := by decide

def dont_escape : CString := ⟨ascii "._-$,;~()", dont_escape_notMem⟩

def hex : Bytes := ascii "0123456789abcdef"

/-- `isalnum` in the C locale; no negative number is a letter or a digit. -/
def isalnum (c : Int32) : Bool :=
  48 ≤ c && c ≤ 57 || 65 ≤ c && c ≤ 90 || 97 ≤ c && c ≤ 122

/-- `strchr`: the terminator is one of the bytes searched. -/
def strchr (s : CString) (c : UInt8) : Option Nat := (s.val ++ [0]).findIdx? (· == c)

/-- A character of the table, if the index is one of the table. -/
def hexChar (index : Int32) : Option UInt8 :=
  if 0 ≤ index then hex[index.toInt.toNat]? else none

/-- What is written for a byte; none if the table is read outside of it. -/
def encodeByte (c : UInt8) : Option Bytes :=
  -- `char` is signed and promoted to `int`
  let src := c.toInt8.toInt32
  if isalnum src || (strchr dont_escape c).isSome then some [c]
  else do
    let high ← hexChar (src >>> 4)
    let low ← hexChar (src &&& 0xf)
    return [ofChar '%', high, low]

def urlEncode : Bytes → Option Bytes
  | [] => some []
  | c :: str => do
    let text ← encodeByte c
    return text ++ (← urlEncode str)

/-- The characters that stand for themselves. -/
def unescaped (c : UInt8) : Bool :=
  48 ≤ c && c ≤ 57 || 65 ≤ c && c ≤ 90 || 97 ≤ c && c ≤ 122 || (ascii "._-$,;~()").contains c

/-- No read outside of the table, only the characters of an encoded text, and no loss. -/
def Reversible (str : Bytes) : Prop :=
  ∃ dst, urlEncode str = some dst ∧ Encoded unescaped dst ∧ decode dst = some str

variable {c : UInt8} {str dst : Bytes}

theorem byte_forall {P : UInt8 → Prop} (h : ∀ n < 256, P (UInt8.ofNat n)) (c : UInt8) : P c := by
  have hc := h c.toNat c.toNat_lt
  rwa [UInt8.ofNat_toNat] at hc

/-- The terminator of `dont_escape` is found for NUL; a negative byte gives a negative index. -/
theorem encodeByte_eq (c : UInt8) :
    encodeByte c =
      if c = 0 then some [0]
      else if c < 128 then some (if unescaped c then [c] else group c)
      else none := by
  revert c
  apply byte_forall
  decide +kernel

theorem ne_percent_of_unescaped (h : unescaped c = true) : c ≠ ofChar '%' := by
  rintro rfl
  exact absurd h (by decide)

theorem encodeByte_of_ascii (h0 : c ≠ 0) (h : c < 128) :
    encodeByte c = some (if unescaped c then [c] else group c) := by
  rw [encodeByte_eq, if_neg h0, if_pos h]

theorem encodeByte_isSome_iff : (encodeByte c).isSome ↔ c < 128 := by
  rw [encodeByte_eq]
  by_cases h0 : c = 0
  · subst h0
    simp
  · by_cases h : c < 128
    · simp [h0, h]
    · simp [h0, h]

theorem urlEncode_cons (c : UInt8) (str : Bytes) :
    urlEncode (c :: str) = (encodeByte c).bind fun text => (urlEncode str).map (text ++ ·) := by
  rw [urlEncode]
  cases encodeByte c with
  | none => rfl
  | some text => cases urlEncode str <;> rfl

/-- The table is read inside of it exactly for the strings of ASCII characters. -/
theorem urlEncode_isSome_iff : (urlEncode str).isSome ↔ ∀ c ∈ str, c < 128 := by
  induction str with
  | nil => simp [urlEncode]
  | cons c str ih =>
    rw [urlEncode_cons, List.forall_mem_cons, ← ih, ← encodeByte_isSome_iff]
    cases encodeByte c with
    | none => simp
    | some text => simp

/-- NUL is copied as it is. -/
theorem zero_mem_urlEncode (h : urlEncode str = some dst) (h0 : 0 ∈ str) : 0 ∈ dst := by
  induction str generalizing dst with
  | nil => cases h0
  | cons c str ih =>
    rw [urlEncode_cons] at h
    obtain ⟨text, htext, h⟩ := Option.bind_eq_some_iff.mp h
    obtain ⟨rest, hrest, rfl⟩ := Option.map_eq_some_iff.mp h
    rcases List.mem_cons.mp h0 with rfl | h0
    · rw [encodeByte_eq, if_pos rfl] at htext
      obtain rfl := Option.some_inj.mp htext
      exact List.mem_append_left _ (List.mem_singleton_self 0)
    · exact List.mem_append_right _ (ih hrest h0)

/-- Every other ASCII character is written so that it can be read back. -/
theorem reversible_cons (h0 : c ≠ 0) (hc : c < 128) (h : Reversible str) :
    Reversible (c :: str) := by
  obtain ⟨dst, hdst, hencoded, hdecode⟩ := h
  refine ⟨(if unescaped c then [c] else group c) ++ dst, ?_, ?_, ?_⟩
  · rw [urlEncode_cons, encodeByte_of_ascii h0 hc, hdst]
    rfl
  · split
    · exact .char ‹_› hencoded
    · exact encoded_group c hencoded
  · split
    · rw [List.singleton_append, decode_plain (ne_percent_of_unescaped ‹_›), hdecode]
      rfl
    · rw [decode_group, hdecode]
      rfl

/-- Exactly the strings of ASCII characters other than NUL are encoded reversibly. -/
theorem urlEncode_reversible_iff (str : Bytes) :
    Reversible str ↔ ∀ c ∈ str, c ≠ 0 ∧ c < 128 := by
  constructor
  · rintro ⟨dst, hdst, hencoded, -⟩ c hc
    have hascii := urlEncode_isSome_iff.mp (Option.isSome_of_eq_some hdst)
    refine ⟨?_, hascii c hc⟩
    rintro rfl
    have h0 : 0 ∉ dst := notMem_of_encoded (by decide) (by decide) (by decide) hencoded
    exact h0 (zero_mem_urlEncode hdst hc)
  · intro h
    induction str with
    | nil => exact ⟨[], rfl, .nil, rfl⟩
    | cons c str ih =>
      obtain ⟨⟨h0, hc⟩, h⟩ := List.forall_mem_cons.mp h
      exact reversible_cons h0 hc (ih h)

/-- A letter beyond ASCII is looked up at the index -2, and NUL is written as it is. -/
theorem urlEncode_not_reversible :
    urlEncode [0xE9] = none ∧ ¬ Reversible [0xE9] ∧
      urlEncode [0] = some [0] ∧ ¬ Reversible [0] := by
  have hnone : urlEncode [0xE9] = none := by decide
  have hzero : urlEncode [0] = some [0] := by decide
  refine ⟨hnone, ?_, hzero, ?_⟩
  · rintro ⟨dst, hdst, -⟩
    rw [hnone] at hdst
    cases hdst
  · rintro ⟨dst, hdst, hencoded, -⟩
    obtain rfl := Option.some_inj.mp (hzero.symm.trans hdst)
    have h0 : (0 : UInt8) ∉ [0] :=
      notMem_of_encoded (by decide) (by decide) (by decide) hencoded
    exact h0 (List.mem_singleton_self 0)

end RabbitClient.StringUtils
