import Mathlib.Algebra.Group.Int.Defs
import RabbitClient.Library.Bytes

/-! `split`, and the numbers that are read from its elements. -/
namespace RabbitClient.StringUtils

open Bytes

variable {delimiter : UInt8} {b input : Bytes} {n : Nat}

/-- The loop of `split`; `itV1` is the element begun, if there is one. -/
def splitLoop (delimiter : UInt8) : Option Bytes → Bytes → List Bytes
  | itV1, [] => [itV1.getD []]
  | itV1, c :: input =>
    if c = delimiter then itV1.getD [] :: splitLoop delimiter none input
    else splitLoop delimiter (some (itV1.getD [] ++ [c])) input

/-- `split`; its last argument only reserves room, it does not bound the number of elements. -/
def split (input : Bytes) (delimiter : UInt8) : List Bytes :=
  splitLoop delimiter none (cstr input)

theorem splitLoop_eq (delimiter : UInt8) (itV1 : Option Bytes) (input : Bytes) :
    splitLoop delimiter itV1 input =
      (input.splitOn delimiter).modifyHead (itV1.getD [] ++ ·) := by
  induction input generalizing itV1 with
  | nil => simp [splitLoop]
  | cons c input ih =>
    rw [splitLoop, List.splitOn_cons_eq_if_modifyHead]
    by_cases hc : c = delimiter
    · simp only [hc, if_true, beq_self_eq_true, ih]
      cases input.splitOn delimiter <;> simp
    · simp only [hc, if_false, beq_iff_eq, ih]
      cases input.splitOn delimiter <;> simp

/-- What comes before a NUL is cut at every delimiter. -/
theorem split_eq (h : 0 ∉ input) : split input delimiter = input.splitOn delimiter := by
  rw [split, splitLoop_eq, cstr_of_notMem h]
  cases input.splitOn delimiter <;> simp

/-- The head of a split list is what stands before the first delimiter. -/
theorem splitOn_eq_cons (delimiter : UInt8) (b : Bytes) :
    ∃ rest, b.splitOn delimiter = b.takeWhile (· ≠ delimiter) :: rest := by
  induction b with
  | nil => exact ⟨[], by simp⟩
  | cons c b ih =>
    obtain ⟨rest, hrest⟩ := ih
    rw [List.splitOn_cons_eq_if_modifyHead]
    by_cases hc : c = delimiter
    · exact ⟨b.splitOn delimiter, by simp [hc]⟩
    · exact ⟨rest, by simp [hc, hrest]⟩

/-- The value of a `char` as an `int`, less that of `'0'`. -/
def digitValue (c : UInt8) : UInt64 := UInt64.ofInt (c.toInt8.toInt - 48)

/-- `atoui64`; it does not look whether the characters are digits. -/
def atoui64 (value : Bytes) : UInt64 :=
  (cstr value).foldl (fun result c => result * 10 + digitValue c) 0

theorem digitValue_of_digit {c : UInt8} (hlo : 48 ≤ c.toNat) (hhi : c.toNat ≤ 57) :
    digitValue c = UInt64.ofNat (c.toNat - 48) := by
  have hint : c.toInt8.toInt = c.toNat := by
    have hlt : 2 * c.toBitVec.toNat < 2 ^ 8 := by
      rw [UInt8.toNat_toBitVec]
      omega
    exact BitVec.toInt_eq_toNat_of_lt hlt
  have hmod : ((c.toNat : Int) - 48) % 2 ^ 64 = (c.toNat - 48 : Nat) := by omega
  rw [digitValue, hint, UInt64.ofInt, hmod, Int.toNat_natCast]

theorem foldl_digits (hd : ∀ c ∈ b, 48 ≤ c.toNat ∧ c.toNat ≤ 57) (n : Nat) :
    b.foldl (fun result c => result * 10 + digitValue c) (UInt64.ofNat n) =
      UInt64.ofNat (b.foldl (fun n x => 10 * n + (x.toNat - 48)) n) := by
  induction b generalizing n with
  | nil => rfl
  | cons c b ih =>
    obtain ⟨⟨hlo, hhi⟩, hb⟩ := List.forall_mem_cons.mp hd
    have hstep : UInt64.ofNat n * 10 + digitValue c =
        UInt64.ofNat (10 * n + (c.toNat - 48)) := by
      rw [digitValue_of_digit hlo hhi, UInt64.ofNat_add, Nat.mul_comm, UInt64.ofNat_mul]
      rfl
    rw [List.foldl_cons, List.foldl_cons, hstep, ih hb]

/-- A printed number is read back. -/
theorem atoui64_decimal (n : UInt64) : atoui64 (decimal n.toNat) = n := by
  have hd : ∀ c ∈ decimal n.toNat, 48 ≤ c.toNat ∧ c.toNat ≤ 57 := fun c hc => mem_decimal hc
  have hfold := foldl_digits hd 0
  rw [atoui64, cstr_of_notMem (zero_notMem_decimal _)]
  rw [← ofDigits, ofDigits_decimal] at hfold
  simpa using hfold

def isspace (c : UInt8) : Bool := c = 32 || (9 ≤ c && c ≤ 13)

def isdigit (c : UInt8) : Bool := 48 ≤ c && c ≤ 57

theorem isdigit_iff {c : UInt8} : isdigit c = true ↔ 48 ≤ c.toNat ∧ c.toNat ≤ 57 := by
  simp [isdigit, UInt8.le_iff_toNat_le]

theorem isspace_of_isdigit {c : UInt8} (h : isdigit c = true) : isspace c = false := by
  obtain ⟨hlo, hhi⟩ := isdigit_iff.mp h
  simp only [isspace, UInt8.le_iff_toNat_le, Bool.or_eq_false_iff, decide_eq_false_iff_not,
    ← UInt8.toNat_inj, Bool.and_eq_false_iff]
  simp
  omega

/-- The number that the digits at the head of a string make up. -/
def leading (b : Bytes) : Int := ofDigits (b.takeWhile isdigit)

/-- `atol`; a `long` has 64 bits. -/
def atol (value : Bytes) : Int :=
  match value.dropWhile isspace with
  | 45 :: b => max (-leading b) (-2 ^ 63)
  | 43 :: b => min (leading b) (2 ^ 63 - 1)
  | b => min (leading b) (2 ^ 63 - 1)

theorem atol_decimal (h : n < 2 ^ 63) : atol (decimal n) = n := by
  have hd : ∀ c ∈ decimal n, 48 ≤ c.toNat ∧ c.toNat ≤ 57 := fun c hc => mem_decimal hc
  have htake : (decimal n).takeWhile isdigit = decimal n :=
    List.takeWhile_eq_self_iff.mpr fun c hc => isdigit_iff.mpr (hd c hc)
  cases hb : decimal n with
  | nil => exact (decimal_ne_nil n hb).elim
  | cons c b =>
    have hdigit := hd c (by simp [hb])
    have hspace : isspace c = false := isspace_of_isdigit (isdigit_iff.mpr hdigit)
    have hminus : c ≠ 45 := by
      rintro rfl
      contradiction
    have hplus : c ≠ 43 := by
      rintro rfl
      contradiction
    have hdrop : (c :: b).dropWhile isspace = c :: b := by
      simp [hspace]
    rw [atol, hdrop]
    split
    · simp_all
    · simp_all
    · rename_i b' _ _
      rw [← hb, leading, htake, ofDigits_decimal]
      omega

end RabbitClient.StringUtils
