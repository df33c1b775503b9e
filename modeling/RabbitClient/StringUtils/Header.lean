import RabbitClient.Library.BigEndian
import Mathlib.Algebra.Group.Int.Defs

/-!
The headers of fixed length written by `encode_header` and read by `decode_header`, for the
integer types they are instantiated at. Conversions and shifts are those of C++20: modulo the
width of the type, with operands narrower than `int` promoted to it.
-/
namespace RabbitClient.StringUtils

open Bytes

/-- `sizeof` of an integer type. -/
inductive Width where
  | one | two | four | eight
deriving DecidableEq

def Width.bytes : Width → Nat
  | .one => 1
  | .two => 2
  | .four => 4
  | .eight => 8

structure IntType where
  width : Width
  signed : Bool
deriving DecidableEq

namespace IntType

def bits (T : IntType) : Nat := 8 * T.width.bytes

/-- An object of the type, by its bits. -/
abbrev Obj (T : IntType) : Type := BitVec T.bits

/-- The number an object stands for. -/
def val (T : IntType) (x : T.Obj) : Int := if T.signed then x.toInt else x.toNat

/-- Conversion to the type. -/
def conv (T : IntType) (v : Int) : T.Obj := BitVec.ofInt T.bits v

/-- The width of the type after integer promotion. -/
def promoted (T : IntType) : Nat := max 32 T.bits

/-- `(number <<= 8) |= byte`: both operators work on the promoted operand and convert back. -/
def shiftIn (T : IntType) (number : T.Obj) (byte : UInt8) : T.Obj :=
  let number : T.Obj := (BitVec.ofInt T.promoted (T.val number) <<< 8).setWidth T.bits
  (BitVec.ofInt T.promoted (T.val number) ||| byte.toBitVec.setWidth T.promoted).setWidth T.bits

/-- `tam == 0 ? sizeof(number) : tam` -/
def sizeNumber (T : IntType) (tam : Nat) : Nat := if tam = 0 then T.width.bytes else tam

end IntType

/-- `std::vector::resize` -/
def resize (msg : Bytes) (n : Nat) : Bytes := msg.take n ++ List.replicate (n - msg.length) 0

/-- The loop of `encode_header` from `pos` (here one more than in the source) downwards. -/
def encodeFrom (value : BitVec 64) : (pos offset : Nat) → Bytes → Bytes
  | 0, _, msg => msg
  | pos + 1, offset, msg =>
    encodeFrom value pos (offset + 8) (msg.set pos (.ofBitVec ((value >>> offset &&& 0xFF).setWidth 8)))

/-- `encode_header`, for a length of at most eight bytes: a longer one shifts `value` by its
whole width or more. -/
def encode_header (T : IntType) (msg : Bytes) (number : T.Obj) (tam : Nat) : Bytes :=
  let SIZE_NUMBER := T.sizeNumber tam
  let value : BitVec 64 := BitVec.ofInt 64 (T.val number)
  encodeFrom value SIZE_NUMBER 0 (resize msg SIZE_NUMBER)

/-- The loop of `decode_header` from `n` on with `left` bytes to go; `none` past the end. -/
def decodeFrom (T : IntType) (msg : Bytes) : (left n : Nat) → T.Obj → Option T.Obj
  | 0, _, number => some number
  | left + 1, n, number => do
    let byte ← msg[n]?
    decodeFrom T msg left (n + 1) (T.shiftIn number byte)

def decode_header (T : IntType) (msg : Bytes) (tam : Nat) : Option T.Obj :=
  decodeFrom T msg (T.sizeNumber tam) 0 0

example : encode_header ⟨.two, true⟩ [7] (-2) 4 = [0xFF, 0xFF, 0xFF, 0xFE] := by decide

namespace IntType
variable {T : IntType}

theorem bits_pos : 8 ≤ T.bits ∧ T.bits ≤ 64 ∧ T.bits ≤ T.promoted := by
  refine ⟨?_, ?_, Nat.le_max_right ..⟩
  · cases h : T.width <;> simp [bits, h, Width.bytes]
  · cases h : T.width <;> simp [bits, h, Width.bytes]

theorem conv_val (x : T.Obj) : T.conv (T.val x) = x := by
  unfold conv val
  split
  · exact BitVec.ofInt_toInt
  · simp

theorem shiftIn_eq (number : T.Obj) (byte : UInt8) :
    T.shiftIn number byte = number <<< 8 ||| byte.toBitVec.setWidth T.bits := by
  have hp : T.bits ≤ T.promoted := bits_pos.2.2
  have hself : ∀ x : T.Obj, BitVec.ofInt T.bits (T.val x) = x := conv_val
  simp only [shiftIn, BitVec.setWidth_or, BitVec.setWidth_ofInt hp,
    BitVec.setWidth_shiftLeft_of_le hp, hself, BitVec.setWidth_setWidth_of_le _ hp]

theorem shiftIn_toNat (number : T.Obj) (byte : UInt8) :
    (T.shiftIn number byte).toNat = (256 * number.toNat + byte.toNat) % 2 ^ T.bits := by
  rw [shiftIn_eq, BitVec.toNat_shiftLeft_or_byte bits_pos.1]

theorem conv_toNat (z : Int) : ((T.conv z).toNat : Int) = z % (2 ^ T.bits : Nat) :=
  BitVec.toNat_ofInt_cast _ _

/-- An object and its number agree modulo the width of the type. -/
theorem val_emod (x : T.Obj) : T.val x % (2 ^ T.bits : Nat) = x.toNat := by
  have h := conv_toNat (T := T) (T.val x)
  rw [conv_val] at h
  exact h.symm

/-- Shifting bytes in one after the other reads them as a numeral, modulo the width. -/
theorem foldl_shiftIn_toNat (b : Bytes) {number : T.Obj} {v : Nat}
    (h : number.toNat = v % 2 ^ T.bits) :
    (b.foldl T.shiftIn number).toNat =
      b.foldl (fun v x => 256 * v + x.toNat) v % 2 ^ T.bits := by
  induction b generalizing number v with
  | nil => exact h
  | cons x b ih =>
    apply ih
    rw [shiftIn_toNat, h]
    simp [Nat.add_mod, Nat.mul_mod]

end IntType

variable {T : IntType}

theorem length_resize (msg : Bytes) (n : Nat) : (resize msg n).length = n := by
  simp only [resize, List.length_append, List.length_take, List.length_replicate]
  omega

/-- The loop writes the numeral in front of what it has already written. -/
theorem encodeFrom_eq (value : BitVec 64) {pos offset : Nat} {msg : Bytes}
    (h : pos ≤ msg.length) :
    encodeFrom value pos offset msg =
      bigEndian pos (value.toNat / 2 ^ offset) ++ msg.drop pos := by
  induction pos generalizing offset msg with
  | zero => simp [encodeFrom, bigEndian]
  | succ pos ih =>
    have hdiv : value.toNat / 2 ^ (offset + 8) = value.toNat / 2 ^ offset / 256 := by
      rw [Nat.pow_add, ← Nat.div_div_eq_div_mul]
    have hdrop : ∀ x, (msg.set pos x).drop pos = x :: msg.drop (pos + 1) := by
      intro x
      rw [List.drop_set, if_neg (Nat.lt_irrefl pos), Nat.sub_self, List.drop_eq_getElem_cons h,
        List.set_cons_zero]
    rw [encodeFrom, ih (by simpa using Nat.le_of_succ_le h), BitVec.ofBitVec_low_byte, hdiv, hdrop,
      bigEndian]
    simp

theorem encode_header_eq (msg : Bytes) (number : T.Obj) (tam : Nat) :
    encode_header T msg number tam =
      bigEndian (T.sizeNumber tam) (BitVec.ofInt 64 (T.val number)).toNat := by
  have hl := length_resize msg (T.sizeNumber tam)
  rw [encode_header, encodeFrom_eq _ (by omega), List.drop_eq_nil_of_le (by omega)]
  simp

theorem decodeFrom_eq {msg : Bytes} {left n : Nat} {number : T.Obj} (h : n + left ≤ msg.length) :
    decodeFrom T msg left n number = some (((msg.drop n).take left).foldl T.shiftIn number) := by
  induction left generalizing n number with
  | zero => simp [decodeFrom]
  | succ left ih =>
    have hn : n < msg.length := by omega
    rw [decodeFrom, List.getElem?_eq_getElem hn, List.drop_eq_getElem_cons hn]
    exact ih (by omega)

/-- Any number of bytes of the right length is read as a numeral, modulo the width. -/
theorem decode_header_eq {msg : Bytes} {tam : Nat} (h : msg.length = T.sizeNumber tam) :
    decode_header T msg tam = some (T.conv (ofBigEndian msg)) := by
  have hfold : msg.foldl T.shiftIn 0 = T.conv (ofBigEndian msg) := by
    apply BitVec.eq_of_toNat_eq
    rw [IntType.foldl_shiftIn_toNat msg (v := 0) (by simp), IntType.conv, BitVec.ofInt_natCast,
      BitVec.toNat_ofNat]
    rfl
  rw [decode_header, decodeFrom_eq (by omega), ← h, ← hfold]
  simp

theorem pow_256 (n : Nat) : 256 ^ n = 2 ^ (8 * n) := by
  rw [Nat.pow_mul]

/-- Converting to eight bytes keeps each of the eight lowest digits. -/
theorem ofInt_digit (z : Int) {k : Nat} (h : k < 8) :
    UInt8.ofNat ((BitVec.ofInt 64 z).toNat / 256 ^ k) = UInt8.ofNat (z / 256 ^ k % 256).toNat := by
  have hz := BitVec.toNat_ofInt_cast 64 z
  generalize (BitVec.ofInt 64 z).toNat = r at hz ⊢
  apply UInt8.toNat_inj.mp
  rw [UInt8.toNat_ofNat', UInt8.toNat_ofNat']
  have hk : k = 0 ∨ k = 1 ∨ k = 2 ∨ k = 3 ∨ k = 4 ∨ k = 5 ∨ k = 6 ∨ k = 7 := by omega
  rcases hk with rfl | rfl | rfl | rfl | rfl | rfl | rfl | rfl <;> omega

/-- A type at least as narrow as the header, or a small number in a shorter header. -/
def Fits (T : IntType) (number : T.Obj) (n : Nat) : Prop :=
  T.width.bytes ≤ n ∨ (0 ≤ T.val number ∧ T.val number < 256 ^ n)

theorem conv_low_bytes {number : T.Obj} {n : Nat} (h8 : n ≤ 8) (h : Fits T number n) :
    T.conv ((BitVec.ofInt 64 (T.val number)).toNat % 256 ^ n : Nat) = number := by
  rcases h with hw | ⟨h0, hlt⟩
  · -- the bits cut off are above those of the type
    have hdvd : ((2 ^ T.bits : Nat) : Int) ∣ (256 ^ n : Nat) := by
      rw [pow_256]
      exact Int.natCast_dvd_natCast.mpr (Nat.pow_dvd_pow 2 (Nat.mul_le_mul_left 8 hw))
    have h64 : ((2 ^ T.bits : Nat) : Int) ∣ (2 ^ 64 : Nat) :=
      Int.natCast_dvd_natCast.mpr (Nat.pow_dvd_pow 2 IntType.bits_pos.2.1)
    apply BitVec.eq_of_toNat_eq
    apply Int.ofNat_inj.mp
    rw [IntType.conv_toNat, Int.natCast_emod, BitVec.toNat_ofInt_cast, Int.emod_emod_of_dvd _ hdvd,
      Int.emod_emod_of_dvd _ h64, IntType.val_emod]
  · -- nothing is cut off
    have hle : 256 ^ n ≤ 2 ^ 64 := by
      rw [pow_256]
      exact Nat.pow_le_pow_right (by omega) (by omega)
    have hz := BitVec.toNat_ofInt_cast 64 (T.val number)
    have hcast : ((256 ^ n : Nat) : Int) = 256 ^ n := by simp
    rw [Int.emod_eq_of_lt h0 (by omega)] at hz
    rw [Nat.mod_eq_of_lt (by omega), hz, IntType.conv_val]

/-- The number a header holds, converted to eight bytes, is the header's numeral again. -/
theorem ofInt_val_conv (z : Nat) {n : Nat} (h : n ≤ T.width.bytes) :
    (BitVec.ofInt 64 (T.val (T.conv z))).toNat % 256 ^ n = z % 256 ^ n := by
  have hle : 8 * n ≤ T.bits := Nat.mul_le_mul_left 8 h
  have hbits : T.bits ≤ 64 := IntType.bits_pos.2.1
  have hdvd : ((256 ^ n : Nat) : Int) ∣ (2 ^ T.bits : Nat) := by
    rw [pow_256]
    exact Int.natCast_dvd_natCast.mpr (Nat.pow_dvd_pow 2 hle)
  have h64 : ((256 ^ n : Nat) : Int) ∣ (2 ^ 64 : Nat) := by
    rw [pow_256]
    exact Int.natCast_dvd_natCast.mpr (Nat.pow_dvd_pow 2 (by omega))
  apply Int.ofNat_inj.mp
  rw [Int.natCast_emod, BitVec.toNat_ofInt_cast, Int.emod_emod_of_dvd _ h64,
    ← Int.emod_emod_of_dvd _ hdvd, IntType.val_emod, IntType.conv_toNat,
    Int.emod_emod_of_dvd _ hdvd, Int.natCast_emod]

theorem sizeNumber_le {tam : Nat} (h : tam ≤ 8) : T.sizeNumber tam ≤ 8 := by
  have hb : T.bits ≤ 64 := IntType.bits_pos.2.1
  unfold IntType.sizeNumber
  unfold IntType.bits at hb
  split <;> omega

/-- A header of at most eight bytes holds the lowest bytes of the number, most significant first,
and reads back as the number whenever that fits; reading and writing again changes nothing in a
header that is not longer than the type. -/
theorem encode_decode_header (T : IntType) (number : T.Obj) (msg : Bytes) (tam : Nat)
    (h8 : tam ≤ 8) :
    let n := T.sizeNumber tam
    let header := encode_header T msg number tam
    header.length = n ∧
    (∀ i < n, header[i]? = some (UInt8.ofNat (T.val number / 256 ^ (n - 1 - i) % 256).toNat)) ∧
    (Fits T number n → decode_header T header tam = some number) ∧
    ∀ m : Bytes, m.length = n → n ≤ T.width.bytes →
      ∃ x, decode_header T m tam = some x ∧ encode_header T msg x tam = m := by
  intro n header
  have hn : n ≤ 8 := sizeNumber_le h8
  have heq : header = bigEndian n (BitVec.ofInt 64 (T.val number)).toNat := encode_header_eq ..
  have hlen : header.length = n := by rw [heq, length_bigEndian]
  refine ⟨hlen, ?_, ?_, ?_⟩
  · intro i hi
    rw [heq, getElem?_bigEndian hi, ofInt_digit _ (by omega)]
  · intro hfits
    rw [decode_header_eq hlen, heq, ofBigEndian_bigEndian, conv_low_bytes hn hfits]
  · intro m hm hw
    refine ⟨_, decode_header_eq hm, ?_⟩
    have hinv := bigEndian_ofBigEndian m
    rw [hm] at hinv
    rw [encode_header_eq, ← bigEndian_mod, ofInt_val_conv _ hw, bigEndian_mod]
    exact hinv

theorem encode_decode_header_two :
    let T : IntType := ⟨.two, true⟩
    (encode_header T [7] (-2) 4).length = 4 ∧
      decode_header T (encode_header T [7] (-2) 4) 4 = some (-2) := by
  intro T
  have h := encode_decode_header T (-2) [7] 4 (by decide)
  exact ⟨h.1, h.2.2.1 (.inl (by decide))⟩

end RabbitClient.StringUtils
