import RabbitClient.Library.Bytes
import Mathlib.Data.List.Induction

/-! Fixed-length big-endian numerals. -/
namespace Bytes

/-- The last `n` base-256 digits of `v`, most significant first. -/
def bigEndian : Nat → Nat → Bytes
  | 0, _ => []
  | n + 1, v => bigEndian n (v / 256) ++ [UInt8.ofNat v]

def ofBigEndian (b : Bytes) : Nat := b.foldl (fun v x => 256 * v + x.toNat) 0

@[simp] theorem length_bigEndian (n v : Nat) : (bigEndian n v).length = n := by
  induction n generalizing v with
  | zero => rfl
  | succ n ih => simp [bigEndian, ih]

theorem ofBigEndian_append (b : Bytes) (x : UInt8) :
    ofBigEndian (b ++ [x]) = 256 * ofBigEndian b + x.toNat := by
  simp [ofBigEndian]

theorem ofBigEndian_bigEndian (n v : Nat) : ofBigEndian (bigEndian n v) = v % 256 ^ n := by
  induction n generalizing v with
  | zero => simp [bigEndian, ofBigEndian, Nat.mod_one]
  | succ n ih =>
    have hlow : (UInt8.ofNat v).toNat = v % 256 := UInt8.toNat_ofNat'
    rw [bigEndian, ofBigEndian_append, ih, hlow, Nat.pow_succ', Nat.mod_mul]
    omega

/-- A numeral is determined by its value and its length. -/
theorem bigEndian_ofBigEndian (b : Bytes) : bigEndian b.length (ofBigEndian b) = b := by
  induction b using List.reverseRecOn with
  | nil => rfl
  | append_singleton b x ih =>
    have hx : x.toNat < 256 := x.toNat_lt
    have hhigh : (256 * ofBigEndian b + x.toNat) / 256 = ofBigEndian b := by omega
    have hlow : UInt8.ofNat (256 * ofBigEndian b + x.toNat) = x := by
      apply UInt8.toNat_inj.mp
      rw [UInt8.toNat_ofNat']
      omega
    rw [List.length_append, List.length_singleton, ofBigEndian_append, bigEndian, hhigh, hlow, ih]

theorem bigEndian_mod (n v : Nat) : bigEndian n (v % 256 ^ n) = bigEndian n v := by
  have h := bigEndian_ofBigEndian (bigEndian n v)
  rwa [length_bigEndian, ofBigEndian_bigEndian] at h

theorem getElem?_bigEndian {n v i : Nat} (h : i < n) :
    (bigEndian n v)[i]? = some (UInt8.ofNat (v / 256 ^ (n - 1 - i))) := by
  induction n generalizing v with
  | zero => omega
  | succ n ih =>
    rw [bigEndian]
    by_cases hi : i < n
    · have hexp : n + 1 - 1 - i = n - 1 - i + 1 := by omega
      rw [List.getElem?_append_left (by simpa using hi), ih hi, hexp, Nat.pow_succ',
        Nat.div_div_eq_div_mul]
    · obtain rfl : i = n := by omega
      rw [List.getElem?_append_right (by simp)]
      simp

end Bytes

/-! Machine integers of different widths, and one byte shifted into them. -/
namespace BitVec

theorem toNat_ofInt_cast (n : Nat) (v : Int) :
    ((BitVec.ofInt n v).toNat : Int) = v % (2 ^ n : Nat) := by
  have hpos : 0 < 2 ^ n := Nat.two_pow_pos n
  rw [BitVec.toNat_ofInt]
  exact Int.toNat_of_nonneg (Int.emod_nonneg _ (by omega))

/-- Converting to a wide type and cutting back is converting to the narrow one. -/
theorem setWidth_ofInt {n m : Nat} (h : m ≤ n) (v : Int) :
    (BitVec.ofInt n v).setWidth m = BitVec.ofInt m v := by
  have hdvd : ((2 ^ m : Nat) : Int) ∣ (2 ^ n : Nat) :=
    Int.natCast_dvd_natCast.mpr (Nat.pow_dvd_pow 2 h)
  apply BitVec.eq_of_toNat_eq
  apply Int.ofNat_inj.mp
  rw [BitVec.toNat_setWidth, Int.natCast_emod, toNat_ofInt_cast, toNat_ofInt_cast,
    Int.emod_emod_of_dvd _ hdvd]

theorem toNat_shiftLeft_or_byte {w : Nat} (hw : 8 ≤ w) (x : BitVec w) (b : UInt8) :
    (x <<< 8 ||| b.toBitVec.setWidth w).toNat = (256 * x.toNat + b.toNat) % 2 ^ w := by
  -- the operands have no bit in common, so `|||` adds them
  have hand : x <<< 8 &&& b.toBitVec.setWidth w = 0#w := by
    ext i hi
    by_cases h : i < 8
    · simp [h]
    · simp [BitVec.getLsbD_of_ge b.toBitVec i (by omega)]
  have hb : b.toBitVec.toNat % 2 ^ w = b.toNat := by
    apply Nat.mod_eq_of_lt
    have h8 : 2 ^ 8 ≤ 2 ^ w := Nat.pow_le_pow_right (by omega) hw
    have hlt := b.toNat_lt
    have he : b.toBitVec.toNat = b.toNat := rfl
    omega
  rw [← BitVec.add_eq_or_of_and_eq_zero _ _ hand, BitVec.toNat_add, BitVec.toNat_shiftLeft,
    BitVec.toNat_setWidth, hb, Nat.mod_add_mod, Nat.shiftLeft_eq, Nat.mul_comm]

theorem ofBitVec_low_byte (x : BitVec 64) (n : Nat) :
    UInt8.ofBitVec ((x >>> n &&& 0xFF).setWidth 8) = UInt8.ofNat (x.toNat / 2 ^ n) := by
  have hmask : (x >>> n &&& 0xFF).toNat = x.toNat / 2 ^ n % 256 := by
    rw [BitVec.toNat_and, BitVec.toNat_ushiftRight, Nat.shiftRight_eq_div_pow]
    exact Nat.and_two_pow_sub_one_eq_mod _ 8
  apply UInt8.toNat_inj.mp
  rw [UInt8.toNat_ofBitVec, BitVec.toNat_setWidth, hmask, UInt8.toNat_ofNat', Nat.mod_mod]

end BitVec
