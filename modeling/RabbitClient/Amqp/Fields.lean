import RabbitClient.Amqp.TableRoundTrip
import Mathlib.Data.Nat.Bitwise

/-!
The fields of methods and properties. The source has a sequence of statements for each method,
generated from the types of its fields; here each type of field has its encoder and decoder.
-/
namespace RabbitClient.Amqp

open Bytes WireBuffer

/-- A field by its type and its name, or up to eight neighbouring bits that share a byte. -/
inductive Field where
  | octet (name : String)
  | short (name : String)
  | long (name : String)
  | longlong (name : String)
  | shortstr (name : String)
  | longstr (name : String)
  | table (name : String)
  | bits (names : { l : List String // l.length ≤ 8 })

abbrev Field.Val : Field → Type
  | octet _ => UInt8
  | short _ => UInt16
  | long _ => UInt32
  | longlong _ => UInt64
  | shortstr _ => Bytes
  | longstr _ => Bytes
  | table _ => Table
  | bits names => Fin names.val.length → Bool

theorem length_take_eight (names : List String) : (names.take 8).length ≤ 8 :=
  List.length_take_le 8 names

/-- The bits of a byte by their names, the lowest first; there are never more than eight. -/
def Field.group (names : List String) : Field := .bits ⟨names.take 8, length_take_eight names⟩

/-- A string with its length in front, which must not be too long for it. -/
def encodeString (max : Nat) (len : Encoder Unit Unit) (b : Bytes) : Encoder Status Unit :=
  if max < b.length then throw .AMQP_STATUS_BAD_AMQP_DATA
  else Encoder.orReturn (do len; amqp_encode_bytes b) .AMQP_STATUS_BAD_AMQP_DATA

def encodeField : (f : Field) → f.Val → Encoder Status Unit
  | .octet _, v => (amqp_encode_8 v).orReturn .AMQP_STATUS_BAD_AMQP_DATA
  | .short _, v => (amqp_encode_16 v).orReturn .AMQP_STATUS_BAD_AMQP_DATA
  | .long _, v => (amqp_encode_32 v).orReturn .AMQP_STATUS_BAD_AMQP_DATA
  | .longlong _, v => (amqp_encode_64 v).orReturn .AMQP_STATUS_BAD_AMQP_DATA
  | .shortstr _, b => encodeString 255 (amqp_encode_8 (.ofNat b.length)) b
  | .longstr _, b => encodeString 4294967295 (amqp_encode_32 (.ofNat b.length)) b
  | .table _, t => amqp_encode_table t
  | .bits _, v => (amqp_encode_8 (.ofNat (Nat.ofBits v))).orReturn .AMQP_STATUS_BAD_AMQP_DATA

def decodeField : (f : Field) → Decoder Status f.Val
  | .octet _ => amqp_decode_8.orReturn .AMQP_STATUS_BAD_AMQP_DATA
  | .short _ => amqp_decode_16.orReturn .AMQP_STATUS_BAD_AMQP_DATA
  | .long _ => amqp_decode_32.orReturn .AMQP_STATUS_BAD_AMQP_DATA
  | .longlong _ => amqp_decode_64.orReturn .AMQP_STATUS_BAD_AMQP_DATA
  | .shortstr _ => Decoder.orReturn
      (amqp_decode_8 >>= fun len => amqp_decode_bytes len.toNat) .AMQP_STATUS_BAD_AMQP_DATA
  | .longstr _ => Decoder.orReturn
      (amqp_decode_32 >>= fun len => amqp_decode_bytes len.toNat) .AMQP_STATUS_BAD_AMQP_DATA
  | .table _ => amqp_decode_table
  | .bits _ =>
      (fun bit_buffer i => bit_buffer.toNat.testBit i) <$>
        amqp_decode_8.orReturn .AMQP_STATUS_BAD_AMQP_DATA

/-- The encoding of a field, if its value has one. -/
def fieldWire : (f : Field) → f.Val → Option Bytes
  | .octet _, v => some (bigEndian 1 v.toNat)
  | .short _, v => some (bigEndian 2 v.toNat)
  | .long _, v => some (bigEndian 4 v.toNat)
  | .longlong _, v => some (bigEndian 8 v.toNat)
  | .shortstr _, b => if 255 < b.length then none else some (lengthPrefixed 1 b)
  | .longstr _, b => if 4294967295 < b.length then none else some (lengthPrefixed 4 b)
  | .table _, t => t.wire
  | .bits _, v => some (bigEndian 1 (Nat.ofBits v))

/-- The tables in a field can be represented. -/
def FieldRegular : (f : Field) → f.Val → Prop
  | .table _, t => t.Regular
  | _, _ => True

theorem emits_string {max n : Nat} {len : Encoder Unit Unit} {b : Bytes}
    (h : Emits len (some (bigEndian n b.length))) :
    Emits (encodeString max len b)
      (if max < b.length then none else some (lengthPrefixed n b)) := by
  rw [encodeString]
  split
  · exact emits_fail _
  · exact (h.bind (emits_bytes b)).orReturn _

theorem ofBits_lt (names : { l : List String // l.length ≤ 8 })
    (v : Fin names.val.length → Bool) : Nat.ofBits v < 256 := by
  have hpow : 2 ^ names.val.length ≤ 2 ^ 8 := Nat.pow_le_pow_right (by omega) names.property
  exact Nat.lt_of_lt_of_le (Nat.ofBits_lt_two_pow v) hpow

theorem emits_encodeField (f : Field) (v : f.Val) : Emits (encodeField f v) (fieldWire f v) := by
  cases f with
  | octet _ => exact (emits_8 v).orReturn _
  | short _ => exact (emits_16 v).orReturn _
  | long _ => exact (emits_32 v).orReturn _
  | longlong _ => exact (emits_64 v).orReturn _
  | shortstr _ =>
    have h := emits_8 (.ofNat (List.length v))
    rw [bigEndian_ofNat_8] at h
    exact emits_string h
  | longstr _ =>
    have h := emits_32 (.ofNat (List.length v))
    rw [bigEndian_ofNat_32] at h
    exact emits_string h
  | table _ => exact emits_table v
  | bits names =>
    have h := emits_8 (.ofNat (Nat.ofBits v))
    rw [bigEndian_ofNat_8] at h
    exact h.orReturn _

theorem reads_bits (names : { l : List String // l.length ≤ 8 })
    (v : Fin names.val.length → Bool) :
    Reads (decodeField (.bits names)) (bigEndian 1 (Nat.ofBits v)) v := by
  have hval : (UInt8.ofNat (Nat.ofBits v)).toNat = Nat.ofBits v :=
    UInt8.toNat_ofNat_of_lt' (ofBits_lt names v)
  have hr := (reads_8 (.ofNat (Nat.ofBits v))).orReturn Status.AMQP_STATUS_BAD_AMQP_DATA
  have h := hr.map fun (bit_buffer : UInt8) (i : Fin names.val.length) =>
    bit_buffer.toNat.testBit i
  rw [hval] at h
  have hbits : (fun i : Fin names.val.length => (Nat.ofBits v).testBit i) = v :=
    funext fun i => Nat.testBit_ofBits_lt v i i.isLt
  rw [hbits] at h
  exact h

theorem reads_decodeField {f : Field} {v : f.Val} {b : Bytes} (hb : fieldWire f v = some b)
    (h : FieldRegular f v) (hlen : b.length < 2 ^ 32) : Reads (decodeField f) b v := by
  cases f with
  | octet _ =>
    cases hb
    exact (reads_8 v).orReturn _
  | short _ =>
    cases hb
    exact (reads_16 v).orReturn _
  | long _ =>
    cases hb
    exact (reads_32 v).orReturn _
  | longlong _ =>
    cases hb
    exact (reads_64 v).orReturn _
  | shortstr _ =>
    simp only [fieldWire] at hb
    split at hb
    · cases hb
    · next hle =>
      cases hb
      exact (reads_shortstr (by omega)).orReturn _
  | longstr _ =>
    simp only [fieldWire] at hb
    split at hb
    · cases hb
    · next hle =>
      cases hb
      exact (reads_longstr (by omega)).orReturn _
  | table _ => exact reads_table hb h hlen
  | bits names =>
    cases hb
    exact reads_bits names v

theorem consumes_decodeField (f : Field) : Consumes (decodeField f) := by
  cases f with
  | octet _ => exact consumes_8.orReturn _
  | short _ => exact consumes_16.orReturn _
  | long _ => exact consumes_32.orReturn _
  | longlong _ => exact consumes_64.orReturn _
  | shortstr _ => exact (consumes_8.bind fun len => consumes_bytes len.toNat).orReturn _
  | longstr _ => exact consumes_longstr.orReturn _
  | table _ => exact consumes_table
  | bits names => exact (consumes_8.orReturn _).map _

theorem yields_decodeField (f : Field) : Yields (decodeField f) (FieldRegular f) := by
  cases f with
  | table _ => exact yields_table
  | _ => exact fun _ _ _ _ _ => trivial

end RabbitClient.Amqp
