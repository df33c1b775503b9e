import RabbitClient.Library.WireBuffer

/-! The codecs of the base types: integers in network byte order and byte strings. -/
namespace RabbitClient.Amqp

open Bytes WireBuffer

/-- The error codes of `amqp_status_enum` that the functions modelled here return. -/
inductive Status where
  | AMQP_STATUS_NO_MEMORY
  | AMQP_STATUS_BAD_AMQP_DATA
  | AMQP_STATUS_UNKNOWN_CLASS
  | AMQP_STATUS_UNKNOWN_METHOD
  | AMQP_STATUS_INVALID_PARAMETER
  | AMQP_STATUS_TABLE_TOO_BIG
  | AMQP_STATUS_WRONG_METHOD
  | AMQP_STATUS_TIMEOUT
  | AMQP_STATUS_TIMER_FAILURE
  | AMQP_STATUS_HEARTBEAT_TIMEOUT
  | AMQP_STATUS_UNEXPECTED_STATE
  | AMQP_STATUS_CONNECTION_CLOSED
  | AMQP_STATUS_SOCKET_CLOSED
  | AMQP_STATUS_SOCKET_ERROR
deriving DecidableEq

def amqp_encode_8 (input : UInt8) : Encoder Unit Unit := write (bigEndian 1 input.toNat)

def amqp_encode_16 (input : UInt16) : Encoder Unit Unit := write (bigEndian 2 input.toNat)

def amqp_encode_32 (input : UInt32) : Encoder Unit Unit := write (bigEndian 4 input.toNat)

def amqp_encode_64 (input : UInt64) : Encoder Unit Unit := write (bigEndian 8 input.toNat)

def amqp_decode_8 : Decoder Unit UInt8 := (fun b => .ofNat (ofBigEndian b)) <$> take 1

def amqp_decode_16 : Decoder Unit UInt16 := (fun b => .ofNat (ofBigEndian b)) <$> take 2

def amqp_decode_32 : Decoder Unit UInt32 := (fun b => .ofNat (ofBigEndian b)) <$> take 4

def amqp_decode_64 : Decoder Unit UInt64 := (fun b => .ofNat (ofBigEndian b)) <$> take 8

/-- An empty string is written anywhere, even behind the end of the buffer. -/
def amqp_encode_bytes (input : Bytes) : Encoder Unit Unit :=
  if input.length = 0 then pure () else write input

def amqp_decode_bytes (len : Nat) : Decoder Unit Bytes := take len

theorem bigEndian_ne_nil {n v : Nat} (hn : 0 < n) : bigEndian n v ≠ [] := by
  intro h
  have hlen := length_bigEndian n v
  rw [h, List.length_nil] at hlen
  omega

theorem emits_8 (v : UInt8) : Emits (amqp_encode_8 v) (some (bigEndian 1 v.toNat)) :=
  emits_write (bigEndian_ne_nil (by omega))

theorem emits_16 (v : UInt16) : Emits (amqp_encode_16 v) (some (bigEndian 2 v.toNat)) :=
  emits_write (bigEndian_ne_nil (by omega))

theorem emits_32 (v : UInt32) : Emits (amqp_encode_32 v) (some (bigEndian 4 v.toNat)) :=
  emits_write (bigEndian_ne_nil (by omega))

theorem emits_64 (v : UInt64) : Emits (amqp_encode_64 v) (some (bigEndian 8 v.toNat)) :=
  emits_write (bigEndian_ne_nil (by omega))

theorem emits_bytes (b : Bytes) : Emits (amqp_encode_bytes b) (some b) := by
  by_cases hb : b = []
  · subst hb
    exact Emits.pure
  · have hlen : ¬ b.length = 0 := by simpa using hb
    rw [amqp_encode_bytes, if_neg hlen]
    exact emits_write hb

/-- A numeral of `n` bytes is read back by a decoder that converts `n` bytes. -/
theorem reads_number {α : Type} (n : Nat) (f : Nat → α) (v : Nat) (hv : v < 256 ^ n) :
    Reads ((fun b => f (ofBigEndian b)) <$> take n) (bigEndian n v) (f v) := by
  have h := (reads_take (bigEndian n v)).map fun b => f (ofBigEndian b)
  rwa [length_bigEndian, ofBigEndian_bigEndian, Nat.mod_eq_of_lt hv] at h

theorem reads_8 (v : UInt8) : Reads amqp_decode_8 (bigEndian 1 v.toNat) v := by
  have h := reads_number 1 UInt8.ofNat v.toNat v.toNat_lt
  rwa [UInt8.ofNat_toNat] at h

theorem reads_16 (v : UInt16) : Reads amqp_decode_16 (bigEndian 2 v.toNat) v := by
  have h := reads_number 2 UInt16.ofNat v.toNat v.toNat_lt
  rwa [UInt16.ofNat_toNat] at h

theorem reads_32 (v : UInt32) : Reads amqp_decode_32 (bigEndian 4 v.toNat) v := by
  have h := reads_number 4 UInt32.ofNat v.toNat v.toNat_lt
  rwa [UInt32.ofNat_toNat] at h

theorem reads_64 (v : UInt64) : Reads amqp_decode_64 (bigEndian 8 v.toNat) v := by
  have h := reads_number 8 UInt64.ofNat v.toNat v.toNat_lt
  rwa [UInt64.ofNat_toNat] at h

theorem reads_bytes (b : Bytes) : Reads (amqp_decode_bytes b.length) b b := reads_take b

theorem consumes_8 : Consumes amqp_decode_8 := (consumes_take 1).map _

theorem consumes_16 : Consumes amqp_decode_16 := (consumes_take 2).map _

theorem consumes_32 : Consumes amqp_decode_32 := (consumes_take 4).map _

theorem consumes_64 : Consumes amqp_decode_64 := (consumes_take 8).map _

theorem consumes_bytes (len : Nat) : Consumes (amqp_decode_bytes len) := consumes_take len

theorem advances_8 : Advances amqp_decode_8 :=
  (advances_take (by omega)).map _ (consumes_take 1)

end RabbitClient.Amqp
