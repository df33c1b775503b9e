import RabbitClient.Amqp.BaseTypes

/-!
Field tables: the values a client attaches to messages, queues and connections, and their
encoding into a frame.
-/
namespace RabbitClient.Amqp

open Bytes WireBuffer

/-- `AMQP_FIELD_KIND_…` -/
inductive FieldKind where
  | BOOLEAN | I8 | U8 | I16 | U16 | I32 | U32 | I64 | U64 | F32 | F64 | DECIMAL | UTF8 | ARRAY
  | TIMESTAMP | TABLE | VOID | BYTES
deriving DecidableEq

namespace FieldKind

def code : FieldKind → UInt8
  | BOOLEAN => ofChar 't'
  | I8 => ofChar 'b'
  | U8 => ofChar 'B'
  | I16 => ofChar 's'
  | U16 => ofChar 'u'
  | I32 => ofChar 'I'
  | U32 => ofChar 'i'
  | I64 => ofChar 'l'
  | U64 => ofChar 'L'
  | F32 => ofChar 'f'
  | F64 => ofChar 'd'
  | DECIMAL => ofChar 'D'
  | UTF8 => ofChar 'S'
  | ARRAY => ofChar 'A'
  | TIMESTAMP => ofChar 'T'
  | TABLE => ofChar 'F'
  | VOID => ofChar 'V'
  | BYTES => ofChar 'x'

def all : List FieldKind :=
  [BOOLEAN, I8, U8, I16, U16, I32, U32, I64, U64, F32, F64, DECIMAL, UTF8, ARRAY, TIMESTAMP, TABLE,
    VOID, BYTES]

/-- The case of `switch (entry->kind)`; `none` is the default. -/
def ofCode (c : UInt8) : Option FieldKind := all.find? fun k => k.code = c

@[simp] theorem ofCode_code (k : FieldKind) : ofCode k.code = some k := by
  cases k <;> decide

end FieldKind

mutual

/-- `amqp_field_value_t`: a kind, and the member of the union it selects. The floating point
numbers are carried by their bits. -/
inductive FieldValue where
  | boolean (b : Bool)
  | i8 (v : Int8)
  | u8 (v : UInt8)
  | i16 (v : Int16)
  | u16 (v : UInt16)
  | i32 (v : Int32)
  | u32 (v : UInt32)
  | i64 (v : Int64)
  | u64 (v : UInt64)
  | f32 (bits : UInt32)
  | f64 (bits : UInt64)
  | decimal (decimals : UInt8) (value : UInt32)
  | utf8 (b : Bytes)
  | array (entries : List FieldValue)
  | timestamp (v : UInt64)
  | table (entries : List TableEntry)
  | void
  | bytes (b : Bytes)
  | other (kind : UInt8) (h : FieldKind.ofCode kind = none)

/-- `amqp_table_entry_t` -/
inductive TableEntry where
  | mk (key : Bytes) (value : FieldValue)

end

/-- `amqp_table_t` -/
abbrev Table := List TableEntry

def TableEntry.key : TableEntry → Bytes
  | ⟨key, _⟩ => key

def TableEntry.value : TableEntry → FieldValue
  | ⟨_, value⟩ => value

/-- The kind of a value, and the value behind it. -/
def ofKind (kind : UInt8) (value : Encoder Status Unit) : Encoder Status Unit := do
  (amqp_encode_8 kind).orReturn .AMQP_STATUS_BAD_AMQP_DATA
  value

def FIELD_ENCODER (val : Encoder Unit Unit) : Encoder Status Unit :=
  val.orReturn .AMQP_STATUS_TABLE_TOO_BIG

/-- `amqp_encode_array` and `amqp_encode_table` leave four bytes for the size of what their loop
writes, and fill them in afterwards. -/
def sized (loop : Encoder Status Unit) : Encoder Status Unit :=
  backfill 4 (bigEndian 4) .AMQP_STATUS_TABLE_TOO_BIG loop

mutual

def amqp_encode_field_value : FieldValue → Encoder Status Unit
  | .boolean b => ofKind FieldKind.BOOLEAN.code <| FIELD_ENCODER (amqp_encode_8 (if b then 1 else 0))
  | .i8 v => ofKind FieldKind.I8.code <| FIELD_ENCODER (amqp_encode_8 v.toUInt8)
  | .u8 v => ofKind FieldKind.U8.code <| FIELD_ENCODER (amqp_encode_8 v)
  | .i16 v => ofKind FieldKind.I16.code <| FIELD_ENCODER (amqp_encode_16 v.toUInt16)
  | .u16 v => ofKind FieldKind.U16.code <| FIELD_ENCODER (amqp_encode_16 v)
  | .i32 v => ofKind FieldKind.I32.code <| FIELD_ENCODER (amqp_encode_32 v.toUInt32)
  | .u32 v => ofKind FieldKind.U32.code <| FIELD_ENCODER (amqp_encode_32 v)
  | .i64 v => ofKind FieldKind.I64.code <| FIELD_ENCODER (amqp_encode_64 v.toUInt64)
  | .u64 v => ofKind FieldKind.U64.code <| FIELD_ENCODER (amqp_encode_64 v)
  | .f32 bits => ofKind FieldKind.F32.code <| FIELD_ENCODER (amqp_encode_32 bits)
  | .f64 bits => ofKind FieldKind.F64.code <| FIELD_ENCODER (amqp_encode_64 bits)
  | .decimal decimals value => ofKind FieldKind.DECIMAL.code <| FIELD_ENCODER do
      amqp_encode_8 decimals
      amqp_encode_32 value
  | .utf8 b => ofKind FieldKind.UTF8.code <| FIELD_ENCODER do
      amqp_encode_32 (.ofNat b.length)
      amqp_encode_bytes b
  | .array entries => ofKind FieldKind.ARRAY.code <| sized (encodeArrayEntries entries)
  | .timestamp v => ofKind FieldKind.TIMESTAMP.code <| FIELD_ENCODER (amqp_encode_64 v)
  | .table entries => ofKind FieldKind.TABLE.code <| sized (encodeTableEntries entries)
  | .void => ofKind FieldKind.VOID.code (pure ())
  | .bytes b => ofKind FieldKind.BYTES.code <| FIELD_ENCODER do
      amqp_encode_32 (.ofNat b.length)
      amqp_encode_bytes b
  | .other kind _ => ofKind kind (throw .AMQP_STATUS_INVALID_PARAMETER)

def encodeArrayEntries : List FieldValue → Encoder Status Unit
  | [] => pure ()
  | value :: entries => do
    amqp_encode_field_value value
    encodeArrayEntries entries

def encodeTableEntries : List TableEntry → Encoder Status Unit
  | [] => pure ()
  | ⟨key, value⟩ :: entries => do
    -- only the low byte of the length is written, but all of the key
    (amqp_encode_8 (.ofNat key.length)).orReturn .AMQP_STATUS_TABLE_TOO_BIG
    (amqp_encode_bytes key).orReturn .AMQP_STATUS_TABLE_TOO_BIG
    amqp_encode_field_value value
    encodeTableEntries entries

end

def amqp_encode_table (input : Table) : Encoder Status Unit := sized (encodeTableEntries input)

/-- The elements up to the end that the size announces. The last one may reach beyond it, but not
beyond the buffer. -/
def decodeElements {α : Type} (element : Decoder Status α) (size : Nat) (encoded : Bytes)
    (offset : Nat) : Except Status (List α × Nat) :=
  if encoded.length < size + offset then .error .AMQP_STATUS_BAD_AMQP_DATA
  else whileBelow (offset + size) element size encoded offset

/-- `amqp_decode_array` and `amqp_decode_table` differ in their elements only. -/
def decodeSized {α : Type} (element : Decoder Status α) : Decoder Status (List α) := do
  let size ← amqp_decode_32.orReturn Status.AMQP_STATUS_BAD_AMQP_DATA
  decodeElements element size.toNat

/-- The body of the loop of `amqp_decode_table`. -/
def decodeTableEntry (value : Decoder Status FieldValue) : Decoder Status TableEntry := do
  let keylen ← amqp_decode_8.orReturn Status.AMQP_STATUS_BAD_AMQP_DATA
  let key ← (amqp_decode_bytes keylen.toNat).orReturn Status.AMQP_STATUS_BAD_AMQP_DATA
  TableEntry.mk key <$> value

def FIELD_DECODER {α : Type} (val : Decoder Unit α) (dest : α → FieldValue) :
    Decoder Status FieldValue :=
  dest <$> val.orReturn .AMQP_STATUS_BAD_AMQP_DATA

def decodeDecimal : Decoder Unit (UInt8 × UInt32) := do
  let decimals ← amqp_decode_8
  Prod.mk decimals <$> amqp_decode_32

/-- The switch of `amqp_decode_field_value`; `value` decodes the elements of a container. -/
def decodeMember (value : Decoder Status FieldValue) :
    Option FieldKind → Decoder Status FieldValue
  | some .BOOLEAN => FIELD_DECODER amqp_decode_8 fun val => .boolean (val ≠ 0)
  | some .I8 => FIELD_DECODER amqp_decode_8 fun val => .i8 val.toInt8
  | some .U8 => FIELD_DECODER amqp_decode_8 .u8
  | some .I16 => FIELD_DECODER amqp_decode_16 fun val => .i16 val.toInt16
  | some .U16 => FIELD_DECODER amqp_decode_16 .u16
  | some .I32 => FIELD_DECODER amqp_decode_32 fun val => .i32 val.toInt32
  | some .U32 => FIELD_DECODER amqp_decode_32 .u32
  | some .I64 => FIELD_DECODER amqp_decode_64 fun val => .i64 val.toInt64
  | some .U64 => FIELD_DECODER amqp_decode_64 .u64
  | some .F32 => FIELD_DECODER amqp_decode_32 .f32
  | some .F64 => FIELD_DECODER amqp_decode_64 .f64
  | some .DECIMAL => FIELD_DECODER decodeDecimal fun p => .decimal p.1 p.2
  | some .UTF8 => FIELD_DECODER (amqp_decode_32 >>= fun len => amqp_decode_bytes len.toNat) .utf8
  | some .ARRAY => .array <$> decodeSized value
  | some .TIMESTAMP => FIELD_DECODER amqp_decode_64 .timestamp
  | some .TABLE => .table <$> decodeSized (decodeTableEntry value)
  | some .VOID => pure .void
  | some .BYTES => FIELD_DECODER (amqp_decode_32 >>= fun len => amqp_decode_bytes len.toNat) .bytes
  | none => throw .AMQP_STATUS_BAD_AMQP_DATA

/-- `depth` bounds the nesting of containers. -/
def amqp_decode_field_value : (depth : Nat) → Decoder Status FieldValue
  | 0 => throw .AMQP_STATUS_BAD_AMQP_DATA
  | depth + 1 => do
    let kind ← amqp_decode_8.orReturn Status.AMQP_STATUS_BAD_AMQP_DATA
    decodeMember (amqp_decode_field_value depth) (FieldKind.ofCode kind)

/-- Each level of nesting takes a byte, so the length of the buffer bounds the depth. -/
def amqp_decode_table : Decoder Status Table := fun encoded =>
  decodeSized (decodeTableEntry (amqp_decode_field_value (encoded.length + 1))) encoded

end RabbitClient.Amqp
