import RabbitClient.Amqp.MethodFields

/-! Methods and content properties: `amqp_encode_method` and its counterparts. -/
namespace RabbitClient.Amqp

open Bytes WireBuffer

/-- The members of the structure of a method. -/
def Args : List Field → Type
  | [] => Unit
  | f :: fs => f.Val × Args fs

def encodeArgs : (fs : List Field) → Args fs → Encoder Status Unit
  | [], _ => pure ()
  | f :: fs, (v, args) => do
    encodeField f v
    encodeArgs fs args

def decodeArgs : (fs : List Field) → Decoder Status (Args fs)
  | [] => pure ()
  | f :: fs => do
    let v ← decodeField f
    Prod.mk v <$> decodeArgs fs

/-- What `decoded` points to. A number that is not a method's leads nowhere. -/
def Decoded : Option (List Field) → Type
  | none => Unit
  | some fs => Args fs

def encodeDecoded : (fields : Option (List Field)) → Decoded fields → Encoder Status Unit
  | none, _ => throw .AMQP_STATUS_UNKNOWN_METHOD
  | some fs, args => encodeArgs fs args

def decodeDecoded : (fields : Option (List Field)) → Decoder Status (Decoded fields)
  | none => throw .AMQP_STATUS_UNKNOWN_METHOD
  | some fs => decodeArgs fs

/-- `amqp_method_t` -/
structure Method where
  id : UInt32
  decoded : Decoded (methodFields id)

/-- A method of the number `id` with the members `args`. -/
def methodOf (id : UInt32) {fs : List Field} (h : methodFields id = some fs) (args : Args fs) :
    Method :=
  ⟨id, cast (congrArg Decoded h).symm args⟩

def amqp_encode_method (m : Method) : Encoder Status Unit :=
  encodeDecoded (methodFields m.id) m.decoded

def amqp_decode_method (methodNumber : UInt32) : Decoder Status Method :=
  Method.mk methodNumber <$> decodeDecoded (methodFields methodNumber)

/-- `amqp_basic_properties_t`: its members with their flags. -/
def amqp_basic_properties_t : List (UInt32 × Field) :=
  [(0x8000, .shortstr "content_type"), (0x4000, .shortstr "content_encoding"),
    (0x2000, .table "headers"), (0x1000, .octet "delivery_mode"), (0x0800, .octet "priority"),
    (0x0400, .shortstr "correlation_id"), (0x0200, .shortstr "reply_to"),
    (0x0100, .shortstr "expiration"), (0x0080, .shortstr "message_id"),
    (0x0040, .longlong "timestamp"), (0x0020, .shortstr "type"), (0x0010, .shortstr "user_id"),
    (0x0008, .shortstr "app_id"), (0x0004, .shortstr "cluster_id")]

/-- The properties of the contents of a class; only those of `basic` have members. -/
def propertyFields (class_id : UInt16) : Option (List (UInt32 × Field)) :=
  if class_id = 60 then some amqp_basic_properties_t
  else if class_id ∈ [10, 20, 30, 40, 50, 90, 85] then some []
  else none

/-- A member that is there exactly if its flag is set. -/
def Slot : Bool → Field → Type
  | true, f => f.Val
  | false, _ => Unit

def Slots (flags : UInt32) : List (UInt32 × Field) → Type
  | [] => Unit
  | (flag, f) :: fs => Slot (flags &&& flag != 0) f × Slots flags fs

def ClassSlots (flags : UInt32) : Option (List (UInt32 × Field)) → Type
  | none => Unit
  | some fs => Slots flags fs

structure Properties (class_id : UInt16) where
  flags : UInt32
  slots : ClassSlots flags (propertyFields class_id)

/-- The loop over the words of the flags; 32 bits have two of them. -/
def encodeFlags : (words : Nat) → (remaining_flags : UInt32) → Encoder Status Unit
  | 0, _ => pure ()
  | words + 1, remaining_flags => do
    let remainder := remaining_flags >>> 16
    let partial_flags := remaining_flags &&& 0xFFFE ||| if remainder ≠ 0 then 1 else 0
    (amqp_encode_16 partial_flags.toUInt16).orReturn .AMQP_STATUS_BAD_AMQP_DATA
    if remainder ≠ 0 then encodeFlags words remainder else pure ()

def encodeSlot : (present : Bool) → (f : Field) → Slot present f → Encoder Status Unit
  | true, f, v => encodeField f v
  | false, _, _ => pure ()

def encodeSlots (flags : UInt32) :
    (fs : List (UInt32 × Field)) → Slots flags fs → Encoder Status Unit
  | [], _ => pure ()
  | (_, f) :: fs, (v, slots) => do
    encodeSlot _ f v
    encodeSlots flags fs slots

def encodeClassSlots (flags : UInt32) :
    (fields : Option (List (UInt32 × Field))) → ClassSlots flags fields → Encoder Status Unit
  | none, _ => throw .AMQP_STATUS_UNKNOWN_CLASS
  | some fs, slots => encodeSlots flags fs slots

def amqp_encode_properties {class_id : UInt16} (decoded : Properties class_id) :
    Encoder Status Unit := do
  encodeFlags 2 decoded.flags
  encodeClassSlots decoded.flags (propertyFields class_id) decoded.slots

/-- How the work on a frame can go wrong: with an error code, with `amqp_abort`, or in a way that
the language leaves undefined. -/
inductive Fault where
  | status (s : Status)
  | abort
  | undefined
deriving DecidableEq

/-- The loop over the words of the flags. The third word would be shifted by the whole width of
`flags`, which the language leaves undefined. -/
def decodeFlags : (words : Nat) → (flagword_index : Nat) → (flags : UInt32) →
    Decoder Fault UInt32
  | 0, _, _ => do
    let _ ← amqp_decode_16.orReturn (Fault.status .AMQP_STATUS_BAD_AMQP_DATA)
    throw .undefined
  | words + 1, flagword_index, flags => do
    let partial_flags ← amqp_decode_16.orReturn (Fault.status .AMQP_STATUS_BAD_AMQP_DATA)
    let flags := flags ||| partial_flags.toUInt32 <<< (.ofNat (flagword_index * 16))
    if partial_flags &&& 1 ≠ 0 then decodeFlags words (flagword_index + 1) flags else pure flags

def decodeSlot : (present : Bool) → (f : Field) → Decoder Status (Slot present f)
  | true, f => decodeField f
  | false, _ => pure ()

def decodeSlots (flags : UInt32) :
    (fs : List (UInt32 × Field)) → Decoder Status (Slots flags fs)
  | [] => pure ()
  | (flag, f) :: fs => do
    let v ← decodeSlot (flags &&& flag != 0) f
    Prod.mk v <$> decodeSlots flags fs

def decodeClassSlots (flags : UInt32) :
    (fields : Option (List (UInt32 × Field))) → Decoder Status (ClassSlots flags fields)
  | none => throw .AMQP_STATUS_UNKNOWN_CLASS
  | some fs => decodeSlots flags fs

def amqp_decode_properties (class_id : UInt16) : Decoder Fault (Properties class_id) := do
  let flags ← decodeFlags 2 0 0
  Properties.mk flags <$> (decodeClassSlots flags (propertyFields class_id)).mapError Fault.status

end RabbitClient.Amqp
