import RabbitClient.Amqp.Publish
import RabbitClient.Amqp.TableClone

/-! Receiving messages: `amqp_read_message` and `amqp_consume_message`, and the copies they make. -/
namespace RabbitClient.Amqp

open Bytes

/-- Only tables need more than a copy of their bytes. -/
def cloneField : (f : Field) → f.Val → Except Status f.Val
  | .table _, original => amqp_table_clone original
  | _, original => pure original

def cloneSlot : (present : Bool) → (f : Field) → Slot present f → Except Status (Slot present f)
  | true, f, original => cloneField f original
  | false, _, _ => pure ()

def cloneSlots (flags : UInt32) :
    (fs : List (UInt32 × Field)) → Slots flags fs → Except Status (Slots flags fs)
  | [], _ => pure ()
  | (_, f) :: fs, (v, slots) => do
    let clone ← cloneSlot _ f v
    Prod.mk clone <$> cloneSlots flags fs slots

def cloneBasic (original : Properties AMQP_BASIC_CLASS) :
    Except Fault (Properties AMQP_BASIC_CLASS) :=
  (basicProperties original.flags <$> cloneSlots original.flags amqp_basic_properties_t
    (cast (basic_slots original.flags) original.slots)).mapError .status

/-- What is there is taken for properties of `basic`, whatever the class. Those of other classes have
no members, so it must not be looked for them. -/
def amqp_basic_properties_clone {class_id : UInt16} (original : Properties class_id) :
    Except Fault (Properties AMQP_BASIC_CLASS) :=
  if h : class_id = AMQP_BASIC_CLASS then cloneBasic (cast (congrArg Properties h) original)
  else
    match unset original.flags amqp_basic_properties_t with
    | some slots => pure (basicProperties original.flags slots)
    | none => throw .undefined

/-- The tables in the properties that are there can be copied. -/
def slotsKeyed (flags : UInt32) : (fs : List (UInt32 × Field)) → Slots flags fs → Bool
  | [], _ => true
  | (_, f) :: fs, (v, slots) => slotKeyed _ f v && slotsKeyed flags fs slots
where
  slotKeyed : (present : Bool) → (f : Field) → Slot present f → Bool
    | true, .table _, t => tableKeyed t
    | _, _, _ => true

def Properties.keyed (p : Properties AMQP_BASIC_CLASS) : Bool :=
  slotsKeyed p.flags amqp_basic_properties_t (cast (basic_slots p.flags) p.slots)

/-- `amqp_message_t` -/
structure Message where
  properties : Properties AMQP_BASIC_CLASS
  body : Bytes

/-- What the calls for messages return where they do not fail: a result, or that the channel or the
connection has been closed. -/
inductive Delivered (α : Type) where
  | normal (a : α)
  | server_exception (m : Method)

def isClose (m : Method) : Bool :=
  m.id = AMQP_CHANNEL_CLOSE_METHOD ∨ m.id = AMQP_CONNECTION_CLOSE_METHOD

/-- The loop over the frames of the body. -/
def readBody (channel : UInt16) (len : Nat) : Nat → (body_read : Bytes) → Call (Delivered Bytes)
  | 0, _ => throw .waiting
  | fuel + 1, body_read =>
    if body_read.length < len then do
      let frame ← amqp_simple_wait_frame_on_channel channel
      match frame.payload with
      | .body_fragment b =>
        if len < body_read.length + b.length then Call.fail .AMQP_STATUS_BAD_AMQP_DATA
        else readBody channel len fuel (body_read ++ b)
      | .method m =>
        if isClose m then return .server_exception m else Call.fail .AMQP_STATUS_BAD_AMQP_DATA
      | _ => Call.fail .AMQP_STATUS_BAD_AMQP_DATA
    else return .normal body_read

/-- In every round of the loop a frame is taken, so there are not more of them than frames. -/
def amqp_read_message (channel : UInt16) : Call (Delivered Message) := do
  let frame ← amqp_simple_wait_frame_on_channel channel
  match frame.payload with
  | .properties _ body_size decoded =>
    match amqp_basic_properties_clone decoded with
    | .error fault => throw (.fault fault)
    | .ok properties => do
      let w ← get
      match ← readBody channel body_size.toNat (w.client.queue.length + w.supply + 1) [] with
      | .normal body => return .normal ⟨properties, body⟩
      | .server_exception m => return .server_exception m
  | .method m =>
    if isClose m then return .server_exception m
    else do
      amqp_put_back_frame frame
      Call.fail .AMQP_STATUS_UNEXPECTED_STATE
  | _ => do
    amqp_put_back_frame frame
    Call.fail .AMQP_STATUS_UNEXPECTED_STATE

/-- `amqp_envelope_t` -/
structure Envelope where
  channel : UInt16
  consumer_tag : Bytes
  delivery_tag : UInt64
  redelivered : Bool
  exchange : Bytes
  routing_key : Bytes
  message : Message

theorem deliver_fields : methodFields AMQP_BASIC_DELIVER_METHOD = some amqp_basic_deliver_t := rfl

/-- The members of a method. -/
def Method.members (m : Method) {fs : List Field} (h : methodFields m.id = some fs) : Args fs :=
  cast (congrArg Decoded h) m.decoded

theorem members_methodOf {id : UInt32} {fs : List Field} (h : methodFields id = some fs)
    (args : Args fs) : (methodOf id h args).members h = args :=
  (cast_cast ..).trans (cast_eq ..)

theorem deliver_members {m : Method} (h : m.id = AMQP_BASIC_DELIVER_METHOD) :
    methodFields m.id = some amqp_basic_deliver_t := by
  rw [h, deliver_fields]

def envelopeOf (channel : UInt16) (args : Args amqp_basic_deliver_t) (message : Message) : Envelope :=
  let (consumer_tag, delivery_tag, bits, exchange, routing_key, _) := args
  { channel, consumer_tag, delivery_tag, redelivered := bits ⟨0, Nat.one_pos⟩, exchange, routing_key,
    message }

/-- `amqp_basic_deliver_t` for a message. -/
def deliverMethod (e : Envelope) : Method :=
  methodOf AMQP_BASIC_DELIVER_METHOD deliver_fields
    (e.consumer_tag, e.delivery_tag, (fun _ => e.redelivered), e.exchange, e.routing_key, ())

def amqp_consume_message (now_ns : UInt64) (timeout : Option Timeval) : Call (Delivered Envelope) := do
  let frame ← amqp_simple_wait_frame_noblock now_ns timeout
  match frame.payload with
  | .method m =>
    if h : m.id = AMQP_BASIC_DELIVER_METHOD then do
      match ← amqp_read_message frame.channel with
      | .normal message =>
        return .normal (envelopeOf frame.channel (m.members (deliver_members h)) message)
      | .server_exception m => return .server_exception m
    else do
      amqp_put_back_frame frame
      Call.fail .AMQP_STATUS_UNEXPECTED_STATE
  | _ => do
    amqp_put_back_frame frame
    Call.fail .AMQP_STATUS_UNEXPECTED_STATE

end RabbitClient.Amqp
