import RabbitClient.Amqp.MethodRoundTrip
import RabbitClient.Amqp.PropertyRoundTrip

/-!
Frames: `amqp_frame_to_bytes` lays one out in the buffer for sending, and `amqp_handle_input` takes
received bytes, however many there are, until they make up one.
-/
namespace RabbitClient.Amqp

open Bytes WireBuffer

/-- `amqp_frame_t` without its channel; the frame type tells which it is. -/
inductive Payload where
  | method (m : Method)
  | properties (class_id : UInt16) (body_size : UInt64) (decoded : Properties class_id)
  | body_fragment (b : Bytes)
  | heartbeat
  | protocol_header (transport_high transport_low version_major version_minor : UInt8)

structure Frame where
  channel : UInt16
  payload : Payload

def AMQP_FRAME_METHOD : UInt8 := 1
def AMQP_FRAME_HEADER : UInt8 := 2
def AMQP_FRAME_BODY : UInt8 := 3
def AMQP_FRAME_HEARTBEAT : UInt8 := 8
def AMQP_FRAME_END : UInt8 := 206
def HEADER_SIZE : Nat := 7
def FOOTER_SIZE : Nat := 1

def Payload.frame_type : Payload → UInt8
  | method _ => AMQP_FRAME_METHOD
  | properties .. => AMQP_FRAME_HEADER
  | body_fragment _ => AMQP_FRAME_BODY
  | heartbeat => AMQP_FRAME_HEARTBEAT
  | protocol_header .. => ofChar 'A'

/-- A write without a check. -/
def poke (buffer : Bytes) (offset : Nat) (b : Bytes) : Except Fault Bytes :=
  if offset + b.length ≤ buffer.length then .ok (store buffer offset b) else .error .undefined

/-- An encoder on a part of a buffer, from `front` to the footer. The length of the part wraps
around where there is none. -/
def within (buffer : Bytes) (front : Nat) (e : Encoder Status Unit) : Except Fault (Bytes × Nat) :=
  if buffer.length < front + FOOTER_SIZE then .error .undefined
  else
    match e ⟨(buffer.drop front).take (buffer.length - front - FOOTER_SIZE), 0⟩ with
    | .error s => .error (.status s)
    | .ok ((), s) => .ok (store buffer front s.encoded, s.offset)

/-- The switch of `amqp_frame_to_bytes`: the buffer and the length of the payload. -/
def payloadToBytes (payload : Payload) (buffer : Bytes) : Except Fault (Bytes × Nat) :=
  match payload with
  | .body_fragment body => do
    let buffer ← poke buffer HEADER_SIZE body
    return (buffer, body.length)
  | .method m => do
    let buffer ← poke buffer HEADER_SIZE (bigEndian 4 m.id.toNat)
    let (buffer, res) ← within buffer (HEADER_SIZE + 4) (amqp_encode_method m)
    return (buffer, res + 4)
  | .properties class_id body_size decoded => do
    let buffer ← poke buffer HEADER_SIZE (bigEndian 2 class_id.toNat)
    let buffer ← poke buffer (HEADER_SIZE + 2) (bigEndian 2 0)
    let buffer ← poke buffer (HEADER_SIZE + 4) (bigEndian 8 body_size.toNat)
    let (buffer, res) ← within buffer (HEADER_SIZE + 12) (amqp_encode_properties decoded)
    return (buffer, res + 12)
  | .heartbeat => .ok (buffer, 0)
  | .protocol_header .. => .error (.status .AMQP_STATUS_INVALID_PARAMETER)

def amqp_frame_to_bytes (frame : Frame) (buffer : Bytes) : Except Fault Bytes := do
  let buffer ← poke buffer 0 (bigEndian 1 frame.payload.frame_type.toNat)
  let buffer ← poke buffer 1 (bigEndian 2 frame.channel.toNat)
  let (buffer, out_frame_len) ← payloadToBytes frame.payload buffer
  let buffer ← poke buffer 3 (bigEndian 4 out_frame_len)
  let buffer ← poke buffer (HEADER_SIZE + out_frame_len) [AMQP_FRAME_END]
  return buffer.take (out_frame_len + HEADER_SIZE + FOOTER_SIZE)

/-- `amqp_connection_state_enum` -/
inductive ConnectionState where
  | IDLE | INITIAL | HEADER | BODY
deriving DecidableEq

/-- The members of `amqp_connection_state_t_` that take part in receiving. -/
structure Connection where
  state : ConnectionState
  frame_max : Nat
  /-- Holds the header of a frame, until its size is known. -/
  header_buffer : Bytes
  /-- Holds a frame whose size is known. -/
  inbound_buffer : Bytes
  inbound_offset : Nat
  target_size : Nat
deriving DecidableEq

def amqp_new_connection : Connection where
  state := .INITIAL
  frame_max := 65536
  header_buffer := List.replicate 8 0
  inbound_buffer := []
  inbound_offset := 0
  target_size := 8

def return_to_idle (state : Connection) : Connection :=
  { state with inbound_offset := 0, target_size := HEADER_SIZE, state := .IDLE }

/-- Takes as many bytes as are available and will fit. -/
def consume_data (state : Connection) (received_data : Bytes) :
    Except Fault (Connection × Bytes × Nat) :=
  let bytes_consumed := min (state.target_size - state.inbound_offset) received_data.length
  let chunk := received_data.take bytes_consumed
  let rest := received_data.drop bytes_consumed
  let inbound_offset := state.inbound_offset + bytes_consumed
  if state.state = .BODY then do
    let inbound_buffer ← poke state.inbound_buffer state.inbound_offset chunk
    return ({ state with inbound_buffer, inbound_offset }, rest, bytes_consumed)
  else do
    let header_buffer ← poke state.header_buffer state.inbound_offset chunk
    return ({ state with header_buffer, inbound_offset }, rest, bytes_consumed)

/-- `amqp_d8` to `amqp_d64` -/
def peek (raw_frame : Bytes) (offset n : Nat) : Nat := ofBigEndian ((raw_frame.drop offset).take n)

def decodeMethodPayload (id : UInt32) (encoded : Bytes) : Except Fault Payload := do
  let (m, _) ← (amqp_decode_method id encoded 0).mapError .status
  return .method m

def decodePropertiesPayload (class_id : UInt16) (body_size : UInt64) (encoded : Bytes) :
    Except Fault Payload := do
  let (decoded, _) ← amqp_decode_properties class_id encoded 0
  return .properties class_id body_size decoded

/-- The switch over the type of a complete frame; `none` is a frame to ignore. In a frame too short
for what its type says, lengths wrap around and bytes behind it are read. -/
def decodePayload (frame_type : UInt8) (raw_frame : Bytes) (target_size : Nat) :
    Except Fault (Option Payload) :=
  let encoded (front : Nat) := (raw_frame.drop front).take (target_size - front - FOOTER_SIZE)
  if frame_type = AMQP_FRAME_METHOD then
    if target_size < HEADER_SIZE + 4 + FOOTER_SIZE then .error .undefined
    else some <$> decodeMethodPayload (.ofNat (peek raw_frame HEADER_SIZE 4)) (encoded (HEADER_SIZE + 4))
  else if frame_type = AMQP_FRAME_HEADER then
    if target_size < HEADER_SIZE + 12 + FOOTER_SIZE then .error .undefined
    else some <$> decodePropertiesPayload (.ofNat (peek raw_frame HEADER_SIZE 2))
      (.ofNat (peek raw_frame (HEADER_SIZE + 4) 8)) (encoded (HEADER_SIZE + 12))
  else if frame_type = AMQP_FRAME_BODY then .ok (some (.body_fragment (encoded HEADER_SIZE)))
  else if frame_type = AMQP_FRAME_HEARTBEAT then .ok (some .heartbeat)
  else .ok none

def decodeFrame (raw_frame : Bytes) (target_size : Nat) : Except Fault (Option Frame) := do
  let payload ← decodePayload (.ofNat (peek raw_frame 0 1)) raw_frame target_size
  return payload.map (Frame.mk (.ofNat (peek raw_frame 1 2)))

/-- What a call of `amqp_handle_input` returns: the number of bytes it has taken, and the frame
they complete. -/
abbrev Handled := Except Fault (Nat × Option Frame)

/-- The case `CONNECTION_STATE_BODY`, with the whole frame there. -/
def handleBody (state : Connection) (bytes_consumed : Nat) : Connection × Handled :=
  let raw_frame := state.inbound_buffer
  if UInt8.ofNat (peek raw_frame (state.target_size - 1) 1) ≠ AMQP_FRAME_END then
    (state, .error (.status .AMQP_STATUS_BAD_AMQP_DATA))
  else
    match decodeFrame raw_frame state.target_size with
    | .error fault => (state, .error fault)
    | .ok decoded_frame => (return_to_idle state, .ok (bytes_consumed, decoded_frame))

/-- The case `CONNECTION_STATE_HEADER`, with the whole header there: a block of zeros is made for
the frame, and the header goes to its front. -/
def handleHeader (state : Connection) (received_data : Bytes) (bytes_consumed : Nat) :
    Connection × Handled :=
  let frame_size := peek state.header_buffer 3 4
  if 2147483647 ≤ frame_size then (state, .error (.status .AMQP_STATUS_BAD_AMQP_DATA))
  else
    let state := { state with target_size := frame_size + HEADER_SIZE + FOOTER_SIZE }
    if state.frame_max < state.target_size then
      (state, .error (.status .AMQP_STATUS_BAD_AMQP_DATA))
    else
      let block := List.replicate state.target_size 0
      let header := state.header_buffer.take HEADER_SIZE
      let state := { state with inbound_buffer := store block 0 header, state := .BODY }
      match consume_data state received_data with
      | .error fault => (state, .error fault)
      | .ok (state, _, n) =>
        if state.inbound_offset < state.target_size then (state, .ok (bytes_consumed + n, none))
        else handleBody state (bytes_consumed + n)

/-- The switch over the states, with as many bytes there as were waited for. -/
def handleState (state : Connection) (received_data : Bytes) (bytes_consumed : Nat) :
    Connection × Handled :=
  match state.state with
  | .INITIAL =>
    let raw_frame := state.header_buffer
    if raw_frame.take 4 = ascii "AMQP" then
      (return_to_idle state, .ok (bytes_consumed, some ⟨0, .protocol_header
        (.ofNat (peek raw_frame 4 1)) (.ofNat (peek raw_frame 5 1))
        (.ofNat (peek raw_frame 6 1)) (.ofNat (peek raw_frame 7 1))⟩))
    else handleHeader state received_data bytes_consumed
  | .HEADER => handleHeader state received_data bytes_consumed
  | .BODY => handleBody state bytes_consumed
  | .IDLE => (state, .error .abort)

def amqp_handle_input (state : Connection) (received_data : Bytes) : Connection × Handled :=
  if received_data.length = 0 then (state, .ok (0, none))
  else
    let state := if state.state = .IDLE then { state with state := .HEADER } else state
    match consume_data state received_data with
    | .error fault => (state, .error fault)
    | .ok (state, received_data, bytes_consumed) =>
      if state.inbound_offset < state.target_size then (state, .ok (bytes_consumed, none))
      else handleState state received_data bytes_consumed

end RabbitClient.Amqp
