import RabbitClient.Amqp.Clock
import RabbitClient.Amqp.Frames

/-!
Sending frames and waiting for them: the functions of the library that read from and write to the
socket, and the queue of frames that have been read and not been asked for.
-/
namespace RabbitClient.Amqp

open Bytes WireBuffer

/-- The members of `amqp_connection_state_t_` that take part in sending and waiting. -/
structure Client where
  conn : Connection
  /-- What is left of `sock_inbound_buffer` behind `sock_inbound_offset`. -/
  unread : Bytes
  /-- From `first_queued_frame` to `last_queued_frame`. -/
  queue : List Frame
  heartbeat : Int
  next_send_heartbeat : Time
  next_recv_heartbeat : Time
  /-- All that has been written to the socket. -/
  written : Bytes
  /-- Whether `amqp_socket_close` has been called. -/
  closed : Bool

/-- How the loop over `amqp_socket_recv` and `amqp_poll` ends: with data, and what the clock says
then, or with an error, which may be that the time is over. -/
inductive Received where
  | data (b : Bytes) (now_ns : UInt64)
  | failed (status : Status)

def Received.bytes : Received → Bytes
  | data b _ => b
  | failed _ => []

def receivedBytes (receipts : List Received) : Bytes := (receipts.map Received.bytes).flatten

/-- How an attempt to send ends: with all written, with an error, or with a part written when the
time is over. -/
inductive Attempt where
  | sent (now_ns : UInt64)
  | failed (n : Nat) (status : Status)
  | partly (n : Nat)

/-- What happens before something is received: the clock is read, and a heartbeat may be sent. -/
structure Pause where
  now_ns : UInt64
  attempts : List Attempt

/-- A connection and what is going to happen to it. -/
structure World where
  client : Client
  pauses : Nat → Pause
  receipts : List Received

/-- Why a call has no result: it has not returned, or it has failed. -/
inductive Stop where
  | waiting
  | fault (f : Fault)
deriving DecidableEq

abbrev Call := EStateM Stop World

def Call.fail {α : Type} (status : Status) : Call α := throw (.fault (.status status))

def Call.returns {α : Type} (call : Call α) (w : World) : Bool :=
  match call w with
  | .ok _ _ => true
  | .error _ _ => false

theorem Call.returns_iff {α : Type} {call : Call α} {w : World} :
    call.returns w ↔ ∃ a w', call w = .ok a w' := by
  rw [Call.returns]
  cases call w <;> simp

def update (f : Client → Client) : Call Unit := modify fun w => { w with client := f w.client }

/-- The status of a call that is not an error is left out. -/
def ofStatus : Except Status Unit → Call Unit
  | .ok () => pure ()
  | .error status => Call.fail status

def amqp_data_in_buffer : Call Bool := do return !(← get).client.unread.isEmpty

def consume_one_frame : Call (Option Frame) := fun w =>
  match amqp_handle_input w.client.conn w.client.unread with
  | (conn, .error fault) => .error (.fault fault) { w with client := { w.client with conn } }
  | (conn, .ok (res, decoded_frame)) =>
    .ok decoded_frame { w with client := { w.client with
      conn, unread := w.client.unread.drop res } }

/-- `recv_with_timeout` does not return before something happens; the old content of the buffer is
lost. -/
def recv_with_timeout : Call Unit := do
  match (← get).receipts with
  | [] => throw .waiting
  | .failed status :: receipts => do
    modify fun w => { w with receipts }
    Call.fail status
  | .data b now_ns :: receipts => do
    modify fun w => { w with receipts, client := { w.client with unread := b } }
    let c := (← get).client
    let res := amqp_time_s_from_now now_ns (2 * c.heartbeat) c.next_recv_heartbeat
    update fun c => { c with next_recv_heartbeat := res.1 }
    ofStatus res.2

def amqp_queue_frame (frame : Frame) : Call Unit :=
  update fun c => { c with queue := c.queue ++ [frame] }

def amqp_put_back_frame (frame : Frame) : Call Unit :=
  update fun c => { c with queue := frame :: c.queue }

/-- The loop of `amqp_try_recv`: the frames in the buffer go to the queue. -/
def queueBuffered : Nat → Call Unit
  | 0 => pure ()
  | fuel + 1 => do
    if ← amqp_data_in_buffer then
      match ← consume_one_frame with
      | some frame => amqp_queue_frame frame
      | none => pure ()
      queueBuffered fuel

def amqp_try_recv : Call Unit := do
  queueBuffered (← get).client.unread.length
  recv_with_timeout

def amqp_try_send (b : Bytes) : Call Unit := update fun c => { c with written := c.written ++ b }

/-- A call whose time is over, under another name. -/
def Call.onTimeout {α : Type} (call : Call α) (status : Status) : Call α := fun w =>
  match call w with
  | .error (.fault (.status .AMQP_STATUS_TIMEOUT)) w => .error (.fault (.status status)) w
  | result => result

/-- `amqp_send_frame_inner` from `start_send`, with what is left to send. -/
def startSend (deadline : Time) : List Attempt → Bytes → Call Unit
  | [], _ => throw .waiting
  | .sent now_ns :: _, encoded => do
    amqp_try_send encoded
    let c := (← get).client
    let res := amqp_time_s_from_now now_ns c.heartbeat c.next_send_heartbeat
    update fun c => { c with next_send_heartbeat := res.1 }
    ofStatus res.2
  | .failed n status :: _, encoded => do
    amqp_try_send (encoded.take n)
    Call.fail status
  | .partly n :: attempts, encoded => do
    amqp_try_send (encoded.take n)
    if amqp_time_first deadline (← get).client.next_recv_heartbeat = deadline then
      Call.fail .AMQP_STATUS_TIMEOUT
    else
      amqp_try_recv.onTimeout .AMQP_STATUS_HEARTBEAT_TIMEOUT
      startSend deadline attempts (encoded.drop n)

/-- The outbound buffer has the greatest size of a frame; what is in it before does not matter. -/
def amqp_send_frame_inner (frame : Frame) (deadline : Time) (attempts : List Attempt) :
    Call Unit := do
  let buffer := List.replicate (← get).client.conn.frame_max 0
  match amqp_frame_to_bytes frame buffer with
  | .error fault => throw (.fault fault)
  | .ok encoded => startSend deadline attempts encoded

def amqp_send_frame (frame : Frame) (attempts : List Attempt) : Call Unit :=
  amqp_send_frame_inner frame amqp_time_infinite attempts

/-- The inner loop of `wait_frame_inner`: the first frame in the buffer that is not a heartbeat. -/
def readBuffered : Nat → Call (Option Frame)
  | 0 => pure none
  | fuel + 1 => do
    if ← amqp_data_in_buffer then
      match ← consume_one_frame with
      | some ⟨_, .heartbeat⟩ => readBuffered fuel
      | some frame => return some frame
      | none => readBuffered fuel
    else return none

/-- Sends a heartbeat if it is time for it. -/
def sendHeartbeat : Call Unit := do
  let w ← get
  let pause := w.pauses 0
  set { w with pauses := fun n => w.pauses (n + 1) }
  match amqp_time_has_past pause.now_ns w.client.next_send_heartbeat with
  | .error status => Call.fail status
  | .ok past => if past then amqp_send_frame ⟨0, .heartbeat⟩ pause.attempts

/-- `recv_with_timeout` in `wait_frame_inner`, and whether the buffer is looked into afterwards; it
is not if it is time to send a heartbeat. -/
def recvUntil (timeout_deadline : Time) : Call Bool := fun w =>
  let c := w.client
  let deadline := amqp_time_first timeout_deadline
    (amqp_time_first c.next_recv_heartbeat c.next_send_heartbeat)
  match recv_with_timeout w with
  | .ok () w => .ok true w
  | .error (.fault (.status .AMQP_STATUS_TIMEOUT)) w =>
    if deadline = c.next_recv_heartbeat then
      .error (.fault (.status .AMQP_STATUS_HEARTBEAT_TIMEOUT))
        { w with client := { w.client with closed := true } }
    else if deadline = timeout_deadline then .error (.fault (.status .AMQP_STATUS_TIMEOUT)) w
    else if deadline = c.next_send_heartbeat then .ok false w
    else .error (.fault .abort) w
  | .error stop w => .error stop w

/-- `wait_frame_inner` from `beginrecv`. -/
def beginrecv (timeout_deadline : Time) : Nat → Call Frame
  | 0 => throw .waiting
  | fuel + 1 => do
    sendHeartbeat
    if ← recvUntil timeout_deadline then
      match ← readBuffered (← get).client.unread.length with
      | some frame => return frame
      | none => beginrecv timeout_deadline fuel
    else beginrecv timeout_deadline fuel

/-- Every time something is received, so there are not more rounds than that happens. -/
def wait_frame_inner (timeout_deadline : Time) : Call Frame := do
  match ← readBuffered (← get).client.unread.length with
  | some frame => return frame
  | none => beginrecv timeout_deadline ((← get).receipts.length + 1)

end RabbitClient.Amqp
