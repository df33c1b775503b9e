import RabbitClient.Amqp.MethodFields
import RabbitClient.Amqp.Socket

/-!
The calls that give frames to the application, and calls of the peer that wait for their reply. What
arrives and is not waited for goes to the queue.
-/
namespace RabbitClient.Amqp

open Bytes

/-- An upper bound for the number of frames that are going to come: each of them takes up something. -/
def World.supply (w : World) : Nat :=
  w.client.conn.inbound_offset + w.client.unread.length + (receivedBytes w.receipts).length

/-- The loops that wait for a frame of one kind, with the number of their rounds bounded. -/
def waitMatching {α : Type} (wanted : Frame → Option α) (deadline : Time) : Nat → Call α
  | 0 => throw .waiting
  | fuel + 1 => do
    let frame ← wait_frame_inner deadline
    match wanted frame with
    | some a => return a
    | none => do
      amqp_queue_frame frame
      waitMatching wanted deadline fuel

def onChannel (channel : UInt16) (frame : Frame) : Option Frame :=
  if frame.channel = channel then some frame else none

/-- The queue is left where the frame was found. -/
def amqp_simple_wait_frame_on_channel (channel : UInt16) : Call Frame := do
  let w ← get
  match w.client.queue.dropWhile (fun frame => frame.channel != channel) with
  | frame :: queue => do
    update fun c => { c with queue }
    return frame
  | [] => waitMatching (onChannel channel) amqp_time_infinite (w.supply + 1)

def amqp_simple_wait_frame_noblock (now_ns : UInt64) (timeout : Option Timeval) : Call Frame := do
  match amqp_time_from_now now_ns timeout with
  | .error status => Call.fail status
  | .ok deadline =>
    match (← get).client.queue with
    | frame :: queue => do
      update fun c => { c with queue }
      return frame
    | [] => wait_frame_inner deadline

/-- A frame that is not the method expected is lost. The clock is read twice. -/
def amqp_simple_wait_method_list (now_ns now_ns' : UInt64) (expected_channel : UInt16)
    (expected_methods : List UInt32) (deadline : Time) : Call Method := do
  match amqp_time_tv_until now_ns deadline with
  | .error status => Call.fail status
  | .ok timeout =>
    match ← amqp_simple_wait_frame_noblock now_ns' timeout with
    | ⟨channel, .method m⟩ =>
      if expected_channel = channel ∧ m.id ∈ expected_methods then return m
      else Call.fail .AMQP_STATUS_WRONG_METHOD
    | _ => Call.fail .AMQP_STATUS_WRONG_METHOD

/-- `amqp_rpc_reply_t`, where it is not an error of the library. -/
inductive Reply where
  | normal (m : Method)
  | server_exception (m : Method)

/-- A method that affects the call: the reply, or that the channel or the connection is closed. -/
def affects (channel : UInt16) (expected_reply_ids : List UInt32) (frame : Frame) : Option Method :=
  match frame.payload with
  | .method m =>
    if frame.channel = channel ∧ (m.id ∈ expected_reply_ids ∨ m.id = AMQP_CHANNEL_CLOSE_METHOD) ∨
        frame.channel = 0 ∧ m.id = AMQP_CONNECTION_CLOSE_METHOD then some m
    else none
  | _ => none

/-- The socket is closed where the time is over. -/
def Call.closing {α : Type} (call : Call α) : Call α := fun w =>
  match call w with
  | .error (.fault (.status .AMQP_STATUS_TIMEOUT)) w =>
    .error (.fault (.status .AMQP_STATUS_TIMEOUT)) { w with client := { w.client with closed := true } }
  | result => result

/-- The queue is not looked into. -/
def simple_rpc_inner (channel : UInt16) (request : Method) (expected_reply_ids : List UInt32)
    (deadline : Time) (attempts : List Attempt) : Call Reply := do
  amqp_send_frame_inner ⟨channel, .method request⟩ amqp_time_infinite attempts
  let fuel := (← get).supply + 1
  let m ← (waitMatching (affects channel expected_reply_ids) deadline fuel).closing
  return if m.id ∈ expected_reply_ids then .normal m else .server_exception m

end RabbitClient.Amqp
