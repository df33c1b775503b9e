import RabbitClient.Amqp.Requests
import RabbitClient.Amqp.Waiting

/-! No call changes what is going to happen: the heartbeats that are not sent yet stay the same. -/
namespace RabbitClient.Amqp

open Bytes Stateful

variable {α β : Type}

theorem keeps_fail (status : Status) : Keeps World.Quiet (Call.fail status : Call α) :=
  keeps_throw _

theorem keeps_update (f : Client → Client) : Keeps World.Quiet (update f) :=
  keeps_modify fun _ h => h

theorem keeps_onTimeout_try_recv (status : Status) :
    Keeps World.Quiet (amqp_try_recv.onTimeout status) :=
  fun w hquiet => onTimeout_ensures (inward_try_recv.quiet w hquiet) fun _ => id

theorem keeps_startSend (deadline : Time) (attempts : List Attempt) (encoded : Bytes) :
    Keeps World.Quiet (startSend deadline attempts encoded) := by
  induction attempts generalizing encoded with
  | nil => exact keeps_throw _
  | cons attempt attempts ih =>
    cases attempt with
    | sent now_ns =>
      refine (keeps_update _).bind fun _ => keeps_get.bind fun _ => ?_
      exact (keeps_update _).bind fun _ => (inward_ofStatus _).quiet
    | failed n status => exact (keeps_update _).bind fun _ => keeps_fail status
    | partly n =>
      refine (keeps_update _).bind fun _ => keeps_get.bind fun w => ?_
      split
      · exact keeps_fail _
      · exact (keeps_onTimeout_try_recv _).bind fun _ => ih _

theorem keeps_send_frame_inner (frame : Frame) (deadline : Time) (attempts : List Attempt) :
    Keeps World.Quiet (amqp_send_frame_inner frame deadline attempts) := by
  refine keeps_get.bind fun w => ?_
  dsimp only
  split
  · exact keeps_throw _
  · exact keeps_startSend _ _ _

theorem keeps_sendHeartbeat : Keeps World.Quiet sendHeartbeat := by
  intro w hquiet
  refine ensures_bind_of_ok rfl (ensures_bind_of_ok rfl ?_)
  have hrest (n : Nat) : (w.pauses (n + 1)).Quiet := hquiet (n + 1)
  cases amqp_time_has_past (w.pauses 0).now_ns w.client.next_send_heartbeat with
  | error status => exact keeps_fail status _ hrest
  | ok past =>
    cases past with
    | false => exact keeps_pure () _ hrest
    | true => exact keeps_send_frame_inner _ _ _ _ hrest

theorem keeps_recvUntil (timeout_deadline : Time) :
    Keeps World.Quiet (recvUntil timeout_deadline) := by
  intro w hquiet
  have hrecv := inward_recv_with_timeout.quiet w hquiet
  rw [Ensures]
  simp only [recvUntil]
  split
  next h => exact ensures_of_ok rfl (hrecv.1 _ _ h)
  next h =>
    have hw := hrecv.2 _ _ h
    split
    · exact ensures_of_error rfl hw
    split
    · exact ensures_of_error rfl hw
    split
    · exact ensures_of_ok rfl hw
    · exact ensures_of_error rfl hw
  next h => exact ensures_of_error rfl (hrecv.2 _ _ h)

theorem keeps_beginrecv (timeout_deadline : Time) (fuel : Nat) :
    Keeps World.Quiet (beginrecv timeout_deadline fuel) := by
  induction fuel with
  | zero => exact keeps_throw _
  | succ fuel ih =>
    refine keeps_sendHeartbeat.bind fun _ => (keeps_recvUntil _).bind fun more => ?_
    cases more with
    | false => exact ih
    | true =>
      refine keeps_get.bind fun w => (inward_readBuffered _).quiet.bind fun frame => ?_
      cases frame with
      | none => exact ih
      | some frame => exact keeps_pure _

theorem keeps_wait_frame_inner (timeout_deadline : Time) :
    Keeps World.Quiet (wait_frame_inner timeout_deadline) := by
  refine keeps_get.bind fun w => (inward_readBuffered _).quiet.bind fun frame => ?_
  cases frame with
  | none => exact keeps_get.bind fun w => keeps_beginrecv _ _
  | some frame => exact keeps_pure _

end RabbitClient.Amqp
