import RabbitClient.Amqp.Requests
import RabbitClient.Library.Stateful

/-! What calls that only take from the peer leave as it is, and what does not happen if nothing fails. -/
namespace RabbitClient.Amqp

open Bytes Stateful

variable {α β : Type} {w w' : World}

/-- Nothing has been written from `w` to `w'`, and the heartbeats are due as they were. -/
structure Within (w w' : World) : Prop where
  pauses : w'.pauses = w.pauses
  written : w'.client.written = w.client.written
  heartbeat : w'.client.heartbeat = w.client.heartbeat
  next_send_heartbeat : w'.client.next_send_heartbeat = w.client.next_send_heartbeat
  receipts : w'.receipts <:+ w.receipts

/-- A heartbeat is sent as a whole, or the attempt fails. -/
def Pause.Quiet (pause : Pause) : Prop :=
  ∃ attempt attempts, pause.attempts = attempt :: attempts ∧ ∀ n, attempt ≠ .partly n

def World.Quiet (w : World) : Prop := ∀ n, (w.pauses n).Quiet

/-- A call that only takes from the peer. -/
def Inward (call : Call α) : Prop := ∀ w, Keeps (Within w) call

theorem within_refl (w : World) : Within w w := ⟨rfl, rfl, rfl, rfl, List.suffix_rfl⟩

theorem Within.trans {w'' : World} (h : Within w w') (h' : Within w' w'') : Within w w'' where
  pauses := h'.pauses.trans h.pauses
  written := h'.written.trans h.written
  heartbeat := h'.heartbeat.trans h.heartbeat
  next_send_heartbeat := h'.next_send_heartbeat.trans h.next_send_heartbeat
  receipts := h'.receipts.trans h.receipts

theorem Inward.ensures {call : Call α} (h : Inward call) (w : World) :
    Ensures call w (fun _ => Within w) (fun _ => Within w) :=
  h w w (within_refl w)

theorem Inward.quiet {call : Call α} (h : Inward call) : Keeps World.Quiet call := by
  intro w hquiet
  refine (h.ensures w).mono ?_ ?_
  · intro a w' hwithin
    rwa [World.Quiet, hwithin.pauses]
  · intro stop w' hwithin
    rwa [World.Quiet, hwithin.pauses]

theorem inward_pure (a : α) : Inward (pure a) := fun _ => keeps_pure a

theorem inward_throw (stop : Stop) : Inward (throw stop : Call α) := fun _ => keeps_throw stop

theorem inward_get : Inward (get : Call World) := fun _ => keeps_get

theorem Inward.bind {call : Call α} {f : α → Call β} (h : Inward call) (hf : ∀ a, Inward (f a)) :
    Inward (call >>= f) :=
  fun w => (h w).bind fun a => hf a w

theorem inward_modify {g : World → World} (hg : ∀ w, Within w (g w)) : Inward (modify g) := by
  refine fun w => keeps_modify fun w' h => ?_
  exact h.trans (hg w')

theorem inward_update {f : Client → Client} (hf : ∀ w : World, Within w { w with client := f w.client }) :
    Inward (update f) :=
  inward_modify hf

theorem inward_ofStatus (res : Except Status Unit) : Inward (ofStatus res) := by
  cases res with
  | ok => exact inward_pure _
  | error status => exact inward_throw _

theorem inward_data_in_buffer : Inward amqp_data_in_buffer :=
  inward_get.bind fun _ => inward_pure _

theorem inward_consume_one_frame : Inward consume_one_frame := by
  intro w₀ w hw
  rcases hinput : amqp_handle_input w.client.conn w.client.unread with ⟨conn, fault | ⟨res, frame⟩⟩
  · have hrun : consume_one_frame w =
        .error (.fault fault) { w with client := { w.client with conn } } := by
      rw [consume_one_frame, hinput]
    exact ensures_of_error hrun (hw.trans ⟨rfl, rfl, rfl, rfl, List.suffix_rfl⟩)
  · have hrun : consume_one_frame w = .ok frame { w with client := { w.client with
        conn, unread := w.client.unread.drop res } } := by
      rw [consume_one_frame, hinput]
    exact ensures_of_ok hrun (hw.trans ⟨rfl, rfl, rfl, rfl, List.suffix_rfl⟩)

theorem inward_recv_with_timeout : Inward recv_with_timeout := by
  intro w₀ w hw
  refine ensures_bind_of_ok rfl ?_
  rcases hreceipts : w.receipts with _ | ⟨received, receipts⟩
  · exact ensures_throw hw
  have hrest : receipts <:+ w.receipts := hreceipts ▸ List.suffix_cons received receipts
  cases received with
  | failed status =>
    refine ensures_bind_of_ok rfl (ensures_throw (hw.trans ?_))
    exact ⟨rfl, rfl, rfl, rfl, hrest⟩
  | data d now_ns =>
    refine ensures_bind_of_ok rfl (ensures_bind_of_ok rfl (ensures_bind_of_ok rfl ?_))
    refine inward_ofStatus _ w₀ _ (hw.trans ⟨rfl, rfl, rfl, rfl, hrest⟩)

theorem inward_queue_frame (frame : Frame) : Inward (amqp_queue_frame frame) :=
  inward_update fun _ => ⟨rfl, rfl, rfl, rfl, List.suffix_rfl⟩

theorem inward_queueBuffered (fuel : Nat) : Inward (queueBuffered fuel) := by
  induction fuel with
  | zero => exact inward_pure _
  | succ fuel ih =>
    refine inward_data_in_buffer.bind fun more => ?_
    cases more with
    | false => exact inward_pure _
    | true =>
      refine inward_consume_one_frame.bind fun frame => ?_
      cases frame with
      | none => exact ih
      | some frame =>
        dsimp only
        exact (inward_queue_frame frame).bind fun _ => ih

theorem inward_try_recv : Inward amqp_try_recv :=
  inward_get.bind fun _ => (inward_queueBuffered _).bind fun _ => inward_recv_with_timeout

theorem inward_readBuffered (fuel : Nat) : Inward (readBuffered fuel) := by
  induction fuel with
  | zero => exact inward_pure _
  | succ fuel ih =>
    refine inward_data_in_buffer.bind fun more => ?_
    cases more with
    | false => exact inward_pure _
    | true =>
      refine inward_consume_one_frame.bind fun frame => ?_
      split
      · exact ih
      · exact inward_pure _
      · exact ih

theorem inward_recvUntil (timeout_deadline : Time) : Inward (recvUntil timeout_deadline) := by
  intro w₀ w hw
  have hrecv := inward_recv_with_timeout w₀ w hw
  have hclosed {w' : World} (h : Within w₀ w') :
      Within w₀ { w' with client := { w'.client with closed := true } } :=
    h.trans ⟨rfl, rfl, rfl, rfl, List.suffix_rfl⟩
  rw [Ensures]
  simp only [recvUntil]
  split
  next h => exact ensures_of_ok rfl (hrecv.1 _ _ h)
  next h =>
    have hw' := hrecv.2 _ _ h
    split
    · exact ensures_of_error rfl (hclosed hw')
    split
    · exact ensures_of_error rfl hw'
    split
    · exact ensures_of_ok rfl hw'
    · exact ensures_of_error rfl hw'
  next h => exact ensures_of_error rfl (hrecv.2 _ _ h)

/-- Nothing fails, and the connection has no heartbeats. -/
structure World.Calm (w : World) : Prop where
  heartbeat : w.client.heartbeat = 0
  next_send_heartbeat : w.client.next_send_heartbeat = amqp_time_infinite
  receipts : ∀ r ∈ w.receipts, ∃ d now_ns, r = .data d now_ns

theorem Within.calm (h : Within w w') (hw : w.Calm) : w'.Calm where
  heartbeat := h.heartbeat.trans hw.heartbeat
  next_send_heartbeat := h.next_send_heartbeat.trans hw.next_send_heartbeat
  receipts r hr := hw.receipts r (h.receipts.subset hr)

theorem recv_with_timeout_calm (hcalm : w.Calm) :
    Ensures recv_with_timeout w (fun _ _ => True) (fun stop _ => stop = .waiting) := by
  refine ensures_bind_of_ok rfl ?_
  rcases hreceipts : w.receipts with _ | ⟨received, receipts⟩
  · exact ensures_throw rfl
  obtain ⟨d, now_ns, rfl⟩ := hcalm.receipts received (by simp [hreceipts])
  refine ensures_bind_of_ok rfl (ensures_bind_of_ok rfl (ensures_bind_of_ok rfl ?_))
  rw [hcalm.heartbeat]
  exact ensures_of_ok rfl trivial

theorem sendHeartbeat_calm (w : World) :
    Ensures sendHeartbeat w (fun _ w' => w.Calm → w'.Calm) (fun _ _ => ¬ w.Calm) := by
  by_cases hcalm : w.Calm
  · refine ensures_bind_of_ok rfl (ensures_bind_of_ok rfl ?_)
    rw [hcalm.next_send_heartbeat]
    refine ensures_of_ok rfl fun _ => ?_
    exact ⟨hcalm.heartbeat, hcalm.next_send_heartbeat, hcalm.receipts⟩
  · exact ⟨fun _ _ _ h => absurd h hcalm, fun _ _ _ => hcalm⟩

theorem onTimeout_ensures {call : Call α} {status : Status} {w : World} {Q : α → World → Prop}
    {E : Stop → World → Prop} (h : Ensures call w Q E)
    (htimeout : ∀ w', E (.fault (.status .AMQP_STATUS_TIMEOUT)) w' →
      E (.fault (.status status)) w') : Ensures (call.onTimeout status) w Q E := by
  constructor
  · intro a w' hrun
    rw [Call.onTimeout] at hrun
    split at hrun
    · cases hrun
    · exact h.1 a w' hrun
  · intro stop w' hrun
    rw [Call.onTimeout] at hrun
    split at hrun
    next hover =>
      cases hrun
      exact htimeout w' (h.2 _ _ hover)
    · exact h.2 stop w' hrun

theorem closing_ensures {call : Call α} {w : World} {Q : α → World → Prop}
    {E : Stop → World → Prop} (h : Ensures call w Q E)
    (htimeout : ∀ w', E (.fault (.status .AMQP_STATUS_TIMEOUT)) w' →
      E (.fault (.status .AMQP_STATUS_TIMEOUT))
        { w' with client := { w'.client with closed := true } }) :
    Ensures call.closing w Q E := by
  constructor
  · intro a w' hrun
    rw [Call.closing] at hrun
    split at hrun
    · cases hrun
    · exact h.1 a w' hrun
  · intro stop w' hrun
    rw [Call.closing] at hrun
    split at hrun
    next w'' hover =>
      cases hrun
      exact htimeout w'' (h.2 _ w'' hover)
    · exact h.2 stop w' hrun

end RabbitClient.Amqp
