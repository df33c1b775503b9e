import RabbitClient.Amqp.FrameBytes
import RabbitClient.Amqp.Inward
import RabbitClient.Amqp.Ledger

/-! What `wait_frame_inner` returns: the next frame of the stream that is not a heartbeat. -/
namespace RabbitClient.Amqp

open Bytes Deframing Stateful

variable {frame_max : Nat} {first : Bool} {b : Bytes} {w : World}

theorem ensures_ofStatus {res : Except Status Unit} {Q : Unit → World → Prop}
    {E : Stop → World → Prop} (hok : Q () w) (herror : ∀ status, E (.fault (.status status)) w) :
    Ensures (ofStatus res) w Q E := by
  cases res with
  | ok => exact ensures_of_ok rfl hok
  | error status => exact ensures_of_error rfl (herror status)

/-- Nothing has been done that has to do with receiving. -/
def Undisturbed (w w' : World) : Prop :=
  w'.receipts = w.receipts ∧ w'.client.conn = w.client.conn ∧
    w'.client.unread = w.client.unread ∧ w'.client.queue = w.client.queue

theorem Undisturbed.stands {w' : World} (h : Undisturbed w w')
    (hw : Stands frame_max first b w.client) : Stands frame_max first b w'.client := by
  obtain ⟨-, hconn, hunread, -⟩ := h
  rw [Stands, hconn, hunread]
  exact hw

theorem startSend_ensures {deadline : Time} {pause : Pause} {encoded : Bytes} (h : pause.Quiet) :
    Ensures (startSend deadline pause.attempts encoded) w
      (fun _ w' => Undisturbed w w' ∧ w'.pauses = w.pauses)
      (fun stop w' => Undisturbed w w' ∧ w'.pauses = w.pauses ∧
        ∃ status, stop = .fault (.status status)) := by
  obtain ⟨attempt, rest, hattempts, hquiet⟩ := h
  rw [hattempts]
  cases attempt with
  | sent now_ns =>
    rw [startSend]
    refine ensures_bind_of_ok rfl (ensures_bind_of_ok rfl (ensures_bind_of_ok rfl ?_))
    refine ensures_ofStatus ⟨⟨rfl, rfl, rfl, rfl⟩, rfl⟩ fun status => ?_
    exact ⟨⟨rfl, rfl, rfl, rfl⟩, rfl, status, rfl⟩
  | failed n status =>
    exact ensures_of_error rfl ⟨⟨rfl, rfl, rfl, rfl⟩, rfl, status, rfl⟩
  | partly n => exact absurd rfl (hquiet n)

/-- A frame is sent if it has an encoding that is not too long. -/
theorem send_frame_ensures {frame : Frame} {deadline : Time} {attempts : List Attempt}
    {Q : Unit → World → Prop} {E : Stop → World → Prop}
    (hfault : ∀ fault, fault ≠ .abort → E (.fault fault) w)
    (hsend : ∀ encoded, frame.wire = some encoded → encoded.length ≤ w.client.conn.frame_max →
      Ensures (startSend deadline attempts encoded) w Q E) :
    Ensures (amqp_send_frame_inner frame deadline attempts) w Q E := by
  refine ensures_bind_of_ok rfl ?_
  dsimp only
  rcases hbytes : amqp_frame_to_bytes frame (List.replicate w.client.conn.frame_max 0)
    with fault | encoded
  · have habort := frame_to_bytes_ne_abort frame (List.replicate w.client.conn.frame_max 0)
    rw [hbytes] at habort
    exact ensures_throw (hfault fault (by simpa using habort))
  · obtain ⟨hwire, hlen⟩ := frame_to_bytes_eq_ok.mp hbytes
    rw [List.length_replicate] at hlen
    exact hsend encoded hwire hlen

theorem sendHeartbeat_ensures (hquiet : w.Quiet) :
    Ensures sendHeartbeat w (fun _ w' => Undisturbed w w' ∧ w'.Quiet)
      (fun stop w' => Undisturbed w w' ∧ ∃ fault, stop = .fault fault ∧ fault ≠ .abort) := by
  have hrest (n : Nat) : (w.pauses (n + 1)).Quiet := hquiet (n + 1)
  refine ensures_bind_of_ok rfl (ensures_bind_of_ok rfl ?_)
  cases amqp_time_has_past (w.pauses 0).now_ns w.client.next_send_heartbeat with
  | error status => exact ensures_of_error rfl ⟨⟨rfl, rfl, rfl, rfl⟩, _, rfl, by simp⟩
  | ok past =>
    cases past with
    | false => exact ensures_of_ok rfl ⟨⟨rfl, rfl, rfl, rfl⟩, hrest⟩
    | true =>
      refine send_frame_ensures ?_ ?_
      · intro fault hfault
        exact ⟨⟨rfl, rfl, rfl, rfl⟩, fault, rfl, hfault⟩
      · intro encoded _ _
        refine (startSend_ensures (hquiet 0)).mono ?_ ?_
        · rintro _ w' ⟨hsame, hpauses⟩
          refine ⟨hsame, ?_⟩
          rw [World.Quiet, hpauses]
          exact hrest
        · rintro stop w' ⟨hsame, -, status, rfl⟩
          exact ⟨hsame, _, rfl, by simp⟩

theorem s_from_now_ne_timeout {now_ns : UInt64} {seconds : Int} {time : Time} {status : Status}
    (h : (amqp_time_s_from_now now_ns seconds time).2 = .error status) :
    status ≠ .AMQP_STATUS_TIMEOUT := by
  rw [amqp_time_s_from_now] at h
  split at h
  · cases h
  split at h
  · cases h
    simp
  dsimp only at h
  rw [Time.checked] at h
  split at h
  · cases h
    simp
  · cases h

/-- The stream goes on with what is received, and the buffer holds nothing else. -/
theorem took_received {w' : World} {received : Received} (hw : Stands frame_max first b w.client)
    (hempty : w.client.unread = []) (hreceipts : w.receipts = received :: w'.receipts)
    (hconn : w'.client.conn = w.client.conn) (hunread : w'.client.unread = received.bytes) :
    Took frame_max first b w [] w' := by
  obtain ⟨p, hreceiving, hnone, rfl⟩ := hw
  refine ⟨[received], first, p ++ received.bytes, hreceipts, ?_, ?_⟩
  · exact ⟨p, by rw [hconn]; exact hreceiving, hnone, by rw [hunread]⟩
  · rw [show receivedBytes [received] = received.bytes from List.append_nil _, hempty,
      List.append_nil]
    exact ahead_refl _ first _

/-- Something may have been received, but no frame has been taken. -/
def Arrived (frame_max : Nat) (first : Bool) (b : Bytes) (w w' : World) : Prop :=
  Took frame_max first b w [] w' ∧ w'.client.queue = w.client.queue

theorem Arrived.found {w' : World} (h : Arrived frame_max first b w w') :
    Found frame_max first b w none w' :=
  ⟨[], by simp, by simp, h.1, h.2⟩

theorem recv_with_timeout_ensures (hw : Stands frame_max first b w.client)
    (hempty : w.client.unread = []) :
    Ensures recv_with_timeout w
      (fun _ w' => Arrived frame_max first b w w' ∧ w'.pauses = w.pauses ∧
        w'.receipts.length < w.receipts.length)
      (fun stop w' => Arrived frame_max first b w w' ∧
        (stop = .waiting ∧ w'.receipts = [] ∧ w'.client.unread = [] ∨
          ∃ status, stop = .fault (.status status) ∧ (status = .AMQP_STATUS_TIMEOUT →
            w'.client.unread = [] ∧ w'.pauses = w.pauses ∧
              w'.receipts.length < w.receipts.length))) := by
  refine ensures_bind_of_ok rfl ?_
  rcases hreceipts : w.receipts with _ | ⟨received, receipts⟩
  · exact ensures_throw ⟨⟨took_refl hw, rfl⟩, .inl ⟨rfl, hreceipts, hempty⟩⟩
  cases received with
  | data d now_ns =>
    refine ensures_bind_of_ok rfl (ensures_bind_of_ok rfl (ensures_bind_of_ok rfl ?_))
    rcases hres : (amqp_time_s_from_now now_ns (2 * w.client.heartbeat)
      w.client.next_recv_heartbeat).2 with status | _
    · refine ensures_of_error rfl ⟨?_, ?_⟩
      · exact ⟨took_received hw hempty hreceipts rfl rfl, rfl⟩
      · exact .inr ⟨status, rfl, fun h => absurd h (s_from_now_ne_timeout hres)⟩
    · refine ensures_of_ok rfl ⟨?_, rfl, ?_⟩
      · exact ⟨took_received hw hempty hreceipts rfl rfl, rfl⟩
      · exact Nat.lt_succ_self _
  | failed status =>
    refine ensures_bind_of_ok rfl (ensures_of_error rfl ⟨?_, ?_⟩)
    · exact ⟨took_received hw hempty hreceipts rfl hempty, rfl⟩
    · exact .inr ⟨status, rfl, fun _ => ⟨hempty, rfl, Nat.lt_succ_self _⟩⟩

theorem first_cases (l r : Time) : amqp_time_first l r = l ∨ amqp_time_first l r = r := by
  rw [amqp_time_first]
  split
  · exact .inl rfl
  · exact .inr rfl

/-- What is left of waiting that has not come to a frame. Only a connection that nothing more happens
to goes on waiting, there is always a reason for the time to be over, and there is no error if nothing
fails. -/
def Ended (frame_max : Nat) (first : Bool) (b : Bytes) (w : World) (stop : Stop) (w' : World) :
    Prop :=
  Found frame_max first b w none w' ∧ stop ≠ .fault .abort ∧
    (stop = .waiting → w'.receipts = [] ∧ w'.client.unread = []) ∧ (w.Calm → stop = .waiting)

theorem recvUntil_ensures {timeout_deadline : Time} (hw : Stands frame_max first b w.client)
    (hempty : w.client.unread = []) :
    Ensures (recvUntil timeout_deadline) w
      (fun more w' => Found frame_max first b w none w' ∧ w'.pauses = w.pauses ∧
        w'.receipts.length < w.receipts.length ∧ (more = false → w'.client.unread = []))
      (Ended frame_max first b w) := by
  have hrecv := recv_with_timeout_ensures hw hempty
  have hcalm (hcalm : w.Calm) {stop : Stop} {w' : World}
      (hrun : recv_with_timeout w = .error stop w') : stop = .waiting :=
    (recv_with_timeout_calm hcalm).2 _ _ hrun
  cases hrun : recv_with_timeout w with
  | ok _ w' =>
    obtain ⟨harrived, hpauses, hshort⟩ := hrecv.1 _ _ hrun
    refine ensures_of_ok (by rw [recvUntil, hrun]) ⟨harrived.found, hpauses, hshort, by simp⟩
  | error stop w' =>
    obtain ⟨harrived, hcases⟩ := hrecv.2 _ _ hrun
    have hfound := harrived.found
    rcases hcases with ⟨rfl, hreceipts, hunread⟩ | ⟨status, rfl, hover⟩
    · exact ensures_of_error (by rw [recvUntil, hrun]) ⟨hfound, by simp,
        fun _ => ⟨hreceipts, hunread⟩, fun _ => rfl⟩
    · by_cases hstatus : status = .AMQP_STATUS_TIMEOUT
      · subst hstatus
        have hbusy (hc : w.Calm) : False := by cases hcalm hc hrun
        obtain ⟨hunread, hpauses, hshort⟩ := hover rfl
        have hreason := first_cases timeout_deadline
          (amqp_time_first w.client.next_recv_heartbeat w.client.next_send_heartbeat)
        have hreason' := first_cases w.client.next_recv_heartbeat w.client.next_send_heartbeat
        by_cases hrecv : amqp_time_first timeout_deadline (amqp_time_first
            w.client.next_recv_heartbeat w.client.next_send_heartbeat) = w.client.next_recv_heartbeat
        · refine ensures_of_error (by rw [recvUntil, hrun]; exact if_pos hrecv)
            ⟨?_, by simp, by simp, fun hc => (hbusy hc).elim⟩
          exact hfound
        by_cases htimeout : amqp_time_first timeout_deadline (amqp_time_first
            w.client.next_recv_heartbeat w.client.next_send_heartbeat) = timeout_deadline
        · have hover : recvUntil timeout_deadline w =
              .error (.fault (.status .AMQP_STATUS_TIMEOUT)) w' := by
            rw [recvUntil, hrun]
            exact (if_neg hrecv).trans (if_pos htimeout)
          exact ensures_of_error hover ⟨hfound, by simp, by simp, fun hc => (hbusy hc).elim⟩
        have hsend : amqp_time_first timeout_deadline (amqp_time_first
            w.client.next_recv_heartbeat w.client.next_send_heartbeat) =
            w.client.next_send_heartbeat := by
          rcases hreason with h | h
          · exact absurd h htimeout
          · rcases hreason' with h' | h'
            · exact absurd (h.trans h') hrecv
            · exact h.trans h'
        have hagain : recvUntil timeout_deadline w = .ok false w' := by
          rw [recvUntil, hrun]
          exact (if_neg hrecv).trans ((if_neg htimeout).trans (if_pos hsend))
        exact ensures_of_ok hagain ⟨hfound, hpauses, hshort, fun _ => hunread⟩
      · have hfailed : recvUntil timeout_deadline w = .error (.fault (.status status)) w' := by
          rw [recvUntil, hrun]
          cases status <;> simp at hstatus ⊢
        exact ensures_of_error hfailed ⟨hfound, by simp, by simp, fun hc => hcalm hc hrun⟩

/-- Waiting has come to an error of the stream, or has ended with nothing lost. -/
def Failed (frame_max : Nat) (first : Bool) (b : Bytes) (w : World) (stop : Stop) (w' : World) :
    Prop :=
  Ended frame_max first b w stop w' ∨ Spoilt frame_max first b w stop w'

/-- Waiting has gone on from `w₁`. -/
theorem Failed.behind {w₁ w₂ : World} {first₁ : Bool} {b₁ : Bytes} {stop : Stop}
    (hcalm : w.Calm → w₁.Calm)
    (hfound : ∀ frame w₂, Found frame_max first₁ b₁ w₁ frame w₂ → Found frame_max first b w frame w₂)
    (hspoilt : ∀ stop w₂, Spoilt frame_max first₁ b₁ w₁ stop w₂ → Spoilt frame_max first b w stop w₂)
    (h : Failed frame_max first₁ b₁ w₁ stop w₂) : Failed frame_max first b w stop w₂ := by
  rcases h with ⟨hend, habort, hwaiting, hstop⟩ | hbroke
  · exact .inl ⟨hfound none w₂ hend, habort, hwaiting, fun hc => hstop (hcalm hc)⟩
  · exact .inr (hspoilt stop w₂ hbroke)

theorem Undisturbed.found {w' : World} (h : Undisturbed w w')
    (hw : Stands frame_max first b w.client) : Found frame_max first b w none w' := by
  refine ⟨[], by simp, by simp, ⟨[], first, b, h.1.symm, h.stands hw, ?_⟩, h.2.2.2⟩
  rw [show receivedBytes [] = [] from rfl, List.append_nil]
  exact ahead_refl _ first b

/-- What a call leaves for the calls after it. -/
structure Steady (w w' : World) : Prop where
  quiet : w'.Quiet
  calm : w.Calm → w'.Calm

theorem Within.steady {w' : World} (h : Within w w') (hquiet : w.Quiet) : Steady w w' := by
  refine ⟨?_, h.calm⟩
  rw [World.Quiet, h.pauses]
  exact hquiet

theorem Steady.trans {w₁ w₂ : World} (h : Steady w w₁) (h' : Steady w₁ w₂) : Steady w w₂ :=
  ⟨h'.quiet, fun hcalm => h'.calm (h.calm hcalm)⟩

theorem beginrecv_ensures {timeout_deadline : Time} {fuel : Nat}
    (hw : Stands frame_max first b w.client) (hempty : w.client.unread = []) (hquiet : w.Quiet)
    (hfuel : w.receipts.length < fuel) :
    Ensures (beginrecv timeout_deadline fuel) w
      (fun frame w' => Found frame_max first b w (some frame) w' ∧ Steady w w')
      (Failed frame_max first b w) := by
  induction fuel generalizing first b w with
  | zero => omega
  | succ fuel ih =>
    refine ((sendHeartbeat_ensures hquiet).and (sendHeartbeat_calm w)).bind ?_ ?_
    · rintro stop w₁ ⟨⟨hsame, fault, rfl, hfault⟩, hcalm⟩
      exact .inl ⟨hsame.found hw, by simpa using hfault, by simp, fun h => absurd h hcalm⟩
    rintro _ w₁ ⟨⟨hsame, hquiet₁⟩, hcalm₁⟩
    have hsteady₁ : Steady w w₁ := ⟨hquiet₁, hcalm₁⟩
    obtain ⟨first₁, b₁, hw₁, hfound₁, hspoilt₁⟩ := (hsame.found hw).next
    refine ((recvUntil_ensures hw₁ (hsame.2.2.1.trans hempty)).and
      ((inward_recvUntil timeout_deadline).ensures w₁)).bind ?_ ?_
    · rintro stop w₂ ⟨hend, -⟩
      exact Failed.behind hcalm₁ hfound₁ hspoilt₁ (.inl hend)
    rintro more w₂ ⟨⟨hreceived, -, hshort, hstill⟩, hwithin⟩
    have hfound₂ := hfound₁ none w₂ hreceived
    have hsteady₂ := hsteady₁.trans (hwithin.steady hquiet₁)
    rw [hsame.1] at hshort
    -- the next round begins where nothing is left in the buffer
    have hround (w₃ : World) (hfound₃ : Found frame_max first b w none w₃) (hsteady₃ : Steady w w₃)
        (hempty₃ : w₃.client.unread = []) (hshort₃ : w₃.receipts.length < w.receipts.length) :
        Ensures (beginrecv timeout_deadline fuel) w₃
          (fun frame w' => Found frame_max first b w (some frame) w' ∧ Steady w w')
          (Failed frame_max first b w) := by
      obtain ⟨first₃, b₃, hw₃, hfound, hspoilt⟩ := hfound₃.next
      refine (ih hw₃ hempty₃ hsteady₃.quiet (by omega)).mono ?_ ?_
      · rintro frame w' ⟨hframe, hsteady⟩
        exact ⟨hfound _ _ hframe, hsteady₃.trans hsteady⟩
      · exact fun stop w' => Failed.behind hsteady₃.calm hfound hspoilt
    cases more with
    | false => exact hround w₂ hfound₂ hsteady₂ (hstill rfl) hshort
    | true =>
      obtain ⟨first₂, b₂, hw₂, hfound, hspoilt⟩ := hfound₂.next
      refine ensures_bind_of_ok rfl (((readBuffered_ensures hw₂ (Nat.le_refl _)).and
        ((inward_readBuffered _).ensures w₂)).bind ?_ ?_)
      · rintro stop w₃ ⟨hbroke, -⟩
        exact .inr (hspoilt stop w₃ hbroke)
      rintro frame w₃ ⟨⟨hframe, hreceipts₃, -, hempty₃⟩, hwithin₃⟩
      have hsteady₃ := hsteady₂.trans (hwithin₃.steady hsteady₂.quiet)
      rw [← hreceipts₃] at hshort
      cases frame with
      | some frame => exact ensures_pure ⟨hfound _ _ hframe, hsteady₃⟩
      | none => exact hround w₃ (hfound _ _ hframe) hsteady₃ (hempty₃ rfl) hshort

/-- Waiting for a frame gives the next one of the stream that is not a heartbeat, or ends with
nothing lost, or the stream is in error. -/
theorem wait_frame_ensures {timeout_deadline : Time} (hw : Stands frame_max first b w.client)
    (hquiet : w.Quiet) :
    Ensures (wait_frame_inner timeout_deadline) w
      (fun frame w' => Found frame_max first b w (some frame) w' ∧ Steady w w')
      (Failed frame_max first b w) := by
  refine ensures_bind_of_ok rfl (((readBuffered_ensures hw (Nat.le_refl _)).and
    ((inward_readBuffered _).ensures w)).bind ?_ ?_)
  · exact fun stop w' hspoilt => .inr hspoilt.1
  rintro frame w₁ ⟨⟨hframe, -, -, hempty⟩, hwithin⟩
  have hsteady₁ := hwithin.steady hquiet
  cases frame with
  | some frame => exact ensures_pure ⟨hframe, hsteady₁⟩
  | none =>
    obtain ⟨first₁, b₁, hw₁, hfound, hspoilt⟩ := hframe.next
    refine ensures_bind_of_ok rfl ((beginrecv_ensures hw₁ (hempty rfl) hsteady₁.quiet
      (Nat.lt_succ_self _)).mono ?_ ?_)
    · rintro frame w' ⟨hnext, hsteady⟩
      exact ⟨hfound _ _ hnext, hsteady₁.trans hsteady⟩
    · exact fun stop w' => Failed.behind hsteady₁.calm hfound hspoilt

/-- The frames that all that is going to be received makes up, and how they end. -/
def Coming (frame_max : Nat) (ending : Except Fault (Bool × Bytes)) (items : List Frame) (w : World) :
    Prop :=
  ∃ first b, Stands frame_max first b w.client ∧
    split (nextFrame frame_max) first (b ++ receivedBytes w.receipts) = (items, ending)

variable {ending : Except Fault (Bool × Bytes)} {items : List Frame}

theorem Took.coming {xs : List Frame} {w' : World} (h : Took frame_max first b w xs w')
    (hitems : split (nextFrame frame_max) first (b ++ receivedBytes w.receipts) = (items, ending)) :
    ∃ items', Coming frame_max ending items' w' ∧ items = xs ++ items' := by
  obtain ⟨used, first', b', hreceipts, hstands, hahead⟩ := h
  have hall := hahead.append (nextFrame_stable frame_max) (receivedBytes w'.receipts)
  rw [List.append_assoc, ← receivedBytes_append, ← hreceipts, Ahead, hitems] at hall
  obtain ⟨rfl, rfl⟩ := Prod.mk.inj hall
  exact ⟨_, ⟨first', b', hstands, rfl⟩, rfl⟩

theorem Broke.coming {xs : List Frame} {stop : Stop} {w' : World}
    (h : Broke frame_max first b w xs stop w')
    (hitems : split (nextFrame frame_max) first (b ++ receivedBytes w.receipts) = (items, ending)) :
    ∃ fault, stop = .fault fault ∧ ending = .error fault ∧ fault.OfInput ∧ items = xs := by
  obtain ⟨used, fault, hreceipts, rfl, hsplit⟩ := h
  have hinput := split_ofInput (congrArg Prod.snd hsplit)
  have hfail := split_append_fail (nextFrame_stable frame_max) (congrArg Prod.snd hsplit)
    (receivedBytes w'.receipts)
  rw [List.append_assoc, ← receivedBytes_append, ← hreceipts, hitems, hsplit] at hfail
  obtain ⟨rfl, rfl⟩ := Prod.mk.inj hfail
  exact ⟨fault, rfl, rfl, hinput, rfl⟩

theorem Coming.nothing_more (h : Coming frame_max ending items w) (hreceipts : w.receipts = [])
    (hunread : w.client.unread = []) : items = [] := by
  obtain ⟨first, b, ⟨p, -, hnone, rfl⟩, hsplit⟩ := h
  rw [hreceipts, hunread, show receivedBytes [] = [] from rfl, List.append_nil, List.append_nil,
    split_wait hnone] at hsplit
  exact (congrArg Prod.fst hsplit).symm

/-- A call from `w₀` has ended without a result: there is more to come, and nothing is lost, or the
stream is in error. -/
def EndedWith (frame_max : Nat) (ending : Except Fault (Bool × Bytes)) (items : List Frame)
    (w₀ : World) (stop : Stop) (w : World) : Prop :=
  stop ≠ .fault .abort ∧
    (Coming frame_max ending items w ∧ (stop = .waiting → items = []) ∧
        (w₀.Calm → stop = .waiting) ∨
      items = [] ∧ ∃ fault, stop = .fault fault ∧ ending = .error fault ∧ fault.OfInput)

/-- Waiting for a frame gives the next one that is not a heartbeat, and leaves the rest. -/
theorem wait_frame_gives {timeout_deadline : Time} (hw : Coming frame_max ending items w)
    (hquiet : w.Quiet) :
    Ensures (wait_frame_inner timeout_deadline) w
      (fun frame w' => Steady w w' ∧ w'.client.queue = w.client.queue ∧
        ∃ hs items', items = hs ++ frame :: items' ∧ (∀ h ∈ hs, h.isHeartbeat) ∧
          frame.isHeartbeat = false ∧ Coming frame_max ending items' w')
      (fun stop w' => w'.client.queue = w.client.queue ∧
        ∃ hs items', items = hs ++ items' ∧ (∀ h ∈ hs, h.isHeartbeat) ∧
          EndedWith frame_max ending items' w stop w') := by
  obtain ⟨first, b, hstands, hitems⟩ := hw
  refine (wait_frame_ensures hstands hquiet).mono ?_ ?_
  · rintro frame w' ⟨⟨hs, hall, hdata, htook, hqueue⟩, hsteady⟩
    obtain ⟨items', hcoming, rfl⟩ := htook.coming hitems
    exact ⟨hsteady, hqueue, hs, items', by simp, hall, hdata frame rfl, hcoming⟩
  · rintro stop w' (⟨⟨hs, hall, -, htook, hqueue⟩, habort, hwaiting, hcalm⟩ |
      ⟨hs, hall, hbroke, hqueue⟩)
    · obtain ⟨items', hcoming, rfl⟩ := htook.coming hitems
      refine ⟨hqueue, hs, items', by simp, hall, habort, .inl ⟨hcoming, ?_, hcalm⟩⟩
      intro hstop
      obtain ⟨hreceipts, hunread⟩ := hwaiting hstop
      exact hcoming.nothing_more hreceipts hunread
    · obtain ⟨fault, rfl, rfl, hinput, rfl⟩ := hbroke.coming hitems
      exact ⟨hqueue, items, [], by simp, hall, by simpa using hinput.ne_abort,
        .inr ⟨rfl, fault, rfl, rfl, hinput⟩⟩

end RabbitClient.Amqp
