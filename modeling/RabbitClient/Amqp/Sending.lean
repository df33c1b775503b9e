import RabbitClient.Amqp.Delivery

/-! What calls that send write to the socket, and calls of the peer that wait for their reply. -/
namespace RabbitClient.Amqp

open Bytes Deframing Stateful

variable {frame_max : Nat} {ending : Except Fault (Bool × Bytes)} {queue items : List Frame}
  {frame : Frame} {w : World} {deadline : Time} {attempts : List Attempt} {encoded : Bytes}

/-- A call that sends may also take from the peer what it finds there: it goes to the queue. -/
def Meanwhile (frame_max : Nat) (ending : Except Fault (Bool × Bytes)) (queue items : List Frame)
    (w : World) : Prop :=
  ∃ xs items', items = xs ++ items' ∧ Ready frame_max ending (queue ++ xs) items' w

/-- The same for a call that fails. -/
def MeanwhileHalted (frame_max : Nat) (ending : Except Fault (Bool × Bytes))
    (queue items : List Frame) (stop : Stop) (w : World) : Prop :=
  ∃ xs items', items = xs ++ items' ∧ Halted frame_max ending (queue ++ xs) items' stop w

theorem Ready.meanwhile (h : Ready frame_max ending queue items w) :
    Meanwhile frame_max ending queue items w :=
  ⟨[], items, rfl, by rwa [List.append_nil]⟩

theorem Ready.meanwhile_halted {stop : Stop} (h : Ready frame_max ending queue items w)
    (hstop : stop ≠ .fault .abort) : MeanwhileHalted frame_max ending queue items stop w :=
  ⟨[], items, rfl, by rw [List.append_nil]; exact h.halted hstop⟩

theorem Ready.undisturbed {w' : World} (h : Ready frame_max ending queue items w)
    (hsame : Undisturbed w w') (hpauses : w'.pauses = w.pauses) :
    Ready frame_max ending queue items w' := by
  obtain ⟨first, b, hstands, hsplit⟩ := h.coming
  refine ⟨⟨first, b, hsame.stands hstands, ?_⟩, ?_, hsame.2.2.2.trans h.queue⟩
  · rw [hsame.1]
    exact hsplit
  · rw [World.Quiet, hpauses]
    exact h.quiet

/-- The time is over under another name. -/
theorem Halted.renamed {status : Status}
    (h : Halted frame_max ending queue items (.fault (.status .AMQP_STATUS_TIMEOUT)) w) :
    Halted frame_max ending queue items (.fault (.status status)) w := by
  refine ⟨by simp, ?_, h.quiet, h.queue⟩
  rcases h.rest with hcoming | ⟨-, fault, hstop, -, hinput⟩
  · exact .inl hcoming
  · cases hstop
    exact absurd rfl hinput.ne_timeout

theorem try_recv_meanwhile (h : Ready frame_max ending queue items w) (status : Status) :
    Ensures (amqp_try_recv.onTimeout status) w
      (fun _ w' => Meanwhile frame_max ending queue items w' ∧
        w'.client.written = w.client.written)
      (fun stop w' => MeanwhileHalted frame_max ending queue items stop w' ∧
        w'.client.written = w.client.written) := by
  refine onTimeout_ensures (((try_recv_ready h).and
    (inward_try_recv.ensures w)).mono ?_ ?_) ?_
  · rintro _ w' ⟨hready, hwithin⟩
    exact ⟨hready, hwithin.written⟩
  · rintro stop w' ⟨hhalted, hwithin⟩
    exact ⟨hhalted, hwithin.written⟩
  · rintro w' ⟨⟨xs, items', hitems, hhalted⟩, hwritten⟩
    exact ⟨⟨xs, items', hitems, hhalted.renamed⟩, hwritten⟩

/-- In however many attempts, what is written is what was to be sent, or a front of it if the call
fails. -/
theorem startSend_writes (h : Ready frame_max ending queue items w) :
    Ensures (startSend deadline attempts encoded) w
      (fun _ w' => Meanwhile frame_max ending queue items w' ∧
        w'.client.written = w.client.written ++ encoded)
      (fun stop w' => MeanwhileHalted frame_max ending queue items stop w' ∧
        ∃ part, part <+: encoded ∧ w'.client.written = w.client.written ++ part) := by
  induction attempts generalizing queue items w encoded with
  | nil =>
    refine ensures_throw ⟨h.meanwhile_halted (by simp), [], List.nil_prefix, ?_⟩
    rw [List.append_nil]
  | cons attempt attempts ih =>
    cases attempt with
    | sent now_ns =>
      rw [startSend]
      refine ensures_bind_of_ok rfl (ensures_bind_of_ok rfl (ensures_bind_of_ok rfl ?_))
      refine ensures_ofStatus ⟨Ready.meanwhile (h.undisturbed ⟨rfl, rfl, rfl, rfl⟩ rfl), rfl⟩ ?_
      intro status
      refine ⟨Ready.meanwhile_halted (h.undisturbed ⟨rfl, rfl, rfl, rfl⟩ rfl) (by simp), ?_⟩
      exact ⟨encoded, List.prefix_rfl, rfl⟩
    | failed n status =>
      refine ensures_bind_of_ok rfl (ensures_throw ⟨?_, encoded.take n, List.take_prefix .., rfl⟩)
      exact Ready.meanwhile_halted (h.undisturbed ⟨rfl, rfl, rfl, rfl⟩ rfl) (by simp)
    | partly n =>
      rw [startSend]
      refine ensures_bind_of_ok rfl (ensures_bind_of_ok rfl ?_)
      have hsent : Ready frame_max ending queue items { w with client := { w.client with
          written := w.client.written ++ encoded.take n } } := h.undisturbed ⟨rfl, rfl, rfl, rfl⟩ rfl
      dsimp only
      split
      · exact ensures_throw ⟨hsent.meanwhile_halted (by simp), encoded.take n,
          List.take_prefix .., rfl⟩
      refine (try_recv_meanwhile hsent _).bind ?_ ?_
      · rintro stop w' ⟨hhalted, hwritten⟩
        exact ⟨hhalted, encoded.take n, List.take_prefix .., hwritten⟩
      rintro _ w' ⟨⟨xs, items', rfl, hready⟩, hwritten⟩
      refine (ih hready).mono ?_ ?_
      · rintro _ w'' ⟨⟨ys, items'', rfl, hready'⟩, hwritten'⟩
        refine ⟨⟨xs ++ ys, items'', by simp, by rwa [← List.append_assoc]⟩, ?_⟩
        rw [hwritten', hwritten, List.append_assoc, List.take_append_drop]
      · rintro stop w'' ⟨⟨ys, items'', rfl, hhalted⟩, part, hpart, hwritten'⟩
        refine ⟨⟨xs ++ ys, items'', by simp, by rwa [← List.append_assoc]⟩,
          encoded.take n ++ part, ?_, ?_⟩
        · have hfront : encoded.take n ++ part <+: encoded.take n ++ encoded.drop n :=
            (List.prefix_append_right_inj _).mpr hpart
          rwa [List.take_append_drop] at hfront
        · rw [hwritten', hwritten, List.append_assoc]

/-- A frame that is sent has an encoding, which is what is written. -/
theorem send_frame_writes (h : Ready frame_max ending queue items w) :
    Ensures (amqp_send_frame_inner frame deadline attempts) w
      (fun _ w' => Meanwhile frame_max ending queue items w' ∧ ∃ encoded,
        frame.wire = some encoded ∧ encoded.length ≤ frame_max ∧
        w'.client.written = w.client.written ++ encoded)
      (fun stop w' => MeanwhileHalted frame_max ending queue items stop w' ∧ ∃ part,
        (∀ encoded, frame.wire = some encoded → part <+: encoded) ∧
        w'.client.written = w.client.written ++ part) := by
  have hlimit : w.client.conn.frame_max = frame_max := by
    obtain ⟨first, b, ⟨p, hreceiving, -⟩, -⟩ := h.coming
    exact hreceiving.limit_eq
  refine send_frame_ensures ?_ ?_
  · intro fault hfault
    refine ⟨h.meanwhile_halted (by simpa using hfault), [], fun _ _ => List.nil_prefix, ?_⟩
    rw [List.append_nil]
  · intro encoded hwire hlen
    rw [hlimit] at hlen
    refine (startSend_writes h).mono ?_ ?_
    · rintro _ w' ⟨hready, hwritten⟩
      exact ⟨hready, encoded, hwire, hlen, hwritten⟩
    · rintro stop w' ⟨hhalted, part, hpart, hwritten⟩
      refine ⟨hhalted, part, ?_, hwritten⟩
      intro encoded' hwire'
      rw [hwire] at hwire'
      cases hwire'
      exact hpart

theorem Halted.closed {stop : Stop} (h : Halted frame_max ending queue items stop w) :
    Halted frame_max ending queue items stop { w with client := { w.client with closed := true } } :=
  ⟨h.not_abort, h.rest, h.quiet, h.queue⟩

/-- A call returns the first frame that affects it and comes after the request has been sent. All
that comes before it stays, in its order, behind what was in the queue. -/
theorem rpc_ready {channel : UInt16} {request : Method} {expected_reply_ids : List UInt32}
    (h : Ready frame_max ending queue items w) :
    Ensures (simple_rpc_inner channel request expected_reply_ids deadline attempts) w
      (fun reply w' => ∃ xs ys frame m items', items = xs ++ ys ++ frame :: items' ∧
        (∀ y ∈ data ys, affects channel expected_reply_ids y = none) ∧
        frame.isHeartbeat = false ∧ affects channel expected_reply_ids frame = some m ∧
        reply = (if m.id ∈ expected_reply_ids then .normal m else .server_exception m) ∧
        Ready frame_max ending (queue ++ xs ++ data ys) items' w')
      (fun stop w' => ∃ xs ys items', items = xs ++ ys ++ items' ∧
        (∀ y ∈ data ys, affects channel expected_reply_ids y = none) ∧
        Halted frame_max ending (queue ++ xs ++ data ys) items' stop w') := by
  refine (send_frame_writes h).bind ?_ ?_
  · rintro stop w' ⟨⟨xs, items', rfl, hhalted⟩, -⟩
    exact ⟨xs, [], items', by simp, by simp [data], by simpa [data] using hhalted⟩
  rintro _ w' ⟨⟨xs, items', rfl, hready⟩, -⟩
  refine ensures_bind_of_ok rfl ?_
  have hwait : Ensures (waitMatching (affects channel expected_reply_ids) deadline _) w' _ _ :=
    waitMatching_ready hready (Nat.lt_succ_of_le hready.coming.length_le)
  refine (closing_ensures hwait ?_).bind ?_ ?_
  · rintro w'' ⟨ys, items'', hitems, hnone, hceased⟩
    exact ⟨ys, items'', hitems, hnone, hceased.halted.closed, hceased.waiting, hceased.calm⟩
  · rintro stop w'' ⟨ys, items'', rfl, hnone, hceased⟩
    exact ⟨xs, ys, items'', by simp, hnone, hceased.halted⟩
  · rintro m w'' ⟨ys, frame, items'', rfl, hnone, hdata, hframe, hready', -⟩
    exact ensures_pure ⟨xs, ys, frame, m, items'', by simp, hnone, hdata, hframe, rfl, hready'⟩

end RabbitClient.Amqp
