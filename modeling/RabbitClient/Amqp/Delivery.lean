import RabbitClient.Amqp.Quiet

/-! What the calls that wait for frames return, and what they leave for the calls after them. -/
namespace RabbitClient.Amqp

open Bytes Deframing Stateful

variable {α : Type} {frame_max : Nat} {ending : Except Fault (Bool × Bytes)}
  {queue items xs : List Frame} {frame : Frame} {w : World}

/-- The frames that are not heartbeats. -/
def data (frames : List Frame) : List Frame := frames.filter fun frame => !frame.isHeartbeat

@[simp] theorem data_nil : data [] = [] := rfl

@[simp] theorem data_append (xs ys : List Frame) : data (xs ++ ys) = data xs ++ data ys :=
  List.filter_append ..

theorem data_heartbeats (h : ∀ f ∈ xs, f.isHeartbeat) : data xs = [] := by
  rw [data, List.filter_eq_nil_iff]
  intro f hf
  simp [h f hf]

@[simp] theorem data_cons (h : frame.isHeartbeat = false) : data (frame :: xs) = frame :: data xs :=
  List.filter_cons_of_pos (by simp [h])

theorem Receiving.length_eq {c : Connection} {first : Bool} {p : Bytes}
    (h : Receiving frame_max c first p) : c.inbound_offset = p.length := by
  cases h with
  | initial _ _ _ _ hoffset => exact hoffset
  | idle _ _ _ hoffset => exact hoffset
  | header _ _ _ _ hoffset => exact hoffset
  | body hbody =>
    rw [hbody.offset]
    cases first with
    | false => rfl
    | true => exact List.length_set

theorem Receiving.limit_eq {c : Connection} {first : Bool} {p : Bytes}
    (h : Receiving frame_max c first p) : c.frame_max = frame_max := by
  cases h with
  | initial _ hlimit => exact hlimit
  | idle _ hlimit => exact hlimit
  | header _ hlimit => exact hlimit
  | body hbody => exact hbody.limit

theorem Coming.length_le (h : Coming frame_max ending items w) : items.length ≤ w.supply := by
  obtain ⟨first, b, ⟨p, hreceiving, -, rfl⟩, hsplit⟩ := h
  have hlen := length_split_le (nextFrame_stable frame_max) (s := first)
    (b := p ++ w.client.unread ++ receivedBytes w.receipts)
  rw [hsplit] at hlen
  rw [World.supply, hreceiving.length_eq]
  simpa only [List.length_append] using hlen

/-- The frames in `queue` have been read, and `items` are going to come. -/
structure Ready (frame_max : Nat) (ending : Except Fault (Bool × Bytes)) (queue items : List Frame)
    (w : World) : Prop where
  coming : Coming frame_max ending items w
  quiet : w.Quiet
  queue : w.client.queue = queue

/-- A call has ended without a result. If the stream is not in error, all goes on. -/
structure Halted (frame_max : Nat) (ending : Except Fault (Bool × Bytes)) (queue items : List Frame)
    (stop : Stop) (w : World) : Prop where
  not_abort : stop ≠ .fault .abort
  rest : Coming frame_max ending items w ∨
    items = [] ∧ ∃ fault, stop = .fault fault ∧ ending = .error fault ∧ fault.OfInput
  quiet : w.Quiet
  queue : w.client.queue = queue

theorem Ready.halted {stop : Stop} (h : Ready frame_max ending queue items w)
    (hstop : stop ≠ .fault .abort) : Halted frame_max ending queue items stop w :=
  ⟨hstop, .inl h.coming, h.quiet, h.queue⟩

/-- Waiting from `w₀` has stopped. It goes on only if nothing more comes, and does not fail if nothing
fails. -/
structure Ceased (frame_max : Nat) (ending : Except Fault (Bool × Bytes)) (queue items : List Frame)
    (w₀ : World) (stop : Stop) (w : World) : Prop where
  halted : Halted frame_max ending queue items stop w
  waiting : stop = .waiting → items = []
  calm : w₀.Calm → (∃ rest, ending = .ok rest) → stop = .waiting

theorem Ceased.behind {w₀ w₁ : World} {stop : Stop} (hcalm : w₀.Calm → w₁.Calm)
    (h : Ceased frame_max ending queue items w₁ stop w) :
    Ceased frame_max ending queue items w₀ stop w :=
  ⟨h.halted, h.waiting, fun hc => h.calm (hcalm hc)⟩

theorem wait_frame_ready {deadline : Time} (h : Ready frame_max ending queue items w) :
    Ensures (wait_frame_inner deadline) w
      (fun frame w' => ∃ hs items', items = hs ++ frame :: items' ∧ (∀ h ∈ hs, h.isHeartbeat) ∧
        frame.isHeartbeat = false ∧ Ready frame_max ending queue items' w' ∧ (w.Calm → w'.Calm))
      (fun stop w' => ∃ hs items', items = hs ++ items' ∧ (∀ h ∈ hs, h.isHeartbeat) ∧
        Ceased frame_max ending queue items' w stop w') := by
  refine ((wait_frame_gives h.coming h.quiet).and (keeps_wait_frame_inner deadline w h.quiet)).mono
    ?_ ?_
  · rintro frame w' ⟨⟨hsteady, hqueue, hs, items', hitems, hall, hdata, hcoming⟩, hquiet⟩
    exact ⟨hs, items', hitems, hall, hdata, ⟨hcoming, hquiet, hqueue.trans h.queue⟩, hsteady.calm⟩
  · rintro stop w' ⟨⟨hqueue, hs, items', hitems, hall, habort, hend⟩, hquiet⟩
    refine ⟨hs, items', hitems, hall, ⟨habort, ?_, hquiet, hqueue.trans h.queue⟩, ?_, ?_⟩
    · exact hend.imp And.left id
    · intro hstop
      rcases hend with ⟨-, hnone, -⟩ | ⟨hnone, -⟩
      · exact hnone hstop
      · exact hnone
    · rintro hcalm ⟨rest, rfl⟩
      rcases hend with ⟨-, -, hstop⟩ | ⟨-, fault, -, herror, -⟩
      · exact hstop hcalm
      · cases herror

/-- What is not wanted goes to the queue, in the order in which it comes. -/
theorem waitMatching_ready {wanted : Frame → Option α} {deadline : Time} {fuel : Nat}
    (h : Ready frame_max ending queue items w) (hfuel : items.length < fuel) :
    Ensures (waitMatching wanted deadline fuel) w
      (fun a w' => ∃ xs frame items', items = xs ++ frame :: items' ∧
        (∀ x ∈ data xs, wanted x = none) ∧ frame.isHeartbeat = false ∧ wanted frame = some a ∧
        Ready frame_max ending (queue ++ data xs) items' w' ∧ (w.Calm → w'.Calm))
      (fun stop w' => ∃ xs items', items = xs ++ items' ∧ (∀ x ∈ data xs, wanted x = none) ∧
        Ceased frame_max ending (queue ++ data xs) items' w stop w') := by
  induction fuel generalizing queue items w with
  | zero => omega
  | succ fuel ih =>
    refine (wait_frame_ready h).bind ?_ ?_
    · rintro stop w' ⟨hs, items', hitems, hall, hceased⟩
      refine ⟨hs, items', hitems, ?_, ?_⟩
      · simp [data_heartbeats hall]
      · rwa [data_heartbeats hall, List.append_nil]
    rintro frame w' ⟨hs, items', rfl, hall, hdata, hready, hcalm⟩
    have hnone := data_heartbeats hall
    rcases hwanted : wanted frame with _ | a
    · dsimp only
      refine ensures_bind_of_ok rfl ?_
      have hqueued : Ready frame_max ending (queue ++ [frame]) items'
          { w' with client := { w'.client with queue := w'.client.queue ++ [frame] } } :=
        ⟨hready.coming, hready.quiet, by rw [← hready.queue]⟩
      have hcalm' (hc : w.Calm) : World.Calm
          { w' with client := { w'.client with queue := w'.client.queue ++ [frame] } } :=
        ⟨(hcalm hc).heartbeat, (hcalm hc).next_send_heartbeat, (hcalm hc).receipts⟩
      have hpassed (xs : List Frame) : data (hs ++ frame :: xs) = frame :: data xs := by
        rw [data_append, hnone, data_cons hdata, List.nil_append]
      have hfuel' : items'.length < fuel := by
        simp only [List.length_append, List.length_cons] at hfuel
        omega
      refine (ih hqueued hfuel').mono ?_ ?_
      · rintro a w'' ⟨xs, last, items'', rfl, hunwanted, hlast, ha, hready'', hcalm''⟩
        refine ⟨hs ++ frame :: xs, last, items'', by simp, ?_, hlast, ha, ?_, ?_⟩
        · rw [hpassed]
          exact List.forall_mem_cons.mpr ⟨hwanted, hunwanted⟩
        · rw [hpassed]
          simpa using hready''
        · exact fun hc => hcalm'' (hcalm' hc)
      · rintro stop w'' ⟨xs, items'', rfl, hunwanted, hceased⟩
        refine ⟨hs ++ frame :: xs, items'', by simp, ?_, ?_⟩
        · rw [hpassed]
          exact List.forall_mem_cons.mpr ⟨hwanted, hunwanted⟩
        · rw [hpassed]
          simpa using hceased.behind hcalm'
    · refine ensures_pure ⟨hs, frame, items', rfl, by simp [hnone], hdata, hwanted, ?_, hcalm⟩
      rwa [hnone, List.append_nil]

/-- The front of the queue is returned, or what comes next if the queue is empty. -/
theorem wait_frame_noblock_ready {now_ns : UInt64} {timeout : Option Timeval}
    (h : Ready frame_max ending queue items w) :
    Ensures (amqp_simple_wait_frame_noblock now_ns timeout) w
      (fun frame w' => (w.Calm → w'.Calm) ∧
        ((∃ rest, queue = frame :: rest ∧ Ready frame_max ending rest items w') ∨
          queue = [] ∧ ∃ hs items', items = hs ++ frame :: items' ∧ (∀ h ∈ hs, h.isHeartbeat) ∧
            frame.isHeartbeat = false ∧ Ready frame_max ending [] items' w'))
      (fun stop w' => ∃ hs items', items = hs ++ items' ∧ (∀ h ∈ hs, h.isHeartbeat) ∧
        Halted frame_max ending queue items' stop w' ∧
        (stop = .waiting → queue = [] ∧ items' = []) ∧
        (w.Calm → timeout = none → (∃ rest, ending = .ok rest) → stop = .waiting)) := by
  rw [amqp_simple_wait_frame_noblock]
  rcases hdeadline : amqp_time_from_now now_ns timeout with status | deadline
  · refine ensures_throw ⟨[], items, rfl, by simp, h.halted (by simp), by simp, ?_⟩
    rintro - rfl
    cases hdeadline
  · refine ensures_bind_of_ok rfl ?_
    rw [h.queue]
    cases queue with
    | cons frame rest =>
      refine ensures_bind_of_ok rfl (ensures_pure ⟨?_, .inl ⟨rest, rfl, ?_⟩⟩)
      · exact fun hc => ⟨hc.heartbeat, hc.next_send_heartbeat, hc.receipts⟩
      · exact ⟨h.coming, h.quiet, rfl⟩
    | nil =>
      refine (wait_frame_ready h).mono ?_ ?_
      · rintro frame w' ⟨hs, items', hitems, hall, hdata, hready, hcalm⟩
        exact ⟨hcalm, .inr ⟨rfl, hs, items', hitems, hall, hdata, hready⟩⟩
      · rintro stop w' ⟨hs, items', hitems, hall, hceased⟩
        exact ⟨hs, items', hitems, hall, hceased.halted, fun hstop => ⟨rfl, hceased.waiting hstop⟩,
          fun hc _ => hceased.calm hc⟩

/-- A frame of the channel that is in the queue is returned, and those before it are lost. If there is
none, the first one that comes is returned, and those before it go to the queue. -/
theorem wait_frame_on_channel_ready {channel : UInt16}
    (h : Ready frame_max ending queue items w) :
    Ensures (amqp_simple_wait_frame_on_channel channel) w
      (fun frame w' => frame.channel = channel ∧ (w.Calm → w'.Calm) ∧
        ((∃ lost rest, queue = lost ++ frame :: rest ∧ (∀ f ∈ lost, f.channel ≠ channel) ∧
            Ready frame_max ending rest items w') ∨
          (∀ f ∈ queue, f.channel ≠ channel) ∧ ∃ xs items', items = xs ++ frame :: items' ∧
            (∀ x ∈ data xs, x.channel ≠ channel) ∧ frame.isHeartbeat = false ∧
            Ready frame_max ending (queue ++ data xs) items' w'))
      (fun stop w' => (∀ f ∈ queue, f.channel ≠ channel) ∧ ∃ xs items', items = xs ++ items' ∧
        (∀ x ∈ data xs, x.channel ≠ channel) ∧
        Ceased frame_max ending (queue ++ data xs) items' w stop w') := by
  refine ensures_bind_of_ok rfl ?_
  have hlost : ∀ f ∈ queue.takeWhile (fun frame => frame.channel != channel), f.channel ≠ channel :=
    fun f hf => by simpa using List.mem_takeWhile_imp hf
  have hqueue := List.takeWhile_append_dropWhile (p := fun f : Frame => f.channel != channel)
    (l := queue)
  have hunwanted {xs : List Frame} (hnone : ∀ x ∈ data xs, onChannel channel x = none) :
      ∀ x ∈ data xs, x.channel ≠ channel := by
    intro x hx heq
    simpa [onChannel, heq] using hnone x hx
  rw [h.queue]
  rcases hdrop : queue.dropWhile (fun frame => frame.channel != channel) with _ | ⟨frame, rest⟩
  · rw [hdrop, List.append_nil] at hqueue
    rw [hqueue] at hlost
    rw [hdrop]
    refine (waitMatching_ready h (Nat.lt_succ_of_le h.coming.length_le)).mono ?_ ?_
    · rintro found w' ⟨xs, frame, items', rfl, hnone, hdata, hfound, hready, hcalm⟩
      rw [onChannel] at hfound
      split at hfound
      · cases hfound
        refine ⟨‹_›, hcalm, .inr ⟨hlost, xs, items', rfl, hunwanted hnone, hdata, hready⟩⟩
      · cases hfound
    · rintro stop w' ⟨xs, items', rfl, hnone, hhalted⟩
      exact ⟨hlost, xs, items', rfl, hunwanted hnone, hhalted⟩
  · have hchannel := List.head_dropWhile_not (p := fun frame : Frame => frame.channel != channel)
      (l := queue) (by simp [hdrop])
    simp only [hdrop, List.head_cons, bne_eq_false_iff_eq] at hchannel
    rw [hdrop] at hqueue
    rw [hdrop]
    refine ensures_bind_of_ok rfl (ensures_pure ⟨hchannel, ?_, .inl ⟨_, rest, hqueue.symm, hlost, ?_⟩⟩)
    · exact fun hc => ⟨hc.heartbeat, hc.next_send_heartbeat, hc.receipts⟩
    · exact ⟨h.coming, h.quiet, rfl⟩

/-- What the buffer holds goes to the queue, heartbeats too. -/
theorem queueBuffered_ready {fuel : Nat} (h : Ready frame_max ending queue items w)
    (hfuel : w.client.unread.length ≤ fuel) :
    Ensures (queueBuffered fuel) w
      (fun _ w' => w'.client.unread = [] ∧ ∃ xs items', items = xs ++ items' ∧
        Ready frame_max ending (queue ++ xs) items' w')
      (fun stop w' => Halted frame_max ending (queue ++ items) [] stop w') := by
  induction fuel generalizing queue items w with
  | zero =>
    have hnil : w.client.unread = [] := List.length_eq_zero_iff.mp (by omega)
    exact ensures_pure ⟨hnil, [], items, rfl, by rwa [List.append_nil]⟩
  | succ fuel ih =>
    rw [queueBuffered]
    refine ensures_bind_of_ok rfl ?_
    by_cases hnil : w.client.unread = []
    · rw [if_neg (by simp [hnil])]
      exact ensures_pure ⟨hnil, [], items, rfl, by rwa [List.append_nil]⟩
    rw [if_pos (by simpa using hnil)]
    obtain ⟨first, b, hstands, hsplit⟩ := h.coming
    refine ((consume_one_frame_ensures hstands hnil).and (inward_consume_one_frame.quiet w h.quiet)).bind
      ?_ ?_
    · rintro stop w' ⟨⟨hbroke, hqueue⟩, hquiet⟩
      obtain ⟨fault, rfl, rfl, hinput, rfl⟩ := hbroke.coming hsplit
      refine ⟨by simpa using hinput.ne_abort, .inr ⟨rfl, fault, rfl, rfl, hinput⟩, hquiet, ?_⟩
      rw [List.append_nil, hqueue, h.queue]
    rintro frame w' ⟨⟨htook, -, -, hqueue, hshort⟩, hquiet⟩
    obtain ⟨items', hcoming, rfl⟩ := htook.coming hsplit
    cases frame with
    | none => exact ih ⟨hcoming, hquiet, hqueue.trans h.queue⟩ (by omega)
    | some frame =>
      dsimp only
      refine ensures_bind_of_ok rfl ?_
      have hqueued : Ready frame_max ending (queue ++ [frame]) items'
          { w' with client := { w'.client with queue := w'.client.queue ++ [frame] } } :=
        ⟨hcoming, hquiet, by rw [← h.queue, ← hqueue]⟩
      refine (ih hqueued (Nat.le_of_lt_succ (Nat.lt_of_lt_of_le hshort hfuel))).mono ?_ ?_
      · rintro _ w'' ⟨hempty, xs, items'', rfl, hready⟩
        exact ⟨hempty, frame :: xs, items'', rfl, by simpa using hready⟩
      · intro stop w'' hhalted
        simpa using hhalted

theorem try_recv_ready (h : Ready frame_max ending queue items w) :
    Ensures amqp_try_recv w
      (fun _ w' => ∃ xs items', items = xs ++ items' ∧
        Ready frame_max ending (queue ++ xs) items' w')
      (fun stop w' => ∃ xs items', items = xs ++ items' ∧
        Halted frame_max ending (queue ++ xs) items' stop w') := by
  refine ensures_bind_of_ok rfl ((queueBuffered_ready h (Nat.le_refl _)).bind ?_ ?_)
  · exact fun stop w' hhalted => ⟨items, [], by simp, hhalted⟩
  rintro _ w' ⟨hempty, xs, items', rfl, hready⟩
  obtain ⟨first, b, hstands, hsplit⟩ := hready.coming
  refine ((recv_with_timeout_ensures hstands hempty).and
    (inward_recv_with_timeout.quiet w' hready.quiet)).mono ?_ ?_
  · rintro _ w'' ⟨⟨⟨htook, hqueue⟩, -⟩, hquiet⟩
    obtain ⟨_, hcoming, rfl⟩ := htook.coming hsplit
    exact ⟨xs, _, rfl, hcoming, hquiet, hqueue.trans hready.queue⟩
  · rintro stop w'' ⟨⟨⟨htook, hqueue⟩, hcases⟩, hquiet⟩
    obtain ⟨_, hcoming, rfl⟩ := htook.coming hsplit
    refine ⟨xs, _, rfl, ?_, .inl hcoming, hquiet, hqueue.trans hready.queue⟩
    rcases hcases with ⟨rfl, -⟩ | ⟨status, rfl, -⟩
    · simp
    · simp

end RabbitClient.Amqp
