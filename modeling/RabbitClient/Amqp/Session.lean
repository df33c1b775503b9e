import RabbitClient.Amqp.Publish
import RabbitClient.Library.Custody

/-!
Calls of the application one after the other: what the peer sends is handed over once, or kept in its
order.
-/
namespace RabbitClient.Amqp

open Bytes Deframing Stateful Custody

variable {frame_max : Nat} {ending : Except Fault (Bool × Bytes)} {queue items : List Frame}
  {w : World}

/-- The calls by which an application sends and waits. -/
inductive Op where
  | wait_frame (now_ns : UInt64) (timeout : Option Timeval)
  | wait_frame_on_channel (channel : UInt16)
  | wait_method (now_ns now_ns' : UInt64) (channel : UInt16) (methods : List UInt32) (deadline : Time)
  | rpc (channel : UInt16) (request : Method) (replies : List UInt32) (deadline : Time)
      (attempts : List Attempt)
  | send_frame (frame : Frame) (deadline : Time) (attempts : List Attempt)
  | publish (now_ns : UInt64) (channel : UInt16) (exchange routing_key : Bytes)
      (mandatory immediate : Bool) (properties : Option (Properties AMQP_BASIC_CLASS)) (body : Bytes)
      (attempts attempts' : List Attempt) (rest : List (List Attempt))

def Reply.method : Reply → Method
  | normal m => m
  | server_exception m => m

/-- A call, and what it hands to the application. -/
def Op.call : Op → Call (List Payload)
  | wait_frame now_ns timeout => do
    return [(← amqp_simple_wait_frame_noblock now_ns timeout).payload]
  | wait_frame_on_channel channel => do
    return [(← amqp_simple_wait_frame_on_channel channel).payload]
  | wait_method now_ns now_ns' channel methods deadline => do
    return [.method (← amqp_simple_wait_method_list now_ns now_ns' channel methods deadline)]
  | rpc channel request replies deadline attempts => do
    return [.method (← simple_rpc_inner channel request replies deadline attempts).method]
  | send_frame frame deadline attempts => do
    amqp_send_frame_inner frame deadline attempts
    return []
  | publish now_ns channel exchange routing_key mandatory immediate properties body attempts attempts'
      rest => do
    amqp_basic_publish now_ns channel exchange routing_key mandatory immediate properties body attempts
      attempts' rest
    return []

/-- The frames that a call may drop: they are not what it is asked for. -/
def Op.drops : Op → Frame → Prop
  | wait_frame_on_channel channel, frame => frame.channel ≠ channel
  | wait_method _ _ channel methods _, frame => ¬ ∃ m, frame = ⟨channel, .method m⟩ ∧ m.id ∈ methods
  | _, _ => False

def Payload.isData : Payload → Bool
  | .heartbeat => false
  | _ => true

theorem data_data (frames : List Frame) : data (data frames) = data frames := by
  simp [data]

theorem map_payload_data (frame : Frame) :
    (data [frame]).map Frame.payload = [frame.payload].filter Payload.isData := by
  obtain ⟨channel, payload⟩ := frame
  cases payload <;> rfl

/-- What has been handed over or dropped is no longer there, and the rest is, in its order. -/
def Hands (before : List Frame) (given : List Payload) (drops : Frame → Prop) (after : List Frame) :
    Prop :=
  ∃ taken dropped, taken.map Frame.payload = given.filter Payload.isData ∧
    (∀ f ∈ dropped, drops f) ∧ Gives (data before) (taken ++ dropped) (data after)

variable {before after a b last : List Frame} {frame : Frame} {drops drops' : Frame → Prop}

theorem hands_nothing (hsame : data after = data before) : Hands before [] drops after :=
  ⟨[], [], rfl, by simp, hsame ▸ gives_nothing _⟩

theorem gives_frame (hbefore : data before = data (a ++ frame :: b))
    (hafter : data after = data (a ++ b)) : Gives (data before) (data [frame]) (data after) := by
  rw [hbefore, hafter, data_append, ← List.singleton_append, data_append, data_append,
    ← List.append_assoc]
  exact gives_middle (data a) (data [frame]) (data b)

theorem hands_frame (hbefore : data before = data (a ++ frame :: b))
    (hafter : data after = data (a ++ b)) : Hands before [frame.payload] drops after := by
  refine ⟨data [frame], [], map_payload_data frame, by simp, ?_⟩
  rw [List.append_nil]
  exact gives_frame hbefore hafter

/-- A frame that is not what was waited for. -/
theorem hands_dropped (hdrops : drops frame) (hbefore : data before = data (a ++ frame :: b))
    (hafter : data after = data (a ++ b)) : Hands before [] drops after := by
  refine ⟨[], data [frame], rfl, fun f hf => ?_, gives_frame hbefore hafter⟩
  obtain rfl := List.mem_singleton.mp (List.mem_of_mem_filter hf)
  exact hdrops

theorem Hands.mono {given : List Payload} (h : Hands before given drops after)
    (hdrops : ∀ f, drops f → drops' f) : Hands before given drops' after := by
  obtain ⟨taken, dropped, htaken, hdropped, hgives⟩ := h
  exact ⟨taken, dropped, htaken, fun f hf => hdrops f (hdropped f hf), hgives⟩

theorem Hands.trans {given given' : List Payload} (h : Hands before given drops after)
    (h' : Hands after given' drops last) : Hands before (given ++ given') drops last := by
  obtain ⟨taken, dropped, htaken, hdropped, hgives⟩ := h
  obtain ⟨taken', dropped', htaken', hdropped', hgives'⟩ := h'
  refine ⟨taken ++ taken', dropped ++ dropped', ?_, ?_, (hgives.trans hgives').congr ?_⟩
  · rw [List.map_append, List.filter_append, htaken, htaken']
  · intro f hf
    exact (List.mem_append.mp hf).elim (hdropped f) (hdropped' f)
  · rw [List.append_assoc, List.append_assoc]
    refine List.Perm.append_left _ ?_
    rw [← List.append_assoc, ← List.append_assoc]
    exact List.perm_append_comm.append_right dropped'

/-- A call that hands frames over and keeps the others, also where it fails. -/
def Keeping (frame_max : Nat) (ending : Except Fault (Bool × Bytes)) (drops : Frame → Prop)
    (call : Call (List Payload)) : Prop :=
  ∀ queue items w, Ready frame_max ending queue items w → Ensures call w
    (fun given w' => ∃ queue' items', Ready frame_max ending queue' items' w' ∧
      Hands (queue ++ items) given drops (queue' ++ items'))
    (fun stop w' => ∃ queue' items', Halted frame_max ending queue' items' stop w' ∧
      Hands (queue ++ items) [] drops (queue' ++ items'))

theorem wait_frame_noblock_hands {now_ns : UInt64} {timeout : Option Timeval}
    (h : Ready frame_max ending queue items w) :
    Ensures (amqp_simple_wait_frame_noblock now_ns timeout) w
      (fun frame w' => ∃ queue' items' a b, Ready frame_max ending queue' items' w' ∧
        data (queue ++ items) = data (a ++ frame :: b) ∧
        data (queue' ++ items') = data (a ++ b))
      (fun stop w' => ∃ queue' items', Halted frame_max ending queue' items' stop w' ∧
        data (queue' ++ items') = data (queue ++ items)) := by
  refine (wait_frame_noblock_ready h).mono ?_ ?_
  · rintro frame w' ⟨-, ⟨rest, rfl, hready⟩ | ⟨rfl, hs, items', rfl, hall, hdata, hready⟩⟩
    · exact ⟨rest, items, [], rest ++ items, hready, rfl, rfl⟩
    · refine ⟨[], items', hs, items', hready, rfl, ?_⟩
      rw [data_append hs, data_heartbeats hall]
      rfl
  · rintro stop w' ⟨hs, items', rfl, hall, hhalted, -⟩
    refine ⟨queue, items', hhalted, ?_⟩
    rw [data_append, data_append, data_append, data_heartbeats hall]
    rfl

theorem keeping_wait_frame (now_ns : UInt64) (timeout : Option Timeval) :
    Keeping frame_max ending drops (Op.wait_frame now_ns timeout).call := by
  intro queue items w h
  refine (wait_frame_noblock_hands h).bind ?_ ?_
  · rintro stop w' ⟨queue', items', hhalted, hsame⟩
    exact ⟨queue', items', hhalted, hands_nothing hsame⟩
  · rintro frame w' ⟨queue', items', a, b, hready, hbefore, hafter⟩
    exact ensures_pure ⟨queue', items', hready, hands_frame hbefore hafter⟩

theorem keeping_wait_frame_on_channel (channel : UInt16) :
    Keeping frame_max ending (Op.wait_frame_on_channel channel).drops
      (Op.wait_frame_on_channel channel).call := by
  intro queue items w h
  refine (wait_frame_on_channel_ready h).bind ?_ ?_
  · rintro stop w' ⟨-, xs, items', rfl, -, hceased⟩
    refine ⟨_, items', hceased.halted, hands_nothing ?_⟩
    simp only [data_append, data_data, List.append_assoc]
  · rintro frame w' ⟨-, -, ⟨lost, rest, rfl, hlost, hready⟩ | ⟨-, xs, items', rfl, -, -, hready⟩⟩
    · refine ensures_pure ⟨rest, items, hready, data [frame], data lost, map_payload_data frame,
        fun f hf => hlost f (List.mem_of_mem_filter hf), ?_⟩
      have hgives := gives_middle [] (data (lost ++ [frame])) (data (rest ++ items))
      rw [List.nil_append, List.nil_append, ← data_append] at hgives
      rw [show lost ++ frame :: rest ++ items = lost ++ [frame] ++ (rest ++ items) by simp]
      refine hgives.congr ?_
      rw [data_append]
      exact List.perm_append_comm
    · refine ensures_pure ⟨_, items', hready, hands_frame (a := queue ++ xs) (b := items') ?_ ?_⟩
      · rw [List.append_assoc]
      · simp only [data_append, data_data]

theorem wait_method_list_hands {now_ns now_ns' : UInt64} {channel : UInt16} {methods : List UInt32}
    {deadline : Time} (hdrops : ∀ f : Frame,
      (¬ ∃ m, f = ⟨channel, .method m⟩ ∧ m.id ∈ methods) → drops f)
    (h : Ready frame_max ending queue items w) :
    Ensures (amqp_simple_wait_method_list now_ns now_ns' channel methods deadline) w
      (fun m w' => ∃ queue' items', Ready frame_max ending queue' items' w' ∧
        Hands (queue ++ items) [.method m] drops (queue' ++ items'))
      (fun stop w' => ∃ queue' items', Halted frame_max ending queue' items' stop w' ∧
        Hands (queue ++ items) [] drops (queue' ++ items')) := by
  rw [amqp_simple_wait_method_list]
  rcases amqp_time_tv_until now_ns deadline with status | timeout
  · exact ensures_throw ⟨queue, items, h.halted (by simp), hands_nothing rfl⟩
  refine (wait_frame_noblock_hands h).bind ?_ ?_
  · rintro stop w' ⟨queue', items', hhalted, hsame⟩
    exact ⟨queue', items', hhalted, hands_nothing hsame⟩
  rintro ⟨channel', payload⟩ w' ⟨queue', items', a, b, hready, hbefore, hafter⟩
  have hwrong (hnot : ¬ ∃ m, (⟨channel', payload⟩ : Frame) = ⟨channel, .method m⟩ ∧ m.id ∈ methods) :
      Ensures (Call.fail .AMQP_STATUS_WRONG_METHOD : Call Method) w'
        (fun m w' => ∃ queue' items', Ready frame_max ending queue' items' w' ∧
          Hands (queue ++ items) [.method m] drops (queue' ++ items'))
        (fun stop w' => ∃ queue' items', Halted frame_max ending queue' items' stop w' ∧
          Hands (queue ++ items) [] drops (queue' ++ items')) :=
    ensures_throw ⟨queue', items', hready.halted (by simp),
      hands_dropped (hdrops _ hnot) hbefore hafter⟩
  cases payload with
  | method m =>
    dsimp only
    split
    · exact ensures_pure ⟨queue', items', hready, hands_frame hbefore hafter⟩
    next hunexpected =>
      refine hwrong ?_
      rintro ⟨m', hframe, hid⟩
      cases hframe
      exact hunexpected ⟨rfl, hid⟩
  | _ => exact hwrong (by rintro ⟨m, hframe, -⟩; cases hframe)

theorem keeping_wait_method (now_ns now_ns' : UInt64) (channel : UInt16) (methods : List UInt32)
    (deadline : Time) :
    Keeping frame_max ending (Op.wait_method now_ns now_ns' channel methods deadline).drops
      (Op.wait_method now_ns now_ns' channel methods deadline).call := by
  intro queue items w h
  refine (wait_method_list_hands (fun _ hnot => hnot) h).bind (fun _ _ => id) ?_
  rintro m w' ⟨queue', items', hready, hhands⟩
  exact ensures_pure ⟨queue', items', hready, hhands⟩

theorem keeping_rpc (channel : UInt16) (request : Method) (replies : List UInt32) (deadline : Time)
    (attempts : List Attempt) :
    Keeping frame_max ending drops (Op.rpc channel request replies deadline attempts).call := by
  intro queue items w h
  refine (rpc_ready h).bind ?_ ?_
  · rintro stop w' ⟨xs, ys, items', rfl, -, hhalted⟩
    refine ⟨_, items', hhalted, hands_nothing ?_⟩
    simp only [data_append, data_data, List.append_assoc]
  · rintro reply w' ⟨xs, ys, frame, m, items', rfl, -, -, haffects, hreply, hready⟩
    have hmethod : [Payload.method reply.method] = [frame.payload] := by
      rw [affects] at haffects
      split at haffects
      next hpayload =>
        split at haffects
        · cases haffects
          rw [hpayload, hreply]
          split <;> rfl
        · cases haffects
      · cases haffects
    refine ensures_pure ⟨_, items', hready, ?_⟩
    rw [hmethod]
    refine hands_frame (a := queue ++ xs ++ ys) (b := items') ?_ ?_
    · simp only [List.append_assoc]
    · simp only [data_append, data_data]

/-- A call that only sends. -/
theorem keeping_sends {frames : List Frame} {call : Call Unit}
    (hsends : Sends frame_max ending frames call) :
    Keeping frame_max ending drops (do
      call
      return []) := by
  intro queue items w h
  have hsame (xs items' : List Frame) :
      data (queue ++ xs ++ items') = data (queue ++ (xs ++ items')) := by
    rw [List.append_assoc]
  refine (hsends queue items w h).bind ?_ ?_
  · rintro stop w' ⟨⟨xs, items', rfl, hhalted⟩, -⟩
    exact ⟨_, items', hhalted, hands_nothing (hsame xs items')⟩
  · rintro _ w' ⟨⟨xs, items', rfl, hready⟩, -⟩
    exact ensures_pure ⟨_, items', hready, hands_nothing (hsame xs items')⟩

theorem keeping_call (hmin : HEADER_SIZE + FOOTER_SIZE < frame_max) (hmax : frame_max < 2 ^ 31)
    (op : Op) : Keeping frame_max ending op.drops op.call := by
  cases op with
  | wait_frame now_ns timeout => exact keeping_wait_frame now_ns timeout
  | wait_frame_on_channel channel => exact keeping_wait_frame_on_channel channel
  | wait_method now_ns now_ns' channel methods deadline =>
    exact keeping_wait_method now_ns now_ns' channel methods deadline
  | rpc channel request replies deadline attempts =>
    exact keeping_rpc channel request replies deadline attempts
  | send_frame frame deadline attempts =>
    exact keeping_sends (sends_frame frame deadline attempts)
  | publish => exact keeping_sends (sends_publish hmin hmax)

/-- The outcomes of calls one after the other; after one that fails the application goes on. -/
def session : List Op → World → List (Except Stop (List Payload)) × World
  | [], w => ([], w)
  | op :: ops, w =>
    match op.call w with
    | .ok given w => let (outcomes, w) := session ops w; (.ok given :: outcomes, w)
    | .error stop w => let (outcomes, w) := session ops w; (.error stop :: outcomes, w)

/-- All that has been handed over. -/
def handed : List (Except Stop (List Payload)) → List Payload
  | [] => []
  | .ok given :: outcomes => given ++ handed outcomes
  | .error _ :: outcomes => handed outcomes

/-- If the stream is not in error, a call that fails leaves all for the calls after it. -/
theorem Halted.ready {rest : Bool × Bytes} {stop : Stop}
    (h : Halted frame_max (.ok rest) queue items stop w) :
    Ready frame_max (.ok rest) queue items w := by
  refine ⟨?_, h.quiet, h.queue⟩
  rcases h.rest with hcoming | ⟨-, fault, -, hending, -⟩
  · exact hcoming
  · cases hending

theorem session_hands {rest : Bool × Bytes} (hmin : HEADER_SIZE + FOOTER_SIZE < frame_max)
    (hmax : frame_max < 2 ^ 31) (ops : List Op) (h : Ready frame_max (.ok rest) queue items w) :
    (∀ outcome ∈ (session ops w).1, outcome ≠ .error (.fault .abort)) ∧ ∃ queue' items',
      Ready frame_max (.ok rest) queue' items' (session ops w).2 ∧
      Hands (queue ++ items) (handed (session ops w).1) (fun f => ∃ op ∈ ops, op.drops f)
        (queue' ++ items') := by
  induction ops generalizing queue items w with
  | nil => exact ⟨by simp [session], queue, items, h, hands_nothing rfl⟩
  | cons op ops ih =>
    obtain ⟨hok, herror⟩ := keeping_call hmin hmax op queue items w h
    have hthis (f : Frame) (hf : op.drops f) : ∃ op' ∈ op :: ops, op'.drops f :=
      ⟨op, List.mem_cons_self .., hf⟩
    have hlater (f : Frame) : (∃ op' ∈ ops, op'.drops f) → ∃ op' ∈ op :: ops, op'.drops f := by
      rintro ⟨op', hmem, hf⟩
      exact ⟨op', List.mem_cons_of_mem op hmem, hf⟩
    rw [session]
    rcases hrun : op.call w with ⟨given, w'⟩ | ⟨stop, w'⟩
    · obtain ⟨queue', items', hready, hhands⟩ := hok given w' hrun
      obtain ⟨habort, queue₂, items₂, hready₂, hhands₂⟩ := ih hready
      exact ⟨List.forall_mem_cons.mpr ⟨by simp, habort⟩, queue₂, items₂, hready₂,
        (hhands.mono hthis).trans (hhands₂.mono hlater)⟩
    · obtain ⟨queue', items', hhalted, hhands⟩ := herror stop w' hrun
      obtain ⟨habort, queue₂, items₂, hready₂, hhands₂⟩ := ih hhalted.ready
      refine ⟨List.forall_mem_cons.mpr ⟨by simpa using hhalted.not_abort, habort⟩, queue₂, items₂,
        hready₂, ?_⟩
      exact (hhands.mono hthis).trans (hhands₂.mono hlater)

/-- Whatever an application calls, and whichever of its calls fail, each frame that the peer sends is
handed over once, or it is still there, in its order, as long as heartbeats are not sent in parts. What
gets lost is not what some call has been asked for: waiting on a channel drops frames of other channels.
No call aborts. -/
theorem session_received {frames : List Frame} {encoded tail : Bytes} (ops : List Op)
    (hmin : HEADER_SIZE + FOOTER_SIZE < frame_max) (hmax : frame_max < 2 ^ 31)
    (hstands : Stands frame_max false [] w.client) (hquiet : w.Quiet)
    (hqueue : w.client.queue = []) (hwires : wires frames = some encoded)
    (hregular : ∀ frame ∈ frames, frame.payload.Regular)
    (hsize : ∀ frame ∈ frames, ∀ b, frame.wire = some b → b.length ≤ frame_max)
    (hstream : receivedBytes w.receipts = encoded ++ tail)
    (htail : nextFrame frame_max false tail = none) :
    (∀ outcome ∈ (session ops w).1, outcome ≠ .error (.fault .abort)) ∧
      ∃ items taken dropped, Coming frame_max (.ok (false, tail)) items (session ops w).2 ∧
        taken.map Frame.payload = (handed (session ops w).1).filter Payload.isData ∧
        Gives (data frames) (taken ++ dropped) (data ((session ops w).2.client.queue ++ items)) ∧
        ∀ f ∈ dropped, ∃ op ∈ ops, op.drops f := by
  have hready := ready_wires hmax hstands hquiet hwires hregular hsize hstream htail
  rw [hqueue] at hready
  obtain ⟨habort, queue', items', hready', taken, dropped, htaken, hdropped, hgives⟩ :=
    session_hands hmin hmax ops hready
  rw [hready'.queue]
  exact ⟨habort, items', taken, dropped, hready'.coming, htaken, hgives, hdropped⟩

/-- A call, while parts of messages arrive, and then a wait for the second of them. -/
def mixedOps : List Op :=
  [.rpc 0 ⟨AMQP_CONNECTION_BLOCKED_METHOD, ([], ())⟩ [AMQP_CONNECTION_UNBLOCKED_METHOD]
    amqp_time_infinite [.sent 0], .wait_frame_on_channel 1]

/-- The first part, which is on another channel than the wait, is the one that may be dropped. -/
theorem session_received_mixed :
    ∃ items taken dropped, Coming 4096 (.ok (false, [])) items
        (session mixedOps (restingWorld 4096 [] mixedReceipts)).2 ∧
      (taken.map Frame.payload).map Payload.wire = [some [0, 10, 0, 61], some [8]] ∧
      Gives mixedFrames (taken ++ dropped)
        (data ((session mixedOps (restingWorld 4096 [] mixedReceipts)).2.client.queue ++ items)) ∧
      ∀ f ∈ dropped, f.channel ≠ 1 := by
  obtain ⟨-, items, taken, dropped, hcoming, htaken, hgives, hdropped⟩ :=
    session_received mixedOps (by decide) (by decide) (restingWorld_stands 4096 [] mixedReceipts)
      (restingWorld_quiet 4096 [] _) rfl wires_mixed mixed_regular mixed_size
      (List.append_nil mixedBytes).symm rfl
  have hhanded : ((handed (session mixedOps (restingWorld 4096 [] mixedReceipts)).1).filter
      Payload.isData).map Payload.wire = [some [0, 10, 0, 61], some [8]] := by decide +kernel
  refine ⟨items, taken, dropped, hcoming, by rw [htaken, hhanded], hgives, fun f hf => ?_⟩
  obtain ⟨op, hop, hdrops⟩ := hdropped f hf
  simp only [mixedOps, List.mem_cons, List.not_mem_nil, or_false] at hop
  rcases hop with rfl | rfl
  · exact hdrops.elim
  · exact hdrops

/-- A heartbeat is due, and it goes out in two parts. -/
def hastyWorld : World :=
  let w := restingWorld 4096 [] [.data [3, 0, 1, 0, 0, 0, 1, 7, 206] 2,
    .data [3, 0, 1, 0, 0, 0, 1, 8, 206] 2]
  { w with
    client := { w.client with
      heartbeat := 1, next_send_heartbeat := 1, next_recv_heartbeat := 2000000000 }
    pauses := fun _ => ⟨2, [.partly 4, .sent 2]⟩ }

def hastyOps : List Op := [.wait_frame 0 none, .wait_frame 0 none]

/-- Without `World.Quiet` a frame gets lost: `amqp_try_recv` receives it between the parts of the
heartbeat, and `recv_with_timeout` does not look whether something is left to be read. -/
theorem frame_lost :
    Stands 4096 false [] hastyWorld.client ∧
      wires [⟨1, .body_fragment [7]⟩, ⟨1, .body_fragment [8]⟩] =
        some (receivedBytes hastyWorld.receipts) ∧
      (handed (session hastyOps hastyWorld).1).map Payload.wire = [some [8]] ∧
      (session hastyOps hastyWorld).2.client.queue.isEmpty ∧
      (session hastyOps hastyWorld).2.client.unread.isEmpty ∧
      (session hastyOps hastyWorld).2.receipts.isEmpty :=
  ⟨restingWorld_stands 4096 [] [], rfl, by decide +kernel, by decide +kernel,
    by decide +kernel, by decide +kernel⟩

end RabbitClient.Amqp
