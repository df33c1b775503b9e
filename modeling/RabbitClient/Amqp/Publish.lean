import RabbitClient.Amqp.FrameRoundTrip
import RabbitClient.Amqp.Sending

/-! `amqp_basic_publish`: a message is sent as a method, a header and fragments of its body. -/
namespace RabbitClient.Amqp

open Bytes WireBuffer Deframing Stateful

theorem publish_fields : methodFields AMQP_BASIC_PUBLISH_METHOD = some amqp_basic_publish_t := rfl

/-- `amqp_basic_publish_t` -/
def publishMethod (exchange routing_key : Bytes) (mandatory immediate : Bool) : Method :=
  methodOf AMQP_BASIC_PUBLISH_METHOD publish_fields
    (0, exchange, routing_key, (fun i => if i.val = 0 then mandatory else immediate), ())

def AMQP_BASIC_CLASS : UInt16 := 60

theorem basic_fields : propertyFields AMQP_BASIC_CLASS = some amqp_basic_properties_t := rfl

/-- The members of which none is there. -/
def unset (flags : UInt32) : (fs : List (UInt32 × Field)) → Option (Slots flags fs)
  | [] => some ()
  | (flag, f) :: fs =>
    if h : (flags &&& flag != 0) = false then
      (unset flags fs).map fun slots => (cast (congrArg (Slot · f) h).symm (), slots)
    else none

theorem unset_zero : (unset 0 amqp_basic_properties_t).isSome := by decide

theorem basic_slots (flags : UInt32) :
    ClassSlots flags (propertyFields AMQP_BASIC_CLASS) = Slots flags amqp_basic_properties_t :=
  congrArg (ClassSlots flags) basic_fields

/-- Properties of the class `basic` by their members. -/
def basicProperties (flags : UInt32) (slots : Slots flags amqp_basic_properties_t) :
    Properties AMQP_BASIC_CLASS :=
  ⟨flags, cast (basic_slots flags).symm slots⟩

/-- What a null pointer to properties stands for. -/
def default_properties : Properties AMQP_BASIC_CLASS :=
  basicProperties 0 ((unset 0 amqp_basic_properties_t).get unset_zero)

/-- The loop over the body, with what is left of it and the attempts that are made for each of its
frames. -/
def sendBody (channel : UInt16) (usable_body_payload_size : Nat) :
    List (List Attempt) → Bytes → Call Unit
  | _, [] => pure ()
  | [], _ => throw .waiting
  | attempts :: rest, body => do
    let fragment :=
      if usable_body_payload_size ≤ body.length then body.take usable_body_payload_size else body
    amqp_send_frame_inner ⟨channel, .body_fragment fragment⟩ amqp_time_infinite attempts
    sendBody channel usable_body_payload_size rest (body.drop fragment.length)

/-- If the peer has not been heard of for too long, it is looked for first. -/
def checkHeartbeat (now_ns : UInt64) : Call Unit := do
  match amqp_time_has_past now_ns (← get).client.next_recv_heartbeat with
  | .error status => Call.fail status
  | .ok past =>
    if past then amqp_try_recv.onTimeout .AMQP_STATUS_HEARTBEAT_TIMEOUT else pure ()

/-- The size that is left for a part of the body is computed with 64 bits. -/
def amqp_basic_publish (now_ns : UInt64) (channel : UInt16) (exchange routing_key : Bytes)
    (mandatory immediate : Bool) (properties : Option (Properties AMQP_BASIC_CLASS)) (body : Bytes)
    (attempts attempts' : List Attempt) (rest : List (List Attempt)) : Call Unit := do
  let frame_max := (← get).client.conn.frame_max
  let usable_body_payload_size := (frame_max + 2 ^ 64 - (HEADER_SIZE + FOOTER_SIZE)) % 2 ^ 64
  checkHeartbeat now_ns
  amqp_send_frame_inner ⟨channel, .method (publishMethod exchange routing_key mandatory immediate)⟩
    amqp_time_infinite attempts
  amqp_send_frame_inner ⟨channel, .properties AMQP_BASIC_CLASS (.ofNat body.length)
    (properties.getD default_properties)⟩ amqp_time_infinite attempts'
  sendBody channel usable_body_payload_size rest body

variable {frame_max : Nat} {ending : Except Fault (Bool × Bytes)} {queue items : List Frame}
  {w : World} {channel : UInt16} {exchange routing_key body : Bytes} {mandatory immediate : Bool}

/-- A body in parts of one size, but for the last one. -/
def fragmentsAux (size : Nat) : Nat → Bytes → List Bytes
  | 0, _ => []
  | fuel + 1, body =>
    if body.isEmpty then [] else body.take size :: fragmentsAux size fuel (body.drop size)

def fragments (size : Nat) (body : Bytes) : List Bytes := fragmentsAux size body.length body

theorem fragmentsAux_fuel {size fuel fuel' : Nat} (hsize : 0 < size) (h : body.length ≤ fuel)
    (h' : body.length ≤ fuel') : fragmentsAux size fuel body = fragmentsAux size fuel' body := by
  induction fuel generalizing fuel' body with
  | zero =>
    obtain rfl : body = [] := List.length_eq_zero_iff.mp (by omega)
    cases fuel' <;> rfl
  | succ fuel ih =>
    cases hbody : body with
    | nil => cases fuel' <;> rfl
    | cons a rest =>
      have hpos : 0 < body.length := by simp [hbody]
      obtain ⟨fuel', rfl⟩ : ∃ k, fuel' = k + 1 := ⟨fuel' - 1, by omega⟩
      have htail : fragmentsAux size fuel (body.drop size) =
          fragmentsAux size fuel' (body.drop size) :=
        ih (by rw [List.length_drop]; omega) (by rw [List.length_drop]; omega)
      rw [← hbody, fragmentsAux, fragmentsAux, htail]

theorem fragments_nil (size : Nat) : fragments size [] = [] := rfl

theorem fragments_of_ne_nil {size : Nat} (hsize : 0 < size) (h : body ≠ []) :
    fragments size body = body.take size :: fragments size (body.drop size) := by
  have hpos := List.length_pos_iff.mpr h
  obtain ⟨k, hk⟩ : ∃ k, body.length = k + 1 := ⟨body.length - 1, by omega⟩
  rw [fragments, hk, fragmentsAux, if_neg (by simpa using h), fragments]
  have htail : fragmentsAux size k (body.drop size) =
      fragmentsAux size (body.drop size).length (body.drop size) :=
    fragmentsAux_fuel hsize (by rw [List.length_drop]; omega) (Nat.le_refl _)
  rw [htail]

/-- Nothing of the body is lost or sent twice, and no part is empty or too long. -/
theorem flatten_fragments {size : Nat} (hsize : 0 < size) (body : Bytes) :
    (fragments size body).flatten = body ∧
      ∀ fragment ∈ fragments size body, fragment ≠ [] ∧ fragment.length ≤ size := by
  induction hlen : body.length using Nat.strongRecOn generalizing body with
  | ind k ih =>
    by_cases h : body = []
    · subst h
      simp [fragments_nil]
    have hpos := List.length_pos_iff.mpr h
    obtain ⟨hflatten, hall⟩ := ih (body.drop size).length (by rw [List.length_drop]; omega) _ rfl
    rw [fragments_of_ne_nil hsize h]
    refine ⟨?_, List.forall_mem_cons.mpr ⟨⟨?_, List.length_take_le size body⟩, hall⟩⟩
    · rw [List.flatten_cons, hflatten, List.take_append_drop]
    · rw [← List.length_pos_iff, List.length_take]
      omega

/-- The encodings of frames, one behind the other. -/
def wires : List Frame → Option Bytes
  | [] => some []
  | frame :: frames => both frame.wire (wires frames)

theorem wires_append (fs gs : List Frame) : wires (fs ++ gs) = both (wires fs) (wires gs) := by
  induction fs with
  | nil => cases h : wires gs <;> simp [wires, both, h]
  | cons frame fs ih => rw [List.cons_append, wires, wires, ih, both_assoc]

/-- A call that sends `frames`: if it succeeds, it has written their encodings, and if it fails,
nothing that does not belong to them. -/
def Sends (frame_max : Nat) (ending : Except Fault (Bool × Bytes)) (frames : List Frame)
    (call : Call Unit) : Prop :=
  ∀ queue items w, Ready frame_max ending queue items w → Ensures call w
    (fun _ w' => Meanwhile frame_max ending queue items w' ∧ ∃ encoded,
      wires frames = some encoded ∧
      (∀ frame ∈ frames, ∀ b, frame.wire = some b → b.length ≤ frame_max) ∧
      w'.client.written = w.client.written ++ encoded)
    (fun stop w' => MeanwhileHalted frame_max ending queue items stop w' ∧ ∃ part,
      (∀ encoded, wires frames = some encoded → part <+: encoded) ∧
      w'.client.written = w.client.written ++ part)

theorem sends_nothing : Sends frame_max ending [] (pure ()) := by
  intro queue items w h
  exact ensures_pure ⟨h.meanwhile, [], rfl, by simp, by simp⟩

theorem sends_waiting (frames : List Frame) : Sends frame_max ending frames (throw .waiting) := by
  intro queue items w h
  exact ensures_throw ⟨h.meanwhile_halted (by simp), [], fun _ _ => List.nil_prefix, by simp⟩

theorem sends_frame (frame : Frame) (deadline : Time) (attempts : List Attempt) :
    Sends frame_max ending [frame] (amqp_send_frame_inner frame deadline attempts) := by
  intro queue items w h
  have hone : wires [frame] = frame.wire := by
    cases hw : frame.wire <;> simp [wires, both, hw]
  refine (send_frame_writes h).mono ?_ ?_
  · rintro _ w' ⟨hready, encoded, hwire, hlen, hwritten⟩
    refine ⟨hready, encoded, hone.trans hwire, ?_, hwritten⟩
    intro f hf b hb
    obtain rfl := List.mem_singleton.mp hf
    rw [hwire] at hb
    cases hb
    exact hlen
  · rintro stop w' ⟨hhalted, part, hpart, hwritten⟩
    exact ⟨hhalted, part, fun encoded hwire => hpart encoded (hone.symm.trans hwire), hwritten⟩

theorem Sends.next {fs gs : List Frame} {call call' : Call Unit} (h : Sends frame_max ending fs call)
    (h' : Sends frame_max ending gs call') :
    Sends frame_max ending (fs ++ gs) (call >>= fun _ => call') := by
  intro queue items w hready
  refine (h queue items w hready).bind ?_ ?_
  · rintro stop w' ⟨hhalted, part, hpart, hwritten⟩
    refine ⟨hhalted, part, ?_, hwritten⟩
    intro encoded hwires
    rw [wires_append] at hwires
    obtain ⟨a, b, ha, -, rfl⟩ := both_eq_some.mp hwires
    exact (hpart a ha).trans (List.prefix_append a b)
  rintro _ w' ⟨⟨xs, items', rfl, hready'⟩, encoded, hwires, hsize, hwritten⟩
  refine (h' _ items' w' hready').mono ?_ ?_
  · rintro _ w'' ⟨⟨ys, items'', rfl, hready''⟩, encoded', hwires', hsize', hwritten'⟩
    refine ⟨⟨xs ++ ys, items'', by simp, by rwa [← List.append_assoc]⟩, encoded ++ encoded', ?_, ?_,
      ?_⟩
    · rw [wires_append]
      exact both_eq_some.mpr ⟨encoded, encoded', hwires, hwires', rfl⟩
    · intro frame hframe
      exact (List.mem_append.mp hframe).elim (hsize frame) (hsize' frame)
    · rw [hwritten', hwritten, List.append_assoc]
  · rintro stop w'' ⟨⟨ys, items'', rfl, hhalted⟩, part, hpart, hwritten'⟩
    refine ⟨⟨xs ++ ys, items'', by simp, by rwa [← List.append_assoc]⟩, encoded ++ part, ?_, ?_⟩
    · intro all hall
      rw [wires_append] at hall
      obtain ⟨a, b, ha, hb, rfl⟩ := both_eq_some.mp hall
      rw [hwires] at ha
      cases ha
      exact (List.prefix_append_right_inj _).mpr (hpart b hb)
    · rw [hwritten', hwritten, List.append_assoc]

theorem sends_checkHeartbeat (now_ns : UInt64) :
    Sends frame_max ending [] (checkHeartbeat now_ns) := by
  intro queue items w h
  have hnone (encoded : Bytes) : wires [] = some encoded → [] <+: encoded :=
    fun _ => List.nil_prefix
  refine ensures_bind_of_ok rfl ?_
  cases amqp_time_has_past now_ns w.client.next_recv_heartbeat with
  | error status => exact ensures_throw ⟨h.meanwhile_halted (by simp), [], hnone, by simp⟩
  | ok past =>
    cases past with
    | false => exact sends_nothing queue items w h
    | true =>
      refine (try_recv_meanwhile h _).mono ?_ ?_
      · rintro _ w' ⟨hready, hwritten⟩
        exact ⟨hready, [], rfl, by simp, by rw [hwritten, List.append_nil]⟩
      · rintro stop w' ⟨hhalted, hwritten⟩
        exact ⟨hhalted, [], hnone, by rw [hwritten, List.append_nil]⟩

/-- The frames for a body. -/
def bodyFrames (channel : UInt16) (size : Nat) (body : Bytes) : List Frame :=
  (fragments size body).map fun fragment => ⟨channel, .body_fragment fragment⟩

theorem sends_body {size : Nat} (hsize : 0 < size) (rest : List (List Attempt)) (body : Bytes) :
    Sends frame_max ending (bodyFrames channel size body) (sendBody channel size rest body) := by
  induction rest generalizing body with
  | nil =>
    cases body with
    | nil => exact sends_nothing
    | cons a body => exact sends_waiting _
  | cons attempts rest ih =>
    cases hbody : body with
    | nil => exact sends_nothing
    | cons a tail =>
      have hne : body ≠ [] := by simp [hbody]
      have hfragment : (if size ≤ body.length then body.take size else body) = body.take size := by
        split
        · rfl
        · rw [List.take_of_length_le (by omega)]
      have hdrop : body.drop (body.take size).length = body.drop size := by
        rw [List.length_take]
        rcases Nat.le_total size body.length with h | h
        · rw [Nat.min_eq_left h]
        · rw [Nat.min_eq_right h, List.drop_length, List.drop_of_length_le h]
      rw [← hbody, bodyFrames, fragments_of_ne_nil hsize hne]
      rw [hbody, sendBody, ← hbody, hfragment, hdrop]
      · exact (sends_frame _ _ attempts).next (ih _)
      · simp

/-- The frames of a message. -/
def publishFrames (channel : UInt16) (exchange routing_key : Bytes) (mandatory immediate : Bool)
    (properties : Option (Properties AMQP_BASIC_CLASS)) (size : Nat) (body : Bytes) : List Frame :=
  ⟨channel, .method (publishMethod exchange routing_key mandatory immediate)⟩ ::
    ⟨channel, .properties AMQP_BASIC_CLASS (.ofNat body.length)
      (properties.getD default_properties)⟩ :: bodyFrames channel size body

theorem sends_publish {properties : Option (Properties AMQP_BASIC_CLASS)} {now_ns : UInt64}
    {attempts attempts' : List Attempt} {rest : List (List Attempt)}
    (hmin : HEADER_SIZE + FOOTER_SIZE < frame_max) (hmax : frame_max < 2 ^ 31) :
    Sends frame_max ending (publishFrames channel exchange routing_key mandatory immediate
        properties (frame_max - (HEADER_SIZE + FOOTER_SIZE)) body)
      (amqp_basic_publish now_ns channel exchange routing_key mandatory immediate properties body
        attempts attempts' rest) := by
  intro queue items w h
  have hlimit : w.client.conn.frame_max = frame_max := by
    obtain ⟨first, b, ⟨p, hreceiving, -⟩, -⟩ := h.coming
    exact hreceiving.limit_eq
  have husable : (frame_max + 2 ^ 64 - (HEADER_SIZE + FOOTER_SIZE)) % 2 ^ 64 =
      frame_max - (HEADER_SIZE + FOOTER_SIZE) := by
    simp only [HEADER_SIZE, FOOTER_SIZE] at *
    omega
  have hpos : 0 < frame_max - (HEADER_SIZE + FOOTER_SIZE) := by omega
  refine ensures_bind_of_ok rfl ?_
  dsimp only
  rw [hlimit, husable]
  have hcheck : Sends frame_max ending [] (checkHeartbeat now_ns) := sends_checkHeartbeat now_ns
  have hmethod : Sends frame_max ending _ _ := sends_frame
    ⟨channel, .method (publishMethod exchange routing_key mandatory immediate)⟩
    amqp_time_infinite attempts
  have hheader : Sends frame_max ending _ _ := sends_frame
    ⟨channel, .properties AMQP_BASIC_CLASS (.ofNat body.length)
      (properties.getD default_properties)⟩ amqp_time_infinite attempts'
  have hbody : Sends frame_max ending (bodyFrames channel _ body) _ := sends_body hpos rest body
  exact (hcheck.next (hmethod.next (hheader.next hbody))) queue items w h

/-- The bytes of frames are read as these frames. -/
theorem split_wires (hmax : frame_max < 2 ^ 31) {frames : List Frame} {encoded : Bytes}
    (hwires : wires frames = some encoded) (hregular : ∀ frame ∈ frames, frame.payload.Regular)
    (hsize : ∀ frame ∈ frames, ∀ b, frame.wire = some b → b.length ≤ frame_max) (rest : Bytes) :
    split (nextFrame frame_max) false (encoded ++ rest) =
      (frames ++ (split (nextFrame frame_max) false rest).1,
        (split (nextFrame frame_max) false rest).2) := by
  induction frames generalizing encoded with
  | nil =>
    cases hwires
    rfl
  | cons frame frames ih =>
    obtain ⟨a, b, ha, hb, rfl⟩ := both_eq_some.mp hwires
    have hsent : ∀ s ∈ [(frame, a)], Sent frame_max s.1 s.2 := by
      simpa using ⟨ha, hregular frame (List.mem_cons_self ..), hsize frame (List.mem_cons_self ..) a ha⟩
    have hone := split_sent hmax hsent (b ++ rest)
    have htail := ih hb (fun f hf => hregular f (List.mem_cons_of_mem _ hf))
      (fun f hf => hsize f (List.mem_cons_of_mem _ hf))
    rw [htail] at hone
    simpa using hone

/-- Frames that the peer has sent are going to come, and behind them what is left of its bytes. -/
theorem ready_wires (hmax : frame_max < 2 ^ 31) {frames : List Frame} {encoded tail : Bytes}
    (hstands : Stands frame_max false [] w.client) (hquiet : w.Quiet)
    (hwires : wires frames = some encoded) (hregular : ∀ frame ∈ frames, frame.payload.Regular)
    (hsize : ∀ frame ∈ frames, ∀ b, frame.wire = some b → b.length ≤ frame_max)
    (hstream : receivedBytes w.receipts = encoded ++ tail)
    (htail : nextFrame frame_max false tail = none) :
    Ready frame_max (.ok (false, tail)) w.client.queue frames w := by
  refine ⟨⟨false, [], hstands, ?_⟩, hquiet, rfl⟩
  rw [List.nil_append, hstream, split_wires hmax hwires hregular hsize, split_wait htail,
    List.append_nil]

theorem length_le_of_wires {frames : List Frame} {encoded : Bytes}
    (h : wires frames = some encoded) :
    ∀ frame ∈ frames, ∀ b, frame.wire = some b → b.length ≤ encoded.length := by
  induction frames generalizing encoded with
  | nil => simp
  | cons first frames ih =>
    obtain ⟨a, c, ha, hc, rfl⟩ := both_eq_some.mp h
    rw [List.forall_mem_cons]
    constructor
    · intro b hb
      rw [ha] at hb
      cases hb
      simp
    · intro frame hframe b hb
      have hle := ih hc frame hframe b hb
      rw [List.length_append]
      omega

/-- A connection between two frames, to which nothing is going to happen but what it receives. -/
def restingWorld (frame_max : Nat) (queue : List Frame) (receipts : List Received) : World where
  client :=
    { conn := return_to_idle { amqp_new_connection with frame_max }
      unread := []
      queue
      heartbeat := 0
      next_send_heartbeat := amqp_time_infinite
      next_recv_heartbeat := amqp_time_infinite
      written := []
      closed := false }
  pauses := fun _ => ⟨0, [.sent 0]⟩
  receipts

theorem restingWorld_stands (frame_max : Nat) (queue : List Frame) (receipts : List Received) :
    Stands frame_max false [] (restingWorld frame_max queue receipts).client :=
  ⟨[], receiving_idle (c := { amqp_new_connection with frame_max }) rfl, (nextFrame_stable frame_max).nil false, rfl⟩

theorem restingWorld_quiet (frame_max : Nat) (queue : List Frame) (receipts : List Received) :
    (restingWorld frame_max queue receipts).Quiet :=
  fun _ => ⟨.sent 0, [], rfl, by simp⟩

theorem unblocked_regular : Method.Regular ⟨AMQP_CONNECTION_UNBLOCKED_METHOD, ()⟩ := trivial

/-- A call returns the first method that affects it of those the peer sends once the request is out, and
leaves all other frames that have come before it in the queue, in their order, as long as heartbeats
are not sent in parts. -/
theorem rpc_received (hmax : frame_max < 2 ^ 31) {frames : List Frame} {encoded tail : Bytes}
    {request : Method} {expected_reply_ids : List UInt32} {deadline : Time}
    {attempts : List Attempt}
    (hstands : Stands frame_max false [] w.client) (hquiet : w.Quiet)
    (hqueue : w.client.queue = []) (hwires : wires frames = some encoded)
    (hregular : ∀ frame ∈ frames, frame.payload.Regular)
    (hsize : ∀ frame ∈ frames, ∀ b, frame.wire = some b → b.length ≤ frame_max)
    (hstream : receivedBytes w.receipts = encoded ++ tail)
    (htail : nextFrame frame_max false tail = none) :
    Ensures (simple_rpc_inner channel request expected_reply_ids deadline attempts) w
      (fun reply w' => ∃ early late frame m rest, frames = early ++ late ++ frame :: rest ∧
        (∀ f ∈ data late, affects channel expected_reply_ids f = none) ∧
        affects channel expected_reply_ids frame = some m ∧
        reply = (if m.id ∈ expected_reply_ids then .normal m else .server_exception m) ∧
        w'.client.queue = early ++ data late ∧ Coming frame_max (.ok (false, tail)) rest w')
      (fun stop w' => stop ≠ .fault .abort ∧ ∃ early late rest, frames = early ++ late ++ rest ∧
        (∀ f ∈ data late, affects channel expected_reply_ids f = none) ∧
        w'.client.queue = early ++ data late ∧ Coming frame_max (.ok (false, tail)) rest w') := by
  have hready := ready_wires hmax hstands hquiet hwires hregular hsize hstream htail
  rw [hqueue] at hready
  refine (rpc_ready hready).mono ?_ ?_
  · rintro reply w' ⟨early, late, frame, m, rest, hframes, hlate, -, haffects, hreply, hleft⟩
    exact ⟨early, late, frame, m, rest, hframes, hlate, haffects, hreply, hleft.queue, hleft.coming⟩
  · rintro stop w' ⟨early, late, rest, hframes, hlate, hhalted⟩
    refine ⟨hhalted.not_abort, early, late, rest, hframes, hlate, hhalted.queue, ?_⟩
    rcases hhalted.rest with hcoming | ⟨-, fault, -, hending, -⟩
    · exact hcoming
    · cases hending

/-- Two parts of messages on two channels, and the reply to a call behind them. -/
def mixedFrames : List Frame :=
  [⟨2, .body_fragment [7]⟩, ⟨1, .body_fragment [8]⟩,
    ⟨0, .method ⟨AMQP_CONNECTION_UNBLOCKED_METHOD, ()⟩⟩]

def mixedBytes : Bytes :=
  [3, 0, 2, 0, 0, 0, 1, 7, 206, 3, 0, 1, 0, 0, 0, 1, 8, 206,
    1, 0, 0, 0, 0, 0, 4, 0, 10, 0, 61, 206]

theorem wires_mixed : wires mixedFrames = some mixedBytes := rfl

theorem mixed_regular : ∀ frame ∈ mixedFrames, frame.payload.Regular := by
  simp only [mixedFrames, List.forall_mem_cons]
  exact ⟨trivial, trivial, unblocked_regular, by simp⟩

theorem mixed_size : ∀ frame ∈ mixedFrames, ∀ b, frame.wire = some b → b.length ≤ 4096 :=
  fun frame hframe b hb => (length_le_of_wires wires_mixed frame hframe b hb).trans (by decide)

/-- They arrive in two pieces. -/
def mixedReceipts : List Received := [.data (mixedBytes.take 12) 0, .data (mixedBytes.drop 12) 0]

theorem rpc_received_mixed :
    Ensures (simple_rpc_inner 0 ⟨AMQP_CONNECTION_BLOCKED_METHOD, ([], ())⟩
        [AMQP_CONNECTION_UNBLOCKED_METHOD] amqp_time_infinite [.sent 0])
      (restingWorld 4096 [] mixedReceipts)
      (fun reply w' => reply = .normal ⟨AMQP_CONNECTION_UNBLOCKED_METHOD, ()⟩ ∧
        w'.client.queue = [⟨2, .body_fragment [7]⟩, ⟨1, .body_fragment [8]⟩])
      (fun stop _ => stop ≠ .fault .abort) := by
  refine (rpc_received (by decide) (restingWorld_stands 4096 [] mixedReceipts)
    (restingWorld_quiet 4096 [] _) rfl wires_mixed mixed_regular mixed_size
    (List.append_nil mixedBytes).symm rfl).mono ?_ ?_
  · rintro reply w' ⟨early, late, frame, m, rest, hframes, -, haffects, rfl, hqueue, -⟩
    obtain ⟨hbefore, rfl⟩ : early ++ late = [⟨2, .body_fragment [7]⟩, ⟨1, .body_fragment [8]⟩] ∧
        frame = ⟨0, .method ⟨AMQP_CONNECTION_UNBLOCKED_METHOD, ()⟩⟩ := by
      rcases hbefore : early ++ late with - | ⟨f, - | ⟨g, - | ⟨k, more⟩⟩⟩ <;> rw [hbefore] at hframes
      · cases hframes
        cases haffects
      · cases hframes
        cases haffects
      · cases hframes
        exact ⟨rfl, rfl⟩
      · simp [mixedFrames] at hframes
    cases haffects
    have hlate : data late = late := List.filter_eq_self.mpr fun f hf => by
      have hmem := List.mem_append_right early hf
      rw [hbefore] at hmem
      rcases List.mem_cons.mp hmem with rfl | hmem
      · rfl
      · rw [List.mem_singleton.mp hmem]
        rfl
    exact ⟨rfl, by rw [hqueue, hlate, hbefore]⟩
  · rintro stop w' ⟨habort, -⟩
    exact habort

theorem regular_cast {fields : Option (List Field)} {fs : List Field} (h : fields = some fs)
    (args : Args fs) :
    DecodedRegular fields (cast (congrArg Decoded h).symm args) ↔ ArgsRegular fs args := by
  subst h
  exact Iff.rfl

theorem publishMethod_regular (exchange routing_key : Bytes) (mandatory immediate : Bool) :
    (publishMethod exchange routing_key mandatory immediate).Regular :=
  (regular_cast publish_fields _).mpr ⟨trivial, trivial, trivial, trivial, trivial⟩

/-- The part of a body in a frame. -/
def Frame.body_fragment : Frame → Bytes
  | ⟨_, .body_fragment b⟩ => b
  | _ => []

def bodies (frames : List Frame) : Bytes := (frames.map Frame.body_fragment).flatten

theorem bodies_bodyFrames {size : Nat} (hsize : 0 < size) (body : Bytes) :
    bodies (bodyFrames channel size body) = body := by
  have hbody : Frame.body_fragment ∘ (fun fragment => ⟨channel, .body_fragment fragment⟩) = id := rfl
  rw [bodies, bodyFrames, List.map_map, hbody, List.map_id, (flatten_fragments hsize body).1]

/-- A message that has been published is received as it was: however it was written, its bytes are
those of a method, a header with the length of the body, and the parts of the body. Otherwise not more
than the front of it has been written. In the meantime nothing of what the peer sends is lost. -/
theorem publish_received {properties : Option (Properties AMQP_BASIC_CLASS)} {now_ns : UInt64}
    {attempts attempts' : List Attempt} {rest : List (List Attempt)}
    (hmin : HEADER_SIZE + FOOTER_SIZE < frame_max) (hmax : frame_max < 2 ^ 31)
    (hproperties : (Payload.properties AMQP_BASIC_CLASS (.ofNat body.length)
      (properties.getD default_properties)).Regular)
    (h : Ready frame_max ending queue items w) :
    ∃ frames, frames = publishFrames channel exchange routing_key mandatory immediate properties
        (frame_max - (HEADER_SIZE + FOOTER_SIZE)) body ∧
      bodies frames = body ∧
      Ensures (amqp_basic_publish now_ns channel exchange routing_key mandatory immediate properties
          body attempts attempts' rest) w
        (fun _ w' => Meanwhile frame_max ending queue items w' ∧ ∃ encoded,
          w'.client.written = w.client.written ++ encoded ∧
          split (nextFrame frame_max) false encoded = (frames, .ok (false, [])))
        (fun stop w' => MeanwhileHalted frame_max ending queue items stop w' ∧ ∃ part,
          w'.client.written = w.client.written ++ part ∧
          ∀ encoded, wires frames = some encoded → part <+: encoded) := by
  have hpos : 0 < frame_max - (HEADER_SIZE + FOOTER_SIZE) := by omega
  refine ⟨_, rfl, bodies_bodyFrames hpos body, ?_⟩
  refine (sends_publish hmin hmax queue items w h).mono ?_ ?_
  · rintro _ w' ⟨hready, encoded, hwires, hsize, hwritten⟩
    refine ⟨hready, encoded, hwritten, ?_⟩
    have hregular : ∀ frame ∈ publishFrames channel exchange routing_key mandatory immediate
        properties (frame_max - (HEADER_SIZE + FOOTER_SIZE)) body, frame.payload.Regular := by
      refine List.forall_mem_cons.mpr ⟨publishMethod_regular .., ?_⟩
      refine List.forall_mem_cons.mpr ⟨hproperties, ?_⟩
      intro frame hframe
      obtain ⟨fragment, -, rfl⟩ := List.mem_map.mp hframe
      trivial
    have hsplit := split_wires hmax hwires hregular hsize []
    rwa [List.append_nil, split_wait ((nextFrame_stable frame_max).nil false), List.append_nil]
      at hsplit
  · rintro stop w' ⟨hhalted, part, hpart, hwritten⟩
    exact ⟨hhalted, part, hwritten, hpart⟩

theorem default_properties_regular :
    canonicalFlags default_properties.flags = default_properties.flags ∧
      default_properties.Regular :=
  ⟨by decide, ⟨trivial, trivial, trivial, trivial, trivial, trivial, trivial, trivial, trivial,
    trivial, trivial, trivial, trivial, trivial, trivial⟩⟩

/-- A body that does not go into one small frame. -/
def longBody : Bytes := List.replicate 60 7

/-- A connection with small frames, and a frame of the peer that has not been read. -/
def smallWorld : World :=
  let w := restingWorld 64 [] [.data [3, 0, 1, 0, 0, 0, 1, 8, 206] 2]
  { w with client := { w.client with
      heartbeat := 1, next_send_heartbeat := 2000000000, next_recv_heartbeat := 2000000000 } }

/-- The header is written in two parts, and between them something is received. -/
def publishLong : Call Unit :=
  amqp_basic_publish 2 1 [] [113] false false (some headedProperties) longBody [.sent 2]
    [.partly 4, .sent 2] [[.sent 2], [.sent 2]]

theorem publish_received_long : ∃ frames encoded w', publishLong smallWorld = .ok () w' ∧
    frames = publishFrames 1 [] [113] false false (some headedProperties)
      (64 - (HEADER_SIZE + FOOTER_SIZE)) longBody ∧ bodies frames = longBody ∧
    Meanwhile 64 (.ok (false, [])) [] [⟨1, .body_fragment [8]⟩] w' ∧
    w'.client.written = encoded ∧
    split (nextFrame 64) false encoded = (frames, .ok (false, [])) := by
  have hwires : wires [⟨1, .body_fragment [8]⟩] = some [3, 0, 1, 0, 0, 0, 1, 8, 206] := rfl
  have hstands : Stands 64 false [] smallWorld.client := restingWorld_stands 64 [] []
  have hready : Ready 64 (.ok (false, [])) [] [⟨1, .body_fragment [8]⟩] smallWorld :=
    ready_wires (by decide) hstands (restingWorld_quiet 64 [] []) hwires
      (fun frame hframe => List.mem_singleton.mp hframe ▸ trivial)
      (fun frame hframe b hb => (length_le_of_wires hwires frame hframe b hb).trans (by decide))
      (List.append_nil _).symm rfl
  have hmin : HEADER_SIZE + FOOTER_SIZE < 64 := by decide
  have hpublish : ∃ frames, frames = publishFrames 1 [] [113] false false (some headedProperties)
      (64 - (HEADER_SIZE + FOOTER_SIZE)) longBody ∧ bodies frames = longBody ∧
      Ensures publishLong smallWorld _ _ :=
    publish_received hmin (by decide) headedProperties_regular hready
  obtain ⟨frames, hframes, hbodies, hok, -⟩ := hpublish
  obtain ⟨⟨⟩, w', hrun⟩ := Call.returns_iff.mp
    (by decide +kernel : publishLong.returns smallWorld)
  obtain ⟨hmeanwhile, encoded, hwritten, hsplit⟩ := hok () w' hrun
  exact ⟨frames, encoded, w', hrun, hframes, hbodies, hmeanwhile, hwritten, hsplit⟩

end RabbitClient.Amqp
