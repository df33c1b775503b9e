import RabbitClient.Amqp.Assembly

/-! Messages that are consumed one after the other are those that have been sent. -/
namespace RabbitClient.Amqp

open Bytes Deframing Stateful

variable {frame_max : Nat} {ending : Except Fault (Bool × Bytes)} {channel : UInt16}
  {queue items queue' items' pending : List Frame} {w w' : World} {stop : Stop}

/-- The members of a delivery. -/
def deliveryOf (frame : Frame) : Option (Args amqp_basic_deliver_t) :=
  match frame.payload with
  | .method m =>
    if h : m.id = AMQP_BASIC_DELIVER_METHOD then some (m.members (deliver_members h)) else none
  | _ => none

/-- A message with the members of its delivery. -/
def Delivered.envelope (channel : UInt16) (args : Args amqp_basic_deliver_t) :
    Delivered Message → Delivered Envelope
  | .normal message => .normal (envelopeOf channel args message)
  | .server_exception m => .server_exception m

/-- The first frame that is pending is not there, or it is not a delivery. -/
structure Unused (ending : Except Fault (Bool × Bytes)) (timeout : Option Timeval)
    (pending : List Frame) (w₀ : World) (stop : Stop) : Prop where
  waiting : stop = .waiting → pending = []
  calm : w₀.Calm → timeout = none → (∃ rest, ending = .ok rest) →
    stop = .waiting ∨ ∃ frame rest, pending = frame :: rest ∧ deliveryOf frame = none

/-- A call for a message takes a delivery and reads a message on the channel of it. -/
theorem consume_message_reads {now_ns : UInt64} {timeout : Option Timeval}
    (h : Ready frame_max ending queue items w) :
    Ensures (amqp_consume_message now_ns timeout) w
      (fun d w' => ∃ frame args queue₁ items₁ w₁ queue' items' message,
        queue ++ data items = frame :: (queue₁ ++ data items₁) ∧ deliveryOf frame = some args ∧
        (w.Calm → w₁.Calm) ∧
        Advanced frame_max ending frame.channel queue₁ items₁ queue' items' w₁ w' ∧
        assemble (line frame.channel (queue₁ ++ data items₁)) =
          (.delivered message, line frame.channel (queue' ++ data items')) ∧
        d = message.envelope frame.channel args)
      (fun stop w' => (∃ queue' items', queue' ++ data items' = queue ++ data items ∧
          Halted frame_max ending queue' items' stop w' ∧
          Unused ending timeout (queue ++ data items) w stop) ∨
        ∃ frame args queue₁ items₁ w₁ queue' items',
          queue ++ data items = frame :: (queue₁ ++ data items₁) ∧ deliveryOf frame = some args ∧
          (w.Calm → w₁.Calm) ∧
          Left frame_max ending frame.channel queue₁ items₁ queue' items' stop w' ∧
          Missed ending frame.channel w₁ queue' items' stop
            (assemble (line frame.channel (queue₁ ++ data items₁)))) := by
  refine (wait_frame_noblock_ready h).bind ?_ ?_
  · rintro stop w' ⟨hs, items', rfl, hall, hhalted, hwaiting, hcalm⟩
    have hpassed : data (hs ++ items') = data items' := by
      rw [data_append, data_heartbeats hall, List.nil_append]
    refine .inl ⟨queue, items', by rw [hpassed], hhalted, ?_, ?_⟩
    · intro hstop
      obtain ⟨rfl, rfl⟩ := hwaiting hstop
      rw [hpassed]
      rfl
    · exact fun hc htimeout hending => .inl (hcalm hc htimeout hending)
  rintro frame w₁ ⟨hcalm, hfront⟩
  obtain ⟨queue₁, items₁, hready, hpending⟩ : ∃ queue₁ items₁,
      Ready frame_max ending queue₁ items₁ w₁ ∧
        queue ++ data items = frame :: (queue₁ ++ data items₁) := by
    rcases hfront with ⟨rest, rfl, hready⟩ | ⟨rfl, hs, items₁, rfl, hall, hdata, hready⟩
    · exact ⟨rest, items, hready, rfl⟩
    · refine ⟨[], items₁, hready, ?_⟩
      rw [List.nil_append, List.nil_append, data_append, data_heartbeats hall, data_cons hdata,
        List.nil_append]
  have hunused (hnone : deliveryOf frame = none) :
      Ensures (do
        amqp_put_back_frame frame
        Call.fail .AMQP_STATUS_UNEXPECTED_STATE : Call (Delivered Envelope)) w₁
      (fun _ _ => False)
      (fun stop w' => ∃ queue' items', queue' ++ data items' = queue ++ data items ∧
        Halted frame_max ending queue' items' stop w' ∧
        Unused ending timeout (queue ++ data items) w stop) := by
    refine ensures_bind_of_ok rfl (ensures_throw ⟨frame :: queue₁, items₁, hpending.symm, ?_, ?_⟩)
    · exact ⟨by simp, .inl hready.coming, hready.quiet, congrArg (frame :: ·) hready.queue⟩
    · exact ⟨by simp, fun _ _ _ => .inr ⟨frame, _, hpending, hnone⟩⟩
  rcases hpayload : frame.payload with m | _ | _ | _ | _
  · dsimp only
    by_cases hdeliver : m.id = AMQP_BASIC_DELIVER_METHOD
    · rw [dif_pos hdeliver]
      have hargs : deliveryOf frame = some (m.members (deliver_members hdeliver)) := by
        rw [deliveryOf, hpayload]
        exact dif_pos hdeliver
      refine (read_message_assembles hready).bind ?_ ?_
      · rintro stop w' ⟨queue', items', hleft, hmissed⟩
        exact .inr ⟨frame, _, queue₁, items₁, w₁, queue', items', hpending, hargs, hcalm, hleft,
          hmissed⟩
      · rintro message w' ⟨queue', items', hadvanced, hassemble⟩
        cases message <;> exact ensures_pure ⟨frame, _, queue₁, items₁, w₁, queue', items', _,
          hpending, hargs, hcalm, hadvanced, hassemble, rfl⟩
    · rw [dif_neg hdeliver]
      have hnone : deliveryOf frame = none := by
        rw [deliveryOf, hpayload]
        exact dif_neg hdeliver
      exact (hunused hnone).mono (fun _ _ => False.elim) fun _ _ => Or.inl
  all_goals
    have hnone : deliveryOf frame = none := by rw [deliveryOf, hpayload]
    exact (hunused hnone).mono (fun _ _ => False.elim) fun _ _ => Or.inl

def bodyParts (channel : UInt16) (parts : List Bytes) : List Frame :=
  parts.map fun part => ⟨channel, .body_fragment part⟩

/-- The frames of a message whose body comes in parts. -/
def Envelope.frames (e : Envelope) (parts : List Bytes) : List Frame :=
  ⟨e.channel, .method (deliverMethod e)⟩ ::
    ⟨e.channel, .properties AMQP_BASIC_CLASS (.ofNat e.message.body.length) e.message.properties⟩ ::
      bodyParts e.channel parts

structure Envelope.InParts (e : Envelope) (parts : List Bytes) : Prop where
  flatten : parts.flatten = e.message.body
  nonempty : ∀ part ∈ parts, part ≠ []
  short : e.message.body.length < 2 ^ 64
  keyed : e.message.properties.keyed

/-- Messages one after the other. -/
def shipped (messages : List (Envelope × List Bytes)) : List Frame :=
  messages.flatMap fun m => m.1.frames m.2

/-- The frames of a message of which some are missing. -/
def Unfinished (frames : List Frame) : Prop :=
  ∃ (e : Envelope) (parts : List Bytes),
    e.InParts parts ∧ frames <+: e.frames parts ∧ frames ≠ e.frames parts

theorem deliveryOf_deliverMethod (channel : UInt16) (e : Envelope) :
    ∃ args, deliveryOf ⟨channel, .method (deliverMethod e)⟩ = some args ∧
      ∀ message, envelopeOf e.channel args message = { e with message } := by
  refine ⟨(deliverMethod e).members (deliver_members rfl), ?_, fun message => ?_⟩
  · rw [deliveryOf]
    exact dif_pos rfl
  · exact congrArg (envelopeOf e.channel · message) (members_methodOf deliver_fields _)

theorem collect_parts {len : Nat} {body_read : Bytes} {parts : List Bytes}
    (hne : ∀ part ∈ parts, part ≠ []) (hlen : body_read.length + parts.flatten.length = len)
    (rest : List Frame) :
    collect len body_read (bodyParts channel parts ++ rest) =
      (.message (body_read ++ parts.flatten), rest) := by
  induction parts generalizing body_read with
  | nil =>
    have hfull : ¬ body_read.length < len := by simp at hlen; omega
    rw [List.flatten_nil, List.append_nil, bodyParts, List.map_nil, List.nil_append]
    cases rest with
    | nil => rw [collect, if_neg hfull]
    | cons frame rest => rw [collect, if_neg hfull]
  | cons part parts ih =>
    have hpos := List.length_pos_iff.mpr (hne part (List.mem_cons_self ..))
    rw [List.flatten_cons, List.length_append] at hlen
    have hlen' : (body_read ++ part).length + parts.flatten.length = len := by
      rw [List.length_append]
      omega
    have hcollect := ih (fun p hp => hne p (List.mem_cons_of_mem _ hp)) hlen'
    rw [bodyParts, List.map_cons, List.cons_append, collect, if_pos (by omega)]
    dsimp only
    rw [if_neg (by omega), List.flatten_cons, ← List.append_assoc]
    exact hcollect

/-- A body of which a part is missing is not complete. -/
theorem collect_front {len : Nat} {body_read : Bytes} {parts front : List Bytes}
    (hne : ∀ part ∈ parts, part ≠ []) (hlen : body_read.length + parts.flatten.length = len)
    (hfront : front <+: parts) (hpart : front ≠ parts) :
    ∃ read, collect len body_read (bodyParts channel front) = (.more read, []) := by
  obtain ⟨rest, rfl⟩ := hfront
  obtain ⟨part, hrest⟩ := List.exists_mem_of_ne_nil rest (by rintro rfl; simp at hpart)
  have hmissing : 0 < rest.flatten.length :=
    Nat.lt_of_lt_of_le (List.length_pos_iff.mpr (hne part (List.mem_append_right _ hrest)))
      (List.Sublist.length_le (List.sublist_flatten_of_mem hrest))
  clear hne hpart
  induction front generalizing body_read with
  | nil =>
    refine ⟨body_read, ?_⟩
    rw [List.nil_append] at hlen
    rw [bodyParts, List.map_nil, collect, if_pos (by omega)]
  | cons p front ih =>
    rw [List.cons_append, List.flatten_cons, List.length_append] at hlen
    have hlen' : (body_read ++ p).length + (front ++ rest).flatten.length = len := by
      rw [List.length_append]
      omega
    obtain ⟨read, hread⟩ := ih hlen'
    refine ⟨read, ?_⟩
    have hroom : body_read.length + p.length + rest.flatten.length ≤ len := by
      rw [List.flatten_append, List.length_append] at hlen
      omega
    rw [bodyParts, List.map_cons, collect, if_pos (by omega)]
    dsimp only
    rw [if_neg (by omega)]
    exact hread

theorem clone_keyed {p : Properties AMQP_BASIC_CLASS} (h : p.keyed) :
    amqp_basic_properties_clone p = .ok p := by
  rw [properties_clone_eq, cloned, if_pos h]
  rfl

theorem toNat_ofNat_length {b : Bytes} (h : b.length < 2 ^ 64) :
    (UInt64.ofNat b.length).toNat = b.length := by
  rw [UInt64.toNat_ofNat', Nat.mod_eq_of_lt h]

/-- Behind its delivery a message is put together from its frames. -/
theorem assemble_parts {e : Envelope} {parts : List Bytes} (h : e.InParts parts)
    (rest : List Frame) :
    assemble ((e.frames parts).tail ++ rest) = (.delivered (.normal e.message), rest) := by
  rw [Envelope.frames, List.tail_cons, List.cons_append, assemble]
  dsimp only
  rw [clone_keyed h.keyed]
  dsimp only
  rw [toNat_ofNat_length h.short, collect_parts h.nonempty (by simp [h.flatten]) rest]
  rw [h.flatten, List.nil_append]
  rfl

/-- There is no message as long as a frame of it is missing. -/
theorem assemble_unfinished {frame : Frame} {frames : List Frame}
    (h : Unfinished (frame :: frames)) : assemble frames = (.more, []) := by
  obtain ⟨e, parts, hparts, hahead, hmissing⟩ := h
  rw [Envelope.frames] at hahead hmissing
  obtain ⟨rfl, hbehind⟩ := List.cons_prefix_cons.mp hahead
  cases frames with
  | nil => rfl
  | cons header frames =>
    obtain ⟨rfl, hbody⟩ := List.cons_prefix_cons.mp hbehind
    obtain ⟨front, hfront, rfl⟩ : ∃ front, front <+: parts ∧ frames = bodyParts e.channel front := by
      have htake := List.prefix_iff_eq_take.mp hbody
      rw [bodyParts, ← List.map_take] at htake
      exact ⟨_, List.take_prefix .., htake⟩
    have hpart : front ≠ parts := by
      rintro rfl
      exact hmissing rfl
    rw [assemble]
    dsimp only
    rw [clone_keyed hparts.keyed]
    dsimp only
    rw [toNat_ofNat_length hparts.short]
    have hlen : ([] : Bytes).length + parts.flatten.length = e.message.body.length := by
      simp [hparts.flatten]
    have hmore : ∃ read, collect e.message.body.length [] (bodyParts e.channel front) =
        (.more read, []) := collect_front hparts.nonempty hlen hfront hpart
    obtain ⟨read, hread⟩ := hmore
    rw [hread]
    rfl

def OnChannel (channel : UInt16) (frames : List Frame) : Prop := ∀ f ∈ frames, f.channel = channel

theorem OnChannel.line_eq (h : OnChannel channel pending) : line channel pending = pending :=
  List.filter_eq_self.mpr fun f hf => by simpa using h f hf

theorem OnChannel.others_eq (h : OnChannel channel pending) : others channel pending = [] :=
  List.filter_eq_nil_iff.mpr fun f hf => by simpa using h f hf

theorem onChannel_of_others (h : others channel pending = []) : OnChannel channel pending := by
  intro f hf
  simpa using List.filter_eq_nil_iff.mp h f hf

/-- Where all is on one channel, this stays so. -/
theorem Advanced.line_eq (h : Advanced frame_max ending channel queue items queue' items' w w')
    (hchannel : OnChannel channel (queue ++ data items)) :
    line channel (queue' ++ data items') = queue' ++ data items' := by
  refine (onChannel_of_others ?_).line_eq
  exact List.sublist_nil.mp (hchannel.others_eq ▸ h.spares.sub)

theorem frames_eq (e : Envelope) (parts : List Bytes) :
    e.frames parts = ⟨e.channel, .method (deliverMethod e)⟩ :: (e.frames parts).tail := rfl

/-- The first message is consumed, if anything is. If nothing fails, it is. -/
theorem consume_next {e : Envelope} {parts : List Bytes} {rest : List Frame} {now_ns : UInt64}
    {timeout : Option Timeval} (h : Ready frame_max ending queue items w)
    (hparts : e.InParts parts) (hpending : queue ++ data items = e.frames parts ++ rest)
    (hchannel : OnChannel channel (queue ++ data items)) :
    Ensures (amqp_consume_message now_ns timeout) w
      (fun d w' => d = .normal e ∧ (w.Calm → w'.Calm) ∧ ∃ queue' items',
        Ready frame_max ending queue' items' w' ∧ queue' ++ data items' = rest)
      (fun _ _ => ¬ (w.Calm ∧ timeout = none ∧ ∃ b, ending = .ok b)) := by
  rw [frames_eq, List.cons_append] at hpending
  obtain ⟨args, hargs, henvelope⟩ := deliveryOf_deliverMethod e.channel e
  have hfirst : e.channel = channel := hchannel ⟨e.channel, .method (deliverMethod e)⟩
    (by rw [hpending]; exact List.mem_cons_self ..)
  have hrest (queue₁ items₁ : List Frame)
      (hsame : queue ++ data items = ⟨e.channel, .method (deliverMethod e)⟩ :: (queue₁ ++ data items₁)) :
      OnChannel e.channel (queue₁ ++ data items₁) ∧
        assemble (line e.channel (queue₁ ++ data items₁)) = (.delivered (.normal e.message), rest) := by
    have hon : OnChannel e.channel (queue₁ ++ data items₁) := by
      intro f hf
      rw [hfirst]
      exact hchannel f (by rw [hsame]; exact List.mem_cons_of_mem _ hf)
    refine ⟨hon, ?_⟩
    rw [hpending] at hsame
    rw [hon.line_eq, ← (List.cons.inj hsame).2]
    exact assemble_parts hparts rest
  refine (consume_message_reads h).mono ?_ ?_
  · rintro d w' ⟨frame, args', queue₁, items₁, w₁, queue', items', message, hsame, hargs', hcalm,
      hadvanced, hassemble, rfl⟩
    obtain rfl : (⟨e.channel, .method (deliverMethod e)⟩ : Frame) = frame := by
      rw [hpending] at hsame
      exact (List.cons.inj hsame).1
    obtain ⟨hon, hassemble'⟩ := hrest queue₁ items₁ hsame
    rw [hassemble', hadvanced.line_eq hon] at hassemble
    cases hassemble
    rw [hargs] at hargs'
    cases hargs'
    refine ⟨?_, fun hc => hadvanced.calm (hcalm hc), queue', items', hadvanced.ready, rfl⟩
    rw [Delivered.envelope, henvelope]
  · rintro stop w' hstop ⟨hc, htimeout, hending⟩
    rcases hstop with ⟨-, -, -, -, hunused⟩ | ⟨frame, args', queue₁, items₁, w₁, queue', items',
      hsame, hargs', hcalm, -, hmissed⟩
    · rw [hpending] at hunused
      rcases hunused.calm hc htimeout hending with hstop | ⟨frame, _, hsame, hnone⟩
      · cases hunused.waiting hstop
      · cases hsame
        rw [hargs] at hnone
        cases hnone
    · obtain rfl : (⟨e.channel, .method (deliverMethod e)⟩ : Frame) = frame := by
        rw [hpending] at hsame
        exact (List.cons.inj hsame).1
      obtain ⟨-, hassemble⟩ := hrest queue₁ items₁ hsame
      rw [hassemble] at hmissed
      rcases hmissed with ⟨_, -, hfailed⟩ | ⟨hstopped, hmore⟩
      · cases hfailed
      · cases hmore (hstopped.waiting (hstopped.calm (hcalm hc) hending))

/-- Nothing is consumed as long as a frame of the message is missing. -/
theorem consume_unfinished {now_ns : UInt64} {timeout : Option Timeval}
    (h : Ready frame_max ending queue items w) (hunfinished : Unfinished (queue ++ data items))
    (hchannel : OnChannel channel (queue ++ data items)) :
    Ensures (amqp_consume_message now_ns timeout) w (fun _ _ => False) (fun _ _ => True) := by
  refine (consume_message_reads h).mono ?_ fun _ _ _ => trivial
  rintro d w' ⟨frame, args, queue₁, items₁, w₁, queue', items', message, hsame, hargs, hcalm,
    hadvanced, hassemble, -⟩
  rw [hsame] at hunfinished hchannel
  have hon : OnChannel frame.channel (queue₁ ++ data items₁) := by
    intro f hf
    rw [hchannel f (List.mem_cons_of_mem _ hf), hchannel frame (List.mem_cons_self ..)]
  rw [hon.line_eq, assemble_unfinished hunfinished] at hassemble
  cases hassemble

/-- Messages consumed by calls one after the other, until one of them gives none. -/
def consumeAll : List (UInt64 × Option Timeval) → World → List Envelope
  | [], _ => []
  | (now_ns, timeout) :: calls, w =>
    match amqp_consume_message now_ns timeout w with
    | .ok (.normal e) w => e :: consumeAll calls w
    | .ok (.server_exception _) _ => []
    | .error _ _ => []

theorem consumeAll_shipped {calls : List (UInt64 × Option Timeval)}
    {messages : List (Envelope × List Bytes)} {last : List Frame}
    (h : Ready frame_max ending queue items w) (hparts : ∀ m ∈ messages, m.1.InParts m.2)
    (hlast : Unfinished last) (hpending : queue ++ data items = shipped messages ++ last)
    (hchannel : OnChannel channel (queue ++ data items)) :
    consumeAll calls w <+: messages.map Prod.fst ∧
      (w.Calm → (∃ b, ending = .ok b) → (∀ call ∈ calls, call.2 = none) →
        consumeAll calls w = (messages.map Prod.fst).take calls.length) := by
  induction calls generalizing queue items w messages with
  | nil => exact ⟨List.nil_prefix, fun _ _ _ => rfl⟩
  | cons call calls ih =>
    obtain ⟨now_ns, timeout⟩ := call
    cases messages with
    | nil =>
      have hnone : consumeAll ((now_ns, timeout) :: calls) w = [] := by
        rw [shipped, List.flatMap_nil, List.nil_append] at hpending
        rw [← hpending] at hlast
        have hconsume : Ensures (amqp_consume_message now_ns timeout) w (fun _ _ => False) _ :=
          consume_unfinished h hlast hchannel
        rw [consumeAll]
        rcases hrun : amqp_consume_message now_ns timeout w with ⟨d, w'⟩ | ⟨stop, w'⟩
        · exact (hconsume.1 d w' hrun).elim
        · rfl
      rw [hnone]
      exact ⟨List.nil_prefix, fun _ _ _ => by simp⟩
    | cons m messages =>
      have hm := hparts m (List.mem_cons_self ..)
      rw [shipped, List.flatMap_cons, List.append_assoc] at hpending
      have hconsume : Ensures (amqp_consume_message now_ns timeout) w _ _ :=
        consume_next h hm hpending hchannel
      rw [consumeAll]
      rcases hrun : amqp_consume_message now_ns timeout w with ⟨d, w'⟩ | ⟨stop, w'⟩
      · obtain ⟨rfl, hcalm, queue', items', hready, hrest⟩ := hconsume.1 d w' hrun
        have hchannel' : OnChannel channel (queue' ++ data items') := by
          intro f hf
          rw [hrest] at hf
          exact hchannel f (by rw [hpending]; exact List.mem_append_right _ hf)
        obtain ⟨hahead, hall⟩ := ih hready (fun m' hm' => hparts m' (List.mem_cons_of_mem _ hm'))
          hrest hchannel'
        refine ⟨List.cons_prefix_cons.mpr ⟨rfl, hahead⟩, fun hc hending htimeouts => ?_⟩
        have htail := hall (hcalm hc) hending fun c hcall => htimeouts c (List.mem_cons_of_mem _ hcall)
        rw [List.map_cons, List.length_cons, List.take_succ_cons]
        exact congrArg (m.1 :: ·) htail
      · refine ⟨List.nil_prefix, fun hc hending htimeouts => ?_⟩
        exact absurd ⟨hc, htimeouts _ (List.mem_cons_self ..), hending⟩ (hconsume.2 stop w' hrun)

/-- What is consumed are the messages that have been sent, each of them once and as it was, in their
order, however the bytes arrive and whatever heartbeats come between them, as long as none is sent in
parts. If nothing fails, every call gives the next one, as long as there is one. -/
theorem consume_received {frames last : List Frame} {encoded tail : Bytes}
    {messages : List (Envelope × List Bytes)} {calls : List (UInt64 × Option Timeval)}
    (hmax : frame_max < 2 ^ 31) (hstands : Stands frame_max false [] w.client) (hquiet : w.Quiet)
    (hqueue : w.client.queue = []) (hwires : wires frames = some encoded)
    (hregular : ∀ frame ∈ frames, frame.payload.Regular)
    (hsize : ∀ frame ∈ frames, ∀ b, frame.wire = some b → b.length ≤ frame_max)
    (hstream : receivedBytes w.receipts = encoded ++ tail)
    (htail : nextFrame frame_max false tail = none)
    (hframes : data frames = shipped messages ++ last)
    (hparts : ∀ m ∈ messages, m.1.InParts m.2) (hlast : Unfinished last)
    (hchannel : OnChannel channel (data frames)) :
    consumeAll calls w <+: messages.map Prod.fst ∧
      (w.Calm → (∀ call ∈ calls, call.2 = none) →
        consumeAll calls w = (messages.map Prod.fst).take calls.length) := by
  have hready := ready_wires hmax hstands hquiet hwires hregular hsize hstream htail
  rw [hqueue] at hready
  have hpending : [] ++ data frames = shipped messages ++ last := by rw [List.nil_append, hframes]
  obtain ⟨hahead, hall⟩ := consumeAll_shipped hready hparts hlast hpending hchannel
  exact ⟨hahead, fun hc htimeouts => hall hc ⟨_, rfl⟩ htimeouts⟩

/-- A message whose body has two parts. -/
def twoParts : Envelope :=
  ⟨1, [], 1, false, [], [113], ⟨default_properties, [1, 2]⟩⟩

theorem twoParts_inParts : twoParts.InParts [[1], [2]] :=
  ⟨rfl, by simp, by decide, by decide +kernel⟩

theorem deliverMethod_regular (e : Envelope) : (deliverMethod e).Regular :=
  (regular_cast deliver_fields _).mpr ⟨trivial, trivial, trivial, trivial, trivial, trivial⟩

/-- The frames of it, with a heartbeat between them. -/
def twoPartsFrames : List Frame :=
  ⟨1, .method (deliverMethod twoParts)⟩ :: ⟨0, .heartbeat⟩ :: (twoParts.frames [[1], [2]]).tail

def twoPartsBytes : Bytes :=
  [1, 0, 1, 0, 0, 0, 17, 0, 60, 0, 60, 0, 0, 0, 0, 0, 0, 0, 0, 1, 0, 0, 1, 113, 206, 8, 0, 0, 0, 0, 0,
    0, 206, 2, 0, 1, 0, 0, 0, 14, 0, 60, 0, 0, 0, 0, 0, 0, 0, 0, 0, 2, 0, 0, 206, 3, 0, 1, 0, 0, 0, 1,
    1, 206, 3, 0, 1, 0, 0, 0, 1, 2, 206]

theorem wires_twoParts : wires twoPartsFrames = some twoPartsBytes := by decide +kernel

theorem consume_received_two :
    consumeAll [(0, none)] (restingWorld 4096 []
      [.data (twoPartsBytes.take 5) 0, .data (twoPartsBytes.drop 5) 0]) = [twoParts] := by
  have hregular : ∀ frame ∈ twoPartsFrames, frame.payload.Regular := by
    simp only [twoPartsFrames, Envelope.frames, List.tail_cons, bodyParts, List.map_cons,
      List.map_nil, List.forall_mem_cons]
    exact ⟨deliverMethod_regular _, trivial, default_properties_regular, trivial, trivial, by simp⟩
  have hsize : ∀ frame ∈ twoPartsFrames, ∀ b, frame.wire = some b → b.length ≤ 4096 := by
    intro frame hframe b hb
    exact (length_le_of_wires wires_twoParts frame hframe b hb).trans (by decide)
  have hframes : data twoPartsFrames = shipped [(twoParts, [[1], [2]])] ++ [] := rfl
  have hlast : Unfinished [] :=
    ⟨twoParts, [[1], [2]], twoParts_inParts, List.nil_prefix, by simp [Envelope.frames]⟩
  have hchannel : OnChannel 1 (data twoPartsFrames) := by
    rw [hframes]
    simp [OnChannel, shipped, Envelope.frames, bodyParts, twoParts]
  exact (consume_received (by decide)
    (restingWorld_stands 4096 [] [.data (twoPartsBytes.take 5) 0, .data (twoPartsBytes.drop 5) 0])
    (restingWorld_quiet 4096 [] _) rfl wires_twoParts hregular hsize rfl rfl hframes
    (by simpa using twoParts_inParts) hlast hchannel).2 ⟨rfl, rfl, by simp [restingWorld]⟩ (by simp)

end RabbitClient.Amqp
