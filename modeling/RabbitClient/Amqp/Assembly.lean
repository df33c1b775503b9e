import RabbitClient.Amqp.Messages

/-!
Messages as they are put together from the frames of a channel, and that the calls for messages do
just that, whatever comes on other channels.
-/
namespace RabbitClient.Amqp

open Bytes Deframing Stateful

theorem cloneSlot_eq (present : Bool) (f : Field) (v : Slot present f) :
    cloneSlot present f v = cloned (slotsKeyed.slotKeyed present f v) v := by
  cases present with
  | false => rfl
  | true =>
    cases f with
    | table _ => exact table_clone_eq v
    | _ => rfl

theorem cloneSlots_eq (flags : UInt32) (fs : List (UInt32 × Field)) (slots : Slots flags fs) :
    cloneSlots flags fs slots = cloned (slotsKeyed flags fs slots) slots := by
  induction fs with
  | nil => rfl
  | cons entry fs ih =>
    obtain ⟨flag, f⟩ := entry
    obtain ⟨v, slots⟩ := slots
    rw [cloneSlots, slotsKeyed, cloneSlot_eq, ih]
    cases slotsKeyed.slotKeyed (flags &&& flag != 0) f v <;> cases slotsKeyed flags fs slots <;> rfl

/-- Properties of a message are copied as they are, or not at all. -/
theorem properties_clone_eq (p : Properties AMQP_BASIC_CLASS) :
    amqp_basic_properties_clone p = (cloned p.keyed p).mapError .status := by
  change cloneBasic p = _
  rw [cloneBasic, cloneSlots_eq, map_cloned, basicProperties, cast_cast, cast_eq, Properties.keyed]

inductive Collected where
  | message (body : Bytes)
  | closed (m : Method)
  | bad
  | more (body_read : Bytes)

/-- The body of a message of the length `len` from the frames of its channel, and the frames behind
it. -/
def collect (len : Nat) : Bytes → List Frame → Collected × List Frame
  | body_read, [] => (if body_read.length < len then .more body_read else .message body_read, [])
  | body_read, frame :: line =>
    if body_read.length < len then
      match frame.payload with
      | .body_fragment b =>
        if len < body_read.length + b.length then (.bad, line)
        else collect len (body_read ++ b) line
      | .method m => if isClose m then (.closed m, line) else (.bad, line)
      | _ => (.bad, line)
    else (.message body_read, frame :: line)

inductive Outcome (α : Type) where
  | delivered (d : Delivered α)
  | failed (fault : Fault)
  | more

/-- What comes of a message with these properties. -/
def Collected.outcome (properties : Properties AMQP_BASIC_CLASS) : Collected → Outcome Message
  | .message body => .delivered (.normal ⟨properties, body⟩)
  | .closed m => .delivered (.server_exception m)
  | .bad => .failed (.status .AMQP_STATUS_BAD_AMQP_DATA)
  | .more _ => .more

/-- A message from the frames of its channel. -/
def assemble : List Frame → Outcome Message × List Frame
  | [] => (.more, [])
  | frame :: line =>
    match frame.payload with
    | .properties _ body_size decoded =>
      match amqp_basic_properties_clone decoded with
      | .error fault => (.failed fault, line)
      | .ok properties =>
        let collected := collect body_size.toNat [] line
        (collected.1.outcome properties, collected.2)
    | .method m =>
      if isClose m then (.delivered (.server_exception m), line)
      else (.failed (.status .AMQP_STATUS_UNEXPECTED_STATE), frame :: line)
    | _ => (.failed (.status .AMQP_STATUS_UNEXPECTED_STATE), frame :: line)

variable {frame_max : Nat} {ending : Except Fault (Bool × Bytes)} {channel : UInt16}
  {queue items queue' items' queue₂ items₂ : List Frame} {w w' w₀ : World} {stop : Stop}

/-- The frames of a channel. -/
def line (channel : UInt16) (frames : List Frame) : List Frame :=
  frames.filter fun frame => frame.channel = channel

def others (channel : UInt16) (frames : List Frame) : List Frame :=
  frames.filter fun frame => frame.channel ≠ channel

/-- There is nothing of the channel among the frames. -/
def Free (channel : UInt16) (frames : List Frame) : Prop := ∀ f ∈ frames, f.channel ≠ channel

theorem Free.line_eq {frames : List Frame} (h : Free channel frames) : line channel frames = [] :=
  List.filter_eq_nil_iff.mpr fun f hf => by simpa using h f hf

theorem line_append (fs gs : List Frame) :
    line channel (fs ++ gs) = line channel fs ++ line channel gs := List.filter_append ..

theorem line_cons {frame : Frame} (h : frame.channel = channel) (frames : List Frame) :
    line channel (frame :: frames) = frame :: line channel frames :=
  List.filter_cons_of_pos (by simpa using h)

/-- Frames of other channels may be lost, but not where nothing of the channel was in the queue. -/
structure Spares (channel : UInt16) (queue items queue' items' : List Frame) : Prop where
  sub : List.Sublist (others channel (queue' ++ data items'))
    (others channel (queue ++ data items))
  free : Free channel queue → Free channel queue' ∧
    others channel (queue' ++ data items') = others channel (queue ++ data items)

theorem spares_refl (channel : UInt16) (queue items : List Frame) :
    Spares channel queue items queue items := ⟨List.Sublist.refl _, fun h => ⟨h, rfl⟩⟩

theorem Spares.trans (h : Spares channel queue items queue' items')
    (h' : Spares channel queue' items' queue₂ items₂) : Spares channel queue items queue₂ items₂ := by
  refine ⟨h'.sub.trans h.sub, fun hfree => ?_⟩
  obtain ⟨hfree', hothers⟩ := h.free hfree
  obtain ⟨hfree₂, hothers'⟩ := h'.free hfree'
  exact ⟨hfree₂, hothers'.trans hothers⟩

/-- A call for frames of the channel has gone on. -/
structure Advanced (frame_max : Nat) (ending : Except Fault (Bool × Bytes)) (channel : UInt16)
    (queue items queue' items' : List Frame) (w w' : World) : Prop where
  ready : Ready frame_max ending queue' items' w'
  spares : Spares channel queue items queue' items'
  calm : w.Calm → w'.Calm

theorem advanced_refl (channel : UInt16) (h : Ready frame_max ending queue items w) :
    Advanced frame_max ending channel queue items queue items w w :=
  ⟨h, spares_refl channel queue items, id⟩

theorem Advanced.trans {w'' : World}
    (h : Advanced frame_max ending channel queue items queue' items' w w')
    (h' : Advanced frame_max ending channel queue' items' queue₂ items₂ w' w'') :
    Advanced frame_max ending channel queue items queue₂ items₂ w w'' :=
  ⟨h'.ready, h.spares.trans h'.spares, fun hc => h'.calm (h.calm hc)⟩

/-- What a call for frames of the channel leaves when it fails. -/
structure Left (frame_max : Nat) (ending : Except Fault (Bool × Bytes)) (channel : UInt16)
    (queue items queue' items' : List Frame) (stop : Stop) (w : World) : Prop where
  halted : Halted frame_max ending queue' items' stop w
  front : ∃ front, line channel (queue ++ data items) = front ++ line channel (queue' ++ data items')
  others : Free channel queue →
    others channel (queue' ++ data items') = others channel (queue ++ data items)

theorem Left.behind {frame : Frame}
    (hline : line channel (queue ++ data items) = frame :: line channel (queue' ++ data items'))
    (hspares : Spares channel queue items queue' items')
    (h : Left frame_max ending channel queue' items' queue₂ items₂ stop w) :
    Left frame_max ending channel queue items queue₂ items₂ stop w := by
  obtain ⟨front, hfront⟩ := h.front
  refine ⟨h.halted, ⟨frame :: front, by rw [hline, hfront, List.cons_append]⟩, ?_⟩
  intro hfree
  obtain ⟨hfree', hothers⟩ := hspares.free hfree
  exact (h.others hfree').trans hothers

/-- A call that fails behind a frame it has taken. -/
theorem Advanced.left {frame : Frame}
    (h : Advanced frame_max ending channel queue items queue' items' w w')
    (hstop : stop ≠ .fault .abort)
    (hline : line channel (queue ++ data items) = frame :: line channel (queue' ++ data items')) :
    Left frame_max ending channel queue items queue' items' stop w' :=
  ⟨h.ready.halted hstop, ⟨[frame], hline⟩, fun hfree => (h.spares.free hfree).2⟩

/-- A call has been stopped while it waited for a frame of the channel: it goes on waiting only if
there is none, and does not fail if nothing fails. -/
structure Stopped (ending : Except Fault (Bool × Bytes)) (channel : UInt16)
    (queue items : List Frame) (w₀ : World) (stop : Stop) : Prop where
  waiting : stop = .waiting → line channel (queue ++ data items) = []
  calm : w₀.Calm → (∃ rest, ending = .ok rest) → stop = .waiting

theorem Stopped.behind (hcalm : w.Calm → w'.Calm)
    (h : Stopped ending channel queue items w' stop) :
    Stopped ending channel queue items w stop :=
  ⟨h.waiting, fun hc => h.calm (hcalm hc)⟩

/-- The next frame of a channel is taken from what is pending on it. -/
theorem wait_frame_on_channel_line (h : Ready frame_max ending queue items w) :
    Ensures (amqp_simple_wait_frame_on_channel channel) w
      (fun frame w' => ∃ queue' items',
        Advanced frame_max ending channel queue items queue' items' w w' ∧
        line channel (queue ++ data items) = frame :: line channel (queue' ++ data items') ∧
        (queue' ++ data items').length < (queue ++ data items).length)
      (fun stop w' => ∃ queue' items',
        Left frame_max ending channel queue items queue' items' stop w' ∧
        Stopped ending channel queue' items' w stop ∧
        queue' ++ data items' = queue ++ data items) := by
  refine (wait_frame_on_channel_ready h).mono ?_ ?_
  · rintro frame w' ⟨hchannel, hcalm, ⟨lost, rest, rfl, hlost, hready⟩ | ⟨hfree, xs, items', rfl,
      hxs, hdata, hready⟩⟩
    · refine ⟨rest, items, ⟨hready, ⟨?_, ?_⟩, hcalm⟩, ?_, by simp; omega⟩
      · refine List.Sublist.filter _ (List.Sublist.append_right ?_ _)
        exact (List.sublist_cons_self frame rest).trans (List.sublist_append_right ..)
      · intro hfree
        exact absurd hchannel (hfree frame (by simp))
      · rw [List.append_assoc, List.cons_append, line_append, Free.line_eq hlost, line_cons hchannel,
          List.nil_append]
    · have hothers : others channel (queue ++ data xs ++ data items') =
          others channel (queue ++ data (xs ++ frame :: items')) := by
        have hnone : others channel [frame] = [] := by simp [others, hchannel]
        simp only [others] at hnone ⊢
        rw [data_append, data_cons hdata, List.append_assoc, List.filter_append, List.filter_append,
          List.filter_append, List.filter_append, ← List.singleton_append, List.filter_append, hnone,
          List.nil_append]
      refine ⟨queue ++ data xs, items', ⟨hready, ⟨hothers ▸ List.Sublist.refl _, ?_⟩, hcalm⟩, ?_, ?_⟩
      · exact fun _ => ⟨fun f hf => (List.mem_append.mp hf).elim (hfree f) (hxs f), hothers⟩
      · rw [data_append, data_cons hdata, line_append, line_append, Free.line_eq hfree,
          Free.line_eq hxs, line_cons hchannel, line_append, line_append, Free.line_eq hfree,
          Free.line_eq hxs]
        rfl
      · rw [data_append, data_cons hdata]
        simp
  · rintro stop w' ⟨hfree, xs, items', rfl, hxs, hceased⟩
    have hsame : queue ++ data xs ++ data items' = queue ++ data (xs ++ items') := by
      rw [data_append, List.append_assoc]
    refine ⟨queue ++ data xs, items', ⟨hceased.halted, ⟨[], by rw [hsame, List.nil_append]⟩, ?_⟩,
      ⟨?_, hceased.calm⟩, hsame⟩
    · intro _
      rw [hsame]
    · intro hstop
      rw [hceased.waiting hstop, data_nil, List.append_nil]
      exact Free.line_eq fun f hf => (List.mem_append.mp hf).elim (hfree f) (hxs f)

/-- The outcome of the loop over the body. -/
def Delivered.collected : Delivered Bytes → Collected
  | .normal body => .message body
  | .server_exception m => .closed m

/-- The loop has failed: the body cannot be put together, or a frame of it does not come. -/
def Unread (ending : Except Fault (Bool × Bytes)) (channel : UInt16) (w₀ : World)
    (queue' items' : List Frame) (stop : Stop) (collected : Collected × List Frame) : Prop :=
  stop = .fault (.status .AMQP_STATUS_BAD_AMQP_DATA) ∧
      collected = (.bad, line channel (queue' ++ data items')) ∨
    Stopped ending channel queue' items' w₀ stop ∧
      (line channel (queue' ++ data items') = [] → ∃ body_read, collected = (.more body_read, []))

/-- The loop collects the body from the frames of the channel. -/
theorem readBody_refines {len fuel : Nat} {body_read : Bytes}
    (h : Ready frame_max ending queue items w) (hfuel : (queue ++ data items).length < fuel) :
    Ensures (readBody channel len fuel body_read) w
      (fun d w' => ∃ queue' items',
        Advanced frame_max ending channel queue items queue' items' w w' ∧
        collect len body_read (line channel (queue ++ data items)) =
          (d.collected, line channel (queue' ++ data items')))
      (fun stop w' => ∃ queue' items',
        Left frame_max ending channel queue items queue' items' stop w' ∧
        Unread ending channel w queue' items' stop
          (collect len body_read (line channel (queue ++ data items)))) := by
  induction fuel generalizing queue items w body_read with
  | zero => omega
  | succ fuel ih =>
    rw [readBody]
    by_cases hlen : body_read.length < len
    · rw [if_pos hlen]
      refine (wait_frame_on_channel_line h).bind ?_ ?_
      · rintro stop w' ⟨queue', items', hleft, hstopped, hsame⟩
        refine ⟨queue', items', hleft, .inr ⟨hstopped, fun hnone => ⟨body_read, ?_⟩⟩⟩
        rw [← hsame, hnone, collect, if_pos hlen]
      rintro frame w' ⟨queue', items', hadvanced, hline, hless⟩
      have hbad (hcollect : collect len body_read (frame :: line channel (queue' ++ data items')) =
          (.bad, line channel (queue' ++ data items'))) :
          Ensures (Call.fail .AMQP_STATUS_BAD_AMQP_DATA : Call (Delivered Bytes)) w'
            (fun d w' => ∃ queue' items',
              Advanced frame_max ending channel queue items queue' items' w w' ∧
              collect len body_read (line channel (queue ++ data items)) =
                (d.collected, line channel (queue' ++ data items')))
            (fun stop w' => ∃ queue' items',
              Left frame_max ending channel queue items queue' items' stop w' ∧
              Unread ending channel w queue' items' stop
                (collect len body_read (line channel (queue ++ data items)))) :=
        ensures_throw ⟨queue', items', hadvanced.left (by simp) hline,
          .inl ⟨rfl, hline ▸ hcollect⟩⟩
      rcases hpayload : frame.payload with m | ⟨class_id, body_size, decoded⟩ | b | _ | _
      · dsimp only
        by_cases hclose : isClose m
        · rw [if_pos hclose]
          refine ensures_pure ⟨queue', items', hadvanced, ?_⟩
          rw [hline, collect, if_pos hlen, hpayload]
          exact if_pos hclose
        · rw [if_neg hclose]
          refine hbad ?_
          rw [collect, if_pos hlen, hpayload]
          exact if_neg hclose
      · exact hbad (by rw [collect, if_pos hlen, hpayload])
      · dsimp only
        by_cases hlong : len < body_read.length + b.length
        · rw [if_pos hlong]
          refine hbad ?_
          rw [collect, if_pos hlen, hpayload]
          exact if_pos hlong
        · rw [if_neg hlong]
          have hstep : collect len body_read (line channel (queue ++ data items)) =
              collect len (body_read ++ b) (line channel (queue' ++ data items')) := by
            rw [hline, collect, if_pos hlen, hpayload]
            exact if_neg hlong
          rw [hstep]
          refine (ih hadvanced.ready (by omega)).mono ?_ ?_
          · rintro d w'' ⟨queue₂, items₂, hadvanced₂, hcollect⟩
            exact ⟨queue₂, items₂, hadvanced.trans hadvanced₂, hcollect⟩
          · rintro stop w'' ⟨queue₂, items₂, hleft, hunread⟩
            refine ⟨queue₂, items₂, hleft.behind hline hadvanced.spares, ?_⟩
            exact hunread.imp id fun hstopped => ⟨hstopped.1.behind hadvanced.calm, hstopped.2⟩
      · exact hbad (by rw [collect, if_pos hlen, hpayload])
      · exact hbad (by rw [collect, if_pos hlen, hpayload])
    · rw [if_neg hlen]
      refine ensures_pure ⟨queue, items, advanced_refl channel h, ?_⟩
      cases line channel (queue ++ data items) with
      | nil =>
        rw [collect, if_neg hlen]
        rfl
      | cons frame rest =>
        rw [collect, if_neg hlen]
        rfl

theorem length_pending_lt (h : Ready frame_max ending queue items w) :
    (queue ++ data items).length < w.client.queue.length + w.supply + 1 := by
  have hdata : (data items).length ≤ items.length := List.length_filter_le ..
  have hsupply := h.coming.length_le
  rw [List.length_append, ← h.queue]
  omega

theorem clone_ne_abort {class_id : UInt16} (p : Properties class_id) :
    amqp_basic_properties_clone p ≠ .error .abort := by
  rw [amqp_basic_properties_clone]
  split
  · rw [cloneBasic]
    cases cloneSlots _ _ _ <;> simp [Functor.map, Except.map, Except.mapError]
  · cases unset p.flags amqp_basic_properties_t <;> simp [pure, Except.pure, throw, throwThe,
      MonadExceptOf.throw]

/-- A frame that is put back is the next one again. -/
theorem put_back_line {frame : Frame}
    (hline : line channel (queue ++ data items) = frame :: line channel (queue' ++ data items')) :
    line channel (queue ++ data items) = line channel (frame :: queue' ++ data items') ∧
      others channel (frame :: queue' ++ data items') = others channel (queue' ++ data items') := by
  have hmem : frame ∈ line channel (queue ++ data items) := by
    rw [hline]
    exact List.mem_cons_self ..
  have hchannel : frame.channel = channel := by simpa using (List.mem_filter.mp hmem).2
  refine ⟨by rw [hline, List.cons_append, line_cons hchannel], ?_⟩
  exact List.filter_cons_of_neg (by simpa using hchannel)

/-- No message has been read: none can be put together from the frames, or a frame of it does not
come. -/
def Missed (ending : Except Fault (Bool × Bytes)) (channel : UInt16) (w₀ : World)
    (queue' items' : List Frame) (stop : Stop) (assembled : Outcome Message × List Frame) : Prop :=
  (∃ fault, stop = .fault fault ∧
      assembled = (.failed fault, line channel (queue' ++ data items'))) ∨
    Stopped ending channel queue' items' w₀ stop ∧
      (line channel (queue' ++ data items') = [] → assembled = (.more, []))

theorem unexpected_left {frame : Frame}
    (h : Advanced frame_max ending channel queue items queue' items' w₀ w)
    (hline : line channel (queue ++ data items) = frame :: line channel (queue' ++ data items'))
    (hassemble : assemble (frame :: line channel (queue' ++ data items')) =
      (.failed (.status .AMQP_STATUS_UNEXPECTED_STATE),
        frame :: line channel (queue' ++ data items'))) :
    Ensures (do
        amqp_put_back_frame frame
        Call.fail .AMQP_STATUS_UNEXPECTED_STATE : Call (Delivered Message)) w
      (fun _ _ => False)
      (fun stop w' => ∃ queue' items',
        Left frame_max ending channel queue items queue' items' stop w' ∧
        Missed ending channel w₀ queue' items' stop
          (assemble (line channel (queue ++ data items)))) := by
  obtain ⟨hsame, hothers⟩ := put_back_line hline
  refine ensures_bind_of_ok rfl (ensures_throw ⟨frame :: queue', items', ⟨?_, ?_, ?_⟩,
    .inl ⟨_, rfl, ?_⟩⟩)
  · exact ⟨by simp, .inl h.ready.coming, h.ready.quiet, congrArg (frame :: ·) h.ready.queue⟩
  · exact ⟨[], by rw [hsame, List.nil_append]⟩
  · intro hfree
    rw [hothers]
    exact (h.spares.free hfree).2
  · rw [← hsame, hline, hassemble]

/-- A message that is read is what the frames of its channel make up, in the order in which they come.
Frames of other channels are left as they were. -/
theorem read_message_assembles (h : Ready frame_max ending queue items w) :
    Ensures (amqp_read_message channel) w
      (fun d w' => ∃ queue' items',
        Advanced frame_max ending channel queue items queue' items' w w' ∧
        assemble (line channel (queue ++ data items)) =
          (.delivered d, line channel (queue' ++ data items')))
      (fun stop w' => ∃ queue' items',
        Left frame_max ending channel queue items queue' items' stop w' ∧
        Missed ending channel w queue' items' stop
          (assemble (line channel (queue ++ data items)))) := by
  refine (wait_frame_on_channel_line h).bind ?_ ?_
  · rintro stop w' ⟨queue', items', hleft, hstopped, hsame⟩
    exact ⟨queue', items', hleft, .inr ⟨hstopped, fun hnone => by rw [← hsame, hnone, assemble]⟩⟩
  rintro frame w' ⟨queue', items', hadvanced, hline, -⟩
  have hunexpected := unexpected_left hadvanced hline
  rcases hpayload : frame.payload with m | ⟨class_id, body_size, decoded⟩ | b | _ | _
  · dsimp only
    by_cases hclose : isClose m
    · rw [if_pos hclose]
      refine ensures_pure ⟨queue', items', hadvanced, ?_⟩
      rw [hline, assemble, hpayload]
      exact if_pos hclose
    · rw [if_neg hclose]
      have hassemble : assemble (frame :: line channel (queue' ++ data items')) =
          (.failed (.status .AMQP_STATUS_UNEXPECTED_STATE),
            frame :: line channel (queue' ++ data items')) := by
        rw [assemble, hpayload]
        exact if_neg hclose
      exact (hunexpected hassemble).mono (fun _ _ => False.elim) fun _ _ => id
  · dsimp only
    rcases hclone : amqp_basic_properties_clone decoded with fault | properties
    · have habort := clone_ne_abort decoded
      rw [hclone] at habort
      refine ensures_throw ⟨queue', items', hadvanced.left (by simpa using habort) hline,
        .inl ⟨fault, rfl, ?_⟩⟩
      rw [hline, assemble, hpayload]
      dsimp only
      rw [hclone]
    · refine ensures_bind_of_ok rfl ?_
      have hstep : assemble (line channel (queue ++ data items)) =
          ((collect body_size.toNat [] (line channel (queue' ++ data items'))).1.outcome properties,
            (collect body_size.toNat [] (line channel (queue' ++ data items'))).2) := by
        rw [hline, assemble, hpayload]
        dsimp only
        rw [hclone]
      rw [hstep]
      refine (readBody_refines hadvanced.ready
        (length_pending_lt hadvanced.ready)).bind ?_ ?_
      · rintro stop w'' ⟨queue₂, items₂, hleft, ⟨rfl, hcollect⟩ | ⟨hstopped, hmore⟩⟩
        · refine ⟨queue₂, items₂, hleft.behind hline hadvanced.spares, .inl ⟨_, rfl, ?_⟩⟩
          rw [hcollect]
          rfl
        · refine ⟨queue₂, items₂, hleft.behind hline hadvanced.spares,
            .inr ⟨hstopped.behind hadvanced.calm, fun hnone => ?_⟩⟩
          obtain ⟨body_read, hcollect⟩ := hmore hnone
          rw [hcollect]
          rfl
      · rintro d w'' ⟨queue₂, items₂, hadvanced₂, hcollect⟩
        rw [hcollect]
        cases d with
        | normal body =>
          exact ensures_pure ⟨queue₂, items₂, hadvanced.trans hadvanced₂, rfl⟩
        | server_exception m =>
          exact ensures_pure ⟨queue₂, items₂, hadvanced.trans hadvanced₂, rfl⟩
  all_goals
    have hassemble : assemble (frame :: line channel (queue' ++ data items')) =
        (.failed (.status .AMQP_STATUS_UNEXPECTED_STATE),
          frame :: line channel (queue' ++ data items')) := by
      rw [assemble, hpayload]
    exact (hunexpected hassemble).mono (fun _ _ => False.elim) fun _ _ => id

/-- What is read on a channel depends on nothing but the frames of this channel: on two connections
on which they are the same, a message is the same, and so is what is left of the channel. Whatever else
comes, whenever it comes, does not get into it. -/
theorem read_message_unmixed {frame_max' : Nat} {ending' : Except Fault (Bool × Bytes)}
    {d d' : Delivered Message} {w₁ w₁' : World}
    (h : Ready frame_max ending queue items w) (h' : Ready frame_max' ending' queue' items' w')
    (hline : line channel (queue ++ data items) = line channel (queue' ++ data items'))
    (hrun : amqp_read_message channel w = .ok d w₁)
    (hrun' : amqp_read_message channel w' = .ok d' w₁') :
    d = d' ∧ ∃ left left_items left' left_items',
      Ready frame_max ending left left_items w₁ ∧ Ready frame_max' ending' left' left_items' w₁' ∧
      line channel (left ++ data left_items) = line channel (left' ++ data left_items') := by
  obtain ⟨left, left_items, hadvanced, hassemble⟩ := (read_message_assembles h).1 d w₁ hrun
  obtain ⟨left', left_items', hadvanced', hassemble'⟩ := (read_message_assembles h').1 d' w₁' hrun'
  rw [← hline, hassemble] at hassemble'
  obtain ⟨hd, hleft⟩ := Prod.mk.inj hassemble'
  obtain rfl : d = d' := Outcome.delivered.inj hd
  exact ⟨rfl, left, left_items, left', left_items', hadvanced.ready, hadvanced'.ready, hleft⟩

/-- A message on channel 1 and the first part of the next one. -/
def pureFrames : List Frame :=
  [⟨1, .properties AMQP_BASIC_CLASS 2 headedProperties⟩, ⟨1, .body_fragment [1]⟩,
    ⟨1, .body_fragment [2]⟩, ⟨1, .body_fragment [3]⟩]

/-- The same with a heartbeat and parts of another message between them. -/
def mingledFrames : List Frame :=
  [⟨1, .properties AMQP_BASIC_CLASS 2 headedProperties⟩, ⟨2, .body_fragment [9]⟩,
    ⟨1, .body_fragment [1]⟩, ⟨0, .heartbeat⟩, ⟨2, .body_fragment [9]⟩, ⟨1, .body_fragment [2]⟩,
    ⟨1, .body_fragment [3]⟩]

def mingledBytes : Bytes :=
  [2, 0, 1, 0, 0, 0, 25, 0, 60, 0, 0, 0, 0, 0, 0, 0, 0, 0, 2] ++ headedBytes ++ [206] ++
    [3, 0, 2, 0, 0, 0, 1, 9, 206, 3, 0, 1, 0, 0, 0, 1, 1, 206, 8, 0, 0, 0, 0, 0, 0, 206] ++
    [3, 0, 2, 0, 0, 0, 1, 9, 206, 3, 0, 1, 0, 0, 0, 1, 2, 206, 3, 0, 1, 0, 0, 0, 1, 3, 206]

theorem wires_mingled : wires mingledFrames = some mingledBytes := by decide +kernel

/-- The first message is in the queue on one connection and comes in two pieces on the other. -/
theorem read_message_unmixed_mingled :
    ∃ d w₁ w₁', amqp_read_message 1 (restingWorld 4096 pureFrames []) = .ok d w₁ ∧
      amqp_read_message 1 (restingWorld 4096 []
        [.data (mingledBytes.take 60) 0, .data (mingledBytes.drop 60) 0]) = .ok d w₁' ∧
      ∃ left left_items left' left_items', Ready 4096 (.ok (false, [])) left left_items w₁ ∧
        Ready 4096 (.ok (false, [])) left' left_items' w₁' ∧
        line 1 (left ++ data left_items) = line 1 (left' ++ data left_items') := by
  have hready : Ready 4096 (.ok (false, [])) pureFrames [] (restingWorld 4096 pureFrames []) :=
    ready_wires (by decide) (restingWorld_stands 4096 pureFrames [])
      (restingWorld_quiet 4096 pureFrames []) rfl (by simp) (by simp) rfl rfl
  have hregular : ∀ frame ∈ mingledFrames, frame.payload.Regular := by
    simp only [mingledFrames, List.forall_mem_cons]
    exact ⟨headedProperties_regular, trivial, trivial, trivial, trivial, trivial, trivial, by simp⟩
  have hsize : ∀ frame ∈ mingledFrames, ∀ b, frame.wire = some b → b.length ≤ 4096 :=
    fun frame hframe b hb =>
      (length_le_of_wires wires_mingled frame hframe b hb).trans (by decide)
  have hready' : Ready 4096 (.ok (false, [])) [] mingledFrames (restingWorld 4096 []
      [.data (mingledBytes.take 60) 0, .data (mingledBytes.drop 60) 0]) :=
    ready_wires (by decide) (restingWorld_stands 4096 [] _) (restingWorld_quiet 4096 [] _)
      wires_mingled hregular hsize rfl rfl
  obtain ⟨d, w₁, hrun⟩ := Call.returns_iff.mp (by decide +kernel :
    (amqp_read_message 1).returns (restingWorld 4096 pureFrames []))
  obtain ⟨d', w₁', hrun'⟩ := Call.returns_iff.mp (by decide +kernel :
    (amqp_read_message 1).returns (restingWorld 4096 []
      [.data (mingledBytes.take 60) 0, .data (mingledBytes.drop 60) 0]))
  have hline : line 1 (pureFrames ++ data []) = line 1 ([] ++ data mingledFrames) := rfl
  obtain ⟨rfl, hleft⟩ := read_message_unmixed hready hready' hline hrun hrun'
  exact ⟨d, w₁, w₁', hrun, hrun', hleft⟩

end RabbitClient.Amqp
