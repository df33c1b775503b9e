import RabbitClient.Amqp.FrameBytes
import RabbitClient.Amqp.FrameStream

/-! Frames are received as they were sent, in whatever pieces their bytes arrive. -/
namespace RabbitClient.Amqp

open Bytes WireBuffer Deframing

variable {frame_max : Nat} {frame : Frame} {b w : Bytes}

/-- The frame can be told from its encoding: what its tables and flags say is what is written. -/
def Payload.Regular : Payload → Prop
  | .method m => m.Regular
  | .properties _ _ decoded => canonicalFlags decoded.flags = decoded.flags ∧ decoded.Regular
  | _ => True

theorem peek_front {n v : Nat} (a d : Bytes) (hv : v < 256 ^ n) :
    peek (a ++ (bigEndian n v ++ d)) a.length n = v := by
  rw [peek, List.drop_left, List.take_left' (length_bigEndian n v), ofBigEndian_bigEndian,
    Nat.mod_eq_of_lt hv]

theorem drop_around (frame : Frame) (a c : Bytes) :
    (frame.around (a ++ c)).drop (HEADER_SIZE + a.length) = c ++ [AMQP_FRAME_END] := by
  have hassoc : frame.around (a ++ c) = (bigEndian 1 frame.payload.frame_type.toNat ++
      (bigEndian 2 frame.channel.toNat ++ (bigEndian 4 (a ++ c).length ++ a))) ++
      (c ++ [AMQP_FRAME_END]) := by
    simp only [Frame.around, List.append_assoc]
  rw [hassoc]
  refine List.drop_left' ?_
  simp only [List.length_append, length_bigEndian, HEADER_SIZE]
  omega

/-- What is left of a frame behind `a`, without the end mark. -/
theorem encoded_around (frame : Frame) (a c : Bytes) :
    ((frame.around (a ++ c)).drop (HEADER_SIZE + a.length)).take
      ((frame.around (a ++ c)).length - (HEADER_SIZE + a.length) - FOOTER_SIZE) = c := by
  rw [drop_around, length_around, List.length_append]
  refine List.take_left' ?_
  omega

theorem peek_payload {n v : Nat} (frame : Frame) (a c : Bytes) (hv : v < 256 ^ n) :
    peek (frame.around (a ++ (bigEndian n v ++ c))) (HEADER_SIZE + a.length) n = v := by
  rw [peek, drop_around, List.append_assoc, List.take_left' (length_bigEndian n v),
    ofBigEndian_bigEndian, Nat.mod_eq_of_lt hv]

theorem peek_type (frame : Frame) (b : Bytes) :
    peek (frame.around b) 0 1 = frame.payload.frame_type.toNat :=
  peek_front [] _ frame.payload.frame_type.toNat_lt

theorem peek_channel (frame : Frame) (b : Bytes) :
    peek (frame.around b) 1 2 = frame.channel.toNat := by
  have h := peek_front (bigEndian 1 frame.payload.frame_type.toNat)
    (bigEndian 4 b.length ++ (b ++ [AMQP_FRAME_END])) (n := 2) frame.channel.toNat_lt
  rwa [length_bigEndian] at h

theorem peek_size (frame : Frame) (hb : b.length < 2 ^ 32) :
    peek (frame.around b) 3 4 = b.length := by
  have h := peek_front (bigEndian 1 frame.payload.frame_type.toNat ++ bigEndian 2 frame.channel.toNat)
    (b ++ [AMQP_FRAME_END]) (n := 4) hb
  rwa [List.length_append, length_bigEndian, length_bigEndian, List.append_assoc] at h

/-- The end mark is where it is looked for. -/
theorem wholeFrame_around (frame : Frame) (b : Bytes) :
    wholeFrame (frame.around b) = decodeFrame (frame.around b) (frame.around b).length := by
  have hend : peek (frame.around b) ((frame.around b).length - 1) 1 = 206 := by
    have hdrop := drop_around frame b []
    rw [List.append_nil] at hdrop
    have hlast : (frame.around b).length - 1 = HEADER_SIZE + b.length := by
      rw [length_around]
      rfl
    rw [peek, hlast, hdrop]
    rfl
  rw [wholeFrame, hend, if_neg (by decide)]

theorem holds_whole (b : Bytes) : Holds b 0 b := ⟨[], [], by simp, rfl⟩

theorem mapError_status_eq_ok {α : Type} {x : Except Status α} {y : α} :
    x.mapError Fault.status = .ok y ↔ x = .ok y := by
  cases x <;> simp [Except.mapError]

theorem some_map_eq_ok {α ε : Type} {x : Except ε α} {y : α} :
    some <$> x = .ok (some y) ↔ x = .ok y := by
  cases x <;> simp [Functor.map, Except.map]

theorem decodeMethodPayload_eq_ok {m : Method} {c : Bytes} (hc : m.wire = some c)
    (hlen : c.length < 2 ^ 32) : decodeMethodPayload m.id c = .ok (.method m) ↔ m.Regular := by
  rw [decodeMethodPayload, except_bind_eq_ok]
  constructor
  · rintro ⟨⟨m', o⟩, hdec, h⟩
    cases h
    exact (yields_method _ _ _ _ _ (mapError_status_eq_ok.mp hdec)).2
  · intro hreg
    have hread := reads_method hc hreg hlen c 0 (holds_whole c)
    exact ⟨_, mapError_status_eq_ok.mpr hread, rfl⟩

theorem decodePropertiesPayload_eq_ok {class_id : UInt16} {body_size : UInt64}
    {p : Properties class_id} {c : Bytes} (hc : p.wire = some c) (hlen : c.length < 2 ^ 32) :
    decodePropertiesPayload class_id body_size c = .ok (.properties class_id body_size p) ↔
      canonicalFlags p.flags = p.flags ∧ p.Regular := by
  rw [decodePropertiesPayload, except_bind_eq_ok]
  constructor
  · rintro ⟨⟨p', o⟩, hdec, h⟩
    cases h
    exact regular_of_read hc (holds_whole c) hdec
  · rintro ⟨hflags, hreg⟩
    have hread := reads_properties hc hflags hreg hlen c 0 (holds_whole c)
    exact ⟨_, hread, rfl⟩

/-- A payload is found in its frame exactly if what its tables and flags say is what is written. -/
theorem decodePayload_around (hb : frame.payload.wire = some b) (hlen : b.length < 2 ^ 32) :
    decodePayload frame.payload.frame_type (frame.around b) (frame.around b).length =
      .ok (some frame.payload) ↔ frame.payload.Regular := by
  have hsize := length_around frame b
  obtain ⟨channel, payload⟩ := frame
  cases payload with
  | method m =>
    obtain ⟨a, c, ⟨rfl⟩, hc, rfl⟩ := both_eq_some.mp hb
    rw [List.length_append, length_bigEndian] at hlen hsize
    have hid := peek_payload (n := 4) ⟨channel, .method m⟩ [] c m.id.toNat_lt
    rw [List.nil_append, List.length_nil, Nat.add_zero] at hid
    have hrest := encoded_around ⟨channel, .method m⟩ (bigEndian 4 m.id.toNat) c
    rw [length_bigEndian] at hrest
    have htype : (Payload.method m).frame_type = AMQP_FRAME_METHOD := rfl
    rw [decodePayload]
    dsimp only
    rw [if_pos htype, if_neg (by omega), hid, hrest, UInt32.ofNat_toNat]
    exact some_map_eq_ok.trans (decodeMethodPayload_eq_ok hc (by omega))
  | properties class_id body_size decoded =>
    obtain ⟨a, c, ⟨rfl⟩, hc, rfl⟩ := both_eq_some.mp hb
    have hclass := peek_payload (n := 2) ⟨channel, .properties class_id body_size decoded⟩ []
      (bigEndian 2 0 ++ bigEndian 8 body_size.toNat ++ c) class_id.toNat_lt
    rw [List.nil_append, List.length_nil, Nat.add_zero, ← List.append_assoc] at hclass
    have hbody := peek_payload (n := 8) ⟨channel, .properties class_id body_size decoded⟩
      (bigEndian 2 class_id.toNat ++ bigEndian 2 0) c body_size.toNat_lt
    rw [List.length_append, length_bigEndian, length_bigEndian, ← List.append_assoc,
      List.append_assoc (bigEndian 2 class_id.toNat)] at hbody
    have hfront : (bigEndian 2 class_id.toNat ++
        (bigEndian 2 0 ++ bigEndian 8 body_size.toNat)).length = 12 := by
      simp only [List.length_append, length_bigEndian]
    have hrest := encoded_around ⟨channel, .properties class_id body_size decoded⟩
      (bigEndian 2 class_id.toNat ++ (bigEndian 2 0 ++ bigEndian 8 body_size.toNat)) c
    rw [hfront] at hrest
    rw [List.length_append, hfront] at hlen hsize
    have htype : (Payload.properties class_id body_size decoded).frame_type = AMQP_FRAME_HEADER := rfl
    rw [decodePayload]
    dsimp only
    rw [htype, if_neg (by decide), if_pos rfl, if_neg (by omega), hclass, hbody, hrest,
      UInt16.ofNat_toNat, UInt64.ofNat_toNat]
    exact some_map_eq_ok.trans (decodePropertiesPayload_eq_ok hc (by omega))
  | body_fragment body =>
    obtain ⟨rfl⟩ := hb
    have hrest := encoded_around ⟨channel, .body_fragment b⟩ [] b
    rw [List.length_nil, List.nil_append, Nat.add_zero] at hrest
    have htype : (Payload.body_fragment b).frame_type = AMQP_FRAME_BODY := rfl
    rw [decodePayload]
    dsimp only
    rw [htype, if_neg (by decide), if_neg (by decide), if_pos rfl, hrest]
    exact ⟨fun _ => trivial, fun _ => rfl⟩
  | heartbeat =>
    cases hb
    exact ⟨fun _ => trivial, fun _ => rfl⟩
  | protocol_header => cases hb

theorem wholeFrame_eq_ok (hb : frame.payload.wire = some b) (hlen : b.length < 2 ^ 32) :
    wholeFrame (frame.around b) = .ok (some frame) ↔ frame.payload.Regular := by
  rw [wholeFrame_around, ← decodePayload_around hb hlen, decodeFrame, peek_type, peek_channel,
    UInt8.ofNat_toNat, UInt16.ofNat_toNat, except_bind_eq_ok]
  constructor
  · rintro ⟨payload, hdec, h⟩
    cases payload with
    | none => cases h
    | some payload =>
      have hsame : payload = frame.payload :=
        congrArg Frame.payload (Option.some.inj (Except.ok.inj h))
      rwa [hsame] at hdec
  · intro hdec
    exact ⟨some frame.payload, hdec, rfl⟩

/-- At the front of a stream the encoding of a frame is told to be that frame, exactly if what its
tables and flags say is what is written. -/
theorem frontFrame_wire {w : Bytes} (hw : frame.wire = some w) (hlen : w.length ≤ frame_max)
    (hmax : frame_max < 2 ^ 31) (rest : Bytes) :
    frontFrame frame_max (w ++ rest) = some (.ok (some frame, false, w.length)) ↔
      frame.payload.Regular := by
  obtain ⟨b, hb, rfl⟩ := Option.map_eq_some_iff.mp hw
  have haround := length_around frame b
  have hsmall : b.length < 2 ^ 32 := by omega
  have hstated : statedSize (frame.around b) = (frame.around b).length := by
    rw [statedSize, peek_size frame hsmall, haround]
    omega
  have hsize : ¬ TooLarge frame_max (frame.around b) := by
    rw [TooLarge, hstated, peek_size frame hsmall]
    simp only [HEADER_SIZE, FOOTER_SIZE] at haround
    omega
  have hfront : frontFrame frame_max (frame.around b) =
      some ((wholeFrame (frame.around b)).map fun x => (x, false, (frame.around b).length)) := by
    rw [frontFrame, if_neg (by omega), if_neg hsize, hstated, if_neg (by omega), List.take_length]
  rw [frontFrame_append hfront rest, ← wholeFrame_eq_ok hb hsmall]
  cases wholeFrame (frame.around b) with
  | error fault => simp [Except.map]
  | ok x => simp [Except.map]

/-- A frame and its encoding, as a receiver takes it. -/
structure Sent (frame_max : Nat) (frame : Frame) (w : Bytes) : Prop where
  wire : frame.wire = some w
  regular : frame.payload.Regular
  size : w.length ≤ frame_max

/-- The frames in a stream are the ones whose encodings it is made of. -/
theorem split_sent (hmax : frame_max < 2 ^ 31) {sent : List (Frame × Bytes)}
    (hsent : ∀ p ∈ sent, Sent frame_max p.1 p.2) (rest : Bytes) :
    split (nextFrame frame_max) false ((sent.map Prod.snd).flatten ++ rest) =
      (sent.map Prod.fst ++ (split (nextFrame frame_max) false rest).1,
        (split (nextFrame frame_max) false rest).2) := by
  induction sent with
  | nil => rfl
  | cons p sent ih =>
    obtain ⟨hwire, hregular, hsize⟩ := hsent p (List.mem_cons_self ..)
    have hfront : nextFrame frame_max false (p.2 ++ ((sent.map Prod.snd).flatten ++ rest)) =
        some (.ok (some p.1, false, p.2.length)) := by
      rw [nextFrame, if_neg (by simp), if_neg (by simp)]
      exact (frontFrame_wire hwire hsize hmax _).mpr hregular
    have htail := ih fun q hq => hsent q (List.mem_cons_of_mem p hq)
    rw [List.map_cons, List.flatten_cons, List.append_assoc,
      split_item (nextFrame_stable frame_max) hfront, List.drop_left, htail]
    rfl

theorem method_id_lt {id : UInt32} (h : methodFields id ≠ none) : id.toNat < 2 ^ 24 := by
  have hall : ∀ p ∈ methods, p.1.toNat < 2 ^ 24 := by decide +kernel
  obtain ⟨fs, hfs⟩ := Option.ne_none_iff_exists'.mp h
  obtain ⟨l, r, heq, -⟩ := List.lookup_eq_some_iff.mp hfs
  have hmem : (id, fs) ∈ methods := by
    rw [heq]
    simp
  exact hall (id, fs) hmem

theorem bigEndian_cons (n v : Nat) :
    bigEndian (n + 1) v = UInt8.ofNat (v / 256 ^ n) :: bigEndian n v := by
  induction n generalizing v with
  | zero => simp [bigEndian]
  | succ n ih =>
    rw [bigEndian, ih, Nat.div_div_eq_div_mul, ← Nat.pow_succ', List.cons_append]
    rfl

theorem decodedWire_none {fields : Option (List Field)} {decoded : Decoded fields} {c : Bytes}
    (h : decodedWire fields decoded = some c) : fields ≠ none := by
  cases fields with
  | none => cases h
  | some fs => simp

/-- The first frame that is received loses its eighth byte, the first one of the payload; of a method
that one is zero anyway. -/
theorem seen_method {m : Method} {channel : UInt16} {w : Bytes}
    (hw : Frame.wire ⟨channel, .method m⟩ = some w) (rest : Bytes) :
    seen true (w ++ rest) = w ++ rest := by
  obtain ⟨b, hb, rfl⟩ := Option.map_eq_some_iff.mp hw
  obtain ⟨a, c, ⟨rfl⟩, hc, rfl⟩ := both_eq_some.mp hb
  have hid := method_id_lt (decodedWire_none hc)
  have hzero : bigEndian 4 m.id.toNat = 0 :: bigEndian 3 m.id.toNat := by
    have hhead : (0 : UInt8) = UInt8.ofNat (m.id.toNat / 256 ^ 3) := by
      rw [Nat.div_eq_of_lt (by omega)]
      rfl
    rw [bigEndian_cons, hhead]
  have hfront : Frame.around ⟨channel, .method m⟩ (bigEndian 4 m.id.toNat ++ c) ++ rest =
      (bigEndian 1 (Payload.method m).frame_type.toNat ++ (bigEndian 2 channel.toNat ++
        bigEndian 4 (bigEndian 4 m.id.toNat ++ c).length)) ++
        0 :: (bigEndian 3 m.id.toNat ++ (c ++ ([AMQP_FRAME_END] ++ rest))) := by
    rw [Frame.around]
    nth_rewrite 2 [hzero]
    simp
  rw [hfront, seen, List.set_append_right 7 0 (by simp)]
  simp

/-- The first frame of a connection is taken as what it is if it is a method. -/
theorem split_method_first (hmax : frame_max < 2 ^ 31) {m : Method} {channel : UInt16} {w : Bytes}
    (h : Sent frame_max ⟨channel, .method m⟩ w) (rest : Bytes) :
    split (nextFrame frame_max) true (w ++ rest) =
      (⟨channel, .method m⟩ :: (split (nextFrame frame_max) false rest).1,
        (split (nextFrame frame_max) false rest).2) := by
  obtain ⟨hwire, hregular, hsize⟩ := h
  have hseen := seen_method hwire rest
  have hlong : 8 ≤ (w ++ rest).length := by
    obtain ⟨b, -, rfl⟩ := Option.map_eq_some_iff.mp hwire
    rw [List.length_append, length_around]
    simp only [HEADER_SIZE, FOOTER_SIZE]
    omega
  have hmagic : (w ++ rest).take 4 ≠ ascii "AMQP" := by
    obtain ⟨b, -, rfl⟩ := Option.map_eq_some_iff.mp hwire
    intro h
    have hhead : some (1 : UInt8) = some 65 := congrArg List.head? h
    simp at hhead
  have hnext : nextFrame frame_max true (w ++ rest) =
      some (.ok (some ⟨channel, .method m⟩, false, w.length)) := by
    rw [nextFrame_headed fun _ => ⟨hlong, hmagic⟩, hseen]
    exact (frontFrame_wire hwire hsize hmax rest).mpr hregular
  rw [split_item (nextFrame_stable frame_max) hnext, List.drop_left]
  rfl

/-- The frame has been laid out in a buffer of 65536 bytes, whatever was in it before. -/
def LaidOut (frame : Frame) (b : Bytes) : Prop :=
  ∃ buffer : Bytes, buffer.length = 65536 ∧ amqp_frame_to_bytes frame buffer = .ok b

/-- Frames that have been laid out in a buffer for sending are received as what they are, in whatever
pieces their bytes come. The first one is a method, as it is from a peer that takes part. -/
theorem frames_received {m : Method} {channel : UInt16} {b : Bytes} {sent : List (Frame × Bytes)}
    {ds : List Bytes} (hfirst : LaidOut ⟨channel, .method m⟩ b) (hregular : m.Regular)
    (hsent : ∀ p ∈ sent, LaidOut p.1 p.2 ∧ p.1.payload.Regular)
    (hds : ds.flatten = b ++ (sent.map Prod.snd).flatten) :
    (receive amqp_handle_input amqp_new_connection ds).2 =
      (⟨channel, .method m⟩ :: sent.map Prod.fst, .ok ()) := by
  have hout {frame : Frame} {w : Bytes} (hregular : frame.payload.Regular)
      (h : LaidOut frame w) : Sent 65536 frame w := by
    obtain ⟨buffer, hbuffer, h⟩ := h
    obtain ⟨hwire, hlen⟩ := frame_to_bytes_eq_ok.mp h
    rw [hbuffer] at hlen
    exact ⟨hwire, hregular, hlen⟩
  have hall : ∀ p ∈ sent, Sent 65536 p.1 p.2 := fun p hp => hout (hsent p hp).2 (hsent p hp).1
  have hagrees := receive_agrees (handle_input_follows 65536) (nextFrame_stable 65536)
    receiving_new_connection rfl ds
  have hrest := split_sent (by decide) hall []
  rw [List.append_nil, split_wait ((nextFrame_stable 65536).nil false), List.append_nil] at hrest
  have hsplit := split_method_first (by decide) (hout hregular hfirst) (sent.map Prod.snd).flatten
  rw [hrest] at hsplit
  rw [hagrees.1, List.nil_append, hds, hsplit]
  rfl

theorem frames_received_two :
    (receive amqp_handle_input amqp_new_connection
        [[1, 0], [0, 0, 0, 0, 4, 0, 10, 0, 61, 206, 3, 0, 1, 0], [0, 0, 1, 7], [206]]).2 =
      ([⟨0, .method ⟨AMQP_CONNECTION_UNBLOCKED_METHOD, ()⟩⟩, ⟨1, .body_fragment [7]⟩], .ok ()) := by
  have hlaid {frame : Frame} {w : Bytes} (hwire : frame.wire = some w)
      (hlen : w.length ≤ 65536) : LaidOut frame w :=
    ⟨List.replicate 65536 255, List.length_replicate,
      frame_to_bytes_eq_ok.mpr ⟨hwire, by rwa [List.length_replicate]⟩⟩
  have hmethod : LaidOut ⟨0, .method ⟨AMQP_CONNECTION_UNBLOCKED_METHOD, ()⟩⟩
      [1, 0, 0, 0, 0, 0, 4, 0, 10, 0, 61, 206] := hlaid rfl (by decide)
  have hbody : LaidOut ⟨1, .body_fragment [7]⟩ [3, 0, 1, 0, 0, 0, 1, 7, 206] :=
    hlaid rfl (by decide)
  have hsent : ∀ p ∈ [((⟨1, .body_fragment [7]⟩ : Frame), ([3, 0, 1, 0, 0, 0, 1, 7, 206] : Bytes))],
      LaidOut p.1 p.2 ∧ p.1.payload.Regular := by
    intro p hp
    obtain rfl := List.mem_singleton.mp hp
    exact ⟨hbody, trivial⟩
  exact frames_received hmethod trivial hsent rfl

end RabbitClient.Amqp
