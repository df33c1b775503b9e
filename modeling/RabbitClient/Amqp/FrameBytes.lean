import RabbitClient.Amqp.Frames

/-! The bytes of a frame: what `amqp_frame_to_bytes` leaves in the buffer. -/
namespace RabbitClient.Amqp

open Bytes WireBuffer

variable {buffer buffer' b w : Bytes} {n : Nat} {e : Encoder Status Unit}

/-- The encoding of the payload of a frame, if it has one. -/
def Payload.wire : Payload → Option Bytes
  | method m => both (some (bigEndian 4 m.id.toNat)) m.wire
  | properties class_id body_size decoded =>
    both (some (bigEndian 2 class_id.toNat ++ (bigEndian 2 0 ++ bigEndian 8 body_size.toNat)))
      decoded.wire
  | body_fragment b => some b
  | heartbeat => some []
  | protocol_header .. => none

/-- The type, the channel, the size of the payload, the payload and the end mark. -/
def Frame.around (frame : Frame) (payload : Bytes) : Bytes :=
  bigEndian 1 frame.payload.frame_type.toNat ++ (bigEndian 2 frame.channel.toNat ++
    (bigEndian 4 payload.length ++ (payload ++ [AMQP_FRAME_END])))

def Frame.wire (frame : Frame) : Option Bytes := frame.payload.wire.map frame.around

theorem length_around (frame : Frame) (b : Bytes) :
    (frame.around b).length = HEADER_SIZE + b.length + FOOTER_SIZE := by
  simp only [Frame.around, List.length_append, length_bigEndian, List.length_singleton, HEADER_SIZE,
    FOOTER_SIZE]
  omega

theorem poke_eq_ok {o : Nat} :
    poke buffer o b = .ok buffer' ↔ o + b.length ≤ buffer.length ∧ buffer' = store buffer o b := by
  rw [poke]
  split
  · next h =>
    constructor
    · rintro ⟨⟩
      exact ⟨h, rfl⟩
    · rintro ⟨-, rfl⟩
      rfl
  · next h =>
    constructor
    · rintro ⟨⟩
    · rintro ⟨hle, -⟩
      exact absurd hle h

/-- A copy into a part of a buffer is one into the buffer. -/
theorem store_part {front size : Nat} (hb : b.length ≤ size) (h : front + size ≤ buffer.length) :
    store buffer front (store ((buffer.drop front).take size) 0 b) = store buffer front b := by
  have hpart : ((buffer.drop front).take size).length = size := by
    rw [List.length_take, List.length_drop]
    omega
  have hlen : (store ((buffer.drop front).take size) 0 b).length = size := by
    rw [length_store (by omega), hpart]
  have hrest : ((buffer.drop front).take size).drop b.length ++ buffer.drop (front + size) =
      buffer.drop (front + b.length) := by
    rw [← List.drop_drop (l := buffer) (i := size), ← List.drop_append_of_le_length (by omega),
      List.take_append_drop, List.drop_drop]
  calc store buffer front (store ((buffer.drop front).take size) 0 b)
      = buffer.take front ++ (store ((buffer.drop front).take size) 0 b ++
          buffer.drop (front + size)) := by
        rw [store, hlen]
    _ = store buffer front b := by
        rw [store, store, ← hrest]
        simp

theorem within_eq_ok {front : Nat} {wire : Option Bytes} (he : Emits e wire) :
    within buffer front e = .ok (buffer', n) ↔
      ∃ b, wire = some b ∧ front + b.length + FOOTER_SIZE ≤ buffer.length ∧
        buffer' = store buffer front b ∧ n = b.length := by
  rw [within]
  split
  · next hshort =>
    constructor
    · rintro ⟨⟩
    · rintro ⟨b, -, hle, -⟩
      omega
  next hroom =>
  have hpart : ((buffer.drop front).take (buffer.length - front - FOOTER_SIZE)).length =
      buffer.length - front - FOOTER_SIZE := by
    rw [List.length_take, List.length_drop]
    omega
  by_cases hex : ∃ b, wire = some b ∧ front + b.length + FOOTER_SIZE ≤ buffer.length
  · obtain ⟨b, hb, hle⟩ := hex
    have hfit : Fits ⟨(buffer.drop front).take (buffer.length - front - FOOTER_SIZE), 0⟩ b :=
      .inr (by rw [hpart]; dsimp only; omega)
    have hpart' : store buffer front
        (store ((buffer.drop front).take (buffer.length - front - FOOTER_SIZE)) 0 b) =
        store buffer front b := store_part (by omega) (by omega)
    rw [he.ok _ b hb hfit]
    simp only [Out.put, hpart', Nat.zero_add]
    constructor
    · rintro ⟨⟩
      exact ⟨b, hb, hle, rfl, rfl⟩
    · rintro ⟨b', hb', -, rfl, rfl⟩
      obtain rfl : b = b' := Option.some.inj (hb.symm.trans hb')
      rfl
  · obtain ⟨err, herr⟩ := he.error
      ⟨(buffer.drop front).take (buffer.length - front - FOOTER_SIZE), 0⟩ (by
        rintro b hb (rfl | hfit)
        · exact hex ⟨[], hb, by simp only [List.length_nil]; omega⟩
        · rw [hpart] at hfit
          exact hex ⟨b, hb, by dsimp only at hfit; omega⟩)
    rw [herr]
    constructor
    · rintro ⟨⟩
    · rintro ⟨b, hb, hle, -⟩
      exact absurd ⟨b, hb, hle⟩ hex

/-- Two writes one behind the other are one. -/
theorem poke_poke (buffer a c : Bytes) (o : Nat) :
    (poke buffer o a >>= fun buffer => poke buffer (o + a.length) c) = poke buffer o (a ++ c) := by
  rw [poke]
  split
  · next h =>
    change poke (store buffer o a) (o + a.length) c = _
    rw [poke, poke, store_append h, length_store h, List.length_append, Nat.add_assoc]
  · next h =>
    rw [poke, List.length_append, if_neg (by omega)]
    rfl

/-- Bytes that are written without a check, and an encoder behind them. -/
def behind (buffer : Bytes) (o : Nat) (a : Bytes) (e : Encoder Status Unit) :
    Except Fault (Bytes × Nat) := do
  let buffer ← poke buffer o a
  let (buffer, res) ← within buffer (o + a.length) e
  return (buffer, res + a.length)

theorem behind_eq_ok {o : Nat} {a : Bytes} {wire : Option Bytes} (he : Emits e wire) :
    behind buffer o a e = .ok (buffer', n) ↔
      ∃ b, both (some a) wire = some b ∧ o + b.length + FOOTER_SIZE ≤ buffer.length ∧
        buffer' = store buffer o b ∧ n = b.length := by
  constructor
  · intro h
    obtain ⟨buffer₁, hpoke, h⟩ := except_bind_eq_ok.mp h
    obtain ⟨hle, rfl⟩ := poke_eq_ok.mp hpoke
    obtain ⟨⟨buffer₂, res⟩, hwithin, h⟩ := except_bind_eq_ok.mp h
    obtain ⟨b, hb, hroom, rfl, rfl⟩ := (within_eq_ok he).mp hwithin
    cases h
    rw [length_store hle] at hroom
    refine ⟨a ++ b, both_eq_some.mpr ⟨a, b, rfl, hb, rfl⟩, ?_, store_append hle, ?_⟩
    · rw [List.length_append]
      omega
    · rw [List.length_append, Nat.add_comm]
  · rintro ⟨w, hw, hroom, rfl, rfl⟩
    obtain ⟨a', b, ha, hb, rfl⟩ := both_eq_some.mp hw
    cases ha
    rw [List.length_append] at hroom
    have hle : o + a.length ≤ buffer.length := by omega
    have hwithin : within (store buffer o a) (o + a.length) e = .ok _ :=
      (within_eq_ok he).mpr ⟨b, hb, by rw [length_store hle]; omega, rfl, rfl⟩
    refine except_bind_eq_ok.mpr ⟨_, poke_eq_ok.mpr ⟨hle, rfl⟩, ?_⟩
    refine except_bind_eq_ok.mpr ⟨_, hwithin, ?_⟩
    rw [store_append hle, List.length_append, Nat.add_comm]
    rfl

theorem payloadToBytes_properties {class_id : UInt16} {body_size : UInt64}
    {decoded : Properties class_id} :
    payloadToBytes (.properties class_id body_size decoded) buffer =
      behind buffer HEADER_SIZE
        (bigEndian 2 class_id.toNat ++ (bigEndian 2 0 ++ bigEndian 8 body_size.toNat))
        (amqp_encode_properties decoded) := by
  rw [behind, ← poke_poke, payloadToBytes]
  cases hclass : poke buffer HEADER_SIZE (bigEndian 2 class_id.toNat) with
  | error fault => rfl
  | ok buffer₁ =>
    change _ = poke buffer₁ (HEADER_SIZE + 2) (bigEndian 2 0 ++ bigEndian 8 body_size.toNat) >>= _
    rw [← poke_poke]
    change (poke buffer₁ (HEADER_SIZE + 2) (bigEndian 2 0) >>= _) = _
    cases hweight : poke buffer₁ (HEADER_SIZE + 2) (bigEndian 2 0) with
    | error fault => rfl
    | ok buffer₂ => rfl

/-- The payload goes behind the header. A body is not checked here, so there need not be room for
the end mark. -/
theorem payloadToBytes_eq_ok {payload : Payload} :
    (payloadToBytes payload buffer = .ok (buffer', n) ∧
      HEADER_SIZE + n + FOOTER_SIZE ≤ buffer.length) ↔
    ∃ b, payload.wire = some b ∧ HEADER_SIZE + b.length + FOOTER_SIZE ≤ buffer.length ∧
      buffer' = store buffer HEADER_SIZE b ∧ n = b.length := by
  have hbehind {a : Bytes} {e : Encoder Status Unit} {wire : Option Bytes} (he : Emits e wire) :
      (behind buffer HEADER_SIZE a e = .ok (buffer', n) ∧
        HEADER_SIZE + n + FOOTER_SIZE ≤ buffer.length) ↔
      ∃ b, both (some a) wire = some b ∧ HEADER_SIZE + b.length + FOOTER_SIZE ≤ buffer.length ∧
        buffer' = store buffer HEADER_SIZE b ∧ n = b.length := by
    rw [behind_eq_ok he]
    constructor
    · rintro ⟨h, -⟩
      exact h
    · rintro ⟨b, hb, hroom, rfl, rfl⟩
      exact ⟨⟨b, hb, hroom, rfl, rfl⟩, hroom⟩
  cases payload with
  | method m => exact hbehind (emits_method m)
  | properties class_id body_size decoded =>
    rw [payloadToBytes_properties]
    exact hbehind (emits_properties decoded)
  | body_fragment body =>
    constructor
    · rintro ⟨h, hroom⟩
      obtain ⟨buffer₁, hpoke, h⟩ := except_bind_eq_ok.mp h
      obtain ⟨-, rfl⟩ := poke_eq_ok.mp hpoke
      cases h
      exact ⟨body, rfl, hroom, rfl, rfl⟩
    · rintro ⟨b, ⟨rfl⟩, hroom, rfl, rfl⟩
      have hpoke : poke buffer HEADER_SIZE body = .ok _ := poke_eq_ok.mpr ⟨by omega, rfl⟩
      exact ⟨except_bind_eq_ok.mpr ⟨_, hpoke, rfl⟩, hroom⟩
  | heartbeat =>
    constructor
    · rintro ⟨h, hroom⟩
      cases h
      exact ⟨[], rfl, hroom, (store_nil _ _).symm, rfl⟩
    · rintro ⟨b, ⟨rfl⟩, hroom, rfl, rfl⟩
      rw [store_nil]
      exact ⟨rfl, hroom⟩
  | protocol_header =>
    constructor
    · rintro ⟨⟨⟩, -⟩
    · rintro ⟨b, ⟨⟩, -⟩

theorem length_payloadToBytes {payload : Payload}
    (h : payloadToBytes payload buffer = .ok (buffer', n)) : buffer'.length = buffer.length := by
  have hbehind {a : Bytes} {e : Encoder Status Unit} {wire : Option Bytes} (he : Emits e wire)
      (h : behind buffer HEADER_SIZE a e = .ok (buffer', n)) : buffer'.length = buffer.length := by
    obtain ⟨b, -, hroom, rfl, -⟩ := (behind_eq_ok he).mp h
    exact length_store (by omega)
  cases payload with
  | method m => exact hbehind (emits_method m) h
  | properties class_id body_size decoded =>
    rw [payloadToBytes_properties] at h
    exact hbehind (emits_properties decoded) h
  | body_fragment body =>
    obtain ⟨buffer₁, hpoke, h⟩ := except_bind_eq_ok.mp h
    obtain ⟨hle, rfl⟩ := poke_eq_ok.mp hpoke
    cases h
    exact length_store hle
  | heartbeat =>
    cases h
    rfl
  | protocol_header => cases h

/-- The five parts of a frame, in the order in which they are written, at the front of the buffer. -/
theorem store_frame {t c s : Bytes} (ht : t.length = 1) (hc : c.length = 2) (hs : s.length = 4)
    (hroom : HEADER_SIZE + b.length + FOOTER_SIZE ≤ buffer.length) :
    store (store (store (store (store buffer 0 t) 1 c) HEADER_SIZE b) 3 s)
      (HEADER_SIZE + b.length) [AMQP_FRAME_END] =
      store buffer 0 (t ++ (c ++ (s ++ (b ++ [AMQP_FRAME_END])))) := by
  simp only [HEADER_SIZE, FOOTER_SIZE] at *
  have htc : store (store buffer 0 t) 1 c = store buffer 0 (t ++ c) := by
    have h : store (store buffer 0 t) (0 + t.length) c = store buffer 0 (t ++ c) :=
      store_append (by omega)
    rwa [ht] at h
  have hlen : (t ++ c).length = 3 := by rw [List.length_append]; omega
  have hfront : store (store (store buffer 0 (t ++ c)) 7 b) 3 s =
      store (store buffer 0 (t ++ c)) 3 (s ++ b) :=
    store_store_front hs (by rw [length_store (by omega)]; omega)
  have hsb : store (store buffer 0 (t ++ c)) 3 (s ++ b) = store buffer 0 (t ++ c ++ (s ++ b)) := by
    have h : store (store buffer 0 (t ++ c)) (0 + (t ++ c).length) (s ++ b) =
        store buffer 0 (t ++ c ++ (s ++ b)) := store_append (by omega)
    rwa [hlen] at h
  have hall : (t ++ c ++ (s ++ b)).length = 7 + b.length := by
    simp only [List.length_append] at hlen ⊢
    omega
  have hend : store (store buffer 0 (t ++ c ++ (s ++ b))) (0 + (t ++ c ++ (s ++ b)).length)
      [AMQP_FRAME_END] = store buffer 0 (t ++ c ++ (s ++ b) ++ [AMQP_FRAME_END]) :=
    store_append (by omega)
  rw [hall, Nat.zero_add] at hend
  rw [htc, hfront, hsb, hend]
  simp

theorem frame_to_bytes_ok {frame : Frame} (hb : frame.payload.wire = some b)
    (hroom : HEADER_SIZE + b.length + FOOTER_SIZE ≤ buffer.length) :
    amqp_frame_to_bytes frame buffer = .ok (frame.around b) := by
  have hle₁ : 0 + (bigEndian 1 frame.payload.frame_type.toNat).length ≤ buffer.length := by
    simp only [length_bigEndian, HEADER_SIZE] at *
    omega
  have hlen₁ := length_store hle₁
  have hle₂ : 1 + (bigEndian 2 frame.channel.toNat).length ≤
      (store buffer 0 (bigEndian 1 frame.payload.frame_type.toNat)).length := by
    simp only [length_bigEndian, hlen₁, HEADER_SIZE] at *
    omega
  have hlen₂ := length_store hle₂
  rw [hlen₁] at hlen₂
  obtain ⟨hpayload, -⟩ := payloadToBytes_eq_ok.mpr ⟨b, hb, by rw [hlen₂]; exact hroom, rfl, rfl⟩
  have hlen₃ := length_payloadToBytes hpayload
  rw [hlen₂] at hlen₃
  have hsize := poke_eq_ok.mpr ⟨show 3 + (bigEndian 4 b.length).length ≤ _ by
    rw [hlen₃, length_bigEndian]
    simp only [HEADER_SIZE] at hroom
    omega, rfl⟩
  have hlen₄ := length_store (poke_eq_ok.mp hsize).1
  rw [hlen₃] at hlen₄
  have hend := poke_eq_ok.mpr
    ⟨show HEADER_SIZE + b.length + [AMQP_FRAME_END].length ≤ _ by rw [hlen₄]; exact hroom, rfl⟩
  have htake : (store buffer 0 (frame.around b)).take (b.length + HEADER_SIZE + FOOTER_SIZE) =
      frame.around b := by
    have hlen := length_around frame b
    rw [store, List.take_zero, List.nil_append, List.take_left' (by omega)]
  refine except_bind_eq_ok.mpr ⟨_, poke_eq_ok.mpr ⟨hle₁, rfl⟩, ?_⟩
  refine except_bind_eq_ok.mpr ⟨_, poke_eq_ok.mpr ⟨hle₂, rfl⟩, ?_⟩
  refine except_bind_eq_ok.mpr ⟨_, hpayload, ?_⟩
  refine except_bind_eq_ok.mpr ⟨_, hsize, ?_⟩
  refine except_bind_eq_ok.mpr ⟨_, hend, ?_⟩
  rw [store_frame (length_bigEndian ..) (length_bigEndian ..) (length_bigEndian ..) hroom]
  exact congrArg Except.ok htake

/-- A frame is laid out in the buffer exactly if it has an encoding and the buffer is not too short
for it. -/
theorem frame_to_bytes_eq_ok {frame : Frame} :
    amqp_frame_to_bytes frame buffer = .ok w ↔ frame.wire = some w ∧ w.length ≤ buffer.length := by
  constructor
  · intro h
    obtain ⟨buffer₁, htype, hrest⟩ := except_bind_eq_ok.mp h
    obtain ⟨buffer₂, hchannel, hrest⟩ := except_bind_eq_ok.mp hrest
    obtain ⟨⟨buffer₃, n⟩, hpayload, hrest⟩ := except_bind_eq_ok.mp hrest
    obtain ⟨buffer₄, hsize, hrest⟩ := except_bind_eq_ok.mp hrest
    obtain ⟨buffer₅, hend, -⟩ := except_bind_eq_ok.mp hrest
    obtain ⟨hle₁, rfl⟩ := poke_eq_ok.mp htype
    obtain ⟨hle₂, rfl⟩ := poke_eq_ok.mp hchannel
    have hlen := length_payloadToBytes hpayload
    obtain ⟨hle₄, rfl⟩ := poke_eq_ok.mp hsize
    obtain ⟨hroom, -⟩ := poke_eq_ok.mp hend
    rw [length_store hle₄, hlen] at hroom
    obtain ⟨b, hb, -, -, rfl⟩ := payloadToBytes_eq_ok.mp ⟨hpayload, hroom⟩
    rw [length_store hle₂, length_store hle₁] at hroom
    rw [frame_to_bytes_ok hb hroom] at h
    cases h
    exact ⟨by rw [Frame.wire, hb]; rfl, by rw [length_around]; exact hroom⟩
  · rintro ⟨hw, hle⟩
    obtain ⟨b, hb, rfl⟩ := Option.map_eq_some_iff.mp hw
    rw [length_around] at hle
    exact frame_to_bytes_ok hb hle

theorem poke_ne_abort (buffer : Bytes) (o : Nat) (b : Bytes) : poke buffer o b ≠ .error .abort := by
  rw [poke]
  split <;> simp

theorem within_ne_abort (buffer : Bytes) (front : Nat) (e : Encoder Status Unit) :
    within buffer front e ≠ .error .abort := by
  rw [within]
  split
  · simp
  · split <;> simp

/-- Laying out a frame does not end the program. -/
theorem frame_to_bytes_ne_abort (frame : Frame) (buffer : Bytes) :
    amqp_frame_to_bytes frame buffer ≠ .error .abort := by
  have hpayload (buffer : Bytes) : payloadToBytes frame.payload buffer ≠ .error .abort := by
    cases frame.payload with
    | method m =>
      refine except_bind_ne_error (poke_ne_abort _ _ _) fun buffer => ?_
      exact except_bind_ne_error (within_ne_abort _ _ _) fun p => by simp [pure, Except.pure]
    | properties class_id body_size decoded =>
      refine except_bind_ne_error (poke_ne_abort _ _ _) fun buffer => ?_
      refine except_bind_ne_error (poke_ne_abort _ _ _) fun buffer => ?_
      refine except_bind_ne_error (poke_ne_abort _ _ _) fun buffer => ?_
      exact except_bind_ne_error (within_ne_abort _ _ _) fun p => by simp [pure, Except.pure]
    | body_fragment body =>
      exact except_bind_ne_error (poke_ne_abort _ _ _) fun buffer => by simp [pure, Except.pure]
    | heartbeat => simp [payloadToBytes]
    | protocol_header => simp [payloadToBytes]
  refine except_bind_ne_error (poke_ne_abort _ _ _) fun buffer => ?_
  refine except_bind_ne_error (poke_ne_abort _ _ _) fun buffer => ?_
  refine except_bind_ne_error (hpayload buffer) fun p => ?_
  refine except_bind_ne_error (poke_ne_abort _ _ _) fun buffer => ?_
  exact except_bind_ne_error (poke_ne_abort _ _ _) fun buffer => by simp [pure, Except.pure]

end RabbitClient.Amqp
