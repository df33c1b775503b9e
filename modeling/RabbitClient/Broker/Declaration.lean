import RabbitClient.Amqp.FrameBytes
import RabbitClient.Broker.Message

/-! The methods that `open` declares an exchange, a queue and a consumer with. A frame may have no
room for them, and then they are not sent. -/
namespace RabbitClient.MessageBroker

open Bytes WireBuffer

variable {info_ : BrokerInfo} {channel : UInt16} {frame_max : Nat}

/-- The bits of a method, the lowest first. -/
def bits (n : Nat) (flags : List Bool) (i : Fin n) : Bool := flags.getD i false

theorem exchange_declare_fields : Amqp.methodFields Amqp.AMQP_EXCHANGE_DECLARE_METHOD =
    some Amqp.amqp_exchange_declare_t := rfl

theorem queue_declare_fields : Amqp.methodFields Amqp.AMQP_QUEUE_DECLARE_METHOD =
    some Amqp.amqp_queue_declare_t := rfl

theorem queue_bind_fields : Amqp.methodFields Amqp.AMQP_QUEUE_BIND_METHOD =
    some Amqp.amqp_queue_bind_t := rfl

theorem basic_consume_fields : Amqp.methodFields Amqp.AMQP_BASIC_CONSUME_METHOD =
    some Amqp.amqp_basic_consume_t := rfl

theorem basic_publish_fields : Amqp.methodFields Amqp.AMQP_BASIC_PUBLISH_METHOD =
    some Amqp.amqp_basic_publish_t := rfl

/-- What `MessageBrokerBase::exchange_declare` sends. -/
def exchangeDeclare (info_ : BrokerInfo) : Amqp.Method :=
  Amqp.methodOf Amqp.AMQP_EXCHANGE_DECLARE_METHOD exchange_declare_fields
    (0, cstr info_.exchange.name, cstr info_.exchange.type,
      bits 5 [info_.exchange.passive, info_.exchange.durable, info_.exchange.auto_delete,
        info_.exchange.internal],
      info_.exchange.arguments, ())

/-- What `MessageBrokerBase::prepare` sends. -/
def queueDeclare (info_ : BrokerInfo) : Amqp.Method :=
  let declared := prepare info_
  Amqp.methodOf Amqp.AMQP_QUEUE_DECLARE_METHOD queue_declare_fields
    (0, declared.queue,
      bits 5 [declared.passive, declared.durable, declared.exclusive, declared.auto_delete],
      info_.queue.arguments, ())

/-- What `MessageBrokerBase::prepare_consumer` binds the queue with. -/
def queueBind (info_ : BrokerInfo) (queuename : Bytes) : Amqp.Method :=
  Amqp.methodOf Amqp.AMQP_QUEUE_BIND_METHOD queue_bind_fields
    (0, queuename, cstr info_.exchange.name, bindingKey info_, bits 1 [], [], ())

/-- What `MessageBrokerBase::prepare_consumer` starts the consumer with. -/
def basicConsume (info_ : BrokerInfo) (queuename : Bytes) : Amqp.Method :=
  Amqp.methodOf Amqp.AMQP_BASIC_CONSUME_METHOD basic_consume_fields
    (0, queuename, cstr info_.consumer.tag,
      bits 4 [info_.consumer.no_local, info_.consumer.no_ack, info_.consumer.exclusive],
      info_.consumer.arguments, ())

/-- The method of `amqp_basic_publish`. -/
def BasicPublish.method (m : BasicPublish) : Amqp.Method :=
  Amqp.methodOf Amqp.AMQP_BASIC_PUBLISH_METHOD basic_publish_fields
    (0, m.exchange, m.routing_key, bits 2 [m.mandatory, m.immediate], ())

/-- `amqp_send_frame` has laid out the method in its buffer. -/
def fits (frame_max : Nat) (channel : UInt16) (m : Amqp.Method) : Bool :=
  (Amqp.amqp_frame_to_bytes ⟨channel, .method m⟩ (List.replicate frame_max 0)).isOk

/-- A frame has room for these strings and this table; 15 bytes are used for the rest of it. -/
def Declarable (frame_max : Nat) (strings : List Bytes) (arguments : Amqp.Table) : Prop :=
  (∀ b ∈ strings, short b) ∧ ∃ w, arguments.wire = some w ∧
    15 + (strings.map fun b => b.length + 1).sum + w.length ≤ frame_max

theorem fits_iff {m : Amqp.Method} :
    fits frame_max channel m ↔ ∃ b, m.wire = some b ∧ 12 + b.length ≤ frame_max := by
  have hbytes {w : Bytes} :
      Amqp.amqp_frame_to_bytes ⟨channel, .method m⟩ (List.replicate frame_max 0) = .ok w ↔
        Amqp.Frame.wire ⟨channel, .method m⟩ = some w ∧
          w.length ≤ (List.replicate frame_max (0 : UInt8)).length :=
    Amqp.frame_to_bytes_eq_ok
  have hwire {w : Bytes} : Amqp.Frame.wire ⟨channel, .method m⟩ = some w ↔
      ∃ b, m.wire = some b ∧ w = Amqp.Frame.around ⟨channel, .method m⟩ (bigEndian 4 m.id.toNat ++ b) := by
    rw [Amqp.Frame.wire, Amqp.Payload.wire, Option.map_eq_some_iff]
    constructor
    · rintro ⟨a, ha, rfl⟩
      obtain ⟨c, b, ⟨rfl⟩, hb, rfl⟩ := both_eq_some.mp ha
      exact ⟨b, hb, rfl⟩
    · rintro ⟨b, hb, rfl⟩
      exact ⟨_, both_eq_some.mpr ⟨_, b, rfl, hb, rfl⟩, rfl⟩
  have hlen (b : Bytes) : (Amqp.Frame.around ⟨channel, .method m⟩
      (bigEndian 4 m.id.toNat ++ b)).length = 12 + b.length := by
    rw [Amqp.length_around, List.length_append, length_bigEndian, Amqp.HEADER_SIZE,
      Amqp.FOOTER_SIZE]
    omega
  rw [fits]
  constructor
  · intro h
    cases hr : Amqp.amqp_frame_to_bytes ⟨channel, .method m⟩ (List.replicate frame_max 0) with
    | error fault =>
      rw [hr] at h
      cases h
    | ok w =>
      obtain ⟨hw, hle⟩ := hbytes.mp hr
      obtain ⟨b, hb, rfl⟩ := hwire.mp hw
      rw [hlen, List.length_replicate] at hle
      exact ⟨b, hb, hle⟩
  · rintro ⟨b, hb, hle⟩
    rw [hbytes.mpr ⟨hwire.mpr ⟨b, hb, rfl⟩, by rwa [hlen, List.length_replicate]⟩]
    rfl

/-- Short strings in front of an encoding. -/
def stringsWire (strings : List Bytes) (w : Option Bytes) : Option Bytes :=
  strings.foldr (fun b r =>
    both (if 255 < b.length then none else some (Amqp.lengthPrefixed 1 b)) r) w

theorem stringsWire_eq_some {strings : List Bytes} {w : Option Bytes} {b : Bytes} :
    stringsWire strings w = some b ↔ (∀ s ∈ strings, short s) ∧
      ∃ c, w = some c ∧ b = strings.flatMap (Amqp.lengthPrefixed 1) ++ c := by
  induction strings generalizing b with
  | nil =>
    rw [stringsWire, List.foldr_nil, List.flatMap_nil]
    constructor
    · intro h
      exact ⟨by simp, b, h, rfl⟩
    · rintro ⟨-, c, hc, rfl⟩
      exact hc
  | cons s strings ih =>
    rw [stringsWire, List.foldr_cons, ← stringsWire, both_eq_some, List.forall_mem_cons,
      List.flatMap_cons]
    by_cases hs : 255 < s.length
    · rw [if_pos hs]
      constructor
      · rintro ⟨a, c, ha, -⟩
        cases ha
      · rintro ⟨⟨hshort, -⟩, -⟩
        exact absurd (short_iff.mp hshort) (Nat.not_le_of_lt hs)
    · have hshort : short s := short_iff.mpr (Nat.le_of_not_lt hs)
      rw [if_neg hs]
      constructor
      · rintro ⟨a, c, ⟨rfl⟩, hc, rfl⟩
        obtain ⟨hstrings, d, hd, rfl⟩ := ih.mp hc
        exact ⟨⟨hshort, hstrings⟩, d, hd, (List.append_assoc ..).symm⟩
      · rintro ⟨⟨-, hstrings⟩, d, hd, rfl⟩
        exact ⟨_, _, rfl, ih.mpr ⟨hstrings, d, hd, rfl⟩, (List.append_assoc ..).symm⟩

theorem length_strings (strings : List Bytes) :
    (strings.flatMap (Amqp.lengthPrefixed 1)).length =
      (strings.map fun b => b.length + 1).sum := by
  induction strings with
  | nil => rfl
  | cons b strings ih =>
    rw [List.flatMap_cons, List.length_append, ih, List.map_cons, List.sum_cons,
      Amqp.lengthPrefixed, List.length_append, length_bigEndian, Nat.add_comm 1]

/-- A ticket, strings, bits and a table. -/
theorem fits_declarable {m : Amqp.Method} {strings : List Bytes} {arguments : Amqp.Table}
    {v : Nat} (h : m.wire = both (some (bigEndian 2 0)) (stringsWire strings
      (both (some (bigEndian 1 v)) (both arguments.wire (some []))))) :
    fits frame_max channel m ↔ Declarable frame_max strings arguments := by
  have hwire {b : Bytes} : m.wire = some b ↔ (∀ s ∈ strings, short s) ∧ ∃ w,
      arguments.wire = some w ∧ b = bigEndian 2 0 ++
        (strings.flatMap (Amqp.lengthPrefixed 1) ++ (bigEndian 1 v ++ w)) := by
    rw [h, both_eq_some]
    constructor
    · rintro ⟨a, c, ⟨rfl⟩, hc, rfl⟩
      obtain ⟨hstrings, d, hd, rfl⟩ := stringsWire_eq_some.mp hc
      obtain ⟨e, f, ⟨rfl⟩, hf, rfl⟩ := both_eq_some.mp hd
      obtain ⟨w, x, hw, ⟨rfl⟩, rfl⟩ := both_eq_some.mp hf
      exact ⟨hstrings, w, hw, by rw [List.append_nil]⟩
    · rintro ⟨hstrings, w, hw, rfl⟩
      refine ⟨_, _, rfl, stringsWire_eq_some.mpr ⟨hstrings, _, ?_, rfl⟩, rfl⟩
      exact both_eq_some.mpr ⟨_, w, rfl, both_eq_some.mpr ⟨w, [], hw, rfl, List.append_nil w⟩, rfl⟩
  have hlen (w : Bytes) : 12 + (bigEndian 2 0 ++ (strings.flatMap (Amqp.lengthPrefixed 1) ++
      (bigEndian 1 v ++ w))).length =
        15 + (strings.map fun b => b.length + 1).sum + w.length := by
    simp only [List.length_append, length_bigEndian, length_strings]
    omega
  rw [fits_iff, Declarable]
  constructor
  · rintro ⟨b, hb, hle⟩
    obtain ⟨hstrings, w, hw, rfl⟩ := hwire.mp hb
    exact ⟨hstrings, w, hw, by rwa [hlen] at hle⟩
  · rintro ⟨hstrings, w, hw, hle⟩
    exact ⟨_, hwire.mpr ⟨hstrings, w, hw, rfl⟩, by rwa [hlen]⟩

theorem exchangeDeclare_fits : fits frame_max channel (exchangeDeclare info_) ↔
    Declarable frame_max [cstr info_.exchange.name, cstr info_.exchange.type]
      info_.exchange.arguments :=
  fits_declarable rfl

theorem queueDeclare_fits : fits frame_max channel (queueDeclare info_) ↔
    Declarable frame_max [(prepare info_).queue] info_.queue.arguments :=
  fits_declarable rfl

theorem basicConsume_fits {queuename : Bytes} :
    fits frame_max channel (basicConsume info_ queuename) ↔
      Declarable frame_max [queuename, cstr info_.consumer.tag] info_.consumer.arguments :=
  fits_declarable rfl

/-- A frame of the usual size has room for any publication with short strings. -/
theorem publish_fits {m : BasicPublish} (h : 4096 ≤ frame_max) :
    fits frame_max channel m.method ↔ m.arguments.all short := by
  obtain ⟨v, hv⟩ : ∃ v, m.method.wire = both (some (bigEndian 2 0))
      (stringsWire m.arguments (both (some (bigEndian 1 v)) (some []))) := ⟨_, rfl⟩
  rw [fits_iff, List.all_eq_true]
  constructor
  · rintro ⟨b, hb, -⟩
    obtain ⟨-, c, -, hc, -⟩ := both_eq_some.mp (hv.symm.trans hb)
    exact (stringsWire_eq_some.mp hc).1
  · intro hshort
    have hsum : (m.arguments.map fun b => b.length + 1).sum ≤ 512 := by
      have hexchange := short_iff.mp (hshort m.exchange (by simp [BasicPublish.arguments]))
      have hkey := short_iff.mp (hshort m.routing_key (by simp [BasicPublish.arguments]))
      simp only [BasicPublish.arguments, List.map_cons, List.map_nil, List.sum_cons, List.sum_nil]
      omega
    have hall := stringsWire_eq_some.mpr ⟨hshort, bigEndian 1 v ++ [], rfl, rfl⟩
    refine ⟨_, hv.trans (both_eq_some.mpr ⟨_, _, rfl, hall, rfl⟩), ?_⟩
    simp only [List.length_append, length_bigEndian, length_strings, List.length_nil]
    omega

end RabbitClient.MessageBroker
