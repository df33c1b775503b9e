import RabbitClient.Broker.Headers
import RabbitClient.Broker.Publication
import RabbitClient.Broker.Recognition

/-! What `rpc_server` answers to a message that it has read into a pool. -/
namespace RabbitClient.Answer

open Bytes Blocks AmqpPool MessageBroker Rpc

variable {Client Server : Type} {sys : System Client Server} {s : Server} {p : HeadedProperties}
  {clone : HeadedClone} {pool : Pool}

/-- `byte_to_string` of a copied string; one that is absent has length 0. -/
def byte_to_string (pool : Pool) (byte : AmqpBytes) : Bytes :=
  ((byte.bytes.map (bytesAt pool)).getD []).take byte.len

/-- What the loop of `rpc_server` publishes for a message that it has read. -/
def reply (sys : System Client Server) (s : Server) (clone : Clone) (pool : Pool) :
    PublishInfo where
  property :=
    { reply_to := (sys.srv_consumer s).queue.routing_key
      app_id := byte_to_string pool clone.app_id
      correlation_id := byte_to_string pool clone.correlation_id
      expiration := expiration (sys.server s).ttl_expires }
  message :=
    { content_type := byte_to_string pool clone.content_type, body := ascii "Process ok" }
  delivery := { routing_key := byte_to_string pool clone.reply_to }

/-- The answer to a message that comes with these properties. There is none if the message cannot be
read, on which the server asserts, and none if `amqp_basic_publish` refuses it, on which
`die_on_error` ends the server. -/
def answer (sys : System Client Server) (s : Server) (original : HeadedProperties) :
    Option BasicPublish := do
  let (clone, pool) ← original.amqp_read_message
  let m ← publish (sys.srv_producer s) (reply sys s clone.toClone pool)
  amqp_basic_publish m

/-- The properties as the broker has them. -/
def sent (p : BasicProperties) : Properties where
  content_type := p.content_type.map Subtype.val
  app_id := p.app_id.map Subtype.val
  reply_to := p.reply_to.map Subtype.val
  correlation_id := p.correlation_id.map Subtype.val
  expiration := p.expiration.map Subtype.val
  message_id := p.message_id.map Subtype.val

/-- The server has read the strings that were sent, so it makes the same reply as the process that
takes its messages from the queues. -/
theorem reply_eq (h : p.CopyOf clone pool) {m : BasicPublish}
    (hm : m.properties = sent p.toBasicProperties) :
    reply sys s clone.toClone pool = Rpc.reply sys s m := by
  have happ : byte_to_string pool clone.app_id = text p.app_id := h.app_id.read
  have hcorr : byte_to_string pool clone.correlation_id = text p.correlation_id :=
    h.correlation_id.read
  have hct : byte_to_string pool clone.content_type = text p.content_type := h.content_type.read
  have hto : byte_to_string pool clone.reply_to = text p.reply_to := h.reply_to.read
  rw [reply, happ, hcorr, hct, hto, Rpc.reply, hm]
  rfl

/-- The strings of a message that come back in the answer. -/
def answered (p : BasicProperties) : List Bytes :=
  [text p.content_type, text p.correlation_id, text p.reply_to, text p.app_id]

theorem zero_notMem_expiration (ttl_expires : Int32) : 0 ∉ expiration ttl_expires := by
  rw [expiration]
  split
  · exact zero_notMem_decimal _
  · simp

theorem length_expiration (ttl_expires : Int32) : (expiration ttl_expires).length ≤ 10 := by
  rw [expiration]
  split
  · have hlt := ttl_expires.toInt_lt
    rw [length_decimal_le_iff (by decide)]
    omega
  · simp

/-- The published message answers the message with these properties. -/
structure Answers (sys : System Client Server) (s : Server) (p : BasicProperties)
    (m : BasicPublish) : Prop where
  app_id : m.properties.app_id = present (text p.app_id)
  correlation_id : m.properties.correlation_id = present (text p.correlation_id)
  content_type : m.properties.content_type = present (text p.content_type)
  routing_key : m.routing_key =
    if text p.reply_to = [] then (sys.server s).routing_key_response.val else text p.reply_to
  expiration : m.properties.expiration.isSome → 0 < (sys.server s).ttl_expires

/-- What the server builds from a message answers it. -/
theorem publish_answers (h : p.CopyOf clone pool)
    (hnul : ∀ b ∈ answered p.toBasicProperties, 0 ∉ b)
    (hkey : (sys.server s).routing_key_response.val ≠ []) :
    ∃ m, publish (sys.srv_producer s) (reply sys s clone.toClone pool) = some m ∧
      Answers sys s p.toBasicProperties m := by
  simp only [answered, List.forall_mem_cons, List.not_mem_nil, false_imp_iff, implies_true,
    and_true] at hnul
  obtain ⟨hct, hcorr, hto, happ⟩ := hnul
  have hexp := zero_notMem_expiration (sys.server s).ttl_expires
  have hpresent : (present (expiration (sys.server s).ttl_expires)).isSome →
      0 < (sys.server s).ttl_expires := by
    by_cases httl : 0 < (sys.server s).ttl_expires <;> simp [expiration, present, httl]
  have hkey' : (sys.srv_producer s).queue.routing_key ≠ [] := hkey
  have htext : ∀ b : Option ShortString,
      MessageBroker.byte_to_string (b.map Subtype.val) = text b := fun _ => rfl
  rw [reply_eq h (m := { (default : BasicPublish) with properties := sent p.toBasicProperties }) rfl,
    publish]
  simp only [Rpc.reply, sent, htext]
  by_cases hr : text p.reply_to = []
  · simp only [routingKey, hr, List.isEmpty_nil, if_true, List.isEmpty_iff, hkey', if_false]
    refine ⟨_, rfl, flagged_of_notMem happ, flagged_of_notMem hcorr, flagged_of_notMem hct, ?_, ?_⟩
    · rw [if_pos hr]
      exact cstr_val _
    · simpa [properties, flagged_of_notMem hexp] using hpresent
  · simp only [routingKey, List.isEmpty_iff, hr, if_false]
    refine ⟨_, rfl, flagged_of_notMem happ, flagged_of_notMem hcorr, flagged_of_notMem hct, ?_, ?_⟩
    · rw [if_neg hr]
      exact cstr_of_notMem hto
    · simpa [properties, flagged_of_notMem hexp] using hpresent

/-- The message can be read, and the answer has no string that is too long for its encoding. -/
structure Answerable (sys : System Client Server) (s : Server) (p : HeadedProperties) : Prop where
  headers : p.keyed
  exchange : sys.exchange_name.val.length ≤ 255
  request_key : (sys.server s).routing_key_request.val.length ≤ 255
  response_key : text p.reply_to = [] → (sys.server s).routing_key_response.val.length ≤ 255

theorem short_cstr_of_le {b : Bytes} (h : b.length ≤ 255) : short (cstr b) :=
  short_iff.mpr (Nat.le_trans (List.takeWhile_prefix _).length_le h)

theorem short_cstring_iff (b : CString) : short (cstr b.val) ↔ b.val.length ≤ 255 := by
  rw [cstr_val, short_iff]

/-- The strings of the message itself are short. -/
theorem short_reply_iff (sys : System Client Server) (s : Server) (h : p.CopyOf clone pool) :
    (carried (sys.srv_producer s) (reply sys s clone.toClone pool)).all (short ∘ cstr) ↔
      sys.exchange_name.val.length ≤ 255 ∧
      (sys.server s).routing_key_request.val.length ≤ 255 ∧
      (text p.reply_to = [] → (sys.server s).routing_key_response.val.length ≤ 255) := by
  have htext (b : Option ShortString) : short (cstr (text b)) := short_cstr_of_le (length_text b)
  have hexp : short (cstr (expiration (sys.server s).ttl_expires)) :=
    short_cstr_of_le (Nat.le_trans (length_expiration _) (by decide))
  have hread : reply sys s clone.toClone pool =
      { property :=
          { reply_to := (sys.server s).routing_key_request.val
            app_id := text p.app_id
            correlation_id := text p.correlation_id
            expiration := expiration (sys.server s).ttl_expires }
        message := { content_type := text p.content_type, body := ascii "Process ok" }
        delivery := { routing_key := text p.reply_to } } :=
    reply_eq h (m := { (default : BasicPublish) with properties := sent p.toBasicProperties }) rfl
  have hkey : short (cstr (routingKey (sys.srv_producer s) (reply sys s clone.toClone pool))) ↔
      (text p.reply_to = [] → (sys.server s).routing_key_response.val.length ≤ 255) := by
    rw [hread, routingKey_eq]
    by_cases hr : text p.reply_to = []
    · rw [if_pos hr]
      constructor
      · exact fun hshort _ => (short_cstring_iff _).mp hshort
      · exact fun hlen => (short_cstring_iff _).mpr (hlen hr)
    · rw [if_neg hr]
      exact iff_of_true (htext _) fun hnil => (hr hnil).elim
  have hnone : short (cstr []) := rfl
  rw [← hkey, ← short_cstring_iff, ← short_cstring_iff, List.all_eq_true]
  simp only [carried, hread, PublishInfo.strings, List.cons_append, List.nil_append,
    List.forall_mem_cons, Function.comp_apply, htext, hexp, hnone, List.not_mem_nil, false_imp_iff,
    implies_true, and_true, true_and]
  constructor
  · rintro ⟨hexchange, hrouting, hto⟩
    exact ⟨hexchange, hto, hrouting⟩
  · rintro ⟨hexchange, hto, hrouting⟩
    exact ⟨hexchange, hrouting, hto⟩

/-- The server answers a message exactly if it can be read and the keys are not too long; whatever
it publishes is the answer, and there always is a routing key. -/
theorem answer_answers (sys : System Client Server) (s : Server) (p : HeadedProperties)
    (hnul : ∀ b ∈ answered p.toBasicProperties, 0 ∉ b)
    (hkey : (sys.server s).routing_key_response.val ≠ []) :
    ((∃ m, answer sys s p = some m ∧ Answers sys s p.toBasicProperties m) ↔ Answerable sys s p) ∧
      (∀ m, answer sys s p = some m → Answers sys s p.toBasicProperties m) ∧
      ∀ clone pool, p.amqp_read_message = some (clone, pool) →
        routingKey (sys.srv_producer s) (reply sys s clone.toClone pool) ≠ [] := by
  rcases p.amqp_read_message_cases with ⟨hkeyed, clone, pool, hread, hcopy⟩ | ⟨hkeyed, hread⟩
  · obtain ⟨m, hpub, hanswers⟩ := publish_answers hcopy hnul hkey
    have haccept : answer sys s p = if (m.arguments ++ m.properties.strings).all short then some m
        else none := by
      rw [answer, hread]
      change (publish _ _).bind amqp_basic_publish = _
      rw [hpub]
      rfl
    have hshort := short_reply_iff sys s hcopy
    rw [← short_carried hpub] at hshort
    rw [haccept]
    refine ⟨?_, ?_, ?_⟩
    · constructor
      · rintro ⟨m', hm, -⟩
        obtain ⟨hexchange, hto, hresponse⟩ := hshort.mp (Option.ite_none_right_eq_some.mp hm).1
        exact ⟨hkeyed, hexchange, hto, hresponse⟩
      · rintro ⟨-, hexchange, hto, hresponse⟩
        exact ⟨m, if_pos (hshort.mpr ⟨hexchange, hto, hresponse⟩), hanswers⟩
    · intro m' hm
      obtain ⟨-, heq⟩ := Option.ite_none_right_eq_some.mp hm
      exact Option.some.inj heq ▸ hanswers
    · intro clone' pool' hread'
      rw [hread] at hread'
      cases hread'
      exact (publish_isSome_iff _ _).mp ⟨m, hpub⟩
  · have hnone : answer sys s p = none := by
      rw [answer, hread]
      rfl
    rw [hnone, hread]
    refine ⟨iff_of_false ?_ ?_, ?_, ?_⟩
    · rintro ⟨m, hm, -⟩
      cases hm
    · intro h
      rw [h.headers] at hkeyed
      cases hkeyed
    · intro m hm
      cases hm
    · intro clone pool hsome
      cases hsome

theorem length_routing_key {m : BasicPublish} (h : answer sys s p = some m) :
    m.routing_key.length ≤ 255 := by
  obtain ⟨⟨clone, pool⟩, -, h⟩ := Option.bind_eq_some_iff.mp h
  obtain ⟨m', -, h⟩ := Option.bind_eq_some_iff.mp h
  obtain ⟨hall, heq⟩ := Option.ite_none_right_eq_some.mp h
  obtain rfl := Option.some.inj heq
  exact short_iff.mp (List.all_eq_true.mp hall m'.routing_key (by simp [BasicPublish.arguments]))

/-- One client and one server, started without arguments. -/
def plainSystem : System Unit Unit where
  options := fun _ => {}
  getpid := fun _ => 1
  thread_id := fun _ => 1

/-- A message without reply key, application id and content type, with a header that is a table. -/
def tracedRequest : HeadedProperties where
  correlation_id := some (sequenceText 7).val
  headers := some [.mk (ascii "trace") (.table [.mk (ascii "span") (.bytes [0, 1])])]

theorem answer_answers_traced : ∃ m, answer plainSystem () tracedRequest = some m ∧
    Answers plainSystem () tracedRequest.toBasicProperties m :=
  (answer_answers plainSystem () tracedRequest (by decide) (by decide)).1.mpr
    ⟨by decide, by decide, by decide, by decide⟩

/-- A request whose only header has an empty key. -/
def namelessRequest : HeadedProperties where
  correlation_id := some (sequenceText 7).val
  headers := some [.mk [] .void]

/-- A server whose response key is too long to be encoded. -/
def longKeySystem : System Unit Unit where
  options := fun _ => { routing_key_response := ⟨List.replicate 256 65, by decide⟩ }
  getpid := fun _ => 1
  thread_id := fun _ => 1

theorem answer_nameless : answer plainSystem () namelessRequest = none := by
  rcases namelessRequest.amqp_read_message_cases with ⟨hkeyed, -⟩ | ⟨-, hread⟩
  · exact absurd hkeyed (by decide)
  · rw [answer, hread]
    rfl

/-- A request with a header that cannot be copied is not answered, nor is one whose answer goes to a
key that is too long. -/
theorem answer_refused :
    (¬ ∃ m, answer plainSystem () namelessRequest = some m ∧
      Answers plainSystem () namelessRequest.toBasicProperties m) ∧
    ¬ ∃ m, answer longKeySystem () { correlation_id := some (sequenceText 7).val } = some m ∧
      Answers longKeySystem () { correlation_id := some (sequenceText 7).val } m := by
  constructor
  · rintro ⟨m, hm, -⟩
    rw [answer_nameless] at hm
    cases hm
  · rintro ⟨m, hm, hanswers⟩
    have hkey : m.routing_key = List.replicate 256 65 := hanswers.routing_key
    have hlen := length_routing_key hm
    rw [hkey, List.length_replicate] at hlen
    omega

end RabbitClient.Answer
