import RabbitClient.Broker.Message

/-! What `MessageBrokerProducer::publish` hands to the client library, and what is lost there. -/
namespace RabbitClient.MessageBroker

open Bytes

variable {info_ : BrokerInfo} {info : PublishInfo} {s : Bytes} {m : BasicPublish}

/-- The strings that become properties. -/
def PublishInfo.strings (info : PublishInfo) : List Bytes :=
  [info.message.content_type, info.property.app_id, info.property.reply_to,
    info.property.correlation_id, info.property.expiration, info.message.message_id]

/-- A string as a property, absent if it is empty. -/
def present (s : Bytes) : Option Bytes := if s = [] then none else some s

theorem flagged_of_notMem (h : 0 ∉ s) : flagged s = present s := by
  by_cases hs : s = []
  · simp [flagged, present, hs]
  · rw [flagged_of_ne_nil hs, cstr_of_notMem h, present, if_neg hs]

theorem properties_of_notMem (h : ∀ s ∈ info.strings, 0 ∉ s) :
    properties info =
      { delivery_mode := some info.property.delivery_mode
        content_type := present info.message.content_type
        app_id := present info.property.app_id
        reply_to := present info.property.reply_to
        correlation_id := present info.property.correlation_id
        expiration := present info.property.expiration
        message_id := present info.message.message_id } := by
  have hflag : ∀ s ∈ info.strings, flagged s = present s := fun s hs => flagged_of_notMem (h s hs)
  simp only [PublishInfo.strings, List.forall_mem_cons, List.not_mem_nil, false_imp_iff,
    implies_true, and_true] at hflag
  obtain ⟨hct, happ, hto, hcor, hexp, hid⟩ := hflag
  simp only [properties, hct, happ, hto, hcor, hexp, hid]

/-- The call carries what was given to `publish`. -/
structure Unchanged (info_ : BrokerInfo) (info : PublishInfo) (m : BasicPublish) : Prop where
  delivery_mode : m.properties.delivery_mode = some info.property.delivery_mode
  content_type : m.properties.content_type = present info.message.content_type
  app_id : m.properties.app_id = present info.property.app_id
  reply_to : m.properties.reply_to = present info.property.reply_to
  correlation_id : m.properties.correlation_id = present info.property.correlation_id
  expiration : m.properties.expiration = present info.property.expiration
  message_id : m.properties.message_id = present info.message.message_id
  routing_key : m.routing_key =
    if info.delivery.routing_key = [] then info_.queue.routing_key else info.delivery.routing_key
  body : m.body = info.message.body

/-- The strings of a publication that are encoded with their length in one byte. -/
def carried (info_ : BrokerInfo) (info : PublishInfo) : List Bytes :=
  [info_.exchange.name, routingKey info_ info] ++ info.strings

theorem short_flagged : ((flagged s).toList.all short) = short (cstr s) := by
  by_cases hs : s = []
  · subst s
    rfl
  · simp [flagged_of_ne_nil hs]

/-- What is handed to `amqp_basic_publish` is accepted there if its strings are short enough. -/
theorem short_carried (h : publish info_ info = some m) :
    (m.arguments ++ m.properties.strings).all short = (carried info_ info).all (short ∘ cstr) := by
  simp only [publish, Option.ite_none_left_eq_some] at h
  obtain ⟨-, h⟩ := h
  cases h
  simp [BasicPublish.arguments, Properties.strings, properties, short_flagged, carried,
    PublishInfo.strings]

theorem cstr_eq_self_iff : cstr s = s ↔ 0 ∉ s :=
  ⟨fun h => h ▸ notMem_cstr s, cstr_of_notMem⟩

theorem routingKey_eq (info_ : BrokerInfo) (info : PublishInfo) : routingKey info_ info =
    if info.delivery.routing_key = [] then info_.queue.routing_key
    else info.delivery.routing_key := by
  simp [routingKey]

theorem publish_isSome_iff (info_ : BrokerInfo) (info : PublishInfo) :
    (∃ m, publish info_ info = some m) ↔ routingKey info_ info ≠ [] := by
  by_cases hr : routingKey info_ info = [] <;> simp [publish, hr]

/-- The body and the routing key arrive as they are exactly if they have no NUL; everything
else arrives in any case. -/
theorem publish_unchanged_iff (hkey : routingKey info_ info ≠ [])
    (hnul : ∀ s ∈ info.strings, 0 ∉ s) :
    (∃ m, publish info_ info = some m ∧ Unchanged info_ info m) ↔
      0 ∉ info.message.body ∧ 0 ∉ routingKey info_ info := by
  have hpub : publish info_ info = some
      { channel := info_.channel, exchange := cstr info_.exchange.name,
        routing_key := cstr (routingKey info_ info), mandatory := info.delivery.mandatory,
        immediate := info.delivery.immediate, properties := properties info,
        body := cstr info.message.body } := by
    simp [publish, hkey]
  constructor
  · rintro ⟨m, hm, hu⟩
    rw [hpub] at hm
    obtain rfl := Option.some.inj hm
    refine ⟨cstr_eq_self_iff.mp hu.body, cstr_eq_self_iff.mp ?_⟩
    exact hu.routing_key.trans (routingKey_eq info_ info).symm
  · rintro ⟨hbody, hr⟩
    refine ⟨_, hpub, ?_⟩
    rw [properties_of_notMem hnul, cstr_of_notMem hbody, cstr_of_notMem hr]
    exact ⟨rfl, rfl, rfl, rfl, rfl, rfl, rfl, routingKey_eq info_ info, rfl⟩

/-- A message with a correlation id only and a binary body, to the key of the queue. -/
def plainPublication (body : Bytes) : PublishInfo where
  property := { correlation_id := ascii "7" }
  message := { content_type := [], body := body }

def plainBroker : BrokerInfo where
  queue := { routing_key := ascii "task" }

theorem publish_unchanged_iff_binary :
    ∃ m, publish plainBroker (plainPublication [255, 1]) = some m ∧
      Unchanged plainBroker (plainPublication [255, 1]) m :=
  (publish_unchanged_iff (by decide) (by decide)).mpr ⟨by decide, by decide⟩

/-- A body with a NUL in it arrives cut off. -/
theorem publish_cut_off :
    ¬ ∃ m, publish plainBroker (plainPublication [65, 0, 66]) = some m ∧
      Unchanged plainBroker (plainPublication [65, 0, 66]) m := by
  rintro ⟨m, hm, hu⟩
  have hbody : (publish plainBroker (plainPublication [65, 0, 66])).map BasicPublish.body =
      some [65] := by decide
  rw [hm, Option.map_some, Option.some_inj, hu.body] at hbody
  contradiction

end RabbitClient.MessageBroker
