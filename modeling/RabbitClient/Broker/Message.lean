import RabbitClient.Amqp.FieldTable

/-! What `libapp` asks of the broker: queue preparation and publication. -/
namespace RabbitClient.MessageBroker

open Bytes

structure ExchangeInfo where
  type : Bytes := []
  name : Bytes := []
  passive : Bool := false
  durable : Bool := false
  auto_delete : Bool := false
  internal : Bool := false
  arguments : Amqp.Table := []

structure QueueInfo where
  routing_key : Bytes := []
  queue_name : Bytes := []
  passive : Bool := false
  durable : Bool := false
  auto_delete : Bool := false
  exclusive : Bool := false
  arguments : Amqp.Table := []

structure ConsumerInfo where
  tag : Bytes := []
  no_local : Bool := false
  no_ack : Bool := false
  exclusive : Bool := false
  arguments : Amqp.Table := []

/-- `MessageBroker_Type`, less the connection parameters. -/
structure BrokerInfo where
  channel : UInt16 := 1
  exchange : ExchangeInfo := {}
  queue : QueueInfo := {}
  consumer : ConsumerInfo := {}

structure PublishProperty where
  delivery_mode : UInt8 := 2
  reply_to : Bytes := []
  app_id : Bytes := []
  correlation_id : Bytes := []
  expiration : Bytes := []
deriving DecidableEq

structure PublishMessage where
  message_id : Bytes := []
  content_type : Bytes := ascii "text/plain"
  body : Bytes := []
deriving DecidableEq

structure PublishDelivery where
  mandatory : Bool := false
  immediate : Bool := false
  routing_key : Bytes := []
deriving DecidableEq

/-- `MessagePublish_Type`. -/
structure PublishInfo where
  property : PublishProperty := {}
  message : PublishMessage := {}
  delivery : PublishDelivery := {}
deriving DecidableEq

/-- `amqp_basic_properties_t`; a property is present exactly if its flag is set. -/
structure Properties where
  delivery_mode : Option UInt8 := none
  content_type : Option Bytes := none
  app_id : Option Bytes := none
  reply_to : Option Bytes := none
  correlation_id : Option Bytes := none
  expiration : Option Bytes := none
  message_id : Option Bytes := none
deriving DecidableEq, Inhabited

/-- The arguments of `amqp_basic_publish`. -/
structure BasicPublish where
  channel : UInt16
  exchange : Bytes
  routing_key : Bytes
  mandatory : Bool
  immediate : Bool
  properties : Properties
  body : Bytes
deriving DecidableEq, Inhabited

/-- The strings of the method; they are encoded before those of the properties. -/
def BasicPublish.arguments (m : BasicPublish) : List Bytes := [m.exchange, m.routing_key]

def Properties.strings (p : Properties) : List Bytes :=
  [p.content_type, p.app_id, p.reply_to, p.correlation_id, p.expiration, p.message_id].flatMap
    Option.toList

/-- The length of a string is encoded in one byte; a method or a header with a longer one is refused
with `AMQP_STATUS_BAD_AMQP_DATA`. -/
def short (b : Bytes) : Bool := b.length ≤ 255

theorem short_iff {b : Bytes} : short b ↔ b.length ≤ 255 := decide_eq_true_iff

/-- `amqp_basic_publish` over a connection that takes what is written; `none` where it returns an
error. -/
def amqp_basic_publish (m : BasicPublish) : Option BasicPublish :=
  if (m.arguments ++ m.properties.strings).all short then some m else none

/-- The name and the flags of an `amqp_queue_declare`; without a name the broker makes one up. -/
structure QueueDeclare where
  channel : UInt16
  queue : Bytes
  passive : Bool
  durable : Bool
  exclusive : Bool
  auto_delete : Bool
deriving DecidableEq

/-- `MessageBrokerBase::prepare`: the flags of the info only count for a named queue. -/
def prepare (info_ : BrokerInfo) : QueueDeclare :=
  if info_.queue.queue_name.isEmpty then
    { channel := info_.channel, queue := [], passive := false, durable := false,
      exclusive := true, auto_delete := false }
  else
    { channel := info_.channel, queue := cstr info_.queue.queue_name,
      passive := info_.queue.passive, durable := info_.queue.durable,
      exclusive := info_.queue.exclusive, auto_delete := info_.queue.auto_delete }

/-- The key `MessageBrokerBase::prepare_consumer` binds the queue with. -/
def bindingKey (info_ : BrokerInfo) : Bytes := cstr info_.queue.routing_key

/-- A property is flagged if its string is not empty, and passed on as a C string. -/
def flagged (s : Bytes) : Option Bytes := if s.isEmpty then none else some (cstr s)

/-- `byte_to_string`; an absent property has length 0. -/
def byte_to_string (byte : Option Bytes) : Bytes := byte.getD []

def properties (info : PublishInfo) : Properties where
  delivery_mode := some info.property.delivery_mode
  content_type := flagged info.message.content_type
  app_id := flagged info.property.app_id
  reply_to := flagged info.property.reply_to
  correlation_id := flagged info.property.correlation_id
  expiration := flagged info.property.expiration
  message_id := flagged info.message.message_id

def routingKey (info_ : BrokerInfo) (info : PublishInfo) : Bytes :=
  if info.delivery.routing_key.isEmpty then info_.queue.routing_key
  else info.delivery.routing_key

/-- What `MessageBrokerProducer::publish` hands to `amqp_basic_publish`; `none` where the assertion on
the routing key fails. -/
def publish (info_ : BrokerInfo) (info : PublishInfo) : Option BasicPublish :=
  if (routingKey info_ info).isEmpty then none
  else some
    { channel := info_.channel, exchange := cstr info_.exchange.name,
      routing_key := cstr (routingKey info_ info), mandatory := info.delivery.mandatory,
      immediate := info.delivery.immediate, properties := properties info,
      body := cstr info.message.body }

theorem publish_eq_some {info_ : BrokerInfo} {info : PublishInfo} {m : BasicPublish}
    (h : publish info_ info = some m) :
    m.properties = properties info ∧ m.routing_key = cstr (routingKey info_ info) := by
  simp only [publish, Option.ite_none_left_eq_some] at h
  obtain ⟨-, h⟩ := h
  cases h
  exact ⟨rfl, rfl⟩

theorem flagged_of_ne_nil {s : Bytes} (h : s ≠ []) : flagged s = some (cstr s) := by
  simp [flagged, h]

end RabbitClient.MessageBroker
