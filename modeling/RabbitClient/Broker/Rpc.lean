import RabbitClient.Broker.Message
import RabbitClient.Library.Broker
import RabbitClient.Library.Lts

/-!
The processes `rpc_client` and `rpc_server` around one exchange that routes by exact key.
Each read, acknowledgement and publication is a step of its own, as is each action of the
broker; between any two of them the other processes run and any process may stop.
-/
namespace RabbitClient.Rpc

open Bytes MessageBroker

namespace Defaults

def routing_key_request : CString := ⟨ascii "task_request", by decide⟩

def routing_key_response : CString := ⟨ascii "task_response", by decide⟩

def consumerQueueName : CString := ⟨[], by decide⟩

def exchange_type : CString := ⟨ascii "topic", by decide⟩

def exchange_name : CString := ⟨ascii "business", by decide⟩

end Defaults

/-- The command line options of either program. -/
structure Options where
  routing_key_request : CString := Defaults.routing_key_request
  routing_key_response : CString := Defaults.routing_key_response
  consumerQueueName : CString := Defaults.consumerQueueName
  ttl_expires : Int32 := 0

inductive Process (Client Server : Type) where
  | client (c : Client)
  | server (s : Server)
deriving DecidableEq

/-- The processes of one run; they declare the same durable exchange. -/
structure System (Client Server : Type) where
  options : Process Client Server → Options
  getpid : Client → Nat
  thread_id : Client → Nat
  exchange_type : CString := Defaults.exchange_type
  exchange_name : CString := Defaults.exchange_name

variable {Client Server : Type}

namespace System
variable (sys : System Client Server)

def client (c : Client) : Options := sys.options (.client c)
def server (s : Server) : Options := sys.options (.server s)

/-- The client writes its process and thread twice when its queue has no name. -/
def ssAppID (c : Client) : Bytes :=
  let self := ascii "rpc-client." ++ decimal (sys.getpid c) ++ ascii "-" ++
    decimal (sys.thread_id c)
  if (sys.client c).consumerQueueName.val.isEmpty then self ++ self
  else self ++ (sys.client c).consumerQueueName.val

def exchange : ExchangeInfo :=
  { type := sys.exchange_type.val, name := sys.exchange_name.val, durable := true }

def cli_consumer (c : Client) : BrokerInfo where
  exchange := sys.exchange
  queue :=
    { routing_key := (sys.client c).routing_key_response.val,
      queue_name := (sys.client c).consumerQueueName.val, durable := true }
  consumer := { tag := sys.ssAppID c }

def cli_producer (c : Client) : BrokerInfo where
  exchange := sys.exchange
  queue := { routing_key := (sys.client c).routing_key_request.val }

def srv_consumer (s : Server) : BrokerInfo where
  exchange := sys.exchange
  queue :=
    { routing_key := (sys.server s).routing_key_request.val,
      queue_name := (sys.server s).consumerQueueName.val, durable := true }
  consumer :=
    { tag := if (sys.server s).consumerQueueName.val.isEmpty then ascii "rpc-server.1"
        else (sys.server s).consumerQueueName.val }

def srv_producer (s : Server) : BrokerInfo where
  exchange := sys.exchange
  queue :=
    { routing_key := (sys.server s).routing_key_response.val,
      queue_name := (sys.server s).consumerQueueName.val, durable := true }

def consumer : Process Client Server → BrokerInfo
  | .client c => sys.cli_consumer c
  | .server s => sys.srv_consumer s

end System

def expiration (ttl_expires : Int32) : Bytes :=
  if 0 < ttl_expires then decimal ttl_expires.toInt.toNat else []

/-- What a client publishes for the given value of `sequence`. -/
def request (sys : System Client Server) (c : Client) (sequence : UInt64) : PublishInfo where
  property :=
    { reply_to := (sys.client c).routing_key_response.val, app_id := sys.ssAppID c,
      correlation_id := decimal sequence.toNat,
      expiration := expiration (sys.client c).ttl_expires }
  message := { content_type := ascii "text/plain", body := ascii "Consumer producer new message" }

/-- What a server publishes for the message it has read. -/
def reply (sys : System Client Server) (s : Server) (m : BasicPublish) : PublishInfo where
  property :=
    { reply_to := (sys.srv_consumer s).queue.routing_key,
      app_id := byte_to_string m.properties.app_id,
      correlation_id := byte_to_string m.properties.correlation_id,
      expiration := expiration (sys.server s).ttl_expires }
  message := { content_type := byte_to_string m.properties.content_type, body := ascii "Process ok" }
  delivery := { routing_key := byte_to_string m.properties.reply_to }

/-- `!strcmp(s, bytes)`; the bytes of an absent or empty property are a null pointer. -/
def sameString (s : Bytes) : Option Bytes → Option Bool
  | none => none
  | some [] => none
  | some b => some (cstr s = cstr b)

/-- The comparison in `wait_for_message`; `none` where it is handed a null pointer. The strings are
compared as such here; `AmqpPool.wait_for_message` compares them where they lie in memory. -/
def found (app_id correlation_id : Bytes) (p : Properties) : Option Bool :=
  match sameString app_id p.app_id with
  | some true => sameString correlation_id p.correlation_id
  | r => r

/-- Who made a message. It decides nothing; the programs cannot see it. -/
inductive Origin (Client Server : Type) where
  /-- The `k`-th request of a client. -/
  | request (c : Client) (k : Nat)
  | reply (s : Server) (request : Origin Client Server)
  /-- The `n`-th message of a program that is neither `rpc_client` nor `rpc_server`. -/
  | foreign (n : Nat)
deriving DecidableEq

structure Envelope (Client Server : Type) where
  origin : Origin Client Server
  message : BasicPublish
deriving DecidableEq

/-- The `k`-th request of a client, and the reply a server builds from a message. -/
def System.requestOf (sys : System Client Server) (c : Client) (k : Nat) :
    Envelope Client Server :=
  ⟨.request c k, (publish (sys.cli_producer c) (request sys c (UInt64.ofNat k))).getD default⟩

def System.replyOf (sys : System Client Server) (v : Server) (e : Envelope Client Server) :
    Envelope Client Server :=
  ⟨.reply v e.origin, (publish (sys.srv_producer v) (reply sys v e.message)).getD default⟩

/-- A queue without a name belongs to the connection that declared it. -/
inductive QueueId (Client Server : Type) where
  | named (name : Bytes)
  | anonymous (p : Process Client Server)
deriving DecidableEq

def System.queueOf (sys : System Client Server) (p : Process Client Server) :
    QueueId Client Server :=
  let declared := prepare (sys.consumer p)
  if declared.exclusive then .anonymous p else .named declared.queue

/-- Where a process is in its loop. A client handles a message by comparing it, a server by
publishing its reply; a process that stops before that leaves the message unhandled. -/
inductive PC (Client Server : Type) where
  | closed
  | publish
  | read
  | ack (wrapper : Envelope Client Server)
  | handle (wrapper : Envelope Client Server)
  | stopped (unhandled : Option (Envelope Client Server))
deriving DecidableEq

def PC.running : PC Client Server → Bool
  | .closed | .stopped _ => false
  | _ => true

/-- What a process that stops here has acknowledged and not handled. -/
def PC.unhandled : PC Client Server → Option (Envelope Client Server)
  | .handle e => some e
  | .stopped u => u
  | _ => none

/-- The first position of the loop once the connections are open. -/
def start : Process Client Server → PC Client Server
  | .client _ => .publish
  | .server _ => .read

structure State (Client Server : Type) where
  broker : Broker (QueueId Client Server) Bytes (Process Client Server) (Envelope Client Server)
  pc : Process Client Server → PC Client Server
  sequence : Client → UInt64
  /-- The requests a client has published; unlike `sequence` it does not wrap. -/
  requests : Client → Nat
  foreigners : Nat

def initial : State Client Server where
  broker := Broker.empty
  pc := fun _ => .closed
  sequence := fun _ => 0
  requests := fun _ => 0
  foreigners := 0

inductive Action (Client Server : Type) where
  | opened (p : Process Client Server)
  | request (c : Client) (e : Envelope Client Server)
  | foreign (e : Envelope Client Server)
  | deliver (p : Process Client Server) (e : Envelope Client Server)
  | read (p : Process Client Server) (e : Envelope Client Server)
  | ack (p : Process Client Server) (e : Envelope Client Server)
  | skip (c : Client) (e : Envelope Client Server)
  | accept (c : Client) (e : Envelope Client Server)
  | reply (s : Server) (e answer : Envelope Client Server)
  | expire (q : QueueId Client Server) (e : Envelope Client Server)
  | stop (p : Process Client Server)
deriving DecidableEq

namespace State
variable [DecidableEq Client] [DecidableEq Server] (s : State Client Server)

def setPC (p : Process Client Server) (x : PC Client Server) : State Client Server :=
  { s with pc := Function.update s.pc p x }

/-- The exchange hands a copy to every queue bound to the key of the message. -/
def route (e : Envelope Client Server) : State Client Server :=
  { s with broker := s.broker.publish e.message.routing_key e }

/-- `MessageBrokerConsumer::open`, after which the loop begins. -/
def opened (sys : System Client Server) (p : Process Client Server) : State Client Server :=
  { s.setPC p (start p) with
    broker := s.broker.bind (sys.queueOf p) (bindingKey (sys.consumer p)) }

/-- `++sequence` and the publication of the request. -/
def requested (c : Client) (e : Envelope Client Server) : State Client Server :=
  { (s.setPC (.client c) .read).route e with
    sequence := Function.update s.sequence c (s.sequence c + 1)
    requests := Function.update s.requests c (s.requests c + 1) }

/-- A durable queue keeps what a lost consumer held; an exclusive queue goes with it. -/
def disconnected (sys : System Client Server) (p : Process Client Server) :
    State Client Server :=
  { s.setPC p (.stopped (s.pc p).unhandled) with
    broker :=
      match sys.queueOf p with
      | .named name => s.broker.requeue (.named name) p
      | .anonymous r => s.broker.delete (.anonymous r) }

end State

variable [DecidableEq Client] [DecidableEq Server]

/-- Interleaving of the two loops, of other publishers, and of the broker. A failed assertion,
a null pointer or a failed broker call ends a process as any other stop does. -/
inductive Step (sys : System Client Server) :
    State Client Server → Action Client Server → State Client Server → Prop where
  | opened {s : State Client Server} {p : Process Client Server} (hp : s.pc p = .closed) :
      Step sys s (.opened p) (s.opened sys p)
  | request {s : State Client Server} {c : Client} {m : BasicPublish}
      (hp : s.pc (.client c) = .publish)
      (hm : publish (sys.cli_producer c) (request sys c (s.sequence c + 1)) = some m) :
      Step sys s (.request c ⟨.request c (s.requests c + 1), m⟩)
        (s.requested c ⟨.request c (s.requests c + 1), m⟩)
  | foreign {s : State Client Server} {m : BasicPublish} :
      Step sys s (.foreign ⟨.foreign s.foreigners, m⟩)
        { s.route ⟨.foreign s.foreigners, m⟩ with foreigners := s.foreigners + 1 }
  | deliver {s : State Client Server} {p : Process Client Server} {e : Envelope Client Server}
      (hp : (s.pc p).running) (he : e ∈ s.broker.ready (sys.queueOf p)) :
      Step sys s (.deliver p e) { s with broker := s.broker.deliver (sys.queueOf p) p e }
  | read {s : State Client Server} {p : Process Client Server} {e : Envelope Client Server}
      (hp : s.pc p = .read) (he : (p, e) ∈ s.broker.unacked (sys.queueOf p)) :
      Step sys s (.read p e) (s.setPC p (.ack e))
  | ack {s : State Client Server} {p : Process Client Server} {e : Envelope Client Server}
      (hp : s.pc p = .ack e) :
      Step sys s (.ack p e)
        { s.setPC p (.handle e) with broker := s.broker.ack (sys.queueOf p) p e }
  | skip {s : State Client Server} {c : Client} {e : Envelope Client Server}
      (hp : s.pc (.client c) = .handle e)
      (hf : found (sys.ssAppID c) (decimal (s.sequence c).toNat) e.message.properties =
        some false) :
      Step sys s (.skip c e) (s.setPC (.client c) .read)
  | accept {s : State Client Server} {c : Client} {e : Envelope Client Server}
      (hp : s.pc (.client c) = .handle e)
      (hf : found (sys.ssAppID c) (decimal (s.sequence c).toNat) e.message.properties =
        some true) :
      Step sys s (.accept c e) (s.setPC (.client c) .publish)
  | reply {s : State Client Server} {v : Server} {e : Envelope Client Server} {m : BasicPublish}
      (hp : s.pc (.server v) = .handle e)
      (hm : publish (sys.srv_producer v) (reply sys v e.message) = some m) :
      Step sys s (.reply v e ⟨.reply v e.origin, m⟩)
        ((s.setPC (.server v) .read).route ⟨.reply v e.origin, m⟩)
  | expire {s : State Client Server} {q : QueueId Client Server} {e : Envelope Client Server}
      (he : e ∈ s.broker.ready q) (hx : e.message.properties.expiration.isSome) :
      Step sys s (.expire q e) { s with broker := s.broker.expire q e }
  | stop {s : State Client Server} {p : Process Client Server} (hp : (s.pc p).running) :
      Step sys s (.stop p) (s.disconnected sys p)

/-- The interleaving as a function of the chosen action, published messages included. -/
def exec (sys : System Client Server) (s : State Client Server) :
    Action Client Server → Option (State Client Server)
  | .opened p => if s.pc p = .closed then some (s.opened sys p) else none
  | .request c e =>
    if s.pc (.client c) = .publish ∧ e.origin = .request c (s.requests c + 1) ∧
        publish (sys.cli_producer c) (request sys c (s.sequence c + 1)) = some e.message then
      some (s.requested c e)
    else none
  | .foreign e =>
    if e.origin = .foreign s.foreigners then
      some { s.route e with foreigners := s.foreigners + 1 }
    else none
  | .deliver p e =>
    if (s.pc p).running ∧ e ∈ s.broker.ready (sys.queueOf p) then
      some { s with broker := s.broker.deliver (sys.queueOf p) p e }
    else none
  | .read p e =>
    if s.pc p = .read ∧ (p, e) ∈ s.broker.unacked (sys.queueOf p) then some (s.setPC p (.ack e))
    else none
  | .ack p e =>
    if s.pc p = .ack e then
      some { s.setPC p (.handle e) with broker := s.broker.ack (sys.queueOf p) p e }
    else none
  | .skip c e =>
    if s.pc (.client c) = .handle e ∧ found (sys.ssAppID c) (decimal (s.sequence c).toNat)
        e.message.properties = some false then
      some (s.setPC (.client c) .read)
    else none
  | .accept c e =>
    if s.pc (.client c) = .handle e ∧ found (sys.ssAppID c) (decimal (s.sequence c).toNat)
        e.message.properties = some true then
      some (s.setPC (.client c) .publish)
    else none
  | .reply v e answer =>
    if s.pc (.server v) = .handle e ∧ answer.origin = .reply v e.origin ∧
        publish (sys.srv_producer v) (reply sys v e.message) = some answer.message then
      some ((s.setPC (.server v) .read).route answer)
    else none
  | .expire q e =>
    if e ∈ s.broker.ready q ∧ e.message.properties.expiration.isSome then
      some { s with broker := s.broker.expire q e }
    else none
  | .stop p => if (s.pc p).running then some (s.disconnected sys p) else none

theorem of_guarded {α : Type*} {p : Prop} [Decidable p] {x t : α}
    (h : (if p then some x else none) = some t) : p ∧ x = t := by
  simpa using h

theorem step_of_exec (sys : System Client Server) (s : State Client Server)
    (a : Action Client Server) (t : State Client Server) (h : exec sys s a = some t) :
    Step sys s a t := by
  cases a with
  | opened p =>
    obtain ⟨hp, rfl⟩ := of_guarded h
    exact .opened hp
  | request c e =>
    obtain ⟨o, m⟩ := e
    obtain ⟨⟨hp, rfl, hm⟩, rfl⟩ := of_guarded h
    exact .request hp hm
  | foreign e =>
    obtain ⟨o, m⟩ := e
    obtain ⟨rfl, rfl⟩ := of_guarded h
    exact .foreign
  | deliver p e =>
    obtain ⟨⟨hp, he⟩, rfl⟩ := of_guarded h
    exact .deliver hp he
  | read p e =>
    obtain ⟨⟨hp, he⟩, rfl⟩ := of_guarded h
    exact .read hp he
  | ack p e =>
    obtain ⟨hp, rfl⟩ := of_guarded h
    exact .ack hp
  | skip c e =>
    obtain ⟨⟨hp, hf⟩, rfl⟩ := of_guarded h
    exact .skip hp hf
  | accept c e =>
    obtain ⟨⟨hp, hf⟩, rfl⟩ := of_guarded h
    exact .accept hp hf
  | reply v e answer =>
    obtain ⟨o, m⟩ := answer
    obtain ⟨⟨hp, rfl, hm⟩, rfl⟩ := of_guarded h
    exact .reply hp hm
  | expire q e =>
    obtain ⟨⟨he, hx⟩, rfl⟩ := of_guarded h
    exact .expire he hx
  | stop p =>
    obtain ⟨hp, rfl⟩ := of_guarded h
    exact .stop hp

end RabbitClient.Rpc
