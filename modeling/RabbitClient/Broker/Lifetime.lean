import RabbitClient.Broker.Declaration
import RabbitClient.Broker.Publication

/-!
One consumer or producer and the connection states it makes, from its first `open` to its
destructor. The broker lets it log in and answers every method that is sent to it on an open channel.
-/
namespace RabbitClient.BrokerObject

open Bytes MessageBroker

/-- The socket of a connection state: `open` throws `MessageBrokerCreateSocketException` if it is
missing and `MessageBrokerOpenSocketException` if it stays closed. -/
inductive Socket where
  | missing
  | closed
  | opened
deriving DecidableEq

/-- `amqp_connection_state_t`; every one made has an id of its own. -/
structure Connection where
  id : Nat
  socket : Socket
deriving DecidableEq

inductive Method where
  | exchange_declare
  | queue_declare
  | queue_bind
  | basic_consume
  | basic_publish
  | basic_ack
deriving DecidableEq

/-- What the client library is asked for. The methods of the connection itself go over channel 0. -/
inductive Event where
  | new_connection (c : Nat)
  | channel_open (c : Nat) (channel : UInt16)
  | method (c : Nat) (channel : UInt16) (m : Method)
  | channel_close (c : Nat) (channel : UInt16)
  | connection_close (c : Nat)
  | destroy_connection (c : Nat)
deriving DecidableEq

inductive Kind where
  | consumer
  | producer
deriving DecidableEq

inductive Call where
  | publish (info : PublishInfo)
  | read
  | ack_message
deriving DecidableEq

structure State where
  conn_ : Option Connection := none
  /-- The connection whose socket was kept. -/
  socket_ : Option Nat := none
  info_ : BrokerInfo := {}
  /-- The number of connection states made so far. -/
  made : Nat := 0
  log : List Event := []

/-- What the broker contributes to a run. -/
structure Peer where
  /-- It answers a close of channel 1 when that is not open. -/
  lenient : Bool
  /-- The size of the frames that the login leads to; AMQP knows none below 4096. -/
  frame_max : Nat
  large : 4096 ≤ frame_max
  /-- The name it makes up for a queue that is declared without one. -/
  queue_name : (connection : Nat) → { b : Bytes // short b }

/-- `info_.queue.queue_name` once the queue is declared. -/
def Peer.queuename (peer : Peer) (c : Nat) (info_ : BrokerInfo) : Bytes :=
  cstr (if info_.queue.queue_name.isEmpty then (peer.queue_name c).val
    else info_.queue.queue_name)

namespace State
variable (s : State) (peer : Peer)

/-- `MessageBrokerBase::open_socket`; it only keeps a socket that is open. -/
def open_socket (socket : Socket) : State :=
  let s' := { s with
    conn_ := some ⟨s.made, socket⟩
    made := s.made + 1
    log := s.log ++ [.new_connection s.made] }
  match socket with
  | .opened =>
    { s' with socket_ := some s.made, log := s'.log ++ [.channel_open s.made s.info_.channel] }
  | _ => s'

/-- A method is sent if it can be encoded. -/
def send (c : Nat) (m : Method) (encoded : Bool) : Except (List Event) State :=
  if encoded then .ok { s with log := s.log ++ [.method c s.info_.channel m] }
  else .error s.log

def exchange_declare (c : Nat) : Except (List Event) State :=
  s.send c .exchange_declare (fits peer.frame_max s.info_.channel (exchangeDeclare s.info_))

def prepare (c : Nat) : Except (List Event) State :=
  s.send c .queue_declare (fits peer.frame_max s.info_.channel (queueDeclare s.info_))

/-- The outcome of `amqp_queue_bind` is not looked at. -/
def prepare_consumer (c : Nat) : Except (List Event) State :=
  let queuename := peer.queuename c s.info_
  let bound := s.send c .queue_bind
    (fits peer.frame_max s.info_.channel (queueBind s.info_ queuename))
  (bound.toOption.getD s).send c .basic_consume
    (fits peer.frame_max s.info_.channel (basicConsume s.info_ queuename))

/-- `MessageBrokerConsumer::open` and `MessageBrokerProducer::open`; where a declaration fails,
`die_on_amqp_error` ends the process. -/
def opened (kind : Kind) (info : BrokerInfo) (socket : Socket) : Except (List Event) State :=
  let s' := { s with info_ := info }.open_socket socket
  match socket, kind with
  | .opened, .producer => s'.exchange_declare peer s.made
  | .opened, .consumer => do
    let s' ← s'.exchange_declare peer s.made
    let s' ← s'.prepare peer s.made
    s'.prepare_consumer peer s.made
  | _, _ => .ok s'

/-- A call either goes on with a new state or ends the process, which leaves its log: a null
connection, a missing socket and an empty routing key run into an assertion, and a publication that
is refused, or goes over a closed socket, into `die_on_error`. -/
def call : Call → Except (List Event) State
  | .publish info =>
    match s.conn_, publish s.info_ info with
    | some ⟨c, .opened⟩, some m => do
      let s' ← s.send c .basic_publish (fits peer.frame_max m.channel m.method)
      if m.properties.strings.all short then .ok s' else .error s'.log
    | _, _ => .error s.log
  | .read =>
    match s.conn_ with
    | some ⟨_, .opened⟩ | some ⟨_, .closed⟩ => .ok s
    | _ => .error s.log
  | .ack_message =>
    match s.conn_ with
    | some ⟨c, .opened⟩ => .ok { s with log := s.log ++ [.method c s.info_.channel .basic_ack] }
    | some ⟨_, .closed⟩ => .ok s
    | _ => .error s.log

/-- The first half of the destructor. Whether the broker answers it when channel 1 is not open is up
to the broker; if it does not, `die_on_amqp_error` ends the process. -/
def close : Except (List Event) State :=
  match s.conn_ with
  | some ⟨c, .opened⟩ =>
    if peer.lenient ∨ .channel_open c 1 ∈ s.log then
      .ok { s with log := s.log ++ [.channel_close c 1, .connection_close c] }
    else .error (s.log ++ [.channel_close c 1])
  | _ => .error s.log

/-- `MessageBrokerBase::~MessageBrokerBase`. -/
def destruct : Except (List Event) State := do
  let s' ← if s.socket_.isSome then s.close peer else .ok s
  match s'.conn_ with
  | some c =>
    return { s' with
      conn_ := none, socket_ := none, log := s'.log ++ [.destroy_connection c.id] }
  | none => return { s' with socket_ := none }

end State

/-- The attempts to open one object, caught if they throw. -/
def attempted (kind : Kind) (peer : Peer) (attempts : List (BrokerInfo × Socket)) :
    Except (List Event) State :=
  attempts.foldlM (fun s a => s.opened peer kind a.1 a.2) {}

/-- The whole life of one object. -/
def run (kind : Kind) (peer : Peer) (attempts : List (BrokerInfo × Socket)) (calls : List Call) :
    Except (List Event) State := do
  let s ← attempted kind peer attempts
  let s ← calls.foldlM (State.call · peer) s
  s.destruct peer

/-- What is in the log when the object or the process is gone. -/
def trace (kind : Kind) (peer : Peer) (attempts : List (BrokerInfo × Socket))
    (calls : List Call) : List Event :=
  match run kind peer attempts calls with
  | .ok s => s.log
  | .error log => log

/-- Everything that `open` declares on the connection `c` can be declared. -/
def Openable (peer : Peer) (c : Nat) (info : BrokerInfo) : Kind → Prop
  | .producer => Declarable peer.frame_max [cstr info.exchange.name, cstr info.exchange.type]
      info.exchange.arguments
  | .consumer => Declarable peer.frame_max [cstr info.exchange.name, cstr info.exchange.type]
        info.exchange.arguments ∧
      Declarable peer.frame_max [cstr info.queue.queue_name] info.queue.arguments ∧
      Declarable peer.frame_max [peer.queuename c info, cstr info.consumer.tag]
        info.consumer.arguments

/-- A call that does not end the process after a single attempt to open. -/
def Usable (info_ : BrokerInfo) : Socket → Call → Prop
  | .opened, .publish info =>
    routingKey info_ info ≠ [] ∧ ∀ b ∈ carried info_ info, short (cstr b)
  | .opened, _ => True
  | .closed, .publish _ => False
  | .closed, _ => True
  | .missing, _ => False

variable {s t : State} {kind : Kind} {peer : Peer} {x : Call} {calls : List Call}
  {ms log : List Event}

/-- These events are methods on the open connection of the object. -/
def OverChannel (s : State) (ms : List Event) : Prop :=
  ∀ e ∈ ms, ∃ c m, s.conn_ = some ⟨c, .opened⟩ ∧ e = .method c s.info_.channel m

theorem OverChannel.nil (s : State) : OverChannel s [] := by
  intro e he
  contradiction

theorem OverChannel.append {ms' : List Event} (h : OverChannel s ms) (h' : OverChannel s ms') :
    OverChannel s (ms ++ ms') := by
  intro e he
  rcases List.mem_append.mp he with he | he
  · exact h e he
  · exact h' e he

theorem overChannel_single {c : Nat} (h : s.conn_ = some ⟨c, .opened⟩) (m : Method) :
    OverChannel s [.method c s.info_.channel m] := by
  intro e he
  exact ⟨c, m, h, List.mem_singleton.mp he⟩

/-- Whether it goes on or ends, it sends methods over the open channel and does nothing else. -/
structure Sends (s : State) (r : Except (List Event) State) : Prop where
  ok : ∀ t, r = .ok t → ∃ ms, OverChannel s ms ∧ t = { s with log := s.log ++ ms }
  error : ∀ log, r = .error log → ∃ ms, OverChannel s ms ∧ log = s.log ++ ms

theorem sends_ok (h : OverChannel s ms) : Sends s (.ok { s with log := s.log ++ ms }) := by
  constructor
  · intro t ht
    cases ht
    exact ⟨ms, h, rfl⟩
  · intro log hlog
    cases hlog

theorem sends_nothing (s : State) : Sends s (.ok s) := by
  have hsame := sends_ok (OverChannel.nil s)
  rwa [List.append_nil] at hsame

theorem sends_error (h : OverChannel s ms) : Sends s (.error (s.log ++ ms)) := by
  constructor
  · intro t ht
    cases ht
  · intro log hlog
    cases hlog
    exact ⟨ms, h, rfl⟩

theorem sends_stop (s : State) : Sends s (.error s.log) := by
  have hsame := sends_error (OverChannel.nil s)
  rwa [List.append_nil] at hsame

theorem Sends.bind {r : Except (List Event) State} {f : State → Except (List Event) State}
    (h : Sends s r) (hf : ∀ t, r = .ok t → Sends t (f t)) : Sends s (r >>= f) := by
  cases r with
  | error log =>
    constructor
    · intro t ht
      cases ht
    · intro log' hlog
      cases hlog
      exact h.error log rfl
  | ok u =>
    obtain ⟨ms, hms, rfl⟩ := h.ok u rfl
    obtain ⟨hok, herror⟩ := hf _ rfl
    constructor
    · intro t ht
      obtain ⟨ms', hms', rfl⟩ := hok t ht
      exact ⟨ms ++ ms', hms.append hms', by rw [List.append_assoc]⟩
    · intro log hlog
      obtain ⟨ms', hms', rfl⟩ := herror log hlog
      exact ⟨ms ++ ms', hms.append hms', by rw [List.append_assoc]⟩

theorem sends_send {c : Nat} (h : s.conn_ = some ⟨c, .opened⟩) (m : Method) (encoded : Bool) :
    Sends s (s.send c m encoded) := by
  rw [State.send]
  split
  · exact sends_ok (overChannel_single h m)
  · exact sends_stop s

theorem send_eq {c : Nat} {m : Method} {encoded : Bool} (h : encoded) :
    s.send c m encoded = .ok { s with log := s.log ++ [.method c s.info_.channel m] } := by
  rw [State.send, if_pos h]

theorem send_eq_ok {c : Nat} {m : Method} {encoded : Bool} (h : s.send c m encoded = .ok t) :
    encoded ∧ t = { s with log := s.log ++ [.method c s.info_.channel m] } := by
  rw [State.send] at h
  split at h
  · cases h
    exact ⟨‹_›, rfl⟩
  · cases h

/-- A publication goes over an open connection or ends the process. -/
theorem call_publish_cases (s : State) (peer : Peer) (info : PublishInfo) :
    (∃ c m, s.conn_ = some ⟨c, .opened⟩ ∧ publish s.info_ info = some m ∧
      s.call peer (.publish info) =
        (s.send c .basic_publish (fits peer.frame_max m.channel m.method) >>= fun s' =>
          if m.properties.strings.all short then .ok s' else .error s'.log)) ∨
      (∀ c, s.conn_ = some ⟨c, .opened⟩ → publish s.info_ info = none) ∧
        s.call peer (.publish info) = .error s.log := by
  rw [State.call]
  split
  · rename_i c m hconn hpub
    exact .inl ⟨c, m, hconn, hpub, rfl⟩
  · rename_i hnot
    refine .inr ⟨fun c hconn => ?_, rfl⟩
    cases hpub : publish s.info_ info with
    | none => rfl
    | some m => exact (hnot c m hconn hpub).elim

/-- A call adds nothing to the state but methods over the open channel. -/
theorem sends_call (s : State) (peer : Peer) (x : Call) : Sends s (s.call peer x) := by
  cases x with
  | publish info =>
    rcases call_publish_cases s peer info with ⟨c, m, hconn, -, hcall⟩ | ⟨-, hcall⟩
    · rw [hcall]
      refine (sends_send hconn _ _).bind fun t _ => ?_
      split
      · exact sends_nothing t
      · exact sends_stop t
    · rw [hcall]
      exact sends_stop s
  | read =>
    rw [State.call]
    split
    · exact sends_nothing s
    · exact sends_nothing s
    · exact sends_stop s
  | ack_message =>
    rw [State.call]
    split
    · rename_i c hconn
      exact sends_ok (overChannel_single hconn _)
    · exact sends_nothing s
    · exact sends_stop s

theorem sends_calls (s : State) (peer : Peer) (calls : List Call) :
    Sends s (calls.foldlM (State.call · peer) s) := by
  induction calls generalizing s with
  | nil => exact sends_nothing s
  | cons x calls ih =>
    rw [List.foldlM_cons]
    exact (sends_call s peer x).bind fun t _ => ih t

/-- A publication over an open connection goes on exactly if all of it can be encoded. -/
theorem call_publish_ok_iff {c : Nat} {info : PublishInfo} (h : s.conn_ = some ⟨c, .opened⟩) :
    (∃ t, s.call peer (.publish info) = .ok t) ↔ Usable s.info_ .opened (.publish info) := by
  rcases call_publish_cases s peer info with ⟨d, m, hconn, hpub, hcall⟩ | ⟨hnone, hcall⟩
  · have hkey : routingKey s.info_ info ≠ [] := (publish_isSome_iff _ _).mp ⟨m, hpub⟩
    have hshort : (∀ b ∈ carried s.info_ info, short (cstr b)) ↔
        fits peer.frame_max m.channel m.method ∧ m.properties.strings.all short := by
      rw [publish_fits peer.large, ← Bool.and_eq_true, ← List.all_append, short_carried hpub]
      simp
    rw [Usable, hshort, hcall]
    constructor
    · rintro ⟨t, ht⟩
      refine ⟨hkey, ?_⟩
      cases hsend : s.send d .basic_publish (fits peer.frame_max m.channel m.method) with
      | error log =>
        rw [hsend] at ht
        cases ht
      | ok u =>
        rw [hsend] at ht
        change (if m.properties.strings.all short then Except.ok u else .error u.log) = .ok t at ht
        split at ht
        · exact ⟨(send_eq_ok hsend).1, ‹_›⟩
        · cases ht
    · rintro ⟨-, hargs, hprops⟩
      rw [send_eq hargs]
      exact ⟨_, if_pos hprops⟩
  · have hkey : ¬ routingKey s.info_ info ≠ [] := by
      rw [← publish_isSome_iff, hnone c h]
      simp
    rw [hcall]
    simp [Usable, hkey]

/-- The call of an object that has a connection. -/
theorem call_ok_iff (peer : Peer) {c : Connection} (h : s.conn_ = some c) :
    (∃ t, s.call peer x = .ok t) ↔ Usable s.info_ c.socket x := by
  obtain ⟨c, socket⟩ := c
  cases x with
  | publish info =>
    cases socket with
    | opened => exact call_publish_ok_iff h
    | closed => simp [State.call, h, Usable]
    | missing => simp [State.call, h, Usable]
  | read => cases socket <;> simp [State.call, h, Usable]
  | ack_message => cases socket <;> simp [State.call, h, Usable]

theorem calls_ok_iff (peer : Peer) (calls : List Call) {c : Connection} (h : s.conn_ = some c) :
    (∃ t, calls.foldlM (State.call · peer) s = .ok t) ↔
      ∀ x ∈ calls, Usable s.info_ c.socket x := by
  induction calls generalizing s with
  | nil => simp [List.foldlM_nil, pure, Except.pure]
  | cons x calls ih =>
    rw [List.foldlM_cons, List.forall_mem_cons, ← call_ok_iff peer h]
    cases hx : s.call peer x with
    | error log => simp [bind, Except.bind]
    | ok u =>
      obtain ⟨ms, hms, rfl⟩ := (sends_call s peer x).ok u hx
      have hrest := ih (s := { s with log := s.log ++ ms }) h
      simpa [bind, Except.bind] using hrest

variable {info : BrokerInfo} {socket : Socket}

/-- After the socket has been opened or not, and before anything is declared. -/
def State.begun (s : State) (info : BrokerInfo) (socket : Socket) : State :=
  { s with info_ := info }.open_socket socket

theorem begun_conn_ (s : State) (info : BrokerInfo) (socket : Socket) :
    (s.begun info socket).conn_ = some ⟨s.made, socket⟩ := by
  cases socket <;> rfl

theorem begun_made (s : State) (info : BrokerInfo) (socket : Socket) :
    (s.begun info socket).made = s.made + 1 := by
  cases socket <;> rfl

theorem begun_info_ (s : State) (info : BrokerInfo) (socket : Socket) :
    (s.begun info socket).info_ = info := by
  cases socket <;> rfl

theorem begun_log (s : State) (info : BrokerInfo) (socket : Socket) :
    ∃ es, (s.begun info socket).log = s.log ++ .new_connection s.made :: es ∧
      ∀ c, .destroy_connection c ∉ es := by
  cases socket with
  | missing => exact ⟨[], rfl, by simp⟩
  | closed => exact ⟨[], rfl, by simp⟩
  | opened =>
    refine ⟨[.channel_open s.made info.channel], ?_, by simp⟩
    simp [State.begun, State.open_socket]

/-- What is declared goes over the channel that has just been opened. -/
theorem sends_opened (s : State) (peer : Peer) (kind : Kind) (info : BrokerInfo)
    (socket : Socket) : Sends (s.begun info socket) (s.opened peer kind info socket) := by
  have hconn {u v : State} {r : Except (List Event) State} (hu : Sends u r) (hv : r = .ok v) :
      v.conn_ = u.conn_ := by
    obtain ⟨ms, -, rfl⟩ := hu.ok v hv
    rfl
  have hbegun := begun_conn_ s info .opened
  cases socket with
  | missing => exact sends_nothing _
  | closed => exact sends_nothing _
  | opened =>
    have hdeclare : Sends _ ((s.begun info .opened).exchange_declare peer s.made) :=
      sends_send hbegun _ _
    cases kind with
    | producer => exact hdeclare
    | consumer =>
      refine hdeclare.bind fun u hu => ?_
      have huconn := (hconn hdeclare hu).trans hbegun
      have hqueue : Sends u (u.prepare peer s.made) := sends_send huconn _ _
      refine hqueue.bind fun v hv => ?_
      have hvconn := (hconn hqueue hv).trans huconn
      -- whether the queue is bound or not, the channel is the same
      have hbind : Sends v (v.send s.made .queue_bind (fits peer.frame_max v.info_.channel
        (queueBind v.info_ (peer.queuename s.made v.info_)))) := sends_send hvconn _ _
      rw [State.prepare_consumer]
      cases hbound : v.send s.made .queue_bind (fits peer.frame_max v.info_.channel
          (queueBind v.info_ (peer.queuename s.made v.info_))) with
      | error log => exact sends_send hvconn _ _
      | ok w =>
        rw [hbound] at hbind
        have hwconn : w.conn_ = some ⟨s.made, .opened⟩ := (hconn hbind rfl).trans hvconn
        exact hbind.bind (f := fun w => w.send s.made .basic_consume _) fun w' hw' => by
          cases hw'
          exact sends_send hwconn _ _

theorem prepare_queue (info_ : BrokerInfo) :
    (MessageBroker.prepare info_).queue = cstr info_.queue.queue_name := by
  by_cases h : info_.queue.queue_name = []
  · rw [MessageBroker.prepare, h]
    rfl
  · simp [MessageBroker.prepare, h]

theorem send_info_ {c : Nat} {m : Method} {encoded : Bool} (h : s.send c m encoded = .ok t) :
    t.info_ = s.info_ := by
  obtain ⟨-, rfl⟩ := send_eq_ok h
  rfl

theorem send_ok_iff {c : Nat} {m : Method} {encoded : Bool} :
    (∃ t, s.send c m encoded = .ok t) ↔ encoded := by
  rw [State.send]
  split <;> simp_all

theorem bind_ok_iff {r : Except (List Event) State} {f : State → Except (List Event) State} :
    (∃ t, r >>= f = .ok t) ↔ ∃ u, r = .ok u ∧ ∃ t, f u = .ok t := by
  cases r <;> simp [bind, Except.bind]

/-- The consumer is declared whether its queue could be bound or not. -/
theorem prepare_consumer_ok_iff {c : Nat} : (∃ t, s.prepare_consumer peer c = .ok t) ↔
    Declarable peer.frame_max [peer.queuename c s.info_, cstr s.info_.consumer.tag]
      s.info_.consumer.arguments := by
  rw [State.prepare_consumer, send_ok_iff, basicConsume_fits]

theorem opened_ok_iff (s : State) (peer : Peer) (kind : Kind) (info : BrokerInfo) :
    (∃ t, s.opened peer kind info .opened = .ok t) ↔ Openable peer s.made info kind := by
  have hinfo := begun_info_ s info .opened
  have hdeclare : (∃ t, (s.begun info .opened).exchange_declare peer s.made = .ok t) ↔
      Declarable peer.frame_max [cstr info.exchange.name, cstr info.exchange.type]
        info.exchange.arguments := by
    rw [State.exchange_declare, send_ok_iff, exchangeDeclare_fits, hinfo]
  cases kind with
  | producer => exact hdeclare
  | consumer =>
    have hrest {u : State} (hu : (s.begun info .opened).exchange_declare peer s.made = .ok u) :
        (∃ t, (u.prepare peer s.made >>= fun v => v.prepare_consumer peer s.made) = .ok t) ↔
          Declarable peer.frame_max [cstr info.queue.queue_name] info.queue.arguments ∧
          Declarable peer.frame_max [peer.queuename s.made info, cstr info.consumer.tag]
            info.consumer.arguments := by
      have hueq : u.info_ = info := (send_info_ hu).trans hinfo
      have hqueue : (∃ v, u.prepare peer s.made = .ok v) ↔
          Declarable peer.frame_max [cstr info.queue.queue_name] info.queue.arguments := by
        rw [State.prepare, send_ok_iff, queueDeclare_fits, prepare_queue, hueq]
      have hconsumer {v : State} (hv : u.prepare peer s.made = .ok v) :
          (∃ t, v.prepare_consumer peer s.made = .ok t) ↔
            Declarable peer.frame_max [peer.queuename s.made info, cstr info.consumer.tag]
              info.consumer.arguments := by
        rw [prepare_consumer_ok_iff, send_info_ hv, hueq]
      rw [bind_ok_iff, ← hqueue]
      constructor
      · rintro ⟨v, hv, hok⟩
        exact ⟨⟨v, hv⟩, (hconsumer hv).mp hok⟩
      · rintro ⟨⟨v, hv⟩, hok⟩
        exact ⟨v, hv, (hconsumer hv).mpr hok⟩
    rw [Openable, ← hdeclare]
    change (∃ t, ((s.begun info .opened).exchange_declare peer s.made >>= fun u =>
      u.prepare peer s.made >>= fun v => v.prepare_consumer peer s.made) = .ok t) ↔ _
    rw [bind_ok_iff]
    constructor
    · rintro ⟨u, hu, hok⟩
      exact ⟨⟨u, hu⟩, (hrest hu).mp hok⟩
    · rintro ⟨⟨u, hu⟩, hok⟩
      exact ⟨u, hu, (hrest hu).mpr hok⟩

end RabbitClient.BrokerObject
