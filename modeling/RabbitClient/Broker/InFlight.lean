import RabbitClient.Broker.Rpc

/-! Where messages are, which keys lead there, and what the published ones contain. -/
namespace RabbitClient.Rpc

open Bytes MessageBroker Lts
open scoped List

variable {Client Server : Type} {sys : System Client Server} {c : Client} {v : Server}
  {p r : Process Client Server} {q : QueueId Client Server} {e : Envelope Client Server}

namespace System
variable (sys)

def requestKey (p : Process Client Server) : Bytes := (sys.options p).routing_key_request.val

def responseKey (p : Process Client Server) : Bytes := (sys.options p).routing_key_response.val

end System

@[simp] theorem bindingKey_client (sys : System Client Server) (c : Client) :
    bindingKey (sys.consumer (.client c)) = sys.responseKey (.client c) :=
  cstr_val (sys.client c).routing_key_response

@[simp] theorem bindingKey_server (sys : System Client Server) (v : Server) :
    bindingKey (sys.consumer (.server v)) = sys.requestKey (.server v) :=
  cstr_val (sys.server v).routing_key_request

/-- What a process has read and not finished with. -/
def PC.held : PC Client Server → Option (Envelope Client Server)
  | .ack e => some e
  | .handle e => some e
  | .stopped u => u
  | _ => none

@[simp] theorem held_start (p : Process Client Server) : (start p).held = none := by
  cases p <;> rfl

theorem held_of_unhandled {x : PC Client Server} (h : x.unhandled = some e) :
    x.held = some e := by
  cases x with
  | handle e' => exact h
  | stopped u => exact h
  | _ => contradiction

section
variable [DecidableEq Client] [DecidableEq Server] {s t : State Client Server}
  {a : Action Client Server}

namespace State

@[simp] theorem setPC_self {x : PC Client Server} : (s.setPC p x).pc p = x :=
  Function.update_self ..

@[simp] theorem setPC_of_ne {x : PC Client Server} (h : r ≠ p) : (s.setPC p x).pc r = s.pc r :=
  Function.update_of_ne h ..

@[simp] theorem setPC_broker {x : PC Client Server} : (s.setPC p x).broker = s.broker := rfl

omit [DecidableEq Client] [DecidableEq Server] in
@[simp] theorem route_pc : (s.route e).pc = s.pc := rfl

@[simp] theorem opened_broker : (s.opened sys p).broker =
    s.broker.bind (sys.queueOf p) (bindingKey (sys.consumer p)) := rfl

@[simp] theorem requested_broker : (s.requested c e).broker =
    s.broker.publish e.message.routing_key e := rfl

omit [DecidableEq Client] [DecidableEq Server] in
@[simp] theorem route_broker : (s.route e).broker =
    s.broker.publish e.message.routing_key e := rfl

/-- What a lost connection does to the broker, by the kind of its queue. -/
theorem broker_disconnected (sys : System Client Server) (s : State Client Server)
    (p : Process Client Server) :
    (∃ name, sys.queueOf p = .named name ∧
      (s.disconnected sys p).broker = s.broker.requeue (.named name) p) ∨
    (∃ r, sys.queueOf p = .anonymous r ∧
      (s.disconnected sys p).broker = s.broker.delete (.anonymous r)) := by
  cases hq : sys.queueOf p with
  | named name => exact Or.inl ⟨name, rfl, by simp [disconnected, hq]⟩
  | anonymous r => exact Or.inr ⟨r, rfl, by simp [disconnected, hq]⟩

theorem stock_disconnected (r : QueueId Client Server) :
    ((s.disconnected sys p).broker.stock r).Subperm (s.broker.stock r) := by
  rcases broker_disconnected sys s p with ⟨name, -, he⟩ | ⟨p', -, he⟩
  · rw [he]
    exact (Broker.stock_requeue s.broker (.named name) p r).subperm
  · rw [he]
    exact (Broker.stock_delete_sublist s.broker (.anonymous p') r).subperm

theorem bindings_disconnected {k : Bytes} {r : QueueId Client Server}
    (h : k ∈ (s.disconnected sys p).broker.bindings r) : k ∈ s.broker.bindings r := by
  rcases broker_disconnected sys s p with ⟨name, -, he⟩ | ⟨p', -, he⟩
  · rw [he] at h
    exact h
  · rw [he] at h
    exact (Broker.mem_bindings_delete.mp h).2

/-- A process found at a position that `p` is not moved to was there already. -/
theorem pc_of_setPC {x y : PC Client Server} (hx : x ≠ y) (h : (s.setPC p x).pc r = y) :
    r ≠ p ∧ s.pc r = y := by
  have hne : r ≠ p := by
    rintro rfl
    exact hx (by simpa using h)
  exact ⟨hne, by simpa [hne] using h⟩

theorem held_setPC {x : PC Client Server} (h : ((s.setPC p x).pc r).held = some e) :
    (r = p ∧ x.held = some e) ∨ (s.pc r).held = some e := by
  by_cases hr : r = p
  · subst r
    exact Or.inl ⟨rfl, by simpa using h⟩
  · exact Or.inr (by simpa [hr] using h)

end State

/-- A message is answered for by a queue, or a consumer of that queue has read it. -/
def InFlight (sys : System Client Server) (s : State Client Server)
    (q : QueueId Client Server) (e : Envelope Client Server) : Prop :=
  e ∈ s.broker.stock q ∨ ∃ p, sys.queueOf p = q ∧ (s.pc p).held = some e

def Action.published : Action Client Server → Option (Envelope Client Server)
  | .request _ e | .foreign e | .reply _ _ e => some e
  | _ => none

omit [DecidableEq Client] [DecidableEq Server] in
theorem inFlight_held (h : (s.pc p).held = some e) : InFlight sys s (sys.queueOf p) e :=
  Or.inr ⟨p, rfl, h⟩

/-- What a step adds to a queue: the message it publishes, if the key is bound there. -/
def arrivals (s : State Client Server) (a : Action Client Server)
    (q : QueueId Client Server) : List (Envelope Client Server) :=
  (a.published.filter fun e => e.message.routing_key ∈ s.broker.bindings q).toList

omit [DecidableEq Client] [DecidableEq Server] in
theorem mem_arrivals : e ∈ arrivals s a q ↔
    a.published = some e ∧ e.message.routing_key ∈ s.broker.bindings q := by
  simp [arrivals]

omit [DecidableEq Client] [DecidableEq Server] in
theorem stock_route (ha : a.published = some e) (q : QueueId Client Server) :
    (s.route e).broker.stock q ~ arrivals s a q ++ s.broker.stock q := by
  refine (Broker.stock_publish s.broker e.message.routing_key e q).trans ?_
  by_cases hk : e.message.routing_key ∈ s.broker.bindings q <;>
    simp [arrivals, ha, Option.filter, hk]

/-- No step puts anything but its own message into a queue, and that only once. -/
theorem stock_step (h : Step sys s a t) (q : QueueId Client Server) :
    (t.broker.stock q).Subperm (arrivals s a q ++ s.broker.stock q) := by
  cases h with
  | opened => exact List.Subperm.refl _
  | request => exact (stock_route rfl q).subperm
  | foreign => exact (stock_route rfl q).subperm
  | deliver hp hr => exact (Broker.stock_deliver hr q).subperm
  | read => exact List.Subperm.refl _
  | ack => exact (Broker.stock_ack_sublist ..).subperm
  | skip => exact List.Subperm.refl _
  | accept => exact List.Subperm.refl _
  | reply => exact (stock_route rfl q).subperm
  | expire => exact (Broker.stock_expire_sublist ..).subperm
  | stop => exact State.stock_disconnected q

theorem mem_stock_step (h : Step sys s a t) (he : e ∈ t.broker.stock q) :
    e ∈ s.broker.stock q ∨
      (a.published = some e ∧ e.message.routing_key ∈ s.broker.bindings q) := by
  rcases List.mem_append.mp ((stock_step h q).subset he) with he | he
  · exact Or.inr (mem_arrivals.mp he)
  · exact Or.inl he

/-- A message arrives somewhere only by being published under a key bound there. -/
theorem inFlight_step (h : Step sys s a t) (he : InFlight sys t q e) :
    InFlight sys s q e ∨
      (a.published = some e ∧ e.message.routing_key ∈ s.broker.bindings q) := by
  rcases he with he | ⟨r, rfl, he⟩
  · exact (mem_stock_step h he).imp_left Or.inl
  · refine Or.inl ?_
    cases h with
    | opened =>
      rcases State.held_setPC he with ⟨rfl, hx⟩ | hx
      · simp at hx
      · exact inFlight_held hx
    | @read p e' hp hu =>
      rcases State.held_setPC he with ⟨rfl, hx⟩ | hx
      · cases hx
        exact Or.inl (Broker.mem_stock.mpr (Or.inr ⟨_, hu⟩))
      · exact inFlight_held hx
    | ack hp =>
      rcases State.held_setPC he with ⟨rfl, hx⟩ | hx
      · exact inFlight_held (hp ▸ hx)
      · exact inFlight_held hx
    | stop =>
      rcases State.held_setPC he with ⟨rfl, hx⟩ | hx
      · exact inFlight_held (held_of_unhandled hx)
      · exact inFlight_held hx
    | foreign => exact inFlight_held he
    | deliver => exact inFlight_held he
    | expire => exact inFlight_held he
    | request | skip | accept | reply =>
      rcases State.held_setPC he with ⟨rfl, hx⟩ | hx
      · contradiction
      · exact inFlight_held hx

/-- Every key of a queue was bound by a process that reads the queue. -/
def Bound (sys : System Client Server) (s : State Client Server) : Prop :=
  ∀ q, ∀ k ∈ s.broker.bindings q, ∃ p, sys.queueOf p = q ∧ bindingKey (sys.consumer p) = k

theorem bound_step (h : Step sys s a t) (hs : Bound sys s) : Bound sys t := by
  intro q k hk
  cases h with
  | @opened p hp =>
    rcases Broker.mem_bindings_bind.mp hk with ⟨rfl, rfl⟩ | hk
    · exact ⟨p, rfl, rfl⟩
    · exact hs q k hk
  | stop => exact hs q k (State.bindings_disconnected hk)
  | _ => exact hs q k hk

/-- The key of a message is one that a reader of its queue asked for. -/
def Placed (sys : System Client Server) (q : QueueId Client Server)
    (e : Envelope Client Server) : Prop :=
  ∃ p, sys.queueOf p = q ∧ bindingKey (sys.consumer p) = e.message.routing_key

/-- A property of messages and their queues that holds of everything in flight. -/
def Everywhere (sys : System Client Server)
    (P : QueueId Client Server → Envelope Client Server → Prop) (s : State Client Server) : Prop :=
  ∀ q e, InFlight sys s q e → P q e

theorem everywhere_step {P : QueueId Client Server → Envelope Client Server → Prop}
    (h : Step sys s a t) (hb : Bound sys s) (hs : Everywhere sys P s)
    (hnew : ∀ q e, a.published = some e → Placed sys q e → P q e) : Everywhere sys P t := by
  intro q e he
  rcases inFlight_step h he with he | ⟨ha, hk⟩
  · exact hs q e he
  · exact hnew q e ha (hb q _ hk)

omit [DecidableEq Client] [DecidableEq Server] in
theorem bound_initial : Bound sys initial := by
  intro q k hk
  contradiction

omit [DecidableEq Client] [DecidableEq Server] in
theorem everywhere_initial {P : QueueId Client Server → Envelope Client Server → Prop} :
    Everywhere sys P initial := by
  rintro q e (he | ⟨p, -, he⟩)
  · contradiction
  · contradiction

end

end RabbitClient.Rpc
