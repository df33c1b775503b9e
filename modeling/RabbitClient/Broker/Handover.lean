import RabbitClient.Broker.Rounds

/-! What becomes of a request a server has taken from a durable queue. -/
namespace RabbitClient.Rpc

open Bytes MessageBroker Lts

variable {Client Server : Type} {sys : System Client Server} {v : Server} {name : Bytes}
  {p : Process Client Server} {e : Envelope Client Server}
  [DecidableEq Client] [DecidableEq Server] {s t : State Client Server}
  {a : Action Client Server} {as bs : List (Action Client Server)}

/-- A durable queue answers for the message, its reply has been published, the one server of the
queue that has acknowledged it has not answered it yet, or a client of the queue has taken it. -/
def Kept (sys : System Client Server) (name : Bytes) (e : Envelope Client Server)
    (as : List (Action Client Server)) (s : State Client Server) : Prop :=
  e ∈ s.broker.stock (.named name) ∨
    (∃ v answer, sys.queueOf (.server v) = .named name ∧ .reply v e answer ∈ as) ∨
    (∃ v, sys.queueOf (.server v) = .named name ∧ (s.pc (.server v)).unhandled = some e ∧
      .ack (.server v) e ∈ as) ∨
    ∃ c, sys.queueOf (.client c) = .named name ∧ .ack (.client c) e ∈ as

theorem stock_disconnected_named (s : State Client Server) (p : Process Client Server)
    (name : Bytes) (h : e ∈ s.broker.stock (.named name)) :
    e ∈ (s.disconnected sys p).broker.stock (.named name) := by
  rcases State.broker_disconnected sys s p with ⟨n, -, he⟩ | ⟨r, -, he⟩
  · rw [he]
    exact (Broker.stock_requeue s.broker (.named n) p _).mem_iff.mpr h
  · rw [he, Broker.stock_delete_of_ne (by simp)]
    exact h

omit [DecidableEq Client] [DecidableEq Server] in
theorem mem_stock_route {x : Envelope Client Server} {q : QueueId Client Server}
    (h : x ∈ s.broker.stock q) : x ∈ (s.route e).broker.stock q :=
  (stock_route (a := .foreign e) rfl q).mem_iff.mpr (List.mem_append_right _ h)

/-- A durable queue gives a message up only when a consumer acknowledges it. -/
theorem kept_stock_step (h : Step sys s a t) (hx : ∀ q x, a ≠ .expire q x)
    (he : e ∈ s.broker.stock (.named name)) :
    e ∈ t.broker.stock (.named name) ∨
      ∃ p, sys.queueOf p = .named name ∧ a = .ack p e ∧ (t.pc p).unhandled = some e := by
  cases h with
  | opened => exact Or.inl (by simpa using he)
  | request => exact Or.inl (mem_stock_route he)
  | foreign => exact Or.inl (mem_stock_route he)
  | deliver hp hr => exact Or.inl ((Broker.stock_deliver hr _).mem_iff.mpr he)
  | read => exact Or.inl he
  | @ack p e' hp =>
    rcases Broker.mem_stock_ack (q := sys.queueOf p) (p := p) (m := e') he with ⟨hq, rfl⟩ | he
    · exact Or.inr ⟨p, hq.symm, rfl, by simp [PC.unhandled]⟩
    · exact Or.inl he
  | skip => exact Or.inl he
  | accept => exact Or.inl he
  | reply => exact Or.inl (mem_stock_route he)
  | expire => exact (hx _ _ rfl).elim
  | stop => exact Or.inl (stock_disconnected_named s _ name he)

/-- A server that has acknowledged a message keeps it until it replies, stopped or not. -/
theorem unhandled_step (h : Step sys s a t) (hv : (s.pc (.server v)).unhandled = some e) :
    (t.pc (.server v)).unhandled = some e ∨ ∃ answer, a = .reply v e answer := by
  have other : ∀ {p : Process Client Server} {x : PC Client Server},
      (s.pc p).unhandled = none → ((s.setPC p x).pc (.server v)).unhandled = some e := by
    intro p x hp
    have hne : Process.server v ≠ p := by
      rintro rfl
      rw [hp] at hv
      contradiction
    simpa [hne] using hv
  cases h with
  | opened hp => exact Or.inl (other (by rw [hp]; rfl))
  | request => exact Or.inl (by simpa [State.requested] using hv)
  | foreign => exact Or.inl hv
  | deliver => exact Or.inl hv
  | read hp => exact Or.inl (other (by rw [hp]; rfl))
  | ack hp => exact Or.inl (other (by rw [hp]; rfl))
  | skip => exact Or.inl (by simpa using hv)
  | accept => exact Or.inl (by simpa using hv)
  | @reply w e' m hp hm =>
    by_cases hw : v = w
    · subst w
      rw [hp] at hv
      cases hv
      exact Or.inr ⟨_, rfl⟩
    · exact Or.inl (by simpa [hw] using hv)
  | expire => exact Or.inl hv
  | @stop p hp =>
    by_cases hw : .server v = p
    · subst p
      exact Or.inl (by simpa [State.disconnected, PC.unhandled] using hv)
    · exact Or.inl (by simpa [State.disconnected, hw] using hv)

theorem kept_step (h : Step sys s a t) (hx : ∀ q x, a ≠ .expire q x)
    (hs : Kept sys name e as s) : Kept sys name e (as ++ [a]) t := by
  rcases hs with he | ⟨v, answer, hq, hr⟩ | ⟨v, hq, hu, ha⟩ | ⟨c, hq, ha⟩
  · rcases kept_stock_step h hx he with he | ⟨p, hq, rfl, hu⟩
    · exact Or.inl he
    · cases p with
      | client c => exact Or.inr (Or.inr (Or.inr ⟨c, hq, by simp⟩))
      | server v => exact Or.inr (Or.inr (Or.inl ⟨v, hq, hu, by simp⟩))
  · exact Or.inr (Or.inl ⟨v, answer, hq, List.mem_append_left _ hr⟩)
  · rcases unhandled_step h hu with hu | ⟨answer, rfl⟩
    · exact Or.inr (Or.inr (Or.inl ⟨v, hq, hu, List.mem_append_left _ ha⟩))
    · exact Or.inr (Or.inl ⟨v, answer, hq, by simp⟩)
  · exact Or.inr (Or.inr (Or.inr ⟨c, hq, List.mem_append_left _ ha⟩))

/-- Every request a server has taken from a durable queue is unacknowledged, answered, or the
single message its server has acknowledged and not answered, unless a client that reads the
same queue has taken it after a redelivery. -/
theorem taken_request_kept (hq : sys.queueOf (.server v) = .named name)
    (h : Run (Step sys) initial as t) (hx : ∀ q x, .expire q x ∉ as)
    (hread : .read (.server v) e ∈ as) : Kept sys name e as t := by
  obtain ⟨as₁, as₂, rfl⟩ := List.append_of_mem hread
  obtain ⟨u, w, -, hst, hw⟩ := run_split_label h
  let H : List (Action Client Server) → State Client Server → Prop := fun as s =>
    (∀ q x, .expire q x ∉ as) → Kept sys name e as s
  have hstep : ∀ as s a t, H as s → Step sys s a t → H (as ++ [a]) t := by
    intro as s a t hs hst hx
    refine kept_step hst ?_ (hs fun q x hmem => hx q x (List.mem_append_left _ hmem))
    rintro q x rfl
    exact hx q x (by simp)
  have hstart : H (as₁ ++ [.read (.server v) e]) w := by
    intro _
    cases hst with
    | read hp hu => exact Or.inl (Broker.mem_stock.mpr (Or.inr ⟨_, hq ▸ hu⟩))
  have hrun := run_history hstep hw hstart
  rw [List.append_assoc] at hrun
  exact hrun hx

theorem zero_notMem_tasks : 0 ∉ ascii "tasks" := by decide

/-- One client and two servers that share a durable queue. -/
def durableQueue : System Unit Bool where
  options := fun p =>
    match p with
    | .client _ => {}
    | .server _ => { consumerQueueName := ⟨ascii "tasks", zero_notMem_tasks⟩ }
  getpid := fun _ => 100
  thread_id := fun _ => 7

def durableQueueRun : List (Action Unit Bool) :=
  let r := durableQueue.requestOf () 1
  [.opened (.server true), .opened (.server false), .opened (.client ()), .request () r,
    .deliver (.server true) r, .read (.server true) r, .stop (.server true),
    .deliver (.server false) r, .read (.server false) r, .ack (.server false) r]

theorem taken_request_kept_durableQueue :
    ∃ t, Run (Step durableQueue) initial durableQueueRun t ∧
      Kept durableQueue (ascii "tasks") (durableQueue.requestOf () 1) durableQueueRun t := by
  obtain ⟨t, ht, -⟩ := exists_run_of_execAll (step_of_exec durableQueue) initial
    durableQueueRun (fun _ => true) (by decide +kernel)
  have hx : ∀ q x, .expire q x ∉ durableQueueRun := by simp [durableQueueRun]
  have hread : .read (.server true) (durableQueue.requestOf () 1) ∈ durableQueueRun := by
    simp [durableQueueRun]
  exact ⟨t, ht, taken_request_kept (v := true) (by decide) ht hx hread⟩

/-- A server takes a message from a durable queue on which nothing expires, and in the end the
message is neither unacknowledged nor answered. -/
def Loses (sys : System Client Server) (as : List (Action Client Server)) : Prop :=
  ∃ v name e t, sys.queueOf (.server v) = .named name ∧ (∀ q x, .expire q x ∉ as) ∧
    .read (.server v) e ∈ as ∧ Run (Step sys) initial as t ∧
    e ∉ t.broker.stock (.named name) ∧ ¬ ∃ w answer, .reply w e answer ∈ as

/-- The server stops before its acknowledgement, and the client on its queue takes the request. -/
def redeliveredRun : List (Action Unit Unit) :=
  let r := sharedQueue.requestOf () 1
  [.opened (.server ()), .opened (.client ()), .request () r, .deliver (.server ()) r,
    .read (.server ()) r, .stop (.server ()), .deliver (.client ()) r, .read (.client ()) r,
    .ack (.client ()) r]

/-- The server stops between its acknowledgement and its reply, so that nobody has the request;
or it stops before, and the request goes to a client. -/
theorem taken_request_lost :
    Loses durableQueue (durableQueueRun ++ [.stop (.server false)]) ∧
      Loses sharedQueue redeliveredRun := by
  constructor
  · obtain ⟨t, ht, hs⟩ := exists_run_of_execAll (step_of_exec durableQueue) initial
      (durableQueueRun ++ [.stop (.server false)])
      (fun t => decide (durableQueue.requestOf () 1 ∉ t.broker.stock (.named (ascii "tasks"))))
      (by decide +kernel)
    refine ⟨false, ascii "tasks", durableQueue.requestOf () 1, t, by decide, ?_, ?_, ht, ?_, ?_⟩
    · simp [durableQueueRun]
    · simp [durableQueueRun]
    · simpa using hs
    · simp [durableQueueRun]
  · obtain ⟨t, ht, hs⟩ := exists_run_of_execAll (step_of_exec sharedQueue) initial redeliveredRun
      (fun t => decide (sharedQueue.requestOf () 1 ∉ t.broker.stock (.named (ascii "rpc"))))
      (by decide +kernel)
    refine ⟨(), ascii "rpc", sharedQueue.requestOf () 1, t, by decide, ?_, ?_, ht, ?_, ?_⟩
    · simp [redeliveredRun]
    · simp [redeliveredRun]
    · simpa using hs
    · simp [redeliveredRun]

end RabbitClient.Rpc
