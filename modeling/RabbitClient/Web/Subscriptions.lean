import RabbitClient.Web.Exchange

/-! When every registered symbol has a worker that is connected or will connect again. -/
namespace RabbitClient.WebSocketSession

variable {x y : Session} {a : Action}

/-- Inside the receive loop. -/
def PC.connected : PC → Bool
  | .receive _ | .read _ | .deliver _ | .clear _ | .close => true
  | _ => false

/-- The worker is connected, or its loop goes on to the next attempt. -/
def Session.Alive (x : Session) : Prop :=
  x.pc ≠ .ended ∧ (x.pc.connected = true ∨ x._terminate = false)

/-- The points a worker can be at once a handler of its receive loop has set the flag. -/
def PC.afterHandler : PC → Bool
  | .returning | .reset | .loop | .ended => true
  | _ => false

/-- The flag of a session on which `Stop` has not been called was set by a handler. -/
def Session.Flagged (x : Session) : Prop :=
  x.stopped = false → x._terminate = true → x.pc.afterHandler = true

theorem step_stopped (h : Step x a y) (ha : a ≠ .Stop) : y.stopped = x.stopped := by
  cases h with
  | Stop => exact (ha rfl).elim
  | _ => rfl

/-- Apart from `Stop` only the handlers write the flag. -/
theorem step_terminate (h : Step x a y) (ha : a ≠ .Stop) (hn : a ≠ .handler) :
    y._terminate = x._terminate := by
  cases h with
  | Stop => exact (ha rfl).elim
  | handler => exact (hn rfl).elim
  | _ => rfl

theorem flagged_step (h : Step x a y) (hx : x.Flagged) : y.Flagged := by
  intro hs ht
  cases h with
  | Stop => contradiction
  | handler => rfl
  | returning | reset => rfl
  | loop hp =>
    have hterm : x._terminate = true := ht
    simp [hterm, PC.afterHandler]
  | make_shared hp | phase hp | receive hp | read hp | read_error hp | deliver hp | clear hp
  | close hp | close_error hp | failed hp =>
    have hpc := hx hs ht
    rw [hp] at hpc
    contradiction

theorem terminate_of_alive (hf : x.Flagged) (ha : x.Alive) (hs : x.stopped = false) :
    x._terminate = false := by
  rcases ha.2 with hc | ht
  · rw [← Bool.not_eq_true]
    intro ht
    have hpc := hf hs ht
    cases hp : x.pc <;> rw [hp] at hc hpc <;> contradiction
  · exact ht

/-- A step of a live session leaves it alive unless an error handler of its receive loop runs. -/
theorem alive_step (h : Step x a y) (hst : a ≠ .Stop) (hf : x.Flagged) (hx : x.Alive)
    (hs : x.stopped = false) : y.Alive ↔ a ≠ .handler := by
  have hterm : x._terminate = false := terminate_of_alive hf hx hs
  constructor
  · rintro hy rfl
    cases h
    rcases hy.2 with hc | ht <;> contradiction
  · intro hn
    refine ⟨?_, .inr ((step_terminate h hst hn).trans hterm)⟩
    cases h with
    | Stop => exact (hst rfl).elim
    | handler => exact (hn rfl).elim
    | loop hp => simp [hterm]
    | @phase p ok hp =>
      simp only [PC.afterPhase]
      split
      · split <;> simp
      · simp
    | receive hp => split <;> simp
    | read hp => split <;> simp
    | make_shared | read_error | deliver | clear | close | close_error | returning | failed
    | reset => simp

end RabbitClient.WebSocketSession

namespace RabbitClient.ClientExchange

open Lts
open WebSocketSession (Session)

variable {Symbol : Type} [LinearOrder Symbol] {s t : State Symbol} {a : Action Symbol}

/-- Every symbol in the map has a live worker unless `Stop` has been called on its session, and
between the calls of the client thread it has been called on none. -/
def Subscribed (s : State Symbol) : Prop :=
  ∀ p ∈ s.subscriptions.toList,
    (p.2.stopped = false → p.2.Alive) ∧ (s.pc = .idle → p.2.stopped = false)

/-- An error handler of the receive loop runs in a session that nobody has stopped. -/
def FailsUnstopped (s : State Symbol) (a : Action Symbol) : Prop :=
  ∃ p ∈ s.subscriptions.toList, a = .session p.1 .handler ∧ p.2.stopped = false

instance (s : State Symbol) (a : Action Symbol) : Decidable (FailsUnstopped s a) :=
  List.decidableBEx _ _

/-- Who may have been stopped at each point of the client thread. -/
def MayBeStopped : PC Symbol → Symbol → Prop
  | .idle, _ => False
  | .unsubscribing symbol, k => k = symbol
  | _, _ => True

structure Inv (s : State Symbol) : Prop where
  flagged : ∀ p ∈ s.subscriptions.toList, p.2.Flagged
  stopped : ∀ p ∈ s.subscriptions.toList, p.2.stopped = true → MayBeStopped s.pc p.1

/-- The entries after one session has taken a step. -/
theorem mem_replaced {m : OrderedMap Symbol Session} {k : Symbol} {y : Session}
    {p : Symbol × Session} (h : p ∈ (m.modify k fun _ => y).toList) :
    p = (k, y) ∨ (p ∈ m.toList ∧ p.1 ≠ k) := by
  obtain ⟨v, hv, hy⟩ := OrderedMap.mem_modify.mp h
  by_cases hk : p.1 = k
  · left
    rw [if_pos hk] at hy
    exact Prod.ext hk hy
  · right
    rw [if_neg hk] at hy
    subst hy
    exact ⟨hv, hk⟩

theorem mem_replacement {m : OrderedMap Symbol Session} {k : Symbol} {x y : Session}
    (h : (k, x) ∈ m.toList) : (k, y) ∈ (m.modify k fun _ => y).toList :=
  OrderedMap.mem_modify.mpr ⟨x, h, by simp⟩

/-- After a session has been stopped, the entries that are not are the old ones. -/
theorem mem_of_unstopped {m : OrderedMap Symbol Session} {k : Symbol} {x y : Session}
    {p : Symbol × Session} (hst : WebSocketSession.Step x .Stop y)
    (hp : p ∈ (m.modify k fun _ => y).toList) (hstop : p.2.stopped = false) : p ∈ m.toList := by
  rcases mem_replaced hp with rfl | ⟨hp, _⟩
  · cases hst
    contradiction
  · exact hp

theorem flagged_modify {m : OrderedMap Symbol Session} {k : Symbol} {y : Session}
    (hm : ∀ p ∈ m.toList, p.2.Flagged) (hy : y.Flagged) :
    ∀ p ∈ (m.modify k fun _ => y).toList, p.2.Flagged := by
  intro p hp
  rcases mem_replaced hp with rfl | ⟨hp, _⟩
  · exact hy
  · exact hm p hp

theorem inv_step (h : Step s a t) (hs : Inv s) : Inv t := by
  cases h with
  | @session symbol a x y hf ha hst =>
    have hx := OrderedMap.mem_of_find? hf
    refine ⟨flagged_modify hs.flagged (WebSocketSession.flagged_step hst (hs.flagged _ hx)), ?_⟩
    intro p hp hstop
    rcases mem_replaced hp with rfl | ⟨hp, _⟩
    · rw [WebSocketSession.step_stopped hst ha] at hstop
      exact hs.stopped (symbol, x) hx hstop
    · exact hs.stopped p hp hstop
  | SubscribeCryptoCurrency hp hf =>
    refine ⟨?_, ?_⟩
    · intro p hm
      rcases OrderedMap.mem_emplace hm with rfl | hm
      · intro _ ht
        contradiction
      · exact hs.flagged p hm
    · intro p hm hstop
      rcases OrderedMap.mem_emplace hm with rfl | hm
      · contradiction
      · exact hs.stopped p hm hstop
  | @UnSubscribeCryptoCurrency symbol x y hp hf hst =>
    have hx := OrderedMap.mem_of_find? hf
    refine ⟨flagged_modify hs.flagged (WebSocketSession.flagged_step hst (hs.flagged _ hx)), ?_⟩
    intro p hm hstop
    rcases mem_replaced hm with rfl | ⟨hm, _⟩
    · exact rfl
    · have hno := hs.stopped p hm hstop
      rw [hp] at hno
      exact hno.elim
  | notFound => exact hs
  | @erase symbol x hp hf he =>
    refine ⟨?_, ?_⟩
    · intro p hm
      exact hs.flagged p (OrderedMap.mem_erase.mp hm).1
    · intro p hm hstop
      obtain ⟨hm, hne⟩ := OrderedMap.mem_erase.mp hm
      have hk := hs.stopped p hm hstop
      rw [hp] at hk
      exact (hne hk).elim
  | stop hp => exact ⟨hs.flagged, fun _ _ _ => trivial⟩
  | @stop_session n symbol x y hp hn hst =>
    have hx := List.mem_of_getElem? hn
    exact ⟨flagged_modify hs.flagged (WebSocketSession.flagged_step hst (hs.flagged _ hx)),
      fun _ _ _ => trivial⟩
  | join hp hn he => exact ⟨hs.flagged, fun _ _ _ => trivial⟩
  | clear hp hn =>
    refine ⟨?_, ?_⟩
    · intro p hm
      exact (List.not_mem_nil hm).elim
    · intro p hm
      exact (List.not_mem_nil hm).elim

theorem subscribed_of_alive (hi : Inv t)
    (h : ∀ p ∈ t.subscriptions.toList, p.2.stopped = false → p.2.Alive) : Subscribed t := by
  intro p hp
  refine ⟨h p hp, ?_⟩
  intro hidle
  rw [← Bool.not_eq_true]
  intro hstop
  have hno := hi.stopped p hp hstop
  rw [hidle] at hno
  exact hno

/-- Only the workers run error handlers. -/
theorem not_fails (h : ∀ k b, a ≠ .session k b) : ¬ FailsUnstopped s a := by
  rintro ⟨p, _, rfl, _⟩
  exact h _ _ rfl

/-- One step keeps every unstopped session alive unless an error handler runs in one of them. -/
theorem subscribed_step (h : Step s a t) (hi : Inv s) (hs : Subscribed s) :
    Subscribed t ↔ ¬ FailsUnstopped s a := by
  have hit : Inv t := inv_step h hi
  cases h with
  | @session symbol a x y hf ha hst =>
    have hx := OrderedMap.mem_of_find? hf
    have hy := WebSocketSession.alive_step hst ha (hi.flagged _ hx)
    constructor
    · rintro ht ⟨p, hp, heq, hstop⟩
      cases heq
      obtain rfl : x = p.2 := OrderedMap.value_unique hx hp
      have hlive := (ht _ (mem_replacement hx)).1
        ((WebSocketSession.step_stopped hst ha).trans hstop)
      exact (hy ((hs _ hx).1 hstop) hstop).mp hlive rfl
    · intro hok
      apply subscribed_of_alive hit
      intro p hp hstop
      rcases mem_replaced hp with rfl | ⟨hp, _⟩
      · have hxs : x.stopped = false := (WebSocketSession.step_stopped hst ha).symm.trans hstop
        refine (hy ((hs _ hx).1 hxs) hxs).mpr ?_
        rintro rfl
        exact hok ⟨_, hx, rfl, hxs⟩
      · exact (hs p hp).1 hstop
  | SubscribeCryptoCurrency hp hf =>
    refine iff_of_true (subscribed_of_alive hit ?_) (not_fails (by simp))
    intro p hm hstop
    rcases OrderedMap.mem_emplace hm with rfl | hm
    · exact ⟨by simp, .inr rfl⟩
    · exact (hs p hm).1 hstop
  | @UnSubscribeCryptoCurrency symbol x y hp hf hst =>
    refine iff_of_true (subscribed_of_alive hit ?_) (not_fails (by simp))
    intro p hm hstop
    exact (hs p (mem_of_unstopped hst hm hstop)).1 hstop
  | notFound =>
    exact iff_of_true hs (not_fails (by simp))
  | erase hp hf he =>
    refine iff_of_true (subscribed_of_alive hit ?_) (not_fails (by simp))
    intro p hm
    exact (hs p (OrderedMap.mem_erase.mp hm).1).1
  | stop hp =>
    exact iff_of_true (subscribed_of_alive hit fun p hm => (hs p hm).1) (not_fails (by simp))
  | @stop_session n symbol x y hp hn hst =>
    refine iff_of_true (subscribed_of_alive hit ?_) (not_fails (by simp))
    intro p hm hstop
    exact (hs p (mem_of_unstopped hst hm hstop)).1 hstop
  | join hp hn he =>
    exact iff_of_true (subscribed_of_alive hit fun p hm => (hs p hm).1) (not_fails (by simp))
  | clear hp hn =>
    refine iff_of_true (subscribed_of_alive hit ?_) (not_fails (by simp))
    intro p hm
    exact (List.not_mem_nil hm).elim

/-- In a run, every registered symbol keeps its worker exactly as long as no error handler of a
receive loop runs in a session that has not been stopped. -/
theorem subscribed_iff {ps : List (State Symbol × Action Symbol)}
    (h : Run (Recorded Step) ({} : State Symbol) ps t) :
    Throughout Subscribed ps t ↔ ∀ p ∈ ps, ¬ FailsUnstopped p.1 p.2 := by
  have hinv : Inv ({} : State Symbol) := by
    refine ⟨?_, ?_⟩
    · intro p hp
      exact (List.not_mem_nil hp).elim
    · intro p hp
      exact (List.not_mem_nil hp).elim
  have hsub : Subscribed ({} : State Symbol) := by
    intro p hp
    exact (List.not_mem_nil hp).elim
  have hstep : ∀ (s : State Symbol) a t, Step s a t → Inv s → Inv t := fun _ _ _ => inv_step
  exact recorded_throughout_iff hstep (fun _ _ _ => subscribed_step) h hinv hsub

/-- Subscribing to a symbol, up to the first read of its session. -/
def subscribeAndConnect (symbol : Nat) : List (Action Nat) :=
  .SubscribeCryptoCurrency symbol ::
    [.loop, .make_shared, .phase true, .phase true, .phase true, .phase true, .phase true,
      .receive].map (.session symbol)

/-- One symbol receives a message and is unsubscribed; the first attempt of another one fails. -/
def subscribeAndStop : List (Action Nat) :=
  subscribeAndConnect 3 ++
    [.session 3 (.read [65]), .session 3 (.WebSocketMessageReceived [65]), .session 3 .clear,
      .SubscribeCryptoCurrency 5, .session 5 .loop, .session 5 .make_shared,
      .session 5 (.phase false), .session 5 .WebSocketConnectionDown, .session 5 .reset,
      .UnSubscribeCryptoCurrency 3, .session 3 .receive, .session 3 .close_error,
      .session 3 .handler, .session 3 .WebSocketConnectionDown, .session 3 .reset,
      .session 3 .loop, .erase]

theorem subscribed_iff_stopped :
    ∃ t, Run (Recorded Step) ({} : State Nat) (record exec {} subscribeAndStop) t ∧
      Throughout Subscribed (record exec {} subscribeAndStop) t := by
  obtain ⟨t, ht⟩ := exists_recorded_of_execAll step_of_exec {} subscribeAndStop (by decide)
  have hok : ∀ p ∈ record exec {} subscribeAndStop, ¬ FailsUnstopped p.1 p.2 := by decide
  exact ⟨t, ht, (subscribed_iff ht).mpr hok⟩

/-- The first read fails, and the worker ends on its own. -/
def connectionLost : List (Action Nat) :=
  subscribeAndConnect 3 ++
    [.session 3 (.read_error []), .session 3 .handler, .session 3 .WebSocketConnectionDown,
      .session 3 .reset, .session 3 .loop]

/-- Its symbol stays in the map without a worker. -/
theorem subscribed_lost : ∃ t, Run Step ({} : State Nat) connectionLost t ∧ ¬ Subscribed t := by
  obtain ⟨t, ht, hp⟩ := exists_run_of_execAll step_of_exec {} connectionLost
    (fun t => decide (t.subscriptions.toList = [(3, ⟨true, [], .ended, false⟩)])) (by decide)
  refine ⟨t, ht, ?_⟩
  intro hs
  have hlist := of_decide_eq_true hp
  have hlive := (hs (3, ⟨true, [], .ended, false⟩) (by simp [hlist])).1 rfl
  exact hlive.1 rfl

end RabbitClient.ClientExchange
