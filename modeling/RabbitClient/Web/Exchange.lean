import RabbitClient.Web.Session
import RabbitClient.Library.OrderedMap

/-!
`ClientExchange`: one thread subscribes, unsubscribes and stops, while the workers of the
sessions in its map run. A session lives only as long as its entry in the map.
-/
namespace RabbitClient.ClientExchange

open Lts
open WebSocketSession (Session)

variable {Symbol : Type} [LinearOrder Symbol]

/-- The next step of the client thread. -/
inductive PC (Symbol : Type) where
  | idle
  /-- `UnSubscribeCryptoCurrency` waits in `Stop` for the worker. -/
  | unsubscribing (symbol : Symbol)
  /-- The loop of `stop`, at the element with this number. -/
  | stopping (n : Nat)
  | joining (n : Nat)
deriving DecidableEq

structure State (Symbol : Type) [LT Symbol] where
  subscriptions : OrderedMap Symbol Session := ⟨[], .nil⟩
  pc : PC Symbol := .idle

inductive Action (Symbol : Type) where
  | session (symbol : Symbol) (a : WebSocketSession.Action)
  | SubscribeCryptoCurrency (symbol : Symbol)
  | UnSubscribeCryptoCurrency (symbol : Symbol)
  | erase
  | stop
  | stop_session
  | join
  | clear
deriving DecidableEq

/-- Steps of the client thread and of the workers. `Stop` sets the flag and then waits. -/
inductive Step : State Symbol → Action Symbol → State Symbol → Prop where
  | session {s : State Symbol} {symbol : Symbol} {a : WebSocketSession.Action} {x y : Session}
      (hf : s.subscriptions.find? symbol = some x) (ha : a ≠ .Stop)
      (hs : WebSocketSession.Step x a y) :
      Step s (.session symbol a)
        { s with subscriptions := s.subscriptions.modify symbol fun _ => y }
  -- asserted: the symbol is not there yet
  | SubscribeCryptoCurrency {s : State Symbol} {symbol : Symbol} (hp : s.pc = .idle)
      (hf : s.subscriptions.find? symbol = none) :
      Step s (.SubscribeCryptoCurrency symbol)
        { s with subscriptions := s.subscriptions.emplace symbol {} }
  | UnSubscribeCryptoCurrency {s : State Symbol} {symbol : Symbol} {x y : Session}
      (hp : s.pc = .idle) (hf : s.subscriptions.find? symbol = some x)
      (hs : WebSocketSession.Step x .Stop y) :
      Step s (.UnSubscribeCryptoCurrency symbol)
        { s with
          subscriptions := s.subscriptions.modify symbol fun _ => y
          pc := .unsubscribing symbol }
  | notFound {s : State Symbol} {symbol : Symbol} (hp : s.pc = .idle)
      (hf : s.subscriptions.find? symbol = none) : Step s (.UnSubscribeCryptoCurrency symbol) s
  | erase {s : State Symbol} {symbol : Symbol} {x : Session} (hp : s.pc = .unsubscribing symbol)
      (hf : s.subscriptions.find? symbol = some x) (he : x.pc = .ended) :
      Step s .erase { s with subscriptions := s.subscriptions.erase symbol, pc := .idle }
  | stop {s : State Symbol} (hp : s.pc = .idle) : Step s .stop { s with pc := .stopping 0 }
  | stop_session {s : State Symbol} {n : Nat} {symbol : Symbol} {x y : Session}
      (hp : s.pc = .stopping n) (hn : s.subscriptions.toList[n]? = some (symbol, x))
      (hs : WebSocketSession.Step x .Stop y) :
      Step s .stop_session
        { s with
          subscriptions := s.subscriptions.modify symbol fun _ => y
          pc := .joining n }
  | join {s : State Symbol} {n : Nat} {symbol : Symbol} {x : Session} (hp : s.pc = .joining n)
      (hn : s.subscriptions.toList[n]? = some (symbol, x)) (he : x.pc = .ended) :
      Step s .join { s with pc := .stopping (n + 1) }
  | clear {s : State Symbol} {n : Nat} (hp : s.pc = .stopping n)
      (hn : s.subscriptions.toList[n]? = none) :
      Step s .clear { s with subscriptions := ∅, pc := .idle }

/-- The steps as a function of the action. -/
def exec (s : State Symbol) : Action Symbol → Option (State Symbol)
  | .session symbol a =>
    if a = .Stop then none
    else (s.subscriptions.find? symbol).bind fun x => (WebSocketSession.exec x a).map fun y =>
      { s with subscriptions := s.subscriptions.modify symbol fun _ => y }
  | .SubscribeCryptoCurrency symbol =>
    if s.pc = .idle ∧ s.subscriptions.find? symbol = none then
      some { s with subscriptions := s.subscriptions.emplace symbol {} }
    else none
  | .UnSubscribeCryptoCurrency symbol =>
    if s.pc = .idle then
      match s.subscriptions.find? symbol with
      | some x => (WebSocketSession.exec x .Stop).map fun y =>
        { s with
          subscriptions := s.subscriptions.modify symbol fun _ => y
          pc := .unsubscribing symbol }
      | none => some s
    else none
  | .erase =>
    match s.pc with
    | .unsubscribing symbol =>
      if (s.subscriptions.find? symbol).map Session.pc = some .ended then
        some { s with subscriptions := s.subscriptions.erase symbol, pc := .idle }
      else none
    | _ => none
  | .stop => if s.pc = .idle then some { s with pc := .stopping 0 } else none
  | .stop_session =>
    match s.pc with
    | .stopping n =>
      s.subscriptions.toList[n]?.bind fun p => (WebSocketSession.exec p.2 .Stop).map fun y =>
        { s with subscriptions := s.subscriptions.modify p.1 fun _ => y, pc := .joining n }
    | _ => none
  | .join =>
    match s.pc with
    | .joining n =>
      if (s.subscriptions.toList[n]?).map (·.2.pc) = some .ended then
        some { s with pc := .stopping (n + 1) }
      else none
    | _ => none
  | .clear =>
    match s.pc with
    | .stopping n =>
      if s.subscriptions.toList[n]? = none then some { s with subscriptions := ∅, pc := .idle }
      else none
    | _ => none

theorem step_of_exec (s : State Symbol) (a : Action Symbol) (t : State Symbol)
    (h : exec s a = some t) : Step s a t := by
  cases a with
  | session symbol a =>
    simp only [exec] at h
    split at h
    · contradiction
    · rename_i ha
      obtain ⟨x, hf, hx⟩ := Option.bind_eq_some_iff.mp h
      obtain ⟨y, hy, rfl⟩ := Option.map_eq_some_iff.mp hx
      exact .session hf ha (WebSocketSession.step_of_exec x a y hy)
  | SubscribeCryptoCurrency symbol =>
    simp only [exec, Option.ite_none_right_eq_some, Option.some.injEq] at h
    obtain ⟨⟨hp, hf⟩, rfl⟩ := h
    exact .SubscribeCryptoCurrency hp hf
  | UnSubscribeCryptoCurrency symbol =>
    simp only [exec] at h
    split at h
    · rename_i hp
      split at h
      · rename_i x hf
        obtain ⟨y, hy, rfl⟩ := Option.map_eq_some_iff.mp h
        exact .UnSubscribeCryptoCurrency hp hf (WebSocketSession.step_of_exec x _ y hy)
      · rename_i hf
        cases h
        exact .notFound hp hf
    · contradiction
  | erase =>
    simp only [exec] at h
    split at h
    · rename_i symbol hp
      simp only [Option.ite_none_right_eq_some, Option.some.injEq] at h
      obtain ⟨hx, rfl⟩ := h
      obtain ⟨x, hf, he⟩ := Option.map_eq_some_iff.mp hx
      exact .erase hp hf he
    · contradiction
  | stop =>
    simp only [exec, Option.ite_none_right_eq_some, Option.some.injEq] at h
    obtain ⟨hp, rfl⟩ := h
    exact .stop hp
  | stop_session =>
    simp only [exec] at h
    split at h
    · rename_i n hp
      obtain ⟨⟨symbol, x⟩, hn, hx⟩ := Option.bind_eq_some_iff.mp h
      obtain ⟨y, hy, rfl⟩ := Option.map_eq_some_iff.mp hx
      exact .stop_session hp hn (WebSocketSession.step_of_exec x _ y hy)
    · contradiction
  | join =>
    simp only [exec] at h
    split at h
    · rename_i n hp
      simp only [Option.ite_none_right_eq_some, Option.some.injEq] at h
      obtain ⟨hx, rfl⟩ := h
      obtain ⟨⟨symbol, x⟩, hn, he⟩ := Option.map_eq_some_iff.mp hx
      exact .join hp hn he
    · contradiction
  | clear =>
    simp only [exec] at h
    split at h
    · rename_i n hp
      simp only [Option.ite_none_right_eq_some, Option.some.injEq] at h
      obtain ⟨hn, rfl⟩ := h
      exact .clear hp hn
    · contradiction

end RabbitClient.ClientExchange
