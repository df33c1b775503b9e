import RabbitClient.Library.Lts
import RabbitClient.Library.Bytes

/-!
`WebSocketSession`: a worker thread that connects, receives until an error, and connects again.
The network decides how each operation ends, and `Stop` may be called between any two steps.
-/
namespace RabbitClient.WebSocketSession

/-- The operations of `ConnectAndReceive` before its receive loop. -/
inductive Phase where
  | resolve
  | connect
  | set_tlsext_host_name
  | ssl_handshake
  | handshake
deriving DecidableEq

def Phase.next : Phase → Option Phase
  | .resolve => some .connect
  | .connect => some .set_tlsext_host_name
  | .set_tlsext_host_name => some .ssl_handshake
  | .ssl_handshake => some .handshake
  | .handshake => none

/-- The next step of the worker. -/
inductive PC where
  /-- `while (!_terminate)` -/
  | loop
  | make_shared
  | phase (p : Phase)
  /-- `if (!_terminate || terminating)` -/
  | receive (terminating : Bool)
  | read (terminating : Bool)
  | deliver (terminating : Bool)
  | clear (terminating : Bool)
  | close
  /-- An exception has left the receive loop. -/
  | caught
  /-- The notification at the end of `ConnectAndReceive`. -/
  | returning
  /-- The notification in the handler of the worker loop. -/
  | failed
  | reset
  | ended
deriving DecidableEq

structure Session where
  _terminate : Bool := false
  _buffer : Bytes := []
  pc : PC := .loop
  /-- `Stop` has been called. Nothing reads this. -/
  stopped : Bool := false
deriving DecidableEq

/-- The steps of a session, with what the network and the callbacks see of them. -/
inductive Action where
  | Stop
  | loop
  | make_shared
  | phase (ok : Bool)
  | receive
  | read (payload : Bytes)
  | read_error (received : Bytes)
  | WebSocketMessageReceived (text : Bytes)
  | clear
  | close
  | close_error
  | handler
  | WebSocketConnectionDown
  | reset
deriving DecidableEq

/-- Where a phase leads: to the next one, to the receive loop, or to the outer handler. -/
def PC.afterPhase (p : Phase) (ok : Bool) : PC :=
  if ok then
    match p.next with
    | some q => .phase q
    | none => .receive false
  else .failed

/-- One step of the worker, or of the thread that calls `Stop`. -/
inductive Step : Session → Action → Session → Prop where
  | Stop {s : Session} : Step s .Stop { s with _terminate := true, stopped := true }
  | loop {s : Session} (hp : s.pc = .loop) :
      Step s .loop { s with pc := if s._terminate then .ended else .make_shared }
  | make_shared {s : Session} (hp : s.pc = .make_shared) :
      Step s .make_shared { s with pc := .phase .resolve }
  | phase {s : Session} {p : Phase} {ok : Bool} (hp : s.pc = .phase p) :
      Step s (.phase ok) { s with pc := .afterPhase p ok }
  | receive {s : Session} {terminating : Bool} (hp : s.pc = .receive terminating) :
      Step s .receive
        { s with pc := if !s._terminate || terminating then .read terminating else .close }
  -- the message is appended to what the buffer holds
  | read {s : Session} {terminating : Bool} {payload : Bytes} (hp : s.pc = .read terminating) :
      Step s (.read payload)
        { s with
          _buffer := s._buffer ++ payload
          pc := if s._buffer ++ payload = [] then .clear terminating else .deliver terminating }
  -- a failed read may leave the bytes received so far
  | read_error {s : Session} {terminating : Bool} {received : Bytes}
      (hp : s.pc = .read terminating) :
      Step s (.read_error received) { s with _buffer := s._buffer ++ received, pc := .caught }
  | deliver {s : Session} {terminating : Bool} (hp : s.pc = .deliver terminating) :
      Step s (.WebSocketMessageReceived s._buffer) { s with pc := .clear terminating }
  | clear {s : Session} {terminating : Bool} (hp : s.pc = .clear terminating) :
      Step s .clear { s with _buffer := [], pc := .receive terminating }
  | close {s : Session} (hp : s.pc = .close) : Step s .close { s with pc := .receive true }
  | close_error {s : Session} (hp : s.pc = .close) : Step s .close_error { s with pc := .caught }
  -- both handlers of the receive loop set the flag
  | handler {s : Session} (hp : s.pc = .caught) :
      Step s .handler { s with _terminate := true, pc := .returning }
  | returning {s : Session} (hp : s.pc = .returning) :
      Step s .WebSocketConnectionDown { s with pc := .reset }
  | failed {s : Session} (hp : s.pc = .failed) :
      Step s .WebSocketConnectionDown { s with pc := .reset }
  | reset {s : Session} (hp : s.pc = .reset) : Step s .reset { s with pc := .loop }

/-- The session's steps as a function of the action. -/
def exec (s : Session) (a : Action) : Option Session :=
  match a, s.pc with
  | .Stop, _ => some { s with _terminate := true, stopped := true }
  | .loop, .loop => some { s with pc := if s._terminate then .ended else .make_shared }
  | .make_shared, .make_shared => some { s with pc := .phase .resolve }
  | .phase ok, .phase p => some { s with pc := .afterPhase p ok }
  | .receive, .receive terminating =>
    some { s with pc := if !s._terminate || terminating then .read terminating else .close }
  | .read payload, .read terminating =>
    some { s with
      _buffer := s._buffer ++ payload
      pc := if s._buffer ++ payload = [] then .clear terminating else .deliver terminating }
  | .read_error received, .read _ =>
    some { s with _buffer := s._buffer ++ received, pc := .caught }
  | .WebSocketMessageReceived text, .deliver terminating =>
    if text = s._buffer then some { s with pc := .clear terminating } else none
  | .clear, .clear terminating => some { s with _buffer := [], pc := .receive terminating }
  | .close, .close => some { s with pc := .receive true }
  | .close_error, .close => some { s with pc := .caught }
  | .handler, .caught => some { s with _terminate := true, pc := .returning }
  | .WebSocketConnectionDown, .returning => some { s with pc := .reset }
  | .WebSocketConnectionDown, .failed => some { s with pc := .reset }
  | .reset, .reset => some { s with pc := .loop }
  | _, _ => none

theorem step_of_exec (s : Session) (a : Action) (t : Session) (h : exec s a = some t) :
    Step s a t := by
  unfold exec at h
  split at h
  case h_1 =>
    cases h
    exact .Stop
  case h_2 hp =>
    cases h
    exact .loop hp
  case h_3 hp =>
    cases h
    exact .make_shared hp
  case h_4 hp =>
    cases h
    exact .phase hp
  case h_5 hp =>
    cases h
    exact .receive hp
  case h_6 hp =>
    cases h
    exact .read hp
  case h_7 hp =>
    cases h
    exact .read_error hp
  case h_8 hp =>
    split at h
    · rename_i ht
      subst ht
      cases h
      exact .deliver hp
    · contradiction
  case h_9 hp =>
    cases h
    exact .clear hp
  case h_10 hp =>
    cases h
    exact .close hp
  case h_11 hp =>
    cases h
    exact .close_error hp
  case h_12 hp =>
    cases h
    exact .handler hp
  case h_13 hp =>
    cases h
    exact .returning hp
  case h_14 hp =>
    cases h
    exact .failed hp
  case h_15 hp =>
    cases h
    exact .reset hp
  case h_16 => contradiction

/-- The worker loop is never left again. -/
theorem ended_step {s t : Session} {a : Action} (h : Step s a t) (hp : s.pc = .ended) :
    a = .Stop ∧ t.pc = .ended := by
  cases h with
  | Stop => exact ⟨rfl, hp⟩
  | loop h | make_shared h | phase h | receive h | read h | read_error h | deliver h | clear h
  | close h | close_error h | handler h | returning h | failed h | reset h =>
    rw [hp] at h
    contradiction

end RabbitClient.WebSocketSession
