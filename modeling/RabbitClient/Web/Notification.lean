import RabbitClient.Web.Session

/-! What the callbacks see of each connection attempt: its messages, then one notification. -/
namespace RabbitClient.WebSocketSession

open Lts

inductive Callback where
  | messageReceived (text : Bytes)
  | connectionDown
deriving DecidableEq

def Action.callback : Action → Option Callback
  | .WebSocketMessageReceived text => some (.messageReceived text)
  | .WebSocketConnectionDown => some .connectionDown
  | _ => none

/-- What happens from one `make_shared` to the next: the payloads of the reads that succeed,
the calls of `close`, and the callbacks. -/
structure Attempt where
  reads : List Bytes := []
  closes : Nat := 0
  callbacks : List Callback := []
deriving DecidableEq

def Attempt.note (a : Attempt) : Action → Attempt
  | .read payload => { a with reads := a.reads ++ [payload] }
  | .close | .close_error => { a with closes := a.closes + 1 }
  | .WebSocketMessageReceived text => { a with callbacks := a.callbacks ++ [.messageReceived text] }
  | .WebSocketConnectionDown => { a with callbacks := a.callbacks ++ [.connectionDown] }
  | _ => a

/-- The attempts so far and one more step, the latest first. -/
def noteAttempt (attempts : List Attempt) : Action → List Attempt
  | .make_shared => {} :: attempts
  | x => attempts.modifyHead (·.note x)

/-- The attempts of a run, the latest first. -/
def attempts (as : List Action) : List Attempt := as.foldl noteAttempt []

/-- A message for every read that was not empty. -/
def messages (reads : List Bytes) : List Callback :=
  (reads.filter (· ≠ [])).map .messageReceived

def Attempt.Complete (a : Attempt) : Prop :=
  a.callbacks = messages a.reads ++ [.connectionDown] ∧ a.closes ≤ 1

/-- No notification yet, and at most the latest message still to be delivered. -/
def Attempt.Ongoing (a : Attempt) : Prop :=
  (a.callbacks = messages a.reads ∨
      ∃ text, a.callbacks ++ [.messageReceived text] = messages a.reads) ∧ a.closes ≤ 1

/-- The worker is between the start of an attempt and its notification. -/
def PC.attempting : PC → Bool
  | .loop | .make_shared | .reset | .ended => false
  | _ => true

variable {s t : Session} {x : Action} {as : List Action} {a : Attempt}

theorem messages_append_nil (reads : List Bytes) : messages (reads ++ [[]]) = messages reads := by
  simp [messages]

theorem messages_append {payload : Bytes} (reads : List Bytes) (h : payload ≠ []) :
    messages (reads ++ [payload]) = messages reads ++ [.messageReceived payload] := by
  simp [messages, h]

/-- The calls of `close` so far. Once it has returned it is not called again. -/
def closesBy (terminating : Bool) : Nat := if terminating then 1 else 0

theorem closesBy_le_one (terminating : Bool) : closesBy terminating ≤ 1 := by
  cases terminating <;> decide

/-- The attempt under way when the worker is at some point of it. -/
def AtPC (s : Session) (a : Attempt) : PC → Prop
  | .phase _ | .failed => s._buffer = [] ∧ a = {}
  | .receive terminating | .read terminating =>
    s._buffer = [] ∧ a.callbacks = messages a.reads ∧ a.closes = closesBy terminating
  | .deliver terminating =>
    a.callbacks ++ [.messageReceived s._buffer] = messages a.reads ∧
      a.closes = closesBy terminating
  | .clear terminating => a.callbacks = messages a.reads ∧ a.closes = closesBy terminating
  | .close => s._buffer = [] ∧ a.callbacks = messages a.reads ∧ a.closes = 0
  | .caught => a.callbacks = messages a.reads ∧ a.closes ≤ 1
  | .returning => s._terminate = true ∧ a.callbacks = messages a.reads ∧ a.closes ≤ 1
  | .loop | .make_shared | .reset | .ended => False

/-- The buffer is empty between two attempts, unless the worker is about to end. -/
def Resting (s : Session) : Prop :=
  s._buffer = [] ∨ (s._terminate = true ∧ s.pc ≠ .make_shared)

/-- A step of an attempt leads on inside it, or completes it. -/
theorem step_attempting (h : Step s x t) (hp : s.pc.attempting = true) (ha : AtPC s a s.pc) :
    (t.pc.attempting = true ∧ AtPC t (a.note x) t.pc) ∨
      (t.pc.attempting = false ∧ (a.note x).Complete ∧ Resting t) := by
  cases h with
  | Stop =>
    left
    refine ⟨hp, ?_⟩
    show AtPC _ a s.pc
    cases hs : s.pc <;> rw [hs] at ha
    case returning => exact ⟨rfl, ha.2⟩
    all_goals exact ha
  | loop hs | make_shared hs | reset hs =>
    rw [hs] at ha
    exact ha.elim
  | @phase p ok hs =>
    rw [hs] at ha
    obtain ⟨hb, rfl⟩ := ha
    left
    simp only [PC.afterPhase]
    split
    · split
      · exact ⟨rfl, hb, rfl⟩
      · exact ⟨rfl, hb, rfl, rfl⟩
    · exact ⟨rfl, hb, rfl⟩
  | @receive terminating hs =>
    rw [hs] at ha
    left
    split
    · exact ⟨rfl, ha⟩
    · rename_i hclose
      have hterm : terminating = false := by
        cases terminating
        · rfl
        · simp at hclose
      subst hterm
      exact ⟨rfl, ha⟩
  | @read terminating payload hs =>
    rw [hs] at ha
    obtain ⟨hb, hc, hcl⟩ := ha
    left
    rw [hb, List.nil_append]
    split
    · rename_i hnil
      subst hnil
      refine ⟨rfl, ?_, hcl⟩
      show a.callbacks = messages (a.reads ++ [[]])
      rw [messages_append_nil, hc]
    · rename_i hne
      refine ⟨rfl, ?_, hcl⟩
      show a.callbacks ++ [.messageReceived payload] = messages (a.reads ++ [payload])
      rw [messages_append _ hne, hc]
  | @read_error terminating received hs =>
    rw [hs] at ha
    obtain ⟨_, hc, hcl⟩ := ha
    left
    refine ⟨rfl, hc, ?_⟩
    show a.closes ≤ 1
    rw [hcl]
    exact closesBy_le_one terminating
  | deliver hs =>
    rw [hs] at ha
    exact .inl ⟨rfl, ha⟩
  | clear hs =>
    rw [hs] at ha
    exact .inl ⟨rfl, rfl, ha⟩
  | close hs =>
    rw [hs] at ha
    obtain ⟨hb, hc, hcl⟩ := ha
    left
    refine ⟨rfl, hb, hc, ?_⟩
    show a.closes + 1 = 1
    rw [hcl]
  | close_error hs =>
    rw [hs] at ha
    obtain ⟨_, hc, hcl⟩ := ha
    left
    refine ⟨rfl, hc, ?_⟩
    show a.closes + 1 ≤ 1
    rw [hcl]
  | handler hs =>
    rw [hs] at ha
    exact .inl ⟨rfl, rfl, ha⟩
  | returning hs =>
    rw [hs] at ha
    obtain ⟨ht, hc, hcl⟩ := ha
    right
    refine ⟨rfl, ⟨?_, hcl⟩, .inr ⟨ht, by simp⟩⟩
    show a.callbacks ++ [.connectionDown] = _
    rw [hc]
    rfl
  | failed hs =>
    rw [hs] at ha
    obtain ⟨hb, rfl⟩ := ha
    right
    exact ⟨rfl, ⟨rfl, Nat.zero_le _⟩, .inl hb⟩

/-- Between two attempts nothing is called back. -/
theorem step_resting (h : Step s x t) (hp : s.pc.attempting = false) (hr : Resting s) :
    (x = .make_shared ∧ t.pc = .phase .resolve ∧ t._buffer = []) ∨
      ((∀ l, noteAttempt l x = l) ∧ x.callback = none ∧ t.pc.attempting = false ∧ Resting t) := by
  have hsame : ∀ l : List Attempt, l.modifyHead (fun a => a) = l := by
    intro l
    cases l <;> rfl
  cases h with
  | Stop =>
    right
    refine ⟨hsame, rfl, hp, ?_⟩
    exact hr.imp_right fun h => ⟨rfl, h.2⟩
  | loop hs =>
    right
    refine ⟨hsame, rfl, ?_, ?_⟩
    · show PC.attempting (if s._terminate = true then .ended else .make_shared) = false
      split <;> rfl
    · rcases hr with hb | ⟨ht, _⟩
      · exact .inl hb
      · exact .inr ⟨ht, by simp [ht]⟩
  | make_shared hs =>
    left
    refine ⟨rfl, rfl, ?_⟩
    exact hr.resolve_right fun h => h.2 hs
  | reset hs =>
    right
    exact ⟨hsame, rfl, rfl, hr.imp_right fun h => ⟨h.1, by simp⟩⟩
  | phase hs | receive hs | read hs | read_error hs | deliver hs | clear hs | close hs
  | close_error hs | handler hs | returning hs | failed hs =>
    rw [hs] at hp
    contradiction

/-- The attempts of a run match the point its worker has reached. -/
structure Traced (as : List Action) (s : Session) : Prop where
  inside : s.pc.attempting = true →
    ∃ a rest, attempts as = a :: rest ∧ AtPC s a s.pc ∧ ∀ b ∈ rest, b.Complete
  outside : s.pc.attempting = false → (∀ b ∈ attempts as, b.Complete) ∧ Resting s
  callbacks : as.filterMap Action.callback = (attempts as).reverse.flatMap Attempt.callbacks

theorem attempts_concat (as : List Action) (x : Action) :
    attempts (as ++ [x]) = noteAttempt (attempts as) x := by simp [attempts]

theorem callbacks_note (a : Attempt) (x : Action) :
    (a.note x).callbacks = a.callbacks ++ x.callback.toList := by
  cases x <;> simp [Attempt.note, Action.callback]

theorem traced_step (hs : Traced as s) (h : Step s x t) : Traced (as ++ [x]) t := by
  have hcb : (as ++ [x]).filterMap Action.callback =
      (attempts as).reverse.flatMap Attempt.callbacks ++ x.callback.toList := by
    rw [List.filterMap_append, hs.callbacks]
    cases hx : x.callback <;> simp [hx]
  cases hp : s.pc.attempting with
  | true =>
    obtain ⟨a, rest, hl, ha, hrest⟩ := hs.inside hp
    have hx : noteAttempt (a :: rest) x = a.note x :: rest := by
      cases x
      case make_shared =>
        cases h with
        | make_shared hm => simp [hm, PC.attempting] at hp
      all_goals rfl
    rw [hl] at hcb
    have hall : attempts (as ++ [x]) = a.note x :: rest := by rw [attempts_concat, hl, hx]
    have htotal : (as ++ [x]).filterMap Action.callback =
        (attempts (as ++ [x])).reverse.flatMap Attempt.callbacks := by
      rw [hcb, hall]
      simp [callbacks_note]
    rcases step_attempting h hp ha with ⟨ht, hat⟩ | ⟨ht, hdone, hr⟩
    · refine ⟨fun _ => ⟨_, rest, hall, hat, hrest⟩, ?_, htotal⟩
      intro hf
      rw [ht] at hf
      contradiction
    · refine ⟨?_, fun _ => ⟨?_, hr⟩, htotal⟩
      · intro hf
        rw [ht] at hf
        contradiction
      · rw [hall]
        exact List.forall_mem_cons.mpr ⟨hdone, hrest⟩
  | false =>
    obtain ⟨hdone, hr⟩ := hs.outside hp
    rcases step_resting h hp hr with ⟨rfl, ht, hb⟩ | ⟨hsame, hnone, ht, hr'⟩
    · have hall : attempts (as ++ [.make_shared]) = {} :: attempts as := attempts_concat ..
      refine ⟨fun _ => ⟨{}, _, hall, ?_, hdone⟩, ?_, ?_⟩
      · rw [ht]
        exact ⟨hb, rfl⟩
      · intro hf
        rw [ht] at hf
        contradiction
      · rw [hcb, hall]
        simp [Action.callback]
    · have hall : attempts (as ++ [x]) = attempts as := by rw [attempts_concat, hsame]
      refine ⟨?_, fun _ => ⟨?_, hr'⟩, ?_⟩
      · intro hf
        rw [ht] at hf
        contradiction
      · rw [hall]
        exact hdone
      · rw [hcb, hall, hnone]
        simp

theorem ongoing_of_atPC (hp : s.pc.attempting = true) (h : AtPC s a s.pc) : a.Ongoing := by
  cases hs : s.pc <;> rw [hs] at h hp
  case phase | failed =>
    rw [h.2]
    exact ⟨.inl rfl, Nat.zero_le _⟩
  case receive | read => exact ⟨.inl h.2.1, h.2.2 ▸ closesBy_le_one _⟩
  case deliver => exact ⟨.inr ⟨_, h.1⟩, h.2 ▸ closesBy_le_one _⟩
  case clear => exact ⟨.inl h.1, h.2 ▸ closesBy_le_one _⟩
  case close => exact ⟨.inl h.2.1, by simp [h.2.2]⟩
  case caught => exact ⟨.inl h.1, h.2⟩
  case returning => exact ⟨.inl h.2.1, h.2.2⟩
  all_goals contradiction

theorem ended_run (h : Run Step s as t) (hp : s.pc = .ended) :
    as.filterMap Action.callback = [] := by
  induction h with
  | refl => rfl
  | stepL hst _ ih =>
    obtain ⟨rfl, ht⟩ := ended_step hst hp
    exact ih ht

/-- Every callback belongs to an attempt. An attempt that is over has delivered the non-empty
reads in order and then one notification, and called `close` at most once; the one under way has
delivered them all, or all but the latest. After the worker loop has ended nothing is called back. -/
theorem attempts_notified (hr : Run Step {} as t) :
    as.filterMap Action.callback = (attempts as).reverse.flatMap Attempt.callbacks ∧
    (t.pc.attempting = false → ∀ a ∈ attempts as, a.Complete) ∧
    (t.pc.attempting = true →
      ∃ a rest, attempts as = a :: rest ∧ a.Ongoing ∧ ∀ b ∈ rest, b.Complete) ∧
    ∀ xs ys u, as = xs ++ ys → Run Step {} xs u → u.pc = .ended → Run Step u ys t →
      ys.filterMap Action.callback = [] := by
  have hstart : Traced [] {} := by
    refine ⟨?_, ?_, rfl⟩
    · intro hp
      contradiction
    · intro _
      exact ⟨fun b hb => (List.not_mem_nil hb).elim, .inl rfl⟩
  have h : Traced ([] ++ as) t := run_history (fun _ _ _ _ hs hst => traced_step hs hst) hr hstart
  rw [List.nil_append] at h
  refine ⟨h.callbacks, fun hp => (h.outside hp).1, ?_, ?_⟩
  · intro hp
    obtain ⟨a, rest, hl, ha, hrest⟩ := h.inside hp
    exact ⟨a, rest, hl, ongoing_of_atPC hp ha, hrest⟩
  · intro xs ys u _ _ hu hys
    exact ended_run hys hu

/-- A failed attempt, then one with two messages and an empty read, stopped after the first:
the second message arrives after the close. -/
def stoppedSession : List Action :=
  [.loop, .make_shared, .phase true, .phase false, .WebSocketConnectionDown, .reset, .loop,
    .make_shared, .phase true, .phase true, .phase true, .phase true, .phase true, .receive,
    .read [65], .WebSocketMessageReceived [65], .clear, .receive, .read [], .clear, .Stop,
    .receive, .close, .receive, .read [66], .WebSocketMessageReceived [66], .clear, .receive,
    .read_error [67], .handler, .WebSocketConnectionDown, .reset, .loop]

theorem attempts_notified_stopped :
    attempts stoppedSession =
        [⟨[[65], [], [66]], 1, [.messageReceived [65], .messageReceived [66], .connectionDown]⟩,
          ⟨[], 0, [.connectionDown]⟩] ∧
      ∀ a ∈ attempts stoppedSession, a.Complete := by
  obtain ⟨t, ht, hp⟩ := exists_run_of_execAll step_of_exec {} stoppedSession
    (fun t => decide (t.pc = .ended)) (by decide)
  have hend : t.pc.attempting = false := by
    rw [of_decide_eq_true hp]
    rfl
  exact ⟨by decide, (attempts_notified ht).2.1 hend⟩

end RabbitClient.WebSocketSession
