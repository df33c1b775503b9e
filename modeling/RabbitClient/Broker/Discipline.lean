import RabbitClient.Broker.Lifetime

/-! Methods go over the channel that was opened for them, and what was opened is closed: when that
holds of the whole life of an object. -/
namespace RabbitClient.BrokerObject

open Bytes MessageBroker

/-- The connection and the channel an event goes over. -/
def Event.channel : Event → Option (Nat × UInt16)
  | .method c k _ | .channel_close c k => some (c, k)
  | _ => none

/-- Every method goes over the channel opened before on its connection, and what was opened is
closed and destroyed once. -/
structure Disciplined (log : List Event) : Prop where
  channel : ∀ before e after c k, log = before ++ e :: after → e.channel = some (c, k) →
    .channel_open c k ∈ before
  closed : ∀ c k, .channel_open c k ∈ log → log.count (.channel_close c k) = 1
  destroyed : ∀ c, .new_connection c ∈ log → log.count (.destroy_connection c) = 1

variable {n : Nat} {s t : State} {kind : Kind} {peer : Peer} {calls : List Call}
  {ms log : List Event} {attempts : List (BrokerInfo × Socket)} {info : BrokerInfo}
  {socket : Socket}

/-- After `n` attempts the object knows the last connection state only; none is destroyed. -/
structure Attempted (n : Nat) (s : State) : Prop where
  made : s.made = n
  last : ∀ c, s.conn_ = some c → c.id + 1 = n
  created : ∀ c < n, .new_connection c ∈ s.log
  kept : ∀ c, .destroy_connection c ∉ s.log

theorem attempted_begun (h : Attempted n s) (info : BrokerInfo) (socket : Socket) :
    Attempted (n + 1) (s.begun info socket) := by
  obtain ⟨rfl, hlast, hcreated, hkept⟩ := h
  obtain ⟨es, hlog, hes⟩ := begun_log s info socket
  refine ⟨begun_made s info socket, ?_, ?_, ?_⟩
  · intro c hc
    rw [begun_conn_] at hc
    rw [← Option.some.inj hc]
  · intro c hc
    rw [hlog]
    by_cases hlt : c < s.made
    · exact List.mem_append_left _ (hcreated c hlt)
    · obtain rfl : c = s.made := by omega
      simp
  · intro c
    simp [hlog, hkept, hes]

theorem OverChannel.notMem {e : Event} (h : OverChannel s ms) (he : ∀ c k m, e ≠ .method c k m) :
    e ∉ ms := by
  intro hmem
  obtain ⟨c, m, -, heq⟩ := h e hmem
  exact he c s.info_.channel m heq

theorem OverChannel.destroy_notMem (h : OverChannel s ms) (c : Nat) :
    .destroy_connection c ∉ ms := h.notMem (by simp)

theorem OverChannel.close_notMem (h : OverChannel s ms) (c : Nat) (k : UInt16) :
    .channel_close c k ∉ ms := h.notMem (by simp)

theorem Attempted.sends_ok {r : Except (List Event) State} (h : Attempted n s) (hr : Sends s r)
    (ht : r = .ok t) : Attempted n t := by
  obtain ⟨ms, hms, rfl⟩ := hr.ok t ht
  exact ⟨h.made, h.last, fun c hc => List.mem_append_left _ (h.created c hc),
    fun c => by simp [h.kept, hms.destroy_notMem]⟩

/-- The log of a process that has ended: `n` connection states were made, none is destroyed. -/
structure Abandoned (n : Nat) (log : List Event) : Prop where
  created : ∀ c < n, .new_connection c ∈ log
  kept : ∀ c, .destroy_connection c ∉ log

theorem Attempted.sends_error {r : Except (List Event) State} (h : Attempted n s) (hr : Sends s r)
    (hlog : r = .error log) : Abandoned n log := by
  obtain ⟨ms, hms, rfl⟩ := hr.error log hlog
  exact ⟨fun c hc => List.mem_append_left _ (h.created c hc),
    fun c => by simp [h.kept, hms.destroy_notMem]⟩

theorem attempted_start : Attempted 0 {} where
  made := rfl
  last := by simp
  created := by simp
  kept := by simp

/-- What the attempts leave behind, whichever of them ends the process. -/
theorem attempts_from (kind : Kind) (peer : Peer) (h : Attempted n s)
    (attempts : List (BrokerInfo × Socket)) :
    (∀ t, attempts.foldlM (fun s a => s.opened peer kind a.1 a.2) s = .ok t →
      Attempted (n + attempts.length) t) ∧
    ∀ log, attempts.foldlM (fun s a => s.opened peer kind a.1 a.2) s = .error log →
      Abandoned (n + 1) log := by
  induction attempts generalizing n s with
  | nil =>
    constructor
    · intro t ht
      cases ht
      exact h
    · intro log hlog
      cases hlog
  | cons a attempts ih =>
    have hbegun := attempted_begun h a.1 a.2
    have hsends := sends_opened s peer kind a.1 a.2
    rw [List.foldlM_cons]
    cases ha : s.opened peer kind a.1 a.2 with
    | error log =>
      constructor
      · intro t ht
        cases ht
      · intro log' hlog
        cases hlog
        exact hbegun.sends_error hsends ha
    | ok u =>
      obtain ⟨hok, herror⟩ := ih (hbegun.sends_ok hsends ha)
      constructor
      · intro t ht
        have hatt := hok t ht
        rwa [Nat.add_right_comm] at hatt
      · intro log hlog
        obtain ⟨hcreated, hkept⟩ := herror log hlog
        exact ⟨fun c hc => hcreated c (by omega), hkept⟩

/-- The life of an object up to its destructor. -/
def lived (kind : Kind) (peer : Peer) (attempts : List (BrokerInfo × Socket))
    (calls : List Call) : Except (List Event) State :=
  attempted kind peer attempts >>= fun s => calls.foldlM (State.call · peer) s

theorem lived_ok (h : lived kind peer attempts calls = .ok s) : Attempted attempts.length s := by
  obtain ⟨hok, -⟩ := attempts_from kind peer attempted_start attempts
  rw [lived] at h
  cases hatt : attempted kind peer attempts with
  | error log =>
    rw [hatt] at h
    cases h
  | ok u =>
    rw [hatt] at h
    have hu := hok u hatt
    rw [Nat.zero_add] at hu
    exact hu.sends_ok (sends_calls u peer calls) h

theorem lived_error (h : lived kind peer attempts calls = .error log) :
    Abandoned (min 1 attempts.length) log := by
  obtain ⟨hok, herror⟩ := attempts_from kind peer attempted_start attempts
  rw [lived] at h
  cases hatt : attempted kind peer attempts with
  | error log' =>
    rw [hatt] at h
    cases h
    obtain ⟨hcreated, hkept⟩ := herror log hatt
    exact ⟨fun c hc => hcreated c (by omega), hkept⟩
  | ok u =>
    rw [hatt] at h
    obtain ⟨hcreated, hkept⟩ := (hok u hatt).sends_error (sends_calls u peer calls) h
    exact ⟨fun c hc => hcreated c (by omega), hkept⟩

/-- What the destructor adds to the log. -/
def farewell (peer : Peer) (s : State) : List Event :=
  match s.conn_, s.socket_ with
  | some c, none => [.destroy_connection c.id]
  | some ⟨c, .opened⟩, some _ =>
    if peer.lenient ∨ .channel_open c 1 ∈ s.log then
      [.channel_close c 1, .connection_close c, .destroy_connection c]
    else [.channel_close c 1]
  | _, _ => []

theorem destruct_log (peer : Peer) (s : State) :
    (match s.destruct peer with
      | .ok t => t.log
      | .error log => log) = s.log ++ farewell peer s := by
  obtain ⟨conn_, socket_, info_, made, log⟩ := s
  rcases socket_ with - | d
  · cases conn_ <;> simp [State.destruct, farewell, bind, Except.bind, pure, Except.pure]
  · rcases conn_ with - | ⟨c, - | - | -⟩ <;>
      simp [State.destruct, State.close, farewell, bind, Except.bind]
    by_cases h : peer.lenient = true ∨ Event.channel_open c 1 ∈ log <;>
      simp [h, pure, Except.pure]

theorem run_eq : run kind peer attempts calls =
    lived kind peer attempts calls >>= fun s => s.destruct peer := by
  rw [run, lived, bind_assoc]

theorem trace_ok (h : lived kind peer attempts calls = .ok s) :
    trace kind peer attempts calls = s.log ++ farewell peer s := by
  rw [trace, run_eq, h]
  exact destruct_log peer s

theorem trace_error (h : lived kind peer attempts calls = .error log) :
    trace kind peer attempts calls = log := by
  rw [trace, run_eq, h]
  rfl

theorem farewell_destroy {c : Nat} (h : .destroy_connection c ∈ farewell peer s) :
    ∃ socket, s.conn_ = some ⟨c, socket⟩ := by
  unfold farewell at h
  split at h
  · rename_i d hconn _
    obtain rfl : c = d.id := by simpa using h
    exact ⟨d.socket, hconn⟩
  · rename_i d _ hconn _
    split at h
    · obtain rfl : c = d := by simpa using h
      exact ⟨.opened, hconn⟩
    · simp at h
  · simp at h

theorem farewell_close {c : Nat} {k : UInt16} (h : .channel_close c k ∈ farewell peer s) :
    k = 1 := by
  unfold farewell at h
  split at h
  · simp at h
  · split at h <;> simp_all
  · simp at h

/-- Only the last connection state made is ever destroyed. -/
theorem destroy_of_mem_trace {c : Nat}
    (h : .destroy_connection c ∈ trace kind peer attempts calls) :
    c + 1 = attempts.length := by
  cases hlived : lived kind peer attempts calls with
  | error log =>
    rw [trace_error hlived] at h
    exact ((lived_error hlived).kept c h).elim
  | ok s =>
    rw [trace_ok hlived] at h
    have hatt := lived_ok hlived
    rcases List.mem_append.mp h with h | h
    · exact (hatt.kept c h).elim
    · obtain ⟨socket, hconn⟩ := farewell_destroy h
      exact hatt.last _ hconn

theorem new_mem_trace (h : attempts ≠ []) :
    .new_connection 0 ∈ trace kind peer attempts calls := by
  have hpos : 0 < attempts.length := List.length_pos_iff.mpr h
  cases hlived : lived kind peer attempts calls with
  | error log =>
    rw [trace_error hlived]
    exact (lived_error hlived).created 0 (by omega)
  | ok s =>
    rw [trace_ok hlived]
    exact List.mem_append_left _ ((lived_ok hlived).created 0 hpos)

/-- The life of an object that was opened once, on channel 1. -/
theorem disciplined_single (h : ∀ e ∈ ms, ∃ m, e = .method 0 1 m) :
    Disciplined ([.new_connection 0, .channel_open 0 1] ++ ms ++
      [.channel_close 0 1, .connection_close 0, .destroy_connection 0]) := by
  have hnot : ∀ e, (∀ m, e ≠ .method 0 1 m) → e ∉ ms := by
    intro e hne he
    obtain ⟨m, heq⟩ := h e he
    exact hne m heq
  have hclose : ∀ c k, ms.count (.channel_close c k) = 0 :=
    fun c k => List.count_eq_zero_of_not_mem (hnot _ (by simp))
  have hdestroy : ∀ c, ms.count (.destroy_connection c) = 0 :=
    fun c => List.count_eq_zero_of_not_mem (hnot _ (by simp))
  have hnew : ∀ c, .new_connection c ∉ ms := fun c => hnot _ (by simp)
  have hopen : ∀ c k, .channel_open c k ∉ ms := fun c k => hnot _ (by simp)
  constructor
  · intro before e after c k hlog hchan
    have hmem : e ∈ ms ∨ e = .channel_close 0 1 := by
      have hin : e ∈ before ++ e :: after := by simp
      rw [← hlog] at hin
      simp only [List.mem_append, List.mem_cons, List.not_mem_nil, or_false] at hin
      rcases hin with ((rfl | rfl) | he) | rfl | rfl | rfl
      · simp [Event.channel] at hchan
      · simp [Event.channel] at hchan
      · exact .inl he
      · exact .inr rfl
      · simp [Event.channel] at hchan
      · simp [Event.channel] at hchan
    have hck : c = 0 ∧ k = 1 := by
      rcases hmem with he | rfl
      · obtain ⟨m, rfl⟩ := h e he
        simpa [Event.channel, eq_comm] using hchan
      · simpa [Event.channel, eq_comm] using hchan
    obtain ⟨rfl, rfl⟩ := hck
    -- the two events of `open` come before anything that goes over a channel
    rcases before with - | ⟨x, - | ⟨y, before⟩⟩
    · simp only [List.nil_append, List.cons_append, List.cons.injEq] at hlog
      simp [← hlog.1, Event.channel] at hchan
    · simp only [List.nil_append, List.cons_append, List.cons.injEq] at hlog
      simp [← hlog.2.1, Event.channel] at hchan
    · simp only [List.cons_append, List.cons.injEq] at hlog
      simp [← hlog.2.1]
  · intro c k hck
    obtain ⟨rfl, rfl⟩ : c = 0 ∧ k = 1 := by simpa [hopen] using hck
    simp [hclose]
  · intro c hc
    obtain rfl : c = 0 := by simpa [hnew] using hc
    simp [hdestroy]

theorem disciplined_nil : Disciplined [] where
  channel := by simp
  closed := by simp
  destroyed := by simp

/-- A connection state that could not be opened is destroyed and nothing else. -/
theorem disciplined_unopened : Disciplined [.new_connection 0, .destroy_connection 0] where
  channel := by
    intro before e after c k hlog hchan
    have hin : e ∈ before ++ e :: after := by simp
    rw [← hlog] at hin
    simp only [List.mem_cons, List.not_mem_nil, or_false] at hin
    rcases hin with rfl | rfl <;> simp [Event.channel] at hchan
  closed := by simp
  destroyed := by simp

theorem OverChannel.eq_nil (h : OverChannel s ms) (hconn : ∀ c, s.conn_ ≠ some ⟨c, .opened⟩) :
    ms = [] := by
  apply List.eq_nil_iff_forall_not_mem.mpr
  intro e he
  obtain ⟨c, _, hc, _⟩ := h e he
  exact hconn c hc

theorem mem_of_disciplined {c : Nat} (h : Disciplined log) (hc : .new_connection c ∈ log) :
    .destroy_connection c ∈ log := by
  apply List.count_pos_iff.mp
  have hone := h.destroyed c hc
  omega

/-- An object that was never opened has done nothing when it is gone. -/
theorem trace_nil (kind : Kind) (peer : Peer) (calls : List Call) :
    trace kind peer [] calls = [] := by
  have hsends : Sends {} (lived kind peer [] calls) := sends_calls {} peer calls
  cases hlived : lived kind peer [] calls with
  | error log =>
    obtain ⟨ms, hms, rfl⟩ := hsends.error log hlived
    rw [trace_error hlived, hms.eq_nil (by simp)]
  | ok s =>
    obtain ⟨ms, hms, rfl⟩ := hsends.ok s hlived
    rw [trace_ok hlived, hms.eq_nil (by simp)]
    rfl

theorem lived_single (kind : Kind) (peer : Peer) (info : BrokerInfo) (socket : Socket) (calls : List Call) :
    lived kind peer [(info, socket)] calls =
      ({} : State).opened peer kind info socket >>= fun s => calls.foldlM (State.call · peer) s := by
  rw [lived, attempted, List.foldlM_cons]
  cases ({} : State).opened peer kind info socket <;> rfl

theorem sends_lived (kind : Kind) (peer : Peer) (info : BrokerInfo) (socket : Socket) (calls : List Call) :
    Sends (({} : State).begun info socket) (lived kind peer [(info, socket)] calls) := by
  rw [lived_single]
  exact (sends_opened {} peer kind info socket).bind fun t _ => sends_calls t peer calls

theorem opened_unopened (s : State) (kind : Kind) (info : BrokerInfo) (h : socket ≠ .opened) :
    s.opened peer kind info socket = .ok (s.begun info socket) := by
  cases socket with
  | opened => exact (h rfl).elim
  | closed => rfl
  | missing => rfl

/-- An object that was opened once reaches its destructor exactly if no declaration and no call
ends the process. -/
theorem lived_ok_iff :
    (∃ s, lived kind peer [(info, socket)] calls = .ok s) ↔
      (socket = .opened → Openable peer 0 info kind) ∧ ∀ x ∈ calls, Usable info socket x := by
  have hopened : (∃ u, ({} : State).opened peer kind info socket = .ok u) ↔
      (socket = .opened → Openable peer 0 info kind) := by
    by_cases h : socket = .opened
    · rw [h, opened_ok_iff]
      simp
    · simp [opened_unopened _ kind info h, h]
  have hcalls {u : State} (hu : ({} : State).opened peer kind info socket = .ok u) :
      (∃ s, calls.foldlM (State.call · peer) u = .ok s) ↔ ∀ x ∈ calls, Usable info socket x := by
    obtain ⟨ms, -, rfl⟩ := (sends_opened {} peer kind info socket).ok u hu
    have husable := calls_ok_iff peer calls
      (s := { ({} : State).begun info socket with
        log := (({} : State).begun info socket).log ++ ms }) (begun_conn_ {} info socket)
    rwa [begun_info_] at husable
  rw [lived_single, bind_ok_iff, ← hopened]
  constructor
  · rintro ⟨u, hu, hok⟩
    exact ⟨⟨u, hu⟩, (hcalls hu).mp hok⟩
  · rintro ⟨⟨u, hu⟩, hok⟩
    exact ⟨u, hu, (hcalls hu).mpr hok⟩

theorem begun_opened_log (info : BrokerInfo) : (({} : State).begun info .opened).log =
    [.new_connection 0, .channel_open 0 info.channel] := rfl

/-- On another channel the destructor does not close what was opened. -/
theorem channel_of_disciplined
    (h : Disciplined (trace kind peer [(info, .opened)] calls)) : info.channel = 1 := by
  have hsends := sends_lived kind peer info .opened calls
  have hone := h.closed 0 info.channel
  cases hlived : lived kind peer [(info, .opened)] calls with
  | error log =>
    obtain ⟨ms, hms, rfl⟩ := hsends.error log hlived
    rw [trace_error hlived, begun_opened_log] at hone
    have hclose := List.count_eq_zero_of_not_mem (hms.close_notMem 0 info.channel)
    simp [hclose] at hone
  | ok s =>
    obtain ⟨ms, hms, rfl⟩ := hsends.ok s hlived
    rw [trace_ok hlived, begun_opened_log] at hone
    have hpos := List.count_pos_iff.mp (Nat.lt_of_lt_of_eq Nat.one_pos (hone (by simp)).symm)
    simp only [List.mem_append, List.mem_cons, hms.close_notMem, reduceCtorEq, List.not_mem_nil,
      false_or] at hpos
    exact farewell_close hpos

/-- The trace of an object that was opened once, if nothing ends the process. -/
theorem trace_single_opened (peer : Peer) (hchannel : info.channel = 1)
    (hlived : lived kind peer [(info, .opened)] calls = .ok s) :
    ∃ ms, (∀ e ∈ ms, ∃ m, e = .method 0 1 m) ∧ trace kind peer [(info, .opened)] calls =
      [.new_connection 0, .channel_open 0 1] ++ ms ++
        [.channel_close 0 1, .connection_close 0, .destroy_connection 0] := by
  obtain ⟨ms, hms, rfl⟩ := (sends_lived kind peer info .opened calls).ok s hlived
  refine ⟨ms, ?_, ?_⟩
  · intro e he
    obtain ⟨c, m, hconn, rfl⟩ := hms e he
    rw [begun_conn_, Option.some_inj, Connection.mk.injEq] at hconn
    obtain ⟨rfl, -⟩ := hconn
    exact ⟨m, by rw [begun_info_, hchannel]⟩
  · rw [trace_ok hlived, begun_opened_log, hchannel]
    simp [farewell, State.begun, State.open_socket]

/-- An object whose connection stayed closed sends nothing. -/
theorem trace_single_unopened (peer : Peer) (hsocket : socket ≠ .opened)
    (hlived : lived kind peer [(info, socket)] calls = .ok s) :
    trace kind peer [(info, socket)] calls = [.new_connection 0, .destroy_connection 0] := by
  obtain ⟨ms, hms, rfl⟩ := (sends_lived kind peer info socket calls).ok s hlived
  have hnil : ms = [] := hms.eq_nil (by simp [begun_conn_, hsocket])
  rw [trace_ok hlived, hnil]
  cases socket with
  | opened => exact (hsocket rfl).elim
  | closed => rfl
  | missing => rfl

theorem trace_single_disciplined_iff :
    Disciplined (trace kind peer [(info, socket)] calls) ↔
      (socket = .opened → info.channel = 1 ∧ Openable peer 0 info kind) ∧
        ∀ x ∈ calls, Usable info socket x := by
  constructor
  · intro h
    have hlived : ∃ s, lived kind peer [(info, socket)] calls = .ok s := by
      cases hlived : lived kind peer [(info, socket)] calls with
      | ok s => exact ⟨s, rfl⟩
      | error log =>
        -- a process that has ended destroys nothing
        have hdestroy := mem_of_disciplined h (new_mem_trace (by simp))
        rw [trace_error hlived] at hdestroy
        exact ((lived_error hlived).kept 0 hdestroy).elim
    obtain ⟨hopenable, husable⟩ := lived_ok_iff.mp hlived
    refine ⟨?_, husable⟩
    rintro rfl
    exact ⟨channel_of_disciplined h, hopenable rfl⟩
  · rintro ⟨hopened, husable⟩
    obtain ⟨s, hlived⟩ := lived_ok_iff.mpr ⟨fun h => (hopened h).2, husable⟩
    by_cases hsocket : socket = .opened
    · subst hsocket
      obtain ⟨ms, hms, htrace⟩ := trace_single_opened peer (hopened rfl).1 hlived
      rw [htrace]
      exact disciplined_single hms
    · rw [trace_single_unopened peer hsocket hlived]
      exact disciplined_unopened

/-- The discipline holds exactly if the object is opened at most once, on channel 1 and with names
that can be declared if that succeeds, and no call after it ends the process. -/
theorem trace_disciplined_iff (kind : Kind) (peer : Peer)
    (attempts : List (BrokerInfo × Socket)) (calls : List Call) :
    Disciplined (trace kind peer attempts calls) ↔
      attempts = [] ∨ ∃ info socket, attempts = [(info, socket)] ∧
        (socket = .opened → info.channel = 1 ∧ Openable peer 0 info kind) ∧
        ∀ x ∈ calls, Usable info socket x := by
  rcases attempts with - | ⟨⟨info, socket⟩, - | ⟨a, attempts⟩⟩
  · rw [trace_nil]
    exact iff_of_true disciplined_nil (.inl rfl)
  · rw [trace_single_disciplined_iff]
    constructor
    · intro h
      exact .inr ⟨info, socket, rfl, h⟩
    · rintro (h | ⟨info', socket', heq, h⟩)
      · cases h
      · cases heq
        exact h
  · -- the first connection state is lost
    have hlost : ¬ Disciplined (trace kind peer ((info, socket) :: a :: attempts) calls) := by
      intro h
      have hlast := destroy_of_mem_trace (mem_of_disciplined h (new_mem_trace (by simp)))
      simp at hlast
    simp [hlost]

/-- A broker with the usual frames. -/
def plainPeer : Peer where
  lenient := false
  frame_max := 131072
  large := by decide
  queue_name _ := ⟨ascii "amq.gen-1", rfl⟩

/-- An object opened on channel 2 closes channel 1. -/
theorem trace_undisciplined : ¬ Disciplined (trace .producer plainPeer
    [({ channel := 2, exchange := { name := ascii "business", type := ascii "topic" } }, .opened)]
    []) := by
  intro h
  have hchannel := channel_of_disciplined h
  contradiction

end RabbitClient.BrokerObject
