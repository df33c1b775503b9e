import RabbitClient.Broker.Agreement

/-! A client and a server can complete any number of rounds, and what then goes wrong. -/
namespace RabbitClient.Rpc

open Bytes MessageBroker Lts

variable {Client Server : Type} [DecidableEq Client] [DecidableEq Server]
  {sys : System Client Server} {s t u : State Client Server} {c : Client} {v : Server}
  {p : Process Client Server} {e : Envelope Client Server} {m : BasicPublish} {k : Nat}

/-- The client is about to ask, and the server reads and answers it. -/
structure Idle (sys : System Client Server) (c : Client) (v : Server)
    (s : State Client Server) : Prop where
  client : s.pc (.client c) = .publish
  server : s.pc (.server v) = .read
  requests : sys.requestKey (.client c) ∈ s.broker.bindings (sys.queueOf (.server v))
  replies : sys.responseKey (.client c) ∈ s.broker.bindings (sys.queueOf (.client c))

/-- Nothing is bound and nothing is asked on the way from `s` to `t`. -/
structure Steady (s t : State Client Server) : Prop where
  bindings : t.broker.bindings = s.broker.bindings
  sequence : t.sequence = s.sequence
  requests : t.requests = s.requests

omit [DecidableEq Client] [DecidableEq Server] in
theorem Steady.trans (h : Steady s t) (h' : Steady t u) : Steady s u :=
  ⟨h'.1.trans h.1, h'.2.trans h.2, h'.3.trans h.3⟩

/-- Delivery, read and acknowledgement of a message that is ready. -/
theorem take_run (hp : s.pc p = .read) (he : e ∈ s.broker.ready (sys.queueOf p)) :
    ∃ t, Run (Step sys) s [.deliver p e, .read p e, .ack p e] t ∧ Steady s t ∧
      t.pc = Function.update s.pc p (.handle e) := by
  let s₁ : State Client Server := { s with broker := s.broker.deliver (sys.queueOf p) p e }
  have h₁ : Step sys s (.deliver p e) s₁ := .deliver (by rw [hp]; rfl) he
  have hu : (p, e) ∈ s₁.broker.unacked (sys.queueOf p) := by simp [s₁, Broker.deliver]
  have h₂ : Step sys s₁ (.read p e) (s₁.setPC p (.ack e)) := .read hp hu
  have hp₂ : (s₁.setPC p (.ack e)).pc p = .ack e := State.setPC_self
  have h₃ : Step sys (s₁.setPC p (.ack e)) (.ack p e) _ := .ack hp₂
  refine ⟨_, .stepL h₁ (.stepL h₂ (run_single h₃)), ⟨rfl, rfl, rfl⟩, ?_⟩
  simp [s₁, State.setPC]

/-- A server that has acknowledged a message answers it. -/
theorem reply_run (hp : s.pc (.server v) = .handle e) (hm : publish (sys.srv_producer v)
      (reply sys v e.message) = some m) {q : QueueId Client Server}
    (hq : m.routing_key ∈ s.broker.bindings q) :
    ∃ t, Run (Step sys) s [.reply v e ⟨.reply v e.origin, m⟩] t ∧ Steady s t ∧
      t.pc = Function.update s.pc (.server v) .read ∧
      ⟨.reply v e.origin, m⟩ ∈ t.broker.ready q := by
  refine ⟨_, run_single (.reply hp hm), ⟨rfl, rfl, rfl⟩, rfl, ?_⟩
  simp [Broker.publish, hq]

omit [DecidableEq Client] [DecidableEq Server] in
/-- The comparison succeeds on the client's own pair. -/
theorem found_of_tagged (h : Tagged sys m c k) :
    found (sys.ssAppID c) (decimal (k % 2 ^ 64)) m.properties = some true := by
  have same : ∀ {b : Bytes}, b ≠ [] → sameString b (some b) = some true := by
    intro b hb
    cases b with
    | nil => contradiction
    | cons x l => simp [sameString]
  simp only [found, h.1, h.2, same (ssAppID_ne_nil sys c), same (decimal_ne_nil _)]

/-- A client that waits takes a reply that carries its pair as its answer. -/
theorem accept_run (hp : s.pc (.client c) = .read)
    (he : e ∈ s.broker.ready (sys.queueOf (.client c))) (ht : Tagged sys e.message c k)
    (hk : (s.sequence c).toNat = k % 2 ^ 64) :
    ∃ t, Run (Step sys) s [.deliver (.client c) e, .read (.client c) e, .ack (.client c) e,
        .accept c e] t ∧ Steady s t ∧ t.pc = Function.update s.pc (.client c) .publish := by
  obtain ⟨u, hu, hkept, hpc⟩ := take_run hp he
  have hh : u.pc (.client c) = .handle e := by simp [hpc]
  have hf : found (sys.ssAppID c) (decimal (u.sequence c).toNat) e.message.properties =
      some true := by
    rw [hkept.sequence, hk]
    exact found_of_tagged ht
  refine ⟨_, run_append hu (run_single (.accept hh hf)), hkept.trans ⟨rfl, rfl, rfl⟩, ?_⟩
  simp [State.setPC, hpc]

omit [DecidableEq Client] [DecidableEq Server] in
/-- What a server makes of a request: the same pair, sent to the client's response key. -/
theorem exists_reply (v : Server) (ht : Tagged sys m c k)
    (hto : m.properties.reply_to = flagged (sys.responseKey (.client c)))
    (hne : sys.responseKey (.client c) ≠ []) :
    ∃ m', publish (sys.srv_producer v) (reply sys v m) = some m' ∧ Tagged sys m' c k ∧
      m'.routing_key = sys.responseKey (.client c) := by
  have hcstr : cstr (sys.responseKey (.client c)) = sys.responseKey (.client c) :=
    cstr_val (sys.client c).routing_key_response
  have hr : byte_to_string m.properties.reply_to = sys.responseKey (.client c) := by
    rw [hto, flagged_of_ne_nil hne, hcstr]
    rfl
  have hsome : ∃ m', publish (sys.srv_producer v) (reply sys v m) = some m' := by
    simp [publish, routingKey, reply, hr, hne]
  obtain ⟨m', hm⟩ := hsome
  refine ⟨m', hm, reply_tagged hm ht, ?_⟩
  rcases reply_key hm with ⟨-, hk⟩ | ⟨hnil, -⟩
  · rw [hk, hr, hcstr]
  · exact absurd (hr.symm.trans hnil) hne

/-- The next request of a client and everything it changes. -/
theorem request_run (hp : s.pc (.client c) = .publish) (hne : sys.requestKey (.client c) ≠ []) :
    ∃ m t, Run (Step sys) s [.request c ⟨.request c (s.requests c + 1), m⟩] t ∧
      t.broker.bindings = s.broker.bindings ∧
      t.sequence = Function.update s.sequence c (s.sequence c + 1) ∧
      t.requests = Function.update s.requests c (s.requests c + 1) ∧
      t.pc = Function.update s.pc (.client c) .read ∧
      Tagged sys m c (s.sequence c + 1).toNat ∧
      m.properties.reply_to = flagged (sys.responseKey (.client c)) ∧
      ∀ q, sys.requestKey (.client c) ∈ s.broker.bindings q →
        ⟨.request c (s.requests c + 1), m⟩ ∈ t.broker.ready q := by
  have hne' : (sys.client c).routing_key_request.val ≠ [] := hne
  have hsome : ∃ m, publish (sys.cli_producer c) (request sys c (s.sequence c + 1)) = some m := by
    simp [publish, routingKey, request, System.cli_producer, hne']
  obtain ⟨m, hm⟩ := hsome
  obtain ⟨happ, hcor, hto, hk⟩ := request_content hm
  have hlt : (s.sequence c + 1).toNat % 2 ^ 64 = (s.sequence c + 1).toNat :=
    Nat.mod_eq_of_lt (UInt64.toNat_lt _)
  refine ⟨m, _, run_single (.request hp hm), rfl, rfl, rfl, rfl, ⟨happ, ?_⟩, hto, ?_⟩
  · rw [hcor, hlt]
  · intro q hq
    simp [Broker.publish, hk, hq]

/-- A round in which `v` answers; every other process stays where it is. -/
theorem round_run (hi : Idle sys c v s) (hreq : sys.requestKey (.client c) ≠ [])
    (hresp : sys.responseKey (.client c) ≠ []) :
    ∃ as t, Run (Step sys) s as t ∧ Idle sys c v t ∧ t.sequence c = s.sequence c + 1 ∧
      (∀ w, w ≠ v → t.pc (.server w) = s.pc (.server w)) ∧
      as.countP (·.accepts c) = 1 ∧ ∀ x, .foreign x ∉ as := by
  obtain ⟨m, s₁, h₁, hb₁, hseq₁, -, hpc₁, ht, hto, hready⟩ := request_run hi.client hreq
  have hv₁ : s₁.pc (.server v) = .read := by
    rw [hpc₁]
    simpa using hi.server
  obtain ⟨s₂, h₂, hk₂, hpc₂⟩ := take_run hv₁ (hready _ hi.requests)
  obtain ⟨m', hm', ht', hkey⟩ := exists_reply v ht hto hresp
  have hq : m'.routing_key ∈ s₂.broker.bindings (sys.queueOf (.client c)) := by
    rw [hkey, hk₂.bindings, hb₁]
    exact hi.replies
  have hv₂ : s₂.pc (.server v) = .handle ⟨.request c (s.requests c + 1), m⟩ := by simp [hpc₂]
  obtain ⟨s₃, h₃, hk₃, hpc₃, hready₃⟩ := reply_run hv₂ hm' hq
  have hc₃ : s₃.pc (.client c) = .read := by simp [hpc₃, hpc₂, hpc₁]
  have hk := hk₂.trans hk₃
  have hseq : (s₃.sequence c).toNat = (s.sequence c + 1).toNat % 2 ^ 64 := by
    rw [hk.sequence, hseq₁, Function.update_self, Nat.mod_eq_of_lt (UInt64.toNat_lt _)]
  obtain ⟨t, h₄, hk₄, hpc₄⟩ := accept_run hc₃ hready₃ ht' hseq
  have hkt := hk.trans hk₄
  refine ⟨_, t, run_append h₁ (run_append h₂ (run_append h₃ h₄)), ⟨?_, ?_, ?_, ?_⟩, ?_, ?_, ?_, ?_⟩
  · simp [hpc₄]
  · simp [hpc₄, hpc₃]
  · rw [hkt.bindings, hb₁]
    exact hi.requests
  · rw [hkt.bindings, hb₁]
    exact hi.replies
  · rw [hkt.sequence, hseq₁, Function.update_self]
  · intro w hw
    simp [hpc₄, hpc₃, hpc₂, hpc₁, hw]
  · simp [Action.accepts]
  · simp

/-- Any number of rounds, one after the other. -/
theorem rounds_run (hi : Idle sys c v s) (hreq : sys.requestKey (.client c) ≠ [])
    (hresp : sys.responseKey (.client c) ≠ []) (n : Nat) :
    ∃ as t, Run (Step sys) s as t ∧ Idle sys c v t ∧
      t.sequence c = s.sequence c + UInt64.ofNat n ∧
      (∀ w, w ≠ v → t.pc (.server w) = s.pc (.server w)) ∧
      as.countP (·.accepts c) = n ∧ ∀ x, .foreign x ∉ as := by
  induction n with
  | zero => exact ⟨[], s, .refl, hi, by simp, fun _ _ => rfl, rfl, by simp⟩
  | succ n ih =>
    obtain ⟨as, u, hu, hidle, hseq, hpc, hcount, hf⟩ := ih
    obtain ⟨bs, t, ht, hidle', hseq', hpc', hcount', hf'⟩ := round_run hidle hreq hresp
    refine ⟨as ++ bs, t, run_append hu ht, hidle', ?_, ?_, ?_, ?_⟩
    · rw [hseq', hseq, UInt64.ofNat_add, UInt64.add_assoc]
      rfl
    · intro w hw
      exact (hpc' w hw).trans (hpc w hw)
    · rw [List.countP_append, hcount, hcount']
    · intro x hx
      rcases List.mem_append.mp hx with hx | hx
      · exact hf x hx
      · exact hf' x hx

/-- Server `true` has taken the first request and not answered it; `false` has. -/
def slowServerRun : List (Action Bool Bool) :=
  let r := twoByTwo.requestOf true 1
  let answer := twoByTwo.replyOf false r
  [.opened (.server true), .opened (.server false), .opened (.client true), .request true r,
    .deliver (.server true) r, .read (.server true) r, .ack (.server true) r,
    .deliver (.server false) r, .read (.server false) r, .ack (.server false) r,
    .reply false r answer, .deliver (.client true) answer, .read (.client true) answer,
    .ack (.client true) answer, .accept true answer]

theorem slowServer_run :
    ∃ t, Run (Step twoByTwo) initial slowServerRun t ∧ Idle twoByTwo true false t ∧
      t.pc (.server true) = .handle (twoByTwo.requestOf true 1) ∧ t.sequence true = 1 := by
  obtain ⟨t, ht, hp⟩ := exists_run_of_execAll (step_of_exec twoByTwo) initial slowServerRun
    (fun t => t.pc (.client true) = .publish ∧ t.pc (.server false) = .read ∧
      twoByTwo.requestKey (.client true) ∈ t.broker.bindings (twoByTwo.queueOf (.server false)) ∧
      twoByTwo.responseKey (.client true) ∈ t.broker.bindings (twoByTwo.queueOf (.client true)) ∧
      t.pc (.server true) = .handle (twoByTwo.requestOf true 1) ∧ t.sequence true = 1)
    (by decide +kernel)
  obtain ⟨hc, hv, hreq, hrep, hslow, hseq⟩ := of_decide_eq_true hp
  exact ⟨t, ht, ⟨hc, hv, hreq, hrep⟩, hslow, hseq⟩

/-- The message is a reply to the request of the round that the client is in. -/
def SameRound (as : List (Action Client Server)) (c : Client) (e : Envelope Client Server) :
    Prop :=
  ∃ v r as₁ as₂, as = as₁ ++ .request c r :: as₂ ∧ .reply v r e ∈ as ∧
    as₁.countP (·.asks c) = as.countP (·.accepts c)

/-- A reply to the first request belongs to the first round. -/
theorem accepts_eq_zero_of_sameRound {as : List (Action Client Server)}
    (h : Run (Step sys) initial as t) {w : Server}
    (hs : SameRound as c ⟨.reply w (.request c 1), m⟩) : as.countP (·.accepts c) = 0 := by
  obtain ⟨v, r, as₁, as₂, rfl, hr, hcount⟩ := hs
  obtain ⟨o, m₁⟩ := r
  obtain rfl : o = .request c 1 := by
    obtain ⟨bs, cs, hbs⟩ := List.append_of_mem hr
    obtain ⟨x, y, -, hst, -⟩ := run_split_label (hbs ▸ h)
    cases hst
    rfl
  have hpos := request_position h
  omega

/-- When `sequence` comes round again, the answer to the first request is accepted. -/
theorem late_reply_accepted :
    ∃ as e t, Run (Step twoByTwo) initial (as ++ [.accept true e]) t ∧
      (∀ x, .foreign x ∉ as) ∧ ¬ SameRound as true e := by
  obtain ⟨s, hs, hidle, hslow, hseq⟩ := slowServer_run
  have hreq : twoByTwo.requestKey (.client true) ≠ [] := by decide
  have hresp : twoByTwo.responseKey (.client true) ≠ [] := by decide
  obtain ⟨as, u, hu, hidle', hseq', hpc, hcount, hf⟩ :=
    rounds_run hidle hreq hresp (2 ^ 64 - 1)
  obtain ⟨m, u₁, h₁, hb₁, hseq₁, -, hpc₁, -⟩ := request_run hidle'.client hreq
  have hslow₁ : u₁.pc (.server true) = .handle (twoByTwo.requestOf true 1) := by
    rw [hpc₁]
    simpa using (hpc true (by decide)).trans hslow
  have htag : Tagged twoByTwo (twoByTwo.requestOf true 1).message true 1 :=
    ⟨by decide, by decide⟩
  obtain ⟨m', hm', ht', hkey⟩ := exists_reply true htag (by decide) hresp
  have hq : m'.routing_key ∈ u₁.broker.bindings (twoByTwo.queueOf (.client true)) := by
    rw [hkey, hb₁]
    exact hidle'.replies
  obtain ⟨u₂, h₂, hk₂, hpc₂, hready⟩ := reply_run hslow₁ hm' hq
  have hc₂ : u₂.pc (.client true) = .read := by simp [hpc₂, hpc₁]
  have hone : (u₂.sequence true).toNat = 1 % 2 ^ 64 := by
    rw [hk₂.sequence, hseq₁, Function.update_self, hseq', hseq]
    decide
  obtain ⟨t, h₃, -, -⟩ := accept_run hc₂ hready ht' hone
  have hrun := run_append hs (run_append hu (run_append h₁ (run_append h₂ h₃)))
  let as' := slowServerRun ++ as ++
    [.request true ⟨.request true (u.requests true + 1), m⟩,
      .reply true (twoByTwo.requestOf true 1) ⟨.reply true (.request true 1), m'⟩,
      .deliver (.client true) ⟨.reply true (.request true 1), m'⟩,
      .read (.client true) ⟨.reply true (.request true 1), m'⟩,
      .ack (.client true) ⟨.reply true (.request true 1), m'⟩]
  have hrun' : Run (Step twoByTwo) initial
      (as' ++ [.accept true ⟨.reply true (.request true 1), m'⟩]) t := by
    have ho : (twoByTwo.requestOf true 1).origin = .request true 1 := rfl
    simpa [as', ho] using hrun
  refine ⟨as', _, t, hrun', ?_, ?_⟩
  · simp [as', slowServerRun, hf]
  · intro hsame
    obtain ⟨w, hw, -⟩ := run_split hrun'
    have hzero := accepts_eq_zero_of_sameRound hw hsame
    have hfirst : slowServerRun.countP (·.accepts true) = 1 := by decide +kernel
    simp only [as', List.countP_append, hfirst, hcount] at hzero
    omega

theorem zero_notMem_rpc : 0 ∉ ascii "rpc" := by decide

/-- Both programs are started with the same queue name. -/
def sharedQueue : System Unit Unit where
  options := fun _ => { consumerQueueName := ⟨ascii "rpc", zero_notMem_rpc⟩ }
  getpid := fun _ => 100
  thread_id := fun _ => 7

def sharedQueueRun : List (Action Unit Unit) :=
  [.opened (.server ()), .opened (.client ()), .request () (sharedQueue.requestOf () 1),
    .deliver (.client ()) (sharedQueue.requestOf () 1),
    .read (.client ()) (sharedQueue.requestOf () 1),
    .ack (.client ()) (sharedQueue.requestOf () 1)]

/-- The queue is bound to both keys, and the client accepts its own request as the answer. -/
theorem sharedQueue_accepts_request :
    Function.Injective sharedQueue.ssAppID ∧
      (∀ p r, sharedQueue.requestKey p ≠ sharedQueue.responseKey r) ∧
      (∃ t, Run (Step sharedQueue) initial
        (sharedQueueRun ++ [.accept () (sharedQueue.requestOf () 1)]) t) ∧
      (∀ x, .foreign x ∉ sharedQueueRun) ∧
      ¬ ∃ v r, .reply v r (sharedQueue.requestOf () 1) ∈ sharedQueueRun := by
  refine ⟨Function.injective_of_subsingleton _, ?_, ?_, ?_, ?_⟩
  · intro p r
    change ascii "task_request" ≠ ascii "task_response"
    decide
  · obtain ⟨t, ht, -⟩ := exists_run_of_execAll (step_of_exec sharedQueue) initial
      (sharedQueueRun ++ [.accept () (sharedQueue.requestOf () 1)]) (fun _ => true) (by decide +kernel)
    exact ⟨t, ht⟩
  · simp [sharedQueueRun]
  · simp [sharedQueueRun]

/-- A run in which the keys differ and no two clients share an id, and yet a client accepts
something else than a reply to the request of its round. -/
def Disagrees (sys : System Client Server) : Prop :=
  Function.Injective sys.ssAppID ∧ (∀ p r, sys.requestKey p ≠ sys.responseKey r) ∧
    ∃ c as e t, Run (Step sys) initial (as ++ [.accept c e]) t ∧ (∀ x, .foreign x ∉ as) ∧
      ¬ SameRound as c e

/-- A client and a server on one queue, and a reply as late as the width of `sequence`. -/
theorem rpc_agreement_exceptions : Disagrees sharedQueue ∧ Disagrees twoByTwo := by
  constructor
  · obtain ⟨hid, hkeys, ⟨t, ht⟩, hf, hno⟩ := sharedQueue_accepts_request
    refine ⟨hid, hkeys, (), sharedQueueRun, _, t, ht, hf, ?_⟩
    rintro ⟨v, r, as₁, as₂, -, hr, -⟩
    exact hno ⟨v, r, hr⟩
  · obtain ⟨as, e, t, ht, hf, hno⟩ := late_reply_accepted
    have hid : ∀ c d, twoByTwo.ssAppID c = twoByTwo.ssAppID d → c = d := by decide
    exact ⟨fun c d => hid c d, twoByTwo_separate.keys, true, as, e, t, ht, hf, hno⟩

end RabbitClient.Rpc
