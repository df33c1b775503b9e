import RabbitClient.Broker.InFlight

/-! What a client accepts is a reply to the request it is waiting for. -/
namespace RabbitClient.Rpc

open Bytes MessageBroker Lts

variable {Client Server : Type} {sys : System Client Server} {c : Client} {v : Server}
  {p : Process Client Server} {q : QueueId Client Server} {e : Envelope Client Server}
  {m m' : BasicPublish} {k : Nat}

theorem ssAppID_ne_nil (sys : System Client Server) (c : Client) : sys.ssAppID c ≠ [] := by
  have h : ascii "rpc-client." ≠ [] := by decide
  simp only [System.ssAppID]
  split <;> simp [h]

theorem zero_notMem_ssAppID (sys : System Client Server) (c : Client) : 0 ∉ sys.ssAppID c := by
  have h₁ : 0 ∉ ascii "rpc-client." := by decide
  have h₂ : 0 ∉ ascii "-" := by decide
  have hn := (sys.client c).consumerQueueName.property
  simp only [System.ssAppID]
  split <;> simp [h₁, h₂, hn, zero_notMem_decimal]

/-- The pair the client compares, for its `k`-th request. -/
def Tagged (sys : System Client Server) (m : BasicPublish) (c : Client) (k : Nat) : Prop :=
  m.properties.app_id = some (sys.ssAppID c) ∧
    m.properties.correlation_id = some (decimal (k % 2 ^ 64))

theorem request_content {n : UInt64}
    (h : publish (sys.cli_producer c) (request sys c n) = some m) :
    m.properties.app_id = some (sys.ssAppID c) ∧
      m.properties.correlation_id = some (decimal n.toNat) ∧
      m.properties.reply_to = flagged (sys.responseKey (.client c)) ∧
      m.routing_key = sys.requestKey (.client c) := by
  obtain ⟨hp, hk⟩ := publish_eq_some h
  rw [hp, hk]
  refine ⟨?_, ?_, rfl, cstr_val (sys.client c).routing_key_request⟩
  · exact (flagged_of_ne_nil (ssAppID_ne_nil sys c)).trans
      (congrArg some (cstr_of_notMem (zero_notMem_ssAppID sys c)))
  · exact (flagged_of_ne_nil (decimal_ne_nil n.toNat)).trans
      (congrArg some (cstr_of_notMem (zero_notMem_decimal n.toNat)))

/-- A reply carries the pair of the request it was built from. -/
theorem reply_tagged (h : publish (sys.srv_producer v) (reply sys v m) = some m')
    (ht : Tagged sys m c k) : Tagged sys m' c k := by
  obtain ⟨hp, -⟩ := publish_eq_some h
  rw [Tagged, hp]
  constructor
  · have ha : byte_to_string m.properties.app_id = sys.ssAppID c := by rw [ht.1]; rfl
    simp only [properties, reply, ha]
    exact (flagged_of_ne_nil (ssAppID_ne_nil sys c)).trans
      (congrArg some (cstr_of_notMem (zero_notMem_ssAppID sys c)))
  · have hc : byte_to_string m.properties.correlation_id = decimal (k % 2 ^ 64) := by
      rw [ht.2]; rfl
    simp only [properties, reply, hc]
    exact (flagged_of_ne_nil (decimal_ne_nil _)).trans
      (congrArg some (cstr_of_notMem (zero_notMem_decimal _)))

/-- Where a reply goes: to the address given in the request, else to the server's own key. -/
theorem reply_key (h : publish (sys.srv_producer v) (reply sys v m) = some m') :
    (byte_to_string m.properties.reply_to ≠ [] ∧
      m'.routing_key = cstr (byte_to_string m.properties.reply_to)) ∨
    (byte_to_string m.properties.reply_to = [] ∧
      m'.routing_key = sys.responseKey (.server v)) := by
  obtain ⟨-, hk⟩ := publish_eq_some h
  rw [hk]
  by_cases hr : byte_to_string m.properties.reply_to = []
  · right
    refine ⟨hr, ?_⟩
    simp only [routingKey, reply, hr, List.isEmpty_nil, if_true]
    exact cstr_val (sys.server v).routing_key_response
  · left
    refine ⟨hr, ?_⟩
    simp [routingKey, reply, hr]

theorem reply_key_of_flagged (h : publish (sys.srv_producer v) (reply sys v m) = some m')
    (hr : m.properties.reply_to = flagged (sys.responseKey p)) :
    ∃ r, m'.routing_key = sys.responseKey r := by
  rcases reply_key h with ⟨hne, hk⟩ | ⟨-, hk⟩
  · have hp : sys.responseKey p ≠ [] := by
      intro he
      rw [hr, he] at hne
      exact hne rfl
    refine ⟨p, hk.trans ?_⟩
    rw [hr, flagged_of_ne_nil hp]
    exact (cstr_cstr _).trans (cstr_val (sys.options p).routing_key_response)
  · exact ⟨.server v, hk⟩

/-- The comparison of `wait_for_message` succeeds only on the client's own pair. -/
theorem eq_of_found {app_id correlation_id x y : Bytes} {ps : Properties}
    (h : found app_id correlation_id ps = some true) (hx : ps.app_id = some x)
    (hy : ps.correlation_id = some y) :
    cstr app_id = cstr x ∧ cstr correlation_id = cstr y := by
  have same : ∀ {b b' : Bytes}, sameString b (some b') = some true → cstr b = cstr b' := by
    intro b b' hb
    cases b' with
    | nil => contradiction
    | cons a l => simpa [sameString] using hb
  rw [found, hx, hy] at h
  split at h
  · rename_i ha
    exact ⟨same ha, same h⟩
  · rename_i hne
    exact (hne h).elim

section
variable [DecidableEq Client] [DecidableEq Server] {s t : State Client Server}
  {a : Action Client Server} {as bs : List (Action Client Server)}

/-- A request of some client, or the reply some server has built from it. -/
inductive Genuine (sys : System Client Server) (as : List (Action Client Server)) :
    Envelope Client Server → Prop where
  | request {c : Client} {k : Nat} {m : BasicPublish} (hr : .request c ⟨.request c k, m⟩ ∈ as)
      (ht : Tagged sys m c k) (hto : m.properties.reply_to = flagged (sys.responseKey (.client c)))
      (hk : m.routing_key = sys.requestKey (.client c)) : Genuine sys as ⟨.request c k, m⟩
  | reply {c : Client} {k : Nat} {m m' : BasicPublish} {v : Server}
      (hr : .request c ⟨.request c k, m⟩ ∈ as)
      (ha : .reply v ⟨.request c k, m⟩ ⟨.reply v (.request c k), m'⟩ ∈ as)
      (ht : Tagged sys m' c k) (hk : ∃ r, m'.routing_key = sys.responseKey r) :
      Genuine sys as ⟨.reply v (.request c k), m'⟩

omit [DecidableEq Client] [DecidableEq Server] in
theorem genuine_append (h : Genuine sys as e) (bs : List (Action Client Server)) :
    Genuine sys (as ++ bs) e := by
  cases h with
  | request hr ht hto hk => exact .request (List.mem_append_left bs hr) ht hto hk
  | reply hr ha ht hk =>
    exact .reply (List.mem_append_left bs hr) (List.mem_append_left bs ha) ht hk

/-- No request key is a response key, and no client reads the queue of a server. -/
structure Separate (sys : System Client Server) : Prop where
  keys : ∀ p r, sys.requestKey p ≠ sys.responseKey r
  queues : ∀ c v, sys.queueOf (.client c) ≠ sys.queueOf (.server v)

structure Agreed (sys : System Client Server) (as : List (Action Client Server))
    (s : State Client Server) : Prop where
  bound : Bound sys s
  placed : Everywhere sys (Placed sys) s
  genuine : Everywhere sys (fun _ => Genuine sys as) s
  sequence : ∀ c, (s.sequence c).toNat = s.requests c % 2 ^ 64

omit [DecidableEq Client] [DecidableEq Server] in
theorem placed_client (hsep : Separate sys) (h : Placed sys (sys.queueOf (.client c)) e) :
    ∃ r, e.message.routing_key = sys.responseKey r := by
  obtain ⟨p, hp, hk⟩ := h
  cases p with
  | client d => exact ⟨.client d, by simpa using hk.symm⟩
  | server v => exact (hsep.queues c v hp.symm).elim

omit [DecidableEq Client] [DecidableEq Server] in
theorem placed_server (hqueue : ∀ c v, sys.queueOf (.client c) ≠ sys.queueOf (.server v))
    (h : Placed sys (sys.queueOf (.server v)) e) :
    ∃ w, e.message.routing_key = sys.requestKey (.server w) := by
  obtain ⟨p, hp, hk⟩ := h
  cases p with
  | client d => exact (hqueue d v hp).elim
  | server w => exact ⟨w, by simpa using hk.symm⟩

theorem sequence_step (h : Step sys s a t)
    (hs : ∀ c, (s.sequence c).toNat = s.requests c % 2 ^ 64) (c : Client) :
    (t.sequence c).toNat = t.requests c % 2 ^ 64 := by
  cases h with
  | @request d m hp hm =>
    have hc := hs c
    by_cases hd : c = d
    · subst d
      simp only [State.requested, Function.update_self, UInt64.toNat_add]
      have h1 : (1 : UInt64).toNat = 1 := rfl
      omega
    · simpa [State.requested, hd] using hc
  | _ => exact hs c

/-- Servers are only ever handed requests, so a reply is a reply to a request. -/
theorem genuine_step (hsep : Separate sys) (h : Step sys s a t) (hs : Agreed sys as s)
    (hf : ∀ x, a ≠ .foreign x) : Everywhere sys (fun _ => Genuine sys (as ++ [a])) t := by
  refine everywhere_step h hs.bound ?_ ?_
  · intro q e he
    exact genuine_append (hs.genuine q e he) [a]
  intro q e ha _
  cases h with
  | @request c m hp hm =>
    cases ha
    obtain ⟨happ, hcor, hto, hk⟩ := request_content hm
    refine .request (by simp) ⟨happ, ?_⟩ hto hk
    rw [hcor, UInt64.toNat_add, hs.sequence c, ← Nat.add_mod_mod]
    simp
  | foreign => exact (hf _ rfl).elim
  | @reply v e₀ m hp hm =>
    cases ha
    have hin : InFlight sys s (sys.queueOf (.server v)) e₀ := inFlight_held (by rw [hp]; rfl)
    have hg := hs.genuine _ _ hin
    cases hg with
    | request hr ht hto hk =>
      exact .reply (List.mem_append_left _ hr) (by simp) (reply_tagged hm ht)
        (reply_key_of_flagged hm hto)
    | reply hr ha ht hk =>
      obtain ⟨w, hw⟩ := placed_server hsep.queues (hs.placed _ _ hin)
      obtain ⟨r, hr⟩ := hk
      exact (hsep.keys (.server w) r (hw.symm.trans hr)).elim
  | _ => contradiction

theorem agreed_step (hsep : Separate sys) (h : Step sys s a t) (hs : Agreed sys as s)
    (hf : ∀ x, a ≠ .foreign x) : Agreed sys (as ++ [a]) t where
  bound := bound_step h hs.bound
  placed := everywhere_step h hs.bound hs.placed (fun _ _ _ hp => hp)
  genuine := genuine_step hsep h hs hf
  sequence := sequence_step h hs.sequence

theorem agreed_run (hsep : Separate sys) (h : Run (Step sys) initial as t)
    (hf : ∀ x, .foreign x ∉ as) : Agreed sys as t := by
  let H : List (Action Client Server) → State Client Server → Prop := fun as s =>
    (∀ x, .foreign x ∉ as) → Agreed sys as s
  have hstep : ∀ as s a t, H as s → Step sys s a t → H (as ++ [a]) t := by
    intro as s a t hs hst hf
    refine agreed_step hsep hst (hs fun x hx => hf x (List.mem_append_left _ hx)) ?_
    rintro x rfl
    exact hf x (by simp)
  have hinit : H [] initial := fun _ =>
    ⟨bound_initial, everywhere_initial, everywhere_initial, fun _ => rfl⟩
  have hrun : H ([] ++ as) t := run_history hstep h hinit
  exact hrun hf

def Action.asks (c : Client) : Action Client Server → Bool
  | .request d _ => d = c
  | _ => false

def Action.accepts (c : Client) : Action Client Server → Bool
  | .accept d _ => d = c
  | _ => false

/-- Requests of the client itself that are still to be answered. -/
def PC.pending : PC Client Server → Nat
  | .read | .ack _ | .handle _ => 1
  | _ => 0

def PC.isStopped : PC Client Server → Bool
  | .stopped _ => true
  | _ => false

theorem requests_step (h : Step sys s a t) (c : Client) :
    t.requests c = s.requests c + if a.asks c then 1 else 0 := by
  cases h with
  | @request d m hp hm =>
    by_cases hd : c = d
    · subst d
      simp [State.requested, Action.asks]
    · simp [State.requested, Action.asks, hd, Ne.symm hd]
  | _ => rfl

/-- A process that is moved on to `x` by a step which neither asks nor accepts. -/
theorem pending_setPC {x : PC Client Server} (hs : (s.pc p).isStopped = false)
    (hx : x.pending = (s.pc p).pending)
    (ht : ((s.setPC p x).pc (.client c)).isStopped = false) :
    (s.pc (.client c)).isStopped = false ∧
      ((s.setPC p x).pc (.client c)).pending = (s.pc (.client c)).pending := by
  by_cases hp : .client c = p
  · subst p
    exact ⟨hs, by simpa using hx⟩
  · exact ⟨by simpa [hp] using ht, by simp [hp]⟩

theorem pending_step (h : Step sys s a t) (c : Client)
    (ht : (t.pc (.client c)).isStopped = false) :
    (s.pc (.client c)).isStopped = false ∧
      (t.pc (.client c)).pending + (if a.accepts c then 1 else 0) =
        (s.pc (.client c)).pending + (if a.asks c then 1 else 0) := by
  cases h with
  | @opened p hp =>
    by_cases hc : .client c = p
    · subst p
      simp [State.opened, hp, start, PC.isStopped, PC.pending, Action.accepts, Action.asks]
    · simpa [State.opened, hc, Action.accepts, Action.asks] using ht
  | @request d m hp hm =>
    by_cases hd : d = c
    · subst d
      simp [State.requested, hp, PC.isStopped, PC.pending, Action.accepts, Action.asks]
    · have hne : Process.client c ≠ (Process.client d : Process Client Server) := by
        simpa using Ne.symm hd
      simpa [State.requested, hne, hd, Action.accepts, Action.asks] using ht
  | @accept d e hp hf =>
    by_cases hd : d = c
    · subst d
      simp [hp, PC.isStopped, PC.pending, Action.accepts, Action.asks]
    · have hne : Process.client c ≠ (Process.client d : Process Client Server) := by
        simpa using Ne.symm hd
      simpa [hne, hd, Action.accepts, Action.asks] using ht
  | @stop p hp =>
    by_cases hc : .client c = p
    · subst p
      simp [State.disconnected, PC.isStopped] at ht
    · simpa [State.disconnected, hc, Action.accepts, Action.asks] using ht
  | foreign => exact ⟨ht, rfl⟩
  | deliver => exact ⟨ht, rfl⟩
  | expire => exact ⟨ht, rfl⟩
  | read hp =>
    exact pending_setPC (by rw [hp]; rfl) (by rw [hp]; rfl) ht
  | ack hp =>
    exact pending_setPC (by rw [hp]; rfl) (by rw [hp]; rfl) ht
  | skip hp =>
    exact pending_setPC (by rw [hp]; rfl) (by rw [hp]; rfl) ht
  | reply hp => simpa [Action.accepts, Action.asks] using ht

/-- The counters of the model are counts of what has happened. -/
structure Counted (as : List (Action Client Server)) (s : State Client Server) : Prop where
  requests : ∀ c, s.requests c = as.countP (·.asks c)
  accepted : ∀ c, (s.pc (.client c)).isStopped = false →
    as.countP (·.accepts c) + (s.pc (.client c)).pending = s.requests c

theorem counted_step (h : Step sys s a t) (hs : Counted as s) : Counted (as ++ [a]) t where
  requests := by
    intro c
    rw [requests_step h c, hs.requests c]
    simp [List.countP_append, List.countP_cons]
  accepted := by
    intro c ht
    obtain ⟨hns, hp⟩ := pending_step h c ht
    have ha := hs.accepted c hns
    have hr := requests_step h c
    simp only [List.countP_append, List.countP_cons, List.countP_nil, Nat.zero_add]
    omega

theorem counted_run (h : Run (Step sys) initial as t) : Counted as t := by
  have hinit : Counted [] (initial : State Client Server) := ⟨fun _ => rfl, fun _ _ => rfl⟩
  have hrun : Counted ([] ++ as) t := run_history (fun _ _ _ _ hs h => counted_step h hs) h hinit
  exact hrun

/-- The request with number `k` is the `k`-th request of the run. -/
theorem request_position (h : Run (Step sys) initial (as ++ .request c ⟨.request c k, m⟩ :: bs) t) :
    as.countP (·.asks c) + 1 = k := by
  obtain ⟨u, w, hu, hst, -⟩ := run_split_label h
  have hc := (counted_run hu).requests c
  cases hst with
  | request hp hm => omega

/-- The message a client accepts in its `n`-th round is the reply some server built from a
request of this client: its `n`-th one, up to the width of `sequence`. -/
theorem rpc_agreement (hid : Function.Injective sys.ssAppID) (hsep : Separate sys)
    (h : Run (Step sys) initial (as ++ .accept c e :: bs) t) (hf : ∀ x, .foreign x ∉ as) :
    ∃ v r as₁ as₂, as = as₁ ++ .request c r :: as₂ ∧ .reply v r e ∈ as ∧
      as₁.countP (·.asks c) ≤ as.countP (·.accepts c) ∧
      as₁.countP (·.asks c) % 2 ^ 64 = as.countP (·.accepts c) % 2 ^ 64 ∧
      (as.countP (·.accepts c) < 2 ^ 64 →
        as₁.countP (·.asks c) = as.countP (·.accepts c)) := by
  obtain ⟨u, w, hu, hst, -⟩ := run_split_label h
  have hs : Agreed sys as u := agreed_run hsep hu hf
  have hcount : Counted as u := counted_run hu
  cases hst with
  | accept hp hfound =>
    have hin : InFlight sys u (sys.queueOf (.client c)) e := inFlight_held (by rw [hp]; rfl)
    obtain ⟨x, hx⟩ := placed_client hsep (hs.placed _ _ hin)
    have hg := hs.genuine _ _ hin
    cases hg with
    | @request d k m hr ht hto hk => exact (hsep.keys (.client d) x (hk.symm.trans hx)).elim
    | @reply d k m m' v hr ha ht hk =>
      obtain ⟨happ, hcor⟩ := eq_of_found hfound ht.1 ht.2
      rw [cstr_of_notMem (zero_notMem_ssAppID sys c),
        cstr_of_notMem (zero_notMem_ssAppID sys d)] at happ
      rw [cstr_of_notMem (zero_notMem_decimal _), cstr_of_notMem (zero_notMem_decimal _)] at hcor
      obtain rfl : c = d := hid happ
      have hseq : u.requests c % 2 ^ 64 = k % 2 ^ 64 :=
        (hs.sequence c).symm.trans (decimal_injective hcor)
      have hacc : as.countP (·.accepts c) + 1 = u.requests c := by
        simpa [hp, PC.pending] using hcount.accepted c (by rw [hp]; rfl)
      obtain ⟨as₁, as₂, has⟩ := List.append_of_mem hr
      have hpos : as₁.countP (·.asks c) + 1 = k := request_position (has ▸ hu)
      have hle : as₁.countP (·.asks c) + 1 ≤ u.requests c := by
        rw [hcount.requests c, has]
        simp [Action.asks]
      exact ⟨v, ⟨.request c k, m⟩, as₁, as₂, has, ha, by omega, by omega, by omega⟩

/-- Two clients and two servers with the default options. -/
def twoByTwo : System Bool Bool where
  options := fun _ => {}
  getpid := fun c => if c then 100 else 200
  thread_id := fun _ => 7

def twoByTwoRun : List (Action Bool Bool) :=
  let r := twoByTwo.requestOf true 1
  let answer v := twoByTwo.replyOf v r
  [.opened (.server true), .opened (.server false), .opened (.client true),
    .opened (.client false), .request true r, .request false (twoByTwo.requestOf false 1),
    .deliver (.server true) r, .deliver (.server false) r, .read (.server false) r,
    .read (.server true) r, .ack (.server false) r, .reply false r (answer false),
    .ack (.server true) r, .reply true r (answer true),
    .deliver (.client false) (answer true), .read (.client false) (answer true),
    .ack (.client false) (answer true), .skip false (answer true),
    .deliver (.client true) (answer false), .deliver (.client true) (answer true),
    .read (.client true) (answer true), .ack (.client true) (answer true)]

theorem twoByTwo_separate : Separate twoByTwo where
  keys := by
    intro p r
    change ascii "task_request" ≠ ascii "task_response"
    decide
  queues := by
    intro c v
    change QueueId.anonymous _ ≠ QueueId.anonymous _
    simp

theorem rpc_agreement_twoByTwo :
    ∃ v r as₁ as₂, twoByTwoRun = as₁ ++ .request true r :: as₂ ∧
      .reply v r (twoByTwo.replyOf true (twoByTwo.requestOf true 1)) ∈ twoByTwoRun ∧
      as₁.countP (·.asks true) = 0 := by
  obtain ⟨t, ht, -⟩ := exists_run_of_execAll (step_of_exec twoByTwo) initial
    (twoByTwoRun ++ .accept true (twoByTwo.replyOf true (twoByTwo.requestOf true 1)) :: [])
    (fun _ => true) (by decide +kernel)
  have hid : ∀ c d, twoByTwo.ssAppID c = twoByTwo.ssAppID d → c = d := by decide
  have hf : ∀ x, .foreign x ∉ twoByTwoRun := by simp [twoByTwoRun]
  obtain ⟨v, r, as₁, as₂, has, hr, hle, -, -⟩ := rpc_agreement (fun c d => hid c d) twoByTwo_separate ht hf
  have h0 : twoByTwoRun.countP (·.accepts true) = 0 := by decide +kernel
  exact ⟨v, r, as₁, as₂, has, hr, Nat.le_zero.mp (h0 ▸ hle)⟩

end

end RabbitClient.Rpc
