import RabbitClient.Broker.Rounds
import Mathlib.Data.Fintype.Card
import Mathlib.Data.Finset.Prod

/-! Servers do not read what servers publish, so replies do not multiply. -/
namespace RabbitClient.Rpc

open Bytes MessageBroker Lts
open scoped List

variable {Client Server : Type} {sys : System Client Server} {v w : Server}
  {p : Process Client Server} {q : QueueId Client Server} {e r : Envelope Client Server}

/-- The message asks for its reply under a key some server reads. -/
def Addressed (sys : System Client Server) (e : Envelope Client Server) : Prop :=
  byte_to_string e.message.properties.reply_to ≠ [] ∧
    ∃ v, cstr (byte_to_string e.message.properties.reply_to) = sys.requestKey (.server v)

/-- What is published by anyone but a server. -/
def Action.asked : Action Client Server → Option (Envelope Client Server)
  | .request _ e | .foreign e => some e
  | _ => none

/-- Which server has answered which message. -/
def Action.answer : Action Client Server → Option (Server × Envelope Client Server)
  | .reply v e _ => some (v, e)
  | _ => none

def asked (as : List (Action Client Server)) : List (Envelope Client Server) :=
  as.filterMap Action.asked

def answers (as : List (Action Client Server)) : List (Server × Envelope Client Server) :=
  as.filterMap Action.answer

/-- A number the counters have already given out. -/
def Issued (s : State Client Server) : Origin Client Server → Prop
  | .request c k => k ≤ s.requests c
  | .foreign n => n < s.foreigners
  | .reply _ _ => False

section
variable [DecidableEq Client] [DecidableEq Server] {s t : State Client Server}
  {a : Action Client Server} {as : List (Action Client Server)}

theorem issued_step (h : Step sys s a t) {o : Origin Client Server} (ho : Issued s o) :
    Issued t o := by
  cases o with
  | request c k =>
    have hr := requests_step h c
    have hk : k ≤ s.requests c := ho
    change k ≤ t.requests c
    omega
  | foreign n =>
    have hn : n < s.foreigners := ho
    have hle : s.foreigners ≤ t.foreigners := by
      cases h with
      | foreign => exact Nat.le_succ _
      | _ => exact Nat.le_refl _
    exact Nat.lt_of_lt_of_le hn hle
  | reply => exact ho

theorem issued_asked (h : Step sys s a t) (he : a.asked = some e) : Issued t e.origin := by
  cases h with
  | @request c m hp hm =>
    cases he
    simp [Issued, State.requested]
  | foreign =>
    cases he
    exact Nat.lt_succ_self _
  | _ => contradiction

/-- A message is published under a number that has not been given out. -/
theorem not_issued_published (h : Step sys s a t) (he : a.published = some e) :
    ¬ Issued s e.origin := by
  cases h with
  | request =>
    cases he
    simp [Issued]
  | foreign =>
    cases he
    simp [Issued]
  | reply =>
    cases he
    exact not_false
  | _ => contradiction

omit [DecidableEq Client] [DecidableEq Server] in
theorem queueOf_anonymous {p r : Process Client Server} (h : sys.queueOf p = .anonymous r) :
    r = p := by
  simp only [System.queueOf] at h
  split at h
  · exact (QueueId.anonymous.inj h).symm
  · contradiction

/-- A message about to be acknowledged is unacknowledged. -/
def Reading (sys : System Client Server) (s : State Client Server) : Prop :=
  ∀ p e, s.pc p = .ack e → (p, e) ∈ s.broker.unacked (sys.queueOf p)

theorem unacked_disconnected {p r : Process Client Server} (hr : r ≠ p)
    (h : (r, e) ∈ s.broker.unacked (sys.queueOf r)) :
    (r, e) ∈ (s.disconnected sys p).broker.unacked (sys.queueOf r) := by
  rcases State.broker_disconnected sys s p with ⟨name, -, he⟩ | ⟨p', hq, he⟩
  · rw [he]
    exact Broker.mem_unacked_requeue.mpr ⟨h, fun hh => hr hh.2⟩
  · have hne : sys.queueOf r ≠ .anonymous p' := by
      intro hh
      exact hr ((queueOf_anonymous hh).symm.trans (queueOf_anonymous hq))
    rw [he]
    simpa [Broker.delete, hne] using h

omit [DecidableEq Client] [DecidableEq Server] in
theorem start_ne_ack {p : Process Client Server} : start p ≠ .ack e := by
  cases p <;> simp [start]

omit [DecidableEq Client] [DecidableEq Server] in
theorem start_ne_handle {p : Process Client Server} : start p ≠ .handle e := by
  cases p <;> simp [start]

theorem reading_step (h : Step sys s a t) (hs : Reading sys s) : Reading sys t := by
  intro r e hr
  cases h with
  | opened => exact hs r e (State.pc_of_setPC start_ne_ack hr).2
  | request => exact hs r e (State.pc_of_setPC (by simp) hr).2
  | foreign => exact hs r e hr
  | @deliver p e' hp he =>
    have hu := hs r e hr
    by_cases hq : sys.queueOf r = sys.queueOf p
    · simp only [Broker.deliver, hq, Function.update_self]
      exact List.mem_cons_of_mem _ (hq ▸ hu)
    · simpa [Broker.deliver, hq] using hu
  | @read p e' hp hu =>
    by_cases hne : r = p
    · subst r
      obtain rfl : e' = e := by simpa using hr
      exact hu
    · exact hs r e (by simpa [hne] using hr)
  | @ack p e' hp =>
    obtain ⟨hne, hpc⟩ := State.pc_of_setPC (by simp) hr
    have hu := hs r e hpc
    by_cases hq : sys.queueOf r = sys.queueOf p
    · have hpair : (r, e) ≠ (p, e') := fun hh => hne (congrArg Prod.fst hh)
      simp only [Broker.ack, hq, Function.update_self]
      exact (List.mem_erase_of_ne hpair).mpr (hq ▸ hu)
    · simpa [Broker.ack, hq] using hu
  | skip => exact hs r e (State.pc_of_setPC (by simp) hr).2
  | accept => exact hs r e (State.pc_of_setPC (by simp) hr).2
  | reply => exact hs r e (State.pc_of_setPC (by simp) hr).2
  | expire => exact hs r e hr
  | stop =>
    obtain ⟨hne, hpc⟩ := State.pc_of_setPC (by simp) hr
    exact unacked_disconnected hne (hs r e hpc)

/-- No server's response key is read by servers, and no client reads the queue of a server. -/
structure Acyclic (sys : System Client Server) : Prop where
  keys : ∀ v w, sys.requestKey (.server v) ≠ sys.responseKey (.server w)
  queues : ∀ c v, sys.queueOf (.client c) ≠ sys.queueOf (.server v)

structure Ledger (sys : System Client Server) (as : List (Action Client Server))
    (s : State Client Server) : Prop where
  bound : Bound sys s
  reading : Reading sys s
  issued : ∀ e ∈ asked as, Issued s e.origin
  known : Everywhere sys (fun q e => ∀ v, sys.queueOf (.server v) = q → e ∈ asked as) s
  nodup : ∀ v, (s.broker.stock (sys.queueOf (.server v))).Nodup
  handled : ∀ v e, s.pc (.server v) = .handle e →
    e ∉ s.broker.stock (sys.queueOf (.server v))
  answered : ∀ v e, (v, e) ∈ answers as →
    e ∉ s.broker.stock (sys.queueOf (.server v)) ∧ s.pc (.server v) ≠ .handle e
  answers_nodup : (answers as).Nodup
  answers_asked : ∀ v e, (v, e) ∈ answers as → e ∈ asked as

omit [DecidableEq Client] [DecidableEq Server] in
theorem mem_asked_append : e ∈ asked (as ++ [a]) ↔ e ∈ asked as ∨ a.asked = some e := by
  simp [asked]

omit [DecidableEq Client] [DecidableEq Server] in
theorem mem_answers_append {x : Server × Envelope Client Server} :
    x ∈ answers (as ++ [a]) ↔ x ∈ answers as ∨ a.answer = some x := by
  simp [answers]

omit [DecidableEq Client] [DecidableEq Server] in
theorem answer_eq_some (h : a.answer = some (v, e)) : ∃ x, a = .reply v e x := by
  cases a with
  | reply w r x =>
    cases h
    exact ⟨x, rfl⟩
  | _ => contradiction

omit [DecidableEq Client] [DecidableEq Server] in
theorem published_cases (h : a.published = some e) :
    a.asked = some e ∨ ∃ v r, a = .reply v r e := by
  cases a with
  | request c x => exact Or.inl h
  | foreign x => exact Or.inl h
  | reply v r x =>
    cases h
    exact Or.inr ⟨v, r, rfl⟩
  | _ => contradiction

theorem published_fresh (hs : Ledger sys as s) (h : Step sys s a t) (he : a.published = some e) :
    e ∉ asked as :=
  fun hmem => not_issued_published h he (hs.issued e hmem)

omit [DecidableEq Client] [DecidableEq Server] in
theorem known_handled (hs : Ledger sys as s) (h : (s.pc (.server v)).held = some e) :
    e ∈ asked as :=
  hs.known _ e (inFlight_held h) v rfl

theorem notMem_stock_step (hs : Ledger sys as s) (h : Step sys s a t) (hk : e ∈ asked as)
    (he : e ∉ s.broker.stock q) : e ∉ t.broker.stock q := by
  intro ht
  rcases mem_stock_step h ht with hm | ⟨hp, -⟩
  · exact he hm
  · exact published_fresh hs h hp hk

/-- A server comes to handle a message by acknowledging it. -/
theorem handle_step (h : Step sys s a t) (ht : t.pc (.server v) = .handle e) :
    s.pc (.server v) = .handle e ∨
      (s.pc (.server v) = .ack e ∧
        t.broker = s.broker.ack (sys.queueOf (.server v)) (.server v) e) := by
  cases h with
  | opened => exact Or.inl (State.pc_of_setPC start_ne_handle ht).2
  | foreign => exact Or.inl ht
  | deliver => exact Or.inl ht
  | @ack p e' hp =>
    by_cases hv : .server v = p
    · subst p
      obtain rfl : e' = e := by simpa using ht
      exact Or.inr ⟨hp, rfl⟩
    · exact Or.inl (by simpa [hv] using ht)
  | expire => exact Or.inl ht
  | request => exact Or.inl (by simpa [State.requested] using ht)
  | read | skip | accept | reply | stop => exact Or.inl (State.pc_of_setPC (by simp) ht).2

/-- The reply to a message that names no server's key is not put into a server's queue. -/
theorem known_step (hac : Acyclic sys) (hs : Ledger sys as s) (h : Step sys s a t)
    (hsafe : ∀ e ∈ asked as, ¬ Addressed sys e) :
    Everywhere sys (fun q e => ∀ v, sys.queueOf (.server v) = q → e ∈ asked (as ++ [a])) t := by
  refine everywhere_step h hs.bound ?_ ?_
  · intro q e he v hv
    exact mem_asked_append.mpr (Or.inl (hs.known q e he v hv))
  intro q e he hpl v hv
  rcases published_cases he with ha | ⟨w, r, rfl⟩
  · exact mem_asked_append.mpr (Or.inr ha)
  · exfalso
    subst q
    obtain ⟨x, hx⟩ := placed_server hac.queues hpl
    cases h with
    | reply hp hm =>
      have hr : r ∈ asked as := known_handled hs (v := w) (by rw [hp]; rfl)
      rcases reply_key hm with ⟨hne, hk⟩ | ⟨-, hk⟩
      · exact hsafe r hr ⟨hne, x, hk.symm.trans hx⟩
      · exact hac.keys x w (hx.symm.trans hk)

theorem nodup_step (hs : Ledger sys as s) (h : Step sys s a t) (v : Server) :
    (t.broker.stock (sys.queueOf (.server v))).Nodup := by
  obtain ⟨l, hperm, hsub⟩ := stock_step h (sys.queueOf (.server v))
  refine hperm.nodup_iff.mp (List.Nodup.sublist hsub ?_)
  have hall : ∀ e ∈ arrivals s a (sys.queueOf (.server v)),
      e ∉ s.broker.stock (sys.queueOf (.server v)) := by
    intro e he hmem
    exact published_fresh hs h (mem_arrivals.mp he).1 (hs.known _ e (Or.inl hmem) v rfl)
  refine List.nodup_append'.mpr ⟨?_, hs.nodup v, fun e he hmem => hall e he hmem⟩
  rw [arrivals]
  cases Option.filter _ a.published <;> simp

theorem handled_step (hs : Ledger sys as s) (h : Step sys s a t)
    (ht : t.pc (.server v) = .handle e) : e ∉ t.broker.stock (sys.queueOf (.server v)) := by
  rcases handle_step h ht with hp | ⟨hp, hb⟩
  · exact notMem_stock_step hs h (known_handled hs (by rw [hp]; rfl)) (hs.handled v e hp)
  · have hperm := Broker.stock_ack (hs.reading _ e hp)
    have hnd := hperm.nodup_iff.mp (hs.nodup v)
    rw [hb]
    exact (List.nodup_cons.mp hnd).1

theorem answer_step (hs : Ledger sys as s) (h : Step sys s a t) (ha : a.answer = some (v, e)) :
    s.pc (.server v) = .handle e ∧ t.pc (.server v) = .read ∧ e ∈ asked as := by
  obtain ⟨x, rfl⟩ := answer_eq_some ha
  cases h with
  | reply hp hm => exact ⟨hp, by simp, known_handled hs (by rw [hp]; rfl)⟩

theorem answered_step (hs : Ledger sys as s) (h : Step sys s a t)
    (hmem : (v, e) ∈ answers (as ++ [a])) :
    e ∉ t.broker.stock (sys.queueOf (.server v)) ∧ t.pc (.server v) ≠ .handle e := by
  rcases mem_answers_append.mp hmem with hold | hnew
  · obtain ⟨hstock, hpc⟩ := hs.answered v e hold
    refine ⟨notMem_stock_step hs h (hs.answers_asked v e hold) hstock, ?_⟩
    intro ht
    rcases handle_step h ht with hp | ⟨hp, -⟩
    · exact hpc hp
    · exact hstock (Broker.mem_stock.mpr (Or.inr ⟨_, hs.reading _ e hp⟩))
  · obtain ⟨hp, ht, hk⟩ := answer_step hs h hnew
    exact ⟨notMem_stock_step hs h hk (hs.handled v e hp), by simp [ht]⟩

theorem ledger_step (hac : Acyclic sys) (hs : Ledger sys as s) (h : Step sys s a t)
    (hsafe : ∀ e ∈ asked as, ¬ Addressed sys e) : Ledger sys (as ++ [a]) t where
  bound := bound_step h hs.bound
  reading := reading_step h hs.reading
  issued := by
    intro e he
    rcases mem_asked_append.mp he with he | he
    · exact issued_step h (hs.issued e he)
    · exact issued_asked h he
  known := known_step hac hs h hsafe
  nodup := nodup_step hs h
  handled := fun _ _ => handled_step hs h
  answered := fun _ _ => answered_step hs h
  answers_nodup := by
    have hsplit : answers (as ++ [a]) = answers as ++ a.answer.toList := by
      cases ha : a.answer <;> simp [answers, ha]
    rw [hsplit]
    cases ha : a.answer with
    | none => simpa using hs.answers_nodup
    | some x =>
      obtain ⟨hp, -, -⟩ := answer_step hs h ha
      have hnew : x ∉ answers as := fun hmem => (hs.answered x.1 x.2 hmem).2 hp
      exact List.nodup_append'.mpr ⟨hs.answers_nodup, by simp, by simpa using hnew⟩
  answers_asked := by
    intro v e hmem
    rcases mem_answers_append.mp hmem with hold | hnew
    · exact mem_asked_append.mpr (Or.inl (hs.answers_asked v e hold))
    · exact mem_asked_append.mpr (Or.inl (answer_step hs h hnew).2.2)

omit [DecidableEq Client] [DecidableEq Server] in
theorem ledger_initial (sys : System Client Server) : Ledger sys [] initial where
  bound := bound_initial
  reading := by
    intro p e h
    contradiction
  issued := by simp [asked]
  known := everywhere_initial
  nodup := fun _ => List.nodup_nil
  handled := by
    intro v e h
    contradiction
  answered := by simp [answers]
  answers_nodup := List.nodup_nil
  answers_asked := by simp [answers]

theorem ledger_run (hac : Acyclic sys) (h : Run (Step sys) initial as t)
    (hsafe : ∀ e ∈ asked as, ¬ Addressed sys e) : Ledger sys as t := by
  let H : List (Action Client Server) → State Client Server → Prop := fun as s =>
    (∀ e ∈ asked as, ¬ Addressed sys e) → Ledger sys as s
  have hstep : ∀ as s a t, H as s → Step sys s a t → H (as ++ [a]) t := by
    intro as s a t hs hst hsafe
    have hold : ∀ e ∈ asked as, ¬ Addressed sys e :=
      fun e he => hsafe e (mem_asked_append.mpr (Or.inl he))
    exact ledger_step hac (hs hold) hst hold
  have hrun : H ([] ++ as) t := run_history hstep h fun _ => ledger_initial sys
  exact hrun hsafe

omit [DecidableEq Client] [DecidableEq Server] in
theorem asked_subset_append (as bs : List (Action Client Server)) :
    asked as ⊆ asked (as ++ bs) := by
  intro e he
  simp only [asked, List.filterMap_append]
  exact List.mem_append_left _ he

/-- What a server reads was published by somebody else. -/
theorem asked_of_read (hac : Acyclic sys) (h : Run (Step sys) initial as t)
    (hsafe : ∀ e ∈ asked as, ¬ Addressed sys e) (hread : .read (.server v) e ∈ as) :
    e ∈ asked as := by
  obtain ⟨as₁, as₂, rfl⟩ := List.append_of_mem hread
  obtain ⟨u, x, hu, hst, -⟩ := run_split_label h
  have hsub := asked_subset_append as₁ (.read (.server v) e :: as₂)
  have hs : Ledger sys as₁ u := ledger_run hac hu (fun e he => hsafe e (hsub he))
  cases hst with
  | read hp hmem =>
    exact hsub (hs.known _ e (Or.inl (Broker.mem_stock.mpr (Or.inr ⟨_, hmem⟩))) v rfl)

theorem origin_of_reply (h : Run (Step sys) initial as t) (hr : .reply w r e ∈ as) :
    e.origin = .reply w r.origin := by
  obtain ⟨as₁, as₂, rfl⟩ := List.append_of_mem hr
  obtain ⟨u, x, -, hst, -⟩ := run_split_label h
  cases hst with
  | reply => rfl

theorem replies_to_le [Fintype Server] (hs : Ledger sys as t) (r : Envelope Client Server) :
    (answers as).countP (·.2 = r) ≤ Fintype.card Server := by
  rw [List.countP_eq_length_filter]
  have hinj : (((answers as).filter (·.2 = r)).map Prod.fst).Nodup := by
    refine List.Nodup.map_on ?_ (hs.answers_nodup.filter _)
    rintro ⟨v, e⟩ he ⟨w, e'⟩ he' hvw
    have h₁ : e = r := by simpa using (List.mem_filter.mp he).2
    have h₂ : e' = r := by simpa using (List.mem_filter.mp he').2
    exact Prod.ext hvw (h₁.trans h₂.symm)
  simpa using hinj.length_le_card

theorem replies_le [Fintype Server] (hs : Ledger sys as t) :
    (answers as).length ≤ Fintype.card Server * (asked as).length := by
  have hsub : (answers as).toFinset ⊆ Finset.univ ×ˢ (asked as).toFinset := by
    rintro ⟨v, e⟩ hx
    refine Finset.mem_product.mpr ⟨Finset.mem_univ v, ?_⟩
    exact List.mem_toFinset.mpr (hs.answers_asked v e (List.mem_toFinset.mp hx))
  calc (answers as).length
      = (answers as).toFinset.card := (List.toFinset_card_of_nodup hs.answers_nodup).symm
    _ ≤ (Finset.univ ×ˢ (asked as).toFinset).card := Finset.card_le_card hsub
    _ = Fintype.card Server * (asked as).toFinset.card := Finset.card_product ..
    _ ≤ Fintype.card Server * (asked as).length :=
      Nat.mul_le_mul_left _ (List.toFinset_card_le _)

/-- While no request asks for its reply under a key that servers read, no server reads what a
server has published, no server answers a request twice, so that each request is answered at most
`n` times by the `n` servers, and all requests together at most `n` times each. -/
theorem servers_read_no_reply [Fintype Server] (hac : Acyclic sys)
    (h : Run (Step sys) initial as t) (hsafe : ∀ e ∈ asked as, ¬ Addressed sys e) :
    (∀ v w r e, .read (.server v) e ∈ as → .reply w r e ∉ as) ∧
      (answers as).Nodup ∧ (∀ r, (answers as).countP (·.2 = r) ≤ Fintype.card Server) ∧
      (answers as).length ≤ Fintype.card Server * (asked as).length := by
  have hs : Ledger sys as t := ledger_run hac h hsafe
  refine ⟨?_, hs.answers_nodup, replies_to_le hs, replies_le hs⟩
  intro v w r e hread hreply
  have hi : Issued t e.origin := hs.issued e (asked_of_read hac h hsafe hread)
  rw [origin_of_reply h hreply] at hi
  exact hi

theorem twoByTwo_acyclic : Acyclic twoByTwo where
  keys := fun v w => twoByTwo_separate.keys (.server v) (.server w)
  queues := twoByTwo_separate.queues

/-- Both servers answer the one request that reaches them. -/
theorem servers_read_no_reply_twoByTwo :
    (∀ v w r e, .read (.server v) e ∈ twoByTwoRun → .reply w r e ∉ twoByTwoRun) ∧
      (answers twoByTwoRun).Nodup ∧ (∀ r, (answers twoByTwoRun).countP (·.2 = r) ≤ 2) ∧
      (answers twoByTwoRun).length ≤ 2 * (asked twoByTwoRun).length := by
  obtain ⟨t, ht, -⟩ := exists_run_of_execAll (step_of_exec twoByTwo) initial twoByTwoRun
    (fun _ => true) (by decide +kernel)
  have hkey : ∀ e ∈ asked twoByTwoRun,
      cstr (byte_to_string e.message.properties.reply_to) ≠ ascii "task_request" := by decide
  refine servers_read_no_reply twoByTwo_acyclic ht ?_
  rintro e he ⟨-, v, hv⟩
  exact hkey e he hv

def oneServer : System Unit Unit where
  options := fun _ => {}
  getpid := fun _ => 100
  thread_id := fun _ => 7

/-- A message whose `reply_to` is the key the server reads. -/
def loopback : Envelope Unit Unit where
  origin := .foreign 0
  message :=
    { channel := 1, exchange := ascii "business", routing_key := ascii "task_request",
      mandatory := false, immediate := false,
      properties := { reply_to := some (ascii "task_request") }, body := [] }

def loopbackRun : List (Action Unit Unit) :=
  let answer := oneServer.replyOf () loopback
  [.opened (.server ()), .foreign loopback, .deliver (.server ()) loopback,
    .read (.server ()) loopback, .ack (.server ()) loopback, .reply () loopback answer,
    .deliver (.server ()) answer, .read (.server ()) answer, .ack (.server ()) answer,
    .reply () answer (oneServer.replyOf () answer)]

/-- The server answers a request and takes its own reply from the queue it shares with the
client. -/
def ownReplyRun : List (Action Unit Unit) :=
  let r := sharedQueue.requestOf () 1
  let answer := sharedQueue.replyOf () r
  [.opened (.server ()), .opened (.client ()), .request () r, .deliver (.server ()) r,
    .read (.server ()) r, .ack (.server ()) r, .reply () r answer,
    .deliver (.server ()) answer, .read (.server ()) answer, .ack (.server ()) answer,
    .reply () answer (sharedQueue.replyOf () answer)]

/-- Request and response keys differ, and yet a server reads what a server has published and
answers more than one message for the one request there is. -/
def Feeds (sys : System Client Unit) (as : List (Action Client Unit)) : Prop :=
  (∀ v w, sys.requestKey (.server v) ≠ sys.responseKey (.server w)) ∧
    (∃ t, Run (Step sys) initial as t) ∧
    (∃ v w r e, .reply w r e ∈ as ∧ .read (.server v) e ∈ as) ∧
    (asked as).length = 1 ∧ (answers as).length = 2

/-- A server reads its own reply, since the request asks for that or since the queue it shares
with a client is bound to both keys. -/
theorem server_reads_reply : Feeds oneServer loopbackRun ∧ Feeds sharedQueue ownReplyRun := by
  constructor
  · refine ⟨?_, ?_, ⟨(), (), loopback, oneServer.replyOf () loopback, ?_, ?_⟩, rfl, rfl⟩
    · intro v w
      change ascii "task_request" ≠ ascii "task_response"
      decide
    · obtain ⟨t, ht, -⟩ := exists_run_of_execAll (step_of_exec oneServer) initial loopbackRun
        (fun _ => true) (by decide +kernel)
      exact ⟨t, ht⟩
    · simp [loopbackRun]
    · simp [loopbackRun]
  · refine ⟨?_, ?_, ⟨(), (), sharedQueue.requestOf () 1,
      sharedQueue.replyOf () (sharedQueue.requestOf () 1), ?_, ?_⟩, rfl, rfl⟩
    · intro v w
      change ascii "task_request" ≠ ascii "task_response"
      decide
    · obtain ⟨t, ht, -⟩ := exists_run_of_execAll (step_of_exec sharedQueue) initial ownReplyRun
        (fun _ => true) (by decide +kernel)
      exact ⟨t, ht⟩
    · simp [ownReplyRun]
    · simp [ownReplyRun]

end

end RabbitClient.Rpc
