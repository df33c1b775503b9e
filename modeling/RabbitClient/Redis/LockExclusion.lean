import RabbitClient.Redis.LockInvariant

/-! Two masters are always separated by an expiry, and `expire` only reaches one's own lock. -/
namespace RabbitClient.SysmasterLock

open Redis (Store Entry)
open Lts

variable {Client : Type} [DecidableEq Client] {cfg : Config Client} {c d : Client}
  {s t : State Client} {a : Action Client} {as : List (Action Client)}

/-- The read on whose strength `sysmaster_lock` returns true. -/
def winningGet (cfg : Config Client) (c : Client) : Action Client :=
  .command c (.get (some (cfg.id c)))

/-- The actions that create, remove or prolong the lock key. -/
def ChangesLock (cfg : Config Client) : Action Client → Prop
  | .command _ (.setnx true) | .command _ .expire => True
  | .expired key => key = cfg.systemLock
  | _ => False

def CommandOf (c : Client) (a : Action Client) : Prop := ∃ cmd, a = .command c cmd

/-- Only a command of the client itself, its own call or return moves its position. -/
theorem pc_step (h : Step cfg s a t) (p : PC) (ht : t.pc c = p) :
    s.pc c = p ∧ ¬ CommandOf c a ∨ a = .call c ∧ p = .get ∨
      (∃ b, a = .ret c b ∧ p = .idle) ∨
      ∃ cmd db, a = .command c cmd ∧ Executes cfg c s.db (s.pc c) cmd p db ∧ t.db = db := by
  cases h with
  | @call d hr hp =>
    by_cases hd : c = d
    · subst d
      exact Or.inr (Or.inl ⟨rfl, by simpa using ht.symm⟩)
    · exact Or.inl ⟨by simpa [hd] using ht, by simp [CommandOf]⟩
  | @command d cmd q db hr hc =>
    by_cases hd : c = d
    · subst d
      have hq : q = p := by simpa using ht
      subst q
      exact Or.inr (Or.inr (Or.inr ⟨cmd, db, rfl, sysmaster_lock_executes hc, rfl⟩))
    · refine Or.inl ⟨by simpa [hd] using ht, ?_⟩
      rintro ⟨_, he⟩
      simp_all
  | @ret d b hr hp =>
    by_cases hd : c = d
    · subst d
      exact Or.inr (Or.inr (Or.inl ⟨b, rfl, by simpa using ht.symm⟩))
    · exact Or.inl ⟨by simpa [hd] using ht, by simp [CommandOf]⟩
  | stop => exact Or.inl ⟨ht, by simp [CommandOf]⟩
  | expired => exact Or.inl ⟨ht, by simp [CommandOf]⟩

/-- A result true was read by the client's last command. -/
theorem ret_true_step (h : Step cfg s a t) (ht : t.pc c = .ret true) :
    a = winningGet cfg c ∨ s.pc c = .ret true ∧ ¬ CommandOf c a := by
  rcases pc_step h _ ht with hk | ⟨_, hp⟩ | ⟨_, _, hp⟩ | ⟨cmd, db, rfl, hx, _⟩
  · exact Or.inr hk
  · contradiction
  · contradiction
  · left
    generalize s.pc c = q at hx
    generalize hr : PC.ret true = r at hx
    cases hx <;> simp_all [winningGet]

/-- A client about to send `expire` created the lock, and nothing has touched it since. -/
theorem expire_step (h : Step cfg s a t) (hs : Holding cfg s) (ht : t.pc c = .expire) :
    a = .command c (.setnx true) ∨ s.pc c = .expire ∧ ¬ ChangesLock cfg a := by
  rcases pc_step h _ ht with ⟨hp, hn⟩ | ⟨_, hp⟩ | ⟨_, _, hp⟩ | ⟨cmd, db, rfl, hx, _⟩
  · right
    refine ⟨hp, ?_⟩
    have hl := hs c hp
    cases h with
    | @command d cmd q db hr hc =>
      generalize hq : s.pc d = r at hc
      cases sysmaster_lock_executes hc with
      | setnxTaken hnone => simp [hl] at hnone
      | expirePresent | expireAbsent =>
        have hcd : c = d := holding_unique hs hp hq
        exact (hn ⟨_, by rw [hcd]⟩).elim
      | _ => simp [ChangesLock]
    | @expired key he =>
      rintro rfl
      obtain ⟨e, he, hne⟩ := he
      rw [hl] at he
      cases he
      exact hne rfl
    | _ => simp [ChangesLock]
  · contradiction
  · contradiction
  · left
    generalize s.pc c = q at hx
    generalize hr : PC.expire = r at hx
    cases hx <;> simp_all

/-- Reading one's own id needs the lock to hold it. -/
theorem winningGet_lock (h : Step cfg s (winningGet cfg c) t) :
    ∃ e, s.db cfg.systemLock = some e ∧ e.value = cfg.id c ∧
      t.db cfg.systemLock = s.db cfg.systemLock := by
  generalize ha : winningGet cfg c = a at h
  cases h with
  | @command d cmd q db hr hc =>
    simp only [winningGet, Action.command.injEq] at ha
    obtain ⟨rfl, rfl⟩ := ha
    generalize hv : Command.get (some (cfg.id c)) = cmd at hc
    generalize s.pc c = p at hc
    cases sysmaster_lock_executes hc with
    | getPresent he | regetPresent he => exact ⟨_, he, by simp_all, rfl⟩
    | _ => simp at hv
  | _ => simp [winningGet] at ha

theorem lock_value_run (h : Run (Step cfg) s as t) (ha : .expired cfg.systemLock ∉ as)
    {v : String} (he : ∃ e, s.db cfg.systemLock = some e ∧ e.value = v) :
    ∃ e, t.db cfg.systemLock = some e ∧ e.value = v := by
  refine run_invariant_of_labels (G := fun a => a ≠ .expired cfg.systemLock)
    (I := fun s => ∃ e, s.db cfg.systemLock = some e ∧ e.value = v) ?_ h ?_ he
  · rintro s a t hok hst ⟨e, hl, hv⟩
    obtain ⟨e', hl', hv'⟩ := lock_value_step hst hok hl
    exact ⟨e', hl', hv'.trans hv⟩
  · intro b hb hbe
    exact ha (hbe ▸ hb)

theorem winningGets_separated {as bs es : List (Action Client)}
    (hr : Run (Step cfg) s (as ++ winningGet cfg c :: (bs ++ winningGet cfg d :: es)) t)
    (hcd : c ≠ d) : .expired cfg.systemLock ∈ bs := by
  by_contra hno
  obtain ⟨u, v, -, huv, hr⟩ := run_split_label hr
  obtain ⟨w, x, hvw, hwx, -⟩ := run_split_label hr
  obtain ⟨e, he, hev, hsame⟩ := winningGet_lock huv
  obtain ⟨e', he', hev', -⟩ := winningGet_lock hwx
  have hkept := lock_value_run hvw hno ⟨e, hsame.trans he, hev⟩
  obtain ⟨e'', he'', hev''⟩ := hkept
  have : e'' = e' := Option.some.inj (he''.symm.trans he')
  exact hcd (cfg.id_injective (by rw [← hev'', ← hev', this]))

theorem expire_acts_on_own_lock {as bs : List (Action Client)} (hs : Start s)
    (hr : Run (Step cfg) s (as ++ .command c .expire :: bs) t) :
    ∃ u v, Run (Step cfg) s as u ∧ Step cfg u (.command c .expire) v ∧ Run (Step cfg) v bs t ∧
      u.db cfg.systemLock = some ⟨cfg.id c, none⟩ ∧
      v.db cfg.systemLock = some ⟨cfg.id c, some 10⟩ ∧
      ∃ p q, as = p ++ .command c (.setnx true) :: q ∧ ∀ a ∈ q, ¬ ChangesLock cfg a := by
  obtain ⟨u, v, hsu, huv, hvt⟩ := run_split_label hr
  have hhold : Holding cfg u := run_invariant (fun _ _ _ => holding_step) hsu (holding_start hs)
  have hpc : u.pc c = .expire ∧ v.db = (u.db.expire cfg.systemLock 10).2 := by
    generalize ha : Action.command c .expire = a at huv
    cases huv with
    | @command d cmd q db hr hc =>
      obtain ⟨rfl, rfl⟩ := Action.command.inj ha
      generalize hp : u.pc c = p at hc
      generalize hv : Command.expire = cmd at hc
      cases sysmaster_lock_executes hc with
      | expirePresent h => exact ⟨rfl, by simp [Store.expire, h]⟩
      | expireAbsent h => exact ⟨rfl, by simp [Store.expire, h]⟩
      | _ => contradiction
    | _ => contradiction
  obtain ⟨hpc, hdb⟩ := hpc
  have hlock := hhold c hpc
  have horigin := run_since (P := fun s => s.pc c = .expire) hsu (fun _ _ _ => holding_step)
    (fun _ _ _ h hi hp => expire_step h hi hp) (holding_start hs) (by simp [(hs c).1]) hpc
  obtain ⟨p, e, q, rfl, rfl, hq⟩ := horigin
  refine ⟨u, v, hsu, huv, hvt, hlock, ?_, p, q, rfl, hq⟩
  simp [hdb, Store.expire, hlock]

/-- In every run of `sysmaster_lock` calls: a true result rests on the caller's last read,
two such reads by different clients have an expiry of the lock between them, and `expire`
only prolongs the lock its sender has created. -/
theorem sysmaster_lock_exclusive (hs : Start s) (hr : Run (Step cfg) s as t) :
    (∀ c l l', as = l ++ .ret c true :: l' →
      ∃ p q, l = p ++ winningGet cfg c :: q ∧ ∀ a ∈ q, ¬ CommandOf c a) ∧
    (∀ c d l₁ l₂ l₃, c ≠ d → as = l₁ ++ winningGet cfg c :: (l₂ ++ winningGet cfg d :: l₃) →
      .expired cfg.systemLock ∈ l₂) ∧
    (∀ c l l', as = l ++ .command c .expire :: l' →
      ∃ u v, Run (Step cfg) s l u ∧ Step cfg u (.command c .expire) v ∧ Run (Step cfg) v l' t ∧
        u.db cfg.systemLock = some ⟨cfg.id c, none⟩ ∧
        v.db cfg.systemLock = some ⟨cfg.id c, some 10⟩ ∧
        ∃ p q, l = p ++ .command c (.setnx true) :: q ∧ ∀ a ∈ q, ¬ ChangesLock cfg a) := by
  refine ⟨?_, ?_, ?_⟩
  · rintro c l l' rfl
    obtain ⟨u, v, hsu, huv, -⟩ := run_split_label hr
    have hpc : u.pc c = .ret true := by
      cases huv with
      | ret _ hp => exact hp
    obtain ⟨p, e, q, rfl, rfl, hq⟩ := run_since (P := fun s => s.pc c = .ret true)
      (I := fun _ => True) hsu (fun _ _ _ _ _ => trivial)
      (fun _ _ _ h _ hp => ret_true_step h hp) trivial (by simp [(hs c).1]) hpc
    exact ⟨p, q, rfl, hq⟩
  · rintro c d l₁ l₂ l₃ hcd rfl
    exact winningGets_separated hr hcd
  · rintro c l l' rfl
    exact expire_acts_on_own_lock hs hr

/-- Two clients on an empty server. -/
def twoNodes : Config Bool where
  resource := "system"
  id := fun c => if c then "node_a" else "node_b"
  id_injective := by
    intro c d h
    revert h
    cases c <;> cases d <;> decide

def emptyServer : State Bool := ⟨fun _ => none, fun _ => .idle, fun _ => true⟩

theorem emptyServer_initial : Initial twoNodes emptyServer :=
  ⟨fun _ => ⟨rfl, rfl⟩, rfl, fun _ h => by contradiction⟩

/-- A client's call on a free lock up to its result. -/
def acquire (c : Bool) : List (Action Bool) :=
  [.call c, .command c (.get none), .command c (.setnx true), .command c .expire,
    .command c .set, winningGet twoNodes c, .ret c true]

theorem sysmaster_lock_exclusive_takeover :
    ∃ t, Run (Step twoNodes) emptyServer
        (acquire true ++ .expired twoNodes.systemLock :: acquire false) t ∧
      .expired twoNodes.systemLock ∈
        Action.ret true true :: .expired twoNodes.systemLock :: (acquire false).take 5 := by
  obtain ⟨t, hr, -⟩ := exists_run_of_execAll (step_of_exec twoNodes) emptyServer
    (acquire true ++ .expired twoNodes.systemLock :: acquire false) (fun _ => true) (by decide)
  refine ⟨t, hr, ?_⟩
  exact (sysmaster_lock_exclusive emptyServer_initial.1 hr).2.1 true false
    ((acquire true).take 5) _ [.ret false true] (by decide) rfl

end RabbitClient.SysmasterLock
