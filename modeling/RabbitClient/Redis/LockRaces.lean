import RabbitClient.Redis.LockExclusion

/-! Two windows of an acquisition: a delayed `set`, and a stop before `expire`. -/
namespace RabbitClient.SysmasterLock

open Redis (Store Entry)
open Lts

variable {Client : Type} [DecidableEq Client] {cfg : Config Client} {c d : Client}
  {s t : State Client} {a : Action Client} {ps : List (State Client × Action Client)}

/-- The master key names the owner of the lock, unless a new owner is still publishing. -/
def Agrees (cfg : Config Client) (s : State Client) : Prop :=
  ∀ e, s.db cfg.systemLock = some e → (∀ c, ¬ Between (s.pc c)) →
    ∃ m, s.db cfg.systemMaster = some m ∧ m.value = e.value

/-- A delayed `set`: the lock already belongs to another client, which has published. -/
def StaleSet (cfg : Config Client) (s : State Client) (a : Action Client) : Prop :=
  ∃ c e, a = .command c .set ∧ s.db cfg.systemLock = some e ∧ e.value ≠ cfg.id c ∧
    ∀ d, d ≠ c → ¬ Between (s.pc d)

def MasterKept (cfg : Config Client) (s : State Client) : Prop :=
  ∀ m, s.db cfg.systemMaster = some m → m.ttl = none

omit [DecidableEq Client] in
theorem agrees_of_same (h : Agrees cfg s)
    (hl : t.db cfg.systemLock = s.db cfg.systemLock)
    (hm : t.db cfg.systemMaster = s.db cfg.systemMaster)
    (hb : ∀ c, Between (s.pc c) → Between (t.pc c)) : Agrees cfg t := by
  intro e he hn
  rw [hm]
  exact h e (hl ▸ he) (fun c hc => hn c (hb c hc))

omit [DecidableEq Client] in
theorem agrees_of_absent (h : t.db cfg.systemLock = none) : Agrees cfg t := by
  intro e he
  simp [h] at he

omit [DecidableEq Client] in
theorem agrees_of_between (h : Between (t.pc c)) : Agrees cfg t :=
  fun _ _ hn => (hn c h).elim

theorem between_setPC {p : PC} (hp : ¬ Between (s.pc c)) (d : Client)
    (hd : Between (s.pc d)) : Between ((s.setPC c p).pc d) := by
  have hne : d ≠ c := by
    rintro rfl
    exact hp hd
  simpa [hne] using hd

theorem masterKept_step (h : Step cfg s a t) (hs : MasterKept cfg s) : MasterKept cfg t := by
  intro m hm
  have hne := systemMaster_ne_systemLock cfg
  cases h with
  | call => exact hs m hm
  | @command c cmd p db hr hc =>
    generalize s.pc c = q at hc
    cases sysmaster_lock_executes hc with
    | setnxTaken => exact hs m (by simpa [hne] using hm)
    | expirePresent => exact hs m (by simpa [hne] using hm)
    | set =>
      simp only [Store.set_self, Option.some.injEq] at hm
      rw [← hm]
    | _ => exact hs m hm
  | ret => exact hs m hm
  | stop => exact hs m hm
  | @expired key he =>
    by_cases hk : cfg.systemMaster = key
    · simp [hk] at hm
    · exact hs m (by simpa [hk] using hm)

theorem agrees_set (h : Agrees cfg { s.setPC c .reget with
      db := s.db.set cfg.systemMaster (cfg.id c) }) :
    ¬ StaleSet cfg s (.command c .set) := by
  rintro ⟨d, e, hd, he, hv, hn⟩
  cases hd
  obtain ⟨m, hm, hmv⟩ := h e
    (by simpa [(systemMaster_ne_systemLock cfg).symm] using he) (by
      intro d
      by_cases hd : d = c
      · subst d
        simp [Between]
      · simpa [hd] using hn d hd)
  simp only [Store.set_self, Option.some.injEq] at hm
  subst m
  exact hv hmv.symm

theorem agrees_of_not_staleSet (h : ¬ StaleSet cfg s (.command c .set)) :
    Agrees cfg { s.setPC c .reget with db := s.db.set cfg.systemMaster (cfg.id c) } := by
  intro e he hn
  refine ⟨⟨cfg.id c, none⟩, by simp, ?_⟩
  by_contra hv
  refine h ⟨c, e, rfl, ?_, fun hev => hv hev.symm, ?_⟩
  · simpa [(systemMaster_ne_systemLock cfg).symm] using he
  · intro d hd
    simpa [hd] using hn d

/-- Only a stale `set` makes the published name and the lock disagree. -/
theorem agrees_step (h : Step cfg s a t) (hm : MasterKept cfg s) (hs : Agrees cfg s) :
    Agrees cfg t ↔ ¬ StaleSet cfg s a := by
  cases h with
  | call hr hp =>
    exact iff_of_true (agrees_of_same hs rfl rfl (between_setPC (by simp [hp, Between])))
      (by simp [StaleSet])
  | @command c cmd p db hr hc =>
    generalize hq : s.pc c = q at hc
    cases sysmaster_lock_executes hc with
    | getAbsent h => exact iff_of_true (agrees_of_absent h) (by simp [StaleSet])
    | setnxTaken h =>
      exact iff_of_true (agrees_of_between (c := c) (by simp [Between])) (by simp [StaleSet])
    | expirePresent h =>
      exact iff_of_true (agrees_of_between (c := c) (by simp [Between])) (by simp [StaleSet])
    | expireAbsent h =>
      exact iff_of_true (agrees_of_between (c := c) (by simp [Between])) (by simp [StaleSet])
    | set => exact ⟨agrees_set, agrees_of_not_staleSet⟩
    | getPresent | setnxRefused | regetAbsent | regetPresent =>
      exact iff_of_true (agrees_of_same hs rfl rfl (between_setPC (by simp [hq, Between])))
        (by simp [StaleSet])
  | ret hr hp =>
    exact iff_of_true (agrees_of_same hs rfl rfl (between_setPC (by simp [hp, Between])))
      (by simp [StaleSet])
  | stop => exact iff_of_true (agrees_of_same hs rfl rfl (fun _ h => h)) (by simp [StaleSet])
  | @expired key he =>
    refine iff_of_true ?_ (by simp [StaleSet])
    by_cases hl : cfg.systemLock = key
    · exact agrees_of_absent (by simp [hl])
    · have hk : cfg.systemMaster ≠ key := by
        rintro rfl
        obtain ⟨e, he, ht⟩ := he
        exact ht (hm e he)
      exact agrees_of_same hs (by simp [hl]) (by simp [hk]) (fun _ h => h)

/-- In a run from a free lock the published name is right in every state exactly if no
client sends its `set` after another client has taken over and published. -/
theorem published_master_iff (hi : Initial cfg s) (hr : Run (Recorded (Step cfg)) s ps t) :
    Throughout (Agrees cfg) ps t ↔ ∀ p ∈ ps, ¬ StaleSet cfg p.1 p.2 := by
  refine recorded_throughout_iff (I := MasterKept cfg) (fun _ _ _ => masterKept_step)
    (fun _ _ _ => agrees_step) hr hi.2.2 (agrees_of_absent hi.2.1)

/-- The first client sends its `set` only after its lock has expired and the second client
has acquired the lock and published. -/
def delayedSet : List (Action Bool) :=
  [.call true, .command true (.get none), .command true (.setnx true), .command true .expire,
    .expired twoNodes.systemLock, .call false, .command false (.get none),
    .command false (.setnx true), .command false .expire, .command false .set,
    .command true .set]

theorem published_master_delayed :
    ¬ ∀ as t, Run (Step twoNodes) emptyServer as t → Agrees twoNodes t := by
  intro h
  obtain ⟨t, hr, ht⟩ := exists_run_of_execAll (step_of_exec twoNodes) emptyServer delayedSet
    (fun t => t.db twoNodes.systemLock == some ⟨"node_b", some 10⟩ &&
      t.db twoNodes.systemMaster == some ⟨"node_a", none⟩ &&
      t.pc true == .reget && t.pc false == .reget) (by decide)
  simp only [Bool.and_eq_true, beq_iff_eq] at ht
  obtain ⟨⟨⟨hl, hm⟩, hp⟩, hq⟩ := ht
  obtain ⟨m, hm', hv⟩ := h _ t hr _ hl (by intro c; cases c <;> simp [hp, hq, Between])
  rw [hm] at hm'
  cases hm'
  simp at hv

theorem published_master_iff_delayed :
    ∃ t, Run (Recorded (Step twoNodes)) emptyServer
        (record (exec twoNodes) emptyServer delayedSet) t ∧
      (Throughout (Agrees twoNodes) (record (exec twoNodes) emptyServer delayedSet) t ↔
        ∀ p ∈ record (exec twoNodes) emptyServer delayedSet, ¬ StaleSet twoNodes p.1 p.2) := by
  obtain ⟨t, hr⟩ := exists_recorded_of_execAll (step_of_exec twoNodes) emptyServer delayedSet
    (by decide)
  exact ⟨t, hr, published_master_iff emptyServer_initial hr⟩

/-- A present lock will go away by itself, or its owner still runs and is about to arrange it. -/
def Expiring (cfg : Config Client) (s : State Client) : Prop :=
  ∀ e, s.db cfg.systemLock = some e →
    e.ttl ≠ none ∨ ∃ c, s.running c = true ∧ s.pc c = .expire ∧ e.value = cfg.id c

/-- A client stops after its successful `setnx` and before its `expire`. -/
def StopsHolder (s : State Client) (a : Action Client) : Prop :=
  ∃ c, a = .stop c ∧ s.pc c = .expire

omit [DecidableEq Client] in
theorem expiring_of_same (h : Expiring cfg s)
    (hl : t.db cfg.systemLock = s.db cfg.systemLock)
    (hk : ∀ c, s.running c = true → s.pc c = .expire → t.running c = true ∧ t.pc c = .expire) :
    Expiring cfg t := by
  intro e he
  rcases h e (hl ▸ he) with ht | ⟨c, hr, hp, hv⟩
  · exact Or.inl ht
  · exact Or.inr ⟨c, (hk c hr hp).1, (hk c hr hp).2, hv⟩

theorem holder_setPC {p : PC} (hp : s.pc c ≠ .expire) (d : Client)
    (hr : s.running d = true) (hd : s.pc d = .expire) :
    (s.setPC c p).running d = true ∧ (s.setPC c p).pc d = .expire := by
  have hne : d ≠ c := by
    rintro rfl
    exact hp hd
  exact ⟨hr, by simpa [hne] using hd⟩

theorem expiring_stop (hs : Expiring cfg s) (hh : Holding cfg s) (hr : s.running c = true) :
    Expiring cfg { s with running := Function.update s.running c false } ↔
      ¬ StopsHolder s (.stop c) := by
  constructor
  · rintro h ⟨d, hd, hp⟩
    cases hd
    rcases h _ (hh c hp) with ht | ⟨d, hd, hpd, hv⟩
    · exact ht rfl
    · have : c = d := cfg.id_injective hv
      subst d
      simp at hd
  · intro h
    refine expiring_of_same hs ?_ ?_
    · rfl
    intro d hd hp
    have hne : d ≠ c := by
      rintro rfl
      exact h ⟨d, rfl, hp⟩
    exact ⟨by simpa [hne] using hd, hp⟩

/-- Only stopping the holder before its `expire` leaves a lock that never goes away. -/
theorem expiring_step (h : Step cfg s a t) (hh : Holding cfg s) (hs : Expiring cfg s) :
    Expiring cfg t ↔ ¬ StopsHolder s a := by
  cases h with
  | call hr hp =>
    exact iff_of_true (expiring_of_same hs rfl (holder_setPC (by simp [hp])))
      (by simp [StopsHolder])
  | @command c cmd p db hr hc =>
    refine iff_of_true ?_ (by simp [StopsHolder])
    generalize hq : s.pc c = q at hc
    cases sysmaster_lock_executes hc with
    | setnxTaken h =>
      intro e he
      have hv : e = ⟨cfg.id c, none⟩ := by simpa using he.symm
      exact Or.inr ⟨c, hr, by simp, by rw [hv]⟩
    | @expirePresent e' h =>
      intro e he
      left
      have hv : e = ⟨e'.value, some 10⟩ := by simpa using he.symm
      simp [hv]
    | expireAbsent h => simp [hh c hq] at h
    | set =>
      exact expiring_of_same hs (by simp [(systemMaster_ne_systemLock cfg).symm])
        (holder_setPC (by simp [hq]))
    | getAbsent | getPresent | setnxRefused | regetAbsent | regetPresent =>
      exact expiring_of_same hs rfl (holder_setPC (by simp [hq]))
  | ret hr hp =>
    exact iff_of_true (expiring_of_same hs rfl (holder_setPC (by simp [hp])))
      (by simp [StopsHolder])
  | stop hr => exact expiring_stop hs hh hr
  | @expired key he =>
    refine iff_of_true ?_ (by simp [StopsHolder])
    by_cases hl : cfg.systemLock = key
    · intro e he
      simp [hl] at he
    · exact expiring_of_same hs (by simp [hl]) (fun _ hr hp => ⟨hr, hp⟩)

/-- In a run from a free lock every state has an expiring lock, or a live client about to
make it so, exactly if no client stops between its successful `setnx` and its `expire`. -/
theorem lock_expiring_iff (hi : Initial cfg s) (hr : Run (Recorded (Step cfg)) s ps t) :
    Throughout (Expiring cfg) ps t ↔ ∀ p ∈ ps, ¬ StopsHolder p.1 p.2 := by
  refine recorded_throughout_iff (I := Holding cfg) (fun _ _ _ => holding_step)
    (fun _ _ _ => expiring_step) hr (holding_start hi.1) ?_
  intro e he
  simp [hi.2.1] at he

/-- A client stops right after its `setnx` created the lock. -/
def stoppedHolder : List (Action Bool) :=
  [.call true, .command true (.get none), .command true (.setnx true), .stop true]

theorem lock_expiring_stopped :
    ¬ ∀ as t, Run (Step twoNodes) emptyServer as t → Expiring twoNodes t := by
  intro h
  obtain ⟨t, hr, ht⟩ := exists_run_of_execAll (step_of_exec twoNodes) emptyServer stoppedHolder
    (fun t => t.db twoNodes.systemLock == some ⟨"node_a", none⟩ &&
      !t.running true && t.pc false == .idle) (by decide)
  simp only [Bool.and_eq_true, beq_iff_eq, Bool.not_eq_true'] at ht
  obtain ⟨⟨hl, hn⟩, hp⟩ := ht
  rcases h _ t hr _ hl with ht | ⟨c, hc, hpc, -⟩
  · exact ht rfl
  · cases c <;> simp_all

theorem lock_expiring_iff_stopped :
    ∃ t, Run (Recorded (Step twoNodes)) emptyServer
        (record (exec twoNodes) emptyServer stoppedHolder) t ∧
      (Throughout (Expiring twoNodes) (record (exec twoNodes) emptyServer stoppedHolder) t ↔
        ∀ p ∈ record (exec twoNodes) emptyServer stoppedHolder, ¬ StopsHolder p.1 p.2) := by
  obtain ⟨t, hr⟩ := exists_recorded_of_execAll (step_of_exec twoNodes) emptyServer stoppedHolder
    (by decide)
  exact ⟨t, hr, lock_expiring_iff emptyServer_initial hr⟩

end RabbitClient.SysmasterLock
