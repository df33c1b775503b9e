import RabbitClient.Redis.LockExclusion

/-! When a call of `sysmaster_lock` can return by its own commands: the re-read loop. -/
namespace RabbitClient.SysmasterLock

open Redis (Store Entry)
open Lts

variable {Client : Type} [DecidableEq Client] {cfg : Config Client} {c : Client}
  {s t : State Client} {a : Action Client} {ps : List (State Client × Action Client)}

/-- A continuation by the client's own commands alone that makes its call return. -/
def Finishes (cfg : Config Client) (s : State Client) (c : Client) : Prop :=
  ∃ as b t, Run (Step cfg) s (as ++ [.ret c b]) t ∧ ∀ a ∈ as, CommandOf c a

def AllFinish (cfg : Config Client) (s : State Client) : Prop :=
  ∀ c, s.running c = true → s.pc c ≠ .idle → Finishes cfg s c

/-- Past the successful or refused `setnx`, with only the re-read loop left to leave. -/
def BeforeReread (p : PC) : Prop := p = .set ∨ p = .reget

/-- The lock expires while a running client still has to re-read it. -/
def ExpiresUnderReader (cfg : Config Client) (s : State Client) (a : Action Client) : Prop :=
  a = .expired cfg.systemLock ∧ ∃ c, s.running c = true ∧ BeforeReread (s.pc c)

theorem finishes_command (cmd : Command) (p : PC) (db : Store String String)
    (hr : s.running c = true) (hc : sysmaster_lock cfg c (s.pc c) s.db = some (cmd, p, db))
    (h : Finishes cfg { s.setPC c p with db := db } c) : Finishes cfg s c := by
  obtain ⟨as, b, t, hrun, hall⟩ := h
  refine ⟨.command c cmd :: as, b, t, .stepL (.command hr hc) hrun, ?_⟩
  intro a ha
  rcases List.mem_cons.mp ha with rfl | ha
  · exact ⟨cmd, rfl⟩
  · exact hall a ha

theorem finishes_ret {b : Bool} (hr : s.running c = true) (hp : s.pc c = .ret b) :
    Finishes cfg s c :=
  ⟨[], b, _, run_single (.ret hr hp), by simp⟩

theorem finishes_reget {e : Entry String} (hr : s.running c = true) (hp : s.pc c = .reget)
    (hl : s.db cfg.systemLock = some e) : Finishes cfg s c := by
  apply finishes_command (.get (some e.value)) (.ret (e.value == cfg.id c)) s.db hr
  · simp [hp, sysmaster_lock, Store.get, hl]
  · exact finishes_ret (b := e.value == cfg.id c) hr (by simp)

theorem finishes_set {e : Entry String} (hr : s.running c = true) (hp : s.pc c = .set)
    (hl : s.db cfg.systemLock = some e) : Finishes cfg s c := by
  apply finishes_command .set .reget (s.db.set cfg.systemMaster (cfg.id c)) hr
  · simp [hp, sysmaster_lock]
  · exact finishes_reget (e := e) hr (by simp)
      (by simpa [(systemMaster_ne_systemLock cfg).symm] using hl)

theorem finishes_expire {e : Entry String} (hr : s.running c = true) (hp : s.pc c = .expire)
    (hl : s.db cfg.systemLock = some e) : Finishes cfg s c := by
  apply finishes_command .expire .set (s.db.expire cfg.systemLock 10).2 hr
  · simp [hp, sysmaster_lock]
  · exact finishes_set (e := ⟨e.value, some 10⟩) hr (by simp) (by simp [Store.expire, hl])

theorem finishes_setnx (hr : s.running c = true) (hp : s.pc c = .setnx) :
    Finishes cfg s c := by
  cases hl : s.db cfg.systemLock with
  | none =>
    apply finishes_command (.setnx true) .expire
      (s.db.put cfg.systemLock (some ⟨cfg.id c, none⟩)) hr
    · simp [hp, sysmaster_lock, Store.setnx, hl]
    · exact finishes_expire (e := ⟨cfg.id c, none⟩) hr (by simp) (by simp)
  | some e =>
    apply finishes_command (.setnx false) .reget s.db hr
    · simp [hp, sysmaster_lock, Store.setnx, hl]
    · exact finishes_reget hr (by simp) hl

theorem finishes_get (hr : s.running c = true) (hp : s.pc c = .get) : Finishes cfg s c := by
  cases hl : s.db cfg.systemLock with
  | none =>
    apply finishes_command (.get none) .setnx s.db hr
    · simp [hp, sysmaster_lock, Store.get, hl]
    · exact finishes_setnx hr (by simp)
  | some e =>
    apply finishes_command (.get (some e.value)) (.ret (e.value == cfg.id c)) s.db hr
    · simp [hp, sysmaster_lock, Store.get, hl]
    · exact finishes_ret (b := e.value == cfg.id c) hr (by simp)

/-- With the lock gone, a client that still has to re-read it never leaves the loop by itself. -/
theorem not_finishes_of_absent (hl : s.db cfg.systemLock = none) (hp : BeforeReread (s.pc c)) :
    ¬ Finishes cfg s c := by
  rintro ⟨as, b, t, hrun, hall⟩
  obtain ⟨u, hsu, hut⟩ := run_split hrun
  have hu : u.db cfg.systemLock = none ∧ BeforeReread (u.pc c) := by
    refine run_invariant_of_labels (G := CommandOf c)
      (I := fun s => s.db cfg.systemLock = none ∧ BeforeReread (s.pc c)) ?_ hsu hall ⟨hl, hp⟩
    rintro s a t ⟨cmd, rfl⟩ hst ⟨hl, hp⟩
    cases hst with
    | command hr hc =>
      generalize s.pc c = q at hc hp
      cases sysmaster_lock_executes hc with
      | set =>
        exact ⟨by simpa [(systemMaster_ne_systemLock cfg).symm] using hl, by simp [BeforeReread]⟩
      | regetAbsent h => exact ⟨h, by simp [BeforeReread]⟩
      | regetPresent h => simp [hl] at h
      | _ => simp [BeforeReread] at hp
  cases hut with
  | stepL hst _ =>
    cases hst with
    | ret _ hret => simp [hret, BeforeReread] at hu

theorem finishes_iff (hh : Holding cfg s) (hr : s.running c = true) (hp : s.pc c ≠ .idle) :
    Finishes cfg s c ↔ (s.db cfg.systemLock = none → ¬ BeforeReread (s.pc c)) := by
  constructor
  · intro hf hl hb
    exact not_finishes_of_absent hl hb hf
  · intro h
    cases hpc : s.pc c with
    | idle => exact (hp hpc).elim
    | get => exact finishes_get hr hpc
    | setnx => exact finishes_setnx hr hpc
    | expire => exact finishes_expire hr hpc (hh c hpc)
    | set =>
      cases hl : s.db cfg.systemLock with
      | none => exact (h hl (Or.inl hpc)).elim
      | some e => exact finishes_set hr hpc hl
    | reget =>
      cases hl : s.db cfg.systemLock with
      | none => exact (h hl (Or.inr hpc)).elim
      | some e => exact finishes_reget hr hpc hl
    | ret b => exact finishes_ret hr hpc

theorem allFinish_iff (hh : Holding cfg s) : AllFinish cfg s ↔
    ∀ c, s.running c = true → s.db cfg.systemLock = none → ¬ BeforeReread (s.pc c) := by
  constructor
  · intro h c hr hl hb
    have hne : s.pc c ≠ .idle := by
      intro hi
      simp [hi, BeforeReread] at hb
    exact (finishes_iff hh hr hne).mp (h c hr hne) hl hb
  · intro h c hr hp
    exact (finishes_iff hh hr hp).mpr (h c hr)

/-- The lock only becomes absent, and a re-read is only entered with the lock present. -/
theorem allFinish_step_of_not_expired (h : Step cfg s a t) (hh : Holding cfg s)
    (ha : a ≠ .expired cfg.systemLock) (hs : AllFinish cfg s) : AllFinish cfg t := by
  rw [allFinish_iff (holding_step h hh)]
  rw [allFinish_iff hh] at hs
  intro c hr hl hb
  have habs : s.db cfg.systemLock = none := by
    cases hsl : s.db cfg.systemLock with
    | none => rfl
    | some e =>
      obtain ⟨e', he', -⟩ := lock_value_step h ha hsl
      simp [hl] at he'
  have hrs : s.running c = true := by
    cases h with
    | @stop d =>
      by_cases hcd : c = d
      · simp [hcd] at hr
      · simpa [hcd] using hr
    | _ => exact hr
  rcases pc_step h _ rfl with ⟨hp, -⟩ | ⟨-, hp⟩ | ⟨-, -, hp⟩ | ⟨cmd, db, -, hx, -⟩
  · exact hs c hrs habs (by rwa [hp])
  · simp [hp, BeforeReread] at hb
  · simp [hp, BeforeReread] at hb
  · generalize hq : s.pc c = q at hx
    generalize hp : t.pc c = p at hx hb
    cases hx with
    | expirePresent h => simp [habs] at h
    | expireAbsent => simp [hh c hq] at habs
    | setnxRefused h => simp [habs] at h
    | set => exact hs c hrs habs (Or.inl hq)
    | regetAbsent => exact hs c hrs habs (Or.inr hq)
    | _ => simp [BeforeReread] at hb

theorem allFinish_expired (h : Step cfg s (.expired cfg.systemLock) t) (hh : Holding cfg s) :
    AllFinish cfg t ↔ ∀ c, s.running c = true → ¬ BeforeReread (s.pc c) := by
  rw [allFinish_iff (holding_step h hh)]
  cases h with
  | expired he => simp

theorem allFinish_step (h : Step cfg s a t) (hh : Holding cfg s) (hs : AllFinish cfg s) :
    AllFinish cfg t ↔ ¬ ExpiresUnderReader cfg s a := by
  by_cases ha : a = .expired cfg.systemLock
  · subst a
    rw [allFinish_expired h hh]
    simp [ExpiresUnderReader]
  · exact iff_of_true (allFinish_step_of_not_expired h hh ha hs) (fun hx => ha hx.1)

/-- In a run from any database every call can always return by its own commands exactly if
the lock never expires while a running client still has to re-read it. -/
theorem sysmaster_lock_finishes_iff (hi : Start s) (hr : Run (Recorded (Step cfg)) s ps t) :
    Throughout (AllFinish cfg) ps t ↔ ∀ p ∈ ps, ¬ ExpiresUnderReader cfg p.1 p.2 := by
  refine recorded_throughout_iff (I := Holding cfg) (fun _ _ _ => holding_step)
    (fun _ _ _ => allFinish_step) hr (holding_start hi) ?_
  intro c _ hp
  exact (hp (hi c).1).elim

/-- The owner's lock expires before the owner has re-read it. -/
def lateReread : List (Action Bool) :=
  [.call true, .command true (.get none), .command true (.setnx true), .command true .expire,
    .command true .set, .expired twoNodes.systemLock, .command true (.get none)]

theorem sysmaster_lock_finishes_late :
    ¬ ∀ as t, Run (Step twoNodes) emptyServer as t → AllFinish twoNodes t := by
  intro h
  obtain ⟨t, hr, ht⟩ := exists_run_of_execAll (step_of_exec twoNodes) emptyServer lateReread
    (fun t => t.db twoNodes.systemLock == none && t.running true && t.pc true == .reget)
    (by decide)
  simp only [Bool.and_eq_true, beq_iff_eq] at ht
  obtain ⟨⟨hl, hrun⟩, hp⟩ := ht
  exact not_finishes_of_absent hl (Or.inr hp) (h _ t hr true hrun (by simp [hp]))

theorem sysmaster_lock_finishes_iff_late :
    ∃ t, Run (Recorded (Step twoNodes)) emptyServer
        (record (exec twoNodes) emptyServer lateReread) t ∧
      (Throughout (AllFinish twoNodes) (record (exec twoNodes) emptyServer lateReread) t ↔
        ∀ p ∈ record (exec twoNodes) emptyServer lateReread,
          ¬ ExpiresUnderReader twoNodes p.1 p.2) := by
  obtain ⟨t, hr⟩ := exists_recorded_of_execAll (step_of_exec twoNodes) emptyServer lateReread
    (by decide)
  exact ⟨t, hr, sysmaster_lock_finishes_iff emptyServer_initial.1 hr⟩

end RabbitClient.SysmasterLock
