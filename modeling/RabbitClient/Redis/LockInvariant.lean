import RabbitClient.Redis.SysmasterLock

/-! What one command of `sysmaster_lock` can do, and who owns the lock while it has no TTL. -/
namespace RabbitClient.SysmasterLock

open Redis (Store Entry)

variable {Client : Type} {cfg : Config Client} {c d : Client}

theorem systemMaster_ne_systemLock (cfg : Config Client) : cfg.systemMaster ≠ cfg.systemLock := by
  intro h
  have hl := congrArg String.length h
  simp only [Config.systemMaster, Config.systemLock, String.length_append] at hl
  have h₁ : (".master" : String).length = 7 := by decide
  have h₂ : (".master.lock" : String).length = 12 := by decide
  omega

/-- All that one command of a call can do. -/
inductive Executes (cfg : Config Client) (c : Client) (db : Store String String) :
    PC → Command → PC → Store String String → Prop where
  | getAbsent (h : db cfg.systemLock = none) : Executes cfg c db .get (.get none) .setnx db
  | getPresent {e : Entry String} (h : db cfg.systemLock = some e) :
      Executes cfg c db .get (.get (some e.value)) (.ret (e.value == cfg.id c)) db
  | setnxTaken (h : db cfg.systemLock = none) :
      Executes cfg c db .setnx (.setnx true) .expire (db.put cfg.systemLock (some ⟨cfg.id c, none⟩))
  | setnxRefused {e : Entry String} (h : db cfg.systemLock = some e) :
      Executes cfg c db .setnx (.setnx false) .reget db
  | expirePresent {e : Entry String} (h : db cfg.systemLock = some e) :
      Executes cfg c db .expire .expire .set (db.put cfg.systemLock (some ⟨e.value, some 10⟩))
  | expireAbsent (h : db cfg.systemLock = none) : Executes cfg c db .expire .expire .set db
  | set : Executes cfg c db .set .set .reget (db.set cfg.systemMaster (cfg.id c))
  | regetAbsent (h : db cfg.systemLock = none) : Executes cfg c db .reget (.get none) .reget db
  | regetPresent {e : Entry String} (h : db cfg.systemLock = some e) :
      Executes cfg c db .reget (.get (some e.value)) (.ret (e.value == cfg.id c)) db

theorem sysmaster_lock_executes {p p' : PC} {cmd : Command} {db db' : Store String String}
    (h : sysmaster_lock cfg c p db = some (cmd, p', db')) : Executes cfg c db p cmd p' db' := by
  cases hl : db cfg.systemLock with
  | none =>
    cases p <;> simp [sysmaster_lock, Store.get, Store.setnx, Store.expire, hl] at h
    all_goals obtain ⟨rfl, rfl, rfl⟩ := h
    · exact .getAbsent hl
    · exact .setnxTaken hl
    · exact .expireAbsent hl
    · exact .set
    · exact .regetAbsent hl
  | some e =>
    cases p <;> simp [sysmaster_lock, Store.get, Store.setnx, Store.expire, hl] at h
    all_goals obtain ⟨rfl, rfl, rfl⟩ := h
    · exact .getPresent hl
    · exact .setnxRefused hl
    · exact .expirePresent hl
    · exact .set
    · exact .regetPresent hl

variable [DecidableEq Client] {s t : State Client} {a : Action Client} {as : List (Action Client)}

@[simp] theorem setPC_self (p : PC) : (s.setPC c p).pc c = p := by simp [State.setPC]

@[simp] theorem setPC_other (p : PC) (h : d ≠ c) : (s.setPC c p).pc d = s.pc d := by
  simp [State.setPC, h]

@[simp] theorem setPC_db (p : PC) : (s.setPC c p).db = s.db := rfl

@[simp] theorem setPC_running (p : PC) : (s.setPC c p).running = s.running := rfl

/-- A present lock keeps its value until it expires. -/
theorem lock_value_step (h : Step cfg s a t) (ha : a ≠ .expired cfg.systemLock)
    {e : Entry String} (he : s.db cfg.systemLock = some e) :
    ∃ e', t.db cfg.systemLock = some e' ∧ e'.value = e.value := by
  cases h with
  | call => exact ⟨e, he, rfl⟩
  | @command c _ _ _ hr hc =>
    generalize s.pc c = q at hc
    cases sysmaster_lock_executes hc with
    | getAbsent hn => simp [hn] at he
    | setnxTaken hn => simp [hn] at he
    | @expirePresent e' hp =>
      have : e' = e := Option.some.inj (hp.symm.trans he)
      exact ⟨⟨e'.value, some 10⟩, by simp, by rw [this]⟩
    | set => exact ⟨e, by simpa [(systemMaster_ne_systemLock cfg).symm] using he, rfl⟩
    | getPresent | setnxRefused | expireAbsent | regetAbsent | regetPresent => exact ⟨e, he, rfl⟩
  | ret => exact ⟨e, he, rfl⟩
  | stop => exact ⟨e, he, rfl⟩
  | @expired key =>
    have hk : cfg.systemLock ≠ key := by
      intro hk
      exact ha (by rw [hk])
    exact ⟨e, by simpa [hk] using he, rfl⟩

/-- Only the client about to send `expire` can have created a lock without a time to live,
and that lock is still the one it created. -/
def Holding (cfg : Config Client) (s : State Client) : Prop :=
  ∀ c, s.pc c = .expire → s.db cfg.systemLock = some ⟨cfg.id c, none⟩

omit [DecidableEq Client] in
theorem holding_unique (h : Holding cfg s) (hc : s.pc c = .expire) (hd : s.pc d = .expire) :
    c = d := by
  have he := (h c hc).symm.trans (h d hd)
  simp only [Option.some.injEq, Entry.mk.injEq, and_true] at he
  exact cfg.id_injective he

omit [DecidableEq Client] in
theorem holding_start (h : Start s) : Holding cfg s := by
  intro c hc
  simp [(h c).1] at hc

theorem holding_step (h : Step cfg s a t) (hs : Holding cfg s) : Holding cfg t := by
  intro d hd
  cases h with
  | @call c _ hp =>
    by_cases hdc : d = c
    · simp [hdc] at hd
    · exact hs d (by simpa [hdc] using hd)
  | @command c cmd p db hr hc =>
    by_cases hdc : d = c
    · subst d
      simp only [setPC_self] at hd
      subst p
      generalize hq : s.pc c = q at hc
      cases sysmaster_lock_executes hc with
      | setnxTaken => simp
    · have hpd : s.pc d = .expire := by simpa [hdc] using hd
      have hl := hs d hpd
      generalize hq : s.pc c = q at hc
      cases sysmaster_lock_executes hc with
      | getAbsent hn => simp [hl] at hn
      | setnxTaken hn => simp [hl] at hn
      | expirePresent => exact (hdc (holding_unique hs hpd hq)).elim
      | set => simpa [(systemMaster_ne_systemLock cfg).symm] using hl
      | getPresent | setnxRefused | expireAbsent | regetAbsent | regetPresent => exact hl
  | @ret c _ _ hp =>
    by_cases hdc : d = c
    · simp [hdc] at hd
    · exact hs d (by simpa [hdc] using hd)
  | stop => exact hs d hd
  | @expired key he =>
    have hl := hs d hd
    obtain ⟨e, hk, ht⟩ := he
    have hne : cfg.systemLock ≠ key := by
      intro hkey
      rw [← hkey, hl] at hk
      cases hk
      exact ht rfl
    simpa [hne] using hl

end RabbitClient.SysmasterLock
