import RabbitClient.Library.RedisStore
import RabbitClient.Library.Lts

/-!
The master lock of `RedisClientStorage`. A call is a sequence of separate Redis commands;
between any two of them other clients run, keys expire and the caller may stop.
-/
namespace RabbitClient.SysmasterLock

open Redis (Store Entry)

/-- All clients lock the same resource under pairwise distinct connection names. -/
structure Config (Client : Type) where
  resource : String
  id : Client → String
  id_injective : Function.Injective id

variable {Client : Type}

def Config.systemLock (cfg : Config Client) : String := "sys." ++ cfg.resource ++ ".master.lock"

def Config.systemMaster (cfg : Config Client) : String := "sys." ++ cfg.resource ++ ".master"

/-- The next command of a call, or its result once the loop has read a value. -/
inductive PC where
  | idle
  | get
  | setnx
  | expire
  | set
  | reget
  | ret (isMaster : Bool)
deriving DecidableEq, Repr

/-- A Redis command with the reply the client received. -/
inductive Command where
  | get (idMaster : Option String)
  | setnx (retLock : Bool)
  | expire
  | set
deriving DecidableEq, Repr

/-- One command of `sysmaster_lock(resource, id)` and where the call continues. -/
def sysmaster_lock (cfg : Config Client) (c : Client) :
    PC → Store String String → Option (Command × PC × Store String String)
  | .idle, _ => none
  | .get, db =>
    match db.get cfg.systemLock with
    | none => some (.get none, .setnx, db)
    | some idMaster => some (.get (some idMaster), .ret (idMaster == cfg.id c), db)
  | .setnx, db =>
    let (retLock, db') := db.setnx cfg.systemLock (cfg.id c)
    some (.setnx retLock, if retLock then .expire else .reget, db')
  | .expire, db => some (.expire, .set, (db.expire cfg.systemLock 10).2)
  | .set, db => some (.set, .reget, db.set cfg.systemMaster (cfg.id c))
  -- do { idMaster = get } while (!idMaster): nothing else is tried while the key is absent
  | .reget, db =>
    match db.get cfg.systemLock with
    | none => some (.get none, .reget, db)
    | some idMaster => some (.get (some idMaster), .ret (idMaster == cfg.id c), db)
  | .ret _, _ => none

/-- A stopped client keeps its position in the call but issues no further command. -/
structure State (Client : Type) where
  db : Store String String
  pc : Client → PC
  running : Client → Bool

inductive Action (Client : Type) where
  | call (c : Client)
  | command (c : Client) (cmd : Command)
  | ret (c : Client) (isMaster : Bool)
  | stop (c : Client)
  | expired (key : String)
deriving DecidableEq, Repr

variable [DecidableEq Client]

def State.setPC (s : State Client) (c : Client) (p : PC) : State Client :=
  { s with pc := Function.update s.pc c p }

/-- Interleaving of the clients' commands with stops and with the expiry of any key. -/
inductive Step (cfg : Config Client) : State Client → Action Client → State Client → Prop where
  | call {s : State Client} {c : Client} (hr : s.running c = true) (hp : s.pc c = .idle) :
      Step cfg s (.call c) (s.setPC c .get)
  | command {s : State Client} {c : Client} {cmd : Command} {p : PC} {db : Store String String}
      (hr : s.running c = true)
      (hc : sysmaster_lock cfg c (s.pc c) s.db = some (cmd, p, db)) :
      Step cfg s (.command c cmd) { s.setPC c p with db := db }
  | ret {s : State Client} {c : Client} {b : Bool} (hr : s.running c = true)
      (hp : s.pc c = .ret b) : Step cfg s (.ret c b) (s.setPC c .idle)
  | stop {s : State Client} {c : Client} (hr : s.running c = true) :
      Step cfg s (.stop c) { s with running := Function.update s.running c false }
  | expired {s : State Client} {key : String} (he : s.db.Expirable key) :
      Step cfg s (.expired key) { s with db := s.db.del key }

/-- The interleaving as a function of the chosen action, replies included. -/
def exec (cfg : Config Client) (s : State Client) : Action Client → Option (State Client)
  | .call c => if s.running c = true ∧ s.pc c = .idle then some (s.setPC c .get) else none
  | .command c cmd =>
    match sysmaster_lock cfg c (s.pc c) s.db with
    | some (cmd', p, db) =>
      if s.running c = true ∧ cmd' = cmd then some { s.setPC c p with db := db } else none
    | none => none
  | .ret c b => if s.running c = true ∧ s.pc c = .ret b then some (s.setPC c .idle) else none
  | .stop c =>
    if s.running c = true then some { s with running := Function.update s.running c false }
    else none
  | .expired key =>
    match s.db key with
    | some ⟨_, some _⟩ => some { s with db := s.db.del key }
    | _ => none

theorem step_of_exec (cfg : Config Client) (s : State Client) (a : Action Client)
    (t : State Client) (h : exec cfg s a = some t) : Step cfg s a t := by
  cases a with
  | call c =>
    simp only [exec, Option.ite_none_right_eq_some, Option.some.injEq] at h
    obtain ⟨⟨hr, hp⟩, rfl⟩ := h
    exact .call hr hp
  | command c cmd =>
    simp only [exec] at h
    split at h
    · rename_i cmd' p db hc
      simp only [Option.ite_none_right_eq_some, Option.some.injEq] at h
      obtain ⟨⟨hr, rfl⟩, rfl⟩ := h
      exact .command hr hc
    · contradiction
  | ret c b =>
    simp only [exec, Option.ite_none_right_eq_some, Option.some.injEq] at h
    obtain ⟨⟨hr, hp⟩, rfl⟩ := h
    exact .ret hr hp
  | stop c =>
    simp only [exec, Option.ite_none_right_eq_some, Option.some.injEq] at h
    obtain ⟨hr, rfl⟩ := h
    exact .stop hr
  | expired key =>
    simp only [exec] at h
    split at h
    · rename_i v n he
      cases h
      exact .expired ⟨_, he, by simp⟩
    · contradiction

/-- No call is in progress; the database is arbitrary. -/
def Start (s : State Client) : Prop := ∀ c, s.pc c = .idle ∧ s.running c = true

/-- Moreover nobody has taken the lock, and nothing puts a time to live on the master name. -/
def Initial (cfg : Config Client) (s : State Client) : Prop :=
  Start s ∧ s.db cfg.systemLock = none ∧ ∀ e, s.db cfg.systemMaster = some e → e.ttl = none

/-- Between a successful `setnx` and the `set` that follows it. -/
def Between (p : PC) : Prop := p = .expire ∨ p = .set

instance : DecidablePred Between := fun p => inferInstanceAs (Decidable (p = .expire ∨ p = .set))

end RabbitClient.SysmasterLock
