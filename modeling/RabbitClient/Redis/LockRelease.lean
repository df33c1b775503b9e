import RabbitClient.Redis.LockInvariant
import RabbitClient.Redis.UniqueName

/-! `drop_unique_name`, compared with the lock that `sysmaster_lock` takes. -/
namespace RabbitClient.SysmasterLock

open Redis (Store Entry)
open RedisClientStorage (check_unique_name)

variable {Client : Type} {cfg : Config Client} {c d : Client} {db db' : Store String String}

/-- The bytes that Redis stores for a name. -/
def utf8 (s : String) : Bytes := s.toList.flatMap String.utf8EncodeChar

/-- `drop_unique_name` of the connection `id`, where `val` is the reply to `CLIENT LIST`; `none`
where the assertion fails. The key it deletes is the name of the connection. -/
def drop_unique_name (id : String) (val : Option Bytes) (db : Store String String) :
    Option (Store String String) :=
  if check_unique_name (utf8 id) val = some true then some (db.del id) else none

/-- A call of `sysmaster_lock` that nobody interrupts, with at most `fuel` commands. -/
def uninterrupted (cfg : Config Client) (c : Client) :
    Nat → PC → Store String String → Option (Bool × Store String String)
  | _, .ret isMaster, db => some (isMaster, db)
  | 0, _, _ => none
  | fuel + 1, p, db =>
    match sysmaster_lock cfg c p db with
    | some (_, p', db') => uninterrupted cfg c fuel p' db'
    | none => none

/-- The lock of the system is gone and nothing else; whoever asks next gets it at once. -/
structure Released (cfg : Config Client) (c : Client) (db db' : Store String String) : Prop where
  absent : db' cfg.systemLock = none
  others : ∀ k, k ≠ cfg.systemLock → db' k = db k
  next : ∀ d, d ≠ c → ∃ fuel db'', uninterrupted cfg d fuel .get db' = some (true, db'')

/-- Where the lock is absent, a call takes it with its first five commands. -/
theorem uninterrupted_of_absent (d : Client) (h : db cfg.systemLock = none) :
    ∃ fuel db', uninterrupted cfg d fuel .get db = some (true, db') := by
  let locked := db.put cfg.systemLock (some ⟨cfg.id d, none⟩)
  let expiring := locked.put cfg.systemLock (some ⟨cfg.id d, some 10⟩)
  let named := expiring.set cfg.systemMaster (cfg.id d)
  have hget : sysmaster_lock cfg d .get db = some (.get none, .setnx, db) := by
    simp [sysmaster_lock, Store.get, h]
  have hsetnx : sysmaster_lock cfg d .setnx db = some (.setnx true, .expire, locked) := by
    simp [sysmaster_lock, Store.setnx, h, locked]
  have hexpire : sysmaster_lock cfg d .expire locked = some (.expire, .set, expiring) := by
    simp [sysmaster_lock, Store.expire, locked, expiring]
  have hset : sysmaster_lock cfg d .set expiring = some (.set, .reget, named) := rfl
  have hlock : named.get cfg.systemLock = some (cfg.id d) := by
    simp [Store.get, named, expiring, (systemMaster_ne_systemLock cfg).symm]
  have hreget : sysmaster_lock cfg d .reget named =
      some (.get (some (cfg.id d)), .ret true, named) := by
    simp [sysmaster_lock, hlock]
  refine ⟨5, named, ?_⟩
  simp only [uninterrupted, hget, hsetnx, hexpire, hset, hreget]

/-- The holder of the lock releases it exactly if its connection has the name of the lock's key,
and the check of the name succeeds. -/
theorem drop_unique_name_releases_iff (cfg : Config Client) (c : Client) (val : Option Bytes)
    (hholds : db.get cfg.systemLock = some (cfg.id c)) :
    (∃ db', drop_unique_name (cfg.id c) val db = some db' ∧ Released cfg c db db') ↔
      cfg.id c = cfg.systemLock ∧ check_unique_name (utf8 (cfg.id c)) val = some true := by
  obtain ⟨e, he, -⟩ := Option.map_eq_some_iff.mp hholds
  constructor
  · rintro ⟨db', hdrop, hreleased⟩
    simp only [drop_unique_name, Option.ite_none_right_eq_some, Option.some_inj] at hdrop
    obtain ⟨hcheck, rfl⟩ := hdrop
    refine ⟨?_, hcheck⟩
    by_contra hne
    have habsent := hreleased.absent
    rw [Store.del_of_ne (Ne.symm hne), he] at habsent
    contradiction
  · rintro ⟨hname, hcheck⟩
    refine ⟨db.del cfg.systemLock, ?_, ?_⟩
    · rw [drop_unique_name, if_pos hcheck, hname]
    · have habsent : db.del cfg.systemLock cfg.systemLock = none := Store.del_self
      exact ⟨habsent, fun k hk => Store.del_of_ne hk,
        fun d _ => uninterrupted_of_absent d habsent⟩

/-- Two clients of the system `agent`, the first under the name of the lock's key. -/
def lockName : Config Bool where
  resource := "agent"
  id := fun c => if c then "sys.agent.master.lock" else "scheduler_host"
  id_injective := fun c d => by cases c <;> cases d <;> decide

def lockClient : RedisClientStorage.ClientSt where
  id := 7
  addr := Bytes.ascii "127.0.0.1:6379"
  name := utf8 "sys.agent.master.lock"

theorem lockClient_proper : lockClient.Proper := ⟨by decide, by decide, by decide⟩

def schedulerClient : RedisClientStorage.ClientSt where
  id := 9
  addr := Bytes.ascii "127.0.0.3:6379"
  name := utf8 "scheduler_host"

theorem schedulerClient_proper : schedulerClient.Proper := ⟨by decide, by decide, by decide⟩

/-- The lock of the system `agent`, held under a name. -/
def heldBy (name : String) : Store String String :=
  fun k => if k = "sys.agent.master.lock" then some ⟨name, some 10⟩ else none

theorem drop_unique_name_releases_iff_lockName : ∃ db',
    drop_unique_name (lockName.id true)
        (some (RedisClientStorage.reply true
          [RedisClientStorage.reported lockClient lockClient_proper,
            RedisClientStorage.reported schedulerClient schedulerClient_proper]))
        (heldBy "sys.agent.master.lock") = some db' ∧
      Released lockName true (heldBy "sys.agent.master.lock") db' := by
  refine (drop_unique_name_releases_iff lockName true _ (by decide)).mpr ⟨by decide, ?_⟩
  rw [RedisClientStorage.check_unique_name_reply (by decide) (by decide)]
  decide

/-- The name that the constructor gives a client. -/
def agentHost : Config Unit where
  resource := "agent"
  id := fun _ => "agent_host"
  id_injective := fun _ _ _ => rfl

def agentClient : RedisClientStorage.ClientSt where
  id := 7
  addr := Bytes.ascii "127.0.0.1:6379"
  name := utf8 "agent_host"

theorem agentClient_proper : agentClient.Proper := ⟨by decide, by decide, by decide⟩

def agentClients : Option Bytes :=
  some (RedisClientStorage.reply true
    [RedisClientStorage.reported agentClient agentClient_proper])

/-- The name is unique, and the lock is still there. -/
theorem drop_unique_name_keeps_lock :
    (heldBy "agent_host").get agentHost.systemLock = some (agentHost.id ()) ∧
      check_unique_name (utf8 "agent_host") agentClients = some true ∧
      ¬ ∃ db', drop_unique_name (agentHost.id ()) agentClients (heldBy "agent_host") = some db' ∧
        Released agentHost () (heldBy "agent_host") db' := by
  have hunique : check_unique_name (utf8 "agent_host") agentClients = some true := by
    rw [agentClients, RedisClientStorage.check_unique_name_reply (by decide) (by decide)]
    decide
  refine ⟨by decide, hunique, ?_⟩
  rintro ⟨db', hdrop, hreleased⟩
  simp only [drop_unique_name, Option.ite_none_right_eq_some, Option.some_inj] at hdrop
  obtain ⟨-, rfl⟩ := hdrop
  have hkept : (heldBy "agent_host").del (agentHost.id ()) agentHost.systemLock =
      some ⟨"agent_host", some 10⟩ := by decide
  exact Option.some_ne_none _ (hkept.symm.trans hreleased.absent)

/-- A list put before itself and something else: what follows the list is found before it. -/
theorem mem_of_append_eq {α : Type} {p x r h : List α} {y : α} (hp : p ≠ [])
    (heq : p ++ (x ++ r) = x ++ y :: h) : y ∈ p := by
  rcases List.append_eq_append_iff.mp heq with ⟨x', rfl, hrest⟩ | ⟨q, rfl, hrest⟩
  · rw [List.append_assoc] at hrest
    have hlt : x'.length < (p ++ x').length := by
      rw [List.length_append]
      have := List.length_pos_iff.mpr hp
      omega
    exact mem_of_append_eq hp hrest
  · cases q with
    | nil =>
      cases x with
      | nil => contradiction
      | cons z x =>
        obtain ⟨rfl, -⟩ := List.cons.inj hrest
        simp
    | cons z q =>
      obtain ⟨rfl, -⟩ := List.cons.inj hrest
      simp
termination_by x.length

/-- No client gets the name of its lock's key from the constructor, `system_name` and host. -/
theorem constructed_name_ne_systemLock (cfg : Config Client) (host : String) :
    cfg.resource ++ "_" ++ host ≠ cfg.systemLock := by
  intro h
  have hlist := congrArg String.toList h
  simp only [Config.systemLock, String.toList_append, List.append_assoc] at hlist
  have hmem : '_' ∈ ("sys." : String).toList :=
    mem_of_append_eq (by decide) hlist.symm
  exact absurd hmem (by decide)

end RabbitClient.SysmasterLock
