import RabbitClient.Redis.ClientDecoding
import Mathlib.Data.List.Infix

/-! `check_unique_name` counts the clients that `list` finds for the caller's name. -/
namespace RabbitClient.RedisClientStorage

open Bytes

variable {s name : Bytes} {closed : Bool} {clients : List Reported} {caller : Reported}

/-- `RedisClientStorage::check_unique_name`, where the server answers `CLIENT GETNAME` with `id`
and `CLIENT LIST` with `val`; `none` where `list` fails. -/
def check_unique_name (id : Bytes) (val : Option Bytes) : Option Bool :=
  if id.isEmpty then some false
  else (list val id).map fun results => results.length == 1

theorem contains_iff : contains s name ↔ name <:+: s := by
  rw [contains, List.any_eq_true, List.infix_iff_prefix_suffix]
  constructor
  · rintro ⟨t, ht, hprefix⟩
    exact ⟨t, List.isPrefixOf_iff_prefix.mp hprefix, (List.mem_tails t s).mp ht⟩
  · rintro ⟨t, hprefix, ht⟩
    exact ⟨t, (List.mem_tails t s).mpr ht, List.isPrefixOf_iff_prefix.mpr hprefix⟩

/-- The number of clients of this name. -/
def named (clients : List Reported) (name : Bytes) : Nat :=
  clients.countP fun c => c.record.name = name

/-- The number of clients that are counted for it, though they have another name. -/
def confused (clients : List Reported) (name : Bytes) : Nat :=
  clients.countP fun c => contains c.record.name name && !decide (c.record.name = name)

theorem contains_self (s : Bytes) : contains s s := contains_iff.mpr (List.infix_refl s)

/-- `list` finds the clients of the name and those whose name contains it. -/
theorem length_found (clients : List Reported) (name : Bytes) :
    clients.countP (fun c => contains c.record.name name) =
      named clients name + confused clients name := by
  rw [named, confused]
  induction clients with
  | nil => rfl
  | cons c clients ih =>
    simp only [List.countP_cons, ih]
    by_cases he : c.record.name = name
    · simp [he, contains_self]
      omega
    · by_cases hc : contains c.record.name name <;> simp [he, hc]
      omega

theorem confused_eq_zero_iff : confused clients name = 0 ↔
    ∀ c ∈ clients, name <:+: c.record.name → c.record.name = name := by
  simp [confused, List.countP_eq_zero, contains_iff]

/-- Names without `=` are compared as they are. -/
theorem check_unique_name_reply (hcaller : name ≠ [])
    (hname : ∀ c ∈ clients, 61 ∉ c.record.name) :
    check_unique_name name (some (reply closed clients)) =
      if ∀ c ∈ clients, cut c.record.addr ≠ [] then
        some (named clients name + confused clients name == 1)
      else none := by
  have hlength : ((clients.map (truncate ·.record)).filter (contains ·.name name)).length =
      named clients name + confused clients name := by
    rw [← List.countP_eq_length_filter, List.countP_map, ← length_found]
    apply List.countP_congr
    intro c hc
    have hcut : (truncate c.record).name = c.record.name := cut_of_notMem (hname c hc)
    simp [hcut]
  rw [check_unique_name, list_reply]
  by_cases haddr : ∀ c ∈ clients, cut c.record.addr ≠ []
  · simp only [List.isEmpty_iff, hcaller, if_false, if_pos haddr, Option.map_some, hlength]
  · simp only [List.isEmpty_iff, hcaller, if_false, if_neg haddr, Option.map_none]

/-- The check answers the question it is asked exactly if two clients have the name anyway, or if
every address can be read and no other name contains the caller's. -/
theorem check_unique_name_iff (hmem : caller ∈ clients) (hcaller : caller.record.name ≠ [])
    (hname : ∀ c ∈ clients, 61 ∉ c.record.name) :
    (check_unique_name caller.record.name (some (reply closed clients)) = some true ↔
        named clients caller.record.name = 1) ↔
      2 ≤ named clients caller.record.name ∨
        (∀ c ∈ clients, cut c.record.addr ≠ []) ∧
          ∀ c ∈ clients, caller.record.name <:+: c.record.name →
            c.record.name = caller.record.name := by
  have hpos : 0 < named clients caller.record.name :=
    List.countP_pos_iff.mpr ⟨caller, hmem, by simp⟩
  rw [check_unique_name_reply hcaller hname, ← confused_eq_zero_iff]
  by_cases haddr : ∀ c ∈ clients, cut c.record.addr ≠ []
  · rw [if_pos haddr, and_iff_right haddr, Option.some_inj, beq_iff_eq]
    omega
  · rw [if_neg haddr, or_iff_left fun h => haddr h.1]
    simp only [reduceCtorEq, false_iff]
    omega

def agentHost : ClientSt where
  id := 7
  addr := ascii "127.0.0.1:6379"
  name := ascii "agent_host"

def agentHost2 : ClientSt where
  id := 8
  addr := ascii "127.0.0.2:6379"
  name := ascii "agent_host2"

def schedulerHost : ClientSt where
  id := 9
  addr := ascii "127.0.0.3:6379"
  name := ascii "scheduler_host"

theorem agentHost_proper : agentHost.Proper := ⟨by decide, by decide, by decide⟩

theorem agentHost2_proper : agentHost2.Proper := ⟨by decide, by decide, by decide⟩

theorem schedulerHost_proper : schedulerHost.Proper := ⟨by decide, by decide, by decide⟩

theorem check_unique_name_iff_apart :
    check_unique_name agentHost.name (some (reply true
        [reported agentHost agentHost_proper, reported schedulerHost schedulerHost_proper])) =
      some true ↔
    named [reported agentHost agentHost_proper, reported schedulerHost schedulerHost_proper]
      agentHost.name = 1 := by
  have hmem : reported agentHost agentHost_proper ∈
      [reported agentHost agentHost_proper, reported schedulerHost schedulerHost_proper] :=
    List.mem_cons_self ..
  exact (check_unique_name_iff hmem (by decide) (by decide)).mpr (.inr ⟨by decide, by decide⟩)

/-- The client `agent_host` does not count as unique next to `agent_host2`. -/
theorem check_unique_name_confused :
    ¬ (check_unique_name agentHost.name (some (reply true
          [reported agentHost agentHost_proper, reported agentHost2 agentHost2_proper])) =
        some true ↔
      named [reported agentHost agentHost_proper, reported agentHost2 agentHost2_proper]
        agentHost.name = 1) := by
  rw [check_unique_name_reply (by decide) (by decide)]
  decide

end RabbitClient.RedisClientStorage
