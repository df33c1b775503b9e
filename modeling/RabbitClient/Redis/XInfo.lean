import RabbitClient.Library.Bytes
import RabbitClient.Library.UnorderedMap

/-! The decoding of the replies to `XINFO GROUPS` and `XINFO STREAM`. -/
namespace RabbitClient.RedisFacade

open Bytes

/-- `redisReply`. -/
inductive Reply where
  | string (str : Bytes)
  | integer (integer : Int64)
  | array (element : List Reply)
  | nil
  | other (type : Nat)

/-- A `std::any` of one of the two types that are stored. -/
inductive XValue where
  | string (s : Bytes)
  | integer (n : Int64)
deriving DecidableEq

/-- How `parse_xinfo` ends if it does not return. -/
inductive Stop where
  | assertion
  | outOfBounds
deriving DecidableEq

abbrev XINFO_STREAM_TYPE := UnorderedMap Bytes XValue

abbrev XINFO_GROUP_TYPE := List XINFO_STREAM_TYPE

variable {item : XINFO_STREAM_TYPE → Reply → Reply → Except Stop XINFO_STREAM_TYPE}

/-- The loop over keys and values; `idx` is advanced once for the value and once for the turn. -/
def pairLoop (item : XINFO_STREAM_TYPE → Reply → Reply → Except Stop XINFO_STREAM_TYPE)
    (element : List Reply) (idx : Nat) (list : XINFO_STREAM_TYPE) :
    Except Stop XINFO_STREAM_TYPE :=
  if idx < element.length then
    match element[idx]?, element[idx + 1]? with
    | some item_ptr_key, some item_ptr_value => do
      let list ← item list item_ptr_key item_ptr_value
      pairLoop item element (idx + 2) list
    | _, _ => .error .outOfBounds
  else .ok list
termination_by element.length - idx

/-- One turn of the loop for a group. -/
def groupItem (list : XINFO_STREAM_TYPE) :
    Reply → Reply → Except Stop XINFO_STREAM_TYPE
  | .string key, .string value => .ok (list.emplace (cstr key) (.string (cstr value)))
  | .string key, .integer value => .ok (list.emplace (cstr key) (.integer value))
  | _, _ => .error .assertion

/-- One turn of the loop for a stream, which skips some values. -/
def streamItem (list : XINFO_STREAM_TYPE) :
    Reply → Reply → Except Stop XINFO_STREAM_TYPE
  | .string key, .string value => .ok (list.emplace (cstr key) (.string (cstr value)))
  | .string key, .integer value => .ok (list.emplace (cstr key) (.integer value))
  | .string _, .array _ => .ok list
  | .string _, .nil => .ok list
  | _, _ => .error .assertion

def parseGroup : Reply → Except Stop XINFO_STREAM_TYPE
  | .array element => pairLoop groupItem element 0 UnorderedMap.empty
  | _ => .error .assertion

/-- `parse_xinfo` for groups; what was in the result before is cleared. -/
def parse_xinfo_groups (ptr : Reply) (_result_xinfo : XINFO_GROUP_TYPE) :
    Except Stop XINFO_GROUP_TYPE :=
  match ptr with
  | .array element => element.mapM parseGroup
  | _ => .error .assertion

/-- `parse_xinfo` for a stream. -/
def parse_xinfo_stream (ptr : Reply) (_result_xinfo : XINFO_STREAM_TYPE) :
    Except Stop XINFO_STREAM_TYPE :=
  match ptr with
  | .array element => pairLoop streamItem element 0 UnorderedMap.empty
  | _ => .error .assertion

/-- A value that is kept. -/
inductive Kept where
  | string (s : CString)
  | integer (n : Int64)

def Kept.reply : Kept → Reply
  | .string s => .string s.val
  | .integer n => .integer n

def Kept.value : Kept → XValue
  | .string s => .string s.val
  | .integer n => .integer n

/-- What the server sends for a key of a stream. -/
inductive Field where
  | kept (v : Kept)
  | array (element : List Reply)
  | nil

def Field.reply : Field → Reply
  | .kept v => v.reply
  | .array element => .array element
  | .nil => .nil

/-- What is kept of it. -/
def Field.value : Field → Option XValue
  | .kept v => some v.value
  | .array _ => none
  | .nil => none

/-- Keys and values one after the other. -/
def flat (pairs : List (CString × Field)) : List Reply :=
  pairs.flatMap fun p => [.string p.1.val, p.2.reply]

/-- The pairs whose values are kept. -/
def keptPairs (pairs : List (CString × Field)) : List (Bytes × XValue) :=
  pairs.filterMap fun p => p.2.value.map (p.1.val, ·)

def groupPairs (group : List (CString × Kept)) : List (CString × Field) :=
  group.map fun p => (p.1, .kept p.2)

/-- The reply with the groups of a stream. -/
def groupsReply (groups : List (List (CString × Kept))) : Reply :=
  .array (groups.map fun group => .array (flat (groupPairs group)))

variable {pairs : List (CString × Field)} {list : XINFO_STREAM_TYPE}

/-- The turn for one pair. -/
def pairItem (list : XINFO_STREAM_TYPE) (p : CString × Field) : XINFO_STREAM_TYPE :=
  match p.2.value with
  | some value => list.emplace p.1.val value
  | none => list

/-- Behind the pairs that were read the loop goes on with the next one: its index is that of a key,
and every key has a value behind it. -/
theorem pairLoop_flat (before : List Reply) (pairs : List (CString × Field))
    (list : XINFO_STREAM_TYPE)
    (hitem : ∀ p ∈ pairs, ∀ list, item list (.string p.1.val) p.2.reply = .ok (pairItem list p)) :
    pairLoop item (before ++ flat pairs) before.length list =
      .ok (pairs.foldl pairItem list) := by
  induction pairs generalizing before list with
  | nil =>
    rw [pairLoop]
    simp [flat]
  | cons p pairs ih =>
    obtain ⟨hp, hrest⟩ := List.forall_mem_cons.mp hitem
    have hflat : before ++ flat (p :: pairs) =
        (before ++ [.string p.1.val, p.2.reply]) ++ flat pairs := by
      simp [flat]
    have hkey : (before ++ flat (p :: pairs))[before.length]? = some (.string p.1.val) := by
      simp [flat]
    have hvalue : (before ++ flat (p :: pairs))[before.length + 1]? = some p.2.reply := by
      simp [flat]
    have hlt : before.length < (before ++ flat (p :: pairs)).length := by
      simp [flat]
    have hnext := ih (before ++ [.string p.1.val, p.2.reply]) (pairItem list p) hrest
    rw [List.length_append, ← hflat] at hnext
    rw [pairLoop, if_pos hlt, hkey, hvalue]
    simp only [hp]
    exact hnext

/-- The values that are kept are put into the map one after the other. -/
theorem foldl_pairItem (pairs : List (CString × Field)) (list : XINFO_STREAM_TYPE) :
    pairs.foldl pairItem list = list.insertAll (keptPairs pairs) := by
  induction pairs generalizing list with
  | nil => rfl
  | cons p pairs ih =>
    rw [List.foldl_cons, ih]
    cases hv : p.2.value with
    | none => simp [pairItem, keptPairs, hv]
    | some value => simp [pairItem, keptPairs, hv, UnorderedMap.insertAll]

theorem streamItem_pair (list : XINFO_STREAM_TYPE) (p : CString × Field) :
    streamItem list (.string p.1.val) p.2.reply = .ok (pairItem list p) := by
  obtain ⟨key, field⟩ := p
  cases field with
  | kept v => cases v <;> simp [streamItem, pairItem, Field.reply, Field.value, Kept.reply, Kept.value]
  | array element => rfl
  | nil => rfl

theorem groupItem_pair (list : XINFO_STREAM_TYPE) (p : CString × Kept) :
    groupItem list (.string p.1.val) p.2.reply = .ok (pairItem list (p.1, .kept p.2)) := by
  obtain ⟨key, v⟩ := p
  cases v <;> simp [groupItem, pairItem, Field.value, Kept.reply, Kept.value]

theorem parseGroup_flat (group : List (CString × Kept)) :
    parseGroup (.array (flat (groupPairs group))) =
      .ok (UnorderedMap.first (keptPairs (groupPairs group))) := by
  have hitem : ∀ p ∈ groupPairs group, ∀ list,
      groupItem list (.string p.1.val) p.2.reply = .ok (pairItem list p) := by
    intro p hp list
    obtain ⟨q, -, rfl⟩ := List.mem_map.mp hp
    exact groupItem_pair list q
  have hloop := pairLoop_flat [] (groupPairs group) UnorderedMap.empty hitem
  rw [foldl_pairItem, UnorderedMap.insertAll_empty] at hloop
  exact hloop

theorem mapM_parseGroup (groups : List (List (CString × Kept))) :
    (groups.map fun group => Reply.array (flat (groupPairs group))).mapM parseGroup =
      .ok (groups.map fun group => UnorderedMap.first (keptPairs (groupPairs group))) := by
  induction groups with
  | nil => rfl
  | cons group groups ih =>
    simp only [List.map_cons, List.mapM_cons, parseGroup_flat, ih]
    rfl

/-- Both decoders return what the server sent: for every key the first of its values, and of a
stream the values that are neither arrays nor nil. They never read past an array. -/
theorem parse_xinfo_pairs :
    (∀ groups result_xinfo, parse_xinfo_groups (groupsReply groups) result_xinfo =
      .ok (groups.map fun group => UnorderedMap.first (keptPairs (groupPairs group)))) ∧
    ∀ pairs result_xinfo, parse_xinfo_stream (.array (flat pairs)) result_xinfo =
      .ok (UnorderedMap.first (keptPairs pairs)) := by
  constructor
  · exact fun groups _ => mapM_parseGroup groups
  · intro pairs result_xinfo
    have hloop := pairLoop_flat [] pairs UnorderedMap.empty fun p _ list => streamItem_pair list p
    rw [foldl_pairItem, UnorderedMap.insertAll_empty] at hloop
    exact hloop

end RabbitClient.RedisFacade
