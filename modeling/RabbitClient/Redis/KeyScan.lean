import RabbitClient.Library.Bytes
import Mathlib.Data.Finset.Lattice.Lemmas
import Mathlib.Data.Finset.Insert
import Mathlib.Data.Finset.Dedup
import Mathlib.Data.Finset.Filter

/-! `scanAll` and `separete_for_types` of `RedisFacade`. -/
namespace RabbitClient.RedisFacade

open Bytes

abbrev ARRAY_KEYS := Finset Bytes

/-- The reply to a SCAN: some of the keys, and where to go on. -/
structure Page where
  keys : List Bytes
  cursor : Int
deriving DecidableEq

/-- A server that answers SCAN, each time as it is then. -/
structure Server (State : Type) where
  scan : State → Int → Bytes → Nat → Page × State

def COUNT : Nat := 1000000

def PATTERN : Bytes := ascii "*"

variable {State : Type}

/-- `scanAll`; the cursor that comes with the page is not used. -/
def scanAll (server : Server State) (s : State) (_keys : ARRAY_KEYS) : ARRAY_KEYS :=
  (server.scan s 0 PATTERN COUNT).1.keys.toFinset

/-- The pages that a client gets which follows the cursors until they come back to 0. -/
inductive Scanned (server : Server State) : State → Int → List Page → Prop where
  | last {s t : State} {cursor : Int} {page : Page}
      (h : server.scan s cursor PATTERN COUNT = (page, t)) (h0 : page.cursor = 0) :
      Scanned server s cursor [page]
  | next {s t : State} {cursor : Int} {page : Page} {pages : List Page}
      (h : server.scan s cursor PATTERN COUNT = (page, t)) (h0 : page.cursor ≠ 0)
      (hrest : Scanned server t page.cursor pages) : Scanned server s cursor (page :: pages)

/-- The keys of a database with what TYPE answers for them. -/
structure Database where
  keys : ARRAY_KEYS
  type : Bytes → Bytes

def Database.ofType (db : Database) (type_key : String) : ARRAY_KEYS :=
  db.keys.filter fun it_key => db.type it_key = ascii type_key

/-- The last three arguments of `separete_for_types`. -/
structure Types where
  keys_str : ARRAY_KEYS
  keys_hash : ARRAY_KEYS
  keys_zset : ARRAY_KEYS

/-- One turn of its loop. -/
def Types.put (db : Database) (types : Types) (it_key : Bytes) : Types :=
  let type_key := db.type it_key
  if type_key = ascii "string" then
    { types with keys_str := insert it_key types.keys_str }
  else if type_key = ascii "hash" then
    { types with keys_hash := insert it_key types.keys_hash }
  else if type_key = ascii "zset" then
    { types with keys_zset := insert it_key types.keys_zset }
  else types

/-- `separete_for_types`, for the keys in the order in which they are iterated. -/
def separete_for_types (db : Database) (keys : List Bytes) (types : Types) : Types :=
  keys.foldl (Types.put db) types

/-- All keys are found, and each set has exactly those of its type. -/
structure Partitioned (db : Database) (keys : ARRAY_KEYS) (types : Types) : Prop where
  found : keys = db.keys
  separated : ∀ order : List Bytes, order.Nodup → order.toFinset = keys →
    (separete_for_types db order types).keys_str = db.ofType "string" ∧
    (separete_for_types db order types).keys_hash = db.ofType "hash" ∧
    (separete_for_types db order types).keys_zset = db.ofType "zset"

/-- What is in the sets before is of their types. -/
structure Typed (db : Database) (types : Types) : Prop where
  keys_str : types.keys_str ⊆ db.ofType "string"
  keys_hash : types.keys_hash ⊆ db.ofType "hash"
  keys_zset : types.keys_zset ⊆ db.ofType "zset"

variable {server : Server State} {s : State} {db : Database} {pages : List Page}
  {keys : List Bytes} {types : Types}

theorem scanAll_eq {cursor : Int} (h : Scanned server s cursor pages) :
    ∃ page rest, pages = page :: rest ∧
      (server.scan s cursor PATTERN COUNT).1 = page := by
  cases h with
  | last h _ => exact ⟨_, [], rfl, by rw [h]⟩
  | next h _ _ => exact ⟨_, _, rfl, by rw [h]⟩

/-- One turn puts the key into the set of its type, if there is one. -/
theorem put_eq (db : Database) (types : Types) (k : Bytes) :
    types.put db k =
      { keys_str := if db.type k = ascii "string" then insert k types.keys_str
          else types.keys_str
        keys_hash := if db.type k = ascii "hash" then insert k types.keys_hash
          else types.keys_hash
        keys_zset := if db.type k = ascii "zset" then insert k types.keys_zset
          else types.keys_zset } := by
  have hhash : ascii "hash" ≠ ascii "string" := by decide
  have hzset : ascii "zset" ≠ ascii "string" ∧ ascii "zset" ≠ ascii "hash" := by decide
  rw [Types.put]
  by_cases hs : db.type k = ascii "string"
  · simp [hs, hhash.symm, hzset.1.symm]
  · by_cases hh : db.type k = ascii "hash"
    · simp [hh, hhash, hzset.2.symm]
    · simp only [hs, hh, if_false]
      split <;> rfl

theorem foldl_insert (P : Bytes → Prop) [DecidablePred P] (keys : List Bytes) (a : ARRAY_KEYS) :
    keys.foldl (fun a k => if P k then insert k a else a) a =
      a ∪ (keys.filter fun k => P k).toFinset := by
  induction keys generalizing a with
  | nil => simp
  | cons k keys ih =>
    rw [List.foldl_cons, ih]
    by_cases hk : P k
    · simp [hk]
    · simp [hk]

/-- The sets keep what they have and get the keys of their types. -/
theorem separete_for_types_eq (db : Database) (keys : List Bytes) (types : Types) :
    separete_for_types db keys types =
      { keys_str := types.keys_str ∪ (keys.filter (db.type · = ascii "string")).toFinset
        keys_hash := types.keys_hash ∪ (keys.filter (db.type · = ascii "hash")).toFinset
        keys_zset := types.keys_zset ∪ (keys.filter (db.type · = ascii "zset")).toFinset } := by
  simp only [← foldl_insert]
  induction keys generalizing types with
  | nil => rfl
  | cons k keys ih =>
    rw [separete_for_types, List.foldl_cons, ← separete_for_types, ih, put_eq]
    rfl

/-- A set that gets the keys of its type is complete, and has no others if it had none. -/
theorem union_ofType_iff {order : List Bytes} (type_key : String) (a : ARRAY_KEYS)
    (horder : order.toFinset = db.keys) :
    a ∪ (order.filter (db.type · = ascii type_key)).toFinset = db.ofType type_key ↔
      a ⊆ db.ofType type_key := by
  have hfilter : (order.filter (db.type · = ascii type_key)).toFinset = db.ofType type_key := by
    ext k
    simp [← horder, Database.ofType]
  rw [hfilter, Finset.union_eq_right]

/-- Everything is found and told apart exactly if the first page has all that later pages have,
and the three sets hold nothing before that does not belong to them. -/
theorem scanned_partitioned_iff (server : Server State) (s : State) (db : Database)
    (keys : ARRAY_KEYS) (types : Types) (pages : List Page) (h : Scanned server s 0 pages)
    (hkeys : ∀ k, k ∈ db.keys ↔ ∃ page ∈ pages, k ∈ page.keys) :
    Partitioned db (scanAll server s keys) types ↔
      (∀ page ∈ pages.tail, ∀ k ∈ page.keys, ∃ first ∈ pages.head?, k ∈ first.keys) ∧
        Typed db types := by
  obtain ⟨first, rest, rfl, hfirst⟩ := scanAll_eq h
  have hfound : scanAll server s keys = db.keys ↔ ∀ page ∈ rest, ∀ k ∈ page.keys,
      k ∈ first.keys := by
    rw [scanAll, hfirst, Finset.ext_iff]
    simp only [List.mem_toFinset, hkeys, List.exists_mem_cons_iff]
    constructor
    · intro hall page hpage k hk
      exact (hall k).mpr (.inr ⟨page, hpage, hk⟩)
    · intro hall k
      refine ⟨.inl, ?_⟩
      rintro (hk | ⟨page, hpage, hk⟩)
      · exact hk
      · exact hall page hpage k hk
  simp only [List.tail_cons, List.head?_cons, Option.mem_some_iff, exists_eq_left']
  rw [← hfound]
  constructor
  · rintro ⟨hall, hseparated⟩
    obtain ⟨hstr, hhash, hzset⟩ := hseparated db.keys.toList db.keys.nodup_toList
      (by rw [hall, Finset.toList_toFinset])
    have horder : db.keys.toList.toFinset = db.keys := Finset.toList_toFinset _
    rw [separete_for_types_eq] at hstr hhash hzset
    exact ⟨hall, (union_ofType_iff "string" _ horder).mp hstr,
      (union_ofType_iff "hash" _ horder).mp hhash, (union_ofType_iff "zset" _ horder).mp hzset⟩
  · rintro ⟨hall, hstr, hhash, hzset⟩
    refine ⟨hall, fun order _ horder => ?_⟩
    rw [hall] at horder
    rw [separete_for_types_eq]
    exact ⟨(union_ofType_iff "string" _ horder).mpr hstr,
      (union_ofType_iff "hash" _ horder).mpr hhash, (union_ofType_iff "zset" _ horder).mpr hzset⟩

/-- Two strings and a hash. -/
def threeKeys : Database where
  keys := {[97], [98], [99]}
  type := fun k => if k = [99] then ascii "hash" else ascii "string"

/-- A server that gives away its keys in pages of two. -/
def pagedServer : Server Unit where
  scan := fun _ cursor _ _ =>
    if cursor = 0 then (⟨[[97], [98]], 5⟩, ()) else (⟨[[99]], 0⟩, ())

/-- A server that has them all in one page. -/
def onePageServer : Server Unit where
  scan := fun _ _ _ _ => (⟨[[97], [98], [99]], 0⟩, ())

theorem scanned_partitioned_iff_onePage :
    Partitioned threeKeys (scanAll onePageServer () ∅) ⟨∅, {[99]}, ∅⟩ := by
  have hscanned : Scanned onePageServer () 0 [⟨[[97], [98], [99]], 0⟩] :=
    .last (t := ()) rfl rfl
  refine (scanned_partitioned_iff onePageServer () threeKeys ∅ _ _ hscanned ?_).mpr
    ⟨by simp, ?_⟩
  · intro k
    simp [threeKeys]
  · exact ⟨by decide, by decide, by decide⟩

/-- The key of the second page is not found. -/
theorem scanAll_misses_key :
    Scanned pagedServer () 0 [⟨[[97], [98]], 5⟩, ⟨[[99]], 0⟩] ∧
      (∀ k, k ∈ threeKeys.keys ↔
        ∃ page ∈ [(⟨[[97], [98]], 5⟩ : Page), ⟨[[99]], 0⟩], k ∈ page.keys) ∧
      ¬ Partitioned threeKeys (scanAll pagedServer () ∅) ⟨∅, ∅, ∅⟩ := by
  refine ⟨?_, ?_, ?_⟩
  · exact .next (t := ()) rfl (by decide) (.last (t := ()) rfl rfl)
  · intro k
    simp [threeKeys]
    tauto
  · intro h
    exact absurd h.found (by decide)

end RabbitClient.RedisFacade
