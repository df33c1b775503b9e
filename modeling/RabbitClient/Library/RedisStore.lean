import Mathlib.Logic.Function.Basic

/-! String keys of a Redis server with an optional time to live. Every command is atomic. -/
namespace Redis

/-- A stored string and the seconds granted by the last EXPIRE, if it still carries any. -/
structure Entry (ν : Type*) where
  value : ν
  ttl : Option Nat
deriving DecidableEq, Repr

abbrev Store (κ ν : Type*) := κ → Option (Entry ν)

namespace Store
variable {κ ν : Type*} [DecidableEq κ]

def get (db : Store κ ν) (k : κ) : Option ν := (db k).map Entry.value

def put (db : Store κ ν) (k : κ) (e : Option (Entry ν)) : Store κ ν := Function.update db k e

/-- SETNX stores only when the key is absent. -/
def setnx (db : Store κ ν) (k : κ) (v : ν) : Bool × Store κ ν :=
  match db k with
  | some _ => (false, db)
  | none => (true, db.put k (some ⟨v, none⟩))

/-- EXPIRE with a positive number of seconds; an absent key is left absent. -/
def expire (db : Store κ ν) (k : κ) (seconds : Nat) : Bool × Store κ ν :=
  match db k with
  | some e => (true, db.put k (some { e with ttl := some seconds }))
  | none => (false, db)

/-- SET overwrites the value and discards a time to live. -/
def set (db : Store κ ν) (k : κ) (v : ν) : Store κ ν := db.put k (some ⟨v, none⟩)

def del (db : Store κ ν) (k : κ) : Store κ ν := db.put k none

/-- Only a key with a time to live can expire. -/
def Expirable (db : Store κ ν) (k : κ) : Prop := ∃ e, db k = some e ∧ e.ttl ≠ none

variable {db : Store κ ν} {k k' : κ} {v : ν} {e : Entry ν} {n : Nat}

@[simp] theorem put_self {x : Option (Entry ν)} : db.put k x k = x := by simp [put]

@[simp] theorem put_of_ne {x : Option (Entry ν)} (h : k' ≠ k) : db.put k x k' = db k' := by
  simp [put, h]

@[simp] theorem set_self : db.set k v k = some ⟨v, none⟩ := by simp [set]

@[simp] theorem set_of_ne (h : k' ≠ k) : db.set k v k' = db k' := by simp [set, h]

@[simp] theorem del_self : db.del k k = none := by simp [del]

@[simp] theorem del_of_ne (h : k' ≠ k) : db.del k k' = db k' := by simp [del, h]

end Store
end Redis
