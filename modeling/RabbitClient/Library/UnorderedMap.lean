import Mathlib.Data.List.Nodup
import Mathlib.Logic.Function.Basic

/-! Maps without an order of their entries, filled from lists of pairs. -/

abbrev UnorderedMap (κ ν : Type*) := κ → Option ν

namespace UnorderedMap

variable {κ ν : Type*} [DecidableEq κ]

def empty : UnorderedMap κ ν := fun _ => none

/-- An entry whose key is present is left as it is. -/
def emplace (m : UnorderedMap κ ν) (k : κ) (v : ν) : UnorderedMap κ ν :=
  if (m k).isSome then m else Function.update m k (some v)

def insertAll (m : UnorderedMap κ ν) (l : List (κ × ν)) : UnorderedMap κ ν :=
  l.foldl (fun m p => m.emplace p.1 p.2) m

/-- For each key the first of its values. -/
def first (l : List (κ × ν)) : UnorderedMap κ ν := fun k => l.lookup k

/-- The entries of a list over those of a map. -/
def override (m : UnorderedMap κ ν) (l : List (κ × ν)) : UnorderedMap κ ν :=
  fun k => (l.lookup k).or (m k)

/-- The list has each entry of the map once. -/
structure Lists (l : List (κ × ν)) (m : UnorderedMap κ ν) : Prop where
  nodup : (l.map Prod.fst).Nodup
  mem_iff : ∀ k v, (k, v) ∈ l ↔ m k = some v

variable {m : UnorderedMap κ ν} {l : List (κ × ν)} {k k' : κ} {v : ν}

theorem emplace_apply (m : UnorderedMap κ ν) (k : κ) (v : ν) (k' : κ) :
    m.emplace k v k' = (m k').or (if k' = k then some v else none) := by
  rw [emplace]
  by_cases hk : k' = k
  · subst k'
    cases hm : m k <;> simp [hm]
  · cases hm : m k <;> simp [hk]

/-- The first value of a key is the one that is kept. -/
theorem insertAll_apply (m : UnorderedMap κ ν) (l : List (κ × ν)) (k : κ) :
    m.insertAll l k = (m k).or (l.lookup k) := by
  induction l generalizing m with
  | nil => simp [insertAll]
  | cons p l ih =>
    obtain ⟨k', v⟩ := p
    have hrest := ih (m.emplace k' v)
    rw [insertAll, List.foldl_cons, ← insertAll, hrest, emplace_apply, List.lookup_cons]
    by_cases hk : k = k'
    · cases m k <;> simp [hk]
    · have hbeq : (k == k') = false := by simpa using hk
      cases m k <;> simp [hk, hbeq]

theorem insertAll_empty (l : List (κ × ν)) : empty.insertAll l = first l := by
  funext k
  rw [insertAll_apply, empty, Option.none_or, first]

theorem lookup_eq_some_iff (h : (l.map Prod.fst).Nodup) :
    l.lookup k = some v ↔ (k, v) ∈ l := by
  induction l with
  | nil => simp
  | cons p l ih =>
    obtain ⟨k', v'⟩ := p
    rw [List.map_cons, List.nodup_cons] at h
    rw [List.lookup_cons, List.mem_cons, Prod.mk.injEq]
    by_cases hk : k = k'
    · subst k'
      have hnot : (k, v) ∉ l := fun hmem => h.1 (List.mem_map.mpr ⟨_, hmem, rfl⟩)
      simp [hnot, eq_comm]
    · have hbeq : (k == k') = false := by simpa using hk
      simp [hk, hbeq, ih h.2]

/-- A map is put together again from a list of its entries. -/
theorem Lists.insertAll_empty (h : Lists l m) : empty.insertAll l = m := by
  funext k
  rw [UnorderedMap.insertAll_empty, first]
  apply Option.ext
  intro v
  rw [lookup_eq_some_iff h.nodup, h.mem_iff]

/-- Entries may be written one after the other. -/
theorem override_cons (h : k ∉ l.map Prod.fst) :
    m.override ((k, v) :: l) = override (Function.update m k (some v)) l := by
  funext k'
  rw [override, override, List.lookup_cons]
  by_cases hk : k' = k
  · subst k'
    have hnone : l.lookup k = none := by
      rw [List.lookup_eq_none_iff]
      intro p hp
      simpa using fun he => h (List.mem_map.mpr ⟨p, hp, Eq.symm he⟩)
    simp [hnone]
  · have hbeq : (k' == k) = false := by simpa using hk
    simp [hk, hbeq]

/-- Nothing is overridden exactly if the values are there already. -/
theorem override_eq_self_iff (h : (l.map Prod.fst).Nodup) :
    m.override l = m ↔ ∀ p ∈ l, m p.1 = some p.2 := by
  rw [funext_iff]
  constructor
  · rintro hself ⟨k, v⟩ hp
    have hlookup := (lookup_eq_some_iff h).mpr hp
    rw [← hself k, override, hlookup]
    rfl
  · intro hall k
    rw [override]
    cases hk : l.lookup k with
    | none => rfl
    | some v => exact (hall (k, v) ((lookup_eq_some_iff h).mp hk)).symm

end UnorderedMap
