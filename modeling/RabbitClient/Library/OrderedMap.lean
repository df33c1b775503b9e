import Mathlib.Order.Lattice
import Mathlib.Data.List.Nodup
import Mathlib.Data.Prod.Basic

/-! Maps held as association lists in strictly increasing key order. -/

/-- The entries in iteration order; no key occurs twice. -/
structure OrderedMap (κ ν : Type*) [LT κ] where
  toList : List (κ × ν)
  sorted : toList.Pairwise (fun x y => x.1 < y.1)

namespace OrderedMap
variable {κ ν : Type*} [LinearOrder κ]

/-- Insertion that leaves the value of a present key alone. -/
def insertAbsent (k : κ) (v : ν) : List (κ × ν) → List (κ × ν)
  | [] => [(k, v)]
  | x :: l =>
    if k < x.1 then (k, v) :: x :: l
    else if k = x.1 then x :: l
    else x :: insertAbsent k v l

theorem mem_insertAbsent {k : κ} {v : ν} {y : κ × ν} {l : List (κ × ν)}
    (h : y ∈ insertAbsent k v l) : y = (k, v) ∨ y ∈ l := by
  induction l with
  | nil => exact Or.inl (List.mem_singleton.mp h)
  | cons x l ih =>
    simp only [insertAbsent] at h
    split at h
    · exact List.mem_cons.mp h
    split at h
    · exact Or.inr h
    rcases List.mem_cons.mp h with rfl | h
    · exact Or.inr (List.mem_cons_self ..)
    · exact (ih h).imp_right (List.mem_cons_of_mem _)

theorem insertAbsent_sorted {k : κ} {v : ν} {l : List (κ × ν)}
    (h : l.Pairwise (fun x y => x.1 < y.1)) :
    (insertAbsent k v l).Pairwise (fun x y => x.1 < y.1) := by
  induction l with
  | nil => exact List.pairwise_singleton ..
  | cons x l ih =>
    obtain ⟨hx, hl⟩ := List.pairwise_cons.mp h
    simp only [insertAbsent]
    split
    · rename_i hk
      refine List.pairwise_cons.mpr ⟨?_, h⟩
      intro y hy
      rcases List.mem_cons.mp hy with rfl | hy
      · exact hk
      · exact hk.trans (hx y hy)
    split
    · exact h
    · rename_i hk hne
      refine List.pairwise_cons.mpr ⟨?_, ih hl⟩
      intro y hy
      rcases mem_insertAbsent hy with rfl | hy
      · exact lt_of_le_of_ne (not_lt.mp hk) (Ne.symm hne)
      · exact hx y hy

/-- A key above all others goes to the end. -/
theorem insertAbsent_of_lt {k : κ} {v : ν} {l : List (κ × ν)} (h : ∀ y ∈ l, y.1 < k) :
    insertAbsent k v l = l ++ [(k, v)] := by
  induction l with
  | nil => rfl
  | cons x l ih =>
    have hx := h x (List.mem_cons_self ..)
    have hl := ih (fun y hy => h y (List.mem_cons_of_mem _ hy))
    simp [insertAbsent, not_lt_of_gt hx, hx.ne', hl]

instance : EmptyCollection (OrderedMap κ ν) := ⟨⟨[], .nil⟩⟩

@[simp] theorem toList_empty : (∅ : OrderedMap κ ν).toList = [] := rfl

def emplace (m : OrderedMap κ ν) (k : κ) (v : ν) : OrderedMap κ ν :=
  ⟨insertAbsent k v m.toList, insertAbsent_sorted m.sorted⟩

def isEmpty (m : OrderedMap κ ν) : Bool := m.toList.isEmpty

/-- Update the value of a key in place, if it is present. -/
def modify (m : OrderedMap κ ν) (k : κ) (f : ν → ν) : OrderedMap κ ν where
  toList := m.toList.map fun x => if x.1 = k then (x.1, f x.2) else x
  sorted := by
    refine List.pairwise_map.mpr (m.sorted.imp ?_)
    intro x y hxy
    split <;> split <;> exact hxy

def find? (m : OrderedMap κ ν) (k : κ) : Option ν :=
  (m.toList.find? fun x => x.1 = k).map Prod.snd

def erase (m : OrderedMap κ ν) (k : κ) : OrderedMap κ ν where
  toList := m.toList.filter fun x => x.1 ≠ k
  sorted := m.sorted.filter _

theorem mem_of_find? {m : OrderedMap κ ν} {k : κ} {v : ν} (h : m.find? k = some v) :
    (k, v) ∈ m.toList := by
  obtain ⟨x, hx, rfl⟩ := Option.map_eq_some_iff.mp h
  have hk : x.1 = k := by simpa using List.find?_some hx
  rw [← hk]
  exact List.mem_of_find?_eq_some hx

theorem mem_emplace {m : OrderedMap κ ν} {k : κ} {v : ν} {y : κ × ν}
    (h : y ∈ (m.emplace k v).toList) : y = (k, v) ∨ y ∈ m.toList := mem_insertAbsent h

theorem mem_erase {m : OrderedMap κ ν} {k : κ} {y : κ × ν} :
    y ∈ (m.erase k).toList ↔ y ∈ m.toList ∧ y.1 ≠ k := by
  simp [erase]

theorem mem_modify {m : OrderedMap κ ν} {k : κ} {f : ν → ν} {y : κ × ν} :
    y ∈ (m.modify k f).toList ↔
      ∃ v, (y.1, v) ∈ m.toList ∧ y.2 = if y.1 = k then f v else v := by
  simp only [modify, List.mem_map]
  constructor
  · rintro ⟨x, hx, rfl⟩
    by_cases hk : x.1 = k
    · rw [if_pos hk]
      exact ⟨x.2, hx, by simp [hk]⟩
    · rw [if_neg hk]
      exact ⟨x.2, hx, by simp [hk]⟩
  · rintro ⟨v, hv, hy⟩
    refine ⟨_, hv, ?_⟩
    by_cases hk : y.1 = k
    · simp only [hk, if_true] at hy ⊢
      exact Prod.ext hk.symm hy.symm
    · simp only [hk, if_false] at hy ⊢
      exact Prod.ext rfl hy.symm

@[ext] theorem ext {m m' : OrderedMap κ ν} (h : m.toList = m'.toList) : m = m' := by
  cases m
  cases m'
  congr

@[simp] theorem isEmpty_eq_true {m : OrderedMap κ ν} : m.isEmpty = true ↔ m.toList = [] := by
  simp [isEmpty]

theorem keys_nodup (m : OrderedMap κ ν) : (m.toList.map Prod.fst).Nodup :=
  List.pairwise_map.mpr (m.sorted.imp fun h => h.ne)

theorem value_unique {m : OrderedMap κ ν} {k : κ} {v v' : ν} (h : (k, v) ∈ m.toList)
    (h' : (k, v') ∈ m.toList) : v = v' := by
  have he := List.inj_on_of_nodup_map m.keys_nodup h h' rfl
  exact congrArg Prod.snd he

theorem toList_foldl_emplace {q : κ × ν → Bool} {l : List (κ × ν)} {acc : OrderedMap κ ν}
    (hl : l.Pairwise (fun x y => x.1 < y.1)) (hacc : ∀ x ∈ acc.toList, ∀ y ∈ l, x.1 < y.1) :
    (l.foldl (fun m x => if q x then m.emplace x.1 x.2 else m) acc).toList =
      acc.toList ++ l.filter q := by
  induction l generalizing acc with
  | nil => simp
  | cons y l ih =>
    obtain ⟨hy, hl⟩ := List.pairwise_cons.mp hl
    have hlt : ∀ x ∈ acc.toList, x.1 < y.1 := fun x hx => hacc x hx y (List.mem_cons_self ..)
    have hrest : ∀ x ∈ acc.toList, ∀ z ∈ l, x.1 < z.1 :=
      fun x hx z hz => hacc x hx z (List.mem_cons_of_mem _ hz)
    simp only [List.foldl_cons]
    by_cases hq : q y = true
    · have he : (acc.emplace y.1 y.2).toList = acc.toList ++ [y] := insertAbsent_of_lt hlt
      rw [if_pos hq, ih hl, he]
      · simp [hq]
      · intro x hx z hz
        rw [he] at hx
        rcases List.mem_append.mp hx with hx | hx
        · exact hrest x hx z hz
        · rw [List.mem_singleton.mp hx]
          exact hy z hz
    · rw [if_neg hq, ih hl hrest]
      simp [hq]

end OrderedMap
