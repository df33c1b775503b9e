import Mathlib.Data.Finite.Prod
import Mathlib.Data.Fintype.Card

/-!
Tables indexed by machine words and written at consecutive places by a cursor that wraps around.
A write may fail, which moves the cursor and leaves the table alone.
-/
namespace CyclicTable

variable {w : Nat} {α : Type*}

def set (t : BitVec w → α) (i : BitVec w) (x : α) : BitVec w → α :=
  fun j => if j = i then x else t j

/-- The effect of one write; `none` is a failed one. -/
def write (t : BitVec w → α) (i : BitVec w) : Option α → BitVec w → α
  | some x => set t i x
  | none => t

/-- The table after writes at the places behind the cursor. -/
def writeFrom (t : BitVec w → α) (cursor : BitVec w) : List (Option α) → BitVec w → α
  | [] => t
  | x :: l => writeFrom (write t (cursor + 1#w) x) (cursor + 1#w) l

/-- The latest of these writes to a place. -/
def written (cursor : BitVec w) : List (Option α) → BitVec w → Option α
  | [], _ => none
  | x :: l, i => (written (cursor + 1#w) l i).or (if i = cursor + 1#w then x else none)

theorem writeFrom_apply (t : BitVec w → α) (cursor : BitVec w) (l : List (Option α))
    (i : BitVec w) : writeFrom t cursor l i = (written cursor l i).getD (t i) := by
  induction l generalizing t cursor with
  | nil => rfl
  | cons x l ih =>
    rw [writeFrom, ih, written]
    generalize cursor + 1#w = c
    cases written c l i with
    | some y => rfl
    | none =>
      by_cases hi : i = c
      · cases x <;> simp [write, set, hi]
      · cases x <;> simp [write, set, hi]

/-- Only the distance from the cursor matters. -/
theorem written_shift (cursor d : BitVec w) (l : List (Option α)) (i : BitVec w) :
    written (cursor + d) l (i + d) = written cursor l i := by
  induction l generalizing cursor with
  | nil => rfl
  | cons x l ih =>
    have hnext : cursor + d + 1#w = cursor + 1#w + d := by
      rw [BitVec.add_assoc, BitVec.add_comm d, BitVec.add_assoc]
    have hplace : (i + d = cursor + 1#w + d) ↔ i = cursor + 1#w := BitVec.add_left_inj ..
    rw [written, written, hnext, ih]
    simp only [hplace]

theorem written_cursor (cursor : BitVec w) (l : List (Option α)) (i : BitVec w) :
    written cursor l i = written 0 l (i - cursor) := by
  have h := written_shift 0#w cursor l (i - cursor)
  rw [BitVec.zero_add, BitVec.sub_add_cancel] at h
  exact h

/-- Before a wrap the next place is one further. -/
theorem toNat_next {cursor : BitVec w} (h : cursor.toNat + 1 < 2 ^ w) :
    (cursor + 1#w).toNat = cursor.toNat + 1 := by
  have hone : (1 : Nat) % 2 ^ w = 1 := Nat.mod_eq_of_lt (by omega)
  rw [BitVec.toNat_add, BitVec.toNat_ofNat, hone, Nat.mod_eq_of_lt h]

/-- Without a wrap nothing is written at or below the cursor. -/
theorem written_of_le {cursor i : BitVec w} {l : List (Option α)}
    (hl : cursor.toNat + l.length < 2 ^ w) (hi : i.toNat ≤ cursor.toNat) :
    written cursor l i = none := by
  induction l generalizing cursor with
  | nil => rfl
  | cons x l ih =>
    rw [List.length_cons] at hl
    have hnext : (cursor + 1#w).toNat = cursor.toNat + 1 := toNat_next (by omega)
    have hne : i ≠ cursor + 1#w := by
      intro he
      rw [he] at hi
      omega
    rw [written, ih (by omega) (by omega), if_neg hne]
    rfl

/-- Without a wrap each write has its place above the cursor for itself. -/
theorem written_of_lt {cursor i : BitVec w} {l : List (Option α)}
    (hl : cursor.toNat + l.length < 2 ^ w) (hi : cursor.toNat < i.toNat) :
    written cursor l i = l[i.toNat - cursor.toNat - 1]?.join := by
  induction l generalizing cursor with
  | nil => rfl
  | cons x l ih =>
    rw [List.length_cons] at hl
    have hnext : (cursor + 1#w).toNat = cursor.toNat + 1 := toNat_next (by omega)
    rw [written]
    by_cases he : i = cursor + 1#w
    · have hplace : i.toNat - cursor.toNat - 1 = 0 := by
        rw [he, hnext]
        omega
      rw [written_of_le (by omega) (by rw [he]), if_pos he, hplace]
      rfl
    · have hlt : (cursor + 1#w).toNat < i.toNat := by
        have hne : i.toNat ≠ (cursor + 1#w).toNat := fun h => he (BitVec.eq_of_toNat_eq h)
        omega
      have hplace : i.toNat - cursor.toNat - 1 = i.toNat - (cursor + 1#w).toNat - 1 + 1 := by
        omega
      rw [ih (by omega) hlt, if_neg he, hplace, List.getElem?_cons_succ, Option.or_none]

/-- A set of places closed under going back by `d` is closed under going forward by `d`. -/
theorem mem_of_sub_mem {S : Set (BitVec w)} {d i : BitVec w} (h : ∀ i ∈ S, i - d ∈ S)
    (hi : i - d ∈ S) : i ∈ S := by
  have hfin : Finite (BitVec w) := Finite.of_injective BitVec.toFin fun _ _ => BitVec.toFin_inj.mp
  let back : S → S := fun i => ⟨i.val - d, h i.val i.property⟩
  have hinj : Function.Injective back := by
    intro j k hjk
    have hsub : j.val - d = k.val - d := congrArg Subtype.val hjk
    apply Subtype.ext
    rw [← BitVec.sub_add_cancel j.val d, hsub, BitVec.sub_add_cancel]
  obtain ⟨j, hj⟩ := Finite.surjective_of_injective hinj ⟨i - d, hi⟩
  have hsub : j.val - d = i - d := congrArg Subtype.val hj
  have hji : j.val = i := by
    rw [← BitVec.sub_add_cancel j.val d, hsub, BitVec.sub_add_cancel]
  exact hji ▸ j.property

end CyclicTable
