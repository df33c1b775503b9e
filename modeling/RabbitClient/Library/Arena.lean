import Mathlib.Data.List.Basic
import Mathlib.Logic.Function.Basic

/-! Memory that is only ever given away: the front part of each block is in use, and what is written
goes behind it. -/

variable {ι α : Type}

/-- The contents of the blocks, and how much of each has been given away. -/
structure Arena (ι α : Type) where
  contents : ι → List α
  given : ι → Nat

namespace Arena

variable {a b c : Arena ι α} {i : ι} {offset n : Nat} {src : List α}

/-- No more is given away than there is. -/
def Sound (a : Arena ι α) : Prop := ∀ i, a.given i ≤ (a.contents i).length

/-- What has been given away is still there and has not changed. -/
def Keeps (a b : Arena ι α) : Prop :=
  ∀ i, a.given i ≤ b.given i ∧ (b.contents i).take (a.given i) = (a.contents i).take (a.given i)

theorem Keeps.refl (a : Arena ι α) : Keeps a a := fun _ => ⟨Nat.le_refl _, rfl⟩

theorem Keeps.trans (h : Keeps a b) (h' : Keeps b c) : Keeps a c := by
  intro i
  obtain ⟨hle, hsame⟩ := h i
  obtain ⟨hle', hsame'⟩ := h' i
  refine ⟨Nat.le_trans hle hle', ?_⟩
  have hboth := congrArg (List.take (a.given i)) hsame'
  rw [List.take_take, List.take_take, Nat.min_eq_left hle] at hboth
  exact hboth.trans hsame

/-- The `n` elements from an address on. -/
def read (a : Arena ι α) (i : ι) (offset n : Nat) : List α := ((a.contents i).drop offset).take n

theorem Keeps.read_eq (h : Keeps a b) (hn : offset + n ≤ a.given i) :
    b.read i offset n = a.read i offset n := by
  have hpart (c : Arena ι α) :
      c.read i offset n = (((c.contents i).take (a.given i)).drop offset).take n := by
    rw [read, List.drop_take, List.take_take, Nat.min_eq_left (by omega)]
  rw [hpart b, hpart a, (h i).2]

variable [DecidableEq ι]

def write (a : Arena ι α) (i : ι) (offset : Nat) (src : List α) : Arena ι α where
  contents := Function.update a.contents i
    ((a.contents i).take offset ++ src ++ (a.contents i).drop (offset + src.length))
  given := a.given

theorem contents_write_self : (a.write i offset src).contents i =
    (a.contents i).take offset ++ src ++ (a.contents i).drop (offset + src.length) :=
  Function.update_self ..

theorem contents_write_of_ne {j : ι} (h : j ≠ i) :
    (a.write i offset src).contents j = a.contents j :=
  Function.update_of_ne h ..

/-- A write behind what had been given away in `a` leaves that alone. -/
theorem Keeps.write (h : Keeps a b) (ha : Sound a) (hfree : a.given i ≤ offset) :
    Keeps a (b.write i offset src) := by
  intro j
  obtain ⟨hle, hsame⟩ := h j
  refine ⟨hle, ?_⟩
  by_cases hi : j = i
  · subst j
    have hlen : a.given i ≤ ((b.contents i).take offset).length := by
      have htaken := congrArg List.length hsame
      have hin := ha i
      simp only [List.length_take] at htaken ⊢
      omega
    rw [contents_write_self, List.append_assoc, List.take_append_of_le_length hlen, List.take_take,
      Nat.min_eq_left hfree, hsame]
  · rw [contents_write_of_ne hi, hsame]

theorem read_write (ha : Sound a) (hn : offset + src.length ≤ a.given i) :
    (a.write i offset src).read i offset src.length = src := by
  have hin := ha i
  have hlen : ((a.contents i).take offset).length = offset := by
    rw [List.length_take]
    omega
  rw [read, contents_write_self, List.append_assoc, List.drop_left' hlen, List.take_left]

end Arena
