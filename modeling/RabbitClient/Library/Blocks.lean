import RabbitClient.Library.Bytes

/-! Strings laid out one after another, each filled up with NULs to a multiple of a width. -/
namespace Blocks

open Bytes

variable {w : Nat} {b : Bytes} {bs : List Bytes}

/-- A string whose length is a multiple of the width gets no NUL at all. -/
def pad (w : Nat) (b : Bytes) : Bytes := b ++ List.replicate ((w - b.length % w) % w) 0

/-- What a C string function reads from the first of several padded strings. -/
def runOn (w : Nat) : List Bytes → Bytes
  | [] => []
  | b :: bs => if w ∣ b.length then b ++ runOn w bs else b

@[simp] theorem length_pad (w : Nat) (b : Bytes) :
    (pad w b).length = b.length + (w - b.length % w) % w := by
  simp [pad]

@[simp] theorem pad_nil (w : Nat) : pad w [] = [] := by simp [pad]

theorem pad_of_dvd (h : w ∣ b.length) : pad w b = b := by
  have hr : b.length % w = 0 := Nat.mod_eq_zero_of_dvd h
  simp [pad, hr]

/-- A string that leaves room in its last block is followed by a NUL. -/
theorem pad_of_not_dvd (hw : 0 < w) (h : ¬ w ∣ b.length) : ∃ z, pad w b = b ++ 0 :: z := by
  have hr : b.length % w ≠ 0 := fun hr => h (Nat.dvd_of_mod_eq_zero hr)
  have hlt : b.length % w < w := Nat.mod_lt _ hw
  have hn : (w - b.length % w) % w = (w - b.length % w - 1) + 1 := by
    rw [Nat.mod_eq_of_lt (by omega)]
    omega
  exact ⟨List.replicate (w - b.length % w - 1) 0, by rw [pad, hn, List.replicate_succ]⟩

theorem length_pad_lt (hw : 0 < w) (b : Bytes) : (pad w b).length < b.length + w := by
  have hlt := Nat.mod_lt (w - b.length % w) hw
  rw [length_pad]
  omega

theorem length_flatMap_pad_le (hw : 0 < w) {n : Nat} (h : ∀ b ∈ bs, b.length ≤ n) :
    (bs.flatMap (pad w)).length ≤ (n + w) * bs.length := by
  induction bs with
  | nil => simp
  | cons b bs ih =>
    have hb : b.length ≤ n := h b (by simp)
    have hpad := length_pad_lt hw b
    have htail := ih fun c hc => h c (List.mem_cons_of_mem _ hc)
    rw [List.flatMap_cons, List.length_append, List.length_cons, Nat.mul_succ]
    omega

theorem runOn_of_not_dvd (h : ¬ w ∣ b.length) : runOn w (b :: bs) = b := by
  simp [runOn, h]

theorem runOn_of_dvd (h : w ∣ b.length) : runOn w (b :: bs) = b ++ runOn w bs := by
  simp [runOn, h]

theorem runOn_ne_nil {c : Bytes} (hc : c ∈ bs) (hne : c ≠ []) : runOn w bs ≠ [] := by
  induction bs with
  | nil => contradiction
  | cons b bs ih =>
    by_cases hb : b = []
    · subst b
      have htail : c ∈ bs := by simpa [hne] using hc
      simpa [runOn] using ih htail
    · rw [runOn]
      split <;> simp [hb]

/-- The string itself is read exactly if it leaves room for a NUL. -/
theorem runOn_eq_iff {c : Bytes} (hc : c ∈ bs) (hne : c ≠ []) :
    runOn w (b :: bs) = b ↔ ¬ w ∣ b.length := by
  constructor
  · intro h hd
    rw [runOn_of_dvd hd] at h
    exact runOn_ne_nil hc hne (List.append_right_eq_self.mp h)
  · exact runOn_of_not_dvd

/-- Reading from the start of a layout goes on from string to string. -/
theorem cstr_flatMap_pad (hw : 0 < w) (h : ∀ b ∈ bs, 0 ∉ b) (z : Bytes) :
    cstr (bs.flatMap (pad w) ++ 0 :: z) = runOn w bs := by
  induction bs with
  | nil => simp [cstr, runOn]
  | cons b bs ih =>
    have hb : 0 ∉ b := h b (by simp)
    rw [List.flatMap_cons, List.append_assoc]
    by_cases hd : w ∣ b.length
    · rw [pad_of_dvd hd, cstr_append hb, ih fun c hc => h c (List.mem_cons_of_mem _ hc),
        runOn_of_dvd hd]
    · obtain ⟨y, hy⟩ := pad_of_not_dvd hw hd
      rw [hy, List.append_assoc, cstr_append hb, runOn_of_not_dvd hd]
      simp [cstr]

end Blocks
