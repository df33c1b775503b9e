import Mathlib.Data.List.TakeWhile
import Mathlib.Algebra.Group.Nat.Defs

/-! Byte strings, the C strings inside them, and decimal numerals. -/

abbrev Bytes := List UInt8

/-- Text without NUL, such as a command line argument. -/
abbrev CString := { b : Bytes // 0 ∉ b }

namespace Bytes

/-- The code unit of a character below 256. -/
def ofChar (c : Char) : UInt8 := UInt8.ofNat c.toNat

def ascii (s : String) : Bytes := s.toList.map ofChar

/-- What `strlen` and `strcmp` see of a byte string: everything before the first NUL. -/
def cstr (b : Bytes) : Bytes := b.takeWhile (· ≠ 0)

/-- A text without a byte is passed by a scan for it. -/
theorem ne_of_notMem {b : Bytes} {x : UInt8} (h : x ∉ b) : ∀ c ∈ b, decide (c ≠ x) = true := by
  intro c hc
  rw [decide_eq_true_eq]
  rintro rfl
  exact h hc

theorem cstr_of_notMem {b : Bytes} (h : 0 ∉ b) : cstr b = b :=
  List.takeWhile_eq_self_iff.mpr (ne_of_notMem h)

theorem cstr_append {b c : Bytes} (h : 0 ∉ b) : cstr (b ++ c) = b ++ cstr c := by
  rw [cstr, List.takeWhile_append_of_pos (ne_of_notMem h)]
  rfl

/-- What is joined contains only what its parts and the separators between them contain. -/
theorem notMem_intercalate {x y : UInt8} {l : List Bytes} (hx : x ≠ y) (h : ∀ b ∈ l, x ∉ b) :
    x ∉ [y].intercalate l := by
  induction l with
  | nil => simp
  | cons b l ih =>
    obtain ⟨hb, hl⟩ := List.forall_mem_cons.mp h
    cases l with
    | nil => simpa using hb
    | cons b' l =>
      have htail := ih hl
      simp only [List.intercalate_cons_cons, List.mem_append, List.mem_singleton, hb, hx, htail,
        or_self, not_false_eq_true]

theorem notMem_cstr (b : Bytes) : 0 ∉ cstr b := by
  intro h
  simpa using List.mem_takeWhile_imp h

/-- A byte string as a C function sees it. -/
def toCString (b : Bytes) : CString := ⟨cstr b, notMem_cstr b⟩

/-- A string literal. -/
def cString (s : String) : CString := toCString (ascii s)

@[simp] theorem cstr_cstr (b : Bytes) : cstr (cstr b) = cstr b :=
  cstr_of_notMem (notMem_cstr b)

@[simp] theorem cstr_val (s : CString) : cstr s.val = s.val := cstr_of_notMem s.property

/-- The decimal numeral of a natural number. -/
def decimal (n : Nat) : Bytes := (Nat.toDigits 10 n).map ofChar

theorem ofChar_toNat {c : Char} (h : c.isDigit) : (ofChar c).toNat = c.toNat := by
  have hc : c.toNat ≤ 57 := (Char.isDigit_iff_toNat.mp h).2
  simp only [ofChar, UInt8.toNat_ofNat']
  omega

theorem toNat_ofChar_isDigit {c : Char} (h : c.isDigit) :
    48 ≤ (ofChar c).toNat ∧ (ofChar c).toNat ≤ 57 := by
  rw [ofChar_toNat h]
  exact Char.isDigit_iff_toNat.mp h

theorem isDigit_of_mem_decimal {n : Nat} {x : UInt8} (h : x ∈ decimal n) :
    ∃ c : Char, c.isDigit ∧ x = ofChar c := by
  obtain ⟨c, hc, rfl⟩ := List.mem_map.mp h
  exact ⟨c, Nat.isDigit_of_mem_toDigits (by omega) (by omega) hc, rfl⟩

theorem decimal_ne_nil (n : Nat) : decimal n ≠ [] := by
  simp [decimal]

theorem length_decimal_le_iff {n k : Nat} (hk : 0 < k) : (decimal n).length ≤ k ↔ n < 10 ^ k := by
  rw [decimal, List.length_map, Nat.length_toDigits_le_iff (by omega) hk]

theorem mem_decimal {n : Nat} {x : UInt8} (h : x ∈ decimal n) : 48 ≤ x.toNat ∧ x.toNat ≤ 57 := by
  obtain ⟨c, hc, rfl⟩ := isDigit_of_mem_decimal h
  exact toNat_ofChar_isDigit hc

theorem notMem_decimal {c : UInt8} (hc : c.toNat < 48 ∨ 57 < c.toNat) (n : Nat) :
    c ∉ decimal n := by
  intro h
  have hd := mem_decimal h
  omega

theorem zero_notMem_decimal (n : Nat) : 0 ∉ decimal n := notMem_decimal (.inl (by decide)) n

/-- A numeral has no leading zero. -/
theorem decimal_head {n : Nat} (h : (decimal n).head? = some 48) : n = 0 := by
  by_contra hn
  have hzero : ∀ n : Nat, n ≠ 0 → (Nat.toDigits 10 n).head? ≠ some '0' := by
    intro n
    induction n using Nat.strongRecOn with
    | ind n ih =>
      intro hn
      by_cases hlt : n < 10
      · rw [Nat.toDigits_of_lt_base hlt]
        have hd := Nat.toNat_digitChar_of_lt_ten hlt
        intro he
        have hc : n.digitChar = '0' := by simpa using he
        rw [hc] at hd
        have h0 : '0'.toNat = 48 := rfl
        omega
      · rw [Nat.toDigits_of_base_le (by omega) (by omega)]
        intro he
        apply ih (n / 10) (by omega) (by omega)
        cases hl : Nat.toDigits 10 (n / 10) with
        | nil => exact absurd hl Nat.toDigits_ne_nil
        | cons c l => simpa [hl] using he
  simp only [decimal, List.head?_map, Option.map_eq_some_iff] at h
  obtain ⟨c, hc, h48⟩ := h
  have hdig : c.isDigit :=
    Nat.isDigit_of_mem_toDigits (by omega) (by omega) (List.mem_of_head? hc)
  have hv : c.toNat = 48 := by
    rw [← ofChar_toNat hdig, h48]
    rfl
  have hc0 : c = '0' := Char.toNat_inj.mp hv
  exact hzero n hn (hc0 ▸ hc)

theorem exists_ne_zero_decimal {n : Nat} (h : n ≠ 0) : ∃ c ∈ decimal n, c ≠ ofChar '0' := by
  cases hn : decimal n with
  | nil => exact absurd hn (decimal_ne_nil n)
  | cons c b =>
    refine ⟨c, List.mem_cons_self .., ?_⟩
    rintro rfl
    exact h (decimal_head (n := n) (by rw [hn]; rfl))

/-- The number a list of digits denotes, most significant digit first. -/
def ofDigits (b : Bytes) : Nat := b.foldl (fun n x => 10 * n + (x.toNat - 48)) 0

theorem ofDigits_decimal (n : Nat) : ofDigits (decimal n) = n := by
  have hd : ∀ c ∈ Nat.toDigits 10 n, c.isDigit :=
    fun c => Nat.isDigit_of_mem_toDigits (by omega) (by omega)
  have hfold : ∀ (l : List Char) (acc : Nat), (∀ c ∈ l, c.isDigit) →
      (l.map ofChar).foldl (fun n x => 10 * n + (x.toNat - 48)) acc =
        Nat.ofDigitChars 10 l acc := by
    intro l
    induction l with
    | nil => intro acc _; simp
    | cons c l ih =>
      intro acc h
      have hc := ofChar_toNat (h c (List.mem_cons_self ..))
      simp only [List.map_cons, List.foldl_cons, hc, Nat.ofDigitChars_cons]
      exact ih _ (fun d hd => h d (List.mem_cons_of_mem _ hd))
  rw [ofDigits, decimal, hfold _ _ hd]
  exact Nat.ofDigitChars_toDigits (by omega) (by omega)

theorem decimal_injective : Function.Injective decimal := by
  intro m n h
  have hv := congrArg ofDigits h
  rwa [ofDigits_decimal, ofDigits_decimal] at hv

end Bytes
