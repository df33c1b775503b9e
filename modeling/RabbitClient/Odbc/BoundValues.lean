import RabbitClient.Odbc.FailedBind

/-! What the driver reads, when a statement is executed, of the parameters bound to it. -/
namespace RabbitClient.OdbcStatement

open Bytes
open OdbcConnect (SQLRETURN SQL_SUCCEEDED)

variable (to_string : BitVec 64 → Bytes) {b : Bindings} {indicator : Int} {v : BitVec 32}
  {parameters : List (SQLParameter × SQLRETURN)}

def SQL_NULL_DATA : Int := -1
def SQL_DATA_AT_EXEC : Int := -2
def SQL_DEFAULT_PARAM : Int := -5
def SQL_LEN_DATA_AT_EXEC_OFFSET : Int := -100

/-- The indicator means that the value is supplied while the statement is executed, or that a
procedure has one. -/
def elsewhere (indicator : Int) : Prop :=
  indicator = SQL_DATA_AT_EXEC ∨ indicator = SQL_DEFAULT_PARAM ∨
    indicator ≤ SQL_LEN_DATA_AT_EXEC_OFFSET

instance : Decidable (elsewhere indicator) := instDecidableOr

/-- What the driver reads through the C type of a binding. The overloads for `float` and `double`
leave it the address of a local variable as its indicator; what stands there at the time is
`indicator`. Of the `double` that stands for a `float` it reads the first four bytes. -/
def Value.read (indicator : Int) : Value → Option Value
  | .null => some .null
  | .int v => some (.int v)
  | .float v =>
    if indicator = SQL_NULL_DATA then some .null
    else if elsewhere indicator then none
    else some (.float ((floatToDouble v).setWidth 32))
  | .double v =>
    if indicator = SQL_NULL_DATA then some .null
    else if elsewhere indicator then none
    else some (.double v)
  | .text s => some (.text s)

/-- The driver reads the value that was given; an empty string may be NULL. -/
def Carries (value : AnyValue) (read : Option Value) : Prop :=
  match value with
  | .arg (.int v) => read = some (.int v)
  | .arg (.float v) => read = some (.float v)
  | .arg (.double v) => read = some (.double v)
  | .arg (.chars none) => read = some .null
  | .arg (.chars (some s)) => read = some (.text s) ∨ s.val = [] ∧ read = some .null
  | .arg (.string s) => (∃ t : CString, t.val = s ∧ read = some (.text t)) ∨
      s = [] ∧ read = some .null
  | .other _ => False

/-- Every parameter is bound once, at its place in the list, and carries its value; `stack i` is
what stands where the indicator of the `i`-th one was. -/
structure Carried (parameters : List (SQLParameter × SQLRETURN)) (b : Bindings)
    (stack : Nat → Int) : Prop where
  once : ∀ i < parameters.length, b.calls.countP (fun c => c.1.toNat = i + 1) = 1
  value : ∀ i x, parameters[i]? = some x → ∃ p,
    b.statement.parameters (.ofNat 16 (i + 1)) = some p ∧
      Carries x.1.value (p.value.read (stack i))

/-- The indicator of a number that is passed by its value. -/
def Harmless (indicator : Int) : Prop := indicator ≠ SQL_NULL_DATA ∧ ¬ elsewhere indicator

/-- Values that reach the driver: all texts, the numbers other than a zero without column size, and
of the `float`s only zero with a column size. -/
def Kept (it : SQLParameter) (indicator : Int) : Prop :=
  match it.value with
  | .arg (.int v) => ¬ (v = 0 ∧ it.colDef = 0)
  | .arg (.float v) => v = 0 ∧ it.colDef ≠ 0 ∧ Harmless indicator
  | .arg (.double v) => ¬ (isZero v ∧ it.colDef = 0) ∧ Harmless indicator
  | .arg (.chars _) => True
  | .arg (.string _) => True
  | .other _ => False

/-- The fraction of a `float` is moved up by at least 29 bits. -/
theorem widened_mod (exponent : Nat) {fraction : Nat} (h : fraction < 2 ^ 23) :
    widened exponent fraction % 2 ^ 29 = 0 ∧
      (fraction = 0 → widened exponent fraction % 2 ^ 32 = 0) := by
  rw [widened]
  split
  · split
    · simp
    · rename_i hne
      have hlog : fraction.log2 < 23 := (Nat.log2_lt hne).mpr h
      have hpow : 2 ^ (52 - fraction.log2) = 2 ^ 29 * 2 ^ (23 - fraction.log2) := by
        rw [← Nat.pow_add]
        congr 1
        omega
      rw [hpow, ← Nat.mul_assoc, Nat.mul_right_comm]
      exact ⟨by omega, fun h0 => (hne h0).elim⟩
  · split
    · split <;> omega
    · omega

/-- Nothing of a `float` but its lowest bits of the fraction gets into the first four bytes. -/
theorem floatToDouble_mod (v : BitVec 32) :
    (floatToDouble v).toNat % 2 ^ 29 = 0 ∧
      (v.toNat % 2 ^ 23 = 0 → (floatToDouble v).toNat % 2 ^ 32 = 0) := by
  obtain ⟨hmod, hzero⟩ := widened_mod (v.toNat / 2 ^ 23 % 2 ^ 8)
    (Nat.mod_lt v.toNat (by decide : 0 < 2 ^ 23))
  rw [floatToDouble, BitVec.toNat_ofNat]
  generalize widened (v.toNat / 2 ^ 23 % 2 ^ 8) (v.toNat % 2 ^ 23) = w at *
  constructor
  · omega
  · intro h
    have hw := hzero h
    omega

/-- Of a `float` only zero is read back. -/
theorem setWidth_floatToDouble : (floatToDouble v).setWidth 32 = v ↔ v = 0 := by
  constructor
  · intro h
    have hlow : (floatToDouble v).toNat % 2 ^ 32 = v.toNat := by
      rw [← BitVec.toNat_setWidth, h]
    obtain ⟨hmod, hzero⟩ := floatToDouble_mod v
    have hfrac : v.toNat % 2 ^ 23 = 0 := by omega
    apply BitVec.eq_of_toNat_eq
    rw [← hlow, hzero hfrac]
    rfl
  · rintro rfl
    decide

theorem read_float : (Value.float v).read indicator = some (.float v) ↔
    v = 0 ∧ Harmless indicator := by
  rw [Value.read, Harmless]
  by_cases hnull : indicator = SQL_NULL_DATA
  · simp [hnull]
  · by_cases helse : elsewhere indicator
    · simp [hnull, helse]
    · simp [hnull, helse, setWidth_floatToDouble]

theorem read_double {v : BitVec 64} : (Value.double v).read indicator = some (.double v) ↔
    Harmless indicator := by
  rw [Value.read, Harmless]
  by_cases hnull : indicator = SQL_NULL_DATA
  · simp [hnull]
  · by_cases helse : elsewhere indicator <;> simp [hnull, helse]

theorem numberParameter_value (ValueType : CType) (value : Value) (zero : Bool) (size : Nat)
    (sqlType : SQLSMALLINT) (colDef : Nat) (colScale : SQLSMALLINT) :
    (numberParameter ValueType value zero size sqlType colDef colScale).value =
      if zero && colDef = 0 then .null else value := by
  rw [numberParameter]
  split <;> rfl

/-- A string is bound as it is, or as NULL if it is empty. -/
theorem stringParameter_value {s : Bytes} (h : 0 ∉ s) (sqlType : SQLSMALLINT) (colDef : Nat)
    (colScale : SQLSMALLINT) :
    (∃ t : CString, t.val = s ∧
        (stringParameter s sqlType colDef colScale).value = .text t) ∨
      s = [] ∧ (stringParameter s sqlType colDef colScale).value = .null := by
  rw [stringParameter]
  by_cases hsize : (if colDef = 0 then s.length else colDef) = 0
  · have hs : s = [] := by
      split at hsize
      · exact List.length_eq_zero_iff.mp hsize
      · contradiction
    simp only [hsize, decide_true, Bool.true_and, decide_eq_true_eq]
    have hnull : (intParameter 0 sqlType 0 colScale).value = .null ∧
        (doubleParameter 0 sqlType 0 colScale).value = .null ∧
        (charsParameter none sqlType 0 colScale).value = .null := ⟨rfl, rfl, rfl⟩
    obtain ⟨hint, hdouble, hchars⟩ := hnull
    split_ifs
    · exact .inr ⟨hs, hint⟩
    · exact .inr ⟨hs, hdouble⟩
    · exact .inr ⟨hs, hdouble⟩
    · exact .inr ⟨hs, hchars⟩
    · exact .inr ⟨hs, hchars⟩
    · exact .inr ⟨hs, hchars⟩
    · exact .inl ⟨_, cstr_of_notMem h, rfl⟩
  · simp only [hsize, decide_false, Bool.false_and, Bool.false_eq_true, if_false]
    exact .inl ⟨_, cstr_of_notMem h, rfl⟩

/-- The values of `it` are bound by one of the overloads. -/
def SQLParameter.bound (it : SQLParameter) : Option Parameter :=
  match it.value with
  | .arg a => some (a.parameter (a.sqlType it.sqlType) it.colDef it.colScale)
  | .other _ => none

/-- What an overload binds carries the value exactly if it is one of those that are kept. -/
theorem carries_iff (it : SQLParameter) (indicator : Int)
    (hnul : ∀ s, it.value = .arg (.string s) → 0 ∉ s) :
    (∃ p, it.bound = some p ∧ Carries it.value (p.value.read indicator)) ↔ Kept it indicator := by
  obtain ⟨value, sqlType, colDef, colScale⟩ := it
  cases value with
  | other name => simp [SQLParameter.bound, Kept]
  | arg a =>
    simp only [SQLParameter.bound, Option.some_inj, exists_eq_left']
    cases a with
    | int v =>
      simp only [Carries, Kept, Arg.parameter, intParameter, numberParameter_value]
      by_cases hz : v = 0 ∧ colDef = 0
      · simp [hz, Value.read]
      · simp only [Bool.and_eq_true, decide_eq_true_eq, hz, if_false, not_false_eq_true, iff_true]
        rfl
    | float v =>
      simp only [Carries, Kept, Arg.parameter, floatParameter, numberParameter_value]
      by_cases hz : isZero v ∧ colDef = 0
      · simp [hz, Value.read]
      · have hsize : v = 0 → colDef ≠ 0 := by
          rintro rfl h0
          exact hz ⟨rfl, h0⟩
        simp only [Bool.and_eq_true, decide_eq_true_eq, hz, if_false, read_float]
        tauto
    | double v =>
      simp only [Carries, Kept, Arg.parameter, doubleParameter, numberParameter_value]
      by_cases hz : isZero v ∧ colDef = 0
      · simp [hz, Value.read]
      · simp only [Bool.and_eq_true, decide_eq_true_eq, hz, if_false, read_double,
          not_false_eq_true, true_and]
    | chars szvalue =>
      cases szvalue with
      | none => exact iff_of_true rfl trivial
      | some s => exact iff_of_true (.inl rfl) trivial
    | string s =>
      refine iff_of_true ?_ trivial
      rcases stringParameter_value (hnul s rfl) sqlType colDef colScale with
        ⟨t, ht, hvalue⟩ | ⟨hs, hvalue⟩
      · exact .inl ⟨t, ht, congrArg (Value.read indicator) hvalue⟩
      · exact .inr ⟨hs, congrArg (Value.read indicator) hvalue⟩

variable {it : SQLParameter} {ret : SQLRETURN}

theorem bindOne_parameters (b : Bindings) (h : Accepted it ret) :
    (bindOne to_string b it ret).1.statement.parameters =
      CyclicTable.set b.statement.parameters (.ofNat 16 (b.statement.param_values_ + 1))
        it.bound := by
  obtain ⟨⟨a, ha⟩, hret⟩ := h
  simp only [bindOne, SQLParameter.bound, ha, Bindings.addParameter, addParameter, hret,
    if_true, CyclicTable.write, parameter_overload]

theorem bindOne_calls (b : Bindings) (h : Accepted it ret) :
    (bindOne to_string b it ret).1.calls.map Prod.fst =
      b.calls.map Prod.fst ++ [.ofNat 16 (b.param_values_.length + 1)] := by
  obtain ⟨⟨a, ha⟩, -⟩ := h
  simp [bindOne, ha, Bindings.addParameter]

/-- The table of the driver after a list of accepted values. -/
theorem setBindParameter_parameters (b : Bindings) (h : ∀ x ∈ parameters, Accepted x.1 x.2) :
    (setBindParameter to_string b parameters).1.statement.parameters =
      CyclicTable.writeFrom b.statement.parameters (.ofNat 16 b.param_values_.length)
        (parameters.map fun x => some x.1.bound) := by
  induction parameters generalizing b with
  | nil => rfl
  | cons x parameters ih =>
    obtain ⟨hx, hrest⟩ := List.forall_mem_cons.mp h
    have hnext : BitVec.ofNat 16 (b.param_values_.length + 1) =
        BitVec.ofNat 16 b.param_values_.length + 1#16 := BitVec.ofNat_add ..
    rw [setBindParameter_of_accepted to_string b hx, ih _ hrest,
      (bindOne_of_accepted to_string b hx).2, bindOne_parameters to_string b hx, ← b.size_eq, hnext]
    rfl

/-- The driver is asked once for each value, at consecutive indexes. -/
theorem setBindParameter_calls (b : Bindings) (h : ∀ x ∈ parameters, Accepted x.1 x.2) :
    (setBindParameter to_string b parameters).1.calls.map Prod.fst =
      b.calls.map Prod.fst ++
        (List.range' (b.param_values_.length + 1) parameters.length).map (BitVec.ofNat 16) := by
  induction parameters generalizing b with
  | nil => exact (List.append_nil _).symm
  | cons x parameters ih =>
    obtain ⟨hx, hrest⟩ := List.forall_mem_cons.mp h
    rw [setBindParameter_of_accepted to_string b hx, ih _ hrest,
      (bindOne_of_accepted to_string b hx).2, bindOne_calls to_string b hx, List.length_cons,
      List.range'_succ, List.map_cons, List.append_assoc, List.singleton_append]

/-- Below 65536 every index stands for one number. -/
theorem countP_range' {n k : Nat} (hn : n < 2 ^ 16) (hk : k < n) :
    ((List.range' 1 n).map (BitVec.ofNat 16)).countP (fun i => i.toNat = k + 1) = 1 := by
  have hplace : ∀ j ∈ List.range' 1 n, (BitVec.ofNat 16 j).toNat = j := by
    intro j hj
    rw [List.mem_range'_1] at hj
    rw [BitVec.toNat_ofNat, Nat.mod_eq_of_lt (by omega)]
  have hmem : k + 1 ∈ List.range' 1 n := List.mem_range'_1.mpr (by omega)
  rw [List.countP_map]
  refine Eq.trans (List.countP_congr ?_) (List.count_eq_one_of_mem (List.nodup_range' ..) hmem)
  intro j hj
  simp [hplace j hj]

/-- Index 65536 is never used. -/
theorem countP_eq_zero (l : List Index) : l.countP (fun i => i.toNat = 65535 + 1) = 0 := by
  rw [List.countP_eq_zero]
  intro i _
  have hi := i.isLt
  simp only [decide_eq_true_eq]
  omega

/-- Every bound parameter carries its value exactly if the indexes suffice and no value is one that
its overload loses: a zero is bound as NULL unless it comes with a column size, and a `float` is
bound as the first half of a `double`. -/
theorem bound_values_iff (parameters : List (SQLParameter × SQLRETURN)) (stack : Nat → Int)
    (haccepted : ∀ x ∈ parameters, Accepted x.1 x.2)
    (hnul : ∀ x ∈ parameters, ∀ s, x.1.value = .arg (.string s) → 0 ∉ s) :
    Carried parameters (setBindParameter to_string .fresh parameters).1 stack ↔
      parameters.length < 2 ^ 16 ∧ ∀ i x, parameters[i]? = some x → Kept x.1 (stack i) := by
  have hcalls := setBindParameter_calls to_string .fresh haccepted
  have hcount : ∀ k, (setBindParameter to_string .fresh parameters).1.calls.countP
      (fun c => c.1.toNat = k + 1) =
        ((List.range' 1 parameters.length).map (BitVec.ofNat 16)).countP
          (fun i => i.toNat = k + 1) := by
    intro k
    have hmap := congrArg (List.countP fun i : Index => i.toNat = k + 1) hcalls
    rw [List.countP_map] at hmap
    exact hmap
  have htable : parameters.length < 2 ^ 16 → ∀ i x, parameters[i]? = some x →
      (setBindParameter to_string .fresh parameters).1.statement.parameters (.ofNat 16 (i + 1)) =
        x.1.bound := by
    intro hlen i x hx
    obtain ⟨hi, -⟩ := List.getElem?_eq_some_iff.mp hx
    have hplace : (BitVec.ofNat 16 (i + 1)).toNat = i + 1 := by
      rw [BitVec.toNat_ofNat, Nat.mod_eq_of_lt (by omega)]
    rw [setBindParameter_parameters to_string .fresh haccepted, CyclicTable.writeFrom_apply,
      CyclicTable.written_of_lt (by simpa [Bindings.fresh] using hlen)
        (by simp [Bindings.fresh, hplace]), hplace]
    simp [Bindings.fresh, hx]
  constructor
  · rintro ⟨honce, hvalue⟩
    have hlen : parameters.length < 2 ^ 16 := by
      by_contra hlong
      have h := honce 65535 (by omega)
      rw [hcount, countP_eq_zero] at h
      contradiction
    refine ⟨hlen, fun i x hx => ?_⟩
    obtain ⟨p, hp, hcarries⟩ := hvalue i x hx
    rw [htable hlen i x hx] at hp
    exact (carries_iff x.1 (stack i) (hnul x (List.mem_of_getElem? hx))).mp ⟨p, hp, hcarries⟩
  · rintro ⟨hlen, hkept⟩
    refine ⟨fun i hi => ?_, fun i x hx => ?_⟩
    · rw [hcount, countP_range' hlen hi]
    · rw [htable hlen i x hx]
      exact (carries_iff x.1 (stack i) (hnul x (List.mem_of_getElem? hx))).mpr (hkept i x hx)

/-- A number, a zero with a column size and a text. -/
def threeValues : List (SQLParameter × SQLRETURN) :=
  [({ value := .arg (.int 5), sqlType := SQL_INTEGER }, 0),
    ({ value := .arg (.int 0), sqlType := SQL_INTEGER, colDef := 4 }, 0),
    ({ value := .arg (.string (ascii "ab")), sqlType := SQL_VARCHAR }, 0)]

theorem bound_values_iff_three :
    Carried threeValues (setBindParameter (fun _ => []) .fresh threeValues).1 fun _ => 0 := by
  refine (bound_values_iff (fun _ => []) threeValues (fun _ => 0) ?_ ?_).mpr ⟨by decide, ?_⟩
  · rintro x hx
    simp only [threeValues, List.mem_cons, List.not_mem_nil, or_false] at hx
    rcases hx with rfl | rfl | rfl <;> exact ⟨⟨_, rfl⟩, by decide⟩
  · rintro x hx s hs
    simp only [threeValues, List.mem_cons, List.not_mem_nil, or_false] at hx
    rcases hx with rfl | rfl | rfl
    · cases hs
    · cases hs
    · cases hs
      decide
  · rintro i x hx
    have hmem := List.mem_of_getElem? hx
    simp only [threeValues, List.mem_cons, List.not_mem_nil, or_false] at hmem
    rcases hmem with rfl | rfl | rfl
    · exact fun h => absurd h.1 (by decide)
    · exact fun h => absurd h.2 (by decide)
    · trivial

/-- The `float` 1.0. -/
def floatOne : List (SQLParameter × SQLRETURN) :=
  [({ value := .arg (.float 0x3F800000), sqlType := SQL_REAL, colDef := 7 }, 0)]

/-- The driver accepts it and reads 0.0, if it reads a number at all. -/
theorem bound_float_lost : (∀ x ∈ floatOne, Accepted x.1 x.2) ∧
    ∀ stack, ¬ Carried floatOne (setBindParameter (fun _ => []) .fresh floatOne).1 stack := by
  constructor
  · intro x hx
    rw [floatOne, List.mem_singleton] at hx
    subst hx
    exact ⟨⟨_, rfl⟩, by decide⟩
  · intro stack h
    obtain ⟨p, hp, hcarries⟩ := h.value 0 _ rfl
    have hvalue : ((setBindParameter (fun _ => []) .fresh floatOne).1.statement.parameters 1).map
        Parameter.value = some (.float 0x3F800000) := by decide
    rw [show BitVec.ofNat 16 (0 + 1) = 1 from rfl] at hp
    rw [hp] at hvalue
    rw [Option.some_inj.mp hvalue, Value.read] at hcarries
    split_ifs at hcarries <;> cases hcarries

end RabbitClient.OdbcStatement
