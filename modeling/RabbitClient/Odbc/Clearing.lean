import RabbitClient.Odbc.Statement

/-! What is bound after `clearParameters`, compared with a new statement. -/
namespace RabbitClient.OdbcStatement

open OdbcConnect (SQLRETURN SQL_SUCCEEDED)

/-- The write of an `addParameter`; `none` inside when the driver has refused it. -/
def Call.parameterWrite : Call → Option (Option (Option Parameter))
  | .addParameter arg sqlType colDef colScale ret =>
    some (if SQL_SUCCEEDED ret then some (some (arg.parameter sqlType colDef colScale)) else none)
  | _ => none

def Call.columnWrite : Call → Option (Option (Option Column))
  | .addBindColumn target ret => some (if SQL_SUCCEEDED ret then some target.column else none)
  | _ => none

/-- What the calls bind to the parameters, numbered from 1. -/
def boundParameters (calls : List Call) : Index → Option (Option Parameter) :=
  CyclicTable.written 0 (calls.filterMap Call.parameterWrite)

/-- What the calls bind to the columns, or release, numbered from 1. -/
def boundColumns (calls : List Call) : Index → Option (Option Column) :=
  CyclicTable.written 0 (calls.filterMap Call.columnWrite)

variable {s : Statement} {calls : List Call}

@[simp] theorem addBindColumn_parameters (s : Statement) (target : Target) (ret : SQLRETURN) :
    (addBindColumn s target ret).parameters = s.parameters := by
  simp only [addBindColumn]
  split <;> rfl

@[simp] theorem addBindColumn_param_values_ (s : Statement) (target : Target) (ret : SQLRETURN) :
    (addBindColumn s target ret).param_values_ = s.param_values_ := by
  simp only [addBindColumn]
  split <;> rfl

@[simp] theorem addBindColumn_columnsBind_ (s : Statement) (target : Target) (ret : SQLRETURN) :
    (addBindColumn s target ret).columnsBind_ = s.columnsBind_ + 1#16 := by
  simp only [addBindColumn]
  split <;> rfl

@[simp] theorem addBindColumn_columns (s : Statement) (target : Target) (ret : SQLRETURN) :
    (addBindColumn s target ret).columns =
      CyclicTable.write s.columns (s.columnsBind_ + 1#16)
        (if SQL_SUCCEEDED ret then some target.column else none) := by
  simp only [addBindColumn]
  split <;> rfl

theorem prepare_parameters : (prepare s calls).parameters =
    CyclicTable.writeFrom s.parameters (.ofNat 16 s.param_values_)
      (calls.filterMap Call.parameterWrite) := by
  induction calls generalizing s with
  | nil => rfl
  | cons c calls ih =>
    have hrest := ih (s := c.apply s)
    cases c with
    | addParameter arg sqlType colDef colScale ret =>
      have hnext : BitVec.ofNat 16 (s.param_values_ + 1) =
          BitVec.ofNat 16 s.param_values_ + 1#16 := BitVec.ofNat_add ..
      simp only [List.filterMap_cons, Call.parameterWrite, CyclicTable.writeFrom]
      rw [← hnext]
      exact hrest
    | addBindColumn target ret =>
      simp only [Call.apply, addBindColumn_parameters, addBindColumn_param_values_] at hrest
      exact hrest
    | setFetchRowsSize fetchRowsSize sizeModel => exact hrest

theorem prepare_columns : (prepare s calls).columns =
    CyclicTable.writeFrom s.columns s.columnsBind_ (calls.filterMap Call.columnWrite) := by
  induction calls generalizing s with
  | nil => rfl
  | cons c calls ih =>
    have hrest := ih (s := c.apply s)
    cases c with
    | addBindColumn target ret =>
      simp only [Call.apply, addBindColumn_columns, addBindColumn_columnsBind_] at hrest
      exact hrest
    | addParameter arg sqlType colDef colScale ret => exact hrest
    | setFetchRowsSize fetchRowsSize sizeModel => exact hrest

/-- The bindings in force after the calls, at each parameter and at each column. -/
theorem prepare_parameters_apply (hp : s.param_values_ = 0) (i : Index) :
    (prepare s calls).parameters i = (boundParameters calls i).getD (s.parameters i) := by
  rw [prepare_parameters, CyclicTable.writeFrom_apply, hp]
  rfl

theorem prepare_columns_apply (i : Index) : (prepare s calls).columns i =
    (boundColumns calls (i - s.columnsBind_)).getD (s.columns i) := by
  rw [prepare_columns, CyclicTable.writeFrom_apply, CyclicTable.written_cursor]
  rfl

/-- The same values at the same parameters, the same targets at the same columns. -/
def SameBindings (s t : Statement) : Prop :=
  s.parameters = t.parameters ∧ s.columns = t.columns

/-- What the calls after `clearParameters` have to make up for: every parameter and every column
still bound is written again, and numbering the columns from `columnsBind_` instead of from 0,
modulo 65536, makes no difference. -/
structure Rebinds (s : Statement) (calls : List Call) : Prop where
  parameters : ∀ i, (s.parameters i).isSome = true → (boundParameters calls i).isSome = true
  columns : ∀ i, (s.columns i).isSome = true →
    (boundColumns calls (i - s.columnsBind_)).isSome = true
  numbering : ∀ i, (boundColumns calls (i - s.columnsBind_)).join = (boundColumns calls i).join

theorem cleared_parameters_iff :
    (prepare (clearParameters s) calls).parameters = (prepare {} calls).parameters ↔
      ∀ i, (s.parameters i).isSome = true → (boundParameters calls i).isSome = true := by
  have hcleared : ∀ i, (prepare (clearParameters s) calls).parameters i =
      (boundParameters calls i).getD (s.parameters i) := fun i => prepare_parameters_apply rfl i
  have hnew : ∀ i, (prepare {} calls).parameters i = (boundParameters calls i).getD none :=
    fun i => prepare_parameters_apply rfl i
  simp only [funext_iff, hcleared, hnew]
  refine forall_congr' fun i => ?_
  cases boundParameters calls i with
  | some p => simp
  | none => simp

/-- A place where a new statement has no column binding is one where the cleared one has none;
going back by the old number of columns does not leave these places. -/
theorem cleared_columns_iff :
    (prepare (clearParameters s) calls).columns = (prepare {} calls).columns ↔
      (∀ i, (s.columns i).isSome = true →
        (boundColumns calls (i - s.columnsBind_)).isSome = true) ∧
      ∀ i, (boundColumns calls (i - s.columnsBind_)).join = (boundColumns calls i).join := by
  have hcleared : ∀ i, (prepare (clearParameters s) calls).columns i =
      (boundColumns calls (i - s.columnsBind_)).getD (s.columns i) :=
    fun i => prepare_columns_apply i
  have hnew : ∀ i, (prepare {} calls).columns i = (boundColumns calls i).join := by
    intro i
    have hz : (prepare {} calls).columns i =
        (boundColumns calls (i - ({} : Statement).columnsBind_)).getD none :=
      prepare_columns_apply i
    have hi : i - ({} : Statement).columnsBind_ = i := BitVec.sub_zero i
    rw [hi] at hz
    rw [hz]
    cases boundColumns calls i <;> rfl
  simp only [funext_iff, hcleared, hnew]
  constructor
  · intro h
    have hback : ∀ i, (boundColumns calls i).join = none →
        (boundColumns calls (i - s.columnsBind_)).join = none := by
      intro i hi
      have hi' := h i
      rw [hi] at hi'
      cases hb : boundColumns calls (i - s.columnsBind_) with
      | none => rfl
      | some x =>
        rw [hb] at hi'
        exact hi'
    have hforth : ∀ i, (boundColumns calls (i - s.columnsBind_)).join = none →
        (boundColumns calls i).join = none := fun i hi =>
      CyclicTable.mem_of_sub_mem (S := {i | (boundColumns calls i).join = none}) hback hi
    refine ⟨?_, ?_⟩
    · intro i hold
      cases hb : boundColumns calls (i - s.columnsBind_) with
      | some x => rfl
      | none =>
        have hi := h i
        rw [hb, hforth i (by rw [hb]; rfl)] at hi
        have hnone : s.columns i = none := hi
        rw [hnone] at hold
        contradiction
    · intro i
      cases hb : boundColumns calls (i - s.columnsBind_) with
      | some x =>
        have hi := h i
        rw [hb] at hi
        exact hi
      | none => exact (hforth i (by rw [hb]; rfl)).symm
  · rintro ⟨hold, hnum⟩ i
    rw [← hnum i]
    cases hb : boundColumns calls (i - s.columnsBind_) with
    | some x => rfl
    | none =>
      have hnone : s.columns i = none := by
        rw [← Option.not_isSome_iff_eq_none]
        intro hsome
        have hb' := hold i hsome
        rw [hb] at hb'
        contradiction
      exact hnone

/-- After `clearParameters` the bindings are those of a new statement exactly when the calls that
follow write everything that is still bound and do not depend on where the columns start. -/
theorem cleared_like_new_iff (history : List Op) (calls : List Call) :
    SameBindings (prepare (clearParameters (run {} history)) calls) (prepare {} calls) ↔
      Rebinds (run {} history) calls := by
  rw [SameBindings, cleared_parameters_iff, cleared_columns_iff]
  constructor
  · rintro ⟨hp, hc, hn⟩
    exact ⟨hp, hc, hn⟩
  · intro h
    exact ⟨h.parameters, h.columns, h.numbering⟩

/-- A column bound last before `clearParameters` stays bound beyond the new ones, unless the
calls that follow bind more than 65535 columns. -/
theorem not_rebinds_of_column (hlast : (s.columns s.columnsBind_).isSome = true)
    (hfew : (calls.filterMap Call.columnWrite).length < 2 ^ 16) : ¬ Rebinds s calls := by
  intro h
  have hzero := h.columns _ hlast
  have hnone : boundColumns calls 0#16 = none :=
    CyclicTable.written_of_le (by simpa using hfew) (Nat.le_refl _)
  rw [BitVec.sub_self, hnone] at hzero
  contradiction

/-- One column is read, then another one after `clearParameters`: the second becomes column 2,
and the first one is still bound. -/
theorem cleared_unlike_new :
    ¬ SameBindings
      (prepare (clearParameters
        (run {} [.call (.addBindColumn (.int (some 1000)) 0), .executeDirect 0]))
        [.addBindColumn (.int (some 2000)) 0])
      (prepare {} [.addBindColumn (.int (some 2000)) 0]) := by
  rintro ⟨_, hc⟩
  have hone := congrFun hc 1
  have hold : (prepare (clearParameters
      (run {} [.call (.addBindColumn (.int (some 1000)) 0), .executeDirect 0]))
      [.addBindColumn (.int (some 2000)) 0]).columns 1 =
        some ⟨SQL_INTEGER, 1000, 4, .orind⟩ := by decide
  have hnew : (prepare {} [.addBindColumn (.int (some 2000)) 0]).columns 1 =
      some ⟨SQL_INTEGER, 2000, 4, .orind⟩ := by decide
  rw [hold, hnew] at hone
  exact absurd hone (by decide)

end RabbitClient.OdbcStatement
