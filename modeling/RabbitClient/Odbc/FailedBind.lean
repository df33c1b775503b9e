import RabbitClient.Odbc.Binding

/-! What a call of `addParameter` or `setBindParameter` that throws leaves behind. -/
namespace RabbitClient.OdbcStatement

open OdbcConnect (SQLRETURN SQL_SUCCEEDED)

variable (to_string : BitVec 64 → Bytes) {it : SQLParameter} {ret : SQLRETURN}
  {parameters : List (SQLParameter × SQLRETURN)}

/-- The texts, the values in memory and the next index are as before. -/
structure Unchanged (b b' : Bindings) : Prop where
  getParameters : b'.param_values_ = b.param_values_
  ints : b'.param_int_ = b.param_int_
  doubles : b'.param_double_ = b.param_double_
  strs : b'.param_str_ = b.param_str_
  index : b'.statement.param_values_ = b.statement.param_values_

/-- If the call throws, nothing has changed. -/
def FailsClean (b : Bindings) (r : Bindings × Except Exception Unit) : Prop :=
  ∀ e, r.2 = .error e → Unchanged b r.1

/-- The type of the value is one of the five, and the driver accepts the binding. -/
def Accepted (it : SQLParameter) (ret : SQLRETURN) : Prop :=
  (∃ a, it.value = .arg a) ∧ SQL_SUCCEEDED ret

/-- The value is of another type. -/
def Unsupported (it : SQLParameter) : Prop := ∃ name, it.value = .other name

theorem unchanged_refl (b : Bindings) : Unchanged b b := ⟨rfl, rfl, rfl, rfl, rfl⟩

theorem addParameter_length (b : Bindings) (arg : Arg) (sqlType : SQLSMALLINT) (colDef : Nat)
    (colScale : SQLSMALLINT) (ret : SQLRETURN) :
    (b.addParameter to_string arg sqlType colDef colScale ret).1.param_values_.length =
      b.param_values_.length + 1 := by
  simp [Bindings.addParameter]

/-- The text is kept whether the driver accepts the value or not. -/
theorem addParameter_failsClean_iff (b : Bindings) (arg : Arg) (sqlType : SQLSMALLINT)
    (colDef : Nat) (colScale : SQLSMALLINT) (ret : SQLRETURN) :
    FailsClean b (b.addParameter to_string arg sqlType colDef colScale ret) ↔
      SQL_SUCCEEDED ret := by
  constructor
  · intro h
    by_contra hret
    have herr : (b.addParameter to_string arg sqlType colDef colScale ret).2 =
        .error (.bind ret) := by
      simp [Bindings.addParameter, hret]
    have hlen := addParameter_length to_string b arg sqlType colDef colScale ret
    rw [(h _ herr).getParameters] at hlen
    omega
  · intro hret e he
    simp [Bindings.addParameter, hret] at he

/-- A value of one of the five types leaves its text behind. -/
theorem bindOne_length {a : Arg} (b : Bindings) (h : it.value = .arg a) :
    (bindOne to_string b it ret).1.param_values_.length = b.param_values_.length + 1 := by
  simp only [bindOne, h]
  exact addParameter_length ..

theorem bindOne_of_accepted (b : Bindings) (h : Accepted it ret) :
    (bindOne to_string b it ret).2 = .ok () ∧
      (bindOne to_string b it ret).1.param_values_.length = b.param_values_.length + 1 := by
  obtain ⟨⟨a, ha⟩, hret⟩ := h
  refine ⟨?_, bindOne_length to_string b ha⟩
  simp [bindOne, ha, Bindings.addParameter, hret]

theorem bindOne_of_not_accepted (b : Bindings) (h : ¬ Accepted it ret) :
    ∃ e, (bindOne to_string b it ret).2 = .error e := by
  cases hv : it.value with
  | other name => exact ⟨.unknownType name b.param_values_.length, by simp [bindOne, hv]⟩
  | arg a =>
    have hret : ¬ SQL_SUCCEEDED ret := fun hret => h ⟨⟨a, hv⟩, hret⟩
    exact ⟨.bind ret, by simp [bindOne, hv, Bindings.addParameter, hret]⟩

/-- The loop goes on behind a value that was bound and stops behind one that was not. -/
theorem setBindParameter_cons (b : Bindings) (it : SQLParameter) (ret : SQLRETURN)
    (parameters : List (SQLParameter × SQLRETURN)) :
    (bindOne to_string b it ret).2 = .ok () ∧
      setBindParameter to_string b ((it, ret) :: parameters) =
        setBindParameter to_string (bindOne to_string b it ret).1 parameters ∨
    ∃ e, (bindOne to_string b it ret).2 = .error e ∧
      setBindParameter to_string b ((it, ret) :: parameters) =
        ((bindOne to_string b it ret).1, .error e) := by
  rw [setBindParameter]
  split
  · rename_i hb
    rw [hb]
    exact .inl ⟨rfl, rfl⟩
  · rename_i e hb
    rw [hb]
    exact .inr ⟨e, rfl, rfl⟩

theorem setBindParameter_of_accepted (b : Bindings) (h : Accepted it ret) :
    setBindParameter to_string b ((it, ret) :: parameters) =
      setBindParameter to_string (bindOne to_string b it ret).1 parameters := by
  obtain ⟨hok, -⟩ := bindOne_of_accepted to_string b h
  rcases setBindParameter_cons to_string b it ret parameters with ⟨-, heq⟩ | ⟨e, he, -⟩
  · exact heq
  · rw [he] at hok
    contradiction

/-- A list whose values are accepted one by one is bound without an exception. -/
theorem setBindParameter_ok (b : Bindings) (h : ∀ x ∈ parameters, Accepted x.1 x.2) :
    (setBindParameter to_string b parameters).2 = .ok () := by
  induction parameters generalizing b with
  | nil => rfl
  | cons x parameters ih =>
    obtain ⟨hx, hrest⟩ := List.forall_mem_cons.mp h
    rw [setBindParameter_of_accepted to_string b hx]
    exact ih _ hrest

/-- The list of texts never gets shorter. -/
theorem length_le_setBindParameter (b : Bindings)
    (parameters : List (SQLParameter × SQLRETURN)) :
    b.param_values_.length ≤ (setBindParameter to_string b parameters).1.param_values_.length := by
  induction parameters generalizing b with
  | nil => exact Nat.le_refl _
  | cons x parameters ih =>
    obtain ⟨it, ret⟩ := x
    have hone : b.param_values_.length ≤ (bindOne to_string b it ret).1.param_values_.length := by
      cases hv : it.value with
      | other name => simp [bindOne, hv]
      | arg a =>
        rw [bindOne_length to_string b hv]
        omega
    rcases setBindParameter_cons to_string b it ret parameters with ⟨-, heq⟩ | ⟨e, -, heq⟩
    · rw [heq]
      exact hone.trans (ih _)
    · rw [heq]
      exact hone

/-- A list whose first value has one of the five types leaves at least its text. -/
theorem length_lt_setBindParameter (b : Bindings) (h : ¬ Unsupported it) :
    b.param_values_.length <
      (setBindParameter to_string b ((it, ret) :: parameters)).1.param_values_.length := by
  cases hv : it.value with
  | other name => exact (h ⟨name, hv⟩).elim
  | arg a =>
    have hone : (bindOne to_string b it ret).1.param_values_.length =
        b.param_values_.length + 1 := bindOne_length to_string b hv
    rcases setBindParameter_cons to_string b it ret parameters with ⟨-, heq⟩ | ⟨e, -, heq⟩
    · have hrest := length_le_setBindParameter to_string (bindOne to_string b it ret).1 parameters
      rw [heq]
      omega
    · rw [heq]
      change b.param_values_.length < (bindOne to_string b it ret).1.param_values_.length
      omega

/-- Some value is not accepted, so the call throws. -/
theorem setBindParameter_error (b : Bindings) (h : ¬ ∀ x ∈ parameters, Accepted x.1 x.2) :
    ∃ e, (setBindParameter to_string b parameters).2 = .error e := by
  induction parameters generalizing b with
  | nil => exact (h (by simp)).elim
  | cons x parameters ih =>
    obtain ⟨it, ret⟩ := x
    by_cases hx : Accepted it ret
    · rw [setBindParameter_of_accepted to_string b hx]
      apply ih
      intro hrest
      exact h (List.forall_mem_cons.mpr ⟨hx, hrest⟩)
    · obtain ⟨e, he⟩ := bindOne_of_not_accepted to_string b hx
      rcases setBindParameter_cons to_string b it ret parameters with ⟨hok, -⟩ | ⟨e', -, heq⟩
      · rw [hok] at he
        contradiction
      · exact ⟨e', by rw [heq]⟩

theorem setBindParameter_failsClean_iff (b : Bindings)
    (parameters : List (SQLParameter × SQLRETURN)) :
    FailsClean b (setBindParameter to_string b parameters) ↔
      (∀ x ∈ parameters, Accepted x.1 x.2) ∨
        ∃ x rest, parameters = x :: rest ∧ Unsupported x.1 := by
  constructor
  · intro h
    by_cases hall : ∀ x ∈ parameters, Accepted x.1 x.2
    · exact .inl hall
    · right
      obtain ⟨e, he⟩ := setBindParameter_error to_string b hall
      have hlen := congrArg List.length (h e he).getParameters
      cases parameters with
      | nil => exact (hall (by simp)).elim
      | cons x parameters =>
        obtain ⟨it, ret⟩ := x
        refine ⟨(it, ret), parameters, rfl, ?_⟩
        by_contra hsupported
        exact absurd hlen.symm (length_lt_setBindParameter to_string b hsupported).ne
  · rintro (hall | ⟨⟨it, ret⟩, rest, rfl, name, hv⟩) e he
    · rw [setBindParameter_ok to_string b hall] at he
      contradiction
    · have hfirst : setBindParameter to_string b ((it, ret) :: rest) =
          (b, .error (.unknownType name b.param_values_.length)) := by
        simp [setBindParameter, bindOne, show it.value = .other name from hv]
      rw [hfirst]
      exact unchanged_refl b

/-- A failed call leaves the statement as it was only if nothing was bound before it failed: in
`addParameter` the driver's refusal comes too late, and in `setBindParameter` only the type of the
first value is looked at before anything is kept. -/
theorem failed_bind_unchanged_iff (b : Bindings) :
    (∀ parameters, FailsClean b (setBindParameter to_string b parameters) ↔
      (∀ x ∈ parameters, Accepted x.1 x.2) ∨
        ∃ x rest, parameters = x :: rest ∧ Unsupported x.1) ∧
    ∀ arg sqlType colDef colScale ret,
      FailsClean b (b.addParameter to_string arg sqlType colDef colScale ret) ↔
        SQL_SUCCEEDED ret :=
  ⟨setBindParameter_failsClean_iff to_string b, addParameter_failsClean_iff to_string b⟩

/-- A number, and a value of a type that is not supported. -/
def secondUnsupported : List (SQLParameter × SQLRETURN) :=
  [({ value := .arg (.int 5) }, 0), ({ value := .other [98] }, 0)]

/-- The number stays bound when the second value is refused. -/
theorem failed_bind_keeps_first :
    ¬ FailsClean .fresh (setBindParameter (fun _ => []) .fresh secondUnsupported) := by
  intro h
  have hunchanged := h (.unknownType [98] 1) rfl
  exact absurd hunchanged.index (by decide)

end RabbitClient.OdbcStatement
