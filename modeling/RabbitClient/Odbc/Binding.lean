import RabbitClient.Odbc.Statement
import RabbitClient.StringUtils.ToStringJson

/-!
`setBindParameter` and the overloads of `addParameter`, with the memory they keep for the driver
and the texts they keep for `getParameters`.
-/
namespace RabbitClient.OdbcStatement

open Bytes
open OdbcConnect (SQLRETURN SQL_SUCCEEDED)

def SQL_UNKNOWN_TYPE : SQLSMALLINT := 0
def SQL_CHAR : SQLSMALLINT := 1
def SQL_SMALLINT : SQLSMALLINT := 5
def SQL_REAL : SQLSMALLINT := 7
def SQL_DATETIME : SQLSMALLINT := 9
def SQL_TYPE_DATE : SQLSMALLINT := 91
def SQL_TYPE_TIME : SQLSMALLINT := 92
def SQL_TYPE_TIMESTAMP : SQLSMALLINT := 93
def SQL_BIGINT : SQLSMALLINT := -5

def DESC_SQL_TYPES : List (SQLSMALLINT × Bytes) :=
  [(SQL_UNKNOWN_TYPE, ascii "SQL_UNKNOWN_TYPE"), (SQL_CHAR, ascii "SQL_CHAR"),
    (SQL_NUMERIC, ascii "SQL_NUMERIC"), (SQL_DECIMAL, ascii "SQL_DECIMAL"),
    (SQL_INTEGER, ascii "SQL_INTEGER"), (SQL_SMALLINT, ascii "SQL_SMALLINT"),
    (SQL_FLOAT, ascii "SQL_FLOAT"), (SQL_REAL, ascii "SQL_REAL"),
    (SQL_DOUBLE, ascii "SQL_DOUBLE"), (SQL_DATETIME, ascii "SQL_DATETIME"),
    (SQL_VARCHAR, ascii "SQL_VARCHAR"), (SQL_TYPE_DATE, ascii "SQL_TYPE_DATE"),
    (SQL_TYPE_TIME, ascii "SQL_TYPE_TIME"), (SQL_TYPE_TIMESTAMP, ascii "SQL_TYPE_TIMESTAMP"),
    (SQL_BIGINT, ascii "SQL_BIGINT")]

def fn_desc_SQL_TYPES (value : SQLSMALLINT) : Bytes := (DESC_SQL_TYPES.lookup value).getD []

/-- Exponent and fraction of a `float` as those of a `double`. -/
def widened (exponent fraction : Nat) : Nat :=
  if exponent = 0 then
    if fraction = 0 then 0
    else
      (fraction.log2 + 874) * 2 ^ 52 + (fraction - 2 ^ fraction.log2) * 2 ^ (52 - fraction.log2)
  else if exponent = 255 then
    -- an infinity, or a number that is not one, which becomes quiet
    2047 * 2 ^ 52 + if fraction = 0 then 0 else 2 ^ 51 + fraction % 2 ^ 22 * 2 ^ 29
  else (exponent + 896) * 2 ^ 52 + fraction * 2 ^ 29

/-- The conversion of a `float` to a `double`, by their bits. -/
def floatToDouble (v : BitVec 32) : BitVec 64 :=
  .ofNat 64 (v.toNat / 2 ^ 31 * 2 ^ 63 + widened (v.toNat / 2 ^ 23 % 2 ^ 8) (v.toNat % 2 ^ 23))

-- one and a half, and the smallest number above zero
example : floatToDouble 0x3FC00000 = 0x3FF8000000000000 ∧
    floatToDouble 1 = 0x36A0000000000000 := by decide

/-- The overload that the one for strings calls, with the column size it passes on. -/
def stringOverload (svalue : Bytes) (sqlType : SQLSMALLINT) (colDef : Nat) : Arg × Nat :=
  let colDef := if colDef = 0 then svalue.length else colDef
  if colDef = 0 && sqlType = SQL_INTEGER then (.int 0, 0)
  else if colDef = 0 && sqlType = SQL_FLOAT then (.double 0, 0)
  else if colDef = 0 && sqlType = SQL_DOUBLE then (.double 0, 0)
  else if colDef = 0 && sqlType = SQL_NUMERIC then (.chars none, 0)
  else if colDef = 0 && sqlType = SQL_DECIMAL then (.chars none, 0)
  else if colDef = 0 && sqlType = SQL_VARCHAR then (.chars none, 0)
  else (.chars (some ⟨cstr svalue, notMem_cstr svalue⟩), colDef)

def Arg.overload (arg : Arg) (sqlType : SQLSMALLINT) (colDef : Nat) : Arg × Nat :=
  match arg with
  | .string svalue => stringOverload svalue sqlType colDef
  | arg => (arg, colDef)

/-- The overload binds what the strings' overload is said to bind. -/
theorem parameter_overload (arg : Arg) (sqlType : SQLSMALLINT) (colDef : Nat)
    (colScale : SQLSMALLINT) :
    (arg.overload sqlType colDef).1.parameter sqlType (arg.overload sqlType colDef).2 colScale =
      arg.parameter sqlType colDef colScale := by
  cases arg with
  | string svalue =>
    simp only [Arg.overload, stringOverload, Arg.parameter, stringParameter]
    generalize (if colDef = 0 then svalue.length else colDef) = size
    split_ifs <;> rfl
  | _ => rfl

/-- The values an overload copies. -/
def Arg.ints : Arg → List (BitVec 32)
  | .int v => [v]
  | _ => []

def Arg.doubles : Arg → List (BitVec 64)
  | .float v => [floatToDouble v]
  | .double v => [v]
  | _ => []

def Arg.strs : Arg → List CString
  | .chars (some s) => [s]
  | _ => []

/-- The text of a value, none for NULL; `to_string` prints a `double`. -/
def Arg.valueText (to_string : BitVec 64 → Bytes) (colDef : Nat) : Arg → Option Bytes
  | .int v => if v = 0 ∧ colDef = 0 then none else some (StringUtils.signed v.toInt)
  | .float v =>
    if isZero v ∧ colDef = 0 then none else some (to_string (floatToDouble v))
  | .double v => if isZero v ∧ colDef = 0 then none else some (to_string v)
  | .chars szvalue => szvalue.map Subtype.val
  | .string svalue => some svalue

def parameterText (sqlType : SQLSMALLINT) (value : Option Bytes) : Bytes :=
  ascii "\x7b" ++ fn_desc_SQL_TYPES sqlType ++ ascii ": " ++ value.getD (ascii "null") ++
    ascii "\x7d"

/-- A statement with what its parameters keep in memory. -/
structure Bindings where
  statement : Statement
  param_int_ : List (BitVec 32)
  param_double_ : List (BitVec 64)
  param_str_ : List CString
  param_values_ : List Bytes
  size_eq : param_values_.length = statement.param_values_
  /-- The calls of `SQLBindParameter` so far. -/
  calls : List (Index × Parameter)

def Bindings.fresh : Bindings where
  statement := {}
  param_int_ := []
  param_double_ := []
  param_str_ := []
  param_values_ := []
  size_eq := rfl
  calls := []

inductive Exception where
  | bind (ret : SQLRETURN)
  | unknownType (name : Bytes) (idx : Nat)
deriving DecidableEq

/-- `addParameter`; everything is kept before the driver is asked. -/
def Bindings.addParameter (to_string : BitVec 64 → Bytes) (b : Bindings) (arg : Arg)
    (sqlType : SQLSMALLINT) (colDef : Nat) (colScale : SQLSMALLINT) (ret : SQLRETURN) :
    Bindings × Except Exception Unit :=
  let (called, size) := arg.overload sqlType colDef
  let p := called.parameter sqlType size colScale
  let text := parameterText sqlType (called.valueText to_string size)
  ({ statement := (OdbcStatement.addParameter b.statement p ret).1
     param_int_ := b.param_int_ ++ called.ints
     param_double_ := b.param_double_ ++ called.doubles
     param_str_ := b.param_str_ ++ called.strs
     param_values_ := b.param_values_ ++ [text]
     size_eq := by rw [List.length_append, b.size_eq]; rfl
     calls := b.calls ++ [(.ofNat 16 (b.param_values_.length + 1), p)] },
    if SQL_SUCCEEDED ret then .ok () else .error (.bind ret))

/-- A `std::any`, of one of the five types or of another one. -/
inductive AnyValue where
  | arg (a : Arg)
  | other (name : Bytes)
deriving DecidableEq

structure SQLParameter where
  value : AnyValue
  sqlType : SQLSMALLINT := SQL_CHAR
  colDef : Nat := 0
  colScale : SQLSMALLINT := 0
deriving DecidableEq

/-- The SQL type of a number if none is given. -/
def Arg.sqlType (sqlType : SQLSMALLINT) : Arg → SQLSMALLINT
  | .int _ => if sqlType = SQL_UNKNOWN_TYPE then SQL_INTEGER else sqlType
  | .float _ => if sqlType = SQL_UNKNOWN_TYPE then SQL_FLOAT else sqlType
  | .double _ => if sqlType = SQL_UNKNOWN_TYPE then SQL_DOUBLE else sqlType
  | _ => sqlType

/-- One turn of the loop of `setBindParameter`, with the driver's answer. -/
def bindOne (to_string : BitVec 64 → Bytes) (b : Bindings) (it : SQLParameter)
    (ret : SQLRETURN) : Bindings × Except Exception Unit :=
  match it.value with
  | .arg a => b.addParameter to_string a (a.sqlType it.sqlType) it.colDef it.colScale ret
  | .other name => (b, .error (.unknownType name b.param_values_.length))

/-- `setBindParameter`, with one answer of the driver for each parameter. -/
def setBindParameter (to_string : BitVec 64 → Bytes) :
    Bindings → List (SQLParameter × SQLRETURN) → Bindings × Except Exception Unit
  | b, [] => (b, .ok ())
  | b, (it, ret) :: parameters =>
    match bindOne to_string b it ret with
    | (b', .ok ()) => setBindParameter to_string b' parameters
    | (b', .error e) => (b', .error e)

end RabbitClient.OdbcStatement
