import RabbitClient.Library.CyclicTable
import RabbitClient.Odbc.Connect

/-!
`OdbcStatement`: parameters and columns bound one after the other, and the tables of bindings
the driver holds for the statement handle. A binding stays until its index is bound again;
binding a column to no address releases it.
-/
namespace RabbitClient.OdbcStatement

open OdbcConnect (SQLRETURN SQL_SUCCEEDED)

/-- `SQLUSMALLINT`, the index of a parameter or of a column. -/
abbrev Index := BitVec 16

abbrev SQLSMALLINT := BitVec 16

abbrev Address := BitVec 64

def SQL_C_CHAR : SQLSMALLINT := 1
def SQL_NUMERIC : SQLSMALLINT := 2
def SQL_DECIMAL : SQLSMALLINT := 3
def SQL_INTEGER : SQLSMALLINT := 4
def SQL_FLOAT : SQLSMALLINT := 6
def SQL_DOUBLE : SQLSMALLINT := 8
def SQL_VARCHAR : SQLSMALLINT := 12
def SQL_NO_DATA : SQLRETURN := 100

/-- The types of the values in memory. -/
inductive CType where
  | SQL_C_LONG
  | SQL_C_FLOAT
  | SQL_C_DOUBLE
  | SQL_C_CHAR
deriving DecidableEq

/-- What a parameter is bound to; floating point values by their bits. -/
inductive Value where
  | null
  | int (v : BitVec 32)
  /-- A `float` converted to the `double` that is stored. -/
  | float (v : BitVec 32)
  | double (v : BitVec 64)
  | text (v : CString)
deriving DecidableEq

/-- The arguments of `SQLBindParameter` that describe a value. -/
structure Parameter where
  ValueType : CType
  ParameterType : SQLSMALLINT
  ColumnSize : Nat
  DecimalDigits : SQLSMALLINT
  value : Value
  BufferLength : Nat
deriving DecidableEq

/-- Where the driver reports the length: the static variable of an overload, or the caller's. -/
inductive Indicator where
  | orind
  | caller (strLenOrInd : Option Address)
deriving DecidableEq

/-- The arguments of `SQLBindCol` that describe a target. -/
structure Column where
  TargetType : SQLSMALLINT
  TargetValuePtr : Address
  BufferLength : Int
  StrLen_or_Ind : Indicator
deriving DecidableEq

structure Statement where
  numRowsFetched_ : Int := -1
  columnsBind_ : Index := 0
  fetchRowsSize_ : Int := 1
  sizeModel_ : Nat := 0
  /-- The size of `param_values_`. -/
  param_values_ : Nat := 0
  /-- The driver's tables for the statement handle. -/
  parameters : Index → Option Parameter := fun _ => none
  columns : Index → Option Column := fun _ => none
  /-- `SQL_ATTR_ROW_BIND_TYPE`, where 0 is `SQL_BIND_BY_COLUMN`. -/
  rowBindType : Nat := 0
  rowArraySize : Int := 1
  /-- `SQL_ATTR_ROWS_FETCHED_PTR` points to `numRowsFetched_`. -/
  rowsFetchedPtr : Bool := false

/-- A value given to one of the overloads of `addParameter`. -/
inductive Arg where
  | int (v : BitVec 32)
  | float (v : BitVec 32)
  | double (v : BitVec 64)
  | chars (szvalue : Option CString)
  | string (svalue : Bytes)
deriving DecidableEq

/-- The two zeros compare equal to 0.0. -/
def isZero {n : Nat} (v : BitVec n) : Bool := v <<< 1 = 0

/-- The number overloads: zero without a column size stands for NULL. -/
def numberParameter (ValueType : CType) (value : Value) (zero : Bool) (size : Nat)
    (sqlType : SQLSMALLINT) (colDef : Nat) (colScale : SQLSMALLINT) : Parameter :=
  if zero && colDef = 0 then ⟨ValueType, sqlType, 0, 0, .null, 0⟩
  else ⟨ValueType, sqlType, colDef, colScale, value, size⟩

def intParameter (ivalue : BitVec 32) : SQLSMALLINT → Nat → SQLSMALLINT → Parameter :=
  numberParameter .SQL_C_LONG (.int ivalue) (ivalue = 0) 4

def floatParameter (dvalue : BitVec 32) : SQLSMALLINT → Nat → SQLSMALLINT → Parameter :=
  numberParameter .SQL_C_FLOAT (.float dvalue) (isZero dvalue) 4

def doubleParameter (dvalue : BitVec 64) : SQLSMALLINT → Nat → SQLSMALLINT → Parameter :=
  numberParameter .SQL_C_DOUBLE (.double dvalue) (isZero dvalue) 8

def charsParameter (szvalue : Option CString) (sqlType : SQLSMALLINT) (colDef : Nat)
    (colScale : SQLSMALLINT) : Parameter :=
  match szvalue with
  | none => ⟨.SQL_C_CHAR, sqlType, 0, 0, .null, 0⟩
  | some s =>
    let MYSIZE := s.val.length + 1
    let colDef := if colDef = 0 then MYSIZE else colDef
    ⟨.SQL_C_CHAR, sqlType, colDef, colScale, .text s, MYSIZE - 1⟩

/-- An empty string without a column size is a typed NULL for some types. -/
def stringParameter (svalue : Bytes) (sqlType : SQLSMALLINT) (colDef : Nat)
    (colScale : SQLSMALLINT) : Parameter :=
  let colDef := if colDef = 0 then svalue.length else colDef
  if colDef = 0 && sqlType = SQL_INTEGER then intParameter 0 sqlType 0 colScale
  else if colDef = 0 && sqlType = SQL_FLOAT then doubleParameter 0 sqlType 0 colScale
  else if colDef = 0 && sqlType = SQL_DOUBLE then doubleParameter 0 sqlType 0 colScale
  else if colDef = 0 && sqlType = SQL_NUMERIC then charsParameter none sqlType 0 colScale
  else if colDef = 0 && sqlType = SQL_DECIMAL then charsParameter none sqlType 0 colScale
  else if colDef = 0 && sqlType = SQL_VARCHAR then charsParameter none sqlType 0 colScale
  else charsParameter (some ⟨Bytes.cstr svalue, Bytes.notMem_cstr svalue⟩) sqlType colDef colScale

def Arg.parameter : Arg → SQLSMALLINT → Nat → SQLSMALLINT → Parameter
  | .int v => intParameter v
  | .float v => floatParameter v
  | .double v => doubleParameter v
  | .chars szvalue => charsParameter szvalue
  | .string svalue => stringParameter svalue

/-- A pointer given to one of the overloads of `addBindColumn`; `none` is the null pointer. -/
inductive Target where
  | int (ptrValue : Option Address)
  | double (ptrValue : Option Address)
  | chars (ptrValue : Option Address) (length : Int)
  | charsInd (ptrValue : Option Address) (length : Int) (strLenOrInd : Option Address)
deriving DecidableEq

/-- What `SQLBindCol` makes of it: a binding, or its release. -/
def Target.column : Target → Option Column
  | .int ptrValue => ptrValue.map fun p => ⟨SQL_INTEGER, p, 4, .orind⟩
  | .double ptrValue => ptrValue.map fun p => ⟨SQL_DOUBLE, p, 8, .orind⟩
  | .chars ptrValue length => ptrValue.map fun p => ⟨SQL_C_CHAR, p, length, .orind⟩
  | .charsInd ptrValue length strLenOrInd =>
    ptrValue.map fun p => ⟨SQL_C_CHAR, p, length, .caller strLenOrInd⟩

def prepareFetch (s : Statement) : Statement :=
  { s with rowBindType := s.sizeModel_, rowArraySize := s.fetchRowsSize_ }

/-- The index is the new size of `param_values_`. A binding that fails throws after that. -/
def addParameter (s : Statement) (p : Parameter) (ret : SQLRETURN) :
    Statement × Except SQLRETURN Unit :=
  let n := s.param_values_ + 1
  ({ s with
      param_values_ := n
      parameters := CyclicTable.write s.parameters (.ofNat 16 n)
        (if SQL_SUCCEEDED ret then some (some p) else none) },
    if SQL_SUCCEEDED ret then .ok () else .error ret)

/-- The driver's answer is ignored. -/
def addBindColumn (s : Statement) (target : Target) (ret : SQLRETURN) : Statement :=
  let s := if 0 ≤ s.numRowsFetched_ then prepareFetch s else s
  let columnsBind_ := s.columnsBind_ + 1#16
  { s with
    columnsBind_ := columnsBind_
    columns := CyclicTable.write s.columns columnsBind_
      (if SQL_SUCCEEDED ret then some target.column else none) }

def setFetchRowsSize (s : Statement) (fetchRowsSize : Int) (sizeModel : Nat) : Statement :=
  { s with fetchRowsSize_ := fetchRowsSize, sizeModel_ := sizeModel }

def executeDirect (s : Statement) (retcode : SQLRETURN) : Statement × Bool :=
  let s := { s with rowsFetchedPtr := true }
  if retcode ≠ SQL_NO_DATA && !SQL_SUCCEEDED retcode then (s, false)
  else
    let sucess := retcode = OdbcConnect.SQL_SUCCESS_WITH_INFO || SQL_SUCCEEDED retcode
    (if sucess && s.columnsBind_ ≠ 0 then prepareFetch s else s, sucess)

/-- The driver writes the number of rows where it was told to. -/
def fetchNext (s : Statement) (ret : SQLRETURN) (rows : Int) : Statement × Bool :=
  let s := if s.rowsFetchedPtr then { s with numRowsFetched_ := rows } else s
  if ret = SQL_NO_DATA then (s, false)
  else if !SQL_SUCCEEDED ret then (s, false)
  else (s, true)

def clearParameters (s : Statement) : Statement :=
  { s with param_values_ := 0, numRowsFetched_ := -1, sizeModel_ := 0, fetchRowsSize_ := 1 }

/-- The calls that prepare an execution, with the driver's answers. -/
inductive Call where
  | addParameter (arg : Arg) (sqlType : SQLSMALLINT) (colDef : Nat) (colScale : SQLSMALLINT)
      (ret : SQLRETURN)
  | addBindColumn (target : Target) (ret : SQLRETURN)
  | setFetchRowsSize (fetchRowsSize : Int) (sizeModel : Nat)
deriving DecidableEq

/-- All calls of a statement's history. -/
inductive Op where
  | call (c : Call)
  | executeDirect (retcode : SQLRETURN)
  | fetchNext (ret : SQLRETURN) (rows : Int)
  | clearParameters
deriving DecidableEq

def Call.apply (s : Statement) : Call → Statement
  | .addParameter arg sqlType colDef colScale ret =>
    (OdbcStatement.addParameter s (arg.parameter sqlType colDef colScale) ret).1
  | .addBindColumn target ret => OdbcStatement.addBindColumn s target ret
  | .setFetchRowsSize fetchRowsSize sizeModel =>
    OdbcStatement.setFetchRowsSize s fetchRowsSize sizeModel

def Op.apply (s : Statement) : Op → Statement
  | .call c => c.apply s
  | .executeDirect retcode => (OdbcStatement.executeDirect s retcode).1
  | .fetchNext ret rows => (OdbcStatement.fetchNext s ret rows).1
  | .clearParameters => OdbcStatement.clearParameters s

def prepare (s : Statement) (calls : List Call) : Statement := calls.foldl Call.apply s

def run (s : Statement) (ops : List Op) : Statement := ops.foldl Op.apply s

end RabbitClient.OdbcStatement
