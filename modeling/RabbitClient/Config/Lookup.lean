import RabbitClient.Library.Bytes
import Mathlib.Algebra.Group.Int.Defs

/-!
The lookups of `JSonUtils` in a parsed document, and those that `loadConfig` makes. An `Option`
is empty where a precondition of the JSON library is violated, which is an assertion there.
-/
namespace RabbitClient.JSonUtils

open Bytes

variable {Double : Type}

/-- `rapidjson::Value`; a number is an integer if it was written as one. -/
inductive Value (Double : Type) where
  | null
  | bool (b : Bool)
  | integer (n : Int)
  | double (x : Double)
  | string (s : Bytes)
  | array (elements : List (Value Double))
  | object (members : List (Bytes × Value Double))

/-- `FindMember` needs an object; it finds the first member of the name. -/
def Value.FindMember (c : Value Double) (s1 : CString) : Option (Option (Value Double)) :=
  match c with
  | .object members => some (members.lookup s1.val)
  | _ => none

def Value.HasMember (c : Value Double) (s1 : CString) : Option Bool :=
  (c.FindMember s1).map Option.isSome

/-- `operator[]` needs a member. -/
def Value.member (c : Value Double) (s1 : CString) : Option (Value Double) :=
  (c.FindMember s1).join

def Value.IsBool : Value Double → Bool
  | .bool _ => true
  | _ => false

def Value.IsString : Value Double → Bool
  | .string _ => true
  | _ => false

def Value.IsInt : Value Double → Bool
  | .integer n => -2 ^ 31 ≤ n && n < 2 ^ 31
  | _ => false

def Value.IsNumber : Value Double → Bool
  | .integer _ => true
  | .double _ => true
  | _ => false

def Value.GetBool : Value Double → Option Bool
  | .bool b => some b
  | _ => none

/-- The characters that `GetString` points to, as far as a C string goes. -/
def Value.GetString : Value Double → Option Bytes
  | .string s => some (cstr s)
  | _ => none

def Value.GetInt (c : Value Double) : Option Int32 :=
  match c with
  | .integer n => if c.IsInt then some (Int32.ofInt n) else none
  | _ => none

/-- `toDouble` converts an integer. -/
def Value.GetDouble (toDouble : Int → Double) : Value Double → Option Double
  | .integer n => some (toDouble n)
  | .double x => some x
  | _ => none

/-- The names of a call: one, two or three. -/
inductive Path where
  | one (s1 : CString)
  | two (s1 s2 : CString)
  | three (s1 s2 s3 : CString)
deriving DecidableEq

/-- `c[s1]`, `c[s1][s2]` or `c[s1][s2][s3]`. -/
def Value.sub (c : Value Double) : Path → Option (Value Double)
  | .one s1 => c.member s1
  | .two s1 s2 => do (← c.member s1).member s2
  | .three s1 s2 s3 => do (← (← c.member s1).member s2).member s3

def HAS_CONFIG (c : Value Double) : Path → Option Bool
  | .one s1 => c.HasMember s1
  | .two s1 s2 => do
    if ← c.HasMember s1 then (← c.member s1).HasMember s2 else return false
  | .three s1 s2 s3 => do
    if ← c.HasMember s1 then
      if ← (← c.member s1).HasMember s2 then
        (← (← c.member s1).member s2).HasMember s3
      else return false
    else return false

/-- The form of the lookups: the value if it is there and of the type, or else the default. -/
def getConfig {α : Type} (is : Value Double → Bool) (get : Value Double → Option α)
    (c : Value Double) (path : Path) (d : α) : Option α := do
  if ← HAS_CONFIG c path then
    if is (← c.sub path) then get (← c.sub path) else return d
  else return d

def GET_CONFIG_BOOL : Value Double → Path → Bool → Option Bool :=
  getConfig Value.IsBool Value.GetBool

def GET_CONFIG_STRING : Value Double → Path → Bytes → Option Bytes :=
  getConfig Value.IsString Value.GetString

def GET_CONFIG_INT : Value Double → Path → Int32 → Option Int32 :=
  getConfig Value.IsInt Value.GetInt

def GET_CONFIG_DOUBLE (toDouble : Int → Double) : Value Double → Path → Double → Option Double :=
  getConfig Value.IsNumber (Value.GetDouble toDouble)

/-- What `loadConfig` sets the logger to. -/
structure LoggerSettings where
  level : Bytes
  max_size : Int32
  max_files : Int32
deriving DecidableEq

def name (s : String) : CString := ⟨cstr (ascii s), notMem_cstr _⟩

def loggerLevel : Path := .two (name "logger") (name "level")

/-- `ConfigAgent::loadConfig` behind a successful parse. -/
def loadConfig (c : Value Double) : Option (Option LoggerSettings) := do
  if ← HAS_CONFIG c loggerLevel then
    let level ← GET_CONFIG_STRING c loggerLevel (ascii "info")
    let max_size ← GET_CONFIG_INT c (.two (name "logger") (name "max_size")) 250
    let max_files ← GET_CONFIG_INT c (.two (name "logger") (name "max_files")) 4
    return some ⟨level, max_size, max_files⟩
  else return none

def Path.names : Path → List CString
  | .one s1 => [s1]
  | .two s1 s2 => [s1, s2]
  | .three s1 s2 s3 => [s1, s2, s3]

/-- The value at a path, if the whole path exists. -/
def Value.at (c : Value Double) : List CString → Option (Value Double)
  | [] => some c
  | s :: names => do (← c.member s).at names

/-- The characters of a string. -/
def Value.text : Value Double → Option Bytes
  | .string s => some s
  | _ => none

/-- Every lookup returns the value at the path if it is of the type, and else the default. -/
structure Answers (toDouble : Int → Double) (c : Value Double) (path : Path) : Prop where
  has : HAS_CONFIG c path = some (c.at path.names).isSome
  bool : ∀ d, GET_CONFIG_BOOL c path d = some (((c.at path.names).bind Value.GetBool).getD d)
  string : ∀ d, GET_CONFIG_STRING c path d = some (((c.at path.names).bind Value.text).getD d)
  int : ∀ d, GET_CONFIG_INT c path d = some (((c.at path.names).bind Value.GetInt).getD d)
  double : ∀ d, GET_CONFIG_DOUBLE toDouble c path d =
    some (((c.at path.names).bind (Value.GetDouble toDouble)).getD d)

/-- The document is an object, and so is what the path leads to before its last name. -/
def Value.Passable (c : Value Double) : List CString → Prop
  | [] => True
  | s :: names =>
    match c with
    | .object members => ∀ v, members.lookup s.val = some v → v.Passable names
    | _ => False

variable {c v : Value Double} {path : Path} {names : List CString} {α : Type}
  {is : Value Double → Bool} {get : Value Double → Option α}

/-- The chain of `HasMember` along a path. -/
def Value.has (c : Value Double) : List CString → Option Bool
  | [] => some true
  | s :: names => do if ← c.HasMember s then (← c.member s).has names else return false

theorem HAS_CONFIG_eq (c : Value Double) (path : Path) : HAS_CONFIG c path = c.has path.names := by
  have hlast : ∀ (c : Value Double) (s : CString), c.has [s] = c.HasMember s := by
    intro c s
    cases c with
    | object members =>
      cases h : members.lookup s.val <;>
        simp [Value.has, Value.HasMember, Value.member, Value.FindMember, h]
    | _ => rfl
  cases path with
  | one s1 => exact (hlast c s1).symm
  | two s1 s2 =>
    simp only [HAS_CONFIG, Path.names]
    rw [Value.has]
    simp only [hlast]
  | three s1 s2 s3 =>
    have hrest : ∀ v : Value Double, v.has [s2, s3] = do
        if ← v.HasMember s2 then (← v.member s2).HasMember s3 else return false := by
      intro v
      rw [Value.has]
      simp only [hlast]
    simp only [HAS_CONFIG, Path.names]
    rw [Value.has]
    simp only [hrest]
    cases c.member s1 with
    | none => rfl
    | some v => rfl

theorem sub_eq (c : Value Double) (path : Path) : c.sub path = c.at path.names := by
  cases path <;> simp [Value.sub, Path.names, Value.at]

/-- On a path that can be passed nothing is asked of a value that is no object. -/
theorem has_of_passable (h : c.Passable names) : c.has names = some (c.at names).isSome := by
  induction names generalizing c with
  | nil => rfl
  | cons s names ih =>
    cases c with
    | object members =>
      rw [Value.Passable] at h
      cases hv : members.lookup s.val with
      | none => simp [Value.has, Value.at, Value.HasMember, Value.member, Value.FindMember, hv]
      | some v =>
        simp [Value.has, Value.at, Value.HasMember, Value.member, Value.FindMember, hv,
          ih (h v hv)]
    | _ => exact h.elim

theorem has_of_not_passable (h : ¬ c.Passable names) : c.has names = none := by
  induction names generalizing c with
  | nil => exact (h trivial).elim
  | cons s names ih =>
    cases c with
    | object members =>
      rw [Value.Passable, not_forall] at h
      obtain ⟨v, hv⟩ := h
      obtain ⟨hv, hpass⟩ := Classical.not_imp.mp hv
      simp [Value.has, Value.HasMember, Value.member, Value.FindMember, hv, ih hpass]
    | _ => rfl

theorem getConfig_of_passable (h : c.Passable path.names) (hget : ∀ v, is v = (get v).isSome)
    (d : α) : getConfig is get c path d = some (((c.at path.names).bind get).getD d) := by
  simp only [getConfig, HAS_CONFIG_eq, sub_eq, has_of_passable h]
  cases hv : c.at path.names with
  | none => rfl
  | some v =>
    have his := hget v
    cases hg : get v with
    | none => simp [his, hg]
    | some x => simp [his, hg]

theorem getBool_isSome (v : Value Double) : v.IsBool = v.GetBool.isSome := by
  cases v <;> rfl

theorem getString_isSome (v : Value Double) : v.IsString = v.GetString.isSome := by
  cases v <;> rfl

theorem getInt_isSome (v : Value Double) : v.IsInt = v.GetInt.isSome := by
  cases v with
  | integer n =>
    rw [Value.GetInt]
    split <;> simp_all
  | _ => rfl

theorem getDouble_isSome (toDouble : Int → Double) (v : Value Double) :
    v.IsNumber = (v.GetDouble toDouble).isSome := by
  cases v <;> rfl

/-- As far as a C string goes a text is itself exactly if it has no NUL in it. -/
theorem getString_eq_text_iff (v : Option (Value Double)) :
    (∀ d, (v.bind Value.GetString).getD d = (v.bind Value.text).getD d) ↔
      ∀ s, v = some (.string s) → 0 ∉ s := by
  constructor
  · rintro h s rfl h0
    have hs : cstr s = s := h []
    rw [← hs] at h0
    exact notMem_cstr s h0
  · intro h d
    cases v with
    | none => rfl
    | some v =>
      cases v with
      | string s => exact cstr_of_notMem (h s rfl)
      | _ => rfl

theorem answers_iff (toDouble : Int → Double) (c : Value Double) (path : Path) :
    Answers toDouble c path ↔
      c.Passable path.names ∧ ∀ s, c.at path.names = some (.string s) → 0 ∉ s := by
  by_cases h : c.Passable path.names
  · have hhas : HAS_CONFIG c path = some (c.at path.names).isSome := by
      rw [HAS_CONFIG_eq, has_of_passable h]
    have hstring : ∀ d, GET_CONFIG_STRING c path d =
        some (((c.at path.names).bind Value.GetString).getD d) :=
      getConfig_of_passable h getString_isSome
    rw [and_iff_right h, ← getString_eq_text_iff]
    constructor
    · intro hanswers d
      have hd := hanswers.string d
      rw [hstring, Option.some_inj] at hd
      exact hd
    · intro htext
      refine ⟨hhas, getConfig_of_passable h getBool_isSome, ?_,
        getConfig_of_passable h getInt_isSome,
        getConfig_of_passable h (getDouble_isSome toDouble)⟩
      intro d
      rw [hstring, htext]
  · refine iff_of_false ?_ fun hc => h hc.1
    intro hanswers
    have hhas := hanswers.has
    rw [HAS_CONFIG_eq, has_of_not_passable h] at hhas
    contradiction

/-- The last name of a path does not matter. -/
theorem passable_two {s s2 : CString} (s2' : CString) (h : c.Passable [s, s2]) :
    c.Passable [s, s2'] := by
  cases c with
  | object members =>
    intro v hv
    have hobject := h v hv
    cases v with
    | object members' => exact fun v' _ => trivial
    | _ => exact hobject.elim
  | _ => exact h.elim

/-- If the level can be asked for, so can the other two settings. -/
theorem loadConfig_isSome_iff (c : Value Double) :
    (loadConfig c).isSome = true ↔ c.Passable loggerLevel.names := by
  constructor
  · intro h
    by_contra hpass
    simp [loadConfig, HAS_CONFIG_eq, has_of_not_passable hpass] at h
  · intro h
    have hhas := HAS_CONFIG_eq c loggerLevel
    rw [has_of_passable h] at hhas
    have hlevel := getConfig_of_passable h getString_isSome (ascii "info")
    have hsize : getConfig Value.IsInt Value.GetInt c (.two (name "logger") (name "max_size"))
        250 = some _ := getConfig_of_passable (passable_two _ h) getInt_isSome 250
    have hfiles : getConfig Value.IsInt Value.GetInt c (.two (name "logger") (name "max_files"))
        4 = some _ := getConfig_of_passable (passable_two _ h) getInt_isSome 4
    simp only [loadConfig, hhas, GET_CONFIG_STRING, hlevel, GET_CONFIG_INT, hsize, hfiles]
    cases (c.at loggerLevel.names).isSome <;> rfl

/-- The lookups return, with the right answers, exactly if the root and whatever else a member is
looked for in is an object, and a string that is found has no NUL in it. A configuration is loaded
safely under the same condition on its root and on its member `logger`. -/
theorem lookups_answer_iff (toDouble : Int → Double) (c : Value Double) :
    (∀ path, Answers toDouble c path ↔
      c.Passable path.names ∧ ∀ s, c.at path.names = some (.string s) → 0 ∉ s) ∧
    ((loadConfig c).isSome = true ↔ c.Passable loggerLevel.names) :=
  ⟨answers_iff toDouble c, loadConfig_isSome_iff c⟩

/-- A document in which `logger` is no object. -/
def loggerIsText : Value Int := .object [(ascii "logger", .string (ascii "info"))]

/-- To ask it for a member violates a precondition of the library, and `loadConfig` does so. -/
theorem lookup_in_text_stops :
    ¬ Answers id loggerIsText loggerLevel ∧ loadConfig loggerIsText = none := by
  refine ⟨?_, rfl⟩
  intro h
  have hhas : HAS_CONFIG loggerIsText loggerLevel = none := rfl
  rw [h.has] at hhas
  contradiction

end RabbitClient.JSonUtils
