import RabbitClient.Library.Lts
import RabbitClient.Library.Bytes

/-!
`OdbcConnect`: one connection and its transaction flag. The driver answers every call with a
code of its choice, a failed assert ends the process, and callers catch what is thrown.
-/
namespace RabbitClient.OdbcConnect

open Lts

/-- `SQLSMALLINT` -/
abbrev SQLRETURN := BitVec 16

def SQL_SUCCEEDED (retcode : SQLRETURN) : Bool := retcode &&& ~~~1 = 0

def SQL_SUCCESS_WITH_INFO : SQLRETURN := 1

/-- The driver's side of a connection handle. -/
structure Connection where
  connected : Bool := false
  autocommit : Bool := true
deriving DecidableEq

structure State where
  /-- An environment handle is held. -/
  environment_ : Bool := false
  /-- What the connection handle refers to; `none` is the null handle. -/
  databaseConn_ : Option Connection := none
  isTransaction_ : Bool := false
  connectString_ : Bytes := []
  serverName_ : Bytes := []
  username_ : Bytes := []
  password_ : Bytes := []
deriving DecidableEq

/-- The answers to the five driver calls of `connect`. -/
structure Codes where
  allocEnvironment : SQLRETURN := 0
  setVersion : SQLRETURN := 0
  allocConnection : SQLRETURN := 0
  setCursors : SQLRETURN := 0
  connect : SQLRETURN := 0
deriving DecidableEq

/-- The driver calls of both forms of `connect`; all but the last one are asserted. -/
def open_connection (s : State) (codes : Codes) : Option (State × Bool) :=
  if SQL_SUCCEEDED codes.allocEnvironment && SQL_SUCCEEDED codes.setVersion &&
      SQL_SUCCEEDED codes.allocConnection && SQL_SUCCEEDED codes.setCursors then
    some
      ({ s with
          environment_ := true
          databaseConn_ := some { connected := SQL_SUCCEEDED codes.connect }
          isTransaction_ := false },
        SQL_SUCCEEDED codes.connect)
  else none

/-- `connect(connectString)` -/
def connect (s : State) (connectString : Bytes) (codes : Codes) : Option (State × Bool) :=
  if s.environment_ || s.databaseConn_.isSome then none
  else
    open_connection
      { s with connectString_ := connectString, serverName_ := [], username_ := [], password_ := [] }
      codes

/-- `connect(serverName, username, password)` -/
def connectServer (s : State) (serverName username password : Bytes) (codes : Codes) :
    Option (State × Bool) :=
  if s.environment_ || s.databaseConn_.isSome then none
  else
    open_connection
      { s with
        connectString_ := []
        serverName_ := serverName
        username_ := username
        password_ := password }
      codes

/-- The handles are given up whatever the driver answers. -/
def close (s : State) : State :=
  { s with databaseConn_ := none, environment_ := false, isTransaction_ := false }

/-- The second test repeats the first one, so the form with a server is never taken. -/
def reconnect (s : State) (codes : Codes) : Option State :=
  if s.connectString_.isEmpty && s.serverName_.isEmpty then none
  else
    let s := close s
    if !s.connectString_.isEmpty then (connect s s.connectString_ codes).map Prod.fst
    else if !s.connectString_.isEmpty then
      (connectServer s s.serverName_ s.username_ s.password_ codes).map Prod.fst
    else some s

/-- What ends `beginTransaction`, `Commit` and `Rollback`: a return value or an exception. -/
def outcome (retcode : SQLRETURN) : Except SQLRETURN Bool :=
  if !SQL_SUCCEEDED retcode && retcode ≠ SQL_SUCCESS_WITH_INFO then .error retcode else .ok true

/-- `SQLSetConnectAttr` for the autocommit mode: it changes the mode if it succeeds. -/
def setAutocommit (c : Connection) (value : Bool) (retcode : SQLRETURN) : Connection :=
  if SQL_SUCCEEDED retcode then { c with autocommit := value } else c

def beginTransaction (s : State) (retcode : SQLRETURN) : State × Except SQLRETURN Bool :=
  ({ s with
      databaseConn_ := s.databaseConn_.map fun c => setAutocommit c false retcode
      isTransaction_ := true },
    outcome retcode)

/-- `SQLEndTran`, which leaves the mode alone, and the flag. -/
def endTransaction (s : State) (retcode : SQLRETURN) : State × Except SQLRETURN Bool :=
  ({ s with isTransaction_ := false }, outcome retcode)

/-- With `SQL_COMMIT`. -/
def Commit (s : State) (retcode : SQLRETURN) : State × Except SQLRETURN Bool :=
  endTransaction s retcode

/-- With `SQL_ROLLBACK`. -/
def Rollback (s : State) (retcode : SQLRETURN) : State × Except SQLRETURN Bool :=
  endTransaction s retcode

inductive Action where
  | connect (connectString : Bytes) (codes : Codes)
  | connectServer (serverName username password : Bytes) (codes : Codes)
  | beginTransaction (retcode : SQLRETURN)
  | Commit (retcode : SQLRETURN)
  | Rollback (retcode : SQLRETURN)
  | close
  | reconnect (codes : Codes)
deriving DecidableEq

/-- One call; `none` when an assert fails. -/
def exec (s : State) : Action → Option State
  | .connect connectString codes => (connect s connectString codes).map Prod.fst
  | .connectServer serverName username password codes =>
    (connectServer s serverName username password codes).map Prod.fst
  | .beginTransaction retcode => some (beginTransaction s retcode).1
  | .Commit retcode => some (Commit s retcode).1
  | .Rollback retcode => some (Rollback s retcode).1
  | .close => some (close s)
  | .reconnect codes => reconnect s codes

def Step (s : State) (a : Action) (t : State) : Prop := exec s a = some t

theorem step_of_exec (s : State) (a : Action) (t : State) (h : exec s a = some t) : Step s a t := h

/-- If the connection is open, the flag says whether it is in manual-commit mode. -/
def Truthful (s : State) : Prop :=
  ∀ c, s.databaseConn_ = some c → c.connected = true →
    (s.isTransaction_ = true ↔ c.autocommit = false)

/-- The connection is open in the given mode. -/
def State.openIn (s : State) (autocommit : Bool) : Bool :=
  s.databaseConn_ = some ⟨true, autocommit⟩

/-- A `beginTransaction` that fails in autocommit mode, or an end of a transaction in
manual-commit mode, on an open connection. -/
def Misreports (s : State) : Action → Prop
  | .beginTransaction retcode => SQL_SUCCEEDED retcode = false ∧ s.openIn true = true
  | .Commit _ | .Rollback _ => s.openIn false = true
  | _ => False

instance (s : State) (a : Action) : Decidable (Misreports s a) := by
  cases a <;> unfold Misreports <;> infer_instance

variable {s t : State} {a : Action}

theorem truthful_of_none (h : s.databaseConn_ = none) : Truthful s := by
  intro c hc
  rw [h] at hc
  contradiction

/-- A new connection is in autocommit mode, and the flag is clear. -/
theorem open_connection_truthful {codes : Codes} {r : Bool}
    (h : open_connection s codes = some (t, r)) : Truthful t := by
  simp only [open_connection, Option.ite_none_right_eq_some, Option.some.injEq, Prod.mk.injEq] at h
  obtain ⟨_, rfl, _⟩ := h
  rintro c hc _
  obtain rfl := Option.some.inj hc
  simp

theorem connect_truthful {connectString : Bytes} {codes : Codes}
    (h : (connect s connectString codes).map Prod.fst = some t) : Truthful t := by
  obtain ⟨⟨t', r⟩, ht, rfl⟩ := Option.map_eq_some_iff.mp h
  simp only [connect, Option.ite_none_left_eq_some] at ht
  exact open_connection_truthful ht.2

theorem connectServer_truthful {serverName username password : Bytes} {codes : Codes}
    (h : (connectServer s serverName username password codes).map Prod.fst = some t) :
    Truthful t := by
  obtain ⟨⟨t', r⟩, ht, rfl⟩ := Option.map_eq_some_iff.mp h
  simp only [connectServer, Option.ite_none_left_eq_some] at ht
  exact open_connection_truthful ht.2

theorem reconnect_truthful {codes : Codes} (h : reconnect s codes = some t) : Truthful t := by
  simp only [reconnect, Option.ite_none_left_eq_some] at h
  obtain ⟨_, h⟩ := h
  split at h
  · exact connect_truthful h
  · cases h
    exact truthful_of_none rfl

theorem openIn_iff {autocommit : Bool} :
    s.openIn autocommit = true ↔ s.databaseConn_ = some ⟨true, autocommit⟩ := by
  simp [State.openIn]

theorem openIn_of {c : Connection} {autocommit : Bool} (hc : s.databaseConn_ = some c)
    (hcon : c.connected = true) (hmode : c.autocommit = autocommit) :
    s.openIn autocommit = true := by
  cases c
  cases hcon
  cases hmode
  exact openIn_iff.mpr hc

/-- It sets the flag first and looks at the code afterwards. -/
theorem beginTransaction_truthful {retcode : SQLRETURN} :
    Truthful (beginTransaction s retcode).1 ↔ ¬ Misreports s (.beginTransaction retcode) := by
  constructor
  · rintro ht ⟨hfail, hopen⟩
    have hc := openIn_iff.mp hopen
    have hmode := ht ⟨true, true⟩ (by simp [beginTransaction, hc, setAutocommit, hfail]) rfl
    simp [beginTransaction] at hmode
  · intro hok d hd hcon
    obtain ⟨c, hc, rfl⟩ := Option.map_eq_some_iff.mp hd
    refine iff_of_true rfl ?_
    by_cases hrc : SQL_SUCCEEDED retcode = true
    · simp [setAutocommit, hrc]
    · have hkeep : setAutocommit c false retcode = c := by simp [setAutocommit, hrc]
      rw [hkeep] at hcon ⊢
      rw [← Bool.not_eq_true]
      intro hauto
      apply hok
      exact ⟨Bool.not_eq_true _ ▸ hrc, openIn_of hc hcon hauto⟩

/-- It clears the flag, and nothing returns the connection to autocommit mode. -/
theorem endTransaction_truthful {retcode : SQLRETURN} :
    Truthful (endTransaction s retcode).1 ↔ ¬ s.openIn false = true := by
  constructor
  · intro ht hopen
    have hmode := ht ⟨true, false⟩ (openIn_iff.mp hopen) rfl
    simp [endTransaction] at hmode
  · intro hok c hc hcon
    refine iff_of_false (by simp [endTransaction]) ?_
    intro hmanual
    apply hok
    exact openIn_of hc hcon hmanual

/-- Whether the flag is right after a call depends on this call alone. -/
theorem truthful_step (h : Step s a t) : Truthful t ↔ ¬ Misreports s a := by
  cases a with
  | connect connectString codes => exact iff_of_true (connect_truthful h) (fun hm => hm)
  | connectServer serverName username password codes =>
    exact iff_of_true (connectServer_truthful h) (fun hm => hm)
  | beginTransaction retcode =>
    cases h
    exact beginTransaction_truthful
  | Commit retcode =>
    cases h
    exact endTransaction_truthful
  | Rollback retcode =>
    cases h
    exact endTransaction_truthful
  | close =>
    cases h
    exact iff_of_true (truthful_of_none rfl) (fun hm => hm)
  | reconnect codes => exact iff_of_true (reconnect_truthful h) (fun hm => hm)

/-- In a run the flag is right about every open connection exactly when no transaction fails
to begin in autocommit mode and none is ended in manual-commit mode. -/
theorem transaction_flag_iff {ps : List (State × Action)} (h : Run (Recorded Step) {} ps t) :
    Throughout Truthful ps t ↔ ∀ p ∈ ps, ¬ Misreports p.1 p.2 :=
  recorded_throughout_iff (I := fun _ => True) (fun _ _ _ _ _ => trivial)
    (fun _ _ _ hst _ _ => truthful_step hst) h trivial (truthful_of_none rfl)

/-- A transaction that begins on an open connection, and a reconnect. -/
def beginAndReconnect : List Action :=
  [.connect [68] {}, .Commit 0, .beginTransaction 0, .reconnect {}, .beginTransaction 1]

theorem transaction_flag_iff_reconnect :
    ∃ t, Run (Recorded Step) {} (record exec {} beginAndReconnect) t ∧
      Throughout Truthful (record exec {} beginAndReconnect) t := by
  obtain ⟨t, ht⟩ := exists_recorded_of_execAll step_of_exec {} beginAndReconnect (by decide)
  have hok : ∀ p ∈ record exec {} beginAndReconnect, ¬ Misreports p.1 p.2 := by decide
  exact ⟨t, ht, (transaction_flag_iff ht).mpr hok⟩

/-- A transaction begins and is committed. -/
def beginAndCommit : List Action := [.connect [68] {}, .beginTransaction 0, .Commit 0]

/-- The flag is clear, and the open connection stays in manual-commit mode. -/
theorem transaction_flag_commit : ∃ t, Run Step {} beginAndCommit t ∧ ¬ Truthful t := by
  obtain ⟨t, ht, hp⟩ := exists_run_of_execAll step_of_exec {} beginAndCommit
    (fun t => decide (t.isTransaction_ = false ∧ t.openIn false = true)) (by decide)
  obtain ⟨hflag, hopen⟩ := of_decide_eq_true hp
  refine ⟨t, ht, ?_⟩
  intro hs
  have hset := (hs ⟨true, false⟩ (openIn_iff.mp hopen) rfl).mpr rfl
  rw [hflag] at hset
  contradiction

end RabbitClient.OdbcConnect
