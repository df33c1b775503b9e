import RabbitClient.Odbc.Connect

/-! What `reconnect` asks the driver for, after a last `connect` of either form. -/
namespace RabbitClient.OdbcConnect

open Lts Bytes

/-- The call that opens a connection, with the C strings the driver sees. -/
inductive Attempt where
  | SQLDriverConnect (connectString : Bytes)
  | SQLConnect (serverName username password : Bytes)
deriving DecidableEq

inductive DriverCall where
  | SQLDisconnect
  | SQLFreeConnection
  | SQLFreeEnvironment
  | SQLAllocEnvironment
  | SQLSetVersion
  | SQLAllocConnection
  | SQLSetCursors
  | open (a : Attempt)
deriving DecidableEq

/-- The driver calls of `close`; both handles are given back by the old and the new function. -/
def closeCalls (s : State) : List DriverCall :=
  (if s.databaseConn_.isSome then [.SQLDisconnect, .SQLFreeConnection, .SQLFreeConnection]
    else []) ++
  if s.environment_ then [.SQLFreeEnvironment, .SQLFreeEnvironment] else []

/-- The driver calls of `open_connection`, up to the first assert that fails. -/
def openCalls (codes : Codes) (a : Attempt) : List DriverCall :=
  .SQLAllocEnvironment ::
    if !SQL_SUCCEEDED codes.allocEnvironment then []
    else .SQLSetVersion ::
      if !SQL_SUCCEEDED codes.setVersion then []
      else .SQLAllocConnection ::
        if !SQL_SUCCEEDED codes.allocConnection then []
        else .SQLSetCursors :: if !SQL_SUCCEEDED codes.setCursors then [] else [.open a]

/-- The driver calls of `connect(connectString)`. -/
def connectCalls (s : State) (connectString : Bytes) (codes : Codes) : List DriverCall :=
  if s.environment_ || s.databaseConn_.isSome then []
  else openCalls codes (.SQLDriverConnect (cstr connectString))

/-- The driver calls of `connect(serverName, username, password)`. -/
def connectServerCalls (s : State) (serverName username password : Bytes) (codes : Codes) :
    List DriverCall :=
  if s.environment_ || s.databaseConn_.isSome then []
  else openCalls codes (.SQLConnect (cstr serverName) (cstr username) (cstr password))

/-- The driver calls of `reconnect`, by the same two tests. -/
def reconnectCalls (s : State) (codes : Codes) : List DriverCall :=
  if s.connectString_.isEmpty && s.serverName_.isEmpty then []
  else
    let c := close s
    closeCalls s ++
      if !c.connectString_.isEmpty then connectCalls c c.connectString_ codes
      else if !c.connectString_.isEmpty then
        connectServerCalls c c.serverName_ c.username_ c.password_ codes
      else []

/-- The arguments of a call of one of the two forms of `connect`. -/
inductive Target where
  | byString (connectString : Bytes)
  | byServer (serverName username password : Bytes)
deriving DecidableEq

def Target.connect (codes : Codes) : Target → Action
  | .byString connectString => .connect connectString codes
  | .byServer serverName username password => .connectServer serverName username password codes

/-- The connect string or the server name is not empty. -/
def Target.Named : Target → Prop
  | .byString connectString => connectString ≠ []
  | .byServer serverName _ _ => serverName ≠ []

def Target.attempt : Target → Attempt
  | .byString connectString => .SQLDriverConnect (cstr connectString)
  | .byServer serverName username password =>
    .SQLConnect (cstr serverName) (cstr username) (cstr password)

/-- A call, or the loss of the connection to the server. -/
inductive Event where
  | call (a : Action)
  | linkFailure
deriving DecidableEq

def lose (s : State) : State :=
  { s with databaseConn_ := s.databaseConn_.map fun c => { c with connected := false } }

def execEvent (s : State) : Event → Option State
  | .call a => exec s a
  | .linkFailure => some (lose s)

def EventStep (s : State) (e : Event) (t : State) : Prop := execEvent s e = some t

theorem eventStep_of_exec (s : State) (e : Event) (t : State) (h : execEvent s e = some t) :
    EventStep s e t := h

/-- A transaction call or a connection failure. -/
def Later : Event → Prop
  | .call (.beginTransaction _) | .call (.Commit _) | .call (.Rollback _) | .linkFailure => True
  | _ => False

/-- The stored credentials. -/
def credentials (s : State) : Bytes × Bytes × Bytes × Bytes :=
  (s.connectString_, s.serverName_, s.username_, s.password_)

/-- The driver accepts all of `connect`. -/
def Codes.accepted (codes : Codes) : Prop :=
  SQL_SUCCEEDED codes.allocEnvironment ∧ SQL_SUCCEEDED codes.setVersion ∧
    SQL_SUCCEEDED codes.allocConnection ∧ SQL_SUCCEEDED codes.setCursors ∧
    SQL_SUCCEEDED codes.connect

/-- `reconnect` gives back the handles and repeats the attempt; if the driver accepts it, there are
handles again and the credentials are the same. -/
def Restores (s : State) (target : Target) : Prop :=
  ∀ codes : Codes,
    reconnectCalls s codes = closeCalls s ++ openCalls codes target.attempt ∧
    (codes.accepted → ∃ t, reconnect s codes = some t ∧ t.environment_ = true ∧
      t.databaseConn_.isSome ∧ credentials t = credentials s)

variable {s t u : State} {target : Target} {codes : Codes} {e : Event} {later : List Event}

def Target.credentials : Target → Bytes × Bytes × Bytes × Bytes
  | .byString connectString => (connectString, [], [], [])
  | .byServer serverName username password => ([], serverName, username, password)

theorem open_connection_credentials {r : Bool} (h : open_connection s codes = some (t, r)) :
    credentials t = credentials s := by
  simp only [open_connection, Option.ite_none_right_eq_some, Option.some.injEq,
    Prod.mk.injEq] at h
  obtain ⟨-, rfl, -⟩ := h
  rfl

theorem connect_credentials (h : exec s (target.connect codes) = some t) :
    OdbcConnect.credentials t = target.credentials := by
  cases target with
  | byString connectString =>
    obtain ⟨⟨t', r⟩, ht, rfl⟩ := Option.map_eq_some_iff.mp h
    simp only [connect, Option.ite_none_left_eq_some] at ht
    exact open_connection_credentials ht.2
  | byServer serverName username password =>
    obtain ⟨⟨t', r⟩, ht, rfl⟩ := Option.map_eq_some_iff.mp h
    simp only [connectServer, Option.ite_none_left_eq_some] at ht
    exact open_connection_credentials ht.2

theorem later_credentials (hl : Later e) (h : EventStep s e t) : credentials t = credentials s := by
  cases e with
  | linkFailure =>
    cases h
    rfl
  | call a =>
    cases a with
    | beginTransaction retcode =>
      cases h
      rfl
    | Commit retcode =>
      cases h
      rfl
    | Rollback retcode =>
      cases h
      rfl
    | connect connectString codes => exact hl.elim
    | connectServer serverName username password codes => exact hl.elim
    | close => exact hl.elim
    | reconnect codes => exact hl.elim

/-- Whatever comes after the last connect leaves the credentials as it stored them. -/
theorem run_later_credentials (hl : ∀ e ∈ later, Later e) (h : Run EventStep s later t) :
    credentials t = credentials s :=
  run_invariant_of_labels (I := fun u => credentials u = credentials s)
    (fun _ _ _ he hst hu => (later_credentials he hst).trans hu) h hl rfl

theorem open_connection_accepted (s : State) (h : codes.accepted) :
    open_connection s codes = some
      ({ s with
          environment_ := true
          databaseConn_ := some { connected := true }
          isTransaction_ := false }, true) := by
  obtain ⟨h₁, h₂, h₃, h₄, h₅⟩ := h
  simp [open_connection, h₁, h₂, h₃, h₄, h₅]

/-- A connection that was opened with a connect string is opened again. -/
theorem restores_byString {connectString : Bytes} (hne : connectString ≠ [])
    (h : credentials s = (connectString, [], [], [])) : Restores s (.byString connectString) := by
  obtain ⟨environment_, databaseConn_, isTransaction_, c, serverName_, username_, password_⟩ := s
  simp only [credentials, Prod.mk.injEq] at h
  obtain ⟨rfl, rfl, rfl, rfl⟩ := h
  intro codes
  constructor
  · simp [reconnectCalls, hne, connectCalls, close, Target.attempt]
  · intro hcodes
    have hopen := open_connection_accepted { connectString_ := c : State } hcodes
    refine ⟨{ environment_ := true, databaseConn_ := some { connected := true },
              connectString_ := c }, ?_, rfl, rfl, rfl⟩
    simp [reconnect, hne, connect, close, hopen]

/-- A connection that was opened by the server's name is closed and not opened again. -/
theorem not_restores_byServer {serverName username password : Bytes} (hne : serverName ≠ [])
    (h : credentials s = ([], serverName, username, password)) :
    ¬ Restores s (.byServer serverName username password) := by
  obtain ⟨environment_, databaseConn_, isTransaction_, c, serverName_, username_, password_⟩ := s
  simp only [credentials, Prod.mk.injEq] at h
  obtain ⟨rfl, rfl, rfl, rfl⟩ := h
  intro hrestores
  obtain ⟨hcalls, -⟩ := hrestores {}
  simp [reconnectCalls, hne, close, openCalls] at hcalls

/-- After any history `reconnect` restores the last connection exactly if it was opened with a
connect string. -/
theorem reconnect_restores_iff {before : List Event} (hnamed : target.Named)
    (hl : ∀ e ∈ later, Later e)
    (h : Run EventStep {} (before ++ .call (target.connect codes) :: later) t) :
    Restores t target ↔ ∃ connectString, target = .byString connectString := by
  obtain ⟨v, w, -, hconnect, hlater⟩ := run_split_label h
  have hcred : credentials t = target.credentials :=
    (run_later_credentials hl hlater).trans (connect_credentials hconnect)
  cases target with
  | byString connectString =>
    exact iff_of_true (restores_byString hnamed hcred) ⟨connectString, rfl⟩
  | byServer serverName username password =>
    refine iff_of_false (not_restores_byServer hnamed hcred) ?_
    rintro ⟨_, he⟩
    contradiction

/-- The link is lost in a transaction. -/
def lostInTransaction : List Event := [.call (.beginTransaction 0), .linkFailure]

theorem reconnect_restores_iff_lost : ∃ t,
    Run EventStep {} ([] ++ .call (Target.connect {} (.byString [68])) :: lostInTransaction) t ∧
      Restores t (.byString [68]) := by
  obtain ⟨t, ht, -⟩ := exists_run_of_execAll eventStep_of_exec {}
    ([] ++ .call (Target.connect {} (.byString [68])) :: lostInTransaction)
    (fun _ => true) (by decide)
  have hl : ∀ e ∈ lostInTransaction, Later e :=
    List.forall_mem_cons.mpr ⟨trivial, List.forall_mem_cons.mpr ⟨trivial, by simp⟩⟩
  have hnamed : (Target.byString [68]).Named := List.cons_ne_nil _ _
  exact ⟨t, ht, (reconnect_restores_iff hnamed hl ht).mpr ⟨_, rfl⟩⟩

/-- A connection by the name of the server is lost for good. -/
theorem reconnect_forgets_server : ∃ t,
    Run EventStep {} ([] ++ .call (Target.connect {} (.byServer [68] [] [])) :: [.linkFailure]) t ∧
      ¬ Restores t (.byServer [68] [] []) := by
  obtain ⟨t, ht, hp⟩ := exists_run_of_execAll eventStep_of_exec {}
    ([] ++ .call (Target.connect {} (.byServer [68] [] [])) :: [.linkFailure])
    (fun t => decide (credentials t = ([], [68], [], []))) (by decide)
  exact ⟨t, ht, not_restores_byServer (List.cons_ne_nil _ _) (of_decide_eq_true hp)⟩

end RabbitClient.OdbcConnect
