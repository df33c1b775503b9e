import RabbitClient.Library.Lts

/-!
The reload loop of `ConfigAgent`: one thread refreshes from a file that others rewrite, remove,
restore, or make unreadable between any two of its steps. What `loadConfig` does to the logger
is left out; it reads the document and nothing else here.
-/
namespace RabbitClient.ConfigAgent

open Lts

/-- The file at one point: its bytes and its modification time. -/
structure Version (Content : Type) where
  content : Content
  time : Nat
deriving DecidableEq

/-- `rapidjson::Document`: its value and the outcome of its latest parse. -/
structure Document (Doc : Type) where
  value : Doc
  HasParseError : Bool
deriving DecidableEq

/-- `ParseStream`: a failed parse leaves the previous value in place. -/
def Document.ParseStream {Content Doc : Type} (parse : Content → Option Doc) (d : Document Doc)
    (x : Content) : Document Doc :=
  match parse x with
  | some value => ⟨value, false⟩
  | none => ⟨d.value, true⟩

/-- Who called `loadConfig`; `refresh` has read the modification time before. -/
inductive Caller where
  | constructor
  | refresh (last_write_file : Nat)
deriving DecidableEq

/-- The next step of the agent's thread. -/
inductive PC (Content : Type) where
  | idle
  | last_write_time
  | exists (caller : Caller)
  | fopen (caller : Caller)
  | parse (caller : Caller) (is : Version Content)
  | reload (last_write_file : Nat)
  | record (last_write_file : Nat)
  | schedule
deriving DecidableEq

structure State (Content Doc Resource : Type) where
  file : Option (Version Content)
  /-- The file as it was when it was last removed. -/
  removed : Option (Version Content)
  readable : Bool
  /-- The modification times of all writes so far, the latest first. -/
  times : List Nat
  config : Document Doc
  resources : List Resource
  resource_scheduler_ : Option Resource
  /-- `file_time_type{}`, here 0, until the first refresh. -/
  last_refresh_ : Nat
  pc : PC Content
  /-- Each call of `reload` with the value of the document then, the latest first. -/
  reloads : List (Resource × Doc)

variable {Content Doc Resource : Type}

inductive Action (Content Resource : Type) where
  | write (v : Version Content)
  | remove
  | restore
  | chmod (readable : Bool)
  | refresh
  | last_write_time
  | exists
  | fopen
  | parse (x : Content)
  | reload
  | record
  | schedule
  | bindConfig (ptr : Resource)
  | bindScheduler (ptr : Resource)
deriving DecidableEq

/-- What `fopen` opens. -/
def State.opened (s : State Content Doc Resource) : Option (Version Content) :=
  if s.readable then s.file else none

/-- `loadConfig` asks the document for its parse error, whatever `loadConfigFromJson` returned,
and only a successful load goes on. -/
def loaded (caller : Caller) (config : Document Doc) : PC Content :=
  if config.HasParseError then .idle
  else
    match caller with
    | .constructor => .idle
    | .refresh last_write_file => .reload last_write_file

/-- `last_write_time` throws for a missing file, and the refresh is over. -/
def State.timeRead (s : State Content Doc Resource) : PC Content :=
  match s.file with
  | none => .idle
  | some v => if v.time = s.last_refresh_ then .idle else .exists (.refresh v.time)

/-- The constructor has returned. -/
def PC.constructed : PC Content → Bool
  | .exists .constructor | .fopen .constructor | .parse .constructor _ => false
  | _ => true

/-- The scheduler is bound first; then the time of a missing file throws. -/
def State.scheduled (s : State Content Doc Resource) (ptr : Resource) :
    State Content Doc Resource :=
  if s.file.map Version.time = some s.last_refresh_ then
    { s with reloads := (ptr, s.config.value) :: s.reloads }
  else { s with resource_scheduler_ := some ptr }

/-- What the stream delivers: the file that was opened, unless it was written to since. -/
def State.Delivers (s : State Content Doc Resource) (is : Version Content) (x : Content) : Prop :=
  x = is.content ∨ s.times.head? ≠ some is.time

/-- Interleaving of the agent's steps with binds and with the life of the file. -/
inductive Step (parse : Content → Option Doc) : State Content Doc Resource →
    Action Content Resource → State Content Doc Resource → Prop where
  | write {s : State Content Doc Resource} {v : Version Content} (hn : v.time ∉ s.times)
      (h0 : v.time ≠ 0) :
      Step parse s (.write v) { s with file := some v, times := v.time :: s.times }
  | remove {s : State Content Doc Resource} {v : Version Content} (hf : s.file = some v) :
      Step parse s .remove { s with file := none, removed := some v }
  | restore {s : State Content Doc Resource} {v : Version Content} (hf : s.file = none)
      (hr : s.removed = some v) : Step parse s .restore { s with file := some v }
  | chmod {s : State Content Doc Resource} {b : Bool} :
      Step parse s (.chmod b) { s with readable := b }
  | refresh {s : State Content Doc Resource} (hp : s.pc = .idle) :
      Step parse s .refresh
        { s with pc := if s.file.isSome then .last_write_time else .idle }
  | last_write_time {s : State Content Doc Resource} (hp : s.pc = .last_write_time) :
      Step parse s .last_write_time { s with pc := s.timeRead }
  | exists {s : State Content Doc Resource} {k : Caller} (hp : s.pc = .exists k) :
      Step parse s .exists { s with pc := if s.file.isSome then .fopen k else .idle }
  | opened {s : State Content Doc Resource} {k : Caller} {is : Version Content}
      (hp : s.pc = .fopen k) (ho : s.opened = some is) :
      Step parse s .fopen { s with pc := .parse k is }
  -- loadConfigFromJson returns 0 and leaves the document and its parse error as they were
  | unopened {s : State Content Doc Resource} {k : Caller} (hp : s.pc = .fopen k)
      (ho : s.opened = none) : Step parse s .fopen { s with pc := loaded k s.config }
  | parse {s : State Content Doc Resource} {k : Caller} {is : Version Content} {x : Content}
      (hp : s.pc = .parse k is) (hx : s.Delivers is x) :
      Step parse s (.parse x)
        { s with
          config := s.config.ParseStream parse x
          pc := loaded k (s.config.ParseStream parse x) }
  | reload {s : State Content Doc Resource} {t : Nat} (hp : s.pc = .reload t) :
      Step parse s .reload
        { s with
          reloads := (s.resources.map (·, s.config.value)).reverse ++ s.reloads
          pc := .record t }
  | record {s : State Content Doc Resource} {t : Nat} (hp : s.pc = .record t) :
      Step parse s .record { s with last_refresh_ := t, pc := .schedule }
  | schedule {s : State Content Doc Resource} (hp : s.pc = .schedule) :
      Step parse s .schedule
        { s with
          reloads := s.resource_scheduler_.toList.map (·, s.config.value) ++ s.reloads
          resource_scheduler_ := none
          pc := .idle }
  | bindConfig {s : State Content Doc Resource} {ptr : Resource} (hp : s.pc.constructed) :
      Step parse s (.bindConfig ptr)
        { s with
          resources := s.resources ++ [ptr]
          reloads := (ptr, s.config.value) :: s.reloads }
  | bindScheduler {s : State Content Doc Resource} {ptr : Resource} (hp : s.pc.constructed)
      (hn : s.resource_scheduler_ = none) :
      Step parse s (.bindScheduler ptr) (s.scheduled ptr)

/-- The interleaving as a function of the chosen action. -/
def exec [DecidableEq Content] (parse : Content → Option Doc) (s : State Content Doc Resource)
    (a : Action Content Resource) : Option (State Content Doc Resource) :=
  match a with
  | .write v =>
    if v.time ∉ s.times ∧ v.time ≠ 0 then
      some { s with file := some v, times := v.time :: s.times }
    else none
  | .remove => s.file.map fun v => { s with file := none, removed := some v }
  | .restore =>
    match s.file, s.removed with
    | none, some v => some { s with file := some v }
    | _, _ => none
  | .chmod b => some { s with readable := b }
  | .refresh =>
    match s.pc with
    | .idle => some { s with pc := if s.file.isSome then .last_write_time else .idle }
    | _ => none
  | .last_write_time =>
    match s.pc with
    | .last_write_time => some { s with pc := s.timeRead }
    | _ => none
  | .exists =>
    match s.pc with
    | .exists k => some { s with pc := if s.file.isSome then .fopen k else .idle }
    | _ => none
  | .fopen =>
    match s.pc with
    | .fopen k =>
      match s.opened with
      | some is => some { s with pc := .parse k is }
      | none => some { s with pc := loaded k s.config }
    | _ => none
  | .parse x =>
    match s.pc with
    | .parse k is =>
      if x = is.content ∨ s.times.head? ≠ some is.time then
        some { s with
          config := s.config.ParseStream parse x
          pc := loaded k (s.config.ParseStream parse x) }
      else none
    | _ => none
  | .reload =>
    match s.pc with
    | .reload t =>
      some { s with
        reloads := (s.resources.map (·, s.config.value)).reverse ++ s.reloads
        pc := .record t }
    | _ => none
  | .record =>
    match s.pc with
    | .record t => some { s with last_refresh_ := t, pc := .schedule }
    | _ => none
  | .schedule =>
    match s.pc with
    | .schedule =>
      some { s with
        reloads := s.resource_scheduler_.toList.map (·, s.config.value) ++ s.reloads
        resource_scheduler_ := none
        pc := .idle }
    | _ => none
  | .bindConfig ptr =>
    if s.pc.constructed then
      some { s with
        resources := s.resources ++ [ptr]
        reloads := (ptr, s.config.value) :: s.reloads }
    else none
  | .bindScheduler ptr =>
    match s.resource_scheduler_ with
    | none => if s.pc.constructed then some (s.scheduled ptr) else none
    | some _ => none

theorem step_of_exec [DecidableEq Content] (parse : Content → Option Doc)
    (s : State Content Doc Resource) (a : Action Content Resource)
    (t : State Content Doc Resource) (h : exec parse s a = some t) : Step parse s a t := by
  cases a with
  | write v =>
    simp only [exec, Option.ite_none_right_eq_some, Option.some.injEq] at h
    obtain ⟨⟨hn, h0⟩, rfl⟩ := h
    exact .write hn h0
  | remove =>
    obtain ⟨v, hf, rfl⟩ := Option.map_eq_some_iff.mp h
    exact .remove hf
  | restore =>
    simp only [exec] at h
    split at h
    · rename_i v hf hr
      cases h
      exact .restore hf hr
    · contradiction
  | chmod b =>
    cases h
    exact .chmod
  | refresh =>
    simp only [exec] at h
    split at h
    · rename_i hp
      cases h
      exact .refresh hp
    · contradiction
  | last_write_time =>
    simp only [exec] at h
    split at h
    · rename_i hp
      cases h
      exact .last_write_time hp
    · contradiction
  | «exists» =>
    simp only [exec] at h
    split at h
    · rename_i k hp
      cases h
      exact .exists hp
    · contradiction
  | fopen =>
    simp only [exec] at h
    split at h
    · rename_i k hp
      split at h
      · rename_i is ho
        cases h
        exact .opened hp ho
      · rename_i ho
        cases h
        exact .unopened hp ho
    · contradiction
  | parse x =>
    simp only [exec] at h
    split at h
    · rename_i k is hp
      simp only [Option.ite_none_right_eq_some, Option.some.injEq] at h
      obtain ⟨hx, rfl⟩ := h
      exact .parse hp hx
    · contradiction
  | reload =>
    simp only [exec] at h
    split at h
    · rename_i t hp
      cases h
      exact .reload hp
    · contradiction
  | record =>
    simp only [exec] at h
    split at h
    · rename_i t hp
      cases h
      exact .record hp
    · contradiction
  | schedule =>
    simp only [exec] at h
    split at h
    · rename_i hp
      cases h
      exact .schedule hp
    · contradiction
  | bindConfig ptr =>
    simp only [exec, Option.ite_none_right_eq_some, Option.some.injEq] at h
    obtain ⟨hp, rfl⟩ := h
    exact .bindConfig hp
  | bindScheduler ptr =>
    simp only [exec] at h
    split at h
    · rename_i hn
      simp only [Option.ite_none_right_eq_some, Option.some.injEq] at h
      obtain ⟨hp, rfl⟩ := h
      exact .bindScheduler hp hn
    · contradiction

/-- The constructor has stored the document and calls `loadConfig`. -/
structure Start (s : State Content Doc Resource) : Prop where
  pc : s.pc = .exists .constructor
  resources : s.resources = []
  resource_scheduler_ : s.resource_scheduler_ = none
  last_refresh_ : s.last_refresh_ = 0
  reloads : s.reloads = []
  removed : s.removed = none
  times : s.times = (s.file.map Version.time).toList
  time : ∀ v, s.file = some v → v.time ≠ 0

end RabbitClient.ConfigAgent
