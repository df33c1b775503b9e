import RabbitClient.Config.Updates

/-! Each scheduler resource is started once, by its bind or by the first refresh that loads. -/
namespace RabbitClient.ConfigAgent

open Lts

variable {Content Doc Resource : Type} {parse : Content → Option Doc}
  {s t u : State Content Doc Resource} {a : Action Content Resource}

/-- The steps of the agent with nothing assumed about the file system: a write may repeat a
modification time, and a stream may deliver anything. -/
inductive LooseStep (parse : Content → Option Doc) : State Content Doc Resource →
    Action Content Resource → State Content Doc Resource → Prop where
  | step {s t : State Content Doc Resource} {a : Action Content Resource}
      (h : Step parse s a t) : LooseStep parse s a t
  | write {s : State Content Doc Resource} {v : Version Content} :
      LooseStep parse s (.write v) { s with file := some v, times := v.time :: s.times }
  | parse {s : State Content Doc Resource} {k : Caller} {is : Version Content} {x : Content}
      (hp : s.pc = .parse k is) :
      LooseStep parse s (.parse x)
        { s with
          config := s.config.ParseStream parse x
          pc := loaded k (s.config.ParseStream parse x) }

/-- What an action gives to `bindScheduler`. -/
def Action.bound : Action Content Resource → List Resource
  | .bindScheduler ptr => [ptr]
  | _ => []

/-- The steps that call the scheduler resource; the others call the list of resources, or nothing. -/
def Action.schedules : Action Content Resource → Bool
  | .bindScheduler _ | .schedule => true
  | _ => false

/-- The resources whose `reload` has been called since `s`, in the order of the calls. -/
def State.calledSince (t s : State Content Doc Resource) : List Resource :=
  ((t.reloads.take (t.reloads.length - s.reloads.length)).map Prod.fst).reverse

abbrev Taken (Content Doc Resource : Type) :=
  State Content Doc Resource × Action Content Resource × State Content Doc Resource

variable {ps qs : List (Taken Content Doc Resource)}

/-- The calls `resource_scheduler_->reload` of a step, as the step has recorded them. -/
def started (p : Taken Content Doc Resource) : List Resource :=
  if p.2.1.schedules then p.2.2.calledSince p.1 else []

/-- The calls of a step to the resources of `bindConfig`, the last one first. -/
def listed (p : Taken Content Doc Resource) : List Resource :=
  match p.2.1 with
  | .reload => p.1.resources.reverse
  | .bindConfig ptr => [ptr]
  | _ => []

def binds (ps : List (Taken Content Doc Resource)) : List Resource :=
  ps.flatMap fun p => p.2.1.bound

def starts (ps : List (Taken Content Doc Resource)) : List Resource := ps.flatMap started

/-- The one resource that waits for a refresh. -/
def State.pending (s : State Content Doc Resource) : List Resource := s.resource_scheduler_.toList

theorem starts_append : starts (ps ++ qs) = starts ps ++ starts qs := List.flatMap_append

theorem calledSince_append {calls : List (Resource × Doc)}
    (h : t.reloads = calls ++ s.reloads) : t.calledSince s = (calls.map Prod.fst).reverse := by
  have hlen : t.reloads.length - s.reloads.length = calls.length := by
    rw [h, List.length_append]
    omega
  rw [State.calledSince, hlen, h, List.take_left]

/-- What a step calls is recorded with the document of the moment, and nothing else is. -/
theorem started_reloads (h : LooseStep parse s a t) :
    t.reloads = (listed (s, a, t) ++ started (s, a, t)).map (·, s.config.value) ++ s.reloads := by
  have hone {t : State Content Doc Resource} (ptr : Option Resource) (hschedules : a.schedules)
      (hlisted : listed (s, a, t) = [])
      (ht : t.reloads = ptr.toList.map (·, s.config.value) ++ s.reloads) :
      t.reloads = (listed (s, a, t) ++ started (s, a, t)).map (·, s.config.value) ++ s.reloads := by
    rw [hlisted, started, if_pos hschedules, calledSince_append ht, ht]
    cases ptr <;> rfl
  cases h with
  | step h =>
    cases h with
    | schedule hp => exact hone _ rfl rfl rfl
    | @bindScheduler ptr hp hn =>
      by_cases hf : s.file.map Version.time = some s.last_refresh_
      · exact hone (some ptr) rfl rfl (by simp [State.scheduled, hf])
      · exact hone none rfl rfl (by simp [State.scheduled, hf])
    | reload hp => simp [listed, started, Action.schedules]
    | _ => rfl
  | write | parse => rfl

/-- A step starts what was pending or has just been bound, or leaves it pending. -/
theorem step_pending (h : LooseStep parse s a t) :
    started (s, a, t) ++ t.pending = s.pending ++ a.bound := by
  have hcalled (calls : List (Resource × Doc)) {t : State Content Doc Resource}
      (hschedules : a.schedules) (ht : t.reloads = calls ++ s.reloads) :
      started (s, a, t) = (calls.map Prod.fst).reverse := by
    rw [started, if_pos hschedules, calledSince_append ht]
  cases h with
  | step h =>
    cases h with
    | schedule hp =>
      rw [hcalled _ rfl rfl]
      cases hptr : s.resource_scheduler_ <;> simp [State.pending, Action.bound, hptr]
    | @bindScheduler ptr hp hn =>
      by_cases hf : s.file.map Version.time = some s.last_refresh_
      · rw [hcalled [(ptr, s.config.value)] rfl (by simp [State.scheduled, hf])]
        simp [State.pending, State.scheduled, Action.bound, hn, hf]
      · rw [hcalled [] rfl (by simp [State.scheduled, hf])]
        simp [State.pending, State.scheduled, Action.bound, hn, hf]
    | _ => simp [started, Action.schedules, State.pending, Action.bound]
  | write => simp [started, Action.schedules, State.pending, Action.bound]
  | parse hp => simp [started, Action.schedules, State.pending, Action.bound]

theorem run_pending (h : Run (Traced (LooseStep parse)) s ps t) :
    starts ps ++ t.pending = s.pending ++ binds ps := by
  induction h with
  | refl => simp [starts, binds]
  | @stepL s m t p ps hst _ ih =>
    obtain ⟨s, a, m⟩ := p
    obtain ⟨rfl, rfl, hst⟩ := hst
    have hstep := step_pending hst
    calc starts ((s, a, m) :: ps) ++ t.pending
        = started (s, a, m) ++ (starts ps ++ t.pending) := by simp [starts]
      _ = (started (s, a, m) ++ m.pending) ++ binds ps := by rw [ih, List.append_assoc]
      _ = s.pending ++ binds ((s, a, m) :: ps) := by rw [hstep]; simp [binds]

theorem schedule_pending (h : LooseStep parse s .schedule t) : t.pending = [] := by
  cases h with
  | step h =>
    cases h
    rfl

theorem bindScheduler_pending {ptr : Resource} (h : LooseStep parse s (.bindScheduler ptr) t) :
    s.pending = [] := by
  cases h with
  | step h =>
    cases h with
    | bindScheduler hp hn => simp [State.pending, hn]

/-- The resources started are, in order, those given to `bindScheduler`, except one that still
waits. Nothing waits when a resource is bound, and once a refresh after its bind has loaded
the file the resource has been started; only one bound later can be waiting then. The calls are
those that the agent records, all but the calls to the resources of `bindConfig`. -/
theorem scheduler_started_once (hs : s.resource_scheduler_ = none)
    (hr : Run (Traced (LooseStep parse)) s ps t) :
    (∀ p ∈ ps,
      p.2.2.reloads = (listed p ++ started p).map (·, p.1.config.value) ++ p.1.reloads) ∧
    starts ps ++ t.resource_scheduler_.toList = binds ps ∧
    ∀ pre v w ptr post, ps = pre ++ (v, .bindScheduler ptr, w) :: post →
      starts pre = binds pre ∧
      starts ((v, .bindScheduler ptr, w) :: post) ++ t.resource_scheduler_.toList =
        ptr :: binds post ∧
      ((∃ p ∈ post, p.2.1 = .schedule) →
        ∃ rest, starts ((v, .bindScheduler ptr, w) :: post) = ptr :: rest ∧
          rest ++ t.resource_scheduler_.toList = binds post) := by
  have hall : starts ps ++ t.pending = binds ps := by simpa [State.pending, hs] using run_pending hr
  refine ⟨fun p hp => started_reloads (traced_step hr hp), hall, ?_⟩
  rintro pre v w ptr post rfl
  obtain ⟨x, hpre, hafter⟩ := run_split hr
  have hbefore : starts pre ++ x.pending = binds pre := by
    simpa [State.pending, hs] using run_pending hpre
  have hsince := run_pending hafter
  obtain ⟨y, hbind, hpost⟩ :
      ∃ y, Traced (LooseStep parse) x (v, .bindScheduler ptr, w) y ∧
        Run (Traced (LooseStep parse)) y post t := by
    cases hafter with
    | stepL hst hpost => exact ⟨_, hst, hpost⟩
  have hx : x.pending = [] := by
    obtain ⟨rfl, rfl, hst⟩ := hbind
    exact bindScheduler_pending hst
  have hone : starts ((v, .bindScheduler ptr, w) :: post) ++ t.pending = ptr :: binds post := by
    rw [hsince, hx]
    rfl
  refine ⟨by simpa [hx] using hbefore, hone, ?_⟩
  rintro ⟨⟨u, act, z⟩, hp, hact⟩
  obtain rfl : act = .schedule := hact
  obtain ⟨mid, rest, rfl⟩ := List.append_of_mem hp
  obtain ⟨_, z', hmid, hsched, _⟩ := run_split_label hpost
  -- the run from the bind to the end of that refresh leaves nothing pending
  have hz : z'.pending = [] := by
    obtain ⟨rfl, rfl, hst⟩ := hsched
    exact schedule_pending hst
  have hupto := run_pending (.stepL hbind (run_append hmid (run_single hsched)))
  have hdone : starts ((v, .bindScheduler ptr, w) :: (mid ++ [(u, .schedule, z)])) =
      ptr :: binds mid := by
    rw [hz, hx, List.append_nil, List.nil_append] at hupto
    rw [hupto]
    simp [binds, Action.bound]
  have hsplit : starts ((v, .bindScheduler ptr, w) :: (mid ++ (u, .schedule, z) :: rest)) =
      ptr :: (binds mid ++ starts rest) := by
    have happ : starts ((v, .bindScheduler ptr, w) :: (mid ++ [(u, .schedule, z)]) ++ rest) =
        starts ((v, .bindScheduler ptr, w) :: (mid ++ [(u, .schedule, z)])) ++ starts rest :=
      starts_append
    rw [hdone] at happ
    simpa using happ
  refine ⟨_, hsplit, ?_⟩
  rw [hsplit] at hone
  exact List.tail_eq_of_cons_eq hone

/-- A scheduler bound before the first refresh, and another one after it, which a rewrite that
does not parse keeps waiting for a later refresh. -/
def twoSchedulers : List (Action Nat Unit) :=
  [.exists, .fopen, .parse 1, .bindScheduler (), .refresh, .last_write_time, .exists, .fopen,
    .parse 1, .reload, .record, .schedule, .write ⟨0, 2⟩, .bindScheduler (), .refresh,
    .last_write_time, .exists, .fopen, .parse 0, .write ⟨3, 3⟩, .refresh, .last_write_time,
    .exists, .fopen, .parse 3, .reload, .record, .schedule]

theorem scheduler_started_once_two :
    ∃ t, Run (Traced (LooseStep parseNonzero)) oneFile
        (trace (exec parseNonzero) oneFile twoSchedulers) t ∧
      starts (trace (exec parseNonzero) oneFile twoSchedulers) ++
        t.resource_scheduler_.toList = [(), ()] := by
  obtain ⟨t, ht⟩ := exists_traced_of_execAll
    (fun s a t h => LooseStep.step (step_of_exec parseNonzero s a t h)) oneFile twoSchedulers
    (by decide)
  exact ⟨t, ht, (scheduler_started_once rfl ht).2.1⟩

end RabbitClient.ConfigAgent
