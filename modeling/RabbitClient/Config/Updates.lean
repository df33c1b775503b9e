import RabbitClient.Config.Agent

/-! A recorded refresh and what the bound resources were reloaded with. -/
namespace RabbitClient.ConfigAgent

open Lts

variable {Content Doc Resource : Type} [DecidableEq Resource] {parse : Content → Option Doc}
  {s t : State Content Doc Resource} {a : Action Content Resource} {r : Resource}

/-- The document of the latest reload of a resource. -/
def State.latest (s : State Content Doc Resource) (r : Resource) : Option Doc :=
  (s.reloads.find? (·.1 = r)).map Prod.snd

def PC.opensInRefresh : PC Content → Bool
  | .fopen (.refresh _) => true
  | _ => false

/-- A refresh fails to open the file while the document shows no parse error. -/
def StaleOpen (s : State Content Doc Resource) (a : Action Content Resource) : Prop :=
  a = .fopen ∧ s.pc.opensInRefresh = true ∧ s.opened = none ∧ s.config.HasParseError = false

instance [DecidableEq Content] (s : State Content Doc Resource) (a : Action Content Resource) :
    Decidable (StaleOpen s a) :=
  inferInstanceAs (Decidable (_ ∧ _ ∧ _ ∧ _))

/-- The latest version of the file, there or put aside. -/
def State.current (s : State Content Doc Resource) : Option (Version Content) :=
  s.file.or s.removed

/-- The recorded time is not that of the current version. -/
def Older (s : State Content Doc Resource) : Prop :=
  ∀ v, s.current = some v → s.last_refresh_ ≠ v.time

/-- If `time` is that of the current version, the document was parsed from it. -/
def Parsed (parse : Content → Option Doc) (s : State Content Doc Resource) (time : Nat) : Prop :=
  ∀ v, s.current = some v → time = v.time → parse v.content = some s.config.value

/-- Moreover every resource has been reloaded with the document. -/
def Reloaded (s : State Content Doc Resource) (time : Nat) : Prop :=
  ∀ v, s.current = some v → time = v.time → ∀ r ∈ s.resources, s.latest r = some s.config.value

/-- The time a refresh has read is one the file has had. -/
def Read (s : State Content Doc Resource) (k : Caller) : Prop :=
  ∀ time, k = .refresh time → time ∈ s.times

/-- What holds at each point of the agent's thread. -/
def AtPC (parse : Content → Option Doc) (s : State Content Doc Resource) : PC Content → Prop
  | .idle | .last_write_time | .schedule =>
    Parsed parse s s.last_refresh_ ∧ Reloaded s s.last_refresh_
  | .exists k | .fopen k => Older s ∧ Read s k
  | .parse k is => Older s ∧ Read s k ∧
      ∀ time v, k = .refresh time → s.current = some v → time = v.time → is = v
  | .reload time => Older s ∧ time ∈ s.times ∧ Parsed parse s time
  | .record time => Older s ∧ time ∈ s.times ∧ Parsed parse s time ∧ Reloaded s time

structure Inv (parse : Content → Option Doc) (s : State Content Doc Resource) : Prop where
  head : ∀ v, s.current = some v → s.times.head? = some v.time
  zero : 0 ∉ s.times
  known : s.last_refresh_ = 0 ∨ s.last_refresh_ ∈ s.times
  atPC : AtPC parse s s.pc

/-- One more reload with the document leaves everybody who had it up to date. -/
theorem latest_append {d : Doc} {l : List (Resource × Doc)} (hl : ∀ x ∈ l, x.2 = d)
    (ht : t.reloads = l ++ s.reloads) (h : s.latest r = some d ∨ r ∈ l.map Prod.fst) :
    t.latest r = some d := by
  rw [State.latest, ht, List.find?_append]
  cases hf : l.find? (·.1 = r) with
  | some x =>
    have hx := hl x (List.mem_of_find?_eq_some hf)
    simp [hx]
  | none =>
    rcases h with h | h
    · simpa [State.latest] using h
    · obtain ⟨x, hx, rfl⟩ := List.mem_map.mp h
      simpa using List.find?_eq_none.mp hf x hx

theorem atPC_of_older (h : Older s) :
    Parsed parse s s.last_refresh_ ∧ Reloaded s s.last_refresh_ :=
  ⟨fun v hv ht => (h v hv ht).elim, fun v hv ht => (h v hv ht).elim⟩

/-- A write makes every time read or recorded before it an old one. -/
theorem inv_write {v : Version Content} (h : Inv parse s) (hn : v.time ∉ s.times)
    (h0 : v.time ≠ 0) (hf : t.file = some v) (ht : t.times = v.time :: s.times)
    (hl : t.last_refresh_ = s.last_refresh_) (hp : t.pc = s.pc) : Inv parse t := by
  have hcur : ∀ w, t.current = some w → w = v := by
    intro w hw
    simpa [State.current, hf, eq_comm] using hw
  have hold : ∀ {time w}, time ∈ s.times → t.current = some w → time ≠ w.time := by
    intro time w hmem hw heq
    rw [hcur w hw] at heq
    exact hn (heq ▸ hmem)
  have holder : Older t := by
    intro w hw
    rw [hl]
    rcases h.known with hz | hk
    · rw [hcur w hw, hz]
      exact Ne.symm h0
    · exact hold hk hw
  have hread : ∀ {k}, Read s k → Read t k := by
    intro k hk time he
    rw [ht]
    exact List.mem_cons_of_mem _ (hk time he)
  refine ⟨?_, ?_, ?_, ?_⟩
  · intro w hw
    rw [ht, hcur w hw]
    rfl
  · rw [ht]
    simp [h.zero, Ne.symm h0]
  · rw [hl, ht]
    exact h.known.imp_right (List.mem_cons_of_mem _)
  · rw [hp]
    have hpc := h.atPC
    cases hs : s.pc with
    | idle | last_write_time | schedule => exact atPC_of_older holder
    | «exists» k | fopen k =>
      rw [hs] at hpc
      exact ⟨holder, hread hpc.2⟩
    | parse k is =>
      rw [hs] at hpc
      refine ⟨holder, hread hpc.2.1, ?_⟩
      intro time w he hw heq
      exact (hold (hpc.2.1 time he) hw heq).elim
    | reload time =>
      rw [hs] at hpc
      exact ⟨holder, ht ▸ List.mem_cons_of_mem _ hpc.2.1, fun w hw he => (hold hpc.2.1 hw he).elim⟩
    | record time =>
      rw [hs] at hpc
      exact ⟨holder, ht ▸ List.mem_cons_of_mem _ hpc.2.1, fun w hw he => (hold hpc.2.1 hw he).elim,
        fun w hw he => (hold hpc.2.1 hw he).elim⟩

/-- Steps that leave the version, the document and the agent's thread alone. -/
theorem inv_frame (h : Inv parse s) (hc : t.current = s.current) (hts : t.times = s.times)
    (hd : t.config = s.config) (hr : t.resources = s.resources)
    (hl : t.last_refresh_ = s.last_refresh_) (hre : t.reloads = s.reloads) (hp : t.pc = s.pc) :
    Inv parse t := by
  refine ⟨?_, ?_, ?_, ?_⟩
  · simpa only [hc, hts] using h.head
  · simpa only [hts] using h.zero
  · simpa only [hl, hts] using h.known
  · have hpc := h.atPC
    rw [hp]
    cases hs : s.pc <;> rw [hs] at hpc <;>
      simpa only [AtPC, Older, Read, Parsed, Reloaded, State.latest, hc, hts, hd, hr, hl, hre]
        using hpc

theorem inv_setPC {p : PC Content} (h : Inv parse s) (hp : AtPC parse s p) :
    Inv parse { s with pc := p } :=
  ⟨h.head, h.zero, h.known, hp⟩

theorem reloaded_append {l : List (Resource × Doc)} {rs : List Resource} {time : Nat}
    (hl : ∀ x ∈ l, x.2 = s.config.value)
    (hrs : ∀ r ∈ rs, r ∈ s.resources ∨ r ∈ l.map Prod.fst) (h : Reloaded s time) :
    Reloaded { s with resources := rs, reloads := l ++ s.reloads } time := by
  intro v hv ht r hr
  refine latest_append hl rfl ?_
  exact (hrs r hr).imp_left (h v hv ht r)

/-- Reloads with the document in hand, of resources old and new. -/
theorem inv_reloads {l : List (Resource × Doc)} {rs : List Resource} (h : Inv parse s)
    (hl : ∀ x ∈ l, x.2 = s.config.value)
    (hrs : ∀ r ∈ rs, r ∈ s.resources ∨ r ∈ l.map Prod.fst) :
    Inv parse { s with resources := rs, reloads := l ++ s.reloads } := by
  refine ⟨h.head, h.zero, h.known, ?_⟩
  have hpc := h.atPC
  cases hs : s.pc with
  | idle | last_write_time | schedule =>
    rw [hs] at hpc
    exact ⟨hpc.1, reloaded_append hl hrs hpc.2⟩
  | «exists» k | fopen k | parse k is | reload time =>
    rw [hs] at hpc
    exact hpc
  | record time =>
    rw [hs] at hpc
    exact ⟨hpc.1, hpc.2.1, hpc.2.2.1, reloaded_append hl hrs hpc.2.2.2⟩

theorem atPC_timeRead (h : Inv parse s) (hp : s.pc = .last_write_time) :
    AtPC parse s s.timeRead := by
  have hpc := h.atPC
  rw [hp] at hpc
  cases hf : s.file with
  | none =>
    simp only [State.timeRead, hf]
    exact hpc
  | some v =>
    have hcur : s.current = some v := by simp [State.current, hf]
    simp only [State.timeRead, hf]
    split
    · exact hpc
    · rename_i hne
      refine ⟨?_, ?_⟩
      · intro w hw
        rw [Option.some.inj (hw.symm.trans hcur)]
        exact Ne.symm hne
      · intro time he
        cases he
        exact List.mem_of_head? (h.head v hcur)

/-- A load that ends without a reload changes nothing that was recorded. -/
theorem atPC_loaded {k : Caller} {d : Document Doc} (ho : Older s)
    (hk : ∀ time, k = .refresh time → d.HasParseError = false →
      time ∈ s.times ∧ Parsed parse s time) : AtPC parse s (loaded k d) := by
  simp only [loaded]
  split
  · exact atPC_of_older ho
  · rename_i he
    cases k with
    | constructor => exact atPC_of_older ho
    | refresh time =>
      obtain ⟨hmem, hparsed⟩ := hk time rfl (by simpa using he)
      exact ⟨ho, hmem, hparsed⟩

/-- A successful parse is a parse of the version whose time was read, if that is current. -/
theorem inv_parse {k : Caller} {is : Version Content} {x : Content} (h : Inv parse s)
    (hp : s.pc = .parse k is) (hx : s.Delivers is x) :
    Inv parse { s with
      config := s.config.ParseStream parse x
      pc := loaded k (s.config.ParseStream parse x) } := by
  have hpc := h.atPC
  rw [hp] at hpc
  obtain ⟨ho, hread, his⟩ := hpc
  refine ⟨h.head, h.zero, h.known, atPC_loaded ho ?_⟩
  intro time hk he
  refine ⟨hread time hk, ?_⟩
  intro v hv htime
  obtain rfl : is = v := his time v hk hv htime
  have hcontent : x = is.content := by
    rcases hx with hx | hx
    · exact hx
    · exact (hx (h.head is hv)).elim
  subst x
  cases hd : parse is.content with
  | none => simp [Document.ParseStream, hd] at he
  | some d => simp [Document.ParseStream, hd]

theorem inv_step (h : Step parse s a t) (hs : Inv parse s) (hok : ¬ StaleOpen s a) :
    Inv parse t := by
  have hpc := hs.atPC
  cases h with
  | write hn h0 => exact inv_write hs hn h0 rfl rfl rfl rfl
  | @remove v hf =>
    exact inv_frame hs (by simp [State.current, hf]) rfl rfl rfl rfl rfl rfl
  | @restore v hf hr =>
    exact inv_frame hs (by simp [State.current, hf, hr]) rfl rfl rfl rfl rfl rfl
  | chmod => exact inv_frame hs rfl rfl rfl rfl rfl rfl rfl
  | refresh hp =>
    rw [hp] at hpc
    refine inv_setPC hs ?_
    split <;> exact hpc
  | last_write_time hp => exact inv_setPC hs (atPC_timeRead hs hp)
  | «exists» hp =>
    rw [hp] at hpc
    refine inv_setPC hs ?_
    split
    · exact hpc
    · exact atPC_of_older hpc.1
  | @opened k is hp ho =>
    rw [hp] at hpc
    refine inv_setPC hs ⟨hpc.1, hpc.2, ?_⟩
    intro time v _ hv _
    have hf : s.file = some is := by
      simp only [State.opened, Option.ite_none_right_eq_some] at ho
      exact ho.2
    simpa [State.current, hf] using hv
  | @unopened k hp ho =>
    rw [hp] at hpc
    refine inv_setPC hs (atPC_loaded hpc.1 ?_)
    intro time hk he
    subst k
    exact (hok ⟨rfl, by rw [hp]; rfl, ho, he⟩).elim
  | parse hp hx => exact inv_parse hs hp hx
  | @reload time hp =>
    rw [hp] at hpc
    refine ⟨hs.head, hs.zero, hs.known, hpc.1, hpc.2.1, hpc.2.2, ?_⟩
    intro v _ _ r hr
    refine latest_append (s := s) ?_ rfl (Or.inr ?_)
    · simp
    · simpa using hr
  | @record time hp =>
    rw [hp] at hpc
    exact ⟨hs.head, hs.zero, Or.inr hpc.2.1, hpc.2.2⟩
  | schedule hp =>
    rw [hp] at hpc
    refine ⟨hs.head, hs.zero, hs.known, hpc.1, ?_⟩
    exact reloaded_append (by simp) (fun r hr => Or.inl hr) hpc.2
  | bindConfig =>
    refine inv_reloads (l := [(_, s.config.value)]) hs (by simp) ?_
    intro r hr
    simpa using hr
  | bindScheduler =>
    simp only [State.scheduled]
    split
    · exact inv_reloads (l := [(_, s.config.value)]) hs (by simp) (fun r hr => Or.inl hr)
    · exact ⟨hs.head, hs.zero, hs.known, hpc⟩

/-- Content 0 does not parse; every other content is its own document. -/
def parseNonzero (x : Nat) : Option Nat := if x = 0 then none else some x

def oneFile : State Nat Nat Unit where
  file := some ⟨1, 1⟩
  removed := none
  readable := true
  times := [1]
  config := ⟨0, false⟩
  resources := []
  resource_scheduler_ := none
  last_refresh_ := 0
  pc := .exists .constructor
  reloads := []

end RabbitClient.ConfigAgent
