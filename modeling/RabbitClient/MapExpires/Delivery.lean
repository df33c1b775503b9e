import RabbitClient.MapExpires.Bookkeeping
import Mathlib.Data.Nat.Basic

/-! Every pending entry is handed over exactly once, by the first purge past its bucket. -/
namespace RabbitClient.MapExpires

variable {K V : Type} [LinearOrder K] {h : History K V} {ops pre post : List (Op K V)}
  {id : Nat} {time t : Int} {k : K} {v : V} {c : Cell K V}

theorem run_append_cons (pre : List (Op K V)) (op : Op K V) (post : List (Op K V)) :
    run (pre ++ op :: post) = post.foldl step (step (run pre) op) := by simp [run]

theorem inserted_unique {k' : K} {v' : V} {time' : Int} (hi : Inserted h id time k v)
    (hi' : Inserted h id time' k' v') : time' = time ∧ (k' = k → v' = v) := by
  obtain ⟨m, x, hm, hx, hv⟩ := hi
  obtain ⟨m', x', hm', hx', hv'⟩ := hi'
  rw [hm] at hm'
  obtain ⟨rfl, rfl⟩ := Prod.mk.inj (Option.some.inj hm')
  refine ⟨rfl, ?_⟩
  rintro rfl
  rw [← hv, ← hv', OrderedMap.value_unique hx hx']

theorem step_inserted_length (h : History K V) (op : Op K V) :
    h.inserted.length ≤ (step h op).inserted.length := by
  cases op <;> simp [step]

/-- Results are never taken back. -/
theorem delivered_foldl (hc : c ∈ h.delivered) (ops : List (Op K V)) :
    c ∈ (ops.foldl step h).delivered := by
  induction ops generalizing h with
  | nil => exact hc
  | cons op ops ih =>
    apply ih
    cases op with
    | reduce t =>
      simp only [History.delivered, step, List.flatten_append, cells_append]
      exact List.mem_append_left _ hc
    | _ => exact hc

theorem delivered_reduce (h : History K V) (t : Int) :
    (step h (.reduce t)).delivered = h.delivered ++ cells (reduce h.container t).2 := by
  simp [History.delivered, step]

/-- The entry was pending in its expired bucket when some `reduce` of the run began. -/
def HandedOver (ops : List (Op K V)) (c : Cell K V) : Prop :=
  ∃ pre t post, ops = pre ++ .reduce t :: post ∧ c ∈ (run pre).held ∧
    c.pending = true ∧ c.time < t

theorem handedOver_concat (hc : HandedOver ops c) (op : Op K V) : HandedOver (ops ++ [op]) c := by
  obtain ⟨pre, t, post, rfl, hrest⟩ := hc
  exact ⟨pre, t, post ++ [op], by simp, hrest⟩

theorem delivered_origin (hc : c ∈ (run ops).delivered) : HandedOver ops c := by
  induction ops using List.reverseRecOn with
  | nil => simp [History.delivered] at hc
  | append_singleton ops op ih =>
    rw [run_concat] at hc
    cases op with
    | reduce t =>
      rw [delivered_reduce, List.mem_append, reduce_collected, List.mem_filter] at hc
      rcases hc with hc | ⟨hc, hp⟩
      · exact handedOver_concat (ih hc) _
      · simp only [Bool.and_eq_true, decide_eq_true_eq] at hp
        exact ⟨ops, t, [], rfl, hc, hp.2, hp.1⟩
    | _ => exact handedOver_concat (ih hc) _

/-- A bucket that is already there is not inserted again. -/
theorem inserted_back {ops : List (Op K V)} (hi : Inserted (ops.foldl step h) id time k v)
    (hlt : id < h.inserted.length) : Inserted h id time k v := by
  induction ops generalizing h with
  | nil => exact hi
  | cons op ops ih =>
    obtain ⟨m, x, hm, hx, hv⟩ := ih hi (Nat.lt_of_lt_of_le hlt (step_inserted_length h op))
    refine ⟨m, x, ?_, hx, hv⟩
    cases op with
    | emplace_back now value => simpa [step, List.getElem?_append_left hlt] using hm
    | _ => exact hm

theorem step_held_id (hs : Sound h) (op : Op K V) (hc : c ∈ (step h op).held) :
    c.id = h.inserted.length ∨ ∃ d ∈ h.held, d.id = c.id := by
  cases op with
  | emplace_back now value =>
    simp only [History.held, step, emplace_back, cells_append, List.mem_append] at hc
    rcases hc with hc | hc
    · exact Or.inr ⟨c, hc, rfl⟩
    · obtain ⟨b, hb, hcb⟩ := mem_cells_id hc
      rw [List.mem_singleton.mp hb] at hcb
      exact Or.inl (mem_cells.mp hcb).1
  | markBucket n =>
    simp only [History.held, step, markBucket_cells] at hc
    exact Or.inr ⟨c, hc, rfl⟩
  | markEntry n k =>
    simp only [History.held, step, markEntry_cells hs.ids_nodup] at hc
    obtain ⟨d, hd, rfl⟩ := List.mem_map.mp hc
    exact Or.inr ⟨d, hd, (Cell.markIf_fields _ d).1.symm⟩
  | reduce t => exact Or.inr ⟨c, (List.mem_filter.mp (reduce_kept.subset hc)).1, rfl⟩

/-- The number of a bucket whose entries are gone is never used again. -/
theorem gone_foldl (hs : Sound h) (hlt : id < h.inserted.length)
    (hg : ∀ c ∈ h.held, c.id ≠ id) (ops : List (Op K V)) :
    ∀ c ∈ (ops.foldl step h).held, c.id ≠ id := by
  induction ops generalizing h with
  | nil => exact hg
  | cons op ops ih =>
    apply ih (sound_step hs op) (Nat.lt_of_lt_of_le hlt (step_inserted_length h op))
    intro c hc he
    rcases step_held_id hs op hc with hnew | ⟨d, hd, hdc⟩
    · omega
    · exact hg d hd (hdc.trans he)

theorem purge_gone (hs : Sound h) (hi : Inserted h id time k v) (ht : time < t) :
    ∀ c ∈ (step h (.reduce t)).held, c.id ≠ id := by
  intro c hc he
  obtain ⟨hc, hle⟩ := List.mem_filter.mp (reduce_kept.subset hc)
  have ho := hs.origin c (List.mem_append_left _ hc)
  rw [he] at ho
  have htime := (inserted_unique hi ho).1
  simp only [decide_eq_true_eq] at hle
  omega

theorem firstPurge_of_delivered (hi : Inserted (run ops) id time k v)
    (hc : c ∈ (run ops).delivered) (htag : c.tag = (id, k)) :
    ∃ pre t post, FirstPurge ops id time pre t post ∧ (id, k) ∉ (run pre).marked := by
  obtain ⟨pre, t, post, rfl, hheld, hp, hlt⟩ := delivered_origin hc
  obtain ⟨rfl, rfl⟩ := Prod.mk.inj htag
  have hs := sound_run pre
  have ho := hs.origin c (List.mem_append_left _ hheld)
  rw [run_append_cons, ← List.foldl_cons] at hi
  have hpre := inserted_back hi ho.lt
  have htime := (inserted_unique hpre ho).1
  refine ⟨pre, t, post, ⟨rfl, ho.lt, by omega, ?_⟩, ?_⟩
  · rintro pre' t' post' rfl hlt' ht'
    -- an earlier purge past the bucket would have emptied it for good
    rw [run_append_cons, ← List.foldl_cons] at hpre
    have hgone := gone_foldl (sound_step (sound_run pre') (.reduce t'))
      (Nat.lt_of_lt_of_le hlt' (step_inserted_length _ _))
      (purge_gone (sound_run pre') (inserted_back hpre hlt') ht') post'
    rw [run_append_cons] at hheld
    exact hgone c hheld rfl
  · intro hm
    have hmark := (hs.marks c hheld).mpr hm
    simp [Cell.pending, hmark] at hp

theorem delivered_of_firstPurge (hi : Inserted (run ops) id time k v)
    (hf : FirstPurge ops id time pre t post) (hm : (id, k) ∉ (run pre).marked) :
    ∃ c ∈ cells (reduce (run pre).container t).2, c.tag = (id, k) := by
  obtain ⟨rfl, hlt, ht, hfirst⟩ := hf
  have hs := sound_run pre
  rw [run_append_cons, ← List.foldl_cons] at hi
  have hpre := inserted_back hi hlt
  rcases hs.complete _ _ _ _ hpre with hmk | ⟨c, hc, htag⟩
  · exact (hm hmk).elim
  have ho := hs.origin c hc
  obtain ⟨rfl, rfl⟩ := Prod.mk.inj htag
  have htime := (inserted_unique hpre ho).1
  rcases List.mem_append.mp hc with hc | hc
  · refine ⟨c, ?_, rfl⟩
    rw [reduce_collected]
    have hp : c.value.mark = false := by
      have := mt (hs.marks c hc).mp hm
      simpa using this
    exact List.mem_filter.mpr ⟨hc, by simp [Cell.pending, hp, htime, ht]⟩
  · obtain ⟨pre', t', post', rfl, hc', -, hlt'⟩ := delivered_origin hc
    have ho' := (sound_run pre').origin c (List.mem_append_left _ hc')
    exact (hfirst pre' t' post' rfl ho'.lt (htime ▸ hlt')).elim

theorem firstPurge_unique {pre' : List (Op K V)} {t' : Int} {post' : List (Op K V)}
    (hf : FirstPurge ops id time pre t post) (hf' : FirstPurge ops id time pre' t' post') :
    pre = pre' ∧ t = t' := by
  obtain ⟨he, hlt, ht, hfirst⟩ := hf
  obtain ⟨he', hlt', ht', hfirst'⟩ := hf'
  rw [he] at he'
  rcases List.append_eq_append_iff.mp he' with ⟨as, rfl, has⟩ | ⟨as, rfl, has⟩
  · cases as with
    | nil => simp_all
    | cons a as =>
      obtain ⟨rfl, -⟩ := List.cons.inj has
      exact (hfirst' pre t as rfl hlt ht).elim
  · cases as with
    | nil => simp_all
    | cons a as =>
      obtain ⟨rfl, -⟩ := List.cons.inj has
      exact (hfirst pre' t' as rfl hlt' ht').elim

theorem places_append (cs ds : List (Cell K V)) (id : Nat) (k : K) :
    places (cs ++ ds) id k = places cs id k + places ds id k := by simp [places]

theorem places_eq_count (cs : List (Cell K V)) (id : Nat) (k : K) :
    places cs id k = (cs.map Cell.tag).count (id, k) := by
  simp only [places, List.count, List.countP_map]
  apply List.countP_congr
  intro c _
  simp [Function.comp]

theorem places_pos {cs : List (Cell K V)} :
    0 < places cs id k ↔ ∃ c ∈ cs, c.tag = (id, k) := by simp [places]

theorem places_of_unmarked (hs : Sound h) (hi : Inserted h id time k v)
    (hm : (id, k) ∉ h.marked) : places h.held id k + places h.delivered id k = 1 := by
  rw [← places_append, places_eq_count]
  apply List.count_eq_one_of_mem hs.tags_nodup
  rcases hs.complete _ _ _ _ hi with hmk | ⟨c, hc, htag⟩
  · exact (hm hmk).elim
  · exact htag ▸ List.mem_map_of_mem hc

theorem places_of_purge (hc : ∃ c ∈ cells (reduce (run pre).container t).2, c.tag = (id, k)) :
    places (cells (reduce (run pre).container t).2) id k = 1 := by
  have hn := (sound_step (sound_run pre) (.reduce t)).tags_nodup
  rw [delivered_reduce, ← List.append_assoc, List.map_append] at hn
  rw [places_eq_count]
  apply List.count_eq_one_of_mem (List.nodup_append.mp hn).2.1
  obtain ⟨c, hc, htag⟩ := hc
  exact htag ▸ List.mem_map_of_mem hc

/-- In every run each inserted entry that has not been marked is in exactly one place;
it is in a result exactly if the first purge past its bucket found it unmarked, then in the
result of that purge and with its own time and value; otherwise it is in none. -/
theorem delivers_exactly_once (ops : List (Op K V)) (id : Nat) (time : Int) (k : K) (v : V)
    (hi : Inserted (run ops) id time k v) :
    ((id, k) ∉ (run ops).marked →
      places (run ops).held id k + places (run ops).delivered id k = 1) ∧
    (∀ c ∈ (run ops).held ++ (run ops).delivered, c.tag = (id, k) →
      c.time = time ∧ c.value.value = v) ∧
    (0 < places (run ops).delivered id k ↔
      ∃ pre t post, FirstPurge ops id time pre t post ∧ (id, k) ∉ (run pre).marked) ∧
    (∀ pre t post, FirstPurge ops id time pre t post →
      ((id, k) ∉ (run pre).marked → places (cells (reduce (run pre).container t).2) id k = 1) ∧
      ((id, k) ∈ (run pre).marked → places (run ops).delivered id k = 0)) := by
  refine ⟨places_of_unmarked (sound_run ops) hi, ?_, ?_, ?_⟩
  · intro c hc htag
    obtain ⟨rfl, rfl⟩ := Prod.mk.inj htag
    obtain ⟨htime, hv⟩ := inserted_unique hi ((sound_run ops).origin c hc)
    exact ⟨htime, hv rfl⟩
  · rw [places_pos]
    constructor
    · rintro ⟨c, hc, htag⟩
      exact firstPurge_of_delivered hi hc htag
    · rintro ⟨pre, t, post, hf, hm⟩
      obtain ⟨c, hc, htag⟩ := delivered_of_firstPurge hi hf hm
      obtain ⟨rfl, -⟩ := hf
      refine ⟨c, ?_, htag⟩
      rw [run_append_cons]
      apply delivered_foldl
      rw [delivered_reduce]
      exact List.mem_append_right _ hc
  · intro pre t post hf
    constructor
    · intro hm
      exact places_of_purge (delivered_of_firstPurge hi hf hm)
    · intro hm
      by_contra hpos
      obtain ⟨c, hc, htag⟩ := places_pos.mp (Nat.pos_of_ne_zero hpos)
      obtain ⟨pre', t', post', hf', hm'⟩ := firstPurge_of_delivered hi hc htag
      obtain ⟨rfl, -⟩ := firstPurge_unique hf hf'
      exact hm' hm

/-- Two entries of one bucket, one marked before the purge past the bucket. -/
def twoEntries : List (Op Nat Nat) :=
  [.emplace_back 5 ⟨[(1, ⟨10, false⟩), (2, ⟨20, false⟩)], by decide⟩, .markEntry 0 1,
    .reduce 5, .reduce 6]

theorem delivers_exactly_once_twoEntries :
    places (run twoEntries).held 0 2 + places (run twoEntries).delivered 0 2 = 1 :=
  (delivers_exactly_once twoEntries 0 5 2 20 ⟨_, ⟨20, false⟩, rfl, by decide, rfl⟩).1
    (by decide)

end RabbitClient.MapExpires
