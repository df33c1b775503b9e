import RabbitClient.MapExpires.History
import Mathlib.Data.List.Induction

/-! The bookkeeping invariant of a history and its preservation by every operation. -/
namespace RabbitClient.MapExpires

variable {K V : Type} [LinearOrder K] {h : History K V} {bs : List (Bucket K V)}
  {n : Nat} {k : K} {t : Int}

/-- Every recorded entry is in at most one place, comes from its insertion, carries its
true mark, and is missing only if it has been marked. -/
structure Sound (h : History K V) : Prop where
  ids : ∀ b ∈ h.container, b.id < h.inserted.length
  ids_nodup : (h.container.map Bucket.id).Nodup
  tags_nodup : ((h.held ++ h.delivered).map Cell.tag).Nodup
  origin : ∀ c ∈ h.held ++ h.delivered, Inserted h c.id c.time c.key c.value.value
  marks : ∀ c ∈ h.held, c.value.mark = true ↔ c.tag ∈ h.marked
  delivered_unmarked : ∀ c ∈ h.delivered, c.tag ∉ h.marked
  marked_ids : ∀ p ∈ h.marked, p.1 < h.inserted.length
  complete : ∀ id time k v, Inserted h id time k v →
    (id, k) ∈ h.marked ∨ ∃ c ∈ h.held ++ h.delivered, c.tag = (id, k)

theorem Inserted.lt {h : History K V} {id : Nat} {time : Int} {k : K} {v : V}
    (hi : Inserted h id time k v) : id < h.inserted.length := by
  obtain ⟨m, x, hm, -, -⟩ := hi
  exact (List.getElem?_eq_some_iff.mp hm).1

theorem Inserted.step {h : History K V} {id : Nat} {time : Int} {k : K} {v : V}
    (hi : Inserted h id time k v) (op : Op K V) :
    Inserted (MapExpires.step h op) id time k v := by
  obtain ⟨m, x, hm, hx, hv⟩ := hi
  cases op with
  | emplace_back now value =>
    refine ⟨m, x, ?_, hx, hv⟩
    have hlt := (List.getElem?_eq_some_iff.mp hm).1
    simpa [MapExpires.step, List.getElem?_append_left hlt] using hm
  | _ => exact ⟨m, x, hm, hx, hv⟩

theorem sound_empty : Sound ({} : History K V) where
  ids := by simp
  ids_nodup := by simp
  tags_nodup := by simp [History.held, History.delivered]
  origin := by simp [History.held, History.delivered]
  marks := by simp [History.held]
  delivered_unmarked := by simp [History.delivered]
  marked_ids := by simp
  complete := by simp [Inserted]

theorem markBucket_cells (bs : List (Bucket K V)) (n : Nat) :
    cells (markBucket bs n) = cells bs := by
  induction bs generalizing n with
  | nil => simp [markBucket]
  | cons b bs ih =>
    cases n with
    | zero => rfl
    | succ n =>
      have := ih n
      simp only [markBucket] at this
      simp [markBucket, this]

theorem map_id_modify (bs : List (Bucket K V)) (n : Nat) (f : Bucket K V → Bucket K V)
    (hf : ∀ b, (f b).id = b.id) : (bs.modify n f).map Bucket.id = bs.map Bucket.id := by
  induction bs generalizing n with
  | nil => simp
  | cons b bs ih =>
    cases n with
    | zero => simp [hf]
    | succ n => simp [ih]

/-- The effect of marking the entries of a list. -/
def Cell.markIf (ts : List (Nat × K)) (c : Cell K V) : Cell K V :=
  if c.tag ∈ ts then { c with value := { c.value with mark := true } } else c

theorem Cell.markIf_of_mem {ts : List (Nat × K)} {c : Cell K V} (hc : c.tag ∈ ts) :
    c.markIf ts = { c with value := { c.value with mark := true } } := if_pos hc

theorem Cell.markIf_of_notMem {ts : List (Nat × K)} {c : Cell K V} (hc : c.tag ∉ ts) :
    c.markIf ts = c := if_neg hc

@[simp] theorem Cell.markIf_tag (ts : List (Nat × K)) (c : Cell K V) :
    (c.markIf ts).tag = c.tag := by
  unfold markIf
  split <;> rfl

theorem Cell.markIf_fields (ts : List (Nat × K)) (c : Cell K V) :
    (c.markIf ts).id = c.id ∧ (c.markIf ts).time = c.time ∧ (c.markIf ts).key = c.key ∧
      (c.markIf ts).value.value = c.value.value := by
  unfold markIf
  split <;> exact ⟨rfl, rfl, rfl, rfl⟩

theorem Cell.markIf_mark (ts : List (Nat × K)) (c : Cell K V) :
    (c.markIf ts).value.mark = true ↔ c.tag ∈ ts ∨ c.value.mark = true := by
  unfold markIf
  split
  · simp_all
  · simp_all

theorem map_markIf_of_id {ts : List (Nat × K)} {cs : List (Cell K V)}
    (hne : ∀ c ∈ cs, ∀ p ∈ ts, p.1 ≠ c.id) : cs.map (Cell.markIf ts) = cs := by
  refine (List.map_congr_left ?_).trans (List.map_id _)
  intro c hc
  exact Cell.markIf_of_notMem fun hm => hne c hc _ hm rfl

theorem mem_hit {p : Nat × K} (hp : p ∈ hit bs n k) :
    ∃ b ∈ bs, p = (b.id, k) ∧ k ∈ b.entries.map Prod.fst := by
  unfold hit at hp
  split at hp
  · rename_i b hb
    split at hp
    · rename_i hk
      exact ⟨b, List.mem_of_getElem? hb, List.mem_singleton.mp hp, hk⟩
    · simp at hp
  · simp at hp

theorem mem_cells_id {c : Cell K V} (hc : c ∈ cells bs) : ∃ b ∈ bs, c ∈ b.cells :=
  List.mem_flatMap.mp hc

/-- Marking a key of one bucket, seen on its entries. -/
theorem mark_bucket_cells (b : Bucket K V) (k : K) :
    Bucket.cells { b with
      entryList := { b.entryList with
        value := b.entryList.value.modify k fun v => { v with mark := true } } } =
      b.cells.map (Cell.markIf (if k ∈ b.entries.map Prod.fst then [(b.id, k)] else [])) := by
  have hts : ∀ x ∈ b.entries,
      (b.id, x.1) ∈ (if k ∈ b.entries.map Prod.fst then [(b.id, k)] else []) ↔ x.1 = k := by
    intro x hx
    split
    · simp
    · rename_i hk
      have hne : x.1 ≠ k := fun he => hk (he ▸ List.mem_map_of_mem hx)
      simp [hne]
  generalize (if k ∈ b.entries.map Prod.fst then [(b.id, k)] else []) = ts at hts ⊢
  simp only [Bucket.cells, Bucket.entries, OrderedMap.modify, List.map_map]
  apply List.map_congr_left
  intro x hx
  have hx := hts x hx
  by_cases hk : x.1 = k
  · simp only [Function.comp, if_pos hk]
    exact (Cell.markIf_of_mem (c := ⟨b.id, b.time, x.1, x.2⟩) (hx.mpr hk)).symm
  · simp only [Function.comp, if_neg hk]
    exact (Cell.markIf_of_notMem (mt hx.mp hk)).symm

theorem markEntry_cells (hn : (bs.map Bucket.id).Nodup) :
    cells (markEntry bs n k) = (cells bs).map (Cell.markIf (hit bs n k)) := by
  induction bs generalizing n with
  | nil => simp [markEntry]
  | cons b bs ih =>
    obtain ⟨hb, hbs⟩ := List.nodup_cons.mp hn
    have hother : ∀ b' ∈ bs, b'.id ≠ b.id := fun b' hb' he => hb (he ▸ List.mem_map_of_mem hb')
    cases n with
    | zero =>
      have hhit : hit (b :: bs) 0 k = if k ∈ b.entries.map Prod.fst then [(b.id, k)] else [] := rfl
      have htail : (cells bs).map (Cell.markIf (hit (b :: bs) 0 k)) = cells bs := by
        apply map_markIf_of_id
        intro c hc p hp
        obtain ⟨b', hb', hcb⟩ := mem_cells_id hc
        rw [hhit] at hp
        split at hp
        · rw [List.mem_singleton.mp hp, (mem_cells.mp hcb).1]
          exact (hother b' hb').symm
        · simp at hp
      rw [cells_cons, List.map_append, htail, hhit, ← mark_bucket_cells]
      rfl
    | succ n =>
      have hhit : hit (b :: bs) (n + 1) k = hit bs n k := by simp [hit]
      have hhead : b.cells.map (Cell.markIf (hit bs n k)) = b.cells := by
        apply map_markIf_of_id
        intro c hc p hp
        obtain ⟨b', hb', rfl, -⟩ := mem_hit hp
        rw [(mem_cells.mp hc).1]
        exact hother b' hb'
      rw [cells_cons, List.map_append, hhit, hhead, ← ih hbs]
      simp [markEntry]

theorem bucket_tags_nodup (b : Bucket K V) : (b.cells.map Cell.tag).Nodup := by
  have hk := b.entryList.value.keys_nodup
  have he : b.cells.map Cell.tag =
      (b.entryList.value.toList.map Prod.fst).map fun k => (b.id, k) := by
    simp only [Bucket.cells, Bucket.entries, List.map_map]
    rfl
  rw [he]
  exact hk.map fun k k' h => congrArg Prod.snd h

/-- Buckets whose numbers are those of old buckets. -/
theorem Sound.ids_of_subset (hs : Sound h) {bs : List (Bucket K V)}
    (hids : bs.map Bucket.id ⊆ h.container.map Bucket.id) : ∀ b ∈ bs, b.id < h.inserted.length := by
  intro b hb
  obtain ⟨b', hb', he⟩ := List.mem_map.mp (hids (List.mem_map_of_mem hb))
  rw [← he]
  exact hs.ids b' hb'

theorem held_emplace_back (h : History K V) (now : Int) (value : Map K V) :
    (step h (.emplace_back now value)).held =
      h.held ++ Bucket.cells ⟨h.inserted.length, now, { value := value }⟩ := by
  simp [History.held, step, emplace_back]

theorem fst_of_mem_premarked {m : Map K V} {p : Nat × K} (hp : p ∈ premarked n m) : p.1 = n := by
  obtain ⟨x, -, rfl⟩ := List.mem_map.mp hp
  rfl

/-- An entry inserted with a mark counts as marked. -/
theorem mem_premarked {m : Map K V} {c : Cell K V} (hi : c.id = n)
    (hc : (c.key, c.value) ∈ m.toList) : c.tag ∈ premarked n m ↔ c.value.mark = true := by
  constructor
  · intro hp
    obtain ⟨y, hy, hyc⟩ := List.mem_map.mp hp
    obtain ⟨hy, hm⟩ := List.mem_filter.mp hy
    have hkey : y.1 = c.key := congrArg Prod.snd hyc
    have hv : y.2 = c.value := OrderedMap.value_unique (k := c.key) (hkey ▸ hy) hc
    exact hv ▸ hm
  · intro hm
    refine List.mem_map.mpr ⟨(c.key, c.value), List.mem_filter.mpr ⟨hc, hm⟩, ?_⟩
    simp [Cell.tag, hi]

/-- What is inserted after an insertion was inserted before or is in the new bucket. -/
theorem inserted_emplace_back {now : Int} {value : Map K V} {id : Nat} {time : Int} {v : V}
    (hi : Inserted (step h (.emplace_back now value)) id time k v) :
    Inserted h id time k v ∨
      ∃ x, (⟨id, time, k, x⟩ : Cell K V) ∈
        Bucket.cells ⟨h.inserted.length, now, { value := value }⟩ := by
  obtain ⟨m, x, hm, hx, hv⟩ := hi
  by_cases hlt : id < h.inserted.length
  · left
    refine ⟨m, x, ?_, hx, hv⟩
    simpa [step, List.getElem?_append_left hlt] using hm
  · right
    have hid : id = h.inserted.length := by
      have hle := (List.getElem?_eq_some_iff.mp hm).1
      simp only [step, List.length_append, List.length_singleton] at hle
      omega
    subst id
    have hvm : (time, m) = (now, value) := by simpa [step] using hm.symm
    obtain ⟨rfl, rfl⟩ := Prod.mk.inj hvm
    exact ⟨x, mem_cells.mpr ⟨rfl, rfl, hx⟩⟩

/-- The new bucket has a number of its own. -/
theorem ids_nodup_emplace_back (hs : Sound h) (now : Int) (value : Map K V) :
    ((step h (.emplace_back now value)).container.map Bucket.id).Nodup := by
  simp only [step, emplace_back, List.map_append, List.map_cons, List.map_nil]
  refine List.nodup_append.mpr ⟨hs.ids_nodup, List.pairwise_singleton .., ?_⟩
  intro i hi j hj
  obtain ⟨b, hb, rfl⟩ := List.mem_map.mp hi
  have hlt := hs.ids b hb
  rw [List.mem_singleton.mp hj]
  omega

/-- Its entries have tags of their own. -/
theorem tags_nodup_emplace_back (hs : Sound h) (now : Int) (value : Map K V) :
    (((step h (.emplace_back now value)).held ++ h.delivered).map Cell.tag).Nodup := by
  let new : Bucket K V := ⟨h.inserted.length, now, { value := value }⟩
  have hp : List.Perm ((h.held ++ h.delivered) ++ new.cells)
      ((h.held ++ new.cells) ++ h.delivered) := by
    simp only [List.append_assoc]
    exact List.Perm.append_left _ List.perm_append_comm
  rw [held_emplace_back]
  refine (hp.map Cell.tag).nodup ?_
  rw [List.map_append]
  refine List.nodup_append.mpr ⟨hs.tags_nodup, bucket_tags_nodup new, ?_⟩
  intro p hp q hq hpq
  obtain ⟨c, hc, rfl⟩ := List.mem_map.mp hp
  obtain ⟨d, hd, rfl⟩ := List.mem_map.mp hq
  have hold : c.id < h.inserted.length := (hs.origin c hc).lt
  have hnew : d.id = h.inserted.length := (mem_cells.mp hd).1
  have hid : c.id = d.id := congrArg Prod.fst hpq
  omega

/-- An entry of an earlier bucket is not touched by the new marks. -/
theorem marked_emplace_back (hs : Sound h) (now : Int) (value : Map K V) {c : Cell K V}
    (hc : c ∈ h.held ++ h.delivered) :
    c.tag ∈ (step h (.emplace_back now value)).marked ↔ c.tag ∈ h.marked := by
  have hmarked : (step h (.emplace_back now value)).marked =
      premarked h.inserted.length value ++ h.marked := rfl
  rw [hmarked, List.mem_append]
  refine or_iff_right fun hp => ?_
  have hid : c.id = h.inserted.length := fst_of_mem_premarked hp
  have hlt : c.id < h.inserted.length := (hs.origin c hc).lt
  omega

theorem sound_emplace_back (hs : Sound h) (now : Int) (value : Map K V) :
    Sound (step h (.emplace_back now value)) := by
  let new : Bucket K V := ⟨h.inserted.length, now, { value := value }⟩
  have hheld : (step h (.emplace_back now value)).held = h.held ++ new.cells :=
    held_emplace_back h now value
  have hdel : (step h (.emplace_back now value)).delivered = h.delivered := rfl
  have hmarked : (step h (.emplace_back now value)).marked =
      premarked h.inserted.length value ++ h.marked := rfl
  have hlen : (step h (.emplace_back now value)).inserted.length = h.inserted.length + 1 := by
    simp [step]
  have hnew : ∀ c ∈ new.cells, c.id = h.inserted.length ∧ c.time = now ∧
      (c.key, c.value) ∈ value.toList := fun c hc => mem_cells.mp hc
  constructor
  · intro b hb
    rw [hlen]
    simp only [step, emplace_back, List.mem_append, List.mem_singleton] at hb
    rcases hb with hb | rfl
    · have hlt := hs.ids b hb
      omega
    · exact Nat.lt_succ_self _
  · exact ids_nodup_emplace_back hs now value
  · exact tags_nodup_emplace_back hs now value
  · intro c hc
    rw [hheld, hdel] at hc
    simp only [List.mem_append] at hc
    rcases hc with (hc | hc) | hc
    · exact (hs.origin c (List.mem_append_left _ hc)).step _
    · obtain ⟨hi, ht, hx⟩ := hnew c hc
      exact ⟨value, c.value, by simp [step, hi, ht], hx, rfl⟩
    · exact (hs.origin c (List.mem_append_right _ hc)).step _
  · intro c hc
    rw [hheld] at hc
    rcases List.mem_append.mp hc with hc | hc
    · rw [marked_emplace_back hs now value (List.mem_append_left _ hc)]
      exact hs.marks c hc
    · obtain ⟨hi, -, hx⟩ := hnew c hc
      have hno : c.tag ∉ h.marked := by
        intro hm
        have hlt : c.id < h.inserted.length := hs.marked_ids _ hm
        omega
      rw [hmarked, List.mem_append, mem_premarked hi hx]
      exact (or_iff_left hno).symm
  · intro c hc
    rw [marked_emplace_back hs now value (List.mem_append_right _ hc)]
    exact hs.delivered_unmarked c hc
  · intro p hp
    rw [hlen]
    rcases List.mem_append.mp hp with hp | hp
    · have hid := fst_of_mem_premarked hp
      omega
    · have hlt := hs.marked_ids p hp
      omega
  · intro id time k v hi
    rw [hheld, hdel]
    rcases inserted_emplace_back hi with hi | ⟨x, hx⟩
    · rcases hs.complete _ _ _ _ hi with hmk | ⟨c, hc, htag⟩
      · exact Or.inl (List.mem_append_right _ hmk)
      · refine Or.inr ⟨c, ?_, htag⟩
        simp only [List.mem_append] at hc ⊢
        exact hc.imp_left Or.inl
    · refine Or.inr ⟨⟨id, time, k, x⟩, ?_, rfl⟩
      exact List.mem_append_left _ (List.mem_append_right _ hx)

theorem sound_markBucket (hs : Sound h) (n : Nat) : Sound (step h (.markBucket n)) := by
  have hheld : (step h (.markBucket n)).held = h.held := markBucket_cells h.container n
  have hids : (step h (.markBucket n)).container.map Bucket.id = h.container.map Bucket.id :=
    map_id_modify _ _ _ fun _ => rfl
  constructor
  · exact hs.ids_of_subset (hids ▸ List.Subset.refl _)
  · rw [hids]
    exact hs.ids_nodup
  · rw [hheld]
    exact hs.tags_nodup
  · rw [hheld]
    exact hs.origin
  · rw [hheld]
    exact hs.marks
  · exact hs.delivered_unmarked
  · exact hs.marked_ids
  · rw [hheld]
    exact hs.complete

theorem sound_markEntry (hs : Sound h) (n : Nat) (k : K) : Sound (step h (.markEntry n k)) := by
  have hheld : (step h (.markEntry n k)).held = h.held.map (Cell.markIf (hit h.container n k)) :=
    markEntry_cells hs.ids_nodup
  have hids : (step h (.markEntry n k)).container.map Bucket.id = h.container.map Bucket.id :=
    map_id_modify _ _ _ fun _ => rfl
  have htags : (step h (.markEntry n k)).held.map Cell.tag = h.held.map Cell.tag := by
    rw [hheld, List.map_map]
    exact List.map_congr_left fun c _ => Cell.markIf_tag _ c
  -- the marked entry is in the container, hence not in a result
  have hhit : ∀ p ∈ hit h.container n k, p ∈ h.held.map Cell.tag := by
    intro p hp
    obtain ⟨b, hb, rfl, hk⟩ := mem_hit hp
    obtain ⟨x, hx, rfl⟩ := List.mem_map.mp hk
    refine List.mem_map.mpr ⟨⟨b.id, b.time, x.1, x.2⟩, ?_, rfl⟩
    exact List.mem_flatMap.mpr ⟨b, hb, mem_cells.mpr ⟨rfl, rfl, hx⟩⟩
  constructor
  · exact hs.ids_of_subset (hids ▸ List.Subset.refl _)
  · rw [hids]
    exact hs.ids_nodup
  · have hn := hs.tags_nodup
    rw [List.map_append] at hn ⊢
    rw [htags]
    exact hn
  · intro c hc
    rcases List.mem_append.mp hc with hc | hc
    · rw [hheld] at hc
      obtain ⟨d, hd, rfl⟩ := List.mem_map.mp hc
      obtain ⟨hi, ht, hk, hv⟩ := Cell.markIf_fields (hit h.container n k) d
      rw [hi, ht, hk, hv]
      exact hs.origin d (List.mem_append_left _ hd)
    · exact hs.origin c (List.mem_append_right _ hc)
  · intro c hc
    rw [hheld] at hc
    obtain ⟨d, hd, rfl⟩ := List.mem_map.mp hc
    rw [Cell.markIf_mark, Cell.markIf_tag, hs.marks d hd]
    exact List.mem_append.symm
  · intro c hc hm
    rcases List.mem_append.mp hm with hm | hm
    · have hn := hs.tags_nodup
      rw [List.map_append] at hn
      exact (List.nodup_append.mp hn).2.2 _ (hhit _ hm) _ (List.mem_map_of_mem hc) rfl
    · exact hs.delivered_unmarked c hc hm
  · intro p hp
    rcases List.mem_append.mp hp with hp | hp
    · obtain ⟨b, hb, rfl, -⟩ := mem_hit hp
      exact hs.ids b hb
    · exact hs.marked_ids p hp
  · intro id time k' v hi
    rcases hs.complete id time k' v hi with hm | ⟨c, hc, htag⟩
    · exact Or.inl (List.mem_append_right _ hm)
    · right
      rcases List.mem_append.mp hc with hc | hc
      · refine ⟨c.markIf (hit h.container n k), List.mem_append_left _ ?_, ?_⟩
        · rw [hheld]
          exact List.mem_map_of_mem hc
        · rw [Cell.markIf_tag, htag]
      · exact ⟨c, List.mem_append_right _ hc, htag⟩

/-- Kept and handed over entries come from the two sides of a split of the container. -/
theorem tags_nodup_reduce (hn : ((h.held ++ h.delivered).map Cell.tag).Nodup) :
    (((step h (.reduce t)).held ++
      (h.delivered ++ h.held.filter fun c => decide (c.time < t) && c.pending)).map
        Cell.tag).Nodup := by
  have hpend : List.Sublist (h.held.filter fun c => decide (c.time < t) && c.pending)
      (h.held.filter fun c => !decide (t ≤ c.time)) := by
    have he : (fun c : Cell K V => decide (c.time < t) && c.pending) =
        fun c => c.pending && !decide (t ≤ c.time) := by
      funext c
      have hlt : decide (c.time < t) = !decide (t ≤ c.time) := by
        rw [← decide_not]
        exact decide_eq_decide.mpr Int.not_le.symm
      rw [Bool.and_comm, hlt]
    rw [he, ← List.filter_filter]
    exact List.filter_sublist
  have hkeep : List.Sublist (step h (.reduce t)).held
      (h.held.filter fun c => decide (t ≤ c.time)) := reduce_kept
  have hsub := hkeep.append ((List.Sublist.refl h.delivered).append hpend)
  have hperm : List.Perm (h.held ++ h.delivered)
      ((h.held.filter fun c => decide (t ≤ c.time)) ++
        (h.delivered ++ h.held.filter fun c => !decide (t ≤ c.time))) := by
    have hsplit := List.filter_append_perm (fun c => decide (t ≤ c.time)) h.held
    refine (hsplit.symm.append_right h.delivered).trans ?_
    rw [List.append_assoc]
    exact List.Perm.append_left _ List.perm_append_comm
  exact (hsub.map Cell.tag).nodup ((hperm.map Cell.tag).nodup hn)

theorem sound_reduce (hs : Sound h) (t : Int) : Sound (step h (.reduce t)) := by
  have hheld : (step h (.reduce t)).held = cells (reduce h.container t).1 := rfl
  have hdel : (step h (.reduce t)).delivered =
      h.delivered ++ h.held.filter fun c => decide (c.time < t) && c.pending := by
    simp only [History.delivered, History.held, step, List.flatten_append, cells_append,
      List.flatten_cons, List.flatten_nil, List.append_nil, reduce_collected]
  have hkept : ∀ c ∈ (step h (.reduce t)).held, c ∈ h.held := by
    intro c hc
    exact (List.mem_filter.mp (reduce_kept.subset hc)).1
  have hids : List.Sublist ((step h (.reduce t)).container.map Bucket.id)
      (h.container.map Bucket.id) := by
    have hsw : (h.container.map (sweep t)).map (fun x => x.1.id) = h.container.map Bucket.id := by
      rw [List.map_map]
      exact List.map_congr_left fun b _ => sweep_id
    rw [← hsw, ← Function.comp_def Bucket.id Prod.fst, ← List.map_map]
    exact (erasePrefix_suffix _).sublist.map _
  constructor
  · exact hs.ids_of_subset hids.subset
  · exact hids.nodup hs.ids_nodup
  · rw [hdel]
    exact tags_nodup_reduce hs.tags_nodup
  · intro c hc
    rw [hdel] at hc
    simp only [List.mem_append] at hc
    rcases hc with hc | hc | hc
    · exact hs.origin c (List.mem_append_left _ (hkept c hc))
    · exact hs.origin c (List.mem_append_right _ hc)
    · exact hs.origin c (List.mem_append_left _ (List.mem_filter.mp hc).1)
  · intro c hc
    exact hs.marks c (hkept c hc)
  · intro c hc hm
    rw [hdel] at hc
    rcases List.mem_append.mp hc with hc | hc
    · exact hs.delivered_unmarked c hc hm
    · obtain ⟨hc, hp⟩ := List.mem_filter.mp hc
      have hmark := (hs.marks c hc).mpr hm
      simp [Cell.pending, hmark] at hp
  · exact hs.marked_ids
  · intro id time k v hi
    rcases hs.complete id time k v hi with hm | ⟨c, hc, htag⟩
    · exact Or.inl hm
    by_cases hm : (id, k) ∈ h.marked
    · exact Or.inl hm
    refine Or.inr ⟨c, ?_, htag⟩
    rw [hdel]
    simp only [List.mem_append]
    rcases List.mem_append.mp hc with hc | hc
    · have hp : c.pending = true := by
        have := mt (hs.marks c hc).mp (htag ▸ hm)
        simpa [Cell.pending] using this
      by_cases ht : c.time < t
      · exact Or.inr (Or.inr (List.mem_filter.mpr ⟨hc, by simp [ht, hp]⟩))
      · left
        have hkeep : c ∈ (cells (reduce h.container t).1).filter Cell.pending := by
          rw [reduce_pending]
          exact List.mem_filter.mpr ⟨hc, by simp [Int.not_lt.mp ht, hp]⟩
        exact (List.mem_filter.mp hkeep).1
    · exact Or.inr (Or.inl hc)

theorem sound_step (hs : Sound h) (op : Op K V) : Sound (step h op) := by
  cases op with
  | emplace_back now value => exact sound_emplace_back hs now value
  | markBucket n => exact sound_markBucket hs n
  | markEntry n k => exact sound_markEntry hs n k
  | reduce t => exact sound_reduce hs t

theorem sound_run (ops : List (Op K V)) : Sound (run ops) := by
  induction ops using List.reverseRecOn with
  | nil => exact sound_empty
  | append_singleton ops op ih =>
    rw [run_concat]
    exact sound_step ih op

end RabbitClient.MapExpires
