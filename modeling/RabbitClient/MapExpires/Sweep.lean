import RabbitClient.MapExpires.Container

/-! What a purge hands over and what it leaves, entry by entry. -/
namespace RabbitClient.MapExpires

variable {K V : Type} [LinearOrder K] {b : Bucket K V} {bs : List (Bucket K V)} {t : Int}

/-- An entry with the bucket it belongs to. -/
structure Cell (K V : Type) where
  id : Nat
  time : Int
  key : K
  value : MarkValue V

def Cell.pending (c : Cell K V) : Bool := !c.value.mark

def Cell.tag (c : Cell K V) : Nat × K := (c.id, c.key)

def Bucket.cells (b : Bucket K V) : List (Cell K V) :=
  b.entries.map fun x => ⟨b.id, b.time, x.1, x.2⟩

def cells (bs : List (Bucket K V)) : List (Cell K V) := bs.flatMap Bucket.cells

@[simp] theorem cells_nil : cells ([] : List (Bucket K V)) = [] := rfl

@[simp] theorem cells_cons : cells (b :: bs) = b.cells ++ cells bs := by simp [cells]

@[simp] theorem cells_append {bs' : List (Bucket K V)} :
    cells (bs ++ bs') = cells bs ++ cells bs' := by simp [cells]

theorem mem_cells {c : Cell K V} : c ∈ b.cells ↔
    c.id = b.id ∧ c.time = b.time ∧ (c.key, c.value) ∈ b.entries := by
  constructor
  · intro h
    obtain ⟨x, hx, rfl⟩ := List.mem_map.mp h
    exact ⟨rfl, rfl, hx⟩
  · rintro ⟨hi, ht, hx⟩
    refine List.mem_map.mpr ⟨_, hx, ?_⟩
    simp [← hi, ← ht]

/-- All entries of a bucket share its time, so a test of the time selects all or none. -/
theorem cells_filter_time (p : Int → Bool) (q : Cell K V → Bool) :
    b.cells.filter (fun c => p c.time && q c) = if p b.time then b.cells.filter q else [] := by
  have h : ∀ c ∈ b.cells, p c.time = p b.time := by
    intro c hc
    rw [(mem_cells.mp hc).2.1]
  split
  · rename_i hp
    apply List.filter_congr
    intro c hc
    rw [h c hc, hp, Bool.true_and]
  · rename_i hp
    apply List.filter_eq_nil_iff.mpr
    intro c hc
    simp [h c hc, hp]

theorem shrink_to_fit_toList (e : MarkValue (Map K V)) :
    (shrink_to_fit e).value.toList = e.value.toList.filter fun x => !x.2.mark := by
  unfold shrink_to_fit
  split
  · rename_i h
    simp [OrderedMap.isEmpty_eq_true.mp h]
  · exact OrderedMap.toList_foldl_emplace e.value.sorted (by simp)

omit [LinearOrder K] in
theorem scanMarks_all {l : List (K × MarkValue V)} {mark : Bool} :
    (scanMarks l mark).1 = true ↔ ∀ x ∈ l, x.2.mark = true := by
  induction l generalizing mark with
  | nil => simp [scanMarks]
  | cons x l ih =>
    by_cases hx : x.2.mark = true
    · simp [scanMarks, hx, ih]
    · simp [scanMarks, hx]

/-- The entries of a bucket after the first step of the sweep. -/
theorem swept_toList (e : MarkValue (Map K V)) :
    (if e.mark then shrink_to_fit e else e).value.toList =
      if e.mark then e.value.toList.filter (fun x => !x.2.mark) else e.value.toList := by
  split
  · exact shrink_to_fit_toList e
  · rfl

@[simp] theorem sweep_id : (sweep t b).1.id = b.id := by
  simp only [sweep]
  generalize (if b.entryList.mark then shrink_to_fit b.entryList else b.entryList) = e
  split
  · rfl
  split
  · rfl
  split <;> rfl

@[simp] theorem sweep_time : (sweep t b).1.time = b.time := by
  simp only [sweep]
  generalize (if b.entryList.mark then shrink_to_fit b.entryList else b.entryList) = e
  split
  · rfl
  split
  · rfl
  split <;> rfl

theorem filter_pending_cells :
    b.cells.filter Cell.pending =
      (b.entries.filter fun x => !x.2.mark).map fun x => ⟨b.id, b.time, x.1, x.2⟩ := by
  simp only [Bucket.cells, List.filter_map]
  rfl

/-- An expired bucket is emptied, and exactly its unmarked entries are handed over. -/
theorem sweep_of_lt (h : b.time < t) :
    (sweep t b).1.cells = [] ∧
      cells (sweep t b).2.toList = b.cells.filter Cell.pending := by
  rw [filter_pending_cells]
  have hs := swept_toList b.entryList
  simp only [sweep, if_pos h]
  generalize (if b.entryList.mark then shrink_to_fit b.entryList else b.entryList) = e at hs ⊢
  have hf : e.value.toList.filter (fun x => !x.2.mark) =
      b.entries.filter (fun x => !x.2.mark) := by
    rw [hs]
    split
    · simp [Bucket.entries]
    · rfl
  by_cases he : e.value.isEmpty = true
  · rw [if_pos he]
    rw [OrderedMap.isEmpty_eq_true] at he
    rw [he, List.filter_nil] at hf
    rw [← hf]
    simp [Bucket.cells, Bucket.entries, he]
  · rw [if_neg he]
    simp only [Bucket.cells, Bucket.entries, OrderedMap.toList_empty, List.map_nil, true_and]
    simp only [cells, Option.toList_some, List.flatMap_cons, List.flatMap_nil, List.append_nil,
      Bucket.cells, Bucket.entries]
    rw [shrink_to_fit_toList, hf]
    rfl

/-- Any other bucket hands over nothing and keeps every unmarked entry. -/
theorem sweep_of_le (h : t ≤ b.time) :
    (sweep t b).2 = none ∧ List.Sublist (sweep t b).1.cells b.cells ∧
      (sweep t b).1.cells.filter Cell.pending = b.cells.filter Cell.pending := by
  have hs := swept_toList b.entryList
  have hn : ¬ b.time < t := Int.not_lt.mpr h
  simp only [sweep, if_neg hn]
  generalize (if b.entryList.mark then shrink_to_fit b.entryList else b.entryList) = e at hs ⊢
  have hsub : List.Sublist e.value.toList b.entries := by
    rw [hs]
    split
    · exact List.filter_sublist
    · exact .refl _
  have hf : e.value.toList.filter (fun x => !x.2.mark) =
      b.entries.filter (fun x => !x.2.mark) := by
    rw [hs]
    split
    · simp [Bucket.entries]
    · rfl
  -- whatever mark the bucket ends up with, its entries are those of `e`
  have hkeep : ∀ m : Bool,
      List.Sublist (Bucket.cells { b with entryList := ⟨e.value, m⟩ }) b.cells ∧
        (Bucket.cells { b with entryList := ⟨e.value, m⟩ }).filter Cell.pending =
          b.cells.filter Cell.pending := by
    intro m
    refine ⟨hsub.map _, ?_⟩
    rw [filter_pending_cells, filter_pending_cells]
    exact congrArg _ hf
  split
  · exact ⟨rfl, hkeep e.mark⟩
  split
  · rename_i hne hall
    have hmarked := scanMarks_all.mp (Bool.and_eq_true_iff.mp hall).1
    refine ⟨rfl, by simp [Bucket.cells, Bucket.entries], ?_⟩
    rw [filter_pending_cells (b := b), ← hf]
    have hnil : e.value.toList.filter (fun x => !x.2.mark) = [] := by
      apply List.filter_eq_nil_iff.mpr
      intro x hx
      simp [hmarked x hx]
    simp [hnil, Bucket.cells, Bucket.entries]
  · exact ⟨rfl, hkeep _⟩

theorem cells_erasePrefix : cells (erasePrefix bs) = cells bs := by
  induction bs with
  | nil => rfl
  | cons b bs ih =>
    by_cases h : b.isEmpty = true
    · have hb : b.cells = [] := by
        simp [Bucket.cells, Bucket.entries, OrderedMap.isEmpty_eq_true.mp h]
      rw [erasePrefix, List.dropWhile_cons_of_pos h, ← erasePrefix, ih, cells_cons, hb,
        List.nil_append]
    · rw [erasePrefix, List.dropWhile_cons_of_neg h]

theorem erasePrefix_suffix (bs : List (Bucket K V)) : erasePrefix bs <:+ bs :=
  List.dropWhile_suffix _

/-- A purge hands over exactly the unmarked entries of the expired buckets. -/
theorem reduce_collected : cells (reduce bs t).2 =
    (cells bs).filter fun c => decide (c.time < t) && c.pending := by
  simp only [reduce]
  induction bs with
  | nil => rfl
  | cons b bs ih =>
    rw [cells_cons, List.filter_append, ← ih, cells_filter_time (fun x => decide (x < t))]
    simp only [List.map_cons, List.filterMap_cons, decide_eq_true_eq]
    split
    · rename_i hnone
      split
      · rename_i hlt
        have hs := (sweep_of_lt hlt).2
        rw [hnone] at hs
        rw [← hs]
        rfl
      · rfl
    · rename_i b' hsome
      split
      · rename_i hlt
        have hs := (sweep_of_lt hlt).2
        rw [hsome] at hs
        rw [← hs]
        simp
      · rename_i hle
        rw [(sweep_of_le (Int.not_lt.mp hle)).1] at hsome
        contradiction

/-- What stays in the container comes from buckets that have not expired. -/
theorem reduce_kept : List.Sublist (cells (reduce bs t).1)
    ((cells bs).filter fun c => decide (t ≤ c.time)) := by
  simp only [reduce, cells_erasePrefix]
  induction bs with
  | nil => exact .refl _
  | cons b bs ih =>
    simp only [List.map_cons, cells_cons, List.filter_append]
    refine List.Sublist.append ?_ ih
    by_cases h : b.time < t
    · rw [(sweep_of_lt h).1]
      exact List.nil_sublist _
    · have hf := cells_filter_time (b := b) (fun x => decide (t ≤ x)) (fun _ => true)
      simp only [Bool.and_true, decide_eq_true_eq, if_pos (Int.not_lt.mp h), List.filter_true] at hf
      rw [hf]
      exact (sweep_of_le (Int.not_lt.mp h)).2.1

/-- None of their unmarked entries is lost. -/
theorem reduce_pending : (cells (reduce bs t).1).filter Cell.pending =
    (cells bs).filter fun c => decide (t ≤ c.time) && c.pending := by
  simp only [reduce, cells_erasePrefix]
  induction bs with
  | nil => rfl
  | cons b bs ih =>
    simp only [List.map_cons, cells_cons, List.filter_append, ih]
    rw [cells_filter_time (fun x => decide (t ≤ x))]
    by_cases h : b.time < t
    · simp [(sweep_of_lt h).1, Int.not_le.mpr h]
    · simp [(sweep_of_le (Int.not_lt.mp h)).2.2, Int.not_lt.mp h]

end RabbitClient.MapExpires
