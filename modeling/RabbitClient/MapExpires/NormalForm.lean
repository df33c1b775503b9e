import RabbitClient.MapExpires.Sweep
import Mathlib.Data.List.DropRight

/-! The shape `reduce` leaves a container in, and what calling it again does. -/
namespace RabbitClient.MapExpires

variable {K V : Type} [LinearOrder K] {b : Bucket K V} {bs : List (Bucket K V)} {t : Int}

/-- `std::move` out of a map: what was in it, and the empty map it leaves behind. -/
def moveOut (m : Map K V) : Map K V × Map K V := (m, ∅)

/-- One iteration of the sweep with its two asserts; `none` when one of them fails. -/
def sweepAsserted (timePurge : Int) (b : Bucket K V) :
    Option (Bucket K V × Option (Bucket K V)) :=
  let entryList := if b.entryList.mark then shrink_to_fit b.entryList else b.entryList
  if entryList.value.isEmpty then some ({ b with entryList := entryList }, none)
  else if b.time < timePurge then
    let entryList := shrink_to_fit entryList
    some ({ b with entryList := { entryList with value := ∅ } },
      some { b with entryList := entryList })
  else
    let (allMessageMarked, mark) := scanMarks entryList.value.toList entryList.mark
    if allMessageMarked && !entryList.value.isEmpty then
      let (local_swp, rest) := moveOut entryList.value
      if rest.isEmpty && !local_swp.isEmpty then
        some ({ b with entryList := ⟨rest, mark⟩ }, none)
      else none
    else some ({ b with entryList := { entryList with mark := mark } }, none)

/-- `reduce` with the asserts of its sweep. -/
def reduceAsserted (container : List (Bucket K V)) (timePurge : Int) :
    Option (List (Bucket K V) × List (Bucket K V)) :=
  (container.mapM (sweepAsserted timePurge)).map fun swept =>
    (erasePrefix (swept.map Prod.fst), swept.filterMap Prod.snd)

theorem sweepAsserted_eq (t : Int) (b : Bucket K V) : sweepAsserted t b = some (sweep t b) := by
  simp only [sweepAsserted, sweep, moveOut]
  generalize (if b.entryList.mark then shrink_to_fit b.entryList else b.entryList) = e
  split
  · rfl
  split
  · rfl
  split
  · rename_i hall
    -- the branch is entered with a non-empty list, which is what the second assert asks for
    have hne := (Bool.and_eq_true_iff.mp hall).2
    have hempty : (∅ : Map K V).isEmpty = true := rfl
    simp [hne, hempty]
  · rfl

theorem reduceAsserted_eq (bs : List (Bucket K V)) (t : Int) :
    reduceAsserted bs t = some (reduce bs t) := by
  have h : sweepAsserted t = fun b : Bucket K V => some (sweep t b) :=
    funext (sweepAsserted_eq t)
  have hm : bs.mapM (sweepAsserted t) = some (bs.map (sweep t)) := by
    rw [h]
    exact List.mapM_pure
  simp [reduceAsserted, hm, reduce]

/-- The entry list after the first step of the iteration. -/
def Bucket.compacted (b : Bucket K V) : MarkValue (Map K V) :=
  if b.entryList.mark then shrink_to_fit b.entryList else b.entryList

/-- The mark of the smallest key. -/
def Bucket.leastMarked (b : Bucket K V) : Bool := b.entries.head?.any fun x => x.2.mark

omit [LinearOrder K] in
theorem exists_unmarked {l : List (K × MarkValue V)} (h : ¬ ∀ x ∈ l, x.2.mark = true) :
    ∃ x ∈ l, x.2.mark = false := by
  simpa using h

/-- Every way an iteration can end: nothing left to look at, expired, all read, kept. -/
theorem sweep_cases (t : Int) (b : Bucket K V) :
    (b.compacted.value.toList = [] ∧ sweep t b = ({ b with entryList := b.compacted }, none)) ∨
    (b.compacted.value.toList ≠ [] ∧ b.time < t ∧
      sweep t b = ({ b with entryList := { shrink_to_fit b.compacted with value := ∅ } },
        some { b with entryList := shrink_to_fit b.compacted })) ∨
    (t ≤ b.time ∧ (∀ x ∈ b.compacted.value.toList, x.2.mark = true) ∧
      ∃ mark, sweep t b = ({ b with entryList := ⟨∅, mark⟩ }, none)) ∨
    (t ≤ b.time ∧ (∃ x ∈ b.compacted.value.toList, x.2.mark = false) ∧
      sweep t b = ({ b with entryList := { b.compacted with
        mark := (scanMarks b.compacted.value.toList b.compacted.mark).2 } }, none)) := by
  simp only [sweep]
  rw [← Bucket.compacted]
  generalize b.compacted = e
  by_cases he : e.value.toList = []
  · left
    simp [OrderedMap.isEmpty_eq_true.mpr he, he]
  right
  have hne : e.value.isEmpty = false := by simpa [OrderedMap.isEmpty] using he
  by_cases ht : b.time < t
  · left
    simp [hne, he, ht]
  right
  have hle : t ≤ b.time := Int.not_lt.mp ht
  by_cases hall : (scanMarks e.value.toList e.mark).1 = true
  · left
    exact ⟨hle, scanMarks_all.mp hall, (scanMarks e.value.toList e.mark).2, by simp [hne, ht, hall]⟩
  · right
    have hex : ∃ x ∈ e.value.toList, x.2.mark = false :=
      exists_unmarked fun hm => hall (scanMarks_all.mpr hm)
    exact ⟨hle, hex, by simp [hne, ht, hall]⟩

/-- An iteration leaves nothing in a bucket, or what is left after compacting it. -/
theorem sweep_nil_or_kept (t : Int) (b : Bucket K V) : (sweep t b).1.entries = [] ∨
    (t ≤ b.time ∧ (∃ x ∈ b.compacted.value.toList, x.2.mark = false) ∧
      sweep t b = ({ b with entryList := { b.compacted with
        mark := (scanMarks b.compacted.value.toList b.compacted.mark).2 } }, none)) := by
  rcases sweep_cases t b with ⟨hnil, he⟩ | ⟨_, _, he⟩ | ⟨_, _, _, he⟩ | hkept
  · left
    rw [he]
    exact hnil
  · left
    rw [he]
    rfl
  · left
    rw [he]
    rfl
  · exact .inr hkept

omit [LinearOrder K] in
theorem scanMarks_mark (l : List (K × MarkValue V)) (mark : Bool) :
    (scanMarks l mark).2 = (mark || l.head?.any fun x => x.2.mark) := by
  have htrue : ∀ l : List (K × MarkValue V), (scanMarks l true).2 = true := by
    intro l
    induction l with
    | nil => rfl
    | cons x l ih =>
      simp only [scanMarks]
      split
      · rfl
      · exact ih
  cases l with
  | nil => simp [scanMarks]
  | cons x l =>
    by_cases hx : x.2.mark = true
    · simp [scanMarks, hx, htrue]
    · simp [scanMarks, hx]

/-- Where entries are kept, their mark is that of the compacted list or of the smallest key. -/
theorem sweep_mark_of_kept (he : sweep t b = ({ b with entryList := { b.compacted with
      mark := (scanMarks b.compacted.value.toList b.compacted.mark).2 } }, none)) :
    (sweep t b).1.entryList.mark = (b.compacted.mark || (sweep t b).1.leastMarked) := by
  rw [he]
  exact scanMarks_mark _ _

theorem compacted_toList (b : Bucket K V) : b.compacted.value.toList =
    if b.entryList.mark then b.entries.filter (fun x => !x.2.mark) else b.entries :=
  swept_toList b.entryList

/-- Compacting a bucket with entries takes its mark away. -/
theorem compacted_mark (h : b.compacted.value.toList ≠ []) : b.compacted.mark = false := by
  by_cases hm : b.entryList.mark = true
  · by_cases he : b.entryList.value.isEmpty = true
    · have hnil := OrderedMap.isEmpty_eq_true.mp he
      simp [compacted_toList, Bucket.entries, hnil] at h
    · simp [Bucket.compacted, hm, shrink_to_fit, he]
  · simp [Bucket.compacted, hm]

theorem isEmpty_iff : b.isEmpty = true ↔ b.entries = [] := OrderedMap.isEmpty_eq_true

theorem isEmpty_eq_false : b.isEmpty = false ↔ b.entries ≠ [] := by
  rw [← Bool.not_eq_true, isEmpty_iff]

/-- What an iteration with purge time `t` leaves of a bucket. -/
structure Swept (t : Int) (b : Bucket K V) : Prop where
  expired : b.time < t → b.entries = []
  pending : b.entries ≠ [] → ∃ x ∈ b.entries, x.2.mark = false
  hinted : b.leastMarked = true → b.entryList.mark = true

theorem swept_of_nil (h : b.entries = []) : Swept t b := by
  refine ⟨fun _ => h, fun hne => (hne h).elim, ?_⟩
  intro hl
  simp [Bucket.leastMarked, h] at hl

theorem sweep_swept (t : Int) (b : Bucket K V) : Swept t (sweep t b).1 := by
  rcases sweep_nil_or_kept t b with hnil | ⟨ht, hp, he⟩
  · exact swept_of_nil hnil
  · have hmark := sweep_mark_of_kept he
    refine ⟨fun hlt => ?_, fun _ => ?_, fun hl => ?_⟩
    · rw [sweep_time] at hlt
      omega
    · rw [he]
      exact hp
    · rw [hmark, hl, Bool.or_true]

/-- A bucket left by an earlier iteration has nothing to hand over. -/
theorem Swept.collects_none (h : Swept t b) : (sweep t b).2 = none := by
  rcases sweep_cases t b with ⟨_, he⟩ | ⟨hne, hlt, _⟩ | ⟨_, _, _, he⟩ | ⟨_, _, he⟩
  · rw [he]
  · rw [compacted_toList, h.expired hlt] at hne
    simp at hne
  · rw [he]
  · rw [he]

theorem Swept.compacted_pending (h : Swept t b) (hne : b.entries ≠ []) :
    ∃ x ∈ b.compacted.value.toList, x.2.mark = false := by
  obtain ⟨x, hx, hm⟩ := h.pending hne
  refine ⟨x, ?_, hm⟩
  rw [compacted_toList]
  split
  · exact List.mem_filter.mpr ⟨hx, by simp [hm]⟩
  · exact hx

/-- It keeps its pending entries, so it stays non-empty. -/
theorem Swept.sweep_isEmpty (h : Swept t b) : (sweep t b).1.isEmpty = b.isEmpty := by
  by_cases hnil : b.entries = []
  · have hc : b.compacted.value.toList = [] := by simp [compacted_toList, hnil]
    rcases sweep_cases t b with ⟨_, he⟩ | ⟨hne, _⟩ | ⟨_, _, _, he⟩ | ⟨_, ⟨x, hx, _⟩, _⟩
    · rw [he, isEmpty_iff.mpr hnil]
      exact isEmpty_iff.mpr hc
    · exact (hne hc).elim
    · rw [he, isEmpty_iff.mpr hnil]
      rfl
    · simp [hc] at hx
  · obtain ⟨x, hx, hm⟩ := h.compacted_pending hnil
    have hb : b.isEmpty = false := isEmpty_eq_false.mpr hnil
    rcases sweep_cases t b with ⟨hc, _⟩ | ⟨_, hlt, _⟩ | ⟨_, hall, _⟩ | ⟨_, _, he⟩
    · simp [hc] at hx
    · exact (hnil (h.expired hlt)).elim
    · simp [hall x hx] at hm
    · rw [hb, he]
      exact isEmpty_eq_false.mpr (List.ne_nil_of_mem hx)

theorem sweep_entries (t : Int) (b : Bucket K V) :
    List.Sublist (sweep t b).1.entries b.entries := by
  have hc : List.Sublist b.compacted.value.toList b.entries := by
    rw [compacted_toList]
    split
    · exact List.filter_sublist
    · exact .refl _
  rcases sweep_nil_or_kept t b with hnil | ⟨_, _, he⟩
  · rw [hnil]
    exact List.nil_sublist _
  · rw [he]
    exact hc

/-- A hinted bucket holds unread entries only after the next iteration. -/
theorem sweep_unmarked (hm : b.entryList.mark = true) :
    ∀ x ∈ (sweep t b).1.entries, x.2.mark = false := by
  have hc : ∀ x ∈ b.compacted.value.toList, x.2.mark = false := by
    intro x hx
    rw [compacted_toList, if_pos hm] at hx
    simpa using (List.mem_filter.mp hx).2
  rcases sweep_nil_or_kept t b with hnil | ⟨_, _, he⟩
  · intro x hx
    rw [hnil] at hx
    contradiction
  · rw [he]
    exact hc

theorem leastMarked_of_unmarked (h : ∀ x ∈ b.entries, x.2.mark = false) :
    b.leastMarked = false := by
  unfold Bucket.leastMarked
  cases he : b.entries with
  | nil => rfl
  | cons x l =>
    have hx : x ∈ b.entries := he ▸ List.mem_cons_self ..
    simp [h x hx]

/-- An iteration changes nothing in a bucket without a mark on it or on its smallest key. -/
theorem Swept.sweep_eq (h : Swept t b) (hm : b.entryList.mark = false ∨ b.entries = []) :
    sweep t b = (b, none) := by
  by_cases hnil : b.entries = []
  · have hv : b.entryList.value.isEmpty = true := isEmpty_iff.mpr hnil
    simp only [sweep, shrink_to_fit]
    simp [hv]
  have hm : b.entryList.mark = false := hm.resolve_right hnil
  have hc : b.compacted = b.entryList := by simp [Bucket.compacted, hm]
  obtain ⟨x, hx, hxm⟩ := h.pending hnil
  rcases sweep_cases t b with ⟨he, _⟩ | ⟨_, hlt, _⟩ | ⟨_, hall, _⟩ | ⟨_, _, he⟩
  · rw [hc] at he
    exact (hnil he).elim
  · exact (hnil (h.expired hlt)).elim
  · rw [hc] at hall
    simp [hall x hx] at hxm
  · have hleast : b.leastMarked = false := by
      rw [← Bool.not_eq_true]
      intro hl
      simp [h.hinted hl] at hm
    have hmark : (scanMarks b.entryList.value.toList b.entryList.mark).2 = b.entryList.mark := by
      rw [scanMarks_mark]
      have hhead : (b.entryList.value.toList.head?.any fun x => x.2.mark) = false := hleast
      simp [hhead]
    rw [he, hc, hmark]

/-- The second iteration over a bucket is the last one that changes it. -/
theorem Swept.settled (h : Swept t b) : sweep t (sweep t b).1 = ((sweep t b).1, none) := by
  apply (sweep_swept t b).sweep_eq
  by_cases hm : b.entryList.mark = true
  · -- compacted: all entries are unread and the mark is a fresh one
    rcases sweep_nil_or_kept t b with hnil | ⟨_, ⟨x, hx, _⟩, he⟩
    · exact .inr hnil
    · left
      have hleast := leastMarked_of_unmarked (sweep_unmarked (t := t) hm)
      rw [sweep_mark_of_kept he, hleast, compacted_mark (List.ne_nil_of_mem hx)]
      rfl
  · have hf : b.entryList.mark = false := Bool.not_eq_true _ ▸ hm
    left
    rw [h.sweep_eq (.inl hf)]
    exact hf

/-- An iteration that finds the smallest key marked prepares the next one, if it does not
remove the marked entries itself. -/
theorem sweep_sweep_unmarked (hl : b.leastMarked = true) :
    ∀ x ∈ (sweep t (sweep t b).1).1.entries, x.2.mark = false := by
  by_cases hm : b.entryList.mark = true
  · intro x hx
    exact sweep_unmarked hm x ((sweep_entries t (sweep t b).1).subset hx)
  have hc : b.compacted = b.entryList := by simp [Bucket.compacted, hm]
  rcases sweep_nil_or_kept t b with hnil | ⟨_, _, he⟩
  · intro x hx
    have hx' := (sweep_entries t (sweep t b).1).subset hx
    rw [hnil] at hx'
    contradiction
  · have hleast : (sweep t b).1.leastMarked = true := by
      rw [he, hc]
      exact hl
    apply sweep_unmarked
    rw [sweep_mark_of_kept he, hleast, Bool.or_true]

theorem erasePrefix_map {f : Bucket K V → Bucket K V} (h : ∀ b ∈ bs, (f b).isEmpty = b.isEmpty) :
    erasePrefix (bs.map f) = (erasePrefix bs).map f := by
  induction bs with
  | nil => rfl
  | cons b bs ih =>
    have hb := h b (List.mem_cons_self ..)
    have htail := ih fun x hx => h x (List.mem_cons_of_mem _ hx)
    simp only [erasePrefix, List.map_cons, List.dropWhile_cons, hb] at htail ⊢
    split
    · exact htail
    · rfl

theorem erasePrefix_idem (bs : List (Bucket K V)) :
    erasePrefix (erasePrefix bs) = erasePrefix bs := List.dropWhile_idempotent _ _

theorem reduce_fst (bs : List (Bucket K V)) (t : Int) :
    (reduce bs t).1 = erasePrefix (bs.map fun b => (sweep t b).1) := by
  simp only [reduce, List.map_map]
  rfl

theorem reduce_swept (bs : List (Bucket K V)) (t : Int) : ∀ b ∈ (reduce bs t).1, Swept t b := by
  intro b hb
  rw [reduce_fst] at hb
  obtain ⟨b', _, rfl⟩ := List.mem_map.mp ((erasePrefix_suffix _).subset hb)
  exact sweep_swept t b'

/-- A purge after a purge with the same time touches the entries of the buckets only. -/
theorem reduce_of_swept (h : ∀ b ∈ bs, Swept t b) (hfirst : erasePrefix bs = bs) :
    reduce bs t = (bs.map fun b => (sweep t b).1, []) := by
  have hnone : ∀ b ∈ bs, (sweep t b).2 = none := fun b hb => (h b hb).collects_none
  have hkept : erasePrefix (bs.map fun b => (sweep t b).1) = bs.map fun b => (sweep t b).1 := by
    rw [erasePrefix_map fun b hb => (h b hb).sweep_isEmpty, hfirst]
  refine Prod.ext ?_ ?_
  · rw [reduce_fst, hkept]
  · simpa [reduce, List.filterMap_eq_nil_iff] using hnone

/-- The bucket of an earlier container that a bucket is what remains of. -/
def Remains (b b' : Bucket K V) : Prop :=
  b'.id = b.id ∧ b'.time = b.time ∧ List.Sublist b'.entries b.entries

theorem sweep_remains (t : Int) (b : Bucket K V) : Remains b (sweep t b).1 :=
  ⟨sweep_id, sweep_time, sweep_entries t b⟩

/-- The swept buckets, the empty ones in front erased. -/
theorem reduce_suffix (bs : List (Bucket K V)) (t : Int) :
    ∃ erased kept, bs = erased ++ kept ∧ (reduce bs t).1 = kept.map fun b => (sweep t b).1 := by
  obtain ⟨front, hf⟩ := erasePrefix_suffix (bs.map fun b => (sweep t b).1)
  rw [← reduce_fst] at hf
  obtain ⟨erased, kept, rfl, _, hk⟩ := List.map_eq_append_iff.mp hf.symm
  exact ⟨erased, kept, rfl, hk.symm⟩

/-- After a purge: expired buckets are empty, the others empty or pending, the first one not
empty, and the buckets are the last ones of the container before. No assert has failed. -/
theorem reduce_normal_form (bs : List (Bucket K V)) (t : Int) :
    (∀ b ∈ (reduce bs t).1, b.time < t → b.isEmpty = true) ∧
    (∀ b ∈ (reduce bs t).1, b.isEmpty = false → ∃ x ∈ b.entries, x.2.mark = false) ∧
    (∀ b, (reduce bs t).1.head? = some b → b.isEmpty = false) ∧
    (∃ erased kept, bs = erased ++ kept ∧ List.Forall₂ Remains kept (reduce bs t).1) ∧
    reduceAsserted bs t = some (reduce bs t) := by
  have hswept := reduce_swept bs t
  refine ⟨?_, ?_, ?_, ?_, reduceAsserted_eq bs t⟩
  · intro b hb hlt
    exact isEmpty_iff.mpr ((hswept b hb).expired hlt)
  · intro b hb hne
    exact (hswept b hb).pending (isEmpty_eq_false.mp hne)
  · intro b hb
    rw [reduce_fst] at hb
    have hnot := List.head?_dropWhile_not Bucket.isEmpty (bs.map fun b => (sweep t b).1)
    rw [← erasePrefix, hb] at hnot
    simpa using hnot
  · obtain ⟨erased, kept, rfl, hk⟩ := reduce_suffix bs t
    refine ⟨erased, kept, rfl, ?_⟩
    rw [hk, List.forall₂_map_right_iff]
    exact List.forall₂_same.mpr fun b _ => sweep_remains t b

/-- The container after `n` calls of `reduce`. -/
def purged (timePurge : Int) (container : List (Bucket K V)) : Nat → List (Bucket K V)
  | 0 => container
  | n + 1 => (reduce (purged timePurge container n) timePurge).1

theorem purged_swept (t : Int) (bs : List (Bucket K V)) (n : Nat) :
    ∀ b ∈ purged t bs (n + 1), Swept t b := reduce_swept _ t

theorem erasePrefix_purged (t : Int) (bs : List (Bucket K V)) (n : Nat) :
    erasePrefix (purged t bs (n + 1)) = purged t bs (n + 1) := by
  simp only [purged, reduce_fst, erasePrefix_idem]

theorem reduce_purged (t : Int) (bs : List (Bucket K V)) (n : Nat) :
    reduce (purged t bs (n + 1)) t = ((purged t bs (n + 1)).map fun b => (sweep t b).1, []) :=
  reduce_of_swept (purged_swept t bs n) (erasePrefix_purged t bs n)

theorem purged_succ (t : Int) (bs : List (Bucket K V)) (n : Nat) :
    purged t bs (n + 2) = (purged t bs (n + 1)).map fun b => (sweep t b).1 := by
  rw [purged, reduce_purged]

/-- A bucket that survives a purge keeps its place, counted from the back. -/
theorem purged_reverse {i : Nat} {b₁ : Bucket K V} (hb : bs.reverse[i]? = some b)
    (hb₁ : (purged t bs 1).reverse[i]? = some b₁) : b₁ = (sweep t b).1 := by
  obtain ⟨erased, kept, rfl, hk⟩ := reduce_suffix bs t
  have hp : purged t (erased ++ kept) 1 = kept.map fun b => (sweep t b).1 := hk
  rw [hp, ← List.map_reverse, List.getElem?_map] at hb₁
  have hlt : i < kept.reverse.length := by
    by_contra hge
    rw [List.getElem?_eq_none (Nat.not_lt.mp hge)] at hb₁
    contradiction
  rw [List.reverse_append, List.getElem?_append_left hlt] at hb
  rw [hb] at hb₁
  exact (Option.some.inj hb₁).symm

/-- The second call finds nothing to hand over and is the last one to change anything. A
bucket keeps its place counted from the back; if its smallest key was marked when the first
call found it or when that call left it, the second call leaves it without marked entries. -/
theorem reduce_stabilises (bs : List (Bucket K V)) (t : Int) :
    (∀ n, (reduce (purged t bs (n + 1)) t).2 = []) ∧
    purged t bs 3 = purged t bs 2 ∧
    ∀ (i : Nat) (b b₁ : Bucket K V), bs.reverse[i]? = some b →
      (purged t bs 1).reverse[i]? = some b₁ → (b.leastMarked = true ∨ b₁.leastMarked = true) →
      ∃ b₂ : Bucket K V, (purged t bs 2).reverse[i]? = some b₂ ∧
        ∀ x ∈ b₂.entries, x.2.mark = false := by
  refine ⟨?_, ?_, ?_⟩
  · intro n
    rw [reduce_purged]
  · rw [purged_succ, purged_succ, List.map_map]
    apply List.map_congr_left
    intro b hb
    show (sweep t (sweep t b).1).1 = (sweep t b).1
    rw [(purged_swept t bs 0 b hb).settled]
  · intro i b b₁ hb hb₁ hm
    refine ⟨(sweep t b₁).1, ?_, ?_⟩
    · rw [purged_succ, ← List.map_reverse, List.getElem?_map, hb₁]
      rfl
    obtain rfl := purged_reverse hb hb₁
    rcases hm with hm | hm
    · exact sweep_sweep_unmarked hm
    · exact sweep_unmarked ((sweep_swept t b).hinted hm)

/-- A purge of two live buckets, the second without marks. -/
theorem reduce_stabilises_two :
    let m : Map Nat Nat := ⟨[(1, ⟨10, true⟩), (2, ⟨20, false⟩)], by decide⟩
    let b : Bucket Nat Nat := ⟨0, 5, ⟨m, false⟩⟩
    let bs := [b, { b with id := 1, entryList := ⟨⟨[(3, ⟨30, false⟩)], by decide⟩, false⟩ }]
    ∃ b₂ : Bucket Nat Nat, (purged 4 bs 2).reverse[1]? = some b₂ ∧
      ∀ x ∈ b₂.entries, x.2.mark = false := by
  intro m b bs
  exact (reduce_stabilises bs 4).2.2 1 b _ rfl rfl (.inl rfl)

/-- Expired, with entries that are all marked, and no mark on the bucket itself: the sweep
tests it for emptiness before it removes anything. -/
def Bucket.ReadButUnmarked (timePurge : Int) (b : Bucket K V) : Prop :=
  b.time < timePurge ∧ b.entries ≠ [] ∧ (∀ x ∈ b.entries, x.2.mark = true) ∧
    b.entryList.mark = false

/-- Expired with an entry still to be read. -/
def Bucket.expiredPending (timePurge : Int) (b : Bucket K V) : Bool :=
  decide (b.time < timePurge) && b.entries.any fun x => !x.2.mark

theorem sweep_collected {b' : Bucket K V} (h : (sweep t b).2 = some b') :
    b.time < t ∧ b.compacted.value.toList ≠ [] ∧
      b'.entries = b.entries.filter fun x => !x.2.mark := by
  rcases sweep_cases t b with ⟨_, he⟩ | ⟨hne, hlt, he⟩ | ⟨_, _, _, he⟩ | ⟨_, _, he⟩
  · rw [he] at h
    contradiction
  · rw [he] at h
    obtain rfl := Option.some.inj h
    refine ⟨hlt, hne, ?_⟩
    have hs := shrink_to_fit_toList b.compacted
    rw [compacted_toList] at hs
    rw [Bucket.entries, hs]
    split
    · simp
    · rfl
  · rw [he] at h
    contradiction
  · rw [he] at h
    contradiction

theorem sweep_of_expired (hlt : b.time < t) (hne : b.compacted.value.toList ≠ []) :
    ∃ b', (sweep t b).2 = some b' := by
  rcases sweep_cases t b with ⟨hnil, _⟩ | ⟨_, _, he⟩ | ⟨hle, _⟩ | ⟨hle, _⟩
  · exact (hne hnil).elim
  · exact ⟨_, congrArg Prod.snd he⟩
  · omega
  · omega

theorem sweep_of_expiredPending (h : b.expiredPending t = true) :
    ∃ b', (sweep t b).2 = some b' ∧ b'.entries ≠ [] := by
  obtain ⟨hlt, hany⟩ := Bool.and_eq_true_iff.mp h
  obtain ⟨x, hx, hm⟩ := List.any_eq_true.mp hany
  have hf : x ∈ b.entries.filter fun x => !x.2.mark := List.mem_filter.mpr ⟨hx, hm⟩
  have hne : b.compacted.value.toList ≠ [] := by
    rw [compacted_toList]
    split
    · exact List.ne_nil_of_mem hf
    · exact List.ne_nil_of_mem hx
  obtain ⟨b', hb'⟩ := sweep_of_expired (of_decide_eq_true hlt) hne
  refine ⟨b', hb', ?_⟩
  rw [(sweep_collected hb').2.2]
  exact List.ne_nil_of_mem hf

theorem sweep_of_readButUnmarked (h : b.ReadButUnmarked t) :
    ∃ b', (sweep t b).2 = some b' ∧ b'.entries = [] := by
  obtain ⟨hlt, hne, hall, hm⟩ := h
  have hc : b.compacted.value.toList ≠ [] := by
    rw [compacted_toList, hm]
    exact hne
  obtain ⟨b', hb'⟩ := sweep_of_expired hlt hc
  refine ⟨b', hb', ?_⟩
  rw [(sweep_collected hb').2.2]
  apply List.filter_eq_nil_iff.mpr
  intro x hx
  simp [hall x hx]

/-- The sweep hands over a bucket without pending entries in that case only. -/
theorem expiredPending_of_collected {b' : Bucket K V} (h : (sweep t b).2 = some b')
    (hn : ¬ b.ReadButUnmarked t) : b.expiredPending t = true := by
  obtain ⟨hlt, hne, _⟩ := sweep_collected h
  rw [compacted_toList] at hne
  have hex : ∃ x ∈ b.entries, x.2.mark = false := by
    apply exists_unmarked
    intro hall
    by_cases hm : b.entryList.mark = true
    · rw [if_pos hm] at hne
      apply hne
      apply List.filter_eq_nil_iff.mpr
      intro x hx
      simp [hall x hx]
    · rw [if_neg hm] at hne
      exact hn ⟨hlt, hne, hall, Bool.not_eq_true _ ▸ hm⟩
  obtain ⟨x, hx, hm⟩ := hex
  refine Bool.and_eq_true_iff.mpr ⟨decide_eq_true hlt, List.any_eq_true.mpr ⟨x, hx, ?_⟩⟩
  simp [hm]

theorem reduce_snd (bs : List (Bucket K V)) (t : Int) :
    (reduce bs t).2 = bs.filterMap fun b => (sweep t b).2 := by
  simp only [reduce, List.filterMap_map]
  rfl

/-- The buckets handed over are non-empty and as many as the expired buckets with pending
entries exactly when no expired bucket is fully marked without a mark of its own. -/
theorem reduce_collects_pending_iff (bs : List (Bucket K V)) (t : Int) :
    ((∀ b ∈ (reduce bs t).2, b.isEmpty = false) ∧
      (reduce bs t).2.length = bs.countP (Bucket.expiredPending t)) ↔
    ∀ b ∈ bs, ¬ b.ReadButUnmarked t := by
  rw [reduce_snd]
  constructor
  · rintro ⟨hne, _⟩ b hb hr
    obtain ⟨b', hb', hnil⟩ := sweep_of_readButUnmarked hr
    have hmem := hne b' (List.mem_filterMap.mpr ⟨b, hb, hb'⟩)
    exact isEmpty_eq_false.mp hmem hnil
  · intro hn
    refine ⟨?_, ?_⟩
    · intro b' hb'
      obtain ⟨b, hb, hs⟩ := List.mem_filterMap.mp hb'
      obtain ⟨b'', hs', hne⟩ := sweep_of_expiredPending (expiredPending_of_collected hs (hn b hb))
      rw [hs] at hs'
      obtain rfl := Option.some.inj hs'
      exact isEmpty_eq_false.mpr hne
    · rw [List.length_filterMap_eq_countP]
      apply List.countP_congr
      intro b hb
      constructor
      · intro hs
        obtain ⟨b', hb'⟩ := Option.isSome_iff_exists.mp hs
        exact expiredPending_of_collected hb' (hn b hb)
      · intro hp
        obtain ⟨b', hb', _⟩ := sweep_of_expiredPending hp
        exact Option.isSome_iff_exists.mpr ⟨b', hb'⟩

/-- One expired bucket whose only entry has been read: an empty bucket is handed over. -/
theorem reduce_collects_empty :
    let b : Bucket Nat Nat := ⟨0, 0, ⟨⟨[(1, ⟨10, true⟩)], by decide⟩, false⟩⟩
    ¬ ((∀ b' ∈ (reduce [b] 1).2, b'.isEmpty = false) ∧
      (reduce [b] 1).2.length = [b].countP (Bucket.expiredPending 1)) := by
  intro b h
  have hlen : (reduce [b] 1).2.length = 1 := rfl
  have hcount : [b].countP (Bucket.expiredPending 1) = 0 := rfl
  have heq := h.2
  omega

end RabbitClient.MapExpires
