import Mathlib.Data.List.SplitBy

/-!
Lists cut into maximal runs of the members of a class and of other elements, and lists in which an
element is inserted before some of the others.
-/
namespace Runs

variable {α : Type} {p : α → Bool} {z : α} {test : Option α → α → Option α → Bool}

/-- Inserts `z` before each element that passes a test; the test sees the neighbours, too. -/
def insertBefore (z : α) (test : Option α → α → Option α → Bool) : Option α → List α → List α
  | _, [] => []
  | prev, c :: b =>
    if test prev c b.head? then z :: c :: insertBefore z test (some c) b
    else c :: insertBefore z test (some c) b

/-- The test of a member of a class by what its neighbours are. -/
def beside (p : α → Bool) (sides : Option Bool → Option Bool → Bool) (prev : Option α) (c : α)
    (next : Option α) : Bool :=
  p c && sides (prev.map p) (next.map p)

/-- There is no member on either side. -/
def alone (left right : Option Bool) : Bool := left != some true && right != some true

/-- The maximal runs of members, and those of other elements. -/
def runs (p : α → Bool) (s : List α) : List (List α) := s.splitBy fun a b => p a == p b

/-- `z` before a run that consists of one member. -/
def padRun (p : α → Bool) (z : α) : List α → List α
  | [c] => if p c then [z, c] else [c]
  | run => run

def padRuns (p : α → Bool) (z : α) (s : List α) : List α := (runs p s).flatMap (padRun p z)

theorem mem_insertBefore {c : α} {prev : Option α} {s : List α}
    (h : c ∈ insertBefore z test prev s) : c = z ∨ c ∈ s := by
  induction s generalizing prev with
  | nil => exact absurd h List.not_mem_nil
  | cons d s ih =>
    rw [insertBefore] at h
    have hrest : c ∈ d :: insertBefore z test (some d) s → c = z ∨ c ∈ d :: s := by
      intro hc
      obtain rfl | hc := List.mem_cons.mp hc
      · exact Or.inr (List.mem_cons_self ..)
      · obtain rfl | hc := ih hc
        · exact Or.inl rfl
        · exact Or.inr (List.mem_cons_of_mem _ hc)
    split at h
    · obtain rfl | hc := List.mem_cons.mp h
      · exact Or.inl rfl
      · exact hrest hc
    · exact hrest h

/-- Another element is inserted if every occurrence of it is renamed. -/
theorem map_insertBefore {f : α → α} {s : List α} (hf : ∀ c ∈ s, f c = c) (prev : Option α) :
    (insertBefore z test prev s).map f = insertBefore (f z) test prev s := by
  induction s generalizing prev with
  | nil => rfl
  | cons c s ih =>
    obtain ⟨hc, hs⟩ := List.forall_mem_cons.mp hf
    rw [insertBefore, insertBefore]
    split <;> simp only [List.map_cons, hc, ih hs]

/-- Nothing is inserted where no element passes the test. -/
theorem insertBefore_eq_self {s : List α} (h : ∀ c ∈ s, ∀ prev next, test prev c next = false)
    (prev : Option α) : insertBefore z test prev s = s := by
  induction s generalizing prev with
  | nil => rfl
  | cons c s ih =>
    obtain ⟨hc, hs⟩ := List.forall_mem_cons.mp h
    rw [insertBefore, hc, ih hs]
    rfl

/-- Behind another element only its tests count. -/
theorem insertBefore_congr {test' : Option α → α → Option α → Bool}
    (h : ∀ q c next, test (some q) c next = test' (some q) c next) (q : α) (s : List α) :
    insertBefore z test (some q) s = insertBefore z test' (some q) s := by
  induction s generalizing q with
  | nil => rfl
  | cons c s ih => rw [insertBefore, insertBefore, h, ih]

/-- An element that does not pass the test separates what is before it from what is behind it. -/
theorem exists_insertBefore_append {x : α} (hx : ∀ prev next, test prev x next = false)
    (prev : Option α) (a b : List α) :
    ∃ a', (∀ c ∈ a', c = z ∨ c ∈ a) ∧
      insertBefore z test prev (a ++ x :: b) = a' ++ x :: insertBefore z test (some x) b := by
  induction a generalizing prev with
  | nil => exact ⟨[], by simp, by simp [insertBefore, hx]⟩
  | cons c a ih =>
    obtain ⟨a', hmem, heq⟩ := ih (some c)
    have hcons : ∀ d ∈ c :: a', d = z ∨ d ∈ c :: a := by
      intro d hd
      obtain rfl | hd := List.mem_cons.mp hd
      · exact Or.inr (List.mem_cons_self ..)
      · exact (hmem d hd).imp_right (List.mem_cons_of_mem _)
    rw [List.cons_append, insertBefore, heq]
    split
    · refine ⟨z :: c :: a', ?_, rfl⟩
      exact List.forall_mem_cons.mpr ⟨Or.inl rfl, hcons⟩
    · exact ⟨c :: a', hcons, rfl⟩

variable {sides sides' : Option Bool → Option Bool → Bool}

theorem alone_iff {left right : Option Bool} :
    alone left right = true ↔ left ≠ some true ∧ right ≠ some true := by
  simp [alone]

/-- The kind of the first element stays. -/
theorem head_insertBefore (hz : p z = true) (prev : Option α) (s : List α) :
    (insertBefore z (beside p sides) prev s).head?.map p = s.head?.map p := by
  cases s with
  | nil => rfl
  | cons c s =>
    rw [insertBefore]
    split
    · rename_i h
      have hc : p c = true := (Bool.and_eq_true_iff.mp h).1
      simp [hz, hc]
    · rfl

/-- Two passes do what one does that makes both tests, if the second one spares neighbours. -/
theorem insertBefore_insertBefore (hz : p z = true)
    (h : ∀ l r, sides' l r = true → alone l r = true) (s : List α) {prev prev' : Option α}
    (hprev : prev'.map p = prev.map p) :
    insertBefore z (beside p sides') prev' (insertBefore z (beside p sides) prev s) =
      insertBefore z (beside p fun l r => sides l r || sides' l r) prev s := by
  have hleft : ∀ r, sides' (some true) r = false := by
    intro r
    rw [Bool.eq_false_iff]
    intro hr
    exact (alone_iff.mp (h _ _ hr)).1 rfl
  have hright : ∀ l, sides' l (some true) = false := by
    intro l
    rw [Bool.eq_false_iff]
    intro hl
    exact (alone_iff.mp (h _ _ hl)).2 rfl
  induction s generalizing prev prev' with
  | nil => rfl
  | cons c s ih =>
    have hih : insertBefore z (beside p sides') (some c)
        (insertBefore z (beside p sides) (some c) s) =
          insertBefore z (beside p fun l r => sides l r || sides' l r) (some c) s := ih rfl
    cases hc : beside p sides prev c s.head? with
    | true =>
      have hpc : p c = true := (Bool.and_eq_true_iff.mp hc).1
      have hsides := (Bool.and_eq_true_iff.mp hc).2
      -- the second pass leaves `z` alone, and the member behind it
      have hz' : beside p sides' prev' z (some c) = false := by simp [beside, hpc, hright]
      have hc' : ∀ next, beside p sides' (some z) c next = false := by simp [beside, hz, hleft]
      have hor : beside p (fun l r => sides l r || sides' l r) prev c s.head? = true := by
        simp [beside, hpc, hsides]
      simp [insertBefore, hc, hz', hc', hor, hih]
    | false =>
      have hnext : (insertBefore z (beside p sides) (some c) s).head?.map p = s.head?.map p :=
        head_insertBefore hz (some c) s
      have hc' : beside p sides' prev' c (insertBefore z (beside p sides) (some c) s).head? =
          beside p (fun l r => sides l r || sides' l r) prev c s.head? := by
        rw [beside, hprev, hnext]
        simp only [beside, Bool.and_eq_false_iff] at hc ⊢
        obtain hpc | hsides := hc
        · simp [hpc]
        · simp [hsides]
      simp [insertBefore, hc, hc', hih]

/-- Inside a run nothing is inserted. -/
theorem insertBefore_run {c : α} {run : List α}
    (h : (c :: run).IsChain fun a b => (p a == p b) = true) (rest : List α) :
    insertBefore z (beside p alone) (some c) (run ++ rest) =
      run ++ insertBefore z (beside p alone)
        (some ((c :: run).getLast (List.cons_ne_nil _ _))) rest := by
  induction run generalizing c with
  | nil => rfl
  | cons d run ih =>
    obtain ⟨hcd, hrun⟩ := List.isChain_cons_cons.mp h
    have hkind : p c = p d := eq_of_beq hcd
    have htest : ∀ next, beside p alone (some c) d next = false := by
      intro next
      cases hd : p d <;> simp [beside, alone, hkind, hd]
    rw [List.cons_append, insertBefore, htest, List.getLast_cons_cons]
    simp only [Bool.false_eq_true, if_false, List.cons_append, ih hrun]

/-- A member before each member that stands alone is one before each run of one member. -/
theorem insertBefore_flatten {l : List (List α)} (hnil : [] ∉ l)
    (hrun : ∀ run ∈ l, run.IsChain fun a b => (p a == p b) = true)
    (hsep : l.IsChain fun a b => ∃ ha hb, (p (a.getLast ha) == p (b.head hb)) = false)
    {prev : Option α} (hprev : ∀ q ∈ prev, ∀ c ∈ l.flatten.head?, p q ≠ p c) :
    insertBefore z (beside p alone) prev l.flatten = l.flatMap (padRun p z) := by
  induction l generalizing prev with
  | nil => rfl
  | cons run l ih =>
    obtain ⟨hchain, hl⟩ := List.forall_mem_cons.mp hrun
    obtain ⟨c, tail, rfl⟩ := List.exists_cons_of_ne_nil fun h => hnil (h ▸ List.mem_cons_self ..)
    have hnext : ∀ d ∈ l.flatten.head?,
        p ((c :: tail).getLast (List.cons_ne_nil _ _)) ≠ p d := by
      intro d hd
      cases l with
      | nil => simp at hd
      | cons run' l =>
        obtain ⟨_, hb, hne⟩ := (List.isChain_cons_cons.mp hsep).1
        rw [List.flatten_cons, List.head?_append_of_ne_nil _ hb, List.head?_eq_some_head hb,
          Option.mem_some_iff] at hd
        exact hd ▸ ne_of_beq_false hne
    have hih : insertBefore z (beside p alone)
        (some ((c :: tail).getLast (List.cons_ne_nil _ _))) l.flatten = l.flatMap (padRun p z) :=
      ih (fun h => hnil (List.mem_cons_of_mem _ h)) hl hsep.tail (by simpa using hnext)
    rw [List.flatten_cons, List.cons_append, insertBefore, List.flatMap_cons]
    cases tail with
    | nil =>
      have hbefore : ∀ q ∈ prev, p q ≠ p c := fun q hq => hprev q hq c rfl
      have htest : beside p alone prev c l.flatten.head? = p c := by
        rw [List.getLast_singleton] at hnext
        cases hc : p c with
        | false => simp [beside, hc]
        | true =>
          have halone : alone (prev.map p) (l.flatten.head?.map p) = true := by
            rw [alone_iff]
            constructor
            · intro h
              obtain ⟨q, hq, hpq⟩ := Option.map_eq_some_iff.mp h
              exact hbefore q hq (hpq.trans hc.symm)
            · intro h
              obtain ⟨d, hd, hpd⟩ := Option.map_eq_some_iff.mp h
              exact hnext d hd (hc.trans hpd.symm)
          simp [beside, hc, halone]
      rw [List.nil_append, htest]
      rw [List.getLast_singleton] at hih
      rw [hih]
      cases hc : p c <;> simp [padRun, hc]
    | cons d tail =>
      have hkind : p c = p d := eq_of_beq (List.isChain_cons_cons.mp hchain).1
      have htest : beside p alone prev c (d :: tail ++ l.flatten).head? = false := by
        cases hd : p d <;> simp [beside, alone, hkind, hd]
      rw [htest, insertBefore_run hchain, hih]
      simp [padRun]

/-- The insertion of a member before each member that stands alone pads the runs. -/
theorem insertBefore_alone (p : α → Bool) (z : α) (s : List α) :
    insertBefore z (beside p alone) none s = padRuns p z s := by
  have h : insertBefore z (beside p alone) none (runs p s).flatten = padRuns p z s :=
    insertBefore_flatten (List.nil_notMem_splitBy _ s) (fun _ => List.isChain_of_mem_splitBy)
      (List.isChain_getLast_head_splitBy (fun a b => p a == p b) s) (by simp)
  rwa [runs, List.flatten_splitBy] at h

end Runs
