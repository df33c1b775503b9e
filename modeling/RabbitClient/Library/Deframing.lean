import Mathlib.Data.List.ReduceOption

/-!
Streams that are cut into items from the left, and machines that are handed a stream in pieces. What
a machine gives does not depend on where the pieces end.
-/
namespace Deframing

variable {σ ε α β μ : Type}

/-- What stands at the front of a stream: not enough to tell yet, an error, or an item, `none` if it
is to be left out, with the state and the number of elements it takes up. -/
abbrev Rule (σ ε α β : Type) := σ → List β → Option (Except ε (Option α × σ × Nat))

variable {next : Rule σ ε α β} {s s' : σ} {b c d p : List β} {x : Option α} {n : Nat} {e : ε}

/-- What is told of the front of a stream stays true as the stream goes on. -/
structure Stable (next : Rule σ ε α β) : Prop where
  nil : ∀ s, next s [] = none
  append : ∀ s b c r, next s b = some r → next s (b ++ c) = some r
  pos : ∀ s b x s' n, next s b = some (.ok (x, s', n)) → 0 < n
  le : ∀ s b x s' n, next s b = some (.ok (x, s', n)) → n ≤ b.length

/-- The items of a stream, and how it ends: in an error, or in the front of an item. -/
def splitAux (next : Rule σ ε α β) : Nat → σ → List β → List α × Except ε (σ × List β)
  | 0, s, b => ([], .ok (s, b))
  | fuel + 1, s, b =>
    match next s b with
    | none => ([], .ok (s, b))
    | some (.error e) => ([], .error e)
    | some (.ok (x, s', n)) =>
      let (xs, r) := splitAux next fuel s' (b.drop n)
      (x.toList ++ xs, r)

def split (next : Rule σ ε α β) (s : σ) (b : List β) : List α × Except ε (σ × List β) :=
  splitAux next (b.length + 1) s b

theorem split_wait (h : next s b = none) : split next s b = ([], .ok (s, b)) := by
  rw [split, splitAux, h]

theorem split_fail (h : next s b = some (.error e)) : split next s b = ([], .error e) := by
  rw [split, splitAux, h]

theorem splitAux_fuel (hn : Stable next) {fuel fuel' : Nat} (h : b.length < fuel)
    (h' : b.length < fuel') : splitAux next fuel s b = splitAux next fuel' s b := by
  induction fuel generalizing fuel' s b with
  | zero => omega
  | succ fuel ih =>
    obtain ⟨fuel', rfl⟩ : ∃ k, fuel' = k + 1 := ⟨fuel' - 1, by omega⟩
    rw [splitAux, splitAux]
    rcases hr : next s b with _ | e | ⟨x, s', n⟩
    · rfl
    · rfl
    · have hpos := hn.pos s b x s' n hr
      have hle := hn.le s b x s' n hr
      have hrest : splitAux next fuel s' (b.drop n) = splitAux next fuel' s' (b.drop n) :=
        ih (by rw [List.length_drop]; omega) (by rw [List.length_drop]; omega)
      simp only [hrest]

theorem split_item (hn : Stable next) (h : next s b = some (.ok (x, s', n))) :
    split next s b =
      (x.toList ++ (split next s' (b.drop n)).1, (split next s' (b.drop n)).2) := by
  have hpos := hn.pos s b x s' n h
  have hle := hn.le s b x s' n h
  have hfuel : splitAux next b.length s' (b.drop n) = split next s' (b.drop n) :=
    splitAux_fuel hn (by rw [List.length_drop]; omega) (by omega)
  rw [split, splitAux, h]
  simp only [hfuel]

/-- An error is not overcome by what follows. -/
theorem split_append_fail (hn : Stable next) (h : (split next s b).2 = .error e) (c : List β) :
    split next s (b ++ c) = ((split next s b).1, .error e) := by
  induction hlen : b.length using Nat.strongRecOn generalizing s b with
  | ind k ih =>
    rcases hr : next s b with _ | e' | ⟨x, s', n⟩
    · rw [split_wait hr] at h
      cases h
    · rw [split_fail hr] at h
      cases h
      rw [split_fail hr, split_fail (hn.append s b c _ hr)]
    · have hle := hn.le s b x s' n hr
      have hpos := hn.pos s b x s' n hr
      rw [split_item hn hr] at h
      have hrest := ih (b.drop n).length (by rw [List.length_drop]; omega) h rfl
      rw [split_item hn hr, split_item hn (hn.append s b c _ hr),
        List.drop_append_of_le_length hle, hrest]

/-- The items of a stream that goes on. -/
theorem split_append (hn : Stable next) (h : (split next s b).2 = .ok (s', p)) (c : List β) :
    split next s (b ++ c) =
      ((split next s b).1 ++ (split next s' (p ++ c)).1, (split next s' (p ++ c)).2) := by
  induction hlen : b.length using Nat.strongRecOn generalizing s b with
  | ind k ih =>
    rcases hr : next s b with _ | e | ⟨x, s₁, n⟩
    · rw [split_wait hr] at h ⊢
      cases h
      rfl
    · rw [split_fail hr] at h
      cases h
    · have hle := hn.le s b x s₁ n hr
      have hpos := hn.pos s b x s₁ n hr
      rw [split_item hn hr] at h
      have hrest := ih (b.drop n).length (by rw [List.length_drop]; omega) h rfl
      rw [split_item hn hr, split_item hn (hn.append s b c _ hr),
        List.drop_append_of_le_length hle, hrest, List.append_assoc]

/-- What is left of a stream is not enough for an item. -/
theorem split_rest (hn : Stable next) (h : (split next s b).2 = .ok (s', p)) :
    next s' p = none := by
  induction hlen : b.length using Nat.strongRecOn generalizing s b with
  | ind k ih =>
    rcases hr : next s b with _ | e | ⟨x, s₁, n⟩
    · rw [split_wait hr] at h
      cases h
      exact hr
    · rw [split_fail hr] at h
      cases h
    · have hpos := hn.pos s b x s₁ n hr
      have hle := hn.le s b x s₁ n hr
      rw [split_item hn hr] at h
      exact ih (b.drop n).length (by rw [List.length_drop]; omega) h rfl

/-- Every item takes up something. -/
theorem length_split_le (hn : Stable next) : (split next s b).1.length ≤ b.length := by
  induction hlen : b.length using Nat.strongRecOn generalizing s b with
  | ind k ih =>
    rcases hr : next s b with _ | e | ⟨x, s', n⟩
    · simp [split_wait hr]
    · simp [split_fail hr]
    · have hpos := hn.pos s b x s' n hr
      have hle := hn.le s b x s' n hr
      have hrest := ih (b.drop n).length (by rw [List.length_drop]; omega) (s := s') rfl
      have hone : x.toList.length ≤ 1 := by cases x <;> simp
      rw [List.length_drop] at hrest
      rw [split_item hn hr, List.length_append]
      omega

/-- With the items `xs` taken from the front of `b`, what is left is `p`. -/
def Ahead (next : Rule σ ε α β) (s : σ) (b : List β) (xs : List α) (s' : σ) (p : List β) : Prop :=
  split next s b = (xs ++ (split next s' p).1, (split next s' p).2)

variable {xs ys : List α} {t : σ} {q : List β}

theorem ahead_refl (next : Rule σ ε α β) (s : σ) (b : List β) : Ahead next s b [] s b := rfl

theorem ahead_item (hn : Stable next) (h : next s b = some (.ok (x, s', n))) :
    Ahead next s b x.toList s' (b.drop n) := split_item hn h

theorem Ahead.trans (h : Ahead next s b xs s' p) (h' : Ahead next s' p ys t q) :
    Ahead next s b (xs ++ ys) t q := by
  rw [Ahead] at *
  rw [h, h', List.append_assoc]

/-- What is left goes on as the stream does. -/
theorem Ahead.append (hn : Stable next) (h : Ahead next s b xs s' p) (c : List β) :
    Ahead next s (b ++ c) xs s' (p ++ c) := by
  rw [Ahead] at *
  rcases hend : (split next s' p).2 with e | ⟨t, q⟩
  · rw [split_append_fail hn (by rw [h]; exact hend), split_append_fail hn hend, h]
  · rw [split_append hn (by rw [h]; exact hend), split_append hn hend, h, List.append_assoc]

/-- A machine takes elements from the front of what it is handed: it tells how many, and the item
that they complete. -/
abbrev Machine (μ ε α β : Type) := μ → List β → μ × Except ε (Nat × Option α)

/-- The machine keeps to the rule: `R m s p` says that `m` has taken `p` of an item that begins in
the state `s`. -/
structure Follows (push : Machine μ ε α β) (next : Rule σ ε α β) (R : μ → σ → List β → Prop) :
    Prop where
  wait : ∀ m s p d, R m s p → d ≠ [] → next s (p ++ d) = none →
    ∃ m', push m d = (m', .ok (d.length, none)) ∧ R m' s (p ++ d)
  fail : ∀ m s p d e, R m s p → d ≠ [] → next s (p ++ d) = some (.error e) →
    ∃ m', push m d = (m', .error e)
  item : ∀ m s p d x s' n, R m s p → d ≠ [] → next s (p ++ d) = some (.ok (x, s', n)) →
    p.length < n ∧ ∃ m', push m d = (m', .ok (n - p.length, x)) ∧ R m' s' []

variable {push : Machine μ ε α β} {R : μ → σ → List β → Prop} {m : μ}

/-- The machine is handed a piece until nothing is left of it. -/
def drainAux (push : Machine μ ε α β) : Nat → μ → List β → μ × List α × Except ε Unit
  | 0, m, _ => (m, [], .ok ())
  | fuel + 1, m, d =>
    if d.isEmpty then (m, [], .ok ())
    else
      match push m d with
      | (m, .error e) => (m, [], .error e)
      | (m, .ok (n, x)) =>
        let (m, xs, r) := drainAux push fuel m (d.drop n)
        (m, x.toList ++ xs, r)

def drain (push : Machine μ ε α β) (m : μ) (d : List β) : μ × List α × Except ε Unit :=
  drainAux push d.length m d

/-- One piece after the other, up to an error. -/
def receive (push : Machine μ ε α β) : μ → List (List β) → μ × List α × Except ε Unit
  | m, [] => (m, [], .ok ())
  | m, d :: ds =>
    match drain push m d with
    | (m, xs, .error e) => (m, xs, .error e)
    | (m, xs, .ok ()) =>
      let (m, ys, r) := receive push m ds
      (m, xs ++ ys, r)

/-- Items and outcome are those of the stream, and the machine stands where the stream ends. -/
def Agrees (R : μ → σ → List β → Prop) (got : μ × List α × Except ε Unit)
    (want : List α × Except ε (σ × List β)) : Prop :=
  got.2 = (want.1, want.2.map fun _ => ()) ∧ ∀ s p, want.2 = .ok (s, p) → R got.1 s p

theorem drainAux_agrees (hf : Follows push next R) (hn : Stable next) {fuel : Nat}
    (h : R m s p) (hp : next s p = none) (hd : d.length ≤ fuel) :
    Agrees R (drainAux push fuel m d) (split next s (p ++ d)) := by
  induction fuel generalizing m s p d with
  | zero =>
    obtain rfl : d = [] := List.length_eq_zero_iff.mp (by omega)
    rw [List.append_nil, split_wait hp]
    refine ⟨rfl, ?_⟩
    rintro s' p' ⟨⟩
    exact h
  | succ fuel ih =>
    rcases hnil : d with _ | ⟨a, t⟩
    · rw [List.append_nil, split_wait hp]
      refine ⟨rfl, ?_⟩
      rintro s' p' ⟨⟩
      exact h
    have hne : d ≠ [] := by simp [hnil]
    rw [← hnil, drainAux, if_neg (by simpa using hne)]
    rcases hr : next s (p ++ d) with _ | e | ⟨x, s', n⟩
    · obtain ⟨m', hpush, hm'⟩ := hf.wait m s p d h hne hr
      have hrest := ih (d := []) hm' hr (by simp)
      rw [List.append_nil] at hrest
      rw [hpush]
      simpa using hrest
    · obtain ⟨m', hpush⟩ := hf.fail m s p d e h hne hr
      rw [hpush, split_fail hr]
      exact ⟨rfl, by simp⟩
    · obtain ⟨hlt, m', hpush, hm'⟩ := hf.item m s p d x s' n h hne hr
      have hle := hn.le s _ x s' n hr
      rw [List.length_append] at hle
      have hdrop : (p ++ d).drop n = d.drop (n - p.length) := by
        rw [List.drop_append, List.drop_eq_nil_of_le (by omega), List.nil_append]
      obtain ⟨hrest, hend⟩ := ih (d := d.drop (n - p.length)) hm' (hn.nil s')
        (by rw [List.length_drop]; omega)
      rw [List.nil_append] at hrest hend
      rw [hpush, split_item hn hr, hdrop]
      rcases hdrain : drainAux push fuel m' (d.drop (n - p.length)) with ⟨m'', xs, r⟩
      rw [hdrain] at hrest hend
      cases hrest
      simp only [hdrain]
      exact ⟨rfl, hend⟩

theorem drain_agrees (hf : Follows push next R) (hn : Stable next) (h : R m s p)
    (hp : next s p = none) (d : List β) :
    Agrees R (drain push m d) (split next s (p ++ d)) :=
  drainAux_agrees hf hn h hp (Nat.le_refl _)

/-- A machine that is handed a stream in pieces gives the items of the stream, wherever the pieces
end. -/
theorem receive_agrees (hf : Follows push next R) (hn : Stable next) (h : R m s p)
    (hp : next s p = none) (ds : List (List β)) :
    Agrees R (receive push m ds) (split next s (p ++ ds.flatten)) := by
  induction ds generalizing m s p with
  | nil =>
    rw [List.flatten_nil, List.append_nil, split_wait hp]
    refine ⟨rfl, ?_⟩
    rintro s' p' ⟨⟩
    exact h
  | cons d ds ih =>
    obtain ⟨hgot, hm⟩ := drain_agrees hf hn h hp d
    rw [List.flatten_cons, ← List.append_assoc, receive]
    rcases hdrain : drain push m d with ⟨m', xs, r⟩
    rw [hdrain] at hgot hm
    rcases hrest : (split next s (p ++ d)).2 with e | ⟨s', p'⟩
    · rw [hrest] at hgot
      cases hgot
      rw [split_append_fail hn hrest]
      exact ⟨rfl, by simp⟩
    · obtain ⟨hitems, hend⟩ := ih (hm s' p' hrest) (split_rest hn hrest)
      rw [hrest] at hgot
      cases hgot
      rw [split_append hn hrest]
      rcases hreceive : receive push m' ds with ⟨m'', ys, r⟩
      rw [hreceive] at hitems hend
      cases hitems
      simp only [Except.map, hreceive]
      exact ⟨rfl, hend⟩

end Deframing
