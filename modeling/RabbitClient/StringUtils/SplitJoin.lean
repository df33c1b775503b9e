import RabbitClient.StringUtils.Split

/-! `split` is the inverse of joining, and `splitString` leaves out a last empty element. -/
namespace RabbitClient.StringUtils

open Bytes

/-- Why `split` returns nothing: `count` is zero, or there is no room for so many elements. -/
inductive SplitFailure where
  | assertion
  | reserve
deriving DecidableEq

/-- The element that begins at `itV1`, if it points anywhere, and ends before `it`. -/
def element (data : Bytes) (itV1 : Option Nat) (it : Nat) : Bytes :=
  match itV1 with
  | none => []
  | some start => (data.drop start).take (it - start)

/-- The loop of `split` with its pointers; the last argument is the text from `it` on. -/
def scan (data : Bytes) (delimiter : UInt8) : Option Nat → Nat → Bytes → List Bytes
  | itV1, it, [] => [element data itV1 it]
  | itV1, it, c :: rest =>
    if c = delimiter then element data itV1 it :: scan data delimiter none (it + 1) rest
    else scan data delimiter (some (itV1.getD it)) (it + 1) rest

/-- `split` with a `count`; `reserve` tells for which numbers there is room. -/
def split_count (reserve : UInt64 → Bool) (input : Bytes) (delimiter : UInt8) (count : UInt64) :
    Except SplitFailure (List Bytes) :=
  if count = 0 then .error .assertion
  else if reserve count then .ok (scan input delimiter none 0 (cstr input))
  else .error .reserve

variable {data rest s : Bytes} {d : UInt8} {reserve : UInt64 → Bool} {count : UInt64}

/-- A pointer that is set points into what has been passed, and what is begun is not yet over. -/
theorem element_succ {itV1 : Option Nat} {it : Nat} {c : UInt8}
    (h : ∀ start ∈ itV1, start ≤ it) (hrest : data.drop it = c :: rest) :
    element data (some (itV1.getD it)) (it + 1) = element data itV1 it ++ [c] := by
  have hc : data[it]? = some c := by
    have h0 : (data.drop it)[0]? = some c := by rw [hrest]; rfl
    rwa [List.getElem?_drop, Nat.add_zero] at h0
  cases itV1 with
  | none => simp [element, hrest]
  | some start =>
    have hle : start ≤ it := h start rfl
    have hsub : it + 1 - start = it - start + 1 := by omega
    have hget : (data.drop start)[it - start]? = some c := by
      rw [List.getElem?_drop, Nat.add_sub_cancel' hle, hc]
    simp only [element, Option.getD_some, hsub]
    rw [List.take_add_one, hget]
    rfl

/-- The pointers stand for the element begun; `tail` is what the loop does not reach. -/
theorem scan_eq {itV1 : Option Nat} {it : Nat} {begun : Option Bytes} {tail : Bytes}
    (h : ∀ start ∈ itV1, start ≤ it) (hdata : data.drop it = rest ++ tail)
    (hbegun : begun.getD [] = element data itV1 it) :
    scan data d itV1 it rest = splitLoop d begun rest := by
  induction rest generalizing itV1 it begun with
  | nil => rw [scan, splitLoop, hbegun]
  | cons c rest ih =>
    have hnext : data.drop (it + 1) = rest ++ tail := by
      rw [← List.drop_drop, hdata]
      rfl
    rw [scan, splitLoop, hbegun]
    split
    · have hscan : scan data d none (it + 1) rest = splitLoop d none rest :=
        ih (by simp) hnext rfl
      rw [hscan]
    · apply ih _ hnext
      · exact (element_succ h hdata).symm
      · intro start hstart
        obtain rfl : itV1.getD it = start := Option.some_inj.mp hstart
        cases itV1 with
        | none => simp
        | some start => exact Nat.le_succ_of_le (h start rfl)

/-- Where there is room, `count` makes no difference. -/
theorem split_count_eq (hcount : 0 < count) (hreserve : reserve count = true) (s : Bytes) :
    split_count reserve s d count = .ok (split s d) := by
  have hdata : s.drop 0 = cstr s ++ s.dropWhile (· ≠ 0) := List.takeWhile_append_dropWhile.symm
  have hne : count ≠ 0 := by
    rintro rfl
    exact absurd hcount (by decide)
  have hscan : scan s d none 0 (cstr s) = splitLoop d none (cstr s) :=
    scan_eq (by simp) hdata rfl
  rw [split_count, if_neg hne, if_pos hreserve, hscan, split]

/-- The elements of a text: one more than there are delimiters, and they make up the text. -/
structure Elements (d : UInt8) (s : Bytes) (elements : List Bytes) : Prop where
  length : elements.length = s.count d + 1
  delimiter_notMem : ∀ e ∈ elements, d ∉ e
  join : [d].intercalate elements = s

theorem length_splitOn (d : UInt8) (s : Bytes) : (s.splitOn d).length = s.count d + 1 := by
  induction s with
  | nil => simp
  | cons c s ih =>
    rw [List.splitOn_cons_eq_if_modifyHead, List.count_cons]
    by_cases hc : c = d
    · simp [hc, ih]
    · simp [hc, ih]

theorem notMem_of_mem_splitOn {e : Bytes} (h : e ∈ s.splitOn d) : d ∉ e := by
  induction s generalizing e with
  | nil => simp_all
  | cons c s ih =>
    rw [List.splitOn_cons_eq_if_modifyHead] at h
    by_cases hc : c = d
    · simp only [hc, beq_self_eq_true, if_true] at h
      rcases List.mem_cons.mp h with rfl | h
      · exact List.not_mem_nil
      · exact ih h
    · obtain ⟨rest, hrest⟩ := splitOn_eq_cons d s
      simp only [beq_iff_eq, hc, if_false, hrest, List.modifyHead_cons] at h
      rcases List.mem_cons.mp h with rfl | h
      · rw [List.mem_cons, not_or]
        exact ⟨Ne.symm hc, ih (hrest ▸ List.mem_cons_self ..)⟩
      · exact ih (hrest ▸ List.mem_cons_of_mem _ h)

/-- `split` is the inverse of joining, for every `count` there is room for. -/
theorem split_count_inverse (reserve : UInt64 → Bool) (d : UInt8) (hd : d ≠ 0) (count : UInt64)
    (hcount : 0 < count) (hreserve : reserve count = true) :
    (∀ s, 0 ∉ s → ∃ elements, split_count reserve s d count = .ok elements ∧
      Elements d s elements) ∧
    (∀ l : List Bytes, l ≠ [] → (∀ e ∈ l, 0 ∉ e ∧ d ∉ e) →
      split_count reserve ([d].intercalate l) d count = .ok l) ∧
    (∀ s count', 0 < count' → reserve count' = true →
      split_count reserve s d count' = split_count reserve s d count) := by
  refine ⟨?_, ?_, ?_⟩
  · intro s hs
    refine ⟨s.splitOn d, ?_, length_splitOn d s, fun e he => notMem_of_mem_splitOn he,
      List.intercalate_splitOn d⟩
    rw [split_count_eq hcount hreserve, split_eq hs]
  · intro l hl he
    have hnul : 0 ∉ [d].intercalate l :=
      notMem_intercalate hd.symm fun e hmem => (he e hmem).1
    rw [split_count_eq hcount hreserve, split_eq hnul,
      List.splitOn_intercalate d (fun e hmem => (he e hmem).2) hl]
  · intro s count' hcount' hreserve'
    rw [split_count_eq hcount hreserve, split_count_eq hcount' hreserve']

/-- Room for up to a thousand elements. -/
def thousand (count : UInt64) : Bool := count ≤ 1000

/-- Empty elements at both ends and in between, with less room asked for than is needed. -/
theorem split_count_inverse_commas :
    ofChar ',' ≠ 0 ∧ (0 : UInt64) < 2 ∧ thousand 2 = true ∧ 0 ∉ ascii ",a,,b," ∧
      ∃ elements, split_count thousand (ascii ",a,,b,") (ofChar ',') 2 = .ok elements ∧
        Elements (ofChar ',') (ascii ",a,,b,") elements :=
  ⟨by decide, by decide, by decide, by decide,
    (split_count_inverse thousand (ofChar ',') (by decide) 2 (by decide) (by decide)).1 _
      (by decide)⟩

/-- `std::getline`: what comes before the delimiter, which is dropped, or all the rest. It fails at
the end of the stream. -/
def getline (stream : Bytes) (delimiter : UInt8) : Option (Bytes × Bytes) :=
  match stream with
  | [] => none
  | _ :: _ => some (stream.takeWhile (· ≠ delimiter), (stream.dropWhile (· ≠ delimiter)).tail)

theorem length_getline {stream element : Bytes} {rest : Bytes}
    (h : getline stream d = some (element, rest)) : rest.length < stream.length := by
  cases stream with
  | nil => cases h
  | cons c stream =>
    obtain ⟨-, rfl⟩ := Prod.mk.inj (Option.some_inj.mp h)
    have hle := (List.dropWhile_suffix (· ≠ d) (l := c :: stream)).length_le
    rw [List.length_tail]
    simp only [List.length_cons] at hle ⊢
    omega

def splitString (stream : Bytes) (delimiter : UInt8) : List Bytes :=
  match h : getline stream delimiter with
  | none => []
  | some (element, rest) =>
    have := length_getline h
    element :: splitString rest delimiter
termination_by stream.length

theorem splitString_nil (d : UInt8) : splitString [] d = [] := by
  rw [splitString]
  rfl

/-- One turn of the loop. -/
theorem splitString_of_ne_nil (h : s ≠ []) :
    splitString s d = s.takeWhile (· ≠ d) :: splitString (s.dropWhile (· ≠ d)).tail d := by
  obtain ⟨c, s, rfl⟩ := List.exists_cons_of_ne_nil h
  rw [splitString]
  rfl

/-- The empty element that comes last if the text is empty or ends with the delimiter. -/
def lastEmpty (s : Bytes) (d : UInt8) : List Bytes :=
  if s = [] ∨ s.getLast? = some d then [[]] else []

theorem splitOn_eq_splitString (s : Bytes) (d : UInt8) :
    s.splitOn d = splitString s d ++ lastEmpty s d := by
  induction hn : s.length using Nat.strong_induction_on generalizing s with
  | _ n ih =>
    rcases eq_or_ne s [] with rfl | hs
    · simp [splitString_nil, lastEmpty]
    rw [splitString_of_ne_nil hs]
    by_cases hd : d ∈ s
    · -- one element, and the text behind the delimiter
      obtain ⟨a, b, rfl, ha⟩ := List.eq_append_cons_of_mem hd
      have htake : (a ++ d :: b).takeWhile (· ≠ d) = a := by
        rw [List.takeWhile_append_of_pos (ne_of_notMem ha), List.takeWhile_cons_of_neg (by simp),
          List.append_nil]
      have hdrop : (a ++ d :: b).dropWhile (· ≠ d) = d :: b := by
        rw [List.dropWhile_append_of_pos (ne_of_notMem ha), List.dropWhile_cons_of_neg (by simp)]
      have hlast : lastEmpty (a ++ d :: b) d = lastEmpty b d := by
        rcases eq_or_ne b [] with rfl | hb
        · simp [lastEmpty]
        · simp [lastEmpty, hb, List.getLast?_append, List.getLast?_cons,
            List.getLast?_eq_some_getLast hb]
      have hb : b.length < n := by
        rw [← hn, List.length_append, List.length_cons]
        omega
      rw [htake, hdrop, List.tail_cons, List.splitOn_append_cons_self_of_not_mem ha, ih _ hb b rfl,
        hlast, List.cons_append]
    · have hlast : s.getLast? ≠ some d := fun h => hd (List.mem_of_getLast? h)
      have htake : s.takeWhile (· ≠ d) = s := List.takeWhile_eq_self_iff.mpr (ne_of_notMem hd)
      have hdrop : s.dropWhile (· ≠ d) = [] := List.dropWhile_eq_nil_iff.mpr (ne_of_notMem hd)
      rw [htake, hdrop, List.tail_nil, splitString_nil, List.splitOn_eq_singleton hd]
      simp [lastEmpty, hs, hlast]

/-- The two splitters differ in a last empty element only. -/
theorem split_eq_splitString (s : Bytes) (d : UInt8) (h : 0 ∉ s) :
    split s d = splitString s d ++ lastEmpty s d := by
  rw [split_eq h, splitOn_eq_splitString]

/-- A text that ends with the delimiter. -/
theorem split_eq_splitString_commas :
    0 ∉ ascii ",a,,b," ∧ split (ascii ",a,,b,") (ofChar ',') =
      splitString (ascii ",a,,b,") (ofChar ',') ++ [[]] :=
  ⟨by decide, split_eq_splitString (ascii ",a,,b,") (ofChar ',') (by decide)⟩

end RabbitClient.StringUtils
