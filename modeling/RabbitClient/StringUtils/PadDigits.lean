import RabbitClient.Library.RegexReplace
import RabbitClient.StringUtils.TimeText

/-! `check_format_time` puts a zero before each number of one digit. -/
namespace RabbitClient.StringUtils

open Bytes Regex Runs

def notdigit (c : UInt8) : Bool := !isdigit c

/-- `^(\d)([^\d])`, and what it is replaced by. -/
def firstFormatter : Pattern UInt8 × List (Item UInt8) :=
  ({ atBegin := true
     groups := [isdigit, notdigit]
     assertion := .always
     ne_nil := List.cons_ne_nil _ _ },
    [.char (ofChar '@'), .group 1, .group 2])

/-- `([^\d])(\d)(?=[^\d])`. -/
def middleFormatter : Pattern UInt8 × List (Item UInt8) :=
  ({ atBegin := false
     groups := [notdigit, isdigit]
     assertion := .ahead notdigit
     ne_nil := List.cons_ne_nil _ _ },
    [.group 1, .char (ofChar '@'), .group 2, .group 3])

/-- `([^\d])(\d)$`. -/
def lastFormatter : Pattern UInt8 × List (Item UInt8) :=
  ({ atBegin := false
     groups := [notdigit, isdigit]
     assertion := .atEnd
     ne_nil := List.cons_ne_nil _ _ },
    [.group 1, .char (ofChar '@'), .group 2])

def FORMATTERS : List (Pattern UInt8 × List (Item UInt8)) :=
  [firstFormatter, middleFormatter, lastFormatter]

/-- `std::replace` of the mark that the replacements leave. -/
def unmark (c : UInt8) : UInt8 := if c = ofChar '@' then ofChar '0' else c

def check_format_time (value : Bytes) : Bytes :=
  FORMATTERS.foldl (fun value fmt => (regex_replace fmt.1 fmt.2 value).map unmark) value

example : check_format_time (ascii "7/1/2024 3:04:5") = ascii "07/01/2024 03:04:05" := by decide

variable {s : Bytes}

/-- What is on the two sides of a digit: a digit, another character, or nothing. -/
def exactly (l r left right : Option Bool) : Bool := left == l && right == r

/-- Those of a digit that gets a zero in one of the passes. -/
def padSides (left right : Option Bool) : Bool :=
  exactly none (some false) left right || exactly (some false) (some false) left right ||
    exactly (some false) none left right

/-- A digit that stands alone gets one, unless it is the whole text. -/
theorem padSides_eq (left right : Option Bool) :
    padSides left right = (alone left right && !(left == none && right == none)) := by
  rcases left with _ | _ | _ <;> rcases right with _ | _ | _ <;> rfl

/-- A zero in the place of the mark. -/
theorem map_unmark_insertBefore (h : ofChar '@' ∉ s)
    (test : Option UInt8 → UInt8 → Option UInt8 → Bool) :
    (insertBefore (ofChar '@') test none s).map unmark = insertBefore (ofChar '0') test none s := by
  have hs : ∀ c ∈ s, unmark c = c := by
    intro c hc
    rw [unmark, if_neg]
    rintro rfl
    exact h hc
  rw [map_insertBefore hs]
  rfl

theorem at_notMem_insertBefore (h : ofChar '@' ∉ s)
    (test : Option UInt8 → UInt8 → Option UInt8 → Bool) :
    ofChar '@' ∉ insertBefore (ofChar '0') test none s := by
  intro hmem
  obtain heq | hmem := mem_insertBefore hmem
  · exact absurd heq (by decide)
  · exact h hmem

theorem notdigit_of_isdigit {c : UInt8} (h : isdigit c = true) : notdigit c = false := by
  rw [notdigit, h]
  rfl

theorem replace_first (s : Bytes) : regex_replace firstFormatter.1 firstFormatter.2 s =
    insertBefore (ofChar '@') (beside isdigit (exactly none (some false))) none s := by
  have htest : (fun prev c next => prev.isNone && isdigit c && next.any notdigit) =
      beside isdigit (exactly none (some false)) := by
    funext prev c next
    cases prev <;> cases next <;> simp [beside, exactly, notdigit]
  rw [regex_replace_begin rfl rfl rfl fun _ _ => rfl, htest]

theorem replace_middle (s : Bytes) : regex_replace middleFormatter.1 middleFormatter.2 s =
    insertBefore (ofChar '@') (beside isdigit (exactly (some false) (some false))) none s := by
  have htest : pairTest notdigit isdigit (.ahead notdigit) =
      beside isdigit (exactly (some false) (some false)) := by
    funext prev c next
    cases prev <;> cases next <;>
      simp [pairTest, Assertion.holds, beside, exactly, notdigit, Bool.and_assoc,
        Bool.and_left_comm]
  rw [← htest]
  exact regex_replace_pair rfl rfl (fun _ _ => rfl) (fun _ => notdigit_of_isdigit) s

theorem replace_last (s : Bytes) : regex_replace lastFormatter.1 lastFormatter.2 s =
    insertBefore (ofChar '@') (beside isdigit (exactly (some false) none)) none s := by
  have htest : pairTest notdigit isdigit .atEnd = beside isdigit (exactly (some false) none) := by
    funext prev c next
    cases prev <;> cases next <;>
      simp [pairTest, Assertion.holds, beside, exactly, notdigit, Bool.and_comm]
  rw [← htest]
  exact regex_replace_pair rfl rfl (fun _ _ => rfl) (fun _ => notdigit_of_isdigit) s

/-- What the three passes do together. -/
theorem check_format_time_eq (h : ofChar '@' ∉ s) :
    check_format_time s = insertBefore (ofChar '0') (beside isdigit padSides) none s := by
  have hzero : isdigit (ofChar '0') = true := by decide
  have hspares : ∀ l r, l ≠ some true → r ≠ some true →
      ∀ left right, exactly l r left right = true → alone left right = true := by
    intro l r hl hr left right hexact
    simp only [exactly, Bool.and_eq_true, beq_iff_eq] at hexact
    obtain ⟨rfl, rfl⟩ := hexact
    simp [alone, hl, hr]
  simp only [check_format_time, FORMATTERS, List.foldl_cons, List.foldl_nil]
  -- each pass inserts a mark, which becomes a zero
  rw [replace_first, map_unmark_insertBefore h, replace_middle]
  have h1 := at_notMem_insertBefore h (beside isdigit (exactly none (some false)))
  rw [map_unmark_insertBefore h1, replace_last]
  have h2 := at_notMem_insertBefore h1 (beside isdigit (exactly (some false) (some false)))
  rw [map_unmark_insertBefore h2]
  -- and a pass leaves alone what an earlier one has padded
  rw [insertBefore_insertBefore hzero (hspares _ _ (by decide) (by decide)) s rfl,
    insertBefore_insertBefore hzero (hspares _ _ (by decide) (by decide)) s rfl]
  rfl

/-- Behind another character every digit that stands alone gets one. -/
theorem insertBefore_padSides_some (q : UInt8) (s : Bytes) :
    insertBefore (ofChar '0') (beside isdigit padSides) (some q) s =
      insertBefore (ofChar '0') (beside isdigit alone) (some q) s := by
  apply insertBefore_congr
  intro q d next
  simp [beside, padSides_eq]

theorem insertBefore_padSides (hsingle : ∀ d, isdigit d = true → s ≠ [d]) :
    insertBefore (ofChar '0') (beside isdigit padSides) none s =
      insertBefore (ofChar '0') (beside isdigit alone) none s := by
  cases s with
  | nil => rfl
  | cons c s =>
    have hfirst : beside isdigit padSides none c s.head? =
        beside isdigit alone none c s.head? := by
      cases hc : isdigit c with
      | false => simp [beside, hc]
      | true =>
        cases s with
        | nil => exact absurd rfl (hsingle c hc)
        | cons d s => simp [beside, padSides_eq]
    rw [insertBefore, insertBefore, hfirst, insertBefore_padSides_some]

/-- The numbers of one digit get a zero, wherever they stand, and a second time there are none. -/
theorem check_format_time_eq_padRuns (hat : ofChar '@' ∉ s)
    (hsingle : ∀ d, isdigit d = true → s ≠ [d]) :
    check_format_time s = padRuns isdigit (ofChar '0') s ∧
      check_format_time (check_format_time s) = check_format_time s := by
  have hzero : isdigit (ofChar '0') = true := by decide
  constructor
  · rw [check_format_time_eq hat, insertBefore_padSides hsingle, insertBefore_alone]
  · have hspares : ∀ left right, padSides left right = true → alone left right = true := by
      intro left right hpad
      rw [padSides_eq, Bool.and_eq_true] at hpad
      exact hpad.1
    have hor : (fun l r => padSides l r || padSides l r) = padSides := by
      funext l r
      exact Bool.or_self _
    rw [check_format_time_eq hat, check_format_time_eq (at_notMem_insertBefore hat _),
      insertBefore_insertBefore hzero hspares s rfl, hor]

/-- Neighbours that share a separator, and runs at both ends. -/
theorem check_format_time_eq_padRuns_date :
    ofChar '@' ∉ ascii "1/2/3 10:4:5" ∧ (∀ d, isdigit d = true → ascii "1/2/3 10:4:5" ≠ [d]) ∧
      check_format_time (ascii "1/2/3 10:4:5") =
        padRuns isdigit (ofChar '0') (ascii "1/2/3 10:4:5") ∧
      check_format_time (check_format_time (ascii "1/2/3 10:4:5")) =
        check_format_time (ascii "1/2/3 10:4:5") :=
  have hat : ofChar '@' ∉ ascii "1/2/3 10:4:5" := by decide
  have hsingle : ∀ d, isdigit d = true → ascii "1/2/3 10:4:5" ≠ [d] :=
    fun d _ h => absurd (congrArg List.length h) (Nat.succ_succ_ne_one _)
  ⟨hat, hsingle, check_format_time_eq_padRuns hat hsingle⟩

end RabbitClient.StringUtils
