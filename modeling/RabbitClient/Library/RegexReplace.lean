import RabbitClient.Library.Runs

/-!
Replacement of the matches of a regular expression, from left to right. The expressions are groups
of one character each, one after the other, with an assertion about what follows.
-/
namespace Regex

open Runs

variable {α : Type}

/-- What has to follow a match: anything, a character of a class, or the end of the text. -/
inductive Assertion (α : Type) where
  | always
  | ahead (p : α → Bool)
  | atEnd

def Assertion.holds : Assertion α → Option α → Bool
  | .always, _ => true
  | .ahead p, next => next.any p
  | .atEnd, next => next.isNone

/-- An expression; it matches at least one character. -/
structure Pattern (α : Type) where
  /-- Matches at the beginning of the text only. -/
  atBegin : Bool
  groups : List (α → Bool)
  assertion : Assertion α
  ne_nil : groups ≠ []

/-- A part of a replacement; groups are numbered from 1. -/
inductive Item (α : Type) where
  | char (c : α)
  | group (n : Nat)

/-- The text behind the groups, if they match at the beginning. -/
def matchGroups : List (α → Bool) → List α → Option (List α)
  | [], b => some b
  | _ :: _, [] => none
  | g :: groups, c :: b => if g c then matchGroups groups b else none

/-- Whether there is a match; `begins` is set at the beginning of the text. -/
def Pattern.matchesAt (re : Pattern α) (begins : Bool) (b : List α) : Bool :=
  (begins || !re.atBegin) &&
    match matchGroups re.groups b with
    | some rest => re.assertion.holds rest.head?
    | none => false

/-- The text of a replacement; nothing stands for a group that does not exist. -/
def expand (fmt : List (Item α)) (groups : List α) : List α :=
  fmt.flatMap fun
    | .char c => [c]
    | .group n => groups[n - 1]?.toList

/-- Goes on behind a match; `skip` counts the characters of it that are still to come. -/
def replaceFrom (re : Pattern α) (fmt : List (Item α)) : Bool → Nat → List α → List α
  | _, _, [] => []
  | begins, 0, c :: b =>
    if re.matchesAt begins (c :: b) then
      expand fmt ((c :: b).take re.groups.length) ++
        replaceFrom re fmt false (re.groups.length - 1) b
    else c :: replaceFrom re fmt false 0 b
  | _, skip + 1, _ :: b => replaceFrom re fmt false skip b

def regex_replace (re : Pattern α) (fmt : List (Item α)) (s : List α) : List α :=
  replaceFrom re fmt true 0 s

variable {re : Pattern α} {fmt : List (Item α)} {g h : α → Bool} {z : α}

/-- A character of the second group behind one of the first. -/
def pairTest (g h : α → Bool) (assertion : Assertion α) (prev : Option α) (c : α)
    (next : Option α) : Bool :=
  prev.any g && h c && assertion.holds next

theorem matchesAt_pair (hgroups : re.groups = [g, h]) (begins : Bool) (c d : α) (b : List α) :
    re.matchesAt begins (c :: d :: b) =
      ((begins || !re.atBegin) && (g c && h d && re.assertion.holds b.head?)) := by
  rw [Pattern.matchesAt, hgroups]
  cases hc : g c <;> cases hd : h d <;> simp [matchGroups, hc, hd]

theorem matchesAt_singleton (hgroups : re.groups = [g, h]) (begins : Bool) (c : α) :
    re.matchesAt begins [c] = false := by
  rw [Pattern.matchesAt, hgroups]
  cases hc : g c <;> simp [matchGroups, hc]

/-- A replacement that puts `z` between the groups puts it wherever the two stand side by side: as
no character is in both groups, matches do not overlap. `prev` is the character before the text; it
makes no pair with the first one. -/
theorem replaceFrom_pair (hbegin : re.atBegin = false) (hgroups : re.groups = [g, h])
    (hfmt : ∀ c d, expand fmt [c, d] = [c, z, d]) (hdisjoint : ∀ c, h c = true → g c = false) :
    ∀ (b : List α) (begins : Bool) (prev : Option α),
      (∀ c ∈ b.head?, pairTest g h re.assertion prev c b.tail.head? = false) →
      replaceFrom re fmt begins 0 b = insertBefore z (pairTest g h re.assertion) prev b
  | [], _, _, _ => rfl
  | [c], begins, prev, hpending => by
    have hc : pairTest g h re.assertion prev c none = false := hpending c rfl
    simp [replaceFrom, insertBefore, matchesAt_singleton hgroups, hc]
  | c :: d :: b, begins, prev, hpending => by
    have hc : pairTest g h re.assertion prev c (some d) = false := hpending c rfl
    have hmatch : re.matchesAt begins (c :: d :: b) =
        pairTest g h re.assertion (some c) d b.head? := by
      rw [matchesAt_pair hgroups, hbegin]
      simp [pairTest]
    rw [replaceFrom, insertBefore, List.head?_cons, hc, hmatch]
    cases hd : pairTest g h re.assertion (some c) d b.head? with
    | true =>
      -- a match: the text behind it does not begin with a pair
      have hg : g d = false := by
        simp only [pairTest, Bool.and_eq_true] at hd
        exact hdisjoint d hd.1.2
      have hrest := replaceFrom_pair hbegin hgroups hfmt hdisjoint b false (some d)
        (by simp [pairTest, hg])
      simp [hgroups, hfmt, replaceFrom, insertBefore, hd, hrest]
    | false =>
      have hrest := replaceFrom_pair hbegin hgroups hfmt hdisjoint (d :: b) false (some c)
        (by simp [hd])
      simp [hrest]

theorem regex_replace_pair (hbegin : re.atBegin = false) (hgroups : re.groups = [g, h])
    (hfmt : ∀ c d, expand fmt [c, d] = [c, z, d]) (hdisjoint : ∀ c, h c = true → g c = false)
    (s : List α) :
    regex_replace re fmt s = insertBefore z (pairTest g h re.assertion) none s :=
  replaceFrom_pair hbegin hgroups hfmt hdisjoint s true none (by simp [pairTest])

/-- Behind the beginning there is nothing to replace. -/
theorem replaceFrom_of_atBegin (hbegin : re.atBegin = true) (b : List α) :
    replaceFrom re fmt false 0 b = b := by
  induction b with
  | nil => rfl
  | cons c b ih => simp [replaceFrom, Pattern.matchesAt, hbegin, ih]

/-- A replacement that puts `z` before a match at the beginning. -/
theorem regex_replace_begin (hbegin : re.atBegin = true) (hgroups : re.groups = [g, h])
    (halways : re.assertion = .always) (hfmt : ∀ c d, expand fmt [c, d] = [z, c, d])
    (s : List α) :
    regex_replace re fmt s =
      insertBefore z (fun prev c next => prev.isNone && g c && next.any h) none s := by
  have hbehind : ∀ (c : α) (b : List α),
      insertBefore z (fun prev c next => prev.isNone && g c && next.any h) (some c) b = b := by
    intro c b
    induction b generalizing c with
    | nil => rfl
    | cons d b ih => simp [insertBefore, ih]
  rw [regex_replace]
  rcases s with _ | ⟨c, _ | ⟨d, b⟩⟩
  · rfl
  · simp [replaceFrom, insertBefore, matchesAt_singleton hgroups]
  · rw [replaceFrom, insertBefore, matchesAt_pair hgroups, halways, hbehind,
      replaceFrom_of_atBegin hbegin]
    cases hcd : g c && h d <;>
      simp [replaceFrom, Assertion.holds, hcd, hgroups, hfmt, replaceFrom_of_atBegin hbegin]

end Regex
