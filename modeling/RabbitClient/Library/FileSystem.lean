import RabbitClient.Library.Bytes
import Mathlib.Logic.Function.Basic

/-! Directory entries, symbolic links and hard links, and what `rename(2)` does to them. -/
namespace FileSystem

/-- What a directory entry holds. Two entries with one inode are hard links to one file. -/
inductive Node (Entry Inode : Type) where
  | regular (inode : Inode)
  | symlink (target : Option Entry)
  | directory
  | other

abbrev State (Entry Inode : Type) := Entry → Option (Node Entry Inode)

/-- Path resolution, modification times and permissions: renaming files leaves them alone. -/
structure System (Entry Inode Time : Type) where
  resolve : CString → Option Entry
  resolve_empty : ∀ path : CString, path.val = [] → resolve path = none
  lastWrite : Inode → Time
  allows : Entry → Entry → Bool

inductive FilesystemError where
  | tooManyLinks
  | notFound
deriving DecidableEq

section
variable {Entry Inode Time : Type}

def Node.isRegular : Node Entry Inode → Bool
  | .regular _ => true
  | _ => false

def Node.isSymlink : Node Entry Inode → Bool
  | .symlink _ => true
  | _ => false

def Node.isDirectory : Node Entry Inode → Bool
  | .directory => true
  | _ => false

/-- What a path leads to, links followed; the number is that of entries looked at. -/
def status (fs : State Entry Inode) :
    Nat → Option Entry → Except FilesystemError (Option (Node Entry Inode))
  | _, none => .ok none
  | 0, some _ => .error .tooManyLinks
  | fuel + 1, some entry =>
    match fs entry with
    | some (.symlink target) => status fs fuel target
    | node => .ok node

/-- As many links as Linux follows, and what the last one leads to. -/
def maxLookups : Nat := 41

def is_regular_file (sys : System Entry Inode Time) (fs : State Entry Inode) (path : CString) :
    Except FilesystemError Bool :=
  (status fs maxLookups (sys.resolve path)).map (·.any Node.isRegular)

def is_symlink (sys : System Entry Inode Time) (fs : State Entry Inode) (path : CString) : Bool :=
  ((sys.resolve path).bind fs).any Node.isSymlink

/-- Only regular files have a time here. -/
def last_write_time (sys : System Entry Inode Time) (fs : State Entry Inode) (path : CString) :
    Except FilesystemError Time :=
  match status fs maxLookups (sys.resolve path) with
  | .ok (some (.regular inode)) => .ok (sys.lastWrite inode)
  | .ok _ => .error .notFound
  | .error e => .error e

/-- The regular file that an entry holds itself. -/
def inode? (fs : State Entry Inode) (entry : Entry) : Option Inode :=
  match fs entry with
  | some (.regular inode) => some inode
  | _ => none

theorem inode?_eq_some_iff {fs : State Entry Inode} {entry : Entry} {i : Inode} :
    inode? fs entry = some i ↔ fs entry = some (.regular i) := by
  unfold inode?
  rcases fs entry with _ | node
  · simp
  · cases node <;> simp

theorem inode?_congr {fs fs' : State Entry Inode} {entry entry' : Entry}
    (h : fs' entry' = fs entry) : inode? fs' entry' = inode? fs entry := by
  unfold inode?
  rw [h]

/-- A path whose entry holds a regular file passes both checks. -/
theorem checks_of_inode {sys : System Entry Inode Time} {fs : State Entry Inode} {path : CString}
    {entry : Entry} {i : Inode} (hentry : sys.resolve path = some entry)
    (hi : inode? fs entry = some i) :
    is_regular_file sys fs path = .ok true ∧ is_symlink sys fs path = false ∧
      last_write_time sys fs path = .ok (sys.lastWrite i) := by
  have hnode := inode?_eq_some_iff.mp hi
  have hstatus : status fs maxLookups (sys.resolve path) = .ok (some (.regular i)) := by
    simp [maxLookups, status, hentry, hnode]
  refine ⟨?_, ?_, ?_⟩
  · rw [is_regular_file, hstatus]
    rfl
  · simp [is_symlink, hentry, hnode, Node.isSymlink]
  · rw [last_write_time, hstatus]

/-- Both checks together find exactly the paths whose entry holds a regular file. -/
theorem inode_of_checks {sys : System Entry Inode Time} {fs : State Entry Inode} {path : CString}
    (hregular : is_regular_file sys fs path = .ok true) (hlink : is_symlink sys fs path = false) :
    ∃ entry i, sys.resolve path = some entry ∧ inode? fs entry = some i := by
  unfold is_regular_file at hregular
  unfold is_symlink at hlink
  rcases hentry : sys.resolve path with _ | entry
  · rw [hentry] at hregular
    cases hregular
  · refine ⟨entry, ?_⟩
    rw [hentry] at hregular hlink
    unfold inode?
    rcases hnode : fs entry with _ | node
    · simp [maxLookups, status, hnode, Except.map] at hregular
    · cases node with
      | regular i => exact ⟨i, rfl, rfl⟩
      | symlink target => simp [hnode, Node.isSymlink] at hlink
      | directory => simp [maxLookups, status, hnode, Except.map, Node.isRegular] at hregular
      | other => simp [maxLookups, status, hnode, Except.map, Node.isRegular] at hregular

variable [DecidableEq Entry]

/-- The entry `old` goes, and `new` holds what it held. -/
def moved (fs : State Entry Inode) (old new : Entry) : State Entry Inode :=
  Function.update (Function.update fs new (fs old)) old none

/-- A directory is renamed onto a directory only, and nothing else is. -/
def kindsAgree (node : Node Entry Inode) (target : Option (Node Entry Inode)) : Bool :=
  target.all (·.isDirectory = node.isDirectory)

/-- `rename(2)`: none if it fails, which changes nothing. -/
def rename [DecidableEq Inode] (sys : System Entry Inode Time) (fs : State Entry Inode) (oldPath newPath : CString) :
    Option (State Entry Inode) := do
  let old ← sys.resolve oldPath
  let new ← sys.resolve newPath
  let node ← fs old
  if sys.allows old new && kindsAgree node (fs new) then
    -- two names of one file are left as they are
    if old = new ∨ ((inode? fs old).isSome ∧ inode? fs old = inode? fs new) then some fs
    else some (moved fs old new)
  else none

/-- The file is called something. -/
def Named (fs : State Entry Inode) (i : Inode) : Prop := ∃ entry, inode? fs entry = some i

/-- The entry is the only name of a file. -/
def LastName (fs : State Entry Inode) (entry : Entry) (i : Inode) : Prop :=
  inode? fs entry = some i ∧ ∀ other, inode? fs other = some i → other = entry

variable {fs : State Entry Inode} {old new entry : Entry} {i : Inode}

/-- What becomes of a regular file. -/
theorem rename_regular [DecidableEq Inode] {sys : System Entry Inode Time} {oldPath : CString}
    (hold : sys.resolve oldPath = some old) (hi : inode? fs old = some i) (newPath : CString) :
    rename sys fs oldPath newPath = (sys.resolve newPath).bind fun new =>
      if sys.allows old new && kindsAgree (.regular i) (fs new) then
        if inode? fs new = some i then some fs else some (moved fs old new)
      else none := by
  have hnode := inode?_eq_some_iff.mp hi
  rw [rename, hold]
  simp only [Option.bind_eq_bind, Option.bind_some, hnode]
  congr 1
  funext new
  congr 1
  have hsame : (old = new ∨ ((inode? fs old).isSome ∧ inode? fs old = inode? fs new)) ↔
      inode? fs new = some i := by
    rw [hi]
    constructor
    · rintro (rfl | ⟨-, h⟩)
      · exact hi
      · exact h.symm
    · intro h
      exact Or.inr ⟨rfl, h.symm⟩
  simp only [hsame]

theorem moved_old : moved fs old new old = none := by simp [moved]

theorem moved_new (h : old ≠ new) : moved fs old new new = fs old := by
  simp [moved, h.symm]

theorem moved_other (hold : entry ≠ old) (hnew : entry ≠ new) :
    moved fs old new entry = fs entry := by
  simp [moved, hold, hnew]

theorem inode?_moved_old : inode? (moved fs old new) old = none := by
  unfold inode?
  rw [moved_old]

/-- What is still called something afterwards: what had a name other than the new one. -/
theorem named_moved_iff (h : old ≠ new) :
    Named (moved fs old new) i ↔ ∃ entry, entry ≠ new ∧ inode? fs entry = some i := by
  constructor
  · rintro ⟨entry, hentry⟩
    by_cases hold : entry = old
    · subst hold
      rw [inode?_moved_old] at hentry
      cases hentry
    by_cases hnew : entry = new
    · subst hnew
      rw [inode?_congr (moved_new h)] at hentry
      exact ⟨old, h, hentry⟩
    · rw [inode?_congr (moved_other hold hnew)] at hentry
      exact ⟨entry, hnew, hentry⟩
  · rintro ⟨entry, hnew, hentry⟩
    by_cases hold : entry = old
    · subst hold
      exact ⟨new, (inode?_congr (moved_new h)).trans hentry⟩
    · exact ⟨entry, (inode?_congr (moved_other hold hnew)).trans hentry⟩

/-- A file that is called something before is no longer afterwards exactly if the new name was its
last one. -/
theorem not_named_moved_iff (h : old ≠ new) (hi : Named fs i) :
    ¬ Named (moved fs old new) i ↔ LastName fs new i := by
  rw [named_moved_iff h]
  constructor
  · intro hnone
    have hall : ∀ other, inode? fs other = some i → other = new := by
      intro other hother
      by_contra hne
      exact hnone ⟨other, hne, hother⟩
    obtain ⟨entry, hentry⟩ := hi
    exact ⟨hall entry hentry ▸ hentry, hall⟩
  · rintro ⟨-, hall⟩ ⟨entry, hne, hentry⟩
    exact hne (hall entry hentry)

/-- There are no hard links. -/
def OneName (fs : State Entry Inode) : Prop :=
  ∀ i entry other, inode? fs entry = some i → inode? fs other = some i → other = entry

/-- No two files are moved to one name, and none to the name of a file that is still there: of a
file that is not moved before. -/
structure Clear (fs : State Entry Inode) (moves : List (Entry × Entry)) : Prop where
  targets : (moves.map Prod.snd).Nodup
  free : ∀ before m after, moves = before ++ m :: after → (inode? fs m.2).isSome →
    ∃ earlier ∈ before, earlier.1 = m.2

theorem oneName_moved (h : OneName fs) (hne : old ≠ new) : OneName (moved fs old new) := by
  have hsource : ∀ entry i, inode? (moved fs old new) entry = some i →
      entry ≠ old ∧ inode? fs (if entry = new then old else entry) = some i := by
    intro entry i hentry
    have hold : entry ≠ old := by
      rintro rfl
      rw [inode?_moved_old] at hentry
      cases hentry
    refine ⟨hold, ?_⟩
    split_ifs with hnew
    · subst hnew
      rwa [inode?_congr (moved_new hne)] at hentry
    · rwa [inode?_congr (moved_other hold hnew)] at hentry
  intro i entry other hentry hother
  obtain ⟨hold, hentry⟩ := hsource entry i hentry
  obtain ⟨hold', hother⟩ := hsource other i hother
  have heq := h i _ _ hentry hother
  split_ifs at heq with h1 h2 h2
  · rw [h1, h2]
  · exact absurd heq.symm hold
  · exact absurd heq hold'
  · exact heq

/-- The first move has to find its new name free; the others then see what it has done. -/
theorem clear_cons {moves : List (Entry × Entry)} (hne : old ≠ new)
    (hold : (inode? fs old).isSome) (hmoves : ∀ m ∈ moves, (inode? fs m.1).isSome ∧ m.1 ≠ old) :
    Clear fs ((old, new) :: moves) ↔
      inode? fs new = none ∧ Clear (moved fs old new) moves := by
  constructor
  · rintro ⟨htargets, hfree⟩
    rw [List.map_cons, List.nodup_cons] at htargets
    refine ⟨?_, htargets.2, ?_⟩
    · by_contra hsome
      obtain ⟨m, hm, -⟩ := hfree [] _ moves rfl (Option.isSome_iff_ne_none.mpr hsome)
      cases hm
    · intro before m after hsplit hsome
      have hmem : m ∈ moves := by
        rw [hsplit]
        simp
      have hmold : m.2 ≠ old := by
        intro heq
        rw [heq, inode?_moved_old] at hsome
        cases hsome
      have hmnew : m.2 ≠ new := by
        intro heq
        exact htargets.1 (List.mem_map.mpr ⟨m, hmem, heq⟩)
      rw [inode?_congr (moved_other hmold hmnew)] at hsome
      obtain ⟨earlier, hearlier, heq⟩ := hfree ((old, new) :: before) m after (by rw [hsplit]; rfl)
        hsome
      rcases List.mem_cons.mp hearlier with rfl | hearlier
      · exact absurd heq.symm hmold
      · exact ⟨earlier, hearlier, heq⟩
  · rintro ⟨hnew, htargets, hfree⟩
    have hmoved : (inode? (moved fs old new) new).isSome := by
      rwa [inode?_congr (moved_new hne)]
    refine ⟨?_, ?_⟩
    · rw [List.map_cons, List.nodup_cons]
      refine ⟨?_, htargets⟩
      intro hmem
      obtain ⟨m, hm, heq⟩ := List.mem_map.mp hmem
      obtain ⟨before, after, hsplit⟩ := List.append_of_mem hm
      obtain ⟨earlier, hearlier, hfrom⟩ := hfree before m after hsplit (by rwa [heq])
      have hsource := (hmoves earlier (by rw [hsplit]; exact List.mem_append_left _ hearlier)).1
      rw [hfrom, heq, hnew] at hsource
      cases hsource
    · intro before m after hsplit hsome
      rcases List.cons_eq_append_iff.mp hsplit with ⟨-, hm⟩ | ⟨before', rfl, hsplit'⟩
      · obtain rfl := (List.cons_eq_cons.mp hm).1
        rw [hnew] at hsome
        cases hsome
      · by_cases hmold : m.2 = old
        · exact ⟨(old, new), List.mem_cons_self .., hmold.symm⟩
        · have hmnew : m.2 ≠ new := by
            intro heq
            rw [heq, hnew] at hsome
            cases hsome
          rw [← inode?_congr (moved_other hmold hmnew)] at hsome
          obtain ⟨earlier, hearlier, heq⟩ := hfree before' m after hsplit' hsome
          exact ⟨earlier, List.mem_cons_of_mem _ hearlier, heq⟩

/-- Both entries of a move hold no file or another one, before and after it. -/
theorem target_moved_iff {j : Inode} (hne : old ≠ new) (hold : inode? fs old = some i)
    (hij : i ≠ j) (hnew : inode? fs new = none)
    (hkinds : kindsAgree (.regular i) (fs new) = true) (target : Entry) :
    (kindsAgree (.regular j) (moved fs old new target) = true ∧
      inode? (moved fs old new) target ≠ some j) ↔
    (kindsAgree (.regular j) (fs target) = true ∧ inode? fs target ≠ some j) := by
  have hregular : kindsAgree (.regular j) (fs old) = true ∧ inode? fs old ≠ some j := by
    rw [inode?_eq_some_iff.mp hold, hold]
    exact ⟨rfl, fun h => hij (Option.some_inj.mp h)⟩
  by_cases htold : target = old
  · subst htold
    refine iff_of_true ⟨?_, ?_⟩ hregular
    · rw [moved_old]
      rfl
    · rw [inode?_moved_old]
      exact (Option.some_ne_none j).symm
  by_cases htnew : target = new
  · subst htnew
    refine iff_of_true ⟨?_, ?_⟩ ⟨hkinds, ?_⟩
    · rw [moved_new hne]
      exact hregular.1
    · rw [inode?_congr (moved_new hne)]
      exact hregular.2
    · rw [hnew]
      exact (Option.some_ne_none j).symm
  · rw [inode?_congr (moved_other htold htnew), moved_other htold htnew]

end

end FileSystem
