import RabbitClient.SystemUtils.CompressCommand
import Mathlib.Data.List.Basic

/-! When renaming files after the times they were written keeps all of them. -/
namespace RabbitClient.SystemUtils

open Bytes FileSystem

/-- How new names are made; `put_time` is that of the local time. -/
structure Naming (Time : Type) where
  put_time : Time → CString → CString
  extension : CString
  formatDate : CString

section
variable {Entry Inode Time : Type}

/-- The name without the extension; `substr` takes the whole of a name that is shorter. -/
def stem (fl extension : CString) : Bytes :=
  if extension.val.length ≤ fl.val.length then
    fl.val.take (fl.val.length - extension.val.length)
  else fl.val

theorem stem_notMem (fl extension : CString) : 0 ∉ stem fl extension := by
  unfold stem
  split_ifs
  · exact fun h => fl.property (List.mem_of_mem_take h)
  · exact fl.property

theorem name_file_notMem (N : Naming Time) (fl : CString) (time : Time) :
    0 ∉ stem fl N.extension ++ ofChar '.' :: (N.put_time time N.formatDate).val ++
      N.extension.val := by
  have hdot : (0 : UInt8) ≠ ofChar '.' := by decide
  simp only [List.mem_append, List.mem_cons, stem_notMem, hdot,
    (N.put_time time N.formatDate).property, N.extension.property, or_self, not_false_eq_true]

def Naming.name_file (N : Naming Time) (fl : CString) (time : Time) : CString :=
  ⟨_, name_file_notMem N fl time⟩

/-- What the loops over the files carry along; only the second one needs the names. -/
structure Rotation (Entry Inode : Type) where
  fs : State Entry Inode
  sucess : Bool
  files_renamed : List CString

/-- The beginning of both loops. -/
def start (fs : State Entry Inode) : Rotation Entry Inode where
  fs := fs
  sucess := true
  files_renamed := []

/-- What the result of `rename` adds; a failure adds no name and is remembered. -/
def Rotation.renamed (s : Rotation Entry Inode) (name_file : CString) :
    Option (State Entry Inode) → Rotation Entry Inode
  | some fs => { s with fs := fs, files_renamed := s.files_renamed ++ [name_file] }
  | none => { s with sucess := false }

variable {sys : System Entry Inode Time} {N : Naming Time} {fs : State Entry Inode}
  {s s' : Rotation Entry Inode} {fl : CString} {files : List CString} {old new : Entry} {i : Inode}

theorem renamed_fs (name_file : CString) (result : Option (State Entry Inode)) :
    (s.renamed name_file result).fs = result.getD s.fs := by
  cases result <;> rfl

/-- A list of different regular files. -/
structure Distinct (sys : System Entry Inode Time) (fs : State Entry Inode)
    (files : List CString) : Prop where
  holds : ∀ fl ∈ files, holdsFile sys fs fl = true
  nodup : (files.map sys.resolve).Nodup

theorem distinct_cons (h : Distinct sys fs (fl :: files)) :
    holdsFile sys fs fl = true ∧
      (∀ other ∈ files, holdsFile sys fs other = true ∧ sys.resolve other ≠ sys.resolve fl) ∧
      Distinct sys fs files := by
  obtain ⟨hholds, hnodup⟩ := h
  obtain ⟨hfl, hfiles⟩ := List.forall_mem_cons.mp hholds
  rw [List.map_cons, List.nodup_cons] at hnodup
  refine ⟨hfl, ?_, hfiles, hnodup.2⟩
  intro other hother
  exact ⟨hfiles other hother, fun heq => hnodup.1 (List.mem_map.mpr ⟨other, hother, heq⟩)⟩

variable [DecidableEq Inode]

/-- The entries between which a file is moved, if it is: it is not when the system refuses or the
new name is one of the same file. -/
def move? (sys : System Entry Inode Time) (N : Naming Time) (fs : State Entry Inode)
    (fl : CString) : Option (Entry × Entry) := do
  let old ← sys.resolve fl
  let inode ← inode? fs old
  let new ← sys.resolve (N.name_file fl (sys.lastWrite inode))
  if N.formatDate.val ≠ [] ∧ sys.allows old new = true ∧
      kindsAgree (.regular inode) (fs new) = true ∧ inode? fs new ≠ some inode then
    some (old, new)
  else none

theorem move?_eq_some_iff :
    move? sys N fs fl = some (old, new) ↔
      ∃ inode, sys.resolve fl = some old ∧ inode? fs old = some inode ∧
        sys.resolve (N.name_file fl (sys.lastWrite inode)) = some new ∧
        N.formatDate.val ≠ [] ∧ sys.allows old new = true ∧
        kindsAgree (.regular inode) (fs new) = true ∧ inode? fs new ≠ some inode := by
  unfold move?
  constructor
  · intro h
    obtain ⟨old', hold, h⟩ := Option.bind_eq_some_iff.mp h
    obtain ⟨inode, hinode, h⟩ := Option.bind_eq_some_iff.mp h
    obtain ⟨new', hnew, h⟩ := Option.bind_eq_some_iff.mp h
    split_ifs at h with hmove
    obtain ⟨rfl, rfl⟩ := Prod.mk.inj (Option.some_inj.mp h)
    exact ⟨inode, hold, hinode, hnew, hmove⟩
  · rintro ⟨inode, hold, hinode, hnew, hmove⟩
    simp only [hold, hinode, hnew, Option.bind_eq_bind, Option.bind_some]
    exact if_pos hmove

theorem move?_of_not_holdsFile (hholds : holdsFile sys fs fl = false) :
    move? sys N fs fl = none := by
  rw [Option.eq_none_iff_forall_ne_some]
  rintro ⟨old, new⟩ hmove
  obtain ⟨i, hold, hi, -⟩ := move?_eq_some_iff.mp hmove
  rw [holdsFile_iff.mpr ⟨old, i, hold, hi⟩] at hholds
  cases hholds

theorem move?_ne (h : move? sys N fs fl = some (old, new)) : old ≠ new := by
  obtain ⟨i, -, hold, -, -, -, -, hnew⟩ := move?_eq_some_iff.mp h
  rintro rfl
  exact hnew hold

/-- The other files are moved from entries of their own. -/
theorem sources_of_moves (hdistinct : Distinct sys fs (fl :: files))
    (hmove : move? sys N fs fl = some (old, new)) :
    ∀ m ∈ files.filterMap (move? sys N fs), (inode? fs m.1).isSome ∧ m.1 ≠ old := by
  obtain ⟨-, hothers, -⟩ := distinct_cons hdistinct
  obtain ⟨i, hold, -⟩ := move?_eq_some_iff.mp hmove
  rintro ⟨source, target⟩ hm
  obtain ⟨other, hother, hm⟩ := List.mem_filterMap.mp hm
  obtain ⟨j, hsource, hj, -⟩ := move?_eq_some_iff.mp hm
  refine ⟨Option.isSome_of_eq_some hj, ?_⟩
  rintro rfl
  exact (hothers other hother).2 (hsource.trans hold.symm)

/-- A file is renamed onto the last name of another one. -/
def Overwrites (sys : System Entry Inode Time) (N : Naming Time) (fs : State Entry Inode)
    (fl : CString) : Prop :=
  ∃ m ∈ move? sys N fs fl, ∃ i, LastName fs m.2 i

theorem overwrites_iff (hone : OneName fs) (hmove : move? sys N fs fl = some (old, new)) :
    Overwrites sys N fs fl ↔ inode? fs new ≠ none := by
  constructor
  · rintro ⟨m, hm, i, hi, -⟩ hnone
    obtain rfl : (old, new) = m := Option.some_inj.mp (hmove.symm.trans hm)
    rw [hnone] at hi
    cases hi
  · intro hsome
    obtain ⟨i, hi⟩ := Option.ne_none_iff_exists'.mp hsome
    exact ⟨(old, new), hmove, i, hi, fun other => hone i new other hi⟩

variable [DecidableEq Entry]

/-- The loop body of `rename_files` and `rename_and_compress_files`. -/
def renameOne (sys : System Entry Inode Time) (N : Naming Time) (s : Rotation Entry Inode)
    (fl : CString) : Except FilesystemError (Rotation Entry Inode) :=
  match is_regular_file sys s.fs fl with
  | .error e => .error e
  | .ok false => .ok s
  | .ok true =>
    if is_symlink sys s.fs fl then .ok s
    else if N.formatDate.val = [] then .ok s
    else
      match last_write_time sys s.fs fl with
      | .error e => .error e
      | .ok time =>
        let name_file := N.name_file fl time
        .ok (s.renamed name_file (rename sys s.fs fl name_file))

/-- The loop, and the exception that ends it early. -/
def renameLoop (sys : System Entry Inode Time) (N : Naming Time) :
    Rotation Entry Inode → List CString → Rotation Entry Inode × Option FilesystemError
  | s, [] => (s, none)
  | s, fl :: files =>
    match renameOne sys N s fl with
    | .error e => (s, some e)
    | .ok s' => renameLoop sys N s' files

def rename_files (sys : System Entry Inode Time) (N : Naming Time) (fs : State Entry Inode)
    (files : List CString) : State Entry Inode × Except FilesystemError Bool :=
  if files = [] then (fs, .ok true)
  else
    match renameLoop sys N (start fs) files with
    | (s, some e) => (s.fs, .error e)
    | (s, none) => (s.fs, .ok s.sucess)

/-- The state after the renaming, the command to compress the files, and the value returned. -/
def rename_and_compress_files (sys : System Entry Inode Time) (N : Naming Time)
    (fs : State Entry Inode) (files : List CString) :
    State Entry Inode × Except FilesystemError (Option Bytes × Bool) :=
  if files = [] then (fs, .ok (none, true))
  else
    match renameLoop sys N (start fs) files with
    | (s, some e) => (s.fs, .error e)
    | (s, none) => (s.fs, (compress_files sys s.fs s.files_renamed).map fun cmd => (cmd, s.sucess))

/-- Every file is still called something; two files never share an entry. -/
def Kept (before after : State Entry Inode) : Prop := ∀ i, Named before i → Named after i

/-- No renaming of the loop goes onto the last name of another file. -/
def Spared (sys : System Entry Inode Time) (N : Naming Time) :
    Rotation Entry Inode → List CString → Prop
  | _, [] => True
  | s, fl :: files =>
    ¬ Overwrites sys N s.fs fl ∧ ∀ s', renameOne sys N s fl = .ok s' → Spared sys N s' files

/-- The names after a file has been moved, if it has. -/
def afterMove (fs : State Entry Inode) : Option (Entry × Entry) → State Entry Inode
  | none => fs
  | some (old, new) => moved fs old new

/-- `rename` and the names of a file afterwards. -/
theorem rename_eq_afterMove (hold : sys.resolve fl = some old) (hi : inode? fs old = some i)
    (hformat : N.formatDate.val ≠ []) :
    (rename sys fs fl (N.name_file fl (sys.lastWrite i))).getD fs =
      afterMove fs (move? sys N fs fl) := by
  rw [rename_regular hold hi, move?, hold]
  simp only [Option.bind_eq_bind, Option.bind_some, hi]
  rcases sys.resolve (N.name_file fl (sys.lastWrite i)) with _ | new
  · rfl
  · simp only [Option.bind_some, hformat, ne_eq, not_false_eq_true, true_and]
    cases sys.allows old new with
    | false => simp [afterMove]
    | true =>
      cases kindsAgree (.regular i) (fs new) with
      | false => simp [afterMove]
      | true =>
        by_cases hsame : inode? fs new = some i
        · simp [hsame, afterMove]
        · simp [hsame, afterMove]

/-- What the loop body makes of the names, for a regular file. -/
theorem renameOne_of_inode (hold : sys.resolve fl = some old) (hi : inode? s.fs old = some i) :
    ∃ s', renameOne sys N s fl = .ok s' ∧ s'.fs = afterMove s.fs (move? sys N s.fs fl) := by
  obtain ⟨hregular, hlink, htime⟩ := checks_of_inode hold hi
  unfold renameOne
  simp only [hregular, hlink, htime, Bool.false_eq_true, if_false]
  by_cases hformat : N.formatDate.val = []
  · have hnone : move? sys N s.fs fl = none := by
      rw [Option.eq_none_iff_forall_ne_some]
      rintro ⟨old, new⟩ hmove
      obtain ⟨-, -, -, -, hne, -⟩ := move?_eq_some_iff.mp hmove
      exact hne hformat
    rw [if_pos hformat, hnone]
    exact ⟨s, rfl, rfl⟩
  · rw [if_neg hformat]
    exact ⟨_, rfl, (renamed_fs _ _).trans (rename_eq_afterMove hold hi hformat)⟩

/-- Everything else is left alone. -/
theorem renameOne_of_not_holdsFile (hholds : holdsFile sys s.fs fl = false)
    (h : renameOne sys N s fl = .ok s') : s' = s := by
  unfold renameOne at h
  split at h
  · cases h
  · exact (Except.ok.inj h).symm
  · next hregular =>
    cases hlink : is_symlink sys s.fs fl with
    | true =>
      rw [if_pos hlink] at h
      exact (Except.ok.inj h).symm
    | false =>
      obtain ⟨old, i, hold, hi⟩ := inode_of_checks hregular hlink
      rw [holdsFile_iff.mpr ⟨old, i, hold, hi⟩] at hholds
      cases hholds

/-- The loop body moves the file between the two entries or leaves the names as they are. -/
theorem renameOne_fs (h : renameOne sys N s fl = .ok s') :
    s'.fs = afterMove s.fs (move? sys N s.fs fl) := by
  cases hholds : holdsFile sys s.fs fl with
  | true =>
    obtain ⟨old, i, hold, hi⟩ := holdsFile_iff.mp hholds
    obtain ⟨s'', hs'', hfs⟩ := renameOne_of_inode (N := N) hold hi
    obtain rfl : s'' = s' := Except.ok.inj (hs''.symm.trans h)
    exact hfs
  | false =>
    obtain rfl := renameOne_of_not_holdsFile hholds h
    rw [move?_of_not_holdsFile hholds]
    rfl

/-- An exception leaves the names as they are. -/
theorem move?_of_error {e : FilesystemError} (h : renameOne sys N s fl = .error e) :
    move? sys N s.fs fl = none := by
  cases hholds : holdsFile sys s.fs fl with
  | true =>
    obtain ⟨old, i, hold, hi⟩ := holdsFile_iff.mp hholds
    obtain ⟨s', hs', -⟩ := renameOne_of_inode (N := N) hold hi
    rw [hs'] at h
    cases h
  | false => exact move?_of_not_holdsFile hholds

/-- No file gets a first name. -/
theorem named_of_renameOne (h : renameOne sys N s fl = .ok s') (hi : Named s'.fs i) :
    Named s.fs i := by
  rw [renameOne_fs h] at hi
  rcases hmove : move? sys N s.fs fl with _ | ⟨old, new⟩
  · rwa [hmove] at hi
  · rw [hmove, afterMove, named_moved_iff (move?_ne hmove)] at hi
    obtain ⟨entry, -, hentry⟩ := hi
    exact ⟨entry, hentry⟩

theorem named_of_renameLoop (hi : Named (renameLoop sys N s files).1.fs i) : Named s.fs i := by
  induction files generalizing s with
  | nil => exact hi
  | cons fl files ih =>
    rw [renameLoop] at hi
    rcases hstep : renameOne sys N s fl with e | s'
    · rwa [hstep] at hi
    · rw [hstep] at hi
      exact named_of_renameOne hstep (ih hi)

/-- One renaming keeps all files unless it goes onto the last name of another one. -/
theorem renameOne_kept_iff (h : renameOne sys N s fl = .ok s') :
    Kept s.fs s'.fs ↔ ¬ Overwrites sys N s.fs fl := by
  rw [renameOne_fs h]
  rcases hmove : move? sys N s.fs fl with _ | ⟨old, new⟩
  · simp [Kept, Overwrites, hmove, afterMove]
  · have hne := move?_ne hmove
    constructor
    · rintro hkept ⟨m, hm, i, hlast⟩
      obtain rfl : (old, new) = m := Option.some_inj.mp (hmove.symm.trans hm)
      have hi : Named s.fs i := ⟨new, hlast.1⟩
      exact (not_named_moved_iff hne hi).mpr hlast (hkept i hi)
    · intro hnone i hi
      by_contra hlost
      exact hnone ⟨(old, new), hmove, i, (not_named_moved_iff hne hi).mp hlost⟩

/-- The loop keeps all files unless one of its renamings does not. -/
theorem renameLoop_kept_iff : Kept s.fs (renameLoop sys N s files).1.fs ↔ Spared sys N s files := by
  induction files generalizing s with
  | nil => exact iff_of_true (fun i hi => hi) trivial
  | cons fl files ih =>
    rw [renameLoop, Spared]
    rcases hstep : renameOne sys N s fl with e | s'
    · refine iff_of_true (fun i hi => hi) ⟨?_, fun s' hs' => by cases hs'⟩
      rintro ⟨m, hm, -⟩
      rw [move?_of_error hstep] at hm
      cases hm
    · have hone := renameOne_kept_iff hstep
      rw [← hone]
      constructor
      · intro hkept
        refine ⟨fun i hi => named_of_renameLoop (hkept i hi), ?_⟩
        intro s'' hs''
        obtain rfl := Except.ok.inj hs''
        exact ih.mp fun i hi => hkept i (named_of_renameOne hstep hi)
      · rintro ⟨hfirst, hrest⟩ i hi
        exact ih.mpr (hrest s' rfl) i (hfirst i hi)

/-- Where the new name was free, the other files keep their entries. -/
theorem inode?_moved_of_ne (hmove : move? sys N fs fl = some (old, new))
    (hnew : inode? fs new = none) {other : CString} {entry : Entry}
    (hentry : sys.resolve other = some entry) (hi : inode? fs entry = some i)
    (hne : sys.resolve other ≠ sys.resolve fl) :
    entry ≠ old ∧ inode? (moved fs old new) entry = some i := by
  obtain ⟨-, hfl, -⟩ := move?_eq_some_iff.mp hmove
  have hentryold : entry ≠ old := by
    rintro rfl
    exact hne (hentry.trans hfl.symm)
  have hentrynew : entry ≠ new := by
    rintro rfl
    rw [hnew] at hi
    cases hi
  exact ⟨hentryold, (inode?_congr (moved_other hentryold hentrynew)).trans hi⟩

/-- Where the new name was free, the files not looked at yet are moved as they would have been. -/
theorem move?_moved (hone : OneName fs) (hmove : move? sys N fs fl = some (old, new))
    (hnew : inode? fs new = none) {other : CString} (hother : holdsFile sys fs other = true)
    (hne : sys.resolve other ≠ sys.resolve fl) :
    move? sys N (moved fs old new) other = move? sys N fs other := by
  obtain ⟨i, -, hi, -, -, -, hkinds, -⟩ := move?_eq_some_iff.mp hmove
  obtain ⟨entry, j, hentry, hj⟩ := holdsFile_iff.mp hother
  obtain ⟨hentryold, hj'⟩ := inode?_moved_of_ne hmove hnew hentry hj hne
  have hij : i ≠ j := by
    rintro rfl
    exact hentryold (hone i old entry hi hj)
  have htarget := target_moved_iff (move?_ne hmove) hi hij hnew hkinds
  unfold move?
  simp only [hentry, hj, hj', Option.bind_eq_bind, Option.bind_some, htarget]

theorem distinct_moved (hdistinct : Distinct sys fs (fl :: files))
    (hmove : move? sys N fs fl = some (old, new)) (hnew : inode? fs new = none) :
    Distinct sys (moved fs old new) files := by
  obtain ⟨-, hothers, -, hnodup⟩ := distinct_cons hdistinct
  refine ⟨?_, hnodup⟩
  intro other hother
  obtain ⟨hholds, hne⟩ := hothers other hother
  obtain ⟨entry, j, hentry, hj⟩ := holdsFile_iff.mp hholds
  exact holdsFile_iff.mpr ⟨entry, j, hentry, (inode?_moved_of_ne hmove hnew hentry hj hne).2⟩

/-- The loop spares all files exactly if the moves, as they are before it, are clear. -/
theorem spared_iff_clear (hone : OneName s.fs) (hdistinct : Distinct sys s.fs files) :
    Spared sys N s files ↔ Clear s.fs (files.filterMap (move? sys N s.fs)) := by
  induction files generalizing s with
  | nil =>
    refine iff_of_true trivial ⟨List.nodup_nil, ?_⟩
    intro before m after h
    simp at h
  | cons fl files ih =>
    obtain ⟨hfl, hothers, hfiles⟩ := distinct_cons hdistinct
    obtain ⟨entry, i, hentry, hi⟩ := holdsFile_iff.mp hfl
    obtain ⟨s', hs', hfs⟩ := renameOne_of_inode (N := N) hentry hi
    have hspared : Spared sys N s (fl :: files) ↔
        ¬ Overwrites sys N s.fs fl ∧ Spared sys N s' files := by
      simp [Spared, hs']
    rw [hspared]
    rcases hmove : move? sys N s.fs fl with _ | ⟨old, new⟩
    · have hno : ¬ Overwrites sys N s.fs fl := by
        rintro ⟨m, hm, -⟩
        rw [hmove] at hm
        cases hm
      rw [hmove, afterMove] at hfs
      rw [List.filterMap_cons_none hmove, and_iff_right hno, ← hfs]
      exact ih (hfs ▸ hone) (hfs ▸ hfiles)
    · have hne := move?_ne hmove
      obtain ⟨j, -, hinode, -⟩ := move?_eq_some_iff.mp hmove
      have hsources := sources_of_moves hdistinct hmove
      rw [hmove, afterMove] at hfs
      rw [List.filterMap_cons_some hmove,
        clear_cons hne (Option.isSome_of_eq_some hinode) hsources, overwrites_iff hone hmove,
        not_not]
      refine and_congr_right ?_
      intro hnew
      have hmoves : files.filterMap (move? sys N s'.fs) = files.filterMap (move? sys N s.fs) := by
        refine List.filterMap_congr ?_
        intro other hother
        obtain ⟨hholds, hresolve⟩ := hothers other hother
        rw [hfs]
        exact move?_moved hone hmove hnew hholds hresolve
      rw [← hmoves, ← hfs]
      refine ih ?_ ?_
      · rw [hfs]
        exact oneName_moved hone hne
      · rw [hfs]
        exact distinct_moved hdistinct hmove hnew

theorem rename_files_fst (files : List CString) :
    (rename_files sys N fs files).1 = (renameLoop sys N (start fs) files).1.fs := by
  unfold rename_files
  split_ifs with hfiles
  · rw [hfiles]
    rfl
  · rcases renameLoop sys N (start fs) files with ⟨s, _ | e⟩ <;> rfl

theorem rename_and_compress_files_fst (files : List CString) :
    (rename_and_compress_files sys N fs files).1 =
      (renameLoop sys N (start fs) files).1.fs := by
  unfold rename_and_compress_files
  split_ifs with hfiles
  · rw [hfiles]
    rfl
  · rcases renameLoop sys N (start fs) files with ⟨s, _ | e⟩ <;> rfl

/-- Both functions keep all files exactly if no file is renamed onto the last name of another one.
Without hard links, this means that the new names of the files that are moved are different, and
none of them is that of a regular file that is not moved before. -/
theorem rename_files_kept_iff (sys : System Entry Inode Time) (N : Naming Time)
    (fs : State Entry Inode) (files : List CString) :
    (Kept fs (rename_files sys N fs files).1 ↔ Spared sys N (start fs) files) ∧
    (Kept fs (rename_and_compress_files sys N fs files).1 ↔ Spared sys N (start fs) files) ∧
    (OneName fs → Distinct sys fs files →
      (Spared sys N (start fs) files ↔ Clear fs (files.filterMap (move? sys N fs)))) := by
  have hkept : Kept fs (renameLoop sys N (start fs) files).1.fs ↔
      Spared sys N (start fs) files := renameLoop_kept_iff (s := start fs)
  refine ⟨?_, ?_, ?_⟩
  · rw [rename_files_fst]
    exact hkept
  · rw [rename_and_compress_files_fst]
    exact hkept
  · intro hone hdistinct
    have hone' : OneName (start fs).fs := hone
    exact spared_iff_clear hone' hdistinct

end

def yearly : Naming Nat where
  put_time _ _ := cString "2024"
  extension := cString ".log"
  formatDate := cString "%Y"

def logs : List CString :=
  find_files_directory [cString "a.log", cString "a.2024.log", cString "a.txt"] (cString ".log")

def logState : State CString Nat :=
  directory [(cString "a.log", 1), (cString "a.2024.log", 2)]

theorem inode?_logState {entry : CString} {i : Nat} (h : inode? logState entry = some i) :
    entry = cString "a.log" ∧ i = 1 ∨ entry = cString "a.2024.log" ∧ i = 2 := by
  have hlookup := inode?_eq_some_iff.mp h
  unfold logState directory at hlookup
  by_cases hfirst : entry = cString "a.log"
  · subst hfirst
    cases hlookup
    exact Or.inl ⟨rfl, rfl⟩
  by_cases hsecond : entry = cString "a.2024.log"
  · subst hsecond
    have hne : (cString "a.2024.log" == cString "a.log") = false := by decide +kernel
    rw [List.lookup_cons, hne] at hlookup
    cases hlookup
    exact Or.inr ⟨rfl, rfl⟩
  · rw [List.lookup_cons, beq_false_of_ne hfirst, List.lookup_cons, beq_false_of_ne hsecond]
      at hlookup
    cases hlookup

theorem oneName_logState : OneName logState := by
  intro i entry other hentry hother
  rcases inode?_logState hentry with ⟨rfl, rfl⟩ | ⟨rfl, rfl⟩
  · rcases inode?_logState hother with ⟨rfl, -⟩ | ⟨-, h⟩
    · rfl
    · cases h
  · rcases inode?_logState hother with ⟨-, h⟩ | ⟨rfl, -⟩
    · cases h
    · rfl

/-- Renaming the first log destroys the second one, and is reported as a success. -/
theorem rename_files_overwrites :
    logs.Nodup ∧ (∀ fl ∈ logs, holdsFile flat logState fl = true) ∧
      (rename_files flat yearly logState logs).2 = .ok true ∧
      ¬ Kept logState (rename_files flat yearly logState logs).1 := by
  refine ⟨by decide +kernel, by decide +kernel, by decide +kernel, ?_⟩
  rw [rename_files_fst]
  have hlost : ¬ Spared flat yearly (start logState) logs := by
    rintro ⟨hfirst, -⟩
    refine hfirst ⟨(cString "a.log", cString "a.2024.log"), by decide +kernel, 2, ?_, ?_⟩
    · decide +kernel
    · exact fun other => oneName_logState 2 _ other (by decide +kernel)
  exact fun hkept => hlost (renameLoop_kept_iff.mp hkept)

/-- In the other order, the second log has been renamed when its name is needed. -/
theorem rename_files_kept_reverse :
    OneName logState ∧ Distinct flat logState logs.reverse ∧
      Kept logState (rename_files flat yearly logState logs.reverse).1 := by
  have hdistinct : Distinct flat logState logs.reverse :=
    ⟨by decide +kernel, by decide +kernel⟩
  have hmoves : logs.reverse.filterMap (move? flat yearly logState) =
      [(cString "a.2024.log", cString "a.2024.2024.log"),
        (cString "a.log", cString "a.2024.log")] := by decide +kernel
  have hclear : Clear logState (logs.reverse.filterMap (move? flat yearly logState)) := by
    rw [hmoves]
    refine ⟨by decide +kernel, ?_⟩
    intro before m after hsplit hsome
    rcases List.cons_eq_append_iff.mp hsplit with ⟨-, hm⟩ | ⟨before', rfl, hsplit'⟩
    · -- nothing has the longer name
      obtain rfl := (List.cons_eq_cons.mp hm).1
      exact absurd hsome (by decide +kernel)
    · rcases List.cons_eq_append_iff.mp hsplit' with ⟨rfl, hm⟩ | ⟨before'', -, hnil⟩
      · obtain rfl := (List.cons_eq_cons.mp hm).1
        exact ⟨_, List.mem_singleton_self _, rfl⟩
      · simp at hnil
  obtain ⟨hkept, -, hstatic⟩ := rename_files_kept_iff flat yearly logState logs.reverse
  exact ⟨oneName_logState, hdistinct,
    hkept.mpr ((hstatic oneName_logState hdistinct).mpr hclear)⟩

end RabbitClient.SystemUtils
