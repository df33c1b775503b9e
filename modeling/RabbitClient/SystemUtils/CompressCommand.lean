import RabbitClient.Library.FileSystem
import RabbitClient.Library.PosixArguments

/-! The command line with which files are compressed, as a shell reads it. -/
namespace RabbitClient.SystemUtils

open Bytes FileSystem PosixShell

variable {Entry Inode Time : Type}

/-- The files of a directory whose names end with the extension and are longer than it. -/
def find_files_directory (entries : List CString) (extension : CString) : List CString :=
  entries.filter fun name =>
    extension.val.length < name.val.length &&
      name.val.drop (name.val.length - extension.val.length) = extension.val

/-- The loop of `compress_files`: the command so far and the number of names in it. -/
def appendNames (sys : System Entry Inode Time) (fs : State Entry Inode) :
    List CString → Bytes × Nat → Except FilesystemError (Bytes × Nat)
  | [], cmd => .ok cmd
  | file_name :: files, (ssCmd, idx) =>
    match is_regular_file sys fs file_name with
    | .error e => .error e
    | .ok false => appendNames sys fs files (ssCmd, idx)
    | .ok true =>
      if is_symlink sys fs file_name then appendNames sys fs files (ssCmd, idx)
      else appendNames sys fs files (ssCmd ++ ascii " " ++ file_name.val, idx + 1)

/-- The command line given to `system`, if any; an exception leaves before that. -/
def compress_files (sys : System Entry Inode Time) (fs : State Entry Inode)
    (files : List CString) : Except FilesystemError (Option Bytes) :=
  if files = [] then .ok none
  else (appendNames sys fs files (ascii "xz -fz ", 0)).map fun (ssCmd, idx) =>
    if idx ≠ 0 then some (ssCmd ++ ascii " &") else none

/-- `compress_files` for a directory with these entries. -/
def compress_files_directory (sys : System Entry Inode Time) (fs : State Entry Inode)
    (entries : List CString) (extension : CString) : Except FilesystemError (Option Bytes) :=
  compress_files sys fs (find_files_directory entries extension)

/-- A regular file, and not a link to one. -/
def holdsFile (sys : System Entry Inode Time) (fs : State Entry Inode) (path : CString) : Bool :=
  ((sys.resolve path).bind (inode? fs)).isSome

/-- The names of the files to compress. -/
def selected (sys : System Entry Inode Time) (fs : State Entry Inode) (files : List CString) :
    List Bytes :=
  (files.filter (holdsFile sys fs)).map Subtype.val

/-- What `xz` takes for an option, or for its standard input. -/
def isOption (argument : Bytes) : Bool := argument.head? = some (ofChar '-')

/-- One `xz` in the background, with the options `-fz` and these files. -/
def Invokes (command : Bytes) (names : List Bytes) : Prop :=
  ∃ ts args, tokens command = .ok ts ∧ backgroundCommand ts = some (ascii "xz" :: args) ∧
    args.filter isOption = [ascii "-fz"] ∧ (args.filter fun b => !isOption b) = names

/-- The command line, if there is one, names exactly the selected files; there is none only if no
file is selected. -/
def NamesExactly (sys : System Entry Inode Time) (fs : State Entry Inode)
    (files : List CString) : Prop :=
  (∀ command, compress_files sys fs files = .ok (some command) →
    Invokes command (selected sys fs files)) ∧
  (compress_files sys fs files = .ok none → selected sys fs files = [])

/-- A name that a shell and `xz` take as it is. -/
structure PlainArgument (b : Bytes) : Prop where
  literal : Literal b
  no_option : isOption b = false

section
variable {sys : System Entry Inode Time} {fs : State Entry Inode} {files : List CString}
  {names : List Bytes} {path : CString}

theorem holdsFile_iff :
    holdsFile sys fs path = true ↔
      ∃ entry i, sys.resolve path = some entry ∧ inode? fs entry = some i := by
  unfold holdsFile
  rcases sys.resolve path with _ | entry
  · simp
  · simp [Option.isSome_iff_exists]

theorem ne_nil_of_holdsFile (h : holdsFile sys fs path = true) : path.val ≠ [] := by
  intro hempty
  obtain ⟨entry, i, hentry, -⟩ := holdsFile_iff.mp h
  rw [sys.resolve_empty path hempty] at hentry
  cases hentry

/-- The two checks of the loop select the files. -/
theorem appendNames_cons (cmd : Bytes) (idx : Nat) {b : Bool}
    (h : is_regular_file sys fs path = .ok b) :
    appendNames sys fs (path :: files) (cmd, idx) =
      appendNames sys fs files
        (if holdsFile sys fs path then (cmd ++ ofChar ' ' :: path.val, idx + 1)
          else (cmd, idx)) := by
  rw [appendNames, h]
  cases hholds : holdsFile sys fs path with
  | true =>
    obtain ⟨entry, i, hentry, hi⟩ := holdsFile_iff.mp hholds
    obtain ⟨hregular, hlink, -⟩ := checks_of_inode hentry hi
    obtain rfl : b = true := Except.ok.inj (h.symm.trans hregular)
    simp only [hlink, Bool.false_eq_true, if_false, if_true, List.append_assoc]
    rfl
  | false =>
    cases b with
    | false => rfl
    | true =>
      cases hlink : is_symlink sys fs path with
      | true => rfl
      | false =>
        obtain ⟨entry, i, hentry, hi⟩ := inode_of_checks h hlink
        rw [holdsFile_iff.mpr ⟨entry, i, hentry, hi⟩] at hholds
        cases hholds

theorem selected_cons :
    selected sys fs (path :: files) =
      if holdsFile sys fs path then path.val :: selected sys fs files
      else selected sys fs files := by
  unfold selected
  rw [List.filter_cons]
  split_ifs <;> rfl

theorem appendNames_eq (h : ∀ path ∈ files, ∃ b, is_regular_file sys fs path = .ok b)
    (cmd : Bytes) (idx : Nat) :
    appendNames sys fs files (cmd, idx) =
      .ok (cmd ++ arguments (selected sys fs files), idx + (selected sys fs files).length) := by
  induction files generalizing cmd idx with
  | nil => simp [appendNames, selected, arguments]
  | cons path files ih =>
    obtain ⟨⟨b, hb⟩, h⟩ := List.forall_mem_cons.mp h
    rw [appendNames_cons cmd idx hb, selected_cons]
    cases holdsFile sys fs path with
    | false => exact ih h cmd idx
    | true =>
      have hcount : idx + 1 + (selected sys fs files).length =
          idx + ((selected sys fs files).length + 1) := by omega
      simp only [if_true, ih h, arguments_cons, List.length_cons, List.append_assoc,
        List.cons_append, hcount]

/-- The command line of the loop: the selected names, each after a blank. -/
def commandLine (names : List Bytes) : Bytes := ascii "xz -fz " ++ (arguments names ++ ampersand)

theorem compress_files_eq (h : ∀ path ∈ files, ∃ b, is_regular_file sys fs path = .ok b) :
    compress_files sys fs files =
      .ok (if selected sys fs files = [] then none
        else some (commandLine (selected sys fs files))) := by
  unfold compress_files
  split_ifs with hfiles hselected hselected
  · rfl
  · exact absurd (by rw [hfiles]; rfl) hselected
  · rw [appendNames_eq h, hselected]
    rfl
  · have hlength : 0 + (selected sys fs files).length ≠ 0 := by
      rw [Nat.zero_add]
      exact fun h => hselected (List.length_eq_zero_iff.mp h)
    rw [appendNames_eq h]
    simp only [Except.map, hlength, ne_eq, not_false_eq_true, if_true, commandLine,
      List.append_assoc]
    rfl

/-- An exception of a check is one of the loop. -/
theorem appendNames_error (h : ∃ path ∈ files, ∀ b, is_regular_file sys fs path ≠ .ok b)
    (cmd : Bytes × Nat) : ∃ e, appendNames sys fs files cmd = .error e := by
  induction files generalizing cmd with
  | nil => simp at h
  | cons path files ih =>
    obtain ⟨cmd, idx⟩ := cmd
    rcases hpath : is_regular_file sys fs path with e | b
    · exact ⟨e, by rw [appendNames, hpath]⟩
    · rw [appendNames_cons cmd idx hpath]
      refine ih ?_ _
      obtain ⟨path', hmem, hpath'⟩ := h
      rcases List.mem_cons.mp hmem with rfl | hmem
      · exact absurd hpath (hpath' b)
      · exact ⟨path', hmem, hpath'⟩

theorem tokens_commandLine (names : List Bytes) :
    tokens (commandLine names) =
      (lex (.unquoted .nothing) (arguments names ++ ampersand)).map fun ts =>
        .word (unquotedLetters (ascii "xz")) :: .word (unquotedLetters (ascii "-fz")) :: ts := by
  have hxz : IsWord (ascii "xz") := ⟨by decide, List.all_eq_true.mp rfl, by decide⟩
  have hfz : IsWord (ascii "-fz") := ⟨by decide, List.all_eq_true.mp rfl, by decide⟩
  have hline : commandLine names =
      ascii "xz" ++ ofChar ' ' :: (ascii "-fz" ++ ofChar ' ' :: (arguments names ++ ampersand)) :=
    rfl
  rw [tokens, hline, lex_isWord hxz, lex_isWord hfz]
  cases lex (.unquoted .nothing) (arguments names ++ ampersand) <;> rfl

theorem backgroundCommand_commandLine (ts : List Token) :
    backgroundCommand (.word (unquotedLetters (ascii "xz")) ::
        .word (unquotedLetters (ascii "-fz")) :: ts) =
      (backgroundCommand ts).map (ascii "xz" :: ascii "-fz" :: ·) := by
  have hxz : literal (unquotedLetters (ascii "xz")) = some (ascii "xz") := by decide
  have hfz : literal (unquotedLetters (ascii "-fz")) = some (ascii "-fz") := by decide
  rw [backgroundCommand, backgroundCommand, hxz, hfz]
  cases backgroundCommand ts <;> rfl

/-- The options are those of the command exactly if no name looks like one. -/
theorem invokes_commandLine_iff (names : List Bytes) (hne : ∀ b ∈ names, b ≠ []) :
    Invokes (commandLine names) names ↔ ∀ b ∈ names, PlainArgument b := by
  have hoption : isOption (ascii "-fz") = true := by decide
  have hiff := background_arguments_iff names hne
  constructor
  · rintro ⟨ts, args, hts, hcommand, hoptions, hnames⟩
    rw [tokens_commandLine] at hts
    obtain ⟨rest, hrest, rfl⟩ := exists_of_map_eq_ok hts
    rw [backgroundCommand_commandLine] at hcommand
    obtain ⟨after, hafter, hargs⟩ := Option.map_eq_some_iff.mp hcommand
    obtain rfl : ascii "-fz" :: after = args := (List.cons_eq_cons.mp hargs).2
    rw [List.filter_cons_of_pos hoption] at hoptions
    have hnone : ∀ b ∈ after, ¬ isOption b = true :=
      List.filter_eq_nil_iff.mp (List.cons_eq_cons.mp hoptions).2
    rw [List.filter_cons_of_neg (by simp [hoption])] at hnames
    obtain rfl : after = names := by
      rw [← hnames, eq_comm, List.filter_eq_self]
      intro b hb
      simpa using hnone b hb
    intro b hb
    exact ⟨hiff.mp ⟨rest, hrest, hafter⟩ b hb, Bool.eq_false_iff.mpr (hnone b hb)⟩
  · intro h
    obtain ⟨rest, hrest, hcommand⟩ := hiff.mpr fun b hb => (h b hb).literal
    have hts := tokens_commandLine names
    rw [hrest] at hts
    refine ⟨_, ascii "-fz" :: names, hts, ?_, ?_, ?_⟩
    · rw [backgroundCommand_commandLine, hcommand]
      rfl
    · rw [List.filter_cons_of_pos hoption, List.filter_eq_nil_iff.mpr]
      intro b hb
      exact Bool.eq_false_iff.mp (h b hb).no_option
    · rw [List.filter_cons_of_neg (by simp [hoption]), List.filter_eq_self]
      intro b hb
      simp [(h b hb).no_option]

/-- Without an exception, the command names exactly the selected files if and only if all of their
names are plain. -/
theorem compress_files_names_iff (sys : System Entry Inode Time) (fs : State Entry Inode)
    (files : List CString) :
    NamesExactly sys fs files ↔
      ((∀ path ∈ files, ∃ b, is_regular_file sys fs path = .ok b) →
        ∀ path ∈ files, holdsFile sys fs path = true → PlainArgument path.val) := by
  have hne : ∀ b ∈ selected sys fs files, b ≠ [] := by
    intro b hb
    obtain ⟨path, hpath, rfl⟩ := List.mem_map.mp hb
    exact ne_nil_of_holdsFile (List.mem_filter.mp hpath).2
  have hinvokes := invokes_commandLine_iff (selected sys fs files) hne
  constructor
  · rintro ⟨hcommand, -⟩ hchecked path hpath hholds
    have hmem : path.val ∈ selected sys fs files :=
      List.mem_map_of_mem (List.mem_filter.mpr ⟨hpath, hholds⟩)
    have hcompress := compress_files_eq hchecked
    rw [if_neg (List.ne_nil_of_mem hmem)] at hcompress
    exact hinvokes.mp (hcommand _ hcompress) path.val hmem
  · intro h
    by_cases hchecked : ∀ path ∈ files, ∃ b, is_regular_file sys fs path = .ok b
    · have hplain : ∀ b ∈ selected sys fs files, PlainArgument b := by
        intro b hb
        obtain ⟨path, hpath, rfl⟩ := List.mem_map.mp hb
        obtain ⟨hmem, hholds⟩ := List.mem_filter.mp hpath
        exact h hchecked path hmem hholds
      rw [NamesExactly, compress_files_eq hchecked]
      split_ifs with hselected
      · exact ⟨fun command hc => absurd (Except.ok.inj hc) (by simp), fun _ => hselected⟩
      · refine ⟨?_, fun hc => absurd (Except.ok.inj hc) (by simp)⟩
        intro command hc
        obtain rfl := Option.some_inj.mp (Except.ok.inj hc)
        exact hinvokes.mpr hplain
    · have herror : ∃ e, compress_files sys fs files = .error e := by
        simp only [not_forall, not_exists] at hchecked
        obtain ⟨path, hpath, herror⟩ := hchecked
        unfold compress_files
        rw [if_neg (List.ne_nil_of_mem hpath)]
        obtain ⟨e, he⟩ := appendNames_error ⟨path, hpath, herror⟩ (ascii "xz -fz ", 0)
        exact ⟨e, by rw [he]; rfl⟩
      obtain ⟨e, he⟩ := herror
      rw [NamesExactly, he]
      refine ⟨?_, ?_⟩
      · intro command hc
        cases hc
      · intro hc
        cases hc

end

/-- Every path leads to an entry of its own. -/
def flat : System CString Nat Nat where
  resolve path := if path.val = [] then none else some path
  resolve_empty _ h := if_pos h
  lastWrite inode := inode
  allows _ _ := true

/-- A directory of regular files. -/
def directory (files : List (CString × Nat)) : State CString Nat :=
  fun entry => (files.lookup entry).map .regular

def blankName : CString := cString "a b.log"

/-- A file is selected, and the shell hands on the names of two others. -/
theorem compress_files_blank :
    compress_files flat (directory [(blankName, 1)]) [blankName] =
        .ok (some (ascii "xz -fz  a b.log &")) ∧
      (tokens (ascii "xz -fz  a b.log &")).map backgroundCommand =
        .ok (some [ascii "xz", ascii "-fz", ascii "a", ascii "b.log"]) ∧
      ¬ NamesExactly flat (directory [(blankName, 1)]) [blankName] := by
  have hcommand : compress_files flat (directory [(blankName, 1)]) [blankName] =
      .ok (some (ascii "xz -fz  a b.log &")) := by decide +kernel
  have htokens : (tokens (ascii "xz -fz  a b.log &")).map backgroundCommand =
      .ok (some [ascii "xz", ascii "-fz", ascii "a", ascii "b.log"]) := by decide +kernel
  refine ⟨hcommand, htokens, ?_⟩
  rintro ⟨hnames, -⟩
  obtain ⟨ts, args, hts, hargs, -, hselected⟩ := hnames _ hcommand
  rw [hts] at htokens
  have hlist := hargs.symm.trans (Except.ok.inj htokens)
  obtain rfl := (List.cons_eq_cons.mp (Option.some_inj.mp hlist)).2
  exact absurd hselected (by decide +kernel)

end RabbitClient.SystemUtils
