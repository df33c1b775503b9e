import RabbitClient.Library.Bytes

/-! How a POSIX shell splits a command line into words and operators. -/
namespace PosixShell

open Bytes

/-- A character of a word, and whether it was quoted. -/
structure Letter where
  char : UInt8
  quoted : Bool
deriving DecidableEq

inductive Token where
  | word (letters : List Letter)
  | ioNumber (letters : List Letter)
  | operator (text : Bytes)
deriving DecidableEq

/-- Expansions are not carried out and here-documents are not read; a quotation may not end. -/
inductive Failure where
  | expansion
  | hereDocument
  | unterminated
deriving DecidableEq

/-- The token begun outside of quotes. -/
inductive Begun where
  | nothing
  | word (letters : List Letter)
  | operator (text : Bytes)

inductive Mode where
  | unquoted (begun : Begun)
  | comment
  | escaped (begun : Begun)
  | single (letters : List Letter)
  | double (letters : List Letter)
  | doubleEscaped (letters : List Letter)

def newline : UInt8 := 10

def backslash : UInt8 := 92

def apostrophe : UInt8 := 39

def quotationMark : UInt8 := 34

def backquote : UInt8 := 96

def operators : List Bytes :=
  [[newline], ascii "&", ascii "&&", ascii "|", ascii "||", ascii ";", ascii ";;", ascii "(",
    ascii ")", ascii "<", ascii "<<", ascii "<&", ascii "<>", ascii ">", ascii ">>", ascii ">&",
    ascii ">|"]

def isBlank (c : UInt8) : Bool := c = ofChar ' ' || c = ofChar '\t'

def isOperator (c : UInt8) : Bool := operators.contains [c]

/-- The characters that begin an expansion. -/
def isExpansion (c : UInt8) : Bool := c = ofChar '$' || c = backquote

def Begun.letters : Begun → List Letter
  | .word letters => letters
  | _ => []

/-- The operator that is over when a word begins. -/
def Begun.ended : Begun → List Token
  | .operator text => [.operator text]
  | _ => []

/-- A number before a redirection is not a word. -/
def delimited (letters : List Letter) (c : UInt8) : Token :=
  if letters ≠ [] ∧ letters.all (fun l => !l.quoted && 48 ≤ l.char && l.char ≤ 57) ∧
      (ascii "<>").contains c then .ioNumber letters
  else .word letters

/-- A character of a word, or the first one of a word. -/
def inside (begun : Begun) (c : UInt8) : Except Failure Mode :=
  if c = backslash then .ok (.escaped begun)
  else if c = apostrophe then .ok (.single begun.letters)
  else if c = quotationMark then .ok (.double begun.letters)
  else if isExpansion c then .error .expansion
  else .ok (.unquoted (.word (begun.letters ++ [⟨c, false⟩])))

/-- A character where no token is begun. -/
def outside (c : UInt8) : Except Failure Mode :=
  if isBlank c then .ok (.unquoted .nothing)
  else if isOperator c then .ok (.unquoted (.operator [c]))
  else if c = ofChar '#' then .ok .comment
  else inside .nothing c

/-- One character: the tokens it ends, and what goes on. -/
def step : Mode → UInt8 → Except Failure (List Token × Mode)
  | .unquoted .nothing, c => (outside c).map ([], ·)
  | .unquoted (.word letters), c =>
    if isBlank c then .ok ([.word letters], .unquoted .nothing)
    else if isOperator c then .ok ([delimited letters c], .unquoted (.operator [c]))
    else (inside (.word letters) c).map ([], ·)
  | .unquoted (.operator text), c =>
    if text ++ [c] = ascii "<<" then .error .hereDocument
    else if operators.contains (text ++ [c]) then .ok ([], .unquoted (.operator (text ++ [c])))
    else if c = backslash then .ok ([], .escaped (.operator text))
    else (outside c).map ([.operator text], ·)
  | .comment, c => .ok ([], if c = newline then .unquoted (.operator [c]) else .comment)
  | .escaped begun, c =>
    -- a backslash and a newline are dropped, whatever is begun
    if c = newline then .ok ([], .unquoted begun)
    else .ok (begun.ended, .unquoted (.word (begun.letters ++ [⟨c, true⟩])))
  | .single letters, c =>
    .ok ([], if c = apostrophe then .unquoted (.word letters) else .single (letters ++ [⟨c, true⟩]))
  | .double letters, c =>
    if c = quotationMark then .ok ([], .unquoted (.word letters))
    else if c = backslash then .ok ([], .doubleEscaped letters)
    else if isExpansion c then .error .expansion
    else .ok ([], .double (letters ++ [⟨c, true⟩]))
  | .doubleEscaped letters, c =>
    if c = newline then .ok ([], .double letters)
    else if isExpansion c ∨ c = quotationMark ∨ c = backslash then
      .ok ([], .double (letters ++ [⟨c, true⟩]))
    else .ok ([], .double (letters ++ [⟨backslash, true⟩, ⟨c, true⟩]))

def finish : Mode → Except Failure (List Token)
  | .unquoted .nothing => .ok []
  | .unquoted (.word letters) => .ok [.word letters]
  | .unquoted (.operator text) => .ok [.operator text]
  | .comment => .ok []
  | _ => .error .unterminated

def lex : Mode → Bytes → Except Failure (List Token)
  | mode, [] => finish mode
  | mode, c :: text =>
    match step mode c with
    | .error e => .error e
    | .ok (ended, next) => (lex next text).map (ended ++ ·)

def tokens (text : Bytes) : Except Failure (List Token) := lex (.unquoted .nothing) text

/-- Behind an open bracket: one character at least, after `!` or not, and then a closing bracket in
the same part of a path. Otherwise the open bracket is an ordinary character. -/
def isBracketed (letters : List Letter) : Bool :=
  let items := if letters.head? = some ⟨ofChar '!', false⟩ then letters.tail else letters
  (items.takeWhile fun l => l.char ≠ ofChar '/').tail.contains ⟨ofChar ']', false⟩

def hasPattern : List Letter → Bool
  | [] => false
  | l :: letters =>
    !l.quoted && ((ascii "*?").contains l.char || l.char = ofChar '[' && isBracketed letters) ||
      hasPattern letters

/-- The part of a word that may name a home directory. -/
def tildePrefix (letters : List Letter) : List Letter :=
  letters.takeWhile (· ≠ ⟨ofChar '/', false⟩)

def hasTilde (letters : List Letter) : Bool :=
  (tildePrefix letters).head? = some ⟨ofChar '~', false⟩ && (tildePrefix letters).all (!·.quoted)

/-- The text that a word stands for, whatever files and users there are. -/
def literal (letters : List Letter) : Option Bytes :=
  if hasPattern letters || hasTilde letters then none else some (letters.map Letter.char)

/-- The words of a single command that runs in the background. -/
def backgroundCommand : List Token → Option (List Bytes)
  | .word letters :: rest => do return (← literal letters) :: (← backgroundCommand rest)
  | [.operator text] => if text = ascii "&" then some [] else none
  | _ => none

/-- An ordinary character in the middle of a word, patterns included. -/
def isPlain (c : UInt8) : Bool :=
  !(isBlank c || isOperator c || isExpansion c || c = backslash || c = apostrophe ||
    c = quotationMark)

def unquotedLetters (b : Bytes) : List Letter := b.map (⟨·, false⟩)

variable {mode next : Mode} {c : UInt8} {b text : Bytes} {ts : List Token}
  {letters : List Letter} {begun : Begun}

theorem map_char_unquotedLetters (b : Bytes) : (unquotedLetters b).map Letter.char = b := by
  induction b with
  | nil => rfl
  | cons c b ih => exact congrArg (c :: ·) ih

theorem length_unquotedLetters (b : Bytes) : (unquotedLetters b).length = b.length :=
  List.length_map _

theorem lex_cons (h : step mode c = .ok (ts, next)) (text : Bytes) :
    lex mode (c :: text) = (lex next text).map (ts ++ ·) := by
  rw [lex, h]

/-- What one character does to a text that can be split. -/
theorem lex_cons_eq_ok (h : lex mode (c :: text) = .ok ts) :
    ∃ ended next rest, step mode c = .ok (ended, next) ∧ lex next text = .ok rest ∧
      ts = ended ++ rest := by
  rw [lex] at h
  rcases hstep : step mode c with e | ⟨ended, next⟩
  · rw [hstep] at h
    cases h
  · rw [hstep] at h
    rcases hrest : lex next text with e | rest
    · simp [hrest, Except.map] at h
    · refine ⟨ended, next, rest, rfl, hrest, ?_⟩
      simpa [hrest, Except.map, eq_comm] using h

theorem inside_of_plain (begun : Begun) (h : isPlain c = true) :
    inside begun c = .ok (.unquoted (.word (begun.letters ++ [⟨c, false⟩]))) := by
  simp only [isPlain, Bool.not_eq_true', Bool.or_eq_false_iff, decide_eq_false_iff_not] at h
  obtain ⟨⟨⟨⟨⟨-, -⟩, hexpansion⟩, hbackslash⟩, hapostrophe⟩, hquotation⟩ := h
  simp [inside, hbackslash, hapostrophe, hquotation, hexpansion]

theorem lex_word_cons_of_plain (h : isPlain c = true) (text : Bytes) :
    lex (.unquoted (.word letters)) (c :: text) =
      lex (.unquoted (.word (letters ++ [⟨c, false⟩]))) text := by
  have hinside := inside_of_plain (.word letters) h
  simp only [isPlain, Bool.not_eq_true', Bool.or_eq_false_iff] at h
  obtain ⟨⟨⟨⟨⟨hblank, hoperator⟩, -⟩, -⟩, -⟩, -⟩ := h
  have hstep : step (.unquoted (.word letters)) c =
      .ok ([], .unquoted (.word (letters ++ [⟨c, false⟩]))) := by
    simp [step, hblank, hoperator, hinside, Begun.letters, Except.map]
  rw [lex_cons hstep]
  cases lex (.unquoted (.word (letters ++ [⟨c, false⟩]))) text <;> rfl

/-- A run of plain characters makes up a word. -/
theorem lex_word_append (h : ∀ c ∈ b, isPlain c = true) (text : Bytes) :
    lex (.unquoted (.word letters)) (b ++ text) =
      lex (.unquoted (.word (letters ++ unquotedLetters b))) text := by
  induction b generalizing letters with
  | nil => rw [unquotedLetters, List.map_nil, List.append_nil, List.nil_append]
  | cons c b ih =>
    obtain ⟨hc, hb⟩ := List.forall_mem_cons.mp h
    rw [List.cons_append, lex_word_cons_of_plain hc, ih hb, List.append_assoc]
    rfl

/-- Plain characters of which the first does not begin a comment. -/
def IsWord (b : Bytes) : Prop :=
  b ≠ [] ∧ (∀ c ∈ b, isPlain c = true) ∧ b.head? ≠ some (ofChar '#')

theorem lex_cons_of_plain (h : isPlain c = true) (hcomment : c ≠ ofChar '#') (text : Bytes) :
    lex (.unquoted .nothing) (c :: text) = lex (.unquoted (.word [⟨c, false⟩])) text := by
  have hinside := inside_of_plain .nothing h
  simp only [isPlain, Bool.not_eq_true', Bool.or_eq_false_iff] at h
  obtain ⟨⟨⟨⟨⟨hblank, hoperator⟩, -⟩, -⟩, -⟩, -⟩ := h
  have hstep : step (.unquoted .nothing) c = .ok ([], .unquoted (.word [⟨c, false⟩])) := by
    simp [step, outside, hblank, hoperator, hcomment, hinside, Begun.letters, Except.map]
  rw [lex_cons hstep]
  cases lex (.unquoted (.word [⟨c, false⟩])) text <;> rfl

theorem lex_word_blank (text : Bytes) :
    lex (.unquoted (.word letters)) (ofChar ' ' :: text) =
      (lex (.unquoted .nothing) text).map (.word letters :: ·) := by
  have hstep : step (.unquoted (.word letters)) (ofChar ' ') =
      .ok ([.word letters], .unquoted .nothing) := rfl
  rw [lex_cons hstep]
  rfl

/-- A word of plain characters is read as it is. -/
theorem lex_isWord (h : IsWord b) (text : Bytes) :
    lex (.unquoted .nothing) (b ++ ofChar ' ' :: text) =
      (lex (.unquoted .nothing) text).map (.word (unquotedLetters b) :: ·) := by
  obtain ⟨hne, hplain, hcomment⟩ := h
  obtain ⟨c, b, rfl⟩ := List.exists_cons_of_ne_nil hne
  obtain ⟨hc, hb⟩ := List.forall_mem_cons.mp hplain
  have hhash : c ≠ ofChar '#' := by
    rintro rfl
    exact hcomment rfl
  rw [List.cons_append, lex_cons_of_plain hc hhash, lex_word_append hb, lex_word_blank]
  rfl

end PosixShell
