import RabbitClient.Library.PosixShell

/-! When a shell hands on the arguments of a command as they are written. -/
namespace PosixShell

open Bytes

variable {mode next : Mode} {c : UInt8} {b p q text rest : Bytes} {ts : List Token}
  {letters : List Letter} {begun : Begun}

/-- The characters of the words, and one more for each. -/
def Token.size : Token → Nat
  | .word letters => letters.length + 1
  | .ioNumber letters => letters.length + 1
  | .operator _ => 0

def size : List Token → Nat
  | [] => 0
  | token :: ts => token.size + size ts

/-- What a mode can still add; a backslash may turn out to be a character. -/
def Mode.pending : Mode → Nat
  | .unquoted begun => begun.letters.length
  | .comment => 0
  | .escaped begun => begun.letters.length + 1
  | .single letters => letters.length
  | .double letters => letters.length
  | .doubleEscaped letters => letters.length + 1

theorem size_append (ts ts' : List Token) : size (ts ++ ts') = size ts + size ts' := by
  induction ts with
  | nil => exact (Nat.zero_add _).symm
  | cons token ts ih => rw [List.cons_append, size, size, ih, Nat.add_assoc]

theorem size_ended (begun : Begun) : size begun.ended = 0 := by
  cases begun <;> rfl

theorem size_delimited (letters : List Letter) (c : UInt8) :
    size [delimited letters c] = letters.length + 1 := by
  unfold delimited
  split <;> rfl

theorem pending_inside (h : inside begun c = .ok next) :
    next.pending ≤ begun.letters.length + 1 := by
  unfold inside at h
  split_ifs at h <;> obtain rfl := Except.ok.inj h
  · exact Nat.le_refl _
  · exact Nat.le_succ _
  · exact Nat.le_succ _
  · simp [Mode.pending, Begun.letters]

theorem pending_outside (h : outside c = .ok next) : next.pending ≤ 1 := by
  unfold outside at h
  split_ifs at h
  · obtain rfl := Except.ok.inj h
    exact Nat.zero_le _
  · obtain rfl := Except.ok.inj h
    exact Nat.zero_le _
  · obtain rfl := Except.ok.inj h
    exact Nat.zero_le _
  · exact pending_inside h

theorem exists_of_map_eq_ok {α β : Type} {x : Except Failure α} {f : α → β} {y : β}
    (h : x.map f = .ok y) : ∃ a, x = .ok a ∧ f a = y := by
  cases x with
  | error e => cases h
  | ok a => exact ⟨a, rfl, Except.ok.inj h⟩

/-- A step that goes on in one of the modes and has ended the same tokens in each. -/
theorem of_map_pair {next' : Except Failure Mode} {ended : List Token}
    (h : next'.map (ended, ·) = .ok (ts, next)) : next' = .ok next ∧ ended = ts := by
  obtain ⟨mode, hmode, hpair⟩ := exists_of_map_eq_ok h
  obtain ⟨rfl, rfl⟩ := Prod.mk.inj hpair
  exact ⟨hmode, rfl⟩

theorem of_ok_pair {next' : Mode} {ended : List Token}
    (h : (.ok (ended, next') : Except Failure (List Token × Mode)) = .ok (ts, next)) :
    ended = ts ∧ next' = next := Prod.mk.inj (Except.ok.inj h)

/-- A character adds at most one. -/
theorem size_step (h : step mode c = .ok (ts, next)) :
    size ts + next.pending ≤ mode.pending + 1 := by
  cases mode with
  | unquoted begun =>
    cases begun with
    | nothing =>
      obtain ⟨houtside, rfl⟩ := of_map_pair h
      have hpending := pending_outside houtside
      simp only [size]
      omega
    | word letters =>
      rw [step] at h
      split_ifs at h
      · obtain ⟨rfl, rfl⟩ := of_ok_pair h
        simp [size, Token.size, Mode.pending, Begun.letters]
      · obtain ⟨rfl, rfl⟩ := of_ok_pair h
        simp [size_delimited, Mode.pending, Begun.letters]
      · obtain ⟨hinside, rfl⟩ := of_map_pair h
        have hpending := pending_inside hinside
        simpa [size, Mode.pending] using hpending
    | operator text =>
      rw [step] at h
      split_ifs at h
      · obtain ⟨rfl, rfl⟩ := of_ok_pair h
        exact Nat.zero_le _
      · obtain ⟨rfl, rfl⟩ := of_ok_pair h
        exact Nat.le_refl _
      · obtain ⟨houtside, rfl⟩ := of_map_pair h
        have hpending := pending_outside houtside
        simpa [size, Token.size, Mode.pending, Begun.letters] using hpending
  | comment =>
    obtain ⟨rfl, rfl⟩ := of_ok_pair h
    split <;> exact Nat.zero_le _
  | escaped begun =>
    rw [step] at h
    split_ifs at h
    · obtain ⟨rfl, rfl⟩ := of_ok_pair h
      simp [size, Mode.pending]
      omega
    · obtain ⟨rfl, rfl⟩ := of_ok_pair h
      simp [size_ended, Mode.pending, Begun.letters]
  | single letters =>
    obtain ⟨rfl, rfl⟩ := of_ok_pair h
    split
    · exact (Nat.zero_add _).le.trans (Nat.le_succ _)
    · simp [size, Mode.pending]
  | double letters =>
    rw [step] at h
    split_ifs at h <;> obtain ⟨rfl, rfl⟩ := of_ok_pair h
    · simp [size, Mode.pending, Begun.letters]
    · simp [size, Mode.pending]
    · simp [size, Mode.pending]
  | doubleEscaped letters =>
    rw [step] at h
    split_ifs at h <;> obtain ⟨rfl, rfl⟩ := of_ok_pair h
    · simp [size, Mode.pending]
      omega
    · simp [size, Mode.pending]
    · simp [size, Mode.pending]

/-- The end of a command that runs in the background. -/
def ampersand : Bytes := ascii " &"

theorem lex_word_ampersand (letters : List Letter) :
    lex (.unquoted (.word letters)) ampersand = .ok [.word letters, .operator (ascii "&")] := by
  rfl

/-- The blank is part of the word, which the ampersand ends. -/
theorem lex_escaped_ampersand (begun : Begun) :
    lex (.escaped begun) ampersand =
      .ok (begun.ended ++
        [.word (begun.letters ++ [⟨ofChar ' ', true⟩]), .operator (ascii "&")]) := by
  have hdelimited : ∀ letters, delimited letters (ofChar '&') = .word letters := by
    intro letters
    have hredirection : (ascii "<>").contains (ofChar '&') = false := by decide
    rw [delimited, hredirection, if_neg (by simp)]
  have hstep : ∀ letters, lex (.unquoted (.word letters)) (ascii "&") =
      .ok [delimited letters (ofChar '&'), .operator (ascii "&")] := fun letters => rfl
  have hblank : step (.escaped begun) (ofChar ' ') =
      .ok (begun.ended, .unquoted (.word (begun.letters ++ [⟨ofChar ' ', true⟩]))) := rfl
  have hcons : ampersand = ofChar ' ' :: ascii "&" := rfl
  rw [hcons, lex_cons hblank, hstep, hdelimited]
  rfl

theorem lex_operator_ampersand (operator : Bytes) :
    lex (.unquoted (.operator operator)) ampersand =
      .ok [.operator operator, .operator (ascii "&")] := by
  have hlast : ∀ known ∈ operators, known.getLast? ≠ some (ofChar ' ') := by decide
  have hunknown : operators.contains (operator ++ [ofChar ' ']) = false := by
    rw [Bool.eq_false_iff, ne_eq, List.contains_iff_mem]
    intro hmem
    exact hlast _ hmem List.getLast?_concat
  have hhere : operator ++ [ofChar ' '] ≠ ascii "<<" := by
    intro h
    have hmem : operator ++ [ofChar ' '] ∈ operators := by
      rw [h]
      decide
    exact hlast _ hmem List.getLast?_concat
  have hstep : step (.unquoted (.operator operator)) (ofChar ' ') =
      .ok ([.operator operator], .unquoted .nothing) := by
    rw [step, if_neg hhere, hunknown]
    rfl
  have hcons : ampersand = ofChar ' ' :: ascii "&" := rfl
  rw [hcons, lex_cons hstep]
  rfl

theorem size_ampersand (h : lex mode ampersand = .ok ts) : size ts ≤ mode.pending + 1 := by
  cases mode with
  | unquoted begun =>
    cases begun with
    | nothing =>
      obtain rfl := Except.ok.inj h
      exact Nat.zero_le _
    | word letters =>
      rw [lex_word_ampersand] at h
      obtain rfl := Except.ok.inj h
      exact Nat.le_refl _
    | operator operator =>
      rw [lex_operator_ampersand] at h
      obtain rfl := Except.ok.inj h
      exact Nat.zero_le _
  | comment =>
    obtain rfl := Except.ok.inj h
    exact Nat.zero_le _
  | escaped begun =>
    rw [lex_escaped_ampersand] at h
    obtain rfl := Except.ok.inj h
    rw [size_append, size_ended]
    simp [size, Token.size, Mode.pending]
  | single letters => cases h
  | double letters => cases h
  | doubleEscaped letters => cases h

/-- A text amounts to no more than its characters, the ampersand left aside. -/
theorem size_lex (h : lex mode (text ++ ampersand) = .ok ts) :
    size ts ≤ mode.pending + text.length + 1 := by
  induction text generalizing mode ts with
  | nil => exact size_ampersand h
  | cons c text ih =>
    obtain ⟨ended, next, rest, hstep, hrest, rfl⟩ := lex_cons_eq_ok h
    have hsize := size_step hstep
    have hle := ih hrest
    rw [size_append, List.length_cons]
    omega

/-- Nothing is a word before the next blank. -/
def NoWord : Mode → Prop
  | .comment => True
  | .unquoted (.operator _) => True
  | .escaped (.operator _) => True
  | _ => False

/-- After an operator has begun, or in a comment, the next token is not a word. -/
theorem head_ne_word (hmode : NoWord mode) (h : lex mode text = .ok ts) (letters : List Letter)
    (rest : List Token) : ts ≠ .word letters :: rest := by
  induction text generalizing mode ts with
  | nil =>
    rintro rfl
    cases mode with
    | unquoted begun => cases begun <;> simp_all [NoWord, lex, finish]
    | comment => cases h
    | escaped begun => cases h
    | single letters => cases h
    | double letters => cases h
    | doubleEscaped letters => cases h
  | cons c text ih =>
    obtain ⟨ended, next, rest', hstep, hrest, rfl⟩ := lex_cons_eq_ok h
    cases mode with
    | unquoted begun =>
      cases begun with
      | nothing => cases hmode
      | word letters => cases hmode
      | operator operator =>
        rw [step] at hstep
        split_ifs at hstep
        · obtain ⟨rfl, rfl⟩ := of_ok_pair hstep
          refine ih ?_ hrest
          trivial
        · obtain ⟨rfl, rfl⟩ := of_ok_pair hstep
          refine ih ?_ hrest
          trivial
        · obtain ⟨-, rfl⟩ := of_map_pair hstep
          simp
    | comment =>
      obtain ⟨rfl, rfl⟩ := of_ok_pair hstep
      refine ih ?_ hrest
      split <;> trivial
    | escaped begun =>
      cases begun with
      | nothing => cases hmode
      | word letters => cases hmode
      | operator operator =>
        rw [step] at hstep
        split_ifs at hstep
        · obtain ⟨rfl, rfl⟩ := of_ok_pair hstep
          refine ih ?_ hrest
          trivial
        · obtain ⟨rfl, rfl⟩ := of_ok_pair hstep
          simp [Begun.ended]
    | single letters => cases hmode
    | double letters => cases hmode
    | doubleEscaped letters => cases hmode

theorem letters_of_delimited {letters' : List Letter}
    (h : delimited letters c = .word letters') : letters = letters' := by
  unfold delimited at h
  split_ifs at h
  exact Token.word.inj h

/-- A backslash is lost, unless it makes the last blank part of the word. -/
theorem size_escaped (hbegun : begun.letters = unquotedLetters p) (hended : begun.ended = [])
    (h : lex (.escaped begun) (text ++ ampersand) = .ok (.word letters :: ts))
    (hword : letters.map Letter.char = p ++ backslash :: q) :
    size (.word letters :: ts) ≤ p.length + text.length + 1 := by
  have hp := length_unquotedLetters p
  cases text with
  | nil =>
    rw [List.nil_append, lex_escaped_ampersand, hended, hbegun] at h
    obtain ⟨hw, -⟩ := List.cons_eq_cons.mp (Except.ok.inj h)
    obtain rfl := Token.word.inj hw
    rw [List.map_append, map_char_unquotedLetters] at hword
    obtain ⟨hblank, -⟩ := List.cons_eq_cons.mp (List.append_cancel_left hword)
    exact absurd hblank (by decide)
  | cons x text =>
    obtain ⟨ended, next, after, hstep, hafter, hts⟩ := lex_cons_eq_ok h
    have hle := size_lex hafter
    have hnext : ended = [] ∧ next.pending ≤ p.length + 1 := by
      rw [step, hended, hbegun] at hstep
      split_ifs at hstep
      · obtain ⟨rfl, rfl⟩ := of_ok_pair hstep
        exact ⟨rfl, by simp [Mode.pending, hbegun, hp]⟩
      · obtain ⟨rfl, rfl⟩ := of_ok_pair hstep
        exact ⟨rfl, by simp [Mode.pending, Begun.letters, hp]⟩
    obtain ⟨rfl, hpending⟩ := hnext
    rw [hts, List.nil_append, List.length_cons]
    omega

/-- If no character is lost, what goes on after a character of a word is the word. -/
theorem word_of_inside (hbegun : begun.letters = unquotedLetters p) (hended : begun.ended = [])
    (hinside : inside begun c = .ok next)
    (h : lex next (q ++ (rest ++ ampersand)) = .ok (.word letters :: ts))
    (hword : letters.map Letter.char = p ++ c :: q)
    (hsize : p.length + q.length + rest.length + 2 ≤ size (.word letters :: ts)) :
    c ≠ backslash ∧ c ≠ apostrophe ∧ c ≠ quotationMark ∧ isExpansion c = false := by
  have hp := length_unquotedLetters p
  rw [← List.append_assoc] at h
  have hbound := size_lex h
  rw [List.length_append] at hbound
  unfold inside at hinside
  split_ifs at hinside with hbackslash hapostrophe hquotation hexpansion <;>
    obtain rfl := Except.ok.inj hinside
  · subst hbackslash
    have hle := size_escaped hbegun hended h hword
    rw [List.length_append] at hle
    omega
  · -- the quotation mark is lost
    rw [Mode.pending, hbegun] at hbound
    omega
  · rw [Mode.pending, hbegun] at hbound
    omega
  · exact ⟨hbackslash, hapostrophe, hquotation, Bool.eq_false_iff.mpr hexpansion⟩

/-- If the first word is the text up to `rest` and no character is lost, then all characters up to
there are plain. The induction is on what is not read yet. -/
theorem plain_of_size
    (h : lex (.unquoted (.word (unquotedLetters p))) (q ++ (rest ++ ampersand)) =
      .ok (.word letters :: ts))
    (hword : letters.map Letter.char = p ++ q)
    (hsize : p.length + q.length + rest.length + 1 ≤ size (.word letters :: ts)) :
    ∀ c ∈ q, isPlain c = true := by
  have hlength : letters.length = p.length + q.length := by
    rw [← List.length_append, ← hword, List.length_map]
  induction q generalizing p with
  | nil => simp
  | cons c q ih =>
    rw [List.length_cons] at hlength hsize
    obtain ⟨ended, next, after, hstep, hafter, hts⟩ := lex_cons_eq_ok h
    have hp := length_unquotedLetters p
    have hplain : isPlain c = true := by
      rw [step] at hstep
      split_ifs at hstep with hblank hoperator
      · -- the word ends before the character
        obtain ⟨rfl, -⟩ := of_ok_pair hstep
        obtain rfl := Token.word.inj (List.cons_eq_cons.mp hts).1
        omega
      · obtain ⟨rfl, -⟩ := of_ok_pair hstep
        obtain rfl := letters_of_delimited (List.cons_eq_cons.mp hts).1.symm
        omega
      · obtain ⟨hinside, rfl⟩ := of_map_pair hstep
        obtain rfl : _ = after := hts
        obtain ⟨h1, h2, h3, h4⟩ := word_of_inside rfl rfl hinside hafter hword (by omega)
        simp [isPlain, hblank, hoperator, h1, h2, h3, h4]
    rw [List.cons_append, lex_word_cons_of_plain hplain] at h
    have hnext : unquotedLetters p ++ [⟨c, false⟩] = unquotedLetters (p ++ [c]) := by
      simp [unquotedLetters]
    rw [hnext] at h
    refine List.forall_mem_cons.mpr ⟨hplain, ih h ?_ ?_ ?_⟩
    · rw [hword, List.append_assoc]
      rfl
    · rw [List.length_append, List.length_singleton]
      omega
    · rw [List.length_append, List.length_singleton]
      omega

/-- A text that is read as itself, with no character lost after it, is a plain word. -/
theorem isWord_of_size (hne : b ≠ [])
    (h : lex (.unquoted .nothing) (b ++ (rest ++ ampersand)) = .ok (.word letters :: ts))
    (hword : letters.map Letter.char = b)
    (hsize : b.length + rest.length + 1 ≤ size (.word letters :: ts)) : IsWord b := by
  obtain ⟨c, q, rfl⟩ := List.exists_cons_of_ne_nil hne
  rw [List.length_cons] at hsize
  rw [List.cons_append] at h
  obtain ⟨ended, next, after, hstep, hafter, hts⟩ := lex_cons_eq_ok h
  obtain ⟨houtside, rfl⟩ := of_map_pair hstep
  obtain rfl : _ = after := hts
  have hfirst : isPlain c = true ∧ c ≠ ofChar '#' := by
    unfold outside at houtside
    split_ifs at houtside with hblank hoperator hcomment
    · -- the blank is lost
      obtain rfl := Except.ok.inj houtside
      rw [← List.append_assoc] at hafter
      have hle := size_lex hafter
      simp only [Mode.pending, Begun.letters, List.length_nil, List.length_append] at hle
      omega
    · obtain rfl := Except.ok.inj houtside
      have hmode : NoWord (.unquoted (.operator [c])) := trivial
      exact absurd rfl (head_ne_word hmode hafter letters ts)
    · obtain rfl := Except.ok.inj houtside
      have hmode : NoWord .comment := trivial
      exact absurd rfl (head_ne_word hmode hafter letters ts)
    · have hsize' : ([] : Bytes).length + q.length + rest.length + 2 ≤
          size (.word letters :: ts) := by
        rw [List.length_nil]
        omega
      obtain ⟨h1, h2, h3, h4⟩ := word_of_inside rfl rfl houtside hafter hword hsize'
      exact ⟨by simp [isPlain, hblank, hoperator, h1, h2, h3, h4], hcomment⟩
  obtain ⟨hplain, hcomment⟩ := hfirst
  have hletters : [⟨c, false⟩] = unquotedLetters [c] := rfl
  rw [lex_cons_of_plain hplain hcomment, hletters] at h
  have hrest : ∀ c ∈ q, isPlain c = true := by
    have hsize' : [c].length + q.length + rest.length + 1 ≤ size (.word letters :: ts) := by
      rw [List.length_singleton]
      omega
    exact plain_of_size h hword hsize'
  refine ⟨List.cons_ne_nil _ _, List.forall_mem_cons.mpr ⟨hplain, hrest⟩, ?_⟩
  intro hhash
  exact hcomment (Option.some_inj.mp hhash)

/-- Arguments, each after a blank. -/
def arguments (names : List Bytes) : Bytes := names.flatMap (ofChar ' ' :: ·)

/-- A bracket expression and what is behind it, but for the open bracket. -/
def Bracketed (b : Bytes) : Prop :=
  ∃ inside behind, b = inside ++ ofChar ']' :: behind ∧ inside ≠ [] ∧ inside ≠ [ofChar '!'] ∧
    ofChar '/' ∉ inside

/-- A text that stands for the files it matches, if there are any. -/
def Patterned (b : Bytes) : Prop :=
  (∃ c ∈ b, c ∈ ascii "*?") ∨
    ∃ before behind, b = before ++ ofChar '[' :: behind ∧ Bracketed behind

/-- A plain word in which nothing is expanded. -/
structure Literal (b : Bytes) : Prop where
  isWord : IsWord b
  no_pattern : ¬ Patterned b
  no_tilde : b.head? ≠ some (ofChar '~')

theorem map_char_of_literal (h : literal letters = some b) : letters.map Letter.char = b := by
  unfold literal at h
  split_ifs at h
  exact Option.some_inj.mp h

/-- The front up to the slash, without its first element. -/
theorem mem_tail_takeWhile {p : UInt8 → Bool} (hp : p c = true) :
    c ∈ (b.takeWhile p).tail ↔
      ∃ front behind, b = front ++ c :: behind ∧ front ≠ [] ∧ ∀ x ∈ front, p x = true := by
  constructor
  · intro h
    cases hfront : b.takeWhile p with
    | nil => simp [hfront] at h
    | cons first more =>
      rw [hfront] at h
      obtain ⟨mid, rest, hmore⟩ := List.append_of_mem h
      rw [List.tail_cons] at hmore
      refine ⟨first :: mid, rest ++ b.dropWhile p, ?_, by simp, fun x hx => ?_⟩
      · have hsplit := List.takeWhile_append_dropWhile (p := p) (l := b)
        rw [hfront, hmore] at hsplit
        simpa using hsplit.symm
      · refine List.mem_takeWhile_imp (l := b) ?_
        rw [hfront, hmore]
        rcases List.mem_cons.mp hx with rfl | hx
        · exact List.mem_cons_self ..
        · exact List.mem_cons_of_mem _ (List.mem_append_left _ hx)
  · rintro ⟨front, behind, rfl, hne, hall⟩
    rw [List.takeWhile_append_of_pos hall, List.takeWhile_cons_of_pos hp]
    cases front with
    | nil => contradiction
    | cons first mid => simp

theorem contains_unquotedLetters (b : Bytes) :
    ((unquotedLetters b).takeWhile fun l => l.char ≠ ofChar '/').tail.contains
        ⟨ofChar ']', false⟩ = true ↔
      ∃ front behind, b = front ++ ofChar ']' :: behind ∧ front ≠ [] ∧ ofChar '/' ∉ front := by
  have hmap : ((unquotedLetters b).takeWhile fun l => l.char ≠ ofChar '/').tail =
      (b.takeWhile fun c => c ≠ ofChar '/').tail.map (⟨·, false⟩) := by
    rw [unquotedLetters, List.takeWhile_map, List.map_tail]
    rfl
  have hmem (front : Bytes) :
      (⟨ofChar ']', false⟩ : Letter) ∈ front.map (⟨·, false⟩) ↔ ofChar ']' ∈ front := by
    simp
  have hslash (front : Bytes) :
      (∀ x ∈ front, decide (x ≠ ofChar '/') = true) ↔ ofChar '/' ∉ front := by
    simp only [decide_eq_true_eq]
    exact ⟨fun h hx => h _ hx rfl, fun h x hx he => h (he ▸ hx)⟩
  rw [hmap, List.contains_iff_mem, hmem, mem_tail_takeWhile (by decide)]
  simp only [hslash]

theorem isBracketed_iff (b : Bytes) : isBracketed (unquotedLetters b) = true ↔ Bracketed b := by
  rw [isBracketed]
  cases b with
  | nil =>
    refine ⟨fun h => ?_, ?_⟩
    · simp [unquotedLetters] at h
    · rintro ⟨inside, behind, hb, -⟩
      simp at hb
  | cons c b =>
    by_cases hc : c = ofChar '!'
    · subst hc
      have hitems : (if (unquotedLetters (ofChar '!' :: b)).head? = some ⟨ofChar '!', false⟩ then
          (unquotedLetters (ofChar '!' :: b)).tail else unquotedLetters (ofChar '!' :: b)) =
          unquotedLetters b := rfl
      rw [hitems, contains_unquotedLetters]
      constructor
      · rintro ⟨front, behind, rfl, hne, hslash⟩
        refine ⟨ofChar '!' :: front, behind, rfl, by simp, by simpa using hne, ?_⟩
        exact List.not_mem_cons_of_ne_of_not_mem (by decide) hslash
      · rintro ⟨inside, behind, hb, hne, hbang, hslash⟩
        obtain ⟨x, front, rfl⟩ := List.exists_cons_of_ne_nil hne
        obtain ⟨rfl, rfl⟩ := List.cons.inj hb
        exact ⟨front, behind, rfl, by simpa using hbang, fun h => hslash (List.mem_cons_of_mem _ h)⟩
    · have hitems : (if (unquotedLetters (c :: b)).head? = some ⟨ofChar '!', false⟩ then
          (unquotedLetters (c :: b)).tail else unquotedLetters (c :: b)) =
          unquotedLetters (c :: b) := if_neg (by simpa [unquotedLetters] using hc)
      rw [hitems, contains_unquotedLetters]
      constructor
      · rintro ⟨front, behind, hb, hne, hslash⟩
        refine ⟨front, behind, hb, hne, ?_, hslash⟩
        rintro rfl
        exact hc (List.cons.inj hb).1
      · rintro ⟨inside, behind, hb, hne, -, hslash⟩
        exact ⟨inside, behind, hb, hne, hslash⟩

theorem hasPattern_iff (b : Bytes) :
    hasPattern (unquotedLetters b) = true ↔ Patterned b := by
  induction b with
  | nil => simp [unquotedLetters, hasPattern, Patterned]
  | cons c b ih =>
    have hcons : hasPattern (unquotedLetters (c :: b)) = true ↔
        (c ∈ ascii "*?" ∨ c = ofChar '[' ∧ Bracketed b) ∨ Patterned b := by
      rw [← ih, ← isBracketed_iff]
      simp [unquotedLetters, hasPattern]
    rw [hcons]
    constructor
    · rintro ((hc | ⟨rfl, hb⟩) | ⟨d, hd, hp⟩ | ⟨before, behind, rfl, hb⟩)
      · exact .inl ⟨c, List.mem_cons_self .., hc⟩
      · exact .inr ⟨[], b, rfl, hb⟩
      · exact .inl ⟨d, List.mem_cons_of_mem c hd, hp⟩
      · exact .inr ⟨c :: before, behind, rfl, hb⟩
    · rintro (⟨d, hd, hp⟩ | ⟨before, behind, heq, hb⟩)
      · rcases List.mem_cons.mp hd with rfl | hd
        · exact .inl (.inl hp)
        · exact .inr (.inl ⟨d, hd, hp⟩)
      · cases before with
        | nil =>
          obtain ⟨rfl, rfl⟩ := List.cons.inj heq
          exact .inl (.inr ⟨rfl, hb⟩)
        | cons x before =>
          obtain ⟨rfl, rfl⟩ := List.cons.inj heq
          exact .inr (.inr ⟨before, behind, rfl, hb⟩)

theorem hasTilde_iff (b : Bytes) :
    hasTilde (unquotedLetters b) = true ↔ b.head? = some (ofChar '~') := by
  rw [hasTilde, Bool.and_eq_true, decide_eq_true_eq, tildePrefix]
  constructor
  · rintro ⟨hhead, -⟩
    cases b with
    | nil => cases hhead
    | cons c b =>
      by_cases hc : c = ofChar '/'
      · simp [unquotedLetters, hc] at hhead
      · simpa [unquotedLetters, hc] using hhead
  · intro h
    cases b with
    | nil => cases h
    | cons c b =>
      obtain rfl := Option.some_inj.mp h
      refine ⟨rfl, ?_⟩
      rw [List.all_eq_true]
      intro l hl
      obtain ⟨c, -, rfl⟩ := List.mem_map.mp ((List.takeWhile_prefix _).subset hl)
      rfl

theorem literal_unquotedLetters_iff (b : Bytes) :
    literal (unquotedLetters b) = some b ↔
      ¬ Patterned b ∧ b.head? ≠ some (ofChar '~') := by
  have hpattern := hasPattern_iff b
  have htilde := hasTilde_iff b
  unfold literal
  rw [map_char_unquotedLetters]
  constructor
  · intro h
    split_ifs at h with hnone
    rw [Bool.or_eq_true, hpattern, htilde, not_or] at hnone
    exact hnone
  · rintro ⟨hno, hhead⟩
    rw [if_neg]
    rw [Bool.or_eq_true, hpattern, htilde]
    exact not_or.mpr ⟨hno, hhead⟩

theorem lex_blank (text : Bytes) :
    lex (.unquoted .nothing) (ofChar ' ' :: text) = lex (.unquoted .nothing) text := by
  have hstep : step (.unquoted .nothing) (ofChar ' ') = .ok ([], .unquoted .nothing) := rfl
  rw [lex_cons hstep]
  cases lex (.unquoted .nothing) text <;> rfl

theorem arguments_cons (b : Bytes) (names : List Bytes) :
    arguments (b :: names) = ofChar ' ' :: (b ++ arguments names) := rfl

/-- After the arguments there is a blank, whatever follows. -/
theorem arguments_ampersand (names : List Bytes) :
    ∃ text, arguments names ++ ampersand = ofChar ' ' :: text := by
  cases names with
  | nil => exact ⟨ascii "&", rfl⟩
  | cons b names => exact ⟨b ++ arguments names ++ ampersand, rfl⟩

theorem length_arguments_cons (b : Bytes) (names : List Bytes) :
    (arguments (b :: names)).length = b.length + 1 + (arguments names).length := by
  rw [arguments_cons, List.length_cons, List.length_append]
  omega

theorem backgroundCommand_word {names : List Bytes}
    (h : backgroundCommand ts = some (b :: names)) :
    ∃ letters rest, ts = .word letters :: rest ∧ literal letters = some b ∧
      backgroundCommand rest = some names := by
  cases ts with
  | nil => cases h
  | cons token rest =>
    cases token with
    | word letters =>
      rw [backgroundCommand] at h
      obtain ⟨text, htext, h⟩ := Option.bind_eq_some_iff.mp h
      obtain ⟨after, hafter, h⟩ := Option.bind_eq_some_iff.mp h
      obtain ⟨rfl, rfl⟩ := List.cons_eq_cons.mp (Option.some_inj.mp h)
      exact ⟨letters, rest, rfl, htext, hafter⟩
    | ioNumber letters => cases rest <;> cases h
    | operator text =>
      cases rest with
      | nil =>
        rw [backgroundCommand] at h
        split_ifs at h
        cases h
      | cons token rest => cases h

/-- A command that is given all its arguments amounts to the whole text of them. -/
theorem size_backgroundCommand {names : List Bytes} (h : backgroundCommand ts = some names) :
    (arguments names).length ≤ size ts := by
  induction names generalizing ts with
  | nil => exact Nat.zero_le _
  | cons b names ih =>
    obtain ⟨letters, rest, rfl, hliteral, hrest⟩ := backgroundCommand_word h
    have hlength := congrArg List.length (map_char_of_literal hliteral)
    rw [List.length_map] at hlength
    have hle := ih hrest
    rw [length_arguments_cons, size, Token.size]
    omega

/-- A literal argument is one word; the other arguments are split as if it were not there. -/
theorem background_cons (names : List Bytes) (h : IsWord b) :
    lex (.unquoted .nothing) (arguments (b :: names) ++ ampersand) =
      (lex (.unquoted .nothing) (arguments names ++ ampersand)).map
        (.word (unquotedLetters b) :: ·) := by
  obtain ⟨text, htext⟩ := arguments_ampersand names
  rw [arguments_cons, List.cons_append, lex_blank, List.append_assoc, htext, lex_isWord h,
    lex_blank]

/-- What a command in the background is given: the arguments if all of them are literal, and
something else otherwise. -/
theorem background_arguments_iff (names : List Bytes) (hne : ∀ b ∈ names, b ≠ []) :
    (∃ ts, lex (.unquoted .nothing) (arguments names ++ ampersand) = .ok ts ∧
      backgroundCommand ts = some names) ↔ ∀ b ∈ names, Literal b := by
  induction names with
  | nil => simpa using ⟨_, rfl, rfl⟩
  | cons b names ih =>
    obtain ⟨hb, hne⟩ := List.forall_mem_cons.mp hne
    rw [List.forall_mem_cons, ← ih hne]
    constructor
    · rintro ⟨ts, hlex, hcommand⟩
      have hsize := size_backgroundCommand hcommand
      obtain ⟨letters, rest, rfl, hliteral, hrest⟩ := backgroundCommand_word hcommand
      have hword := map_char_of_literal hliteral
      have hlex' := hlex
      rw [arguments_cons, List.cons_append, lex_blank, List.append_assoc] at hlex'
      have hisWord : IsWord b := by
        refine isWord_of_size hb hlex' hword ?_
        rw [length_arguments_cons] at hsize
        omega
      rw [background_cons names hisWord] at hlex
      obtain ⟨rest', hrest', hcons⟩ := exists_of_map_eq_ok hlex
      obtain ⟨hw, rfl⟩ := List.cons_eq_cons.mp hcons
      obtain rfl := Token.word.inj hw
      obtain ⟨hpattern, htilde⟩ := (literal_unquotedLetters_iff b).mp hliteral
      exact ⟨⟨hisWord, hpattern, htilde⟩, rest', hrest', hrest⟩
    · rintro ⟨⟨hisWord, hpattern, htilde⟩, ts, hlex, hcommand⟩
      have hliteral := (literal_unquotedLetters_iff b).mpr ⟨hpattern, htilde⟩
      refine ⟨.word (unquotedLetters b) :: ts, ?_, ?_⟩
      · rw [background_cons names hisWord, hlex]
        rfl
      · rw [backgroundCommand, hliteral, hcommand]
        rfl

end PosixShell
