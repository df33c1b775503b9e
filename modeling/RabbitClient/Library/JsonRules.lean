import RabbitClient.Library.Json

/-! Rules for what the reader makes of a text put together from the texts of values. -/
namespace JsonReader
open Bytes

theorem skip_space (b : Bytes) : skip (0x20 :: b) = skip b := rfl

theorem skip_cons {c : UInt8} (h : isSpace c = false) (b : Bytes) : skip (c :: b) = c :: b := by
  simp [skip, h]

/-- What may follow a value inside an array or an object, or at the end of the text. -/
def Stops (rest : Bytes) : Prop :=
  ∀ c, rest.head? = some c → c = comma ∨ c = closeArray ∨ c = closeObject

theorem stops_nil : Stops [] := by
  intro c hc
  cases hc

theorem stops_cons {c : UInt8} (h : c = comma ∨ c = closeArray ∨ c = closeObject) (b : Bytes) :
    Stops (c :: b) := by
  intro d hd
  cases hd
  exact h

/-- The text starts like a value and not like the end of an array. -/
def Starts (t : Bytes) : Prop := ∃ c l, t = c :: l ∧ isSpace c = false ∧ c ≠ closeArray

theorem Starts.skip_append {t : Bytes} (h : Starts t) (rest : Bytes) :
    skip (t ++ rest) = t ++ rest := by
  obtain ⟨c, l, rfl, hc, _⟩ := h
  exact skip_cons hc _

theorem Starts.append {t : Bytes} (h : Starts t) (rest : Bytes) : Starts (t ++ rest) := by
  obtain ⟨c, l, rfl, hc⟩ := h
  exact ⟨c, l ++ rest, rfl, hc⟩

/-- The characters between two quotes that stand for `s`. -/
def ReadsString (t s : Bytes) : Prop :=
  ∀ rest, text .plain (t ++ quote :: rest) = some (s, rest)

theorem readsString_nil : ReadsString [] [] := by
  intro rest
  simp [text]

theorem ReadsString.plain {t s : Bytes} (h : ReadsString t s) {c : UInt8} (hc : 0x20 ≤ c)
    (hq : c ≠ quote) (hb : c ≠ backslash) : ReadsString (c :: t) (c :: s) := by
  intro rest
  have hlt : ¬c < 0x20 := UInt8.not_lt.mpr hc
  simp [text, hq, hb, hlt, h rest]

theorem ReadsString.escaped {t s : Bytes} (h : ReadsString t s) {c : UInt8}
    (hc : c = quote ∨ c = backslash) : ReadsString (backslash :: c :: t) (c :: s) := by
  intro rest
  have hbq : backslash ≠ quote := by decide
  have hu : c ≠ ofChar 'u' := by
    rcases hc with rfl | rfl <;> decide
  have hun : unescape c = some c := by
    rcases hc with rfl | rfl <;> rfl
  simp [text, hbq, hu, hun, h rest]

/-- The text is that of `j` wherever a value may stand. -/
structure Reads (t : Bytes) (j : Json) : Prop where
  starts : Starts t
  reads_value : ∀ n rest, t.length ≤ n → Stops rest → value n (t ++ rest) = some (j, rest)

/-- The text between the brackets of an array. -/
structure ReadsElements (t : Bytes) (l : List Json) : Prop where
  starts : Starts t
  reads_elements : ∀ n rest, t.length < n → elements n (t ++ closeArray :: rest) = some (l, rest)

/-- The text between the braces of an object. -/
structure ReadsMembers (t : Bytes) (l : List (Bytes × Json)) : Prop where
  starts : ∃ u, t = quote :: u
  reads_members : ∀ n rest, t.length < n → members n (t ++ closeObject :: rest) = some (l, rest)

theorem reads_parse {t : Bytes} {j : Json} (h : Reads t j) : parse t = some j := by
  have hs : skip t = t := by simpa using h.starts.skip_append []
  have hv : value t.length t = some (j, []) := by
    simpa using h.reads_value t.length [] (Nat.le_refl _) stops_nil
  have h0 : skip [] = [] := rfl
  simp [parse, hs, hv, h0]

/-- A text that starts with neither a bracket nor a brace is a scalar. -/
theorem value_scalar {n : Nat} {c : UInt8} {b : Bytes} (ha : c ≠ openArray)
    (ho : c ≠ openObject) : value (n + 1) (c :: b) = scalar (c :: b) := by
  simp [value, ha, ho]

/-- A value is read with fuel left, so only its first character is looked at. -/
theorem reads_cons {c : UInt8} {t : Bytes} {j : Json} (hsp : isSpace c = false)
    (hc : c ≠ closeArray)
    (h : ∀ m rest, t.length ≤ m → Stops rest →
      value (m + 1) (c :: (t ++ rest)) = some (j, rest)) : Reads (c :: t) j := by
  refine ⟨⟨c, t, rfl, hsp, hc⟩, ?_⟩
  intro n rest hn hr
  cases n with
  | zero => cases hn
  | succ m => exact h m rest (Nat.le_of_succ_le_succ hn) hr

theorem reads_null : Reads (ascii "null") .null := by
  apply reads_cons rfl (by decide)
  intro m rest _ _
  exact value_scalar (by decide) (by decide)

theorem reads_string {t s : Bytes} (h : ReadsString t s) :
    Reads (quote :: (t ++ [quote])) (.string s) := by
  apply reads_cons rfl (by decide)
  intro m rest _ _
  rw [value_scalar (by decide) (by decide)]
  simp [scalar, h rest]

/-- The text does not go on with a number. -/
def EndsNumber (rest : Bytes) : Prop :=
  ∀ c, rest.head? = some c →
    isDigit c = false ∧ c ≠ ofChar '.' ∧ c ≠ ofChar 'e' ∧ c ≠ ofChar 'E'

theorem Stops.endsNumber {rest : Bytes} (h : Stops rest) : EndsNumber rest := by
  intro c hc
  rcases h c hc with rfl | rfl | rfl <;> decide

theorem isDigit_of_mem {n : Nat} {c : UInt8} (h : c ∈ decimal n) : isDigit c = true := by
  obtain ⟨hlo, hhi⟩ := mem_decimal h
  have h48 : (48 : UInt8) ≤ c := UInt8.le_iff_toNat_le.mpr hlo
  have h57 : c ≤ 57 := UInt8.le_iff_toNat_le.mpr hhi
  simp [isDigit, h48, h57]

theorem digits_decimal (n : Nat) {rest : Bytes} (h : EndsNumber rest) :
    digits (decimal n ++ rest) = some (decimal n, rest) := by
  have hd : ∀ c ∈ decimal n, isDigit c = true := fun c => isDigit_of_mem
  have hr : ∀ c, rest.head? = some c → isDigit c = false := fun c hc => (h c hc).1
  have htake : (decimal n ++ rest).takeWhile isDigit = decimal n := by
    rw [List.takeWhile_append_of_pos hd]
    cases rest with
    | nil => simp
    | cons c b => simp [hr c rfl]
  have hdrop : (decimal n ++ rest).dropWhile isDigit = rest := by
    rw [List.dropWhile_append_of_pos hd]
    cases rest with
    | nil => simp
    | cons c b => simp [hr c rfl]
  simp [digits, htake, hdrop, decimal_ne_nil]

theorem fraction_none {rest : Bytes} (h : EndsNumber rest) : fraction rest = some ([], rest) := by
  have hp : rest.head? ≠ some (ofChar '.') := fun hc => (h _ hc).2.1 rfl
  simp [fraction, hp]

theorem exponent_none {rest : Bytes} (h : EndsNumber rest) : exponent rest = some (0, rest) := by
  have he : rest.head? ≠ some (ofChar 'e') := fun hc => (h _ hc).2.2.1 rfl
  have hE : rest.head? ≠ some (ofChar 'E') := fun hc => (h _ hc).2.2.2 rfl
  simp [exponent, he, hE]

theorem unsigned_decimal (negative : Bool) (n : Nat) {rest : Bytes} (h : EndsNumber rest) :
    unsigned negative (decimal n ++ rest) =
      some (.number (if negative then -n else n) 0, rest) := by
  have hzero : ¬((decimal n).head? = some (ofChar '0') ∧ 1 < (decimal n).length) := by
    rintro ⟨hh, hl⟩
    obtain rfl := decimal_head hh
    have hone : (decimal 0).length = 1 := rfl
    omega
  simp [unsigned, digits_decimal n h, hzero, fraction_none h, exponent_none h, ofDigits_decimal]

/-- What a number starts with. -/
def numeral (c : UInt8) : Bool := isDigit c || c = ofChar '-'

theorem ne_of_numeral {c d : UInt8} (h : numeral c = true) (hd : numeral d = false) : c ≠ d := by
  rintro rfl
  simp [hd] at h

theorem isSpace_numeral {c : UInt8} (h : numeral c = true) : isSpace c = false := by
  have h1 : c ≠ 0x20 := ne_of_numeral h rfl
  have h2 : c ≠ 0x09 := ne_of_numeral h rfl
  have h3 : c ≠ 0x0A := ne_of_numeral h rfl
  have h4 : c ≠ 0x0D := ne_of_numeral h rfl
  simp [isSpace, h1, h2, h3, h4]

theorem value_numeral {c : UInt8} (h : numeral c = true) (n : Nat) (b : Bytes) :
    value (n + 1) (c :: b) = number (c :: b) := by
  rw [value_scalar (ne_of_numeral h rfl) (ne_of_numeral h rfl)]
  have hq : c ≠ quote := ne_of_numeral h rfl
  have hn : c ≠ ofChar 'n' := ne_of_numeral h rfl
  have ht : c ≠ ofChar 't' := ne_of_numeral h rfl
  have hf : c ≠ ofChar 'f' := ne_of_numeral h rfl
  simp [scalar, literal, ascii, hq, hn, ht, hf]

theorem reads_decimal (k : Nat) : Reads (decimal k) (.number k 0) := by
  cases hk : decimal k with
  | nil => exact absurd hk (decimal_ne_nil k)
  | cons c b =>
    have hc : isDigit c = true := isDigit_of_mem (n := k) (by simp [hk])
    have hnum : numeral c = true := by simp [numeral, hc]
    apply reads_cons (isSpace_numeral hnum) (ne_of_numeral hnum rfl)
    intro m rest _ hr
    have hm : c ≠ ofChar '-' := by
      rintro rfl
      cases hc
    have hu := unsigned_decimal false k hr.endsNumber
    rw [hk] at hu
    rw [value_numeral hnum]
    simpa [number, hm] using hu

theorem reads_negative (k : Nat) : Reads (ofChar '-' :: decimal k) (.number (-k) 0) := by
  have hnum : numeral (ofChar '-') = true := rfl
  apply reads_cons (isSpace_numeral hnum) (ne_of_numeral hnum rfl)
  intro m rest _ hr
  have hu := unsigned_decimal true k hr.endsNumber
  rw [value_numeral hnum]
  simpa [number] using hu

/-- The first element, and what decides whether another one follows. -/
theorem elements_value {t r : Bytes} {j : Json} {m : Nat} (h : Reads t j) (hm : t.length ≤ m)
    (hr : Stops r) (hs : skip r = r) :
    elements (m + 1) (t ++ r) =
      if r.head? = some comma then (elements m (skip r.tail)).map fun (l, b) => (j :: l, b)
      else if r.head? = some closeArray then some ([j], r.tail)
      else none := by
  have hv := h.reads_value m r hm hr
  simp only [elements, hv, hs, Option.bind_eq_bind, Option.bind_some]
  split
  · cases elements m (skip r.tail) <;> rfl
  · rfl

theorem readsElements_last {t : Bytes} {j : Json} (h : Reads t j) : ReadsElements t [j] := by
  refine ⟨h.starts, ?_⟩
  intro n rest hn
  cases n with
  | zero => cases hn
  | succ m =>
    have hc : closeArray ≠ comma := by decide
    rw [elements_value h (by omega) (stops_cons (by simp) rest) (skip_cons rfl rest)]
    simp [hc]

theorem ReadsElements.cons {t u : Bytes} {j : Json} {l : List Json} (hl : ReadsElements u l)
    (h : Reads t j) : ReadsElements (t ++ comma :: 0x20 :: u) (j :: l) := by
  refine ⟨h.starts.append _, ?_⟩
  intro n rest hn
  cases n with
  | zero => cases hn
  | succ m =>
    simp only [List.length_append, List.length_cons] at hn
    have he := hl.reads_elements m rest (by omega)
    have hu : skip (0x20 :: (u ++ closeArray :: rest)) = u ++ closeArray :: rest := by
      rw [skip_space, hl.starts.skip_append]
    have hr : Stops (comma :: 0x20 :: (u ++ closeArray :: rest)) := stops_cons (Or.inl rfl) _
    have hv := elements_value h (m := m) (by omega) hr (skip_cons rfl _)
    simpa [hu, he] using hv

theorem reads_emptyArray : Reads [openArray, closeArray] (.array []) := by
  apply reads_cons rfl (by decide)
  intro m rest _ _
  have hs : skip (closeArray :: rest) = closeArray :: rest := skip_cons rfl rest
  simp [value, hs]

theorem ReadsElements.array {t : Bytes} {l : List Json} (h : ReadsElements t l) :
    Reads (openArray :: (t ++ [closeArray])) (.array l) := by
  apply reads_cons rfl (by decide)
  intro m rest hm _
  simp only [List.length_append, List.length_cons, List.length_nil] at hm
  have he := h.reads_elements m rest (by omega)
  obtain ⟨c, u, rfl, hsp, hc⟩ := h.starts
  have hs := skip_cons hsp (u ++ closeArray :: rest)
  rw [List.cons_append] at he
  simp [value, hs, he, hc]

/-- The text of one member. -/
def memberText (key t : Bytes) : Bytes := quote :: (key ++ quote :: colon :: 0x20 :: t)

/-- The first member, and what decides whether another one follows. -/
theorem members_memberText {key k t r : Bytes} {j : Json} {m : Nat} (hk : ReadsString key k)
    (h : Reads t j) (hm : t.length ≤ m) (hr : Stops r) (hs : skip r = r) :
    members (m + 1) (memberText key t ++ r) =
      if r.head? = some comma then
        (members m (skip r.tail)).map fun (l, b) => ((k, j) :: l, b)
      else if r.head? = some closeObject then some ([(k, j)], r.tail)
      else none := by
  have hkey := hk (colon :: 0x20 :: (t ++ r))
  have hcolon : skip (colon :: 0x20 :: (t ++ r)) = colon :: 0x20 :: (t ++ r) := skip_cons rfl _
  have ht : skip (0x20 :: (t ++ r)) = t ++ r := by
    rw [skip_space, h.starts.skip_append]
  have hv := h.reads_value m r hm hr
  have htext : memberText key t ++ r = quote :: (key ++ quote :: colon :: 0x20 :: (t ++ r)) := by
    simp [memberText]
  rw [htext]
  simp only [members, List.head?_cons, List.tail_cons, hkey, hcolon, ht, hv, hs, ne_eq,
    not_true_eq_false, if_false, Option.bind_eq_bind, Option.bind_some]
  split
  · cases members m (skip r.tail) <;> rfl
  · rfl

theorem readsMembers_last {key k t : Bytes} {j : Json} (hk : ReadsString key k)
    (h : Reads t j) : ReadsMembers (memberText key t) [(k, j)] := by
  refine ⟨⟨_, rfl⟩, ?_⟩
  intro n rest hn
  cases n with
  | zero => cases hn
  | succ m =>
    simp only [memberText, List.length_cons, List.length_append] at hn
    have hc : closeObject ≠ comma := by decide
    rw [members_memberText hk h (by omega) (stops_cons (by simp) rest) (skip_cons rfl rest)]
    simp [hc]

theorem ReadsMembers.cons {key k t u : Bytes} {j : Json} {l : List (Bytes × Json)}
    (hl : ReadsMembers u l) (hk : ReadsString key k) (h : Reads t j) :
    ReadsMembers (memberText key t ++ comma :: 0x20 :: u) ((k, j) :: l) := by
  refine ⟨⟨_, rfl⟩, ?_⟩
  intro n rest hn
  cases n with
  | zero => cases hn
  | succ m =>
    simp only [memberText, List.length_cons, List.length_append] at hn
    have he := hl.reads_members m rest (by omega)
    have hu : skip (0x20 :: (u ++ closeObject :: rest)) = u ++ closeObject :: rest := by
      obtain ⟨x, rfl⟩ := hl.starts
      exact skip_cons (c := quote) rfl _
    have hr : Stops (comma :: 0x20 :: (u ++ closeObject :: rest)) := stops_cons (Or.inl rfl) _
    have hv := members_memberText hk h (m := m) (by omega) hr (skip_cons rfl _)
    simpa [hu, he] using hv

theorem reads_emptyObject : Reads [openObject, closeObject] (.object []) := by
  apply reads_cons rfl (by decide)
  intro m rest _ _
  have hs : skip (closeObject :: rest) = closeObject :: rest := skip_cons rfl rest
  have ho : openObject ≠ openArray := by decide
  simp [value, hs, ho]

theorem ReadsMembers.object {t : Bytes} {l : List (Bytes × Json)} (h : ReadsMembers t l) :
    Reads (openObject :: (t ++ [closeObject])) (.object l) := by
  apply reads_cons rfl (by decide)
  intro m rest hm _
  simp only [List.length_append, List.length_cons, List.length_nil] at hm
  have he := h.reads_members m rest (by omega)
  obtain ⟨u, rfl⟩ := h.starts
  have hs : skip (quote :: (u ++ closeObject :: rest)) = quote :: (u ++ closeObject :: rest) :=
    skip_cons rfl _
  have hc : quote ≠ closeObject := by decide
  have ho : openObject ≠ openArray := by decide
  rw [List.cons_append] at he
  simp [value, hs, he, hc, ho]

/-- No string begins like this. -/
def RefusesString (t : Bytes) : Prop := ∀ rest, text .plain (t ++ rest) = none

theorem refusesString_control {c : UInt8} (hc : c < 0x20) (t : Bytes) :
    RefusesString (c :: t) := by
  intro rest
  have hq : c ≠ quote := by
    rintro rfl
    contradiction
  have hb : c ≠ backslash := by
    rintro rfl
    contradiction
  simp [text, hq, hb, hc]

theorem RefusesString.plain {t : Bytes} (h : RefusesString t) {c : UInt8} (hq : c ≠ quote)
    (hb : c ≠ backslash) : RefusesString (c :: t) := by
  intro rest
  simp [text, hq, hb, h rest]

theorem RefusesString.escaped {t : Bytes} (h : RefusesString t) {c : UInt8}
    (hc : c = quote ∨ c = backslash) : RefusesString (backslash :: c :: t) := by
  intro rest
  have hbq : backslash ≠ quote := by decide
  have hu : c ≠ ofChar 'u' := by
    rcases hc with rfl | rfl <;> decide
  have hun : unescape c = some c := by
    rcases hc with rfl | rfl <;> rfl
  simp [text, hbq, hu, hun, h rest]

/-- No value begins like this. -/
structure Refused (t : Bytes) : Prop where
  starts : Starts t
  refuses_value : ∀ n rest, t.length ≤ n → value n (t ++ rest) = none

/-- The elements of no array begin like this. -/
structure RefusedElements (t : Bytes) : Prop where
  starts : Starts t
  refuses_elements : ∀ n rest, t.length < n → elements n (t ++ rest) = none

/-- The members of no object begin like this. -/
structure RefusedMembers (t : Bytes) : Prop where
  starts : ∃ u, t = quote :: u
  refuses_members : ∀ n rest, t.length < n → members n (t ++ rest) = none

theorem refused_parse {t : Bytes} (h : Refused t) : parse t = none := by
  have hs : skip t = t := by simpa using h.starts.skip_append []
  have hv : value t.length t = none := by
    simpa using h.refuses_value t.length [] (Nat.le_refl _)
  simp [parse, hs, hv]

theorem refused_string {t : Bytes} (h : RefusesString t) (u : Bytes) :
    Refused (quote :: (t ++ u)) := by
  refine ⟨⟨quote, t ++ u, rfl, rfl, by decide⟩, ?_⟩
  intro n rest hn
  cases n with
  | zero => cases hn
  | succ m =>
    have ht := h (u ++ rest)
    rw [List.cons_append, List.append_assoc, value_scalar (by decide) (by decide)]
    simp [scalar, ht]

theorem Refused.elements {t : Bytes} (h : Refused t) (u : Bytes) : RefusedElements (t ++ u) := by
  refine ⟨h.starts.append u, ?_⟩
  intro n rest hn
  cases n with
  | zero => cases hn
  | succ m =>
    rw [List.length_append] at hn
    have hv := h.refuses_value m (u ++ rest) (by omega)
    rw [List.append_assoc]
    simp [JsonReader.elements, hv]

theorem RefusedElements.cons {t u : Bytes} {j : Json} (hu : RefusedElements u)
    (h : Reads t j) : RefusedElements (t ++ comma :: 0x20 :: u) := by
  refine ⟨h.starts.append _, ?_⟩
  intro n rest hn
  cases n with
  | zero => cases hn
  | succ m =>
    simp only [List.length_append, List.length_cons] at hn
    have he := hu.refuses_elements m rest (by omega)
    have hskip : skip (0x20 :: (u ++ rest)) = u ++ rest := by
      rw [skip_space, hu.starts.skip_append]
    have hr : Stops (comma :: 0x20 :: (u ++ rest)) := stops_cons (Or.inl rfl) _
    have hv := elements_value h (m := m) (by omega) hr (skip_cons rfl _)
    simpa [hskip, he] using hv

theorem RefusedElements.array {t : Bytes} (h : RefusedElements t) :
    Refused (openArray :: (t ++ [closeArray])) := by
  refine ⟨⟨openArray, t ++ [closeArray], rfl, rfl, by decide⟩, ?_⟩
  intro n rest hn
  cases n with
  | zero => cases hn
  | succ m =>
    simp only [List.length_append, List.length_cons, List.length_nil] at hn
    have he := h.refuses_elements m (closeArray :: rest) (by omega)
    obtain ⟨c, v, rfl, hsp, hc⟩ := h.starts
    have hs := skip_cons hsp (v ++ closeArray :: rest)
    rw [List.cons_append] at he
    simp [value, hs, he, hc]

theorem Refused.members {key k t : Bytes} (hk : ReadsString key k) (h : Refused t) (u : Bytes) :
    RefusedMembers (memberText key t ++ u) := by
  refine ⟨⟨_, rfl⟩, ?_⟩
  intro n rest hn
  cases n with
  | zero => cases hn
  | succ m =>
    simp only [memberText, List.length_append, List.length_cons] at hn
    have hkey := hk (colon :: 0x20 :: (t ++ (u ++ rest)))
    have hcolon : skip (colon :: 0x20 :: (t ++ (u ++ rest))) =
        colon :: 0x20 :: (t ++ (u ++ rest)) := skip_cons rfl _
    have ht : skip (0x20 :: (t ++ (u ++ rest))) = t ++ (u ++ rest) := by
      rw [skip_space, h.starts.skip_append]
    have hv := h.refuses_value m (u ++ rest) (by omega)
    have htext : memberText key t ++ u ++ rest =
        quote :: (key ++ quote :: colon :: 0x20 :: (t ++ (u ++ rest))) := by
      simp [memberText]
    rw [htext]
    simp [JsonReader.members, hkey, hcolon, ht, hv]

theorem RefusedMembers.cons {key k t u : Bytes} {j : Json} (hu : RefusedMembers u)
    (hk : ReadsString key k) (h : Reads t j) :
    RefusedMembers (memberText key t ++ comma :: 0x20 :: u) := by
  refine ⟨⟨_, rfl⟩, ?_⟩
  intro n rest hn
  cases n with
  | zero => cases hn
  | succ m =>
    simp only [memberText, List.length_cons, List.length_append] at hn
    have he := hu.refuses_members m rest (by omega)
    have hskip : skip (0x20 :: (u ++ rest)) = u ++ rest := by
      obtain ⟨x, rfl⟩ := hu.starts
      exact skip_cons (c := quote) rfl _
    have hr : Stops (comma :: 0x20 :: (u ++ rest)) := stops_cons (Or.inl rfl) _
    have hv := members_memberText hk h (m := m) (by omega) hr (skip_cons rfl _)
    simpa [hskip, he] using hv

theorem RefusedMembers.object {t : Bytes} (h : RefusedMembers t) :
    Refused (openObject :: (t ++ [closeObject])) := by
  refine ⟨⟨openObject, t ++ [closeObject], rfl, rfl, by decide⟩, ?_⟩
  intro n rest hn
  cases n with
  | zero => cases hn
  | succ m =>
    simp only [List.length_append, List.length_cons, List.length_nil] at hn
    have he := h.refuses_members m (closeObject :: rest) (by omega)
    obtain ⟨v, rfl⟩ := h.starts
    have hs : skip (quote :: (v ++ closeObject :: rest)) = quote :: (v ++ closeObject :: rest) :=
      skip_cons rfl _
    have hc : quote ≠ closeObject := by decide
    have ho : openObject ≠ openArray := by decide
    rw [List.cons_append] at he
    simp [value, hs, he, hc, ho]

end JsonReader
