import RabbitClient.Broker.Pool
import RabbitClient.Broker.Rpc

/-! How `wait_for_message` compares the strings of a message where they lie in its pool. -/
namespace RabbitClient.AmqpPool

open Bytes Blocks

/-- `!strcmp(s.c_str(), p)`, where `mem` can be read from `p` on; `none` if it reads past the end. -/
def strcmp : Bytes → Bytes → Option Bool
  | _, [] => none
  | s, y :: mem =>
    if s.headD 0 ≠ y then some false
    else if y = 0 then some true
    else strcmp s.tail mem

/-- The comparison with a copied string; one that is absent is a null pointer. -/
def sameString (pool : Pool) (s : Bytes) (b : AmqpBytes) : Option Bool :=
  b.bytes.bind fun p => strcmp s (bytesAt pool p)

def found (app_id correlation_id : Bytes) (clone : Clone) (pool : Pool) : Option Bool :=
  match sameString pool app_id clone.app_id with
  | some true => sameString pool correlation_id clone.correlation_id
  | r => r

/-- What `wait_for_message` finds in a message that was sent with these properties. -/
def wait_for_message (app_id correlation_id : Bytes) (p : BasicProperties) : Option Bool :=
  (amqp_read_message p).bind fun (clone, pool) => found app_id correlation_id clone pool

theorem cstr_cons {x : UInt8} {b : Bytes} : cstr (x :: b) = if x = 0 then [] else x :: cstr b := by
  by_cases hx : x = 0 <;> simp [cstr, hx]

theorem strcmp_eq {s mem : Bytes} (h : 0 ∈ mem) :
    strcmp s mem = some (decide (cstr s = cstr mem)) := by
  induction mem generalizing s with
  | nil => contradiction
  | cons y mem ih =>
    rw [strcmp, cstr_cons]
    cases s with
    | nil =>
      by_cases hy : y = 0
      · simp [cstr, hy]
      · simp [cstr, hy, Ne.symm hy]
    | cons x s =>
      rw [cstr_cons]
      by_cases hxy : x = y
      · subst y
        by_cases hx : x = 0
        · simp [hx]
        · have hmem : 0 ∈ mem := by simpa [Ne.symm hx] using h
          simp [hx, ih hmem]
      · by_cases hx : x = 0
        · subst x
          simp [hxy, Ne.symm hxy]
        · by_cases hy : y = 0 <;> simp [hxy, hx, hy]

theorem bytesAt_filled {b c : Bytes} (hc : c ≠ []) :
    bytesAt (filled (b ++ c)) ⟨.page 0, b.length⟩ = c ++ calloc (4096 - (b ++ c).length) := by
  simp [bytesAt, filled, onePage, hc]

theorem cstr_append_zero (b z : Bytes) : cstr (b ++ 0 :: z) = cstr b := by
  by_cases h : 0 ∈ b
  · induction b with
    | nil => contradiction
    | cons x b ih =>
      rw [List.cons_append, cstr_cons, cstr_cons]
      split
      · rfl
      · rename_i hx
        rw [ih (by simpa [Ne.symm hx] using h)]
  · rw [cstr_append h, cstr_of_notMem h]
    simp [cstr]

/-- The comparison with a copied string reads from where it lies up to the first NUL. -/
theorem sameString_layout (pre post : List Bytes) {b : Bytes} (s : Bytes) (hb : b ≠ [])
    (hlen : ((pre ++ b :: post).flatMap (pad 8)).length < 4096) :
    sameString (filled ((pre ++ b :: post).flatMap (pad 8))) s
        (refer (pre.flatMap (pad 8)).length b) =
      some (decide (cstr s = cstr ((b :: post).flatMap (pad 8)))) := by
  rw [List.flatMap_append] at hlen ⊢
  have hne : (b :: post).flatMap (pad 8) ≠ [] := by
    simp [pad, hb]
  have hz : ∃ z, calloc (4096 - (pre.flatMap (pad 8) ++ (b :: post).flatMap (pad 8)).length) =
      0 :: z := by
    refine ⟨calloc (4096 - (pre.flatMap (pad 8) ++ (b :: post).flatMap (pad 8)).length - 1), ?_⟩
    rw [calloc, calloc, ← List.replicate_succ]
    congr 1
    omega
  obtain ⟨z, hz⟩ := hz
  simp only [sameString, refer, if_neg hb, Option.bind_some]
  rw [bytesAt_filled hne, hz, strcmp_eq (by simp), cstr_append_zero]

/-- Without NULs a copied string is compared together with what follows it in full blocks. -/
theorem sameString_filled {pre post : List Bytes} {b : Bytes} (s : Bytes) (hb : b ≠ [])
    (hnul : ∀ c ∈ b :: post, 0 ∉ c)
    (hlen : ((pre ++ b :: post).flatMap (pad 8)).length < 4096) :
    sameString (filled ((pre ++ b :: post).flatMap (pad 8))) s
        (refer (pre.flatMap (pad 8)).length b) =
      some (decide (cstr s = runOn 8 (b :: post))) := by
  have hrun := cstr_flatMap_pad (w := 8) (by omega) hnul []
  rw [cstr_append_zero] at hrun
  rw [sameString_layout pre post s hb hlen, hrun]

/-- A string without NUL, not empty. -/
abbrev Text := { s : ShortString // s.val ≠ [] ∧ 0 ∉ s.val }

/-- A message with the properties that the programs set. -/
structure Delivered where
  content_type : Option Text := none
  correlation_id : Text
  reply_to : Option Text := none
  expiration : Option Text := none
  message_id : Option Text := none
  app_id : Text
deriving DecidableEq

def Delivered.properties (m : Delivered) : BasicProperties where
  content_type := m.content_type.map Subtype.val
  correlation_id := some m.correlation_id.val
  reply_to := m.reply_to.map Subtype.val
  expiration := m.expiration.map Subtype.val
  message_id := m.message_id.map Subtype.val
  app_id := some m.app_id.val

/-- The bytes of a property, none if it is absent. -/
def content (s : Option Text) : Bytes := text (s.map Subtype.val)

/-- What stands behind the correlation id. -/
def Delivered.following (m : Delivered) : List Bytes :=
  [content m.reply_to, content m.expiration, content m.message_id, m.app_id.val.val]

/-- What `strcmp` sees of the correlation id. -/
def Delivered.seen (m : Delivered) : Bytes := runOn 8 (m.correlation_id.val.val :: m.following)

theorem zero_notMem_content (s : Option Text) : 0 ∉ content s := by
  cases s with
  | none => simp [content, text]
  | some s => exact s.property.2

theorem strings_properties (m : Delivered) :
    m.properties.strings =
      [content m.content_type, [], m.correlation_id.val.val, content m.reply_to,
        content m.expiration, content m.message_id, [], [], m.app_id.val.val, []] := rfl

theorem zero_notMem_strings (m : Delivered) : ∀ b ∈ m.properties.strings, 0 ∉ b := by
  have hcorr := m.correlation_id.property.2
  have happ := m.app_id.property.2
  simp [strings_properties, zero_notMem_content, hcorr, happ]

theorem length_strings_lt (p : BasicProperties) : (p.strings.flatMap (pad 8)).length < 4096 := by
  have hall : ∀ b ∈ p.strings, b.length ≤ 255 := by
    simp [BasicProperties.strings, length_text]
  have hle := length_flatMap_pad_le (w := 8) (by omega) hall
  have hn : p.strings.length = 10 := rfl
  rw [hn] at hle
  omega

/-- A string of a message is compared together with those behind it. -/
theorem sameString_strings (m : Delivered) (pre : List Bytes) (b : Bytes) (post : List Bytes)
    (s : Bytes) (hm : m.properties.strings = pre ++ b :: post) (hb : b ≠ []) :
    sameString (filled (m.properties.strings.flatMap (pad 8))) s
        (refer (pre.flatMap (pad 8)).length b) =
      some (decide (cstr s = runOn 8 (b :: post))) := by
  have hlen := length_strings_lt m.properties
  have hnul := zero_notMem_strings m
  rw [hm] at hlen hnul ⊢
  exact sameString_filled s hb (fun c hc => hnul c (List.mem_append_right _ hc)) hlen

/-- The two comparisons, in terms of the strings that were sent. -/
theorem wait_for_message_eq (m : Delivered) (app_id correlation_id : Bytes) :
    wait_for_message app_id correlation_id m.properties =
      some (decide (cstr app_id = m.app_id.val.val ∧ cstr correlation_id = m.seen)) := by
  let last : List Bytes := [[]]
  let rest : List Bytes := [content m.reply_to, content m.expiration, content m.message_id, [], [],
    m.app_id.val.val, []]
  have hlast : runOn 8 (m.app_id.val.val :: last) = m.app_id.val.val := by
    simp [runOn, last]
  have hseen : runOn 8 (m.correlation_id.val.val :: rest) = m.seen := by
    simp [Delivered.seen, Delivered.following, runOn, rest]
  have happ : sameString (filled (m.properties.strings.flatMap (pad 8))) app_id
      (refer (m.properties.start 8) (text m.properties.app_id)) =
        some (decide (cstr app_id = m.app_id.val.val)) := by
    rw [← hlast]
    exact sameString_strings m (m.properties.strings.take 8) m.app_id.val.val last app_id rfl
      m.app_id.property.1
  have hcorr : sameString (filled (m.properties.strings.flatMap (pad 8))) correlation_id
      (refer (m.properties.start 2) (text m.properties.correlation_id)) =
        some (decide (cstr correlation_id = m.seen)) := by
    rw [← hseen]
    exact sameString_strings m (m.properties.strings.take 2) m.correlation_id.val.val rest
      correlation_id rfl m.correlation_id.property.1
  simp only [wait_for_message, amqp_read_message_eq, Option.bind_some, found, happ, hcorr]
  by_cases ha : cstr app_id = m.app_id.val.val <;> simp [ha]

/-- A reply to the request whose correlation id ends where a block ends. -/
def Overlooked (m : Delivered) (app_id correlation_id : Bytes) : Prop :=
  m.app_id.val.val = app_id ∧ m.correlation_id.val.val = correlation_id ∧
    8 ∣ m.correlation_id.val.val.length

/-- A message that compares equal because one side of a comparison is not all of its string. -/
def Mistaken (m : Delivered) (app_id correlation_id : Bytes) : Prop :=
  cstr app_id = m.app_id.val.val ∧ cstr correlation_id = m.seen ∧
    (0 ∈ app_id ∨ 0 ∈ correlation_id ∨ 8 ∣ m.correlation_id.val.val.length)

theorem seen_eq_iff (m : Delivered) :
    m.seen = m.correlation_id.val.val ↔ ¬ 8 ∣ m.correlation_id.val.val.length :=
  runOn_eq_iff (c := m.app_id.val.val) (by simp [Delivered.following]) m.app_id.property.1

/-- `found` says whether the reply is the client's own, except for messages of these two kinds. -/
theorem found_own_reply_iff (m : Delivered) (app_id correlation_id : Bytes) :
    (wait_for_message app_id correlation_id m.properties = some true ↔
        m.app_id.val.val = app_id ∧ m.correlation_id.val.val = correlation_id) ↔
      ¬ Overlooked m app_id correlation_id ∧ ¬ Mistaken m app_id correlation_id := by
  have happ := m.app_id.property.2
  have hcorr := m.correlation_id.property.2
  have hseen := seen_eq_iff m
  rw [wait_for_message_eq, Option.some_inj, decide_eq_true_iff]
  constructor
  · intro h
    constructor
    · rintro ⟨ha, hc, hd⟩
      obtain ⟨-, hs⟩ := h.mpr ⟨ha, hc⟩
      rw [← hc, cstr_of_notMem hcorr] at hs
      exact hseen.mp hs.symm hd
    · rintro ⟨ha, hs, hor⟩
      obtain ⟨rfl, rfl⟩ := h.mp ⟨ha, hs⟩
      rw [cstr_of_notMem hcorr] at hs
      rcases hor with h0 | h0 | hd
      · exact happ h0
      · exact hcorr h0
      · exact hseen.mp hs.symm hd
  · rintro ⟨hover, hmis⟩
    constructor
    · rintro ⟨ha, hs⟩
      have hnone : 0 ∉ app_id ∧ 0 ∉ correlation_id ∧ ¬ 8 ∣ m.correlation_id.val.val.length := by
        simpa [Mistaken, ha, hs] using hmis
      obtain ⟨ha0, hc0, hd⟩ := hnone
      rw [cstr_of_notMem ha0] at ha
      rw [cstr_of_notMem hc0, hseen.mpr hd] at hs
      exact ⟨ha.symm, hs.symm⟩
    · rintro ⟨rfl, rfl⟩
      have hd : ¬ 8 ∣ m.correlation_id.val.val.length := by
        simpa [Overlooked] using hover
      exact ⟨cstr_of_notMem happ, (cstr_of_notMem hcorr).trans (hseen.mpr hd).symm⟩

def replyApp : Bytes := ascii "rpc-client.1"

theorem replyApp_text : replyApp.length ≤ 255 ∧ replyApp ≠ [] ∧ 0 ∉ replyApp := by decide

theorem length_decimal_toNat (n : UInt64) : (decimal n.toNat).length ≤ 255 := by
  have hn : n.toNat < 2 ^ 64 := n.toNat_lt
  have hlen : (decimal n.toNat).length ≤ 20 := (length_decimal_le_iff (by omega)).mpr (by omega)
  omega

/-- A correlation id as the clients make them. -/
def sequenceText (n : UInt64) : Text :=
  ⟨⟨decimal n.toNat, length_decimal_toNat n⟩, decimal_ne_nil n.toNat, zero_notMem_decimal n.toNat⟩

/-- The reply to the ten-millionth request of a client. -/
def lateReply : Delivered where
  correlation_id := sequenceText 10000000
  app_id := ⟨⟨replyApp, replyApp_text.1⟩, replyApp_text.2⟩

/-- The eight digits fill their block, so the comparison runs on into the application id. -/
theorem found_late_reply :
    ¬ (wait_for_message replyApp (decimal 10000000) lateReply.properties = some true ↔
        lateReply.app_id.val.val = replyApp ∧
          lateReply.correlation_id.val.val = decimal 10000000) := by
  rw [wait_for_message_eq]
  decide

/-- Of the numbers a `size_t` holds, those with 8 and with 16 digits fill their blocks. -/
theorem eight_dvd_length_decimal (n : UInt64) :
    8 ∣ (decimal n.toNat).length ↔
      (10 ^ 7 ≤ n.toNat ∧ n.toNat < 10 ^ 8) ∨ (10 ^ 15 ≤ n.toNat ∧ n.toNat < 10 ^ 16) := by
  have hn : n.toNat < 2 ^ 64 := n.toNat_lt
  have hpos : 0 < (decimal n.toNat).length := List.length_pos_iff.mpr (decimal_ne_nil _)
  have h7 : (decimal n.toNat).length ≤ 7 ↔ n.toNat < 10 ^ 7 := length_decimal_le_iff (by omega)
  have h8 : (decimal n.toNat).length ≤ 8 ↔ n.toNat < 10 ^ 8 := length_decimal_le_iff (by omega)
  have h15 : (decimal n.toNat).length ≤ 15 ↔ n.toNat < 10 ^ 15 := length_decimal_le_iff (by omega)
  have h16 : (decimal n.toNat).length ≤ 16 ↔ n.toNat < 10 ^ 16 := length_decimal_le_iff (by omega)
  have h20 : (decimal n.toNat).length ≤ 20 ↔ n.toNat < 10 ^ 20 := length_decimal_le_iff (by omega)
  omega

/-- A client finds the reply to its `n`-th request unless `n` has 8 or 16 digits. -/
theorem numbered_reply_found_iff {m : Delivered} {n : UInt64}
    (h : m.correlation_id = sequenceText n) :
    wait_for_message m.app_id.val.val (decimal n.toNat) m.properties = some true ↔
      ¬ ((10 ^ 7 ≤ n.toNat ∧ n.toNat < 10 ^ 8) ∨ (10 ^ 15 ≤ n.toNat ∧ n.toNat < 10 ^ 16)) := by
  have hseen := seen_eq_iff m
  have hcorr : m.correlation_id.val.val = decimal n.toNat := by rw [h]; rfl
  rw [hcorr, eight_dvd_length_decimal] at hseen
  rw [wait_for_message_eq, cstr_of_notMem m.app_id.property.2,
    cstr_of_notMem (zero_notMem_decimal _), ← hseen]
  simp [eq_comm]

/-- Where the correlation id leaves room in its block, strings may be compared as such. -/
theorem wait_for_message_eq_found {m : Delivered} {p : MessageBroker.Properties}
    (happ : p.app_id = some m.app_id.val.val)
    (hcorr : p.correlation_id = some m.correlation_id.val.val)
    (hd : ¬ 8 ∣ m.correlation_id.val.val.length) (app_id correlation_id : Bytes) :
    wait_for_message app_id correlation_id m.properties = Rpc.found app_id correlation_id p := by
  have ha := m.app_id.property
  have hc := m.correlation_id.property
  have same : ∀ {b : Bytes} (s : Bytes), b ≠ [] ∧ 0 ∉ b →
      Rpc.sameString s (some b) = some (decide (cstr s = b)) := by
    intro b s hb
    cases b with
    | nil => exact (hb.1 rfl).elim
    | cons x b => simp [Rpc.sameString, cstr_of_notMem hb.2]
  rw [wait_for_message_eq, (seen_eq_iff m).mpr hd, Rpc.found, happ, hcorr, same app_id ha,
    same correlation_id hc]
  by_cases h : cstr app_id = m.app_id.val.val <;> simp [h]

end RabbitClient.AmqpPool
