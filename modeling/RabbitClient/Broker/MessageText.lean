import RabbitClient.Broker.Message
import RabbitClient.StringUtils.JsonExact

/-! The text that `MessageWrapper::toString` makes of a delivered message. -/
namespace RabbitClient.MessageWrapper

open Bytes StringUtils JsonReader MessageBroker

variable {Double : Type} {fmt : FixedFormat Double}

/-- What `toString` reads of `amqp_envelope_t`. -/
structure Envelope where
  delivery_tag : UInt64
  consumer_tag : Bytes
  exchange : Bytes
  routing_key : Bytes
  properties : Properties
  body : Bytes
deriving DecidableEq

/-- The member of a flagged string. -/
def flaggedString (key : Bytes) : Option Bytes → List (Bytes × Any Double)
  | some s => [(key, .string s)]
  | none => []

def deliveryMode : Option UInt8 → List (Bytes × Any Double)
  | some x => [(ascii "delivery_mode", .int (Int32.ofNat x.toNat))]
  | none => []

/-- The list `proper`. -/
def proper (p : Properties) : List (Bytes × Any Double) :=
  deliveryMode p.delivery_mode ++ flaggedString (ascii "content_type") p.content_type ++
    flaggedString (ascii "app_id") p.app_id ++ flaggedString (ascii "reply_to") p.reply_to ++
    flaggedString (ascii "correlation_id") p.correlation_id ++
    flaggedString (ascii "message_id") p.message_id ++
    flaggedString (ascii "expiration") p.expiration

def extras (e : Envelope) : List (Bytes × Any Double) :=
  [(ascii "delivery_tag", .unsigned e.delivery_tag.toUInt32),
    (ascii "consumer_tag", .string e.consumer_tag),
    (ascii "exchange", .string e.exchange),
    (ascii "routing_key", .string e.routing_key),
    (ascii "msg-properties", .pairs (proper e.properties)),
    (ascii "message-body", .string e.body)]

/-- `MessageWrapper::toString`. -/
def toString (fmt : FixedFormat Double) (e : Envelope) : Except Exception Bytes :=
  to_string_json fmt (extras e)

def flaggedMember (key : Bytes) : Option Bytes → List (Bytes × Json)
  | some s => [(key, .string s)]
  | none => []

def modeMember : Option UInt8 → List (Bytes × Json)
  | some x => [(ascii "delivery_mode", .number x.toNat 0)]
  | none => []

/-- The flagged properties with their values. -/
def members (p : Properties) : List (Bytes × Json) :=
  modeMember p.delivery_mode ++ flaggedMember (ascii "content_type") p.content_type ++
    flaggedMember (ascii "app_id") p.app_id ++ flaggedMember (ascii "reply_to") p.reply_to ++
    flaggedMember (ascii "correlation_id") p.correlation_id ++
    flaggedMember (ascii "message_id") p.message_id ++
    flaggedMember (ascii "expiration") p.expiration

/-- The members of an object that say what the envelope holds. -/
structure Describes (l : List (Bytes × Json)) (e : Envelope) : Prop where
  delivery_tag : l.lookup (ascii "delivery_tag") = some (.number e.delivery_tag.toNat 0)
  consumer_tag : l.lookup (ascii "consumer_tag") = some (.string e.consumer_tag)
  exchange : l.lookup (ascii "exchange") = some (.string e.exchange)
  routing_key : l.lookup (ascii "routing_key") = some (.string e.routing_key)
  properties : ∃ ps, l.lookup (ascii "msg-properties") = some (.object ps) ∧
    ps.Perm (members e.properties)
  body : l.lookup (ascii "message-body") = some (.string e.body)

/-- The strings of an envelope. -/
def strings (e : Envelope) : List Bytes :=
  [e.consumer_tag, e.exchange, e.routing_key, e.body] ++
    e.properties.content_type.toList ++ e.properties.app_id.toList ++
    e.properties.reply_to.toList ++ e.properties.correlation_id.toList ++
    e.properties.message_id.toList ++ e.properties.expiration.toList

variable {P : Any Double → Prop} {K : Bytes → Prop} {s : Option Bytes} {key : Bytes}

theorem allMembers_append (a b : List (Bytes × Any Double)) :
    AllMembers P K (a ++ b) ↔ AllMembers P K a ∧ AllMembers P K b := by
  induction a with
  | nil => simp [AllMembers]
  | cons it a ih =>
    rw [List.cons_append, AllMembers, AllMembers, ih, and_assoc]

theorem treeMembers_append {a b : List (Bytes × Any Double)} {x y : List (Bytes × Json)}
    (ha : treeMembers a = some x) (hb : treeMembers b = some y) :
    treeMembers (a ++ b) = some (x ++ y) := by
  induction a generalizing x with
  | nil =>
    cases ha
    exact hb
  | cons it a ih =>
    simp only [treeMembers, Option.bind_eq_bind, Option.bind_eq_some_iff] at ha
    obtain ⟨m, hm, x', hx', he⟩ := ha
    cases he
    simp [treeMembers, hm, ih hx']

theorem allMembers_flaggedString (hkey : K key) :
    AllMembers P K (flaggedString key s) ↔ ∀ b ∈ s.toList, P (.string b) := by
  cases s <;> simp [flaggedString, AllMembers, AllMember, All, hkey]

theorem allMembers_deliveryMode (hkey : K (ascii "delivery_mode"))
    (hint : ∀ x, P (.int x)) (x : Option UInt8) : AllMembers P K (deliveryMode x) := by
  cases x <;> simp [deliveryMode, AllMembers, AllMember, All, hkey, hint]

theorem treeMembers_flaggedString (key : Bytes) (s : Option Bytes) :
    treeMembers (flaggedString key s : List (Bytes × Any Double)) =
      some (flaggedMember key s) := by
  cases s <;> rfl

theorem treeMembers_deliveryMode (x : Option UInt8) :
    treeMembers (deliveryMode x : List (Bytes × Any Double)) = some (modeMember x) := by
  cases x with
  | none => rfl
  | some x =>
    have hx : (Int32.ofNat x.toNat).toInt = x.toNat := by
      have hlt : x.toNat < 2 ^ 8 := x.toNat_lt
      exact Int32.toInt_ofNat_of_lt (by omega)
    simp [deliveryMode, modeMember, treeMembers, treeMember, tree, hx]

theorem treeMembers_proper (p : Properties) :
    treeMembers (proper p : List (Bytes × Any Double)) = some (members p) := by
  have hstring : ∀ key s, treeMembers (flaggedString key s : List (Bytes × Any Double)) =
      some (flaggedMember key s) := treeMembers_flaggedString
  exact treeMembers_append (treeMembers_append (treeMembers_append (treeMembers_append
    (treeMembers_append (treeMembers_append (treeMembers_deliveryMode _) (hstring _ _))
      (hstring _ _)) (hstring _ _)) (hstring _ _)) (hstring _ _)) (hstring _ _)

/-- Strings under the keys that `toString` uses. -/
theorem allMembers_proper (hK : ∀ key, PlainKey key → K key) (hint : ∀ x, P (.int x))
    (p : Properties) :
    AllMembers P K (proper p) ↔
      (∀ b ∈ p.content_type.toList, P (.string b)) ∧ (∀ b ∈ p.app_id.toList, P (.string b)) ∧
      (∀ b ∈ p.reply_to.toList, P (.string b)) ∧
      (∀ b ∈ p.correlation_id.toList, P (.string b)) ∧
      (∀ b ∈ p.message_id.toList, P (.string b)) ∧
      ∀ b ∈ p.expiration.toList, P (.string b) := by
  have hmode := allMembers_deliveryMode (hK _ (by decide)) hint p.delivery_mode
  have hstring : ∀ {key : Bytes} (s : Option Bytes), PlainKey key →
      (AllMembers P K (flaggedString key s) ↔ ∀ b ∈ s.toList, P (.string b)) :=
    fun s hkey => allMembers_flaggedString (hK _ hkey)
  have hct : PlainKey (ascii "content_type") := by decide
  have happ : PlainKey (ascii "app_id") := by decide
  have hto : PlainKey (ascii "reply_to") := by decide
  have hcorr : PlainKey (ascii "correlation_id") := by decide
  have hid : PlainKey (ascii "message_id") := by decide
  have hexp : PlainKey (ascii "expiration") := by decide
  simp only [proper, allMembers_append, hmode, hstring _ hct, hstring _ happ, hstring _ hto,
    hstring _ hcorr, hstring _ hid, hstring _ hexp, true_and, and_assoc]

/-- What holds of every number holds of the whole object if it holds of the strings. -/
theorem all_extras (hK : ∀ key, PlainKey key → K key) (hint : ∀ x, P (.int x))
    (hunsigned : ∀ x, P (.unsigned x)) (e : Envelope) :
    All P K (.pairs (extras e)) ↔ ∀ s ∈ strings e, P (.string s) := by
  have htag : K (ascii "delivery_tag") := hK _ (by decide)
  have hconsumer : K (ascii "consumer_tag") := hK _ (by decide)
  have hexchange : K (ascii "exchange") := hK _ (by decide)
  have hrouting : K (ascii "routing_key") := hK _ (by decide)
  have hprop : K (ascii "msg-properties") := hK _ (by decide)
  have hbody : K (ascii "message-body") := hK _ (by decide)
  simp only [All, extras, AllMembers, AllMember, htag, hconsumer, hexchange, hrouting, hprop,
    hbody, hunsigned, allMembers_proper hK hint, true_and, and_true, strings,
    List.forall_mem_append, List.forall_mem_cons, List.not_mem_nil, false_imp_iff, implies_true]
  tauto

/-- The members of the text as they are read back. -/
def printed (e : Envelope) : List (Bytes × Json) :=
  [(ascii "delivery_tag", .number e.delivery_tag.toUInt32.toNat 0),
    (ascii "consumer_tag", .string e.consumer_tag),
    (ascii "exchange", .string e.exchange),
    (ascii "routing_key", .string e.routing_key),
    (ascii "msg-properties", .object (members e.properties)),
    (ascii "message-body", .string e.body)]

theorem treeMembers_extras (e : Envelope) :
    treeMembers (extras e : List (Bytes × Any Double)) = some (printed e) := by
  simp [extras, printed, treeMembers, treeMember, tree, treeMembers_proper]

theorem toString_ok (fmt : FixedFormat Double) (e : Envelope) :
    ∃ text, toString fmt e = .ok text := by
  have heq : toString fmt e = any_visitor fmt .invalid_argument (.pairs (extras e)) := by
    rw [toString, to_string_json, any_visitor]
  have hret := any_visitor_returns fmt (.pairs (extras e)) .invalid_argument
    (fun name => ⟨name, rfl⟩)
  have hreg : All Registered (fun _ => True) (.pairs (extras e) : Any Double) :=
    (all_extras (fun _ _ => trivial) (fun _ => trivial) (fun _ => trivial) e).mpr
      fun _ _ => trivial
  rcases hret with ⟨-, text, ht⟩ | ⟨hn, -⟩
  · exact ⟨text, heq.trans ht⟩
  · exact (hn hreg).elim

theorem describes_printed_iff (e : Envelope) :
    Describes (printed e) e ↔ e.delivery_tag.toNat < 2 ^ 32 := by
  constructor
  · intro h
    have htag : some (Json.number e.delivery_tag.toUInt32.toNat 0) =
        some (.number e.delivery_tag.toNat 0) := h.delivery_tag
    simp only [Option.some_inj, Json.number.injEq, and_true, UInt64.toNat_toUInt32] at htag
    have hlt : e.delivery_tag.toNat % 2 ^ 32 < 2 ^ 32 := Nat.mod_lt _ (by decide)
    omega
  · intro h
    have htag : e.delivery_tag.toUInt32.toNat = e.delivery_tag.toNat := by
      rw [UInt64.toNat_toUInt32]
      omega
    refine ⟨?_, rfl, rfl, rfl, ⟨_, rfl, .refl _⟩, rfl⟩
    change some (Json.number e.delivery_tag.toUInt32.toNat 0) = _
    rw [htag]

/-- The text says what the envelope holds exactly if the delivery tag fits in 32 bits and no string
has a control character in it. -/
theorem toString_describes_iff (fmt : FixedFormat Double) (e : Envelope) :
    (∃ text l, toString fmt e = .ok text ∧ parse text = some (.object l) ∧ Describes l e) ↔
      e.delivery_tag.toNat < 2 ^ 32 ∧ ∀ s ∈ strings e, PlainText s := by
  obtain ⟨text, ht⟩ := toString_ok fmt e
  have hexact : All Exact PlainKey (.pairs (extras e) : Any Double) :=
    (all_extras (fun _ h => h) (fun _ => trivial) (fun _ => trivial) e).mpr fun _ _ => trivial
  have hreadable : All Readable PlainKey (.pairs (extras e) : Any Double) ↔
      ∀ s ∈ strings e, PlainText s :=
    all_extras (fun _ h => h) (fun _ => trivial) (fun _ => trivial) e
  obtain ⟨hparse, hrefuse⟩ := parse_to_string_json hexact ht
  constructor
  · rintro ⟨text', l, ht', hl, hdesc⟩
    obtain rfl : text = text' := Except.ok.inj (ht.symm.trans ht')
    by_cases hr : All Readable PlainKey (.pairs (extras e) : Any Double)
    · obtain ⟨l', hl', hp⟩ := hparse hr
      rw [treeMembers_extras] at hl'
      obtain rfl := Option.some.inj hl'
      obtain rfl : l = printed e := by simpa [hp, eq_comm] using hl
      exact ⟨(describes_printed_iff e).mp hdesc, hreadable.mp hr⟩
    · rw [hrefuse hr] at hl
      contradiction
  · rintro ⟨htag, hplain⟩
    obtain ⟨l, hl, hp⟩ := hparse (hreadable.mpr hplain)
    rw [treeMembers_extras] at hl
    obtain rfl := Option.some.inj hl
    exact ⟨text, printed e, ht, hp, (describes_printed_iff e).mpr htag⟩

/-- A message of two lines. -/
def twoLines : Envelope where
  delivery_tag := 1
  consumer_tag := ascii "rpc-client.1"
  exchange := ascii "business"
  routing_key := ascii "task"
  properties := { content_type := some (ascii "text/plain") }
  body := ascii "one\ntwo"

/-- The newline is printed as it is, which no JSON string may contain. -/
theorem toString_twoLines : ¬∃ text l, toString wholeNumbers twoLines = .ok text ∧
    parse text = some (.object l) ∧ Describes l twoLines := by
  rintro ⟨text, l, ht, hl, -⟩
  have hexact : All Exact PlainKey (.pairs (extras twoLines) : Any Int) :=
    (all_extras (fun _ h => h) (fun _ => trivial) (fun _ => trivial) twoLines).mpr
      fun _ _ => trivial
  have hbody : ¬All Readable PlainKey (.pairs (extras twoLines) : Any Int) := by
    intro h
    have hplain : PlainText twoLines.body :=
      (all_extras (fun _ h => h) (fun _ => trivial) (fun _ => trivial) twoLines).mp h _
        (by simp [strings])
    exact absurd hplain (by decide)
  rw [(parse_to_string_json hexact ht).2 hbody] at hl
  contradiction

end RabbitClient.MessageWrapper
