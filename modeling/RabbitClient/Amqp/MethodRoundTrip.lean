import RabbitClient.Amqp.Framing

/-! Methods are read back as they were written. -/
namespace RabbitClient.Amqp

open Bytes WireBuffer

def argsWire : (fs : List Field) → Args fs → Option Bytes
  | [], _ => some []
  | f :: fs, (v, args) => both (fieldWire f v) (argsWire fs args)

def decodedWire : (fields : Option (List Field)) → Decoded fields → Option Bytes
  | none, _ => none
  | some fs, args => argsWire fs args

/-- The encoding of the arguments of a method. -/
def Method.wire (m : Method) : Option Bytes := decodedWire (methodFields m.id) m.decoded

def ArgsRegular : (fs : List Field) → Args fs → Prop
  | [], _ => True
  | f :: fs, (v, args) => FieldRegular f v ∧ ArgsRegular fs args

def DecodedRegular : (fields : Option (List Field)) → Decoded fields → Prop
  | none, _ => False
  | some fs, args => ArgsRegular fs args

/-- The tables among the arguments can be represented. -/
def Method.Regular (m : Method) : Prop := DecodedRegular (methodFields m.id) m.decoded

theorem emits_args : ∀ (fs : List Field) (args : Args fs), Emits (encodeArgs fs args) (argsWire fs args)
  | [], _ => Emits.pure
  | f :: fs, (v, args) => (emits_encodeField f v).bind (emits_args fs args)

theorem emits_decoded : ∀ (fields : Option (List Field)) (decoded : Decoded fields),
    Emits (encodeDecoded fields decoded) (decodedWire fields decoded)
  | none, _ => emits_fail _
  | some fs, args => emits_args fs args

theorem emits_method (m : Method) : Emits (amqp_encode_method m) m.wire :=
  emits_decoded (methodFields m.id) m.decoded

theorem reads_args {fs : List Field} {args : Args fs} {b : Bytes} (hb : argsWire fs args = some b)
    (h : ArgsRegular fs args) (hlen : b.length < 2 ^ 32) : Reads (decodeArgs fs) b args := by
  induction fs generalizing b with
  | nil =>
    cases hb
    exact reads_pure _
  | cons f fs ih =>
    obtain ⟨v, args⟩ := args
    obtain ⟨a, c, ha, hc, rfl⟩ := both_eq_some.mp hb
    rw [List.length_append] at hlen
    have hfield := reads_decodeField ha h.1 (by omega)
    exact hfield.bind ((ih hc h.2 (by omega)).map (Prod.mk v))

theorem reads_decoded {fields : Option (List Field)} {decoded : Decoded fields} {b : Bytes}
    (hb : decodedWire fields decoded = some b) (h : DecodedRegular fields decoded)
    (hlen : b.length < 2 ^ 32) : Reads (decodeDecoded fields) b decoded := by
  cases fields with
  | none => exact h.elim
  | some fs => exact reads_args hb h hlen

theorem reads_method {m : Method} {b : Bytes} (hb : m.wire = some b) (h : m.Regular)
    (hlen : b.length < 2 ^ 32) : Reads (amqp_decode_method m.id) b m :=
  (reads_decoded hb h hlen).map (Method.mk m.id)

theorem consumes_args (fs : List Field) : Consumes (decodeArgs fs) := by
  induction fs with
  | nil => exact consumes_pure _
  | cons f fs ih => exact (consumes_decodeField f).bind fun v => ih.map (Prod.mk v)

theorem consumes_decoded (fields : Option (List Field)) : Consumes (decodeDecoded fields) := by
  cases fields with
  | none => exact consumes_throw _
  | some fs => exact consumes_args fs

theorem consumes_method (id : UInt32) : Consumes (amqp_decode_method id) :=
  (consumes_decoded (methodFields id)).map (Method.mk id)

theorem yields_args (fs : List Field) : Yields (decodeArgs fs) (ArgsRegular fs) := by
  induction fs with
  | nil => exact yields_pure trivial
  | cons f fs ih =>
    exact (yields_decodeField f).bind fun v hv => ih.map fun args hargs => ⟨hv, hargs⟩

theorem yields_decoded (fields : Option (List Field)) :
    Yields (decodeDecoded fields) (DecodedRegular fields) := by
  cases fields with
  | none => exact yields_throw _ _
  | some fs => exact yields_args fs

theorem yields_method (id : UInt32) :
    Yields (amqp_decode_method id) fun m => m.id = id ∧ m.Regular :=
  (yields_decoded (methodFields id)).map fun _ h => ⟨rfl, h⟩

/-- A method that fits into a buffer is read back from what was written, exactly if the tables in it
can be represented; the bytes behind it do not matter. -/
theorem method_round_trip {m : Method} {s s' : Out} (hoff : s.offset ≤ s.encoded.length)
    (hlen : s.encoded.length < 2 ^ 32) (h : amqp_encode_method m s = .ok ((), s')) :
    amqp_decode_method m.id s'.encoded s.offset = .ok (m, s'.offset) ↔ m.Regular := by
  obtain ⟨b, hb, hfit, rfl⟩ := (emits_method m).eq_ok h
  constructor
  · intro hdec
    exact (yields_method m.id _ _ _ _ hdec).2
  · intro hreg
    have hle := hfit.length_le
    exact reads_method hb hreg (by omega) _ _ (holds_store hoff)

/-- A declaration of an exchange of the name `e` and the type `t`, durable and with an argument. -/
def declareMethod : Method :=
  methodOf AMQP_EXCHANGE_DECLARE_METHOD (rfl : _ = some amqp_exchange_declare_t)
    (0, ([101] : Bytes), ([116] : Bytes), (fun i => i.val = 1), ([⟨[107], .void⟩] : Table), ())

def declareBytes : Bytes := [0, 0, 1, 101, 1, 116, 2, 0, 0, 0, 3, 1, 107, 86]

theorem declareMethod_regular : declareMethod.Regular := by
  have hargs : Table.Regular [⟨[107], .void⟩] := by
    simp [Table.Regular, tableRegular, FieldValue.Regular]
  exact ⟨trivial, trivial, trivial, trivial, hargs, trivial⟩

theorem method_round_trip_declare :
    amqp_decode_method AMQP_EXCHANGE_DECLARE_METHOD declareBytes 0 = .ok (declareMethod, 14) := by
  have h : amqp_encode_method declareMethod ⟨List.replicate 14 0, 0⟩ =
      .ok ((), ⟨declareBytes, 14⟩) := rfl
  exact (method_round_trip (Nat.zero_le _) (by decide) h).mpr declareMethod_regular

/-- No method reads beyond the buffer, or looks at what stands behind or before it. -/
theorem amqp_decode_method_local {id : UInt32} {m : Method} {encoded encoded₂ : Bytes}
    {offset offset' offset₂ : Nat} (ho : offset ≤ encoded.length)
    (h : amqp_decode_method id encoded offset = .ok (m, offset')) :
    offset ≤ offset' ∧ offset' ≤ encoded.length ∧
      (Holds encoded₂ offset₂ ((encoded.drop offset).take (offset' - offset)) →
        amqp_decode_method id encoded₂ offset₂ = .ok (m, offset₂ + (offset' - offset))) :=
  (consumes_method id).moved ho h

theorem amqp_decode_method_local_declare :
    amqp_decode_method AMQP_EXCHANGE_DECLARE_METHOD (9 :: declareBytes ++ [8]) 1 =
      .ok (declareMethod, 15) := by
  have h : amqp_decode_method AMQP_EXCHANGE_DECLARE_METHOD declareBytes 0 =
      .ok (declareMethod, 14) :=
    reads_method (b := declareBytes) rfl declareMethod_regular (by decide) declareBytes 0
      ⟨[], [], rfl, rfl⟩
  exact (amqp_decode_method_local (by decide) h).2.2 ⟨[9], [8], rfl, rfl⟩

end RabbitClient.Amqp
