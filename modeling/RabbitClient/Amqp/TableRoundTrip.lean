import RabbitClient.Amqp.TableDecoding

/-! Field tables from one buffer to another. -/
namespace RabbitClient.Amqp

open Bytes WireBuffer

variable {t : Table} {s s' : Out} {encoded encoded₂ : Bytes} {offset offset' offset₂ : Nat}

theorem Table.wire_ne_nil {b : Bytes} (h : t.wire = some b) : b ≠ [] := by
  obtain ⟨c, -, rfl⟩ := counted_eq_some.mp h
  intro hnil
  exact bigEndian_ne_nil (by omega) (List.append_eq_nil_iff.mp hnil).1

/-- A table is written if it has an encoding and there is room for it; nothing else in the buffer
changes. -/
theorem amqp_encode_table_eq_ok : amqp_encode_table t s = .ok ((), s') ↔
    ∃ b, t.wire = some b ∧ s.offset + b.length ≤ s.encoded.length ∧
      s'.encoded = s.encoded.take s.offset ++ (b ++ s.encoded.drop (s.offset + b.length)) ∧
      s'.offset = s.offset + b.length := by
  constructor
  · intro h
    obtain ⟨b, hb, hfit, rfl⟩ := (emits_table t).eq_ok h
    exact ⟨b, hb, hfit.resolve_left (Table.wire_ne_nil hb), rfl, rfl⟩
  · rintro ⟨b, hb, hfit, he, ho⟩
    rw [(emits_table t).ok s b hb (.inr hfit)]
    obtain ⟨encoded, offset⟩ := s'
    cases he
    cases ho
    rfl

theorem reads_table {b : Bytes} (hb : t.wire = some b) (h : t.Regular) (hlen : b.length < 2 ^ 32) :
    Reads amqp_decode_table b t := by
  intro encoded offset hh
  obtain ⟨c, hc, rfl⟩ := counted_eq_some.mp hb
  have hle := hh.le
  rw [List.length_append] at hlen hle
  exact reads_sized (reads_entries t c _ hc h (by omega) (by omega)) (by omega) encoded offset hh

/-- A table that was written into a frame is read back from it as it was, exactly if no key in it
is longer than its length byte can tell. -/
theorem table_round_trip (hoff : s.offset ≤ s.encoded.length) (hlen : s.encoded.length < 2 ^ 32)
    (h : amqp_encode_table t s = .ok ((), s')) :
    amqp_decode_table s'.encoded s.offset = .ok (t, s'.offset) ↔ t.Regular := by
  obtain ⟨b, hb, hfit, he, ho⟩ := amqp_encode_table_eq_ok.mp h
  constructor
  · exact yields_table s'.encoded s.offset t s'.offset
  · intro hreg
    rw [he, ho]
    exact reads_table hb hreg (by omega) _ _ (holds_store hoff)

/-- A table with a table and an array in it, and its encoding. -/
def nestedTable : Table := [⟨[97], .table [⟨[98], .boolean true⟩]⟩, ⟨[99], .array [.u8 7, .void]⟩]

def nestedBytes : Bytes :=
  [0, 0, 0, 21, 1, 97, 70, 0, 0, 0, 4, 1, 98, 116, 1, 1, 99, 65, 0, 0, 0, 3, 66, 7, 86]

theorem table_round_trip_nested : amqp_decode_table nestedBytes 0 = .ok (nestedTable, 25) := by
  have h : amqp_encode_table nestedTable ⟨List.replicate 25 0, 0⟩ = .ok ((), ⟨nestedBytes, 25⟩) :=
    rfl
  refine (table_round_trip (Nat.zero_le _) (by decide) h).mpr ?_
  simp [nestedTable, Table.Regular, tableRegular, arrayRegular, FieldValue.Regular]

/-- What was accepted once, of whatever bytes, is kept by every further hop. -/
theorem decoded_table_round_trip (hdec : amqp_decode_table encoded offset = .ok (t, offset'))
    (hoff : s.offset ≤ s.encoded.length) (hlen : s.encoded.length < 2 ^ 32) :
    ∃ b, t.wire = some b ∧ (s.offset + b.length ≤ s.encoded.length →
      ∃ s', amqp_encode_table t s = .ok ((), s') ∧
        amqp_decode_table s'.encoded s.offset = .ok (t, s'.offset)) := by
  have hreg := yields_table encoded offset t offset' hdec
  obtain ⟨c, hc⟩ := exists_tableWire t hreg
  have hb : t.wire = some (bigEndian 4 c.length ++ c) := counted_eq_some.mpr ⟨c, hc, rfl⟩
  refine ⟨_, hb, fun hfit => ?_⟩
  have henc : amqp_encode_table t s = .ok ((), s.put (bigEndian 4 c.length ++ c)) :=
    amqp_encode_table_eq_ok.mpr ⟨_, hb, hfit, rfl, rfl⟩
  exact ⟨_, henc, (reads_table hb hreg (by omega)) _ _ (holds_store hoff)⟩

theorem decoded_table_round_trip_nested :
    ∃ b, Table.wire nestedTable = some b ∧ (0 + b.length ≤ 30 →
      ∃ s', amqp_encode_table nestedTable ⟨List.replicate 30 0, 0⟩ = .ok ((), s') ∧
        amqp_decode_table s'.encoded 0 = .ok (nestedTable, s'.offset)) := by
  have h : amqp_decode_table nestedBytes 0 = .ok (nestedTable, 25) := rfl
  exact decoded_table_round_trip (s := ⟨List.replicate 30 0, 0⟩) h (Nat.zero_le _) (by decide)

/-- The decoder looks at the bytes of the table only: it stays inside the buffer, and finds the
same table wherever the same bytes stand. -/
theorem amqp_decode_table_local (ho : offset ≤ encoded.length)
    (h : amqp_decode_table encoded offset = .ok (t, offset')) :
    offset ≤ offset' ∧ offset' ≤ encoded.length ∧
      (Holds encoded₂ offset₂ ((encoded.drop offset).take (offset' - offset)) →
        amqp_decode_table encoded₂ offset₂ = .ok (t, offset₂ + (offset' - offset))) :=
  consumes_table.moved ho h

theorem amqp_decode_table_local_nested :
    amqp_decode_table (9 :: nestedBytes ++ [8]) 1 = .ok (nestedTable, 26) := by
  have h : amqp_decode_table nestedBytes 0 = .ok (nestedTable, 25) := rfl
  exact (amqp_decode_table_local (by decide) h).2.2 ⟨[9], [8], rfl, rfl⟩

end RabbitClient.Amqp
