import RabbitClient.Amqp.FieldTable

/-! The format of field tables, and that it is what the encoder writes and the decoder reads. -/
namespace RabbitClient.Amqp

open Bytes WireBuffer

/-- A kind and what stands behind it. -/
def tagged (k : FieldKind) (payload : Option Bytes) : Option Bytes :=
  both (some (bigEndian 1 k.code.toNat)) payload

/-- A size and the bytes it counts. -/
def counted (w : Option Bytes) : Option Bytes := w.map fun b => bigEndian 4 b.length ++ b

/-- A string behind `n` bytes for its length. -/
def lengthPrefixed (n : Nat) (b : Bytes) : Bytes := bigEndian n b.length ++ b

mutual

/-- The encoding of a value; a value of an unknown kind has none. -/
def FieldValue.wire : FieldValue → Option Bytes
  | .boolean b => tagged .BOOLEAN (some (bigEndian 1 (if b then 1 else 0)))
  | .i8 v => tagged .I8 (some (bigEndian 1 v.toUInt8.toNat))
  | .u8 v => tagged .U8 (some (bigEndian 1 v.toNat))
  | .i16 v => tagged .I16 (some (bigEndian 2 v.toUInt16.toNat))
  | .u16 v => tagged .U16 (some (bigEndian 2 v.toNat))
  | .i32 v => tagged .I32 (some (bigEndian 4 v.toUInt32.toNat))
  | .u32 v => tagged .U32 (some (bigEndian 4 v.toNat))
  | .i64 v => tagged .I64 (some (bigEndian 8 v.toUInt64.toNat))
  | .u64 v => tagged .U64 (some (bigEndian 8 v.toNat))
  | .f32 bits => tagged .F32 (some (bigEndian 4 bits.toNat))
  | .f64 bits => tagged .F64 (some (bigEndian 8 bits.toNat))
  | .decimal decimals value =>
    tagged .DECIMAL (some (bigEndian 1 decimals.toNat ++ bigEndian 4 value.toNat))
  | .utf8 b => tagged .UTF8 (some (lengthPrefixed 4 b))
  | .array entries => tagged .ARRAY (counted (arrayWire entries))
  | .timestamp v => tagged .TIMESTAMP (some (bigEndian 8 v.toNat))
  | .table entries => tagged .TABLE (counted (tableWire entries))
  | .void => tagged .VOID (some [])
  | .bytes b => tagged .BYTES (some (lengthPrefixed 4 b))
  | .other _ _ => none

def arrayWire : List FieldValue → Option Bytes
  | [] => some []
  | value :: entries => both value.wire (arrayWire entries)

def tableWire : List TableEntry → Option Bytes
  | [] => some []
  | ⟨key, value⟩ :: entries =>
    both (both (some (lengthPrefixed 1 key)) value.wire) (tableWire entries)

end

def Table.wire (t : Table) : Option Bytes := counted (tableWire t)

theorem emits_ofKind (k : FieldKind) {e : Encoder Status Unit} {w : Option Bytes}
    (h : Emits e w) : Emits (ofKind k.code e) (tagged k w) := ((emits_8 _).orReturn _).bind h

theorem emits_sized {e : Encoder Status Unit} {w : Option Bytes} (h : Emits e w) :
    Emits (sized e) (counted w) := h.backfill (length_bigEndian 4) (by omega)

/-- The conversion of a length to an integer of the machine keeps the bytes that are written. -/
theorem bigEndian_ofNat_8 (v : Nat) : bigEndian 1 (UInt8.ofNat v).toNat = bigEndian 1 v := by
  rw [UInt8.toNat_ofNat']
  exact bigEndian_mod 1 v

theorem bigEndian_ofNat_32 (v : Nat) : bigEndian 4 (UInt32.ofNat v).toNat = bigEndian 4 v := by
  rw [UInt32.toNat_ofNat']
  exact bigEndian_mod 4 v

theorem emits_longstr (b : Bytes) :
    Emits (do amqp_encode_32 (.ofNat b.length); amqp_encode_bytes b) (some (lengthPrefixed 4 b)) := by
  have h := (emits_32 (.ofNat b.length)).bind (emits_bytes b)
  rwa [bigEndian_ofNat_32] at h

mutual

theorem emits_field_value : ∀ v : FieldValue, Emits (amqp_encode_field_value v) v.wire
  | .boolean b => by
    have h := emits_8 (if b then 1 else 0)
    cases b <;> exact emits_ofKind .BOOLEAN (h.orReturn _)
  | .i8 _ => emits_ofKind .I8 ((emits_8 _).orReturn _)
  | .u8 _ => emits_ofKind .U8 ((emits_8 _).orReturn _)
  | .i16 _ => emits_ofKind .I16 ((emits_16 _).orReturn _)
  | .u16 _ => emits_ofKind .U16 ((emits_16 _).orReturn _)
  | .i32 _ => emits_ofKind .I32 ((emits_32 _).orReturn _)
  | .u32 _ => emits_ofKind .U32 ((emits_32 _).orReturn _)
  | .i64 _ => emits_ofKind .I64 ((emits_64 _).orReturn _)
  | .u64 _ => emits_ofKind .U64 ((emits_64 _).orReturn _)
  | .f32 _ => emits_ofKind .F32 ((emits_32 _).orReturn _)
  | .f64 _ => emits_ofKind .F64 ((emits_64 _).orReturn _)
  | .decimal _ _ => emits_ofKind .DECIMAL (((emits_8 _).bind (emits_32 _)).orReturn _)
  | .utf8 b => emits_ofKind .UTF8 ((emits_longstr b).orReturn _)
  | .array entries => emits_ofKind .ARRAY (emits_sized (emits_array_entries entries))
  | .timestamp _ => emits_ofKind .TIMESTAMP ((emits_64 _).orReturn _)
  | .table entries => emits_ofKind .TABLE (emits_sized (emits_table_entries entries))
  | .void => emits_ofKind .VOID Emits.pure
  | .bytes b => emits_ofKind .BYTES ((emits_longstr b).orReturn _)
  | .other kind _ => ((emits_8 kind).orReturn _).bind (emits_fail _)

theorem emits_array_entries : ∀ entries, Emits (encodeArrayEntries entries) (arrayWire entries)
  | [] => Emits.pure
  | value :: entries => (emits_field_value value).bind (emits_array_entries entries)

theorem emits_table_entries : ∀ entries, Emits (encodeTableEntries entries) (tableWire entries)
  | [] => Emits.pure
  | ⟨key, value⟩ :: entries => by
    have h := ((emits_8 (.ofNat key.length)).orReturn Status.AMQP_STATUS_TABLE_TOO_BIG).bind
      (((emits_bytes key).orReturn Status.AMQP_STATUS_TABLE_TOO_BIG).bind
        ((emits_field_value value).bind (emits_table_entries entries)))
    rw [bigEndian_ofNat_8, ← both_assoc, ← both_assoc] at h
    exact h

end

theorem emits_table (t : Table) : Emits (amqp_encode_table t) t.wire :=
  emits_sized (emits_table_entries t)

mutual

/-- What the format can represent: known kinds, and keys whose length fits its byte. -/
def FieldValue.Regular : FieldValue → Prop
  | .array entries => arrayRegular entries
  | .table entries => tableRegular entries
  | .other _ _ => False
  | _ => True

def arrayRegular : List FieldValue → Prop
  | [] => True
  | value :: entries => value.Regular ∧ arrayRegular entries

def tableRegular : List TableEntry → Prop
  | [] => True
  | ⟨key, value⟩ :: entries => (key.length ≤ 255 ∧ value.Regular) ∧ tableRegular entries

end

def Table.Regular (t : Table) : Prop := tableRegular t

theorem tagged_eq_some {k : FieldKind} {w : Option Bytes} {b : Bytes} :
    tagged k w = some b ↔ ∃ p, w = some p ∧ bigEndian 1 k.code.toNat ++ p = b := by
  simp [tagged, both_eq_some]

theorem counted_eq_some {w : Option Bytes} {b : Bytes} :
    counted w = some b ↔ ∃ c, w = some c ∧ bigEndian 4 c.length ++ c = b := by
  simp [counted]

theorem wire_ne_nil {v : FieldValue} {b : Bytes} (h : v.wire = some b) : b ≠ [] := by
  have htag : ∀ {k : FieldKind} {w : Option Bytes}, tagged k w = some b → b ≠ [] := by
    intro k w hb hnil
    obtain ⟨p, -, rfl⟩ := tagged_eq_some.mp hb
    exact bigEndian_ne_nil (by omega) (List.append_eq_nil_iff.mp hnil).1
  cases v with
  | other kind hk => simp [FieldValue.wire] at h
  | _ => exact htag h

theorem reads_field {α : Type} {val : Decoder Unit α} {b : Bytes} {x : α} (h : Reads val b x)
    (dest : α → FieldValue) : Reads (FIELD_DECODER val dest) b (dest x) := (h.orReturn _).map dest

theorem reads_longstr {b : Bytes} (h : b.length < 2 ^ 32) :
    Reads (amqp_decode_32 >>= fun len => amqp_decode_bytes len.toNat) (lengthPrefixed 4 b) b := by
  have hlen : (UInt32.ofNat b.length).toNat = b.length := UInt32.toNat_ofNat_of_lt' h
  have hr := reads_32 (.ofNat b.length)
  have hb := reads_bytes b
  rw [hlen] at hr
  rw [← hlen] at hb
  exact hr.bind (f := fun len => amqp_decode_bytes len.toNat) hb

theorem reads_shortstr {b : Bytes} (h : b.length ≤ 255) :
    Reads (amqp_decode_8 >>= fun len => amqp_decode_bytes len.toNat) (lengthPrefixed 1 b) b := by
  have hlen : (UInt8.ofNat b.length).toNat = b.length := UInt8.toNat_ofNat_of_lt' (by
    change b.length < 256
    omega)
  have hr := reads_8 (.ofNat b.length)
  have hb := reads_bytes b
  rw [hlen] at hr
  rw [← hlen] at hb
  exact hr.bind (f := fun len => amqp_decode_bytes len.toNat) hb

theorem reads_decimal (decimals : UInt8) (value : UInt32) :
    Reads decodeDecimal (bigEndian 1 decimals.toNat ++ bigEndian 4 value.toNat)
      (decimals, value) :=
  (reads_8 decimals).bind ((reads_32 value).map (Prod.mk decimals))

/-- Elements that end where the size in front of them says are read as the list of them. -/
theorem reads_sized {α : Type} {element : Decoder Status α} {b : Bytes} {xs : List α}
    (h : ReadsList element b xs) (hlen : b.length < 2 ^ 32) :
    Reads (decodeSized element) (bigEndian 4 b.length ++ b) xs := by
  have hsize : (UInt32.ofNat b.length).toNat = b.length := UInt32.toNat_ofNat_of_lt' hlen
  have hr := (reads_32 (.ofNat b.length)).orReturn Status.AMQP_STATUS_BAD_AMQP_DATA
  rw [hsize] at hr
  refine hr.bind ?_
  intro encoded offset hb
  have hle := hb.le
  rw [hsize]
  change decodeElements element b.length encoded offset = _
  rw [decodeElements, if_neg (by omega)]
  exact h encoded offset _ hb (Nat.le_refl _)

theorem reads_entry {value : Decoder Status FieldValue} {key b : Bytes} {v : FieldValue}
    (hkey : key.length ≤ 255) (h : Reads value b v) :
    Reads (decodeTableEntry value) (lengthPrefixed 1 key ++ b) ⟨key, v⟩ := by
  have hlen : (UInt8.ofNat key.length).toNat = key.length := UInt8.toNat_ofNat_of_lt' (by
    change key.length < 256
    omega)
  have hr := (reads_8 (.ofNat key.length)).orReturn Status.AMQP_STATUS_BAD_AMQP_DATA
  have hb := (reads_bytes key).orReturn Status.AMQP_STATUS_BAD_AMQP_DATA
  rw [hlen] at hr
  rw [← hlen] at hb
  rw [lengthPrefixed, List.append_assoc]
  exact hr.bind (hb.bind (h.map (TableEntry.mk key)))

/-- The kind leads to the decoder of the member. -/
theorem reads_tagged {k : FieldKind} {w : Option Bytes} {b : Bytes} {v : FieldValue} {depth : Nat}
    (hb : tagged k w = some b) (hdepth : b.length ≤ depth)
    (h : ∀ p d, w = some p → p.length < b.length → p.length ≤ d →
      Reads (decodeMember (amqp_decode_field_value d) (some k)) p v) :
    Reads (amqp_decode_field_value depth) b v := by
  obtain ⟨p, hp, rfl⟩ := tagged_eq_some.mp hb
  rw [List.length_append, length_bigEndian] at hdepth
  obtain ⟨d, rfl⟩ : ∃ d, depth = d + 1 := ⟨depth - 1, by omega⟩
  have hmember := h p d hp (by simp) (by omega)
  have hkind := (reads_8 k.code).orReturn Status.AMQP_STATUS_BAD_AMQP_DATA
  refine hkind.bind ?_
  rw [FieldKind.ofCode_code]
  exact hmember

/-- A member whose encoding does not contain other values. -/
theorem reads_scalar {k : FieldKind} {b c : Bytes} {v : FieldValue} {depth : Nat}
    (hb : tagged k (some c) = some b) (hdepth : b.length ≤ depth)
    (h : ∀ value, c.length < b.length → Reads (decodeMember value (some k)) c v) :
    Reads (amqp_decode_field_value depth) b v := by
  apply reads_tagged hb hdepth
  rintro p d ⟨rfl⟩ hlt -
  exact h _ hlt

mutual

theorem reads_field_value : ∀ (v : FieldValue) (b : Bytes) (depth : Nat), v.wire = some b →
    v.Regular → b.length < 2 ^ 32 → b.length ≤ depth → Reads (amqp_decode_field_value depth) b v
  | .boolean x, b, depth, hb, _, _, hd => reads_scalar hb hd fun _ _ => by
      have h := reads_field (reads_8 (if x then 1 else 0)) fun val => .boolean (val ≠ 0)
      cases x <;> exact h
  | .i8 v, b, depth, hb, _, _, hd => reads_scalar hb hd fun _ _ =>
      reads_field (reads_8 v.toUInt8) fun val => .i8 val.toInt8
  | .u8 v, b, depth, hb, _, _, hd => reads_scalar hb hd fun _ _ => reads_field (reads_8 v) .u8
  | .i16 v, b, depth, hb, _, _, hd => reads_scalar hb hd fun _ _ =>
      reads_field (reads_16 v.toUInt16) fun val => .i16 val.toInt16
  | .u16 v, b, depth, hb, _, _, hd => reads_scalar hb hd fun _ _ => reads_field (reads_16 v) .u16
  | .i32 v, b, depth, hb, _, _, hd => reads_scalar hb hd fun _ _ =>
      reads_field (reads_32 v.toUInt32) fun val => .i32 val.toInt32
  | .u32 v, b, depth, hb, _, _, hd => reads_scalar hb hd fun _ _ => reads_field (reads_32 v) .u32
  | .i64 v, b, depth, hb, _, _, hd => reads_scalar hb hd fun _ _ =>
      reads_field (reads_64 v.toUInt64) fun val => .i64 val.toInt64
  | .u64 v, b, depth, hb, _, _, hd => reads_scalar hb hd fun _ _ => reads_field (reads_64 v) .u64
  | .f32 v, b, depth, hb, _, _, hd => reads_scalar hb hd fun _ _ => reads_field (reads_32 v) .f32
  | .f64 v, b, depth, hb, _, _, hd => reads_scalar hb hd fun _ _ => reads_field (reads_64 v) .f64
  | .decimal decimals value, b, depth, hb, _, _, hd => reads_scalar hb hd fun _ _ =>
      reads_field (reads_decimal decimals value) fun p => .decimal p.1 p.2
  | .utf8 s, b, depth, hb, _, hlen, hd => reads_scalar hb hd fun _ hlt => by
      rw [lengthPrefixed, List.length_append] at hlt
      exact reads_field (reads_longstr (by omega)) .utf8
  | .array entries, b, depth, hb, hreg, hlen, hd => by
      apply reads_tagged hb hd
      intro p d hp hlt hpd
      obtain ⟨c, hc, rfl⟩ := counted_eq_some.mp hp
      rw [List.length_append] at hlt hpd
      have hlist := reads_array entries c d hc hreg (by omega) (by omega)
      exact (reads_sized hlist (by omega)).map FieldValue.array
  | .timestamp v, b, depth, hb, _, _, hd => reads_scalar hb hd fun _ _ =>
      reads_field (reads_64 v) .timestamp
  | .table entries, b, depth, hb, hreg, hlen, hd => by
      apply reads_tagged hb hd
      intro p d hp hlt hpd
      obtain ⟨c, hc, rfl⟩ := counted_eq_some.mp hp
      rw [List.length_append] at hlt hpd
      have hlist := reads_entries entries c d hc hreg (by omega) (by omega)
      exact (reads_sized hlist (by omega)).map FieldValue.table
  | .void, b, depth, hb, _, _, hd => reads_scalar hb hd fun _ _ => reads_pure FieldValue.void
  | .bytes s, b, depth, hb, _, hlen, hd => reads_scalar hb hd fun _ hlt => by
      rw [lengthPrefixed, List.length_append] at hlt
      exact reads_field (reads_longstr (by omega)) .bytes
  | .other _ _, _, _, _, hreg, _, _ => hreg.elim

theorem reads_array : ∀ (entries : List FieldValue) (b : Bytes) (depth : Nat),
    arrayWire entries = some b → arrayRegular entries → b.length < 2 ^ 32 → b.length ≤ depth →
    ReadsList (amqp_decode_field_value depth) b entries
  | [], b, depth, hb, _, _, _ => by
      cases hb
      exact readsList_nil _
  | value :: entries, b, depth, hb, hreg, hlen, hd => by
      obtain ⟨a, c, ha, hc, rfl⟩ := both_eq_some.mp hb
      rw [List.length_append] at hlen hd
      have hvalue := reads_field_value value a depth ha hreg.1 (by omega) (by omega)
      have hrest := reads_array entries c depth hc hreg.2 (by omega) (by omega)
      exact hrest.cons hvalue (wire_ne_nil ha)

theorem reads_entries : ∀ (entries : List TableEntry) (b : Bytes) (depth : Nat),
    tableWire entries = some b → tableRegular entries → b.length < 2 ^ 32 → b.length ≤ depth →
    ReadsList (decodeTableEntry (amqp_decode_field_value depth)) b entries
  | [], b, depth, hb, _, _, _ => by
      cases hb
      exact readsList_nil _
  | ⟨key, value⟩ :: entries, b, depth, hb, hreg, hlen, hd => by
      obtain ⟨_, c, hentry, hc, rfl⟩ := both_eq_some.mp hb
      obtain ⟨_, a, ⟨rfl⟩, ha, rfl⟩ := both_eq_some.mp hentry
      rw [List.length_append, List.length_append] at hlen hd
      have hvalue := reads_field_value value a depth ha hreg.1.2 (by omega) (by omega)
      have hrest := reads_entries entries c depth hc hreg.2 (by omega) (by omega)
      refine hrest.cons (reads_entry hreg.1.1 hvalue) ?_
      intro hnil
      exact wire_ne_nil ha (List.append_eq_nil_iff.mp hnil).2

end

end RabbitClient.Amqp
