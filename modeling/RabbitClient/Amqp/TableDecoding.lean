import RabbitClient.Amqp.TableFormat

/-!
What the table decoder accepts, of whatever bytes: it stays inside the buffer, it is bounded by
its length, and it gives tables that can be encoded again.
-/
namespace RabbitClient.Amqp

open Bytes WireBuffer

variable {value value' : Decoder Status FieldValue} {k : Nat}

theorem consumes_elements {α : Type} {element : Decoder Status α} (hc : Consumes element)
    (ha : Advances element) (size : Nat) : Consumes (decodeElements element size) := by
  intro encoded offset xs offset' ho h
  rw [decodeElements] at h
  split at h
  · cases h
  · obtain ⟨b, hb, rfl, hend, hr⟩ := whileBelow_consumes hc ha ho h (Nat.le_refl _)
    refine ⟨b, hb, rfl, ?_⟩
    intro buf₂ o₂ hb₂
    have hle := hb₂.le
    rw [decodeElements, if_neg (by omega)]
    exact hr buf₂ o₂ size _ hb₂ (by omega) (Nat.le_refl _)

/-- The loop ends because of its condition; more rounds make no difference. -/
theorem decodeElements_rounds {α : Type} {element : Decoder Status α} (hc : Consumes element)
    (ha : Advances element) {size rounds : Nat} {encoded : Bytes} {offset : Nat}
    (hfit : size + offset ≤ encoded.length) (h : size ≤ rounds) :
    decodeElements element size encoded offset =
      whileBelow (offset + size) element rounds encoded offset := by
  rw [decodeElements, if_neg (by omega)]
  induction rounds, h using Nat.le_induction with
  | base => rfl
  | succ rounds h ih =>
    rw [ih]
    exact whileBelow_succ hc ha (by omega) (by omega)

theorem consumes_sized {α : Type} {element : Decoder Status α} (hc : Consumes element)
    (ha : Advances element) : Consumes (decodeSized element) :=
  (consumes_32.orReturn _).bind fun size => consumes_elements hc ha size.toNat

theorem consumes_entry (h : Consumes value) : Consumes (decodeTableEntry value) :=
  (consumes_8.orReturn _).bind fun keylen =>
    ((consumes_bytes keylen.toNat).orReturn _).bind fun key => h.map (TableEntry.mk key)

theorem advances_entry (h : Consumes value) : Advances (decodeTableEntry value) :=
  (advances_8.orReturn _).bind (consumes_8.orReturn _) fun keylen =>
    ((consumes_bytes keylen.toNat).orReturn _).bind fun key => h.map (TableEntry.mk key)

theorem consumes_field {α : Type} {val : Decoder Unit α} (h : Consumes val)
    (dest : α → FieldValue) : Consumes (FIELD_DECODER val dest) := (h.orReturn _).map dest

theorem consumes_longstr :
    Consumes (amqp_decode_32 >>= fun len => amqp_decode_bytes len.toNat) :=
  consumes_32.bind fun len => consumes_bytes len.toNat

theorem consumes_member (hc : Consumes value) (ha : Advances value) (kind : Option FieldKind) :
    Consumes (decodeMember value kind) := by
  cases kind with
  | none => exact consumes_throw _
  | some kind =>
    cases kind with
    | BOOLEAN | I8 | U8 => exact consumes_field consumes_8 _
    | I16 | U16 => exact consumes_field consumes_16 _
    | I32 | U32 | F32 => exact consumes_field consumes_32 _
    | I64 | U64 | F64 | TIMESTAMP => exact consumes_field consumes_64 _
    | DECIMAL => exact consumes_field (consumes_8.bind fun d => consumes_32.map (Prod.mk d)) _
    | UTF8 | BYTES => exact consumes_field consumes_longstr _
    | ARRAY => exact (consumes_sized hc ha).map _
    | TABLE => exact (consumes_sized (consumes_entry hc) (advances_entry hc)).map _
    | VOID => exact consumes_pure _

theorem field_value_consumes (depth : Nat) :
    Consumes (amqp_decode_field_value depth) ∧ Advances (amqp_decode_field_value depth) := by
  induction depth with
  | zero =>
    refine ⟨consumes_throw _, ?_⟩
    rintro encoded offset v offset' _ ⟨⟩
  | succ depth ih =>
    have hmember := consumes_member ih.1 ih.2
    exact ⟨(consumes_8.orReturn _).bind fun kind => hmember (FieldKind.ofCode kind),
      (advances_8.orReturn _).bind (consumes_8.orReturn _) fun kind =>
        hmember (FieldKind.ofCode kind)⟩

theorem consumes_entries (depth : Nat) :
    Consumes (decodeSized (decodeTableEntry (amqp_decode_field_value depth))) :=
  consumes_sized (consumes_entry (field_value_consumes depth).1)
    (advances_entry (field_value_consumes depth).1)

theorem budget_sized {α : Type} {d d' : Decoder Status α} (hc : Consumes d) (h : Budget k d d') :
    Budget k (decodeSized d) (decodeSized d') := by
  refine (Budget.bind_left (consumes_32.orReturn _)) fun size => ?_
  intro encoded offset ho
  rw [decodeElements, decodeElements]
  split
  · exact .inl rfl
  · exact h.whileBelow hc encoded offset ho

theorem budget_entry (h : Budget k value value') :
    Budget k (decodeTableEntry value) (decodeTableEntry value') :=
  Budget.bind_left (consumes_8.orReturn _) fun keylen =>
    Budget.bind_left ((consumes_bytes keylen.toNat).orReturn _) fun key => h.map (TableEntry.mk key)

theorem budget_member (hc : Consumes value) (h : Budget k value value') (kind : Option FieldKind) :
    Budget k (decodeMember value kind) (decodeMember value' kind) := by
  cases kind with
  | none => exact budget_refl k _
  | some kind =>
    cases kind with
    | ARRAY => exact (budget_sized hc h).map _
    | TABLE => exact (budget_sized (consumes_entry hc) (budget_entry h)).map _
    | _ => exact budget_refl k _

/-- One more level of nesting makes a difference only where every level has taken a byte. -/
theorem field_value_budget (depth : Nat) :
    Budget depth (amqp_decode_field_value depth) (amqp_decode_field_value (depth + 1)) := by
  induction depth with
  | zero => exact fun encoded offset ho => .inr ⟨ho, _, rfl⟩
  | succ depth ih =>
    exact Budget.bind_advance (consumes_8.orReturn _) (advances_8.orReturn _) fun kind =>
      budget_member (field_value_consumes depth).1 ih (FieldKind.ofCode kind)

theorem field_value_budget_add (depth n : Nat) :
    Budget depth (amqp_decode_field_value depth) (amqp_decode_field_value (depth + n)) := by
  induction n with
  | zero => exact budget_refl depth _
  | succ n ih => exact ih.trans (field_value_budget (depth + n)) (by omega)

theorem entries_budget {depth m : Nat} (h : depth ≤ m) :
    Budget depth (decodeSized (decodeTableEntry (amqp_decode_field_value depth)))
      (decodeSized (decodeTableEntry (amqp_decode_field_value m))) := by
  obtain ⟨n, rfl⟩ := Nat.exists_eq_add_of_le h
  exact budget_sized (consumes_entry (field_value_consumes depth).1)
    (budget_entry (field_value_budget_add depth n))

/-- A table is decoded as it is without a bound on the nesting. -/
theorem amqp_decode_table_eq {encoded : Bytes} {offset depth : Nat} (ho : offset ≤ encoded.length)
    (h : encoded.length < depth) :
    amqp_decode_table encoded offset =
      decodeSized (decodeTableEntry (amqp_decode_field_value depth)) encoded offset := by
  have hbudget := entries_budget (Nat.succ_le_of_lt h)
  exact hbudget.eq ho (by omega)

theorem consumes_table : Consumes amqp_decode_table := by
  intro encoded offset t offset' ho h
  obtain ⟨b, hb, rfl, hr⟩ := consumes_entries (encoded.length + 1) encoded offset t offset' ho h
  refine ⟨b, hb, rfl, ?_⟩
  intro encoded₂ o₂ hb₂
  have hle := hb₂.le
  by_cases hlen : encoded.length ≤ encoded₂.length
  · exact (entries_budget (by omega)).eq_ok (by omega) (hr encoded₂ o₂ hb₂)
  · have hshort : encoded₂.length < encoded.length + 1 := by omega
    rw [amqp_decode_table_eq (by omega) hshort]
    exact hr encoded₂ o₂ hb₂

theorem arrayRegular_iff {entries : List FieldValue} :
    arrayRegular entries ↔ ∀ v ∈ entries, v.Regular := by
  induction entries with
  | nil => simp [arrayRegular]
  | cons v entries ih => simp [arrayRegular, ih]

def TableEntry.Regular (e : TableEntry) : Prop := e.key.length ≤ 255 ∧ e.value.Regular

theorem tableRegular_iff {entries : List TableEntry} :
    tableRegular entries ↔ ∀ e ∈ entries, e.Regular := by
  induction entries with
  | nil => simp [tableRegular]
  | cons e entries ih =>
    cases e
    simp [tableRegular, ih, TableEntry.Regular, TableEntry.key, TableEntry.value]

theorem yields_true {ε α : Type} (d : Decoder ε α) : Yields d fun _ => True :=
  fun _ _ _ _ _ => trivial

theorem yields_field {α : Type} (val : Decoder Unit α) {dest : α → FieldValue}
    (h : ∀ x, (dest x).Regular) : Yields (FIELD_DECODER val dest) FieldValue.Regular :=
  (yields_true val |>.orReturn _).map fun x _ => h x

theorem yields_sized {α : Type} {d : Decoder Status α} {P : α → Prop} (h : Yields d P) :
    Yields (decodeSized d) fun xs => ∀ x ∈ xs, P x := by
  refine ((yields_true amqp_decode_32).orReturn _).bind fun size _ => ?_
  intro encoded offset xs offset' hx
  rw [decodeElements] at hx
  split at hx
  · cases hx
  · exact h.whileBelow encoded offset xs offset' hx

theorem yields_entry (h : Yields value FieldValue.Regular) :
    Yields (decodeTableEntry value) TableEntry.Regular := by
  refine ((yields_true amqp_decode_8).orReturn _).bind fun keylen _ => ?_
  refine ((yields_take keylen.toNat).orReturn _).bind fun key hkey => ?_
  have hlt : keylen.toNat < 256 := keylen.toNat_lt
  exact h.map fun v hv => ⟨by simp only [TableEntry.key]; omega, hv⟩

theorem yields_member (h : Yields value FieldValue.Regular) (kind : Option FieldKind) :
    Yields (decodeMember value kind) FieldValue.Regular := by
  cases kind with
  | none => exact yields_throw _ _
  | some kind =>
    cases kind with
    | ARRAY => exact (yields_sized h).map fun xs hxs => arrayRegular_iff.mpr hxs
    | TABLE => exact (yields_sized (yields_entry h)).map fun xs hxs => tableRegular_iff.mpr hxs
    | VOID => exact yields_pure trivial
    | _ => exact yields_field _ fun _ => trivial

theorem yields_field_value (depth : Nat) :
    Yields (amqp_decode_field_value depth) FieldValue.Regular := by
  induction depth with
  | zero => exact yields_throw _ _
  | succ depth ih =>
    exact ((yields_true amqp_decode_8).orReturn _).bind fun kind _ =>
      yields_member ih (FieldKind.ofCode kind)

theorem yields_table : Yields amqp_decode_table Table.Regular := by
  intro encoded offset t offset' h
  exact tableRegular_iff.mpr
    (yields_sized (yields_entry (yields_field_value _)) encoded offset t offset' h)

mutual

theorem exists_wire : ∀ v : FieldValue, v.Regular → ∃ b, v.wire = some b
  | .boolean _, _ | .i8 _, _ | .u8 _, _ | .i16 _, _ | .u16 _, _ | .i32 _, _ | .u32 _, _
  | .i64 _, _ | .u64 _, _ | .f32 _, _ | .f64 _, _ | .decimal _ _, _ | .utf8 _, _ | .timestamp _, _
  | .void, _ | .bytes _, _ => ⟨_, rfl⟩
  | .array entries, h => by
      obtain ⟨b, hb⟩ := exists_arrayWire entries h
      exact ⟨_, by rw [FieldValue.wire, hb]; rfl⟩
  | .table entries, h => by
      obtain ⟨b, hb⟩ := exists_tableWire entries h
      exact ⟨_, by rw [FieldValue.wire, hb]; rfl⟩
  | .other _ _, h => h.elim

theorem exists_arrayWire : ∀ entries, arrayRegular entries → ∃ b, arrayWire entries = some b
  | [], _ => ⟨[], rfl⟩
  | v :: entries, h => by
      obtain ⟨a, ha⟩ := exists_wire v h.1
      obtain ⟨c, hc⟩ := exists_arrayWire entries h.2
      exact ⟨a ++ c, both_eq_some.mpr ⟨a, c, ha, hc, rfl⟩⟩

theorem exists_tableWire : ∀ entries, tableRegular entries → ∃ b, tableWire entries = some b
  | [], _ => ⟨[], rfl⟩
  | ⟨key, v⟩ :: entries, h => by
      obtain ⟨a, ha⟩ := exists_wire v h.1.2
      obtain ⟨c, hc⟩ := exists_tableWire entries h.2
      have hentry : both (some (lengthPrefixed 1 key)) v.wire = some (lengthPrefixed 1 key ++ a) :=
        both_eq_some.mpr ⟨_, a, rfl, ha, rfl⟩
      exact ⟨_, both_eq_some.mpr ⟨_, c, hentry, hc, rfl⟩⟩

end

end RabbitClient.Amqp
