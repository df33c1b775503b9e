import RabbitClient.Amqp.Framing

/-! Content properties are read back as they were written. -/
namespace RabbitClient.Amqp

open Bytes WireBuffer

/-- The flags as they are written: in one word, or in two where the first says so. -/
def flagsWire (flags : UInt32) : Bytes :=
  if flags >>> 16 = 0 then bigEndian 2 (flags &&& 0xFFFE).toUInt16.toNat
  else bigEndian 2 (flags &&& 0xFFFE ||| 1).toUInt16.toNat ++
    bigEndian 2 (flags >>> 16 &&& 0xFFFE).toUInt16.toNat

/-- The flags that are read back. The two lowest bits of the words are not written; one of them
tells that there is a second word. -/
def canonicalFlags (flags : UInt32) : UInt32 :=
  if flags >>> 16 = 0 then flags &&& 0xFFFE else flags &&& 0xFFFEFFFE ||| 1

theorem getLsbD_low_mask :
    ∀ i : Fin 32, (0xFFFE#32).getLsbD i = (decide (1 ≤ i.val) && decide (i.val < 16)) := by
  decide

theorem getLsbD_mask :
    ∀ i : Fin 32, (0xFFFEFFFE#32).getLsbD i = (decide (i.val ≠ 0) && decide (i.val ≠ 16)) := by
  decide

/-- A word without its lowest bit does not announce another one. -/
theorem word_and_one (flags : UInt32) : (flags &&& 0xFFFE).toUInt16 &&& 1 = 0 := by
  apply UInt16.toBitVec_inj.mp
  apply BitVec.eq_of_getLsbD_eq
  intro i hi
  simp only [UInt16.toBitVec_and, UInt32.toBitVec_toUInt16, UInt32.toBitVec_and,
    BitVec.getLsbD_and, BitVec.getLsbD_setWidth, UInt16.toBitVec_ofNat, UInt32.toBitVec_ofNat,
    BitVec.getLsbD_one, BitVec.getLsbD_zero]
  by_cases h0 : i = 0
  · subst h0
    simp
  · simp [h0]

theorem word_or_one_and_one (flags : UInt32) : (flags &&& 0xFFFE ||| 1).toUInt16 &&& 1 ≠ 0 := by
  intro h
  have hbit := congrArg (fun x => x.toBitVec.getLsbD 0) h
  simp at hbit

theorem one_word (flags : UInt32) :
    (0 : UInt32) ||| (flags &&& 0xFFFE).toUInt16.toUInt32 <<< (.ofNat (0 * 16)) = flags &&& 0xFFFE := by
  apply UInt32.toBitVec_inj.mp
  apply BitVec.eq_of_getLsbD_eq
  intro i hi
  have hmask := getLsbD_low_mask ⟨i, hi⟩
  simp only [UInt32.toBitVec_or, UInt32.toBitVec_and, UInt32.toBitVec_shiftLeft,
    UInt16.toBitVec_toUInt32, UInt32.toBitVec_toUInt16, BitVec.getLsbD_or, BitVec.getLsbD_and,
    UInt32.toBitVec_ofNat] at *
  simp [hmask]
  grind

theorem two_words (flags : UInt32) :
    ((0 : UInt32) ||| (flags &&& 0xFFFE ||| 1).toUInt16.toUInt32 <<< (.ofNat (0 * 16))) |||
      (flags >>> 16 &&& 0xFFFE).toUInt16.toUInt32 <<< (.ofNat ((0 + 1) * 16)) =
      flags &&& 0xFFFEFFFE ||| 1 := by
  apply UInt32.toBitVec_inj.mp
  apply BitVec.eq_of_getLsbD_eq
  intro i hi
  have hlow := getLsbD_low_mask ⟨i, hi⟩
  have hhigh := getLsbD_low_mask ⟨i - 16, by omega⟩
  have hmask := getLsbD_mask ⟨i, hi⟩
  simp only [UInt32.toBitVec_or, UInt32.toBitVec_and, UInt32.toBitVec_shiftLeft,
    UInt16.toBitVec_toUInt32, UInt32.toBitVec_toUInt16, BitVec.getLsbD_or, BitVec.getLsbD_and,
    UInt32.toBitVec_ofNat] at *
  simp [hlow, hhigh, hmask]
  grind

theorem shiftRight_shiftRight_eq_zero (flags : UInt32) : flags >>> 16 >>> 16 = 0 := by
  apply UInt32.toNat_inj.mp
  have hlt := flags.toNat_lt
  simp only [UInt32.toNat_shiftRight, UInt32.reduceToNat, Nat.reduceMod, Nat.shiftRight_eq_div_pow]
  omega

theorem emits_flags (flags : UInt32) : Emits (encodeFlags 2 flags) (some (flagsWire flags)) := by
  by_cases h : flags >>> 16 = 0
  · have hword := (emits_16 (flags &&& 0xFFFE).toUInt16).orReturn Status.AMQP_STATUS_BAD_AMQP_DATA
    have hone := hword.bind Emits.pure
    simpa [encodeFlags, flagsWire, h, both] using hone
  · have hzero := shiftRight_shiftRight_eq_zero flags
    have hfst := (emits_16 (flags &&& 0xFFFE ||| 1).toUInt16).orReturn
      Status.AMQP_STATUS_BAD_AMQP_DATA
    have hsnd := (emits_16 (flags >>> 16 &&& 0xFFFE).toUInt16).orReturn
      Status.AMQP_STATUS_BAD_AMQP_DATA
    have htwo := hfst.bind (hsnd.bind Emits.pure)
    simpa [encodeFlags, flagsWire, h, hzero, both] using htwo

/-- A word that does not announce another one ends the flags. -/
theorem reads_last_word {w : UInt16} (hw : w &&& 1 = 0) (words index : Nat) (flags : UInt32) :
    Reads (decodeFlags (words + 1) index flags) (bigEndian 2 w.toNat)
      (flags ||| w.toUInt32 <<< (.ofNat (index * 16))) := by
  have hword := (reads_16 w).orReturn (Fault.status .AMQP_STATUS_BAD_AMQP_DATA)
  have hne : ¬ w &&& 1 ≠ 0 := fun h => h hw
  rw [← List.append_nil (bigEndian 2 w.toNat)]
  refine hword.bind ?_
  rw [if_neg hne]
  exact reads_pure _

theorem reads_further_word {w : UInt16} (hw : w &&& 1 ≠ 0) {words index : Nat} {flags x : UInt32}
    {b : Bytes}
    (h : Reads (decodeFlags words (index + 1) (flags ||| w.toUInt32 <<< (.ofNat (index * 16)))) b x) :
    Reads (decodeFlags (words + 1) index flags) (bigEndian 2 w.toNat ++ b) x := by
  have hword := (reads_16 w).orReturn (Fault.status .AMQP_STATUS_BAD_AMQP_DATA)
  refine hword.bind ?_
  rw [if_pos hw]
  exact h

theorem reads_flags (flags : UInt32) :
    Reads (decodeFlags 2 0 0) (flagsWire flags) (canonicalFlags flags) := by
  rw [flagsWire, canonicalFlags]
  split
  · have h := reads_last_word (word_and_one flags) 1 0 0
    rwa [one_word] at h
  · have h : Reads (decodeFlags 2 0 0) _ _ := reads_further_word (word_or_one_and_one flags)
      (reads_last_word (word_and_one (flags >>> 16)) 0 (0 + 1) _)
    rwa [two_words] at h

theorem consumes_flags (words index : Nat) (flags : UInt32) :
    Consumes (decodeFlags words index flags) := by
  induction words generalizing index flags with
  | zero => exact (consumes_16.orReturn _).bind fun _ => consumes_throw _
  | succ words ih =>
    refine (consumes_16.orReturn _).bind fun partial_flags => ?_
    dsimp only
    split
    · exact ih _ _
    · exact consumes_pure _

def slotWire : (present : Bool) → (f : Field) → Slot present f → Option Bytes
  | true, f, v => fieldWire f v
  | false, _, _ => some []

def slotsWire (flags : UInt32) : (fs : List (UInt32 × Field)) → Slots flags fs → Option Bytes
  | [], _ => some []
  | (_, f) :: fs, (v, slots) => both (slotWire _ f v) (slotsWire flags fs slots)

def classSlotsWire (flags : UInt32) :
    (fields : Option (List (UInt32 × Field))) → ClassSlots flags fields → Option Bytes
  | none, _ => none
  | some fs, slots => slotsWire flags fs slots

/-- The encoding of properties: the flags, and the members that are there. -/
def Properties.wire {class_id : UInt16} (p : Properties class_id) : Option Bytes :=
  both (some (flagsWire p.flags)) (classSlotsWire p.flags (propertyFields class_id) p.slots)

def SlotRegular : (present : Bool) → (f : Field) → Slot present f → Prop
  | true, f, v => FieldRegular f v
  | false, _, _ => True

def SlotsRegular (flags : UInt32) : (fs : List (UInt32 × Field)) → Slots flags fs → Prop
  | [], _ => True
  | (_, f) :: fs, (v, slots) => SlotRegular _ f v ∧ SlotsRegular flags fs slots

def ClassSlotsRegular (flags : UInt32) :
    (fields : Option (List (UInt32 × Field))) → ClassSlots flags fields → Prop
  | none, _ => False
  | some fs, slots => SlotsRegular flags fs slots

/-- The table of headers, if it is there, can be represented. -/
def Properties.Regular {class_id : UInt16} (p : Properties class_id) : Prop :=
  ClassSlotsRegular p.flags (propertyFields class_id) p.slots

variable {flags : UInt32} {class_id : UInt16}

theorem emits_slot : ∀ (present : Bool) (f : Field) (v : Slot present f),
    Emits (encodeSlot present f v) (slotWire present f v)
  | true, f, v => emits_encodeField f v
  | false, _, _ => Emits.pure

theorem emits_slots : ∀ (fs : List (UInt32 × Field)) (slots : Slots flags fs),
    Emits (encodeSlots flags fs slots) (slotsWire flags fs slots)
  | [], _ => Emits.pure
  | (_, f) :: fs, (v, slots) => (emits_slot _ f v).bind (emits_slots fs slots)

theorem emits_classSlots :
    ∀ (fields : Option (List (UInt32 × Field))) (slots : ClassSlots flags fields),
    Emits (encodeClassSlots flags fields slots) (classSlotsWire flags fields slots)
  | none, _ => emits_fail _
  | some fs, slots => emits_slots fs slots

theorem emits_properties (p : Properties class_id) : Emits (amqp_encode_properties p) p.wire :=
  (emits_flags p.flags).bind (emits_classSlots _ p.slots)

theorem reads_slot {present : Bool} {f : Field} {v : Slot present f} {b : Bytes}
    (hb : slotWire present f v = some b) (h : SlotRegular present f v) (hlen : b.length < 2 ^ 32) :
    Reads (decodeSlot present f) b v := by
  cases present with
  | true => exact reads_decodeField hb h hlen
  | false =>
    cases hb
    exact reads_pure _

theorem reads_slots {fs : List (UInt32 × Field)} {slots : Slots flags fs} {b : Bytes}
    (hb : slotsWire flags fs slots = some b) (h : SlotsRegular flags fs slots)
    (hlen : b.length < 2 ^ 32) : Reads (decodeSlots flags fs) b slots := by
  induction fs generalizing b with
  | nil =>
    cases hb
    exact reads_pure _
  | cons f fs ih =>
    obtain ⟨v, slots⟩ := slots
    obtain ⟨a, c, ha, hc, rfl⟩ := both_eq_some.mp hb
    rw [List.length_append] at hlen
    have hslot := reads_slot ha h.1 (by omega)
    exact hslot.bind ((ih hc h.2 (by omega)).map (Prod.mk v))

theorem reads_classSlots {fields : Option (List (UInt32 × Field))} {slots : ClassSlots flags fields}
    {b : Bytes} (hb : classSlotsWire flags fields slots = some b)
    (h : ClassSlotsRegular flags fields slots) (hlen : b.length < 2 ^ 32) :
    Reads (decodeClassSlots flags fields) b slots := by
  cases fields with
  | none => exact h.elim
  | some fs => exact reads_slots hb h hlen

theorem reads_properties {p : Properties class_id} {b : Bytes} (hb : p.wire = some b)
    (hflags : canonicalFlags p.flags = p.flags) (h : p.Regular) (hlen : b.length < 2 ^ 32) :
    Reads (amqp_decode_properties class_id) b p := by
  obtain ⟨_, c, ⟨rfl⟩, hc, rfl⟩ := both_eq_some.mp hb
  rw [List.length_append] at hlen
  have hword := reads_flags p.flags
  rw [hflags] at hword
  have hslots := (reads_classSlots hc h (by omega)).mapError Fault.status
  exact hword.bind (hslots.map (Properties.mk p.flags))

theorem consumes_slots (fs : List (UInt32 × Field)) : Consumes (decodeSlots flags fs) := by
  induction fs with
  | nil => exact consumes_pure _
  | cons f fs ih =>
    have hslot : Consumes (decodeSlot (flags &&& f.1 != 0) f.2) := by
      cases flags &&& f.1 != 0 with
      | true => exact consumes_decodeField f.2
      | false => exact consumes_pure _
    exact hslot.bind fun v => ih.map (Prod.mk v)

theorem consumes_properties (class_id : UInt16) : Consumes (amqp_decode_properties class_id) := by
  refine (consumes_flags 2 0 0).bind fun flags => ?_
  have hslots : Consumes (decodeClassSlots flags (propertyFields class_id)) := by
    cases propertyFields class_id with
    | none => exact consumes_throw _
    | some fs => exact consumes_slots fs
  exact (hslots.mapError _).map (Properties.mk flags)

theorem yields_slots (fs : List (UInt32 × Field)) :
    Yields (decodeSlots flags fs) (SlotsRegular flags fs) := by
  induction fs with
  | nil => exact yields_pure trivial
  | cons f fs ih =>
    have hslot : Yields (decodeSlot (flags &&& f.1 != 0) f.2)
        (SlotRegular (flags &&& f.1 != 0) f.2) := by
      cases flags &&& f.1 != 0 with
      | true => exact yields_decodeField f.2
      | false => exact yields_pure trivial
    exact hslot.bind fun v hv => ih.map fun slots hslots => ⟨hv, hslots⟩

theorem yields_properties (class_id : UInt16) :
    Yields (amqp_decode_properties class_id) Properties.Regular := by
  refine (yields_true (decodeFlags 2 0 0)).bind fun flags _ => ?_
  have hslots : Yields (decodeClassSlots flags (propertyFields class_id))
      (ClassSlotsRegular flags (propertyFields class_id)) := by
    cases propertyFields class_id with
    | none => exact yields_throw _ _
    | some fs => exact yields_slots fs
  exact (hslots.mapError _).map fun _ h => h

/-- Properties that are read back have flags that are read back. -/
theorem regular_of_read {p : Properties class_id} {b buf : Bytes} {o o' : Nat}
    (hb : p.wire = some b) (hholds : Holds buf o b)
    (hdec : amqp_decode_properties class_id buf o = .ok (p, o')) :
    canonicalFlags p.flags = p.flags ∧ p.Regular := by
  refine ⟨?_, yields_properties class_id _ _ _ _ hdec⟩
  obtain ⟨_, c, ⟨rfl⟩, -, rfl⟩ := both_eq_some.mp hb
  obtain ⟨flags, o₁, hflags, hslots⟩ := bind_eq_ok.mp hdec
  obtain ⟨slots, -, rfl⟩ := map_eq_ok.mp hslots
  have hread := reads_flags flags _ _ (holds_append.mp hholds).1
  exact congrArg Prod.fst (Except.ok.inj (hread.symm.trans hflags))

/-- Properties are read back as they were written, exactly if their flags use the two bits that
announce words as these are used, and their headers can be represented. -/
theorem properties_round_trip {p : Properties class_id} {s s' : Out}
    (hoff : s.offset ≤ s.encoded.length) (hlen : s.encoded.length < 2 ^ 32)
    (h : amqp_encode_properties p s = .ok ((), s')) :
    amqp_decode_properties class_id s'.encoded s.offset = .ok (p, s'.offset) ↔
      canonicalFlags p.flags = p.flags ∧ p.Regular := by
  obtain ⟨b, hb, hfit, rfl⟩ := (emits_properties p).eq_ok h
  have hholds := holds_store (b := b) hoff
  constructor
  · exact regular_of_read hb hholds
  · rintro ⟨hflags, hreg⟩
    have hle := hfit.length_le
    exact reads_properties hb hflags hreg (by omega) _ _ hholds

/-- Properties of the class `basic`: a content type, a table of headers and an application id. -/
def headedProperties : Properties 60 where
  flags := 0xA008
  slots := (([97] : Bytes), (), ([⟨[107], .void⟩] : Table), (), (), (), (), (), (), (), (), (),
    ([120] : Bytes), (), ())

def headedBytes : Bytes := [160, 8, 1, 97, 0, 0, 0, 3, 1, 107, 86, 1, 120]

theorem headedProperties_regular :
    canonicalFlags headedProperties.flags = headedProperties.flags ∧ headedProperties.Regular := by
  have hheaders : Table.Regular [⟨[107], .void⟩] := by
    simp [Table.Regular, tableRegular, FieldValue.Regular]
  exact ⟨by decide, trivial, trivial, hheaders, trivial, trivial, trivial, trivial, trivial, trivial,
    trivial, trivial, trivial, trivial, trivial, trivial⟩

theorem properties_round_trip_headed :
    amqp_decode_properties 60 headedBytes 0 = .ok (headedProperties, 13) := by
  have h : amqp_encode_properties headedProperties ⟨List.replicate 13 0, 0⟩ =
      .ok ((), ⟨headedBytes, 13⟩) := rfl
  exact (properties_round_trip (Nat.zero_le _) (by decide) h).mpr headedProperties_regular

/-- The same as for methods; the flags are part of what is read. -/
theorem amqp_decode_properties_local {p : Properties class_id} {encoded encoded₂ : Bytes}
    {offset offset' offset₂ : Nat} (ho : offset ≤ encoded.length)
    (h : amqp_decode_properties class_id encoded offset = .ok (p, offset')) :
    offset ≤ offset' ∧ offset' ≤ encoded.length ∧
      (Holds encoded₂ offset₂ ((encoded.drop offset).take (offset' - offset)) →
        amqp_decode_properties class_id encoded₂ offset₂ =
          .ok (p, offset₂ + (offset' - offset))) :=
  (consumes_properties class_id).moved ho h

theorem amqp_decode_properties_local_headed :
    amqp_decode_properties 60 (9 :: headedBytes ++ [8]) 1 = .ok (headedProperties, 14) := by
  have h : amqp_decode_properties 60 headedBytes 0 = .ok (headedProperties, 13) := rfl
  exact (amqp_decode_properties_local (by decide) h).2.2 ⟨[9], [8], rfl, rfl⟩

end RabbitClient.Amqp
