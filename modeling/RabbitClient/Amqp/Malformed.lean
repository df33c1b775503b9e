import RabbitClient.Amqp.FrameStream

/-!
What happens with bytes that are not as the protocol has them: the errors, and the frames that make
the library read behind its buffer.
-/
namespace RabbitClient.Amqp

open Bytes WireBuffer Deframing

variable {frame_max : Nat} {b : Bytes}

/-- The error codes for what is received. -/
inductive Malformed : Status → Prop where
  | bad_amqp_data : Malformed .AMQP_STATUS_BAD_AMQP_DATA
  | unknown_class : Malformed .AMQP_STATUS_UNKNOWN_CLASS
  | unknown_method : Malformed .AMQP_STATUS_UNKNOWN_METHOD

theorem rejects_sized {α : Type} {element : Decoder Status α} (h : Rejects element Malformed) :
    Rejects (decodeSized element) Malformed := by
  refine (rejects_orReturn _ .bad_amqp_data).bind fun size => ?_
  intro b o status herr
  rw [decodeElements] at herr
  split at herr
  · cases herr
    exact .bad_amqp_data
  · exact h.whileBelow b o status herr

theorem rejects_tableEntry {value : Decoder Status FieldValue} (h : Rejects value Malformed) :
    Rejects (decodeTableEntry value) Malformed := by
  refine (rejects_orReturn _ .bad_amqp_data).bind fun keylen => ?_
  exact (rejects_orReturn _ .bad_amqp_data).bind fun key => h.map _

theorem rejects_field_decoder {α : Type} (val : Decoder Unit α) (dest : α → FieldValue) :
    Rejects (FIELD_DECODER val dest) Malformed :=
  (rejects_orReturn val .bad_amqp_data).map dest

theorem rejects_member {value : Decoder Status FieldValue} (h : Rejects value Malformed)
    (kind : Option FieldKind) : Rejects (decodeMember value kind) Malformed := by
  cases kind with
  | none => exact rejects_throw .bad_amqp_data
  | some kind =>
    cases kind with
    | ARRAY => exact (rejects_sized h).map _
    | TABLE => exact (rejects_sized (rejects_tableEntry h)).map _
    | VOID => exact rejects_pure _ _
    | _ => exact rejects_field_decoder _ _

theorem rejects_field_value (depth : Nat) : Rejects (amqp_decode_field_value depth) Malformed := by
  induction depth with
  | zero => exact rejects_throw .bad_amqp_data
  | succ depth ih => exact (rejects_orReturn _ .bad_amqp_data).bind fun kind => rejects_member ih _

theorem rejects_table : Rejects amqp_decode_table Malformed := fun b =>
  rejects_sized (rejects_tableEntry (rejects_field_value (b.length + 1))) b

theorem rejects_field (f : Field) : Rejects (decodeField f) Malformed := by
  cases f with
  | table _ => exact rejects_table
  | bits _ => exact (rejects_orReturn _ .bad_amqp_data).map _
  | _ => exact rejects_orReturn _ .bad_amqp_data

theorem rejects_method (id : UInt32) : Rejects (amqp_decode_method id) Malformed := by
  have hargs (fs : List Field) : Rejects (decodeArgs fs) Malformed := by
    induction fs with
    | nil => exact rejects_pure _ _
    | cons f fs ih => exact (rejects_field f).bind fun v => ih.map _
  refine Rejects.map _ ?_
  cases methodFields id with
  | none => exact rejects_throw .unknown_method
  | some fs => exact hargs fs

theorem rejects_classSlots (flags : UInt32) (fields : Option (List (UInt32 × Field))) :
    Rejects (decodeClassSlots flags fields) Malformed := by
  have hslots (fs : List (UInt32 × Field)) : Rejects (decodeSlots flags fs) Malformed := by
    induction fs with
    | nil => exact rejects_pure _ _
    | cons entry fs ih =>
      refine Rejects.bind ?_ fun v => ih.map _
      cases flags &&& entry.1 != 0 with
      | true => exact rejects_field entry.2
      | false => exact rejects_pure _ _
  cases fields with
  | none => exact rejects_throw .unknown_class
  | some fs => exact hslots fs

/-- How the work on a frame that has been received can go wrong. -/
inductive Fault.OfInput : Fault → Prop where
  | undefined : OfInput .undefined
  | status {status : Status} : Malformed status → OfInput (.status status)

theorem Fault.OfInput.ne_abort {fault : Fault} (h : fault.OfInput) : fault ≠ .abort := by
  rintro rfl
  cases h

theorem Fault.OfInput.ne_timeout {fault : Fault} (h : fault.OfInput) :
    fault ≠ .status .AMQP_STATUS_TIMEOUT := by
  rintro rfl
  cases h with
  | status h => cases h

theorem rejects_flags (words flagword_index : Nat) (flags : UInt32) :
    Rejects (decodeFlags words flagword_index flags) Fault.OfInput := by
  have hword : Rejects (amqp_decode_16.orReturn (Fault.status .AMQP_STATUS_BAD_AMQP_DATA))
      Fault.OfInput := rejects_orReturn _ (.status .bad_amqp_data)
  induction words generalizing flagword_index flags with
  | zero => exact hword.bind fun _ => rejects_throw .undefined
  | succ words ih =>
    refine hword.bind fun partial_flags => ?_
    dsimp only
    split
    · exact ih _ _
    · exact rejects_pure _ _

theorem rejects_properties (class_id : UInt16) :
    Rejects (amqp_decode_properties class_id) Fault.OfInput := by
  refine (rejects_flags 2 0 0).bind fun flags => ?_
  exact ((rejects_classSlots flags _).mapError fun _ => .status).map _

theorem decodeFrame_error {raw_frame : Bytes} {target_size : Nat} {fault : Fault}
    (h : decodeFrame raw_frame target_size = .error fault) : fault.OfInput := by
  have hsome {x : Except Fault Payload} (hx : some <$> x = .error fault) : x = .error fault := by
    cases x with
    | error fault' => simpa [Functor.map, Except.map] using hx
    | ok payload => cases hx
  rcases except_bind_eq_error.mp h with herr | ⟨payload, -, hp⟩
  · rw [decodePayload] at herr
    split_ifs at herr
    · cases herr
      exact .undefined
    · rcases except_bind_eq_error.mp (hsome herr) with hm | ⟨p, -, hp⟩
      · have hreject := (rejects_method (.ofNat (peek raw_frame HEADER_SIZE 4))).mapError
          (Q := Fault.OfInput) (f := Fault.status) fun _ => .status
        exact hreject _ 0 fault hm
      · cases hp
    · cases herr
      exact .undefined
    · rcases except_bind_eq_error.mp (hsome herr) with hm | ⟨p, -, hp⟩
      · exact rejects_properties _ _ 0 fault hm
      · cases hp
  · cases hp

/-- The flags of properties go on for a third word. -/
def ThirdWord (b : Bytes) : Prop :=
  6 ≤ b.length ∧ UInt16.ofNat (peek b 0 2) &&& 1 ≠ 0 ∧ UInt16.ofNat (peek b 2 2) &&& 1 ≠ 0

/-- A frame that is too short for what its type says, or has too many flags. -/
def OverRead (raw_frame : Bytes) : Prop :=
  UInt8.ofNat (peek raw_frame 0 1) = AMQP_FRAME_METHOD ∧
      raw_frame.length < HEADER_SIZE + 4 + FOOTER_SIZE ∨
    UInt8.ofNat (peek raw_frame 0 1) = AMQP_FRAME_HEADER ∧
      (raw_frame.length < HEADER_SIZE + 12 + FOOTER_SIZE ∨
        ThirdWord ((raw_frame.drop (HEADER_SIZE + 12)).take
          (raw_frame.length - (HEADER_SIZE + 12) - FOOTER_SIZE)))

theorem flagWord_eq (b : Bytes) (o : Nat) :
    amqp_decode_16.orReturn (Fault.status .AMQP_STATUS_BAD_AMQP_DATA) b o =
      if o + 2 ≤ b.length then .ok (.ofNat (peek b o 2), o + 2)
      else .error (.status .AMQP_STATUS_BAD_AMQP_DATA) := by
  rw [Decoder.orReturn, Decoder.mapError]
  change ((take 2 b o >>= fun p => pure (UInt16.ofNat (ofBigEndian p.1), p.2)).mapError _) = _
  rw [take]
  split
  · rfl
  · rfl

theorem decodeFlags_zero (flagword_index : Nat) (flags : UInt32) (b : Bytes) (o : Nat) :
    decodeFlags 0 flagword_index flags b o =
      if o + 2 ≤ b.length then .error .undefined else .error (.status .AMQP_STATUS_BAD_AMQP_DATA) := by
  rw [decodeFlags, bind_run, flagWord_eq]
  split
  · rfl
  · rfl

theorem decodeFlags_succ (words flagword_index : Nat) (flags : UInt32) (b : Bytes) (o : Nat) :
    ∃ flags', decodeFlags (words + 1) flagword_index flags b o =
      if o + 2 ≤ b.length then
        if UInt16.ofNat (peek b o 2) &&& 1 ≠ 0 then
          decodeFlags words (flagword_index + 1) flags' b (o + 2)
        else .ok (flags', o + 2)
      else .error (.status .AMQP_STATUS_BAD_AMQP_DATA) := by
  refine ⟨flags ||| (UInt16.ofNat (peek b o 2)).toUInt32 <<< (.ofNat (flagword_index * 16)), ?_⟩
  rw [decodeFlags, bind_run, flagWord_eq]
  by_cases hlen : o + 2 ≤ b.length
  · rw [if_pos hlen, if_pos hlen]
    by_cases hmore : UInt16.ofNat (peek b o 2) &&& 1 ≠ 0
    · rw [if_pos hmore]
      exact congrFun (congrFun (if_pos hmore) b) (o + 2)
    · rw [if_neg hmore]
      exact congrFun (congrFun (if_neg (t := decodeFlags words _ _) hmore) b) (o + 2)
  · rw [if_neg hlen, if_neg hlen]
    rfl

theorem decodeFlags_undefined (b : Bytes) :
    decodeFlags 2 0 0 b 0 = .error .undefined ↔ ThirdWord b := by
  obtain ⟨flags₁, h₁⟩ := decodeFlags_succ 1 0 0 b 0
  obtain ⟨flags₂, h₂⟩ := decodeFlags_succ 0 1 flags₁ b 2
  have h₃ := decodeFlags_zero 2 flags₂ b 4
  rw [h₁, h₂, h₃, ThirdWord]
  by_cases hfirst : UInt16.ofNat (peek b 0 2) &&& 1 ≠ 0
  · by_cases hsecond : UInt16.ofNat (peek b 2 2) &&& 1 ≠ 0
    · rw [if_pos hfirst, if_pos hsecond]
      by_cases hlen : 6 ≤ b.length
      · rw [if_pos (by omega), if_pos (by omega), if_pos hlen]
        simp [hlen, hfirst, hsecond]
      · rw [if_neg (c := 4 + 2 ≤ b.length) (by omega)]
        split_ifs <;> simp [hlen]
    · rw [if_neg (c := UInt16.ofNat (peek b 2 2) &&& 1 ≠ 0) hsecond]
      split_ifs <;> simp [hsecond]
  · rw [if_neg (c := UInt16.ofNat (peek b 0 2) &&& 1 ≠ 0) hfirst]
    split_ifs <;> simp [hfirst]

theorem decodeProperties_undefined (class_id : UInt16) (b : Bytes) :
    amqp_decode_properties class_id b 0 = .error .undefined ↔ ThirdWord b := by
  rw [← decodeFlags_undefined, amqp_decode_properties, bind_run, except_bind_eq_error]
  refine or_iff_left ?_
  rintro ⟨p, -, herr⟩
  have hstatus := ((rejects_classSlots p.1 (propertyFields class_id)).mapError
    (Q := fun fault => fault ≠ .undefined) (f := Fault.status) (by simp)).map
    (fun slots => (⟨p.1, slots⟩ : Properties class_id))
  exact hstatus b p.2 _ herr rfl

theorem decodePropertiesPayload_undefined (class_id : UInt16) (body_size : UInt64) (b : Bytes) :
    decodePropertiesPayload class_id body_size b = .error .undefined ↔ ThirdWord b := by
  rw [← decodeProperties_undefined class_id, decodePropertiesPayload, except_bind_eq_error]
  refine or_iff_left ?_
  rintro ⟨p, -, hp⟩
  cases hp

theorem decodeMethodPayload_defined (id : UInt32) (b : Bytes) :
    decodeMethodPayload id b ≠ .error .undefined := by
  intro h
  rcases except_bind_eq_error.mp h with herr | ⟨p, -, hp⟩
  · cases hrun : amqp_decode_method id b 0 with
    | error status => simp [hrun, Except.mapError] at herr
    | ok p => simp [hrun, Except.mapError] at herr
  · cases hp

theorem decodeFrame_undefined (raw_frame : Bytes) :
    decodeFrame raw_frame raw_frame.length = .error .undefined ↔ OverRead raw_frame := by
  have hpayload : decodeFrame raw_frame raw_frame.length = .error .undefined ↔
      decodePayload (.ofNat (peek raw_frame 0 1)) raw_frame raw_frame.length =
        .error .undefined := by
    rw [decodeFrame, except_bind_eq_error]
    refine or_iff_left ?_
    rintro ⟨payload, -, hp⟩
    cases hp
  have hsome (x : Except Fault Payload) :
      some <$> x = .error .undefined ↔ x = .error .undefined := by
    cases x <;> simp [Functor.map, Except.map]
  rw [hpayload, decodePayload]
  by_cases hmethod : UInt8.ofNat (peek raw_frame 0 1) = AMQP_FRAME_METHOD
  · rw [if_pos hmethod]
    by_cases hshort : raw_frame.length < HEADER_SIZE + 4 + FOOTER_SIZE
    · rw [if_pos hshort]
      exact ⟨fun _ => .inl ⟨hmethod, hshort⟩, fun _ => rfl⟩
    · rw [if_neg hshort, hsome]
      refine ⟨fun h => absurd h (decodeMethodPayload_defined _ _), ?_⟩
      rintro (⟨-, h⟩ | ⟨h, -⟩)
      · exact absurd h hshort
      · exact absurd (hmethod.symm.trans h) (by decide)
  rw [if_neg hmethod]
  by_cases hheader : UInt8.ofNat (peek raw_frame 0 1) = AMQP_FRAME_HEADER
  · rw [if_pos hheader]
    by_cases hshort : raw_frame.length < HEADER_SIZE + 12 + FOOTER_SIZE
    · rw [if_pos hshort]
      exact ⟨fun _ => .inr ⟨hheader, .inl hshort⟩, fun _ => rfl⟩
    · rw [if_neg hshort, hsome, decodePropertiesPayload_undefined]
      refine ⟨fun h => .inr ⟨hheader, .inr h⟩, ?_⟩
      rintro (⟨h, -⟩ | ⟨-, h | h⟩)
      · exact absurd h hmethod
      · exact absurd h hshort
      · exact h
  rw [if_neg hheader]
  constructor
  · intro h
    split_ifs at h
  · rintro (⟨h, -⟩ | ⟨h, -⟩)
    · exact absurd h hmethod
    · exact absurd h hheader

theorem wholeFrame_error {raw_frame : Bytes} {fault : Fault}
    (h : wholeFrame raw_frame = .error fault) :
    fault.OfInput ∧ (fault = .undefined → OverRead raw_frame) := by
  rw [wholeFrame] at h
  split_ifs at h
  · cases h
    exact ⟨.status .bad_amqp_data, by simp⟩
  · refine ⟨decodeFrame_error h, ?_⟩
    rintro rfl
    exact (decodeFrame_undefined _).mp h

theorem nextFrame_error {first : Bool} {fault : Fault}
    (h : nextFrame frame_max first b = some (.error fault)) :
    fault.OfInput ∧
      (fault = .undefined → OverRead ((seen first b).take (statedSize (seen first b)))) := by
  have hbad : Fault.OfInput (.status .AMQP_STATUS_BAD_AMQP_DATA) := .status .bad_amqp_data
  rw [nextFrame, frontFrame] at h
  split_ifs at h
  · cases h
  · cases h
    exact ⟨hbad, by simp⟩
  · have hwhole (hframe : wholeFrame ((seen first b).take (statedSize (seen first b))) =
        .error fault) := wholeFrame_error hframe
    cases hframe : wholeFrame ((seen first b).take (statedSize (seen first b))) with
    | ok frame =>
      rw [hframe] at h
      cases h
    | error fault' =>
      rw [hframe] at h
      cases h
      exact hwhole hframe

/-- Only the first frame may be a protocol header. -/
theorem nextFrame_later {first first' : Bool} {frame : Option Frame} {n : Nat}
    (h : nextFrame frame_max first b = some (.ok (frame, first', n))) : first' = false := by
  rw [nextFrame, frontFrame] at h
  split_ifs at h
  · cases h
    rfl
  · cases h
  · cases hframe : wholeFrame ((seen first b).take (statedSize (seen first b))) with
    | ok frame =>
      rw [hframe] at h
      cases h
      rfl
    | error fault =>
      rw [hframe] at h
      cases h

/-- An error of a stream comes from the frame that stands behind those before it. -/
theorem split_error {fault : Fault} {first : Bool}
    (h : (split (nextFrame frame_max) first b).2 = .error fault) :
    ∃ front rest, ∃ first' : Bool, b = front ++ rest ∧ (first' → first ∧ front = []) ∧
      nextFrame frame_max first' rest = some (.error fault) := by
  have hn := nextFrame_stable frame_max
  induction hlen : b.length using Nat.strongRecOn generalizing first b with
  | ind k ih =>
    rcases hr : nextFrame frame_max first b with _ | fault' | ⟨frame, first', n⟩
    · rw [split_wait hr] at h
      cases h
    · rw [split_fail hr] at h
      cases h
      exact ⟨[], b, first, rfl, fun hfirst => ⟨hfirst, rfl⟩, hr⟩
    · have hpos := hn.pos first b frame first' n hr
      have hle := hn.le first b frame first' n hr
      obtain rfl := nextFrame_later hr
      rw [split_item hn hr] at h
      obtain ⟨front, rest, first', hdrop, hfirst, hnext⟩ :=
        ih (b.drop n).length (by rw [List.length_drop]; omega) h rfl
      refine ⟨b.take n ++ front, rest, first', by simp [← hdrop], fun h => ?_, hnext⟩
      exact absurd (hfirst h).1 (by simp)

theorem split_ofInput {fault : Fault} {first : Bool}
    (h : (split (nextFrame frame_max) first b).2 = .error fault) : fault.OfInput := by
  obtain ⟨front, rest, first', -, -, hnext⟩ := split_error h
  exact (nextFrame_error hnext).1

theorem seen_take (first : Bool) (b : Bytes) (n : Nat) : seen first (b.take n) = (seen first b).take n := by
  cases first with
  | false => rfl
  | true => exact (List.take_set ..).symm

/-- Whatever a new connection is handed, in whatever pieces, what it gives depends on the bytes only.
An error is one of three error codes, or there is a frame among the bytes that is read behind its
end. -/
theorem handle_input_safe (ds : List Bytes) :
    Agrees (Receiving 65536) (receive amqp_handle_input amqp_new_connection ds)
        (split (nextFrame 65536) true ds.flatten) ∧
      ∀ fault, (receive amqp_handle_input amqp_new_connection ds).2.2 = .error fault →
        fault.OfInput ∧ (fault = .undefined → ∃ front raw_frame rest, ∃ first : Bool,
          ds.flatten = front ++ raw_frame ++ rest ∧ (first → front = []) ∧
            OverRead (seen first raw_frame)) := by
  have hagrees := receive_agrees (handle_input_follows 65536) (nextFrame_stable 65536)
    receiving_new_connection rfl ds
  rw [List.nil_append] at hagrees
  refine ⟨hagrees, ?_⟩
  intro fault hfault
  rw [hagrees.1] at hfault
  have hsplit : (split (nextFrame 65536) true ds.flatten).2 = .error fault := by
    cases hend : (split (nextFrame 65536) true ds.flatten).2 with
    | error fault' => simpa [hend, Except.map] using hfault
    | ok rest => simp [hend, Except.map] at hfault
  obtain ⟨front, rest, first, hflatten, hfirst, hnext⟩ := split_error hsplit
  refine ⟨(nextFrame_error hnext).1, ?_⟩
  intro hundefined
  have hover := (nextFrame_error hnext).2 hundefined
  refine ⟨front, rest.take (statedSize (seen first rest)),
    rest.drop (statedSize (seen first rest)), first, by simp [hflatten], fun h => (hfirst h).2, ?_⟩
  rwa [seen_take]

end RabbitClient.Amqp
