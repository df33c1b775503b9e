import RabbitClient.Amqp.Frames
import RabbitClient.Library.Deframing

/-!
The frames in a stream of bytes, and that `amqp_handle_input` finds them however the stream is cut
into pieces.
-/
namespace RabbitClient.Amqp

open Bytes WireBuffer Deframing

variable {frame_max : Nat} {c : Connection} {b d p q : Bytes}

/-- A frame that is there as a whole. -/
def wholeFrame (raw_frame : Bytes) : Except Fault (Option Frame) :=
  if UInt8.ofNat (peek raw_frame (raw_frame.length - 1) 1) ≠ AMQP_FRAME_END then
    .error (.status .AMQP_STATUS_BAD_AMQP_DATA)
  else decodeFrame raw_frame raw_frame.length

/-- The size of a frame, as its header has it. -/
def statedSize (b : Bytes) : Nat := peek b 3 4 + HEADER_SIZE + FOOTER_SIZE

/-- A size that is not taken. -/
def TooLarge (frame_max : Nat) (b : Bytes) : Prop := 2147483647 ≤ peek b 3 4 ∨ frame_max < statedSize b

instance (frame_max : Nat) (b : Bytes) : Decidable (TooLarge frame_max b) :=
  inferInstanceAs (Decidable (_ ∨ _))

/-- The frame at the front of a stream. -/
def frontFrame (frame_max : Nat) (b : Bytes) : Option (Except Fault (Option Frame × Bool × Nat)) :=
  if b.length < HEADER_SIZE then none
  else if TooLarge frame_max b then some (.error (.status .AMQP_STATUS_BAD_AMQP_DATA))
  else if b.length < statedSize b then none
  else some ((wholeFrame (b.take (statedSize b))).map fun frame => (frame, false, statedSize b))

def protocolHeader (b : Bytes) : Frame :=
  ⟨0, .protocol_header (.ofNat (peek b 4 1)) (.ofNat (peek b 5 1)) (.ofNat (peek b 6 1))
    (.ofNat (peek b 7 1))⟩

/-- What is seen of the bytes received: of the first frame, the eighth byte is lost. -/
def seen : (first : Bool) → Bytes → Bytes
  | true, b => b.set 7 0
  | false, b => b

/-- A frame as the first one in a stream may be a protocol header. -/
def nextFrame (frame_max : Nat) : Rule Bool Fault Frame UInt8 := fun first b =>
  if first ∧ b.length < 8 then none
  else if first ∧ b.take 4 = ascii "AMQP" then some (.ok (some (protocolHeader b), false, 8))
  else frontFrame frame_max (seen first b)

theorem peek_append {o n : Nat} (h : o + n ≤ b.length) (d : Bytes) :
    peek (b ++ d) o n = peek b o n := by
  rw [peek, peek, List.drop_append_of_le_length (by omega),
    List.take_append_of_le_length (by rw [List.length_drop]; omega)]

theorem Holds.peek_eq {buf : Bytes} {o n : Nat} (h : Holds buf 0 b) (hb : o + n ≤ b.length) :
    peek buf o n = peek b o n := by
  obtain ⟨p, r, rfl, hp⟩ := h
  obtain rfl := List.length_eq_zero_iff.mp hp
  exact peek_append hb r

@[simp] theorem length_seen (first : Bool) (b : Bytes) : (seen first b).length = b.length := by
  cases first with
  | true => exact List.length_set
  | false => rfl

theorem seen_append {first : Bool} (h : first → 8 ≤ b.length) (d : Bytes) :
    seen first (b ++ d) = seen first b ++ d := by
  cases first with
  | true => exact List.set_append_left 7 0 (h rfl)
  | false => rfl

theorem frontFrame_append {r : Except Fault (Option Frame × Bool × Nat)}
    (h : frontFrame frame_max b = some r) (d : Bytes) : frontFrame frame_max (b ++ d) = some r := by
  by_cases hhead : b.length < HEADER_SIZE
  · rw [frontFrame, if_pos hhead] at h
    cases h
  have hpeek : peek (b ++ d) 3 4 = peek b 3 4 :=
    peek_append (by simp only [HEADER_SIZE] at hhead; omega) d
  have hsize : statedSize (b ++ d) = statedSize b := by rw [statedSize, statedSize, hpeek]
  have hlarge : TooLarge frame_max (b ++ d) ↔ TooLarge frame_max b := by
    rw [TooLarge, TooLarge, hpeek, hsize]
  have hlen : (b ++ d).length = b.length + d.length := List.length_append
  rw [frontFrame, if_neg hhead] at h
  rw [frontFrame, if_neg (by omega)]
  simp only [hlarge, hsize]
  split at h
  · next hl => rw [if_pos hl, ← h]
  next hl =>
  rw [if_neg hl]
  split at h
  · cases h
  next hs =>
  rw [if_neg (by omega), List.take_append_of_le_length (by omega), ← h]

theorem frontFrame_size {x : Option Frame} {first : Bool} {n : Nat}
    (h : frontFrame frame_max b = some (.ok (x, first, n))) : 0 < n ∧ n ≤ b.length := by
  rw [frontFrame] at h
  split at h
  · cases h
  split at h
  · cases h
  split at h
  · cases h
  next hs =>
  rcases hw : wholeFrame (b.take (statedSize b)) with e | frame
  · rw [hw] at h
    cases h
  · rw [hw] at h
    cases h
    have hpos : 0 < statedSize b := by rw [statedSize, FOOTER_SIZE]; omega
    exact ⟨hpos, by omega⟩

theorem nextFrame_stable (frame_max : Nat) : Stable (nextFrame frame_max) where
  nil := by
    intro first
    cases first <;> rfl
  append := by
    intro first b d r h
    rw [nextFrame] at h ⊢
    have hlen : (b ++ d).length = b.length + d.length := List.length_append
    split at h
    · cases h
    next hshort =>
    rw [if_neg (by intro hs; exact hshort ⟨hs.1, by omega⟩)]
    cases first with
    | false => exact frontFrame_append h d
    | true =>
      have hlong : 8 ≤ b.length := by simpa using hshort
      rw [List.take_append_of_le_length (by omega)]
      split at h
      · next hmagic =>
        have hfour (i : Nat) (hi : i < 8) : peek (b ++ d) i 1 = peek b i 1 :=
          peek_append (by omega) d
        rw [if_pos hmagic, ← h, protocolHeader, protocolHeader, hfour 4 (by omega),
          hfour 5 (by omega), hfour 6 (by omega), hfour 7 (by omega)]
      · next hmagic =>
        rw [if_neg hmagic, seen_append (fun _ => hlong)]
        exact frontFrame_append h d
  pos := by
    intro first b x first' n h
    rw [nextFrame] at h
    split at h
    · cases h
    split at h
    · cases h
      omega
    · exact (frontFrame_size h).1
  le := by
    intro first b x first' n h
    rw [nextFrame] at h
    split at h
    · cases h
    next hshort =>
    split at h
    · next hmagic =>
      cases h
      have hnot : ¬ b.length < 8 := fun hlt => hshort ⟨hmagic.1, hlt⟩
      omega
    · have hle := (frontFrame_size h).2
      rwa [length_seen] at hle

/-- The header of a frame has been taken, with `q` of the frame. -/
structure InBody (frame_max : Nat) (c : Connection) (q : Bytes) : Prop where
  state : c.state = .BODY
  limit : c.frame_max = frame_max
  header : c.header_buffer.length = 8
  holds : Holds c.inbound_buffer 0 q
  offset : c.inbound_offset = q.length
  target : c.target_size = statedSize q
  block : c.inbound_buffer.length = c.target_size
  headed : HEADER_SIZE ≤ q.length
  fits : q.length ≤ c.target_size
  taken : ¬ TooLarge frame_max q

/-- The bytes `p` have been received of a frame that is not complete. -/
inductive Receiving (frame_max : Nat) (c : Connection) : (first : Bool) → Bytes → Prop
  | initial {p : Bytes} : c.state = .INITIAL → c.frame_max = frame_max →
      c.header_buffer.length = 8 → Holds c.header_buffer 0 p → c.inbound_offset = p.length →
      c.target_size = 8 → p.length < 8 → Receiving frame_max c true p
  | idle : c.state = .IDLE → c.frame_max = frame_max → c.header_buffer.length = 8 →
      c.inbound_offset = 0 → c.target_size = HEADER_SIZE → Receiving frame_max c false []
  | header {p : Bytes} : c.state = .HEADER → c.frame_max = frame_max →
      c.header_buffer.length = 8 → Holds c.header_buffer 0 p → c.inbound_offset = p.length →
      c.target_size = HEADER_SIZE → p.length < HEADER_SIZE → Receiving frame_max c false p
  | body {first : Bool} {p : Bytes} : InBody frame_max c (seen first p) →
      p.length < c.target_size → (first → 8 ≤ p.length ∧ p.take 4 ≠ ascii "AMQP") →
      Receiving frame_max c first p

/-- What a call does with bytes of which `k` had been taken before. -/
inductive Does (frame_max k : Nat) (first : Bool) (p : Bytes) :
    Option (Except Fault (Option Frame × Bool × Nat)) → Connection × Handled → Prop
  | wait {c : Connection} : Receiving frame_max c first p →
      Does frame_max k first p none (c, .ok (p.length - k, none))
  | fail {c : Connection} {fault : Fault} :
      Does frame_max k first p (some (.error fault)) (c, .error fault)
  | item {c : Connection} {frame : Option Frame} {n : Nat} : k < n →
      Receiving frame_max c false [] →
      Does frame_max k first p (some (.ok (frame, false, n))) (c, .ok (n - k, frame))

theorem receiving_idle (h : c.header_buffer.length = 8) :
    Receiving c.frame_max (return_to_idle c) false [] :=
  .idle rfl rfl h rfl rfl

theorem receiving_new_connection : Receiving 65536 amqp_new_connection true [] :=
  .initial rfl rfl rfl (holds_nil (by decide)) rfl rfl (by decide)

/-- In front of the frame there is room for what is taken of it. -/
theorem poke_behind {buf : Bytes} (h : Holds buf 0 b) (hd : b.length + d.length ≤ buf.length) :
    poke buf b.length d = .ok (store buf b.length d) ∧
      (store buf b.length d).length = buf.length ∧ Holds (store buf b.length d) 0 (b ++ d) := by
  refine ⟨by rw [poke, if_pos hd], length_store hd, ?_⟩
  have hb := h.store_behind (c := d) (by omega)
  rwa [Nat.zero_add] at hb

theorem InBody.grow (h : InBody frame_max c q) (hd : q.length + d.length ≤ c.target_size) :
    InBody frame_max { c with
      inbound_buffer := store c.inbound_buffer q.length d
      inbound_offset := q.length + d.length } (q ++ d) := by
  obtain ⟨-, hsame, hholds⟩ := poke_behind (d := d) h.holds (by rw [h.block]; exact hd)
  have hpeek : peek (q ++ d) 3 4 = peek q 3 4 := peek_append h.headed d
  have hsize : statedSize (q ++ d) = statedSize q := by rw [statedSize, statedSize, hpeek]
  have hlen : (q ++ d).length = q.length + d.length := List.length_append
  exact {
    state := h.state
    limit := h.limit
    header := h.header
    holds := hholds
    offset := hlen.symm
    target := by rw [hsize]; exact h.target
    block := by rw [hsame]; exact h.block
    headed := by have := h.headed; omega
    fits := by rw [hlen]; exact hd
    taken := by rw [TooLarge, hpeek, hsize]; exact h.taken }

theorem InBody.consume (h : InBody frame_max c q) {n : Nat}
    (hn : min (c.target_size - q.length) d.length = n) :
    ∃ c', consume_data c d = .ok (c', d.drop n, n) ∧ c'.target_size = c.target_size ∧
      c'.inbound_offset = q.length + n ∧ InBody frame_max c' (q ++ d.take n) := by
  have hlen : (d.take n).length = n := by
    rw [List.length_take]
    omega
  have hfits := h.fits
  have hroom : q.length + (d.take n).length ≤ c.target_size := by omega
  have hroom' : q.length + (d.take n).length ≤ c.inbound_buffer.length := by
    rw [h.block]
    exact hroom
  have hgrow := h.grow hroom
  rw [hlen] at hgrow
  refine ⟨_, ?_, ?_, ?_, hgrow⟩
  · rw [consume_data, if_pos h.state, h.offset, hn, (poke_behind h.holds hroom').1]
    rfl
  · rfl
  · rfl

/-- With the header taken, the frame at the front is the whole of it or not there yet. -/
theorem InBody.frontFrame (h : InBody frame_max c q) :
    frontFrame frame_max q =
      if q.length < c.target_size then none
      else some ((wholeFrame q).map fun frame => (frame, false, q.length)) := by
  have hfits := h.fits
  have hheaded := h.headed
  rw [Amqp.frontFrame, if_neg (by omega), if_neg h.taken, ← h.target]
  split
  · rfl
  · have hwhole : q.length = c.target_size := by omega
    rw [← hwhole, List.take_length]

/-- A first frame that is not a protocol header is a frame like the others. -/
theorem nextFrame_headed {first : Bool}
    (hfirst : first → 8 ≤ p.length ∧ p.take 4 ≠ ascii "AMQP") :
    nextFrame frame_max first p = frontFrame frame_max (seen first p) := by
  rw [nextFrame, if_neg, if_neg]
  · rintro ⟨hf, hmagic⟩
    exact (hfirst hf).2 hmagic
  · rintro ⟨hf, hlt⟩
    have hlong := (hfirst hf).1
    omega

/-- What comes of a frame that is there as a whole. -/
def outcome (c : Connection) (n : Nat) : Except Fault (Option Frame) → Connection × Handled
  | .error fault => (c, .error fault)
  | .ok frame => (return_to_idle c, .ok (n, frame))

theorem does_body {k n : Nat} {first : Bool} (h : InBody frame_max c (seen first p))
    (hfirst : first → 8 ≤ p.length ∧ p.take 4 ≠ ascii "AMQP") (hk : k + n = p.length) (hn : 0 < n) :
    Does frame_max k first p (nextFrame frame_max first p)
      (if c.inbound_offset < c.target_size then (c, .ok (n, none)) else handleBody c n) := by
  rw [nextFrame_headed hfirst, h.frontFrame, h.offset]
  have hlen := length_seen first p
  have hcount : p.length - k = n := by omega
  split
  · next hlt =>
    have hwait := Does.wait (k := k) (.body h (by omega) hfirst)
    rwa [hcount] at hwait
  · next hge =>
    have hfits := h.fits
    have hraw : c.inbound_buffer = seen first p := h.holds.eq (by rw [h.block]; omega)
    have hsize : c.target_size = (seen first p).length := by rw [← h.block, hraw]
    have hbody : handleBody c n = outcome c n (wholeFrame (seen first p)) := by
      rw [handleBody, wholeFrame, hraw, hsize]
      split
      · rfl
      · rfl
    rw [hbody]
    rcases wholeFrame (seen first p) with fault | frame
    · exact .fail
    · have hitem : Does frame_max k first p (some (.ok (frame, false, p.length)))
          (return_to_idle c, .ok (p.length - k, frame)) :=
        .item (by omega) (h.limit ▸ receiving_idle h.header)
      rwa [hcount, ← hlen] at hitem

/-- What comes behind a frame does not matter for it. -/
theorem Does.of_prefix {k m : Nat} {first : Bool} {out : Connection × Handled}
    (h : Does frame_max k first (p ++ d.take m) (nextFrame frame_max first (p ++ d.take m)) out)
    (hm : m < d.length → nextFrame frame_max first (p ++ d.take m) ≠ none) :
    Does frame_max k first (p ++ d) (nextFrame frame_max first (p ++ d)) out := by
  by_cases hlt : m < d.length
  · obtain ⟨r, hr⟩ := Option.ne_none_iff_exists'.mp (hm hlt)
    have happend := (nextFrame_stable frame_max).append first _ (d.drop m) r hr
    rw [List.append_assoc, List.take_append_drop] at happend
    rw [hr] at h
    rw [happend]
    cases h with
    | fail => exact .fail
    | item hk hidle => exact .item hk hidle
  · rwa [List.take_of_length_le (by omega)] at h

theorem does_consume {k n : Nat} {first : Bool} (h : InBody frame_max c (seen first p))
    (hfirst : first → 8 ≤ p.length ∧ p.take 4 ≠ ascii "AMQP") (hk : k + n = p.length)
    (hn : 0 < n ∨ 0 < min (c.target_size - p.length) d.length) :
    ∃ c' m, consume_data c d = .ok (c', d.drop m, m) ∧ c'.state = .BODY ∧
      Does frame_max k first (p ++ d) (nextFrame frame_max first (p ++ d))
        (if c'.inbound_offset < c'.target_size then (c', .ok (n + m, none))
        else handleBody c' (n + m)) := by
  have hfits := h.fits
  have hlen := length_seen first p
  obtain ⟨m, hm⟩ : ∃ m, min (c.target_size - (seen first p).length) d.length = m := ⟨_, rfl⟩
  obtain ⟨c', hconsume, htarget, hoffset, hbody⟩ := h.consume hm
  rw [← seen_append fun hf => (hfirst hf).1] at hbody
  have hmore : first → 8 ≤ (p ++ d.take m).length ∧ (p ++ d.take m).take 4 ≠ ascii "AMQP" := by
    intro hf
    obtain ⟨hlong, hmagic⟩ := hfirst hf
    rw [List.length_append, List.take_append_of_le_length (by omega)]
    exact ⟨by omega, hmagic⟩
  have htake : (p ++ d.take m).length = p.length + m := by
    rw [List.length_append, List.length_take]
    omega
  have hdoes := does_body (k := k) (n := n + m) hbody hmore (by omega) (by omega)
  refine ⟨c', m, hconsume, hbody.state, hdoes.of_prefix ?_⟩
  intro hlt
  rw [nextFrame_headed hmore, hbody.frontFrame, length_seen, if_neg (by omega)]
  exact Option.some_ne_none _

theorem peek_seen (first : Bool) (b : Bytes) : peek (seen first b) 3 4 = peek b 3 4 := by
  cases first with
  | false => rfl
  | true => rw [seen, peek, peek, List.drop_set, if_neg (by decide), List.take_set_of_le (by decide)]

/-- The header at the front of a new block, as it is seen. -/
theorem holds_block {first : Bool} {n : Nat} (hlen : p.length = if first then 8 else HEADER_SIZE)
    (hn : 8 ≤ n) : Holds (store (List.replicate n 0) 0 (p.take HEADER_SIZE)) 0 (seen first p) := by
  have hstore : store (List.replicate n 0) 0 (p.take HEADER_SIZE) =
      p.take HEADER_SIZE ++ List.replicate (n - (p.take HEADER_SIZE).length) 0 := by
    simp [store]
  rw [hstore]
  cases first with
  | false =>
    rw [List.take_of_length_le (by simp [hlen])]
    exact ⟨[], _, rfl, rfl⟩
  | true =>
    have hseven : (p.take HEADER_SIZE).length = 7 := by simp [hlen, HEADER_SIZE]
    have hseen : seen true p = p.take HEADER_SIZE ++ [0] := by
      have hnil : p.drop 8 = [] := List.drop_eq_nil_of_le (by rw [hlen]; decide)
      rw [seen, List.set_eq_take_append_cons_drop, if_pos (by rw [hlen]; decide), hnil]
      rfl
    have hzero : List.replicate (n - 7) (0 : UInt8) = [0] ++ List.replicate (n - 8) 0 := by
      rw [show n - 7 = n - 8 + 1 by omega]
      rfl
    rw [hseen, hseven, hzero, ← List.append_assoc]
    exact ⟨[], _, rfl, rfl⟩

theorem does_header {k n : Nat} {first : Bool} (hlimit : c.frame_max = frame_max)
    (hheader : c.header_buffer.length = 8) (hholds : Holds c.header_buffer 0 p)
    (hoffset : c.inbound_offset = p.length) (hlen : p.length = if first then 8 else HEADER_SIZE)
    (hfirst : first → 8 ≤ p.length ∧ p.take 4 ≠ ascii "AMQP") (hk : k + n = p.length) (hn : 0 < n) :
    Does frame_max k first (p ++ d) (nextFrame frame_max first (p ++ d)) (handleHeader c d n) := by
  have hseven : HEADER_SIZE ≤ p.length := by
    rw [hlen]
    split <;> decide
  have hpeek : peek c.header_buffer 3 4 = peek (seen first p) 3 4 := by
    rw [Holds.peek_eq hholds hseven, peek_seen]
  have hfront : TooLarge frame_max (seen first p) →
      nextFrame frame_max first (p ++ d) = some (.error (.status .AMQP_STATUS_BAD_AMQP_DATA)) := by
    intro hlarge
    refine (nextFrame_stable frame_max).append first p d _ ?_
    rw [nextFrame_headed hfirst, frontFrame, if_neg (by rw [length_seen]; omega), if_pos hlarge]
  have htake : c.header_buffer.take HEADER_SIZE = p.take HEADER_SIZE := by
    obtain ⟨r, s, hbuf, hr⟩ := hholds
    obtain rfl := List.length_eq_zero_iff.mp hr
    rw [hbuf, List.nil_append, List.take_append_of_le_length hseven]
  rw [handleHeader, hpeek]
  by_cases hsize : 2147483647 ≤ peek (seen first p) 3 4
  · rw [if_pos hsize, hfront (.inl hsize)]
    exact .fail
  rw [if_neg hsize]
  by_cases hmax : frame_max < statedSize (seen first p)
  · rw [hfront (.inr hmax)]
    dsimp only
    rw [if_pos (by rw [hlimit]; exact hmax)]
    exact .fail
  · dsimp only
    rw [if_neg (by rw [hlimit]; exact hmax), htake]
    have hbody : InBody frame_max { c with
        state := .BODY
        inbound_buffer := store (List.replicate (statedSize (seen first p)) 0) 0 (p.take HEADER_SIZE)
        target_size := statedSize (seen first p) } (seen first p) := {
      state := rfl
      limit := hlimit
      header := hheader
      holds := holds_block hlen (by simp only [statedSize, HEADER_SIZE, FOOTER_SIZE]; omega)
      offset := by rw [length_seen]; exact hoffset
      target := rfl
      block := by
        rw [length_store]
        · exact List.length_replicate
        · simp only [List.length_take, List.length_replicate, statedSize]
          omega
      headed := by rw [length_seen]; exact hseven
      fits := by
        rw [length_seen, hlen]
        dsimp only [statedSize, HEADER_SIZE, FOOTER_SIZE]
        split <;> omega
      taken := not_or.mpr ⟨hsize, hmax⟩ }
    obtain ⟨c', m, hconsume, -, hdoes⟩ := does_consume (d := d) hbody hfirst hk (.inl hn)
    simp only [statedSize] at hconsume
    rw [hconsume]
    exact hdoes

/-- Waiting for the header of a frame, or for the eight bytes that come first. -/
structure InHeader (frame_max : Nat) (c : Connection) (first : Bool) (p : Bytes) : Prop where
  state : c.state = if first then .INITIAL else .HEADER
  limit : c.frame_max = frame_max
  header : c.header_buffer.length = 8
  holds : Holds c.header_buffer 0 p
  offset : c.inbound_offset = p.length
  target : c.target_size = if first then 8 else HEADER_SIZE
  fits : p.length ≤ c.target_size

theorem InHeader.consume {first : Bool} (h : InHeader frame_max c first p) {n : Nat}
    (hn : min (c.target_size - p.length) d.length = n) :
    ∃ c', consume_data c d = .ok (c', d.drop n, n) ∧ InHeader frame_max c' first (p ++ d.take n) := by
  have hlen : (d.take n).length = n := by
    rw [List.length_take]
    omega
  have hfits := h.fits
  have htarget : c.target_size ≤ c.header_buffer.length := by
    rw [h.target, h.header]
    split <;> decide
  have hstate : c.state ≠ .BODY := by
    rw [h.state]
    split <;> simp
  obtain ⟨hpoke, hsame, hholds⟩ := poke_behind (d := d.take n) h.holds (by omega)
  have hgrow : InHeader frame_max { c with
      header_buffer := store c.header_buffer p.length (d.take n)
      inbound_offset := p.length + n } first (p ++ d.take n) := {
    state := h.state
    limit := h.limit
    header := hsame.trans h.header
    holds := hholds
    offset := by rw [List.length_append, hlen]
    target := h.target
    fits := by rw [List.length_append, hlen]; dsimp only; omega }
  refine ⟨_, ?_, hgrow⟩
  rw [consume_data, if_neg hstate, h.offset, hn, hpoke]
  rfl

/-- While the header is not complete, there is nothing to tell yet. -/
theorem InHeader.waits {first : Bool} (h : InHeader frame_max c first p)
    (hp : p.length < c.target_size) :
    nextFrame frame_max first p = none ∧ Receiving frame_max c first p := by
  obtain ⟨hstate, hlimit, hheader, hholds, hoffset, htarget, -⟩ := h
  cases first with
  | true =>
    have hshort : p.length < 8 := by rw [htarget] at hp; exact hp
    exact ⟨by rw [nextFrame, if_pos ⟨rfl, hshort⟩],
      .initial hstate hlimit hheader hholds hoffset htarget hshort⟩
  | false =>
    have hshort : p.length < HEADER_SIZE := by rw [htarget] at hp; exact hp
    refine ⟨?_, .header hstate hlimit hheader hholds hoffset htarget hshort⟩
    rw [nextFrame, if_neg (by simp), if_neg (by simp), frontFrame]
    exact if_pos hshort

theorem InHeader.does {k n : Nat} {first : Bool} (h : InHeader frame_max c first p)
    (hp : p.length = c.target_size) (hk : k + n = p.length) (hn : 0 < n) :
    Does frame_max k first (p ++ d) (nextFrame frame_max first (p ++ d)) (handleState c d n) := by
  obtain ⟨hstate, hlimit, hheader, hholds, hoffset, htarget, -⟩ := h
  rw [htarget] at hp
  cases first with
  | false =>
    rw [handleState, hstate]
    exact does_header hlimit hheader hholds hoffset hp (by simp) hk hn
  | true =>
    have hlen : p.length = 8 := hp
    have hraw : c.header_buffer = p := hholds.eq (by omega)
    by_cases hmagic : p.take 4 = ascii "AMQP"
    · have hnext : nextFrame frame_max true p = some (.ok (some (protocolHeader p), false, 8)) := by
        rw [nextFrame, if_neg (by omega), if_pos ⟨rfl, hmagic⟩]
      have hitem : Does frame_max k true (p ++ d) (some (.ok (some (protocolHeader p), false, 8)))
          (return_to_idle c, .ok (8 - k, some (protocolHeader p))) :=
        .item (by omega) (hlimit ▸ receiving_idle hheader)
      rw [(nextFrame_stable frame_max).append true p d _ hnext, handleState, hstate]
      dsimp only
      rw [hraw, if_pos hmagic]
      rwa [show 8 - k = n by omega] at hitem
    · rw [handleState, hstate]
      dsimp only
      rw [hraw, if_neg hmagic]
      exact does_header hlimit hheader hholds hoffset hp (fun _ => ⟨by omega, hmagic⟩) hk hn

theorem does_inHeader {first : Bool} (h : InHeader frame_max c first p) (hp : p.length < c.target_size)
    (hd : d ≠ []) :
    ∃ c' m, consume_data c d = .ok (c', d.drop m, m) ∧
      Does frame_max p.length first (p ++ d) (nextFrame frame_max first (p ++ d))
        (if c'.inbound_offset < c'.target_size then (c', .ok (m, none))
        else handleState c' (d.drop m) m) := by
  obtain ⟨m, hm⟩ : ∃ m, min (c.target_size - p.length) d.length = m := ⟨_, rfl⟩
  obtain ⟨c', hconsume, hhead⟩ := h.consume hm
  have hdpos : 0 < d.length := List.length_pos_iff.mpr hd
  have hsame : c'.target_size = c.target_size := hhead.target.trans h.target.symm
  have htake : (p ++ d.take m).length = p.length + m := by
    rw [List.length_append, List.length_take]
    omega
  have hsplit : p ++ d.take m ++ d.drop m = p ++ d := by
    rw [List.append_assoc, List.take_append_drop]
  refine ⟨c', m, hconsume, ?_⟩
  rw [hhead.offset, hsame, htake]
  split
  · next hlt =>
    have hall : d.take m = d := List.take_of_length_le (by omega)
    rw [hall] at hhead
    obtain ⟨hnone, hreceiving⟩ := hhead.waits (by rw [List.length_append]; omega)
    have hwait := Does.wait (k := p.length) hreceiving
    rw [List.length_append, show p.length + d.length - p.length = m by omega] at hwait
    rw [hnone]
    exact hwait
  · next hge =>
    rw [← hsplit]
    exact hhead.does (by rw [htake, hsame]; omega) htake.symm (by omega)

/-- `amqp_handle_input` keeps to the rule of the stream, whatever it is handed. -/
theorem handle_input_follows (frame_max : Nat) :
    Follows amqp_handle_input (nextFrame frame_max) (Receiving frame_max) := by
  have hdoes : ∀ c first p d, Receiving frame_max c first p → d ≠ [] →
      Does frame_max p.length first (p ++ d) (nextFrame frame_max first (p ++ d))
        (amqp_handle_input c d) := by
    intro c first p d h hd
    have hlen : ¬ d.length = 0 := by simpa using hd
    rw [amqp_handle_input, if_neg hlen]
    cases h with
    | initial hstate hlimit hheader hholds hoffset htarget hshort =>
      have hin : InHeader frame_max c true p :=
        ⟨hstate, hlimit, hheader, hholds, hoffset, htarget, by omega⟩
      obtain ⟨c', m, hconsume, h⟩ := does_inHeader hin (by omega) hd
      rw [if_neg (by simp [hstate])]
      dsimp only
      rw [hconsume]
      exact h
    | idle hstate hlimit hheader hoffset htarget =>
      have hin : InHeader frame_max { c with state := .HEADER } false [] :=
        ⟨rfl, hlimit, hheader, holds_nil (by simp), hoffset, htarget, by simp⟩
      obtain ⟨c', m, hconsume, h⟩ := does_inHeader hin (by simp [htarget, HEADER_SIZE]) hd
      rw [if_pos hstate]
      dsimp only
      rw [hconsume]
      exact h
    | header hstate hlimit hheader hholds hoffset htarget hshort =>
      have hin : InHeader frame_max c false p :=
        ⟨hstate, hlimit, hheader, hholds, hoffset, htarget, by omega⟩
      obtain ⟨c', m, hconsume, h⟩ := does_inHeader hin (by omega) hd
      rw [if_neg (by simp [hstate])]
      dsimp only
      rw [hconsume]
      exact h
    | body hbody hshort hfirst =>
      have hpos : 0 < d.length := List.length_pos_iff.mpr hd
      obtain ⟨c', m, hconsume, hstate, h⟩ := does_consume (k := p.length) (n := 0) (d := d) hbody
        hfirst rfl (.inr (by omega))
      rw [if_neg (by simp [hbody.state])]
      dsimp only
      rw [hconsume]
      dsimp only
      rw [handleState, hstate]
      rwa [Nat.zero_add] at h
  constructor
  · intro c first p d h hd hnext
    have hall := hdoes c first p d h hd
    rw [hnext] at hall
    generalize hout : amqp_handle_input c d = out at hall
    cases hall with
    | @wait c' hreceiving =>
      rw [List.length_append, Nat.add_sub_cancel_left]
      exact ⟨c', rfl, hreceiving⟩
  · intro c first p d fault h hd hnext
    have hall := hdoes c first p d h hd
    rw [hnext] at hall
    generalize hout : amqp_handle_input c d = out at hall
    cases hall with
    | @fail c' fault => exact ⟨c', rfl⟩
  · intro c first p d frame first' n h hd hnext
    have hall := hdoes c first p d h hd
    rw [hnext] at hall
    generalize hout : amqp_handle_input c d = out at hall
    cases hall with
    | @item c' frame n hk hidle => exact ⟨hk, c', rfl, hidle⟩

end RabbitClient.Amqp
