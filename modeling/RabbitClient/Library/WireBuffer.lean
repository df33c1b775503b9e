import RabbitClient.Library.BigEndian
import Mathlib.Data.List.Basic

/-!
Buffers of fixed length that are written and read at a running offset: what an encoder emits,
what a decoder reads, and how both compose.
-/
namespace WireBuffer

open Bytes

variable {ε δ α β : Type} {buf a b c : Bytes} {o : Nat} {x : α} {y : β}

/-- The bytes `b` stand at the offset `o`. -/
def Holds (buf : Bytes) (o : Nat) (b : Bytes) : Prop :=
  ∃ p r, buf = p ++ (b ++ r) ∧ p.length = o

/-- Copying `b` to the offset `o`. -/
def store (buf : Bytes) (o : Nat) (b : Bytes) : Bytes :=
  buf.take o ++ (b ++ buf.drop (o + b.length))

theorem Holds.le (h : Holds buf o b) : o + b.length ≤ buf.length := by
  obtain ⟨p, r, rfl, rfl⟩ := h
  simp only [List.length_append]
  omega

theorem holds_nil (h : o ≤ buf.length) : Holds buf o [] :=
  ⟨buf.take o, buf.drop o, by simp, by simp [h]⟩

theorem holds_append : Holds buf o (b ++ c) ↔ Holds buf o b ∧ Holds buf (o + b.length) c := by
  constructor
  · rintro ⟨p, r, rfl, rfl⟩
    exact ⟨⟨p, c ++ r, by simp, rfl⟩, ⟨p ++ b, r, by simp, by simp⟩⟩
  · rintro ⟨⟨p, r, rfl, rfl⟩, ⟨q, s, he, hq⟩⟩
    have hassoc : p ++ (b ++ r) = (p ++ b) ++ r := (List.append_assoc p b r).symm
    rw [hassoc] at he
    obtain ⟨rfl, rfl⟩ := List.append_inj he (by simp [hq])
    exact ⟨p, s, by simp, rfl⟩

theorem holds_take_drop {n : Nat} (h : o + n ≤ buf.length) :
    Holds buf o ((buf.drop o).take n) := by
  refine ⟨buf.take o, buf.drop (o + n), ?_, by simp; omega⟩
  rw [← List.drop_drop, List.take_append_drop, List.take_append_drop]

theorem Holds.take_drop (h : Holds buf o b) : (buf.drop o).take b.length = b := by
  obtain ⟨p, r, rfl, rfl⟩ := h
  simp

theorem store_nil (buf : Bytes) (o : Nat) : store buf o [] = buf := by
  simp [store]

theorem length_store (h : o + b.length ≤ buf.length) : (store buf o b).length = buf.length := by
  simp only [store, List.length_append, List.length_take, List.length_drop]
  omega

theorem holds_store (h : o ≤ buf.length) : Holds (store buf o b) o b :=
  ⟨buf.take o, buf.drop (o + b.length), rfl, by simp [h]⟩

theorem store_append (h : o + b.length ≤ buf.length) :
    store (store buf o b) (o + b.length) c = store buf o (b ++ c) := by
  have hl : (buf.take o ++ b).length = o + b.length := by
    simp only [List.length_append, List.length_take]
    omega
  have hs : store buf o b = (buf.take o ++ b) ++ buf.drop (o + b.length) := by
    simp [store]
  rw [hs, store, List.take_left' hl, ← List.drop_drop, List.drop_left' hl, List.drop_drop]
  simp [store, Nat.add_assoc]

/-- A copy directly behind what stands there. -/
theorem Holds.store_behind (h : Holds buf o b) (hc : o + b.length + c.length ≤ buf.length) :
    Holds (store buf (o + b.length) c) o (b ++ c) := by
  obtain ⟨p, r, rfl, rfl⟩ := h
  refine ⟨p, r.drop c.length, ?_, rfl⟩
  rw [store, ← List.append_assoc p b r, List.take_left' (by simp), ← List.drop_drop,
    List.drop_left' (by simp)]
  simp

theorem Holds.eq (h : Holds buf 0 b) (hb : buf.length ≤ b.length) : buf = b := by
  obtain ⟨p, r, rfl, hp⟩ := h
  obtain rfl := List.length_eq_zero_iff.mp hp
  simp only [List.length_append, List.length_nil] at hb
  obtain rfl : r = [] := List.length_eq_zero_iff.mp (by omega)
  simp

/-- Bytes in front of an earlier copy, filled in afterwards. -/
theorem store_store_front {n : Nat} (hn : b.length = n) (h : o + n ≤ buf.length) :
    store (store buf (o + n) c) o b = store buf o (b ++ c) := by
  have hl : (buf.take (o + n)).length = o + n := by simp only [List.length_take]; omega
  have ht : (store buf (o + n) c).take o = buf.take o := by
    have ho : o ≤ (buf.take (o + n)).length := by omega
    rw [store, List.take_append_of_le_length ho, List.take_take]
    congr 1
    omega
  have hd : (store buf (o + n) c).drop (o + n) = c ++ buf.drop (o + (b ++ c).length) := by
    rw [store, List.drop_left' hl, List.length_append, hn, Nat.add_assoc]
  calc store (store buf (o + n) c) o b
      = (store buf (o + n) c).take o ++ (b ++ (store buf (o + n) c).drop (o + n)) := by
        rw [store, hn]
    _ = store buf o (b ++ c) := by
        rw [ht, hd, store]
        simp

/-- A buffer and the offset it is filled up to. -/
structure Out where
  encoded : Bytes
  offset : Nat
deriving DecidableEq

/-- The bytes `b` written at the offset. -/
def Out.put (s : Out) (b : Bytes) : Out := ⟨store s.encoded s.offset b, s.offset + b.length⟩

/-- There is room for `b`; nothing has room anywhere, also behind the end. -/
def Fits (s : Out) (b : Bytes) : Prop := b = [] ∨ s.offset + b.length ≤ s.encoded.length

abbrev Encoder (ε : Type) := StateT Out (Except ε)

/-- What an encoder emits: the bytes `w` where they fit. It fails where they do not, and
everywhere when there are none. -/
structure Emits (e : Encoder ε Unit) (w : Option Bytes) : Prop where
  ok : ∀ s b, w = some b → Fits s b → e s = .ok ((), s.put b)
  error : ∀ s, (∀ b, w = some b → ¬ Fits s b) → ∃ err, e s = .error err

@[simp] theorem Out.put_nil (s : Out) : s.put [] = s := by
  simp [Out.put, store_nil]

theorem Out.put_append {s : Out} (h : Fits s b) : (s.put b).put c = s.put (b ++ c) := by
  rcases h with rfl | h
  · simp
  · simp only [Out.put, store_append h, List.length_append, Nat.add_assoc]

theorem Fits.length_put {s : Out} (h : Fits s b) : (s.put b).encoded.length = s.encoded.length := by
  rcases h with rfl | h
  · simp
  · exact length_store h

theorem Fits.length_le {s : Out} (h : Fits s b) : b.length ≤ s.encoded.length := by
  rcases h with rfl | h
  · simp
  · omega

theorem fits_append {s : Out} : Fits s (b ++ c) ↔ Fits s b ∧ Fits (s.put b) c := by
  constructor
  · intro h
    have hb : Fits s b := by
      rcases h with hnil | h
      · exact .inl (List.append_eq_nil_iff.mp hnil).1
      · rw [List.length_append] at h
        exact .inr (by omega)
    refine ⟨hb, ?_⟩
    rcases h with hnil | h
    · exact .inl (List.append_eq_nil_iff.mp hnil).2
    · right
      rw [hb.length_put, Out.put]
      simpa [Nat.add_assoc] using h
  · rintro ⟨hb, hc⟩
    rcases hc with rfl | hc
    · simpa using hb
    · right
      rw [hb.length_put, Out.put] at hc
      simpa [Nat.add_assoc] using hc

theorem Emits.pure : Emits (pure () : Encoder ε Unit) (some []) where
  ok := by
    rintro s b ⟨rfl⟩ -
    rw [Out.put_nil]
    rfl
  error := fun s h => absurd (.inl rfl) (h [] rfl)

/-- Both parts, if both can be encoded. -/
def both (w₁ w₂ : Option Bytes) : Option Bytes := w₁.bind fun a => w₂.map (a ++ ·)

theorem both_eq_some {w₁ w₂ : Option Bytes} :
    both w₁ w₂ = some b ↔ ∃ a c, w₁ = some a ∧ w₂ = some c ∧ a ++ c = b := by
  simp [both, Option.bind_eq_some_iff]

theorem Emits.eq_ok {e : Encoder ε Unit} {w : Option Bytes} (h : Emits e w) {s s' : Out}
    (he : e s = .ok ((), s')) : ∃ b, w = some b ∧ Fits s b ∧ s' = s.put b := by
  by_cases hex : ∃ b, w = some b ∧ Fits s b
  · obtain ⟨b, hb, hfit⟩ := hex
    rw [h.ok s b hb hfit] at he
    cases he
    exact ⟨b, hb, hfit, rfl⟩
  · obtain ⟨err, herr⟩ := h.error s fun b hb hfit => hex ⟨b, hb, hfit⟩
    rw [herr] at he
    cases he

theorem both_assoc (w₁ w₂ w₃ : Option Bytes) : both (both w₁ w₂) w₃ = both w₁ (both w₂ w₃) := by
  cases w₁ <;> cases w₂ <;> cases w₃ <;> simp [both]

/-- Encoders in sequence emit their bytes one behind the other. -/
theorem Emits.bind {e₁ e₂ : Encoder ε Unit} {w₁ w₂ : Option Bytes} (h₁ : Emits e₁ w₁)
    (h₂ : Emits e₂ w₂) : Emits (e₁ >>= fun _ => e₂) (both w₁ w₂) where
  ok := by
    intro s b hb hfit
    obtain ⟨a, c, ha, hc, rfl⟩ := both_eq_some.mp hb
    obtain ⟨hfa, hfc⟩ := fits_append.mp hfit
    change (e₁ s >>= fun p => e₂ p.2) = _
    rw [h₁.ok s a ha hfa, ← Out.put_append hfa]
    exact h₂.ok _ c hc hfc
  error := by
    intro s h
    change ∃ err, (e₁ s >>= fun p => e₂ p.2) = _
    by_cases hex : ∃ a, w₁ = some a ∧ Fits s a
    · obtain ⟨a, ha, hfa⟩ := hex
      rw [h₁.ok s a ha hfa]
      refine h₂.error _ fun c hc hfc => ?_
      exact h (a ++ c) (both_eq_some.mpr ⟨a, c, ha, hc, rfl⟩) (fits_append.mpr ⟨hfa, hfc⟩)
    · obtain ⟨err, he⟩ := h₁.error s fun a ha hfa => hex ⟨a, ha, hfa⟩
      exact ⟨err, by rw [he]; rfl⟩

/-- The bytes `b`, if there is room for them. -/
def write (b : Bytes) : Encoder Unit Unit := fun s =>
  if s.offset + b.length ≤ s.encoded.length then .ok ((), s.put b) else .error ()

theorem emits_write (hb : b ≠ []) : Emits (write b) (some b) where
  ok := by
    rintro s b ⟨rfl⟩ (hnil | hfit)
    · exact absurd hnil hb
    · rw [write, if_pos hfit]
  error := by
    intro s h
    have hfit : ¬ s.offset + b.length ≤ s.encoded.length := fun hfit => h b rfl (.inr hfit)
    exact ⟨(), by rw [write, if_neg hfit]⟩

/-- What the caller returns where an encoder fails. -/
def Encoder.orReturn (e : Encoder ε α) (err : δ) : Encoder δ α := fun s =>
  (e s).mapError fun _ => err

theorem Emits.orReturn {e : Encoder ε Unit} {w : Option Bytes} (h : Emits e w) (err : δ) :
    Emits (e.orReturn err) w where
  ok := by
    intro s b hb hfit
    rw [Encoder.orReturn, h.ok s b hb hfit]
    rfl
  error := by
    intro s hw
    obtain ⟨_, he⟩ := h.error s hw
    exact ⟨err, by rw [Encoder.orReturn, he]; rfl⟩

theorem emits_fail (err : ε) : Emits (throw err : Encoder ε Unit) none where
  ok := by simp
  error := fun _ _ => ⟨err, rfl⟩

/-- Fills the `n` bytes at `start` with what is to be said of the number of bytes behind them. -/
def fillIn (start n : Nat) (size : Nat → Bytes) (err : ε) : Encoder ε Unit := fun s =>
  if start + n ≤ s.encoded.length then
    .ok ((), { s with encoded := store s.encoded start (size (s.offset - start - n)) })
  else .error err

/-- An encoder behind a gap of `n` bytes that is filled in afterwards. -/
def backfill (n : Nat) (size : Nat → Bytes) (err : ε) (body : Encoder ε Unit) :
    Encoder ε Unit := fun s => do
  let ((), s') ← body { s with offset := s.offset + n }
  fillIn s.offset n size err s'

/-- Behind a gap there is room for `b` if the gap and `b` have room. -/
theorem fits_behind {s : Out} {n : Nat} (hn : a.length = n) (hpos : 0 < n) :
    Fits s (a ++ b) ↔
      s.offset + n ≤ s.encoded.length ∧ Fits { s with offset := s.offset + n } b := by
  have ha : a ≠ [] := by
    rintro rfl
    simp only [List.length_nil] at hn
    omega
  simp only [Fits, List.append_eq_nil_iff, ha, false_and, false_or, List.length_append, hn]
  constructor
  · intro h
    exact ⟨by omega, .inr (by omega)⟩
  · rintro ⟨hgap, rfl | h⟩
    · simpa using hgap
    · omega

/-- The gap does not change what is emitted: the size, and behind it the bytes. -/
theorem Emits.backfill {n : Nat} {size : Nat → Bytes} {err : ε} {body : Encoder ε Unit}
    {w : Option Bytes} (hsize : ∀ k, (size k).length = n) (hpos : 0 < n) (h : Emits body w) :
    Emits (backfill n size err body) (w.map fun b => size b.length ++ b) where
  ok := by
    intro s b hb hfit
    obtain ⟨c, hc, rfl⟩ := Option.map_eq_some_iff.mp hb
    obtain ⟨hgap, hfc⟩ := (fits_behind (hsize _) hpos).mp hfit
    have hle : s.offset + n ≤ (Out.put { s with offset := s.offset + n } c).encoded.length := by
      rw [hfc.length_put]
      exact hgap
    have hcount : s.offset + n + c.length - s.offset - n = c.length := by omega
    rw [WireBuffer.backfill, h.ok _ c hc hfc]
    change fillIn s.offset n size err (Out.put { s with offset := s.offset + n } c) = _
    rw [fillIn, if_pos hle]
    simp only [Out.put, hcount, store_store_front (hsize _) hgap]
    simp only [List.length_append, hsize, Nat.add_assoc]
  error := by
    intro s hw
    by_cases hex : ∃ c, w = some c ∧ Fits { s with offset := s.offset + n } c
    · obtain ⟨c, hc, hfc⟩ := hex
      have hgap : ¬ s.offset + n ≤ (Out.put { s with offset := s.offset + n } c).encoded.length := by
        intro hgap
        rw [hfc.length_put] at hgap
        exact hw _ (by rw [hc]; rfl) ((fits_behind (hsize _) hpos).mpr ⟨hgap, hfc⟩)
      refine ⟨err, ?_⟩
      rw [WireBuffer.backfill, h.ok _ c hc hfc]
      change fillIn s.offset n size err (Out.put { s with offset := s.offset + n } c) = _
      rw [fillIn, if_neg hgap]
    · obtain ⟨err', he⟩ := h.error { s with offset := s.offset + n } fun c hc hfc => hex ⟨c, hc, hfc⟩
      exact ⟨err', by rw [WireBuffer.backfill, he]; rfl⟩

abbrev Decoder (ε : Type) := ReaderT Bytes (StateT Nat (Except ε))

/-- Wherever the bytes `b` stand, the decoder reads them, and reads them as `x`. -/
def Reads (d : Decoder ε α) (b : Bytes) (x : α) : Prop :=
  ∀ buf o, Holds buf o b → d buf o = .ok (x, o + b.length)

/-- What a decoder accepts is a piece of the buffer, and it accepts that piece everywhere. -/
def Consumes (d : Decoder ε α) : Prop :=
  ∀ buf o x o', o ≤ buf.length → d buf o = .ok (x, o') →
    ∃ b, Holds buf o b ∧ o' = o + b.length ∧ Reads d b x

theorem reads_pure (x : α) : Reads (pure x : Decoder ε α) [] x := fun _ _ _ => rfl

theorem Reads.bind {d : Decoder ε α} {f : α → Decoder ε β} (hd : Reads d b x)
    (hf : Reads (f x) c y) : Reads (d >>= f) (b ++ c) y := by
  intro buf o h
  obtain ⟨hb, hc⟩ := holds_append.mp h
  change (d buf o >>= fun p => f p.1 buf p.2) = _
  rw [hd buf o hb, List.length_append, ← Nat.add_assoc]
  exact hf buf _ hc

theorem Reads.map {d : Decoder ε α} (f : α → β) (hd : Reads d b x) : Reads (f <$> d) b (f x) := by
  have h := Reads.bind (f := fun x => pure (f x)) hd (reads_pure (f x))
  rwa [List.append_nil] at h

theorem consumes_pure (x : α) : Consumes (pure x : Decoder ε α) := by
  rintro buf o x' o' ho ⟨⟩
  exact ⟨[], holds_nil ho, by simp, reads_pure x⟩

theorem consumes_throw (err : ε) : Consumes (throw err : Decoder ε α) := by
  rintro buf o x' o' _ ⟨⟩

/-- A sequence that succeeds is one that succeeds after the other. -/
theorem except_bind_eq_ok {e : Except ε α} {f : α → Except ε β} :
    e >>= f = .ok y ↔ ∃ x, e = .ok x ∧ f x = .ok y := by
  cases e <;> simp [Bind.bind, Except.bind]

/-- An error of a sequence is an error of one of its parts. -/
theorem except_bind_ne_error {e : Except ε α} {f : α → Except ε β} {err : ε} (he : e ≠ .error err)
    (hf : ∀ x, f x ≠ .error err) : e >>= f ≠ .error err := by
  cases e with
  | error e => simpa [Bind.bind, Except.bind] using he
  | ok x => exact hf x

theorem bind_run (d : Decoder ε α) (f : α → Decoder ε β) (buf : Bytes) (o : Nat) :
    (d >>= f) buf o = d buf o >>= fun p => f p.1 buf p.2 := rfl

theorem bind_eq_ok {d : Decoder ε α} {f : α → Decoder ε β} {r : β × Nat} :
    (d >>= f) buf o = .ok r ↔ ∃ x o', d buf o = .ok (x, o') ∧ f x buf o' = .ok r := by
  change (d buf o >>= fun p => f p.1 buf p.2) = .ok r ↔ _
  simp [except_bind_eq_ok]

theorem map_eq_ok {d : Decoder ε α} {f : α → β} {r : β × Nat} :
    (f <$> d) buf o = .ok r ↔ ∃ x, d buf o = .ok (x, r.2) ∧ f x = r.1 := by
  change (d buf o >>= fun p => .ok (f p.1, p.2)) = .ok r ↔ _
  obtain ⟨y, o'⟩ := r
  simp [except_bind_eq_ok]

theorem Consumes.bind {d : Decoder ε α} {f : α → Decoder ε β} (hd : Consumes d)
    (hf : ∀ x, Consumes (f x)) : Consumes (d >>= f) := by
  intro buf o y o' ho h
  obtain ⟨x, o₁, hx, hy⟩ := bind_eq_ok.mp h
  obtain ⟨b, hb, rfl, hrb⟩ := hd buf o x o₁ ho hx
  obtain ⟨c, hc, rfl, hrc⟩ := hf x buf _ y o' hb.le hy
  refine ⟨b ++ c, holds_append.mpr ⟨hb, hc⟩, ?_, hrb.bind hrc⟩
  rw [List.length_append, Nat.add_assoc]

theorem Consumes.map {d : Decoder ε α} (f : α → β) (hd : Consumes d) : Consumes (f <$> d) :=
  hd.bind (f := fun x => pure (f x)) fun x => consumes_pure (f x)

/-- The next `n` bytes. -/
def take (n : Nat) : Decoder Unit Bytes := fun buf o =>
  if o + n ≤ buf.length then .ok ((buf.drop o).take n, o + n) else .error ()

theorem reads_take (b : Bytes) : Reads (take b.length) b b := by
  intro buf o h
  rw [take, if_pos h.le, h.take_drop]

theorem consumes_take (n : Nat) : Consumes (take n) := by
  intro buf o x o' _ h
  rw [take] at h
  split at h
  · next hle =>
    cases h
    have hlen : ((buf.drop o).take n).length = n := by
      simp only [List.length_take, List.length_drop]
      omega
    have hr := reads_take ((buf.drop o).take n)
    rw [hlen] at hr
    exact ⟨_, holds_take_drop hle, by rw [hlen], hr⟩
  · cases h

/-- Another way to report the errors of a decoder. -/
def Decoder.mapError (d : Decoder ε α) (f : ε → δ) : Decoder δ α := fun buf o =>
  (d buf o).mapError f

theorem mapError_eq_ok {d : Decoder ε α} {f : ε → δ} {r : α × Nat} :
    d.mapError f buf o = .ok r ↔ d buf o = .ok r := by
  rw [Decoder.mapError]
  cases d buf o <;> simp [Except.mapError]

theorem Reads.mapError {d : Decoder ε α} (h : Reads d b x) (f : ε → δ) :
    Reads (d.mapError f) b x := fun buf o hb => mapError_eq_ok.mpr (h buf o hb)

theorem Consumes.mapError {d : Decoder ε α} (h : Consumes d) (f : ε → δ) :
    Consumes (d.mapError f) := by
  intro buf o x o' ho hx
  obtain ⟨b, hb, he, hr⟩ := h buf o x o' ho (mapError_eq_ok.mp hx)
  exact ⟨b, hb, he, hr.mapError f⟩

/-- What the caller returns where a decoder fails. -/
def Decoder.orReturn (d : Decoder ε α) (err : δ) : Decoder δ α := d.mapError fun _ => err

theorem orReturn_eq_ok {d : Decoder ε α} {err : δ} {r : α × Nat} :
    d.orReturn err buf o = .ok r ↔ d buf o = .ok r := mapError_eq_ok

theorem Reads.orReturn {d : Decoder ε α} (h : Reads d b x) (err : δ) :
    Reads (d.orReturn err) b x := h.mapError _

theorem Consumes.orReturn {d : Decoder ε α} (h : Consumes d) (err : δ) :
    Consumes (d.orReturn err) := h.mapError _

/-- A decoder that is at an end after `o` moves on inside the buffer, and does the same wherever the
bytes between stand. -/
theorem Consumes.moved {d : Decoder ε α} {buf' : Bytes} {o' p : Nat} (h : Consumes d)
    (ho : o ≤ buf.length) (hd : d buf o = .ok (x, o')) :
    o ≤ o' ∧ o' ≤ buf.length ∧
      (Holds buf' p ((buf.drop o).take (o' - o)) → d buf' p = .ok (x, p + (o' - o))) := by
  obtain ⟨b, hb, rfl, hr⟩ := h buf o x o' ho hd
  have hsub : o + b.length - o = b.length := by omega
  refine ⟨by omega, hb.le, ?_⟩
  rw [hsub, hb.take_drop]
  exact hr buf' p

/-- Success moves the offset on. -/
def Advances (d : Decoder ε α) : Prop :=
  ∀ buf o x o', o ≤ buf.length → d buf o = .ok (x, o') → o < o'

theorem Advances.bind {d : Decoder ε α} {f : α → Decoder ε β} (hd : Advances d)
    (hc : Consumes d) (hf : ∀ x, Consumes (f x)) : Advances (d >>= f) := by
  intro buf o y o' ho h
  obtain ⟨x, o₁, hx, hy⟩ := bind_eq_ok.mp h
  have hlt := hd buf o x o₁ ho hx
  obtain ⟨b, hb, rfl, -⟩ := hc buf o x o₁ ho hx
  obtain ⟨c, -, rfl, -⟩ := hf x buf _ y o' hb.le hy
  omega

theorem Advances.map {d : Decoder ε α} (f : α → β) (hd : Advances d) (hc : Consumes d) :
    Advances (f <$> d) :=
  hd.bind (f := fun x => pure (f x)) hc fun x => consumes_pure (f x)

theorem Advances.orReturn {d : Decoder ε α} (h : Advances d) (err : δ) :
    Advances (d.orReturn err) := fun buf o x o' ho hx => h buf o x o' ho (orReturn_eq_ok.mp hx)

theorem advances_take {n : Nat} (h : 0 < n) : Advances (take n) := by
  intro buf o x o' _ hx
  rw [take] at hx
  split at hx
  · cases hx
    omega
  · cases hx

/-- `while (*offset < limit)`, for at most `n` rounds. -/
def whileBelow (limit : Nat) (d : Decoder ε α) : Nat → Bytes → Nat → Except ε (List α × Nat)
  | 0, _, o => .ok ([], o)
  | n + 1, buf, o =>
    if o < limit then do
      let (x, o) ← d buf o
      let (xs, o) ← whileBelow limit d n buf o
      return (x :: xs, o)
    else .ok ([], o)

theorem whileBelow_of_le {limit n : Nat} {d : Decoder ε α} (h : limit ≤ o) :
    whileBelow limit d n buf o = .ok ([], o) := by
  cases n with
  | zero => rfl
  | succ n => rw [whileBelow, if_neg (by omega)]

theorem whileBelow_of_lt {limit n : Nat} {d : Decoder ε α} (h : o < limit) :
    whileBelow limit d (n + 1) buf o = d buf o >>= fun p =>
      whileBelow limit d n buf p.2 >>= fun q => .ok (p.1 :: q.1, q.2) := by
  rw [whileBelow, if_pos h]
  rfl

theorem whileBelow_eq_ok {limit n o' : Nat} {d : Decoder ε α} {l : List α} (h : o < limit) :
    whileBelow limit d (n + 1) buf o = .ok (l, o') ↔ ∃ x o₁ xs, d buf o = .ok (x, o₁) ∧
      whileBelow limit d n buf o₁ = .ok (xs, o') ∧ x :: xs = l := by
  rw [whileBelow_of_lt h, except_bind_eq_ok]
  constructor
  · rintro ⟨⟨x, o₁⟩, hx, h⟩
    obtain ⟨⟨xs, o₂⟩, hxs, hl⟩ := except_bind_eq_ok.mp h
    cases hl
    exact ⟨x, o₁, xs, hx, hxs, rfl⟩
  · rintro ⟨x, o₁, xs, hx, hxs, rfl⟩
    exact ⟨(x, o₁), hx, except_bind_eq_ok.mpr ⟨(xs, o'), hxs, rfl⟩⟩

/-- The rounds that are left make no difference as long as there are enough of them. -/
theorem whileBelow_succ {limit n : Nat} {d : Decoder ε α} (hc : Consumes d) (ha : Advances d)
    (ho : o ≤ buf.length) (h : limit ≤ o + n) :
    whileBelow limit d n buf o = whileBelow limit d (n + 1) buf o := by
  induction n generalizing o with
  | zero => rw [whileBelow_of_le (by omega), whileBelow_of_le (by omega)]
  | succ n ih =>
    by_cases hlt : o < limit
    · rw [whileBelow_of_lt hlt, whileBelow_of_lt hlt]
      cases hx : d buf o with
      | error e => rfl
      | ok p =>
        have hadv := ha buf o p.1 p.2 ho hx
        obtain ⟨b, hb, he, -⟩ := hc buf o p.1 p.2 ho hx
        have htail := ih (o := p.2) (he ▸ hb.le) (by omega)
        simp only [Bind.bind, Except.bind, htail]
    · rw [whileBelow_of_le (by omega), whileBelow_of_le (by omega)]

/-- The elements that end at the limit. -/
def ReadsList (d : Decoder ε α) (b : Bytes) (xs : List α) : Prop :=
  ∀ buf o n, Holds buf o b → b.length ≤ n →
    whileBelow (o + b.length) d n buf o = .ok (xs, o + b.length)

theorem readsList_nil (d : Decoder ε α) : ReadsList d [] [] := by
  intro buf o n _ _
  rw [whileBelow_of_le (by simp)]
  rfl

theorem ReadsList.cons {d : Decoder ε α} {xs : List α} (hd : Reads d b x) (hb : b ≠ [])
    (hs : ReadsList d c xs) : ReadsList d (b ++ c) (x :: xs) := by
  intro buf o n h hn
  obtain ⟨hhb, hhc⟩ := holds_append.mp h
  have hpos : 0 < b.length := List.length_pos_iff.mpr hb
  rw [List.length_append] at hn ⊢
  obtain ⟨n, rfl⟩ : ∃ m, n = m + 1 := ⟨n - 1, by omega⟩
  have htail := hs buf (o + b.length) n hhc (by omega)
  rw [← Nat.add_assoc]
  exact (whileBelow_eq_ok (by omega)).mpr ⟨x, _, xs, hd buf o hhb, htail, rfl⟩

/-- What the loop accepts, it accepts at every other place, with the limit as far away. -/
theorem whileBelow_consumes {limit n : Nat} {d : Decoder ε α} {xs : List α} {o' : Nat}
    (hc : Consumes d) (ha : Advances d) (ho : o ≤ buf.length)
    (h : whileBelow limit d n buf o = .ok (xs, o')) (hn : limit ≤ o + n) :
    ∃ b, Holds buf o b ∧ o' = o + b.length ∧ limit ≤ o' ∧
      ∀ buf₂ o₂ n₂ limit₂, Holds buf₂ o₂ b → limit₂ - o₂ = limit - o → limit₂ ≤ o₂ + n₂ →
        whileBelow limit₂ d n₂ buf₂ o₂ = .ok (xs, o₂ + b.length) := by
  induction n generalizing o xs with
  | zero =>
    cases h
    refine ⟨[], holds_nil ho, rfl, hn, ?_⟩
    intro buf₂ o₂ n₂ limit₂ _ he _
    exact whileBelow_of_le (by omega)
  | succ n ih =>
    by_cases hlt : o < limit
    · obtain ⟨x, o₁, xs, hx, htail, rfl⟩ := (whileBelow_eq_ok hlt).mp h
      have hadv := ha buf o x o₁ ho hx
      obtain ⟨b, hb, rfl, hr⟩ := hc buf o x o₁ ho hx
      obtain ⟨c, hcc, rfl, hend, hrest⟩ := ih hb.le htail (by omega)
      refine ⟨b ++ c, holds_append.mpr ⟨hb, hcc⟩, by simp [Nat.add_assoc], hend, ?_⟩
      intro buf₂ o₂ n₂ limit₂ hh he hn₂
      obtain ⟨hhb, hhc⟩ := holds_append.mp hh
      obtain ⟨n₂, rfl⟩ : ∃ m, n₂ = m + 1 := ⟨n₂ - 1, by omega⟩
      have hgo := hrest buf₂ (o₂ + b.length) n₂ limit₂ hhc (by omega) (by omega)
      rw [List.length_append, ← Nat.add_assoc]
      exact (whileBelow_eq_ok (by omega)).mpr ⟨x, _, xs, hr buf₂ o₂ hhb, hgo, rfl⟩
    · rw [whileBelow_of_le (by omega)] at h
      cases h
      refine ⟨[], holds_nil ho, rfl, by omega, ?_⟩
      intro buf₂ o₂ n₂ limit₂ _ he _
      exact whileBelow_of_le (by omega)

/-- All that the decoder gives satisfies `P`. -/
def Yields (d : Decoder ε α) (P : α → Prop) : Prop :=
  ∀ buf o x o', d buf o = .ok (x, o') → P x

theorem Yields.bind {d : Decoder ε α} {f : α → Decoder ε β} {P : α → Prop} {Q : β → Prop}
    (hd : Yields d P) (hf : ∀ x, P x → Yields (f x) Q) : Yields (d >>= f) Q := by
  intro buf o y o' h
  obtain ⟨x, o₁, hx, hy⟩ := bind_eq_ok.mp h
  exact hf x (hd buf o x o₁ hx) buf o₁ y o' hy

theorem yields_pure {P : α → Prop} (h : P x) : Yields (pure x : Decoder ε α) P := by
  rintro buf o x' o' ⟨⟩
  exact h

theorem yields_throw (err : ε) (P : α → Prop) : Yields (throw err : Decoder ε α) P := by
  rintro buf o x o' ⟨⟩

theorem Yields.map {d : Decoder ε α} {P : α → Prop} {Q : β → Prop} {f : α → β} (hd : Yields d P)
    (hf : ∀ x, P x → Q (f x)) : Yields (f <$> d) Q :=
  hd.bind (f := fun x => pure (f x)) fun x hx => yields_pure (hf x hx)

theorem Yields.mapError {d : Decoder ε α} {P : α → Prop} (h : Yields d P) (f : ε → δ) :
    Yields (d.mapError f) P := fun buf o x o' hx => h buf o x o' (mapError_eq_ok.mp hx)

theorem Yields.orReturn {d : Decoder ε α} {P : α → Prop} (h : Yields d P) (err : δ) :
    Yields (d.orReturn err) P := h.mapError _

theorem yields_take (n : Nat) : Yields (take n) fun b => b.length ≤ n := by
  intro buf o b o' h
  rw [take] at h
  split at h
  · cases h
    exact List.length_take_le n _
  · cases h

theorem Yields.whileBelow {limit n : Nat} {d : Decoder ε α} {P : α → Prop} (h : Yields d P) :
    Yields (whileBelow limit d n) fun xs => ∀ x ∈ xs, P x := by
  induction n with
  | zero =>
    rintro buf o xs o' ⟨⟩
    simp
  | succ n ih =>
    intro buf o xs o' hxs
    by_cases hlt : o < limit
    · obtain ⟨x, o₁, xs, hx, htail, rfl⟩ := (whileBelow_eq_ok hlt).mp hxs
      exact List.forall_mem_cons.mpr ⟨h buf o x o₁ hx, ih buf o₁ xs o' htail⟩
    · rw [whileBelow_of_le (by omega)] at hxs
      cases hxs
      simp

/-- All the errors of the decoder satisfy `P`. -/
def Rejects (d : Decoder ε α) (P : ε → Prop) : Prop :=
  ∀ buf o err, d buf o = .error err → P err

theorem except_bind_eq_error {e : Except ε α} {f : α → Except ε β} {err : ε} :
    e >>= f = .error err ↔ e = .error err ∨ ∃ x, e = .ok x ∧ f x = .error err := by
  cases e <;> simp [bind, Except.bind]

theorem Rejects.bind {d : Decoder ε α} {f : α → Decoder ε β} {P : ε → Prop} (hd : Rejects d P)
    (hf : ∀ x, Rejects (f x) P) : Rejects (d >>= f) P := by
  intro buf o err h
  rcases except_bind_eq_error.mp h with he | ⟨p, -, he⟩
  · exact hd buf o err he
  · exact hf p.1 buf p.2 err he

theorem rejects_pure (x : α) (P : ε → Prop) : Rejects (pure x : Decoder ε α) P := by
  rintro buf o err ⟨⟩

theorem rejects_throw {P : ε → Prop} {err : ε} (h : P err) :
    Rejects (throw err : Decoder ε α) P := by
  rintro buf o err' ⟨⟩
  exact h

theorem Rejects.map {d : Decoder ε α} {P : ε → Prop} (f : α → β) (hd : Rejects d P) :
    Rejects (f <$> d) P :=
  hd.bind (f := fun x => Pure.pure (f x)) fun x => rejects_pure (f x) P

theorem Rejects.mapError {d : Decoder ε α} {P : ε → Prop} {Q : δ → Prop} {f : ε → δ}
    (hd : Rejects d P) (hf : ∀ err, P err → Q (f err)) : Rejects (d.mapError f) Q := by
  intro buf o err h
  rw [Decoder.mapError] at h
  rcases hrun : d buf o with e | p
  · rw [hrun] at h
    cases h
    exact hf e (hd buf o e hrun)
  · rw [hrun] at h
    cases h

theorem rejects_orReturn (d : Decoder ε α) {P : δ → Prop} {err : δ} (h : P err) :
    Rejects (d.orReturn err) P :=
  Rejects.mapError (P := fun _ => True) (fun _ _ _ _ => trivial) fun _ _ => h

theorem Rejects.whileBelow {limit n : Nat} {d : Decoder ε α} {P : ε → Prop} (h : Rejects d P) :
    Rejects (whileBelow limit d n) P := by
  induction n with
  | zero => rintro buf o err ⟨⟩
  | succ n ih =>
    intro buf o err herr
    by_cases hlt : o < limit
    · rw [whileBelow_of_lt hlt] at herr
      rcases except_bind_eq_error.mp herr with he | ⟨p, -, he⟩
      · exact h buf o err he
      · rcases except_bind_eq_error.mp he with he | ⟨q, -, he⟩
        · exact ih buf p.2 err he
        · cases he
    · rw [whileBelow_of_le (by omega)] at herr
      cases herr

/-- `d` does what `d'` does, or fails on a buffer with at least `k` bytes to go. -/
def Budget (k : Nat) (d d' : Decoder ε α) : Prop :=
  ∀ buf o, o ≤ buf.length →
    d buf o = d' buf o ∨ o + k ≤ buf.length ∧ ∃ err, d buf o = .error err

theorem budget_refl (k : Nat) (d : Decoder ε α) : Budget k d d := fun _ _ _ => .inl rfl

theorem Budget.trans {k m : Nat} {d d' d'' : Decoder ε α} (h : Budget k d d')
    (h' : Budget m d' d'') (hm : k ≤ m) : Budget k d d'' := by
  intro buf o ho
  rcases h buf o ho with he | hfail
  · rcases h' buf o ho with he' | ⟨hle, herr⟩
    · exact .inl (he.trans he')
    · exact .inr ⟨by omega, he ▸ herr⟩
  · exact .inr hfail

/-- The bytes read before count for the budget. -/
theorem Budget.bind_left {k : Nat} {d : Decoder ε α} {f f' : α → Decoder ε β} (hc : Consumes d)
    (h : ∀ x, Budget k (f x) (f' x)) : Budget k (d >>= f) (d >>= f') := by
  intro buf o ho
  change (d buf o >>= fun p => f p.1 buf p.2) = (d buf o >>= fun p => f' p.1 buf p.2) ∨
    _ ∧ ∃ err, (d buf o >>= fun p => f p.1 buf p.2) = _
  cases hx : d buf o with
  | error e => exact .inl rfl
  | ok p =>
    obtain ⟨b, hb, he, -⟩ := hc buf o p.1 p.2 ho hx
    rcases h p.1 buf p.2 (he ▸ hb.le) with he | ⟨hle, herr⟩
    · exact .inl he
    · exact .inr ⟨by omega, herr⟩

theorem Budget.bind_advance {k : Nat} {d : Decoder ε α} {f f' : α → Decoder ε β}
    (hc : Consumes d) (ha : Advances d) (h : ∀ x, Budget k (f x) (f' x)) :
    Budget (k + 1) (d >>= f) (d >>= f') := by
  intro buf o ho
  change (d buf o >>= fun p => f p.1 buf p.2) = (d buf o >>= fun p => f' p.1 buf p.2) ∨
    _ ∧ ∃ err, (d buf o >>= fun p => f p.1 buf p.2) = _
  cases hx : d buf o with
  | error e => exact .inl rfl
  | ok p =>
    have hlt := ha buf o p.1 p.2 ho hx
    obtain ⟨b, hb, he, -⟩ := hc buf o p.1 p.2 ho hx
    rcases h p.1 buf p.2 (he ▸ hb.le) with he | ⟨hle, herr⟩
    · exact .inl he
    · exact .inr ⟨by omega, herr⟩

theorem Budget.map {k : Nat} {d d' : Decoder ε α} (f : α → β) (h : Budget k d d') :
    Budget k (f <$> d) (f <$> d') := by
  intro buf o ho
  change (d buf o >>= _) = (d' buf o >>= _) ∨ _ ∧ ∃ err, (d buf o >>= _) = _
  rcases h buf o ho with he | ⟨hle, err, he⟩
  · exact .inl (by rw [he])
  · exact .inr ⟨hle, err, by rw [he]; rfl⟩

theorem Budget.whileBelow {k limit n : Nat} {d d' : Decoder ε α} (hc : Consumes d)
    (h : Budget k d d') : Budget k (whileBelow limit d n) (whileBelow limit d' n) := by
  induction n with
  | zero => exact fun _ _ _ => .inl rfl
  | succ n ih =>
    intro buf o ho
    by_cases hlt : o < limit
    · rw [whileBelow_of_lt hlt, whileBelow_of_lt hlt]
      rcases h buf o ho with he | ⟨hle, err, he⟩
      · rw [← he]
        cases hx : d buf o with
        | error e => exact .inl rfl
        | ok p =>
          obtain ⟨b, hb, hp, -⟩ := hc buf o p.1 p.2 ho hx
          rcases ih buf p.2 (hp ▸ hb.le) with htail | ⟨hle, err, htail⟩
          · exact .inl (by simp only [Bind.bind, Except.bind, htail])
          · exact .inr ⟨by omega, err, by simp only [Bind.bind, Except.bind, htail]⟩
      · exact .inr ⟨hle, err, by rw [he]; rfl⟩
    · exact .inl (by rw [whileBelow_of_le (by omega), whileBelow_of_le (by omega)])

/-- Success is not lost with a greater budget. -/
theorem Budget.eq_ok {k : Nat} {d d' : Decoder ε α} {r : α × Nat} (h : Budget k d d')
    (ho : o ≤ buf.length) (hd : d buf o = .ok r) : d' buf o = .ok r := by
  rcases h buf o ho with he | ⟨_, err, he⟩
  · exact he ▸ hd
  · rw [he] at hd
    cases hd

theorem Budget.eq {k : Nat} {d d' : Decoder ε α} (h : Budget k d d') (ho : o ≤ buf.length)
    (hk : buf.length < o + k) : d buf o = d' buf o := by
  rcases h buf o ho with he | ⟨hle, _⟩
  · exact he
  · omega

end WireBuffer
