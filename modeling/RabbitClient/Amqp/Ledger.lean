import RabbitClient.Amqp.Malformed
import RabbitClient.Amqp.Socket
import RabbitClient.Library.Stateful

/-!
What waiting for a frame takes from the stream of bytes that are received: nothing gets lost, nothing
comes twice, however the bytes arrive and whatever else happens.
-/
namespace RabbitClient.Amqp

open Bytes Deframing Stateful

variable {frame_max : Nat} {first : Bool} {b : Bytes} {w : World} {xs : List Frame}

/-- The frames of the stream `b` are still to come: its front has been taken by the connection, and
the rest is in the buffer. -/
def Stands (frame_max : Nat) (first : Bool) (b : Bytes) (c : Client) : Prop :=
  ∃ p, Receiving frame_max c.conn first p ∧ nextFrame frame_max first p = none ∧ b = p ++ c.unread

/-- From `w` to `w'` the frames `xs` have been taken from the stream. -/
def Took (frame_max : Nat) (first : Bool) (b : Bytes) (w : World) (xs : List Frame) (w' : World) :
    Prop :=
  ∃ used first' b', w.receipts = used ++ w'.receipts ∧ Stands frame_max first' b' w'.client ∧
    Ahead (nextFrame frame_max) first (b ++ receivedBytes used) xs first' b'

/-- Behind the frames `xs` the stream is in error. -/
def Broke (frame_max : Nat) (first : Bool) (b : Bytes) (w : World) (xs : List Frame) (stop : Stop)
    (w' : World) : Prop :=
  ∃ used fault, w.receipts = used ++ w'.receipts ∧ stop = .fault fault ∧
    split (nextFrame frame_max) first (b ++ receivedBytes used) = (xs, .error fault)

theorem receivedBytes_append (receipts receipts' : List Received) :
    receivedBytes (receipts ++ receipts') = receivedBytes receipts ++ receivedBytes receipts' := by
  simp [receivedBytes]

theorem took_refl (hw : Stands frame_max first b w.client) : Took frame_max first b w [] w := by
  refine ⟨[], first, b, rfl, hw, ?_⟩
  rw [show receivedBytes [] = [] from rfl, List.append_nil]
  exact ahead_refl _ first b

/-- What is taken later is taken from what is left. -/
theorem Took.next {w₁ : World} (h : Took frame_max first b w xs w₁) :
    ∃ first₁ b₁, Stands frame_max first₁ b₁ w₁.client ∧
      (∀ ys w₂, Took frame_max first₁ b₁ w₁ ys w₂ → Took frame_max first b w (xs ++ ys) w₂) ∧
      ∀ ys stop w₂, Broke frame_max first₁ b₁ w₁ ys stop w₂ →
        Broke frame_max first b w (xs ++ ys) stop w₂ := by
  have hn := nextFrame_stable frame_max
  obtain ⟨used, first₁, b₁, hreceipts, hstands, hahead⟩ := h
  refine ⟨first₁, b₁, hstands, ?_, ?_⟩
  · rintro ys w₂ ⟨used', first₂, b₂, hreceipts', hstands', hahead'⟩
    refine ⟨used ++ used', first₂, b₂, by rw [hreceipts, hreceipts', List.append_assoc], hstands', ?_⟩
    rw [receivedBytes_append, ← List.append_assoc]
    exact (hahead.append hn _).trans hahead'
  · rintro ys stop w₂ ⟨used', fault, hreceipts', hstop, hsplit⟩
    refine ⟨used ++ used', fault, by rw [hreceipts, hreceipts', List.append_assoc], hstop, ?_⟩
    have hall := hahead.append hn (receivedBytes used')
    rw [Ahead, hsplit] at hall
    rw [receivedBytes_append, ← List.append_assoc]
    exact hall

theorem consume_one_frame_ensures (hw : Stands frame_max first b w.client)
    (hne : w.client.unread ≠ []) :
    Ensures consume_one_frame w
      (fun frame w' => Took frame_max first b w frame.toList w' ∧ w'.receipts = w.receipts ∧
        w'.pauses = w.pauses ∧ w'.client.queue = w.client.queue ∧
        w'.client.unread.length < w.client.unread.length)
      (fun stop w' => Broke frame_max first b w [] stop w' ∧ w'.client.queue = w.client.queue) := by
  obtain ⟨p, hreceiving, hnone, rfl⟩ := hw
  have hf := handle_input_follows frame_max
  have hn := nextFrame_stable frame_max
  have hpos : 0 < w.client.unread.length := List.length_pos_iff.mpr hne
  rcases hnext : nextFrame frame_max first (p ++ w.client.unread) with _ | fault | ⟨frame, first', n⟩
  · obtain ⟨conn, hpush, hconn⟩ := hf.wait _ first p _ hreceiving hne hnext
    have hrun : consume_one_frame w = .ok none { w with client := { w.client with
        conn, unread := [] } } := by
      rw [consume_one_frame, hpush]
      simp
    refine ensures_of_ok hrun ⟨⟨[], first, p ++ w.client.unread, rfl, ?_, ?_⟩, rfl, rfl, rfl, hpos⟩
    · exact ⟨_, hconn, hnext, by simp⟩
    · rw [show receivedBytes [] = [] from rfl, List.append_nil]
      exact ahead_refl _ first _
  · obtain ⟨conn, hpush⟩ := hf.fail _ first p _ fault hreceiving hne hnext
    have hrun : consume_one_frame w = .error (.fault fault) { w with client := { w.client with
        conn } } := by
      rw [consume_one_frame, hpush]
    refine ensures_of_error hrun ⟨⟨[], fault, rfl, rfl, ?_⟩, rfl⟩
    rw [show receivedBytes [] = [] from rfl, List.append_nil]
    exact split_fail hnext
  · obtain ⟨hlt, conn, hpush, hconn⟩ := hf.item _ first p _ frame first' n hreceiving hne hnext
    have hrun : consume_one_frame w = .ok frame { w with client := { w.client with
        conn, unread := w.client.unread.drop (n - p.length) } } := by
      rw [consume_one_frame, hpush]
    have hdrop : (p ++ w.client.unread).drop n = w.client.unread.drop (n - p.length) := by
      rw [List.drop_append, List.drop_eq_nil_of_le (by omega), List.nil_append]
    refine ensures_of_ok hrun ⟨⟨[], first', w.client.unread.drop (n - p.length), rfl, ?_, ?_⟩, rfl,
      rfl, rfl, ?_⟩
    · exact ⟨[], hconn, hn.nil first', rfl⟩
    · rw [show receivedBytes [] = [] from rfl, List.append_nil, ← hdrop]
      exact ahead_item hn hnext
    · dsimp only
      rw [List.length_drop]
      omega

def Frame.isHeartbeat : Frame → Bool
  | ⟨_, .heartbeat⟩ => true
  | _ => false

/-- Nothing but heartbeats has been passed over before the frame, or at all if there is none. -/
def Found (frame_max : Nat) (first : Bool) (b : Bytes) (w : World) (frame : Option Frame)
    (w' : World) : Prop :=
  ∃ hs, (∀ h ∈ hs, h.isHeartbeat) ∧ (∀ f ∈ frame, f.isHeartbeat = false) ∧
    Took frame_max first b w (hs ++ frame.toList) w' ∧ w'.client.queue = w.client.queue

/-- Nothing but heartbeats has been passed over before the stream is in error. -/
def Spoilt (frame_max : Nat) (first : Bool) (b : Bytes) (w : World) (stop : Stop) (w' : World) :
    Prop :=
  ∃ hs, (∀ h ∈ hs, h.isHeartbeat) ∧ Broke frame_max first b w hs stop w' ∧
    w'.client.queue = w.client.queue

theorem found_refl (hw : Stands frame_max first b w.client) : Found frame_max first b w none w :=
  ⟨[], by simp, by simp, took_refl hw, rfl⟩

/-- What is found after passing over something. -/
theorem Found.next {w₁ : World} (h : Found frame_max first b w none w₁) :
    ∃ first₁ b₁, Stands frame_max first₁ b₁ w₁.client ∧
      (∀ frame w₂, Found frame_max first₁ b₁ w₁ frame w₂ → Found frame_max first b w frame w₂) ∧
      ∀ stop w₂, Spoilt frame_max first₁ b₁ w₁ stop w₂ → Spoilt frame_max first b w stop w₂ := by
  obtain ⟨hs, hall, -, htook, hqueue⟩ := h
  rw [Option.toList_none, List.append_nil] at htook
  obtain ⟨first₁, b₁, hstands, htrans, hbroke⟩ := htook.next
  have hmore {hs' : List Frame} (hall' : ∀ h ∈ hs', h.isHeartbeat) :
      ∀ h ∈ hs ++ hs', h.isHeartbeat := by
    intro h hmem
    exact (List.mem_append.mp hmem).elim (hall h) (hall' h)
  refine ⟨first₁, b₁, hstands, ?_, ?_⟩
  · rintro frame w₂ ⟨hs', hall', hdata, htook', hqueue'⟩
    refine ⟨hs ++ hs', hmore hall', hdata, ?_, hqueue'.trans hqueue⟩
    rw [List.append_assoc]
    exact htrans _ _ htook'
  · rintro stop w₂ ⟨hs', hall', hbroke', hqueue'⟩
    exact ⟨hs ++ hs', hmore hall', hbroke _ _ _ hbroke', hqueue'.trans hqueue⟩

/-- The buffer is searched for a frame. -/
theorem readBuffered_ensures {fuel : Nat} (hw : Stands frame_max first b w.client)
    (hfuel : w.client.unread.length ≤ fuel) :
    Ensures (readBuffered fuel) w
      (fun frame w' => Found frame_max first b w frame w' ∧ w'.receipts = w.receipts ∧
        w'.pauses = w.pauses ∧ (frame = none → w'.client.unread = []))
      (Spoilt frame_max first b w) := by
  induction fuel generalizing first b w with
  | zero =>
    have hnil : w.client.unread = [] := List.length_eq_zero_iff.mp (by omega)
    exact ensures_pure ⟨found_refl hw, rfl, rfl, fun _ => hnil⟩
  | succ fuel ih =>
    rw [readBuffered]
    refine ensures_bind_of_ok rfl ?_
    by_cases hnil : w.client.unread = []
    · rw [if_neg (by simp [hnil])]
      exact ensures_pure ⟨found_refl hw, rfl, rfl, fun _ => hnil⟩
    rw [if_pos (by simpa using hnil)]
    refine (consume_one_frame_ensures hw hnil).bind ?_ ?_
    · rintro stop w' ⟨hbroke, hqueue⟩
      exact ⟨[], by simp, hbroke, hqueue⟩
    rintro frame w' ⟨htook, hreceipts, hpauses, hqueue, hshort⟩
    -- what is passed over is nothing or a heartbeat, and the rest is for the other rounds
    have hgo (hpass : ∀ h ∈ frame.toList, h.isHeartbeat) :
        Ensures (readBuffered fuel) w'
          (fun frame w' => Found frame_max first b w frame w' ∧ w'.receipts = w.receipts ∧
            w'.pauses = w.pauses ∧ (frame = none → w'.client.unread = []))
          (Spoilt frame_max first b w) := by
      have hnone : Found frame_max first b w none w' :=
        ⟨frame.toList, hpass, by simp, by simpa using htook, hqueue⟩
      obtain ⟨first₁, b₁, hw', hfound, hspoilt⟩ := hnone.next
      refine (ih hw' (by omega)).mono ?_ (fun stop w₂ => hspoilt stop w₂)
      rintro next w₂ ⟨hnext, hreceipts', hpauses', hempty⟩
      exact ⟨hfound next w₂ hnext, hreceipts'.trans hreceipts, hpauses'.trans hpauses, hempty⟩
    have hstop (f : Frame) (hf : frame = some f) (hdata : f.isHeartbeat = false) :
        Ensures (pure (some f) : Call (Option Frame)) w'
          (fun frame w' => Found frame_max first b w frame w' ∧ w'.receipts = w.receipts ∧
            w'.pauses = w.pauses ∧ (frame = none → w'.client.unread = []))
          (Spoilt frame_max first b w) := by
      subst hf
      exact ensures_pure ⟨⟨[], by simp, by simpa using hdata, htook, hqueue⟩, hreceipts, hpauses,
        by simp⟩
    rcases frame with _ | ⟨channel, payload⟩
    · exact hgo (by simp)
    · cases payload with
      | heartbeat => exact hgo (by simp [Frame.isHeartbeat])
      | method m => exact hstop _ rfl rfl
      | properties class_id body_size decoded => exact hstop _ rfl rfl
      | body_fragment body => exact hstop _ rfl rfl
      | protocol_header => exact hstop _ rfl rfl

end RabbitClient.Amqp
