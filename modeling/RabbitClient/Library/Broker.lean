import Mathlib.Logic.Function.Basic
import Mathlib.Data.List.Perm.Basic

/-! A message broker: keyed bindings, and queues of ready and unacknowledged messages. -/

/-- Queues `θ` are bound to routing keys `κ`; consumers `π` hold messages `μ` they have been
given and have not acknowledged. -/
structure Broker (θ κ π μ : Type*) where
  bindings : θ → List κ
  ready : θ → List μ
  unacked : θ → List (π × μ)

namespace Broker

open scoped List

variable {θ κ π μ : Type*}

def empty : Broker θ κ π μ := ⟨fun _ => [], fun _ => [], fun _ => []⟩

/-- Every message the queue still answers for, delivered or not. -/
def stock (b : Broker θ κ π μ) (q : θ) : List μ := b.ready q ++ (b.unacked q).map Prod.snd

theorem mem_stock {b : Broker θ κ π μ} {q : θ} {m : μ} :
    m ∈ b.stock q ↔ m ∈ b.ready q ∨ ∃ p, (p, m) ∈ b.unacked q := by
  simp [stock]

section Operations
variable [DecidableEq θ]

def bind (b : Broker θ κ π μ) (q : θ) (k : κ) : Broker θ κ π μ :=
  { b with bindings := Function.update b.bindings q (k :: b.bindings q) }

/-- A direct exchange puts one copy into every queue bound to the key. -/
def publish [DecidableEq κ] (b : Broker θ κ π μ) (k : κ) (m : μ) : Broker θ κ π μ :=
  { b with ready := fun q => if k ∈ b.bindings q then b.ready q ++ [m] else b.ready q }

def deliver [DecidableEq μ] (b : Broker θ κ π μ) (q : θ) (p : π) (m : μ) : Broker θ κ π μ :=
  { b with
    ready := Function.update b.ready q ((b.ready q).erase m)
    unacked := Function.update b.unacked q ((p, m) :: b.unacked q) }

def ack [DecidableEq π] [DecidableEq μ] (b : Broker θ κ π μ) (q : θ) (p : π) (m : μ) :
    Broker θ κ π μ :=
  { b with unacked := Function.update b.unacked q ((b.unacked q).erase (p, m)) }

/-- A ready message reaches its time to live. -/
def expire [DecidableEq μ] (b : Broker θ κ π μ) (q : θ) (m : μ) : Broker θ κ π μ :=
  { b with ready := Function.update b.ready q ((b.ready q).erase m) }

/-- The connection of a consumer is gone: what it has not acknowledged is ready again. -/
def requeue [DecidableEq π] (b : Broker θ κ π μ) (q : θ) (p : π) : Broker θ κ π μ :=
  { b with
    ready := Function.update b.ready q
      (((b.unacked q).filter (·.1 = p)).map Prod.snd ++ b.ready q)
    unacked := Function.update b.unacked q ((b.unacked q).filter (¬ ·.1 = p)) }

/-- The queue is deleted, with its bindings and its messages. -/
def delete (b : Broker θ κ π μ) (q : θ) : Broker θ κ π μ where
  bindings := Function.update b.bindings q []
  ready := Function.update b.ready q []
  unacked := Function.update b.unacked q []

end Operations

variable [DecidableEq θ] {b : Broker θ κ π μ} {q r : θ} {k : κ} {p : π} {m : μ}

@[simp] theorem stock_bind : (b.bind q k).stock r = b.stock r := rfl

@[simp] theorem mem_bindings_bind {k' : κ} :
    k' ∈ (b.bind q k).bindings r ↔ (r = q ∧ k' = k) ∨ k' ∈ b.bindings r := by
  by_cases h : r = q
  · subst r
    simp [bind]
  · simp [bind, h]

omit [DecidableEq θ] in
theorem stock_publish [DecidableEq κ] (b : Broker θ κ π μ) (k : κ) (m : μ) (q : θ) :
    (b.publish k m).stock q ~ if k ∈ b.bindings q then m :: b.stock q else b.stock q := by
  by_cases h : k ∈ b.bindings q
  · simp only [publish, stock, h, if_true]
    rw [List.append_assoc]
    exact List.perm_middle
  · simp [publish, stock, h]

/-- Delivery moves a message, it neither loses nor copies it. -/
theorem stock_deliver [DecidableEq μ] (hm : m ∈ b.ready q) (r : θ) :
    (b.deliver q p m).stock r ~ b.stock r := by
  by_cases h : r = q
  · subst r
    have he : (b.deliver q p m).stock q =
        (b.ready q).erase m ++ m :: (b.unacked q).map Prod.snd := by
      simp [deliver, stock]
    rw [he]
    refine List.perm_middle.trans ?_
    exact (List.perm_cons_erase hm).symm.append_right ((b.unacked q).map Prod.snd)
  · simp [deliver, stock, h]

theorem stock_ack [DecidableEq π] [DecidableEq μ] (hm : (p, m) ∈ b.unacked q) :
    b.stock q ~ m :: (b.ack q p m).stock q := by
  have he : (b.ack q p m).stock q =
      b.ready q ++ ((b.unacked q).erase (p, m)).map Prod.snd := by
    simp [ack, stock]
  have hu : (b.unacked q).map Prod.snd ~ m :: ((b.unacked q).erase (p, m)).map Prod.snd :=
    (List.perm_cons_erase hm).map Prod.snd
  rw [he]
  exact (hu.append_left (b.ready q)).trans List.perm_middle

theorem stock_ack_sublist [DecidableEq π] [DecidableEq μ] (b : Broker θ κ π μ) (q : θ) (p : π)
    (m : μ) (r : θ) : (b.ack q p m).stock r <+ b.stock r := by
  by_cases h : r = q
  · subst r
    have he : (b.ack q p m).stock q =
        b.ready q ++ ((b.unacked q).erase (p, m)).map Prod.snd := by
      simp [ack, stock]
    rw [he]
    exact (List.erase_sublist.map Prod.snd).append_left _
  · simp [ack, stock, h]

/-- An acknowledgement takes away nothing but the message it names. -/
theorem mem_stock_ack [DecidableEq π] [DecidableEq μ] {m' : μ} (hm : m' ∈ b.stock r) :
    (r = q ∧ m' = m) ∨ m' ∈ (b.ack q p m).stock r := by
  by_cases h : r = q
  · subst r
    by_cases he : m' = m
    · exact Or.inl ⟨rfl, he⟩
    · right
      rcases mem_stock.mp hm with hm | ⟨p', hm⟩
      · exact mem_stock.mpr (Or.inl hm)
      · refine mem_stock.mpr (Or.inr ⟨p', ?_⟩)
        have hne : (p', m') ≠ (p, m) := fun h => he (congrArg Prod.snd h)
        simpa [ack] using (List.mem_erase_of_ne hne).mpr hm
  · right
    simpa [ack, stock, h] using hm

theorem stock_expire_sublist [DecidableEq μ] (b : Broker θ κ π μ) (q : θ) (m : μ) (r : θ) :
    (b.expire q m).stock r <+ b.stock r := by
  by_cases h : r = q
  · subst r
    have he : (b.expire q m).stock q = (b.ready q).erase m ++ (b.unacked q).map Prod.snd := by
      simp [expire, stock]
    rw [he]
    exact List.erase_sublist.append_right _
  · simp [expire, stock, h]

/-- What a lost consumer held goes back to its queue. -/
theorem stock_requeue [DecidableEq π] (b : Broker θ κ π μ) (q : θ) (p : π) (r : θ) :
    (b.requeue q p).stock r ~ b.stock r := by
  by_cases h : r = q
  · subst r
    let held := ((b.unacked q).filter (·.1 = p)).map Prod.snd
    let kept := ((b.unacked q).filter (¬ ·.1 = p)).map Prod.snd
    have he : (b.requeue q p).stock q = held ++ b.ready q ++ kept := by
      simp [requeue, stock, held, kept]
    have hu : held ++ kept ~ (b.unacked q).map Prod.snd := by
      simp only [held, kept, decide_not, ← List.map_append]
      exact (List.filter_append_perm (fun x : π × μ => decide (x.1 = p)) _).map Prod.snd
    rw [he]
    calc held ++ b.ready q ++ kept
        ~ b.ready q ++ held ++ kept := List.perm_append_comm.append_right kept
      _ = b.ready q ++ (held ++ kept) := List.append_assoc ..
      _ ~ b.ready q ++ (b.unacked q).map Prod.snd := hu.append_left _
  · simp [requeue, stock, h]

@[simp] theorem stock_delete : (b.delete q).stock q = [] := by
  simp [delete, stock]

@[simp] theorem stock_delete_of_ne (h : r ≠ q) : (b.delete q).stock r = b.stock r := by
  simp [delete, stock, h]

theorem stock_delete_sublist (b : Broker θ κ π μ) (q r : θ) :
    (b.delete q).stock r <+ b.stock r := by
  by_cases h : r = q
  · subst r
    simp
  · simp [h]

theorem mem_bindings_delete {k' : κ} :
    k' ∈ (b.delete q).bindings r ↔ r ≠ q ∧ k' ∈ b.bindings r := by
  by_cases h : r = q
  · subst r
    simp [delete]
  · simp [delete, h]

/-- The unacknowledged messages of a consumer that is gone are nobody's. -/
theorem mem_unacked_requeue [DecidableEq π] {x : π × μ} :
    x ∈ (b.requeue q p).unacked r ↔ x ∈ b.unacked r ∧ ¬ (r = q ∧ x.1 = p) := by
  by_cases h : r = q
  · subst r
    simp [requeue]
  · simp [requeue, h]

end Broker
