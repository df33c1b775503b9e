import RabbitClient.Amqp.FieldTable

/-! Copies of field tables: `amqp_table_clone` and the functions it calls. -/
namespace RabbitClient.Amqp

open Bytes

mutual

/-- Copies are made of what the value points to, and they are equal to it. -/
def amqp_field_value_clone : FieldValue → Except Status FieldValue
  | .array entries => .array <$> cloneValues entries
  | .table entries => .table <$> amqp_table_clone entries
  | .other _ _ => throw .AMQP_STATUS_INVALID_PARAMETER
  | original => pure original

/-- The loop over the elements of an array. -/
def cloneValues : List FieldValue → Except Status (List FieldValue)
  | [] => pure []
  | original :: rest => do
    let clone ← amqp_field_value_clone original
    List.cons clone <$> cloneValues rest

def amqp_table_entry_clone : TableEntry → Except Status TableEntry
  | ⟨key, original⟩ =>
    if key.length = 0 then throw .AMQP_STATUS_INVALID_PARAMETER
    else TableEntry.mk key <$> amqp_field_value_clone original

def amqp_table_clone : List TableEntry → Except Status (List TableEntry)
  | [] => pure []
  | original :: rest => do
    let clone ← amqp_table_entry_clone original
    List.cons clone <$> amqp_table_clone rest

end

mutual

/-- No key in it is empty, and all kinds are known. -/
def FieldValue.keyed : FieldValue → Bool
  | .array entries => valuesKeyed entries
  | .table entries => tableKeyed entries
  | .other _ _ => false
  | _ => true

def valuesKeyed : List FieldValue → Bool
  | [] => true
  | value :: rest => value.keyed && valuesKeyed rest

def TableEntry.keyed : TableEntry → Bool
  | ⟨key, value⟩ => key.length != 0 && value.keyed

def tableKeyed : List TableEntry → Bool
  | [] => true
  | entry :: rest => entry.keyed && tableKeyed rest

end

/-- The outcome of a copy. -/
def cloned {α : Type} (keyed : Bool) (original : α) : Except Status α :=
  if keyed then .ok original else .error .AMQP_STATUS_INVALID_PARAMETER

theorem map_cloned {α β : Type} (f : α → β) (keyed : Bool) (original : α) :
    f <$> cloned keyed original = cloned keyed (f original) := by
  cases keyed <;> rfl

theorem cloned_cons {α : Type} (first rest : Bool) (original : α) (originals : List α) :
    (cloned first original >>= fun clone => List.cons clone <$> cloned rest originals) =
      cloned (first && rest) (original :: originals) := by
  cases first <;> cases rest <;> rfl

mutual

theorem field_value_clone_eq : ∀ v : FieldValue, amqp_field_value_clone v = cloned v.keyed v
  | .array entries => by
    rw [amqp_field_value_clone, values_clone_eq entries, map_cloned, FieldValue.keyed]
  | .table entries => by
    rw [amqp_field_value_clone, table_clone_eq entries, map_cloned, FieldValue.keyed]
  | .other _ _ => rfl
  | .boolean _ | .i8 _ | .u8 _ | .i16 _ | .u16 _ | .i32 _ | .u32 _ | .i64 _ | .u64 _ | .f32 _
  | .f64 _ | .decimal _ _ | .utf8 _ | .timestamp _ | .void | .bytes _ => rfl

theorem values_clone_eq : ∀ vs : List FieldValue, cloneValues vs = cloned (valuesKeyed vs) vs
  | [] => rfl
  | v :: vs => by
    rw [cloneValues, field_value_clone_eq v, values_clone_eq vs, cloned_cons, valuesKeyed]

theorem table_entry_clone_eq : ∀ e : TableEntry, amqp_table_entry_clone e = cloned e.keyed e
  | ⟨key, value⟩ => by
    rw [amqp_table_entry_clone, field_value_clone_eq value, TableEntry.keyed, map_cloned]
    by_cases h : key.length = 0
    · rw [if_pos h, bne_eq_false_iff_eq.mpr h]
      rfl
    · rw [if_neg h, bne_iff_ne.mpr h, Bool.true_and]

/-- A table is copied exactly if no key in it is empty. -/
theorem table_clone_eq : ∀ t : List TableEntry, amqp_table_clone t = cloned (tableKeyed t) t
  | [] => rfl
  | e :: t => by
    rw [amqp_table_clone, table_entry_clone_eq e, table_clone_eq t, cloned_cons, tableKeyed]

end

end RabbitClient.Amqp
