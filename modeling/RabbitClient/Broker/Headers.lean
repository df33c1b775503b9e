import RabbitClient.Amqp.TableClone
import RabbitClient.Broker.PoolMemory

/-! The headers of a received message are copied into its pool too, between the strings. -/
namespace RabbitClient.AmqpPool

open Bytes Amqp

/-- `amqp_basic_properties_t`, less its numbers. -/
structure HeadedProperties extends BasicProperties where
  headers : Option Table := none

/-- `amqp_table_t` or `amqp_array_t`. -/
structure Entries where
  num_entries : Nat := 0
  entries : Option Pointer := none
deriving DecidableEq

structure HeadedClone extends Clone where
  headers : Entries
deriving DecidableEq

def sizeof_amqp_table_entry_t : Nat := 40
def sizeof_amqp_field_value_t : Nat := 24

/-- The memory for the entries of a table or an array. What is written there is left out: nobody
reads the copied headers. -/
def cloneEntries (num_entries size : Nat) : StateT Pool Option Entries := fun pool =>
  if num_entries = 0 then some ({}, pool)
  else
    match amqp_pool_alloc pool (num_entries * size) with
    | (some p, pool) => some (⟨num_entries, some p⟩, pool)
    | (none, _) => none

namespace HeadedProperties

mutual

def amqp_field_value_clone : FieldValue → StateT Pool Option Unit
  | .utf8 b | .bytes b => do
    let _ ← cloneBytesPool b
  | .array entries => do
    let _ ← cloneEntries entries.length sizeof_amqp_field_value_t
    cloneValues entries
  | .table entries => do
    let _ ← cloneEntries entries.length sizeof_amqp_table_entry_t
    cloneTableEntries entries
  | .other _ _ => failure
  | _ => pure ()

/-- The loop over the elements of an array. -/
def cloneValues : List FieldValue → StateT Pool Option Unit
  | [] => pure ()
  | original :: rest => do
    amqp_field_value_clone original
    cloneValues rest

def amqp_table_entry_clone : TableEntry → StateT Pool Option Unit
  | ⟨key, original⟩ =>
    if key.length = 0 then failure
    else do
      let _ ← cloneBytesPool key
      amqp_field_value_clone original

/-- The loop of `amqp_table_clone`. -/
def cloneTableEntries : List TableEntry → StateT Pool Option Unit
  | [] => pure ()
  | original :: rest => do
    amqp_table_entry_clone original
    cloneTableEntries rest

end

def amqp_table_clone (original : Table) : StateT Pool Option Entries := do
  let clone ← cloneEntries original.length sizeof_amqp_table_entry_t
  cloneTableEntries original
  return clone

def cloneHeaders : Option Table → StateT Pool Option Entries
  | some original => amqp_table_clone original
  | none => pure {}

/-- The copying of a message's properties, with the headers in their place. -/
def amqp_basic_properties_clone (original : HeadedProperties) : StateT Pool Option HeadedClone := do
  let content_type ← cloneFlagged original.content_type
  let content_encoding ← cloneFlagged original.content_encoding
  let headers ← cloneHeaders original.headers
  let correlation_id ← cloneFlagged original.correlation_id
  let reply_to ← cloneFlagged original.reply_to
  let expiration ← cloneFlagged original.expiration
  let message_id ← cloneFlagged original.message_id
  let type ← cloneFlagged original.type
  let user_id ← cloneFlagged original.user_id
  let app_id ← cloneFlagged original.app_id
  let cluster_id ← cloneFlagged original.cluster_id
  return { content_type, content_encoding, headers, correlation_id, reply_to, expiration, message_id,
           type, user_id, app_id, cluster_id }

/-- `amqp_read_message`; where the copying fails it returns an exception and there is no message. -/
def amqp_read_message (original : HeadedProperties) : Option (HeadedClone × Pool) :=
  (amqp_basic_properties_clone original).run (init_amqp_pool 4096)

end HeadedProperties

variable {α β : Type} {first rest : Bool} {pool pool' : Pool}

/-- A step that succeeds exactly if what it copies is keyed. -/
def Clones (keyed : Bool) (op : StateT Pool Option α) : Prop :=
  ∀ pool, WellFormed pool →
    if keyed then ∃ r pool', op pool = some (r, pool') ∧ Extends pool pool' else op pool = none

theorem clones_pure (a : α) : Clones true (pure a) :=
  fun pool h => ⟨a, pool, rfl, .refl h⟩

theorem clones_failure : Clones false (failure : StateT Pool Option α) := fun _ _ => rfl

theorem Copies.clones {op : StateT Pool Option AmqpBytes} {b : Bytes} (h : Copies op b) :
    Clones true op := by
  intro pool hwf
  obtain ⟨copy, pool', hop, he, -⟩ := h pool hwf
  exact ⟨copy, pool', hop, he⟩

/-- The steps behind one that succeeds start from the pool it leaves. -/
theorem bind_of_some {op : StateT Pool Option α} {a : α} (h : op pool = some (a, pool'))
    (f : α → StateT Pool Option β) : (op >>= f) pool = f a pool' := by
  change (op pool).bind (fun r => f r.1 r.2) = _
  rw [h]
  rfl

theorem bind_of_none {op : StateT Pool Option α} (h : op pool = none)
    (f : α → StateT Pool Option β) : (op >>= f) pool = none := by
  change (op pool).bind (fun r => f r.1 r.2) = _
  rw [h]
  rfl

theorem Clones.bind {op : StateT Pool Option α} {f : α → StateT Pool Option β}
    (h : Clones first op) (h' : ∀ r, Clones rest (f r)) : Clones (first && rest) (op >>= f) := by
  intro pool hwf
  have hop := h pool hwf
  cases first with
  | false => exact bind_of_none hop f
  | true =>
    obtain ⟨r, pool₁, hop, he⟩ := hop
    have hf := h' r pool₁ he.wellFormed
    rw [bind_of_some hop f]
    cases rest with
    | false => exact hf
    | true =>
      obtain ⟨r', pool₂, hf, he'⟩ := hf
      exact ⟨r', pool₂, hf, he.trans he'⟩

theorem clones_entries {num_entries size : Nat} (hsize : size ≠ 0) :
    Clones true (cloneEntries num_entries size) := by
  intro pool h
  by_cases hnum : num_entries = 0
  · refine ⟨{}, pool, ?_, .refl h⟩
    rw [cloneEntries, if_pos hnum]
  · obtain ⟨p, pool', halloc, hwf, hkeeps, -, -⟩ :=
      amqp_pool_alloc_allocates h (Nat.mul_ne_zero hnum hsize)
    refine ⟨⟨num_entries, some p⟩, pool', ?_, hwf, hkeeps⟩
    rw [cloneEntries, if_neg hnum, halloc]

namespace HeadedProperties

mutual

theorem clones_field_value : ∀ v : FieldValue, Clones v.keyed (amqp_field_value_clone v)
  | .utf8 b | .bytes b => by
    rw [amqp_field_value_clone]
    exact (copies_bytes b).clones.bind fun _ => clones_pure ()
  | .array entries => by
    rw [amqp_field_value_clone, FieldValue.keyed]
    exact (clones_entries (by decide)).bind fun _ => clones_values entries
  | .table entries => by
    rw [amqp_field_value_clone, FieldValue.keyed]
    exact (clones_entries (by decide)).bind fun _ => clones_table_entries entries
  | .other _ _ => clones_failure
  | .boolean _ | .i8 _ | .u8 _ | .i16 _ | .u16 _ | .i32 _ | .u32 _ | .i64 _ | .u64 _ | .f32 _
  | .f64 _ | .decimal _ _ | .timestamp _ | .void => clones_pure ()

theorem clones_values : ∀ vs : List FieldValue, Clones (valuesKeyed vs) (cloneValues vs)
  | [] => clones_pure ()
  | v :: vs => by
    rw [cloneValues, valuesKeyed]
    exact (clones_field_value v).bind fun _ => clones_values vs

theorem clones_table_entry : ∀ e : TableEntry, Clones e.keyed (amqp_table_entry_clone e)
  | ⟨key, value⟩ => by
    rw [amqp_table_entry_clone, TableEntry.keyed]
    by_cases h : key.length = 0
    · rw [if_pos h, bne_eq_false_iff_eq.mpr h]
      exact clones_failure
    · rw [if_neg h, bne_iff_ne.mpr h]
      exact (copies_bytes key).clones.bind fun _ => clones_field_value value

theorem clones_table_entries : ∀ t : List TableEntry, Clones (tableKeyed t) (cloneTableEntries t)
  | [] => clones_pure ()
  | e :: t => by
    rw [cloneTableEntries, tableKeyed]
    exact (clones_table_entry e).bind fun _ => clones_table_entries t

end

/-- No header has an empty key, and all kinds are known. -/
def keyed (p : HeadedProperties) : Bool := (p.headers.map tableKeyed).getD true

theorem clones_headers (p : HeadedProperties) : Clones p.keyed (cloneHeaders p.headers) := by
  rw [keyed]
  cases p.headers with
  | none => exact clones_pure ({} : Entries)
  | some t =>
    have hrest (clone : Entries) :
        Clones (tableKeyed t) (cloneTableEntries t >>= fun _ => pure clone) := by
      rw [← Bool.and_true (tableKeyed t)]
      exact (clones_table_entries t).bind fun _ => clones_pure clone
    exact (clones_entries (by decide)).bind hrest

/-- The copies of the strings. -/
structure CopyOf (p : HeadedProperties) (clone : HeadedClone) (pool : Pool) : Prop where
  content_type : Refers pool clone.content_type (text p.content_type)
  content_encoding : Refers pool clone.content_encoding (text p.content_encoding)
  correlation_id : Refers pool clone.correlation_id (text p.correlation_id)
  reply_to : Refers pool clone.reply_to (text p.reply_to)
  expiration : Refers pool clone.expiration (text p.expiration)
  message_id : Refers pool clone.message_id (text p.message_id)
  type : Refers pool clone.type (text p.type)
  user_id : Refers pool clone.user_id (text p.user_id)
  app_id : Refers pool clone.app_id (text p.app_id)
  cluster_id : Refers pool clone.cluster_id (text p.cluster_id)

/-- There is a message exactly if the headers are keyed, and then its strings are those that were
sent. -/
theorem amqp_read_message_cases (p : HeadedProperties) :
    (p.keyed ∧ ∃ clone pool, amqp_read_message p = some (clone, pool) ∧ CopyOf p clone pool) ∨
      (p.keyed = false ∧ amqp_read_message p = none) := by
  obtain ⟨content_type, pool₁, h₁, e₁, r₁⟩ :=
    copies_flagged p.content_type _ (wellFormed_init 4096)
  obtain ⟨content_encoding, pool₂, h₂, e₂, r₂⟩ :=
    copies_flagged p.content_encoding _ e₁.wellFormed
  have hheaders := clones_headers p pool₂ e₂.wellFormed
  rw [amqp_read_message, amqp_basic_properties_clone, StateT.run, bind_of_some h₁, bind_of_some h₂]
  cases hkeyed : p.keyed with
  | false =>
    rw [hkeyed] at hheaders
    exact .inr ⟨rfl, bind_of_none hheaders _⟩
  | true =>
    rw [hkeyed] at hheaders
    obtain ⟨headers, pool₃, h₃, e₃⟩ := hheaders
    obtain ⟨correlation_id, pool₄, h₄, e₄, r₄⟩ := copies_flagged p.correlation_id _ e₃.wellFormed
    obtain ⟨reply_to, pool₅, h₅, e₅, r₅⟩ := copies_flagged p.reply_to _ e₄.wellFormed
    obtain ⟨expiration, pool₆, h₆, e₆, r₆⟩ := copies_flagged p.expiration _ e₅.wellFormed
    obtain ⟨message_id, pool₇, h₇, e₇, r₇⟩ := copies_flagged p.message_id _ e₆.wellFormed
    obtain ⟨type, pool₈, h₈, e₈, r₈⟩ := copies_flagged p.type _ e₇.wellFormed
    obtain ⟨user_id, pool₉, h₉, e₉, r₉⟩ := copies_flagged p.user_id _ e₈.wellFormed
    obtain ⟨app_id, pool₁₀, h₁₀, e₁₀, r₁₀⟩ := copies_flagged p.app_id _ e₉.wellFormed
    obtain ⟨cluster_id, pool, h₁₁, e₁₁, r₁₁⟩ := copies_flagged p.cluster_id _ e₁₀.wellFormed
    -- what follows a copy up to the last pool
    have f₉ := e₁₀.trans e₁₁
    have f₈ := e₉.trans f₉
    have f₇ := e₈.trans f₈
    have f₆ := e₇.trans f₇
    have f₅ := e₆.trans f₆
    have f₄ := e₅.trans f₅
    have f₂ := e₃.trans (e₄.trans f₄)
    refine .inl ⟨rfl, ⟨⟨content_type, content_encoding, correlation_id, reply_to, expiration,
      message_id, type, user_id, app_id, cluster_id⟩, headers⟩, pool, ?_, ?_⟩
    · rw [bind_of_some h₃, bind_of_some h₄, bind_of_some h₅, bind_of_some h₆, bind_of_some h₇,
        bind_of_some h₈, bind_of_some h₉, bind_of_some h₁₀, bind_of_some h₁₁]
      rfl
    · exact ⟨r₁.extends (e₂.trans f₂), r₂.extends f₂, r₄.extends f₄, r₅.extends f₅, r₆.extends f₆,
        r₇.extends f₇, r₈.extends f₈, r₉.extends f₉, r₁₀.extends e₁₁, r₁₁⟩

/-- A message without headers is copied as `AmqpPool.amqp_basic_properties_clone` says. -/
theorem amqp_basic_properties_clone_unheaded (p : BasicProperties) :
    amqp_basic_properties_clone { p with } =
      (fun clone => ⟨clone, {}⟩) <$> AmqpPool.amqp_basic_properties_clone p := by
  simp only [amqp_basic_properties_clone, AmqpPool.amqp_basic_properties_clone, cloneHeaders,
    pure_bind, map_bind, map_pure]

end HeadedProperties

end RabbitClient.AmqpPool
