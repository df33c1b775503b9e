import RabbitClient.Library.Blocks

/-! The memory of a received message: its properties are copied into the pages of a pool. -/
namespace RabbitClient.AmqpPool

open Bytes Blocks

/-- A page of the pool, or a block made for one allocation larger than a page. -/
inductive Block where
  | page (i : Nat)
  | large (i : Nat)
deriving DecidableEq

structure Pointer where
  block : Block
  offset : Nat
deriving DecidableEq

/-- `amqp_pool_t`, with the contents of its blocks. -/
structure Pool where
  pagesize : Nat
  pages : List Bytes
  large_blocks : List Bytes
  next_page : Nat
  alloc_block : Option Nat
  alloc_used : Nat
deriving DecidableEq

def init_amqp_pool (pagesize : Nat) : Pool where
  pagesize := if pagesize = 0 then 4096 else pagesize
  pages := []
  large_blocks := []
  next_page := 0
  alloc_block := none
  alloc_used := 0

def calloc (size : Nat) : Bytes := List.replicate size 0

/-- The end of `amqp_pool_alloc`: a fresh page, or the next of those a recycled pool still has. -/
def nextPage (pool : Pool) (amount : Nat) : Pointer × Pool :=
  if pool.pages.length ≤ pool.next_page then
    (⟨.page pool.pages.length, 0⟩,
      { pool with
        pages := pool.pages ++ [calloc pool.pagesize]
        next_page := pool.pages.length + 1
        alloc_block := some pool.pages.length
        alloc_used := amount })
  else
    (⟨.page pool.next_page, 0⟩,
      { pool with
        next_page := pool.next_page + 1
        alloc_block := some pool.next_page
        alloc_used := amount })

/-- `amqp_pool_alloc`, on a system that does not run out of memory. -/
def amqp_pool_alloc (pool : Pool) (amount : Nat) : Option Pointer × Pool :=
  if amount = 0 then (none, pool)
  else
    -- the source masks the last three bits away
    let amount := (amount + 7) / 8 * 8
    if pool.pagesize < amount then
      (some ⟨.large pool.large_blocks.length, 0⟩,
        { pool with large_blocks := pool.large_blocks ++ [calloc amount] })
    else
      match pool.alloc_block with
      | some i =>
        if pool.alloc_used + amount ≤ pool.pagesize then
          (some ⟨.page i, pool.alloc_used⟩, { pool with alloc_used := pool.alloc_used + amount })
        else
          (nextPage pool amount).map some id
      | none => (nextPage pool amount).map some id

def overwrite (b : Bytes) (offset : Nat) (src : Bytes) : Bytes :=
  b.take offset ++ src ++ b.drop (offset + src.length)

def memcpy (pool : Pool) (dst : Pointer) (src : Bytes) : Pool :=
  match dst.block with
  | .page i => { pool with pages := pool.pages.modify i (overwrite · dst.offset src) }
  | .large i => { pool with large_blocks := pool.large_blocks.modify i (overwrite · dst.offset src) }

/-- What can be read from an address on: the rest of its block. -/
def bytesAt (pool : Pool) (p : Pointer) : Bytes :=
  match p.block with
  | .page i => (pool.pages.getD i []).drop p.offset
  | .large i => (pool.large_blocks.getD i []).drop p.offset

/-- `amqp_decode_bytes` takes the length of a property from one byte. -/
abbrev ShortString := { b : Bytes // b.length ≤ 255 }

/-- The strings of `amqp_basic_properties_t`; one is present exactly if its flag is set. -/
structure BasicProperties where
  content_type : Option ShortString := none
  content_encoding : Option ShortString := none
  correlation_id : Option ShortString := none
  reply_to : Option ShortString := none
  expiration : Option ShortString := none
  message_id : Option ShortString := none
  type : Option ShortString := none
  user_id : Option ShortString := none
  app_id : Option ShortString := none
  cluster_id : Option ShortString := none
deriving DecidableEq

/-- `amqp_bytes_t`. -/
structure AmqpBytes where
  len : Nat := 0
  bytes : Option Pointer := none
deriving DecidableEq

/-- The strings of the copy. -/
structure Clone where
  content_type : AmqpBytes
  content_encoding : AmqpBytes
  correlation_id : AmqpBytes
  reply_to : AmqpBytes
  expiration : AmqpBytes
  message_id : AmqpBytes
  type : AmqpBytes
  user_id : AmqpBytes
  app_id : AmqpBytes
  cluster_id : AmqpBytes
deriving DecidableEq

/-- `CLONE_BYTES_POOL`; `none` stands for `AMQP_STATUS_NO_MEMORY`. -/
def cloneBytesPool (original : Bytes) : StateT Pool Option AmqpBytes := fun pool =>
  if original.length = 0 then some ({}, pool)
  else
    match amqp_pool_alloc pool original.length with
    | (some p, pool) => some (⟨original.length, some p⟩, memcpy pool p original)
    | (none, _) => none

/-- A property that is not flagged keeps the zeros of `memset`. -/
def cloneFlagged : Option ShortString → StateT Pool Option AmqpBytes
  | some original => cloneBytesPool original.val
  | none => pure {}

/-- The copying of the strings of a message that has no headers. -/
def amqp_basic_properties_clone (original : BasicProperties) : StateT Pool Option Clone := do
  let content_type ← cloneFlagged original.content_type
  let content_encoding ← cloneFlagged original.content_encoding
  let correlation_id ← cloneFlagged original.correlation_id
  let reply_to ← cloneFlagged original.reply_to
  let expiration ← cloneFlagged original.expiration
  let message_id ← cloneFlagged original.message_id
  let type ← cloneFlagged original.type
  let user_id ← cloneFlagged original.user_id
  let app_id ← cloneFlagged original.app_id
  let cluster_id ← cloneFlagged original.cluster_id
  return { content_type, content_encoding, correlation_id, reply_to, expiration, message_id, type,
           user_id, app_id, cluster_id }

/-- `amqp_read_message` gives every message a pool of its own. -/
def amqp_read_message (original : BasicProperties) : Option (Clone × Pool) :=
  (amqp_basic_properties_clone original).run (init_amqp_pool 4096)

/-- A pool of one page that starts with `b`; `used` bytes of it are given away. -/
def onePage (b : Bytes) (used : Nat) : Pool where
  pagesize := 4096
  pages := [b ++ calloc (4096 - b.length)]
  large_blocks := []
  next_page := 1
  alloc_block := some 0
  alloc_used := used

/-- The pool after copies that make up `b`; the first of them brings the page. -/
def filled (b : Bytes) : Pool := if b = [] then init_amqp_pool 4096 else onePage b b.length

/-- The copy of a string in the first page. -/
def refer (offset : Nat) (b : Bytes) : AmqpBytes :=
  ⟨b.length, if b = [] then none else some ⟨.page 0, offset⟩⟩

/-- The length of a block as `amqp_pool_alloc` computes it. -/
theorem length_pad_eight (b : Bytes) : (pad 8 b).length = (b.length + 7) / 8 * 8 := by
  rw [length_pad]
  omega

/-- A short string takes at most 256 bytes of the page. -/
theorem length_append_pad {n : Nat} {b c : Bytes} (h : b.length ≤ 256 * n)
    (hc : c.length ≤ 255) : (b ++ pad 8 c).length ≤ 256 * (n + 1) := by
  have hlen := length_pad_eight c
  rw [List.length_append]
  omega

theorem overwrite_append (b z c : Bytes) :
    overwrite (b ++ z) b.length c = b ++ (c ++ z.drop c.length) := by
  simp [overwrite, List.drop_append]

/-- The zeros behind a string fill up its block. -/
theorem append_drop_calloc {c : Bytes} {n : Nat} (h : (pad 8 c).length ≤ n) :
    c ++ (calloc n).drop c.length = pad 8 c ++ calloc (n - (pad 8 c).length) := by
  rw [length_pad] at h ⊢
  simp only [pad, calloc, List.drop_replicate, List.append_assoc, List.replicate_append_replicate]
  congr 2
  omega

theorem amqp_pool_alloc_filled {b : Bytes} {amount : Nat} (hpos : amount ≠ 0)
    (h : b.length + (amount + 7) / 8 * 8 ≤ 4096) :
    amqp_pool_alloc (filled b) amount =
      (some ⟨.page 0, b.length⟩, onePage b (b.length + (amount + 7) / 8 * 8)) := by
  have hpage : ¬ 4096 < (amount + 7) / 8 * 8 := by omega
  by_cases hb : b = []
  · subst b
    simp [amqp_pool_alloc, filled, init_amqp_pool, nextPage, onePage, hpos, hpage]
  · simp [amqp_pool_alloc, filled, onePage, hb, hpos, hpage, h]

theorem memcpy_onePage {b c : Bytes} (h : b.length + (pad 8 c).length ≤ 4096) (used : Nat) :
    memcpy (onePage b used) ⟨.page 0, b.length⟩ c = onePage (b ++ pad 8 c) used := by
  have hzero := append_drop_calloc (c := c) (n := 4096 - b.length) (by omega)
  have hrest : 4096 - b.length - (pad 8 c).length = 4096 - (b ++ pad 8 c).length := by
    rw [List.length_append]
    omega
  simp only [memcpy, onePage, List.modify_zero_cons, overwrite_append, hzero, hrest,
    List.append_assoc]

/-- A string goes to the end of what is used of the page. -/
theorem cloneBytesPool_filled {n : Nat} {b c : Bytes} (h : b.length ≤ 256 * n) (hn : n < 16)
    (hc : c.length ≤ 255) :
    cloneBytesPool c (filled b) = some (refer b.length c, filled (b ++ pad 8 c)) := by
  have hlen := length_pad_eight c
  by_cases hnil : c = []
  · subst c
    simp [cloneBytesPool, refer]
  have hpos : c.length ≠ 0 := by simpa using hnil
  have hne : b ++ pad 8 c ≠ [] := by
    simp [pad, hnil]
  rw [cloneBytesPool, if_neg hpos, amqp_pool_alloc_filled hpos (by omega), ← hlen]
  simp only [memcpy_onePage (b := b) (c := c) (by omega), refer, filled, hnil, hne, if_false,
    List.length_append]

def text (s : Option ShortString) : Bytes := (s.map Subtype.val).getD []

theorem length_text (s : Option ShortString) : (text s).length ≤ 255 := by
  cases s with
  | none => simp [text]
  | some s => exact s.property

theorem cloneFlagged_filled {n : Nat} {b : Bytes} (h : b.length ≤ 256 * n) (hn : n < 16)
    (s : Option ShortString) :
    cloneFlagged s (filled b) = some (refer b.length (text s), filled (b ++ pad 8 (text s))) := by
  cases s with
  | none =>
    change some (_, filled b) = _
    simp [text, refer]
  | some s => exact cloneBytesPool_filled h hn s.property

theorem cloneFlagged_bind {α : Type} {n : Nat} {b : Bytes} (h : b.length ≤ 256 * n) (hn : n < 16)
    (s : Option ShortString) (f : AmqpBytes → StateT Pool Option α) :
    (cloneFlagged s >>= f) (filled b) =
      f (refer b.length (text s)) (filled (b ++ pad 8 (text s))) := by
  change (cloneFlagged s (filled b)).bind (fun r => f r.1 r.2) = _
  rw [cloneFlagged_filled h hn]
  rfl

/-- The strings in the order of the copies. -/
def BasicProperties.strings (p : BasicProperties) : List Bytes :=
  [text p.content_type, text p.content_encoding, text p.correlation_id, text p.reply_to,
    text p.expiration, text p.message_id, text p.type, text p.user_id, text p.app_id,
    text p.cluster_id]

/-- The offset of the `k`-th string. -/
def BasicProperties.start (p : BasicProperties) (k : Nat) : Nat :=
  ((p.strings.take k).flatMap (pad 8)).length

/-- The copies stand one behind the other in the first page. -/
theorem amqp_read_message_eq (p : BasicProperties) :
    amqp_read_message p = some
      ({ content_type := refer (p.start 0) (text p.content_type)
         content_encoding := refer (p.start 1) (text p.content_encoding)
         correlation_id := refer (p.start 2) (text p.correlation_id)
         reply_to := refer (p.start 3) (text p.reply_to)
         expiration := refer (p.start 4) (text p.expiration)
         message_id := refer (p.start 5) (text p.message_id)
         type := refer (p.start 6) (text p.type)
         user_id := refer (p.start 7) (text p.user_id)
         app_id := refer (p.start 8) (text p.app_id)
         cluster_id := refer (p.start 9) (text p.cluster_id) },
        filled (p.strings.flatMap (pad 8))) := by
  have r₁ := length_append_pad (b := []) (n := 0) (by simp) (length_text p.content_type)
  have r₂ := length_append_pad r₁ (length_text p.content_encoding)
  have r₃ := length_append_pad r₂ (length_text p.correlation_id)
  have r₄ := length_append_pad r₃ (length_text p.reply_to)
  have r₅ := length_append_pad r₄ (length_text p.expiration)
  have r₆ := length_append_pad r₅ (length_text p.message_id)
  have r₇ := length_append_pad r₆ (length_text p.type)
  have r₈ := length_append_pad r₇ (length_text p.user_id)
  have r₉ := length_append_pad r₈ (length_text p.app_id)
  change amqp_basic_properties_clone p (filled []) = _
  rw [amqp_basic_properties_clone, cloneFlagged_bind (n := 0) (by simp) (by omega),
    cloneFlagged_bind r₁ (by omega), cloneFlagged_bind r₂ (by omega),
    cloneFlagged_bind r₃ (by omega), cloneFlagged_bind r₄ (by omega),
    cloneFlagged_bind r₅ (by omega), cloneFlagged_bind r₆ (by omega),
    cloneFlagged_bind r₇ (by omega), cloneFlagged_bind r₈ (by omega),
    cloneFlagged_bind r₉ (by omega)]
  change some _ = some _
  simp [BasicProperties.start, BasicProperties.strings]

end RabbitClient.AmqpPool
