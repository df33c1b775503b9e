import RabbitClient.Broker.Pool
import RabbitClient.Library.Arena
import Mathlib.Data.List.GetD

/-! What has been copied into a pool is not touched by the allocations and copies that follow. -/
namespace RabbitClient.AmqpPool

open Bytes

variable {pool pool' : Pool} {p : Pointer} {src : Bytes} {amount i : Nat}

/-- A pool that pages are only added to. -/
structure WellFormed (pool : Pool) : Prop where
  pages : ∀ page ∈ pool.pages, page.length = pool.pagesize
  fresh : pool.next_page = pool.pages.length
  current : ∀ i, pool.alloc_block = some i → i < pool.pages.length
  used : pool.alloc_used ≤ pool.pagesize

/-- Of the page that is being filled the front is given away, of the others everything. -/
def Pool.arena (pool : Pool) : Arena Block UInt8 where
  contents
    | .page i => pool.pages.getD i []
    | .large i => pool.large_blocks.getD i []
  given
    | .page i =>
      if pool.alloc_block = some i then pool.alloc_used
      else if i < pool.pages.length then pool.pagesize
      else 0
    | .large i => (pool.large_blocks.getD i []).length

theorem wellFormed_init (pagesize : Nat) : WellFormed (init_amqp_pool pagesize) where
  pages := by simp [init_amqp_pool]
  fresh := rfl
  current := by simp [init_amqp_pool]
  used := Nat.zero_le _

theorem length_page (h : WellFormed pool) (hi : i < pool.pages.length) :
    (pool.pages.getD i []).length = pool.pagesize := by
  rw [List.getD_eq_getElem _ _ hi]
  exact h.pages _ (List.getElem_mem hi)

theorem WellFormed.sound (h : WellFormed pool) : pool.arena.Sound := by
  intro block
  cases block with
  | large i => exact Nat.le_refl _
  | page i =>
    change (if pool.alloc_block = some i then pool.alloc_used
      else if i < pool.pages.length then pool.pagesize else 0) ≤ (pool.pages.getD i []).length
    split
    · next hcurrent =>
      rw [length_page h (h.current i hcurrent)]
      exact h.used
    · split
      · next hi => rw [length_page h hi]
      · exact Nat.zero_le _

/-- An allocation: nothing that was given away changes, and the new part lies behind it. -/
structure Allocates (pool : Pool) (amount : Nat) (p : Pointer) (pool' : Pool) : Prop where
  wellFormed : WellFormed pool'
  keeps : pool.arena.Keeps pool'.arena
  free : pool.arena.given p.block ≤ p.offset
  room : p.offset + amount ≤ pool'.arena.given p.block

theorem Allocates.less {less : Nat} (h : Allocates pool amount p pool') (hle : less ≤ amount) :
    Allocates pool less p pool' :=
  ⟨h.wellFormed, h.keeps, h.free, Nat.le_trans (Nat.add_le_add_left hle _) h.room⟩

theorem allocates_large (h : WellFormed pool) (amount : Nat) :
    Allocates pool amount ⟨.large pool.large_blocks.length, 0⟩
      { pool with large_blocks := pool.large_blocks ++ [calloc amount] } := by
  refine ⟨⟨h.pages, h.fresh, h.current, h.used⟩, ?_, ?_, ?_⟩
  · intro block
    cases block with
    | page i => exact ⟨Nat.le_refl _, rfl⟩
    | large i =>
      simp only [Pool.arena]
      by_cases hi : i < pool.large_blocks.length
      · rw [List.getD_append _ _ _ _ hi]
        exact ⟨Nat.le_refl _, rfl⟩
      · rw [List.getD_eq_default _ _ (Nat.le_of_not_lt hi)]
        simp
  · simp [Pool.arena]
  · simp [Pool.arena, calloc]

theorem allocates_current (h : WellFormed pool) (hcurrent : pool.alloc_block = some i)
    (hroom : pool.alloc_used + amount ≤ pool.pagesize) :
    Allocates pool amount ⟨.page i, pool.alloc_used⟩
      { pool with alloc_used := pool.alloc_used + amount } := by
  refine ⟨⟨h.pages, h.fresh, h.current, hroom⟩, ?_, ?_, ?_⟩
  · intro block
    cases block with
    | large i => exact ⟨Nat.le_refl _, rfl⟩
    | page j =>
      simp only [Pool.arena]
      by_cases hj : pool.alloc_block = some j <;> simp [hj]
  · simp [Pool.arena, hcurrent]
  · simp [Pool.arena, hcurrent]

theorem nextPage_eq (h : WellFormed pool) (amount : Nat) :
    nextPage pool amount = (⟨.page pool.pages.length, 0⟩,
      { pool with
        pages := pool.pages ++ [calloc pool.pagesize]
        next_page := pool.pages.length + 1
        alloc_block := some pool.pages.length
        alloc_used := amount }) := by
  rw [nextPage, if_pos h.fresh.ge]

theorem allocates_nextPage (h : WellFormed pool) (hamount : amount ≤ pool.pagesize) :
    Allocates pool amount (nextPage pool amount).1 (nextPage pool amount).2 := by
  have hlast : pool.alloc_block ≠ some pool.pages.length := by
    intro hcurrent
    have hlt := h.current _ hcurrent
    omega
  rw [nextPage_eq h]
  refine ⟨⟨?_, ?_, ?_, hamount⟩, ?_, ?_, ?_⟩
  · intro page hpage
    rcases List.mem_append.mp hpage with hold | hnew
    · exact h.pages page hold
    · rw [List.mem_singleton.mp hnew]
      exact List.length_replicate
  · simp
  · simp
  · intro block
    cases block with
    | large i => exact ⟨Nat.le_refl _, rfl⟩
    | page i =>
      simp only [Pool.arena, Option.some_inj, List.length_append, List.length_singleton]
      rcases Nat.lt_trichotomy i pool.pages.length with hi | rfl | hi
      · have hused := h.used
        have hother : ¬ pool.pages.length = i := by omega
        have hin : i < pool.pages.length + 1 := by omega
        simp only [List.getD_append _ _ _ _ hi, if_neg hother, if_pos hin, if_pos hi]
        refine ⟨?_, trivial⟩
        split <;> omega
      · rw [if_neg hlast, if_neg (by omega), if_pos rfl]
        exact ⟨Nat.zero_le _, rfl⟩
      · have hcurrent : pool.alloc_block ≠ some i := by
          intro hcurrent
          have hlt := h.current _ hcurrent
          omega
        rw [if_neg hcurrent, if_neg (by omega), if_neg (by omega), if_neg (by omega)]
        exact ⟨Nat.le_refl _, rfl⟩
  · simp [Pool.arena, hlast]
  · simp [Pool.arena]

/-- `amqp_pool_alloc` gives away memory that was free. -/
theorem amqp_pool_alloc_allocates (h : WellFormed pool) (hamount : amount ≠ 0) :
    ∃ p pool', amqp_pool_alloc pool amount = (some p, pool') ∧ Allocates pool amount p pool' := by
  have hround : amount ≤ (amount + 7) / 8 * 8 := by omega
  simp only [amqp_pool_alloc, if_neg hamount]
  split
  · exact ⟨_, _, rfl, (allocates_large h _).less hround⟩
  · next hlarge =>
    have hnext := allocates_nextPage h (Nat.le_of_not_lt hlarge)
    split
    · next i hcurrent =>
      split
      · next hroom => exact ⟨_, _, rfl, (allocates_current h hcurrent hroom).less hround⟩
      · exact ⟨_, _, rfl, hnext.less hround⟩
    · exact ⟨_, _, rfl, hnext.less hround⟩

theorem getD_modify (l : List Bytes) (f : Bytes → Bytes) {i : Nat} (hi : i < l.length) (j : Nat) :
    (l.modify i f).getD j [] = if j = i then f (l.getD i []) else l.getD j [] := by
  simp only [List.getD_eq_getElem?_getD, List.getElem?_modify]
  by_cases h : j = i
  · subst j
    simp [hi]
  · simp [h, Ne.symm h]

/-- A copy into memory that has been given away is a write there. -/
theorem memcpy_arena (h : WellFormed pool) (hsrc : src ≠ [])
    (hroom : p.offset + src.length ≤ pool.arena.given p.block) :
    (memcpy pool p src).arena = pool.arena.write p.block p.offset src := by
  have hpos := List.length_pos_iff.mpr hsrc
  obtain ⟨block, offset⟩ := p
  cases block with
  | page i =>
    have hi : i < pool.pages.length := by
      by_contra hi
      have hcurrent : pool.alloc_block ≠ some i := fun hcurrent => hi (h.current i hcurrent)
      simp only [Pool.arena, if_neg hcurrent, if_neg hi] at hroom
      omega
    rw [memcpy, Arena.write, Arena.mk.injEq]
    constructor
    · funext block
      cases block with
      | large j => rfl
      | page j =>
        simp only [Pool.arena, getD_modify _ _ hi, Function.update_apply, Block.page.injEq]
        rfl
    · funext block
      cases block with
      | large j => rfl
      | page j => simp [Pool.arena]
  | large i =>
    have hi : i < pool.large_blocks.length := by
      by_contra hi
      simp only [Pool.arena, List.getD_eq_default _ _ (Nat.le_of_not_lt hi), List.length_nil] at hroom
      omega
    have hlen : (overwrite (pool.large_blocks.getD i []) offset src).length =
        (pool.large_blocks.getD i []).length := by
      simp only [Pool.arena] at hroom
      simp only [overwrite, List.length_append, List.length_take, List.length_drop]
      omega
    rw [memcpy, Arena.write, Arena.mk.injEq]
    constructor
    · funext block
      cases block with
      | page j => rfl
      | large j =>
        simp only [Pool.arena, getD_modify _ _ hi, Function.update_apply, Block.large.injEq]
        rfl
    · funext block
      cases block with
      | page j => rfl
      | large j =>
        simp only [Pool.arena, getD_modify _ _ hi]
        split
        · next hj => rw [hlen, hj]
        · rfl

theorem wellFormed_memcpy (h : WellFormed pool)
    (hroom : p.offset + src.length ≤ pool.arena.given p.block) :
    WellFormed (memcpy pool p src) := by
  obtain ⟨block, offset⟩ := p
  cases block with
  | large i => exact ⟨h.pages, h.fresh, h.current, h.used⟩
  | page i =>
    have hin : offset + src.length ≤ (pool.pages.getD i []).length :=
      Nat.le_trans hroom (h.sound (.page i))
    refine ⟨?_, ?_, ?_, h.used⟩
    · intro page hpage
      obtain ⟨j, hj⟩ := List.mem_iff_getElem?.mp hpage
      simp only [memcpy, List.getElem?_modify, Option.map_eq_map, Option.map_eq_some_iff] at hj
      obtain ⟨old, hold, rfl⟩ := hj
      have hlen := h.pages old (List.mem_of_getElem? hold)
      split
      · next hij =>
        subst hij
        rw [List.getD_eq_getElem?_getD, hold, Option.getD_some] at hin
        simp only [memcpy, overwrite, List.length_append, List.length_take, List.length_drop]
        omega
      · exact hlen
    · simpa [memcpy] using h.fresh
    · simpa [memcpy] using h.current

/-- A pool that has come from another by allocations and copies. -/
structure Extends (pool pool' : Pool) : Prop where
  wellFormed : WellFormed pool'
  keeps : pool.arena.Keeps pool'.arena

theorem Extends.refl (h : WellFormed pool) : Extends pool pool := ⟨h, .refl _⟩

theorem Extends.trans {pool'' : Pool} (h : Extends pool pool') (h' : Extends pool' pool'') :
    Extends pool pool'' :=
  ⟨h'.wellFormed, h.keeps.trans h'.keeps⟩

/-- The copy of a string that has been given away together with its memory. -/
structure Refers (pool : Pool) (copy : AmqpBytes) (b : Bytes) : Prop where
  len : copy.len = b.length
  bytes : b ≠ [] → ∃ p, copy.bytes = some p ∧ p.offset + b.length ≤ pool.arena.given p.block ∧
    pool.arena.read p.block p.offset b.length = b

theorem Refers.extends {copy : AmqpBytes} {b : Bytes} (h : Refers pool copy b)
    (he : Extends pool pool') : Refers pool' copy b := by
  refine ⟨h.len, fun hb => ?_⟩
  obtain ⟨p, hp, hgiven, hread⟩ := h.bytes hb
  refine ⟨p, hp, Nat.le_trans hgiven (he.keeps p.block).1, ?_⟩
  rw [he.keeps.read_eq hgiven, hread]

/-- What is read of a copy is the string. -/
theorem Refers.read {copy : AmqpBytes} {b : Bytes} (h : Refers pool copy b) :
    ((copy.bytes.map (bytesAt pool)).getD []).take copy.len = b := by
  by_cases hb : b = []
  · rw [h.len, hb, List.length_nil, List.take_zero]
  · obtain ⟨⟨block, offset⟩, hp, -, hread⟩ := h.bytes hb
    rw [hp, h.len, Option.map_some, Option.getD_some]
    cases block <;> exact hread

/-- A step that makes a copy of `b`. -/
def Copies (op : StateT Pool Option AmqpBytes) (b : Bytes) : Prop :=
  ∀ pool, WellFormed pool → ∃ copy pool', op pool = some (copy, pool') ∧ Extends pool pool' ∧
    Refers pool' copy b

theorem copies_bytes (b : Bytes) : Copies (cloneBytesPool b) b := by
  intro pool h
  by_cases hb : b = []
  · subst b
    exact ⟨{}, pool, rfl, .refl h, rfl, by simp⟩
  · have hlen : b.length ≠ 0 := by simpa using hb
    obtain ⟨p, pool', halloc, hwf, hkeeps, hfree, hroom⟩ := amqp_pool_alloc_allocates h hlen
    have harena := memcpy_arena hwf hb hroom
    refine ⟨⟨b.length, some p⟩, memcpy pool' p b, ?_, ⟨wellFormed_memcpy hwf hroom, ?_⟩, rfl, ?_⟩
    · rw [cloneBytesPool, if_neg hlen, halloc]
    · rw [harena]
      exact hkeeps.write h.sound hfree
    · intro _
      rw [harena]
      exact ⟨p, rfl, hroom, Arena.read_write hwf.sound hroom⟩

theorem copies_flagged (s : Option ShortString) : Copies (cloneFlagged s) (text s) := by
  cases s with
  | none =>
    intro pool h
    exact ⟨{}, pool, rfl, .refl h, rfl, fun hb => (hb rfl).elim⟩
  | some s => exact copies_bytes s.val

end RabbitClient.AmqpPool
