import RabbitClient.Library.Bytes
import RabbitClient.Library.UnorderedMap

/-! `hset` and `hgetall` of `RedisFacade`, over the content of one hash. -/
namespace RabbitClient.RedisFacade

open UnorderedMap (Lists)

abbrev HASH_MAP := UnorderedMap Bytes Bytes

variable {hash : HASH_MAP} {l : List (Bytes × Bytes)} {field value : Bytes}

/-- The command of the server: it stores the value, and tells whether the field is new. -/
def hsetField (hash : HASH_MAP) (field value : Bytes) : Bool × HASH_MAP :=
  ((hash field).isNone, Function.update hash field (some value))

/-- The loop of `hset` over a range, listed as it is iterated. -/
def hsetFrom (sucess : Bool) (hash : HASH_MAP) : List (Bytes × Bytes) → Bool × HASH_MAP
  | [] => (sucess, hash)
  | (field, value) :: l =>
    -- sucess = sucess && redis_->hset(..): the command is sent only after a success
    if sucess then
      let (isNew, hash) := hsetField hash field value
      hsetFrom isNew hash l
    else hsetFrom false hash l

def hset (hash : HASH_MAP) (l : List (Bytes × Bytes)) : Bool × HASH_MAP := hsetFrom true hash l

/-- `hgetall`, where the server answers with the fields `reply`. -/
def hgetall (reply : List (Bytes × Bytes)) (_output : HASH_MAP) : HASH_MAP :=
  UnorderedMap.empty.insertAll reply

/-- The fields of the range have their new values, in the hash and for who reads it. -/
structure Written (hash hash' : HASH_MAP) (l : List (Bytes × Bytes)) : Prop where
  content : hash' = hash.override l
  read : ∀ reply output, Lists reply hash' → hgetall reply output = hash.override l

theorem written_iff {hash' : HASH_MAP} : Written hash hash' l ↔ hash' = hash.override l := by
  constructor
  · exact fun h => h.content
  · rintro rfl
    exact ⟨rfl, fun reply output h => h.insertAll_empty⟩

theorem hsetFrom_false (hash : HASH_MAP) (l : List (Bytes × Bytes)) :
    hsetFrom false hash l = (false, hash) := by
  induction l with
  | nil => rfl
  | cons p l ih => exact ih

/-- The first pair is always stored; the others only if its field was new. -/
theorem hset_cons (hash : HASH_MAP) (field value : Bytes) (l : List (Bytes × Bytes)) :
    (hset hash ((field, value) :: l)).2 =
      if hash field = none then (hset (Function.update hash field (some value)) l).2
      else Function.update hash field (some value) := by
  rw [hset, hsetFrom, if_pos rfl, hsetField]
  by_cases hnew : hash field = none
  · simp [hnew, hset]
  · have hold : (hash field).isNone = false := Option.isNone_eq_false_iff.mpr
      (Option.isSome_iff_ne_none.mpr hnew)
    simp only [hold, hnew, hsetFrom_false, if_false]

/-- A range is written exactly if behind a field that existed there are only values that the hash
has already. -/
theorem hset_written_iff (hash : HASH_MAP) (l : List (Bytes × Bytes))
    (hl : (l.map Prod.fst).Nodup) :
    Written hash (hset hash l).2 l ↔
      l.Pairwise fun p q => hash p.1 ≠ none → hash q.1 = some q.2 := by
  rw [written_iff]
  induction l generalizing hash with
  | nil =>
    refine iff_of_true ?_ .nil
    funext k
    rfl
  | cons p l ih =>
    obtain ⟨field, value⟩ := p
    obtain ⟨hfield, hrest⟩ := List.nodup_cons.mp hl
    have hother : ∀ q ∈ l, Function.update hash field (some value) q.1 = hash q.1 := by
      intro q hq
      have hne : q.1 ≠ field := fun he => hfield (List.mem_map.mpr ⟨q, hq, he⟩)
      simp [hne]
    rw [hset_cons, UnorderedMap.override_cons hfield, List.pairwise_cons]
    by_cases hnew : hash field = none
    · -- the loop goes on, over a hash that differs in this field only
      rw [if_pos hnew, ih _ hrest]
      have hpairs : l.Pairwise (fun p q => Function.update hash field (some value) p.1 ≠ none →
          Function.update hash field (some value) q.1 = some q.2) ↔
            l.Pairwise fun p q => hash p.1 ≠ none → hash q.1 = some q.2 := by
        apply List.Pairwise.iff_of_mem
        intro p q hp hq
        rw [hother p hp, hother q hq]
      rw [hpairs, and_iff_right]
      exact fun q _ hfield => (hfield hnew).elim
    · -- the loop stores this field and nothing more
      rw [if_neg hnew]
      refine eq_comm.trans ((UnorderedMap.override_eq_self_iff hrest).trans ?_)
      constructor
      · intro h
        have hold : ∀ q ∈ l, hash q.1 = some q.2 := by
          intro q hq
          rw [← hother q hq]
          exact h q hq
        refine ⟨fun q hq _ => hold q hq, ?_⟩
        exact List.pairwise_iff_forall_sublist.mpr fun hsub _ => hold _ (hsub.subset (by simp))
      · rintro ⟨h, -⟩ q hq
        rw [hother q hq]
        exact h q hq hnew

/-- One new field and one that is written again. -/
def newThenOld : List (Bytes × Bytes) := [([97], [49]), ([98], [50])]

def oneField : HASH_MAP := fun k => if k = [98] then some [49] else none

theorem hset_written_iff_newThenOld : Written oneField (hset oneField newThenOld).2 newThenOld :=
  (hset_written_iff oneField newThenOld (by decide)).mpr (by decide)

/-- In the other order the write behind the old field is lost. -/
theorem hset_loses_field :
    ¬ Written oneField (hset oneField newThenOld.reverse).2 newThenOld.reverse := by
  intro h
  have hlost : (hset oneField newThenOld.reverse).2 [97] = none := by decide
  rw [h.content] at hlost
  exact absurd hlost (by decide)

end RabbitClient.RedisFacade
