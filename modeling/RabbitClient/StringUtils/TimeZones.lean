import RabbitClient.StringUtils.Timestamp

/-! What `make_time_gmt` returns in different time zones. -/
namespace RabbitClient.StringUtils

open Bytes Calendar

/-- The timestamp is read as UTC by both functions. -/
structure ReadAsUtc (zone : Zone) (stamp : Stamp) : Prop where
  seconds : make_time_gmt zone stamp.text = timegm stamp.fields
  mili : (make_time_gmt_mili zone stamp.text).floor = timegm stamp.fields

/-- The time zone of the process makes no difference. -/
structure Independent (zone zone' : Zone) (stamp : Stamp) : Prop where
  same : make_time_gmt zone stamp.text = make_time_gmt zone' stamp.text
  first : ReadAsUtc zone stamp
  second : ReadAsUtc zone' stamp

/-- At the local time that has the UTC fields of the instant, no summer time is in force, and the
local time of the instant is not taken for that of another one; or two errors cancel. -/
def Zone.Settled (zone : Zone) (time : Int) : Prop :=
  zone.save = 0 ∨
    (zone.dstLocal time = false ∧ zone.dstLocal (time + zone.offset time) = zone.dst time) ∨
    (zone.dstLocal time = true ∧ zone.dstLocal (time + zone.offset time) = true ∧
      zone.dst time = false)

variable {zone zone' : Zone} {stamp : Stamp}

theorem point_notMem_text (stamp : Stamp) : ofChar '.' ∉ stamp.text := by
  intro h
  obtain ⟨conversion, hmem, hc⟩ := List.mem_flatMap.mp h
  cases conversion with
  | field f => exact absurd (isdigit_padded hc) (by decide)
  | literal c =>
    rw [printed, List.mem_singleton] at hc
    subst hc
    exact absurd hmem (by decide)

theorem make_time_gmt_mili_text (zone : Zone) (stamp : Stamp) :
    make_time_gmt_mili zone stamp.text = (make_time_gmt zone stamp.text : Rat) := by
  rw [make_time_gmt_mili, fraction, if_neg (point_notMem_text stamp), add_zero, make_time_gmt]

theorem make_time_gmt_eq_iff (zone : Zone) (stamp : Stamp) :
    make_time_gmt zone stamp.text = timegm stamp.fields ↔
      zone.Settled (timegm stamp.fields - zone.std) := by
  have hfinal := finaltime_eq zone stamp []
  rw [List.append_nil] at hfinal
  rw [make_time_gmt, hfinal]
  simp only [Zone.Settled, Zone.offsetLocal]
  generalize hb : timegm stamp.fields - zone.std = basetime
  have hfields : timegm stamp.fields = basetime + zone.std := by omega
  rw [hfields]
  -- the summer times that are added and taken away leave a multiple of `zone.save`
  have hoffset : zone.offset basetime =
      zone.std + if zone.dst basetime then zone.save else 0 := rfl
  generalize hlocal : zone.dstLocal (basetime + zone.offset basetime) = dstThere
  rw [hoffset]
  cases zone.dst basetime <;> cases zone.dstLocal basetime <;> cases dstThere <;>
    simp only [Bool.false_eq_true, Bool.true_eq_false, reduceIte, and_self, and_true, iff_true,
      and_false, or_false, or_true] <;> omega

theorem readAsUtc_iff : ReadAsUtc zone stamp ↔
    zone.Settled (timegm stamp.fields - zone.std) := by
  rw [← make_time_gmt_eq_iff]
  constructor
  · exact fun h => h.seconds
  · intro h
    refine ⟨h, ?_⟩
    rw [make_time_gmt_mili_text, Rat.floor_intCast, h]

/-- A timestamp means the same in two time zones exactly if it is settled in both of them, at the
instant that its fields denote in their standard time. -/
theorem make_time_gmt_independent_iff (zone zone' : Zone) (stamp : Stamp) :
    Independent zone zone' stamp ↔
      zone.Settled (timegm stamp.fields - zone.std) ∧
        zone'.Settled (timegm stamp.fields - zone'.std) := by
  rw [← readAsUtc_iff, ← readAsUtc_iff]
  constructor
  · exact fun h => ⟨h.first, h.second⟩
  · exact fun ⟨h, h'⟩ => ⟨h.seconds.trans h'.seconds.symm, h, h'⟩

/-- Five hours behind UTC, with summer time from the tenth of March to the third of November
2024. -/
def fiveBehindRule : Rule where
  std := -18000
  save := 3600
  dst := fun time => decide (1710054000 ≤ time ∧ time < 1730613600)

/-- The local times of the summer; an hour that comes twice is taken for the first one. -/
def fiveBehindLocal (local_time : Int) : Bool :=
  decide (1710039600 ≤ local_time ∧ local_time < 1730599200)

theorem fiveBehind_consistent (time : Int)
    (hunique : ∀ time', time' + fiveBehindRule.offset time' = time + fiveBehindRule.offset time →
      time' = time) :
    fiveBehindLocal (time + fiveBehindRule.offset time) = fiveBehindRule.dst time := by
  have hearlier := hunique (time - 3600)
  simp only [fiveBehindLocal, fiveBehindRule, Rule.offset, decide_eq_true_eq,
    decide_eq_decide] at hearlier ⊢
  split_ifs at hearlier ⊢ <;> omega

def fiveBehind : Zone where
  toRule := fiveBehindRule
  dstLocal := fiveBehindLocal
  consistent := fiveBehind_consistent

def firstOfJuly : Stamp where
  fields := { tm_year := 124, tm_mon := 6, tm_mday := 1, tm_hour := 12 }
  inRange := by
    intro f
    cases f <;> decide
  isdst := rfl

/-- In summer the result is an hour late. -/
theorem make_time_gmt_in_summer : ¬ Independent utc fiveBehind firstOfJuly := by
  intro h
  exact absurd h.same (by decide)

end RabbitClient.StringUtils
