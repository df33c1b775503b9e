import RabbitClient.StringUtils.TimeZones

/-! A printed time point is read back to the microsecond. -/
namespace RabbitClient.StringUtils

open Bytes Calendar

variable {b digits : Bytes} {time : Int}

/-- Only the digits count. -/
theorem fractionLoop_filter (b : Bytes) : fractionLoop b = fractionLoop (b.filter isdigit) := by
  rw [fractionLoop, fractionLoop, List.foldr_filter]
  congr 1
  funext c tdec
  cases isdigit c <;> rfl

theorem fractionLoop_append_of_not_isdigit (hb : ∀ c ∈ b, isdigit c = false) (a : Bytes) :
    fractionLoop (a ++ b) = fractionLoop a := by
  have hnil : b.filter isdigit = [] :=
    List.filter_eq_nil_iff.mpr fun c hc => by simp [hb c hc]
  rw [fractionLoop_filter, List.filter_append, hnil, List.append_nil, ← fractionLoop_filter]

/-- Digits behind a point are a decimal fraction. -/
theorem fractionLoop_digits (h : ∀ c ∈ digits, isdigit c = true) :
    fractionLoop digits = (ofDigits digits : Rat) / 10 ^ digits.length := by
  induction digits with
  | nil => simp [fractionLoop, ofDigits]
  | cons c digits ih =>
    obtain ⟨hc, hdigits⟩ := List.forall_mem_cons.mp h
    have hstep : fractionLoop (c :: digits) =
        (fractionLoop digits + (c.toNat - 48 : Nat)) / 10 := by
      simp [fractionLoop, hc]
    have hvalue : ofDigits (c :: digits) =
        (c.toNat - 48) * 10 ^ digits.length + ofDigits digits := by
      rw [← List.singleton_append, ofDigits_append]
      simp [ofDigits]
    rw [hstep, ih hdigits, hvalue, List.length_cons, pow_succ]
    push_cast
    field_simp
    ring

/-- The fraction of a text with one point is that of the digits behind the point. -/
theorem fraction_point (hb : ofChar '.' ∉ b) (rest : Bytes) :
    fraction (b ++ ofChar '.' :: rest) = fractionLoop rest := by
  have hpoint : isdigit (ofChar '.') = false := by decide
  rw [fraction, if_pos (by simp), List.dropWhile_append_of_pos (ne_of_notMem hb),
    List.dropWhile_cons_of_neg (by simp), fractionLoop_filter,
    List.filter_cons_of_neg (by simp [hpoint]), ← fractionLoop_filter]

/-- The fields of an instant are in range as long as the year has four digits. -/
theorem inRange_gmtime (h0 : 0 ≤ time) (h1 : time < 86400 * 150000) : InRange (gmtime time) := by
  obtain ⟨hm0, hm1, hd0, hd1⟩ := civilFromDays_bounds (time / 86400)
  have hdays : 0 ≤ time / 86400 ∧ time / 86400 < 150000 := by omega
  obtain ⟨hy0, hy1⟩ := civilFromDays_year hdays.1 hdays.2
  intro f
  cases f <;> simp only [gmtime, TimeField.get, TimeField.lo, TimeField.hi] <;> omega

/-- The stamp of an instant. -/
def stampOf (time : Int) (h0 : 0 ≤ time) (h1 : time < 86400 * 150000) : Stamp where
  fields := gmtime time
  inRange := inRange_gmtime h0 h1
  isdst := rfl

/-- A year of four digits is printed like the other numbers. -/
theorem put_time_gmtime (h0 : 0 ≤ time) (h1 : time < 86400 * 150000) :
    put_time FORMAT (gmtime time) = (stampOf time h0 h1).text := by
  have hdays : 0 ≤ time / 86400 ∧ time / 86400 < 150000 := by omega
  obtain ⟨hy0, hy1⟩ := civilFromDays_year hdays.1 hdays.2
  have hyear : signed (TimeField.year.get (gmtime time)) =
      printed (gmtime time) (.field .year) := by
    have hget : TimeField.year.get (gmtime time) = (civilFromDays (time / 86400)).year := by
      simp [gmtime, TimeField.get]
    have hlen := (not_congr (length_decimal_le_iff (k := 3) (by omega))).mpr
      (show ¬ (civilFromDays (time / 86400)).year.toNat < 10 ^ 3 by omega)
    have hpad : TimeField.year.len - (decimal (civilFromDays (time / 86400)).year.toNat).length =
        0 := by
      simp only [TimeField.len]
      omega
    rw [printed, hget, padded, hpad, signed, if_neg (by omega)]
    have hnat : (civilFromDays (time / 86400)).year.natAbs =
        (civilFromDays (time / 86400)).year.toNat := by omega
    rw [hnat]
    rfl
  simp only [put_time, Stamp.text, stampOf, FORMAT, List.flatMap_cons, List.flatMap_nil, hyear]
  rfl

/-- Where the time zone is UTC, the seconds are those of the fields. -/
theorem finaltime_utc (stamp : Stamp) (rest : Bytes) :
    finaltime utc (stamp.text ++ rest) = timegm stamp.fields := by
  rw [finaltime_eq]
  simp [utc, Rule.offset, Zone.offsetLocal]

/-- The seconds and the microseconds of a time point at or after the epoch. -/
theorem to_string_time_point_eq (now : Int64) (h : 0 ≤ now.toInt)
    (hlt : now.toInt / 1000000000 < 86400 * 150000) :
    to_string_time_point now = (stampOf (now.toInt / 1000000000) (by omega) hlt).text ++
      ofChar '.' :: (padded 6 (decimal (now.toInt / 1000 % 1000000).toNat) ++ ascii "Z") := by
  have hmsec : (now.toInt.tdiv 1000).tmod 1000000 = now.toInt / 1000 % 1000000 := by
    rw [Int.tdiv_eq_ediv_of_nonneg h, Int.tmod_eq_emod_of_nonneg (by omega)]
  have hsigned : signed (now.toInt / 1000 % 1000000) =
      decimal (now.toInt / 1000 % 1000000).toNat := by
    have hnat : (now.toInt / 1000 % 1000000).natAbs = (now.toInt / 1000 % 1000000).toNat := by
      omega
    rw [signed, if_neg (by omega), hnat]
  rw [to_string_time_point, hmsec, hsigned, Int.tdiv_eq_ediv_of_nonneg h,
    put_time_gmtime (by omega) hlt]
  simp [ascii]

/-- A time point at or after the epoch, printed and read where the time zone is UTC, is what it
was, in whole microseconds. -/
theorem make_time_gmt_mili_to_string (now : Int64) (h : 0 ≤ now.toInt) :
    make_time_gmt_mili utc (to_string_time_point now) =
      ((now.toInt / 1000 : Int) : Rat) / 1000000 := by
  have hmax : now.toInt < 2 ^ 63 := now.toInt_lt
  have hlt : now.toInt / 1000000000 < 86400 * 150000 := by omega
  rw [to_string_time_point_eq now h hlt, make_time_gmt_mili, finaltime_utc,
    fraction_point (point_notMem_text _)]
  have hZ : ∀ c ∈ ascii "Z", isdigit c = false := List.forall_mem_singleton.mpr rfl
  have hn : (now.toInt / 1000 % 1000000).toNat < 10 ^ 6 := by omega
  rw [fractionLoop_append_of_not_isdigit hZ, fractionLoop_digits fun c hc => isdigit_padded hc,
    length_padded (by omega) hn, ofDigits_padded, stampOf, timegm_gmtime]
  -- whole seconds and the microseconds that remain
  have hsum : (now.toInt / 1000 : Int) =
      now.toInt / 1000000000 * 1000000 + (now.toInt / 1000 % 1000000).toNat := by omega
  conv_rhs => rw [hsum]
  push_cast
  field_simp
  ring

/-- A time point with zeros on both sides of its microseconds. -/
theorem make_time_gmt_mili_to_string_2024 :
    0 ≤ (1704423845070500999 : Int64).toInt ∧
      make_time_gmt_mili utc (to_string_time_point 1704423845070500999) =
        ((1704423845070500 : Int) : Rat) / 1000000 :=
  ⟨by decide, make_time_gmt_mili_to_string 1704423845070500999 (by decide)⟩

end RabbitClient.StringUtils
