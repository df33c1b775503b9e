import RabbitClient.Library.Calendar
import RabbitClient.StringUtils.Split
import RabbitClient.StringUtils.ToStringJson
import Mathlib.Algebra.Order.Field.Rat
import Mathlib.Tactic.FieldSimp
import Mathlib.Tactic.Ring

/-! Timestamps: the conversions of the C library for a time zone, and those of `StringUtils`. -/
namespace RabbitClient.StringUtils

open Bytes Calendar

/-- `std::tm`; months are counted from 0 and years from 1900. -/
structure Tm where
  tm_sec : Int := 0
  tm_min : Int := 0
  tm_hour : Int := 0
  tm_mday : Int := 0
  tm_mon : Int := 0
  tm_year : Int := 0
  tm_isdst : Int := 0
deriving DecidableEq

/-- The seconds since the epoch of fields that are read as UTC. -/
def timegm (t : Tm) : Int :=
  daysFromCivil ⟨t.tm_year + 1900 + t.tm_mon / 12, t.tm_mon % 12 + 1, t.tm_mday⟩ * 86400 +
    t.tm_hour * 3600 + t.tm_min * 60 + t.tm_sec

def gmtime (time : Int) : Tm :=
  let date := civilFromDays (time / 86400)
  { tm_sec := time % 60
    tm_min := time / 60 % 60
    tm_hour := time / 3600 % 24
    tm_mday := date.day
    tm_mon := date.month - 1
    tm_year := date.year - 1900 }

/-- The offset of standard time, what summer time adds to it, and when it does. -/
structure Rule where
  std : Int
  save : Int
  dst : Int → Bool

/-- The offset that is in force at an instant. -/
def Rule.offset (rule : Rule) (time : Int) : Int := rule.std + if rule.dst time then rule.save else 0

/-- A time zone, with the local times at which `mktime` takes summer time to be in force. -/
structure Zone extends Rule where
  dstLocal : Int → Bool
  /-- The two agree wherever a local time belongs to one instant only. -/
  consistent : ∀ time, (∀ time', time' + toRule.offset time' = time + toRule.offset time →
    time' = time) → dstLocal (time + toRule.offset time) = dst time

/-- The offset that is in force at a local time. -/
def Zone.offsetLocal (zone : Zone) (local_time : Int) : Int :=
  zone.std + if zone.dstLocal local_time then zone.save else 0

def utc : Zone where
  std := 0
  save := 0
  dst := fun _ => false
  dstLocal := fun _ => false
  consistent := fun _ _ => rfl

def localtime (zone : Zone) (time : Int) : Tm :=
  { gmtime (time + zone.offset time) with tm_isdst := if zone.dst time then 1 else 0 }

/-- A negative `tm_isdst` leaves it to the zone whether summer time is in force. -/
def mktime (zone : Zone) (t : Tm) : Int :=
  if t.tm_isdst = 0 then timegm t - zone.std
  else if 0 < t.tm_isdst then timegm t - (zone.std + zone.save)
  else timegm t - zone.offsetLocal (timegm t)

/-- The numbers of a timestamp. -/
inductive TimeField where
  | year | month | day | hour | minute | second
deriving DecidableEq

namespace TimeField

def len : TimeField → Nat
  | .year => 4
  | _ => 2

/-- The range in which a number is accepted. -/
def lo : TimeField → Nat
  | .month => 1
  | .day => 1
  | _ => 0

def hi : TimeField → Nat
  | .year => 9999
  | .month => 12
  | .day => 31
  | .hour => 23
  | .minute => 59
  | .second => 60

def get (t : Tm) : TimeField → Int
  | .year => t.tm_year + 1900
  | .month => t.tm_mon + 1
  | .day => t.tm_mday
  | .hour => t.tm_hour
  | .minute => t.tm_min
  | .second => t.tm_sec

def set (t : Tm) (n : Int) : TimeField → Tm
  | .year => { t with tm_year := n - 1900 }
  | .month => { t with tm_mon := n - 1 }
  | .day => { t with tm_mday := n }
  | .hour => { t with tm_hour := n }
  | .minute => { t with tm_min := n }
  | .second => { t with tm_sec := n }

end TimeField

/-- A part of a format. -/
inductive Conversion where
  | field (f : TimeField)
  | literal (c : UInt8)
deriving DecidableEq

/-- `%Y-%m-%dT%H:%M:%S`; `%X` is `%H:%M:%S` in the C locale. -/
def FORMAT : List Conversion :=
  [.field .year, .literal (ofChar '-'), .field .month, .literal (ofChar '-'), .field .day,
    .literal (ofChar 'T'), .field .hour, .literal (ofChar ':'), .field .minute,
    .literal (ofChar ':'), .field .second]

/-- A number in range, of which the zeros before it may be left out. -/
def extract_num (f : TimeField) (b : Bytes) : Option (Nat × Bytes) :=
  let digits := (b.take f.len).takeWhile isdigit
  if digits ≠ [] ∧ f.lo ≤ ofDigits digits ∧ ofDigits digits ≤ f.hi then
    some (ofDigits digits, b.drop digits.length)
  else none

/-- The parts of a format, up to the first one that is not there. -/
def extract : List Conversion → Bytes → Tm → Tm
  | [], _, t => t
  | .field f :: format, b, t =>
    match extract_num f b with
    | some (n, b) => extract format b (f.set t n)
    | none => t
  | .literal c :: format, b, t =>
    if b.head? = some c then extract format b.tail t else t

/-- `std::get_time` on a stream, which skips the blanks before the timestamp. -/
def get_time (format : List Conversion) (b : Bytes) (t : Tm) : Tm :=
  extract format (b.dropWhile isspace) t

/-- A number with zeros before it. -/
def padded (width : Nat) (b : Bytes) : Bytes :=
  List.replicate (width - b.length) (ofChar '0') ++ b

/-- `std::put_time`; a year is printed without zeros before it. -/
def put_time (format : List Conversion) (t : Tm) : Bytes :=
  format.flatMap fun
    | .field .year => signed (TimeField.year.get t)
    | .field f => padded f.len (decimal (f.get t).toNat)
    | .literal c => [c]

/-- What `make_time_gmt` and `make_time_gmt_mili` compute of the whole seconds. -/
def finaltime (zone : Zone) (value : Bytes) : Int :=
  let t := get_time FORMAT value {}
  let basetime := mktime zone t
  let diff := mktime zone { localtime zone basetime with tm_isdst := -1 }
  let diff := diff - mktime zone { gmtime basetime with tm_isdst := -1 }
  basetime + diff

def make_time_gmt (zone : Zone) (value : Bytes) : Int := finaltime zone value

/-- The loop over the characters from the last one down to the first point; others than digits
are skipped. -/
def fractionLoop (b : Bytes) : Rat :=
  b.foldr (fun c tdec => if isdigit c then (tdec + (c.toNat - 48 : Nat)) / 10 else tdec) 0

def fraction (value : Bytes) : Rat :=
  if ofChar '.' ∈ value then fractionLoop (value.dropWhile (· ≠ ofChar '.')) else 0

def make_time_gmt_mili (zone : Zone) (value : Bytes) : Rat :=
  finaltime zone value + fraction value

/-- `to_string` of a time point, which counts nanoseconds. -/
def to_string_time_point (now : Int64) : Bytes :=
  let msec := (now.toInt.tdiv 1000).tmod 1000000
  let now_time_t := now.toInt.tdiv 1000000000
  put_time FORMAT (gmtime now_time_t) ++ ascii "." ++ padded 6 (signed msec) ++ ascii "Z"

variable {t u : Tm} {n : Nat}

/-- The number of a digit behind others. -/
theorem ofDigits_append (b d : Bytes) :
    ofDigits (b ++ d) = ofDigits b * 10 ^ d.length + ofDigits d := by
  have hfold : ∀ (d : Bytes) (n : Nat), d.foldl (fun n x => 10 * n + (x.toNat - 48)) n =
      n * 10 ^ d.length + d.foldl (fun n x => 10 * n + (x.toNat - 48)) 0 := by
    intro d
    induction d with
    | nil => simp
    | cons x d ih =>
      intro n
      rw [List.foldl_cons, List.foldl_cons, ih, ih (10 * 0 + (x.toNat - 48)), List.length_cons,
        Nat.pow_succ]
      ring
  rw [ofDigits, ofDigits, ofDigits, List.foldl_append, hfold]

theorem ofDigits_replicate (k : Nat) : ofDigits (List.replicate k (ofChar '0')) = 0 := by
  induction k with
  | zero => rfl
  | succ k ih =>
    rw [List.replicate_succ', ofDigits_append, ih]
    rfl

theorem isdigit_padded {width : Nat} {c : UInt8} (h : c ∈ padded width (decimal n)) :
    isdigit c = true := by
  rcases List.mem_append.mp h with h | h
  · rw [List.eq_of_mem_replicate h]
    rfl
  · exact isdigit_iff.mpr (mem_decimal h)

theorem length_padded {width : Nat} (hwidth : 0 < width) (h : n < 10 ^ width) :
    (padded width (decimal n)).length = width := by
  have hlen := (length_decimal_le_iff hwidth).mpr h
  rw [padded, List.length_append, List.length_replicate]
  omega

theorem ofDigits_padded (width n : Nat) : ofDigits (padded width (decimal n)) = n := by
  rw [padded, ofDigits_append, ofDigits_replicate, ofDigits_decimal]
  simp

namespace TimeField

theorem len_pos (f : TimeField) : 0 < f.len := by
  cases f <;> decide

theorem hi_lt (f : TimeField) : f.hi < 10 ^ f.len := by
  cases f <;> decide

end TimeField

/-- All digits of a number in range are read. -/
theorem extract_num_padded (f : TimeField) (rest : Bytes) (hlo : f.lo ≤ n) (hhi : n ≤ f.hi) :
    extract_num f (padded f.len (decimal n) ++ rest) = some (n, rest) := by
  have hlen := length_padded f.len_pos (hhi.trans_lt f.hi_lt)
  have hdigits : ((padded f.len (decimal n) ++ rest).take f.len).takeWhile isdigit =
      padded f.len (decimal n) := by
    rw [List.take_left' hlen]
    exact List.takeWhile_eq_self_iff.mpr fun c hc => isdigit_padded hc
  have hne : padded f.len (decimal n) ≠ [] := by
    rw [← List.length_pos_iff, hlen]
    exact f.len_pos
  rw [extract_num, hdigits, if_pos ⟨hne, by rwa [ofDigits_padded], by rwa [ofDigits_padded]⟩,
    ofDigits_padded, List.drop_left]

/-- The numbers that stand in a timestamp are in range. -/
def InRange (t : Tm) : Prop := ∀ f : TimeField, (f.lo : Int) ≤ f.get t ∧ f.get t ≤ f.hi

/-- Every number with all its digits. -/
def printed (t : Tm) : Conversion → Bytes
  | .field f => padded f.len (decimal (f.get t).toNat)
  | .literal c => [c]

def copied (t : Tm) (u : Tm) : Conversion → Tm
  | .field f => f.set u (f.get t)
  | .literal _ => u

theorem extract_printed (h : InRange t) (format : List Conversion) (rest : Bytes) (u : Tm) :
    extract format (format.flatMap (printed t) ++ rest) u = format.foldl (copied t) u := by
  induction format generalizing u with
  | nil => rfl
  | cons conversion format ih =>
    rw [List.flatMap_cons, List.append_assoc]
    cases conversion with
    | literal c =>
      simp only [printed, extract, List.cons_append, List.head?_cons, if_true, List.nil_append,
        List.tail_cons]
      exact ih u
    | field f =>
      obtain ⟨hlo, hhi⟩ := h f
      have hnat : ((f.get t).toNat : Int) = f.get t := by omega
      rw [printed, extract, extract_num_padded f _ (by omega) (by omega)]
      simp only [hnat]
      exact ih _

/-- A timestamp with all its digits: `YYYY-MM-DDTHH:MM:SS`. -/
structure Stamp where
  fields : Tm
  inRange : InRange fields
  isdst : fields.tm_isdst = 0

def Stamp.text (stamp : Stamp) : Bytes := FORMAT.flatMap (printed stamp.fields)

/-- No blank stands before the year. -/
theorem Stamp.dropWhile_text (stamp : Stamp) (rest : Bytes) :
    (stamp.text ++ rest).dropWhile isspace = stamp.text ++ rest := by
  obtain ⟨c, b, hyear⟩ : ∃ c b, printed stamp.fields (.field .year) = c :: b := by
    refine List.exists_cons_of_ne_nil (List.length_pos_iff.mp ?_)
    rw [printed, padded, List.length_append, List.length_replicate]
    simp only [TimeField.len]
    omega
  have hdigit : isdigit c = true := by
    have hmem : c ∈ printed stamp.fields (.field .year) := hyear ▸ List.mem_cons_self ..
    exact isdigit_padded hmem
  have htext : stamp.text = c :: (b ++ FORMAT.tail.flatMap (printed stamp.fields)) := by
    rw [Stamp.text, FORMAT, List.flatMap_cons, hyear]
    rfl
  rw [htext, List.cons_append, List.dropWhile_cons_of_neg]
  simp [isspace_of_isdigit hdigit]

/-- Its fields are read, whatever stands behind them. -/
theorem get_time_text (stamp : Stamp) (rest : Bytes) :
    get_time FORMAT (stamp.text ++ rest) {} = stamp.fields := by
  have hisdst := stamp.isdst
  rw [get_time, stamp.dropWhile_text, Stamp.text, extract_printed stamp.inRange]
  generalize stamp.fields = t at hisdst ⊢
  cases t
  subst hisdst
  simp [FORMAT, copied, TimeField.set, TimeField.get]

@[simp] theorem timegm_isdst (t : Tm) (isdst : Int) :
    timegm { t with tm_isdst := isdst } = timegm t := rfl

/-- The fields of an instant denote it. -/
@[simp] theorem timegm_gmtime (time : Int) : timegm (gmtime time) = time := by
  obtain ⟨hm0, hm1, -, -⟩ := civilFromDays_bounds (time / 86400)
  have hdays := daysFromCivil_civilFromDays (time / 86400)
  simp only [timegm, gmtime]
  generalize hdate : civilFromDays (time / 86400) = date at *
  obtain ⟨year, month, day⟩ := date
  have hyear : year - 1900 + 1900 + (month - 1) / 12 = year := by
    simp only at hm0 hm1
    omega
  have hmonth : (month - 1) % 12 + 1 = month := by
    simp only at hm0 hm1
    omega
  simp only [hyear, hmonth, hdays]
  omega

/-- `mktime` with a negative `tm_isdst`. -/
theorem mktime_auto (zone : Zone) (t : Tm) :
    mktime zone { t with tm_isdst := -1 } = timegm t - zone.offsetLocal (timegm t) := by
  simp [mktime]

/-- The result, where `basetime` is the instant that the fields denote in standard time. -/
theorem finaltime_eq (zone : Zone) (stamp : Stamp) (rest : Bytes) :
    finaltime zone (stamp.text ++ rest) =
      let basetime := timegm stamp.fields - zone.std
      let local_time := basetime + zone.offset basetime
      basetime + (local_time - zone.offsetLocal local_time -
        (basetime - zone.offsetLocal basetime)) := by
  have hbase : mktime zone stamp.fields = timegm stamp.fields - zone.std := by
    rw [mktime, if_pos stamp.isdst]
  simp only [finaltime, get_time_text, hbase, mktime_auto, timegm_gmtime, localtime]

end RabbitClient.StringUtils
