import RabbitClient.Amqp.BaseTypes

/-! Points in time, as they are compared with the readings of a clock that does not go back. -/
namespace RabbitClient.Amqp

/-- `amqp_time_t`, in nanoseconds. -/
abbrev Time := UInt64

def AMQP_NS_PER_S : UInt64 := 1000000000
def AMQP_NS_PER_US : UInt64 := 1000

def amqp_time_infinite : Time := 18446744073709551615

/-- `struct timeval` -/
structure Timeval where
  tv_sec : Int
  tv_usec : Int
deriving DecidableEq

/-- A time that has wrapped around is not taken. -/
def Time.checked (now_ns delta_ns : UInt64) : Except Status Unit :=
  if now_ns + delta_ns < now_ns ∨ now_ns + delta_ns < delta_ns then
    .error .AMQP_STATUS_INVALID_PARAMETER
  else .ok ()

/-- The reading of the clock is zero where it fails. -/
def amqp_time_from_now (now_ns : UInt64) (timeout : Option Timeval) : Except Status Time :=
  match timeout with
  | none => .ok amqp_time_infinite
  | some timeout =>
    if timeout.tv_sec < 0 ∨ timeout.tv_usec < 0 then .error .AMQP_STATUS_INVALID_PARAMETER
    else
      let delta_ns := UInt64.ofNat timeout.tv_sec.toNat * AMQP_NS_PER_S +
        UInt64.ofNat timeout.tv_usec.toNat * AMQP_NS_PER_US
      if now_ns = 0 then .error .AMQP_STATUS_TIMER_FAILURE
      else (fun _ => now_ns + delta_ns) <$> Time.checked now_ns delta_ns

/-- What `time` points to afterwards, and how the call returns. -/
def amqp_time_s_from_now (now_ns : UInt64) (seconds : Int) (time : Time) :
    Time × Except Status Unit :=
  if seconds ≤ 0 then (amqp_time_infinite, .ok ())
  else if now_ns = 0 then (time, .error .AMQP_STATUS_TIMER_FAILURE)
  else
    let delta_ns := UInt64.ofNat seconds.toNat * AMQP_NS_PER_S
    (now_ns + delta_ns, Time.checked now_ns delta_ns)

def amqp_time_tv_until (now_ns : UInt64) (time : Time) : Except Status (Option Timeval) :=
  if time = amqp_time_infinite then .ok none
  else if time = 0 then .ok (some ⟨0, 0⟩)
  else if now_ns = 0 then .error .AMQP_STATUS_TIMER_FAILURE
  else if time ≤ now_ns then .ok (some ⟨0, 0⟩)
  else
    let delta_ns := time - now_ns
    let tv_sec := (BitVec.ofNat 32 (delta_ns / AMQP_NS_PER_S).toNat).toInt
    let tv_usec := (delta_ns % AMQP_NS_PER_S / AMQP_NS_PER_US).toNat
    .ok (some ⟨tv_sec, tv_usec⟩)

def amqp_time_has_past (now_ns : UInt64) (time : Time) : Except Status Bool :=
  if time = amqp_time_infinite then .ok false
  else if now_ns = 0 then .error .AMQP_STATUS_TIMER_FAILURE
  else .ok (time < now_ns)

def amqp_time_first (l r : Time) : Time := if l < r then l else r

end RabbitClient.Amqp
