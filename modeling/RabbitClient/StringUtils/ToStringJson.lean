import RabbitClient.Library.Bytes
import RabbitClient.Library.OrderedMap

/-! The JSON printers of `StringUtils` over the values a `std::any` can hold. -/
namespace RabbitClient.StringUtils

open Bytes

inductive Exception where
  | invalid_argument (what : Bytes)
  | out_of_range
deriving DecidableEq

/-- What a stream in fixed format prints for the numbers of a floating point type. With a
point, or for a number of at least 1, the text is not zeros only. -/
structure FixedFormat (Double : Type) where
  abs_ge_one : Double → Bool
  /-- The integer part of `log10` of the absolute value. -/
  log10_abs : Double → Int
  fixed : Int → Double → Bytes
  fixed_point : ∀ p x, 0 < p → ∃ c ∈ fixed p x, c ≠ ofChar '0'
  fixed_ge_one : ∀ p x, abs_ge_one x = true → ∃ c ∈ fixed p x, c ≠ ofChar '0'

variable {Double : Type}

/-- `to_string(num, 0)`: as many digits as the type has, less the trailing zeros. -/
def to_string (fmt : FixedFormat Double) (num : Double) : Except Exception Bytes :=
  let ndigits := if fmt.abs_ge_one num then fmt.log10_abs num else 1
  let text := fmt.fixed (15 - ndigits - 1) num
  -- while (at(length) == '0') --length; from the last character down
  match text.reverse.dropWhile (· = ofChar '0') with
  | [] => .error .out_of_range
  | c :: l =>
    if c = ofChar '.' then .ok (text.take (l.length + 2)) else .ok (text.take (l.length + 1))

/-- A `std::any`; `other` holds a value of a type without a printer, or nothing. -/
inductive Any (Double : Type) where
  | nullptr
  | int (x : Int32)
  | unsigned (x : UInt32)
  | uint64 (x : UInt64)
  | double (x : Double)
  | char_ptr (s : CString)
  | string (s : Bytes)
  | vector (vc : List (Any Double))
  | pairs (vc : List (Bytes × Any Double))
  | other (typeName : Bytes)

/-- How a stream prints a signed number. -/
def signed (x : Int) : Bytes := if x < 0 then ascii "-" ++ decimal x.natAbs else decimal x.natAbs

/-- Whole numbers as such a stream prints them; a negative precision counts as six. -/
def wholeNumbers : FixedFormat Int where
  abs_ge_one x := x ≠ 0
  log10_abs x := (decimal x.natAbs).length - 1
  fixed p x :=
    if p = 0 then signed x
    else signed x ++ ascii "." ++ List.replicate (if p < 0 then 6 else p.toNat) (ofChar '0')
  fixed_point p x hp := by
    refine ⟨ofChar '.', ?_, by decide⟩
    rw [if_neg (by omega)]
    simp [ascii]
  fixed_ge_one p x hx := by
    have hpos : x.natAbs ≠ 0 := by simpa using hx
    obtain ⟨c, hc, h0⟩ := exists_ne_zero_decimal hpos
    have hs : c ∈ signed x := by
      unfold signed
      split
      · exact List.mem_append_right _ hc
      · exact hc
    refine ⟨c, ?_, h0⟩
    split
    · exact hs
    · exact List.mem_append_left _ (List.mem_append_left _ hs)

example : to_string wholeNumbers 1500 = .ok (ascii "1500.0") := by decide

def escape (c : UInt8) : Bytes :=
  if c = ofChar '\x22' ∨ c = ofChar '\\' then [ofChar '\\', c] else [c]

/-- `std::quoted`: only the quote and the backslash are escaped. -/
def quoted (s : Bytes) : Bytes := ascii "\x22" ++ s.flatMap escape ++ ascii "\x22"

/-- Printed where the counter of a loop, `idx++`, is no longer zero. -/
def separator (first : Bool) : Bytes := if first then [] else ascii ", "

mutual

/-- The printer `any_visitor` has for a type; `missing` is thrown where it has none. -/
def any_visitor (fmt : FixedFormat Double) (missing : Bytes → Exception) :
    Any Double → Except Exception Bytes
  | .nullptr => .ok (ascii "null")
  | .int x => .ok (signed x.toInt)
  | .unsigned x => .ok (decimal x.toNat)
  | .uint64 x => .ok (decimal x.toNat)
  | .double x => to_string fmt x
  | .char_ptr s => .ok (quoted s.val)
  | .string s => .ok (quoted s)
  | .vector vc => do return ascii "[" ++ (← elements fmt true vc) ++ ascii "]"
  | .pairs vc => do return ascii "\x7b" ++ (← members fmt true vc) ++ ascii "\x7d"
  | .other typeName => .error (missing typeName)

/-- The loop of `to_string_json(std::vector<std::any>)`. -/
def elements (fmt : FixedFormat Double) : Bool → List (Any Double) → Except Exception Bytes
  | _, [] => .ok []
  | first, item :: vc => do
    let text ← any_visitor fmt (fun name => .invalid_argument
      (ascii "<to_string_json> Tipo nao localizado para \x22" ++ name ++ ascii "\x22")) item
    let rest ← elements fmt false vc
    return separator first ++ text ++ rest

/-- One turn of the loop below. -/
def member (fmt : FixedFormat Double) (first : Bool) :
    Bytes × Any Double → Except Exception Bytes
  | (key, item) => do
    let text ← any_visitor fmt (fun name => .invalid_argument
      (ascii "Tipo nao localizado para \x22" ++ key ++ ascii "\x22: " ++ name)) item
    return separator first ++ (ascii "\x22" ++ key ++ ascii "\x22: ") ++ text

/-- The loop of `to_string_json(std::ostream&, ...)`; keys are printed as they are. -/
def members (fmt : FixedFormat Double) :
    Bool → List (Bytes × Any Double) → Except Exception Bytes
  | _, [] => .ok []
  | first, it :: extras => do
    let text ← member fmt first it
    let rest ← members fmt false extras
    return text ++ rest

end

/-- `to_string_json` of a list of pairs. -/
def to_string_json (fmt : FixedFormat Double) (extras : List (Bytes × Any Double)) :
    Except Exception Bytes := do
  return ascii "\x7b" ++ (← members fmt true extras) ++ ascii "\x7d"

/-- The loop of `to_string_json(std::map<std::string, std::string>)`. -/
def entries : Bool → List (Bytes × Bytes) → Bytes
  | _, [] => []
  | first, (key, item) :: mp =>
    separator first ++ (ascii "\x22" ++ key ++ ascii "\x22: ") ++ quoted item ++ entries false mp

def to_string_json_map (mp : OrderedMap Bytes Bytes) : Bytes :=
  ascii "\x7b" ++ entries true mp.toList ++ ascii "\x7d"

end RabbitClient.StringUtils
