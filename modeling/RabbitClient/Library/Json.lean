import RabbitClient.Library.Bytes

/-! JSON values and a reader for JSON texts. -/

/-- A number is `mantissa * 10 ^ exponent`; members keep their order and may repeat. -/
inductive Json where
  | null
  | bool (b : Bool)
  | number (mantissa exponent : Int)
  | string (s : Bytes)
  | array (elements : List Json)
  | object (members : List (Bytes × Json))

namespace JsonReader
open Bytes

def quote : UInt8 := 0x22
def backslash : UInt8 := 0x5C
def comma : UInt8 := 0x2C
def colon : UInt8 := 0x3A
def openArray : UInt8 := 0x5B
def closeArray : UInt8 := 0x5D
def openObject : UInt8 := 0x7B
def closeObject : UInt8 := 0x7D

def isSpace (c : UInt8) : Bool := c = 0x20 || c = 0x09 || c = 0x0A || c = 0x0D

def skip (b : Bytes) : Bytes := b.dropWhile isSpace

def isDigit (c : UInt8) : Bool := 48 ≤ c && c ≤ 57

/-- At least one digit, and what follows the digits. -/
def digits (b : Bytes) : Option (Bytes × Bytes) :=
  if b.takeWhile isDigit = [] then none else some (b.takeWhile isDigit, b.dropWhile isDigit)

def fraction (b : Bytes) : Option (Bytes × Bytes) :=
  if b.head? = some (ofChar '.') then digits b.tail else some ([], b)

def exponent (b : Bytes) : Option (Int × Bytes) :=
  if b.head? = some (ofChar 'e') ∨ b.head? = some (ofChar 'E') then
    if b.tail.head? = some (ofChar '-') then
      (digits b.tail.tail).map fun (d, r) => (-(ofDigits d : Int), r)
    else
      (digits (if b.tail.head? = some (ofChar '+') then b.tail.tail else b.tail)).map
        fun (d, r) => ((ofDigits d : Int), r)
  else some (0, b)

def unsigned (negative : Bool) (b : Bytes) : Option (Json × Bytes) := do
  let (int, b) ← digits b
  -- no leading zeros
  if int.head? = some (ofChar '0') ∧ 1 < int.length then none
  else
    let (frac, b) ← fraction b
    let (exp, b) ← exponent b
    let m : Int := ofDigits (int ++ frac)
    some (.number (if negative then -m else m) (exp - frac.length), b)

def number (b : Bytes) : Option (Json × Bytes) :=
  if b.head? = some (ofChar '-') then unsigned true b.tail else unsigned false b

def unescape (c : UInt8) : Option UInt8 :=
  if c = quote ∨ c = backslash ∨ c = ofChar '/' then some c
  else if c = ofChar 'b' then some 0x08
  else if c = ofChar 'f' then some 0x0C
  else if c = ofChar 'n' then some 0x0A
  else if c = ofChar 'r' then some 0x0D
  else if c = ofChar 't' then some 0x09
  else none

def hexDigit (c : UInt8) : Option Nat :=
  if isDigit c then some (c.toNat - 48)
  else if ofChar 'a' ≤ c ∧ c ≤ ofChar 'f' then some (c.toNat - 87)
  else if ofChar 'A' ≤ c ∧ c ≤ ofChar 'F' then some (c.toNat - 55)
  else none

def utf8 (code : Nat) : Bytes := String.utf8EncodeChar (Char.ofNat code)

/-- Inside a string: after a backslash, in a `\u` escape with the digits still to come and the
high surrogate before it, or between the two halves of a surrogate pair. -/
inductive Mode where
  | plain
  | escape
  | hex (left code : Nat) (high : Option Nat)
  | low (high : Nat)
  | lowU (high : Nat)

/-- The rest of a string and what follows its closing quote. -/
def text : Mode → Bytes → Option (Bytes × Bytes)
  | _, [] => none
  | .plain, c :: b =>
    if c = quote then some ([], b)
    else if c = backslash then text .escape b
    else if c < 0x20 then none
    else (text .plain b).map fun (s, r) => (c :: s, r)
  | .escape, c :: b =>
    if c = ofChar 'u' then text (.hex 4 0 none) b
    else
      match unescape c with
      | some d => (text .plain b).map fun (s, r) => (d :: s, r)
      | none => none
  | .hex left code high, c :: b =>
    match hexDigit c with
    | none => none
    | some d =>
      let code := 16 * code + d
      if 1 < left then text (.hex (left - 1) code high) b
      else
        match high with
        | none =>
          if 0xD800 ≤ code ∧ code < 0xDC00 then text (.low code) b
          else if 0xDC00 ≤ code ∧ code < 0xE000 then none
          else (text .plain b).map fun (s, r) => (utf8 code ++ s, r)
        | some h =>
          if 0xDC00 ≤ code ∧ code < 0xE000 then
            (text .plain b).map fun (s, r) =>
              (utf8 (0x10000 + 0x400 * (h - 0xD800) + (code - 0xDC00)) ++ s, r)
          else none
  | .low h, c :: b => if c = backslash then text (.lowU h) b else none
  | .lowU h, c :: b => if c = ofChar 'u' then text (.hex 4 0 (some h)) b else none

def literal (l b : Bytes) : Option Bytes :=
  if b.take l.length = l then some (b.drop l.length) else none

def scalar (b : Bytes) : Option (Json × Bytes) :=
  if b.head? = some quote then (text .plain b.tail).map fun (s, r) => (.string s, r)
  else
    match literal (ascii "null") b with
    | some r => some (.null, r)
    | none =>
      match literal (ascii "true") b with
      | some r => some (.bool true, r)
      | none =>
        match literal (ascii "false") b with
        | some r => some (.bool false, r)
        | none => number b

mutual

/-- A value at the start of the text; the number bounds the nesting and the elements read. -/
def value : Nat → Bytes → Option (Json × Bytes)
  | 0, _ => none
  | n + 1, b =>
    if b.head? = some openArray then
      if (skip b.tail).head? = some closeArray then some (.array [], (skip b.tail).tail)
      else (elements n (skip b.tail)).map fun (l, r) => (.array l, r)
    else if b.head? = some openObject then
      if (skip b.tail).head? = some closeObject then some (.object [], (skip b.tail).tail)
      else (members n (skip b.tail)).map fun (l, r) => (.object l, r)
    else scalar b

def elements : Nat → Bytes → Option (List Json × Bytes)
  | 0, _ => none
  | n + 1, b => do
    let (j, b) ← value n b
    let b := skip b
    if b.head? = some comma then
      let (l, b) ← elements n (skip b.tail)
      some (j :: l, b)
    else if b.head? = some closeArray then some ([j], b.tail)
    else none

def members : Nat → Bytes → Option (List (Bytes × Json) × Bytes)
  | 0, _ => none
  | n + 1, b => do
    if b.head? ≠ some quote then none
    else
      let (key, b) ← text .plain b.tail
      let b := skip b
      if b.head? ≠ some colon then none
      else
        let (j, b) ← value n (skip b.tail)
        let b := skip b
        if b.head? = some comma then
          let (l, b) ← members n (skip b.tail)
          some ((key, j) :: l, b)
        else if b.head? = some closeObject then some ([(key, j)], b.tail)
        else none

end

/-- One value with nothing but white space around it. -/
def parse (b : Bytes) : Option Json :=
  match value b.length (skip b) with
  | some (j, r) => if skip r = [] then some j else none
  | none => none

end JsonReader
