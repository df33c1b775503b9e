import RabbitClient.StringUtils.Split
import Mathlib.Data.List.Perm.Basic

/-! The reply to `CLIENT LIST` and what `RedisClientStorage::list` makes of it. -/
namespace RabbitClient.RedisClientStorage

open Bytes StringUtils

/-- `client_st`. -/
structure ClientSt where
  id : UInt64 := 0
  addr : Bytes := []
  fd : Bytes := []
  name : Bytes := []
  age : UInt64 := 0
  idle : UInt64 := 0
  flags : Bytes := []
  db : Bytes := []
  sub : Int32 := 0
  psub : Int32 := 0
  multi : Int32 := 0
  qbuf : Int32 := 0
  qbuf_free : Int32 := 0
  argv_mem : Int32 := 0
  obl : Int32 := 0
  oll : Int32 := 0
  omem : Int32 := 0
  tot_mem : Int32 := 0
  events : Bytes := []
  cmd : Bytes := []
  user : Bytes := []
deriving DecidableEq

/-- The fields that `list` knows. -/
inductive Key where
  | id | addr | fd | name | age | idle | flags | db | sub | psub | multi | qbuf | qbuf_free
  | argv_mem | obl | oll | omem | tot_mem | events | cmd | user
deriving DecidableEq

namespace Key

def label : Key → Bytes
  | .id => ascii "id"
  | .addr => ascii "addr"
  | .fd => ascii "fd"
  | .name => ascii "name"
  | .age => ascii "age"
  | .idle => ascii "idle"
  | .flags => ascii "flags"
  | .db => ascii "db"
  | .sub => ascii "sub"
  | .psub => ascii "psub"
  | .multi => ascii "multi"
  | .qbuf => ascii "qbuf"
  | .qbuf_free => ascii "qbuf_free"
  | .argv_mem => ascii "argv_mem"
  | .obl => ascii "obl"
  | .oll => ascii "oll"
  | .omem => ascii "omem"
  | .tot_mem => ascii "tot_mem"
  | .events => ascii "events"
  | .cmd => ascii "cmd"
  | .user => ascii "user"

/-- The order in which `list` compares the names. -/
def all : List Key :=
  [.id, .addr, .fd, .name, .age, .idle, .flags, .db, .sub, .psub, .multi, .qbuf, .qbuf_free,
    .argv_mem, .obl, .oll, .omem, .tot_mem, .events, .cmd, .user]

/-- What `list` assigns when it meets the name. -/
def store (cl : ClientSt) (t : Bytes) : Key → ClientSt
  | .id => { cl with id := atoui64 t }
  | .addr => { cl with addr := t }
  | .fd => { cl with fd := t }
  | .name => { cl with name := t }
  | .age => { cl with age := atoui64 t }
  | .idle => { cl with idle := atoui64 t }
  | .flags => { cl with flags := t }
  | .db => { cl with db := t }
  | .sub => { cl with sub := Int32.ofInt (atol t) }
  | .psub => { cl with psub := Int32.ofInt (atol t) }
  | .multi => { cl with multi := Int32.ofInt (atol t) }
  | .qbuf => { cl with qbuf := Int32.ofInt (atol t) }
  | .qbuf_free => { cl with qbuf_free := Int32.ofInt (atol t) }
  | .argv_mem => { cl with argv_mem := Int32.ofInt (atol t) }
  | .obl => { cl with obl := Int32.ofInt (atol t) }
  | .oll => { cl with oll := Int32.ofInt (atol t) }
  | .omem => { cl with omem := Int32.ofInt (atol t) }
  | .tot_mem => { cl with tot_mem := Int32.ofInt (atol t) }
  | .events => { cl with events := t }
  | .cmd => { cl with cmd := t }
  | .user => { cl with user := t }

end Key

/-- The chain of comparisons for one field; `none` where `t.at(1)` throws. -/
def assign (cl : ClientSt) (fld : Bytes) : Option ClientSt :=
  let t := split fld 61
  match Key.all.find? fun k => k.label = t.headD [] with
  | some k => t[1]?.map (k.store cl)
  | none => some cl

/-- One line; `none` where an assertion fails. -/
def decode (line : Bytes) : Option ClientSt := do
  let cl ← (split line 32).foldlM assign {}
  if cl.id = 0 ∨ cl.addr.isEmpty then none else some cl

/-- `s.find(name) != std::string::npos`. -/
def contains (s name : Bytes) : Bool := s.tails.any fun t => name.isPrefixOf t

/-- The loop body of `list` for one line. -/
def collect (name : Bytes) (results : List ClientSt) (line : Bytes) : Option (List ClientSt) :=
  if line.isEmpty then some results
  else (decode line).map fun cl => if contains cl.name name then results ++ [cl] else results

/-- `RedisClientStorage::list` for the reply `val` of the server. -/
def list (val : Option Bytes) (name : Bytes) : Option (List ClientSt) :=
  match val with
  | none => some []
  | some val => (split val 10).foldlM (collect name) []

/-- The value of a field, by the type it has. -/
inductive Value where
  | text (b : Bytes)
  | number (n : UInt64)
  | int (n : Int32)
deriving DecidableEq

def Value.print : Value → Bytes
  | .text b => b
  | .number n => decimal n.toNat
  | .int n => decimal n.toInt.toNat

def Key.value (cl : ClientSt) : Key → Value
  | .id => .number cl.id
  | .addr => .text cl.addr
  | .fd => .text cl.fd
  | .name => .text cl.name
  | .age => .number cl.age
  | .idle => .number cl.idle
  | .flags => .text cl.flags
  | .db => .text cl.db
  | .sub => .int cl.sub
  | .psub => .int cl.psub
  | .multi => .int cl.multi
  | .qbuf => .int cl.qbuf
  | .qbuf_free => .int cl.qbuf_free
  | .argv_mem => .int cl.argv_mem
  | .obl => .int cl.obl
  | .oll => .int cl.oll
  | .omem => .int cl.omem
  | .tot_mem => .int cl.tot_mem
  | .events => .text cl.events
  | .cmd => .text cl.cmd
  | .user => .text cl.user

/-- Neither a space nor a newline nor a NUL. -/
def Clean (b : Bytes) : Prop := 32 ∉ b ∧ 10 ∉ b ∧ 0 ∉ b

instance (b : Bytes) : Decidable (Clean b) := instDecidableAnd

/-- Values that can be printed as a field. -/
def Value.Printable : Value → Prop
  | .text b => Clean b
  | .number _ => True
  | .int n => 0 ≤ n.toInt

instance : (v : Value) → Decidable v.Printable
  | .text b => inferInstanceAs (Decidable (Clean b))
  | .number _ => inferInstanceAs (Decidable True)
  | .int n => inferInstanceAs (Decidable (0 ≤ n.toInt))

/-- A field of a line. -/
inductive Field where
  | known (k : Key)
  | unknown (b : Bytes)
deriving DecidableEq

def Field.key : Field → Option Key
  | .known k => some k
  | .unknown _ => none

def Field.print (cl : ClientSt) : Field → Bytes
  | .known k => k.label ++ 61 :: (k.value cl).print
  | .unknown b => b

/-- A client as the server reports it: every field once, in any order, mixed with fields whose name
is none of the known ones. -/
structure Reported where
  record : ClientSt
  fields : List Field
  id_ne_zero : record.id ≠ 0
  addr_ne_nil : record.addr ≠ []
  printable : ∀ k ∈ Key.all, (k.value record).Printable
  complete : (fields.filterMap Field.key).Perm Key.all
  unknown : ∀ b, .unknown b ∈ fields →
    Clean b ∧ ∀ k ∈ Key.all, b.takeWhile (· ≠ 61) ≠ k.label

def Reported.line (c : Reported) : Bytes :=
  [32].intercalate (c.fields.map (Field.print c.record))

/-- One line for each client; the last newline may be missing. -/
def reply (closed : Bool) (clients : List Reported) : Bytes :=
  [10].intercalate (clients.map Reported.line) ++ if closed then [10] else []

end RabbitClient.RedisClientStorage
