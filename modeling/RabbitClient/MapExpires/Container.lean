import RabbitClient.Library.OrderedMap

/-! `MapExpires`: buckets of marked entries, swept and handed over by `reduce`. -/
namespace RabbitClient.MapExpires

/-- `MarkValue<T>`. It has no move assignment, so assigning from a temporary copies both
fields; its move constructor copies the mark and leaves the source's mark alone. -/
structure MarkValue (T : Type) where
  value : T
  mark : Bool := false
deriving DecidableEq, Repr

/-- `MAP_TYPE`. -/
abbrev Map (K V : Type) [LT K] := OrderedMap K (MarkValue V)

variable {K V : Type} [LinearOrder K]

/-- One element of `container_`. The insertion number only identifies the bucket in
statements about runs; no operation looks at it. -/
structure Bucket (K V : Type) [LT K] where
  id : Nat
  time : Int
  entryList : MarkValue (Map K V)

def Bucket.entries (b : Bucket K V) : List (K × MarkValue V) := b.entryList.value.toList

def Bucket.isEmpty (b : Bucket K V) : Bool := b.entryList.value.isEmpty

/-- The lambda `shrink_to_fit`: keep the unmarked entries, and the fresh bucket mark with them. -/
def shrink_to_fit (entryList : MarkValue (Map K V)) : MarkValue (Map K V) :=
  if entryList.value.isEmpty then entryList
  else
    let newEntryList : MarkValue (Map K V) := {
      value := entryList.value.toList.foldl
        (fun m x => if !x.2.mark then m.emplace x.1 x.2 else m) ∅ }
    newEntryList

/-- The loop over the entries of a bucket that has not expired: `allMessageMarked` and the
bucket mark, which the first marked entry sets even when a later one is unmarked. -/
def scanMarks : List (K × MarkValue V) → Bool → Bool × Bool
  | [], mark => (true, mark)
  | x :: l, mark => if !x.2.mark then (false, mark) else scanMarks l true

/-- One iteration of the sweep: the bucket left in the container and what is collected. -/
def sweep (timePurge : Int) (b : Bucket K V) : Bucket K V × Option (Bucket K V) :=
  let entryList := if b.entryList.mark then shrink_to_fit b.entryList else b.entryList
  if entryList.value.isEmpty then ({ b with entryList := entryList }, none)
  else if b.time < timePurge then
    let entryList := shrink_to_fit entryList
    -- the move leaves an empty map with the same mark behind
    ({ b with entryList := { entryList with value := ∅ } }, some { b with entryList := entryList })
  else
    let (allMessageMarked, mark) := scanMarks entryList.value.toList entryList.mark
    if allMessageMarked && !entryList.value.isEmpty then
      ({ b with entryList := ⟨∅, mark⟩ }, none)
    else ({ b with entryList := { entryList with mark := mark } }, none)

/-- Erase the empty buckets before the first non-empty one. -/
def erasePrefix (container : List (Bucket K V)) : List (Bucket K V) :=
  container.dropWhile Bucket.isEmpty

/-- The container left behind and the collected buckets. -/
def reduce (container : List (Bucket K V)) (timePurge : Int) :
    List (Bucket K V) × List (Bucket K V) :=
  let swept := container.map (sweep timePurge)
  (erasePrefix (swept.map Prod.fst), swept.filterMap Prod.snd)

def emplace_back (container : List (Bucket K V)) (id : Nat) (now : Int) (value : Map K V) :
    List (Bucket K V) :=
  container ++ [{ id := id, time := now, entryList := { value := value } }]

/-- `container[n].second.mark()` -/
def markBucket (container : List (Bucket K V)) (n : Nat) : List (Bucket K V) :=
  container.modify n fun b => { b with entryList := { b.entryList with mark := true } }

/-- `container[n].second->find(k)->second.mark()` -/
def markEntry (container : List (Bucket K V)) (n : Nat) (k : K) : List (Bucket K V) :=
  container.modify n fun b => { b with
    entryList := { b.entryList with
      value := b.entryList.value.modify k fun v => { v with mark := true } } }

end RabbitClient.MapExpires
