import RabbitClient.MapExpires.Sweep

/-!
Runs of a `MapExpires` object. Besides the container a history records what was inserted,
which entries have been marked and what every `reduce` has returned.
-/
namespace RabbitClient.MapExpires

variable {K V : Type} [LinearOrder K]

inductive Op (K V : Type) [LT K] where
  | emplace_back (now : Int) (value : Map K V)
  | markBucket (n : Nat)
  | markEntry (n : Nat) (k : K)
  | reduce (timePurge : Int)

structure History (K V : Type) [LT K] where
  container : List (Bucket K V) := []
  /-- The results of the calls of `reduce`, oldest first. -/
  collected : List (List (Bucket K V)) := []
  /-- Clock reading and map of every insertion; the position is the bucket's number. -/
  inserted : List (Int × Map K V) := []
  /-- Bucket number and key of every entry that is or has been marked. -/
  marked : List (Nat × K) := []

/-- The entry a call of `markEntry` reaches. -/
def hit (container : List (Bucket K V)) (n : Nat) (k : K) : List (Nat × K) :=
  match container[n]? with
  | some b => if k ∈ b.entries.map Prod.fst then [(b.id, k)] else []
  | none => []

/-- The entries of a map that are already marked when it is inserted. -/
def premarked (id : Nat) (value : Map K V) : List (Nat × K) :=
  (value.toList.filter fun x => x.2.mark).map fun x => (id, x.1)

def step (h : History K V) : Op K V → History K V
  | .emplace_back now value => { h with
      container := emplace_back h.container h.inserted.length now value
      inserted := h.inserted ++ [(now, value)]
      marked := premarked h.inserted.length value ++ h.marked }
  | .markBucket n => { h with container := markBucket h.container n }
  | .markEntry n k => { h with
      container := markEntry h.container n k
      marked := hit h.container n k ++ h.marked }
  | .reduce timePurge => { h with
      container := (reduce h.container timePurge).1
      collected := h.collected ++ [(reduce h.container timePurge).2] }

def run (ops : List (Op K V)) : History K V := ops.foldl step {}

@[simp] theorem run_nil : run ([] : List (Op K V)) = {} := rfl

@[simp] theorem run_concat (ops : List (Op K V)) (op : Op K V) :
    run (ops ++ [op]) = step (run ops) op := by simp [run]

/-- Entries still in the container. -/
def History.held (h : History K V) : List (Cell K V) := cells h.container

/-- Entries in any result of `reduce`. -/
def History.delivered (h : History K V) : List (Cell K V) := cells h.collected.flatten

def Inserted (h : History K V) (id : Nat) (time : Int) (k : K) (v : V) : Prop :=
  ∃ m x, h.inserted[id]? = some (time, m) ∧ (k, x) ∈ m.toList ∧ x.value = v

/-- How often an entry occurs. -/
def places (cs : List (Cell K V)) (id : Nat) (k : K) : Nat :=
  cs.countP fun c => c.tag = (id, k)

/-- The first `reduce` after the insertion of a bucket whose purge time is later than it. -/
def FirstPurge (ops : List (Op K V)) (id : Nat) (time : Int)
    (pre : List (Op K V)) (timePurge : Int) (post : List (Op K V)) : Prop :=
  ops = pre ++ .reduce timePurge :: post ∧ id < (run pre).inserted.length ∧
    time < timePurge ∧
    ∀ pre' t' post', pre = pre' ++ .reduce t' :: post' →
      id < (run pre').inserted.length → ¬ time < t'

end RabbitClient.MapExpires
