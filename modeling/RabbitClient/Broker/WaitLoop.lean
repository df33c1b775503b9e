import RabbitClient.Broker.Recognition
import Mathlib.Data.List.ReduceOption

/-! The loop in which a client waits for its reply, over whatever its consumer reads. -/
namespace RabbitClient.WaitLoop

open Bytes Blocks AmqpPool

/-- What the loop looks at in a delivered message. -/
structure Message where
  delivery_tag : UInt64
  properties : BasicProperties
deriving DecidableEq

inductive Outcome where
  | waiting
  | returned (m : Message)
  | crashed
deriving DecidableEq

/-- Where the loop stands: what it has acknowledged, and what it has not read yet. -/
structure Progress where
  acked : List UInt64
  unread : List (Option Message)
  outcome : Outcome
deriving DecidableEq

/-- The loop of `wait_for_message` over the values that `MessageBrokerConsumer::read` returns.
`ack_message` dereferences them before anything is compared. -/
def run (app_id correlation_id : Bytes) : List (Option Message) → Progress
  | [] => ⟨[], [], .waiting⟩
  | none :: reads => ⟨[], reads, .crashed⟩
  | some m :: reads =>
    match wait_for_message app_id correlation_id m.properties with
    | none => ⟨[m.delivery_tag], reads, .crashed⟩
    | some true => ⟨[m.delivery_tag], reads, .returned m⟩
    | some false =>
      let later := run app_id correlation_id reads
      { later with acked := m.delivery_tag :: later.acked }

/-- What the loop promises: no null pointer is used, what was read is acknowledged, and a message
that is returned has both of its identifiers. -/
structure Survives (reads : List (Option Message)) (r : Progress) : Prop where
  safe : r.outcome ≠ .crashed
  acked : ∃ before, reads = before ++ r.unread ∧
    r.acked = before.reduceOption.map Message.delivery_tag
  complete : ∀ m, r.outcome = .returned m →
    text m.properties.app_id ≠ [] ∧ text m.properties.correlation_id ≠ []

/-- What `strcmp` sees of the application id, and of the correlation id. -/
def seen_app_id (p : BasicProperties) : Bytes := cstr ((p.strings.drop 8).flatMap (pad 8))

def seen_correlation_id (p : BasicProperties) : Bytes := cstr ((p.strings.drop 2).flatMap (pad 8))

variable {app_id correlation_id : Bytes} {reads : List (Option Message)} {m : Message}
  {p : BasicProperties}

theorem sameString_of_nil (pool : Pool) (s : Bytes) (n : Nat) :
    sameString pool s (refer n []) = none := rfl

theorem sameString_app_id (h : text p.app_id ≠ []) :
    sameString (filled (p.strings.flatMap (pad 8))) app_id (refer (p.start 8) (text p.app_id)) =
      some (decide (cstr app_id = seen_app_id p)) :=
  sameString_layout (p.strings.take 8) (p.strings.drop 9) app_id h (length_strings_lt p)

theorem sameString_correlation_id (h : text p.correlation_id ≠ []) :
    sameString (filled (p.strings.flatMap (pad 8))) correlation_id
        (refer (p.start 2) (text p.correlation_id)) =
      some (decide (cstr correlation_id = seen_correlation_id p)) :=
  sameString_layout (p.strings.take 2) (p.strings.drop 3) correlation_id h (length_strings_lt p)

/-- A message that the comparison takes for the awaited one. -/
def Matches (app_id correlation_id : Bytes) (p : BasicProperties) : Prop :=
  cstr app_id = seen_app_id p ∧ cstr correlation_id = seen_correlation_id p

instance : Decidable (Matches app_id correlation_id p) := instDecidableAnd

/-- The strings that the comparison comes to are there. -/
def Comparable (app_id : Bytes) (p : BasicProperties) : Prop :=
  text p.app_id ≠ [] ∧ (cstr app_id = seen_app_id p → text p.correlation_id ≠ [])

theorem wait_for_message_of_comparable (correlation_id : Bytes) (h : Comparable app_id p) :
    wait_for_message app_id correlation_id p =
      some (decide (Matches app_id correlation_id p)) := by
  obtain ⟨happ, hcorr⟩ := h
  simp only [wait_for_message, amqp_read_message_eq, Option.bind_some, found,
    sameString_app_id happ]
  by_cases ha : cstr app_id = seen_app_id p
  · simp [Matches, ha, sameString_correlation_id (hcorr ha)]
  · simp [Matches, ha]

theorem wait_for_message_of_not_comparable (correlation_id : Bytes)
    (h : ¬ Comparable app_id p) :
    wait_for_message app_id correlation_id p = none := by
  simp only [wait_for_message, amqp_read_message_eq, Option.bind_some, found]
  by_cases happ : text p.app_id = []
  · rw [happ, sameString_of_nil]
  · have hboth : cstr app_id = seen_app_id p ∧ text p.correlation_id = [] := by
      simpa [Comparable, happ] using h
    obtain ⟨ha, hcorr⟩ := hboth
    rw [sameString_app_id happ, hcorr, sameString_of_nil]
    simp [ha]

/-- Every read up to the first match gives a message that can be compared. -/
def Harmless (app_id correlation_id : Bytes) (reads : List (Option Message)) : Prop :=
  ∀ before o after, reads = before ++ o :: after →
    (∀ m, some m ∈ before → ¬ Matches app_id correlation_id m.properties) →
    ∃ m, o = some m ∧ Comparable app_id m.properties

theorem harmless_nil : Harmless app_id correlation_id [] := by
  intro before o after h
  simp at h

theorem harmless_cons {o : Option Message} : Harmless app_id correlation_id (o :: reads) ↔
    ∃ m, o = some m ∧ Comparable app_id m.properties ∧
      (¬ Matches app_id correlation_id m.properties → Harmless app_id correlation_id reads) := by
  constructor
  · intro h
    obtain ⟨m, rfl, hm⟩ := h [] o reads rfl (by simp)
    refine ⟨m, rfl, hm, ?_⟩
    intro hne before o after hreads hbefore
    apply h (some m :: before) o after (by rw [hreads, List.cons_append])
    intro m' hm'
    rcases List.mem_cons.mp hm' with he | hm'
    · rw [Option.some.inj he]
      exact hne
    · exact hbefore m' hm'
  · rintro ⟨m, rfl, hm, hlater⟩ before o after hreads hbefore
    cases before with
    | nil =>
      have ho : some m = o := (List.cons.inj hreads).1
      exact ⟨m, ho.symm, hm⟩
    | cons x before =>
      obtain ⟨rfl, hrest⟩ := List.cons.inj hreads
      have hne : ¬ Matches app_id correlation_id m.properties := hbefore m (by simp)
      exact hlater hne before o after hrest fun m' hm' =>
        hbefore m' (List.mem_cons_of_mem _ hm')

/-- An acknowledged message that does not match leaves the promise to the rest of the loop. -/
theorem survives_skip {later : Progress} :
    Survives (some m :: reads) { later with acked := m.delivery_tag :: later.acked } ↔
      Survives reads later := by
  constructor
  · rintro ⟨hsafe, ⟨before, hreads, hacked⟩, hcomplete⟩
    refine ⟨hsafe, ?_, hcomplete⟩
    cases before with
    | nil => simp [List.reduceOption] at hacked
    | cons x before =>
      obtain ⟨rfl, hrest⟩ := List.cons.inj hreads
      rw [List.reduceOption_cons_of_some, List.map_cons] at hacked
      exact ⟨before, hrest, (List.cons.inj hacked).2⟩
  · rintro ⟨hsafe, ⟨before, rfl, hacked⟩, hcomplete⟩
    refine ⟨hsafe, ⟨some m :: before, rfl, ?_⟩, hcomplete⟩
    rw [List.reduceOption_cons_of_some, List.map_cons, hacked]

theorem survives_returned (reads : List (Option Message)) (h : Comparable app_id m.properties)
    (hm : Matches app_id correlation_id m.properties) :
    Survives (some m :: reads) ⟨[m.delivery_tag], reads, .returned m⟩ where
  safe := by simp
  acked := ⟨[some m], rfl, rfl⟩
  complete := by
    intro m' he
    obtain rfl : m = m' := by simpa using he
    exact ⟨h.1, h.2 hm.1⟩

/-- The loop survives exactly if, until it finds its message, nothing but messages is read and each
of them has an application id, and a correlation id if that application id matches. -/
theorem run_survives_iff (app_id correlation_id : Bytes) (reads : List (Option Message)) :
    Survives reads (run app_id correlation_id reads) ↔ Harmless app_id correlation_id reads := by
  induction reads with
  | nil =>
    have hsurvives : Survives [] (run app_id correlation_id []) :=
      ⟨by simp [run], ⟨[], rfl, rfl⟩, by simp [run]⟩
    exact iff_of_true hsurvives harmless_nil
  | cons o reads ih =>
    rw [harmless_cons]
    cases o with
    | none =>
      have hcrash : ¬ Survives (none :: reads) (run app_id correlation_id (none :: reads)) :=
        fun h => h.safe rfl
      simp [hcrash]
    | some m =>
      by_cases hc : Comparable app_id m.properties
      · have hw := wait_for_message_of_comparable correlation_id hc
        by_cases hm : Matches app_id correlation_id m.properties
        · have hret := survives_returned reads hc hm
          simp [run, hw, hm, hc, hret]
        · simp only [run, hw, hm, decide_false, survives_skip, ih]
          simp [hc, hm]
      · have hw := wait_for_message_of_not_comparable correlation_id hc
        have hcrash : ¬ Survives (some m :: reads) (run app_id correlation_id (some m :: reads)) :=
          fun h => h.safe (by rw [run, hw])
        simp [hcrash, hc]

/-- When the library reports an exception the loop goes on with the null pointer it gets. -/
theorem run_crashes_on_exception :
    ¬ Survives [none] (run (ascii "rpc-client.1") (ascii "1") [none]) :=
  fun h => h.safe rfl

end RabbitClient.WaitLoop
