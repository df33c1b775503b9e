import Mathlib.Logic.Basic
import Mathlib.Data.List.Basic

/-! Finite runs of a labelled transition relation: splitting, invariants, histories. -/
namespace Lts

variable {σ α : Type*} {step : σ → α → σ → Prop} {s t u : σ} {a : α} {as bs : List α}

/-- A finite run with one label for each step. -/
inductive Run (step : σ → α → σ → Prop) : σ → List α → σ → Prop where
  | refl {s : σ} : Run step s [] s
  | stepL {s t u : σ} {a : α} {as : List α} :
      step s a t → Run step t as u → Run step s (a :: as) u

theorem run_single (h : step s a t) : Run step s [a] t := .stepL h .refl

theorem run_append (h : Run step s as t) (h' : Run step t bs u) :
    Run step s (as ++ bs) u := by
  induction h with
  | refl => exact h'
  | stepL hs _ ih => exact .stepL hs (ih h')

theorem run_split (h : Run step s (as ++ bs) u) :
    ∃ t, Run step s as t ∧ Run step t bs u := by
  induction as generalizing s with
  | nil => exact ⟨s, .refl, h⟩
  | cons a as ih =>
    cases h with
    | stepL hs ht =>
      obtain ⟨t, h₁, h₂⟩ := ih ht
      exact ⟨t, .stepL hs h₁, h₂⟩

/-- A label occurring in a run is one of its steps. -/
theorem run_split_label (h : Run step s (as ++ a :: bs) u) :
    ∃ v w, Run step s as v ∧ step v a w ∧ Run step w bs u := by
  obtain ⟨v, h₁, h₂⟩ := run_split h
  cases h₂ with
  | stepL hs ht => exact ⟨v, _, h₁, hs, ht⟩

/-- A predicate kept by every step whose label is allowed is kept by a run of allowed labels. -/
theorem run_invariant_of_labels {I : σ → Prop} {G : α → Prop}
    (hstep : ∀ s a t, G a → step s a t → I s → I t)
    (h : Run step s as t) (hG : ∀ a ∈ as, G a) (hs : I s) : I t := by
  induction h with
  | refl => exact hs
  | stepL hst _ ih =>
    have ht := hstep _ _ _ (hG _ (List.mem_cons_self ..)) hst hs
    exact ih (fun b hb => hG b (List.mem_cons_of_mem _ hb)) ht

theorem run_invariant {I : σ → Prop} (hstep : ∀ s a t, step s a t → I s → I t)
    (h : Run step s as t) (hs : I s) : I t := by
  induction h with
  | refl => exact hs
  | stepL hst _ ih => exact ih (hstep _ _ _ hst hs)

/-- Induction from the left end with the labels consumed so far as part of the predicate. -/
theorem run_history {H : List α → σ → Prop}
    (hstep : ∀ as s a t, H as s → step s a t → H (as ++ [a]) t)
    (h : Run step s bs t) (hs : H as s) : H (as ++ bs) t := by
  induction h generalizing as with
  | refl => simpa using hs
  | stepL hst _ ih => simpa using ih (hstep _ _ _ _ hs hst)

/-- Where a condition that did not hold at the start comes from: the step that set it up,
and nothing after that step which would have ended it. -/
theorem run_since {I P : σ → Prop} {E Q : α → Prop} (h : Run step s as t)
    (hI : ∀ s a t, step s a t → I s → I t)
    (hP : ∀ s a t, step s a t → I s → P t → E a ∨ (P s ∧ Q a))
    (hs : I s) (h₀ : ¬ P s) (ht : P t) :
    ∃ p e q, as = p ++ e :: q ∧ E e ∧ ∀ a ∈ q, Q a := by
  let H : List α → σ → Prop := fun as s =>
    I s ∧ (P s → ∃ p e q, as = p ++ e :: q ∧ E e ∧ ∀ a ∈ q, Q a)
  have hstep : ∀ as s a t, H as s → step s a t → H (as ++ [a]) t := by
    rintro as s a t ⟨hi, hh⟩ hst
    refine ⟨hI _ _ _ hst hi, ?_⟩
    intro hp
    rcases hP _ _ _ hst hi hp with he | ⟨hp, hq⟩
    · exact ⟨as, a, [], rfl, he, by simp⟩
    · obtain ⟨p, e, q, rfl, he, hall⟩ := hh hp
      refine ⟨p, e, q ++ [a], by simp, he, ?_⟩
      intro b hb
      rcases List.mem_append.mp hb with hb | hb
      · exact hall b hb
      · rw [List.mem_singleton.mp hb]
        exact hq
  have hH : H ([] ++ as) t := run_history hstep h ⟨hs, fun hp => (h₀ hp).elim⟩
  exact hH.2 ht

/-- The same transitions, each label extended by the state the step starts from. -/
def Recorded (step : σ → α → σ → Prop) (s : σ) (p : σ × α) (t : σ) : Prop :=
  p.1 = s ∧ step s p.2 t

/-- Every state visited by a recorded run, its last state included. -/
def Throughout (P : σ → Prop) (ps : List (σ × α)) (t : σ) : Prop :=
  (∀ p ∈ ps, P p.1) ∧ P t

theorem recorded_start {ps : List (σ × α)} {P : σ → Prop} (h : Run (Recorded step) s ps t)
    (hp : Throughout P ps t) : P s := by
  cases h with
  | refl => exact hp.2
  | stepL hst _ => exact hst.1 ▸ hp.1 _ (List.mem_cons_self ..)

/-- An invariant of the allowed steps holds throughout a run of allowed steps. -/
theorem recorded_throughout {I : σ → Prop} {ok : σ → α → Prop}
    (hI : ∀ s a t, step s a t → I s → ok s a → I t) {ps : List (σ × α)}
    (h : Run (Recorded step) s ps t) (hok : ∀ p ∈ ps, ok p.1 p.2) (hs : I s) :
    Throughout I ps t := by
  induction h with
  | refl => exact ⟨fun p hp => (List.not_mem_nil hp).elim, hs⟩
  | @stepL s m u p ps hst hr ih =>
    obtain ⟨rfl, hst⟩ := hst
    have hm : I m := hI _ _ _ hst hs (hok p (List.mem_cons_self ..))
    have htail := ih (fun q hq => hok q (List.mem_cons_of_mem _ hq)) hm
    refine ⟨?_, htail.2⟩
    intro q hq
    rcases List.mem_cons.mp hq with rfl | hq
    · exact hs
    · exact htail.1 q hq

/-- When a step from a good state reaches a good state exactly if it is allowed, a run
from a good state stays good exactly if all of its steps are allowed. -/
theorem recorded_throughout_iff {I P : σ → Prop} {ok : σ → α → Prop}
    (hI : ∀ s a t, step s a t → I s → I t)
    (hP : ∀ s a t, step s a t → I s → P s → (P t ↔ ok s a))
    {ps : List (σ × α)} (h : Run (Recorded step) s ps t) (hs : I s) (hp : P s) :
    Throughout P ps t ↔ ∀ p ∈ ps, ok p.1 p.2 := by
  constructor
  · intro hall
    induction h with
    | refl =>
      intro p hp
      exact (List.not_mem_nil hp).elim
    | @stepL s m u p ps hst hr ih =>
      obtain ⟨rfl, hst⟩ := hst
      have htail : Throughout P ps u :=
        ⟨fun r hr => hall.1 r (List.mem_cons_of_mem _ hr), hall.2⟩
      have hPm : P m := recorded_start hr htail
      intro q hq
      rcases List.mem_cons.mp hq with rfl | hq
      · exact (hP _ _ _ hst hs hp).mp hPm
      · exact ih (hI _ _ _ hst hs) hPm htail q hq
  · intro hok
    have hboth : Throughout (fun s => I s ∧ P s) ps t := by
      refine recorded_throughout ?_ h hok ⟨hs, hp⟩
      intro s a t hst hi ha
      exact ⟨hI _ _ _ hst hi.1, (hP _ _ _ hst hi.1 hi.2).mpr ha⟩
    exact ⟨fun p hp => (hboth.1 p hp).2, hboth.2.2⟩

/-- The same transitions, each label between the two states of its step. -/
def Traced (step : σ → α → σ → Prop) (s : σ) (p : σ × α × σ) (t : σ) : Prop :=
  p.1 = s ∧ p.2.2 = t ∧ step s p.2.1 t

theorem traced_step {ps : List (σ × α × σ)} {p : σ × α × σ} (h : Run (Traced step) s ps t)
    (hp : p ∈ ps) : step p.1 p.2.1 p.2.2 := by
  induction h with
  | refl => exact (List.not_mem_nil hp).elim
  | stepL hst _ ih =>
    rcases List.mem_cons.mp hp with rfl | hp
    · obtain ⟨rfl, rfl, hst⟩ := hst
      exact hst
    · exact ih hp

variable {exec : σ → α → Option σ}

def execAll (exec : σ → α → Option σ) : σ → List α → Option σ
  | s, [] => some s
  | s, a :: as => (exec s a).bind fun t => execAll exec t as

/-- The labels of an execution with the states they start from. -/
def record (exec : σ → α → Option σ) : σ → List α → List (σ × α)
  | _, [] => []
  | s, a :: as => (s, a) :: (exec s a).elim [] fun t => record exec t as

/-- The labels of an execution between the states of their steps. -/
def trace (exec : σ → α → Option σ) : σ → List α → List (σ × α × σ)
  | _, [] => []
  | s, a :: as => (exec s a).elim [] fun t => (s, a, t) :: trace exec t as

theorem run_of_execAll (hx : ∀ s a t, exec s a = some t → step s a t)
    (h : execAll exec s as = some t) : Run step s as t := by
  induction as generalizing s with
  | nil =>
    cases h
    exact .refl
  | cons a as ih =>
    obtain ⟨m, hm, ht⟩ := Option.bind_eq_some_iff.mp h
    exact .stepL (hx _ _ _ hm) (ih ht)

theorem recorded_of_execAll (hx : ∀ s a t, exec s a = some t → step s a t)
    (h : execAll exec s as = some t) : Run (Recorded step) s (record exec s as) t := by
  induction as generalizing s with
  | nil =>
    cases h
    exact .refl
  | cons a as ih =>
    obtain ⟨m, hm, ht⟩ := Option.bind_eq_some_iff.mp h
    have hr := ih ht
    simp only [record, hm, Option.elim_some]
    exact .stepL ⟨rfl, hx _ _ _ hm⟩ hr

theorem exists_recorded_of_execAll (hx : ∀ s a t, exec s a = some t → step s a t)
    (s : σ) (as : List α) (h : (execAll exec s as).isSome = true) :
    ∃ t, Run (Recorded step) s (record exec s as) t := by
  obtain ⟨t, ht⟩ := Option.isSome_iff_exists.mp h
  exact ⟨t, recorded_of_execAll hx ht⟩

theorem traced_of_execAll (hx : ∀ s a t, exec s a = some t → step s a t)
    (h : execAll exec s as = some t) : Run (Traced step) s (trace exec s as) t := by
  induction as generalizing s with
  | nil =>
    cases h
    exact .refl
  | cons a as ih =>
    obtain ⟨m, hm, ht⟩ := Option.bind_eq_some_iff.mp h
    have hr := ih ht
    simp only [trace, hm, Option.elim_some]
    exact .stepL ⟨rfl, rfl, hx _ _ _ hm⟩ hr

theorem exists_traced_of_execAll (hx : ∀ s a t, exec s a = some t → step s a t)
    (s : σ) (as : List α) (h : (execAll exec s as).isSome = true) :
    ∃ t, Run (Traced step) s (trace exec s as) t := by
  obtain ⟨t, ht⟩ := Option.isSome_iff_exists.mp h
  exact ⟨t, traced_of_execAll hx ht⟩

/-- An execution that ends somewhere, as a run to a state with a decidable property. -/
theorem exists_run_of_execAll (hx : ∀ s a t, exec s a = some t → step s a t)
    (s : σ) (as : List α) (p : σ → Bool) (h : (execAll exec s as).any p = true) :
    ∃ t, Run step s as t ∧ p t = true := by
  obtain ⟨t, ht, hp⟩ := (Option.any_eq_true ..).mp h
  exact ⟨t, run_of_execAll hx ht, hp⟩

end Lts
