/-!
What a stateful computation that may fail ensures: one condition for its result and one for its error,
both together with the state it leaves behind.
-/
namespace Stateful

variable {ε σ α β : Type} {x : EStateM ε σ α} {f : α → EStateM ε σ β} {s : σ}
  {Q Q' : α → σ → Prop} {R : β → σ → Prop} {E E' : ε → σ → Prop}

/-- `x` from the state `s` ends in a result with `Q` or in an error with `E`. -/
def Ensures (x : EStateM ε σ α) (s : σ) (Q : α → σ → Prop) (E : ε → σ → Prop) : Prop :=
  (∀ a s', x s = .ok a s' → Q a s') ∧ ∀ e s', x s = .error e s' → E e s'

theorem ensures_of_ok {a : α} {s' : σ} (h : x s = .ok a s') (hq : Q a s') : Ensures x s Q E := by
  constructor
  · intro b t hb
    rw [h] at hb
    cases hb
    exact hq
  · intro e t he
    rw [h] at he
    cases he

theorem ensures_of_error {e : ε} {s' : σ} (h : x s = .error e s') (he : E e s') :
    Ensures x s Q E := by
  constructor
  · intro b t hb
    rw [h] at hb
    cases hb
  · intro e' t he'
    rw [h] at he'
    cases he'
    exact he

theorem ensures_pure {a : α} (h : Q a s) : Ensures (pure a) s Q E := ensures_of_ok rfl h

theorem ensures_throw {e : ε} (h : E e s) : Ensures (throw e : EStateM ε σ α) s Q E :=
  ensures_of_error rfl h

theorem ensures_get {Q : σ → σ → Prop} (h : Q s s) : Ensures (get : EStateM ε σ σ) s Q E :=
  ensures_of_ok rfl h

theorem ensures_modify {Q : Unit → σ → Prop} {g : σ → σ} (h : Q () (g s)) :
    Ensures (modify g : EStateM ε σ Unit) s Q E := ensures_of_ok rfl h

theorem Ensures.mono (h : Ensures x s Q E) (hq : ∀ a s', Q a s' → Q' a s')
    (he : ∀ e s', E e s' → E' e s') : Ensures x s Q' E' :=
  ⟨fun a s' ha => hq a s' (h.1 a s' ha), fun e s' ha => he e s' (h.2 e s' ha)⟩

theorem ensures_bind_of_ok {a : α} {s' : σ} (h : x s = .ok a s') (hf : Ensures (f a) s' R E) :
    Ensures (x >>= f) s R E := by
  have hrun : (x >>= f) s = f a s' := by
    change EStateM.bind x f s = _
    rw [EStateM.bind, h]
  exact ⟨fun b t hb => hf.1 b t (hrun ▸ hb), fun e t he => hf.2 e t (hrun ▸ he)⟩

/-- The second part starts from what the first one ensures. -/
theorem Ensures.bind (h : Ensures x s Q E') (he : ∀ e s', E' e s' → E e s')
    (hf : ∀ a s', Q a s' → Ensures (f a) s' R E) : Ensures (x >>= f) s R E := by
  cases hx : x s with
  | ok a s' => exact ensures_bind_of_ok hx (hf a s' (h.1 a s' hx))
  | error e s' =>
    have hrun : (x >>= f) s = .error e s' := by
      change EStateM.bind x f s = _
      rw [EStateM.bind, hx]
    exact ensures_of_error hrun (he e s' (h.2 e s' hx))

theorem Ensures.and (h : Ensures x s Q E) (h' : Ensures x s Q' E') :
    Ensures x s (fun a s' => Q a s' ∧ Q' a s') (fun e s' => E e s' ∧ E' e s') :=
  ⟨fun a s' ha => ⟨h.1 a s' ha, h'.1 a s' ha⟩, fun e s' he => ⟨h.2 e s' he, h'.2 e s' he⟩⟩

variable {I : σ → Prop}

/-- `x` keeps the invariant, whether it fails or not. -/
def Keeps (I : σ → Prop) (x : EStateM ε σ α) : Prop :=
  ∀ s, I s → Ensures x s (fun _ => I) (fun _ => I)

theorem keeps_pure (a : α) : Keeps I (pure a : EStateM ε σ α) := fun _ h => ensures_pure h

theorem keeps_throw (e : ε) : Keeps I (throw e : EStateM ε σ α) := fun _ h => ensures_throw h

theorem keeps_get : Keeps I (get : EStateM ε σ σ) := fun _ h => ensures_get h

theorem keeps_modify {g : σ → σ} (hg : ∀ s, I s → I (g s)) :
    Keeps I (modify g : EStateM ε σ Unit) := fun s h => ensures_modify (hg s h)

theorem Keeps.bind (hx : Keeps I x) (hf : ∀ a, Keeps I (f a)) : Keeps I (x >>= f) :=
  fun s h => (hx s h).bind (fun _ _ => id) fun a s' => hf a s'

end Stateful
