import Mathlib.Data.List.Basic
import Mathlib.Data.Nat.Notation

/-!
# Programs with state and exceptions

`EStateM ε σ α` models imperative code: a run ends in a state and either returns
a value or raises, and what was updated before the raise stays updated.  This
module adds what the standard library leaves out: postconditions for both ways a
run can end (`Result.Meets`), a run on a part of the state (`zoom`), catching
whatever is raised (`attempt`), what a program keeps (`Keeps`), programs on changed states (`MapsTo`),
a bounded `while` loop, and their rules.
-/

namespace EStateM

variable {ε σ τ α β : Type}

/-! ## Outcomes -/

/-- The state in which a run ends, returning or raising. -/
def Result.state : Result ε σ α → σ
  | .ok _ s => s
  | .error _ s => s

@[simp] theorem Result.state_ok (a : α) (s : σ) :
    (Result.ok a s : Result ε σ α).state = s := rfl

@[simp] theorem Result.state_error (e : ε) (s : σ) :
    (Result.error e s : Result ε σ α).state = s := rfl

/-- What a run returns, if it does. -/
def Result.value? : Result ε σ α → Option α
  | .ok a _ => some a
  | .error _ _ => none

theorem Result.eq_ok_of_value? {r : Result ε σ α} {a : α} (h : r.value? = some a) :
    r = .ok a r.state := by
  cases r with
  | ok b s =>
      cases h
      rfl
  | error e s => cases h

/-- `Q` holds if the run returned, and `E` if it raised. -/
def Result.Meets (Q : α → σ → Prop) (E : ε → σ → Prop) : Result ε σ α → Prop
  | .ok a s => Q a s
  | .error e s => E e s

@[simp] theorem Result.meets_ok {Q : α → σ → Prop} {E : ε → σ → Prop} {a : α}
    {s : σ} : (Result.ok a s).Meets Q E ↔ Q a s := Iff.rfl

@[simp] theorem Result.meets_error {Q : α → σ → Prop} {E : ε → σ → Prop}
    {e : ε} {s : σ} : (Result.error e s).Meets Q E ↔ E e s := Iff.rfl

theorem Result.Meets.mono {r : Result ε σ α} {Q R : α → σ → Prop}
    {E F : ε → σ → Prop} (h : r.Meets Q E) (hQ : ∀ a s, Q a s → R a s)
    (hE : ∀ e s, E e s → F e s) : r.Meets R F := by
  cases r with
  | ok a s => exact hQ a s h
  | error e s => exact hE e s h

/-- A run that cannot raise returns. -/
theorem Result.Meets.exists_ok {r : Result ε σ α} {Q : α → σ → Prop}
    (h : r.Meets Q fun _ _ => False) : ∃ a s, r = .ok a s ∧ Q a s := by
  cases r with
  | ok a s => exact ⟨a, s, rfl, h⟩
  | error e s => exact h.elim

/-! ## Single steps -/

theorem run_throw_any (e : ε) (s : σ) :
    (throw e : EStateM ε σ α).run s = .error e s := rfl

theorem meets_bind {x : EStateM ε σ α} {f : α → EStateM ε σ β} {s : σ}
    {P : α → σ → Prop} {Q : β → σ → Prop} {E : ε → σ → Prop}
    (hx : (x.run s).Meets P E)
    (hf : ∀ a s', P a s' → ((f a).run s').Meets Q E) :
    ((x >>= f).run s).Meets Q E := by
  rw [run_bind]
  cases hrun : x.run s with
  | ok a s' =>
      rw [hrun] at hx
      exact hf a s' hx
  | error e s' =>
      rw [hrun] at hx
      exact hx

/-- A program in two parts returns if both of them do. -/
theorem run_bind_eq_ok {x : EStateM ε σ α} {f : α → EStateM ε σ β} {s s' : σ} {b : β} :
    (x >>= f).run s = .ok b s' ↔ ∃ a m, x.run s = .ok a m ∧ (f a).run m = .ok b s' := by
  rw [run_bind]
  cases x.run s with
  | ok a m =>
      refine ⟨fun h => ⟨a, m, rfl, h⟩, ?_⟩
      rintro ⟨_, _, heq, h⟩
      cases heq
      exact h
  | error e m =>
      refine ⟨fun h => ?_, ?_⟩
      · cases h
      · rintro ⟨_, _, heq, -⟩
        cases heq

@[simp] theorem run_ofExcept_ok (a : α) (s : σ) :
    (MonadExcept.ofExcept (Except.ok a : Except ε α) : EStateM ε σ α).run s =
      .ok a s := rfl

@[simp] theorem run_ofExcept_error (e : ε) (s : σ) :
    (MonadExcept.ofExcept (Except.error e : Except ε α) :
      EStateM ε σ α).run s = .error e s := rfl

@[simp] theorem ofExcept_ok_bind (a : α) (f : α → EStateM ε σ β) :
    ((MonadExcept.ofExcept (Except.ok a : Except ε α) : EStateM ε σ α) >>= f) =
      f a := rfl

/-- Run `x` and hand its outcome to the caller; nothing it did is undone. -/
def attempt (x : EStateM ε σ α) : EStateM ε σ (Except ε α) := fun s =>
  match x.run s with
  | .ok a s' => .ok (.ok a) s'
  | .error e s' => .ok (.error e) s'

theorem run_attempt (x : EStateM ε σ α) (s : σ) :
    (attempt x).run s = match x.run s with
      | .ok a s' => .ok (.ok a) s'
      | .error e s' => .ok (.error e) s' := rfl

/-- Run `x` on the part of the state that `view` reads and `put` writes back. -/
def zoom (view : σ → τ) (put : σ → τ → σ) (x : EStateM ε τ α) :
    EStateM ε σ α := fun s =>
  match x.run (view s) with
  | .ok a t => .ok a (put s t)
  | .error e t => .error e (put s t)

theorem run_zoom (view : σ → τ) (put : σ → τ → σ) (x : EStateM ε τ α) (s : σ) :
    (zoom view put x).run s = match x.run (view s) with
      | .ok a t => .ok a (put s t)
      | .error e t => .error e (put s t) := rfl

theorem meets_zoom {view : σ → τ} {put : σ → τ → σ} {x : EStateM ε τ α}
    {s : σ} {Q : α → τ → Prop} {E : ε → τ → Prop} {Q' : α → σ → Prop}
    {E' : ε → σ → Prop} (h : (x.run (view s)).Meets Q E)
    (hQ : ∀ a t, Q a t → Q' a (put s t))
    (hE : ∀ e t, E e t → E' e (put s t)) :
    ((zoom view put x).run s).Meets Q' E' := by
  rw [run_zoom]
  cases hrun : x.run (view s) with
  | ok a t =>
      rw [hrun] at h
      exact hQ a t h
  | error e t =>
      rw [hrun] at h
      exact hE e t h

/-! ## Invariants -/

/-- The program keeps `I`; what it returns satisfies `Q`, and what it raises `E`. -/
def Keeps (I : σ → Prop) (E : ε → Prop) (Q : α → Prop) (x : EStateM ε σ α) : Prop :=
  ∀ s, I s → (x.run s).Meets (fun a s' => Q a ∧ I s') (fun e s' => E e ∧ I s')

section

variable {I : σ → Prop} {E : ε → Prop} {P : α → Prop} {Q : β → Prop} {x : EStateM ε σ α}
  {f : α → EStateM ε σ β}

theorem Keeps.pure {a : α} (ha : P a) : Keeps I E P (Pure.pure a : EStateM ε σ α) :=
  fun _ hs => ⟨ha, hs⟩

theorem Keeps.throw {e : ε} (he : E e) : Keeps I E P (throw e : EStateM ε σ α) :=
  fun _ hs => ⟨he, hs⟩

theorem Keeps.get : Keeps I E I (MonadState.get : EStateM ε σ σ) := fun _ hs => ⟨hs, hs⟩

theorem Keeps.modify {g : σ → σ} (hg : ∀ s, I s → I (g s)) :
    Keeps I E (fun _ => True) (modify g : EStateM ε σ PUnit) :=
  fun s hs => ⟨trivial, hg s hs⟩

theorem Keeps.bind (hx : Keeps I E P x) (hf : ∀ a, P a → Keeps I E Q (f a)) :
    Keeps I E Q (x >>= f) :=
  fun s hs => meets_bind (hx s hs) fun a s' ha => hf a ha.1 s' ha.2

/-- What is caught could have been raised. -/
theorem Keeps.attempt (hx : Keeps I E P x) :
    Keeps I E (Except.rec E P) (attempt x) := by
  intro s hs
  have hmeets := hx s hs
  rw [run_attempt]
  cases hrun : x.run s with
  | ok a s' =>
      rw [hrun] at hmeets
      exact hmeets
  | error e s' =>
      rw [hrun] at hmeets
      exact hmeets

theorem Keeps.attempt_bind {k : Except ε α → EStateM ε σ β} (hx : Keeps I E P x)
    (hok : ∀ a, P a → Keeps I E Q (k (.ok a)))
    (herror : ∀ e, E e → Keeps I E Q (k (.error e))) :
    Keeps I E Q (EStateM.attempt x >>= k) := by
  refine .bind hx.attempt fun caught hcaught => ?_
  cases caught with
  | ok a => exact hok a hcaught
  | error e => exact herror e hcaught

end

/-! ## Programs on changed states -/

/-- A result whose value and state are changed. -/
def Result.change (g : α → β) (h : σ → τ) : Result ε σ α → Result ε τ β
  | .ok a s => .ok (g a) (h s)
  | .error e s => .error e (h s)

/-- On a changed state, `y` does what `x` does. -/
def MapsTo (h : σ → τ) (g : α → β) (x : EStateM ε σ α) (y : EStateM ε τ β) : Prop :=
  ∀ s, y.run (h s) = (x.run s).change g h

section

variable {γ δ : Type} {h : σ → τ} {g : α → β} {k : γ → δ} {x : EStateM ε σ α}
  {y : EStateM ε τ β} {f : α → EStateM ε σ γ} {f' : β → EStateM ε τ δ}

theorem MapsTo.pure {a : α} {b : β} (hb : b = g a) :
    MapsTo h g (Pure.pure a : EStateM ε σ α) (Pure.pure b) := by
  rw [hb]
  exact fun _ => rfl

theorem MapsTo.throw {e : ε} :
    MapsTo h g (throw e : EStateM ε σ α) (throw e : EStateM ε τ β) := fun _ => rfl

theorem MapsTo.get : MapsTo h h (MonadState.get : EStateM ε σ σ) MonadState.get := fun _ => rfl

theorem MapsTo.set {s : σ} {t : τ} (ht : t = h s) :
    MapsTo h id (set s : EStateM ε σ PUnit) (set t : EStateM ε τ PUnit) := by
  rw [ht]
  exact fun _ => rfl

theorem MapsTo.modify {p : σ → σ} {q : τ → τ} (hq : ∀ s, q (h s) = h (p s)) :
    MapsTo h id (modify p : EStateM ε σ PUnit) (modify q : EStateM ε τ PUnit) := by
  intro s
  show Result.ok _ (q (h s)) = _
  rw [hq]
  rfl

theorem MapsTo.bind (hx : MapsTo h g x y) (hf : ∀ a, MapsTo h k (f a) (f' (g a))) :
    MapsTo h k (x >>= f) (y >>= f') := by
  intro s
  rw [run_bind, run_bind, hx s]
  cases x.run s with
  | ok a s' => exact hf a s'
  | error e s' => rfl

end

/-! ## Bounded loops -/

/-- `while cond: body`, for at most the given number of rounds. -/
def whileLoop (cond : σ → Bool) (body : EStateM ε σ Unit) :
    ℕ → EStateM ε σ Unit
  | 0 => pure ()
  | fuel + 1 => do
      if cond (← get) then
        body
        whileLoop cond body fuel
      else pure ()

variable {cond : σ → Bool} {body : EStateM ε σ Unit}

theorem run_whileLoop_of_not {s : σ} (h : cond s = false) (fuel : ℕ) :
    (whileLoop cond body fuel).run s = .ok () s := by
  cases fuel <;> simp [whileLoop, h]

theorem run_whileLoop_succ {s : σ} (h : cond s = true) (fuel : ℕ) :
    (whileLoop cond body (fuel + 1)).run s =
      (body >>= fun _ => whileLoop cond body fuel).run s := by
  simp [whileLoop, h]

/-- The rule of the loop: `I` is its invariant, and `m` shrinks in every round.
A loop that is given `m s` rounds ends because its condition fails, never because
its fuel runs out. -/
theorem meets_whileLoop {I : σ → Prop} {E : ε → σ → Prop} (m : σ → ℕ)
    (hpos : ∀ s, I s → cond s = true → 0 < m s)
    (hbody : ∀ s, I s → cond s = true →
      (body.run s).Meets (fun _ s' => I s' ∧ m s' < m s) E)
    {fuel : ℕ} {s : σ} (hfuel : m s ≤ fuel) (hs : I s) :
    ((whileLoop cond body fuel).run s).Meets
      (fun _ s' => I s' ∧ cond s' = false) E := by
  induction fuel generalizing s with
  | zero =>
      cases hcond : cond s with
      | false => exact ⟨hs, hcond⟩
      | true =>
          have := hpos s hs hcond
          omega
  | succ fuel ih =>
      cases hcond : cond s with
      | false =>
          rw [run_whileLoop_of_not hcond]
          exact ⟨hs, hcond⟩
      | true =>
          rw [run_whileLoop_succ hcond]
          apply meets_bind (hbody s hs hcond)
          rintro _ s' ⟨hs', hlt⟩
          exact ih (by omega) hs'

end EStateM
