import Boto.Glacier.Writer.Model

/-!
# The partitioner keeps what it was given

`Holds` relates a partitioner to the flat byte string it buffers.  A part is
taken off the front of that string before `send_fn` sees it, whatever `send_fn`
then does.  The rules `meets_write` and `meets_flush` are stated for an arbitrary
`send_fn`: `J b t` relates the bytes still buffered to the state of `send_fn`,
and `E` is what is known after `send_fn` raised.
-/

namespace Boto.Glacier.Partitioner

open EStateM

/-- The partitioner buffers exactly `b`, and its cached size is right. -/
structure Holds (buffered : Partitioner) (p : ℕ) (b : Bytes) : Prop where
  partSize : buffered.partSize = p
  buffer : buffered.buffer.flatten = b
  bufferSize : buffered.bufferSize = b.length

theorem holds_init (p : ℕ) : (init p).Holds p [] :=
  ⟨rfl, rfl, rfl⟩

theorem Holds.putBack {self : Partitioner} {p : ℕ} {b : Bytes}
    (h : self.Holds p b) : (self.putBack b).Holds p (b.drop p) := by
  obtain ⟨rfl, -, -⟩ := h
  rw [Partitioner.putBack]
  split
  · exact ⟨rfl, by simp, rfl⟩
  · have hdrop : b.drop self.partSize = [] :=
      List.drop_of_length_le (by omega)
    exact ⟨rfl, by simp [hdrop], by simp [hdrop]⟩

theorem Holds.append {self : Partitioner} {p : ℕ} {b : Bytes}
    (h : self.Holds p b) (data : Bytes) :
    ({ self with
      buffer := self.buffer ++ [data]
      bufferSize := self.bufferSize + data.length } : Partitioner).Holds p
        (b ++ data) :=
  ⟨h.partSize, by simp [h.buffer], by simp [h.bufferSize]⟩

section

variable {σ : Type} (sendFn : Bytes → EStateM PyError σ Unit) {p : ℕ}
  {J : Bytes → σ → Prop} {E : PyError → σ → Prop}

theorem run_sendPart (self : Partitioner) (t : σ) :
    (sendPart sendFn).run (self, t) =
      (zoom Prod.snd (fun s t => (s.1, t))
        (sendFn (self.buffer.flatten.take self.partSize))).run
          (self.putBack self.buffer.flatten, t) := rfl

/-- `_send_part` takes one part off the front of what is buffered. -/
theorem meets_sendPart {self : Partitioner} {b : Bytes} {t : σ}
    (hself : self.Holds p b)
    (hsend : ((sendFn (b.take p)).run t).Meets
      (fun _ t' => J (b.drop p) t')
      (fun e t' => J (b.drop p) t' ∧ E e t')) :
    ((sendPart sendFn).run (self, t)).Meets
      (fun _ s => s.1.Holds p (b.drop p) ∧ J (b.drop p) s.2)
      (fun e s => s.1.Holds p (b.drop p) ∧ J (b.drop p) s.2 ∧ E e s.2) := by
  have hback := hself.putBack
  rw [run_sendPart, hself.buffer, hself.partSize]
  apply meets_zoom hsend
  · intro _ t' hJ
    exact ⟨hback, hJ⟩
  · intro e t' hJE
    exact ⟨hback, hJE⟩

/-- The rule of `write`: once `data` is in the buffer, `J` is kept by every part
sent, and a write that returns leaves at most one part buffered. -/
theorem meets_write (hp : 0 < p)
    (hsend : ∀ b t, p < b.length → J b t →
      ((sendFn (b.take p)).run t).Meets (fun _ t' => J (b.drop p) t')
        (fun e t' => J (b.drop p) t' ∧ E e t'))
    {self : Partitioner} {b data : Bytes} {t : σ}
    (hself : self.Holds p b) (hJ : J (b ++ data) t) :
    ((write sendFn data).run (self, t)).Meets
      (fun _ s => ∃ b', s.1.Holds p b' ∧ J b' s.2 ∧
        (b.length ≤ p ∨ data ≠ [] → b'.length ≤ p))
      (fun e s => ∃ b', s.1.Holds p b' ∧ J b' s.2 ∧ E e s.2) := by
  by_cases hdata : data = []
  · subst data
    refine ⟨b, hself, by simpa using hJ, ?_⟩
    rintro (hle | hne)
    · exact hle
    · exact absurd rfl hne
  · simp only [write, if_neg hdata, run_bind, run_get, run_modify]
    refine (meets_whileLoop
      (I := fun s : Partitioner × σ => ∃ b', s.1.Holds p b' ∧ J b' s.2)
      (E := fun e (s : Partitioner × σ) =>
        ∃ b', s.1.Holds p b' ∧ J b' s.2 ∧ E e s.2)
      (fun s : Partitioner × σ => s.1.bufferSize) ?_ ?_ ?_ ?_).mono ?_
      fun _ _ h => h
    · intro s _ hcond
      have := of_decide_eq_true hcond
      omega
    · rintro s ⟨b', hb', hJ'⟩ hcond
      have hlong : p < b'.length := by
        have := of_decide_eq_true hcond
        rw [hb'.partSize, hb'.bufferSize] at this
        exact this
      apply (meets_sendPart sendFn hb' (hsend b' s.2 hlong hJ')).mono
      · rintro _ s' ⟨hs', hJs'⟩
        refine ⟨⟨_, hs', hJs'⟩, ?_⟩
        rw [hs'.bufferSize, hb'.bufferSize, List.length_drop]
        omega
      · rintro e s' ⟨hs', hJs', hE⟩
        exact ⟨_, hs', hJs', hE⟩
    · exact le_refl _
    · exact ⟨_, hself.append data, hJ⟩
    · rintro _ s ⟨⟨b', hb', hJ'⟩, hcond⟩
      refine ⟨b', hb', hJ', fun _ => ?_⟩
      have := of_decide_eq_false hcond
      rw [hb'.partSize, hb'.bufferSize] at this
      omega

/-- The rule of `flush`. -/
theorem meets_flush {self : Partitioner} {b : Bytes} {t : σ}
    {Q : Unit → Partitioner × σ → Prop} {F : PyError → Partitioner × σ → Prop}
    (hself : self.Holds p b)
    (hnil : b = [] → Q () (self, t))
    (hsend : b ≠ [] → ((sendFn (b.take p)).run t).Meets
      (fun _ t' => ∀ self', Holds self' p (b.drop p) → Q () (self', t'))
      (fun e t' => ∀ self', Holds self' p (b.drop p) → F e (self', t'))) :
    ((flush sendFn).run (self, t)).Meets Q F := by
  simp only [flush, run_bind, run_get]
  by_cases hb : b = []
  · have hzero : ¬ self.bufferSize > 0 := by simp [hself.bufferSize, hb]
    rw [if_neg hzero]
    exact hnil hb
  · have hpos : self.bufferSize > 0 := by
      rw [hself.bufferSize]
      exact List.length_pos_iff.mpr hb
    rw [if_pos hpos, run_sendPart, hself.buffer, hself.partSize]
    apply meets_zoom (hsend hb)
    · exact fun _ _ h => h _ hself.putBack
    · exact fun _ _ h => h _ hself.putBack

end

end Boto.Glacier.Partitioner
