import Boto.Connection.Mexe
import Mathlib.Data.List.Range

/-!
# The end of the retry loop

An attempt of `_mexe` sends one request at most.  Attempts are counted when the server fails
or the connection does, and are not counted when the server redirects.
-/

namespace Boto.Connection

/-- How a call ends. -/
inductive Ending
  | returned (response : Response)
  | raised
  deriving DecidableEq

namespace Outcome

/-- The response says where to go instead, in a way that can be read. -/
def isRedirect : Outcome → Bool
  | .response reply _ =>
      !reply.isServerError && (reply.redirect?.bind Urls.urlparse).isSome
  | _ => false

/-- The attempt is counted and the next one may follow. -/
def isRetried : Outcome → Bool
  | .response reply _ => reply.isServerError
  | .retryable => true
  | .raised => false

/-- The attempt is the last one. -/
def isFinal (outcome : Outcome) : Bool := !outcome.isRedirect && !outcome.isRetried

/-- How a call ends if this is what its last attempt met. -/
def ending : Outcome → Ending
  | .response reply _ =>
      if reply.isServerError || reply.redirect?.isSome then .raised else .returned reply
  | _ => .raised

/-- No retry handler has decided about the response. -/
def Unhandled : Outcome → Prop
  | .response _ retry => retry = none
  | _ => True

end Outcome

/-- A call whose first connection is open. -/
def Call.start (request : Request) (connection : HttpConnection) (numRetries : ℕ) : Call where
  request := request
  connection := connection
  i := 0
  numRetries := numRetries
  redirectedTo := none

namespace AWSAuthConnection

variable (self : AWSAuthConnection)

/-- A call after some attempts.  Each finds the pool as the other calls have left it. -/
def afterAttempts (environments : ℕ → Environment)
    (pools : ℕ → ConnectionPool PoolKey HttpConnection) (outcomes : ℕ → Outcome) (call : Call) :
    ℕ → Call ⊕ Ending
  | 0 => .inl call
  | n + 1 =>
      match afterAttempts environments pools outcomes call n with
      | .inl call =>
          match (self.attempt (environments n) (outcomes n) call (pools n)).1 with
          | some call => .inl call
          | none => .inr (outcomes n).ending
      | .inr ending => .inr ending

end AWSAuthConnection

/-! ## One attempt -/

section

variable {self : AWSAuthConnection} {environment : Environment} {outcome : Outcome} {call : Call}
  {pool : ConnectionPool PoolKey HttpConnection}

/-- A call that goes on after a failure has counted it. -/
theorem i_of_reconnect {next : Call} (hnext : self.reconnect environment call = some next) :
    next.i = call.i + 1 ∧ next.numRetries = call.numRetries ∧ next.i ≤ next.numRetries := by
  rw [AWSAuthConnection.reconnect] at hnext
  split at hnext
  · rw [Call.next?] at hnext
    split at hnext
    · next hle =>
        cases hnext
        exact ⟨rfl, rfl, hle⟩
    · cases hnext
  · cases hnext

theorem i_of_next {next : Call} (hnext : call.next? = some next) :
    next = call ∧ next.i ≤ next.numRetries := by
  rw [Call.next?] at hnext
  split at hnext
  · next hle =>
      cases hnext
      exact ⟨rfl, hle⟩
  · cases hnext

theorem next_of_le (hle : call.i ≤ call.numRetries) : call.next? = some call :=
  if_pos hle

theorem i_of_follow {location : Text} {next : Call}
    (hnext : (self.follow environment location call pool).1 = some next) :
    call.i ≤ next.i ∧ next.numRetries = call.numRetries ∧ next.i ≤ next.numRetries := by
  rw [AWSAuthConnection.follow] at hnext
  split at hnext
  · cases hnext
  · simp only at hnext
    split at hnext
    · obtain ⟨rfl, hle⟩ := i_of_next hnext
      exact ⟨le_rfl, rfl, hle⟩
    · obtain ⟨hi, hretries, hle⟩ := i_of_reconnect hnext
      exact ⟨by rw [hi]; exact Nat.le_succ _, hretries, hle⟩

/-- What an attempt does with the number of attempts. -/
theorem i_of_attempt {next : Call} (hhandler : outcome.Unhandled)
    (hnext : (self.attempt environment outcome call pool).1 = some next) :
    outcome.isFinal = false ∧ call.i + outcome.isRetried.toNat ≤ next.i ∧
      next.numRetries = call.numRetries ∧ next.i ≤ next.numRetries := by
  cases outcome with
  | response response retry =>
      obtain rfl : retry = none := hhandler
      rw [AWSAuthConnection.attempt] at hnext
      simp only [Outcome.isFinal, Outcome.isRedirect, Outcome.isRetried]
      split at hnext
      · next herror =>
          obtain ⟨rfl, hle⟩ := i_of_next hnext
          exact ⟨by simp [herror], by simp [herror], rfl, hle⟩
      · next herror =>
          split at hnext
          · next location hredirect =>
              obtain ⟨hi, hretries, hle⟩ := i_of_follow hnext
              refine ⟨?_, by simpa [herror] using hi, hretries, hle⟩
              rw [AWSAuthConnection.follow] at hnext
              split at hnext
              · cases hnext
              · next result hresult =>
                  rw [hredirect, Option.bind_some, hresult]
                  simp [herror]
          · split at hnext <;> cases hnext
  | retryable =>
      obtain ⟨hi, hretries, hle⟩ := i_of_reconnect hnext
      exact ⟨rfl, hi.ge, hretries, hle⟩
  | raised => cases hnext

/-- When connections can be opened, an attempt that is not final ends the call only if the
retries are used up. -/
theorem attempt_goes_on (hhandler : outcome.Unhandled) (hconnects : environment.connects = true)
    (hreconnects : environment.reconnects = true) (hfinal : outcome.isFinal = false)
    (hle : call.i + outcome.isRetried.toNat ≤ call.numRetries) :
    ∃ next, (self.attempt environment outcome call pool).1 = some next ∧
      next.i = call.i + outcome.isRetried.toNat ∧ next.numRetries = call.numRetries := by
  cases outcome with
  | response response retry =>
      obtain rfl : retry = none := hhandler
      rw [AWSAuthConnection.attempt]
      by_cases herror : response.isServerError = true
      · have hretried : (Outcome.response response none).isRetried = true := herror
        rw [hretried] at hle ⊢
        refine ⟨{ call with i := call.i + 1 }, ?_, rfl, rfl⟩
        rw [if_pos herror, next_of_le hle]
      · have hretried : (Outcome.response response none).isRetried = false :=
          Bool.eq_false_iff.mpr herror
        rw [hretried] at hle ⊢
        simp only [Outcome.isFinal, hretried, Outcome.isRedirect, Bool.not_false, Bool.and_true,
          Bool.not_eq_false', Bool.and_eq_true] at hfinal
        obtain ⟨result, hbind⟩ := Option.isSome_iff_exists.mp hfinal.2
        obtain ⟨location, hredirect, hresult⟩ := Option.bind_eq_some_iff.mp hbind
        rw [if_neg herror, hredirect]
        simp only [AWSAuthConnection.follow, hresult]
        split
        · exact ⟨_, next_of_le hle, rfl, rfl⟩
        · next hnone =>
            rw [AWSAuthConnection.getHttpConnection, hconnects] at hnone
            split at hnone <;> simp at hnone
  | retryable =>
      refine ⟨{ call with
        connection := self.newHttpConnection (call.key self.isSecure)
        i := call.i + 1
        redirectedTo := none }, ?_, rfl, rfl⟩
      rw [AWSAuthConnection.attempt, AWSAuthConnection.reconnect, if_pos hreconnects,
        next_of_le hle]
  | raised => cases hfinal

end

/-! ## All the attempts -/

/-- How many of the first outcomes are counted. -/
def countRetried (outcomes : ℕ → Outcome) (n : ℕ) : ℕ :=
  (List.range n).countP fun k => (outcomes k).isRetried

theorem countRetried_succ (outcomes : ℕ → Outcome) (n : ℕ) :
    countRetried outcomes (n + 1) =
      countRetried outcomes n + (outcomes n).isRetried.toNat := by
  rw [countRetried, List.range_succ, List.countP_append, countRetried]
  cases hretried : (outcomes n).isRetried <;> simp [hretried]

section

variable {self : AWSAuthConnection} {environments : ℕ → Environment}
  {pools : ℕ → ConnectionPool PoolKey HttpConnection} {outcomes : ℕ → Outcome}
  {request : Request} {connection : HttpConnection} {numRetries n : ℕ}

/-- A call that goes on has met nothing final, and has counted its failures. -/
theorem goes_on_spec (hhandler : ∀ k, (outcomes k).Unhandled) {call : Call}
    (hafter : self.afterAttempts environments pools outcomes
      (.start request connection numRetries) n = .inl call) :
    (∀ k < n, (outcomes k).isFinal = false) ∧ countRetried outcomes n ≤ call.i ∧
      call.numRetries = numRetries ∧ call.i ≤ numRetries := by
  induction n generalizing call with
  | zero =>
      cases hafter
      exact ⟨nofun, le_rfl, rfl, Nat.zero_le _⟩
  | succ n ih =>
      rw [AWSAuthConnection.afterAttempts] at hafter
      split at hafter
      · next before hbefore =>
          split at hafter
          · next hattempt =>
              cases hafter
              obtain ⟨hfinals, hcount, hretries, -⟩ := ih hbefore
              obtain ⟨hfinal, hi, hsame, hle⟩ := i_of_attempt (hhandler n) hattempt
              rw [hretries] at hsame
              refine ⟨?_, ?_, hsame, hsame ▸ hle⟩
              · intro k hk
                rcases Nat.lt_succ_iff_lt_or_eq.mp hk with hlt | rfl
                · exact hfinals k hlt
                · exact hfinal
              · rw [countRetried_succ]
                exact le_trans (Nat.add_le_add_right hcount _) hi
          · cases hafter
      · cases hafter

/-- A call ends at the latest with something final or when too much has failed. -/
theorem ends_of (hhandler : ∀ k, (outcomes k).Unhandled)
    (hends : (∃ k < n, (outcomes k).isFinal = true) ∨ numRetries < countRetried outcomes n) :
    ∃ ending, self.afterAttempts environments pools outcomes
      (.start request connection numRetries) n = .inr ending := by
  cases hafter : self.afterAttempts environments pools outcomes
      (.start request connection numRetries) n with
  | inl call =>
      obtain ⟨hfinals, hcount, -, hle⟩ := goes_on_spec hhandler hafter
      rcases hends with ⟨k, hk, hfinal⟩ | hlt
      · rw [hfinals k hk] at hfinal
        cases hfinal
      · omega
  | inr ending => exact ⟨ending, rfl⟩

/-- Otherwise it goes on when connections can be opened. -/
theorem goes_on_of (hhandler : ∀ k, (outcomes k).Unhandled)
    (hconnects : ∀ k, (environments k).connects = true)
    (hreconnects : ∀ k, (environments k).reconnects = true)
    (hfinal : ∀ k < n, (outcomes k).isFinal = false)
    (hcount : countRetried outcomes n ≤ numRetries) :
    ∃ call, self.afterAttempts environments pools outcomes
        (.start request connection numRetries) n = .inl call ∧
      call.i = countRetried outcomes n ∧ call.numRetries = numRetries := by
  induction n with
  | zero => exact ⟨_, rfl, rfl, rfl⟩
  | succ n ih =>
      rw [countRetried_succ] at hcount ⊢
      obtain ⟨before, hbefore, hi, hretries⟩ :=
        ih (fun k hk => hfinal k (Nat.lt_succ_of_lt hk)) (le_trans (Nat.le_add_right _ _) hcount)
      rw [← hi, ← hretries] at hcount
      obtain ⟨call, hattempt, hcall, hsame⟩ := @attempt_goes_on self (environments n)
        (outcomes n) before (pools n) (hhandler n) (hconnects n) (hreconnects n)
        (hfinal n (Nat.lt_succ_self n)) hcount
      refine ⟨call, ?_, by rw [hcall, hi], hsame.trans hretries⟩
      rw [AWSAuthConnection.afterAttempts, hbefore]
      simp only [hattempt]

end

/-- A moment at which connections can be opened. -/
def reachable : Environment where
  now := 0
  isReady := fun _ => false
  connects := true
  reconnects := true

/-- A redirect to the same address. -/
def redirectHome : Outcome :=
  .response ⟨302, some "http://h/".toList, none⟩ none

end Boto.Connection
