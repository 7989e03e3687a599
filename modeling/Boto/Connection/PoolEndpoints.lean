import Boto.Connection.Mexe

/-!
# What pooled connections lead to

A call returns its connection to the pool for its last host and port and for the security
of the object, also after a redirect to the other scheme.  And a secure connection that the
factory or a tunnel makes leads to the default port.  In runs in which neither of this is
about to be stored, the pool has connections under their own keys only.
-/

namespace Boto.Connection

open Runs (run Guarded)

/-- A connection that leads to the host and the port of a key, with its security. -/
structure HttpConnection.IsFor (conn : HttpConnection) (key : PoolKey) : Prop where
  security : conn.isSecure = key.isSecure
  endpoint : conn.viaProxy = true ∧ conn.isSecure = false ∨
    conn.host = parseHost key.host ∧ conn.port.str = key.port.str

namespace AWSAuthConnection

variable {self : AWSAuthConnection}

/-- A new connection for a key is made with its port: it is not secure, or neither of the
factory nor a tunnel, or the port is the default one. -/
def KeepsPort (self : AWSAuthConnection) (key : PoolKey) : Prop :=
  key.isSecure = true →
    (self.hasConnectionFactory || self.useProxy && !self.skipProxy (parseHost key.host)) = true →
      key.port.str = decimal 443

/-- The last redirect was to a location of the same security as the object, or a connection
was opened for an exception since. -/
def SameScheme (self : AWSAuthConnection) (call : Call) : Prop :=
  ∀ scheme ∈ call.redirectedTo, decide (scheme = "https".toList) = self.isSecure

/-- An attempt that ends with the connection in the pool. -/
def Stores (outcome : Outcome) : Prop :=
  ∃ response : Response, outcome = .response response none ∧ response.isServerError = false ∧
    response.redirect? = none ∧ response.closes = false

/-- The steps that store no connection of another security or for another port. -/
def IsSafe (self : AWSAuthConnection) (s : State) : Action → Prop
  | .call _ _ _ _ => True
  | .attempt id outcome _ => Stores outcome → ∀ call ∈ s.calls id,
      self.SameScheme call ∧ self.KeepsPort (call.key self.isSecure)

/-- The security of the connection of a call. -/
def securityOf (self : AWSAuthConnection) (call : Call) : Bool :=
  match call.redirectedTo with
  | some scheme => decide (scheme = "https".toList)
  | none => self.isSecure

/-- The connection of a call is one that is opened for its request. -/
def CallOk (self : AWSAuthConnection) (call : Call) : Prop :=
  call.connection = self.newHttpConnection (call.key (self.securityOf call))

/-- Every connection of the pool is one that is opened for its key, with the port. -/
def PoolOk (self : AWSAuthConnection) (pool : ConnectionPool PoolKey HttpConnection) : Prop :=
  ∀ key conn, pool.Stores key conn →
    conn = self.newHttpConnection key ∧ self.KeepsPort key

/-- What holds in every state. -/
structure Invariant (owner : AWSAuthConnection) (s : State) : Prop where
  pool : owner.PoolOk s.pool
  calls : ∀ id, ∀ call ∈ s.calls id, owner.CallOk call

theorem isSecure_newHttpConnection (key : PoolKey) :
    (self.newHttpConnection key).isSecure = key.isSecure := by
  rw [newHttpConnection]
  cases key.isSecure with
  | true =>
      rw [if_pos rfl]
      split
      · rfl
      · split <;> rfl
  | false =>
      rw [if_neg Bool.false_ne_true]
      split <;> rfl

/-- A new connection with the port of its key leads to the host of the key. -/
theorem isFor_newHttpConnection {key : PoolKey} (hport : self.KeepsPort key) :
    (self.newHttpConnection key).IsFor key := by
  refine ⟨isSecure_newHttpConnection key, ?_⟩
  rw [newHttpConnection]
  cases hsecure : key.isSecure with
  | true =>
      rw [if_pos rfl]
      split
      · rename_i hproxied
        exact .inr ⟨rfl, (hport hsecure (by rw [hproxied, Bool.or_true])).symm⟩
      · split
        · rename_i hfactory
          exact .inr ⟨rfl, (hport hsecure (by rw [hfactory, Bool.true_or])).symm⟩
        · exact .inr ⟨rfl, rfl⟩
  | false =>
      rw [if_neg Bool.false_ne_true]
      split
      · exact .inl ⟨rfl, rfl⟩
      · exact .inr ⟨rfl, rfl⟩

/-! ## What steps keep -/

section

variable {environment : Environment} {key : PoolKey} {call : Call}
  {pool : ConnectionPool PoolKey HttpConnection}

theorem PoolOk.init {staleDuration : ℕ} : self.PoolOk (.init staleDuration) :=
  fun _ _ hstores => absurd hstores ConnectionPool.not_stores_init

/-- A connection that is got is one that is opened for the key. -/
theorem PoolOk.getHttpConnection (hpool : self.PoolOk pool) (environment : Environment)
    (key : PoolKey) :
    (∀ conn ∈ (self.getHttpConnection environment key pool).1,
        conn = self.newHttpConnection key) ∧
      self.PoolOk (self.getHttpConnection environment key pool).2 := by
  obtain ⟨hgot, hleft⟩ := pool.getHttpConnection_spec environment.toMoment key
  have hrest : self.PoolOk (pool.getHttpConnection environment.toMoment key).2 :=
    fun other conn hstores => hpool other conn (hleft other conn hstores)
  rw [AWSAuthConnection.getHttpConnection]
  generalize pool.getHttpConnection environment.toMoment key = result at hgot hrest
  obtain ⟨got, rest⟩ := result
  cases got with
  | some conn =>
      refine ⟨fun other hother => ?_, hrest⟩
      cases hother
      exact (hpool key conn (hgot conn rfl)).1
  | none =>
      refine ⟨fun other hother => ?_, hrest⟩
      dsimp only at hother
      split at hother
      · cases hother
        rfl
      · cases hother

theorem CallOk.next (hcall : self.CallOk call) : ∀ next ∈ call.next?, self.CallOk next := by
  intro next hnext
  rw [Call.next?] at hnext
  split at hnext
  · cases hnext
    exact hcall
  · cases hnext

theorem callOk_reconnect : ∀ next ∈ self.reconnect environment call, self.CallOk next := by
  intro next hnext
  rw [reconnect] at hnext
  split at hnext
  · refine CallOk.next ?_ next hnext
    rfl
  · cases hnext

/-- What follows an attempt, whose call has ended or goes on. -/
theorem PoolOk.follow (hpool : self.PoolOk pool) (location : Text) :
    (∀ next ∈ (self.follow environment location call pool).1, self.CallOk next) ∧
      self.PoolOk (self.follow environment location call pool).2 := by
  rw [AWSAuthConnection.follow]
  split
  · exact ⟨fun _ hnext => (Option.not_mem_none _ hnext).elim, hpool⟩
  · rename_i result _
    dsimp only
    have hget := hpool.getHttpConnection environment
      (Call.key { call with request := call.request.redirected result }
        (result.scheme = "https".toList))
    generalize self.getHttpConnection environment (Call.key
      { call with request := call.request.redirected result }
        (result.scheme = "https".toList)) pool = got at hget
    obtain ⟨conn, rest⟩ := got
    cases conn with
    | some conn =>
        refine ⟨CallOk.next ?_, hget.2⟩
        exact hget.1 conn rfl
    | none => exact ⟨callOk_reconnect, hget.2⟩

theorem PoolOk.attempt {outcome : Outcome} (hpool : self.PoolOk pool) (hcall : self.CallOk call)
    (hsafe : Stores outcome → self.SameScheme call ∧ self.KeepsPort (call.key self.isSecure)) :
    (∀ next ∈ (self.attempt environment outcome call pool).1, self.CallOk next) ∧
      self.PoolOk (self.attempt environment outcome call pool).2 := by
  cases outcome with
  | retryable => exact ⟨callOk_reconnect, hpool⟩
  | raised => exact ⟨fun _ hnext => (Option.not_mem_none _ hnext).elim, hpool⟩
  | response response retry =>
      cases retry with
      | some i => exact ⟨CallOk.next hcall, hpool⟩
      | none =>
          rw [AWSAuthConnection.attempt]
          split
          · exact ⟨CallOk.next hcall, hpool⟩
          · rename_i herror
            split
            · exact hpool.follow _
            · rename_i hredirect
              split
              · exact ⟨fun _ hnext => (Option.not_mem_none _ hnext).elim, hpool⟩
              · rename_i hcloses
                obtain ⟨hscheme, hport⟩ := hsafe ⟨response, rfl,
                  Bool.eq_false_iff.mpr herror, hredirect, Bool.eq_false_iff.mpr hcloses⟩
                have hsecurity : self.securityOf call = self.isSecure := by
                  rw [securityOf]
                  split
                  · rename_i scheme heq
                    exact hscheme scheme heq
                  · rfl
                refine ⟨fun _ hnext => (Option.not_mem_none _ hnext).elim, fun other conn hstores => ?_⟩
                rcases ConnectionPool.stores_putHttpConnection hstores with
                  ⟨rfl, rfl⟩ | hold
                · rw [CallOk, hsecurity] at hcall
                  exact ⟨hcall, hport⟩
                · exact hpool other conn hold

end

/-- Every step that stores nothing for another endpoint. -/
theorem Invariant.step {s s' : State} {action : Action} (hinvariant : self.Invariant s)
    (hsafe : self.IsSafe s action) (hstep : self.step s action = some s') :
    self.Invariant s' := by
  have hupdate : ∀ {id : ℕ} {call? : Option Call} {calls : ℕ → Option Call},
      (∀ call ∈ call?, self.CallOk call) → (∀ id, ∀ call ∈ calls id, self.CallOk call) →
      ∀ other, ∀ call ∈ Function.update calls id call? other, self.CallOk call := by
    intro id call? calls hnew hold other call hcall
    rw [Function.update_apply] at hcall
    split at hcall
    · exact hnew call hcall
    · exact hold other call hcall
  cases action with
  | call id request numRetries environment =>
      rw [AWSAuthConnection.step] at hstep
      split at hstep
      · cases hstep
      · have hget := hinvariant.pool.getHttpConnection environment
          ⟨request.host, request.port, self.isSecure⟩
        generalize self.getHttpConnection environment
          ⟨request.host, request.port, self.isSecure⟩ s.pool = got at hget hstep
        obtain ⟨conn, pool⟩ := got
        cases hstep
        refine ⟨hget.2, hupdate ?_ hinvariant.calls⟩
        intro call hcall
        obtain ⟨made, hmade, rfl⟩ := Option.map_eq_some_iff.mp hcall
        exact hget.1 made hmade
  | attempt id outcome environment =>
      rw [AWSAuthConnection.step] at hstep
      split at hstep
      · cases hstep
      · rename_i call hcall
        have hnext := @PoolOk.attempt self environment call s.pool outcome hinvariant.pool
          (hinvariant.calls id call hcall) fun hstores => hsafe hstores call hcall
        generalize self.attempt environment outcome call s.pool = result at hnext hstep
        obtain ⟨next, pool⟩ := result
        cases hstep
        exact ⟨hnext.2, hupdate hnext.1 hinvariant.calls⟩

/-- A connection without a proxy or a factory. -/
def plainOwner (isSecure : Bool) : AWSAuthConnection where
  isSecure := isSecure
  useProxy := false
  proxy := []
  proxyPort := 0
  noProxy := []
  hasConnectionFactory := false

/-- An environment in which connections can be opened. -/
def online : Environment where
  now := 0
  isReady := fun _ => true
  connects := true
  reconnects := true

/-- A call that meets some responses. -/
def callWith (responses : List Response) : List Action :=
  .call 0 ⟨"h".toList, .int 443, "/".toList⟩ 0 online ::
    responses.map fun response => .attempt 0 (.response response none) online

end AWSAuthConnection

end Boto.Connection
