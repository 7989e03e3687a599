import Boto.Support.OrderedDict
import Mathlib.Data.Nat.Notation
import Mathlib.Tactic.Common

/-!
# Connection pools

`HostConnectionPool` and `ConnectionPool` of `boto/connection.py`, for connections of any
kind.  The time and which connections have been read to the end are given from outside.
-/

namespace Boto.Connection

/-- What a pool learns from outside: the time, and which places of a queue hold connections
that are ready. -/
structure Moment where
  now : ℕ
  isReady : ℕ → Bool

/-- A connection with the time at which it was returned. -/
abbrev Queue (γ : Type) := List (γ × ℕ)

namespace HostConnectionPool

variable {γ : Type}

/-- `put`. -/
def put (now : ℕ) (conn : γ) (queue : Queue γ) : Queue γ :=
  queue ++ [(conn, now)]

/-- `_pair_stale`. -/
def pairStale (staleDuration now : ℕ) (pair : γ × ℕ) : Bool :=
  decide (pair.2 + staleDuration < now)

/-- `clean`. -/
def clean (staleDuration now : ℕ) (queue : Queue γ) : Queue γ :=
  queue.dropWhile (pairStale staleDuration now)

/-- The loop of `get`, for a number of further connections. -/
def getLoop (moment : Moment) : ℕ → ℕ → Queue γ → Option γ × Queue γ
  | 0, _, queue => (none, queue)
  | _ + 1, _, [] => (none, [])
  | count + 1, place, (conn, _) :: queue =>
      if moment.isReady place then (some conn, queue)
      else getLoop moment count (place + 1) (put moment.now conn queue)

/-- `get`. -/
def get (staleDuration : ℕ) (moment : Moment) (queue : Queue γ) : Option γ × Queue γ :=
  let queue := clean staleDuration moment.now queue
  getLoop moment queue.length 0 queue

/-- What is got was in the queue, and so was all that is left. -/
theorem getLoop_subset (moment : Moment) (count place : ℕ) (queue : Queue γ) :
    (∀ conn ∈ (getLoop moment count place queue).1, ∃ pair ∈ queue, pair.1 = conn) ∧
      ∀ pair ∈ (getLoop moment count place queue).2, ∃ old ∈ queue, old.1 = pair.1 := by
  induction count generalizing place queue with
  | zero => exact ⟨nofun, fun pair hpair => ⟨pair, hpair, rfl⟩⟩
  | succ count ih =>
      cases queue with
      | nil => exact ⟨nofun, nofun⟩
      | cons first queue =>
          obtain ⟨conn, time⟩ := first
          rw [getLoop]
          split
          · refine ⟨?_, fun pair hpair => ⟨pair, List.mem_cons_of_mem _ hpair, rfl⟩⟩
            intro other hother
            cases hother
            exact ⟨_, List.mem_cons_self, rfl⟩
          · have hput : ∀ {other : γ},
                (∃ pair ∈ put moment.now conn queue, pair.1 = other) →
                  ∃ pair ∈ (conn, time) :: queue, pair.1 = other := by
              rintro other ⟨pair, hpair, rfl⟩
              rcases List.mem_append.mp hpair with hpair | hsingle
              · exact ⟨pair, List.mem_cons_of_mem _ hpair, rfl⟩
              · obtain rfl := List.mem_singleton.mp hsingle
                exact ⟨_, List.mem_cons_self, rfl⟩
            obtain ⟨hgot, hleft⟩ := ih (place + 1) (put moment.now conn queue)
            exact ⟨fun other hother => hput (hgot other hother),
              fun pair hpair => hput (hleft pair hpair)⟩

theorem clean_subset (staleDuration now : ℕ) (queue : Queue γ) :
    clean staleDuration now queue ⊆ queue :=
  (List.dropWhile_sublist _).subset

end HostConnectionPool

/-- `ConnectionPool`, where the queues are found by some key. -/
structure ConnectionPool (κ γ : Type) where
  hostToPool : OrderedDict κ (Queue γ)
  lastCleanTime : ℕ
  staleDuration : ℕ

namespace ConnectionPool

variable {κ γ : Type} [DecidableEq κ]

/-- `CLEAN_INTERVAL`. -/
def cleanInterval : ℕ := 5

/-- `__init__`. -/
def init (staleDuration : ℕ) : ConnectionPool κ γ where
  hostToPool := OrderedDict.empty
  lastCleanTime := 0
  staleDuration := staleDuration

/-- `clean`. -/
def clean (now : ℕ) (pool : ConnectionPool κ γ) : ConnectionPool κ γ :=
  if pool.lastCleanTime + cleanInterval < now then
    { pool with
      hostToPool := (pool.hostToPool.mapValues
        (HostConnectionPool.clean pool.staleDuration now)).filter fun _ queue => !queue.isEmpty
      lastCleanTime := now }
  else pool

/-- `get_http_connection`. -/
def getHttpConnection (moment : Moment) (key : κ) (pool : ConnectionPool κ γ) :
    Option γ × ConnectionPool κ γ :=
  let pool := pool.clean moment.now
  match pool.hostToPool.get? key with
  | none => (none, pool)
  | some queue =>
      let (conn, queue) := HostConnectionPool.get pool.staleDuration moment queue
      (conn, { pool with hostToPool := pool.hostToPool.set key queue })

/-- `put_http_connection`. -/
def putHttpConnection (now : ℕ) (key : κ) (conn : γ) (pool : ConnectionPool κ γ) :
    ConnectionPool κ γ :=
  let queue := (pool.hostToPool.get? key).getD []
  { pool with hostToPool := pool.hostToPool.set key (HostConnectionPool.put now conn queue) }

/-- A connection is stored under a key. -/
def Stores (pool : ConnectionPool κ γ) (key : κ) (conn : γ) : Prop :=
  ∃ queue, pool.hostToPool.get? key = some queue ∧ ∃ pair ∈ queue, pair.1 = conn

variable {pool : ConnectionPool κ γ} {key other : κ} {conn : γ} {now : ℕ} {moment : Moment}

theorem not_stores_init {staleDuration : ℕ} : ¬(init staleDuration).Stores key conn := by
  rintro ⟨queue, hqueue, -⟩
  cases hqueue

theorem Stores.of_clean (hstores : (pool.clean now).Stores key conn) :
    pool.Stores key conn := by
  obtain ⟨queue, hqueue, pair, hpair, rfl⟩ := hstores
  rw [clean] at hqueue
  split at hqueue
  · obtain ⟨item, hitem, heq⟩ := List.mem_map.mp
      (List.mem_of_mem_filter (OrderedDict.get?_eq_some_iff.mp hqueue))
    cases heq
    exact ⟨item.2, OrderedDict.get?_eq_some_iff.mpr hitem, pair,
      HostConnectionPool.clean_subset _ _ _ hpair, rfl⟩
  · exact ⟨queue, hqueue, pair, hpair, rfl⟩

/-- What is got was stored under the key, and what is left was stored before. -/
theorem getHttpConnection_spec (moment : Moment) (key : κ) (pool : ConnectionPool κ γ) :
    (∀ conn ∈ (pool.getHttpConnection moment key).1, pool.Stores key conn) ∧
      ∀ other conn, (pool.getHttpConnection moment key).2.Stores other conn →
        pool.Stores other conn := by
  rw [getHttpConnection]
  dsimp only
  cases hqueue : (pool.clean moment.now).hostToPool.get? key with
  | none => exact ⟨nofun, fun other conn hstores => hstores.of_clean⟩
  | some queue =>
      have hclean := HostConnectionPool.clean_subset (pool.clean moment.now).staleDuration
        moment.now queue
      obtain ⟨hgot, hleft⟩ := HostConnectionPool.getLoop_subset moment
        (HostConnectionPool.clean (pool.clean moment.now).staleDuration moment.now queue).length 0
        (HostConnectionPool.clean (pool.clean moment.now).staleDuration moment.now queue)
      refine ⟨?_, ?_⟩
      · intro conn hconn
        obtain ⟨pair, hpair, rfl⟩ := hgot conn hconn
        exact Stores.of_clean ⟨queue, hqueue, pair, hclean hpair, rfl⟩
      · rintro other conn ⟨rest, hrest, pair, hpair, rfl⟩
        dsimp only at hrest
        rw [OrderedDict.get?_set] at hrest
        split at hrest
        · rename_i heq
          cases hrest
          subst heq
          obtain ⟨old, hold, heq⟩ := hleft pair hpair
          exact Stores.of_clean ⟨queue, hqueue, old, hclean hold, heq⟩
        · exact Stores.of_clean ⟨rest, hrest, pair, hpair, rfl⟩

/-- One more connection is stored. -/
theorem stores_putHttpConnection {added : γ}
    (hstores : (pool.putHttpConnection now key added).Stores other conn) :
    other = key ∧ conn = added ∨ pool.Stores other conn := by
  obtain ⟨queue, hqueue, pair, hpair, rfl⟩ := hstores
  rw [putHttpConnection] at hqueue
  dsimp only at hqueue
  rw [OrderedDict.get?_set] at hqueue
  split at hqueue
  · rename_i heq
    cases hqueue
    subst heq
    rcases List.mem_append.mp hpair with hpair | hsingle
    · cases hold : pool.hostToPool.get? other with
      | none =>
          rw [hold] at hpair
          cases hpair
      | some old =>
          rw [hold] at hpair
          exact .inr ⟨old, hold, pair, hpair, rfl⟩
    · obtain rfl := List.mem_singleton.mp hsingle
      exact .inl ⟨rfl, rfl⟩
  · exact .inr ⟨queue, hqueue, pair, hpair, rfl⟩

end ConnectionPool

end Boto.Connection
