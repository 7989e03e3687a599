import Boto.Connection.Pool
import Mathlib.Data.List.Induction

/-!
# Pools over time

Any calls on a pool and on the pools of its hosts, at times that do not go back.  The queue
of a host stays in the order of the times, and every connection that was put is handed out
once, is dropped because it is stale, or waits.
-/

namespace Boto.Connection

/-- A call on a pool, or on the host's pool of a key, which is made if there is none. -/
inductive PoolAction (κ γ : Type)
  /-- `put_http_connection`, and `put`. -/
  | put (key : κ) (conn : γ)
  /-- `get_http_connection`. -/
  | getHttp (key : κ)
  /-- `get`. -/
  | get (key : κ)
  /-- `ConnectionPool.clean`. -/
  | cleanAll
  /-- `HostConnectionPool.clean`. -/
  | clean (key : κ)

/-- A call and when it is made. -/
structure PoolCall (κ γ : Type) extends Moment where
  action : PoolAction κ γ

section

variable {κ γ : Type} [DecidableEq κ]

namespace PoolAction

/-- The connections that a call puts under a key. -/
def added (key : κ) : PoolAction κ γ → List γ
  | .put other conn => if other = key then [conn] else []
  | _ => []

/-- The call asks for a connection of a key. -/
def asks (key : κ) : PoolAction κ γ → Bool
  | .getHttp other => other = key
  | .get other => other = key
  | _ => false

end PoolAction

namespace ConnectionPool

/-- The queue of a key. -/
def queueOf (pool : ConnectionPool κ γ) (key : κ) : Queue γ :=
  (pool.hostToPool.get? key).getD []

/-- What a call returns and leaves. -/
def perform (call : PoolCall κ γ) (pool : ConnectionPool κ γ) :
    Option γ × ConnectionPool κ γ :=
  match call.action with
  | .put key conn => (none, pool.putHttpConnection call.now key conn)
  | .getHttp key => pool.getHttpConnection call.toMoment key
  | .get key =>
      let (conn, queue) := HostConnectionPool.get pool.staleDuration call.toMoment
        (pool.queueOf key)
      (conn, { pool with hostToPool := pool.hostToPool.set key queue })
  | .cleanAll => (none, pool.clean call.now)
  | .clean key =>
      (none, { pool with
        hostToPool := pool.hostToPool.set key
          (HostConnectionPool.clean pool.staleDuration call.now (pool.queueOf key)) })

/-- A pool after some calls. -/
def after (calls : List (PoolCall κ γ)) (pool : ConnectionPool κ γ) : ConnectionPool κ γ :=
  calls.foldl (fun pool call => (pool.perform call).2) pool

/-- The connections of a key that a call hands out. -/
def handed (key : κ) (call : PoolCall κ γ) (pool : ConnectionPool κ γ) : List γ :=
  if call.action.asks key then (pool.perform call).1.toList else []

/-- The connections of a key that some calls hand out. -/
def allHanded (key : κ) : List (PoolCall κ γ) → ConnectionPool κ γ → List γ
  | [], _ => []
  | call :: calls, pool => pool.handed key call ++ allHanded key calls (pool.perform call).2

end ConnectionPool

namespace PoolCall

/-- The times of the calls do not go back. -/
def InOrder (calls : List (PoolCall κ γ)) : Prop :=
  calls.Pairwise fun call later => call.now ≤ later.now

/-- The connections that some calls put under a key. -/
def allAdded (key : κ) (calls : List (PoolCall κ γ)) : List γ :=
  calls.flatMap fun call => call.action.added key

end PoolCall

end

/-! ## One queue -/

namespace HostConnectionPool

variable {γ : Type} {staleDuration now place : ℕ} {moment : Moment} {queue rotated : Queue γ}

/-- The queue is in the order of the times. -/
def Sorted (queue : Queue γ) : Prop :=
  queue.Pairwise fun pair later => pair.2 ≤ later.2

/-- The connections that are not stale. -/
def fresh (staleDuration now : ℕ) (queue : Queue γ) : Queue γ :=
  queue.filter fun pair => !pairStale staleDuration now pair

theorem clean_eq_fresh (hsorted : Sorted queue) :
    clean staleDuration now queue = fresh staleDuration now queue := by
  induction queue with
  | nil => rfl
  | cons pair queue ih =>
      obtain ⟨hle, hrest⟩ := List.pairwise_cons.mp hsorted
      by_cases hstale : pairStale staleDuration now pair = true
      · rw [clean, List.dropWhile_cons_of_pos hstale, fresh,
          List.filter_cons_of_neg (by simp [hstale])]
        exact ih hrest
      · have hall : ∀ later ∈ pair :: queue, (!pairStale staleDuration now later) = true := by
          intro later hlater
          rw [pairStale, decide_eq_true_iff] at hstale
          rw [Bool.not_eq_true', pairStale, decide_eq_false_iff_not]
          rcases List.mem_cons.mp hlater with rfl | hlater
          · exact hstale
          · have := hle later hlater
            omega
        rw [clean, List.dropWhile_cons_of_neg hstale, fresh, List.filter_eq_self.mpr hall]

theorem Sorted.fresh (hsorted : Sorted queue) : Sorted (fresh staleDuration now queue) :=
  List.Pairwise.filter _ hsorted

@[simp] theorem fresh_fresh :
    fresh staleDuration now (fresh staleDuration now queue) = fresh staleDuration now queue := by
  rw [fresh, fresh, List.filter_filter]
  simp

theorem get_clean (hsorted : Sorted queue) :
    get staleDuration moment (clean staleDuration moment.now queue) =
      get staleDuration moment queue := by
  rw [get, get, clean_eq_fresh hsorted, clean_eq_fresh hsorted.fresh, fresh_fresh]

/-- What the loop of `get` does to the connections that it still has to look at. -/
theorem getLoop_eq (waiting : Queue γ) :
    (∃ earlier conn time later, waiting = earlier ++ (conn, time) :: later ∧
      moment.isReady (place + earlier.length) = true ∧
      getLoop moment waiting.length place (waiting ++ rotated) =
        (some conn, later ++ rotated ++ earlier.map fun pair => (pair.1, moment.now))) ∨
    (∀ i < waiting.length, moment.isReady (place + i) = false) ∧
      getLoop moment waiting.length place (waiting ++ rotated) =
        (none, rotated ++ waiting.map fun pair => (pair.1, moment.now)) := by
  induction waiting generalizing place rotated with
  | nil => exact .inr ⟨nofun, by simp [getLoop]⟩
  | cons pair waiting ih =>
      obtain ⟨conn, time⟩ := pair
      rw [List.length_cons, List.cons_append, getLoop]
      cases hready : moment.isReady place with
      | true => exact .inl ⟨[], conn, time, waiting, rfl, hready, by simp⟩
      | false =>
          rw [if_neg Bool.false_ne_true, put, List.append_assoc]
          rcases @ih (place + 1) (rotated ++ [(conn, moment.now)]) with
            ⟨earlier, got, since, later, rfl, hgot, hloop⟩ | ⟨hnone, hloop⟩
          · refine .inl ⟨(conn, time) :: earlier, got, since, later, rfl, ?_, ?_⟩
            · rw [List.length_cons, Nat.add_comm earlier.length, ← Nat.add_assoc]
              exact hgot
            · rw [hloop]
              simp
          · refine .inr ⟨?_, ?_⟩
            · intro i hi
              cases i with
              | zero => exact hready
              | succ i =>
                  have := hnone i (Nat.lt_of_succ_lt_succ hi)
                  rwa [Nat.add_right_comm, Nat.add_assoc] at this
            · rw [hloop]
              simp

/-- What `get` returns is fresh and ready, and there is nothing to return only if nothing
fresh is ready. -/
theorem get_spec (hsorted : Sorted queue) :
    (∃ earlier conn time later,
      fresh staleDuration moment.now queue = earlier ++ (conn, time) :: later ∧
      moment.isReady earlier.length = true ∧
      get staleDuration moment queue =
        (some conn, later ++ earlier.map fun pair => (pair.1, moment.now))) ∨
    (∀ i < (fresh staleDuration moment.now queue).length, moment.isReady i = false) ∧
      get staleDuration moment queue =
        (none, (fresh staleDuration moment.now queue).map fun pair => (pair.1, moment.now)) := by
  have hloop := @getLoop_eq γ 0 moment [] (fresh staleDuration moment.now queue)
  simp only [Nat.zero_add, List.append_nil, List.nil_append] at hloop
  rw [get, clean_eq_fresh hsorted]
  exact hloop

/-- What a call does to a queue: the order is kept, and every connection is accounted for. -/
structure Accounts (staleDuration now : ℕ) (queue : Queue γ) (added handed : List γ)
    (rest : Queue γ) : Prop where
  sorted : Sorted rest
  bounded : ∀ pair ∈ rest, pair.2 ≤ now
  kept : ∃ dropped : Queue γ,
    (∀ pair ∈ dropped, pair ∈ queue ∧ pairStale staleDuration now pair = true) ∧
    (queue.map Prod.fst ++ added).Perm
      (handed ++ dropped.map Prod.fst ++ rest.map Prod.fst)

theorem mem_fresh {pair : γ × ℕ} (hpair : pair ∈ fresh staleDuration now queue) :
    pair ∈ queue :=
  (List.mem_filter.mp hpair).1

theorem perm_fresh : (queue.map Prod.fst).Perm
    ((queue.filter (pairStale staleDuration now)).map Prod.fst ++
      (fresh staleDuration now queue).map Prod.fst) := by
  rw [← List.map_append]
  exact (List.filter_append_perm _ _).symm.map _

/-- Connections with the present time go to the end. -/
theorem sorted_append_now {waiting : Queue γ} (hsorted : Sorted waiting)
    (hbounded : ∀ pair ∈ waiting, pair.2 ≤ now) (conns : List γ) :
    Sorted (waiting ++ conns.map fun conn => (conn, now)) ∧
      ∀ pair ∈ waiting ++ conns.map fun conn => (conn, now), pair.2 ≤ now := by
  have hnow : ∀ pair ∈ conns.map fun conn => (conn, now), pair.2 = now := by
    intro pair hpair
    obtain ⟨conn, -, rfl⟩ := List.mem_map.mp hpair
    rfl
  refine ⟨List.pairwise_append.mpr ⟨hsorted, ?_, ?_⟩, ?_⟩
  · exact List.pairwise_of_forall_mem_list fun pair hpair later hlater =>
      Nat.le_of_eq ((hnow pair hpair).trans (hnow later hlater).symm)
  · intro pair hpair later hlater
    rw [hnow later hlater]
    exact hbounded pair hpair
  · intro pair hpair
    rcases List.mem_append.mp hpair with hpair | hlast
    · exact hbounded pair hpair
    · exact Nat.le_of_eq (hnow pair hlast)

section

variable (hsorted : Sorted queue) (hbounded : ∀ pair ∈ queue, pair.2 ≤ now)

include hsorted hbounded

theorem accounts_same : Accounts staleDuration now queue [] [] queue :=
  ⟨hsorted, hbounded, [], nofun, by simp⟩

theorem accounts_put (conn : γ) :
    Accounts staleDuration now queue [conn] [] (put now conn queue) := by
  obtain ⟨hput, hle⟩ := sorted_append_now hsorted hbounded [conn]
  exact ⟨hput, hle, [], nofun, by simp [put]⟩

theorem accounts_clean :
    Accounts staleDuration now queue [] [] (clean staleDuration now queue) := by
  rw [clean_eq_fresh hsorted]
  refine ⟨hsorted.fresh, fun pair hpair => hbounded pair (mem_fresh hpair),
    queue.filter (pairStale staleDuration now), fun pair hpair => List.mem_filter.mp hpair, ?_⟩
  rw [List.append_nil, List.nil_append]
  exact perm_fresh

end

theorem accounts_get (hsorted : Sorted queue) (hbounded : ∀ pair ∈ queue, pair.2 ≤ moment.now) :
    Accounts staleDuration moment.now queue [] (get staleDuration moment queue).1.toList
      (get staleDuration moment queue).2 := by
  have hdropped : ∀ pair ∈ queue.filter (pairStale staleDuration moment.now),
      pair ∈ queue ∧ pairStale staleDuration moment.now pair = true :=
    fun pair hpair => List.mem_filter.mp hpair
  have hfresh : Sorted (fresh staleDuration moment.now queue) := hsorted.fresh
  have hle : ∀ pair ∈ fresh staleDuration moment.now queue, pair.2 ≤ moment.now :=
    fun pair hpair => hbounded pair (mem_fresh hpair)
  have hperm := @perm_fresh γ staleDuration moment.now queue
  rcases @get_spec γ staleDuration moment queue hsorted with
    ⟨earlier, conn, time, later, hsplit, -, hget⟩ | ⟨-, hget⟩
  · rw [hsplit] at hfresh hle hperm
    have hlater : Sorted later :=
      (List.pairwise_cons.mp (List.pairwise_append.mp hfresh).2.1).2
    obtain ⟨hrest, hbound⟩ := sorted_append_now hlater
      (fun pair hpair => hle pair (List.mem_append_right _ (List.mem_cons_of_mem _ hpair)))
      (earlier.map Prod.fst)
    rw [List.map_map] at hrest hbound
    rw [hget]
    refine ⟨hrest, hbound, _, hdropped, ?_⟩
    rw [List.append_nil]
    refine hperm.trans ?_
    rw [List.map_append, List.map_cons, List.map_append, List.map_map]
    exact (List.perm_middle.append_left _).trans
      (List.perm_middle.trans (((List.perm_append_comm).append_left _).cons _))
  · have hnil : ∀ pair ∈ ([] : Queue γ), pair.2 ≤ moment.now := nofun
    obtain ⟨hrest, hbound⟩ := sorted_append_now List.Pairwise.nil hnil
      ((fresh staleDuration moment.now queue).map Prod.fst)
    rw [List.map_map, List.nil_append] at hrest hbound
    rw [hget]
    refine ⟨hrest, hbound, _, hdropped, ?_⟩
    rw [List.append_nil, Option.toList_none, List.nil_append, List.map_map]
    exact hperm

end HostConnectionPool

/-! ## All the queues -/

namespace ConnectionPool

open HostConnectionPool (Sorted Accounts pairStale)

variable {κ γ : Type} [DecidableEq κ] {pool : ConnectionPool κ γ} {key other : κ}
  {moment : Moment} {now : ℕ} {queue : Queue γ} {call : PoolCall κ γ} {calls : List (PoolCall κ γ)}

theorem queueOf_set : ({ pool with hostToPool := pool.hostToPool.set key queue } :
    ConnectionPool κ γ).queueOf other = if other = key then queue else pool.queueOf other := by
  rw [queueOf, OrderedDict.get?_set]
  split
  · rfl
  · rfl

/-- The pool is cleaned only now and then. -/
theorem queueOf_clean : (pool.clean now).queueOf key = pool.queueOf key ∨
    (pool.clean now).queueOf key =
      HostConnectionPool.clean pool.staleDuration now (pool.queueOf key) := by
  rw [clean]
  split
  · refine .inr ?_
    rw [queueOf, queueOf, OrderedDict.get?_filter, OrderedDict.get?_mapValues]
    cases pool.hostToPool.get? key with
    | none => rfl
    | some queue =>
        rw [Option.map_some, Option.filter_some, Option.getD_some]
        cases HostConnectionPool.clean pool.staleDuration now queue with
        | nil => rfl
        | cons pair queue => rfl
  · exact .inl rfl

omit [DecidableEq κ] in
@[simp] theorem staleDuration_clean : (pool.clean now).staleDuration = pool.staleDuration := by
  rw [clean]
  split <;> rfl

/-- The pool of a host answers as if the pool had not been cleaned before. -/
theorem getHttpConnection_eq (hsorted : Sorted (pool.queueOf key)) :
    (pool.getHttpConnection moment key).1 =
        (HostConnectionPool.get pool.staleDuration moment (pool.queueOf key)).1 ∧
      (pool.getHttpConnection moment key).2.queueOf key =
        (HostConnectionPool.get pool.staleDuration moment (pool.queueOf key)).2 := by
  have hget : HostConnectionPool.get pool.staleDuration moment (pool.queueOf key) =
      HostConnectionPool.get pool.staleDuration moment ((pool.clean moment.now).queueOf key) := by
    rcases @queueOf_clean κ γ _ pool key moment.now with heq | heq
    · rw [heq]
    · rw [heq, HostConnectionPool.get_clean hsorted]
  rw [hget, getHttpConnection, staleDuration_clean]
  cases hqueue : (pool.clean moment.now).hostToPool.get? key with
  | none =>
      have hnil : (pool.clean moment.now).queueOf key = [] := by
        rw [queueOf, hqueue, Option.getD_none]
      rw [hnil]
      exact ⟨rfl, rfl⟩
  | some queue =>
      have hsame : (pool.clean moment.now).queueOf key = queue := by
        rw [queueOf, hqueue, Option.getD_some]
      rw [hsame]
      exact ⟨rfl, queueOf_set.trans (if_pos rfl)⟩

theorem queueOf_getHttpConnection (hne : other ≠ key) :
    (pool.getHttpConnection moment key).2.queueOf other =
      (pool.clean moment.now).queueOf other := by
  rw [getHttpConnection]
  cases (pool.clean moment.now).hostToPool.get? key with
  | none => rfl
  | some queue => exact queueOf_set.trans (if_neg hne)

theorem staleDuration_perform : (pool.perform call).2.staleDuration = pool.staleDuration := by
  rw [perform]
  split
  · rfl
  · rw [getHttpConnection]
    dsimp only
    split <;> exact staleDuration_clean
  · rfl
  · exact staleDuration_clean
  · rfl

section

variable (hsorted : Sorted (pool.queueOf key))
  (hbounded : ∀ pair ∈ pool.queueOf key, pair.2 ≤ now)

include hsorted hbounded

theorem accounts_cleanAll : Accounts pool.staleDuration now (pool.queueOf key) [] []
    ((pool.clean now).queueOf key) := by
  rcases @queueOf_clean κ γ _ pool key now with heq | heq
  · rw [heq]
    exact HostConnectionPool.accounts_same hsorted hbounded
  · rw [heq]
    exact HostConnectionPool.accounts_clean hsorted hbounded

end

/-- What a call does to the queue of a key. -/
theorem accounts_perform (hsorted : Sorted (pool.queueOf key))
    (hbounded : ∀ pair ∈ pool.queueOf key, pair.2 ≤ call.now) :
    Accounts pool.staleDuration call.now (pool.queueOf key) (call.action.added key)
      (pool.handed key call) ((pool.perform call).2.queueOf key) := by
  obtain ⟨moment, action⟩ := call
  cases action with
  | put given conn =>
      have hrest : (pool.perform ⟨moment, .put given conn⟩).2.queueOf key =
          if key = given then
            HostConnectionPool.put moment.now conn (pool.queueOf given)
          else pool.queueOf key := queueOf_set
      change Accounts pool.staleDuration moment.now _ (if given = key then [conn] else []) [] _
      rw [hrest]
      by_cases heq : given = key
      · subst heq
        rw [if_pos rfl, if_pos rfl]
        exact HostConnectionPool.accounts_put hsorted hbounded conn
      · rw [if_neg heq, if_neg (Ne.symm heq)]
        exact HostConnectionPool.accounts_same hsorted hbounded
  | getHttp given =>
      change Accounts pool.staleDuration moment.now _ []
        (if decide (given = key) = true then (pool.getHttpConnection moment given).1.toList else [])
        ((pool.getHttpConnection moment given).2.queueOf key)
      by_cases heq : given = key
      · subst heq
        obtain ⟨hgot, hrest⟩ := @getHttpConnection_eq κ γ _ pool given moment hsorted
        rw [if_pos (decide_eq_true rfl), hgot, hrest]
        exact HostConnectionPool.accounts_get hsorted hbounded
      · rw [if_neg (by simpa using heq), queueOf_getHttpConnection (Ne.symm heq)]
        exact accounts_cleanAll hsorted hbounded
  | get given =>
      have hrest : (pool.perform ⟨moment, .get given⟩).2.queueOf key =
          if key = given then
            (HostConnectionPool.get pool.staleDuration moment (pool.queueOf given)).2
          else pool.queueOf key := queueOf_set
      change Accounts pool.staleDuration moment.now _ []
        (if decide (given = key) = true then
          (HostConnectionPool.get pool.staleDuration moment (pool.queueOf given)).1.toList
        else []) _
      rw [hrest]
      by_cases heq : given = key
      · subst heq
        rw [if_pos (decide_eq_true rfl), if_pos rfl]
        exact HostConnectionPool.accounts_get hsorted hbounded
      · rw [if_neg (by simpa using heq), if_neg (Ne.symm heq)]
        exact HostConnectionPool.accounts_same hsorted hbounded
  | cleanAll => exact accounts_cleanAll hsorted hbounded
  | clean given =>
      have hrest : (pool.perform ⟨moment, .clean given⟩).2.queueOf key =
          if key = given then
            HostConnectionPool.clean pool.staleDuration moment.now (pool.queueOf given)
          else pool.queueOf key := queueOf_set
      change Accounts pool.staleDuration moment.now _ [] [] _
      rw [hrest]
      by_cases heq : given = key
      · subst heq
        rw [if_pos rfl]
        exact HostConnectionPool.accounts_clean hsorted hbounded
      · rw [if_neg (Ne.symm heq)]
        exact HostConnectionPool.accounts_same hsorted hbounded

/-- What a call for a connection of a key returns. -/
theorem perform_of_asks (hsorted : Sorted (pool.queueOf key))
    (hasks : call.action.asks key = true) :
    (pool.perform call).1 =
      (HostConnectionPool.get pool.staleDuration call.toMoment (pool.queueOf key)).1 := by
  obtain ⟨moment, action⟩ := call
  cases action with
  | put given conn => cases hasks
  | getHttp given =>
      obtain rfl : given = key := of_decide_eq_true hasks
      exact (getHttpConnection_eq hsorted).1
  | get given =>
      obtain rfl : given = key := of_decide_eq_true hasks
      rfl
  | cleanAll => cases hasks
  | clean given => cases hasks

theorem after_concat : pool.after (calls ++ [call]) = ((pool.after calls).perform call).2 := by
  rw [after, List.foldl_append]
  rfl

theorem allHanded_concat : allHanded key (calls ++ [call]) pool =
    allHanded key calls pool ++ (pool.after calls).handed key call := by
  induction calls generalizing pool with
  | nil => exact List.append_nil _
  | cons first calls ih =>
      rw [List.cons_append, allHanded, ih, allHanded, List.append_assoc]
      rfl

theorem allAdded_concat : PoolCall.allAdded key (calls ++ [call]) =
    PoolCall.allAdded key calls ++ call.action.added key := by
  rw [PoolCall.allAdded, List.flatMap_append, List.flatMap_singleton, PoolCall.allAdded]

/-- A connection was stale in the queue of a key when a call was made. -/
def WasStale (pool : ConnectionPool κ γ) (calls : List (PoolCall κ γ)) (key : κ) (conn : γ) :
    Prop :=
  ∃ earlier call later time, calls = earlier ++ call :: later ∧
    (conn, time) ∈ (pool.after earlier).queueOf key ∧
    pairStale pool.staleDuration call.now (conn, time) = true

theorem WasStale.concat {conn : γ} (hstale : pool.WasStale calls key conn) :
    pool.WasStale (calls ++ [call]) key conn := by
  obtain ⟨earlier, stale, later, time, rfl, hmem, htime⟩ := hstale
  exact ⟨earlier, stale, later ++ [call], time, by simp, hmem, htime⟩

/-- After some calls a queue is in order, and every connection is accounted for. -/
theorem accounts_after (hempty : pool.queueOf key = []) (horder : PoolCall.InOrder calls) :
    (pool.after calls).staleDuration = pool.staleDuration ∧
    Sorted ((pool.after calls).queueOf key) ∧
    (∀ pair ∈ (pool.after calls).queueOf key, ∃ call ∈ calls, pair.2 ≤ call.now) ∧
    ∃ dropped, (PoolCall.allAdded key calls).Perm
        (allHanded key calls pool ++ dropped ++ ((pool.after calls).queueOf key).map Prod.fst) ∧
      ∀ conn ∈ dropped, pool.WasStale calls key conn := by
  induction calls using List.reverseRecOn with
  | nil =>
      refine ⟨rfl, ?_, ?_, [], ?_, nofun⟩
      · exact hempty ▸ List.Pairwise.nil
      · exact hempty ▸ nofun
      · rw [after, List.foldl_nil, hempty]
        rfl
  | append_singleton calls call ih =>
      obtain ⟨hearlier, -, hlast⟩ := List.pairwise_append.mp horder
      obtain ⟨hstale, hsorted, htimes, dropped, hperm, hdropped⟩ := ih hearlier
      have hbounded : ∀ pair ∈ (pool.after calls).queueOf key, pair.2 ≤ call.now := by
        intro pair hpair
        obtain ⟨earlier, hmem, hle⟩ := htimes pair hpair
        exact Nat.le_trans hle (hlast earlier hmem call (List.mem_singleton_self call))
      obtain ⟨hafter, hnow, now, hnew, hkept⟩ := accounts_perform hsorted hbounded
      rw [after_concat, allHanded_concat, allAdded_concat]
      refine ⟨staleDuration_perform.trans hstale, hafter, ?_, dropped ++ now.map Prod.fst, ?_, ?_⟩
      · intro pair hpair
        exact ⟨call, List.mem_append_right _ (List.mem_singleton_self call), hnow pair hpair⟩
      · refine (hperm.append_right _).trans ?_
        rw [List.append_assoc (allHanded key calls pool ++ dropped)]
        refine (hkept.append_left _).trans ?_
        simp only [List.append_assoc]
        exact (List.perm_append_comm_assoc _ _ _).append_left _
      · intro conn hconn
        rcases List.mem_append.mp hconn with hold | hnow
        · exact (hdropped conn hold).concat
        · obtain ⟨pair, hpair, rfl⟩ := List.mem_map.mp hnow
          obtain ⟨hmem, htime⟩ := hnew pair hpair
          rw [hstale] at htime
          exact ⟨calls, call, [], pair.2, rfl, hmem, htime⟩

/-- In every run of a pool the queues are in the order of time, what is returned is fresh and
ready, nothing is returned only if nothing fresh is ready, and every connection that was put
was handed out once, was dropped when it was stale, or waits. -/
theorem pool_is_safe (staleDuration : ℕ) (calls : List (PoolCall κ γ))
    (horder : PoolCall.InOrder calls) (key : κ) :
    Sorted (((init staleDuration).after calls).queueOf key) ∧
    (∀ call : PoolCall κ γ, PoolCall.InOrder (calls ++ [call]) →
      HostConnectionPool.clean staleDuration call.now
          (((init staleDuration).after calls).queueOf key) =
        HostConnectionPool.fresh staleDuration call.now
          (((init staleDuration).after calls).queueOf key) ∧
      (call.action.asks key = true →
        (∀ conn, (((init staleDuration).after calls).perform call).1 = some conn →
          ∃ place time, (HostConnectionPool.fresh staleDuration call.now
              (((init staleDuration).after calls).queueOf key))[place]? = some (conn, time) ∧
            call.isReady place = true) ∧
        ((((init staleDuration).after calls).perform call).1 = none →
          ∀ place pair, (HostConnectionPool.fresh staleDuration call.now
              (((init staleDuration).after calls).queueOf key))[place]? = some pair →
            call.isReady place = false))) ∧
    ∃ dropped, (PoolCall.allAdded key calls).Perm
        (allHanded key calls (init staleDuration) ++ dropped ++
          (((init staleDuration).after calls).queueOf key).map Prod.fst) ∧
      ∀ conn ∈ dropped, (init staleDuration).WasStale calls key conn := by
  obtain ⟨hstale, hsorted, -, hdropped⟩ :=
    @accounts_after κ γ _ (init staleDuration) key calls rfl horder
  refine ⟨hsorted, ?_, hdropped⟩
  intro call _
  refine ⟨HostConnectionPool.clean_eq_fresh hsorted, fun hasks => ?_⟩
  have hduration : ((init staleDuration).after calls : ConnectionPool κ γ).staleDuration =
      staleDuration := hstale
  rw [perform_of_asks hsorted hasks, hduration]
  rcases @HostConnectionPool.get_spec γ staleDuration call.toMoment _ hsorted with
    ⟨earlier, conn, time, later, hsplit, hready, hget⟩ | ⟨hnone, hget⟩
  · rw [hget, hsplit]
    refine ⟨?_, nofun⟩
    intro got hgot
    cases hgot
    exact ⟨earlier.length, time, by simp, hready⟩
  · rw [hget]
    refine ⟨nofun, ?_⟩
    intro _ place pair hplace
    obtain ⟨hlt, -⟩ := List.getElem?_eq_some_iff.mp hplace
    exact hnone place hlt

/-- A put and a get that does not find the connection ready. -/
theorem pool_is_safe_waiting :
    ∃ dropped : List Bool,
      (PoolCall.allAdded 80 [⟨⟨0, fun _ => false⟩, .put 80 true⟩,
          ⟨⟨30, fun _ => false⟩, .getHttp 80⟩]).Perm
        (allHanded 80 [⟨⟨0, fun _ => false⟩, .put 80 true⟩, ⟨⟨30, fun _ => false⟩, .getHttp 80⟩]
            (init 60) ++ dropped ++
          (((init 60).after [⟨⟨0, fun _ => false⟩, .put 80 true⟩,
            ⟨⟨30, fun _ => false⟩, .getHttp 80⟩]).queueOf 80).map Prod.fst) ∧
      ∀ conn ∈ dropped, (init 60).WasStale [⟨⟨0, fun _ => false⟩, .put 80 true⟩,
        ⟨⟨30, fun _ => false⟩, .getHttp 80⟩] 80 conn :=
  (pool_is_safe 60 [⟨⟨0, fun _ => false⟩, .put 80 true⟩, ⟨⟨30, fun _ => false⟩, .getHttp 80⟩]
    (by simp [PoolCall.InOrder]) 80).2.2

end ConnectionPool

end Boto.Connection
