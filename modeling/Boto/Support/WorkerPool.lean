import Mathlib.Data.List.Perm.Basic
import Mathlib.Logic.Relation

/-!
# Workers that share a queue

Items wait in a queue, workers take them from it and deliver them when they are done.  What
is delivered is an arrangement of some of the items, and of all of them once nothing is left
to do.
-/

namespace WorkerPool

variable {ι : Type}

/-- The items that wait, the item that each worker holds, and those that were delivered. -/
structure Pool (ι : Type) where
  waiting : List ι
  workers : List (Option ι)
  delivered : List ι

/-- The pool before its workers start. -/
def initial (workers : ℕ) (items : List ι) : Pool ι where
  waiting := items
  workers := List.replicate workers none
  delivered := []

/-- A step of one worker. -/
inductive Step : Pool ι → Pool ι → Prop
  | take {item : ι} {waiting delivered : List ι} {before after : List (Option ι)} :
      Step ⟨item :: waiting, before ++ none :: after, delivered⟩
        ⟨waiting, before ++ some item :: after, delivered⟩
  | deliver {item : ι} {waiting delivered : List ι} {before after : List (Option ι)} :
      Step ⟨waiting, before ++ some item :: after, delivered⟩
        ⟨waiting, before ++ none :: after, delivered ++ [item]⟩

/-- The pools that some workers reach. -/
def Reachable (workers : ℕ) (items : List ι) (pool : Pool ι) : Prop :=
  Relation.ReflTransGen Step (initial workers items) pool

/-- Nothing is left to do. -/
def Pool.IsDone (pool : Pool ι) : Prop :=
  pool.waiting = [] ∧ ∀ worker ∈ pool.workers, worker = none

/-- All items, wherever they are. -/
def Pool.items (pool : Pool ι) : List ι :=
  pool.waiting ++ pool.workers.filterMap id ++ pool.delivered

variable {pool pool' : Pool ι} {workers : ℕ} {items : List ι}

theorem filterMap_busy (before after : List (Option ι)) (item : ι) :
    (before ++ some item :: after).filterMap id =
      before.filterMap id ++ item :: after.filterMap id := by
  simp

theorem filterMap_idle (before after : List (Option ι)) :
    (before ++ none :: after).filterMap id = before.filterMap id ++ after.filterMap id := by
  simp

theorem Step.items_perm (hstep : Step pool pool') : pool'.items.Perm pool.items := by
  cases hstep with
  | @take item waiting delivered before after =>
      refine List.Perm.append_right _ ?_
      dsimp only
      rw [filterMap_busy, filterMap_idle, ← List.append_assoc, List.cons_append,
        ← List.append_assoc]
      exact List.perm_middle
  | @deliver item waiting delivered before after =>
      rw [Pool.items, Pool.items, List.append_assoc, List.append_assoc]
      refine List.Perm.append_left _ ?_
      dsimp only
      rw [filterMap_busy, filterMap_idle, List.append_assoc, List.append_assoc,
        List.cons_append]
      refine List.Perm.append_left _ ?_
      rw [← List.append_assoc]
      exact List.perm_append_singleton _ _

theorem items_initial : (initial workers items).items = items := by
  have hidle : (List.replicate workers (none : Option ι)).filterMap id = [] := by
    rw [List.filterMap_replicate]
    rfl
  rw [Pool.items, initial, hidle, List.append_nil, List.append_nil]

/-- No run loses an item or makes one up. -/
theorem Reachable.items_perm (hreach : Reachable workers items pool) :
    pool.items.Perm items := by
  induction hreach with
  | refl => rw [items_initial]
  | tail _ hstep ih => exact hstep.items_perm.trans ih

/-- What is delivered is among the items, and nothing is delivered twice. -/
theorem Reachable.delivered_subperm (hreach : Reachable workers items pool) :
    pool.delivered.Subperm items :=
  (List.sublist_append_right _ _).subperm.trans hreach.items_perm.subperm

/-- When nothing is left to do, all items were delivered. -/
theorem Reachable.delivered_perm (hreach : Reachable workers items pool)
    (hdone : pool.IsDone) : pool.delivered.Perm items := by
  have hidle : pool.workers.filterMap id = [] :=
    List.filterMap_eq_nil_iff.mpr fun worker hworker => hdone.2 worker hworker
  have hperm := hreach.items_perm
  rwa [Pool.items, hdone.1, hidle] at hperm

theorem Step.workers_length (hstep : Step pool pool') :
    pool'.workers.length = pool.workers.length := by
  cases hstep <;> simp

/-- As long as something is left to do, some worker can go on. -/
theorem exists_step (hworkers : pool.workers ≠ []) (hdone : ¬pool.IsDone) :
    ∃ pool', Step pool pool' := by
  obtain ⟨waiting, workers, delivered⟩ := pool
  by_cases hidle : ∀ worker ∈ workers, worker = none
  · cases waiting with
    | nil => exact absurd ⟨rfl, hidle⟩ hdone
    | cons item waiting =>
        cases workers with
        | nil => exact absurd rfl hworkers
        | cons worker workers =>
            obtain rfl := hidle worker List.mem_cons_self
            exact ⟨_, @Step.take _ item waiting delivered [] workers⟩
  · obtain ⟨worker, hidle⟩ := not_forall.mp hidle
    obtain ⟨hworker, hbusy⟩ := Classical.not_imp.mp hidle
    obtain ⟨item, rfl⟩ := Option.ne_none_iff_exists'.mp hbusy
    obtain ⟨before, after, rfl⟩ := List.append_of_mem hworker
    exact ⟨_, Step.deliver⟩

/-- The steps that are left: two for each item that waits and one for each that is held. -/
def Pool.left (pool : Pool ι) : ℕ :=
  2 * pool.waiting.length + (pool.workers.filterMap id).length

theorem Step.left_lt (hstep : Step pool pool') : pool'.left < pool.left := by
  cases hstep with
  | take =>
      simp only [Pool.left, filterMap_busy, filterMap_idle, List.length_append,
        List.length_cons]
      omega
  | deliver =>
      simp only [Pool.left, filterMap_busy, filterMap_idle, List.length_append,
        List.length_cons]
      omega

/-- Every run of some workers can go on until all items are delivered. -/
theorem Reachable.exists_done (hworkers : 0 < workers) (hreach : Reachable workers items pool) :
    ∃ pool', Relation.ReflTransGen Step pool pool' ∧ pool'.IsDone := by
  have hlength : ∀ pool : Pool ι, Reachable workers items pool →
      pool.workers.length = workers := by
    intro pool hreach
    induction hreach with
    | refl => exact List.length_replicate
    | tail _ hstep ih => rw [hstep.workers_length, ih]
  induction hleft : pool.left using Nat.strongRecOn generalizing pool with
  | _ left ih =>
      by_cases hdone : pool.IsDone
      · exact ⟨pool, .refl, hdone⟩
      · have hne : pool.workers ≠ [] := by
          intro hempty
          have hnone := hlength pool hreach
          rw [hempty, List.length_nil] at hnone
          omega
        obtain ⟨next, hstep⟩ := exists_step hne hdone
        obtain ⟨last, hrun, hdone⟩ :=
          ih next.left (hleft ▸ hstep.left_lt) (hreach.tail hstep) rfl
        exact ⟨last, .head hstep hrun, hdone⟩

end WorkerPool
