import Boto.CloudSearch2.Document
import Mathlib.Data.List.Induction

/-!
# Which commits are checked against what they send

A commit counts the documents that were added, also where it sends an SDF from S3.  So it is
checked against what it sends exactly if such an SDF has the same numbers of operations.
-/

namespace Boto.CloudSearch2

open DocumentServiceConnection (Outcome)

/-! ## Histories -/

theorem sinceClear_append (before : List Action) (action : Action) :
    sinceClear (before ++ [action]) =
      if action.isClear = true then [] else sinceClear before ++ [action] := by
  rw [sinceClear, List.reverse_append, List.reverse_singleton, List.singleton_append,
    List.takeWhile_cons]
  cases action.isClear with
  | true => rfl
  | false => exact List.reverse_cons

theorem addedSince_append (before : List Action) (action : Action) :
    addedSince (before ++ [action]) =
      if action.isClear = true then [] else addedSince before ++ action.operation?.toList := by
  rw [addedSince, addedSince, sinceClear_append]
  split
  · rfl
  · rw [List.filterMap_append]
    cases action <;> rfl

theorem loadedSince_append (before : List Action) (action : Action) :
    loadedSince (before ++ [action]) =
      if action.isClear = true then none else action.loaded?.or (loadedSince before) := by
  rw [loadedSince, loadedSince, sinceClear_append]
  split
  · rfl
  · rw [List.filterMap_append]
    cases hloaded : action.loaded? with
    | none => simp [hloaded]
    | some sdf => simp [hloaded]

theorem run_append (before : List Action) (action : Action) :
    run (before ++ [action]) = (run before).step action := by
  rw [run, List.foldl_append]
  rfl

/-- The connection keeps the documents and the SDF since the last clear. -/
theorem run_eq (before : List Action) :
    run before = ⟨addedSince before, (loadedSince before).map StoredSdf.content⟩ := by
  induction before using List.reverseRecOn with
  | nil => rfl
  | append_singleton before action ih =>
      rw [run_append, ih, addedSince_append, loadedSince_append]
      cases action with
      | add id fields => rfl
      | delete id => rfl
      | clearSdf => rfl
      | addSdfFromS3 sdf =>
          rw [DocumentServiceConnection.step, DocumentServiceConnection.addSdfFromS3]
          simp [Action.isClear, Action.operation?, Action.loaded?]
      | commit =>
          rw [DocumentServiceConnection.step]
          simp [Action.isClear, Action.operation?, Action.loaded?]

theorem StoredSdf.content_ne_nil (sdf : StoredSdf) : sdf.content ≠ [] := by
  intro hempty
  have hread := sdf.read
  rw [hempty] at hread
  have hnone : sdfItems (.bytes []) = none := by decide
  rw [hnone] at hread
  cases hread

/-- The SDF is the one that is asked for. -/
theorem getSdf_run (before : List Action) : (run before).getSdf = askedSdf before := by
  rw [run_eq, DocumentServiceConnection.getSdf, askedSdf]
  cases loadedSince before with
  | none => rfl
  | some sdf =>
      have hempty : (!sdf.content.isEmpty) = true := by
        rw [Bool.not_eq_true', List.isEmpty_eq_false_iff]
        exact sdf.content_ne_nil
      rw [Option.map_some, Option.filter_some, if_pos hempty]

/-! ## Checks -/

theorem checkNumOps_eq_ok_iff {documentsBatch : List Operation} {errors : List (Option Text)}
    {type : OperationType} {responseNum : ℤ} :
    checkNumOps documentsBatch errors type responseNum = .ok () ↔
      responseNum = documentsBatch.countP fun d => d.type = type := by
  rw [checkNumOps]
  split
  · rename_i hne
    exact iff_of_false (fun heq => nomatch heq) hne
  · rename_i hsame
    exact iff_of_true rfl (not_not.mp hsame)

theorem isMismatch_of_checkNumOps {documentsBatch : List Operation}
    {errors : List (Option Text)} {type : OperationType} {responseNum : ℤ} {e : CommitError}
    (hcheck : checkNumOps documentsBatch errors type responseNum = .error e) :
    e.isMismatch = true := by
  rw [checkNumOps] at hcheck
  split at hcheck
  · cases hcheck
    rfl
  · cases hcheck

section

variable {documentsBatch : List Operation} {statusCode : ℕ} {status : Text} {adds deletes : ℤ}

/-- A response without an error is checked for both numbers. -/
theorem init_reports (sdf : Data) :
    CommitResponse.init (reports statusCode status adds deletes sdf) documentsBatch = do
      checkNumOps documentsBatch [] .add adds
      checkNumOps documentsBatch [] .delete deletes
      return ⟨status, [], adds, deletes⟩ := by
  have herrors : ∀ (c : Prop) [Decidable c], (if c then ([] : List (Option Text)) else []) = [] :=
    fun c _ => ite_self []
  unfold CommitResponse.init reports
  dsimp only [bind, Except.bind]
  rw [herrors]
  rfl

/-- A response is taken if it reports the numbers of the documents, and else it is a mismatch. -/
theorem init_reports_cases (sdf : Data) :
    (adds = (documentsBatch.countP fun d => d.type = .add) ∧
      deletes = (documentsBatch.countP fun d => d.type = .delete) ∧
        CommitResponse.init (reports statusCode status adds deletes sdf) documentsBatch =
          .ok ⟨status, [], adds, deletes⟩) ∨
      ¬(adds = (documentsBatch.countP fun d => d.type = .add) ∧
        deletes = (documentsBatch.countP fun d => d.type = .delete)) ∧
        ∃ e, CommitResponse.init (reports statusCode status adds deletes sdf) documentsBatch =
          .error e ∧ e.isMismatch = true := by
  rw [init_reports]
  cases hadds : checkNumOps documentsBatch [] .add adds with
  | error e =>
      have hne : ¬adds = (documentsBatch.countP fun d => d.type = .add) := fun heq => by
        rw [checkNumOps_eq_ok_iff.mpr heq] at hadds
        cases hadds
      exact .inr ⟨fun h => hne h.1, e, rfl, isMismatch_of_checkNumOps hadds⟩
  | ok _ =>
      have haddsEq := checkNumOps_eq_ok_iff.mp hadds
      cases hdeletes : checkNumOps documentsBatch [] .delete deletes with
      | error e =>
          have hne : ¬deletes = (documentsBatch.countP fun d => d.type = .delete) := fun heq => by
            rw [checkNumOps_eq_ok_iff.mpr heq] at hdeletes
            cases hdeletes
          exact .inr ⟨fun h => hne h.2, e, rfl, isMismatch_of_checkNumOps hdeletes⟩
      | ok _ => exact .inl ⟨haddsEq, checkNumOps_eq_ok_iff.mp hdeletes, rfl⟩

end

/-! ## What is sent -/

theorem itemType_toJson (d : Operation) : itemType d.toJson = some d.type := by
  cases d <;> rfl

theorem haveNumbers_toJson (documentsBatch : List Operation) :
    Json.haveNumbers (documentsBatch.map Operation.toJson) = true := by
  induction documentsBatch with
  | nil => rfl
  | cons d documentsBatch ih =>
      rw [List.map_cons, Json.haveNumbers, ih, Bool.and_true]
      cases d with
      | add id fields =>
          simp [Operation.toJson, Json.hasNumbers, Json.membersHaveNumbers, fields.numbers]
      | delete id => rfl

theorem parse_dumps (documentsBatch : List Operation) :
    Json.parse (Json.dumps separators (.array (documentsBatch.map Operation.toJson))) =
      some (.array (documentsBatch.map Operation.toJson)) := by
  have hblank : separators.AreBlank :=
    ⟨Json.isBlank_singleton (by decide), Json.isBlank_singleton (by decide)⟩
  exact Json.parse_of_reads
    (@Json.reads_dumps separators hblank (.array (documentsBatch.map Operation.toJson))
      (haveNumbers_toJson documentsBatch))

/-- The SDF of documents has their operations. -/
theorem numOps_dumps (type : OperationType) (documentsBatch : List Operation) :
    numOps type (.text (Json.dumps separators (.array (documentsBatch.map Operation.toJson)))) =
      documentsBatch.countP fun d => d.type = type := by
  have hitems : sdfItems (.text (Json.dumps separators
      (.array (documentsBatch.map Operation.toJson)))) =
        some (documentsBatch.map Operation.toJson) := by
    rw [sdfItems]
    simp only [Option.bind_eq_bind, Option.bind_some, parse_dumps]
  rw [numOps, hitems, Option.getD_some, List.countP_map]
  refine List.countP_congr fun d _ => ?_
  rw [Function.comp_apply, itemType_toJson]
  simp

/-! ## Commits -/

section

variable {version : PyVersion} {before : List Action} {statusCode : ℕ} {status : Text}
variable {adds deletes : ℤ}

/-- A commit without bytes for Python 3 sends what is asked for. -/
theorem commit_run (hversion : (loadedSince before).isSome = true → version = .py2)
    (respond : Data → Response) :
    (run before).commit version respond =
      ⟨some (askedSdf before),
        CommitResponse.init (respond (askedSdf before)) (addedSince before)⟩ := by
  have hsdf := getSdf_run before
  have hbatch : (run before).documentsBatch = addedSince before := by rw [run_eq]
  unfold DocumentServiceConnection.commit
  rw [hsdf, hbatch]
  cases version with
  | py2 => rfl
  | py3 =>
      cases hloaded : loadedSince before with
      | none =>
          have htext : askedSdf before = .text (Json.dumps separators
              (.array ((addedSince before).map Operation.toJson))) := by
            unfold askedSdf
            rw [hloaded]
          rw [htext]
      | some sdf =>
          rw [hloaded] at hversion
          cases hversion rfl

/-- The numbers that are counted are those of what is sent exactly under the condition. -/
theorem loadedIsCounted_iff :
    LoadedIsCounted version before ↔
      ((loadedSince before).isSome = true → version = .py2) ∧
        ∀ type : OperationType, numOps type (askedSdf before) =
          (addedSince before).countP fun d => d.type = type := by
  rw [LoadedIsCounted, askedSdf]
  cases hloaded : loadedSince before with
  | none =>
      refine iff_of_true nofun ⟨nofun, fun type => ?_⟩
      exact numOps_dumps type (addedSince before)
  | some sdf =>
      constructor
      · intro hcounted
        obtain ⟨hversion, hnumbers⟩ := hcounted sdf rfl
        exact ⟨fun _ => hversion, hnumbers⟩
      · rintro ⟨hversion, hnumbers⟩ other hother
        obtain rfl := Option.some.inj hother
        exact ⟨hversion rfl, hnumbers⟩

theorem isChecked_of_counted (hcounted : LoadedIsCounted version before) :
    IsChecked version before statusCode status adds deletes := by
  obtain ⟨hversion, hnumbers⟩ := loadedIsCounted_iff.mp hcounted
  have hcommit := commit_run hversion (reports statusCode status adds deletes)
  have hcases := @init_reports_cases (addedSince before) statusCode status adds deletes
    (askedSdf before)
  rw [← hnumbers .add, ← hnumbers .delete] at hcases
  constructor
  · rw [hcommit]
  · rw [hcommit, Outcome.isMismatch]
    rcases hcases with ⟨hadds, hdeletes, hok⟩ | ⟨hne, e, herror, hmismatch⟩
    · rw [hok]
      refine iff_of_false Bool.false_ne_true ?_
      rintro (hne | hne)
      · exact hne hadds
      · exact hne hdeletes
    · rw [herror]
      exact iff_of_true hmismatch (not_and_or.mp hne)
  · intro hadds hdeletes
    rw [hcommit]
    rcases hcases with ⟨-, -, hok⟩ | ⟨hne, -⟩
    · rw [hok]
      rfl
    · exact absurd ⟨hadds, hdeletes⟩ hne

theorem counted_of_isChecked
    (hchecked : IsChecked version before statusCode status
      ((addedSince before).countP fun d => d.type = .add)
      ((addedSince before).countP fun d => d.type = .delete)) :
    LoadedIsCounted version before := by
  obtain ⟨hsent, hmismatch, -⟩ := hchecked
  have hversion : (loadedSince before).isSome = true → version = .py2 := by
    intro hloaded
    obtain ⟨sdf, hsdf⟩ := Option.isSome_iff_exists.mp hloaded
    cases version with
    | py2 => rfl
    | py3 =>
        have hbytes : askedSdf before = .bytes sdf.content := by
          unfold askedSdf
          rw [hsdf]
        unfold DocumentServiceConnection.commit at hsent
        rw [getSdf_run, hbytes] at hsent
        cases hsent
  rw [commit_run hversion, Outcome.isMismatch] at hmismatch
  rcases @init_reports_cases (addedSince before) statusCode status _ _ (askedSdf before) with ⟨-, -, hok⟩ | ⟨hne, -⟩
  · rw [hok] at hmismatch
    have hboth := not_or.mp (mt hmismatch.mpr Bool.false_ne_true)
    rw [not_not, not_not] at hboth
    refine loadedIsCounted_iff.mpr ⟨hversion, fun type => ?_⟩
    cases type with
    | add => exact (Int.ofNat_inj.mp hboth.1).symm
    | delete => exact (Int.ofNat_inj.mp hboth.2).symm
  · exact absurd ⟨rfl, rfl⟩ hne

end

/-- The commits of a run are checked against what they send exactly if every SDF from S3 that is
committed has the numbers of operations that were added. -/
theorem commitsChecked_iff (version : PyVersion) (actions : List Action) :
    CommitsChecked version actions ↔
      ∀ before after, actions = before ++ .commit :: after → LoadedIsCounted version before := by
  constructor
  · intro hchecked before after hactions
    exact counted_of_isChecked (hchecked before after hactions 200 [] _ _)
  · intro hcounted before after hactions statusCode status adds deletes
    exact isChecked_of_counted (hcounted before after hactions)

/-- An SDF with one deletion. -/
def deletionSdf : StoredSdf where
  content := encodeUtf8
    (Json.dumps separators (.array ([Operation.delete ['1']].map Operation.toJson)))
  items := [Operation.delete ['1']].map Operation.toJson
  read := by
    unfold sdfItems
    simp only [Auth.decodeUtf8_encodeUtf8, Except.toOption, Option.bind_eq_bind, Option.bind_some,
      parse_dumps]
  types := by decide

/-- A deletion that is loaded from S3 is not counted. -/
theorem not_commitsChecked : ¬ ∀ (version : PyVersion) (actions : List Action),
    CommitsChecked version actions := by
  intro hclaim
  have hchecked := hclaim .py2 [.addSdfFromS3 deletionSdf, .commit]
    [.addSdfFromS3 deletionSdf] [] rfl 200 "success".toList 0 0
  have hcounted : LoadedIsCounted .py2 [.addSdfFromS3 deletionSdf] :=
    counted_of_isChecked hchecked
  have hnumber := (hcounted deletionSdf rfl).2 .delete
  rw [numOps, deletionSdf.read] at hnumber
  revert hnumber
  decide

end Boto.CloudSearch2
