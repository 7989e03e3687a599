import Boto.Provider

/-!
# Where the credentials of a provider come from

A credential is marked with its source, and `get_credentials` is run on marked credentials;
the marks make no difference to what it finds.  An access key, a secret key and a token are each
looked up on their own, so they are of one source exactly when the lookups happen to end at the
same place.
-/

namespace Boto.Credentials

open EStateM

/-! ## Marked credentials -/

/-- A source of credentials.  A keyring is one only for a secret key without an access key. -/
inductive Source
  | passed
  | environment
  | shared (sectionName : Text)
  | config (sectionName : Text)
  | keyring
  | metadata
  deriving DecidableEq, Repr

/-- A credential with its source. -/
abbrev Marked := Source × Text

/-- The source of what is looked up in a keyring. -/
def keyringSource (accessKey : Option Marked) : Source := accessKey.elim .keyring Prod.fst

def Arguments.marked (args : Arguments Text) : Arguments Marked where
  accessKey := mark .passed args.accessKey
  secretKey := mark .passed args.secretKey
  securityToken := mark .passed args.securityToken
  profileName := args.profileName

def Sources.marked (sources : Sources Text) : Sources Marked where
  environ variableName := mark .environment (sources.environ variableName)
  shared sectionName keyName := mark (.shared sectionName) (sources.shared sectionName keyName)
  config sectionName keyName := mark (.config sectionName) (sources.config sectionName keyName)
  getPassword := sources.getPassword.map fun getPassword keyringName accessKey =>
    mark (keyringSource accessKey) (getPassword keyringName (accessKey.map Prod.snd))

/-- A metadata server, as a source. -/
def markedServer (server : ℕ → Metadata Text) (n : ℕ) : Metadata Marked :=
  (server n).marked .metadata

/-- A new provider, before it gets the credentials. -/
def World.start {α : Type} (args : Arguments α) (anon : Bool) (clock : ℕ → ℤ)
    (server : ℕ → Metadata α) : World α where
  self := .init args anon
  clock := clock
  readings := 0
  server := server
  requests := 0

/-! ## What is promised -/

/-- What is promised of the credentials of a provider: they are of one source, and what was
passed in is kept. -/
structure OfOneSource (args : Arguments Text) (provider : Provider Marked) : Prop where
  sameSecret : ∀ a s, provider.accessKey = some a → provider.secretKey = some s → s.1 = a.1
  sameToken : ∀ a s t, provider.accessKey = some a → provider.secretKey = some s →
    provider.securityToken = some t → t.1 = a.1
  keepsAccess : ∀ value, args.accessKey = some value →
    provider.accessKey = some (.passed, value)
  keepsSecret : ∀ value, args.secretKey = some value →
    provider.secretKey = some (.passed, value)
  keepsToken : ∀ value, args.securityToken = some value →
    provider.securityToken = some (.passed, value)

/-! ## The order of the sources -/

section

variable (name : ProviderName) (sources : Sources Text) (args : Arguments Text)
  (profileName : Option Text)

/-- The section of the boto config. -/
def configSection : Text := profileName.elim credentialsSection profileSection

/-- The sources of a key, the first one first. -/
def places (passed : Option Text) (keyName : Text) : List (Option Marked) :=
  [mark .passed passed,
    mark .environment (sources.environ (upper keyName)),
    mark (.shared (profileName.getD defaultSection))
      (sources.shared (profileName.getD defaultSection) keyName),
    mark (.config (configSection profileName))
      (sources.config (configSection profileName) keyName)]

/-- The sources of a token that was not passed in, the first one first. -/
def tokenPlaces (tokenName : Text) : List (Option Marked) :=
  [mark .environment (sources.environ (upper tokenName)),
    mark (.shared (tokenSection profileName))
      (sources.shared (tokenSection profileName) tokenName),
    mark (.config (configSection profileName))
      (sources.config (configSection profileName) tokenName)]

/-- The first source that has the access key. -/
def firstAccessKey : Option Marked :=
  (places sources profileName args.accessKey (credentialMap name).accessKey).findSome? id

/-- The secret key of the keyring, as one of the source of the access key. -/
def keyringSecretKey : Option Marked :=
  match sources.config credentialsSection "keyring".toList, sources.getPassword with
  | some keyringName, some getPassword =>
      let accessKey := firstAccessKey name sources args profileName
      mark (keyringSource accessKey) (getPassword keyringName (accessKey.map Prod.snd))
  | _, _ => none

/-- The first source that has the secret key. -/
def firstSecretKey : Option Marked :=
  ((places sources profileName args.secretKey (credentialMap name).secretKey).findSome? id).or
    (keyringSecretKey name sources args profileName)

/-- The first source that has the token, of those that are asked. -/
def firstSecurityToken : Option Marked :=
  match args.securityToken, (credentialMap name).securityToken with
  | some token, _ => some (.passed, token)
  | none, none => none
  | none, some tokenName =>
      if args.accessKey = none ∧ args.secretKey = none then
        (tokenPlaces sources profileName tokenName).findSome? id
      else none

/-- The condition under which the credentials are of one source: the first source that has an
access key is the first one that has a secret key and no other source is the first to have a
token; or a key is missing, and nothing was passed in or the metadata server has no
credentials. -/
def SourcesAgree (metadata : Metadata Text) : Prop :=
  match firstAccessKey name sources args profileName,
    firstSecretKey name sources args profileName with
  | some accessKey, some secretKey =>
      secretKey.1 = accessKey.1 ∧
        ∀ token, firstSecurityToken name sources args profileName = some token →
          token.1 = accessKey.1
  | _, _ =>
      metadataServiceSupport name = true → (∃ credentials, metadata = .role credentials) →
        args.accessKey = none ∧ args.secretKey = none ∧ args.securityToken = none

end

/-! ## The lookups -/

section

variable {name : ProviderName} {sources : Sources Text} {args : Arguments Text}
  {profileName : Option Text} {world : World Marked}

theorem effectiveProfile_marked :
    effectiveProfile name Prod.snd sources.marked profileName =
      effectiveProfile name id sources profileName := by
  cases profileName with
  | some profileName => rfl
  | none =>
      rw [effectiveProfile, effectiveProfile]
      dsimp only [Sources.marked]
      cases (credentialMap name).profile with
      | none => rfl
      | some variableName =>
          dsimp only
          cases sources.environ (upper variableName) <;> rfl

/-- A key is looked up in the order of the sources. -/
theorem findKey_marked {passed : Option Text} {keyName : Text} :
    findKey sources.marked (mark .passed passed) keyName profileName =
      match (places sources profileName passed keyName).findSome? id, profileName with
      | some key, _ => .ok (some key)
      | none, some profileName => .error (.profileNotFound profileName)
      | none, none => .ok none := by
  rw [findKey.eq_def, places]
  dsimp only [Sources.marked]
  cases passed with
  | some key => rfl
  | none =>
      cases sources.environ (upper keyName) with
      | some key => rfl
      | none =>
          cases profileName with
          | some profileName =>
              dsimp only [Option.getD_some, configSection, Option.elim_some]
              cases sources.shared profileName keyName with
              | some key => rfl
              | none => cases sources.config (profileSection profileName) keyName <;> rfl
          | none =>
              dsimp only [Option.getD_none, configSection, Option.elim_none]
              cases sources.shared defaultSection keyName with
              | some key => rfl
              | none => cases sources.config credentialsSection keyName <;> rfl

theorem findToken_marked {tokenName : Text} :
    findToken sources.marked tokenName profileName =
      (tokenPlaces sources profileName tokenName).findSome? id := by
  rw [findToken.eq_def, tokenPlaces]
  dsimp only [Sources.marked]
  cases sources.environ (upper tokenName) with
  | some token => rfl
  | none =>
      cases sources.shared (tokenSection profileName) tokenName with
      | some token => rfl
      | none =>
          cases profileName with
          | some profileName =>
              dsimp only [configSection, Option.elim_some]
              cases sources.config (profileSection profileName) tokenName <;> rfl
          | none =>
              dsimp only [configSection, Option.elim_none]
              cases sources.config credentialsSection tokenName <;> rfl

/-- What was passed in is found first. -/
theorem findSome?_places {passed : Option Text} {keyName value : Text}
    (hpassed : passed = some value) :
    (places sources profileName passed keyName).findSome? id = some (.passed, value) := by
  rw [hpassed]
  rfl

/-! ## The parts of `get_credentials` -/

theorem passed_none_of_findSome? {passed : Option Text} {keyName : Text}
    (hfirst : (places sources profileName passed keyName).findSome? id = none) :
    passed = none := by
  cases hpassed : passed with
  | none => rfl
  | some value =>
      rw [findSome?_places hpassed] at hfirst
      cases hfirst

theorem findAccessKey_returns (hself : world.self.accessKey = mark .passed args.accessKey) :
    ((findAccessKey name sources.marked args.marked profileName).run world).Meets
      (fun _ world' => world' = { world with
        self := { world.self with
          accessKey := firstAccessKey name sources args profileName } })
      fun _ _ => True := by
  rw [findAccessKey, firstAccessKey]
  dsimp only [Arguments.marked]
  rw [findKey_marked]
  cases hfirst : (places sources profileName args.accessKey
      (credentialMap name).accessKey).findSome? id with
  | some key => rfl
  | none =>
      cases profileName with
      | some profileName => trivial
      | none =>
          rw [passed_none_of_findSome? hfirst] at hself
          show world = _
          rw [← hself.trans mark_none]

/-- A provider whose credentials do not expire reads its properties at once. -/
theorem run_getProperty_of_none {field : Provider Marked → Option Marked}
    (hexpiry : world.self.credentialExpiryTime = none) :
    (getProperty field).run world = .ok (field world.self) world := by
  rw [getProperty, run_bind, credentialsNeedRefresh, run_bind, run_get]
  dsimp only
  rw [hexpiry]
  cases world.self.anon <;> rfl

theorem findSecretKey_returns (hself : world.self.secretKey = mark .passed args.secretKey)
    (haccess : world.self.accessKey = firstAccessKey name sources args profileName)
    (hexpiry : world.self.credentialExpiryTime = none) :
    ((findSecretKey name Prod.snd sources.marked args.marked profileName).run world).Meets
      (fun _ world' => world' = { world with
        self := { world.self with
          secretKey := firstSecretKey name sources args profileName } })
      fun _ _ => True := by
  rw [findSecretKey, firstSecretKey]
  dsimp only [Arguments.marked]
  rw [findKey_marked]
  cases hfirst : (places sources profileName args.secretKey
      (credentialMap name).secretKey).findSome? id with
  | some key => rfl
  | none =>
      cases profileName with
      | some profileName => trivial
      | none =>
          rw [passed_none_of_findSome? hfirst] at hself
          rw [ofExcept_ok_bind, Option.none_or, keyringSecretKey]
          dsimp only [Sources.marked]
          cases sources.config credentialsSection "keyring".toList with
          | none =>
              show world = _
              rw [← hself.trans mark_none]
          | some keyringName =>
              cases sources.getPassword with
              | none => trivial
              | some getPassword =>
                  dsimp only [mark_some, Option.map_some]
                  rw [run_bind, getAccessKey, run_getProperty_of_none hexpiry, ← haccess]
                  rfl

theorem findSecurityToken_returns
    (hself : world.self.securityToken = mark .passed args.securityToken) :
    ((findSecurityToken name sources.marked args.marked profileName).run world).Meets
      (fun _ world' => world' = { world with
        self := { world.self with
          securityToken := firstSecurityToken name sources args profileName } })
      fun _ _ => True := by
  rw [findSecurityToken.eq_def, firstSecurityToken.eq_def]
  dsimp only [Arguments.marked]
  cases hpassed : args.securityToken with
  | some token => rfl
  | none =>
      rw [hpassed] at hself
      have hkept : world = { world with self := { world.self with securityToken := none } } := by
        rw [← hself.trans mark_none]
      cases (credentialMap name).securityToken with
      | none => exact hkept
      | some tokenName =>
          have hasked : (mark Source.passed args.accessKey).isNone = true ∧
              (mark Source.passed args.secretKey).isNone = true ↔
                args.accessKey = none ∧ args.secretKey = none := by
            rw [isNone_mark, isNone_mark, Option.isNone_iff_eq_none, Option.isNone_iff_eq_none]
          dsimp only [mark_none]
          rw [findToken_marked]
          by_cases hnone : args.accessKey = none ∧ args.secretKey = none
          · simp only [hasked, if_pos hnone]
            cases (tokenPlaces sources profileName tokenName).findSome? id with
            | some token => rfl
            | none => exact hkept
          · simp only [hasked, if_neg hnone]
            exact hkept

/-- The credentials after the lookups. -/
def lookedUp (name : ProviderName) (sources : Sources Text) (args : Arguments Text)
    (profileName : Option Text) (self : Provider Marked) : Provider Marked :=
  { self with
    accessKey := firstAccessKey name sources args profileName
    secretKey := firstSecretKey name sources args profileName
    securityToken := firstSecurityToken name sources args profileName }

/-- The metadata server replaces all credentials, or none. -/
theorem populateKeysFromMetadataServer_returns {metadata : Metadata Text}
    (hserver : world.server world.requests = metadata.marked Source.metadata) :
    (populateKeysFromMetadataServer.run world).Meets
      (fun _ world' => metadata = .nothing ∧ world'.self = world.self ∨
        ∃ credentials accessKey secretKey securityToken, metadata = .role credentials ∧
          world'.self.accessKey = some (.metadata, accessKey) ∧
          world'.self.secretKey = some (.metadata, secretKey) ∧
          world'.self.securityToken = some (.metadata, securityToken))
      fun _ _ => True := by
  rw [populateKeysFromMetadataServer, run_bind, run_get]
  dsimp only
  rw [run_bind, run_set]
  dsimp only
  rw [hserver]
  cases metadata with
  | nothing => exact .inl ⟨rfl, rfl⟩
  | raises => trivial
  | noDict received => trivial
  | role credentials =>
      obtain ⟨accessKeyId, secretAccessKey, token, expiration⟩ := credentials
      dsimp only [Metadata.marked, RoleCredentials.marked]
      cases accessKeyId with
      | none => trivial
      | some accessKey =>
          cases secretAccessKey with
          | none => trivial
          | some secretKey =>
              cases token with
              | none => trivial
              | some securityToken =>
                  cases expiration with
                  | none => trivial
                  | some expiresAt =>
                      cases expiresAt with
                      | none => trivial
                      | some time => exact .inr ⟨_, accessKey, secretKey, securityToken, rfl,
                          rfl, rfl, rfl⟩

theorem missing_iff {a s : Option Marked} :
    (a.isNone = true ∨ s.isNone = true) ↔ ¬(a.isSome = true ∧ s.isSome = true) := by
  cases a <;> cases s <;> simp

/-- What `get_credentials` returns with. -/
theorem getCredentials_returns {clock : ℕ → ℤ} {server : ℕ → Metadata Text} :
    ((getCredentials name Prod.snd sources.marked args.marked).run
        (.start args.marked false clock (markedServer server))).Meets
      (fun _ world' =>
        let found := lookedUp name sources args
          (effectiveProfile name id sources args.profileName) (.init args.marked false)
        world'.self = found ∧ ((found.accessKey.isSome ∧ found.secretKey.isSome) ∨
            metadataServiceSupport name = false ∨ server 0 = .nothing) ∨
          ¬(found.accessKey.isSome ∧ found.secretKey.isSome) ∧
            metadataServiceSupport name = true ∧
            ∃ credentials accessKey secretKey securityToken, server 0 = .role credentials ∧
              world'.self.accessKey = some (.metadata, accessKey) ∧
              world'.self.secretKey = some (.metadata, secretKey) ∧
              world'.self.securityToken = some (.metadata, securityToken))
      fun _ _ => True := by
  have hstart : (World.start args.marked false clock (markedServer server)).self.anon ≠
      true := Bool.false_ne_true
  rw [getCredentials, run_bind, run_get]
  dsimp only
  rw [if_neg hstart]
  rw [show args.marked.profileName = args.profileName from rfl, effectiveProfile_marked]
  refine meets_bind (findAccessKey_returns rfl) fun _ first hfirst => ?_
  refine meets_bind (findSecretKey_returns (by rw [hfirst]; rfl) (by rw [hfirst])
    (by rw [hfirst]; rfl)) fun _ second hsecond => ?_
  refine meets_bind (findSecurityToken_returns (by rw [hsecond, hfirst]; rfl))
    fun _ third hthird => ?_
  have hself : third.self = lookedUp name sources args
      (effectiveProfile name id sources args.profileName) (.init args.marked false) := by
    rw [hthird, hsecond, hfirst]
    rfl
  have hserver : third.server third.requests = (server 0).marked Source.metadata := by
    rw [hthird, hsecond, hfirst]
    rfl
  rw [run_bind, run_get]
  dsimp only
  rw [← hself]
  split
  · rename_i hmissing
    refine (populateKeysFromMetadataServer_returns hserver).mono (fun _ world' h => ?_)
      fun _ _ h => h
    rcases h with ⟨hnothing, hkept⟩ | hrole
    · exact .inl ⟨hkept, .inr (.inr hnothing)⟩
    · exact .inr ⟨missing_iff.mp hmissing.1, hmissing.2, hrole⟩
  · rename_i hfound
    rw [missing_iff] at hfound
    refine .inl ⟨rfl, ?_⟩
    by_cases hboth : third.self.accessKey.isSome = true ∧ third.self.secretKey.isSome = true
    · exact .inl hboth
    · exact .inr (.inl (Bool.eq_false_iff.mpr fun hsupport => hfound ⟨hboth, hsupport⟩))

end

/-! ## The marks make no difference -/

section

variable {name : ProviderName} {sources : Sources Text} {args : Arguments Text}
  {profileName : Option Text}

theorem unmarked_start {anon : Bool} {clock : ℕ → ℤ} {server : ℕ → Metadata Text} :
    (World.start args.marked anon clock (markedServer server)).unmarked =
      .start args anon clock server := by
  dsimp only [World.start, World.unmarked, Provider.init, Provider.unmarked, Arguments.marked,
    markedServer]
  simp only [map_snd_mark, unmarked_marked]

theorem findKey_unmarked {passed : Option Text} {keyName : Text} :
    findKey sources passed keyName profileName =
      (findKey sources.marked (mark .passed passed) keyName profileName).map
        (Option.map Prod.snd) := by
  rw [findKey.eq_def, findKey.eq_def]
  dsimp only [Sources.marked]
  cases passed with
  | some key => rfl
  | none =>
      cases sources.environ (upper keyName) with
      | some key => rfl
      | none =>
          cases profileName with
          | some profileName =>
              dsimp only
              cases sources.shared profileName keyName with
              | some key => rfl
              | none => cases sources.config (profileSection profileName) keyName <;> rfl
          | none =>
              dsimp only
              cases sources.shared defaultSection keyName with
              | some key => rfl
              | none => cases sources.config credentialsSection keyName <;> rfl

theorem findToken_unmarked {tokenName : Text} :
    findToken sources tokenName profileName =
      (findToken sources.marked tokenName profileName).map Prod.snd := by
  rw [findToken.eq_def, findToken.eq_def]
  dsimp only [Sources.marked]
  cases sources.environ (upper tokenName) with
  | some token => rfl
  | none =>
      cases sources.shared (tokenSection profileName) tokenName with
      | some token => rfl
      | none =>
          cases profileName with
          | some profileName =>
              dsimp only
              cases sources.config (profileSection profileName) tokenName <;> rfl
          | none =>
              dsimp only
              cases sources.config credentialsSection tokenName <;> rfl

theorem findAccessKey_mapsTo :
    MapsTo World.unmarked id (findAccessKey name sources.marked args.marked profileName)
      (findAccessKey name sources args profileName) := by
  rw [findAccessKey, findAccessKey, findKey_unmarked]
  dsimp only [Arguments.marked]
  cases findKey sources.marked (mark .passed args.accessKey) (credentialMap name).accessKey
      profileName with
  | error e => exact .throw
  | ok key =>
      dsimp only [Except.map]
      rw [ofExcept_ok_bind, ofExcept_ok_bind]
      cases key with
      | none => exact .pure rfl
      | some key => exact modifySelf_mapsTo fun _ => rfl

theorem findSecretKey_mapsTo :
    MapsTo World.unmarked id
      (findSecretKey name Prod.snd sources.marked args.marked profileName)
      (findSecretKey name id sources args profileName) := by
  rw [findSecretKey, findSecretKey, findKey_unmarked]
  dsimp only [Arguments.marked]
  cases findKey sources.marked (mark .passed args.secretKey) (credentialMap name).secretKey
      profileName with
  | error e => exact .throw
  | ok key =>
      dsimp only [Except.map]
      rw [ofExcept_ok_bind, ofExcept_ok_bind]
      cases key with
      | some key => exact modifySelf_mapsTo fun _ => rfl
      | none =>
          dsimp only [Sources.marked, Option.map_none]
          cases sources.config credentialsSection "keyring".toList with
          | none => exact .pure rfl
          | some keyringName =>
              cases sources.getPassword with
              | none => exact .throw
              | some getPassword =>
                  refine .bind (getProperty_mapsTo fun _ => rfl) fun accessKey =>
                    modifySelf_mapsTo fun self => ?_
                  dsimp only [Provider.unmarked]
                  rw [map_snd_mark]
                  rfl

theorem findSecurityToken_mapsTo :
    MapsTo World.unmarked id (findSecurityToken name sources.marked args.marked profileName)
      (findSecurityToken name sources args profileName) := by
  rw [findSecurityToken.eq_def, findSecurityToken.eq_def]
  dsimp only [Arguments.marked]
  cases args.securityToken with
  | some token => exact modifySelf_mapsTo fun _ => rfl
  | none =>
      cases (credentialMap name).securityToken with
      | none => exact .pure rfl
      | some tokenName =>
          dsimp only [mark_none]
          rw [findToken_unmarked]
          simp only [isNone_mark]
          split
          · cases findToken sources.marked tokenName profileName with
            | none => exact .pure rfl
            | some token => exact modifySelf_mapsTo fun _ => rfl
          · exact .pure rfl

/-- The credentials that are found are the marked ones without the marks. -/
theorem getCredentials_mapsTo :
    MapsTo World.unmarked id (getCredentials name Prod.snd sources.marked args.marked)
      (getCredentials name id sources args) := by
  refine .bind .get fun world => ?_
  have hprofile := @effectiveProfile_marked name sources args.profileName
  by_cases hanon : world.self.anon = true
  · rw [if_pos hanon, if_pos (show world.unmarked.self.anon = true from hanon)]
    exact .pure rfl
  · rw [if_neg hanon, if_neg (show ¬world.unmarked.self.anon = true from hanon)]
    dsimp only [Arguments.marked]
    rw [hprofile]
    refine .bind findAccessKey_mapsTo fun _ => .bind findSecretKey_mapsTo fun _ =>
      .bind findSecurityToken_mapsTo fun _ => .bind .get fun world => ?_
    dsimp only [World.unmarked, Provider.unmarked]
    simp only [Option.isNone_map]
    split
    · exact populateKeysFromMetadataServer_mapsTo
    · exact .pure rfl

end

section

variable {name : ProviderName} {sources : Sources Text} {args : Arguments Text}
  {profileName : Option Text} {world : World Marked}

/-! ## One source -/

/-- What was passed in is what is found. -/
theorem lookedUp_keeps {self : Provider Marked} :
    (∀ value, args.accessKey = some value →
        (lookedUp name sources args profileName self).accessKey = some (.passed, value)) ∧
      (∀ value, args.secretKey = some value →
        (lookedUp name sources args profileName self).secretKey = some (.passed, value)) ∧
      ∀ value, args.securityToken = some value →
        (lookedUp name sources args profileName self).securityToken = some (.passed, value) := by
  refine ⟨fun value hpassed => findSome?_places hpassed, fun value hpassed => ?_,
    fun value hpassed => ?_⟩
  · dsimp only [lookedUp]
    rw [firstSecretKey, findSome?_places hpassed]
    rfl
  · dsimp only [lookedUp]
    rw [firstSecurityToken.eq_def, hpassed]

/-- When credentials that were looked up are of one source. -/
theorem ofOneSource_lookedUp_iff {self : Provider Marked} :
    OfOneSource args (lookedUp name sources args profileName self) ↔
      ∀ a s, firstAccessKey name sources args profileName = some a →
        firstSecretKey name sources args profileName = some s →
        s.1 = a.1 ∧ ∀ t, firstSecurityToken name sources args profileName = some t →
          t.1 = a.1 := by
  obtain ⟨haccess, hsecret, htoken⟩ := @lookedUp_keeps name sources args profileName self
  constructor
  · intro hone a s ha hs
    exact ⟨hone.sameSecret a s ha hs, fun t ht => hone.sameToken a s t ha hs ht⟩
  · intro hagree
    exact ⟨fun a s ha hs => (hagree a s ha hs).1,
      fun a s t ha hs ht => (hagree a s ha hs).2 t ht, haccess, hsecret, htoken⟩

end

/-- Whenever the marked credentials of a new provider are found, they are of one source exactly
when the sources agree. -/
theorem marked_ofOneSource_iff (name : ProviderName) (sources : Sources Text)
    (args : Arguments Text) (clock : ℕ → ℤ) (server : ℕ → Metadata Text) (world' : World Marked)
    (hreturns : (getCredentials name Prod.snd sources.marked args.marked).run
      (.start args.marked false clock (markedServer server)) = .ok () world') :
    OfOneSource args world'.self ↔
      SourcesAgree name sources args (effectiveProfile name id sources args.profileName)
        (server 0) := by
  have hmeets := @getCredentials_returns name sources args clock server
  rw [hreturns] at hmeets
  rw [SourcesAgree]
  rcases hmeets with ⟨hself, hfound⟩ | ⟨hmissing, hsupport, credentials, accessKey, secretKey,
    securityToken, hserver, haccess, hsecret, htoken⟩
  · rw [hself, ofOneSource_lookedUp_iff]
    dsimp only [lookedUp] at hfound
    generalize firstAccessKey name sources args _ = access at hfound ⊢
    generalize firstSecretKey name sources args _ = secret at hfound ⊢
    have hvacuous : (metadataServiceSupport name = false ∨ server 0 = .nothing) →
        metadataServiceSupport name = true → (∃ credentials, server 0 = .role credentials) →
        args.accessKey = none ∧ args.secretKey = none ∧ args.securityToken = none := by
      rintro (hunsupported | hnothing) hsupport ⟨credentials, hrole⟩
      · rw [hunsupported] at hsupport
        cases hsupport
      · rw [hnothing] at hrole
        cases hrole
    cases access with
    | none =>
        refine iff_of_true (fun _ _ ha => ?_) (hvacuous (hfound.resolve_left fun h => ?_))
        · cases ha
        · cases h.1
    | some a =>
        cases secret with
        | none =>
            refine iff_of_true (fun _ _ _ hs => ?_) (hvacuous (hfound.resolve_left fun h => ?_))
            · cases hs
            · cases h.2
        | some s =>
            refine ⟨fun hagree => hagree a s rfl rfl, fun hagree a' s' ha hs => ?_⟩
            cases ha
            cases hs
            exact hagree
  · have hiff : OfOneSource args world'.self ↔
        args.accessKey = none ∧ args.secretKey = none ∧ args.securityToken = none := by
      constructor
      · intro hone
        have hnot : ∀ {field : Option Marked} {found : Text} {passed : Option Text},
            field = some (.metadata, found) →
            (∀ value, passed = some value → field = some (.passed, value)) → passed = none := by
          intro field found passed hfield hkeeps
          cases passed with
          | none => rfl
          | some value =>
              rw [hkeeps value rfl] at hfield
              cases hfield
        exact ⟨hnot haccess hone.keepsAccess, hnot hsecret hone.keepsSecret,
          hnot htoken hone.keepsToken⟩
      · rintro ⟨hnoAccess, hnoSecret, hnoToken⟩
        refine ⟨fun a s ha hs => ?_, fun a s t ha _ ht => ?_, fun value hv => ?_,
          fun value hv => ?_, fun value hv => ?_⟩
        · rw [haccess] at ha
          rw [hsecret] at hs
          cases ha
          cases hs
          rfl
        · rw [haccess] at ha
          rw [htoken] at ht
          cases ha
          cases ht
          rfl
        · rw [hnoAccess] at hv
          cases hv
        · rw [hnoSecret] at hv
          cases hv
        · rw [hnoToken] at hv
          cases hv
    rw [hiff]
    dsimp only [lookedUp] at hmissing
    generalize firstAccessKey name sources args _ = access at hmissing ⊢
    generalize firstSecretKey name sources args _ = secret at hmissing ⊢
    have hagree : (metadataServiceSupport name = true →
        (∃ credentials, server 0 = .role credentials) →
          args.accessKey = none ∧ args.secretKey = none ∧ args.securityToken = none) ↔
        args.accessKey = none ∧ args.secretKey = none ∧ args.securityToken = none :=
      ⟨fun h => h hsupport ⟨credentials, hserver⟩, fun h _ _ => h⟩
    cases access with
    | none => exact hagree.symm
    | some a =>
        cases secret with
        | none => exact hagree.symm
        | some s => exact absurd ⟨rfl, rfl⟩ hmissing

/-- What was passed in is of one source. -/
theorem ofOneSource_init {anon : Bool} (args : Arguments Text) :
    OfOneSource args (.init args.marked anon) := by
  have hpassed : ∀ {value : Option Text} {found : Marked}, mark .passed value = some found →
      found.1 = .passed := by
    intro value found hfound
    cases value with
    | none => cases hfound
    | some value =>
        cases hfound
        rfl
  dsimp only [Provider.init, Arguments.marked]
  refine ⟨fun a s ha hs => (hpassed hs).trans (hpassed ha).symm,
    fun a s t ha _ ht => (hpassed ht).trans (hpassed ha).symm, fun value hv => ?_,
    fun value hv => ?_, fun value hv => ?_⟩
  · exact congrArg (mark Source.passed) hv
  · exact congrArg (mark Source.passed) hv
  · exact congrArg (mark Source.passed) hv

/-- Whenever `get_credentials` returns for a new provider, its credentials are of one source and
keep what was passed in exactly when the provider is anonymous or the sources agree. -/
theorem credentials_ofOneSource_iff (name : ProviderName) (sources : Sources Text)
    (args : Arguments Text) (anon : Bool) (clock : ℕ → ℤ) (server : ℕ → Metadata Text)
    (world' : World Text)
    (hreturns : (getCredentials name id sources args).run (.start args anon clock server) =
      .ok () world') :
    ∃ marked : World Marked,
      (getCredentials name Prod.snd sources.marked args.marked).run
          (.start args.marked anon clock (markedServer server)) = .ok () marked ∧
        marked.unmarked = world' ∧
        (OfOneSource args marked.self ↔
          anon = true ∨ SourcesAgree name sources args
            (effectiveProfile name id sources args.profileName) (server 0)) := by
  have hmaps := @getCredentials_mapsTo name sources args
    (.start args.marked anon clock (markedServer server))
  rw [unmarked_start, hreturns] at hmaps
  cases hrun : (getCredentials name Prod.snd sources.marked args.marked).run
      (.start args.marked anon clock (markedServer server)) with
  | error e marked =>
      rw [hrun] at hmaps
      cases hmaps
  | ok _ marked =>
      rw [hrun] at hmaps
      have hworld : world' = marked.unmarked := by
        cases hmaps
        rfl
      refine ⟨marked, rfl, hworld.symm, ?_⟩
      cases anon with
      | false =>
          rw [marked_ofOneSource_iff name sources args clock server marked hrun]
          exact (or_iff_right Bool.false_ne_true).symm
      | true =>
          cases hrun
          exact iff_of_true (ofOneSource_init args) (.inl rfl)

/-- The names of environment variables. -/
def environment (accessKey secretKey : Option Text) (variableName : Text) : Option Text :=
  if variableName = "AWS_ACCESS_KEY_ID".toList then accessKey
  else if variableName = "AWS_SECRET_ACCESS_KEY".toList then secretKey
  else none

/-- Keys in the environment, and keys in the default section of the shared credentials. -/
def twoSources (accessKey secretKey : Option Text) : Sources Text where
  environ := environment accessKey secretKey
  shared sectionName keyName :=
    if sectionName = defaultSection then
      environment (some "shared access".toList) (some "shared secret".toList) (upper keyName)
    else none
  config _ _ := none
  getPassword := none

/-- Nothing is passed in. -/
def noArguments : Arguments Text where
  accessKey := none
  secretKey := none
  securityToken := none
  profileName := none

/-- Both keys are in the environment. -/
theorem credentials_ofOneSource_environment : ∃ marked : World Marked,
    (getCredentials .aws Prod.snd
        (twoSources (some "access".toList) (some "secret".toList)).marked noArguments.marked).run
        (.start noArguments.marked false (fun _ => 0) fun _ => .nothing) = .ok () marked ∧
      OfOneSource noArguments marked.self := by
  obtain ⟨marked, hrun, -, hiff⟩ := credentials_ofOneSource_iff .aws
    (twoSources (some "access".toList) (some "secret".toList)) noArguments false (fun _ => 0)
    (fun _ => .nothing) _ rfl
  refine ⟨marked, hrun, hiff.mpr (.inr ⟨rfl, fun token htoken => ?_⟩)⟩
  cases htoken

/-- The environment has the access key only, and the secret key is the one of the shared
credentials. -/
theorem credentials_mixed : ¬∀ (name : ProviderName) (sources : Sources Text)
    (args : Arguments Text) (clock : ℕ → ℤ) (server : ℕ → Metadata Text) (marked : World Marked),
    (getCredentials name Prod.snd sources.marked args.marked).run
        (.start args.marked false clock (markedServer server)) = .ok () marked →
      OfOneSource args marked.self := by
  intro hclaim
  have hone := hclaim .aws (twoSources (some "access".toList) none) noArguments (fun _ => 0)
    (fun _ => .nothing) _ rfl
  have hsame := hone.sameSecret (.environment, "access".toList)
    (.shared defaultSection, "shared secret".toList) rfl rfl
  cases hsame

end Boto.Credentials
