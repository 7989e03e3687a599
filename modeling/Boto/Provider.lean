import Boto.Python
import Boto.Support.Programs
import Mathlib.Data.Int.Notation

/-!
# Providers

The credentials of `Provider` in `boto/provider.py`: where `get_credentials` looks for them, and
the properties that ask the metadata server again when the credentials are about to expire.

A credential is of any type that can be read as text, so that a credential may also carry where
it was found.  Times are in microseconds, and `str` of a key is the key.
-/

namespace Boto.Credentials

open EStateM

/-! ## What is outside of the provider -/

/-- Why the metadata of an instance is no use. -/
inductive MetadataProblem
  | expectedDict (received : Option Text)
  | missingKey (key : Text)
  deriving DecidableEq, Repr

/-- The exceptions of a provider; `noKey` is raised by a use of a key that is `None`. -/
inductive ProviderError
  | profileNotFound (profileName : Text)
  | importError
  | invalidInstanceMetadata (problem : MetadataProblem)
  | valueError
  | requestFailed
  | noKey
  deriving DecidableEq, Repr

/-- The credentials of the metadata server, any of which may be missing; an expiration that is
no date is `some none`. -/
structure RoleCredentials (α : Type) where
  accessKeyId : Option α
  secretAccessKey : Option α
  token : Option α
  expiration : Option (Option ℤ)

/-- What `get_instance_metadata` returns: `None` or nothing, or something for the first role; or
it raises. -/
inductive Metadata (α : Type)
  | nothing
  | raises
  | noDict (received : Option Text)
  | role (credentials : RoleCredentials α)

/-- The environment variables, the shared credentials, the boto config and the keyring, which
is `none` where the module is missing. -/
structure Sources (α : Type) where
  environ : Text → Option α
  shared : Text → Text → Option α
  config : Text → Text → Option α
  getPassword : Option (Text → Option α → Option α)

/-- The attributes of a provider. -/
structure Provider (α : Type) where
  accessKey : Option α
  secretKey : Option α
  securityToken : Option α
  anon : Bool
  credentialExpiryTime : Option ℤ

/-- A provider, the clock and the metadata server, with the number of readings and of requests
so far. -/
structure World (α : Type) where
  self : Provider α
  clock : ℕ → ℤ
  readings : ℕ
  server : ℕ → Metadata α
  requests : ℕ

/-- A step of a provider. -/
abbrev Use (α : Type) := EStateM ProviderError (World α)

variable {α : Type}

/-- Change the attributes of the provider. -/
def modifySelf (f : Provider α → Provider α) : Use α Unit :=
  modify fun world => { world with self := f world.self }

/-! ## The metadata server -/

/-- `_get_credentials_from_metadata`, for what the first role has. -/
def getCredentialsFromMetadata (credentials : RoleCredentials α) :
    Except ProviderError (α × α × α × Option ℤ) :=
  match credentials.accessKeyId with
  | none => .error (.invalidInstanceMetadata (.missingKey "AccessKeyId".toList))
  | some accessKey =>
      match credentials.secretAccessKey with
      | none => .error (.invalidInstanceMetadata (.missingKey "SecretAccessKey".toList))
      | some secretKey =>
          match credentials.token with
          | none => .error (.invalidInstanceMetadata (.missingKey "Token".toList))
          | some securityToken =>
              match credentials.expiration with
              | none => .error (.invalidInstanceMetadata (.missingKey "Expiration".toList))
              | some expiresAt => .ok (accessKey, secretKey, securityToken, expiresAt)

/-- `_populate_keys_from_metadata_server`. -/
def populateKeysFromMetadataServer : Use α Unit := do
  let world ← get
  set { world with requests := world.requests + 1 }
  match world.server world.requests with
  | .nothing => pure ()
  | .raises => throw .requestFailed
  | .noDict received => throw (.invalidInstanceMetadata (.expectedDict received))
  | .role credentials =>
      match getCredentialsFromMetadata credentials with
      | .error e => throw e
      | .ok (accessKey, secretKey, securityToken, expiresAt) =>
          modifySelf fun self =>
            { self with
              accessKey := some accessKey
              secretKey := some secretKey
              securityToken := some securityToken }
          match expiresAt with
          | none => throw .valueError
          | some time => modifySelf fun self => { self with credentialExpiryTime := some time }

/-- The time before the expiry from which on credentials are refreshed. -/
def refreshWindow : ℤ := 5 * 60 * 1000000

/-- `_credentials_need_refresh`. -/
def credentialsNeedRefresh : Use α Bool := do
  let world ← get
  if world.self.anon then return false
  else
    match world.self.credentialExpiryTime with
    | none => return false
    | some time =>
        set { world with readings := world.readings + 1 }
        return time - world.clock world.readings < refreshWindow

/-- A property that is read. -/
def getProperty (field : Provider α → Option α) : Use α (Option α) := do
  if ← credentialsNeedRefresh then populateKeysFromMetadataServer
  return field (← get).self

/-- `access_key`. -/
def getAccessKey : Use α (Option α) := getProperty Provider.accessKey

/-- `secret_key`. -/
def getSecretKey : Use α (Option α) := getProperty Provider.secretKey

/-- `security_token`. -/
def getSecurityToken : Use α (Option α) := getProperty Provider.securityToken

/-! ## Finding credentials -/

/-- The names of the providers. -/
inductive ProviderName
  | aws
  | google
  deriving DecidableEq, Repr

/-- The names under which the credentials of a provider are looked up. -/
structure CredentialNames where
  accessKey : Text
  secretKey : Text
  securityToken : Option Text
  profile : Option Text

/-- `Provider.CredentialMap`. -/
def credentialMap : ProviderName → CredentialNames
  | .aws =>
      { accessKey := "aws_access_key_id".toList, secretKey := "aws_secret_access_key".toList
        securityToken := some "aws_security_token".toList
        profile := some "aws_profile".toList }
  | .google =>
      { accessKey := "gs_access_key_id".toList, secretKey := "gs_secret_access_key".toList
        securityToken := none, profile := none }

/-- `Provider.MetadataServiceSupport`. -/
def metadataServiceSupport : ProviderName → Bool
  | .aws => true
  | .google => false

/-- `name.upper()`. -/
def upper (name : Text) : Text := name.map Char.toUpper

/-- The section of the boto config for a profile. -/
def profileSection (profileName : Text) : Text := "profile ".toList ++ profileName

/-- The section of the shared credentials without a profile. -/
def defaultSection : Text := "default".toList

/-- The section of the boto config without a profile. -/
def credentialsSection : Text := "Credentials".toList

/-- The arguments of `get_credentials`. -/
structure Arguments (α : Type) where
  accessKey : Option α
  secretKey : Option α
  securityToken : Option α
  profileName : Option Text

variable (name : ProviderName) (text : α → Text) (sources : Sources α)

/-- The profile: the one that was passed in, or the one of the environment. -/
def effectiveProfile (profileName : Option Text) : Option Text :=
  match profileName with
  | some profileName => some profileName
  | none =>
      match (credentialMap name).profile with
      | none => none
      | some variableName => (sources.environ (upper variableName)).map text

/-- A key that is looked up, `none` if no source has it. -/
def findKey (passed : Option α) (keyName : Text) (profileName : Option Text) :
    Except ProviderError (Option α) :=
  match passed with
  | some key => .ok (some key)
  | none =>
      match sources.environ (upper keyName) with
      | some key => .ok (some key)
      | none =>
          match profileName with
          | some profileName =>
              match sources.shared profileName keyName with
              | some key => .ok (some key)
              | none =>
                  match sources.config (profileSection profileName) keyName with
                  | some key => .ok (some key)
                  | none => .error (.profileNotFound profileName)
          | none =>
              match sources.shared defaultSection keyName with
              | some key => .ok (some key)
              | none => .ok (sources.config credentialsSection keyName)

/-- The first part of `get_credentials`. -/
def findAccessKey (args : Arguments α) (profileName : Option Text) : Use α Unit := do
  match ← MonadExcept.ofExcept
      (findKey sources args.accessKey (credentialMap name).accessKey profileName) with
  | some accessKey => modifySelf fun self => { self with accessKey := some accessKey }
  | none => pure ()

/-- The second part of `get_credentials`, where a keyring may have the secret key. -/
def findSecretKey (args : Arguments α) (profileName : Option Text) : Use α Unit := do
  match ← MonadExcept.ofExcept
      (findKey sources args.secretKey (credentialMap name).secretKey profileName) with
  | some secretKey => modifySelf fun self => { self with secretKey := some secretKey }
  | none =>
      match sources.config credentialsSection "keyring".toList with
      | none => pure ()
      | some keyringName =>
          match sources.getPassword with
          | none => throw .importError
          | some getPassword =>
              let accessKey ← getAccessKey
              modifySelf fun self =>
                { self with secretKey := getPassword (text keyringName) accessKey }

/-- `profile_name or 'default'`. -/
def tokenSection (profileName : Option Text) : Text :=
  match profileName with
  | none | some [] => defaultSection
  | some (c :: rest) => c :: rest

/-- A token that is looked up. -/
def findToken (tokenName : Text) (profileName : Option Text) : Option α :=
  match sources.environ (upper tokenName) with
  | some token => some token
  | none =>
      match sources.shared (tokenSection profileName) tokenName with
      | some token => some token
      | none =>
          match profileName with
          | some profileName => sources.config (profileSection profileName) tokenName
          | none => sources.config credentialsSection tokenName

/-- The third part of `get_credentials`. -/
def findSecurityToken (args : Arguments α) (profileName : Option Text) : Use α Unit :=
  match args.securityToken with
  | some token => modifySelf fun self => { self with securityToken := some token }
  | none =>
      match (credentialMap name).securityToken with
      | none => pure ()
      | some tokenName =>
          if args.accessKey.isNone ∧ args.secretKey.isNone then
            match findToken sources tokenName profileName with
            | some token => modifySelf fun self => { self with securityToken := some token }
            | none => pure ()
          else pure ()

/-- `get_credentials`. -/
def getCredentials (args : Arguments α) : Use α Unit := do
  if (← get).self.anon then return
  else
    let profileName := effectiveProfile name text sources args.profileName
    findAccessKey name sources args profileName
    findSecretKey name text sources args profileName
    findSecurityToken name sources args profileName
    let self := (← get).self
    if (self.accessKey.isNone ∨ self.secretKey.isNone) ∧ metadataServiceSupport name then
      populateKeysFromMetadataServer

/-- The attributes that `__init__` sets before it gets the credentials. -/
def Provider.init (args : Arguments α) (anon : Bool) : Provider α where
  accessKey := args.accessKey
  secretKey := args.secretKey
  securityToken := args.securityToken
  anon := anon
  credentialExpiryTime := none

end Boto.Credentials

/-!
## Credentials with marks

A credential is marked, with its source or with the time at which it was got.  What a provider
does with marked credentials is what it does with the credentials.
-/

namespace Boto.Credentials

open EStateM

variable {μ : Type}

/-- Mark a credential. -/
def mark (m : μ) (value : Option Text) : Option (μ × Text) := value.map (Prod.mk m)

@[simp] theorem mark_none {m : μ} : mark m none = none := rfl

@[simp] theorem mark_some {m : μ} {value : Text} : mark m (some value) = some (m, value) := rfl

theorem isNone_mark {m : μ} {value : Option Text} : (mark m value).isNone = value.isNone :=
  Option.isNone_map

@[simp] theorem map_snd_mark {m : μ} {value : Option Text} :
    (mark m value).map Prod.snd = value := by
  cases value <;> rfl

def RoleCredentials.marked (m : μ) (credentials : RoleCredentials Text) :
    RoleCredentials (μ × Text) where
  accessKeyId := mark m credentials.accessKeyId
  secretAccessKey := mark m credentials.secretAccessKey
  token := mark m credentials.token
  expiration := credentials.expiration

/-- The credentials of a metadata server, all with one mark. -/
def Metadata.marked (m : μ) : Metadata Text → Metadata (μ × Text)
  | .nothing => .nothing
  | .raises => .raises
  | .noDict received => .noDict received
  | .role credentials => .role (credentials.marked m)

def RoleCredentials.unmarked (credentials : RoleCredentials (μ × Text)) :
    RoleCredentials Text where
  accessKeyId := credentials.accessKeyId.map Prod.snd
  secretAccessKey := credentials.secretAccessKey.map Prod.snd
  token := credentials.token.map Prod.snd
  expiration := credentials.expiration

def Metadata.unmarked : Metadata (μ × Text) → Metadata Text
  | .nothing => .nothing
  | .raises => .raises
  | .noDict received => .noDict received
  | .role credentials => .role credentials.unmarked

def Provider.unmarked (self : Provider (μ × Text)) : Provider Text where
  accessKey := self.accessKey.map Prod.snd
  secretKey := self.secretKey.map Prod.snd
  securityToken := self.securityToken.map Prod.snd
  anon := self.anon
  credentialExpiryTime := self.credentialExpiryTime

def World.unmarked (world : World (μ × Text)) : World Text where
  self := world.self.unmarked
  clock := world.clock
  readings := world.readings
  server n := (world.server n).unmarked
  requests := world.requests

theorem unmarked_marked (m : μ) (metadata : Metadata Text) :
    (metadata.marked m).unmarked = metadata := by
  cases metadata with
  | role credentials =>
      dsimp only [Metadata.marked, Metadata.unmarked, RoleCredentials.marked,
        RoleCredentials.unmarked]
      rw [map_snd_mark, map_snd_mark, map_snd_mark]
  | _ => rfl

/-- A change of the attributes that is the same with and without the marks. -/
theorem modifySelf_mapsTo {f : Provider (μ × Text) → Provider (μ × Text)}
    {g : Provider Text → Provider Text} (hg : ∀ self, g self.unmarked = (f self).unmarked) :
    MapsTo World.unmarked id (modifySelf f) (modifySelf g) :=
  .modify fun world => by
    dsimp only [World.unmarked]
    rw [hg]

theorem populateKeysFromMetadataServer_mapsTo :
    MapsTo World.unmarked id (populateKeysFromMetadataServer : Use (μ × Text) Unit)
      populateKeysFromMetadataServer := by
  refine .bind .get fun world => .bind (.set rfl) fun _ => ?_
  dsimp only [World.unmarked]
  cases world.server world.requests with
  | nothing => exact .pure rfl
  | raises => exact .throw
  | noDict received => exact .throw
  | role credentials =>
      obtain ⟨accessKeyId, secretAccessKey, token, expiration⟩ := credentials
      cases accessKeyId with
      | none => exact .throw
      | some accessKey =>
          cases secretAccessKey with
          | none => exact .throw
          | some secretKey =>
              cases token with
              | none => exact .throw
              | some securityToken =>
                  cases expiration with
                  | none => exact .throw
                  | some expiresAt =>
                      refine .bind (modifySelf_mapsTo fun _ => rfl) fun _ => ?_
                      cases expiresAt with
                      | none => exact .throw
                      | some time => exact modifySelf_mapsTo fun _ => rfl

theorem credentialsNeedRefresh_mapsTo :
    MapsTo World.unmarked id (credentialsNeedRefresh : Use (μ × Text) Bool)
      credentialsNeedRefresh := by
  refine .bind .get fun world => ?_
  obtain ⟨⟨accessKey, secretKey, securityToken, anon, expiry⟩, clock, readings, server,
    requests⟩ := world
  cases anon with
  | true => exact .pure rfl
  | false =>
      cases expiry with
      | none => exact .pure rfl
      | some time => exact .bind (.set rfl) fun _ => .pure rfl

/-- A property of marked credentials is read like one of the credentials. -/
theorem getProperty_mapsTo {f : Provider (μ × Text) → Option (μ × Text)}
    {g : Provider Text → Option Text}
    (hg : ∀ self, g self.unmarked = (f self).map Prod.snd) :
    MapsTo World.unmarked (Option.map Prod.snd) (getProperty f) (getProperty g) := by
  refine .bind credentialsNeedRefresh_mapsTo fun refresh => ?_
  cases refresh with
  | true =>
      exact .bind populateKeysFromMetadataServer_mapsTo fun _ => .bind .get fun world =>
        .pure (hg world.self)
  | false => exact .bind .get fun world => .pure (hg world.self)

end Boto.Credentials
