import Boto.Auth.QuerySignature
import Boto.Provider

/-!
# The credentials that a request is signed with

The handlers of `boto/auth.py` read the access key, the secret key and the token from the
properties of the provider, each of which may get new credentials from the metadata server.  A
handler is made only of a provider that has both keys.
-/

namespace Boto.Auth

open EStateM Credentials

variable {α : Type}

/-! ## Reading -/

/-- The order in which the credentials are read. -/
inductive ReadOrder
  | tokenFirst
  | tokenLast
  | noToken
  deriving DecidableEq, Repr

/-- The order of an `add_auth`. -/
def AuthHandler.readOrder : AuthHandler → ReadOrder
  | .hmacAuthV1 _ | .hmacAuthV2 _ | .hmacAuthV3 _ | .hmacAuthV4 _ | .s3HmacAuthV4 _ =>
      .tokenFirst
  | .querySignatureV1 _ => .noToken
  | .querySignatureV2 _ | .postPathQSV2 _ => .tokenLast

/-- The credentials that are used. -/
structure Used (α : Type) where
  accessKey : α
  secretKey : α
  securityToken : Option α

/-- A key that is read. -/
def readKey (key : Use α (Option α)) : Use α α := do
  match ← key with
  | some key => return key
  | none => throw .noKey

/-- `if provider.security_token`, where the token is read once more. -/
def readToken (text : α → Text) : Use α (Option α) := do
  match ← getSecurityToken with
  | none => return none
  | some token => if text token = [] then return none else getSecurityToken

/-- What an `add_auth` reads. -/
def signingReads (text : α → Text) : ReadOrder → Use α (Used α)
  | .tokenFirst => do
      let securityToken ← readToken text
      let secretKey ← readKey getSecretKey
      let accessKey ← readKey getAccessKey
      return { accessKey := accessKey, secretKey := secretKey, securityToken := securityToken }
  | .tokenLast => do
      let accessKey ← readKey getAccessKey
      let secretKey ← readKey getSecretKey
      let securityToken ← readToken text
      return { accessKey := accessKey, secretKey := secretKey, securityToken := securityToken }
  | .noToken => do
      let accessKey ← readKey getAccessKey
      let secretKey ← readKey getSecretKey
      return { accessKey := accessKey, secretKey := secretKey, securityToken := none }

/-! ## Signing -/

/-- The keys with other credentials. -/
def HmacKeys.using (keys : HmacKeys) (used : Used Text) : HmacKeys where
  provider :=
    { keys.provider with
      accessKey := used.accessKey
      secretKey := used.secretKey
      securityToken := used.securityToken }
  configured := by
    obtain ⟨name, hname⟩ := keys.configured
    refine ⟨name, ?_⟩
    rw [hname]
    rfl

/-- The handler with other credentials. -/
def HmacAuthV4Handler.using (handler : HmacAuthV4Handler) (used : Used Text) :
    HmacAuthV4Handler :=
  { handler with
    provider :=
      { handler.provider with
        accessKey := used.accessKey
        secretKey := used.secretKey
        securityToken := used.securityToken } }

/-- The handler with other credentials. -/
def AuthHandler.using (handler : AuthHandler) (used : Used Text) : AuthHandler :=
  match handler with
  | .hmacAuthV1 keys => .hmacAuthV1 (keys.using used)
  | .hmacAuthV2 keys => .hmacAuthV2 (keys.using used)
  | .hmacAuthV3 keys => .hmacAuthV3 (keys.using used)
  | .hmacAuthV4 handler => .hmacAuthV4 (handler.using used)
  | .s3HmacAuthV4 handler => .s3HmacAuthV4 (handler.using used)
  | .querySignatureV1 keys => .querySignatureV1 (keys.using used)
  | .querySignatureV2 keys => .querySignatureV2 (keys.using used)
  | .postPathQSV2 keys => .postPathQSV2 (keys.using used)

/-- `add_auth` with the properties of a provider. -/
def AuthHandler.addAuthLive (env : Environment) (handler : AuthHandler) (req : HTTPRequest) :
    Use Text (Except AuthError HTTPRequest) := do
  let used ← signingReads id handler.readOrder
  return (handler.using used).addAuth env req

/-! ## Generations -/

/-- Credentials that are marked with their generation: the server's answer that they are of. -/
abbrev Dated := ℕ × Text

/-- The provider with its generations: what it has at first is of the last answer so far. -/
def generations (world : World Text) : World Dated where
  self :=
    { accessKey := mark world.requests world.self.accessKey
      secretKey := mark world.requests world.self.secretKey
      securityToken := mark world.requests world.self.securityToken
      anon := world.self.anon
      credentialExpiryTime := world.self.credentialExpiryTime }
  clock := world.clock
  readings := world.readings
  server n := (world.server n).marked (n + 1)
  requests := world.requests

/-- The credentials that are used are of one generation. -/
structure OneGeneration (used : Used Dated) : Prop where
  secretKey : used.secretKey.1 = used.accessKey.1
  securityToken : ∀ token, used.securityToken = some token → token.1 = used.accessKey.1

/-- The next property that is read gets new credentials: the old ones are about to expire, and
the metadata server has some. -/
def Renews (world : World α) : Prop :=
  world.self.anon = false ∧
    (∃ time, world.self.credentialExpiryTime = some time ∧
      time - world.clock world.readings < refreshWindow) ∧
    ∃ credentials, world.server world.requests = .role credentials

/-- The provider after a property was read. -/
def afterRead (world : World α) : World α := (getAccessKey.run world).state

/-- The token that the provider has is no empty text. -/
def HasToken (text : α → Text) (world : World α) : Prop :=
  ∃ token, world.self.securityToken = some token ∧ text token ≠ []

/-- The condition under which a request is signed with one generation of credentials: no
property gets new ones behind the first one whose value is used. -/
def Steady (text : α → Text) (world : World α) : ReadOrder → Prop
  | .tokenFirst =>
      let tested := afterRead world
      ¬Renews (afterRead tested) ∧
        (HasToken text tested → ¬Renews (afterRead (afterRead tested)))
  | .tokenLast =>
      let first := afterRead world
      let second := afterRead first
      let tested := afterRead second
      ¬Renews first ∧ (HasToken text tested → ¬Renews second ∧ ¬Renews tested)
  | .noToken => ¬Renews (afterRead world)

end Boto.Auth
