import Boto.Auth.CredentialReads
import Boto.Auth.S3SignedQuery

/-!
# Requests that are signed with one generation of credentials

A property that is read either leaves the provider as it is or gets new credentials, all of one
generation and later than any before.  So the credentials of a request are of one generation
exactly when none are got between the first and the last one that are used.
-/

namespace Boto.Auth

open EStateM Credentials

/-! ## One property -/

section

variable {α : Type} {world world' : World α}

/-- The credentials are refreshed if they have to be. -/
def refresh : Use α Unit := do
  if ← credentialsNeedRefresh then populateKeysFromMetadataServer

theorem run_getProperty (field : Credentials.Provider α → Option α) :
    (getProperty field).run world = match refresh.run world with
      | .ok _ next => .ok (field next.self) next
      | .error e next => .error e next := by
  rw [getProperty, refresh, run_bind, run_bind]
  cases credentialsNeedRefresh.run world with
  | error e next => rfl
  | ok b next =>
      cases b with
      | false => rfl
      | true =>
          simp only [if_true, run_bind]
          cases populateKeysFromMetadataServer.run next <;> rfl

/-- Which property is read makes no difference to the provider. -/
theorem getProperty_ok {field : Credentials.Provider α → Option α} {value : Option α}
    (hrun : (getProperty field).run world = .ok value world') :
    refresh.run world = .ok () world' ∧ world' = afterRead world ∧
      value = field world'.self := by
  rw [run_getProperty] at hrun
  rw [afterRead, getAccessKey, run_getProperty]
  cases hrefresh : refresh.run world with
  | error e next =>
      rw [hrefresh] at hrun
      cases hrun
  | ok _ next =>
      rw [hrefresh] at hrun
      cases hrun
      exact ⟨rfl, rfl, rfl⟩

/-- Whether credentials are about to expire is known from one reading of the clock. -/
theorem credentialsNeedRefresh_ok : ∃ b readings,
    credentialsNeedRefresh.run world = .ok b { world with readings := readings } ∧
      (b = true ↔ world.self.anon = false ∧
        ∃ time, world.self.credentialExpiryTime = some time ∧
          time - world.clock world.readings < refreshWindow) := by
  obtain ⟨⟨accessKey, secretKey, securityToken, anon, expiry⟩, clock, readings, server,
    requests⟩ := world
  cases anon with
  | true => exact ⟨false, readings, rfl, iff_of_false Bool.false_ne_true fun h => nomatch h.1⟩
  | false =>
      cases expiry with
      | none =>
          refine ⟨false, readings, rfl, iff_of_false Bool.false_ne_true ?_⟩
          rintro ⟨-, time, htime, -⟩
          cases htime
      | some time =>
          refine ⟨_, readings + 1, rfl, decide_eq_true_iff.trans ⟨fun h => ?_, ?_⟩⟩
          · exact ⟨rfl, time, rfl, h⟩
          · rintro ⟨-, time', htime, h⟩
            cases htime
            exact h

/-- The metadata server has nothing, or complete credentials. -/
theorem populateKeysFromMetadataServer_ok
    (hrun : populateKeysFromMetadataServer.run world = .ok () world') :
    world'.clock = world.clock ∧ world'.server = world.server ∧
      world'.requests = world.requests + 1 ∧
      ((world.server world.requests = .nothing ∧ world'.self = world.self) ∨
        ∃ credentials accessKey secretKey securityToken,
          world.server world.requests = .role credentials ∧
          credentials.accessKeyId = some accessKey ∧
          credentials.secretAccessKey = some secretKey ∧
          credentials.token = some securityToken ∧
          world'.self.accessKey = some accessKey ∧
          world'.self.secretKey = some secretKey ∧
          world'.self.securityToken = some securityToken) := by
  rw [populateKeysFromMetadataServer, run_bind, run_get] at hrun
  dsimp only at hrun
  rw [run_bind, run_set] at hrun
  dsimp only at hrun
  cases hserver : world.server world.requests with
  | nothing =>
      rw [hserver] at hrun
      cases hrun
      exact ⟨rfl, rfl, rfl, .inl ⟨rfl, rfl⟩⟩
  | raises =>
      rw [hserver] at hrun
      cases hrun
  | noDict received =>
      rw [hserver] at hrun
      cases hrun
  | role credentials =>
      rw [hserver] at hrun
      obtain ⟨accessKeyId, secretAccessKey, token, expiration⟩ := credentials
      cases accessKeyId with
      | none => cases hrun
      | some accessKey =>
          cases secretAccessKey with
          | none => cases hrun
          | some secretKey =>
              cases token with
              | none => cases hrun
              | some securityToken =>
                  cases expiration with
                  | none => cases hrun
                  | some expiresAt =>
                      cases expiresAt with
                      | none => cases hrun
                      | some time =>
                          cases hrun
                          exact ⟨rfl, rfl, rfl, .inr ⟨_, accessKey, secretKey, securityToken,
                            rfl, rfl, rfl, rfl, rfl, rfl, rfl⟩⟩

/-- What a refresh does: it leaves the credentials, or it gets new ones. -/
theorem refresh_cases (hrun : refresh.run world = .ok () world') :
    world'.clock = world.clock ∧ world'.server = world.server ∧
      (¬Renews world ∧ world'.self = world.self ∧ world.requests ≤ world'.requests ∨
        Renews world ∧ world'.requests = world.requests + 1 ∧
          ∃ credentials accessKey secretKey securityToken,
            world.server world.requests = .role credentials ∧
            credentials.accessKeyId = some accessKey ∧
            credentials.secretAccessKey = some secretKey ∧
            credentials.token = some securityToken ∧
            world'.self.accessKey = some accessKey ∧
            world'.self.secretKey = some secretKey ∧
            world'.self.securityToken = some securityToken) := by
  obtain ⟨b, readings, hneed, hstale⟩ := @credentialsNeedRefresh_ok _ world
  rw [refresh, run_bind, hneed] at hrun
  cases b with
  | false =>
      cases hrun
      refine ⟨rfl, rfl, .inl ⟨fun hrenews => ?_, rfl, le_rfl⟩⟩
      exact Bool.false_ne_true (hstale.mpr ⟨hrenews.1, hrenews.2.1⟩)
  | true =>
      obtain ⟨hanon, hexpiry⟩ := hstale.mp rfl
      obtain ⟨hclock, hserver, hrequests, hself⟩ := populateKeysFromMetadataServer_ok hrun
      refine ⟨hclock, hserver, ?_⟩
      rcases hself with ⟨hnothing, hself⟩ | ⟨credentials, accessKey, secretKey, securityToken,
        hrole, hrest⟩
      · refine .inl ⟨?_, hself, le_of_le_of_eq (Nat.le_succ _) hrequests.symm⟩
        rintro ⟨-, -, credentials, hrole⟩
        have hboth := hnothing.symm.trans hrole
        cases hboth
      · exact .inr ⟨⟨hanon, hexpiry, credentials, hrole⟩, hrequests, credentials, accessKey,
          secretKey, securityToken, hrole, hrest⟩

end

/-! ## Generations -/

section

variable {world world' : World Dated} {g : ℕ}

/-- The credentials of a provider are of a generation, and those of the server's answers are of
their own. -/
structure IsOf (g : ℕ) (world : World Dated) : Prop where
  accessKey : ∀ key, world.self.accessKey = some key → key.1 = g
  secretKey : ∀ key, world.self.secretKey = some key → key.1 = g
  securityToken : ∀ token, world.self.securityToken = some token → token.1 = g
  past : g ≤ world.requests
  answers : ∀ n, ∃ answer : Metadata Text, world.server n = answer.marked (n + 1)

theorem isOf_generations (world : World Text) : IsOf world.requests (generations world) := by
  have hmark : ∀ {value : Option Text} {key : Dated},
      mark world.requests value = some key → key.1 = world.requests := by
    intro value key hkey
    cases value with
    | none => cases hkey
    | some value =>
        cases hkey
        rfl
  exact ⟨fun _ => hmark, fun _ => hmark, fun _ => hmark, le_rfl, fun n => ⟨_, rfl⟩⟩

/-- After a refresh the credentials are of the generation before, or of a later one. -/
theorem IsOf.refresh (hof : IsOf g world) (hrun : refresh.run world = .ok () world') :
    ∃ g', IsOf g' world' ∧ g ≤ g' ∧ (Renews world ↔ g < g') ∧
      (world.self.securityToken ≠ none → world'.self.securityToken ≠ none) := by
  obtain ⟨-, hserver, hcases⟩ := refresh_cases hrun
  rcases hcases with ⟨hkept, hself, hrequests⟩ | ⟨hrenews, hrequests, credentials, accessKey,
    secretKey, securityToken, hrole, haccessKeyId, hsecretAccessKey, htoken, haccess, hsecret,
    hsecurity⟩
  · refine ⟨g, ⟨?_, ?_, ?_, hof.past.trans hrequests, ?_⟩, le_rfl, ?_, ?_⟩
    · rw [hself]
      exact hof.accessKey
    · rw [hself]
      exact hof.secretKey
    · rw [hself]
      exact hof.securityToken
    · rw [hserver]
      exact hof.answers
    · exact iff_of_false hkept (Nat.lt_irrefl g)
    · rw [hself]
      exact id
  · obtain ⟨answer, hanswer⟩ := hof.answers world.requests
    have hmarked : ∀ {value : Option Text} {key : Dated},
        mark (world.requests + 1) value = some key → key.1 = world.requests + 1 := by
      intro value key hkey
      cases value with
      | none => cases hkey
      | some value =>
          cases hkey
          rfl
    rw [hrole] at hanswer
    cases answer with
    | nothing => cases hanswer
    | raises => cases hanswer
    | noDict received => cases hanswer
    | role answer =>
        cases hanswer
        have hpast := hof.past
        refine ⟨world.requests + 1, ⟨?_, ?_, ?_, by omega, ?_⟩, by omega,
          iff_of_true hrenews (by omega), ?_⟩
        · rintro key hkey
          cases haccess.symm.trans hkey
          exact hmarked haccessKeyId
        · rintro key hkey
          cases hsecret.symm.trans hkey
          exact hmarked hsecretAccessKey
        · rintro key hkey
          cases hsecurity.symm.trans hkey
          exact hmarked htoken
        · rw [hserver]
          exact hof.answers
        · intro _ hnone
          rw [hnone] at hsecurity
          cases hsecurity

/-! ## The reads of an `add_auth` -/

variable {α : Type} {first last : World α} {text : α → Text}

theorem readKey_ok {field : Credentials.Provider α → Option α} {key : α}
    (hrun : (readKey (getProperty field)).run first = .ok key last) :
    refresh.run first = .ok () last ∧ last = afterRead first ∧ field last.self = some key := by
  obtain ⟨value, next, hread, hvalue⟩ := run_bind_eq_ok.mp hrun
  obtain ⟨hrefresh, hafter, hfield⟩ := getProperty_ok hread
  cases value with
  | none => cases hvalue
  | some value =>
      cases hvalue
      exact ⟨hrefresh, hafter, hfield.symm⟩

/-- A token is read twice, unless the first time there is none. -/
theorem readToken_ok {token : Option α} (hrun : (readToken text).run first = .ok token last) :
    refresh.run first = .ok () (afterRead first) ∧
      (¬HasToken text (afterRead first) ∧ token = none ∧ last = afterRead first ∨
        HasToken text (afterRead first) ∧ refresh.run (afterRead first) = .ok () last ∧
          last = afterRead (afterRead first) ∧ token = last.self.securityToken) := by
  obtain ⟨value, tested, hread, hvalue⟩ := run_bind_eq_ok.mp hrun
  obtain ⟨hrefresh, rfl, hfield⟩ := getProperty_ok hread
  refine ⟨hrefresh, ?_⟩
  cases value with
  | none =>
      cases hvalue
      refine .inl ⟨?_, rfl, rfl⟩
      rintro ⟨token, htoken, -⟩
      cases hfield.trans htoken
  | some value =>
      dsimp only at hvalue
      split at hvalue
      · rename_i hempty
        cases hvalue
        refine .inl ⟨?_, rfl, rfl⟩
        rintro ⟨token, htoken, hnonempty⟩
        cases hfield.trans htoken
        exact hnonempty hempty
      · rename_i hnonempty
        obtain ⟨hagain, hafter, hsecond⟩ := getProperty_ok hvalue
        exact .inr ⟨⟨value, hfield.symm, hnonempty⟩, hagain, hafter, hsecond⟩

/-- Credentials whose generations are known. -/
theorem oneGeneration_iff {used : Used Dated} {a b : ℕ} (haccess : used.accessKey.1 = a)
    (hsecret : used.secretKey.1 = b) :
    OneGeneration used ↔ b = a ∧ ∀ token, used.securityToken = some token → token.1 = a := by
  rw [← haccess, ← hsecret]
  exact ⟨fun hone => ⟨hone.secretKey, hone.securityToken⟩, fun ⟨h, h'⟩ => ⟨h, h'⟩⟩

/-- A token that was there is still there, and of the generation of the provider. -/
theorem IsOf.token (hof : IsOf g world) (hsome : world.self.securityToken ≠ none) :
    ∃ token, world.self.securityToken = some token ∧ token.1 = g := by
  obtain ⟨token, htoken⟩ := Option.ne_none_iff_exists'.mp hsome
  exact ⟨token, htoken, hof.securityToken token htoken⟩

theorem HasToken.ne_none (htoken : HasToken text first) : first.self.securityToken ≠ none := by
  obtain ⟨token, hsome, -⟩ := htoken
  rw [hsome]
  exact Option.some_ne_none _

/-- The credentials that are read are of one generation when no read gets new ones between the
first and the last that are used. -/
theorem oneGeneration_iff_steady {order : ReadOrder} {used : Used Dated}
    (hof : IsOf g world) (hrun : (signingReads Prod.snd order).run world = .ok used world') :
    OneGeneration used ↔ Steady Prod.snd world order := by
  cases order with
  | tokenFirst =>
      obtain ⟨token, placed, htoken, hrun⟩ := run_bind_eq_ok.mp hrun
      obtain ⟨secretKey, signed, hsecret, hrun⟩ := run_bind_eq_ok.mp hrun
      obtain ⟨accessKey, named, haccess, hrun⟩ := run_bind_eq_ok.mp hrun
      cases hrun
      obtain ⟨htested, hplaced⟩ := readToken_ok htoken
      obtain ⟨hsigned, rfl, hsecret⟩ := readKey_ok hsecret
      obtain ⟨hnamed, rfl, haccess⟩ := readKey_ok haccess
      obtain ⟨g₁, hof₁, -, -, -⟩ := hof.refresh htested
      rw [Steady]
      rcases hplaced with ⟨hnone, rfl, rfl⟩ | ⟨hsome, hagain, rfl, rfl⟩
      · -- no token: the secret key and then the access key
        obtain ⟨g₂, hof₂, -, -, -⟩ := hof₁.refresh hsigned
        obtain ⟨g₃, hof₃, hle, hrenews, -⟩ := hof₂.refresh hnamed
        rw [oneGeneration_iff (hof₃.accessKey _ haccess) (hof₂.secretKey _ hsecret), hrenews]
        refine ⟨fun h => ⟨by omega, fun htoken => (hnone htoken).elim⟩,
          fun h => ⟨by omega, fun token htoken => ?_⟩⟩
        cases htoken
      · -- the token, the secret key and then the access key
        obtain ⟨g₂, hof₂, -, -, hkept⟩ := hof₁.refresh hagain
        obtain ⟨g₃, hof₃, hle₃, hrenews₃, -⟩ := hof₂.refresh hsigned
        obtain ⟨g₄, hof₄, hle₄, hrenews₄, -⟩ := hof₃.refresh hnamed
        obtain ⟨token, htoken, hg⟩ := hof₂.token (hkept hsome.ne_none)
        rw [oneGeneration_iff (hof₄.accessKey _ haccess) (hof₃.secretKey _ hsecret), hrenews₃,
          hrenews₄]
        constructor
        · rintro ⟨hsame, htokens⟩
          have hgeneration := htokens token htoken
          exact ⟨by omega, fun _ => by omega⟩
        · rintro ⟨hfirst, hsecond⟩
          have hlast := hsecond hsome
          refine ⟨by omega, fun token' htoken' => ?_⟩
          cases htoken.symm.trans htoken'
          omega
  | tokenLast =>
      obtain ⟨accessKey, named, haccess, hrun⟩ := run_bind_eq_ok.mp hrun
      obtain ⟨secretKey, signed, hsecret, hrun⟩ := run_bind_eq_ok.mp hrun
      obtain ⟨token, placed, htoken, hrun⟩ := run_bind_eq_ok.mp hrun
      cases hrun
      obtain ⟨hnamed, rfl, haccess⟩ := readKey_ok haccess
      obtain ⟨hsigned, rfl, hsecret⟩ := readKey_ok hsecret
      obtain ⟨htested, hplaced⟩ := readToken_ok htoken
      obtain ⟨g₁, hof₁, -, -, -⟩ := hof.refresh hnamed
      obtain ⟨g₂, hof₂, hle₂, hrenews₂, -⟩ := hof₁.refresh hsigned
      obtain ⟨g₃, hof₃, hle₃, hrenews₃, -⟩ := hof₂.refresh htested
      rw [Steady, oneGeneration_iff (hof₁.accessKey _ haccess) (hof₂.secretKey _ hsecret)]
      dsimp only
      rw [hrenews₂, hrenews₃]
      rcases hplaced with ⟨hnone, rfl, -⟩ | ⟨hsome, hagain, -, rfl⟩
      · refine ⟨fun h => ⟨by omega, fun htoken => (hnone htoken).elim⟩,
          fun h => ⟨by omega, fun token htoken => ?_⟩⟩
        cases htoken
      · obtain ⟨g₄, hof₄, hle₄, hrenews₄, hkept⟩ := hof₃.refresh hagain
        obtain ⟨token, htoken, hg⟩ := hof₄.token (hkept hsome.ne_none)
        rw [hrenews₄]
        constructor
        · rintro ⟨hsame, htokens⟩
          have hgeneration := htokens token htoken
          exact ⟨by omega, fun _ => ⟨by omega, by omega⟩⟩
        · rintro ⟨hfirst, hrest⟩
          obtain ⟨hsecond, hlast⟩ := hrest hsome
          refine ⟨by omega, fun token' htoken' => ?_⟩
          cases htoken.symm.trans htoken'
          omega
  | noToken =>
      obtain ⟨accessKey, named, haccess, hrun⟩ := run_bind_eq_ok.mp hrun
      obtain ⟨secretKey, signed, hsecret, hrun⟩ := run_bind_eq_ok.mp hrun
      cases hrun
      obtain ⟨hnamed, rfl, haccess⟩ := readKey_ok haccess
      obtain ⟨hsigned, rfl, hsecret⟩ := readKey_ok hsecret
      obtain ⟨g₁, hof₁, -, -, -⟩ := hof.refresh hnamed
      obtain ⟨g₂, hof₂, hle, hrenews, -⟩ := hof₁.refresh hsigned
      rw [Steady, oneGeneration_iff (hof₁.accessKey _ haccess) (hof₂.secretKey _ hsecret),
        hrenews]
      refine ⟨fun h => by omega, fun h => ⟨by omega, fun token htoken => ?_⟩⟩
      cases htoken

end

/-! ## The generations make no difference -/

section

variable {world : World Dated} {order : ReadOrder}

/-- The credentials without their generations. -/
def Used.undated (used : Used Dated) : Used Text where
  accessKey := used.accessKey.2
  secretKey := used.secretKey.2
  securityToken := used.securityToken.map Prod.snd

theorem unmarked_generations (world : World Text) : (generations world).unmarked = world := by
  dsimp only [generations, World.unmarked, Provider.unmarked]
  simp only [map_snd_mark, unmarked_marked]

theorem readKey_mapsTo {f : Credentials.Provider Dated → Option Dated}
    {g : Credentials.Provider Text → Option Text}
    (hg : ∀ self, g self.unmarked = (f self).map Prod.snd) :
    MapsTo World.unmarked Prod.snd (readKey (getProperty f)) (readKey (getProperty g)) := by
  refine .bind (getProperty_mapsTo hg) fun key => ?_
  cases key with
  | none => exact .throw
  | some key => exact .pure rfl

theorem readToken_mapsTo :
    MapsTo World.unmarked (Option.map Prod.snd) (readToken (Prod.snd : Dated → Text))
      (readToken id) := by
  refine .bind (getProperty_mapsTo fun _ => rfl) fun token => ?_
  cases token with
  | none => exact .pure rfl
  | some token =>
      dsimp only [Option.map_some, id_eq]
      split
      · exact .pure rfl
      · exact getProperty_mapsTo fun _ => rfl

theorem signingReads_mapsTo :
    MapsTo World.unmarked Used.undated (signingReads (Prod.snd : Dated → Text) order)
      (signingReads id order) := by
  cases order with
  | tokenFirst =>
      exact .bind readToken_mapsTo fun _ => .bind (readKey_mapsTo fun _ => rfl) fun _ =>
        .bind (readKey_mapsTo fun _ => rfl) fun _ => .pure rfl
  | tokenLast =>
      exact .bind (readKey_mapsTo fun _ => rfl) fun _ => .bind (readKey_mapsTo fun _ => rfl)
        fun _ => .bind readToken_mapsTo fun _ => .pure rfl
  | noToken =>
      exact .bind (readKey_mapsTo fun _ => rfl) fun _ =>
        .bind (readKey_mapsTo fun _ => rfl) fun _ => .pure rfl

theorem afterRead_unmarked : afterRead world.unmarked = (afterRead world).unmarked := by
  have hmaps : MapsTo World.unmarked (Option.map Prod.snd) (getAccessKey : Use Dated _)
      getAccessKey := getProperty_mapsTo fun _ => rfl
  rw [afterRead, afterRead, hmaps world]
  cases getAccessKey.run world <;> rfl

theorem renews_unmarked : Renews world.unmarked ↔ Renews world := by
  refine and_congr_right fun _ => and_congr_right fun _ => ?_
  dsimp only [World.unmarked]
  constructor
  · rintro ⟨credentials, hrole⟩
    cases hserver : world.server world.requests with
    | role answer => exact ⟨answer, rfl⟩
    | nothing =>
        rw [hserver] at hrole
        cases hrole
    | raises =>
        rw [hserver] at hrole
        cases hrole
    | noDict received =>
        rw [hserver] at hrole
        cases hrole
  · rintro ⟨credentials, hrole⟩
    rw [hrole]
    exact ⟨_, rfl⟩

theorem hasToken_unmarked : HasToken id world.unmarked ↔ HasToken Prod.snd world := by
  dsimp only [HasToken, World.unmarked, Provider.unmarked]
  cases world.self.securityToken with
  | none => exact iff_of_false (fun ⟨_, h, _⟩ => nomatch h) fun ⟨_, h, _⟩ => nomatch h
  | some token =>
      constructor
      · rintro ⟨_, htoken, hnonempty⟩
        cases htoken
        exact ⟨token, rfl, hnonempty⟩
      · rintro ⟨_, htoken, hnonempty⟩
        cases htoken
        exact ⟨_, rfl, hnonempty⟩

theorem steady_unmarked : Steady id world.unmarked order ↔ Steady Prod.snd world order := by
  cases order <;>
    simp only [Steady, afterRead_unmarked, renews_unmarked, hasToken_unmarked]

end

/-- Whenever a request is signed with the properties of a provider, the credentials that are
used are of one generation exactly when no property gets new ones behind the first one whose
value is used. -/
theorem addAuth_oneGeneration_iff (env : Environment) (handler : AuthHandler)
    (req : HTTPRequest) (world world' : World Text) (signed : Except AuthError HTTPRequest)
    (hreturns : (handler.addAuthLive env req).run world = .ok signed world') :
    ∃ used dated, (signingReads Prod.snd handler.readOrder).run (generations world) =
        .ok used dated ∧ dated.unmarked = world' ∧
      signed = (handler.using used.undated).addAuth env req ∧
      (OneGeneration used ↔ Steady id world handler.readOrder) := by
  obtain ⟨texts, next, hreads, hsigned⟩ := run_bind_eq_ok.mp hreturns
  have hmaps := @signingReads_mapsTo handler.readOrder (generations world)
  rw [unmarked_generations, hreads] at hmaps
  cases hrun : (signingReads (Prod.snd : Dated → Text) handler.readOrder).run
      (generations world) with
  | error e dated =>
      rw [hrun] at hmaps
      cases hmaps
  | ok used dated =>
      rw [hrun] at hmaps
      have hsteady := oneGeneration_iff_steady (isOf_generations world) hrun
      rw [← steady_unmarked, unmarked_generations] at hsteady
      cases hmaps
      cases hsigned
      exact ⟨used, dated, rfl, rfl, rfl, hsteady⟩

/-- A provider whose credentials expire 301 seconds after the clock starts, with a clock that
is two seconds further from its reading number `n` on, and a server with later ones. -/
def expiring (n : ℕ) : World Text where
  self :=
    { accessKey := some "old access".toList
      secretKey := some "old secret".toList
      securityToken := some "old token".toList
      anon := false
      credentialExpiryTime := some 301000000 }
  clock k := if k < n then 0 else 2000000
  readings := 0
  server _ := .role
    { accessKeyId := some "new access".toList
      secretAccessKey := some "new secret".toList
      token := some "new token".toList
      expiration := some (some 3600000000) }
  requests := 0

/-- A handler of version 1. -/
def plainHandlerV1 : AuthHandler :=
  .hmacAuthV1 { provider := .init .aws [] [] none, configured := ⟨.aws, rfl⟩ }

/-- The credentials expire after the request is signed. -/
theorem signingReads_oneGeneration_late : ∃ used dated,
    (signingReads Prod.snd plainHandlerV1.readOrder).run (generations (expiring 4)) =
        .ok used dated ∧ OneGeneration used := by
  obtain ⟨used, dated, hrun, -, -, hiff⟩ := addAuth_oneGeneration_iff
    { library := zeroLibrary, clock := stoppedClock
      semicolons := false, userAgent := [] } plainHandlerV1
    (requestWithParams [] .empty) (expiring 4) _ _ rfl
  have hfresh : ∀ k : ℕ, k < 4 → ¬(301000000 - (expiring 4).clock k < refreshWindow) := by
    decide
  refine ⟨used, dated, hrun, hiff.mpr ⟨?_, fun _ => ?_⟩⟩
  · rintro ⟨-, ⟨time, htime, hlt⟩, -⟩
    cases htime
    exact hfresh 2 (by decide) hlt
  · rintro ⟨-, ⟨time, htime, hlt⟩, -⟩
    cases htime
    exact hfresh 3 (by decide) hlt

/-- The clock reaches the time of the refresh behind the token and the secret key: the access
key is another one. -/
theorem signingReads_mixed : ¬∀ (handler : AuthHandler) (world : World Text) (used : Used Dated)
    (dated : World Dated), (∀ j k, j ≤ k → world.clock j ≤ world.clock k) →
    (signingReads Prod.snd handler.readOrder).run (generations world) = .ok used dated →
      OneGeneration used := by
  intro hclaim
  have hclock : ∀ j k, j ≤ k → (expiring 3).clock j ≤ (expiring 3).clock k := by
    intro j k hle
    dsimp only [expiring]
    split <;> split <;> omega
  have hone := hclaim plainHandlerV1 (expiring 3) _ _ hclock rfl
  have hsame := hone.secretKey
  revert hsame
  decide +kernel

end Boto.Auth
