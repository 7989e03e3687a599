import Boto.EC2.SecurityGroup
import Mathlib.Tactic.Common

/-!
# What a copied security group permits

A group is granted by an old-style request, which names no protocol and no ports, and only
once for all rules that name it.  What such a request opens is left to the service, so the
copy permits what the source does only if the source grants each of its groups just that.
-/

namespace Boto.EC2

/-! ## Combinations -/

/-- The protocol and the ports of a rule. -/
structure PortRange where
  ipProtocol : Option Text
  fromPort : Option Text
  toPort : Option Text
  deriving DecidableEq

/-- Whom a rule grants access to. -/
inductive Grantee
  | cidr (cidrIp : Text)
  | group (name : Text) (owner : Option Text)
  | unnamedGroup (id : Text) (owner : Option Text)
  deriving DecidableEq

def IPPermissions.range (rule : IPPermissions) : PortRange :=
  ⟨rule.ipProtocol, rule.fromPort, rule.toPort⟩

def GroupOrCIDR.grantee (grant : GroupOrCIDR) : Option Grantee :=
  match truthy grant.name, truthy grant.groupId with
  | some name, _ => some (.group name (truthy grant.ownerId))
  | none, some id => some (.unnamedGroup id (truthy grant.ownerId))
  | none, none => (truthy grant.cidrIp).map .cidr

/-- What the service opens for a request, where an old-style group grant opens some
protocols and ports of its own. -/
def Request.Permits (fullAccess : PortRange → Prop) (range : PortRange) (grantee : Grantee) :
    Request → Prop
  | .deprecated params =>
      match params.sourceSecurityGroupName with
      | some name => fullAccess range ∧ grantee = .group name params.sourceSecurityGroupOwnerId
      | none => range = ⟨params.ipProtocol, params.fromPort, params.toPort⟩ ∧
          ∃ cidrIp, params.cidrIp = some cidrIp ∧ grantee = .cidr cidrIp
  | .ingress params =>
      range = ⟨params.ipProtocol, params.fromPort, params.toPort⟩ ∧
        ((∃ cidrIp ∈ params.cidrIps, grantee = .cidr cidrIp) ∨
          (∃ name, params.sourceGroupName = some name ∧
            grantee = .group name params.sourceUserId) ∨
          ∃ id, params.sourceGroupName = none ∧ params.sourceGroupId = some id ∧
            grantee = .unnamedGroup id params.sourceUserId)

namespace SecurityGroup

/-- The grants of all rules. -/
def grantPairs (source : SecurityGroup) : List (IPPermissions × GroupOrCIDR) :=
  source.rules.flatMap fun rule => rule.grants.map fun grant => (rule, grant)

/-- The ingress rules permit a combination. -/
def Permits (source : SecurityGroup) (range : PortRange) (grantee : Grantee) : Prop :=
  ∃ pair ∈ source.grantPairs, pair.1.range = range ∧ pair.2.grantee = some grantee

/-- Every group that is granted has a name, which no other group has, and is granted what
an old-style request opens. -/
structure GrantsGroupsFully (fullAccess : PortRange → Prop) (source : SecurityGroup) :
    Prop where
  named : ∀ pair ∈ source.grantPairs, grantNom pair.2 ≠ none → truthy pair.2.name ≠ none
  sameOwner : ∀ pair ∈ source.grantPairs, ∀ other ∈ source.grantPairs,
    truthy pair.2.name ≠ none → truthy other.2.name = truthy pair.2.name →
      truthy other.2.ownerId = truthy pair.2.ownerId
  full : ∀ pair ∈ source.grantPairs, truthy pair.2.name ≠ none → ∀ range,
    fullAccess range ↔ ∃ other ∈ source.grantPairs, other.1.range = range ∧
      truthy other.2.name = truthy pair.2.name

/-! ## The requests -/

/-- The request for a grant. -/
def grantRequest (name : Option Text) (dryRun : Bool) (pair : IPPermissions × GroupOrCIDR) :
    Request :=
  match grantNom pair.2 with
  | some _ =>
      authorizeSecurityGroup name pair.2.name pair.2.ownerId none none none (.single none)
        none none dryRun
  | none =>
      authorizeSecurityGroup name none none pair.1.ipProtocol pair.1.fromPort pair.1.toPort
        (.single pair.2.cidrIp) none none dryRun

/-- The grants that are authorized, after some groups. -/
def authorized (sourceGroups : List Text) :
    List (IPPermissions × GroupOrCIDR) → List (IPPermissions × GroupOrCIDR)
  | [] => []
  | pair :: pairs =>
      match grantNom pair.2 with
      | some nom =>
          if nom ∈ sourceGroups then authorized sourceGroups pairs
          else pair :: authorized (sourceGroups ++ [nom]) pairs
      | none => pair :: authorized sourceGroups pairs

section

variable {connection : Request → Bool} {sg source : SecurityGroup} {name : Option Text}
  {dryRun : Bool}

theorem addRules_name_vpcId {ipProtocol fromPort toPort srcGroupName srcGroupOwnerId
    srcGroupGroupId : Option Text} (cidrIps : List (Option Text)) (sg : SecurityGroup) :
    let added := cidrIps.foldl (fun sg cidrIp => sg.addRule ipProtocol fromPort toPort
      srcGroupName srcGroupOwnerId cidrIp srcGroupGroupId) sg
    added.name = sg.name ∧ added.vpcId = sg.vpcId := by
  induction cidrIps generalizing sg with
  | nil => exact ⟨rfl, rfl⟩
  | cons cidrIp cidrIps ih => exact ih _

theorem authorize_name_vpcId {ipProtocol fromPort toPort : Option Text} {cidrIp : CidrIp}
    {srcGroup : Option GroupOrCIDR} :
    (sg.authorize connection ipProtocol fromPort toPort cidrIp srcGroup dryRun).2.name =
        sg.name ∧
      (sg.authorize connection ipProtocol fromPort toPort cidrIp srcGroup dryRun).2.vpcId =
        sg.vpcId := by
  dsimp only [authorize]
  generalize authorizeSecurityGroup .. = request
  cases connection request with
  | true => exact addRules_name_vpcId _ sg
  | false => exact ⟨rfl, rfl⟩

theorem authorize_fst {ipProtocol fromPort toPort : Option Text} {cidrIp : CidrIp}
    {srcGroup : Option GroupOrCIDR} (hvpc : sg.vpcId = none) :
    (sg.authorize connection ipProtocol fromPort toPort cidrIp srcGroup dryRun).1 =
      authorizeSecurityGroup sg.name (srcGroup.bind (·.name)) (srcGroup.bind (·.ownerId))
        ipProtocol fromPort toPort
        (match srcGroup with | some _ => .single none | none => cidrIp) none none dryRun := by
  dsimp only [authorize]
  rw [apply_ite Prod.fst, ite_self, hvpc]
  rfl

/-- The requests for some grants are those of the grants that are authorized. -/
theorem requests_foldl_copyGrant (pairs : List (IPPermissions × GroupOrCIDR))
    (state : CopyState) (hvpc : state.sg.vpcId = none) (hname : state.sg.name = name) :
    (pairs.foldl (fun state pair => copyGrant connection dryRun state pair.1 pair.2)
      state).requests =
        state.requests ++
          (authorized state.sourceGroups pairs).map (grantRequest name dryRun) := by
  induction pairs generalizing state with
  | nil => simp [authorized]
  | cons pair pairs ih =>
      rw [List.foldl_cons, copyGrant, authorized]
      cases hnom : grantNom pair.2 with
      | none =>
          dsimp only
          obtain ⟨hname', hvpc'⟩ := @authorize_name_vpcId connection state.sg dryRun
            pair.1.ipProtocol pair.1.fromPort pair.1.toPort (.single pair.2.cidrIp) none
          rw [ih _ (hvpc'.trans hvpc) (hname'.trans hname)]
          dsimp only
          rw [authorize_fst hvpc, hname, List.map_cons, grantRequest, hnom, List.append_assoc]
          rfl
      | some nom =>
          dsimp only
          split
          · exact ih state hvpc hname
          · obtain ⟨hname', hvpc'⟩ := @authorize_name_vpcId connection state.sg dryRun
              none none none (.single none) (some pair.2)
            rw [ih _ (hvpc'.trans hvpc) (hname'.trans hname)]
            dsimp only
            rw [authorize_fst hvpc, hname, List.map_cons, grantRequest, hnom,
              List.append_assoc]
            rfl

/-- The requests of a copy. -/
theorem requests_copyToRegion (id : Text) :
    (copyToRegion connection id source name dryRun).requests =
      (authorized [] source.grantPairs).map
        (grantRequest ((truthy name).or source.name) dryRun) := by
  have hpairs : ∀ (rules : List IPPermissions) (state : CopyState),
      rules.foldl (fun state rule => rule.grants.foldl (fun state grant =>
        copyGrant connection dryRun state rule grant) state) state =
      (rules.flatMap fun rule => rule.grants.map fun grant => (rule, grant)).foldl
        (fun state pair => copyGrant connection dryRun state pair.1 pair.2) state := by
    intro rules
    induction rules with
    | nil => exact fun _ => rfl
    | cons rule rules ih =>
        intro state
        rw [List.foldl_cons, ih, List.flatMap_cons, List.foldl_append, List.foldl_map]
  rw [copyToRegion, hpairs, requests_foldl_copyGrant _ _ rfl rfl]
  rfl

/-! ## Grants that are authorized -/

variable {sourceGroups : List Text} {pairs : List (IPPermissions × GroupOrCIDR)}
  {pair other : IPPermissions × GroupOrCIDR} {nom : Text}

theorem mem_of_mem_authorized (hpair : pair ∈ authorized sourceGroups pairs) :
    pair ∈ pairs := by
  induction pairs generalizing sourceGroups with
  | nil => exact hpair
  | cons first pairs ih =>
      rw [authorized] at hpair
      split at hpair
      · split at hpair
        · exact List.mem_cons_of_mem _ (ih hpair)
        · rcases List.mem_cons.mp hpair with rfl | hpair
          · exact List.mem_cons_self
          · exact List.mem_cons_of_mem _ (ih hpair)
      · rcases List.mem_cons.mp hpair with rfl | hpair
        · exact List.mem_cons_self
        · exact List.mem_cons_of_mem _ (ih hpair)

/-- Every address is authorized. -/
theorem mem_authorized_of_none (hpair : pair ∈ pairs) (hnom : grantNom pair.2 = none) :
    pair ∈ authorized sourceGroups pairs := by
  induction pairs generalizing sourceGroups with
  | nil => cases hpair
  | cons first pairs ih =>
      rw [authorized]
      rcases List.mem_cons.mp hpair with rfl | hpair
      · rw [hnom]
        exact List.mem_cons_self
      · split
        · split
          · exact ih hpair
          · exact List.mem_cons_of_mem _ (ih hpair)
        · exact List.mem_cons_of_mem _ (ih hpair)

/-- A group that is authorized was not authorized before. -/
theorem nom_notMem_of_mem_authorized (hpair : pair ∈ authorized sourceGroups pairs)
    (hnom : grantNom pair.2 = some nom) : nom ∉ sourceGroups := by
  induction pairs generalizing sourceGroups with
  | nil => cases hpair
  | cons first pairs ih =>
      rw [authorized] at hpair
      split at hpair
      · rename_i firstNom hfirst
        split at hpair
        · exact ih hpair
        · rename_i hnew
          rcases List.mem_cons.mp hpair with rfl | hpair
          · rw [hnom] at hfirst
            cases hfirst
            exact hnew
          · exact fun hin => ih hpair (List.mem_append_left _ hin)
      · rename_i hfirst
        rcases List.mem_cons.mp hpair with rfl | hpair
        · rw [hnom] at hfirst
          cases hfirst
        · exact ih hpair

/-- Every group is authorized, once for all grants with its name. -/
theorem exists_mem_authorized (hpair : pair ∈ pairs) (hnom : grantNom pair.2 = some nom)
    (hnew : nom ∉ sourceGroups) :
    ∃ first ∈ authorized sourceGroups pairs, grantNom first.2 = some nom := by
  induction pairs generalizing sourceGroups with
  | nil => cases hpair
  | cons first pairs ih =>
      rw [authorized]
      by_cases hfirst : grantNom first.2 = some nom
      · rw [hfirst]
        dsimp only
        rw [if_neg hnew]
        exact ⟨first, List.mem_cons_self, hfirst⟩
      · have hpair : pair ∈ pairs := by
          rcases List.mem_cons.mp hpair with rfl | hpair
          · exact absurd hnom hfirst
          · exact hpair
        split
        · rename_i firstNom hsome
          split
          · exact ih hpair hnew
          · have hnew : nom ∉ sourceGroups ++ [firstNom] := by
              rw [List.mem_append, List.mem_singleton, not_or]
              refine ⟨hnew, ?_⟩
              rintro rfl
              exact hfirst hsome
            obtain ⟨found, hfound, heq⟩ := ih hpair hnew
            exact ⟨found, List.mem_cons_of_mem _ hfound, heq⟩
        · obtain ⟨found, hfound, heq⟩ := ih hpair hnew
          exact ⟨found, List.mem_cons_of_mem _ hfound, heq⟩

theorem eq_of_mem_authorized (hpair : pair ∈ authorized sourceGroups pairs)
    (hother : other ∈ authorized sourceGroups pairs) (hnom : grantNom pair.2 = some nom)
    (hnom' : grantNom other.2 = some nom) : pair = other := by
  induction pairs generalizing sourceGroups with
  | nil => cases hpair
  | cons first pairs ih =>
      rw [authorized] at hpair hother
      split at hpair
      · rename_i firstNom hfirst
        rw [hfirst] at hother
        dsimp only at hother
        split at hpair
        · rename_i hseen
          rw [if_pos hseen] at hother
          exact ih hpair hother
        · rename_i hnew
          rw [if_neg hnew] at hother
          have hlater : ∀ later ∈ authorized (sourceGroups ++ [firstNom]) pairs,
              grantNom later.2 ≠ some firstNom := fun later hlater heq =>
            nom_notMem_of_mem_authorized hlater heq (by simp)
          rcases List.mem_cons.mp hpair with rfl | hin
          · rcases List.mem_cons.mp hother with rfl | hin'
            · rfl
            · rw [hfirst] at hnom
              exact absurd (hnom'.trans hnom.symm) (hlater _ hin')
          · rcases List.mem_cons.mp hother with rfl | hin'
            · rw [hfirst] at hnom'
              exact absurd (hnom.trans hnom'.symm) (hlater _ hin)
            · exact ih hin hin'
      · rename_i hfirst
        rw [hfirst] at hother
        have hne : ∀ pair ∈ first :: authorized sourceGroups pairs,
            grantNom pair.2 = some nom → pair ∈ authorized sourceGroups pairs := by
          intro pair hpair hnom
          rcases List.mem_cons.mp hpair with rfl | hpair
          · rw [hnom] at hfirst
            cases hfirst
          · exact hpair
        exact ih (hne _ hpair hnom) (hne _ hother hnom')

/-! ## What the requests permit -/

variable {fullAccess : PortRange → Prop} {range : PortRange} {grantee : Grantee}
  {sgName : Option Text}

theorem grantNom_of_name {grant : GroupOrCIDR} {name : Text}
    (hname : truthy grant.name = some name) : grantNom grant = some name := by
  rw [grantNom, hname]
  rfl

theorem grantee_of_name {grant : GroupOrCIDR} {name : Text}
    (hname : truthy grant.name = some name) :
    grant.grantee = some (.group name (truthy grant.ownerId)) := by
  rw [GroupOrCIDR.grantee, hname]

/-- What is no group is an address. -/
theorem grantee_of_grantNom {grant : GroupOrCIDR} (hnom : grantNom grant = none) :
    grant.grantee = (truthy grant.cidrIp).map .cidr := by
  rw [grantNom, Option.or_eq_none_iff] at hnom
  rw [GroupOrCIDR.grantee, hnom.1, hnom.2]

theorem truthy_protocol {ipProtocol : Option Text} (hprotocol : ipProtocol ≠ some []) :
    truthy ipProtocol = ipProtocol := by
  cases ipProtocol with
  | none => rfl
  | some text =>
      cases text with
      | nil => exact absurd rfl hprotocol
      | cons c text => rfl

/-- An address is permitted on the range of its rule, and a named group on what an
old-style request opens. -/
theorem grantRequest_permits_iff (hprotocol : pair.1.ipProtocol ≠ some []) :
    (grantRequest sgName dryRun pair).Permits fullAccess range grantee ↔
      (grantNom pair.2 = none ∧ pair.1.range = range ∧ pair.2.grantee = some grantee) ∨
        ∃ name, truthy pair.2.name = some name ∧ fullAccess range ∧
          grantee = .group name (truthy pair.2.ownerId) := by
  cases hname : truthy pair.2.name with
  | some name =>
      rw [grantRequest, grantNom_of_name hname]
      dsimp only
      rw [authorizeSecurityGroup, hname, if_pos ⟨rfl, rfl, rfl, rfl⟩,
        authorizeSecurityGroupDeprecated, hname]
      simp [Request.Permits]
  | none =>
      cases hid : truthy pair.2.groupId with
      | some id =>
          have hnom : grantNom pair.2 = some id := by rw [grantNom, hname, hid]; rfl
          rw [grantRequest, hnom]
          dsimp only
          rw [authorizeSecurityGroup, hname]
          simp [Request.Permits, CidrIp.sent, truthy]
      | none =>
          have hnom : grantNom pair.2 = none := by rw [grantNom, hname, hid]; rfl
          rw [grantRequest, grantee_of_grantNom hnom, hnom]
          dsimp only
          rw [authorizeSecurityGroup, truthy_protocol hprotocol]
          rw [if_neg (by rintro ⟨hsome, -⟩; cases hsome)]
          simp only [Request.Permits, CidrIp.sent, IPPermissions.range]
          cases truthy pair.2.cidrIp with
          | none => simp [truthy]
          | some cidrIp => simp [truthy, eq_comm]

theorem ipProtocol_of_mem_grantPairs
    (hprotocol : ∀ rule ∈ source.rules, rule.ipProtocol ≠ some [])
    (hpair : pair ∈ source.grantPairs) : pair.1.ipProtocol ≠ some [] := by
  obtain ⟨rule, hrule, hpair⟩ := List.mem_flatMap.mp hpair
  obtain ⟨grant, -, rfl⟩ := List.mem_map.mp hpair
  exact hprotocol rule hrule

/-- What the requests of a copy permit. -/
theorem exists_request_permits_iff
    (hprotocol : ∀ rule ∈ source.rules, rule.ipProtocol ≠ some []) (id : Text) :
    (∃ request ∈ (copyToRegion connection id source name dryRun).requests,
        request.Permits fullAccess range grantee) ↔
      ∃ pair ∈ authorized [] source.grantPairs,
        (grantNom pair.2 = none ∧ pair.1.range = range ∧ pair.2.grantee = some grantee) ∨
          ∃ name, truthy pair.2.name = some name ∧ fullAccess range ∧
            grantee = .group name (truthy pair.2.ownerId) := by
  rw [requests_copyToRegion]
  simp only [List.mem_map, exists_exists_and_eq_and]
  refine exists_congr fun pair => and_congr_right fun hpair => ?_
  exact grantRequest_permits_iff
    (ipProtocol_of_mem_grantPairs hprotocol (mem_of_mem_authorized hpair))

/-- A group with a name is permitted what an old-style request opens. -/
theorem request_permits_group_iff
    (hprotocol : ∀ rule ∈ source.rules, rule.ipProtocol ≠ some []) (id : Text)
    {groupName : Text} {owner : Option Text} :
    (∃ request ∈ (copyToRegion connection id source name dryRun).requests,
        request.Permits fullAccess range (.group groupName owner)) ↔
      fullAccess range ∧ ∃ pair ∈ authorized [] source.grantPairs,
        truthy pair.2.name = some groupName ∧ truthy pair.2.ownerId = owner := by
  rw [exists_request_permits_iff hprotocol]
  constructor
  · rintro ⟨pair, hpair, ⟨hnom, -, hgrantee⟩ | ⟨found, hname, hfull, heq⟩⟩
    · rw [grantee_of_grantNom hnom, Option.map_eq_some_iff] at hgrantee
      obtain ⟨cidrIp, -, heq⟩ := hgrantee
      cases heq
    · cases heq
      exact ⟨hfull, pair, hpair, hname, rfl⟩
  · rintro ⟨hfull, pair, hpair, hname, rfl⟩
    exact ⟨pair, hpair, .inr ⟨groupName, hname, hfull, rfl⟩⟩

section

variable {id : Text} (hprotocol : ∀ rule ∈ source.rules, rule.ipProtocol ≠ some [])
  (hsame : ∀ range grantee,
    (∃ request ∈ (copyToRegion connection id source name dryRun).requests,
      request.Permits fullAccess range grantee) ↔ source.Permits range grantee)

include hprotocol hsame

theorem named_of_same (hpair : pair ∈ source.grantPairs) (hnom : grantNom pair.2 ≠ none) :
    truthy pair.2.name ≠ none := by
  intro hname
  cases hid : truthy pair.2.groupId with
  | none => exact hnom (by rw [grantNom, hname, hid]; rfl)
  | some groupId =>
      have hgrantee : pair.2.grantee =
          some (.unnamedGroup groupId (truthy pair.2.ownerId)) := by
        rw [GroupOrCIDR.grantee, hname, hid]
      obtain ⟨found, -, ⟨hnone, -, heq⟩ | ⟨groupName, -, -, heq⟩⟩ :=
        (exists_request_permits_iff hprotocol id).mp
          ((hsame _ _).mpr ⟨pair, hpair, rfl, hgrantee⟩)
      · rw [grantee_of_grantNom hnone, Option.map_eq_some_iff] at heq
        obtain ⟨cidrIp, -, heq⟩ := heq
        cases heq
      · cases heq

/-- A named group of the source is authorized with its owner. -/
theorem authorized_of_same (hpair : pair ∈ source.grantPairs) {groupName : Text}
    (hname : truthy pair.2.name = some groupName) :
    fullAccess pair.1.range ∧ ∃ first ∈ authorized [] source.grantPairs,
      truthy first.2.name = some groupName ∧
        truthy first.2.ownerId = truthy pair.2.ownerId :=
  (request_permits_group_iff hprotocol id).mp
    ((hsame _ _).mpr ⟨pair, hpair, rfl, grantee_of_name hname⟩)

theorem sameOwner_of_same (hpair : pair ∈ source.grantPairs)
    (hother : other ∈ source.grantPairs) (hname : truthy pair.2.name ≠ none)
    (heq : truthy other.2.name = truthy pair.2.name) :
    truthy other.2.ownerId = truthy pair.2.ownerId := by
  obtain ⟨groupName, hname⟩ := Option.ne_none_iff_exists'.mp hname
  obtain ⟨-, first, hfirst, hfirstName, howner⟩ :=
    authorized_of_same hprotocol hsame hpair hname
  obtain ⟨-, second, hsecond, hsecondName, howner'⟩ :=
    authorized_of_same hprotocol hsame hother (heq.trans hname)
  obtain rfl := eq_of_mem_authorized hfirst hsecond (grantNom_of_name hfirstName)
    (grantNom_of_name hsecondName)
  exact howner'.symm.trans howner

theorem grantsGroupsFully_of_same : GrantsGroupsFully fullAccess source where
  named := fun _ hpair hnom => named_of_same hprotocol hsame hpair hnom
  sameOwner := fun _ hpair _ hother hname heq =>
    sameOwner_of_same hprotocol hsame hpair hother hname heq
  full := by
    intro pair hpair hname range
    obtain ⟨groupName, hsome⟩ := Option.ne_none_iff_exists'.mp hname
    obtain ⟨-, hfirst⟩ := authorized_of_same hprotocol hsame hpair hsome
    constructor
    · intro hfull
      obtain ⟨other, hother, hrange, hgrantee⟩ := (hsame _ _).mp
        ((request_permits_group_iff hprotocol id).mpr ⟨hfull, hfirst⟩)
      refine ⟨other, hother, hrange, ?_⟩
      rw [hsome]
      cases hotherName : truthy other.2.name with
      | none =>
          rw [GroupOrCIDR.grantee, hotherName] at hgrantee
          cases hid : truthy other.2.groupId with
          | none =>
              rw [hid, Option.map_eq_some_iff] at hgrantee
              obtain ⟨cidrIp, -, heq⟩ := hgrantee
              cases heq
          | some groupId =>
              rw [hid] at hgrantee
              cases hgrantee
      | some otherName =>
          rw [grantee_of_name hotherName, Option.some.injEq, Grantee.group.injEq] at hgrantee
          rw [hgrantee.1]
    · rintro ⟨other, hother, rfl, heq⟩
      exact (authorized_of_same hprotocol hsame hother (heq.trans hsome)).1

end

/-- A source that grants its groups fully is copied. -/
theorem GrantsGroupsFully.same (hfully : GrantsGroupsFully fullAccess source) {id : Text}
    (hprotocol : ∀ rule ∈ source.rules, rule.ipProtocol ≠ some []) (range : PortRange)
    (grantee : Grantee) :
    (∃ request ∈ (copyToRegion connection id source name dryRun).requests,
      request.Permits fullAccess range grantee) ↔ source.Permits range grantee := by
  rw [exists_request_permits_iff hprotocol]
  constructor
  · rintro ⟨pair, hpair, ⟨-, hrange, hgrantee⟩ | ⟨groupName, hname, hfull, rfl⟩⟩
    · exact ⟨pair, mem_of_mem_authorized hpair, hrange, hgrantee⟩
    · have hpair := mem_of_mem_authorized hpair
      have hne : truthy pair.2.name ≠ none := Option.ne_none_iff_exists'.mpr ⟨_, hname⟩
      obtain ⟨other, hother, hrange, heq⟩ := (hfully.full pair hpair hne range).mp hfull
      refine ⟨other, hother, hrange, ?_⟩
      rw [grantee_of_name (heq.trans hname), hfully.sameOwner pair hpair other hother hne heq]
  · rintro ⟨pair, hpair, hrange, hgrantee⟩
    cases hnom : grantNom pair.2 with
    | none =>
        exact ⟨pair, mem_authorized_of_none hpair hnom, .inl ⟨hnom, hrange, hgrantee⟩⟩
    | some nom =>
        have hne := hfully.named pair hpair (by rw [hnom]; exact Option.some_ne_none nom)
        obtain ⟨groupName, hname⟩ := Option.ne_none_iff_exists'.mp hne
        obtain rfl : groupName = nom :=
          Option.some.inj ((grantNom_of_name hname).symm.trans hnom)
        obtain ⟨first, hfirst, hfirstNom⟩ :=
          exists_mem_authorized hpair hnom (List.not_mem_nil)
        have hin := mem_of_mem_authorized hfirst
        obtain ⟨firstName, hfirstName⟩ := Option.ne_none_iff_exists'.mp
          (hfully.named first hin (by rw [hfirstNom]; exact Option.some_ne_none _))
        obtain rfl : firstName = groupName :=
          Option.some.inj ((grantNom_of_name hfirstName).symm.trans hfirstNom)
        refine ⟨first, hfirst, .inr ⟨firstName, hfirstName, ?_, ?_⟩⟩
        · exact (hfully.full pair hpair hne range).mpr ⟨pair, hpair, hrange, rfl⟩
        · rw [grantee_of_name hname, Option.some.injEq] at hgrantee
          rw [← hgrantee, hfully.sameOwner pair hpair first hin hne
            (hfirstName.trans hname.symm)]

end

/-- A group whose rules grant access over TCP. -/
def tcpGroup (grants : List (Text × GroupOrCIDR)) : SecurityGroup where
  id := some "sg-1".toList
  name := some "web".toList
  description := some "web".toList
  vpcId := none
  rules := grants.map fun grant =>
    { ipProtocol := some "tcp".toList
      fromPort := some grant.1
      toPort := some grant.1
      grants := [grant.2] }

end SecurityGroup

end Boto.EC2
