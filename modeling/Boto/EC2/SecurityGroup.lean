import Boto.Python

/-!
# Security groups

`SecurityGroup` of `boto/ec2/securitygroup.py` with the requests that
`authorize_security_group` of `boto/ec2/connection.py` makes.  A group grant of
`copy_to_region` is authorized without a protocol or ports, which takes the old-style
request.
-/

namespace Boto.EC2

/-- `GroupOrCIDR`. -/
structure GroupOrCIDR where
  ownerId : Option Text
  groupId : Option Text
  name : Option Text
  cidrIp : Option Text
  deriving DecidableEq

/-- `IPPermissions`. -/
structure IPPermissions where
  ipProtocol : Option Text
  fromPort : Option Text
  toPort : Option Text
  grants : List GroupOrCIDR

/-- `SecurityGroup`, with its ingress rules. -/
structure SecurityGroup where
  id : Option Text
  name : Option Text
  description : Option Text
  vpcId : Option Text
  rules : List IPPermissions

/-- A value that counts as true. -/
def truthy (value : Option Text) : Option Text :=
  value.filter fun text => !text.isEmpty

/-- `cidr_ip`, which may be a list. -/
inductive CidrIp
  | single (cidrIp : Option Text)
  | list (cidrIps : List Text)

/-- The addresses that are sent. -/
def CidrIp.sent : CidrIp → List Text
  | .single cidrIp => (truthy cidrIp).toList
  | .list cidrIps => cidrIps

/-- The addresses that get a rule of their own. -/
def CidrIp.added : CidrIp → List (Option Text)
  | .single cidrIp => [cidrIp]
  | .list cidrIps => cidrIps.map some

/-! ## Requests -/

/-- The parameters of `authorize_security_group_deprecated`. -/
structure DeprecatedParams where
  groupName : Option Text
  sourceSecurityGroupName : Option Text
  sourceSecurityGroupOwnerId : Option Text
  ipProtocol : Option Text
  fromPort : Option Text
  toPort : Option Text
  cidrIp : Option Text
  dryRun : Bool
  deriving DecidableEq

/-- The parameters of `authorize_security_group`, with one group and any addresses. -/
structure IngressParams where
  groupName : Option Text
  groupId : Option Text
  sourceGroupName : Option Text
  sourceUserId : Option Text
  sourceGroupId : Option Text
  ipProtocol : Option Text
  fromPort : Option Text
  toPort : Option Text
  cidrIps : List Text
  dryRun : Bool
  deriving DecidableEq

/-- A request for `AuthorizeSecurityGroupIngress`. -/
inductive Request
  | deprecated (params : DeprecatedParams)
  | ingress (params : IngressParams)
  deriving DecidableEq

/-- `authorize_security_group_deprecated`. -/
def authorizeSecurityGroupDeprecated
    (groupName srcSecurityGroupName srcSecurityGroupOwnerId ipProtocol fromPort toPort cidrIp :
      Option Text) (dryRun : Bool) : Request :=
  .deprecated
    { groupName := groupName
      sourceSecurityGroupName := truthy srcSecurityGroupName
      sourceSecurityGroupOwnerId := truthy srcSecurityGroupOwnerId
      ipProtocol := truthy ipProtocol
      fromPort := truthy fromPort
      toPort := truthy toPort
      cidrIp := truthy cidrIp
      dryRun := dryRun }

/-- `authorize_security_group`. -/
def authorizeSecurityGroup
    (groupName srcSecurityGroupName srcSecurityGroupOwnerId ipProtocol fromPort toPort :
      Option Text) (cidrIp : CidrIp) (groupId srcSecurityGroupGroupId : Option Text)
    (dryRun : Bool) : Request :=
  if (truthy srcSecurityGroupName).isSome ∧ fromPort = none ∧ toPort = none ∧
      ipProtocol = none then
    authorizeSecurityGroupDeprecated groupName srcSecurityGroupName srcSecurityGroupOwnerId
      none none none none false
  else
    .ingress
      { groupName := truthy groupName
        groupId := truthy groupId
        sourceGroupName := truthy srcSecurityGroupName
        sourceUserId := truthy srcSecurityGroupOwnerId
        sourceGroupId := truthy srcSecurityGroupGroupId
        ipProtocol := truthy ipProtocol
        fromPort := fromPort
        toPort := toPort
        cidrIps := cidrIp.sent
        dryRun := dryRun }

/-! ## Groups -/

/-- `create_security_group` without a VPC, where the service answers with an id. -/
def createSecurityGroup (id : Text) (name description : Option Text) : SecurityGroup where
  id := some id
  name := name
  description := description
  vpcId := none
  rules := []

namespace SecurityGroup

/-- `add_rule`. -/
def addRule (sg : SecurityGroup)
    (ipProtocol fromPort toPort srcGroupName srcGroupOwnerId cidrIp srcGroupGroupId :
      Option Text) : SecurityGroup :=
  let grant : GroupOrCIDR :=
    { ownerId := srcGroupOwnerId
      groupId := srcGroupGroupId
      name := srcGroupName
      cidrIp := cidrIp }
  { sg with rules := sg.rules ++
      [{ ipProtocol := ipProtocol, fromPort := fromPort, toPort := toPort, grants := [grant] }] }

/-- `authorize`, for a connection that answers every request: the request, and the group
with the rules that it adds. -/
def authorize (connection : Request → Bool) (sg : SecurityGroup)
    (ipProtocol fromPort toPort : Option Text) (cidrIp : CidrIp)
    (srcGroup : Option GroupOrCIDR) (dryRun : Bool) : Request × SecurityGroup :=
  let inVpc := (truthy sg.vpcId).isSome
  let groupName := if inVpc then none else sg.name
  let groupId := if inVpc then sg.id else none
  let cidrIp :=
    match srcGroup with
    | some _ => .single none
    | none => cidrIp
  let srcGroupOwnerId := srcGroup.bind (·.ownerId)
  let srcGroupName := if inVpc then none else srcGroup.bind (·.name)
  let srcGroupGroupId := if inVpc then srcGroup.bind (·.groupId) else none
  let request := authorizeSecurityGroup groupName srcGroupName srcGroupOwnerId ipProtocol
    fromPort toPort cidrIp groupId srcGroupGroupId dryRun
  if connection request then
    (request, cidrIp.added.foldl (fun sg cidrIp => sg.addRule ipProtocol fromPort toPort
      srcGroupName srcGroupOwnerId cidrIp srcGroupGroupId) sg)
  else (request, sg)

/-- `grant.name or grant.group_id`, if it counts as true. -/
def grantNom (grant : GroupOrCIDR) : Option Text :=
  (truthy grant.name).or (truthy grant.groupId)

/-- What `copy_to_region` goes on with from grant to grant. -/
structure CopyState where
  sg : SecurityGroup
  sourceGroups : List Text
  requests : List Request

/-- A grant of a rule in `copy_to_region`. -/
def copyGrant (connection : Request → Bool) (dryRun : Bool) (state : CopyState)
    (rule : IPPermissions) (grant : GroupOrCIDR) : CopyState :=
  match grantNom grant with
  | some nom =>
      if nom ∈ state.sourceGroups then state
      else
        let (request, sg) :=
          state.sg.authorize connection none none none (.single none) (some grant) dryRun
        { sg := sg
          sourceGroups := state.sourceGroups ++ [nom]
          requests := state.requests ++ [request] }
  | none =>
      let (request, sg) := state.sg.authorize connection rule.ipProtocol rule.fromPort
        rule.toPort (.single grant.cidrIp) none dryRun
      { state with sg := sg, requests := state.requests ++ [request] }

/-- `copy_to_region`, where the service has the given id for the new group.  The check of
the region compares a name with a region and never finds that they are the same. -/
def copyToRegion (connection : Request → Bool) (id : Text) (source : SecurityGroup)
    (name : Option Text) (dryRun : Bool) : CopyState :=
  let sg := createSecurityGroup id ((truthy name).or source.name) source.description
  source.rules.foldl (fun state rule =>
    rule.grants.foldl (fun state grant => copyGrant connection dryRun state rule grant) state)
    { sg := sg, sourceGroups := [], requests := [] }

end SecurityGroup

end Boto.EC2
