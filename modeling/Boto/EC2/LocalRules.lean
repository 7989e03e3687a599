import Boto.EC2.SecurityGroup
import Boto.Numerals
import Boto.Support.Runs
import Mathlib.Data.Finset.Lattice.Lemmas
import Mathlib.Data.Finset.SDiff
import Mathlib.Data.Finset.Union
import Mathlib.Data.List.Chain
import Mathlib.Tactic.Common

/-!
# The rules that a security group keeps

`authorize` and `revoke` of `SecurityGroup` in `boto/ec2/securitygroup.py` with `add_rule`
and `remove_rule`, beside a service that holds a set of permissions.  A response gives
ports as texts and a caller may give integers, so a port keeps the type in which it came.
Rules and grants have no equality of their own in the source: `list.remove` finds the very
object, which is its position here.
-/

namespace Boto.EC2

/-- A port in a rule or in a call. -/
inductive Port
  | none
  | number (port : ℤ)
  | text (port : Text)
  deriving DecidableEq

/-- The port, with a numeral as its number. -/
def Port.value : Port → Port
  | .text port =>
      match parseInt port with
      | .ok n => .number n
      | .error _ => .text port
  | port => port

/-- The protocol and the ports of a rule. -/
structure RuleRange where
  ipProtocol : Option Text
  fromPort : Port
  toPort : Port
  deriving DecidableEq

/-- The protocol, and the ports by value. -/
def RuleRange.value (range : RuleRange) : RuleRange where
  ipProtocol := range.ipProtocol
  fromPort := range.fromPort.value
  toPort := range.toPort.value

/-- `IPPermissions`, with ports of either type. -/
structure LocalRule where
  range : RuleRange
  grants : List GroupOrCIDR
  deriving DecidableEq

/-- A `SecurityGroup` with its ingress rules. -/
structure LocalGroup where
  vpcId : Option Text
  rules : List LocalRule
  deriving DecidableEq

/-- The group belongs to a VPC. -/
def LocalGroup.inVpc (sg : LocalGroup) : Bool := (truthy sg.vpcId).isSome

/-- The arguments of `authorize` and `revoke`. -/
structure RuleCall where
  range : RuleRange
  cidrIp : CidrIp
  srcGroup : Option GroupOrCIDR

/-- What `authorize` and `revoke` make of `cidr_ip` and `src_group`. -/
structure RuleSource where
  srcGroupName : Option Text
  srcGroupOwnerId : Option Text
  cidrIp : CidrIp
  srcGroupGroupId : Option Text

/-- The beginning of `authorize` and `revoke`. -/
def RuleCall.source (call : RuleCall) (inVpc : Bool) : RuleSource :=
  match call.srcGroup with
  | none =>
      { srcGroupName := none
        srcGroupOwnerId := none
        cidrIp := call.cidrIp
        srcGroupGroupId := none }
  | some srcGroup =>
      { srcGroupName := if inVpc then none else srcGroup.name
        srcGroupOwnerId := srcGroup.ownerId
        cidrIp := .single none
        srcGroupGroupId := if inVpc then srcGroup.groupId else none }

namespace LocalGroup

/-! ## Adding rules -/

/-- The grant that `add_rule` makes. -/
def newGrant (source : RuleSource) (cidrIp : Option Text) : GroupOrCIDR where
  ownerId := source.srcGroupOwnerId
  groupId := source.srcGroupGroupId
  name := source.srcGroupName
  cidrIp := cidrIp

/-- `add_rule`. -/
def addRule (range : RuleRange) (source : RuleSource) (cidrIp : Option Text)
    (rules : List LocalRule) : List LocalRule :=
  rules ++ [{ range := range, grants := [newGrant source cidrIp] }]

/-- `authorize`, once the service has accepted it. -/
def authorize (call : RuleCall) (sg : LocalGroup) : LocalGroup :=
  let source := call.source sg.inVpc
  { vpcId := sg.vpcId
    rules := source.cidrIp.added.foldl
      (fun rules cidrIp => addRule call.range source cidrIp rules) sg.rules }

/-! ## Removing rules -/

/-- The comparison of a grant in `remove_rule`; a list of addresses equals no address. -/
def takes (source : RuleSource) (grant : GroupOrCIDR) : Bool :=
  (grant.name == source.srcGroupName || grant.groupId == source.srcGroupGroupId) &&
    grant.ownerId == source.srcGroupOwnerId &&
    match source.cidrIp with
    | .single cidrIp => grant.cidrIp == cidrIp
    | .list _ => false

/-- The position of `target_grant`: the loop goes on after a grant that it takes. -/
def targetGrant (source : RuleSource) (grants : List GroupOrCIDR) : Option ℕ :=
  grants.zipIdx.foldl (fun target grant =>
    if takes source grant.1 then some grant.2 else target) none

/-- The grants without the target. -/
def removeGrant (source : RuleSource) (grants : List GroupOrCIDR) : List GroupOrCIDR :=
  match targetGrant source grants with
  | some target => grants.eraseIdx target
  | none => grants

/-- A rule that `remove_rule` has visited. -/
def visited (range : RuleRange) (source : RuleSource) (rule : LocalRule) : LocalRule :=
  if rule.range = range then { rule with grants := removeGrant source rule.grants }
  else rule

/-- The loop of `remove_rule` over the rules to come, with the rules that it has passed and
the position of `target_rule` among the rules, if it is still one of them.  When a rule
goes from the list, the rule behind it takes the place that the loop has just left. -/
def removeLoop (range : RuleRange) (source : RuleSource) :
    List LocalRule → Option ℕ → (skip : Bool) → List LocalRule →
      Except PyError (List LocalRule)
  | passed, _, _, [] => .ok passed
  | passed, target, true, rule :: rules =>
      removeLoop range source (passed ++ [rule]) target false rules
  | passed, target, false, rule :: rules =>
      let target := if rule.range = range then some passed.length else target
      let rule := visited range source rule
      if rule.grants = [] then
        match target with
        | some target =>
            removeLoop range source ((passed ++ [rule]).eraseIdx target) none true rules
        | none => .error (.valueError "list.remove(x): x not in list")
      else removeLoop range source (passed ++ [rule]) target false rules

/-- `remove_rule`. -/
def removeRule (range : RuleRange) (source : RuleSource) (rules : List LocalRule) :
    Except PyError (List LocalRule) :=
  if rules = [] then .error (.valueError "The security group has no rules")
  else removeLoop range source [] none false rules

/-- `revoke`, once the service has accepted it. -/
def revoke (call : RuleCall) (sg : LocalGroup) : Except PyError LocalGroup := do
  let rules ← removeRule call.range (call.source sg.inVpc) sg.rules
  return { sg with rules := rules }

end LocalGroup

/-! ## The service -/

/-- Who a permission lets in: an address, or a group by its owner and its id in a VPC or
its name elsewhere. -/
inductive RuleGrantee
  | cidr (cidrIp : Text)
  | group (ownerId key : Option Text)
  deriving DecidableEq

/-- A permission, with its ports by value. -/
structure Permission where
  range : RuleRange
  grantee : RuleGrantee
  deriving DecidableEq

/-- The grantee of a grant. -/
def RuleGrantee.ofGrant (inVpc : Bool) (grant : GroupOrCIDR) : RuleGrantee :=
  match grant.cidrIp with
  | some cidrIp => .cidr cidrIp
  | none => .group grant.ownerId (if inVpc then grant.groupId else grant.name)

/-- The permissions of a rule. -/
def LocalRule.permissions (inVpc : Bool) (rule : LocalRule) : List Permission :=
  rule.grants.map fun grant => ⟨rule.range.value, .ofGrant inVpc grant⟩

/-- The permissions in `self.rules`. -/
def LocalGroup.permissions (sg : LocalGroup) : Finset Permission :=
  (sg.rules.flatMap (·.permissions sg.inVpc)).toFinset

/-- The grantees that a call names. -/
def RuleCall.grantees (call : RuleCall) (inVpc : Bool) : List RuleGrantee :=
  match call.srcGroup with
  | some srcGroup => [.ofGrant inVpc { srcGroup with cidrIp := none }]
  | none =>
      match call.cidrIp with
      | .single (some cidrIp) => [.cidr cidrIp]
      | .single none => [.group none none]
      | .list cidrIps => cidrIps.map .cidr

/-- The permissions that a call names. -/
def RuleCall.permissions (call : RuleCall) (inVpc : Bool) : Finset Permission :=
  ((call.grantees inVpc).map fun grantee => ⟨call.range.value, grantee⟩).toFinset

/-- The group beside the permissions that the service holds. -/
structure Mirror where
  sg : LocalGroup
  service : Finset Permission

/-- A call, and whether the service accepts it. -/
inductive RuleAction
  | authorize (call : RuleCall) (accepted : Bool)
  | revoke (call : RuleCall) (accepted : Bool)

/-- A call on the group.  There is no next state where an accepted call raises. -/
def Mirror.step (state : Mirror) : RuleAction → Option Mirror
  | .authorize call true =>
      some
        { sg := state.sg.authorize call
          service := state.service ∪ call.permissions state.sg.inVpc }
  | .revoke call true =>
      match state.sg.revoke call with
      | .ok sg => some ⟨sg, state.service \ call.permissions state.sg.inVpc⟩
      | .error _ => none
  | .authorize _ false => some state
  | .revoke _ false => some state

end Boto.EC2

/-!
## Whether the local rules mirror the service

A revoke takes one grant from every rule that it visits, by the text in which the rule has
its ports, and does not visit the rule behind one that it has emptied.  The rules stay what
the service holds as long as that grant is always the only one that the call names.
-/

namespace Boto.EC2

variable {call : RuleCall} {inVpc : Bool} {range : RuleRange} {source : RuleSource}
  {rule : LocalRule} {rules passed : List LocalRule} {grants : List GroupOrCIDR}
  {target : Option ℕ} {sg : LocalGroup}

/-! ## When a revoke is right -/

/-- The call names the permission that a grant of the rule gives. -/
def RuleCall.Names (call : RuleCall) (inVpc : Bool) (rule : LocalRule) (grant : GroupOrCIDR) :
    Prop :=
  ⟨rule.range.value, .ofGrant inVpc grant⟩ ∈ call.permissions inVpc

instance : DecidablePred (call.Names inVpc rule) :=
  fun _ => inferInstanceAs (Decidable (_ ∈ _))

/-- The grants of a rule that the call names. -/
def RuleCall.named (call : RuleCall) (inVpc : Bool) (rule : LocalRule) : List GroupOrCIDR :=
  rule.grants.filter (call.Names inVpc rule)

/-- The last grant of a rule that compares equal to the call, if the rule has its protocol
and ports as the call writes them. -/
def RuleCall.taken (call : RuleCall) (inVpc : Bool) (rule : LocalRule) : Option GroupOrCIDR :=
  if rule.range = call.range then
    (rule.grants.filter (LocalGroup.takes (call.source inVpc))).getLast?
  else none

/-- Every rule has just the grant that the call takes from it as one that the call names,
and no rule that the call empties stands before one with such a grant. -/
structure RuleCall.RevokeRight (call : RuleCall) (sg : LocalGroup) : Prop where
  hasRules : sg.rules ≠ []
  named_eq : ∀ rule ∈ sg.rules, call.named sg.inVpc rule = (call.taken sg.inVpc rule).toList
  apart : sg.rules.IsChain fun rule next =>
    call.named sg.inVpc rule = rule.grants → call.named sg.inVpc next = []

instance : Decidable (call.RevokeRight sg) :=
  decidable_of_iff
    (sg.rules ≠ [] ∧
      (∀ rule ∈ sg.rules, call.named sg.inVpc rule = (call.taken sg.inVpc rule).toList) ∧
      sg.rules.IsChain fun rule next =>
        call.named sg.inVpc rule = rule.grants → call.named sg.inVpc next = [])
    ⟨fun ⟨hasRules, named_eq, apart⟩ => ⟨hasRules, named_eq, apart⟩,
      fun ⟨hasRules, named_eq, apart⟩ => ⟨hasRules, named_eq, apart⟩⟩

/-- An accepted revoke is right. -/
def RuleAction.Right (state : Mirror) : RuleAction → Prop
  | .revoke call true => call.RevokeRight state.sg
  | .revoke _ false => True
  | .authorize _ _ => True

instance (state : Mirror) : DecidablePred (RuleAction.Right state)
  | .revoke call true => inferInstanceAs (Decidable (call.RevokeRight state.sg))
  | .revoke _ false => isTrue trivial
  | .authorize _ _ => isTrue trivial

/-- Every rule has a grant, and the rules are what the service holds. -/
structure Mirror.Exact (state : Mirror) : Prop where
  granted : ∀ rule ∈ state.sg.rules, rule.grants ≠ []
  permissions_eq : state.sg.permissions = state.service

/-! ## The target of a rule -/

namespace LocalGroup

theorem targetGrant_concat (grant : GroupOrCIDR) :
    targetGrant source (grants ++ [grant]) =
      if takes source grant then some grants.length else targetGrant source grants := by
  simp [targetGrant, List.zipIdx_append]

/-- Either nothing is taken, or the target is the last grant that is. -/
theorem targetGrant_cases (source : RuleSource) (grants : List GroupOrCIDR) :
    (targetGrant source grants = none ∧ grants.filter (takes source) = []) ∨
      ∃ before grant after, grants = before ++ grant :: after ∧
        targetGrant source grants = some before.length ∧
        (grants.filter (takes source)).getLast? = some grant := by
  induction grants using List.reverseRecOn with
  | nil => exact Or.inl ⟨rfl, rfl⟩
  | append_singleton grants last ih =>
      rw [targetGrant_concat, List.filter_append]
      by_cases hlast : takes source last = true
      · refine Or.inr ⟨grants, last, [], rfl, if_pos hlast, ?_⟩
        rw [List.filter_cons_of_pos hlast, List.filter_nil, List.getLast?_concat]
      · rw [if_neg hlast, List.filter_cons_of_neg hlast, List.filter_nil, List.append_nil]
        obtain hnone | ⟨before, grant, after, hsplit, htarget, htaken⟩ := ih
        · exact Or.inl hnone
        · exact Or.inr ⟨before, grant, after ++ [last], by simp [hsplit], htarget, htaken⟩

/-- Where the grant that is taken is all that satisfies a predicate, the others are left. -/
theorem removeGrant_eq_filter {p : GroupOrCIDR → Prop} [DecidablePred p]
    (hp : grants.filter p = ((grants.filter (takes source)).getLast?).toList) :
    removeGrant source grants = grants.filter fun grant => ¬p grant := by
  obtain ⟨hnone, hempty⟩ | ⟨before, grant, after, hsplit, htarget, htaken⟩ :=
    targetGrant_cases source grants
  · have hout : ∀ grant ∈ grants, ¬p grant := by
      rw [hempty] at hp
      simpa using hp
    rw [removeGrant, hnone]
    exact (List.filter_eq_self.mpr (by simpa using hout)).symm
  · have hall : grants.filter p = [grant] := by
      rw [hp, htaken, Option.toList_some]
    have hgrant : p grant := by
      have hmem : grant ∈ grants.filter p := by simp [hall]
      simpa using (List.mem_filter.mp hmem).2
    rw [hsplit, List.filter_append, List.filter_cons_of_pos (by simpa using hgrant)] at hall
    have hlength := congrArg List.length hall
    simp only [List.length_append, List.length_cons, List.length_nil] at hlength
    have hbefore : before.filter p = [] := List.length_eq_zero_iff.mp (by omega)
    have hafter : after.filter p = [] := List.length_eq_zero_iff.mp (by omega)
    rw [removeGrant, htarget, hsplit]
    have hleft : before.filter (fun grant => ¬p grant) = before := by
      simpa [List.filter_eq_nil_iff] using hbefore
    have hright : after.filter (fun grant => ¬p grant) = after := by
      simpa [List.filter_eq_nil_iff] using hafter
    simp only [List.eraseIdx_append_of_length_le le_rfl, Nat.sub_self, List.eraseIdx_cons_zero]
    rw [List.filter_append, List.filter_cons_of_neg (by simpa using hgrant), hleft, hright]

/-! ## The loop over the rules -/

/-- The rule without the grants that the call names. -/
def without (call : RuleCall) (inVpc : Bool) (rule : LocalRule) : LocalRule :=
  { rule with grants := rule.grants.filter fun grant => ¬call.Names inVpc rule grant }

theorem without_eq_self (hnamed : call.named inVpc rule = []) :
    without call inVpc rule = rule := by
  have hall : rule.grants.filter (fun grant => ¬call.Names inVpc rule grant) = rule.grants := by
    simpa [RuleCall.named, List.filter_eq_nil_iff] using hnamed
  rw [without, hall]

theorem without_grants_eq_nil_iff :
    (without call inVpc rule).grants = [] ↔ call.named inVpc rule = rule.grants := by
  simp [without, RuleCall.named, List.filter_eq_nil_iff, List.filter_eq_self]

theorem taken_of_range_ne (hrange : rule.range ≠ call.range) : call.taken inVpc rule = none :=
  if_neg hrange

theorem visited_eq_without
    (hnamed : call.named inVpc rule = (call.taken inVpc rule).toList) :
    visited call.range (call.source inVpc) rule = without call inVpc rule := by
  by_cases hrange : rule.range = call.range
  · rw [RuleCall.taken, if_pos hrange] at hnamed
    rw [visited, if_pos hrange, removeGrant_eq_filter (p := call.Names inVpc rule) hnamed, without]
  · rw [taken_of_range_ne hrange] at hnamed
    rw [visited, if_neg hrange, without_eq_self hnamed]

/-- The loop leaves the rules that keep a grant. -/
theorem removeLoop_right {skip : Bool}
    (hgranted : ∀ rule ∈ rules, rule.grants ≠ [])
    (hnamed : ∀ rule ∈ rules, call.named inVpc rule = (call.taken inVpc rule).toList)
    (hapart : rules.IsChain fun rule next =>
      call.named inVpc rule = rule.grants → call.named inVpc next = [])
    (hskip : skip = true → ∀ rule ∈ rules.head?, call.named inVpc rule = []) :
    removeLoop call.range (call.source inVpc) passed target skip rules =
      .ok (passed ++ (rules.map (without call inVpc)).filter (·.grants ≠ [])) := by
  induction rules generalizing passed target skip with
  | nil => simp [removeLoop]
  | cons rule rules ih =>
      have hrest : ∀ {passed target skip},
          (skip = true → ∀ rule ∈ rules.head?, call.named inVpc rule = []) →
          removeLoop call.range (call.source inVpc) passed target skip rules =
            .ok (passed ++ (rules.map (without call inVpc)).filter (·.grants ≠ [])) :=
        ih (fun rule hrule => hgranted rule (List.mem_cons_of_mem _ hrule))
          (fun rule hrule => hnamed rule (List.mem_cons_of_mem _ hrule)) hapart.tail
      have hrule := hgranted rule List.mem_cons_self
      have htaken := hnamed rule List.mem_cons_self
      cases skip with
      | true =>
          have hself : without call inVpc rule = rule :=
            without_eq_self (hskip rfl rule (by simp))
          rw [removeLoop, hrest (by simp)]
          simp [hself, hrule]
      | false =>
          rw [removeLoop, visited_eq_without htaken]
          by_cases hempty : (without call inVpc rule).grants = []
          · have hall := without_grants_eq_nil_iff.mp hempty
            have hrange : rule.range = call.range := by
              by_contra hrange
              rw [taken_of_range_ne hrange, hall] at htaken
              exact hrule htaken
            have hnext : ∀ next ∈ rules.head?, call.named inVpc next = [] := by
              cases rules with
              | nil => simp
              | cons next rules =>
                  rintro _ ⟨⟩
                  exact (List.isChain_cons_cons.mp hapart).1 hall
            rw [if_pos hempty, if_pos hrange]
            simp only [List.eraseIdx_append_of_length_le le_rfl, Nat.sub_self,
              List.eraseIdx_cons_zero, List.append_nil]
            rw [hrest fun _ => hnext]
            simp [hempty]
          · rw [if_neg hempty, hrest (by simp)]
            simp [hempty]

/-! ## Permissions -/

theorem mem_permissions {permission : Permission} :
    permission ∈ sg.permissions ↔ ∃ rule ∈ sg.rules, ∃ grant ∈ rule.grants,
      ⟨rule.range.value, .ofGrant sg.inVpc grant⟩ = permission := by
  simp [permissions, LocalRule.permissions]

theorem mem_without {grant : GroupOrCIDR} :
    grant ∈ (without call inVpc rule).grants ↔
      grant ∈ rule.grants ∧ ¬call.Names inVpc rule grant := by
  simp [without]

/-- A right revoke takes just the permissions that the call names. -/
theorem revoke_right (hgranted : ∀ rule ∈ sg.rules, rule.grants ≠ [])
    (hright : call.RevokeRight sg) :
    ∃ sg', sg.revoke call = .ok sg' ∧ (∀ rule ∈ sg'.rules, rule.grants ≠ []) ∧
      sg'.permissions = sg.permissions \ call.permissions sg.inVpc := by
  have hloop : removeLoop call.range (call.source sg.inVpc) [] none false sg.rules =
      .ok ([] ++ (sg.rules.map (without call sg.inVpc)).filter (·.grants ≠ [])) :=
    removeLoop_right hgranted hright.named_eq hright.apart (by simp)
  refine ⟨{ sg with rules := (sg.rules.map (without call sg.inVpc)).filter (·.grants ≠ []) },
    ?_, ?_, ?_⟩
  · rw [revoke, removeRule, if_neg hright.hasRules, hloop]
    rfl
  · intro rule hrule
    simpa using (List.mem_filter.mp hrule).2
  · ext permission
    rw [Finset.mem_sdiff, mem_permissions, mem_permissions]
    constructor
    · rintro ⟨_, hrule, grant, hgrant, rfl⟩
      obtain ⟨rule, hmem, rfl⟩ := List.mem_map.mp (List.mem_filter.mp hrule).1
      obtain ⟨hin, hout⟩ := mem_without.mp hgrant
      exact ⟨⟨rule, hmem, grant, hin, rfl⟩, hout⟩
    · rintro ⟨⟨rule, hrule, grant, hgrant, rfl⟩, hout⟩
      have hleft : grant ∈ (without call sg.inVpc rule).grants := mem_without.mpr ⟨hgrant, hout⟩
      refine ⟨without call sg.inVpc rule, List.mem_filter.mpr ⟨List.mem_map_of_mem hrule, ?_⟩,
        grant, hleft, rfl⟩
      simpa using List.ne_nil_of_mem hleft

theorem addRules_eq (cidrIps : List (Option Text)) (rules : List LocalRule) :
    cidrIps.foldl (fun rules cidrIp => addRule range source cidrIp rules) rules =
      rules ++ cidrIps.map fun cidrIp => ⟨range, [newGrant source cidrIp]⟩ := by
  induction cidrIps generalizing rules with
  | nil => simp
  | cons cidrIp cidrIps ih => rw [List.foldl_cons, ih, addRule, List.append_assoc]; rfl

/-- The grants that `authorize` adds are for those whom the call names. -/
theorem added_grantees :
    ((call.source inVpc).cidrIp.added.map fun cidrIp =>
      RuleGrantee.ofGrant inVpc (newGrant (call.source inVpc) cidrIp)) = call.grantees inVpc := by
  obtain ⟨range, cidrIp, srcGroup⟩ := call
  cases srcGroup with
  | some srcGroup =>
      cases inVpc <;> rfl
  | none =>
      cases cidrIp with
      | single cidrIp =>
          cases cidrIp with
          | none => cases inVpc <;> rfl
          | some cidrIp => rfl
      | list cidrIps =>
          simp [RuleCall.source, CidrIp.added, RuleCall.grantees, newGrant, RuleGrantee.ofGrant]

theorem authorize_granted (hgranted : ∀ rule ∈ sg.rules, rule.grants ≠ []) :
    ∀ rule ∈ (sg.authorize call).rules, rule.grants ≠ [] := by
  intro rule hrule
  rw [authorize, addRules_eq, List.mem_append, List.mem_map] at hrule
  obtain hold | ⟨cidrIp, -, rfl⟩ := hrule
  · exact hgranted rule hold
  · simp

/-- An authorize adds just the permissions that the call names. -/
theorem authorize_permissions :
    (sg.authorize call).permissions = sg.permissions ∪ call.permissions sg.inVpc := by
  have hadded : ((call.source sg.inVpc).cidrIp.added.map fun cidrIp =>
      (⟨call.range, [newGrant (call.source sg.inVpc) cidrIp]⟩ : LocalRule)).flatMap
        (·.permissions sg.inVpc) =
      (call.grantees sg.inVpc).map fun grantee => ⟨call.range.value, grantee⟩ := by
    rw [← added_grantees, List.flatMap_map, List.map_map]
    exact List.flatMap_pure_eq_map _ _
  have hvpc : (sg.authorize call).inVpc = sg.inVpc := rfl
  rw [permissions, hvpc, authorize, addRules_eq, List.flatMap_append, List.toFinset_append,
    hadded, RuleCall.permissions, permissions]

end LocalGroup

/-! ## Runs -/

namespace Mirror

variable {state : Mirror}

/-- A right call does not raise and leaves the rules what the service holds. -/
theorem step_exact (action : RuleAction) (hexact : state.Exact) (hright : action.Right state) :
    ∃ state', state.step action = some state' ∧ state'.Exact := by
  cases action with
  | authorize call accepted =>
      cases accepted with
      | false => exact ⟨state, rfl, hexact⟩
      | true =>
          refine ⟨_, rfl, LocalGroup.authorize_granted hexact.granted, ?_⟩
          rw [LocalGroup.authorize_permissions, hexact.permissions_eq]
  | revoke call accepted =>
      cases accepted with
      | false => exact ⟨state, rfl, hexact⟩
      | true =>
          obtain ⟨sg, hrevoke, hgranted, hpermissions⟩ :=
            LocalGroup.revoke_right hexact.granted hright
          refine ⟨_, by rw [step, hrevoke], hgranted, ?_⟩
          rw [hpermissions, hexact.permissions_eq]

/-- After every beginning of a run whose revokes are right, no call has raised and the rules
are what the service holds. -/
theorem rules_mirror_service (group : LocalGroup) (earlier later : List RuleAction)
    (hgranted : ∀ rule ∈ group.rules, rule.grants ≠ [])
    (hright : Runs.Guarded Mirror.step (fun state action => action.Right state)
      ⟨group, group.permissions⟩ (earlier ++ later)) :
    ∃ state, Runs.run Mirror.step ⟨group, group.permissions⟩ earlier = some state ∧
      state.sg.permissions = state.service := by
  obtain ⟨state, hstate, hexact⟩ :=
    Runs.exists_run_of_step (fun _ action hexact => step_exact action hexact) ⟨hgranted, rfl⟩
      hright.append_left
  exact ⟨state, hstate, hexact.permissions_eq⟩

/-- A group as it is loaded, with two addresses for one port. -/
def loaded : LocalGroup where
  vpcId := none
  rules :=
    [{ range := ⟨some "tcp".toList, .text "22".toList, .text "22".toList⟩
       grants := ["10.0.0.0/8", "10.1.0.0/16"].map fun cidrIp =>
         ⟨none, none, none, some cidrIp.toList⟩ }]

/-- A call for the port and an address. -/
def portCall (port : Port) (cidrIp : String) : RuleCall where
  range := ⟨some "tcp".toList, port, port⟩
  cidrIp := .single (some cidrIp.toList)
  srcGroup := none

/-- An address that is revoked, allowed again by the number of the port and revoked again. -/
theorem rules_mirror_service_loaded :
    ∃ state, Runs.run Mirror.step ⟨loaded, loaded.permissions⟩
        ([.revoke (portCall (.text "22".toList) "10.0.0.0/8") true,
          .authorize (portCall (.number 22) "10.0.0.0/8") true,
          .revoke (portCall (.number 22) "10.0.0.0/8") true]) = some state ∧
      state.sg.permissions = state.service :=
  rules_mirror_service loaded _ [] (by decide +kernel) (by decide +kernel)

/-- The number of the port, as it is documented, does not revoke what was loaded. -/
theorem rules_differ_from_service :
    ∃ state, Runs.run Mirror.step ⟨loaded, loaded.permissions⟩
        [.revoke (portCall (.number 22) "10.0.0.0/8") true] = some state ∧
      state.sg.permissions ≠ state.service :=
  ⟨_, rfl, by decide +kernel⟩

end Mirror

end Boto.EC2
