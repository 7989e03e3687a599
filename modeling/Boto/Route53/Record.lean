import Boto.WrittenNumbers

/-!
# Records

`Record` of `boto/route53/record.py`: a resource record set, how it is written, and how its
fields are read one by one.
-/

namespace Boto.Route53

open Auth (strInt)

/-- The value of a `ttl` or a `weight`: a number that was given, or a text that was read. -/
inductive Number
  | int (value : ℤ)
  | text (value : Text)
  deriving DecidableEq

/-- `'%s' % value`. -/
def Number.percentS : Number → Text
  | .int value => strInt value
  | .text value => value

/-- `'%s' % value`, where the value may be `None`. -/
def percentS : Option Text → Text
  | none => "None".toList
  | some value => value

/-- `Record`. -/
structure Record where
  name : Option Text
  type : Option Text
  ttl : Number
  resourceRecords : List Text
  aliasHostedZoneId : Option Text
  aliasDnsName : Option Text
  identifier : Option Text
  weight : Option Number
  region : Option Text
  aliasEvaluateTargetHealth : Option Bool
  healthCheck : Option Text
  failover : Option Text
  deriving DecidableEq

namespace Record

/-- `Record()`. -/
def init : Record where
  name := none
  type := none
  ttl := .int 600
  resourceRecords := []
  aliasHostedZoneId := none
  aliasDnsName := none
  identifier := none
  weight := none
  region := none
  aliasEvaluateTargetHealth := none
  healthCheck := none
  failover := none

/-! ## Writing -/

/-- `HealthCheckBody`. -/
def healthCheckBody (healthCheck : Text) : Text :=
  "<HealthCheckId>".toList ++ healthCheck ++ "</HealthCheckId>".toList

/-- `XMLBody`. -/
def xmlBody (name type weight body healthCheck : Text) : Text :=
  "<ResourceRecordSet>\n        <Name>".toList ++ name ++
    "</Name>\n        <Type>".toList ++ type ++ "</Type>\n        ".toList ++ weight ++
    "\n        ".toList ++ body ++ "\n        ".toList ++ healthCheck ++
    "\n    </ResourceRecordSet>".toList

/-- `WRRBody`. -/
def wrrBody (identifier weight : Text) : Text :=
  "\n        <SetIdentifier>".toList ++ identifier ++
    "</SetIdentifier>\n        <Weight>".toList ++ weight ++ "</Weight>\n    ".toList

/-- `RRRBody`. -/
def rrrBody (identifier region : Text) : Text :=
  "\n        <SetIdentifier>".toList ++ identifier ++
    "</SetIdentifier>\n        <Region>".toList ++ region ++ "</Region>\n    ".toList

/-- `FailoverBody`. -/
def failoverBody (identifier failover : Text) : Text :=
  "\n        <SetIdentifier>".toList ++ identifier ++
    "</SetIdentifier>\n        <Failover>".toList ++ failover ++ "</Failover>\n    ".toList

/-- `ResourceRecordsBody`. -/
def resourceRecordsBody (ttl records : Text) : Text :=
  "\n        <TTL>".toList ++ ttl ++
    "</TTL>\n        <ResourceRecords>\n            ".toList ++ records ++
    "\n        </ResourceRecords>".toList

/-- `ResourceRecordBody`. -/
def resourceRecordBody (value : Text) : Text :=
  "<ResourceRecord>\n        <Value>".toList ++ value ++
    "</Value>\n    </ResourceRecord>".toList

/-- `AliasBody`. -/
def aliasBody (hostedZoneId dnsName evalTargetHealth : Text) : Text :=
  "<AliasTarget>\n        <HostedZoneId>".toList ++ hostedZoneId ++
    "</HostedZoneId>\n        <DNSName>".toList ++ dnsName ++ "</DNSName>\n        ".toList ++
    evalTargetHealth ++ "\n    </AliasTarget>".toList

/-- `EvaluateTargetHealth`. -/
def evaluateTargetHealth (value : Text) : Text :=
  "<EvaluateTargetHealth>".toList ++ value ++ "</EvaluateTargetHealth>".toList

/-- The body of `to_xml`. -/
def bodyXml (self : Record) : Text :=
  match self.aliasHostedZoneId, self.aliasDnsName with
  | some hostedZoneId, some dnsName =>
      let evalTargetHealth := match self.aliasEvaluateTargetHealth with
        | some evaluate =>
            evaluateTargetHealth (if evaluate then "true".toList else "false".toList)
        | none => []
      aliasBody hostedZoneId dnsName evalTargetHealth
  | _, _ =>
      let records := self.resourceRecords.flatMap resourceRecordBody
      resourceRecordsBody self.ttl.percentS records

/-- The part of `to_xml` that tells records of one name and type apart. -/
def weightXml (self : Record) : Text :=
  match self.identifier, self.weight, self.region, self.failover with
  | some identifier, some weight, _, _ => wrrBody identifier weight.percentS
  | some identifier, none, some region, _ => rrrBody identifier region
  | some identifier, none, none, some failover => failoverBody identifier failover
  | _, _, _, _ => []

/-- `to_xml`. -/
def toXml (self : Record) : Text :=
  let healthCheck := match self.healthCheck with
    | some healthCheck => healthCheckBody healthCheck
    | none => []
  xmlBody (percentS self.name) (percentS self.type) self.weightXml self.bodyXml healthCheck

/-- `to_print`. -/
def toPrint (self : Record) : Text :=
  let rr := match self.aliasHostedZoneId, self.aliasDnsName with
    | some hostedZoneId, some dnsName =>
        "ALIAS ".toList ++ hostedZoneId ++ " ".toList ++ dnsName ++
          match self.aliasEvaluateTargetHealth with
          | some true => " (EvalTarget True)".toList
          | some false => " (EvalTarget False)".toList
          | none => []
    | _, _ => ",".toList.intercalate self.resourceRecords
  match self.identifier, self.weight, self.region, self.failover with
  | some identifier, some weight, _, _ =>
      rr ++ " (WRR id=".toList ++ identifier ++ ", w=".toList ++ weight.percentS ++ ")".toList
  | some identifier, none, some region, _ =>
      rr ++ " (LBR id=".toList ++ identifier ++ ", region=".toList ++ region ++ ")".toList
  | some identifier, none, none, some failover =>
      rr ++ " (FAILOVER id=".toList ++ identifier ++ ", failover=".toList ++ failover ++
        ")".toList
  | _, _, _, _ => rr

/-! ## Reading -/

/-- `endElement`. -/
def endElement (name value : Text) (self : Record) : Record :=
  if name = "Name".toList then { self with name := some value }
  else if name = "Type".toList then { self with type := some value }
  else if name = "TTL".toList then { self with ttl := .text value }
  else if name = "Value".toList then
    { self with resourceRecords := self.resourceRecords ++ [value] }
  else if name = "HostedZoneId".toList then { self with aliasHostedZoneId := some value }
  else if name = "DNSName".toList then { self with aliasDnsName := some value }
  else if name = "SetIdentifier".toList then { self with identifier := some value }
  else if name = "EvaluateTargetHealth".toList then
    { self with
      aliasEvaluateTargetHealth := some (decide (value.map Char.toLower = "true".toList)) }
  else if name = "Weight".toList then { self with weight := some (.text value) }
  else if name = "Region".toList then { self with region := some value }
  else if name = "Failover".toList then { self with failover := some value }
  else if name = "HealthCheckId".toList then { self with healthCheck := some value }
  else self

/-- The methods of a record, which is the only object of its document. -/
def methods : Nodes Unit Record where
  startElement _ _ self := (none, self)
  endElement _ name value self := .ok (self.endElement name value)

end Record

/-! ## Kinds of records -/

/-- What a record stands for: values, or another name. -/
inductive Content
  | plain (values : List Text)
  | toAlias (hostedZoneId dnsName : Text) (evaluateTargetHealth : Option Bool)
  deriving DecidableEq

/-- How a record is told apart from others of its name and type. -/
inductive Routing
  | simple
  | weighted (identifier : Text) (weight : Number)
  | latency (identifier region : Text)
  | failover (identifier kind : Text)
  deriving DecidableEq

/-- A record of one of the kinds. -/
structure RecordSet where
  name : Text
  type : Text
  ttl : Number
  content : Content
  routing : Routing
  healthCheck : Option Text

/-- A record with a content. -/
def Content.giveTo (self : Content) (record : Record) : Record :=
  match self with
  | .plain values => { record with resourceRecords := values }
  | .toAlias hostedZoneId dnsName evaluateTargetHealth =>
      { record with
        aliasHostedZoneId := some hostedZoneId
        aliasDnsName := some dnsName
        aliasEvaluateTargetHealth := evaluateTargetHealth }

/-- A record with a routing. -/
def Routing.giveTo (self : Routing) (record : Record) : Record :=
  match self with
  | .simple => record
  | .weighted identifier weight =>
      { record with identifier := some identifier, weight := some weight }
  | .latency identifier region =>
      { record with identifier := some identifier, region := some region }
  | .failover identifier kind =>
      { record with identifier := some identifier, failover := some kind }

/-- The record, built by `Record` and `set_alias` or `add_value`. -/
def RecordSet.record (self : RecordSet) : Record :=
  self.routing.giveTo (self.content.giveTo
    { Record.init with
      name := some self.name
      type := some self.type
      ttl := self.ttl
      healthCheck := self.healthCheck })

end Boto.Route53
