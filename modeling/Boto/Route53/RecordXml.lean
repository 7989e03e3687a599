import Boto.Route53.Record
import Boto.Support.XmlWeight

/-!
# Records as documents

The templates of a record write its elements with white space between them.
-/

namespace Boto.Route53

open Xml (Node Writes)

/-! ## Elements -/

/-- The text for a flag. -/
def flagText (evaluate : Bool) : Text := if evaluate then "true".toList else "false".toList

/-- The element of a value. -/
def valueNode (value : Text) : Node :=
  .element "ResourceRecord".toList [.leaf "Value".toList value]

namespace Content

/-- The elements of a content. -/
def nodes (ttl : Number) : Content → List Node
  | .plain values =>
      [.leaf "TTL".toList ttl.percentS, .element "ResourceRecords".toList (values.map valueNode)]
  | .toAlias hostedZoneId dnsName evaluate =>
      [.element "AliasTarget".toList (.leaf "HostedZoneId".toList hostedZoneId ::
        .leaf "DNSName".toList dnsName ::
        (evaluate.map flagText).toList.map (.leaf "EvaluateTargetHealth".toList))]

/-- The texts in them. -/
def texts (ttl : Number) : Content → List Text
  | .plain values => ttl.percentS :: values
  | .toAlias hostedZoneId dnsName evaluate =>
      hostedZoneId :: dnsName :: (evaluate.map flagText).toList

end Content

namespace Routing

/-- The elements of a routing. -/
def nodes : Routing → List Node
  | .simple => []
  | .weighted identifier weight =>
      [.leaf "SetIdentifier".toList identifier, .leaf "Weight".toList weight.percentS]
  | .latency identifier region =>
      [.leaf "SetIdentifier".toList identifier, .leaf "Region".toList region]
  | .failover identifier kind =>
      [.leaf "SetIdentifier".toList identifier, .leaf "Failover".toList kind]

/-- The texts in them. -/
def texts : Routing → List Text
  | .simple => []
  | .weighted identifier weight => [identifier, weight.percentS]
  | .latency identifier region => [identifier, region]
  | .failover identifier kind => [identifier, kind]

end Routing

namespace RecordSet

variable (self : RecordSet)

/-- The elements of a record. -/
def nodes : List Node :=
  [.leaf "Name".toList self.name, .leaf "Type".toList self.type] ++ (self.routing.nodes ++
    (self.content.nodes self.ttl ++ self.healthCheck.toList.map (.leaf "HealthCheckId".toList)))

/-- The texts in them. -/
def texts : List Text :=
  [self.name, self.type] ++ (self.routing.texts ++
    (self.content.texts self.ttl ++ self.healthCheck.toList))

end RecordSet

/-- The names of the elements that hold elements. -/
def IsRecordContainer (name : Text) : Prop :=
  name ∈ ["ResourceRecordSet".toList, "ResourceRecords".toList, "ResourceRecord".toList,
    "AliasTarget".toList]

instance : DecidablePred IsRecordContainer := fun name =>
  inferInstanceAs (Decidable (name ∈ ["ResourceRecordSet".toList, "ResourceRecords".toList,
    "ResourceRecord".toList, "AliasTarget".toList]))

/-! ## What the templates write -/

/-- The white space of the templates. -/
def lineStart (n : ℕ) : Text := '\n' :: List.replicate n ' '

theorem isCleanSpace_lineStart (n : ℕ) : Xml.IsCleanSpace (lineStart n) := by
  intro c hc
  rcases List.mem_cons.mp hc with rfl | hc
  · decide
  · rw [List.eq_of_mem_replicate hc]
    decide

theorem writes_line (n : ℕ) : Writes IsRecordContainer [] (lineStart n) :=
  .space (isCleanSpace_lineStart n)

/-- An element with text. -/
def tagged (name content : Text) : Text :=
  '<' :: (name ++ '>' :: (content ++ '<' :: '/' :: (name ++ ['>'])))

theorem writes_tagged (name content : Text) :
    Writes IsRecordContainer [.leaf name content] (tagged name content) := by
  have hrender : tagged name content = (Node.leaf name content).render := by
    simp [tagged, Node.leaf, Node.render, Node.renderOf]
  rw [hrender]
  exact .leaf name content

/-- An element with what another piece writes. -/
theorem writes_element {name inner : Text} {children : List Node} (hname : IsRecordContainer name)
    (hchildren : Writes IsRecordContainer children inner) :
    Writes IsRecordContainer [.element name children] (tagged name inner) :=
  .element hname hchildren

/-- The templates for an identifier differ in the element behind it. -/
theorem writes_identified (tag identifier value : Text) :
    Writes IsRecordContainer [.leaf "SetIdentifier".toList identifier, .leaf tag value]
      (lineStart 8 ++ (tagged "SetIdentifier".toList identifier ++ (lineStart 8 ++
        (tagged tag value ++ lineStart 4)))) :=
  (writes_line 8).append ((writes_tagged _ _).append ((writes_line 8).append
    ((writes_tagged _ _).append (writes_line 4))))

theorem writes_wrrBody (identifier weight : Text) :
    Writes IsRecordContainer
      [.leaf "SetIdentifier".toList identifier, .leaf "Weight".toList weight]
      (Record.wrrBody identifier weight) := by
  have hfirst : "\n        <SetIdentifier>".toList =
      lineStart 8 ++ '<' :: ("SetIdentifier".toList ++ ['>']) := by decide
  have hsecond : "</SetIdentifier>\n        <Weight>".toList =
      '<' :: '/' :: ("SetIdentifier".toList ++ '>' :: (lineStart 8 ++
        '<' :: ("Weight".toList ++ ['>']))) := by decide
  have hthird : "</Weight>\n    ".toList =
      '<' :: '/' :: ("Weight".toList ++ '>' :: lineStart 4) := by decide
  have hwrites := writes_identified "Weight".toList identifier weight
  unfold Record.wrrBody
  simp only [hfirst, hsecond, hthird]
  simp only [tagged, List.append_assoc, List.cons_append, List.nil_append] at hwrites ⊢
  exact hwrites

theorem writes_rrrBody (identifier region : Text) :
    Writes IsRecordContainer
      [.leaf "SetIdentifier".toList identifier, .leaf "Region".toList region]
      (Record.rrrBody identifier region) := by
  have hfirst : "\n        <SetIdentifier>".toList =
      lineStart 8 ++ '<' :: ("SetIdentifier".toList ++ ['>']) := by decide
  have hsecond : "</SetIdentifier>\n        <Region>".toList =
      '<' :: '/' :: ("SetIdentifier".toList ++ '>' :: (lineStart 8 ++
        '<' :: ("Region".toList ++ ['>']))) := by decide
  have hthird : "</Region>\n    ".toList =
      '<' :: '/' :: ("Region".toList ++ '>' :: lineStart 4) := by decide
  have hwrites := writes_identified "Region".toList identifier region
  unfold Record.rrrBody
  simp only [hfirst, hsecond, hthird]
  simp only [tagged, List.append_assoc, List.cons_append, List.nil_append] at hwrites ⊢
  exact hwrites

theorem writes_failoverBody (identifier failover : Text) :
    Writes IsRecordContainer
      [.leaf "SetIdentifier".toList identifier, .leaf "Failover".toList failover]
      (Record.failoverBody identifier failover) := by
  have hfirst : "\n        <SetIdentifier>".toList =
      lineStart 8 ++ '<' :: ("SetIdentifier".toList ++ ['>']) := by decide
  have hsecond : "</SetIdentifier>\n        <Failover>".toList =
      '<' :: '/' :: ("SetIdentifier".toList ++ '>' :: (lineStart 8 ++
        '<' :: ("Failover".toList ++ ['>']))) := by decide
  have hthird : "</Failover>\n    ".toList =
      '<' :: '/' :: ("Failover".toList ++ '>' :: lineStart 4) := by decide
  have hwrites := writes_identified "Failover".toList identifier failover
  unfold Record.failoverBody
  simp only [hfirst, hsecond, hthird]
  simp only [tagged, List.append_assoc, List.cons_append, List.nil_append] at hwrites ⊢
  exact hwrites

theorem writes_resourceRecordBody (value : Text) :
    Writes IsRecordContainer [valueNode value] (Record.resourceRecordBody value) := by
  have hopen : "<ResourceRecord>\n        <Value>".toList =
      '<' :: ("ResourceRecord".toList ++ '>' :: (lineStart 8 ++
        '<' :: ("Value".toList ++ ['>']))) := by decide
  have hclose : "</Value>\n    </ResourceRecord>".toList =
      '<' :: '/' :: ("Value".toList ++ '>' :: (lineStart 4 ++
        '<' :: '/' :: ("ResourceRecord".toList ++ ['>']))) := by decide
  have hinner : Writes IsRecordContainer [.leaf "Value".toList value]
      (lineStart 8 ++ (tagged "Value".toList value ++ lineStart 4)) :=
    (writes_line 8).append ((writes_tagged _ _).append (writes_line 4))
  have hwrites := @writes_element "ResourceRecord".toList _ _ (by decide) hinner
  unfold Record.resourceRecordBody valueNode
  simp only [hopen, hclose]
  simp only [tagged, List.append_assoc, List.cons_append, List.nil_append] at hwrites ⊢
  exact hwrites

theorem writes_resourceRecordsBody (ttl : Number) (values : List Text) :
    Writes IsRecordContainer (Content.nodes ttl (.plain values))
      (Record.resourceRecordsBody ttl.percentS (values.flatMap Record.resourceRecordBody)) := by
  have hfirst : "\n        <TTL>".toList = lineStart 8 ++ '<' :: ("TTL".toList ++ ['>']) := by
    decide
  have hsecond : "</TTL>\n        <ResourceRecords>\n            ".toList =
      '<' :: '/' :: ("TTL".toList ++ '>' :: (lineStart 8 ++
        '<' :: ("ResourceRecords".toList ++ '>' :: lineStart 12))) := by decide
  have hthird : "\n        </ResourceRecords>".toList =
      lineStart 8 ++ '<' :: '/' :: ("ResourceRecords".toList ++ ['>']) := by decide
  have hinner : Writes IsRecordContainer (values.map valueNode)
      (lineStart 12 ++ (values.flatMap Record.resourceRecordBody ++ lineStart 8)) := by
    have hvalues := (Writes.flatMap writes_resourceRecordBody values).append (writes_line 8)
    rw [List.append_nil] at hvalues
    exact (writes_line 12).append hvalues
  have hwrites := (writes_line 8).append ((writes_tagged "TTL".toList ttl.percentS).append
    ((writes_line 8).append (@writes_element "ResourceRecords".toList _ _ (by decide) hinner)))
  unfold Record.resourceRecordsBody
  simp only [hfirst, hsecond, hthird]
  simp only [tagged, List.append_assoc, List.cons_append, List.nil_append] at hwrites ⊢
  exact hwrites

/-- The element for a flag. -/
theorem writes_evaluate (evaluate : Option Bool) :
    Writes IsRecordContainer
      ((evaluate.map flagText).toList.map (.leaf "EvaluateTargetHealth".toList))
      (match evaluate with
        | some evaluate =>
            Record.evaluateTargetHealth (if evaluate then "true".toList else "false".toList)
        | none => []) := by
  cases evaluate with
  | none => exact .space Xml.isCleanSpace_nil
  | some evaluate =>
      have hopen : "<EvaluateTargetHealth>".toList =
          '<' :: ("EvaluateTargetHealth".toList ++ ['>']) := by decide
      have hclose : "</EvaluateTargetHealth>".toList =
          '<' :: '/' :: ("EvaluateTargetHealth".toList ++ ['>']) := by decide
      have hwrites := writes_tagged "EvaluateTargetHealth".toList (flagText evaluate)
      dsimp only
      unfold Record.evaluateTargetHealth
      simp only [hopen, hclose]
      simp only [tagged, List.append_assoc, List.cons_append, List.nil_append] at hwrites ⊢
      exact hwrites

theorem writes_aliasBody (ttl : Number) (hostedZoneId dnsName : Text) (evaluate : Option Bool) :
    Writes IsRecordContainer (Content.nodes ttl (.toAlias hostedZoneId dnsName evaluate))
      (Record.aliasBody hostedZoneId dnsName
        (match evaluate with
          | some evaluate =>
              Record.evaluateTargetHealth (if evaluate then "true".toList else "false".toList)
          | none => [])) := by
  have hfirst : "<AliasTarget>\n        <HostedZoneId>".toList =
      '<' :: ("AliasTarget".toList ++ '>' :: (lineStart 8 ++
        '<' :: ("HostedZoneId".toList ++ ['>']))) := by decide
  have hsecond : "</HostedZoneId>\n        <DNSName>".toList =
      '<' :: '/' :: ("HostedZoneId".toList ++ '>' :: (lineStart 8 ++
        '<' :: ("DNSName".toList ++ ['>']))) := by decide
  have hthird : "</DNSName>\n        ".toList =
      '<' :: '/' :: ("DNSName".toList ++ '>' :: lineStart 8) := by decide
  have hfourth : "\n    </AliasTarget>".toList =
      lineStart 4 ++ '<' :: '/' :: ("AliasTarget".toList ++ ['>']) := by decide
  have hrest := (writes_line 8).append ((writes_evaluate evaluate).append (writes_line 4))
  rw [List.append_nil] at hrest
  have hinner := (writes_line 8).append ((writes_tagged "HostedZoneId".toList hostedZoneId).append
    ((writes_line 8).append ((writes_tagged "DNSName".toList dnsName).append hrest)))
  have hwrites := @writes_element "AliasTarget".toList _ _ (by decide) hinner
  unfold Record.aliasBody
  simp only [hfirst, hsecond, hthird, hfourth]
  simp only [tagged, List.append_assoc, List.cons_append, List.nil_append] at hwrites ⊢
  exact hwrites

/-! ## The document of a record -/

namespace RecordSet

variable (self : RecordSet)

theorem writes_weightXml : Writes IsRecordContainer self.routing.nodes self.record.weightXml := by
  obtain ⟨name, type, ttl, content, routing, healthCheck⟩ := self
  cases routing with
  | simple =>
      cases content with
      | plain values => exact .space Xml.isCleanSpace_nil
      | toAlias hostedZoneId dnsName evaluate => exact .space Xml.isCleanSpace_nil
  | weighted identifier weight =>
      cases content with
      | plain values => exact writes_wrrBody identifier weight.percentS
      | toAlias hostedZoneId dnsName evaluate => exact writes_wrrBody identifier weight.percentS
  | latency identifier region =>
      cases content with
      | plain values => exact writes_rrrBody identifier region
      | toAlias hostedZoneId dnsName evaluate => exact writes_rrrBody identifier region
  | failover identifier kind =>
      cases content with
      | plain values => exact writes_failoverBody identifier kind
      | toAlias hostedZoneId dnsName evaluate => exact writes_failoverBody identifier kind

theorem writes_bodyXml :
    Writes IsRecordContainer (self.content.nodes self.ttl) self.record.bodyXml := by
  obtain ⟨name, type, ttl, content, routing, healthCheck⟩ := self
  cases content with
  | plain values =>
      have hwrites := writes_resourceRecordsBody ttl values
      cases routing <;> exact hwrites
  | toAlias hostedZoneId dnsName evaluate =>
      have hwrites := writes_aliasBody ttl hostedZoneId dnsName evaluate
      cases routing <;> exact hwrites

/-- The text of the health check. -/
def healthCheckXml : Text :=
  match self.healthCheck with
  | some healthCheck => Record.healthCheckBody healthCheck
  | none => []

theorem writes_healthCheckXml :
    Writes IsRecordContainer (self.healthCheck.toList.map (.leaf "HealthCheckId".toList))
      self.healthCheckXml := by
  rw [healthCheckXml]
  cases self.healthCheck with
  | none => exact .space Xml.isCleanSpace_nil
  | some healthCheck =>
      have hopen : "<HealthCheckId>".toList = '<' :: ("HealthCheckId".toList ++ ['>']) := by
        decide
      have hclose : "</HealthCheckId>".toList =
          '<' :: '/' :: ("HealthCheckId".toList ++ ['>']) := by decide
      have hwrites := writes_tagged "HealthCheckId".toList healthCheck
      dsimp only
      unfold Record.healthCheckBody
      simp only [hopen, hclose]
      simp only [tagged, List.append_assoc, List.cons_append, List.nil_append] at hwrites ⊢
      exact hwrites

/-- What stands between the tags of the document. -/
def inner : Text :=
  lineStart 8 ++ (tagged "Name".toList self.name ++ (lineStart 8 ++
    (tagged "Type".toList self.type ++ (lineStart 8 ++ (self.record.weightXml ++ (lineStart 8 ++
      (self.record.bodyXml ++ (lineStart 8 ++ (self.healthCheckXml ++ lineStart 4)))))))))

theorem writes_inner : Writes IsRecordContainer self.nodes self.inner := by
  have hlast := self.writes_healthCheckXml.append (writes_line 4)
  rw [List.append_nil] at hlast
  exact (writes_line 8).append ((writes_tagged _ _).append ((writes_line 8).append
    ((writes_tagged _ _).append ((writes_line 8).append (self.writes_weightXml.append
      ((writes_line 8).append (self.writes_bodyXml.append ((writes_line 8).append hlast))))))))

theorem record_fields : self.record.name = some self.name ∧ self.record.type = some self.type ∧
    self.record.healthCheck = self.healthCheck := by
  obtain ⟨name, type, ttl, content, routing, healthCheck⟩ := self
  cases content <;> cases routing <;> exact ⟨rfl, rfl, rfl⟩

/-- The text of a record is a document. -/
theorem toXml_record : self.record.toXml =
    Xml.document [] ("ResourceRecordSet".toList ++ ['>']) "ResourceRecordSet".toList
      self.inner := by
  have hfirst : "<ResourceRecordSet>\n        <Name>".toList =
      '<' :: ("ResourceRecordSet".toList ++ '>' :: (lineStart 8 ++
        '<' :: ("Name".toList ++ ['>']))) := by decide
  have hsecond : "</Name>\n        <Type>".toList =
      '<' :: '/' :: ("Name".toList ++ '>' :: (lineStart 8 ++
        '<' :: ("Type".toList ++ ['>']))) := by decide
  have hthird : "</Type>\n        ".toList =
      '<' :: '/' :: ("Type".toList ++ '>' :: lineStart 8) := by decide
  have hline : "\n        ".toList = lineStart 8 := by decide
  have hlast : "\n    </ResourceRecordSet>".toList =
      lineStart 4 ++ '<' :: '/' :: ("ResourceRecordSet".toList ++ ['>']) := by decide
  obtain ⟨hname, htype, hhealth⟩ := self.record_fields
  have hbody : self.record.toXml = Record.xmlBody self.name self.type self.record.weightXml
      self.record.bodyXml self.healthCheckXml := by
    unfold Record.toXml healthCheckXml
    cases hcheck : self.healthCheck <;> simp only [hname, htype, hhealth, hcheck, percentS]
  rw [hbody]
  unfold Record.xmlBody
  simp only [hfirst, hsecond, hthird, hline, hlast]
  simp only [inner, tagged, Xml.document, List.append_assoc, List.cons_append, List.nil_append]

theorem leaves_routing : Xml.Leaves IsRecordContainer self.routing.nodes self.routing.texts := by
  cases self.routing with
  | simple => exact .nil
  | weighted identifier weight =>
      exact .leaf _ _ (by decide) (.leaf _ _ (by decide) .nil)
  | latency identifier region =>
      exact .leaf _ _ (by decide) (.leaf _ _ (by decide) .nil)
  | failover identifier kind =>
      exact .leaf _ _ (by decide) (.leaf _ _ (by decide) .nil)

theorem leaves_values (values : List Text) :
    Xml.Leaves IsRecordContainer (values.map valueNode) values := by
  induction values with
  | nil => exact .nil
  | cons value values ih =>
      exact .element "ResourceRecord".toList (by decide) (by decide)
        (.leaf "Value".toList value (by decide) .nil) ih

theorem leaves_content :
    Xml.Leaves IsRecordContainer (self.content.nodes self.ttl) (self.content.texts self.ttl) := by
  cases self.content with
  | plain values =>
      have helement := Xml.Leaves.element "ResourceRecords".toList (by decide) (by decide)
        (leaves_values values) .nil
      rw [List.append_nil] at helement
      exact .leaf "TTL".toList _ (by decide) helement
  | toAlias hostedZoneId dnsName evaluate =>
      have hflag : Xml.Leaves IsRecordContainer
          ((evaluate.map flagText).toList.map (.leaf "EvaluateTargetHealth".toList))
          (evaluate.map flagText).toList := .map (by decide) _
      have helement := Xml.Leaves.element "AliasTarget".toList (by decide) (by decide)
        (.leaf "HostedZoneId".toList hostedZoneId (by decide)
          (.leaf "DNSName".toList dnsName (by decide) hflag)) .nil
      rw [List.append_nil] at helement
      exact helement

theorem leaves_nodes : Xml.Leaves IsRecordContainer self.nodes self.texts :=
  .append (.leaf _ _ (by decide) (.leaf _ _ (by decide) .nil))
    (self.leaves_routing.append (self.leaves_content.append (.map (by decide) _)))

end RecordSet

end Boto.Route53
