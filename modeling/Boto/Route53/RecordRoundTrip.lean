import Boto.Route53.RecordXml

/-!
# Reading records back

A record comes back from its document exactly if its texts are plain and its numbers were
texts before.  Numbers come back as texts, and other texts are markup.
-/

namespace Boto.Route53

open Auth (strInt)
open Xml (Node)

/-! ## What comes back -/

/-- A number as it is read. -/
def Number.read (self : Number) : Number := .text self.percentS

/-- A routing as it is read. -/
def Routing.read : Routing → Routing
  | .weighted identifier weight => .weighted identifier weight.read
  | routing => routing

/-- The time to live that is read. -/
def Content.readTtl (ttl : Number) : Content → Number
  | .plain _ => ttl.read
  | .toAlias _ _ _ => Record.init.ttl

namespace RecordSet

variable (self : RecordSet)

/-- A record as it is read. -/
def read : RecordSet :=
  { self with ttl := self.content.readTtl self.ttl, routing := self.routing.read }

/-- A record, compared with what was read.  The time to live of an alias is not written. -/
def Agrees (view : Record → Record) (read : Record) : Prop :=
  match self.content with
  | .plain _ => view read = view self.record
  | .toAlias _ _ _ => view { read with ttl := self.ttl } = view self.record

/-- The document of a record is well formed and has the record, as far as a view of it tells;
and what was read names the same record again. -/
def RoundTrips (view : Record → Record) : Prop :=
  ∃ events read, Xml.parse self.record.toXml = some events ∧
    XmlHandler.parse Record.methods () Record.init events = .ok read ∧
    self.Agrees view read ∧ read.toXml = self.record.toXml

/-- The texts of a record are written as they are read. -/
def IsPlain : Prop := ∀ text ∈ self.texts, Xml.isPlain text = true

/-- The numbers of a record are texts, as those of a record that was read. -/
def HasTexts : Prop :=
  self.routing.read = self.routing ∧
    match self.content with
    | .plain _ => self.ttl.read = self.ttl
    | .toAlias _ _ _ => True

end RecordSet

/-- A record with its numbers as they are written. -/
def Record.asWritten (self : Record) : Record :=
  { self with ttl := self.ttl.read, weight := self.weight.map Number.read }

/-! ## Reading -/

section

variable {record : Record}

theorem reads_leaf {name : Text} (hname : "root".toList ≠ name) (content : Text) :
    Reads Record.methods "root".toList () [.leaf name content] record
      (record.endElement name content) :=
  .leaf hname rfl rfl

theorem reads_container {name : Text} {children : List Node} {after : Record}
    (hname : "root".toList ≠ name) (hcontainer : IsRecordContainer name)
    (hchildren : Reads Record.methods "root".toList () children record after) :
    Reads Record.methods "root".toList () [.element name children] record after := by
  refine .skipped hname rfl hchildren fun text => ?_
  simp only [IsRecordContainer, List.mem_cons, List.not_mem_nil, or_false] at hcontainer
  rcases hcontainer with rfl | rfl | rfl | rfl <;> rfl

theorem reads_routing (routing : Routing) :
    Reads Record.methods "root".toList () routing.nodes record (routing.read.giveTo record) := by
  cases routing with
  | simple => exact .nil _ _ _ _
  | weighted identifier weight =>
      exact (reads_leaf (by decide) identifier).cons (reads_leaf (by decide) weight.percentS)
  | latency identifier region =>
      exact (reads_leaf (by decide) identifier).cons (reads_leaf (by decide) region)
  | failover identifier kind =>
      exact (reads_leaf (by decide) identifier).cons (reads_leaf (by decide) kind)

theorem reads_values (done values : List Text) :
    Reads Record.methods "root".toList () (values.map valueNode)
      { record with resourceRecords := done }
      { record with resourceRecords := done ++ values } := by
  refine @Reads.items _ _ _ _ _ _ valueNode
    (fun done => { record with resourceRecords := done }) (fun done value => ?_) done values
  exact reads_container (by decide) (by decide) (reads_leaf (by decide) value)

theorem reads_content {ttl : Number} (content : Content) (hrecords : record.resourceRecords = [])
    (httl : record.ttl = Record.init.ttl)
    (hevaluate : record.aliasEvaluateTargetHealth = none) :
    Reads Record.methods "root".toList () (content.nodes ttl) record
      (content.giveTo { record with ttl := content.readTtl ttl }) := by
  obtain ⟨name, type, recordTtl, records, hostedZone, dns, identifier, weight, region, evaluation,
    healthCheck, failover⟩ := record
  obtain rfl : records = [] := hrecords
  obtain rfl : recordTtl = Record.init.ttl := httl
  obtain rfl : evaluation = none := hevaluate
  cases content with
  | plain values =>
      refine (reads_leaf (by decide) ttl.percentS).cons
        (reads_container (by decide) (by decide) ?_)
      exact @reads_values ⟨name, type, ttl.read, [], hostedZone, dns, identifier, weight, region, none,
        healthCheck, failover⟩ [] values
  | toAlias hostedZoneId dnsName evaluate =>
      refine reads_container (by decide) (by decide)
        ((reads_leaf (by decide) hostedZoneId).cons ((reads_leaf (by decide) dnsName).cons ?_))
      cases evaluate with
      | none => exact .nil _ _ _ _
      | some evaluate =>
          cases evaluate with
          | false => exact reads_leaf (by decide) _
          | true => exact reads_leaf (by decide) _

end

/-- The elements of a record give the record that is read. -/
theorem reads_record (self : RecordSet) :
    Reads Record.methods "root".toList () [.element "ResourceRecordSet".toList self.nodes]
      Record.init self.read.record := by
  obtain ⟨name, type, ttl, content, routing, healthCheck⟩ := self
  refine reads_container (by decide) (by decide) ?_
  have hnames : Reads Record.methods "root".toList ()
      [.leaf "Name".toList name, .leaf "Type".toList type] Record.init
      { Record.init with name := some name, type := some type } :=
    (reads_leaf (by decide) name).cons (reads_leaf (by decide) type)
  have hrouting := @reads_routing { Record.init with name := some name, type := some type } routing
  have hfresh : ∀ record : Record, (routing.read.giveTo record).resourceRecords =
      record.resourceRecords ∧ (routing.read.giveTo record).ttl = record.ttl ∧
        (routing.read.giveTo record).aliasEvaluateTargetHealth =
          record.aliasEvaluateTargetHealth := by
    intro record
    cases routing <;> exact ⟨rfl, rfl, rfl⟩
  obtain ⟨hrecords, httl, hevaluate⟩ :=
    hfresh { Record.init with name := some name, type := some type }
  have hcontent := @reads_content _ ttl content hrecords httl hevaluate
  have hhealth : Reads Record.methods "root".toList ()
      (healthCheck.toList.map (.leaf "HealthCheckId".toList))
      (content.giveTo { routing.read.giveTo
        { Record.init with name := some name, type := some type } with
          ttl := content.readTtl ttl })
      (RecordSet.read ⟨name, type, ttl, content, routing, healthCheck⟩).record := by
    cases healthCheck with
    | none =>
        have hsame : (RecordSet.read ⟨name, type, ttl, content, routing, none⟩).record =
            content.giveTo { routing.read.giveTo
              { Record.init with name := some name, type := some type } with
                ttl := content.readTtl ttl } := by
          cases content <;> cases routing <;> rfl
        rw [hsame]
        exact .nil _ _ _ _
    | some healthCheck =>
        have hsame : (RecordSet.read ⟨name, type, ttl, content, routing, some healthCheck⟩).record =
            (content.giveTo { routing.read.giveTo
              { Record.init with name := some name, type := some type } with
                ttl := content.readTtl ttl }).endElement "HealthCheckId".toList healthCheck := by
          cases content <;> cases routing <;> rfl
        rw [hsame]
        exact reads_leaf (by decide) healthCheck
  exact hnames.append (hrouting.append (hcontent.append hhealth))

theorem ignoresData_record : XmlHandler.IgnoresData Record.methods IsRecordContainer := by
  intro top name text text' record hname
  simp only [IsRecordContainer, List.mem_cons, List.not_mem_nil, or_false] at hname
  rcases hname with rfl | rfl | rfl | rfl <;> rfl

/-- A plain record comes back with its numbers as texts. -/
theorem read_of_isPlain {self : RecordSet} (hplain : self.IsPlain) :
    ∃ events, Xml.parse self.record.toXml = some events ∧
      XmlHandler.parse Record.methods () Record.init events = .ok self.read.record := by
  obtain ⟨spaced, hspaced, hrender⟩ := self.writes_inner
  have hgaps : Xml.Spaced IsRecordContainer Xml.IsSpace self.nodes spaced := by
    refine hspaced.mono fun space hclean c hc => ?_
    exact (Bool.and_eq_true_iff.mp (hclean c hc)).1
  have hread : XmlHandler.parse Record.methods () Record.init
      (Node.eventsOf [.element "ResourceRecordSet".toList self.nodes]) =
        .ok self.read.record := by
    have hevents : Node.eventsOf [.element "ResourceRecordSet".toList self.nodes] =
        (Node.element "ResourceRecordSet".toList self.nodes).events := by
      rw [Node.eventsOf, Node.eventsOf, List.append_nil]
    rw [hevents]
    exact (reads_record self).parse
  have hdocument := XmlHandler.parse_document (.isRoot_word (.inr rfl) (by decide)) (by decide)
    (by decide) ignoresData_record hgaps self.leaves_nodes hplain hread
  rw [hrender, ← self.toXml_record] at hdocument
  exact hdocument

/-! ## What is read was written -/

/-- The text of a number that was read. -/
def Number.texts : Number → List Text
  | .int _ => []
  | .text value => [value]

theorem weights_number (number : Number) :
    Xml.weights number.texts = Xml.weight number.percentS := by
  cases number with
  | int value => exact (weight_strInt value).symm
  | text value =>
      rw [Number.texts, Xml.weights_cons, Xml.weights_nil, Nat.add_zero]
      rfl

theorem isPlain_number {number : Number}
    (hplain : ∀ text ∈ number.texts, Xml.isPlain text = true) :
    Xml.isPlain number.percentS = true := by
  cases number with
  | int value => exact isPlain_strInt value
  | text value => exact hplain value List.mem_cons_self

namespace Record

/-- The texts of a record apart from its time to live. -/
def others (self : Record) : List Text :=
  self.name.toList ++ (self.type.toList ++ (self.identifier.toList ++
    (self.weight.toList.flatMap Number.texts ++ (self.region.toList ++ (self.failover.toList ++
      (self.resourceRecords ++ (self.aliasHostedZoneId.toList ++ (self.aliasDnsName.toList ++
        self.healthCheck.toList))))))))

/-- The texts of a record. -/
def contents (self : Record) : List Text := self.ttl.texts ++ self.others

theorem contents_endElement (self : Record) (name value : Text) :
    (self.endElement name value).contents.Subperm ([value] ++ self.contents) := by
  have hite : ∀ (p : Prop) [Decidable p] (after after' : Record),
      after.contents.Subperm ([value] ++ self.contents) →
      after'.contents.Subperm ([value] ++ self.contents) →
      (if p then after else after').contents.Subperm ([value] ++ self.contents) := by
    intro p _ after after' hafter hafter'
    split
    · exact hafter
    · exact hafter'
  unfold endElement
  apply hite
  · exact subperm_under (subperm_over (subperm_replaced _ _))
  apply hite
  · exact subperm_under (subperm_under (subperm_over (subperm_replaced _ _)))
  apply hite
  · exact subperm_over (subperm_replaced _ _)
  apply hite
  · exact subperm_under (subperm_under (subperm_under (subperm_under (subperm_under
      (subperm_under (subperm_under (subperm_over List.perm_append_comm.subperm)))))))
  apply hite
  · exact subperm_under (subperm_under (subperm_under (subperm_under (subperm_under
      (subperm_under (subperm_under (subperm_under (subperm_over (subperm_replaced _ _)))))))))
  apply hite
  · exact subperm_under (subperm_under (subperm_under (subperm_under (subperm_under
      (subperm_under (subperm_under (subperm_under (subperm_under
        (subperm_over (subperm_replaced _ _))))))))))
  apply hite
  · exact subperm_under (subperm_under (subperm_under (subperm_over (subperm_replaced _ _))))
  apply hite
  · exact subperm_kept _ _
  apply hite
  · exact subperm_under (subperm_under (subperm_under (subperm_under
      (subperm_over (subperm_replaced _ _)))))
  apply hite
  · exact subperm_under (subperm_under (subperm_under (subperm_under (subperm_under
      (subperm_over (subperm_replaced _ _))))))
  apply hite
  · exact subperm_under (subperm_under (subperm_under (subperm_under (subperm_under
      (subperm_under (subperm_over (subperm_replaced _ _)))))))
  apply hite
  · exact subperm_under (subperm_under (subperm_under (subperm_under (subperm_under
      (subperm_under (subperm_under (subperm_under (subperm_under (subperm_under
        (subperm_replaced _ _))))))))))
  · exact subperm_kept _ _

theorem takes_methods : Takes methods contents where
  start top name self := List.Subperm.refl _
  finish top name text self self' hend := by
    obtain rfl := Except.ok.inj hend
    exact ⟨[text], .whole text, contents_endElement self name text⟩

theorem weights_asWritten (self : Record) :
    Xml.weights self.asWritten.others = Xml.weights self.others := by
  obtain ⟨name, type, ttl, records, hostedZone, dns, identifier, weight, region, evaluation,
    healthCheck, failover⟩ := self
  cases weight with
  | none => rfl
  | some weight =>
      have hweight : Xml.weights weight.read.texts = Xml.weights weight.texts := by
        rw [weights_number, weights_number]
        rfl
      simp only [others, asWritten, Option.map_some, Option.toList_some, List.flatMap_cons,
        List.flatMap_nil, Xml.weights_append, hweight]

theorem isPlain_asWritten {self : Record}
    (hplain : ∀ text ∈ self.others, Xml.isPlain text = true) :
    ∀ text ∈ self.asWritten.others, Xml.isPlain text = true := by
  obtain ⟨name, type, ttl, records, hostedZone, dns, identifier, weight, region, evaluation,
    healthCheck, failover⟩ := self
  cases weight with
  | none => exact hplain
  | some weight =>
      have hweight : Xml.isPlain weight.percentS = true :=
        isPlain_number fun text htext => hplain text (by simp [others, htext])
      intro text htext
      simp only [others, asWritten, Option.map_some, Option.toList_some, List.flatMap_cons,
        List.flatMap_nil, List.append_nil, Number.read, Number.texts, List.mem_append,
        List.mem_singleton] at htext
      simp only [others, Option.toList_some, List.flatMap_cons, List.flatMap_nil,
        List.append_nil, List.mem_append] at hplain
      rcases htext with h | h | h | rfl | h
      · exact hplain text (.inl h)
      · exact hplain text (.inr (.inl h))
      · exact hplain text (.inr (.inr (.inl h)))
      · exact hweight
      · exact hplain text (.inr (.inr (.inr (.inr h))))

end Record

namespace RecordSet

variable (self : RecordSet)

theorem weight_flagText (evaluate : Bool) : Xml.weight (flagText evaluate) = 0 := by
  cases evaluate <;> rfl

theorem isPlain_flagText (evaluate : Bool) : Xml.isPlain (flagText evaluate) = true := by
  cases evaluate <;> decide

/-- The time to live, if it is written. -/
def ttlTexts : List Text :=
  match self.content with
  | .plain _ => [self.ttl.percentS]
  | .toAlias _ _ _ => []

theorem weights_texts :
    Xml.weights self.texts = Xml.weights self.ttlTexts + Xml.weights self.record.others := by
  rw [← Record.weights_asWritten]
  obtain ⟨name, type, ttl, content, routing, healthCheck⟩ := self
  cases content with
  | plain values =>
      cases routing <;>
        simp [texts, ttlTexts, record, Content.texts, Content.giveTo, Routing.texts,
          Routing.giveTo, Record.asWritten, Record.others, Record.init, Number.read, Number.texts] <;>
        omega
  | toAlias hostedZoneId dnsName evaluate =>
      have hflag : Xml.weights (evaluate.map flagText).toList = 0 := by
        cases evaluate with
        | none => rfl
        | some evaluate =>
            rw [Option.map_some, Option.toList_some, Xml.weights_cons, weight_flagText]
            rfl
      cases routing <;>
        simp [texts, ttlTexts, record, Content.texts, Content.giveTo, Routing.texts,
          Routing.giveTo, Record.asWritten, Record.others, Record.init, Number.read, Number.texts,
          hflag]

/-- The texts of a record are those that it has when its numbers are written. -/
theorem mem_texts {text : Text} (htext : text ∈ self.texts) :
    text ∈ self.ttlTexts ∨ text ∈ self.record.asWritten.others ∨
      ∃ evaluate, text = flagText evaluate := by
  obtain ⟨name, type, ttl, content, routing, healthCheck⟩ := self
  cases content with
  | plain values =>
      cases routing <;>
        simp [texts, ttlTexts, record, Content.texts, Content.giveTo, Routing.texts,
          Routing.giveTo, Record.asWritten, Record.others, Record.init, Number.read,
          Number.texts] at htext ⊢ <;>
        grind
  | toAlias hostedZoneId dnsName evaluate =>
      have hflag : text ∈ (evaluate.map flagText).toList → ∃ evaluate, text = flagText evaluate := by
        intro hmem
        obtain ⟨evaluate, -, heq⟩ := Option.map_eq_some_iff.mp (Option.mem_toList.mp hmem)
        exact ⟨evaluate, heq.symm⟩
      rw [texts, Content.texts, List.mem_append, List.mem_append, List.mem_append, List.mem_cons,
        List.mem_cons] at htext
      cases routing <;>
        simp [ttlTexts, record, Content.giveTo, Routing.texts,
          Routing.giveTo, Record.asWritten, Record.others, Record.init, Number.read,
          Number.texts] at htext ⊢ <;>
        grind

/-! ## Round trips -/

/-- What agrees with a record has as much as was written. -/
theorem weights_of_agrees {read : Record} (hagrees : self.Agrees Record.asWritten read) :
    Xml.weights self.texts ≤ Xml.weights read.contents ∧
      read.asWritten.others = self.record.asWritten.others ∧
      ∀ text ∈ self.ttlTexts, text = read.ttl.percentS := by
  rw [weights_texts, Record.contents, Xml.weights_append, weights_number,
    ← Record.weights_asWritten, ← Record.weights_asWritten read]
  rw [Agrees] at hagrees
  rw [ttlTexts]
  cases hcontent : self.content with
  | plain values =>
      rw [hcontent] at hagrees
      have httl : read.ttl.percentS = self.ttl.percentS := by
        have hrecord : self.record.ttl = self.ttl := by
          rw [record]
          obtain ⟨name, type, ttl, content, routing, healthCheck⟩ := self
          cases content <;> cases routing <;> rfl
        have hread := Number.text.inj (congrArg Record.ttl hagrees)
        rw [hread, hrecord]
      have hothers := congrArg Record.others hagrees
      rw [hothers, httl]
      refine ⟨?_, rfl, fun text htext => List.mem_singleton.mp htext⟩
      rw [Xml.weights_cons, Xml.weights_nil, Nat.add_zero]
  | toAlias hostedZoneId dnsName evaluate =>
      rw [hcontent] at hagrees
      have hsame : { read with ttl := self.ttl }.asWritten = self.record.asWritten := hagrees
      have hview := congrArg Record.others hsame
      have hothers : read.asWritten.others = self.record.asWritten.others := hview
      rw [hothers]
      refine ⟨?_, rfl, fun text htext => absurd htext List.not_mem_nil⟩
      rw [Xml.weights_nil, Nat.zero_add]
      exact Nat.le_add_left _ _

/-- Only plain records come back. -/
theorem isPlain_of_roundTrips (htrips : self.RoundTrips Record.asWritten) : self.IsPlain := by
  obtain ⟨events, read, hparse, hread, hagrees, -⟩ := htrips
  obtain ⟨hweights, hothers, httl⟩ := self.weights_of_agrees hagrees
  rw [self.toXml_record] at hparse
  have hplain := XmlHandler.plain_of_parse Record.takes_methods (.isRoot_word (.inr rfl) (by decide))
    (by decide) rfl hparse hread
    ((self.writes_inner.weight_eq self.leaves_nodes).trans_le hweights)
  intro text htext
  rcases self.mem_texts htext with hmem | hmem | ⟨evaluate, rfl⟩
  · rw [httl text hmem]
    exact isPlain_number fun text htext => hplain text (List.mem_append_left _ htext)
  · rw [← hothers] at hmem
    exact Record.isPlain_asWritten (fun text htext => hplain text (List.mem_append_right _ htext))
      text hmem
  · exact isPlain_flagText evaluate

theorem toXml_read : self.read.record.toXml = self.record.toXml := by
  obtain ⟨name, type, ttl, content, routing, healthCheck⟩ := self
  cases content <;> cases routing <;> rfl

theorem agrees_read : self.Agrees Record.asWritten self.read.record := by
  obtain ⟨name, type, ttl, content, routing, healthCheck⟩ := self
  cases content <;> cases routing <;> rfl

/-- What is read is the same record if its numbers were texts. -/
theorem agrees_id_iff : self.Agrees id self.read.record ↔ self.HasTexts := by
  obtain ⟨name, type, ttl, content, routing, healthCheck⟩ := self
  cases content <;> cases routing <;>
    simp [Agrees, HasTexts, RecordSet.read, record, Content.giveTo, Routing.giveTo, Content.readTtl,
      Routing.read, and_comm]

/-- A record comes back from its document, up to how its numbers are kept, exactly if its texts
are plain, and as it was exactly if its numbers were texts as well. -/
theorem record_roundTrips_iff :
    (self.RoundTrips id ↔ self.IsPlain ∧ self.HasTexts) ∧
      (self.RoundTrips Record.asWritten ↔ self.IsPlain) := by
  have hexact : self.RoundTrips id → self.RoundTrips Record.asWritten := by
    rintro ⟨events, read, hparse, hread, hagrees, hxml⟩
    refine ⟨events, read, hparse, hread, ?_, hxml⟩
    rw [Agrees] at hagrees ⊢
    split at hagrees
    · exact congrArg Record.asWritten hagrees
    · exact congrArg Record.asWritten hagrees
  constructor
  · constructor
    · intro htrips
      have hplain := self.isPlain_of_roundTrips (hexact htrips)
      obtain ⟨events, read, hparse, hread, hagrees, -⟩ := htrips
      obtain ⟨events', hparse', hread'⟩ := read_of_isPlain hplain
      obtain rfl := Option.some.inj (hparse'.symm.trans hparse)
      obtain rfl := Except.ok.inj (hread'.symm.trans hread)
      exact ⟨hplain, self.agrees_id_iff.mp hagrees⟩
    · rintro ⟨hplain, htexts⟩
      obtain ⟨events, hparse, hread⟩ := read_of_isPlain hplain
      exact ⟨events, _, hparse, hread, self.agrees_id_iff.mpr htexts, self.toXml_read⟩
  · constructor
    · exact self.isPlain_of_roundTrips
    · intro hplain
      obtain ⟨events, hparse, hread⟩ := read_of_isPlain hplain
      exact ⟨events, _, hparse, hread, self.agrees_read, self.toXml_read⟩

/-- A record for a text with an ampersand. -/
def ampersand : RecordSet :=
  ⟨"a.".toList, "TXT".toList, .text "300".toList, .plain ["a&b".toList], .simple, none⟩

/-- The document for a text with an ampersand is malformed. -/
theorem not_roundTrips_ampersand : ¬ampersand.RoundTrips id := by
  rintro ⟨events, read, hparse, hread, hagrees, hxml⟩
  have hplain := ampersand.isPlain_of_roundTrips
    ⟨events, read, hparse, hread, congrArg Record.asWritten hagrees, hxml⟩
  have hvalue := hplain "a&b".toList (by decide)
  exact absurd hvalue (by decide)

end RecordSet

end Boto.Route53
