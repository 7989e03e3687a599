import Boto.WrittenNumbers

/-!
# Rules for cross-origin requests

`CORSRule` and `CORSConfiguration` of `boto/s3/cors.py`: how rules are added, written as a
document, and read back.
-/

namespace Boto.S3

open Auth (strInt)
open Xml (Node)

/-- `'<name>%s</name>' % value`. -/
def simpleElement (name value : Text) : Text :=
  '<' :: (name ++ '>' :: (value ++ '<' :: '/' :: (name ++ ['>'])))

/-- An argument that is one string or a list of strings. -/
inductive Given
  | one (text : Text)
  | many (texts : List Text)
  deriving DecidableEq

/-- A string stands for the list of it. -/
def Given.meant : Given → List Text
  | .one text => [text]
  | .many texts => texts

/-- An attribute that should hold a list of strings, and may hold a string. -/
inductive Values
  | text (value : Text)
  | list (values : List Text)
  deriving DecidableEq

/-- What a loop over the attribute goes through. -/
def Values.iter : Values → List Text
  | .text value => value.map fun c => [c]
  | .list values => values

/-- `append`. -/
def Values.append (value : Text) : Values → Except PyError Values
  | .text _ => .error (.attributeError "'str' object has no attribute 'append'")
  | .list values => .ok (.list (values ++ [value]))

/-- The attribute `max_age_seconds`, if it is not `None`. -/
inductive Seconds
  | text (value : Text)
  | int (value : ℤ)
  deriving DecidableEq

/-- `CORSRule`. -/
structure CORSRule where
  allowedMethod : Values
  allowedOrigin : Values
  id : Option Text
  allowedHeader : Values
  maxAgeSeconds : Option Seconds
  exposeHeader : Values
  deriving DecidableEq

namespace CORSRule

/-- `CORSRule()`. -/
def init : CORSRule :=
  ⟨.list [], .list [], none, .list [], none, .list []⟩

/-- `setattr`.  Other attributes than those of a rule are not kept. -/
def setattr (name value : Text) (self : CORSRule) : CORSRule :=
  if name = "allowed_method".toList then { self with allowedMethod := .text value }
  else if name = "allowed_origin".toList then { self with allowedOrigin := .text value }
  else if name = "id".toList then { self with id := some value }
  else if name = "allowed_header".toList then { self with allowedHeader := .text value }
  else if name = "max_age_seconds".toList then
    { self with maxAgeSeconds := some (.text value) }
  else if name = "expose_header".toList then { self with exposeHeader := .text value }
  else self

/-- `endElement`. -/
def endElement (name value : Text) (self : CORSRule) : Except PyError CORSRule :=
  if name = "ID".toList then .ok { self with id := some value }
  else if name = "AllowedMethod".toList then
    (self.allowedMethod.append value).map fun values => { self with allowedMethod := values }
  else if name = "AllowedOrigin".toList then
    (self.allowedOrigin.append value).map fun values => { self with allowedOrigin := values }
  else if name = "AllowedHeader".toList then
    (self.allowedHeader.append value).map fun values => { self with allowedHeader := values }
  else if name = "MaxAgeSeconds".toList then
    (parseInt value).map fun seconds => { self with maxAgeSeconds := some (.int seconds) }
  else if name = "ExposeHeader".toList then
    (self.exposeHeader.append value).map fun values => { self with exposeHeader := values }
  else .ok (self.setattr name value)

/-- The element for `max_age_seconds`. -/
def maxAgeXml (self : CORSRule) : Except PyError Text :=
  match self.maxAgeSeconds with
  | none => .ok []
  | some (.text []) => .ok []
  | some (.text (_ :: _)) =>
      .error (.typeError "%d format: a number is required, not str")
  | some (.int seconds) =>
      if seconds = 0 then .ok []
      else .ok (simpleElement "MaxAgeSeconds".toList (strInt seconds))

/-- The element for `id`. -/
def idXml (self : CORSRule) : Text :=
  match self.id with
  | some (c :: id) => simpleElement "ID".toList (c :: id)
  | _ => []

/-- `to_xml`. -/
def toXml (self : CORSRule) : Except PyError Text := do
  let s := "<CORSRule>".toList
  let s := s ++ self.allowedMethod.iter.flatMap (simpleElement "AllowedMethod".toList)
  let s := s ++ self.allowedOrigin.iter.flatMap (simpleElement "AllowedOrigin".toList)
  let s := s ++ self.allowedHeader.iter.flatMap (simpleElement "AllowedHeader".toList)
  let s := s ++ self.exposeHeader.iter.flatMap (simpleElement "ExposeHeader".toList)
  let s := s ++ (← self.maxAgeXml)
  return s ++ self.idXml ++ "</CORSRule>".toList

end CORSRule

/-- `CORSConfiguration`. -/
abbrev CORSConfiguration := List CORSRule

/-- The arguments of `add_rule`. -/
structure RuleArguments where
  allowedMethod : Given
  allowedOrigin : Given
  id : Option Text
  allowedHeader : Option Given
  maxAgeSeconds : Option ℕ
  exposeHeader : Option Given
  id_ne : id ≠ some []

namespace CORSConfiguration

/-- `add_rule`.  The third test is for `allowed_origin` again, which is a list by then, so the
headers are left as they are, and `CORSRule` makes a list of `None`. -/
def addRule (arguments : RuleArguments) (self : CORSConfiguration) : CORSConfiguration :=
  let rule : CORSRule :=
    { allowedMethod := .list arguments.allowedMethod.meant
      allowedOrigin := .list arguments.allowedOrigin.meant
      id := arguments.id
      allowedHeader := match arguments.allowedHeader with
        | none => .list []
        | some (.one header) => .text header
        | some (.many headers) => .list headers
      maxAgeSeconds := arguments.maxAgeSeconds.map fun seconds : ℕ => .int seconds
      exposeHeader := match arguments.exposeHeader with
        | none => .list []
        | some headers => .list headers.meant }
  self ++ [rule]

/-- `to_xml`. -/
def toXml (self : CORSConfiguration) : Except PyError Text := do
  let rules ← self.mapM CORSRule.toXml
  return "<CORSConfiguration>".toList ++ rules.flatten ++ "</CORSConfiguration>".toList

/-- The objects of a configuration. -/
inductive Ref
  | configuration
  | rule (i : ℕ)
  deriving DecidableEq

/-- The methods of the objects.  Attributes that are set on the configuration are not
kept. -/
def methods : Nodes Ref CORSConfiguration where
  startElement top name self :=
    match top with
    | .configuration =>
        if name = "CORSRule".toList then (some (.rule self.length), self ++ [CORSRule.init])
        else (none, self)
    | .rule _ => (none, self)
  endElement top name value self :=
    match top with
    | .configuration => .ok self
    | .rule i =>
        match self[i]? with
        | none => .ok self
        | some rule => (rule.endElement name value).map fun rule => self.set i rule

end CORSConfiguration

end Boto.S3
