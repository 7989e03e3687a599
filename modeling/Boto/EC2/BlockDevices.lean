import Boto.Handler
import Boto.NumberedParams
import Boto.TextMethods

/-!
# Block device mappings

`BlockDeviceType` and `BlockDeviceMapping` of `boto/ec2/blockdevicemapping.py`: a mapping is read
from the description of an image and written into the parameters of a launch.  The mapping keeps
one current value, which an item takes that made none of its own.
-/

namespace Boto.EC2

open Xml (Node)

/-! ## Reading -/

/-- `BlockDeviceType`.  Elements of other names become attributes that nothing here reads. -/
structure BlockDeviceType where
  ephemeralName : Option Text
  noDevice : Bool
  volumeId : Option Text
  snapshotId : Option Text
  status : Option Text
  attachTime : Option Text
  deleteOnTermination : Bool
  size : Option ℤ
  volumeType : Option Text
  iops : Option ℤ
  encrypted : Option Bool

namespace BlockDeviceType

/-- `BlockDeviceType(connection)`. -/
def init : BlockDeviceType where
  ephemeralName := none
  noDevice := false
  volumeId := none
  snapshotId := none
  status := none
  attachTime := none
  deleteOnTermination := false
  size := none
  volumeType := none
  iops := none
  encrypted := none

/-- `endElement`. -/
def endElement (name value : Text) (self : BlockDeviceType) : Except PyError BlockDeviceType :=
  let lname := lower name
  if name = "volumeId".toList then .ok { self with volumeId := some value }
  else if lname = "virtualname".toList then .ok { self with ephemeralName := some value }
  else if lname = "nodevice".toList then
    .ok { self with noDevice := decide (value = "true".toList) }
  else if lname = "snapshotid".toList then .ok { self with snapshotId := some value }
  else if lname = "volumesize".toList then
    (parseInt value).map fun size => { self with size := some size }
  else if lname = "status".toList then .ok { self with status := some value }
  else if lname = "attachtime".toList then .ok { self with attachTime := some value }
  else if lname = "deleteontermination".toList then
    .ok { self with deleteOnTermination := decide (value = "true".toList) }
  else if lname = "volumetype".toList then .ok { self with volumeType := some value }
  else if lname = "iops".toList then
    (parseInt value).map fun iops => { self with iops := some iops }
  else if lname = "encrypted".toList then
    .ok { self with encrypted := some (decide (value = "true".toList)) }
  else .ok self

end BlockDeviceType

/-- `BlockDeviceMapping`. -/
structure BlockDeviceMapping where
  items : OrderedDict (Option Text) (Option BlockDeviceType)
  currentName : Option Text
  currentValue : Option BlockDeviceType

/-- `BlockDeviceMapping(connection)`. -/
def BlockDeviceMapping.init : BlockDeviceMapping :=
  ⟨.empty, none, none⟩

/-- The objects that are referred to while a mapping is read: itself and its current value. -/
inductive DeviceRef
  | mapping
  | value

/-- The methods of a mapping and its values. -/
def deviceMethods : Nodes DeviceRef BlockDeviceMapping where
  startElement
    | .mapping, name, self =>
        if lower name ∈ ["ebs".toList, "virtualname".toList] then
          (some .value, { self with currentValue := some .init })
        else (none, self)
    | .value, _, self => (none, self)
  endElement
    | .mapping, name, value, self =>
        if lower name ∈ ["device".toList, "devicename".toList] then
          .ok { self with currentName := some value }
        else if lower name ∈ ["item".toList, "member".toList] then
          .ok { self with items := self.items.set self.currentName self.currentValue }
        else .ok self
    | .value, name, value, self =>
        match self.currentValue with
        | none => .ok self
        | some current => (current.endElement name value).map fun current =>
            { self with currentValue := some current }

/-! ## Writing -/

/-- The value of a parameter. -/
inductive DeviceParam
  | text (value : Text)
  | number (value : ℤ)
  | null
  deriving DecidableEq

/-- The parameters of a launch. -/
abbrev LaunchParams := OrderedDict Text DeviceParam

/-- What `_build_list_params` writes of a device, without the beginning of the names. -/
def BlockDeviceType.fields (self : BlockDeviceType) : List (Text × DeviceParam) :=
  match self.ephemeralName.filter (· ≠ []) with
  | some name => [("VirtualName".toList, .text name)]
  | none =>
      if self.noDevice = true then [("NoDevice".toList, .text [])]
      else
        ((self.snapshotId.filter (· ≠ [])).map fun id =>
          ("Ebs.SnapshotId".toList, DeviceParam.text id)).toList ++
        ((self.size.filter (· ≠ 0)).map fun size =>
          ("Ebs.VolumeSize".toList, DeviceParam.number size)).toList ++
        [("Ebs.DeleteOnTermination".toList,
          .text (if self.deleteOnTermination = true then "true".toList else "false".toList))] ++
        ((self.volumeType.filter (· ≠ [])).map fun type =>
          ("Ebs.VolumeType".toList, DeviceParam.text type)).toList ++
        (self.iops.map fun iops => ("Ebs.Iops".toList, DeviceParam.number iops)).toList ++
        (self.encrypted.map fun encrypted => ("Ebs.Encrypted".toList,
          DeviceParam.text (if encrypted = true then "true".toList else "false".toList))).toList

/-- The name of a device as the value of a parameter. -/
def nameParam : Option Text → DeviceParam
  | some name => .text name
  | none => .null

/-- The loop of `_build_list_params`, from the device with the given index on. -/
def buildFrom (pre : Text) : ℕ → List (Option Text × Option BlockDeviceType) → LaunchParams →
    Except PyError LaunchParams
  | _, [], params => .ok params
  | _, (_, none) :: _, _ =>
      .error (.attributeError "'NoneType' object has no attribute 'ephemeral_name'")
  | i, (name, some device) :: devices, params =>
      buildFrom pre (i + 1) devices
        (setAll params (recordItems pre i (("DeviceName".toList, nameParam name) :: device.fields)))

namespace BlockDeviceMapping

/-- `_build_list_params`. -/
def buildListParams (self : BlockDeviceMapping) (params : LaunchParams) (pre : Text) :
    Except PyError LaunchParams :=
  buildFrom pre 0 self.items.items params

/-- `ec2_build_list_params`. -/
def ec2BuildListParams (self : BlockDeviceMapping) (params : LaunchParams) (front : Text) :
    Except PyError LaunchParams :=
  self.buildListParams params (front ++ "BlockDeviceMapping".toList)

/-- `autoscale_build_list_params`. -/
def autoscaleBuildListParams (self : BlockDeviceMapping) (params : LaunchParams) (front : Text) :
    Except PyError LaunchParams :=
  self.buildListParams params (front ++ "BlockDeviceMappings.member".toList)

end BlockDeviceMapping

/-! ## Descriptions -/

/-- The settings of an EBS device. -/
structure EbsSettings where
  snapshotId : Option Text
  volumeSize : Option ℕ
  deleteOnTermination : Option Bool
  volumeType : Option Text
  iops : Option ℕ
  encrypted : Option Bool

/-- How a truth value is written. -/
def flagText (flag : Bool) : Text :=
  if flag = true then "true".toList else "false".toList

/-- An element in the description of an EBS device. -/
inductive Setting
  | snapshotId (id : Text)
  | volumeSize (size : ℕ)
  | deleteOnTermination (flag : Bool)
  | volumeType (type : Text)
  | iops (count : ℕ)
  | encrypted (flag : Bool)

namespace Setting

/-- The name of the element. -/
def name : Setting → Text
  | snapshotId _ => "snapshotId".toList
  | volumeSize _ => "volumeSize".toList
  | deleteOnTermination _ => "deleteOnTermination".toList
  | volumeType _ => "volumeType".toList
  | iops _ => "iops".toList
  | encrypted _ => "encrypted".toList

/-- The text of the element. -/
def content : Setting → Text
  | snapshotId id => id
  | volumeSize size => decimal size
  | deleteOnTermination flag => flagText flag
  | volumeType type => type
  | iops count => decimal count
  | encrypted flag => flagText flag

/-- The element. -/
def node (self : Setting) : Node :=
  .leaf self.name self.content

end Setting

/-- The elements of some settings. -/
def EbsSettings.elements (self : EbsSettings) : List Setting :=
  (self.snapshotId.map .snapshotId).toList ++ (self.volumeSize.map .volumeSize).toList ++
    (self.deleteOnTermination.map .deleteOnTermination).toList ++
    (self.volumeType.map .volumeType).toList ++ (self.iops.map .iops).toList ++
    (self.encrypted.map .encrypted).toList

/-- What a device is: for an EBS device, its settings with their elements in some order. -/
inductive DeviceKind
  | ephemeral (virtualName : Text)
  | suppressed (content : Text)
  | ebs (settings : EbsSettings) (order : List Setting) (hperm : order.Perm settings.elements)

/-- The element that tells the kind of a device. -/
def DeviceKind.node : DeviceKind → Node
  | ephemeral virtualName => .leaf "virtualName".toList virtualName
  | suppressed content => .leaf "noDevice".toList content
  | ebs _ order _ => .element "ebs".toList (order.map Setting.node)

/-- An item of a mapping, which tells the name of the device first or last. -/
structure DeviceItem where
  deviceName : Text
  kind : DeviceKind
  nameFirst : Bool

/-- The element of an item. -/
def DeviceItem.node (self : DeviceItem) : Node :=
  .element "item".toList
    (if self.nameFirst = true then [.leaf "deviceName".toList self.deviceName, self.kind.node]
    else [self.kind.node, .leaf "deviceName".toList self.deviceName])

/-- A mapping as it is described: items with distinct device names. -/
structure DeviceDescription where
  items : List DeviceItem
  distinct : (items.map DeviceItem.deviceName).Nodup

/-- The document of a mapping. -/
def DeviceDescription.document (self : DeviceDescription) : Node :=
  .element "blockDeviceMapping".toList (self.items.map DeviceItem.node)

/-- What the parameters have to say of an item. -/
def DeviceItem.fields (self : DeviceItem) : List (Text × DeviceParam) :=
  ("DeviceName".toList, .text self.deviceName) ::
    match self.kind with
    | .ephemeral virtualName => [("VirtualName".toList, .text virtualName)]
    | .suppressed _ => [("NoDevice".toList, .text [])]
    | .ebs settings _ _ =>
        (settings.snapshotId.map fun id =>
          ("Ebs.SnapshotId".toList, DeviceParam.text id)).toList ++
        (settings.volumeSize.map fun size : ℕ =>
          ("Ebs.VolumeSize".toList, DeviceParam.number (size : ℤ))).toList ++
        [("Ebs.DeleteOnTermination".toList,
          .text (flagText (settings.deleteOnTermination.getD false)))] ++
        (settings.volumeType.map fun type =>
          ("Ebs.VolumeType".toList, DeviceParam.text type)).toList ++
        (settings.iops.map fun iops : ℕ =>
          ("Ebs.Iops".toList, DeviceParam.number (iops : ℤ))).toList ++
        (settings.encrypted.map fun flag =>
          ("Ebs.Encrypted".toList, DeviceParam.text (flagText flag))).toList

/-- Reading a mapping and building the parameters of a launch gives one entry for each item, with
its own settings. -/
def Survives (description : DeviceDescription) : Prop :=
  ∃ mapping, XmlHandler.parse deviceMethods .mapping .init description.document.events =
      .ok mapping ∧
    ∀ params front,
      mapping.ec2BuildListParams params front =
        .ok (setAll params (numberedItems (front ++ "BlockDeviceMapping".toList)
          (description.items.map DeviceItem.fields))) ∧
      mapping.autoscaleBuildListParams params front =
        .ok (setAll params (numberedItems (front ++ "BlockDeviceMappings.member".toList)
          (description.items.map DeviceItem.fields)))

/-- No device is suppressed, and no text or size is one that Python takes for false. -/
def DeviceKind.IsShown : DeviceKind → Prop
  | ephemeral virtualName => virtualName ≠ []
  | suppressed _ => False
  | ebs settings _ _ =>
      settings.snapshotId ≠ some [] ∧ settings.volumeSize ≠ some 0 ∧ settings.volumeType ≠ some []

/-! ## What is read -/

section

open XmlHandler (run run_append run_characters run_end run_start_of_some)

/-- What a setting does to a device. -/
def Setting.apply (device : BlockDeviceType) : Setting → BlockDeviceType
  | snapshotId id => { device with snapshotId := some id }
  | volumeSize size => { device with size := some (size : ℤ) }
  | deleteOnTermination flag => { device with deleteOnTermination := flag }
  | volumeType type => { device with volumeType := some type }
  | iops count => { device with iops := some (count : ℤ) }
  | encrypted flag => { device with encrypted := some flag }

theorem decide_flagText (flag : Bool) : decide (flagText flag = "true".toList) = flag := by
  cases flag with
  | true => rfl
  | false => rfl

theorem endElement_setting (setting : Setting) (device : BlockDeviceType) :
    device.endElement setting.name setting.content = .ok (setting.apply device) := by
  cases setting with
  | snapshotId id => rfl
  | volumeSize size =>
      change (parseInt (decimal size)).map _ = _
      rw [parseInt_decimal]
      rfl
  | deleteOnTermination flag =>
      change Except.ok { device with
        deleteOnTermination := decide (flagText flag = "true".toList) } = _
      rw [decide_flagText]
      rfl
  | volumeType type => rfl
  | iops count =>
      change (parseInt (decimal count)).map _ = _
      rw [parseInt_decimal]
      rfl
  | encrypted flag =>
      change Except.ok { device with
        encrypted := some (decide (flagText flag = "true".toList)) } = _
      rw [decide_flagText]
      rfl

theorem ebs_ne_name (setting : Setting) : "ebs".toList ≠ setting.name := by
  cases setting with
  | snapshotId => exact (by decide : "ebs".toList ≠ "snapshotId".toList)
  | volumeSize => exact (by decide : "ebs".toList ≠ "volumeSize".toList)
  | deleteOnTermination => exact (by decide : "ebs".toList ≠ "deleteOnTermination".toList)
  | volumeType => exact (by decide : "ebs".toList ≠ "volumeType".toList)
  | iops => exact (by decide : "ebs".toList ≠ "iops".toList)
  | encrypted => exact (by decide : "ebs".toList ≠ "encrypted".toList)

/-- A mapping with another current value. -/
def BlockDeviceMapping.withValue (device : BlockDeviceType) (self : BlockDeviceMapping) :
    BlockDeviceMapping :=
  { self with currentValue := some device }

variable {mapping : BlockDeviceMapping}

theorem reads_settings (order : List Setting) (device : BlockDeviceType) :
    Reads deviceMethods "ebs".toList .value (order.map Setting.node) (mapping.withValue device)
      (mapping.withValue (order.foldl Setting.apply device)) := by
  induction order generalizing device with
  | nil => exact Reads.nil _ _ _ _
  | cons setting order ih =>
      have hend : deviceMethods.endElement .value setting.name setting.content
          (mapping.withValue device) = .ok (mapping.withValue (setting.apply device)) := by
        change (device.endElement _ _).map _ = _
        rw [endElement_setting]
        rfl
      exact (Reads.leaf (ebs_ne_name setting) rfl hend).cons (ih _)

/-- The device that an item makes. -/
def DeviceKind.device : DeviceKind → Option BlockDeviceType
  | ephemeral virtualName => some { BlockDeviceType.init with ephemeralName := some virtualName }
  | suppressed _ => none
  | ebs settings _ _ => some (settings.elements.foldl Setting.apply .init)

theorem apply_comm {setting setting' : Setting} (hname : setting.name ≠ setting'.name)
    (device : BlockDeviceType) :
    setting'.apply (setting.apply device) = setting.apply (setting'.apply device) := by
  cases setting <;> cases setting'
  all_goals first
    | rfl
    | exact absurd rfl hname

theorem nodup_elements (settings : EbsSettings) :
    (settings.elements.map Setting.name).Nodup := by
  obtain ⟨snapshotId, volumeSize, deleteOnTermination, volumeType, iops, encrypted⟩ := settings
  have hsub : (EbsSettings.elements ⟨snapshotId, volumeSize, deleteOnTermination, volumeType, iops,
      encrypted⟩ |>.map Setting.name).Sublist
        ["snapshotId".toList, "volumeSize".toList, "deleteOnTermination".toList,
          "volumeType".toList, "iops".toList, "encrypted".toList] := by
    have hone : ∀ {α : Type} (f : α → Setting) (name : Text) (x : Option α),
        (∀ a, (f a).name = name) → ((x.map f).toList.map Setting.name).Sublist [name] := by
      intro α f name x hf
      cases x with
      | none => exact List.nil_sublist _
      | some a => exact (hf a) ▸ List.Sublist.refl _
    simp only [EbsSettings.elements, List.map_append, List.append_assoc]
    exact (hone .snapshotId "snapshotId".toList snapshotId fun _ => rfl).append
      ((hone .volumeSize "volumeSize".toList volumeSize fun _ => rfl).append
      ((hone .deleteOnTermination "deleteOnTermination".toList deleteOnTermination
        fun _ => rfl).append
      ((hone .volumeType "volumeType".toList volumeType fun _ => rfl).append
      ((hone .iops "iops".toList iops fun _ => rfl).append
        (hone .encrypted "encrypted".toList encrypted fun _ => rfl)))))
  exact List.Nodup.sublist hsub (by decide)

/-- The order of the settings does not matter. -/
theorem foldl_apply_of_perm {settings : EbsSettings} {order : List Setting}
    (hperm : order.Perm settings.elements) (device : BlockDeviceType) :
    order.foldl Setting.apply device = settings.elements.foldl Setting.apply device := by
  apply hperm.foldl_eq'
  intro setting hsetting setting' hsetting' device
  by_cases hname : setting.name = setting'.name
  · have hnodup := nodup_elements settings
    rw [List.inj_on_of_nodup_map hnodup (hperm.mem_iff.mp hsetting) (hperm.mem_iff.mp hsetting')
      hname]
  · exact apply_comm hname device

/-- The element of a kind leaves the device that it makes as the current value, or the one before
it. -/
theorem reads_kind (kind : DeviceKind) :
    Reads deviceMethods "root".toList .mapping [kind.node] mapping
      { mapping with currentValue := kind.device.or mapping.currentValue } := by
  cases kind with
  | ephemeral virtualName =>
      intro rest text
      refine ⟨[], ?_⟩
      have hend : deviceMethods.endElement .value "virtualName".toList virtualName
          (mapping.withValue .init) = .ok (mapping.withValue
            { BlockDeviceType.init with ephemeralName := some virtualName }) := rfl
      have hstart : deviceMethods.startElement .mapping "virtualName".toList mapping =
          (some .value, mapping.withValue .init) := rfl
      rw [DeviceKind.node, Node.eventsOf_leaf, run_start_of_some _ hstart, run_append,
        run_characters]
      exact run_end hend
  | suppressed content => exact Reads.leaf (by decide) rfl rfl
  | ebs settings order hperm =>
      have hstart : deviceMethods.startElement .mapping "ebs".toList mapping =
          (some .value, mapping.withValue .init) := rfl
      have hread : Reads deviceMethods "root".toList .mapping
          [.element "ebs".toList (order.map Setting.node)] mapping
          (mapping.withValue (order.foldl Setting.apply .init)) :=
        Reads.element hstart (reads_settings order .init) fun _ => rfl
      rwa [foldl_apply_of_perm hperm] at hread

/-- A mapping after an item. -/
def BlockDeviceMapping.add (self : BlockDeviceMapping) (item : DeviceItem) : BlockDeviceMapping :=
  let value := item.kind.device.or self.currentValue
  ⟨self.items.set (some item.deviceName) value, some item.deviceName, value⟩

theorem reads_item (item : DeviceItem) :
    Reads deviceMethods "root".toList .mapping [item.node] mapping (mapping.add item) := by
  have hname : ∀ mapping : BlockDeviceMapping, Reads deviceMethods "root".toList .mapping
      [.leaf "deviceName".toList item.deviceName] mapping
      { mapping with currentName := some item.deviceName } :=
    fun mapping => Reads.leaf (by decide) rfl rfl
  have hcontent : Reads deviceMethods "root".toList .mapping
      (if item.nameFirst = true then [.leaf "deviceName".toList item.deviceName, item.kind.node]
      else [item.kind.node, .leaf "deviceName".toList item.deviceName]) mapping
      ⟨mapping.items, some item.deviceName, item.kind.device.or mapping.currentValue⟩ := by
    split
    · exact (hname mapping).cons (reads_kind item.kind)
    · exact (reads_kind item.kind).cons (hname _)
  exact Reads.skipped (by decide) rfl hcontent fun _ => rfl

theorem reads_document (description : DeviceDescription) :
    XmlHandler.parse deviceMethods .mapping .init description.document.events =
      .ok (description.items.foldl BlockDeviceMapping.add .init) := by
  have hitems : ∀ (items : List DeviceItem) (mapping : BlockDeviceMapping),
      Reads deviceMethods "root".toList .mapping (items.map DeviceItem.node) mapping
        (items.foldl BlockDeviceMapping.add mapping) := by
    intro items
    induction items with
    | nil => exact fun mapping => Reads.nil _ _ _ _
    | cons item items ih => exact fun mapping => (reads_item item).cons (ih _)
  exact (Reads.skipped (by decide) rfl (hitems _ _) fun _ => rfl).parse

/-- The devices under their names, for items after one with the given device. -/
def valuesFrom : Option BlockDeviceType → List DeviceItem →
    List (Option Text × Option BlockDeviceType)
  | _, [] => []
  | before, item :: items =>
      (some item.deviceName, item.kind.device.or before) ::
        valuesFrom (item.kind.device.or before) items

theorem items_foldl_add {items : List DeviceItem}
    (hdistinct : (items.map DeviceItem.deviceName).Nodup)
    (hnew : ∀ item ∈ items, some item.deviceName ∉ mapping.items.keys) :
    (items.foldl BlockDeviceMapping.add mapping).items.items =
      mapping.items.items ++ valuesFrom mapping.currentValue items := by
  induction items generalizing mapping with
  | nil => exact (List.append_nil _).symm
  | cons item items ih =>
      rw [List.map_cons, List.nodup_cons] at hdistinct
      obtain ⟨hitem, hitems⟩ := List.forall_mem_cons.mp hnew
      have hset : (mapping.add item).items.items = mapping.items.items ++
          [(some item.deviceName, item.kind.device.or mapping.currentValue)] :=
        OrderedDict.items_set_of_notMem hitem
      have hlater : ∀ later ∈ items, some later.deviceName ∉ (mapping.add item).items.keys := by
        intro later hlater hin
        rw [OrderedDict.keys, hset, List.map_append, List.mem_append] at hin
        rcases hin with hin | hin
        · exact hitems later hlater hin
        · have hname := Option.some.inj (List.mem_singleton.mp hin)
          exact hdistinct.1 (hname ▸ List.mem_map_of_mem hlater)
      rw [List.foldl_cons, ih hdistinct.2 hlater, hset, List.append_assoc]
      rfl

end

/-! ## What is written -/

/-- What the parameters say of a device under its name. -/
def deviceRecord (item : Option Text × BlockDeviceType) : List (Text × DeviceParam) :=
  ("DeviceName".toList, nameParam item.1) :: item.2.fields

/-- All devices that are there are written. -/
theorem buildFrom_of_some (pre : Text) (devices : List (Option Text × BlockDeviceType)) (i : ℕ)
    (params : LaunchParams) :
    buildFrom pre i (devices.map fun item => (item.1, some item.2)) params =
      .ok (setAll params (numberedFrom pre i (devices.map deviceRecord))) := by
  induction devices generalizing i params with
  | nil => rfl
  | cons device devices ih =>
      rw [List.map_cons, buildFrom, ih, List.map_cons, numberedFrom, setAll_append]
      rfl

/-- If anything is written, all devices are there. -/
theorem exists_of_buildFrom {pre : Text} {i : ℕ}
    {values : List (Option Text × Option BlockDeviceType)} {params built : LaunchParams}
    (hbuild : buildFrom pre i values params = .ok built) :
    ∃ devices : List (Option Text × BlockDeviceType),
      values = devices.map fun item => (item.1, some item.2) := by
  induction values generalizing i params with
  | nil => exact ⟨[], rfl⟩
  | cons value values ih =>
      obtain ⟨name, device⟩ := value
      cases device with
      | none => cases hbuild
      | some device =>
          obtain ⟨devices, hdevices⟩ := ih hbuild
          exact ⟨(name, device) :: devices, by rw [hdevices]; rfl⟩

theorem nodup_of_sublist {fields : List (Text × DeviceParam)} {names : List Text}
    (hsub : (fields.map Prod.fst).Sublist names) (hnames : ("DeviceName".toList :: names).Nodup)
    (value : DeviceParam) :
    ((("DeviceName".toList, value) :: fields).map Prod.fst).Nodup :=
  hnames.sublist (hsub.cons_cons _)

/-- The names under which an EBS device is written. -/
def ebsNames : List Text :=
  ["Ebs.SnapshotId".toList, "Ebs.VolumeSize".toList, "Ebs.DeleteOnTermination".toList,
    "Ebs.VolumeType".toList, "Ebs.Iops".toList, "Ebs.Encrypted".toList]

/-- The parameters of an EBS device. -/
def ebsFields (snapshotId : Option Text) (size : Option ℤ) (delete : Text)
    (volumeType : Option Text) (iops : Option ℤ) (encrypted : Option Text) :
    List (Text × DeviceParam) :=
  (snapshotId.map fun id => ("Ebs.SnapshotId".toList, DeviceParam.text id)).toList ++
    (size.map fun size => ("Ebs.VolumeSize".toList, DeviceParam.number size)).toList ++
    [("Ebs.DeleteOnTermination".toList, .text delete)] ++
    (volumeType.map fun type => ("Ebs.VolumeType".toList, DeviceParam.text type)).toList ++
    (iops.map fun iops => ("Ebs.Iops".toList, DeviceParam.number iops)).toList ++
    (encrypted.map fun flag => ("Ebs.Encrypted".toList, DeviceParam.text flag)).toList

section

variable (snapshotId : Option Text) (size : Option ℤ) (delete : Text)
  (volumeType : Option Text) (iops : Option ℤ) (encrypted : Option Text)

theorem sublist_ebsFields : ((ebsFields snapshotId size delete volumeType iops encrypted).map
    Prod.fst).Sublist ebsNames := by
  have hone : ∀ {α : Type} (name : Text) (f : α → DeviceParam) (x : Option α),
      ((x.map fun a => (name, f a)).toList.map Prod.fst).Sublist [name] := by
    intro α name f x
    cases x with
    | none => exact List.nil_sublist _
    | some a => exact List.Sublist.refl _
  simp only [ebsFields, List.map_append, List.append_assoc]
  exact (hone _ .text snapshotId).append ((hone _ .number size).append
    ((List.Sublist.refl _).append ((hone _ .text volumeType).append
      ((hone _ .number iops).append (hone _ .text encrypted)))))

/-- The snapshot, the size and the type that are written. -/
theorem mem_ebsFields :
    (∀ id, ("Ebs.SnapshotId".toList, .text id) ∈
      ebsFields snapshotId size delete volumeType iops encrypted ↔ snapshotId = some id) ∧
    (∀ n, ("Ebs.VolumeSize".toList, .number n) ∈
      ebsFields snapshotId size delete volumeType iops encrypted ↔ size = some n) ∧
    (∀ type, ("Ebs.VolumeType".toList, .text type) ∈
      ebsFields snapshotId size delete volumeType iops encrypted ↔ volumeType = some type) := by
  simp [ebsFields]

end

/-- A device that has no other kind is written as an EBS device. -/
theorem fields_of_ebs {device : BlockDeviceType}
    (hname : device.ephemeralName.filter (· ≠ []) = none) (hdevice : device.noDevice = false) :
    device.fields = ebsFields (device.snapshotId.filter (· ≠ [])) (device.size.filter (· ≠ 0))
      (flagText device.deleteOnTermination) (device.volumeType.filter (· ≠ [])) device.iops
      (device.encrypted.map flagText) := by
  rw [BlockDeviceType.fields, hname, hdevice, ebsFields, Option.map_map]
  rfl

theorem nodup_deviceRecord {item : Option Text × BlockDeviceType}
    (hdevice : item.2.noDevice = false) : ((deviceRecord item).map Prod.fst).Nodup := by
  rw [deviceRecord]
  cases hname : item.2.ephemeralName.filter (· ≠ []) with
  | none =>
      rw [fields_of_ebs hname hdevice]
      exact nodup_of_sublist (sublist_ebsFields _ _ _ _ _ _) (by decide) _
  | some name =>
      have hfields : item.2.fields = [("VirtualName".toList, .text name)] := by
        rw [BlockDeviceType.fields, hname]
      rw [hfields]
      exact (by decide : ["DeviceName".toList, "VirtualName".toList].Nodup)

/-- The settings of a description are those of an EBS device. -/
theorem fields_ebs {item : DeviceItem} {settings : EbsSettings} {order : List Setting}
    {hperm : order.Perm settings.elements} (hkind : item.kind = .ebs settings order hperm) :
    item.fields = ("DeviceName".toList, .text item.deviceName) ::
      ebsFields settings.snapshotId (settings.volumeSize.map (↑))
        (flagText (settings.deleteOnTermination.getD false)) settings.volumeType
        (settings.iops.map (↑)) (settings.encrypted.map flagText) := by
  rw [DeviceItem.fields, hkind, ebsFields, Option.map_map, Option.map_map, Option.map_map]
  rfl

theorem nodup_itemFields (item : DeviceItem) : (item.fields.map Prod.fst).Nodup := by
  cases hkind : item.kind with
  | ephemeral virtualName =>
      rw [DeviceItem.fields, hkind]
      exact (by decide : ["DeviceName".toList, "VirtualName".toList].Nodup)
  | suppressed content =>
      rw [DeviceItem.fields, hkind]
      exact (by decide : ["DeviceName".toList, "NoDevice".toList].Nodup)
  | ebs settings order hperm =>
      rw [fields_ebs hkind]
      exact nodup_of_sublist (sublist_ebsFields _ _ _ _ _ _) (by decide) _

/-- The device that settings make. -/
theorem foldl_apply_elements (settings : EbsSettings) :
    settings.elements.foldl Setting.apply .init =
      { BlockDeviceType.init with
        snapshotId := settings.snapshotId, size := settings.volumeSize.map (↑)
        deleteOnTermination := settings.deleteOnTermination.getD false
        volumeType := settings.volumeType, iops := settings.iops.map (↑)
        encrypted := settings.encrypted } := by
  obtain ⟨snapshotId, volumeSize, deleteOnTermination, volumeType, iops, encrypted⟩ := settings
  simp only [EbsSettings.elements, List.foldl_append]
  cases snapshotId <;> cases volumeSize <;> cases deleteOnTermination <;> cases volumeType <;>
    cases iops <;> cases encrypted <;> rfl

/-- No item makes a device that is suppressed. -/
theorem noDevice_of_device {kind : DeviceKind} {device : BlockDeviceType}
    (hdevice : kind.device = some device) : device.noDevice = false := by
  cases kind with
  | ephemeral virtualName =>
      cases hdevice
      rfl
  | suppressed content => cases hdevice
  | ebs settings order hperm =>
      cases hdevice
      rw [foldl_apply_elements]
      rfl

/-! ## The trip -/

/-- Any device that is there is made by an item. -/
theorem noDevice_of_mem_valuesFrom {before : Option BlockDeviceType}
    (hbefore : ∀ device ∈ before, device.noDevice = false) (items : List DeviceItem)
    {value : Option Text × Option BlockDeviceType} (hvalue : value ∈ valuesFrom before items) :
    ∀ device ∈ value.2, device.noDevice = false := by
  induction items generalizing before with
  | nil => cases hvalue
  | cons item items ih =>
      have hitem : ∀ device ∈ item.kind.device.or before, device.noDevice = false := by
        intro device hdevice
        cases hkind : item.kind.device with
        | none =>
            rw [hkind] at hdevice
            exact hbefore device hdevice
        | some made =>
            rw [hkind] at hdevice
            cases hdevice
            exact noDevice_of_device hkind
      rcases List.mem_cons.mp hvalue with rfl | hvalue
      · exact hitem
      · exact ih hitem hvalue

theorem getElem?_valuesFrom (before : Option BlockDeviceType) {items : List DeviceItem} {j : ℕ}
    {item : DeviceItem} (hget : items[j]? = some item) :
    ∃ before', (valuesFrom before items)[j]? =
      some (some item.deviceName, item.kind.device.or before') := by
  induction items generalizing before j with
  | nil => cases hget
  | cons first items ih =>
      cases j with
      | zero =>
          cases hget
          exact ⟨before, rfl⟩
      | succ j => exact ih _ hget

/-- The names under which a device that has no other kind is written. -/
theorem names_of_ebs {item : Option Text × BlockDeviceType}
    (hname : item.2.ephemeralName.filter (· ≠ []) = none) (hdevice : item.2.noDevice = false)
    {name : Text} (hmem : name ∈ (deviceRecord item).map Prod.fst) :
    name ∈ "DeviceName".toList :: ebsNames := by
  rw [deviceRecord, fields_of_ebs hname hdevice] at hmem
  exact ((sublist_ebsFields _ _ _ _ _ _).cons_cons "DeviceName".toList).subset hmem

/-- A field of an EBS device under the name of a setting. -/
theorem mem_deviceRecord_of_ebs {item : Option Text × BlockDeviceType}
    (hname : item.2.ephemeralName.filter (· ≠ []) = none) (hdevice : item.2.noDevice = false)
    {field : Text × DeviceParam} (hfield : field.1 ≠ "DeviceName".toList) :
    field ∈ deviceRecord item ↔ field ∈ ebsFields (item.2.snapshotId.filter (· ≠ []))
      (item.2.size.filter (· ≠ 0)) (flagText item.2.deleteOnTermination)
      (item.2.volumeType.filter (· ≠ [])) item.2.iops (item.2.encrypted.map flagText) := by
  rw [deviceRecord, fields_of_ebs hname hdevice, List.mem_cons, or_iff_right]
  rintro rfl
  exact hfield rfl

theorem isShown_of_ebs {item : DeviceItem} {settings : EbsSettings} {order : List Setting}
    {hperm : order.Perm settings.elements} (hkind : item.kind = .ebs settings order hperm)
    (hiff : ∀ field, field ∈ item.fields ↔ field ∈ deviceRecord
      (some item.deviceName, settings.elements.foldl Setting.apply .init)) :
    (DeviceKind.ebs settings order hperm).IsShown := by
  rw [foldl_apply_elements] at hiff
  have hfields : ∀ field : Text × DeviceParam, field.1 ≠ "DeviceName".toList →
      (field ∈ ebsFields settings.snapshotId (settings.volumeSize.map (↑))
        (flagText (settings.deleteOnTermination.getD false)) settings.volumeType
        (settings.iops.map (↑)) (settings.encrypted.map flagText) ↔
      field ∈ ebsFields (settings.snapshotId.filter (· ≠ []))
        ((settings.volumeSize.map (↑)).filter (· ≠ 0))
        (flagText (settings.deleteOnTermination.getD false))
        (settings.volumeType.filter (· ≠ [])) (settings.iops.map (↑))
        (settings.encrypted.map flagText)) := by
    intro field hfield
    have hsame := (hiff field).trans (mem_deviceRecord_of_ebs rfl rfl hfield)
    rw [fields_ebs hkind, List.mem_cons, or_iff_right] at hsame
    · exact hsame
    · rintro rfl
      exact hfield rfl
  obtain ⟨hid, hsize, htype⟩ := mem_ebsFields settings.snapshotId (settings.volumeSize.map (↑))
    (flagText (settings.deleteOnTermination.getD false)) settings.volumeType
    (settings.iops.map (↑)) (settings.encrypted.map flagText)
  obtain ⟨hid', hsize', htype'⟩ := mem_ebsFields (settings.snapshotId.filter (· ≠ []))
    ((settings.volumeSize.map (↑)).filter (· ≠ 0))
    (flagText (settings.deleteOnTermination.getD false)) (settings.volumeType.filter (· ≠ []))
    (settings.iops.map (↑)) (settings.encrypted.map flagText)
  refine ⟨?_, ?_, ?_⟩
  · intro hempty
    have hmem := (hid' []).mp ((hfields _ (by decide :
      "Ebs.SnapshotId".toList ≠ "DeviceName".toList)).mp ((hid []).mpr hempty))
    rw [hempty] at hmem
    exact absurd hmem (by decide)
  · intro hzero
    have hmem := (hsize' 0).mp ((hfields _ (by decide :
      "Ebs.VolumeSize".toList ≠ "DeviceName".toList)).mp ((hsize 0).mpr (by rw [hzero]; rfl)))
    rw [hzero] at hmem
    exact absurd hmem (by decide)
  · intro hempty
    have hmem := (htype' []).mp ((hfields _ (by decide :
      "Ebs.VolumeType".toList ≠ "DeviceName".toList)).mp ((htype []).mpr hempty))
    rw [hempty] at hmem
    exact absurd hmem (by decide)

/-- An item of which a device says what the item says is shown. -/
theorem isShown_of_mem_iff {item : DeviceItem} {device : BlockDeviceType}
    {before : Option BlockDeviceType} (hvalue : item.kind.device.or before = some device)
    (hdevice : device.noDevice = false)
    (hiff : ∀ field, field ∈ item.fields ↔
      field ∈ deviceRecord (some item.deviceName, device)) : item.kind.IsShown := by
  cases hkind : item.kind with
  | ephemeral virtualName =>
      rintro rfl
      rw [hkind] at hvalue
      cases hvalue
      have hmem := (hiff ("VirtualName".toList, .text [])).mp (by
        rw [DeviceItem.fields, hkind]
        exact List.mem_cons_of_mem _ (List.mem_singleton_self _))
      exact absurd (names_of_ebs rfl rfl (List.mem_map_of_mem hmem))
        (by decide : "VirtualName".toList ∉ "DeviceName".toList :: ebsNames)
  | suppressed content =>
      have hmem := (hiff ("NoDevice".toList, .text [])).mp (by
        rw [DeviceItem.fields, hkind]
        exact List.mem_cons_of_mem _ (List.mem_singleton_self _))
      have hname := List.mem_map_of_mem (f := Prod.fst) hmem
      cases hephemeral : device.ephemeralName.filter (· ≠ []) with
      | none =>
          exact absurd (names_of_ebs hephemeral hdevice hname)
            (by decide : "NoDevice".toList ∉ "DeviceName".toList :: ebsNames)
      | some name =>
          rw [deviceRecord, BlockDeviceType.fields, hephemeral] at hname
          exact absurd hname
            (by decide : "NoDevice".toList ∉ ["DeviceName".toList, "VirtualName".toList])
  | ebs settings order hperm =>
      rw [hkind] at hvalue
      cases hvalue
      exact isShown_of_ebs hkind hiff

/-- The device of an item that is shown says what the item says. -/
theorem exists_device_of_isShown {item : DeviceItem} (hshown : item.kind.IsShown) :
    ∃ device, item.kind.device = some device ∧
      deviceRecord (some item.deviceName, device) = item.fields := by
  cases hkind : item.kind with
  | ephemeral virtualName =>
      rw [hkind] at hshown
      refine ⟨_, rfl, ?_⟩
      have hname : (some virtualName).filter (· ≠ []) = some virtualName :=
        Option.filter_some_pos (decide_eq_true hshown)
      rw [deviceRecord, DeviceItem.fields, hkind, BlockDeviceType.fields, hname]
      rfl
  | suppressed content =>
      rw [hkind] at hshown
      exact hshown.elim
  | ebs settings order hperm =>
      rw [hkind] at hshown
      obtain ⟨hid, hsize, htype⟩ := hshown
      refine ⟨_, rfl, ?_⟩
      have hkept : ∀ x : Option Text, x ≠ some [] → x.filter (· ≠ []) = x := by
        intro x hx
        cases x with
        | none => rfl
        | some a =>
            exact Option.filter_some_pos (decide_eq_true fun hempty => hx (congrArg some hempty))
      have hkeptSize : (settings.volumeSize.map (fun n : ℕ => (n : ℤ))).filter (· ≠ 0) =
          settings.volumeSize.map (↑) := by
        cases hvolume : settings.volumeSize with
        | none => rfl
        | some size =>
            refine Option.filter_some_pos (decide_eq_true fun hzero => hsize ?_)
            rw [hvolume, Int.natCast_eq_zero.mp hzero]
      rw [deviceRecord, foldl_apply_elements, fields_of_ebs rfl rfl, fields_ebs hkind]
      dsimp only
      rw [hkept _ hid, hkept _ htype, hkeptSize]
      rfl

/-- All items that are shown are values, each with its own device. -/
theorem valuesFrom_of_isShown {items : List DeviceItem}
    (hshown : ∀ item ∈ items, item.kind.IsShown) (before : Option BlockDeviceType) :
    ∃ devices : List (Option Text × BlockDeviceType),
      valuesFrom before items = devices.map (fun item => (item.1, some item.2)) ∧
        devices.map deviceRecord = items.map DeviceItem.fields := by
  induction items generalizing before with
  | nil => exact ⟨[], rfl, rfl⟩
  | cons item items ih =>
      obtain ⟨hitem, hitems⟩ := List.forall_mem_cons.mp hshown
      obtain ⟨device, hdevice, hrecord⟩ := exists_device_of_isShown hitem
      obtain ⟨devices, hvalues, hrecords⟩ := ih hitems (some device)
      refine ⟨(some item.deviceName, device) :: devices, ?_, ?_⟩
      · rw [valuesFrom, hdevice, Option.some_or, hvalues]
        rfl
      · rw [List.map_cons, List.map_cons, hrecord, hrecords]

/-- The items of a description survive if and only if all of them are shown. -/
theorem survives_iff_isShown (description : DeviceDescription) :
    Survives description ↔ ∀ item ∈ description.items, item.kind.IsShown := by
  have hread := reads_document description
  have hvalues : (description.items.foldl BlockDeviceMapping.add .init).items.items =
      valuesFrom none description.items :=
    items_foldl_add description.distinct fun item _ => List.not_mem_nil
  constructor
  · rintro ⟨mapping, hmapping, hbuild⟩ item hitem
    rw [hread] at hmapping
    cases hmapping
    have hbuilt := (hbuild .empty []).1
    rw [BlockDeviceMapping.ec2BuildListParams, BlockDeviceMapping.buildListParams,
      hvalues] at hbuilt
    obtain ⟨devices, hdevices⟩ := exists_of_buildFrom hbuilt
    have hnoDevice : ∀ device ∈ devices, device.2.noDevice = false := by
      intro device hdevice
      have hvalue : (device.1, some device.2) ∈ valuesFrom none description.items := by
        rw [hdevices]
        exact List.mem_map.mpr ⟨device, hdevice, rfl⟩
      have hnone : ∀ device ∈ (none : Option BlockDeviceType), device.noDevice = false := by
        intro device hdevice
        cases hdevice
      exact noDevice_of_mem_valuesFrom hnone description.items hvalue device.2 rfl
    rw [hdevices, buildFrom_of_some] at hbuilt
    have hitems := congrArg OrderedDict.items (Except.ok.inj hbuilt)
    rw [items_setAll, items_setAll] at hitems
    · obtain ⟨j, hj⟩ := List.mem_iff_getElem?.mp hitem
      obtain ⟨before, hvalue⟩ := getElem?_valuesFrom none hj
      rw [hdevices, List.getElem?_map] at hvalue
      obtain ⟨device, hdevice, hmade⟩ := Option.map_eq_some_iff.mp hvalue
      obtain ⟨name, device⟩ := device
      obtain ⟨rfl, hmade⟩ := Prod.mk.inj hmade
      refine isShown_of_mem_iff hmade.symm (hnoDevice _ (List.mem_of_getElem? hdevice)) ?_
      refine mem_iff_of_numberedItems_eq hitems.symm (j := j) ?_ ?_
      · rw [List.getElem?_map, hj]
        rfl
      · rw [List.getElem?_map, hdevice]
        rfl
    · refine nodup_numberedItems _ (List.forall_mem_map.mpr fun item _ => nodup_itemFields item)
    · refine nodup_numberedFrom _ (List.forall_mem_map.mpr fun device hdevice => ?_) 0
      exact nodup_deviceRecord (hnoDevice device hdevice)
  · intro hshown
    obtain ⟨devices, hdevices, hrecords⟩ := valuesFrom_of_isShown hshown none
    refine ⟨_, hread, fun params front => ⟨?_, ?_⟩⟩
    · rw [BlockDeviceMapping.ec2BuildListParams, BlockDeviceMapping.buildListParams, hvalues,
        hdevices, buildFrom_of_some, hrecords]
      rfl
    · rw [BlockDeviceMapping.autoscaleBuildListParams, BlockDeviceMapping.buildListParams, hvalues,
        hdevices, buildFrom_of_some, hrecords]
      rfl

/-- An EBS volume at `/dev/sda1` and a device that is suppressed at `/dev/sdb`. -/
def suppressedDevice : DeviceDescription where
  items :=
    [⟨"/dev/sda1".toList, .ebs ⟨none, some 100, none, none, none, none⟩ [.volumeSize 100]
      (List.Perm.refl _), true⟩,
    ⟨"/dev/sdb".toList, .suppressed [], true⟩]
  distinct := by decide

/-- The volume is launched a second time at the name that is to have no device. -/
theorem suppressedDevice_not_survives : ¬ Survives suppressedDevice := by
  rintro ⟨mapping, hmapping, hbuild⟩
  rw [reads_document] at hmapping
  cases hmapping
  have hitems := congrArg (fun result => result.toOption.map OrderedDict.items)
    (hbuild .empty []).1
  exact absurd hitems (by decide)

end Boto.EC2
