import Boto.SDB.Item

/-!
# Loading items again

`load` adds the stored values to what an item has, so an item reflects the stored one only if
it had no value for the attributes that are stored, and never for long: the next `load` adds
the values once more.
-/

namespace Boto.SDB

variable {V : Type}

namespace Item

variable {version : PyVersion} {decode : Str → V} {service : Service}

/-! ## Entries -/

/-- An entry after a value was added. -/
def grow : Option (Entry V) → V → Entry V
  | none, value => .scalar value
  | some (.scalar old), value => .list [old, value]
  | some (.list values), value => .list (values ++ [value])

/-- An entry after some values were added. -/
def accumulate (entry : Option (Entry V)) (values : List V) : Option (Entry V) :=
  values.foldl (fun entry value => some (grow entry value)) entry

theorem get?_addValue (entries : OrderedDict Str (Entry V)) (key other : Str) (value : V) :
    (addValue entries key value).get? other =
      if other = key then some (grow (entries.get? key) value) else entries.get? other := by
  rw [addValue]
  cases hentry : entries.get? key with
  | none => exact OrderedDict.get?_set
  | some entry =>
      cases entry with
      | scalar old => exact OrderedDict.get?_set
      | list values => exact OrderedDict.get?_set

/-- The entries after the values of some pairs were added. -/
def addPairs (decode : Str → V) (service : Service) (entries : OrderedDict Str (Entry V))
    (pairs : List (Text × Text)) : OrderedDict Str (Entry V) :=
  pairs.foldl (fun entries pair =>
    addValue entries (service.str pair.1) (decode (service.str pair.2))) entries

/-- The values that some pairs have for a key. -/
def valuesIn (decode : Str → V) (service : Service) (pairs : List (Text × Text)) (key : Str) :
    List V :=
  pairs.filterMap fun pair =>
    if service.str pair.1 = key then some (decode (service.str pair.2)) else none

theorem get?_addPairs (entries : OrderedDict Str (Entry V)) (pairs : List (Text × Text))
    (key : Str) :
    (addPairs decode service entries pairs).get? key =
      accumulate (entries.get? key) (valuesIn decode service pairs key) := by
  induction pairs generalizing entries with
  | nil => rfl
  | cons pair pairs ih =>
      have hstep : addPairs decode service entries (pair :: pairs) =
          addPairs decode service
            (addValue entries (service.str pair.1) (decode (service.str pair.2))) pairs := rfl
      rw [hstep, ih, get?_addValue, valuesIn, valuesIn, List.filterMap_cons]
      by_cases hkey : key = service.str pair.1
      · rw [if_pos hkey, if_pos hkey.symm, hkey]
        rfl
      · rw [if_neg hkey, if_neg (Ne.symm hkey)]

theorem accumulate_list (old values : List V) :
    accumulate (some (.list old)) values = some (.list (old ++ values)) := by
  induction values generalizing old with
  | nil => rw [List.append_nil]; rfl
  | cons value values ih =>
      have hnext := ih (old ++ [value])
      rw [List.append_assoc] at hnext
      exact hnext

theorem accumulate_scalar (old value : V) (values : List V) :
    accumulate (some (.scalar old)) (value :: values) = some (.list (old :: value :: values)) :=
  accumulate_list [old, value] values

theorem accumulate_none (first second : V) (values : List V) :
    accumulate none (first :: second :: values) = some (.list (first :: second :: values)) :=
  accumulate_list [first, second] values

/-- What an item should have for an attribute, by its stored values. -/
def reflected (entry : Option (Entry V)) : List V → Option (Entry V)
  | [] => entry
  | [value] => some (.scalar value)
  | values => some (.list values)

/-- The stored values alone make up an entry if there was none, or an empty list for several
values. -/
theorem accumulate_eq_reflected_iff (entry : Option (Entry V)) {values : List V}
    (hvalues : values ≠ []) :
    accumulate entry values = reflected entry values ↔
      entry = none ∨ entry = some (.list []) ∧ 2 ≤ values.length := by
  obtain ⟨first, values, rfl⟩ := List.exists_cons_of_ne_nil hvalues
  cases entry with
  | none =>
      refine iff_of_true ?_ (.inl rfl)
      cases values with
      | nil => rfl
      | cons second values => exact accumulate_none first second values
  | some entry =>
      cases entry with
      | scalar old =>
          rw [accumulate_scalar]
          refine iff_of_false ?_ (by simp)
          cases values with
          | nil => simp [reflected]
          | cons second values =>
              intro heq
              have hlength := congrArg List.length (Entry.list.inj (Option.some.inj heq))
              simp at hlength
      | list old =>
          rw [accumulate_list]
          cases values with
          | nil =>
              refine iff_of_false ?_ (by simp)
              simp [reflected]
          | cons second values => simp [reflected]

/-- Adding values changes an entry. -/
theorem accumulate_ne {entry : Option (Entry V)} {values : List V} (hvalues : values ≠ [])
    (hentry : entry ≠ none) : accumulate entry values ≠ entry := by
  obtain ⟨first, values, rfl⟩ := List.exists_cons_of_ne_nil hvalues
  cases entry with
  | none => exact absurd rfl hentry
  | some entry =>
      cases entry with
      | scalar old =>
          rw [accumulate_scalar]
          simp
      | list old =>
          rw [accumulate_list]
          simp

theorem accumulate_ne_none {entry : Option (Entry V)} {values : List V}
    (hvalues : values ≠ []) : accumulate entry values ≠ none := by
  obtain ⟨first, values, rfl⟩ := List.exists_cons_of_ne_nil hvalues
  have hsome : ∀ (values : List V) (entry : Entry V),
      ∃ entry', accumulate (some entry) values = some entry' := by
    intro values
    induction values with
    | nil => exact fun entry => ⟨entry, rfl⟩
    | cons value values ih => exact fun entry => ih (grow (some entry) value)
  obtain ⟨entry', hentry'⟩ := hsome values (grow entry first)
  have hfirst : accumulate entry (first :: values) = some entry' := hentry'
  rw [hfirst]
  exact Option.some_ne_none _

/-! ## Strings -/

/-- Whether the interpreter can decode a string of a response. -/
def Readable (version : PyVersion) (service : Service) (content : Text) : Prop :=
  version = .py2 ∨ service.inBase64 content = false

/-- A string that can be decoded is decoded to what it is. -/
theorem decodeValue_written {content : Text} {self : Item V}
    (hencoding : self.encoding = service.encodingOf content)
    (hreadable : Readable version service content) :
    self.decodeValue version (service.written content) =
      .ok (service.str content, { self with encoding := none }) := by
  rw [Service.encodingOf] at hencoding
  unfold decodeValue
  rw [Service.written, Service.str]
  cases hbase : service.inBase64 content with
  | false =>
      obtain ⟨entries, name, requestId, encoding, inAttribute, lastKey, others⟩ := self
      rw [hbase] at hencoding
      obtain rfl : encoding = none := hencoding
      rfl
  | true =>
      obtain rfl : version = .py2 := hreadable.resolve_right (by simp [hbase])
      rw [hbase, if_pos rfl] at hencoding
      simp only [hencoding, if_true, Base64.decode_encode]

theorem decodeValue_error {content : Text} {self : Item V}
    (hencoding : self.encoding = service.encodingOf content)
    (hreadable : ¬Readable version service content) :
    self.decodeValue version (service.written content) =
      .error (.typeError "expected bytes-like object, not str") := by
  obtain ⟨hversion, hbase⟩ := not_or.mp hreadable
  rw [Bool.not_eq_false] at hbase
  rw [Service.encodingOf, hbase, if_pos rfl] at hencoding
  unfold decodeValue
  rw [hencoding, if_pos rfl]
  cases version with
  | py2 => exact absurd rfl hversion
  | py3 => rfl

/-! ## Elements -/

theorem run_append (self : Handler V) (events events' : List Event) :
    run version decode self (events ++ events') =
      run version decode self events >>= fun self => run version decode self events' := by
  simp [run, List.foldlM_append]

theorem run_append_of_ok {self handler : Handler V} {events : List Event}
    (hrun : run version decode self events = .ok handler) (events' : List Event) :
    run version decode self (events ++ events') = run version decode handler events' := by
  rw [run_append, hrun]
  rfl

theorem run_append_of_error {self : Handler V} {events : List Event} {error : PyError}
    (hrun : run version decode self events = .error error) (events' : List Event) :
    run version decode self (events ++ events') = .error error := by
  rw [run_append, hrun]
  rfl

theorem run_leaf (name : String) (encoding : Option Text) (content : Text) (self : Item V)
    (text : Text) :
    run version decode ⟨self, text⟩ (Service.leaf name encoding content) =
      ((self.startElement name.toList encoding).endElement version decode name.toList
        content).map (⟨·, []⟩) := by
  change ((self.startElement name.toList encoding).endElement version decode name.toList content >>=
    fun item => .ok (⟨item, []⟩ : Handler V)) >>= Except.ok = _
  cases (self.startElement name.toList encoding).endElement version decode name.toList content <;>
    rfl

/-- The name of a pair. -/
theorem run_name {content : Text} {self : Item V} (hin : self.inAttribute = true) (text : Text)
    (hreadable : Readable version service content) :
    run version decode ⟨self, text⟩ (service.string "Name" content) =
      .ok ⟨{ self with lastKey := some (service.str content), encoding := none }, []⟩ := by
  rw [Service.string, run_leaf, startElement, if_neg (by decide), endElement, if_neg (by decide),
    if_pos rfl, decodeValue_written rfl hreadable]
  change Except.map _ (if self.inAttribute = true then _ else _) = _
  rw [if_pos hin]
  rfl

/-- The value of a pair. -/
theorem run_value {content : Text} {self : Item V} {key : Str} (hkey : self.lastKey = some key)
    (text : Text) (hreadable : Readable version service content) :
    run version decode ⟨self, text⟩ (service.string "Value" content) =
      .ok ⟨{ self with
        entries := addValue self.entries key (decode (service.str content)), encoding := none },
        []⟩ := by
  rw [Service.string, run_leaf, startElement, if_neg (by decide), endElement, if_neg (by decide),
    if_neg (by decide), if_pos rfl]
  simp only [hkey]
  rw [decodeValue_written rfl hreadable]
  rfl

theorem run_name_error {content : Text} (self : Item V) (text : Text)
    (hreadable : ¬Readable version service content) :
    run version decode ⟨self, text⟩ (service.string "Name" content) =
      .error (.typeError "expected bytes-like object, not str") := by
  rw [Service.string, run_leaf, startElement, if_neg (by decide), endElement, if_neg (by decide),
    if_pos rfl, decodeValue_error rfl hreadable]
  rfl

theorem run_value_error {content : Text} {self : Item V} {key : Str}
    (hkey : self.lastKey = some key) (text : Text)
    (hreadable : ¬Readable version service content) :
    run version decode ⟨self, text⟩ (service.string "Value" content) =
      .error (.typeError "expected bytes-like object, not str") := by
  rw [Service.string, run_leaf, startElement, if_neg (by decide), endElement, if_neg (by decide),
    if_neg (by decide), if_pos rfl]
  simp only [hkey]
  rw [decodeValue_error rfl hreadable]
  rfl

/-- An item after the element of a pair. -/
def absorb (decode : Str → V) (service : Service) (self : Item V) (pair : Text × Text) : Item V :=
  { self with
    entries := addValue self.entries (service.str pair.1) (decode (service.str pair.2))
    encoding := none
    inAttribute := false
    lastKey := some (service.str pair.1) }

/-- Whether the interpreter can decode both strings of a pair. -/
def ReadablePair (version : PyVersion) (service : Service) (pair : Text × Text) : Prop :=
  Readable version service pair.1 ∧ Readable version service pair.2

/-- The element of a pair takes its strings in, up to the first that cannot be decoded. -/
theorem run_attributeElement (self : Item V) (text : Text) (pair : Text × Text) :
    (ReadablePair version service pair →
      run version decode ⟨self, text⟩ (service.attributeElement pair) =
        .ok ⟨absorb decode service self pair, []⟩) ∧
    (¬ReadablePair version service pair →
      run version decode ⟨self, text⟩ (service.attributeElement pair) =
        .error (.typeError "expected bytes-like object, not str")) := by
  have hparts : service.attributeElement pair =
      [.startElement "Attribute".toList none, .characters service.space] ++
        (service.string "Name" pair.1 ++ ([.characters service.space] ++
          (service.string "Value" pair.2 ++
            [.characters service.space, .endElement "Attribute".toList]))) := by
    simp [Service.attributeElement, Service.element]
  have hopen : run version decode ⟨self, text⟩
      [.startElement "Attribute".toList none, .characters service.space] =
        .ok ⟨{ self with inAttribute := true, encoding := none }, service.space⟩ := rfl
  rw [hparts, run_append_of_ok hopen]
  constructor
  · rintro ⟨hname, hvalue⟩
    have hspace : run version decode
        ⟨{ self with inAttribute := true, encoding := none, lastKey := some (service.str pair.1) },
          []⟩ [.characters service.space] =
        .ok ⟨{ self with inAttribute := true, encoding := none,
                         lastKey := some (service.str pair.1) }, service.space⟩ := rfl
    rw [run_append_of_ok (run_name rfl _ hname), run_append_of_ok hspace,
      run_append_of_ok (run_value rfl _ hvalue)]
    rfl
  · intro hpair
    by_cases hname : Readable version service pair.1
    · rw [run_append_of_ok (run_name rfl _ hname), ← List.append_assoc]
      apply run_append_of_error
      exact run_value_error rfl _ fun hvalue => hpair ⟨hname, hvalue⟩
    · exact run_append_of_error (run_name_error _ _ hname) _

/-- The elements of some pairs, with white space before each of them. -/
theorem run_attributeElements (self : Item V) (pairs : List (Text × Text)) :
    ((∀ pair ∈ pairs, ReadablePair version service pair) →
      run version decode ⟨self, []⟩
          ((pairs.map service.attributeElement).flatMap (.characters service.space :: ·)) =
        .ok ⟨pairs.foldl (absorb decode service) self, []⟩) ∧
    ((¬∀ pair ∈ pairs, ReadablePair version service pair) →
      run version decode ⟨self, []⟩
          ((pairs.map service.attributeElement).flatMap (.characters service.space :: ·)) =
        .error (.typeError "expected bytes-like object, not str")) := by
  induction pairs generalizing self with
  | nil => exact ⟨fun _ => rfl, fun hnot => absurd (List.forall_mem_nil _) hnot⟩
  | cons pair pairs ih =>
      have hparts : ((pair :: pairs).map service.attributeElement).flatMap
          (.characters service.space :: ·) = [.characters service.space] ++
            (service.attributeElement pair ++ (pairs.map service.attributeElement).flatMap
              (.characters service.space :: ·)) := rfl
      have hspace : run version decode ⟨self, []⟩ [.characters service.space] =
          .ok ⟨self, service.space⟩ := rfl
      rw [hparts, run_append_of_ok hspace, List.forall_mem_cons]
      obtain ⟨htakes, hfails⟩ := @run_attributeElement _ version decode service self
        service.space pair
      constructor
      · rintro ⟨hpair, hpairs⟩
        rw [run_append_of_ok (htakes hpair)]
        exact (ih _).1 hpairs
      · intro hnot
        by_cases hpair : ReadablePair version service pair
        · rw [run_append_of_ok (htakes hpair)]
          exact (ih _).2 fun hpairs => hnot ⟨hpair, hpairs⟩
        · exact run_append_of_error (hfails hpair) _

/-! ## Loads -/

/-- What follows the attributes in a response leaves the entries and the name of an item as they
are. -/
theorem run_rest (self : Item V) : ∃ loaded : Item V,
    run version decode ⟨self, []⟩
        (.characters service.space :: .endElement "GetAttributesResult".toList ::
          .characters service.space ::
          (service.element "ResponseMetadata"
            [Service.leaf "RequestId" none service.requestId,
              Service.leaf "BoxUsage" none service.boxUsage] ++
            [.characters service.space, .endElement "GetAttributesResponse".toList])) =
      .ok ⟨loaded, []⟩ ∧ loaded.entries = self.entries ∧ loaded.name = self.name :=
  ⟨_, rfl, rfl, rfl⟩

theorem foldl_absorb (self : Item V) (pairs : List (Text × Text)) :
    (pairs.foldl (absorb decode service) self).entries =
        addPairs decode service self.entries pairs ∧
      (pairs.foldl (absorb decode service) self).name = self.name := by
  induction pairs generalizing self with
  | nil => exact ⟨rfl, rfl⟩
  | cons pair pairs ih => exact ih (absorb decode service self pair)

/-- A load adds the stored values to the entries, if all strings can be decoded. -/
theorem load_spec (self : Item V) :
    ((∀ pair ∈ service.stored self.name, ReadablePair version service pair) →
      ∃ loaded, self.load version decode service = .ok loaded ∧ loaded.name = self.name ∧
        ∀ key, loaded.entries.get? key =
          accumulate (self.entries.get? key) (service.valuesOf decode self.name key)) ∧
    ((¬∀ pair ∈ service.stored self.name, ReadablePair version service pair) →
      self.load version decode service =
        .error (.typeError "expected bytes-like object, not str")) := by
  have hparts : service.getAttributes self.name =
      [.startElement "GetAttributesResponse".toList none, .characters service.space,
        .startElement "GetAttributesResult".toList none] ++
      (((service.stored self.name).map service.attributeElement).flatMap
          (.characters service.space :: ·) ++
        (.characters service.space :: .endElement "GetAttributesResult".toList ::
          .characters service.space ::
          (service.element "ResponseMetadata"
            [Service.leaf "RequestId" none service.requestId,
              Service.leaf "BoxUsage" none service.boxUsage] ++
            [.characters service.space, .endElement "GetAttributesResponse".toList]))) := by
    simp [Service.getAttributes, Service.element]
  obtain ⟨htakes, hfails⟩ := @run_attributeElements _ version decode service
    { self with encoding := none } (service.stored self.name)
  have hopen : run version decode ⟨self, []⟩
      [.startElement "GetAttributesResponse".toList none, .characters service.space,
        .startElement "GetAttributesResult".toList none] =
      .ok ⟨{ self with encoding := none }, []⟩ := by
    change Except.ok (⟨startElement "GetAttributesResult".toList none
      (startElement "GetAttributesResponse".toList none self), []⟩ : Handler V) = _
    rw [startElement, startElement, if_neg (by decide), if_neg (by decide)]
  rw [load, hparts, run_append_of_ok hopen]
  constructor
  · intro hpairs
    obtain ⟨hentries, hname⟩ := @foldl_absorb _ decode service { self with encoding := none }
      (service.stored self.name)
    obtain ⟨loaded, hrun, hentries', hname'⟩ := @run_rest _ version decode service
      ((service.stored self.name).foldl (absorb decode service) { self with encoding := none })
    refine ⟨loaded, ?_, hname'.trans hname, fun key => ?_⟩
    · rw [run_append_of_ok (htakes hpairs), hrun]
      rfl
    · rw [hentries', hentries, get?_addPairs]
      rfl
  · intro hpairs
    rw [run_append_of_error (hfails hpairs)]
    rfl

/-! ## What a load reflects -/

theorem valuesOf_ne_nil_iff {name key : Str} :
    service.valuesOf decode name key ≠ [] ↔
      ∃ pair ∈ service.stored name, service.str pair.1 = key := by
  rw [ne_eq, Service.valuesOf, List.filterMap_eq_nil_iff, not_forall]
  simp

/-- Whether an item has nothing that a load would keep for a key. -/
def HasNothing (decode : Str → V) (service : Service) (self : Item V) (key : Str) : Prop :=
  self.entries.get? key = none ∨
    self.entries.get? key = some (.list []) ∧
      2 ≤ (service.valuesOf decode self.name key).length

theorem reflects_iff {self loaded : Item V}
    (hloaded : ∀ key, loaded.entries.get? key =
      accumulate (self.entries.get? key) (service.valuesOf decode self.name key)) :
    self.Reflects decode service loaded ↔
      ∀ pair ∈ service.stored self.name,
        self.HasNothing decode service (service.str pair.1) := by
  have hreflects : self.Reflects decode service loaded ↔ ∀ key,
      accumulate (self.entries.get? key) (service.valuesOf decode self.name key) =
        reflected (self.entries.get? key) (service.valuesOf decode self.name key) := by
    refine forall_congr' fun key => ?_
    rw [hloaded]
    rfl
  rw [hreflects]
  constructor
  · intro hall pair hpair
    exact (accumulate_eq_reflected_iff _ (valuesOf_ne_nil_iff.mpr ⟨pair, hpair, rfl⟩)).mp (hall _)
  · intro hall key
    by_cases hvalues : service.valuesOf decode self.name key = []
    · rw [hvalues]
      rfl
    · obtain ⟨pair, hpair, rfl⟩ := valuesOf_ne_nil_iff.mp hvalues
      exact (accumulate_eq_reflected_iff _ hvalues).mpr (hall pair hpair)

/-- An item changes with another load if something is stored. -/
theorem not_loadSettles {self : Item V} (hstored : service.stored self.name ≠ []) :
    ¬self.LoadSettles version decode service := by
  rintro ⟨loaded, hload, -, again, hagain, hsame⟩
  obtain ⟨pair, pairs, hpairs⟩ := List.exists_cons_of_ne_nil hstored
  have hreadable : ∀ pair ∈ service.stored self.name, ReadablePair version service pair := by
    by_contra hnot
    rw [(load_spec self).2 hnot] at hload
    cases hload
  obtain ⟨loaded', hload', hname, hentries⟩ := (@load_spec _ version decode service self).1 hreadable
  obtain rfl := Except.ok.inj (hload'.symm.trans hload)
  obtain ⟨again', hagain', -, hentries'⟩ :=
    (@load_spec _ version decode service loaded').1 (hname ▸ hreadable)
  obtain rfl := Except.ok.inj (hagain'.symm.trans hagain)
  have hvalues : service.valuesOf decode self.name (service.str pair.1) ≠ [] :=
    valuesOf_ne_nil_iff.mpr ⟨pair, hpairs ▸ List.mem_cons_self, rfl⟩
  have hkey := hsame (service.str pair.1)
  rw [hentries', hname] at hkey
  refine accumulate_ne hvalues ?_ hkey
  rw [hentries]
  exact accumulate_ne_none hvalues

/-- A load reflects the stored item if its strings can be decoded and the object has nothing for
its attributes yet; another load then changes the object, unless nothing is stored. -/
theorem load_iff (version : PyVersion) (decode : Str → V) (service : Service) (self : Item V) :
    (self.LoadReflects version decode service ↔
      ∀ pair ∈ service.stored self.name, ReadablePair version service pair ∧
        self.HasNothing decode service (service.str pair.1)) ∧
    (self.LoadSettles version decode service ↔ service.stored self.name = []) := by
  obtain ⟨hloads, hfails⟩ := @load_spec _ version decode service self
  constructor
  · constructor
    · rintro ⟨loaded, hload, hreflects⟩
      have hreadable : ∀ pair ∈ service.stored self.name, ReadablePair version service pair := by
        by_contra hnot
        rw [hfails hnot] at hload
        cases hload
      obtain ⟨loaded', hload', -, hentries⟩ := hloads hreadable
      obtain rfl := Except.ok.inj (hload'.symm.trans hload)
      exact fun pair hpair => ⟨hreadable pair hpair, (reflects_iff hentries).mp hreflects pair hpair⟩
    · intro hall
      obtain ⟨loaded, hload, -, hentries⟩ := hloads fun pair hpair => (hall pair hpair).1
      exact ⟨loaded, hload, (reflects_iff hentries).mpr fun pair hpair => (hall pair hpair).2⟩
  · constructor
    · intro hsettles
      by_contra hstored
      exact not_loadSettles hstored hsettles
    · intro hnil
      have hnone : ∀ key, service.valuesOf decode self.name key = [] := by
        intro key
        rw [Service.valuesOf, hnil]
        rfl
      have hreadable : ∀ pair ∈ service.stored self.name, ReadablePair version service pair := by
        rw [hnil]
        exact List.forall_mem_nil _
      obtain ⟨loaded, hload, hname, hentries⟩ := hloads hreadable
      obtain ⟨again, hagain, -, hentries'⟩ :=
        (@load_spec _ version decode service loaded).1 (hname ▸ hreadable)
      refine ⟨loaded, hload, (reflects_iff hentries).mpr ?_, again, hagain, fun key => ?_⟩
      · rw [hnil]
        exact List.forall_mem_nil _
      · rw [hentries', hname, hnone]
        rfl

/-- An item with a colour, which is loaded and then loaded again. -/
theorem not_loadSettles_colour :
    ¬LoadSettles .py2 id
      ⟨fun _ => [("colour".toList, "blue".toList)], fun _ => false, [], "1".toList, "0.1".toList⟩
      ⟨.empty, .text "sky".toList, none, none, false, none, .empty⟩ :=
  not_loadSettles (List.cons_ne_nil _ _)

end Item

end Boto.SDB
