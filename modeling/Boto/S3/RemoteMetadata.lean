import Boto.S3.UserMetadata
import Boto.Support.Removal

/-!
# Changing the metadata of a stored object

`set_remote_metadata` of `boto/s3/key.py`, up to the metadata that it passes to `copy_key` and
the headers that `merge_meta` makes of it.
-/

namespace Boto.S3

open Auth (ProviderName)

/-- The parts of a `Key` that are read here: the attributes by their names, and the user
metadata. -/
structure MetadataKey where
  getattr : Text → Option Text
  metadata : OrderedDict Text Text

/-- `name.replace('_', '-')`. -/
def dashed (name : Text) : Text := name.map fun c => if c = '_' then '-' else c

/-- `name.replace('-', '_')`. -/
def underscored (name : Text) : Text := name.map fun c => if c = '-' then '_' else c

/-- `_underscore_base_user_settable_fields`. -/
def underscoreBaseUserSettableFields : List Text := baseUserSettableFields.map underscored

/-- `_normalize_metadata` of a dictionary. -/
def normalizeMetadata (metadata : OrderedDict Text Text) : OrderedDict Text Text :=
  metadata.items.foldl (fun norm item => norm.set (lower item.1) item.2) OrderedDict.empty

/-- The attributes that are set to something. -/
def MetadataKey.setAttributes (key : MetadataKey) : List (Text × Text) :=
  underscoreBaseUserSettableFields.filterMap fun name =>
    match key.getattr name with
    | some (c :: value) => some (name, c :: value)
    | _ => none

/-- `_get_remote_metadata`. -/
def getRemoteMetadata (provider : ProviderName) (key : MetadataKey) : OrderedDict Text Text :=
  let metadata := key.setAttributes.foldl (fun metadata item =>
    metadata.set (lower (dashed item.1)) item.2) OrderedDict.empty
  key.metadata.items.foldl (fun metadata item =>
    metadata.set (metadataPrefix provider ++ lower (dashed item.1)) item.2) metadata

/-- A name without the prefixes of the providers. -/
def withoutPrefixes (h : Text) : Text :=
  Removal.remove (metadataPrefix .aws) (Removal.remove (metadataPrefix .google) h)

/-- `rewritten_h`. -/
def rewrittenName (h : Text) : Text :=
  if (metadataPrefix .google).isPrefixOf h || (metadataPrefix .aws).isPrefixOf h then
    withoutPrefixes h
  else h

/-- The metadata after the changes, under full names. -/
def changedMetadata (provider : ProviderName) (key : MetadataKey)
    (metadataPlus : OrderedDict Text Text) (metadataMinus : List Text) : OrderedDict Text Text :=
  (metadataMinus.map lower).foldl OrderedDict.erase
    ((getRemoteMetadata provider key).update (normalizeMetadata metadataPlus))

/-- The metadata that `set_remote_metadata` passes to `copy_key`. -/
def rewrittenMetadata (provider : ProviderName) (key : MetadataKey)
    (metadataPlus : OrderedDict Text Text) (metadataMinus : List Text) : OrderedDict Text Text :=
  (changedMetadata provider key metadataPlus metadataMinus).items.foldl
    (fun rewritten item => rewritten.set (rewrittenName item.1) item.2) OrderedDict.empty

/-! ## What is asked for -/

section

variable (provider : ProviderName) (key : MetadataKey) (metadataPlus : OrderedDict Text Text)
  (metadataMinus : List Text)

/-- The entries of the key, under full names in lower case. -/
def HasEntry (name value : Text) : Prop :=
  name ∈ baseUserSettableFields ∧ key.getattr (underscored name) = some value ∧ value ≠ [] ∨
    ∃ item ∈ key.metadata.items, name = metadataPrefix provider ++ lower item.1 ∧ value = item.2

/-- A name is mentioned in the changes. -/
def IsMentioned (name : Text) : Prop :=
  (∃ item ∈ metadataPlus.items, name = lower item.1) ∨ name ∈ metadataMinus.map lower

/-- The entries that the changed metadata should have. -/
def IsWanted (name value : Text) : Prop :=
  name ∉ metadataMinus.map lower ∧
    ((∃ item ∈ metadataPlus.items, name = lower item.1 ∧ value = item.2) ∨
      ¬IsMentioned metadataPlus metadataMinus name ∧ HasEntry provider key name value)

/-- The headers of the metadata that is passed to `copy_key` are those that are wanted. -/
def ChangesOnlyAsTold : Prop :=
  ∀ name value, (∃ header ∈ (mergeMeta provider OrderedDict.empty
      (rewrittenMetadata provider key metadataPlus metadataMinus)).items,
    lower header.1 = name ∧ header.2 = .text value) ↔
      IsWanted provider key metadataPlus metadataMinus name value

/-- A standard field, or the prefix before a name that is none and does not have a prefix in
it. -/
def IsProper (name : Text) : Prop :=
  name ∈ baseUserSettableFields ∨ ∃ rest, name = metadataPrefix provider ++ rest ∧
    rest ∉ baseUserSettableFields ∧ ¬metadataPrefix .aws <:+: rest ∧
      ¬metadataPrefix .google <:+: rest

/-- Names with an underscore are mentioned with dashes, or the key has the same entry with
dashes too. -/
def DashesKnown : Prop :=
  ∀ item ∈ key.metadata.items, '_' ∈ item.1 →
    IsMentioned metadataPlus metadataMinus (metadataPrefix provider ++ lower (dashed item.1)) ∨
      HasEntry provider key (metadataPrefix provider ++ lower (dashed item.1)) item.2

/-- The wanted entries have proper names that are not given twice, and names with an underscore
are mentioned. -/
structure IsOrdinary : Prop where
  proper : ∀ name value, IsWanted provider key metadataPlus metadataMinus name value →
    IsProper provider name
  single : ∀ name value value', IsWanted provider key metadataPlus metadataMinus name value →
    IsWanted provider key metadataPlus metadataMinus name value' → value = value'
  underscore : ∀ item ∈ key.metadata.items, '_' ∈ item.1 →
    IsMentioned metadataPlus metadataMinus (metadataPrefix provider ++ lower item.1)

end

/-! ## Names -/

variable {provider : ProviderName} {name h rest : Text}

theorem toLower_toLower (c : Char) : c.toLower.toLower = c.toLower := by
  have hascii : ∀ n < 128, (Char.ofNat n).toLower.toLower = (Char.ofNat n).toLower := by
    decide +kernel
  by_cases hlt : c.toNat < 128
  · have hc := hascii c.toNat hlt
    rwa [Char.ofNat_toNat] at hc
  · rw [toLower_of_not_lt hlt, toLower_of_not_lt hlt]

@[simp] theorem lower_lower (text : Text) : lower (lower text) = lower text := by
  rw [lower, lower, List.map_map]
  congr 1
  funext c
  exact toLower_toLower c

theorem lower_append (text other : Text) : lower (text ++ other) = lower text ++ lower other :=
  List.map_append

theorem mem_remove {pattern text : Text} {c : Char} (hc : c ∈ Removal.remove pattern text) :
    c ∈ text := by
  have hfrom : ∀ skip, c ∈ Removal.removeFrom pattern skip text → c ∈ text := by
    clear hc
    induction text with
    | nil => exact fun skip hc => by simp [Removal.removeFrom] at hc
    | cons d text ih =>
        intro skip hc
        cases skip with
        | zero =>
            rw [Removal.removeFrom] at hc
            split at hc
            · exact List.mem_cons_of_mem _ (ih _ hc)
            · rcases List.mem_cons.mp hc with rfl | hc
              · exact List.mem_cons_self
              · exact List.mem_cons_of_mem _ (ih _ hc)
        | succ skip =>
            rw [Removal.removeFrom] at hc
            exact List.mem_cons_of_mem _ (ih _ hc)
  exact hfrom 0 hc

theorem mem_of_mem_rewrittenName {c : Char} (hc : c ∈ rewrittenName h) : c ∈ h := by
  rw [rewrittenName] at hc
  split at hc
  · exact mem_remove (mem_remove hc)
  · exact hc

theorem lower_eq_self_iff {text : Text} : lower text = text ↔ ∀ c ∈ text, c.toLower = c := by
  have hmap : lower text = text ↔ text.map Char.toLower = text.map id := by
    rw [lower, List.map_id]
  rw [hmap, List.map_eq_map_iff]
  rfl

theorem lower_rewrittenName (hlower : lower h = h) :
    lower (rewrittenName h) = rewrittenName h :=
  lower_eq_self_iff.mpr fun c hc =>
    lower_eq_self_iff.mp hlower c (mem_of_mem_rewrittenName hc)

/-- The header that a full name ends in. -/
def finalName (provider : ProviderName) (h : Text) : Text :=
  headerName provider (rewrittenName h)

theorem rewrittenName_append (provider : ProviderName) (rest : Text) :
    rewrittenName (metadataPrefix provider ++ rest) = withoutPrefixes rest := by
  have hstarts : ((metadataPrefix .google).isPrefixOf (metadataPrefix provider ++ rest) ||
      (metadataPrefix .aws).isPrefixOf (metadataPrefix provider ++ rest)) = true := by
    rw [Bool.or_eq_true]
    cases provider
    · exact .inr (List.isPrefixOf_iff_prefix.mpr (List.prefix_append _ _))
    · exact .inl (List.isPrefixOf_iff_prefix.mpr (List.prefix_append _ _))
  rw [rewrittenName, if_pos hstarts, withoutPrefixes]
  cases provider with
  | google => rw [Removal.remove_append (by decide), withoutPrefixes]
  | aws =>
      -- No place of the other prefix begins within this one.
      have htails : ∀ after ∈ (metadataPrefix .aws).tails, after ≠ [] →
          ¬after <+: metadataPrefix .google := by decide
      have hshort : ∀ after ∈ (metadataPrefix .aws).tails,
          after.length ≤ (metadataPrefix .google).length := by decide
      rw [Removal.remove_append_of_not, Removal.remove_append (by decide), withoutPrefixes]
      intro before after heq hafter hstarts
      have hmem : after ∈ (metadataPrefix .aws).tails :=
        (List.mem_tails _ _).mpr ⟨before, heq.symm⟩
      exact htails after hmem hafter
        (List.prefix_of_prefix_length_le (List.prefix_append _ _) hstarts (hshort after hmem))

theorem length_withoutPrefixes_le (rest : Text) : (withoutPrefixes rest).length ≤ rest.length :=
  Nat.le_trans (Removal.length_remove_le _ _) (Removal.length_remove_le _ _)

theorem withoutPrefixes_eq_self_iff : withoutPrefixes rest = rest ↔
    ¬metadataPrefix .aws <:+: rest ∧ ¬metadataPrefix .google <:+: rest := by
  constructor
  · intro heq
    have hgoogle : ¬metadataPrefix .google <:+: rest := by
      intro hoccurs
      have hlt := Removal.length_remove_lt hoccurs (by decide)
      have hle := Removal.length_remove_le (metadataPrefix .aws)
        (Removal.remove (metadataPrefix .google) rest)
      rw [← withoutPrefixes, heq] at hle
      omega
    rw [withoutPrefixes, Removal.remove_eq_self hgoogle] at heq
    exact ⟨(Removal.remove_eq_self_iff (by decide)).mp heq, hgoogle⟩
  · rintro ⟨haws, hgoogle⟩
    rw [withoutPrefixes, Removal.remove_eq_self hgoogle, Removal.remove_eq_self haws]

theorem length_withoutPrefixes_lt (hne : withoutPrefixes rest ≠ rest) :
    (withoutPrefixes rest).length < rest.length := by
  by_cases hgoogle : metadataPrefix .google <:+: rest
  · exact Nat.lt_of_le_of_lt (Removal.length_remove_le _ _)
      (Removal.length_remove_lt hgoogle (by decide))
  · have haws : metadataPrefix .aws <:+: rest := by
      by_contra haws
      exact hne (withoutPrefixes_eq_self_iff.mpr ⟨haws, hgoogle⟩)
    rw [withoutPrefixes, Removal.remove_eq_self hgoogle]
    exact Removal.length_remove_lt haws (by decide)

theorem finalName_base (hname : name ∈ baseUserSettableFields) : finalName provider name = name := by
  have hall : ∀ name ∈ baseUserSettableFields, finalName provider name = name := by
    cases provider <;> decide
  exact hall name hname

theorem lower_of_append (hlower : lower (metadataPrefix provider ++ rest) =
    metadataPrefix provider ++ rest) : lower rest = rest := by
  rw [lower_append, lower_metadataPrefix] at hlower
  exact List.append_cancel_left hlower

/-- Proper names come out as they went in. -/
theorem finalName_of_isProper (hproper : IsProper provider name) (hlower : lower name = name) :
    finalName provider name = name := by
  rcases hproper with hbase | ⟨rest, rfl, hbase, haws, hgoogle⟩
  · exact finalName_base hbase
  · have hrest := lower_of_append hlower
    rw [finalName, rewrittenName_append, withoutPrefixes_eq_self_iff.mpr ⟨haws, hgoogle⟩,
      headerName, hrest, if_neg hbase]

/-- A standard field or a name behind the prefix. -/
def IsFull (provider : ProviderName) (name : Text) : Prop :=
  name ∈ baseUserSettableFields ∨ ∃ rest, name = metadataPrefix provider ++ rest

theorem isFull_finalName (hlower : lower h = h) : IsFull provider (finalName provider h) := by
  rw [finalName, headerName, lower_rewrittenName hlower]
  split
  · next hbase => exact .inl hbase
  · exact .inr ⟨_, rfl⟩

theorem lower_finalName (hlower : lower h = h) :
    lower (finalName provider h) = finalName provider h := by
  rw [finalName, headerName]
  split
  · exact lower_rewrittenName hlower
  · rw [lower_append, lower_metadataPrefix, lower_rewrittenName hlower]

/-- Otherwise a full name gets shorter. -/
theorem finalName_eq_or_lt (hfull : IsFull provider h) (hlower : lower h = h) :
    finalName provider h = h ∧ IsProper provider h ∨
      (finalName provider h).length < h.length := by
  rcases hfull with hbase | ⟨rest, rfl⟩
  · exact .inl ⟨finalName_base hbase, .inl hbase⟩
  · have hle := length_withoutPrefixes_le rest
    have hrest := lower_of_append hlower
    have hpositive : 0 < (metadataPrefix provider).length := by cases provider <;> decide
    rw [finalName, rewrittenName_append, headerName]
    split
    · refine .inr ?_
      rw [List.length_append]
      omega
    · next hbase =>
        by_cases hclean : withoutPrefixes rest = rest
        · refine .inl ⟨by rw [hclean], .inr ⟨rest, rfl, ?_, withoutPrefixes_eq_self_iff.mp hclean⟩⟩
          rwa [hclean, hrest] at hbase
        · refine .inr ?_
          rw [List.length_append, List.length_append]
          exact Nat.add_lt_add_left (length_withoutPrefixes_lt hclean) _

/-! ## The changed metadata -/

section

variable {key : MetadataKey} {metadataPlus : OrderedDict Text Text} {metadataMinus : List Text}
  {value : Text}

/-- The entries of the key, under the names that the code makes for them. -/
def HasDashedEntry (provider : ProviderName) (key : MetadataKey) (name value : Text) : Prop :=
  name ∈ baseUserSettableFields ∧ key.getattr (underscored name) = some value ∧ value ≠ [] ∨
    ∃ item ∈ key.metadata.items,
      name = metadataPrefix provider ++ lower (dashed item.1) ∧ value = item.2

/-- The entries that are left after the changes. -/
def IsLeft (provider : ProviderName) (key : MetadataKey) (metadataPlus : OrderedDict Text Text)
    (metadataMinus : List Text) (name value : Text) : Prop :=
  name ∉ metadataMinus.map lower ∧
    ((∃ item ∈ metadataPlus.items, name = lower item.1 ∧ value = item.2) ∨
      ¬IsMentioned metadataPlus metadataMinus name ∧ HasDashedEntry provider key name value)

theorem mem_setAttributes {item : Text × Text} : item ∈ key.setAttributes ↔
    ∃ field ∈ baseUserSettableFields, item.1 = underscored field ∧
      key.getattr item.1 = some item.2 ∧ item.2 ≠ [] := by
  rw [MetadataKey.setAttributes, underscoreBaseUserSettableFields, List.mem_filterMap]
  constructor
  · rintro ⟨name, hname, hitem⟩
    obtain ⟨field, hfield, rfl⟩ := List.mem_map.mp hname
    split at hitem
    · next c value hattribute =>
        cases hitem
        exact ⟨field, hfield, rfl, hattribute, List.cons_ne_nil _ _⟩
    · cases hitem
  · rintro ⟨field, hfield, hname, hattribute, hne⟩
    refine ⟨item.1, hname ▸ List.mem_map_of_mem hfield, ?_⟩
    obtain ⟨c, value, hvalue⟩ := List.exists_cons_of_ne_nil hne
    rw [hattribute, hvalue]
    simp only [← hvalue]

theorem lower_dashed_underscored :
    ∀ field ∈ baseUserSettableFields, lower (dashed (underscored field)) = field := by
  decide

theorem hasDashedEntry_of_get? (hget : (getRemoteMetadata provider key).get? name = some value) :
    HasDashedEntry provider key name value := by
  rcases OrderedDict.mem_of_get?_foldl_set hget with ⟨item, hitem, hname, hvalue⟩ | ⟨-, hfirst⟩
  · exact .inr ⟨item, hitem, hname.symm, hvalue.symm⟩
  · rcases OrderedDict.mem_of_get?_foldl_set hfirst with ⟨item, hitem, hname, hvalue⟩ | ⟨-, hnone⟩
    · obtain ⟨field, hfield, hunderscored, hattribute, hne⟩ := mem_setAttributes.mp hitem
      rw [hunderscored, lower_dashed_underscored field hfield] at hname
      subst hname hvalue
      exact .inl ⟨hfield, hunderscored ▸ hattribute, hne⟩
    · cases hnone

theorem get?_of_hasDashedEntry (hentry : HasDashedEntry provider key name value) :
    (getRemoteMetadata provider key).get? name ≠ none := by
  apply OrderedDict.get?_foldl_set_ne_none
  rcases hentry with ⟨hbase, hattribute, hne⟩ | ⟨item, hitem, hname, -⟩
  · refine .inr (OrderedDict.get?_foldl_set_ne_none (.inl ⟨(underscored name, value), ?_, ?_⟩))
    · exact mem_setAttributes.mpr ⟨name, hbase, rfl, hattribute, hne⟩
    · exact lower_dashed_underscored name hbase
  · exact .inl ⟨item, hitem, hname.symm⟩

theorem mem_of_get?_normalizeMetadata {metadata : OrderedDict Text Text}
    (hget : (normalizeMetadata metadata).get? name = some value) :
    ∃ item ∈ metadata.items, name = lower item.1 ∧ value = item.2 := by
  rcases OrderedDict.mem_of_get?_foldl_set hget with ⟨item, hitem, hname, hvalue⟩ | ⟨-, hnone⟩
  · exact ⟨item, hitem, hname.symm, hvalue.symm⟩
  · cases hnone

theorem get?_changedMetadata : (changedMetadata provider key metadataPlus metadataMinus).get? name =
    if name ∈ metadataMinus.map lower then none
    else ((getRemoteMetadata provider key).update (normalizeMetadata metadataPlus)).get? name := by
  rw [changedMetadata, OrderedDict.get?_foldl_erase]
  by_cases hminus : name ∈ metadataMinus.map lower
  · rw [if_pos hminus, if_pos hminus]
  · rw [if_neg hminus, if_neg hminus]

theorem isLeft_of_get?
    (hget : (changedMetadata provider key metadataPlus metadataMinus).get? name = some value) :
    IsLeft provider key metadataPlus metadataMinus name value := by
  rw [get?_changedMetadata] at hget
  split at hget
  · cases hget
  · next hminus =>
      refine ⟨hminus, ?_⟩
      rcases OrderedDict.mem_of_get?_foldl_set hget with ⟨item, hitem, hname, hvalue⟩ | ⟨hnone, hold⟩
      · subst hname hvalue
        exact .inl (mem_of_get?_normalizeMetadata (OrderedDict.get?_eq_some_iff.mpr hitem))
      · refine .inr ⟨?_, hasDashedEntry_of_get? hold⟩
        rintro (⟨item, hitem, hname⟩ | hmentioned)
        · have hsome : (normalizeMetadata metadataPlus).get? name ≠ none :=
            OrderedDict.get?_foldl_set_ne_none (.inl ⟨item, hitem, hname.symm⟩)
          obtain ⟨other, hother⟩ := Option.ne_none_iff_exists'.mp hsome
          exact hnone (name, other) (OrderedDict.get?_eq_some_iff.mp hother) rfl
        · exact hminus hmentioned

theorem get?_of_isLeft (hleft : IsLeft provider key metadataPlus metadataMinus name value) :
    (changedMetadata provider key metadataPlus metadataMinus).get? name ≠ none := by
  obtain ⟨hminus, hcases⟩ := hleft
  rw [get?_changedMetadata, if_neg hminus]
  apply OrderedDict.get?_foldl_set_ne_none
  rcases hcases with ⟨item, hitem, hname, -⟩ | ⟨-, hentry⟩
  · have hsome : (normalizeMetadata metadataPlus).get? name ≠ none :=
      OrderedDict.get?_foldl_set_ne_none (.inl ⟨item, hitem, hname.symm⟩)
    obtain ⟨other, hother⟩ := Option.ne_none_iff_exists'.mp hsome
    exact .inl ⟨(name, other), OrderedDict.get?_eq_some_iff.mp hother, rfl⟩
  · exact .inr (get?_of_hasDashedEntry hentry)

/-! ## The headers -/

theorem exists_of_header {header : Text × Data} (hheader : header ∈ (mergeMeta provider
    OrderedDict.empty (rewrittenMetadata provider key metadataPlus metadataMinus)).items) :
    ∃ h value, IsLeft provider key metadataPlus metadataMinus h value ∧
      header.1 = finalName provider h ∧ header.2 = .text value := by
  rcases OrderedDict.mem_of_get?_foldl_set (OrderedDict.get?_eq_some_iff.mpr hheader) with
    ⟨item, hitem, hname, hvalue⟩ | ⟨-, hnone⟩
  · rcases OrderedDict.mem_of_get?_foldl_set (OrderedDict.get?_eq_some_iff.mpr hitem) with
      ⟨old, hold, hrewritten, hsame⟩ | ⟨-, hnone⟩
    · refine ⟨old.1, old.2, isLeft_of_get? (OrderedDict.get?_eq_some_iff.mpr hold), ?_, ?_⟩
      · rw [← hname, ← hrewritten, finalName]
      · rw [← hvalue, ← hsame]
    · cases hnone
  · cases hnone

theorem header_of_isLeft (hleft : IsLeft provider key metadataPlus metadataMinus h value) :
    (mergeMeta provider OrderedDict.empty
      (rewrittenMetadata provider key metadataPlus metadataMinus)).get? (finalName provider h) ≠
        none := by
  obtain ⟨found, hfound⟩ := Option.ne_none_iff_exists'.mp (get?_of_isLeft hleft)
  have hrewritten : (rewrittenMetadata provider key metadataPlus metadataMinus).get?
      (rewrittenName h) ≠ none :=
    OrderedDict.get?_foldl_set_ne_none
      (.inl ⟨(h, found), OrderedDict.get?_eq_some_iff.mp hfound, rfl⟩)
  obtain ⟨other, hother⟩ := Option.ne_none_iff_exists'.mp hrewritten
  exact OrderedDict.get?_foldl_set_ne_none
    (.inl ⟨(rewrittenName h, other), OrderedDict.get?_eq_some_iff.mp hother, rfl⟩)

/-- Every entry that is left has a header. -/
theorem exists_header_of_isLeft
    (hleft : IsLeft provider key metadataPlus metadataMinus h value) :
    ∃ header ∈ (mergeMeta provider OrderedDict.empty
      (rewrittenMetadata provider key metadataPlus metadataMinus)).items,
      header.1 = finalName provider h := by
  obtain ⟨found, hfound⟩ := Option.ne_none_iff_exists'.mp (header_of_isLeft hleft)
  exact ⟨(finalName provider h, found), OrderedDict.get?_eq_some_iff.mp hfound, rfl⟩

theorem lower_base : ∀ name ∈ baseUserSettableFields, lower name = name := by
  decide

theorem lower_of_isWanted (hwanted : IsWanted provider key metadataPlus metadataMinus name value) :
    lower name = name := by
  rcases hwanted.2 with ⟨item, -, rfl, -⟩ | ⟨-, ⟨hbase, -⟩ | ⟨item, -, rfl, -⟩⟩
  · exact lower_lower _
  · exact lower_base name hbase
  · rw [lower_append, lower_metadataPrefix, lower_lower]

theorem lower_of_isLeft (hleft : IsLeft provider key metadataPlus metadataMinus name value) :
    lower name = name := by
  rcases hleft.2 with ⟨item, -, rfl, -⟩ | ⟨-, ⟨hbase, -⟩ | ⟨item, -, rfl, -⟩⟩
  · exact lower_lower _
  · exact lower_base name hbase
  · rw [lower_append, lower_metadataPrefix, lower_lower]

theorem dashed_eq_self {text : Text} (hdash : '_' ∉ text) : dashed text = text := by
  rw [dashed]
  conv_rhs => rw [← List.map_id text]
  refine List.map_congr_left fun c hc => if_neg ?_
  rintro rfl
  exact hdash hc

theorem not_mem_dashed (text : Text) : '_' ∉ dashed text := by
  intro hmem
  obtain ⟨c, -, hc⟩ := List.mem_map.mp hmem
  split at hc
  · cases hc
  · next hne => exact hne hc

/-- Where the dashed names are known, an entry that is left is wanted. -/
theorem isWanted_of_isLeft (hdashes : DashesKnown provider key metadataPlus metadataMinus)
    (hleft : IsLeft provider key metadataPlus metadataMinus name value) :
    IsWanted provider key metadataPlus metadataMinus name value := by
  refine ⟨hleft.1, ?_⟩
  rcases hleft.2 with hplus | ⟨hnot, hbase | ⟨item, hitem, hname, hvalue⟩⟩
  · exact .inl hplus
  · exact .inr ⟨hnot, .inl hbase⟩
  · refine .inr ⟨hnot, ?_⟩
    by_cases hdash : '_' ∈ item.1
    · rcases hdashes item hitem hdash with hmentioned | hentry
      · exact absurd (hname ▸ hmentioned) hnot
      · rwa [hname, hvalue]
    · rw [dashed_eq_self hdash] at hname
      exact .inr ⟨item, hitem, hname, hvalue⟩

/-- Where the names with underscores are mentioned, an entry that is wanted is left. -/
theorem isLeft_of_isWanted
    (hunderscore : ∀ item ∈ key.metadata.items, '_' ∈ item.1 →
      IsMentioned metadataPlus metadataMinus (metadataPrefix provider ++ lower item.1))
    (hwanted : IsWanted provider key metadataPlus metadataMinus name value) :
    IsLeft provider key metadataPlus metadataMinus name value := by
  refine ⟨hwanted.1, ?_⟩
  rcases hwanted.2 with hplus | ⟨hnot, hbase | ⟨item, hitem, hname, hvalue⟩⟩
  · exact .inl hplus
  · exact .inr ⟨hnot, .inl hbase⟩
  · have hdash : '_' ∉ item.1 := fun hdash => hnot (hname ▸ hunderscore item hitem hdash)
    refine .inr ⟨hnot, .inr ⟨item, hitem, ?_, hvalue⟩⟩
    rwa [dashed_eq_self hdash]

theorem changesOnlyAsTold_of_isOrdinary
    (hdashes : DashesKnown provider key metadataPlus metadataMinus)
    (hordinary : IsOrdinary provider key metadataPlus metadataMinus) :
    ChangesOnlyAsTold provider key metadataPlus metadataMinus := by
  have hkept : ∀ {name value}, IsWanted provider key metadataPlus metadataMinus name value →
      finalName provider name = name := fun hwanted =>
    finalName_of_isProper (hordinary.proper _ _ hwanted) (lower_of_isWanted hwanted)
  have hcomes : ∀ header ∈ (mergeMeta provider OrderedDict.empty
      (rewrittenMetadata provider key metadataPlus metadataMinus)).items,
      ∃ value, IsWanted provider key metadataPlus metadataMinus header.1 value ∧
        header.2 = .text value := by
    intro header hheader
    obtain ⟨h, value, hleft, hname, hvalue⟩ := exists_of_header hheader
    have hwanted := isWanted_of_isLeft hdashes hleft
    rw [hkept hwanted] at hname
    exact ⟨value, hname ▸ hwanted, hvalue⟩
  intro name value
  constructor
  · rintro ⟨header, hheader, rfl, hvalue⟩
    obtain ⟨found, hwanted, hfound⟩ := hcomes header hheader
    rw [hvalue] at hfound
    cases hfound
    rwa [lower_of_isWanted hwanted]
  · intro hwanted
    have hleft := isLeft_of_isWanted hordinary.underscore hwanted
    obtain ⟨header, hheader, hname⟩ := exists_header_of_isLeft hleft
    rw [hkept hwanted] at hname
    obtain ⟨found, hother, hfound⟩ := hcomes header hheader
    rw [hname] at hother
    cases hordinary.single _ _ _ hwanted hother
    refine ⟨header, hheader, ?_, hfound⟩
    rw [hname, lower_of_isWanted hwanted]

/-! ## What goes wrong otherwise -/

theorem lower_header {header : Text × Data} (hheader : header ∈ (mergeMeta provider
    OrderedDict.empty (rewrittenMetadata provider key metadataPlus metadataMinus)).items) :
    lower header.1 = header.1 := by
  obtain ⟨h, value, hleft, hname, -⟩ := exists_of_header hheader
  rw [hname, lower_finalName (lower_of_isLeft hleft)]

theorem single_of_changesOnlyAsTold
    (htold : ChangesOnlyAsTold provider key metadataPlus metadataMinus) {value' : Text}
    (hwanted : IsWanted provider key metadataPlus metadataMinus name value)
    (hwanted' : IsWanted provider key metadataPlus metadataMinus name value') :
    value = value' := by
  obtain ⟨header, hheader, hname, hvalue⟩ := (htold name value).mpr hwanted
  obtain ⟨header', hheader', hname', hvalue'⟩ := (htold name value').mpr hwanted'
  rw [lower_header hheader] at hname
  rw [lower_header hheader'] at hname'
  have hfirst := OrderedDict.get?_eq_some_iff.mpr hheader
  have hsecond := OrderedDict.get?_eq_some_iff.mpr hheader'
  rw [hname] at hfirst
  rw [hname', hfirst, hvalue, hvalue'] at hsecond
  cases hsecond
  rfl

/-- A bound for the lengths of the headers. -/
theorem exists_length_le (headers : List (Text × Data)) :
    ∃ bound, ∀ header ∈ headers, header.1.length ≤ bound := by
  induction headers with
  | nil => exact ⟨0, fun header hheader => by cases hheader⟩
  | cons first headers ih =>
      obtain ⟨bound, hbound⟩ := ih
      refine ⟨max first.1.length bound, fun header hheader => ?_⟩
      rcases List.mem_cons.mp hheader with rfl | hheader
      · exact Nat.le_max_left _ _
      · exact Nat.le_trans (hbound header hheader) (Nat.le_max_right _ _)

/-- If the headers are the wanted ones, then each wanted name is left and comes out as it went
in: otherwise it would come from a longer wanted name, and that from a longer one still. -/
theorem kept_of_changesOnlyAsTold
    (hdashes : DashesKnown provider key metadataPlus metadataMinus)
    (htold : ChangesOnlyAsTold provider key metadataPlus metadataMinus)
    (hwanted : IsWanted provider key metadataPlus metadataMinus name value) :
    finalName provider name = name ∧ IsFull provider name ∧
      ∃ value, IsLeft provider key metadataPlus metadataMinus name value := by
  obtain ⟨bound, hbound⟩ := exists_length_le (mergeMeta provider OrderedDict.empty
    (rewrittenMetadata provider key metadataPlus metadataMinus)).items
  induction hgap : bound - name.length using Nat.strongRecOn generalizing name value with
  | ind gap ih =>
      obtain ⟨header, hheader, hname, -⟩ := (htold name value).mpr hwanted
      rw [lower_header hheader] at hname
      obtain ⟨h, left, hleft, hcomes, -⟩ := exists_of_header hheader
      have hlower := lower_of_isLeft hleft
      rw [hname] at hcomes
      have hsource := isWanted_of_isLeft hdashes hleft
      have hfull : IsFull provider h := by
        obtain ⟨other, hother, hsame, -⟩ := (htold h left).mpr hsource
        rw [lower_header hother] at hsame
        obtain ⟨earlier, found, hearlier, hends, -⟩ := exists_of_header hother
        rw [← hsame, hends]
        exact isFull_finalName (lower_of_isLeft hearlier)
      rcases finalName_eq_or_lt hfull hlower with ⟨hkept, -⟩ | hlt
      · have hsame : name = h := hcomes.trans hkept
        subst hsame
        exact ⟨hkept, hfull, left, hleft⟩
      · rw [← hcomes] at hlt
        have hlong : h.length ≤ bound := by
          obtain ⟨other, hother, hsame, -⟩ := (htold h left).mpr hsource
          rw [lower_header hother] at hsame
          exact hsame ▸ hbound other hother
        obtain ⟨hkept, -, -⟩ := ih (bound - h.length) (by omega) hsource rfl
        rw [hkept] at hcomes
        subst hcomes
        exact absurd hlt (Nat.lt_irrefl _)

theorem not_mem_base : ∀ name ∈ baseUserSettableFields, '_' ∉ name := by
  decide

theorem toLower_underscore {text : Text} (hmem : '_' ∈ text) : '_' ∈ lower text :=
  List.mem_map.mpr ⟨'_', hmem, rfl⟩

theorem not_mem_lower {text : Text} (hmem : '_' ∉ text) : '_' ∉ lower text := by
  intro hlower
  obtain ⟨c, hc, heq⟩ := List.mem_map.mp hlower
  exact hmem (eq_of_toLower (by decide +kernel) heq ▸ hc)

theorem isOrdinary_of_changesOnlyAsTold
    (hdashes : DashesKnown provider key metadataPlus metadataMinus)
    (htold : ChangesOnlyAsTold provider key metadataPlus metadataMinus) :
    IsOrdinary provider key metadataPlus metadataMinus where
  proper := by
    intro name value hwanted
    obtain ⟨hkept, hfull, -⟩ := kept_of_changesOnlyAsTold hdashes htold hwanted
    rcases finalName_eq_or_lt hfull (lower_of_isWanted hwanted) with ⟨-, hproper⟩ | hlt
    · exact hproper
    · rw [hkept] at hlt
      exact absurd hlt (Nat.lt_irrefl _)
  single := fun name value value' => single_of_changesOnlyAsTold htold
  underscore := by
    intro item hitem hdash
    by_contra hnot
    have hwanted : IsWanted provider key metadataPlus metadataMinus
        (metadataPrefix provider ++ lower item.1) item.2 :=
      ⟨fun hminus => hnot (.inr hminus), .inr ⟨hnot, .inr ⟨item, hitem, rfl, rfl⟩⟩⟩
    obtain ⟨-, -, value, hleft⟩ := kept_of_changesOnlyAsTold hdashes htold hwanted
    have hname := toLower_underscore hdash
    rcases hleft.2 with ⟨plus, hplus, hsame, -⟩ | ⟨-, ⟨hbase, -⟩ | ⟨other, -, hsame, -⟩⟩
    · exact hnot (.inl ⟨plus, hplus, hsame⟩)
    · exact not_mem_base _ hbase (List.mem_append_right _ hname)
    · rw [List.append_cancel_left hsame] at hname
      exact not_mem_lower (not_mem_dashed other.1) hname

end

end Boto.S3
