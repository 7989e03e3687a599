import Boto.Python
import Boto.Support.LastEntries
import Mathlib.Data.List.Induction

/-!
# Regions and their endpoints

`load_regions` and `get_regions` of `boto/regioninfo.py`.  The built-in endpoints are kept in a
dictionary of the module, which is what a call returns; what an override adds is put into the same
dictionary and into the tables of services that it refers to.
-/

namespace Boto.RegionInfo

variable {ν : Type}

/-! ## The cache -/

/-- The endpoints of a service by region. -/
abbrev Table (ν : Type) := OrderedDict Text ν

/-- The dictionary of the module: services refer to tables, which they can share. -/
structure Cache (ν : Type) where
  services : OrderedDict Text ℕ
  tables : List (Table ν)

namespace Cache

/-- The dictionary when the module is imported. -/
def empty : Cache ν := ⟨.empty, []⟩

/-- The table that is referred to. -/
def table (cache : Cache ν) (ref : ℕ) : Table ν :=
  cache.tables[ref]?.getD .empty

/-- A service with a new table. -/
def newTable (cache : Cache ν) (service : Text) (table : Table ν) : Cache ν where
  services := cache.services.set service cache.tables.length
  tables := cache.tables ++ [table]

/-- `setdefault(service, {})`. -/
def setDefault (cache : Cache ν) (service : Text) : Cache ν :=
  if cache.services.contains service = true then cache else cache.newTable service .empty

/-- `update` of the table of a service. -/
def updateTable (cache : Cache ν) (service : Text) (regions : Table ν) : Cache ν :=
  match cache.services.get? service with
  | some ref => { cache with tables := cache.tables.modify ref fun table => table.update regions }
  | none => cache

/-- The dictionary as it is seen. -/
def view (cache : Cache ν) : OrderedDict Text (Table ν) :=
  cache.services.mapValues cache.table

end Cache

/-- `build_static_endpoints`, for what is built for each service. -/
def buildStaticEndpoints (builtin : OrderedDict Text (Table ν)) : Cache ν :=
  let cache : Cache ν :=
    builtin.items.foldl (fun cache item => cache.newTable item.1 item.2) .empty
  match cache.services.get? "cloudsearch".toList with
  | some ref => { cache with services := cache.services.set "cloudsearchdomain".toList ref }
  | none => cache

/-- `_load_builtin_endpoints`. -/
def loadBuiltinEndpoints (builtin : OrderedDict Text (Table ν)) (cache : Cache ν) : Cache ν :=
  if cache.services.items ≠ [] then cache else buildStaticEndpoints builtin

/-! ## Overrides -/

/-- A file: what `update` takes from it for each service, if it does not raise there; or no
dictionary at all. -/
inductive Contents (ν : Type)
  | other (error : PyError)
  | endpoints (services : OrderedDict Text (Option (Table ν)))

/-- What is in force at a call: the variable `BOTO_ENDPOINTS`, the option `endpoints_path`, and the
files. -/
structure Setting (ν : Type) where
  environ : Option Text
  config : Option Text
  files : Text → Contents ν

/-- The file that a setting names. -/
def Setting.additional (setting : Setting ν) : Option (Contents ν) :=
  ((setting.environ.filter (· ≠ [])).or (setting.config.filter (· ≠ []))).map setting.files

/-- The error of `update` for a value that is no dictionary. -/
def updateError : PyError :=
  .typeError "object is not iterable"

/-- `merge_endpoints`, and what it leaves of the dictionary. -/
def mergeEndpoints : List (Text × Option (Table ν)) → Cache ν → Except PyError Unit × Cache ν
  | [], cache => (.ok (), cache)
  | (service, none) :: _, cache => (.error updateError, cache.setDefault service)
  | (service, some regions) :: additions, cache =>
      mergeEndpoints additions ((cache.setDefault service).updateTable service regions)

/-- `load_regions`. -/
def loadRegions (builtin : OrderedDict Text (Table ν)) (setting : Setting ν) (cache : Cache ν) :
    Except PyError (OrderedDict Text (Table ν)) × Cache ν :=
  let endpoints := loadBuiltinEndpoints builtin cache
  match setting.additional with
  | none => (.ok endpoints.view, endpoints)
  | some (.other e) => (.error e, endpoints)
  | some (.endpoints additions) =>
      let merged := mergeEndpoints additions.items endpoints
      (merged.1.map fun _ => merged.2.view, merged.2)

/-- What a region is made with. -/
structure Region (ν : Type) where
  name : Text
  endpoint : ν

/-- What `get_regions` raises. -/
inductive RegionError
  | python (error : PyError)
  | botoClient (message : Text)

/-- `get_regions`. -/
def getRegions (builtin : OrderedDict Text (Table ν)) (service : Text) (setting : Setting ν)
    (cache : Cache ν) : Except RegionError (List (Region ν)) × Cache ν :=
  let loaded := loadRegions builtin setting cache
  match loaded.1 with
  | .error e => (.error (.python e), loaded.2)
  | .ok endpoints =>
      match endpoints.get? service with
      | none =>
          (.error (.botoClient ("Service '".toList ++ service ++
            "' not found in endpoints.".toList)), loaded.2)
      | some table => (.ok (table.items.map fun item => ⟨item.1, item.2⟩), loaded.2)

/-! ## What the calls should give -/

/-- The built-in endpoints. -/
def builtinRegions (builtin : OrderedDict Text (Table ν)) : OrderedDict Text (Table ν) :=
  match builtin.get? "cloudsearch".toList with
  | some table => builtin.set "cloudsearchdomain".toList table
  | none => builtin

/-- Endpoints overlaid with others, service by service and region by region. -/
def overlay (base : OrderedDict Text (Table ν)) (additions : List (Text × Table ν)) :
    OrderedDict Text (Table ν) :=
  additions.foldl (fun regions item =>
    regions.set item.1 (((regions.get? item.1).getD .empty).update item.2)) base

/-- What is merged from a file, up to where it raises. -/
def mergedItems : List (Text × Option (Table ν)) → List (Text × Table ν)
  | [] => []
  | (service, none) :: _ => [(service, .empty)]
  | (service, some regions) :: additions => (service, regions) :: mergedItems additions

/-- What is merged from the file that a setting names. -/
def Setting.merged (setting : Setting ν) : List (Text × Table ν) :=
  match setting.additional with
  | some (.endpoints additions) => mergedItems additions.items
  | _ => []

/-- The error of a file that cannot be merged. -/
def Setting.error (setting : Setting ν) : Option PyError :=
  match setting.additional with
  | none => none
  | some (.other e) => some e
  | some (.endpoints additions) =>
      if additions.items.all (fun item => item.2.isSome) then none else some updateError

/-- The endpoints that are in force with a setting. -/
def inForce (builtin : OrderedDict Text (Table ν)) (setting : Setting ν) :
    OrderedDict Text (Table ν) :=
  overlay (builtinRegions builtin) setting.merged

/-- The endpoint of a region. -/
def endpointOf (regions : OrderedDict Text (Table ν)) (service region : Text) : Option ν :=
  (regions.get? service).bind fun table => table.get? region

/-- The same services with the same endpoints. -/
structure SameRegions (regions regions' : OrderedDict Text (Table ν)) : Prop where
  services : ∀ service, regions.contains service = regions'.contains service
  endpoints : ∀ service region, endpointOf regions service region = endpointOf regions' service region

/-- A call. -/
inductive Call (ν : Type)
  | loadRegions (setting : Setting ν)
  | getRegions (service : Text) (setting : Setting ν)

/-- The setting at a call. -/
def Call.setting : Call ν → Setting ν
  | .loadRegions setting => setting
  | .getRegions _ setting => setting

/-- The dictionary of the module after a call. -/
def Call.perform (builtin : OrderedDict Text (Table ν)) (cache : Cache ν) : Call ν → Cache ν
  | .loadRegions setting => (RegionInfo.loadRegions builtin setting cache).2
  | .getRegions service setting => (RegionInfo.getRegions builtin service setting cache).2

/-- The dictionary of the module after some calls. -/
def run (builtin : OrderedDict Text (Table ν)) (calls : List (Call ν)) : Cache ν :=
  calls.foldl (Call.perform builtin) .empty

/-- A call gives what is in force with its setting: of `get_regions`, one region for each that is in
force. -/
def Call.IsRight (builtin : OrderedDict Text (Table ν)) (cache : Cache ν) : Call ν → Prop
  | .loadRegions setting =>
      match setting.error with
      | some e => (RegionInfo.loadRegions builtin setting cache).1 = .error e
      | none => ∃ regions, (RegionInfo.loadRegions builtin setting cache).1 = .ok regions ∧
          SameRegions regions (inForce builtin setting)
  | .getRegions service setting =>
      match setting.error with
      | some e => (RegionInfo.getRegions builtin service setting cache).1 = .error (.python e)
      | none =>
          if (inForce builtin setting).contains service = true then
            ∃ regions, (RegionInfo.getRegions builtin service setting cache).1 = .ok regions ∧
              (regions.map Region.name).Nodup ∧ ∀ name endpoint, ⟨name, endpoint⟩ ∈ regions ↔
                endpointOf (inForce builtin setting) service name = some endpoint
          else ∃ message, (RegionInfo.getRegions builtin service setting cache).1 = .error (.botoClient message)

/-- What is merged by some calls. -/
def mergedBy (calls : List (Call ν)) : List (Text × Table ν) :=
  calls.flatMap fun call => call.setting.merged

/-- The endpoint that is set last for a region. -/
def lastSet (service region : Text) : List (Text × Table ν) → Option ν
  | [] => none
  | item :: additions =>
      (lastSet service region additions).or (if item.1 = service then item.2.get? region else none)

/-- The services that share a table: those of `_handle_special_cases`. -/
def IsShared (builtin : OrderedDict Text (Table ν)) (service : Text) : Prop :=
  builtin.contains "cloudsearch".toList = true ∧
    (service = "cloudsearch".toList ∨ service = "cloudsearchdomain".toList)

/-- What earlier calls merged is built in or merged again, and nothing is merged into a table that
two services share. -/
structure IsUntouched (builtin : OrderedDict Text (Table ν)) (earlier : List (Call ν))
    (call : Call ν) : Prop where
  services : ∀ item ∈ mergedBy earlier, (builtinRegions builtin).contains item.1 = true ∨
    ∃ again ∈ call.setting.merged, again.1 = item.1
  endpoints : ∀ service region endpoint,
    lastSet service region (mergedBy earlier) = some endpoint →
      endpointOf (builtinRegions builtin) service region = some endpoint ∨
        lastSet service region call.setting.merged ≠ none
  apart : ∀ item ∈ call.setting.merged, ¬IsShared builtin item.1

/-! ## Overlays -/

section

variable {builtin regions regions' base : OrderedDict Text (Table ν)} {cache : Cache ν}
  {additions : List (Text × Table ν)} {service region : Text} {shared : Text → Prop}

theorem get?_update (table other : Table ν) (region : Text) :
    (table.update other).get? region = (other.get? region).or (table.get? region) := by
  have hlast : OrderedDict.lastEntry region other.items = other.get? region := by
    rw [← @OrderedDict.get?_ofEntries Text ν _ other.items region]
    exact congrArg (fun d : Table ν => d.get? region) (OrderedDict.empty_update other)
  rw [OrderedDict.update, ← hlast]
  exact OrderedDict.get?_foldl_set other.items table

theorem endpointOf_set (table : Table ν) (other : Text) :
    endpointOf (regions.set service table) other region =
      if other = service then table.get? region else endpointOf regions other region := by
  rw [endpointOf, OrderedDict.get?_set]
  split
  · rfl
  · rfl

/-- The table of a service, which has no endpoints if it is not there. -/
theorem get?_getD (regions : OrderedDict Text (Table ν)) (service region : Text) :
    ((regions.get? service).getD .empty).get? region = endpointOf regions service region := by
  rw [endpointOf]
  cases regions.get? service with
  | none => rfl
  | some table => rfl

theorem overlay_cons (item : Text × Table ν) :
    overlay base (item :: additions) =
      overlay (base.set item.1 (((base.get? item.1).getD .empty).update item.2)) additions := rfl

theorem endpointOf_overlay : endpointOf (overlay base additions) service region =
    (lastSet service region additions).or (endpointOf base service region) := by
  induction additions generalizing base with
  | nil => rfl
  | cons item additions ih =>
      rw [overlay_cons, ih, lastSet, Option.or_assoc, endpointOf_set]
      congr 1
      by_cases hservice : service = item.1
      · subst hservice
        rw [if_pos rfl, if_pos rfl, get?_update, get?_getD]
      · rw [if_neg hservice, if_neg (Ne.symm hservice), Option.none_or]

theorem contains_overlay : (overlay base additions).contains service =
    (base.contains service || additions.any fun item => decide (item.1 = service)) := by
  induction additions generalizing base with
  | nil => exact (Bool.or_false _).symm
  | cons item additions ih =>
      rw [overlay_cons, ih, OrderedDict.contains_set, List.any_cons, ← Bool.or_assoc,
        Bool.or_comm (base.contains service), decide_eq_decide.mpr eq_comm]

theorem overlay_append (additions' : List (Text × Table ν)) :
    overlay base (additions ++ additions') = overlay (overlay base additions) additions' :=
  List.foldl_append

/-- What was overlaid before is not seen if it is in the base or overlaid again. -/
theorem overlay_of_masked {earlier : List (Text × Table ν)}
    (hservices : ∀ item ∈ earlier, base.contains item.1 = true ∨
      ∃ again ∈ additions, again.1 = item.1)
    (hendpoints : ∀ service region endpoint, lastSet service region earlier = some endpoint →
      endpointOf base service region = some endpoint ∨
        lastSet service region additions ≠ none) :
    SameRegions (overlay (overlay base earlier) additions) (overlay base additions) := by
  constructor
  · intro service
    rw [contains_overlay, contains_overlay, contains_overlay, Bool.eq_iff_iff]
    simp only [Bool.or_eq_true, List.any_eq_true, decide_eq_true_eq]
    constructor
    · rintro ((hbase | ⟨item, hitem, rfl⟩) | hagain)
      · exact .inl hbase
      · exact hservices item hitem
      · exact .inr hagain
    · rintro (hbase | hagain)
      · exact .inl (.inl hbase)
      · exact .inr hagain
  · intro service region
    rw [endpointOf_overlay, endpointOf_overlay, endpointOf_overlay]
    cases hagain : lastSet service region additions with
    | some endpoint => rfl
    | none =>
        rw [Option.none_or, Option.none_or]
        cases hold : lastSet service region earlier with
        | none => rfl
        | some endpoint =>
            rcases hendpoints service region endpoint hold with hbase | hne
            · exact hbase.symm
            · exact absurd hagain hne

theorem SameRegions.trans {regions'' : OrderedDict Text (Table ν)}
    (hsame : SameRegions regions regions') (hsame' : SameRegions regions' regions'') :
    SameRegions regions regions'' where
  services service := (hsame.services service).trans (hsame'.services service)
  endpoints service region := (hsame.endpoints service region).trans (hsame'.endpoints service region)

/-! ## The dictionary of the module -/

/-- The dictionary shows endpoints, and only some services share a table. -/
structure Shows (shared : Text → Prop) (cache : Cache ν)
    (regions : OrderedDict Text (Table ν)) : Prop where
  valid : ∀ service ref, cache.services.get? service = some ref → ref < cache.tables.length
  apart : ∀ service other ref, cache.services.get? service = some ref →
    cache.services.get? other = some ref → service = other ∨ shared service ∧ shared other
  same : SameRegions cache.view regions

theorem endpointOf_view : endpointOf cache.view service region =
    (cache.services.get? service).bind fun ref => (cache.table ref).get? region := by
  rw [endpointOf, Cache.view, OrderedDict.get?_mapValues]
  cases cache.services.get? service with
  | none => rfl
  | some ref => rfl

theorem contains_view : cache.view.contains service = cache.services.contains service := by
  rw [OrderedDict.contains, Cache.view, OrderedDict.get?_mapValues, Option.isSome_map]
  rfl

theorem table_newTable {ref : ℕ} (hvalid : ref < cache.tables.length) (table : Table ν) :
    (cache.newTable service table).table ref = cache.table ref := by
  rw [Cache.table, Cache.newTable, List.getElem?_append_left hvalid]
  rfl

/-- A new service shows its table. -/
theorem Shows.newTable (hshows : Shows shared cache regions) (service : Text) (table : Table ν) :
    Shows shared (cache.newTable service table) (regions.set service table) := by
  have hget : ∀ other, (cache.newTable service table).services.get? other =
      if other = service then some cache.tables.length else cache.services.get? other :=
    fun other => OrderedDict.get?_set
  have hlength : (cache.newTable service table).tables.length = cache.tables.length + 1 :=
    List.length_append
  constructor
  · intro other ref href
    rw [hget] at href
    rw [hlength]
    split at href
    · cases href
      exact Nat.lt_succ_self _
    · exact Nat.lt_succ_of_lt (hshows.valid other ref href)
  · intro other other' ref href href'
    rw [hget] at href href'
    split at href
    · rename_i heq
      cases href
      split at href'
      · rename_i heq'
        exact .inl (heq.trans heq'.symm)
      · exact absurd (hshows.valid other' _ href') (Nat.lt_irrefl _)
    · split at href'
      · cases href'
        exact absurd (hshows.valid other _ href) (Nat.lt_irrefl _)
      · exact hshows.apart other other' ref href href'
  · constructor
    · intro other
      rw [contains_view, OrderedDict.contains_set, ← hshows.same.services, contains_view]
      exact OrderedDict.contains_set
    · intro other region
      rw [endpointOf_view, hget, endpointOf_set]
      split
      · have htable : (cache.newTable service table).table cache.tables.length = table := by
          rw [Cache.table, Cache.newTable, List.getElem?_concat_length]
          rfl
        rw [Option.bind_some, htable]
      · rw [← hshows.same.endpoints, endpointOf_view]
        cases href : cache.services.get? other with
        | none => rfl
        | some ref =>
            rw [Option.bind_some, Option.bind_some, table_newTable (hshows.valid other ref href)]

theorem SameRegions.refl (regions : OrderedDict Text (Table ν)) : SameRegions regions regions where
  services _ := rfl
  endpoints _ _ := rfl

/-- Adding a service without endpoints adds no endpoint. -/
theorem sameRegions_overlay_empty (service : Text) (table : Table ν) :
    SameRegions (overlay (overlay base [(service, .empty)]) [(service, table)])
      (overlay base [(service, table)]) where
  services other := by
    rw [contains_overlay, contains_overlay, contains_overlay, Bool.or_assoc]
    exact congrArg (base.contains other || ·) (Bool.or_self _)
  endpoints other region := by
    rw [endpointOf_overlay, endpointOf_overlay, endpointOf_overlay]
    have hnone : lastSet other region [(service, (OrderedDict.empty : Table ν))] = none := by
      rw [lastSet, lastSet, Option.none_or]
      exact ite_self none
    rw [hnone, Option.none_or]

theorem Shows.of_same (hshows : Shows shared cache regions) (hsame : SameRegions regions regions') :
    Shows shared cache regions' :=
  ⟨hshows.valid, hshows.apart, hshows.same.trans hsame⟩

/-- A service that is there afterwards. -/
theorem contains_setDefault (cache : Cache ν) (service : Text) :
    (cache.setDefault service).services.contains service = true := by
  rw [Cache.setDefault]
  split
  · assumption
  · rw [Cache.newTable, OrderedDict.contains_set, decide_eq_true rfl, Bool.true_or]

theorem Shows.setDefault (hshows : Shows shared cache regions) (service : Text) :
    Shows shared (cache.setDefault service) (overlay regions [(service, .empty)]) := by
  have hin : cache.services.contains service = regions.contains service := by
    rw [← contains_view, hshows.same.services]
  rw [Cache.setDefault]
  split
  · rename_i hcontains
    apply hshows.of_same
    constructor
    · intro other
      rw [contains_overlay, List.any_cons, List.any_nil, Bool.or_false]
      by_cases hother : service = other
      · rw [← hother, ← hin, hcontains, Bool.true_or]
      · rw [decide_eq_false hother, Bool.or_false]
    · intro other region
      rw [endpointOf_overlay, lastSet, lastSet, Option.none_or]
      exact (congrArg (Option.or · _) (ite_self none)).symm
  · rename_i hcontains
    have hnone : regions.get? service = none := by
      rw [hin, OrderedDict.contains, Option.isSome_iff_ne_none, not_not] at hcontains
      exact hcontains
    have hshows' := hshows.newTable service .empty
    have hoverlay : overlay regions [(service, .empty)] = regions.set service .empty := by
      rw [overlay_cons, hnone]
      rfl
    rwa [hoverlay]

/-- A table that no other service shares is changed for its service alone. -/
theorem Shows.updateTable (hshows : Shows shared cache regions)
    (hservice : cache.services.contains service = true) (hshared : ¬shared service)
    (table : Table ν) :
    Shows shared (cache.updateTable service table) (overlay regions [(service, table)]) := by
  obtain ⟨ref, href⟩ := Option.isSome_iff_exists.mp hservice
  rw [Cache.updateTable, href]
  have hvalid := hshows.valid service ref href
  constructor
  · intro other ref' href'
    rw [List.length_modify]
    exact hshows.valid other ref' href'
  · exact hshows.apart
  · constructor
    · intro other
      rw [contains_view, contains_overlay, ← hshows.same.services, contains_view, List.any_cons,
        List.any_nil, Bool.or_false]
      by_cases hother : service = other
      · rw [← hother, hservice, Bool.true_or]
      · rw [decide_eq_false hother, Bool.or_false]
    · intro other region
      rw [endpointOf_view, endpointOf_overlay, ← hshows.same.endpoints, endpointOf_view, lastSet,
        lastSet, Option.none_or]
      cases href' : cache.services.get? other with
      | none =>
          have hother : service ≠ other := by
            rintro rfl
            rw [href] at href'
            cases href'
          rw [if_neg hother]
          rfl
      | some ref' =>
          have hvalid' := hshows.valid other ref' href'
          rw [Option.bind_some, Option.bind_some, Cache.table, List.getElem?_modify, Cache.table]
          by_cases hother : service = other
          · subst hother
            obtain rfl := Option.some.inj (href.symm.trans href')
            rw [if_pos rfl, List.getElem?_eq_getElem hvalid]
            dsimp only [Option.map_eq_map, Option.map_some, Option.getD_some]
            rw [if_pos rfl]
            exact get?_update _ table region
          · have hne : ref ≠ ref' := by
              rintro rfl
              rcases hshows.apart service other ref href href' with heq | ⟨hin, -⟩
              · exact hother heq
              · exact hshared hin
            rw [if_neg hother, Option.none_or]
            simp only [if_neg hne, id_map']

/-- An addition to a table that is not shared. -/
theorem Shows.merge (hshows : Shows shared cache regions) (hshared : ¬shared service)
    (table : Table ν) :
    Shows shared ((cache.setDefault service).updateTable service table)
      (overlay regions [(service, table)]) :=
  ((hshows.setDefault service).updateTable (contains_setDefault cache service) hshared
    table).of_same (sameRegions_overlay_empty service table)

/-- Additions overlay what is shown. -/
theorem Shows.mergeEndpoints {additions : List (Text × Option (Table ν))}
    (hshows : Shows shared cache regions)
    (hshared : ∀ item ∈ mergedItems additions, ¬shared item.1) :
    Shows shared (mergeEndpoints additions cache).2 (overlay regions (mergedItems additions)) := by
  induction additions generalizing cache regions with
  | nil => exact hshows
  | cons addition additions ih =>
      obtain ⟨service, table⟩ := addition
      cases table with
      | none => exact hshows.setDefault service
      | some table =>
          rw [RegionInfo.mergeEndpoints, mergedItems]
          have hfirst := hshared (service, table) List.mem_cons_self
          exact ih (hshows.merge hfirst table)
            fun item hitem => hshared item (List.mem_cons_of_mem _ hitem)

/-- Additions raise for a value that is no dictionary. -/
theorem mergeEndpoints_result (additions : List (Text × Option (Table ν))) (cache : Cache ν) :
    (mergeEndpoints additions cache).1 =
      if additions.all (fun item => item.2.isSome) then .ok () else .error updateError := by
  induction additions generalizing cache with
  | nil => rfl
  | cons addition additions ih =>
      obtain ⟨service, table⟩ := addition
      cases table with
      | none => rfl
      | some table =>
          rw [RegionInfo.mergeEndpoints, ih, List.all_cons, Option.isSome_some, Bool.true_and]

/-! ## The built-in endpoints -/

/-- New services are shown one after the other. -/
theorem Shows.foldl_newTable {items : List (Text × Table ν)} (hshows : Shows shared cache regions) :
    Shows shared (items.foldl (fun cache item => cache.newTable item.1 item.2) cache)
      (items.foldl (fun regions item => regions.set item.1 item.2) regions) := by
  induction items generalizing cache regions with
  | nil => exact hshows
  | cons item items ih => exact ih (hshows.newTable item.1 item.2)

theorem shows_empty : Shows shared (Cache.empty : Cache ν) .empty where
  valid _ _ href := by cases href
  apart _ _ _ href := by cases href
  same := SameRegions.refl _

/-- A service that is given the table of another. -/
theorem Shows.alias {first second : Text} {ref : ℕ} {table : Table ν}
    (hshows : Shows (fun _ => False) cache regions)
    (href : cache.services.get? first = some ref) (htable : regions.get? first = some table)
    (hfirst : shared first) (hsecond : shared second) :
    Shows shared { cache with services := cache.services.set second ref }
      (regions.set second table) := by
  have hget : ∀ other, (cache.services.set second ref).get? other =
      if other = second then some ref else cache.services.get? other :=
    fun other => OrderedDict.get?_set
  have hapart : ∀ other, cache.services.get? other = some ref → other = first := by
    intro other hother
    rcases hshows.apart other first ref hother href with heq | ⟨hfalse, -⟩
    · exact heq
    · exact hfalse.elim
  constructor
  · intro other ref' href'
    rw [hget] at href'
    split at href'
    · cases href'
      exact hshows.valid first ref href
    · exact hshows.valid other ref' href'
  · intro other other' ref' href' href''
    rw [hget] at href' href''
    split at href'
    · rename_i heq
      cases href'
      split at href''
      · rename_i heq'
        exact .inl (heq.trans heq'.symm)
      · rw [heq, hapart other' href'']
        exact .inr ⟨hsecond, hfirst⟩
    · split at href''
      · rename_i heq'
        cases href''
        rw [heq', hapart other href']
        exact .inr ⟨hfirst, hsecond⟩
      · rcases hshows.apart other other' ref' href' href'' with heq | ⟨hfalse, -⟩
        · exact .inl heq
        · exact hfalse.elim
  · constructor
    · intro other
      rw [OrderedDict.contains_set, ← hshows.same.services, contains_view, contains_view]
      exact OrderedDict.contains_set
    · intro other region
      rw [endpointOf_view, hget, endpointOf_set]
      split
      · have hsame := hshows.same.endpoints first region
        rw [endpointOf_view, href, endpointOf, htable] at hsame
        exact hsame
      · rw [← hshows.same.endpoints, endpointOf_view]
        rfl

/-- What is built shows the built-in endpoints. -/
theorem shows_buildStaticEndpoints (builtin : OrderedDict Text (Table ν)) :
    Shows (IsShared builtin) (buildStaticEndpoints builtin) (builtinRegions builtin) := by
  have hshows : Shows (fun _ => False)
      (builtin.items.foldl (fun (cache : Cache ν) item => cache.newTable item.1 item.2) .empty)
      builtin := by
    have hfold := @Shows.foldl_newTable ν _ _ _ builtin.items (@shows_empty ν fun _ => False)
    have hbuiltin : builtin.items.foldl (fun regions item => regions.set item.1 item.2) .empty =
        builtin := OrderedDict.empty_update builtin
    rwa [hbuiltin] at hfold
  have hcontains := hshows.same.services "cloudsearch".toList
  rw [contains_view] at hcontains
  rw [buildStaticEndpoints, builtinRegions]
  generalize builtin.items.foldl
    (fun (cache : Cache ν) item => cache.newTable item.1 item.2) .empty = cache at *
  cases href : cache.services.get? "cloudsearch".toList with
  | none =>
      have hnone : builtin.get? "cloudsearch".toList = none := by
        rw [OrderedDict.contains, href, OrderedDict.contains] at hcontains
        exact Option.isNone_iff_eq_none.mp (Option.isSome_eq_false_iff.mp hcontains.symm)
      rw [hnone]
      refine ⟨hshows.valid, ?_, hshows.same⟩
      intro service other ref href href'
      rcases hshows.apart service other ref href href' with heq | ⟨hfalse, -⟩
      · exact .inl heq
      · exact hfalse.elim
  | some ref =>
      have hin : builtin.contains "cloudsearch".toList = true := by
        rw [← hcontains, OrderedDict.contains, href]
        rfl
      obtain ⟨table, htable⟩ := Option.isSome_iff_exists.mp hin
      rw [htable]
      exact hshows.alias href htable ⟨hin, .inl rfl⟩ ⟨hin, .inr rfl⟩

/-- Loading what is built in again changes nothing of what is shown. -/
theorem Shows.loadBuiltinEndpoints {additions : List (Text × Table ν)}
    (hshows : Shows (IsShared builtin) cache (overlay (builtinRegions builtin) additions)) :
    Shows (IsShared builtin) (loadBuiltinEndpoints builtin cache)
      (overlay (builtinRegions builtin) additions) := by
  rw [RegionInfo.loadBuiltinEndpoints]
  split
  · exact hshows
  · rename_i hempty
    have hnone : ∀ service, (overlay (builtinRegions builtin) additions).contains service = false := by
      intro service
      rw [← hshows.same.services, contains_view, OrderedDict.contains, OrderedDict.get?,
        not_not.mp hempty]
      rfl
    have hbase : ∀ service, (builtinRegions builtin).contains service = false := by
      intro service
      have hservice := hnone service
      rw [contains_overlay, Bool.or_eq_false_iff] at hservice
      exact hservice.1
    have hadditions : additions = [] := by
      cases additions with
      | nil => rfl
      | cons item additions =>
          have hitem := hnone item.1
          rw [contains_overlay, List.any_cons, decide_eq_true rfl, Bool.true_or, Bool.or_true]
            at hitem
          cases hitem
    rw [hadditions]
    exact shows_buildStaticEndpoints builtin

/-! ## Calls -/

variable {setting : Setting ν} {earlier : List (Call ν)} {call : Call ν}

/-- A call overlays what is shown with what its setting names. -/
theorem Shows.loadRegions {additions : List (Text × Table ν)}
    (hshows : Shows (IsShared builtin) (RegionInfo.loadBuiltinEndpoints builtin cache)
      (overlay (builtinRegions builtin) additions))
    (hapart : ∀ item ∈ setting.merged, ¬IsShared builtin item.1) :
    Shows (IsShared builtin) (RegionInfo.loadRegions builtin setting cache).2
      (overlay (builtinRegions builtin) (additions ++ setting.merged)) := by
  rw [RegionInfo.loadRegions, overlay_append]
  rw [Setting.merged] at hapart ⊢
  cases hadditional : setting.additional with
  | none => exact hshows
  | some contents =>
      cases contents with
      | other e => exact hshows
      | endpoints services =>
          rw [hadditional] at hapart
          exact hshows.mergeEndpoints hapart

/-- What a call returns is the dictionary itself. -/
theorem loadRegions_result (builtin : OrderedDict Text (Table ν)) (setting : Setting ν)
    (cache : Cache ν) : (loadRegions builtin setting cache).1 =
      match setting.error with
      | some e => .error e
      | none => .ok (loadRegions builtin setting cache).2.view := by
  rw [loadRegions, Setting.error]
  cases hadditional : setting.additional with
  | none => rfl
  | some contents =>
      cases contents with
      | other e => rfl
      | endpoints services =>
          dsimp only
          rw [mergeEndpoints_result]
          split
          · rfl
          · rfl

theorem perform_eq (builtin : OrderedDict Text (Table ν)) (cache : Cache ν) (call : Call ν) :
    call.perform builtin cache = (loadRegions builtin call.setting cache).2 := by
  cases call with
  | loadRegions setting => rfl
  | getRegions service setting =>
      rw [Call.perform, getRegions, Call.setting]
      split
      · rfl
      · split
        · rfl
        · rfl

/-- What the dictionary shows after some calls. -/
theorem shows_run (calls : List (Call ν))
    (hapart : ∀ call ∈ calls, ∀ item ∈ call.setting.merged, ¬IsShared builtin item.1) :
    Shows (IsShared builtin) (loadBuiltinEndpoints builtin (run builtin calls))
      (overlay (builtinRegions builtin) (mergedBy calls)) := by
  induction calls using List.reverseRecOn with
  | nil => exact shows_buildStaticEndpoints builtin
  | append_singleton calls call ih =>
      have hcalls := ih fun old hold => hapart old (List.mem_append_left _ hold)
      have hcall := hapart call (List.mem_append_right _ List.mem_cons_self)
      have hmerged : mergedBy (calls ++ [call]) = mergedBy calls ++ call.setting.merged := by
        rw [mergedBy, List.flatMap_append, List.flatMap_singleton, mergedBy]
      have hrun : run builtin (calls ++ [call]) =
          (loadRegions builtin call.setting (run builtin calls)).2 := by
        rw [run, List.foldl_append, ← perform_eq]
        rfl
      rw [hmerged, hrun]
      exact (hcalls.loadRegions hcall).loadBuiltinEndpoints

/-- A call gives what the dictionary shows. -/
theorem isRight_of_same (hsame : SameRegions (loadRegions builtin call.setting cache).2.view
    (inForce builtin call.setting)) : call.IsRight builtin cache := by
  cases call with
  | loadRegions setting =>
      rw [Call.IsRight, loadRegions_result]
      cases setting.error with
      | some e => rfl
      | none => exact ⟨_, rfl, hsame⟩
  | getRegions service setting =>
      rw [Call.IsRight, getRegions, loadRegions_result]
      rw [Call.setting] at hsame
      cases setting.error with
      | some e => rfl
      | none =>
          dsimp only
          have hservice := hsame.services service
          cases hget : (loadRegions builtin setting cache).2.view.get? service with
          | none =>
              rw [← hservice, OrderedDict.contains, hget, Option.isSome_none, if_neg Bool.false_ne_true]
              exact ⟨_, rfl⟩
          | some table =>
              rw [← hservice, OrderedDict.contains, hget, Option.isSome_some, if_pos rfl]
              refine ⟨_, rfl, ?_, ?_⟩
              · rw [List.map_map]
                exact table.nodup
              · intro name endpoint
                rw [← hsame.endpoints, endpointOf, hget, Option.bind_some,
                  OrderedDict.get?_eq_some_iff, List.mem_map]
                constructor
                · rintro ⟨item, hitem, heq⟩
                  cases heq
                  exact hitem
                · intro hitem
                  exact ⟨(name, endpoint), hitem, rfl⟩

end

/-! ## Two calls -/

/-- The built-in endpoints of the runs below. -/
def shownEndpoints : OrderedDict Text (Table Text) :=
  OrderedDict.empty.set "ec2".toList
    (OrderedDict.empty.set "us-east-1".toList "ec2.us-east-1.amazonaws.com".toList)

/-- A file that adds a region. -/
def shownFile : Contents Text :=
  .endpoints (OrderedDict.empty.set "ec2".toList
    (some (OrderedDict.empty.set "test-1".toList "ec2.test-1.amazonaws.com".toList)))

/-- A setting that names it, if it names any. -/
def shownSetting (path : Option Text) : Setting Text :=
  ⟨path, none, fun _ => shownFile⟩

theorem isUntouched_shown : ∀ earlier call later,
    [Call.loadRegions (shownSetting (some "endpoints.json".toList)),
      .getRegions "ec2".toList (shownSetting (some "endpoints.json".toList))] =
        earlier ++ call :: later → IsUntouched shownEndpoints earlier call := by
  intro earlier call later hcalls
  have hshared : ∀ service, ¬IsShared shownEndpoints service := fun service hshared =>
    absurd hshared.1 (by decide)
  have hfirst : IsUntouched shownEndpoints []
      (.loadRegions (shownSetting (some "endpoints.json".toList))) :=
    ⟨(fun _ hitem => nomatch hitem), (fun _ _ _ hlast => nomatch hlast),
      fun item _ => hshared item.1⟩
  have hsecond : IsUntouched shownEndpoints
      [.loadRegions (shownSetting (some "endpoints.json".toList))]
      (.getRegions "ec2".toList (shownSetting (some "endpoints.json".toList))) := by
    refine ⟨fun item hitem => .inr ⟨item, hitem, rfl⟩, ?_, fun item _ => hshared item.1⟩
    intro service region endpoint hlast
    refine .inr ?_
    have hagain : lastSet service region (shownSetting (some "endpoints.json".toList)).merged =
        some endpoint := hlast
    rw [Call.setting, hagain]
    exact Option.some_ne_none endpoint
  cases earlier with
  | nil =>
      cases hcalls
      exact hfirst
  | cons first earlier =>
      cases earlier with
      | nil =>
          cases hcalls
          exact hsecond
      | cons second earlier =>
          have hlength := congrArg List.length hcalls
          rw [List.cons_append, List.cons_append, List.length_cons, List.length_cons,
            List.length_cons, List.length_cons, List.length_append, List.length_cons] at hlength
          exact absurd hlength (by rw [List.length_nil]; omega)

end Boto.RegionInfo
