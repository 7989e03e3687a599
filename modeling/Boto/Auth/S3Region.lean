import Boto.Auth.S3SigV4

/-!
# Regions in the hosts of buckets

The region of an S3 host is looked for from its right end on, where the endpoint is.  So the
bucket in front of the endpoint does not matter, whatever its labels look like.
-/

namespace Boto.Auth.S3HmacAuthV4Handler

/-- The name of a region: one label in lower case, which does not look like the first label of
an endpoint, nor like the domain. -/
structure RegionName where
  name : Text
  no_dot : '.' ∉ name
  lower_eq : lower name = name
  ne_service : name ≠ "s3".toList
  not_dashed : "s3-".toList.isPrefixOf name = false
  ne_domain : name ≠ "amazonaws".toList

/-- The endpoints of S3. -/
inductive Endpoint
  | classic
  | dashed (region : RegionName)
  | dotted (region : RegionName)
  | china (region : RegionName)

namespace Endpoint

/-- The labels of an endpoint. -/
def labels : Endpoint → List Text
  | classic => ["s3".toList, "amazonaws".toList, "com".toList]
  | dashed region => ["s3-".toList ++ region.name, "amazonaws".toList, "com".toList]
  | dotted region => ["s3".toList, region.name, "amazonaws".toList, "com".toList]
  | china region => ["s3".toList, region.name, "amazonaws".toList, "com".toList, "cn".toList]

/-- The host name of an endpoint. -/
def host : Endpoint → Text
  | classic => "s3.amazonaws.com".toList
  | dashed region => "s3-".toList ++ region.name ++ ".amazonaws.com".toList
  | dotted region => "s3.".toList ++ region.name ++ ".amazonaws.com".toList
  | china region => "s3.".toList ++ region.name ++ ".amazonaws.com.cn".toList

/-- The region that an endpoint is for. -/
def region : Endpoint → Text
  | classic => "us-east-1".toList
  | dashed region => region.name
  | dotted region => region.name
  | china region => region.name

end Endpoint

/-! ## Labels -/

theorem splitOn_dot_append {label : Text} (hlabel : '.' ∉ label) (rest : Text) :
    (label ++ '.' :: rest).splitOn '.' = label :: rest.splitOn '.' := by
  rw [List.splitOn_append_cons_self, List.splitOn_eq_singleton hlabel, List.singleton_append]

/-- Splitting the host of an endpoint gives its labels. -/
theorem splitHostParts_host (endpoint : Endpoint) :
    HmacAuthV4Handler.splitHostParts endpoint.host = endpoint.labels := by
  rw [HmacAuthV4Handler.splitHostParts]
  cases endpoint with
  | classic => decide
  | dashed region =>
      have hlabel : '.' ∉ "s3-".toList ++ region.name := by
        rw [List.mem_append, not_or]
        exact ⟨by decide, region.no_dot⟩
      have hrest : "amazonaws.com".toList.splitOn '.' = ["amazonaws".toList, "com".toList] := by
        decide
      have hhost : (Endpoint.dashed region).host =
          ("s3-".toList ++ region.name) ++ '.' :: "amazonaws.com".toList := rfl
      rw [hhost, splitOn_dot_append hlabel, hrest]
      rfl
  | dotted region =>
      have hrest : "amazonaws.com".toList.splitOn '.' = ["amazonaws".toList, "com".toList] := by
        decide
      have hhost : (Endpoint.dotted region).host =
          "s3".toList ++ '.' :: (region.name ++ '.' :: "amazonaws.com".toList) := rfl
      have hservice : '.' ∉ "s3".toList := by decide
      rw [hhost, splitOn_dot_append hservice, splitOn_dot_append region.no_dot, hrest]
      rfl
  | china region =>
      have hrest : "amazonaws.com.cn".toList.splitOn '.' =
          ["amazonaws".toList, "com".toList, "cn".toList] := by
        decide
      have hhost : (Endpoint.china region).host =
          "s3".toList ++ '.' :: (region.name ++ '.' :: "amazonaws.com.cn".toList) := rfl
      have hservice : '.' ∉ "s3".toList := by decide
      rw [hhost, splitOn_dot_append hservice, splitOn_dot_append region.no_dot, hrest]
      rfl

/-- A bucket adds its labels in front of those of the endpoint. -/
theorem splitHostParts_bucket (bucket : Text) (endpoint : Endpoint) :
    HmacAuthV4Handler.splitHostParts (bucket ++ '.' :: endpoint.host) =
      bucket.splitOn '.' ++ endpoint.labels := by
  rw [← splitHostParts_host, HmacAuthV4Handler.splitHostParts,
    HmacAuthV4Handler.splitHostParts, List.splitOn_append_cons_self]

/-! ## The search for the region -/

section

variable {parts rest : List Text} {part : Text}

/-- The first label that is the name of the service ends the search. -/
theorem findRegion_service (offset : ℕ) (hlower : lower part = "s3".toList) :
    findRegion parts (offset + 1) (part :: rest) =
      some (if (parts[parts.length - (offset + 1)]?).getD [] = "amazonaws".toList then
        "us-east-1".toList else (parts[parts.length - (offset + 1)]?).getD []) := by
  rw [findRegion, hlower]
  dsimp only
  rw [if_pos rfl, if_neg (Nat.succ_ne_zero offset)]

/-- A label that starts with the name of the service ends the search, too. -/
theorem findRegion_dashed (offset : ℕ) {name : Text}
    (hlower : lower part = "s3-".toList ++ name) :
    findRegion parts offset (part :: rest) = some name := by
  have hne : "s3-".toList ++ name ≠ "s3".toList := by
    intro heq
    have hlength := congrArg List.length heq
    rw [List.length_append] at hlength
    have hthree : "s3-".toList.length = 3 := rfl
    have htwo : "s3".toList.length = 2 := rfl
    omega
  have hstarts : "s3-".toList.isPrefixOf ("s3-".toList ++ name) = true :=
    List.isPrefixOf_iff_prefix.mpr (List.prefix_append _ _)
  have hclean : cleanRegionName ("s3-".toList ++ name) = name := by
    rw [cleanRegionName, if_pos hstarts]
    rfl
  rw [findRegion, hlower]
  dsimp only
  rw [if_neg hne, if_pos hstarts, hclean]

/-- Other labels are passed over. -/
theorem findRegion_other (offset : ℕ) (hne : lower part ≠ "s3".toList)
    (hdashed : "s3-".toList.isPrefixOf (lower part) = false) :
    findRegion parts offset (part :: rest) = findRegion parts (offset + 1) rest := by
  rw [findRegion]
  simp only [if_neg hne, hdashed, Bool.false_eq_true, if_false]

end

/-- The label that is found at an offset from the right end, behind other labels. -/
theorem getElem?_append_back {before labels : List Text} {offset : ℕ}
    (hoffset : offset ≤ labels.length) :
    (before ++ labels)[(before ++ labels).length - offset]? = labels[labels.length - offset]? := by
  rw [List.length_append, Nat.add_sub_assoc hoffset,
    List.getElem?_append_right (Nat.le_add_right _ _), Nat.add_sub_cancel_left]

/-- The search ends within the endpoint, whatever is in front of it. -/
theorem findRegion_endpoint (before : List Text) (endpoint : Endpoint) :
    findRegion (before ++ endpoint.labels) 0 (before ++ endpoint.labels).reverse =
      some endpoint.region := by
  rw [List.reverse_append]
  cases endpoint with
  | classic =>
      change findRegion _ 0 ("com".toList :: "amazonaws".toList :: "s3".toList :: _) = _
      rw [findRegion_other 0 (by decide) (by decide), findRegion_other 1 (by decide) (by decide),
        findRegion_service 1 (by decide), getElem?_append_back (by decide)]
      rfl
  | dashed region =>
      change findRegion _ 0 ("com".toList :: "amazonaws".toList ::
        ("s3-".toList ++ region.name) :: _) = _
      have hlower : lower ("s3-".toList ++ region.name) = "s3-".toList ++ region.name := by
        have hfirst : lower "s3-".toList = "s3-".toList := by decide
        rw [lower, List.map_append, ← lower, ← lower, hfirst, region.lower_eq]
      rw [findRegion_other 0 (by decide) (by decide), findRegion_other 1 (by decide) (by decide),
        findRegion_dashed 2 hlower]
      rfl
  | dotted region =>
      change findRegion _ 0 ("com".toList :: "amazonaws".toList :: region.name ::
        "s3".toList :: _) = _
      rw [findRegion_other 0 (by decide) (by decide), findRegion_other 1 (by decide) (by decide),
        findRegion_other 2 (by rw [region.lower_eq]; exact region.ne_service)
          (by rw [region.lower_eq]; exact region.not_dashed),
        findRegion_service 2 (by decide),
        getElem?_append_back (Nat.le_of_ble_eq_true rfl)]
      change some (if region.name = "amazonaws".toList then _ else region.name) = _
      rw [if_neg region.ne_domain]
      rfl
  | china region =>
      change findRegion _ 0 ("cn".toList :: "com".toList :: "amazonaws".toList ::
        region.name :: "s3".toList :: _) = _
      rw [findRegion_other 0 (by decide) (by decide), findRegion_other 1 (by decide) (by decide),
        findRegion_other 2 (by decide) (by decide),
        findRegion_other 3 (by rw [region.lower_eq]; exact region.ne_service)
          (by rw [region.lower_eq]; exact region.not_dashed),
        findRegion_service 3 (by decide),
        getElem?_append_back (Nat.le_of_ble_eq_true rfl)]
      change some (if region.name = "amazonaws".toList then _ else region.name) = _
      rw [if_neg region.ne_domain]
      rfl

/-! ## Hosts -/

section

variable (host : Text) (provider : Provider) (serviceName : Option Text) (endpoint : Endpoint)

/-- Labels that are not three are searched for the endpoint behind them. -/
theorem determineRegionName_of_search {host name : Text} (before : List Text)
    (hparts : HmacAuthV4Handler.splitHostParts name = before ++ endpoint.labels)
    (hlength : (before ++ endpoint.labels).length ≠ 3) :
    determineRegionName (init host provider serviceName none) name = .ok endpoint.region := by
  rw [determineRegionName]
  simp only [init, Option.map_none, hparts]
  rw [if_neg hlength, findRegion_endpoint]

/-- Without a bucket, three labels are taken apart without a search. -/
theorem determineRegionName_endpoint :
    determineRegionName (init host provider serviceName none) endpoint.host =
      .ok endpoint.region := by
  have hparts : HmacAuthV4Handler.splitHostParts endpoint.host = [] ++ endpoint.labels :=
    splitHostParts_host endpoint
  cases endpoint with
  | classic =>
      have hclean : cleanRegionName "s3".toList = "s3".toList := by decide
      rw [determineRegionName]
      simp only [init, Option.map_none, splitHostParts_host]
      change Except.ok (if cleanRegionName "s3".toList = "s3".toList then "us-east-1".toList
        else cleanRegionName "s3".toList) = _
      rw [if_pos hclean]
      rfl
  | dashed region =>
      have hstarts : "s3-".toList.isPrefixOf ("s3-".toList ++ region.name) = true :=
        List.isPrefixOf_iff_prefix.mpr (List.prefix_append _ _)
      have hclean : cleanRegionName ("s3-".toList ++ region.name) = region.name := by
        rw [cleanRegionName, if_pos hstarts]
        rfl
      rw [determineRegionName]
      simp only [init, Option.map_none, splitHostParts_host]
      change Except.ok (if cleanRegionName ("s3-".toList ++ region.name) = "s3".toList then
        "us-east-1".toList else cleanRegionName ("s3-".toList ++ region.name)) = _
      rw [hclean, if_neg region.ne_service]
      rfl
  | dotted region =>
      apply determineRegionName_of_search provider serviceName (.dotted region) [] hparts
      simp [Endpoint.labels]
  | china region =>
      apply determineRegionName_of_search provider serviceName (.china region) [] hparts
      simp [Endpoint.labels]

/-- The region of a host is that of its endpoint, with and without a bucket in front of it. -/
theorem determineRegionName_bucket (bucket : Text) :
    determineRegionName (init host provider serviceName none) (bucket ++ '.' :: endpoint.host) =
        determineRegionName (init host provider serviceName none) endpoint.host ∧
      determineRegionName (init host provider serviceName none) endpoint.host =
        .ok endpoint.region := by
  have hendpoint := determineRegionName_endpoint host provider serviceName endpoint
  refine ⟨?_, hendpoint⟩
  have hbucket : 0 < (bucket.splitOn '.').length :=
    List.length_pos_iff.mpr (List.splitOn_ne_nil '.' bucket)
  have hlabels : 3 ≤ endpoint.labels.length := by
    cases endpoint <;> simp [Endpoint.labels]
  have hlength : (bucket.splitOn '.' ++ endpoint.labels).length ≠ 3 := by
    rw [List.length_append]
    omega
  rw [hendpoint]
  exact determineRegionName_of_search provider serviceName endpoint _
    (splitHostParts_bucket bucket endpoint) hlength

end

end Boto.Auth.S3HmacAuthV4Handler
