import Boto.CloudFront.SignedUrl
import Boto.WrittenNumbers

/-!
# What signed URLs grant

A policy that is written as JSON says what it was made from, whatever the texts are.  A URL that
is pasted into a canned policy has to be plain, and values that are taken for missing ones make
another policy.
-/

namespace Boto.CloudFront

open Auth (strInt)

/-! ## Encodings for URLs -/

theorem value?_mem_encode {bytes : List UInt8} {c : Char} (hc : c ∈ Base64.encode bytes) :
    (Base64.value? c).isSome = true ∨ c = '=' := by
  have hletter : ∀ {n : ℕ}, n < 64 → (Base64.value? (Base64.letter n)).isSome = true := fun hn => by
    rw [Base64.value?_letter hn]
    rfl
  fun_induction Base64.encode bytes with
  | case1 a b d rest n ih =>
      have ha := a.toNat_lt
      have hb := b.toNat_lt
      have hd := d.toNat_lt
      have hn : n = 65536 * a.toNat + 256 * b.toNat + d.toNat := rfl
      simp only [List.mem_cons] at hc
      rcases hc with rfl | rfl | rfl | rfl | hc
      · exact .inl (hletter (by omega))
      · exact .inl (hletter (by omega))
      · exact .inl (hletter (by omega))
      · exact .inl (hletter (by omega))
      · exact ih hc
  | case2 a b n =>
      have ha := a.toNat_lt
      have hb := b.toNat_lt
      have hn : n = 65536 * a.toNat + 256 * b.toNat := rfl
      simp only [List.mem_cons, List.not_mem_nil, or_false] at hc
      rcases hc with rfl | rfl | rfl | rfl
      · exact .inl (hletter (by omega))
      · exact .inl (hletter (by omega))
      · exact .inl (hletter (by omega))
      · exact .inr rfl
  | case3 a n =>
      have ha := a.toNat_lt
      have hn : n = 65536 * a.toNat := rfl
      simp only [List.mem_cons, List.not_mem_nil, or_false] at hc
      rcases hc with rfl | rfl | rfl | rfl
      · exact .inl (hletter (by omega))
      · exact .inl (hletter (by omega))
      · exact .inr rfl
      · exact .inr rfl
  | case4 => cases hc

/-- The text of an encoding. -/
def encoded (bytes : Bytes) : Text :=
  replace '/' '~' (replace '=' '_' (replace '+' '-' (Base64.encode bytes)))

theorem urlBase64Decode_encoded (bytes : Bytes) : urlBase64Decode (encoded bytes) = some bytes := by
  have hback : replace '-' '+' (replace '_' '=' (replace '~' '/' (encoded bytes))) =
      Base64.encode bytes := by
    rw [encoded]
    simp only [replace, List.map_map]
    refine (List.map_congr_left fun c hc => ?_).trans (List.map_id _)
    have hne : c ≠ '-' ∧ c ≠ '_' ∧ c ≠ '~' := by
      rcases value?_mem_encode hc with hsome | rfl
      · refine ⟨?_, ?_, ?_⟩ <;> rintro rfl <;> cases hsome
      · decide
    simp only [Function.comp_apply, id_eq]
    split_ifs <;> simp_all
  rw [urlBase64Decode, hback, Base64.decode_encode]

theorem notMem_replace {mark old new : Char} {text : Text} (hnew : mark ≠ new)
    (htext : mark ∉ text) : mark ∉ replace old new text := by
  intro hin
  obtain ⟨c, hc, heq⟩ := List.mem_map.mp hin
  split at heq
  · exact hnew heq.symm
  · exact htext (heq ▸ hc)

/-- An encoding has none of the marks of a URL. -/
theorem mark_notMem_encoded {mark : Char} (hmark : mark ∈ ['&', '#']) (bytes : Bytes) :
    mark ∉ encoded bytes := by
  simp only [List.mem_cons, List.not_mem_nil, or_false] at hmark
  have hne : mark ≠ '-' ∧ mark ≠ '_' ∧ mark ≠ '~' := by
    rcases hmark with rfl | rfl <;> decide
  have hencode : mark ∉ Base64.encode bytes := by
    intro hin
    rcases value?_mem_encode hin with hsome | heq
    · rcases hmark with rfl | rfl <;> cases hsome
    · rcases hmark with rfl | rfl <;> cases heq
  exact notMem_replace hne.2.2 (notMem_replace hne.2.1 (notMem_replace hne.1 hencode))

/-! ## Queries -/

theorem takeWhile_fragment {text : Text} (htext : '#' ∉ text) : text.takeWhile (· ≠ '#') = text := by
  rw [List.takeWhile_eq_self_iff]
  intro c hc
  exact decide_eq_true fun heq => htext (heq ▸ hc)

/-- Parameters are appended to the query of a URL without a fragment. -/
theorem urlFields_append {url params : Text} (hurl : '#' ∉ url) (hparams : '#' ∉ params) :
    urlFields (url ++ (if '?' ∈ url then '&' else '?') :: params) =
      urlFields url ++ params.splitOn '&' := by
  have hsep : (if '?' ∈ url then '&' else '?') ≠ '#' := by
    split <;> decide
  have hall : '#' ∉ url ++ (if '?' ∈ url then '&' else '?') :: params := by
    simp [hurl, hparams, hsep.symm]
  rw [urlFields, urlFields, takeWhile_fragment hall, takeWhile_fragment hurl]
  by_cases hquery : '?' ∈ url
  · obtain ⟨front, query, rfl, hfront⟩ := List.eq_append_cons_of_mem hquery
    rw [if_pos hquery, List.append_assoc, List.cons_append, Urls.cut_append_cons hfront,
      Urls.cut_append_cons hfront]
    exact List.splitOn_append_cons_self ..
  · rw [if_neg hquery, Urls.cut_append_cons hquery, Urls.cut_of_notMem hquery]
    rfl

/-- Parameters after a fragment are no part of the query. -/
theorem urlFields_fragment {url : Text} (hurl : '#' ∈ url) (params : Text) :
    urlFields (url ++ params) = urlFields url := by
  obtain ⟨front, fragment, rfl, hfront⟩ := List.eq_append_cons_of_mem hurl
  rw [urlFields, urlFields, List.append_assoc, List.cons_append,
    Urls.takeWhile_append_cons hfront, Urls.takeWhile_append_cons hfront]

/-! ## Policies -/

theorem hasNumbers_policyJson (resource : Text) (dateLessThan : ℤ) (dateGreaterThan : Option ℤ)
    (ipAddress : Option Text) :
    (policyJson resource dateLessThan dateGreaterThan ipAddress).hasNumbers = true := by
  have hnumber : ∀ value, Json.isNumber (strInt value) = true ∧
      (strInt value).all Json.isNumberChar = true := fun value =>
    ⟨isNumber_strInt value, List.all_eq_true.mpr fun _ hc => isNumberChar_strInt hc⟩
  cases dateGreaterThan <;> cases ipAddress <;>
    simp [policyJson, epochTime, sourceIp, Json.hasNumbers, Json.haveNumbers,
      Json.membersHaveNumbers, hnumber]

/-- A policy that is written as JSON is read back. -/
theorem parse_dumps (resource : Text) (dateLessThan : ℤ) (dateGreaterThan : Option ℤ)
    (ipAddress : Option Text) :
    Json.parse (Json.dumps compact
        (policyJson resource dateLessThan dateGreaterThan ipAddress)) =
      some (policyJson resource dateLessThan dateGreaterThan ipAddress) :=
  Json.parse_of_reads
    (Json.reads_dumps ⟨Json.isBlank_nil, Json.isBlank_nil⟩ (hasNumbers_policyJson _ _ _ _))

theorem policyJson_inj {resource resource' : Text} {dateLessThan dateLessThan' : ℤ}
    {dateGreaterThan dateGreaterThan' : Option ℤ} {ipAddress ipAddress' : Option Text}
    (heq : policyJson resource dateLessThan dateGreaterThan ipAddress =
      policyJson resource' dateLessThan' dateGreaterThan' ipAddress') :
    resource = resource' ∧ dateLessThan = dateLessThan' ∧
      dateGreaterThan = dateGreaterThan' ∧ ipAddress = ipAddress' := by
  have hnames : "DateGreaterThan".toList ≠ "IpAddress".toList := by decide
  have hinj := @strInt_injective
  cases dateGreaterThan <;> cases dateGreaterThan' <;> cases ipAddress <;> cases ipAddress' <;>
    simp_all [policyJson, epochTime, sourceIp, hinj.eq_iff]

theorem reads_epochTime (value : ℤ) :
    Json.Reads (epochTime value)
      ('\x7b' :: ("\"AWS:EpochTime\":".toList ++ strInt value ++ ['\x7d'])) :=
  Json.reads_object (Json.readsMembers_last Json.isBlank_nil (Json.isContent_of_isPlain (by decide))
    Json.isBlank_nil (reads_strInt value))

/-- A canned policy is the JSON of its policy if the resource is plain. -/
theorem parse_cannedPolicy {resource : Text} (hplain : Json.isPlain resource = true)
    (expires : ℤ) :
    Json.parse (cannedPolicy resource expires) = some (policyJson resource expires none none) := by
  have hkey : ∀ {key : Text}, Json.isPlain key = true → Json.IsContent key key :=
    fun hplain => Json.isContent_of_isPlain hplain
  have hcondition := Json.reads_object (Json.readsMembers_last Json.isBlank_nil
    (@hkey "DateLessThan".toList (by decide)) Json.isBlank_nil (reads_epochTime expires))
  have hstatement := Json.reads_object (Json.readsMembers_more Json.isBlank_nil
    (@hkey "Resource".toList (by decide)) Json.isBlank_nil (Json.reads_string (hkey hplain))
      (Json.readsMembers_last Json.isBlank_nil (@hkey "Condition".toList (by decide))
        Json.isBlank_nil hcondition))
  have hpolicy := Json.reads_object (Json.readsMembers_last Json.isBlank_nil
    (@hkey "Statement".toList (by decide)) Json.isBlank_nil
      (Json.reads_array (Json.readsItems_last Json.isBlank_nil hstatement)))
  have hread : Json.parse _ = some (policyJson resource expires none none) :=
    Json.parse_of_reads hpolicy
  unfold cannedPolicy
  convert hread using 2
  simp

/-- A canned policy that says what it was made from has a plain resource. -/
theorem plain_of_cannedPolicy {resource : Text} {expires dateLessThan : ℤ}
    {dateGreaterThan : Option ℤ} {ipAddress : Option Text}
    (hparse : Json.parse (cannedPolicy resource expires) =
      some (policyJson resource dateLessThan dateGreaterThan ipAddress)) :
    Json.isPlain resource = true := by
  have hnumber : Json.weight (strInt expires) = 0 := by
    rw [Json.weight, List.countP_eq_zero]
    intro c hc
    rcases strInt_chars hc with hdigit | rfl
    · rw [Json.isMark]
      simp
      constructor <;> rintro rfl <;> cases hdigit
    · decide
  have htext : Json.weight (cannedPolicy resource expires) = 1 + Json.weight resource := by
    have hstart : Json.weight "\x7b\"Statement\":[\x7b\"Resource\":\"".toList = 1 := by decide +kernel
    have hmiddle :
        Json.weight "\",\"Condition\":\x7b\"DateLessThan\":\x7b\"AWS:EpochTime\":".toList = 0 := by
      decide +kernel
    have hend : Json.weight "\x7d\x7d\x7d]\x7d".toList = 0 := by decide
    unfold cannedPolicy
    simp only [Json.weight_append, hstart, hmiddle, hend, hnumber]
    omega
  have hweight : Json.weight (cannedPolicy resource expires) ≤
      Json.weights (policyJson resource dateLessThan dateGreaterThan ipAddress).strings := by
    have hword : Json.weight "Resource".toList = 1 := by decide
    rw [htext]
    simp only [policyJson, Json.strings, Json.stringsOf, Json.stringsOfMembers, Json.weights_append, Json.weights_cons, hword]
    omega
  apply Json.plain_of_parse hparse hweight
  simp [policyJson, Json.strings, Json.stringsOf, Json.stringsOfMembers]

section

variable {version : PyVersion} {rsa : Text → Bytes → Bytes} {now : ℤ} {call : SigningCall}

theorem isCanned_iff : call.isCanned = true ↔
    (∃ value, call.expireTime = some value ∧ value ≠ 0) ∧
      (call.validAfterTime = none ∨ call.validAfterTime = some 0) ∧
      (call.ipAddress = none ∨ call.ipAddress = some []) ∧
      (call.policyUrl = none ∨ call.policyUrl = some []) := by
  rw [SigningCall.isCanned]
  cases call.expireTime <;> cases call.validAfterTime <;> cases call.ipAddress <;>
    cases call.policyUrl <;>
      simp [numberGiven, textGiven, and_assoc]

/-- What a canned policy says. -/
theorem parse_policy_canned (hcanned : call.isCanned = true) :
    Json.parse (call.policy now) = some (call.asked now) ↔
      call.validAfterTime ≠ some 0 ∧ Json.isPlain call.url = true := by
  have hpolicy : call.policy now = cannedPolicy call.url (call.expireTime.getD 0) := by
    rw [SigningCall.policy, if_pos hcanned]
  obtain ⟨⟨value, hexpires, -⟩, hafter, haddress, hurl⟩ := isCanned_iff.mp hcanned
  have hasked : call.asked now =
      policyJson call.url (call.expireTime.getD 0) call.validAfterTime none := by
    rw [SigningCall.asked, hexpires]
    rcases haddress with haddress | haddress <;> rcases hurl with hurl | hurl <;>
      rw [haddress, hurl] <;> rfl
  rw [hpolicy, hasked]
  constructor
  · intro hparse
    have hplain := plain_of_cannedPolicy hparse
    refine ⟨fun hzero => ?_, hplain⟩
    rw [parse_cannedPolicy hplain] at hparse
    have hsame := (policyJson_inj (Option.some.inj hparse)).2.2.1
    rw [hzero] at hsame
    cases hsame
  · rintro ⟨hzero, hplain⟩
    rw [parse_cannedPolicy hplain, hafter.resolve_right hzero]

/-- What a custom policy says. -/
theorem parse_policy_custom (hcustom : call.isCanned = false) :
    Json.parse (call.policy now) = some (call.asked now) ↔
      (call.expireTime = some 0 → now + 86400 = 0) ∧ call.validAfterTime ≠ some 0 ∧
        (call.policyUrl = some [] → call.url = []) := by
  rw [SigningCall.policy, if_neg (Bool.not_eq_true _ ▸ hcustom), customPolicy, parse_dumps,
    Option.some.injEq, SigningCall.asked]
  constructor
  · intro heq
    obtain ⟨hresource, hexpires, hafter, -⟩ := policyJson_inj heq
    refine ⟨fun hzero => ?_, fun hzero => ?_, fun hnil => ?_⟩
    · rw [hzero] at hexpires
      exact hexpires
    · rw [hzero] at hafter
      cases hafter
    · rw [hnil] at hresource
      exact hresource.symm
  · rintro ⟨hexpires, hafter, hresource⟩
    have hsame : call.policyUrl.getD call.url =
        (call.policyUrl.filter fun url => !url.isEmpty).getD call.url := by
      cases hurl : call.policyUrl with
      | none => rfl
      | some url =>
          cases url with
          | nil => exact (hresource hurl).symm
          | cons c url => rfl
    have htime : (if numberGiven call.expireTime then call.expireTime.getD 0 else now + 86400) =
        call.expireTime.getD (now + 86400) := by
      cases hvalue : call.expireTime with
      | none => rfl
      | some value =>
          by_cases hzero : value = 0
          · rw [hzero] at hvalue ⊢
            exact hexpires hvalue
          · simp [numberGiven, hzero]
    have hfilter : (call.validAfterTime.filter fun value => value ≠ 0) = call.validAfterTime := by
      cases hvalue : call.validAfterTime with
      | none => rfl
      | some value =>
          have hzero : value ≠ 0 := fun heq => hafter (heq ▸ hvalue)
          simp [hzero]
    rw [hsame, htime, hfilter]

/-! ## Signing -/

/-- A message of a call is signed if it is ASCII. -/
theorem signString_eq_ok_iff {message : Text} :
    (∃ signature, signString version rsa message call.privateKeyFile call.privateKeyString =
      .ok signature) ↔ version = .py2 ∧ Json.IsAscii message := by
  obtain ⟨key, hsign⟩ : ∃ key,
      signString version rsa message call.privateKeyFile call.privateKeyString =
        (messageBytes version message).map (rsa key) := by
    rcases call.oneKey with ⟨hfile, hnone⟩ | ⟨hnone, key, hkey, hstring⟩
    · obtain ⟨key, hkey⟩ := Option.isSome_iff_exists.mp hfile
      refine ⟨key, ?_⟩
      rw [signString, hkey, hnone]
      cases messageBytes version message <;> rfl
    · refine ⟨key, ?_⟩
      have hgiven : textGiven (some key) = true := by
        simp [textGiven, hkey]
      rw [signString, hnone, hstring, hgiven]
      cases messageBytes version message <;> rfl
  rw [hsign]
  cases version with
  | py3 => simp [messageBytes, Except.map]
  | py2 =>
      rw [messageBytes]
      by_cases hascii : (message.all fun c => decide (c.val ≤ 127)) = true
      · rw [if_pos hascii]
        exact ⟨fun _ => ⟨rfl, .of_all hascii⟩, fun _ => ⟨_, rfl⟩⟩
      · rw [if_neg hascii]
        constructor
        · rintro ⟨signature, hsignature⟩
          cases hsignature
        · rintro ⟨-, hall⟩
          refine absurd (List.all_eq_true.mpr fun c hc => decide_eq_true (hall c hc)) hascii

/-- The field that tells the policy. -/
def policyField (now : ℤ) (call : SigningCall) : Text :=
  if call.isCanned then "Expires=".toList ++ strInt (call.expireTime.getD 0)
  else "Policy=".toList ++ encoded (encodeUtf8 (call.policy now))

theorem tellsPolicy_policyField : TellsPolicy now call (policyField now call) := by
  rw [TellsPolicy, policyField]
  split
  · rfl
  · exact ⟨_, rfl, urlBase64Decode_encoded _⟩

/-- The parameters in their order. -/
theorem signedUrlParams_set {name : Text} (hname : name = "Expires".toList ∨ name = "Policy".toList)
    (value signature keypairId : Text) :
    (["Expires".toList, "Policy".toList, "Signature".toList, "Key-Pair-Id".toList].filterMap
      fun key => ((((OrderedDict.empty.set name value).set "Signature".toList signature).set
        "Key-Pair-Id".toList keypairId).get? key).map fun value => key ++ '=' :: value) =
      [name ++ '=' :: value, "Signature=".toList ++ signature,
        "Key-Pair-Id=".toList ++ keypairId] := by
  rcases hname with rfl | rfl
  · rfl
  · rfl

/-- The URL that is signed under Python 2. -/
theorem createSignedUrl_py2 {signature : Bytes}
    (hsign : signString .py2 rsa (call.policy now) call.privateKeyFile call.privateKeyString =
      .ok signature) :
    call.createSignedUrl .py2 rsa now = .ok (call.url ++ (if '?' ∈ call.url then '&' else '?') ::
      join '&' [policyField now call, "Signature=".toList ++ encoded signature,
        "Key-Pair-Id=".toList ++ call.keypairId]) := by
  have hencode : ∀ bytes, urlBase64Encode .py2 bytes = .ok (encoded bytes) := fun _ => rfl
  rw [SigningCall.createSignedUrl, SigningCall.createSigningParams, policyField, hsign]
  simp only [hencode]
  cases call.isCanned with
  | true =>
      rw [if_pos rfl, if_pos rfl]
      have hparams := signedUrlParams_set (.inl rfl) (strInt (call.expireTime.getD 0))
        (encoded signature) call.keypairId
      exact congrArg (fun params => Except.ok (call.url ++ (if '?' ∈ call.url then '&' else '?') ::
        join '&' params)) hparams
  | false =>
      simp only [Bool.false_eq_true, if_false]
      have hparams := signedUrlParams_set (.inr rfl) (encoded (encodeUtf8 (call.policy now)))
        (encoded signature) call.keypairId
      exact congrArg (fun params => Except.ok (call.url ++ (if '?' ∈ call.url then '&' else '?') ::
        join '&' params)) hparams

theorem isAscii_cannedPolicy {resource : Text} {expires : ℤ} :
    Json.IsAscii (cannedPolicy resource expires) ↔ Json.IsAscii resource := by
  unfold cannedPolicy
  constructor
  · intro hall c hc
    exact hall c (by simp [hc])
  · intro hresource
    have hnumber : Json.IsAscii (strInt expires) := fun c hc =>
      Json.ascii_of_isNumberChar (isNumberChar_strInt hc)
    exact ((((Json.IsAscii.of_all rfl).append hresource).append (.of_all rfl)).append
      hnumber).append (.of_all rfl)

theorem isAscii_customPolicy (resource : Text) (expires validAfter : Option ℤ)
    (ipAddress : Option Text) :
    Json.IsAscii (customPolicy now resource expires validAfter ipAddress) :=
  Json.isAscii_dumps ⟨.nil, .nil⟩ (hasNumbers_policyJson _ _ _ _)

theorem isAscii_policy :
    Json.IsAscii (call.policy now) ↔ (call.isCanned = true → Json.IsAscii call.url) := by
  rw [SigningCall.policy]
  cases hcanned : call.isCanned with
  | true =>
      rw [if_pos rfl, isAscii_cannedPolicy]
      exact ⟨fun hall _ => hall, fun hall => hall rfl⟩
  | false =>
      rw [if_neg (by decide)]
      exact ⟨fun _ htrue => absurd htrue (by decide), fun _ => isAscii_customPolicy _ _ _ _⟩

/-! ## The query -/

/-- The characters of the parameters that are not part of an encoding are plain. -/
theorem mark_notMem_params {mark : Char} (hmark : mark ∈ ['&', '#']) (signature : Bytes) :
    ∀ param ∈ [policyField now call, "Signature=".toList ++ encoded signature,
      "Key-Pair-Id=".toList ++ call.keypairId], mark ∉ param := by
  have hencoded := mark_notMem_encoded hmark
  simp only [List.mem_cons, List.not_mem_nil, or_false] at hmark
  intro param hparam
  simp only [List.mem_cons, List.not_mem_nil, or_false] at hparam
  rcases hparam with rfl | rfl | rfl
  · rw [policyField]
    split
    · intro hin
      rcases List.mem_append.mp hin with hin | hin
      · rcases hmark with rfl | rfl <;> revert hin <;> decide
      · rcases strInt_chars hin with hdigit | hdash
        · rcases hmark with rfl | rfl <;> cases hdigit
        · rcases hmark with rfl | rfl <;> cases hdash
    · intro hin
      rcases List.mem_append.mp hin with hin | hin
      · rcases hmark with rfl | rfl <;> revert hin <;> decide
      · exact hencoded _ hin
  · intro hin
    rcases List.mem_append.mp hin with hin | hin
    · rcases hmark with rfl | rfl <;> revert hin <;> decide
    · exact hencoded _ hin
  · intro hin
    rcases List.mem_append.mp hin with hin | hin
    · rcases hmark with rfl | rfl <;> revert hin <;> decide
    · have hplain := call.keypairPlain _ hin
      rcases hmark with rfl | rfl <;> cases hplain

/-- The query of the URL is kept if it has no fragment. -/
theorem urlFields_signed (hurl : '#' ∉ call.url) (signature : Bytes) :
    urlFields (call.url ++ (if '?' ∈ call.url then '&' else '?') ::
        join '&' [policyField now call, "Signature=".toList ++ encoded signature,
          "Key-Pair-Id=".toList ++ call.keypairId]) =
      urlFields call.url ++ [policyField now call, "Signature=".toList ++ encoded signature,
        "Key-Pair-Id=".toList ++ call.keypairId] := by
  have hfragment : '#' ∉ join '&' [policyField now call, "Signature=".toList ++ encoded signature,
      "Key-Pair-Id=".toList ++ call.keypairId] := by
    intro hin
    obtain ⟨param, hparam, hin⟩ := mem_of_mem_join hin (by decide)
    exact mark_notMem_params (by decide) signature param hparam hin
  rw [urlFields_append hurl hfragment, join,
    List.splitOn_intercalate '&' (mark_notMem_params (by decide) signature) (List.cons_ne_nil _ _)]

/-! ## The theorem -/

/-- What grants says of the policy. -/
theorem parse_of_isPlain (hplain : call.IsPlain version now) :
    Json.parse (call.policy now) = some (call.asked now) := by
  cases hcanned : call.isCanned with
  | true =>
      rw [parse_policy_canned hcanned]
      exact ⟨hplain.validAfterTime, (hplain.canned hcanned).1⟩
  | false =>
      rw [parse_policy_custom hcanned]
      refine ⟨hplain.expireTime, hplain.validAfterTime, fun hnil => ?_⟩
      have hor := hplain.policyUrl hnil
      rw [hcanned] at hor
      exact hor.resolve_left (by decide)

theorem grants_of_isPlain (hplain : call.IsPlain version now) : Grants version rsa now call := by
  obtain rfl := hplain.version
  have hascii : Json.IsAscii (call.policy now) :=
    isAscii_policy.mpr fun hcanned => (hplain.canned hcanned).2
  obtain ⟨signature, hsign⟩ := signString_eq_ok_iff.mpr ⟨rfl, hascii⟩
  exact ⟨parse_of_isPlain hplain, _, _, signature, _, createSignedUrl_py2 hsign,
    urlFields_signed hplain.fragment signature, tellsPolicy_policyField, hsign,
    urlBase64Decode_encoded signature⟩

theorem isPlain_of_grants (hgrants : Grants version rsa now call) : call.IsPlain version now := by
  obtain ⟨hparse, signedUrl, field, signature, text, hsigned, hfields, -, hsign, -⟩ := hgrants
  obtain ⟨rfl, hascii⟩ := signString_eq_ok_iff.mp ⟨signature, hsign⟩
  have hfragment : '#' ∉ call.url := by
    intro hin
    rw [createSignedUrl_py2 hsign] at hsigned
    rw [← Except.ok.inj hsigned, urlFields_fragment hin] at hfields
    have hlength := congrArg List.length hfields
    rw [List.length_append] at hlength
    simp at hlength
  cases hcanned : call.isCanned with
  | true =>
      obtain ⟨hafter, hplain⟩ := (parse_policy_canned hcanned).mp hparse
      obtain ⟨⟨value, hexpires, hne⟩, -⟩ := isCanned_iff.mp hcanned
      exact {
        version := rfl
        fragment := hfragment
        expireTime := fun hzero => absurd (Option.some.inj (hexpires.symm.trans hzero)) hne
        validAfterTime := hafter
        policyUrl := fun _ => .inl hcanned
        canned := fun hcanned => ⟨hplain, isAscii_policy.mp hascii hcanned⟩ }
  | false =>
      obtain ⟨hexpires, hafter, hresource⟩ := (parse_policy_custom hcanned).mp hparse
      exact {
        version := rfl
        fragment := hfragment
        expireTime := hexpires
        validAfterTime := hafter
        policyUrl := fun hnil => .inr (hresource hnil)
        canned := fun htrue => by
          rw [hcanned] at htrue
          cases htrue }

end

/-- A signed URL grants what is asked for exactly if the call is plain. -/
theorem grants_iff (version : PyVersion) (rsa : Text → Bytes → Bytes) (now : ℤ)
    (call : SigningCall) : Grants version rsa now call ↔ call.IsPlain version now :=
  ⟨isPlain_of_grants, grants_of_isPlain⟩

/-- A URL with quotes that is pasted into a canned policy. -/
def quotedCall : SigningCall where
  url := "a\",\"b\":\"c".toList
  keypairId := ['K']
  expireTime := some 1
  validAfterTime := none
  ipAddress := none
  policyUrl := none
  privateKeyFile := none
  privateKeyString := some ['k']
  keypairPlain := List.forall_mem_singleton.mpr rfl
  oneKey := .inr ⟨rfl, ['k'], by decide, rfl⟩

/-- The text of a URL changes the statement. -/
theorem not_grants_quoted :
    ¬∀ (version : PyVersion) (rsa : Text → Bytes → Bytes) (now : ℤ) (call : SigningCall),
      Grants version rsa now call := by
  intro hall
  have hplain := isPlain_of_grants (hall .py2 (fun _ message => message) 0 quotedCall)
  have hurl := (hplain.canned (by decide)).1
  revert hurl
  decide

end Boto.CloudFront
