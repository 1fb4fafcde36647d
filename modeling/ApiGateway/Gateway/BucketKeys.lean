import ApiGateway.Core.Config
import ApiGateway.Gateway.ForwardedChain
import ApiGateway.Gateway.RateIdentity

/-!
# Which buckets are told apart

The key of a bucket is the name of the route, a tag for the scope and the identity of the
client, joined by colons.  None of the three is escaped.  A route name may therefore go on
where the tag of another route begins, and the client of the other route can supply the rest:
the address that `client_ip` selects is any text that fits a header, has no comma and no
blanks at its ends.  A request without an API key is counted under `anon`, which is also a
key that a client may send.

`buckets_apart_iff` says for which configurations neither can happen.
-/

namespace ApiGateway
namespace Gateway

open Library Core

/-! ## Keys and identities -/

/-- The API key that `rate_key` reads, when there is one. -/
def keyText (headers : HeaderMap) : Option String :=
  (headers.getStr .xApiKey).or
    ((headers.getStr .authorization).map fun auth => Text.trim (stripBearer auth))

theorem bucketText_eq_getD (headers : HeaderMap) :
    bucketText headers = (keyText headers).getD "anon" := by
  unfold bucketText keyText
  cases headers.getStr .xApiKey with
  | some key => rfl
  | none =>
      cases headers.getStr .authorization with
      | some auth => rfl
      | none => rfl

/-- Whom a bucket of the given scope is for. -/
def bucketIdentity (scope : RateScope) (headers : HeaderMap) (peer : String) : Option String :=
  match scope with
  | .ip => some (clientIp headers peer)
  | .apiKey => keyText headers
  | .route => none

/-- The bucket that `route_and_proxy` counts a request in. -/
def bucketKey (name : String) (scope : RateScope) (headers : HeaderMap) (peer : String) : String :=
  rateKey scope name (clientIp headers peer) headers

/-- Requests are counted in one bucket only when they are for the same route and scope and
have the same identity.  The routes are those with a rate limit. -/
def BucketsApart (config : GatewayConfig) : Prop :=
  ∀ route ∈ config.routes, ∀ other ∈ config.routes, ∀ rl rl',
    route.rateLimit = some rl → other.rateLimit = some rl' →
    ∀ headers peer headers' peer', IsAddressText peer → IsAddressText peer' →
      bucketKey route.name rl.scope headers peer = bucketKey other.name rl'.scope headers' peer' →
      route.name = other.name ∧ rl.scope = rl'.scope ∧
        bucketIdentity rl.scope headers peer = bucketIdentity rl'.scope headers' peer'

/-- The part of a key after the route name and the first colon. -/
def tagText (scope : RateScope) (headers : HeaderMap) (peer : String) : String :=
  match scope with
  | .ip => "ip:" ++ clientIp headers peer
  | .apiKey => "key:" ++ bucketText headers
  | .route => "route"

theorem toList_bucketKey (name : String) (scope : RateScope) (headers : HeaderMap)
    (peer : String) :
    (bucketKey name scope headers peer).toList =
      name.toList ++ ':' :: (tagText scope headers peer).toList := by
  cases scope with
  | ip => simp [bucketKey, rateKey, tagText]
  | apiKey => simp [bucketKey, rateKey_apiKey, tagText]
  | route => simp [bucketKey, rateKey, tagText]

/-! ## The addresses that can be selected -/

/-- A text that `client_ip` may select: one entry of a list that fits a header. -/
structure IsSelectable (text : String) : Prop where
  readable : ∀ char ∈ text.toList, HeaderValue.IsReadable char
  isEntry : CommaList.IsEntry Text.isWhitespace text.toList

theorem isSelectable_clientIp (headers : HeaderMap) {peer : String} (h : IsAddressText peer) :
    IsSelectable (clientIp headers peer) :=
  ⟨isReadable_clientIp headers h, isEntry_clientIp headers h⟩

/-- Every such text is selected from the header that has it as its only entry. -/
theorem exists_clientIp_eq {text : String} (h : IsSelectable text) :
    ∃ headers, ∀ peer, clientIp headers peer = text := by
  obtain ⟨value, -, htext⟩ := HeaderValue.fromStr_readable h.readable
  refine ⟨[(.xForwardedFor, value)], fun peer => ?_⟩
  have hchain : HeaderMap.getStr [(.xForwardedFor, value)] .xForwardedFor = some text := by
    simp [HeaderMap.getStr, HeaderMap.get, htext]
  have hpiece : Text.splitFirst text ',' = text := by
    rw [Text.splitFirst, List.takeWhile_eq_self_iff.mpr, String.ofList_toList]
    intro char hchar
    rw [bne_iff_ne]
    rintro rfl
    exact h.isEntry.noComma hchar
  have htrim : Text.trim text = text :=
    String.toList_inj.mp ((CommaList.trim_eq_strip text).trans h.isEntry.stripped)
  have hnonempty : text.isEmpty = false := by
    rw [Bool.eq_false_iff]
    intro hempty
    rw [String.isEmpty_iff] at hempty
    exact h.isEntry.nonempty (by rw [hempty]; rfl)
  simp [clientIp, hchain, hpiece, htrim, hnonempty]

/-! ## Names that continue a tag -/

/-- A text that a selected address may begin with, followed by more of it. -/
structure IsSelectableFront (text : String) : Prop where
  readable : ∀ char ∈ text.toList, HeaderValue.IsReadable char
  noComma : ',' ∉ text.toList
  first : ∀ char ∈ text.toList.head?, Text.isWhitespace char = false

/-- The name of a route continues what the buckets of another route with scope `Ip` begin
with. -/
def ContinuesIpTag (name other : String) : Prop :=
  other = name ++ ":ip" ∨ ∃ text, IsSelectableFront text ∧ other = name ++ ":ip:" ++ text

theorem ContinuesIpTag.length_le {name other : String} (h : ContinuesIpTag name other) :
    name.toList.length + 3 ≤ other.toList.length := by
  rcases h with rfl | ⟨text, -, rfl⟩
  · simp
  · simp

/-- No separator but the first is in the tag of a route. -/
theorem split_route {middle tail : List Char}
    (h : ':' :: "route".toList = middle ++ ':' :: tail) : middle = [] := by
  cases middle with
  | nil => rfl
  | cons first middle =>
      have hmem : ':' ∈ "route".toList := by
        rw [(List.cons.inj h).2]
        simp
      exact absurd hmem (by decide)

/-- The places where the bucket of an address can be cut at a separator. -/
theorem split_ip {address middle tail : List Char}
    (h : ':' :: 'i' :: 'p' :: ':' :: address = middle ++ ':' :: tail) :
    middle = [] ∨ (middle = ":ip".toList ∧ address = tail) ∨
      ∃ front, middle = ":ip:".toList ++ front ∧ address = front ++ ':' :: tail := by
  match middle with
  | [] => exact Or.inl rfl
  | [first] => simp at h
  | [first, second] => simp at h
  | [first, second, third] =>
      simp only [List.cons_append, List.nil_append, List.cons.injEq] at h
      obtain ⟨rfl, rfl, rfl, -, rfl⟩ := h
      exact Or.inr (Or.inl ⟨rfl, rfl⟩)
  | first :: second :: third :: fourth :: front =>
      simp only [List.cons_append, List.cons.injEq] at h
      obtain ⟨rfl, rfl, rfl, rfl, rfl⟩ := h
      exact Or.inr (Or.inr ⟨front, rfl, rfl⟩)

/-- The beginning of a selected address up to a separator. -/
theorem isSelectableFront_of_append {text : String} (h : IsSelectable text)
    {front tail : List Char} (hsplit : text.toList = front ++ ':' :: tail) :
    IsSelectableFront (String.ofList front) := by
  have hmem : ∀ char ∈ (String.ofList front).toList, char ∈ text.toList := by
    intro char hchar
    rw [String.toList_ofList] at hchar
    rw [hsplit]
    exact List.mem_append_left _ hchar
  refine ⟨fun char hchar => h.readable char (hmem char hchar),
    fun hcomma => h.isEntry.noComma (hmem _ hcomma), fun char hchar => ?_⟩
  rw [String.toList_ofList] at hchar
  apply CommaList.head?_of_strip_eq_self h.isEntry.stripped
  rw [hsplit, List.head?_append, hchar]
  rfl

/-- A key that can be cut after a longer name shows that this name continues a tag. -/
theorem continuesIpTag_of_split {name other : String} {scope : RateScope}
    (hscope : scope ≠ .apiKey) {headers : HeaderMap} {peer : String} (hpeer : IsAddressText peer)
    {middle tail : List Char} (hother : other.toList = name.toList ++ middle)
    (hsplit : ':' :: (tagText scope headers peer).toList = middle ++ ':' :: tail) :
    middle = [] ∨ (scope = .ip ∧ ContinuesIpTag name other) := by
  cases scope with
  | apiKey => exact absurd rfl hscope
  | route => exact Or.inl (split_route hsplit)
  | ip =>
      have htag : (tagText .ip headers peer).toList =
          'i' :: 'p' :: ':' :: (clientIp headers peer).toList := by
        simp [tagText]
      rw [htag] at hsplit
      rcases split_ip hsplit with hnil | ⟨rfl, -⟩ | ⟨front, rfl, haddress⟩
      · exact Or.inl hnil
      · refine Or.inr ⟨rfl, Or.inl ?_⟩
        apply String.toList_injective
        rw [hother, String.toList_append]
      · refine Or.inr ⟨rfl, Or.inr ⟨String.ofList front, ?_, ?_⟩⟩
        · exact isSelectableFront_of_append (isSelectable_clientIp headers hpeer) haddress
        · apply String.toList_injective
          simp [hother]

/-- A character that may stand anywhere in a selected address. -/
def IsPlain (char : Char) : Prop :=
  HeaderValue.IsReadable char ∧ char ≠ ',' ∧ Text.isWhitespace char = false

theorem isPlain_of_all {text : List Char}
    (h : text.all (fun char => 32 ≤ char.toNat && char.toNat < 127 && char != ',' &&
      !Text.isWhitespace char) = true) : ∀ char ∈ text, IsPlain char := by
  intro char hchar
  have hplain := List.all_eq_true.mp h char hchar
  simp only [Bool.and_eq_true, decide_eq_true_eq, bne_iff_ne, Bool.not_eq_true'] at hplain
  obtain ⟨⟨hrange, hcomma⟩, hblank⟩ := hplain
  exact ⟨Or.inl hrange, hcomma, hblank⟩

/-- What follows the name in the bucket of a request without headers is plain, for the scopes
that do not look for an API key. -/
theorem isPlain_tagText {scope : RateScope} (hscope : scope ≠ .apiKey) :
    ∀ char ∈ (tagText scope [] "10.0.0.1").toList, IsPlain char := by
  cases scope with
  | apiKey => exact absurd rfl hscope
  | ip => exact isPlain_of_all (by decide +kernel)
  | route => exact isPlain_of_all (by decide +kernel)

theorem tagText_ne_nil (scope : RateScope) (headers : HeaderMap) (peer : String) :
    (tagText scope headers peer).toList ≠ [] := by
  cases scope with
  | ip => simp [tagText]
  | apiKey => simp [tagText]
  | route => simp [tagText]

/-- A front and a plain end make an address that can be selected. -/
theorem isSelectable_append {front back : String} (hfront : IsSelectableFront front)
    (hnonempty : back.toList ≠ []) (hback : ∀ char ∈ back.toList, IsPlain char) :
    IsSelectable (front ++ back) where
  readable := by
    intro char hchar
    rw [String.toList_append, List.mem_append] at hchar
    rcases hchar with hold | hnew
    · exact hfront.readable char hold
    · exact (hback char hnew).1
  isEntry := by
    rw [String.toList_append]
    refine ⟨List.append_ne_nil_of_right_ne_nil _ hnonempty, ?_, ?_⟩
    · rw [List.mem_append]
      rintro (hold | hnew)
      · exact hfront.noComma hold
      · exact (hback ',' hnew).2.1 rfl
    · apply CommaList.strip_eq_self_of_ends
      · intro char hchar
        rw [List.head?_append] at hchar
        cases hhead : front.toList.head? with
        | none =>
            rw [hhead] at hchar
            exact (hback char (List.mem_of_head? hchar)).2.2
        | some first =>
            rw [hhead] at hchar
            exact hfront.first char (hhead.trans hchar)
      · intro char hchar
        rw [List.getLast?_append_of_ne_nil _ hnonempty] at hchar
        exact (hback char (List.mem_of_getLast? hchar)).2.2

/-- Where a name continues a tag, two requests for different routes share a bucket. -/
theorem exists_shared_bucket {name other : String} (h : ContinuesIpTag name other)
    {scope : RateScope} (hscope : scope ≠ .apiKey) :
    ∃ headers, bucketKey name .ip headers "10.0.0.1" = bucketKey other scope [] "10.0.0.1" := by
  have hplain := isPlain_tagText hscope
  have hnonempty := tagText_ne_nil scope [] "10.0.0.1"
  generalize htag : tagText scope [] "10.0.0.1" = tag at hplain hnonempty
  have hshared : ∀ address, IsSelectable address →
      other.toList ++ ':' :: tag.toList = name.toList ++ ":ip:".toList ++ address.toList →
      ∃ headers, bucketKey name .ip headers "10.0.0.1" = bucketKey other scope [] "10.0.0.1" := by
    intro address haddress hother
    obtain ⟨headers, hselected⟩ := exists_clientIp_eq haddress
    refine ⟨headers, String.toList_injective ?_⟩
    rw [toList_bucketKey, toList_bucketKey, htag, hother, tagText, hselected]
    simp
  rcases h with rfl | ⟨text, htext, rfl⟩
  · have hempty : IsSelectableFront "" := ⟨by simp, by simp, by simp⟩
    exact hshared ("" ++ tag) (isSelectable_append hempty hnonempty hplain) (by simp)
  · have hcolon : ∀ char ∈ (":" ++ tag).toList, IsPlain char := by
      intro char hchar
      rw [String.toList_append, List.mem_append] at hchar
      rcases hchar with hfirst | hrest
      · exact isPlain_of_all (by decide +kernel) char hfirst
      · exact hplain char hrest
    exact hshared (text ++ (":" ++ tag)) (isSelectable_append htext (by simp) hcolon) (by simp)

/-! ## Configurations -/

/-- A request without an API key is counted with the requests whose key is `anon`. -/
theorem exists_shared_anon (name : String) :
    ∃ headers, keyText headers = some "anon" ∧ keyText [] = none ∧
      bucketKey name .apiKey headers "10.0.0.1" = bucketKey name .apiKey [] "10.0.0.1" := by
  have hreadable : ∀ char ∈ "anon".toList, HeaderValue.IsReadable char :=
    HeaderValue.isReadable_of_all (by decide)
  obtain ⟨value, -, htext⟩ := HeaderValue.fromStr_readable hreadable
  have hkey : keyText [(.xApiKey, value)] = some "anon" := by
    simp [keyText, HeaderMap.getStr, HeaderMap.get, htext]
  refine ⟨[(.xApiKey, value)], hkey, rfl, ?_⟩
  rw [bucketKey, bucketKey, rateKey_apiKey, rateKey_apiKey, bucketText_eq_getD, hkey]
  rfl

theorem isAddressText_local : IsAddressText "10.0.0.1" :=
  .of_all (by decide) (by decide)

/-- The identity can be read off the tag, when no API key is involved. -/
theorem bucketIdentity_eq_of_tagText {scope : RateScope} (hscope : scope ≠ .apiKey)
    {headers headers' : HeaderMap} {peer peer' : String}
    (h : tagText scope headers peer = tagText scope headers' peer') :
    bucketIdentity scope headers peer = bucketIdentity scope headers' peer' := by
  cases scope with
  | apiKey => exact absurd rfl hscope
  | route => rfl
  | ip =>
      have hlists := congrArg String.toList h
      simp only [tagText, String.toList_append, List.append_cancel_left_eq] at hlists
      exact congrArg some (String.toList_injective hlists)

/-- A key is taken apart in one way only, when neither name continues a tag of the other. -/
theorem name_eq_of_bucketKey_eq {name other : String} {scope scope' : RateScope}
    (hscope : scope ≠ .apiKey) (hscope' : scope' ≠ .apiKey) {headers headers' : HeaderMap}
    {peer peer' : String} (hpeer : IsAddressText peer) (hpeer' : IsAddressText peer')
    (hforth : scope = .ip → ¬ ContinuesIpTag name other)
    (hback : scope' = .ip → ¬ ContinuesIpTag other name)
    (h : bucketKey name scope headers peer = bucketKey other scope' headers' peer') :
    name = other ∧ tagText scope headers peer = tagText scope' headers' peer' := by
  have hlists := congrArg String.toList h
  rw [toList_bucketKey, toList_bucketKey] at hlists
  have hsame : name = other → tagText scope headers peer = tagText scope' headers' peer' := by
    rintro rfl
    exact String.toList_injective (List.cons.inj (List.append_cancel_left hlists)).2
  rcases List.append_eq_append_iff.mp hlists with ⟨middle, hother, hsplit⟩ |
    ⟨middle, hname, hsplit⟩
  · rcases continuesIpTag_of_split hscope hpeer hother hsplit with rfl | ⟨hip, hcontinues⟩
    · have hnames : name = other := String.toList_injective (by simpa using hother.symm)
      exact ⟨hnames, hsame hnames⟩
    · exact absurd hcontinues (hforth hip)
  · rcases continuesIpTag_of_split hscope' hpeer' hname hsplit with rfl | ⟨hip, hcontinues⟩
    · have hnames : name = other := String.toList_injective (by simpa using hname)
      exact ⟨hnames, hsame hnames⟩
    · exact absurd hcontinues (hback hip)

/-- **Which configurations keep all buckets apart.**  Those in which no rate limit is by API
key, and no route with a rate limit has a name that continues a tag of a route with a rate
limit by address. -/
theorem buckets_apart_iff {config : GatewayConfig} (hvalid : config.validate = .ok ()) :
    BucketsApart config ↔
      (∀ route ∈ config.routes, ∀ rl, route.rateLimit = some rl → rl.scope ≠ .apiKey) ∧
      ∀ route ∈ config.routes, ∀ other ∈ config.routes, ∀ rl rl',
        route.rateLimit = some rl → other.rateLimit = some rl' → rl.scope = .ip →
          ¬ ContinuesIpTag route.name other.name := by
  have hnames := ((validate_eq_ok_iff config).mp hvalid).names
  constructor
  · intro hapart
    have hkeyless : ∀ route ∈ config.routes, ∀ rl, route.rateLimit = some rl →
        rl.scope ≠ .apiKey := by
      intro route hroute rl hlimited hscope
      obtain ⟨headers, hkey, hnone, hshared⟩ := exists_shared_anon route.name
      rw [← hscope] at hshared
      obtain ⟨-, -, hidentity⟩ := hapart route hroute route hroute rl rl hlimited hlimited headers
        "10.0.0.1" [] "10.0.0.1" isAddressText_local isAddressText_local hshared
      rw [hscope, bucketIdentity, bucketIdentity, hkey, hnone] at hidentity
      cases hidentity
    refine ⟨hkeyless, ?_⟩
    intro route hroute other hother rl rl' hlimited hlimited' hscope hcontinues
    obtain ⟨headers, hshared⟩ := exists_shared_bucket hcontinues (hkeyless other hother rl' hlimited')
    rw [← hscope] at hshared
    obtain ⟨hname, -, -⟩ := hapart route hroute other hother rl rl' hlimited hlimited' headers
      "10.0.0.1" [] "10.0.0.1" isAddressText_local isAddressText_local hshared
    have hlength := hcontinues.length_le
    rw [hname] at hlength
    omega
  · rintro ⟨hkeyless, huncontested⟩ route hroute other hother rl rl' hlimited hlimited' headers
      peer headers' peer' hpeer hpeer' hshared
    have hscope := hkeyless route hroute rl hlimited
    obtain ⟨hname, htag⟩ := name_eq_of_bucketKey_eq hscope
      (hkeyless other hother rl' hlimited') hpeer hpeer'
      (huncontested route hroute other hother rl rl' hlimited hlimited')
      (huncontested other hother route hroute rl' rl hlimited' hlimited) hshared
    -- Names are not used twice, so it is one route with one scope.
    obtain rfl := List.inj_on_of_nodup_map hnames hroute hother hname
    obtain rfl := Option.some.inj (hlimited.symm.trans hlimited')
    exact ⟨rfl, rfl, bucketIdentity_eq_of_tagText hscope htag⟩

/-- Two routes, one limited by address and one as a whole. -/
def plainBuckets : GatewayConfig :=
  { routes :=
      [{ name := "users", upstreams := [{ url := "http://a" }]
         rateLimit := some { scope := .ip, limit := 5 } },
       { name := "orders", upstreams := [{ url := "http://b" }]
         rateLimit := some { scope := .route, limit := 5 } }] }

theorem buckets_apart_plain : plainBuckets.validate = .ok () ∧ BucketsApart plainBuckets := by
  have hvalid : plainBuckets.validate = .ok () := rfl
  refine ⟨hvalid, (buckets_apart_iff hvalid).mpr ⟨?_, ?_⟩⟩
  · intro route hroute rl hlimited
    simp only [plainBuckets, List.mem_cons, List.not_mem_nil, or_false] at hroute
    rcases hroute with rfl | rfl
    · obtain rfl := Option.some.inj hlimited
      decide
    · obtain rfl := Option.some.inj hlimited
      decide
  · intro route hroute other hother rl rl' _ _ _ hcontinues
    have hlengths : ∀ route ∈ plainBuckets.routes, 5 ≤ route.name.toList.length ∧
        route.name.toList.length ≤ 6 := by decide
    have hlength := hcontinues.length_le
    have hlow := hlengths route hroute
    have hhigh := hlengths other hother
    omega

/-- One route, limited by API key. -/
def keyedBuckets : GatewayConfig :=
  { routes :=
      [{ name := "orders", upstreams := [{ url := "http://b" }]
         rateLimit := some { scope := .apiKey, limit := 5 } }] }

/-- A route limited by address, and one whose name continues its tag. -/
def nestedBuckets : GatewayConfig :=
  { routes :=
      [{ name := "users", upstreams := [{ url := "http://a" }]
         rateLimit := some { scope := .ip, limit := 5 } },
       { name := "users:ip", upstreams := [{ url := "http://b" }]
         rateLimit := some { scope := .route, limit := 5 } }] }

/-- The key `anon` is no key, and the address `route` is another route. -/
theorem buckets_collide :
    keyedBuckets.validate = .ok () ∧
      bucketKey "orders" .apiKey [(.xApiKey, ⟨Text.asBytes "anon", by decide⟩)] "10.0.0.1" =
        bucketKey "orders" .apiKey [] "10.0.0.1" ∧
      ¬ BucketsApart keyedBuckets ∧
      nestedBuckets.validate = .ok () ∧
      bucketKey "users" .ip [(.xForwardedFor, ⟨Text.asBytes "route", by decide⟩)] "10.0.0.1" =
        bucketKey "users:ip" .route [] "10.0.0.1" ∧
      ¬ BucketsApart nestedBuckets := by
  have hanon : bucketKey "orders" .apiKey [(.xApiKey, ⟨Text.asBytes "anon", by decide⟩)]
      "10.0.0.1" = bucketKey "orders" .apiKey [] "10.0.0.1" := by decide +kernel
  have hroute : bucketKey "users" .ip [(.xForwardedFor, ⟨Text.asBytes "route", by decide⟩)]
      "10.0.0.1" = bucketKey "users:ip" .route [] "10.0.0.1" := by decide +kernel
  refine ⟨rfl, hanon, fun hapart => ?_, rfl, hroute, fun hapart => ?_⟩
  · have hidentity := (hapart _ List.mem_cons_self _ List.mem_cons_self _ _ rfl rfl _ _ _ _
      isAddressText_local isAddressText_local hanon).2.2
    exact absurd hidentity (by decide +kernel)
  · have hname := (hapart _ List.mem_cons_self _ (List.mem_cons_of_mem _ List.mem_cons_self) _ _
      rfl rfl _ _ _ _ isAddressText_local isAddressText_local hroute).1
    exact absurd hname (by decide)

end Gateway
end ApiGateway
