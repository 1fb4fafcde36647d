import ApiGateway.Gateway.Proxy
import ApiGateway.Gateway.TransformLaws
import ApiGateway.Library.CommaList

/-!
# The forwarded address chain

The chain of addresses that is sent on is made by two functions: `client_ip` selects an
address, and `forwarded_request_headers` appends the selected one to the first line of the
chain and puts the result in the place of all lines.  The address that should be appended is
that of the peer.  So the chain is complete only when the selected address is the peer's and
no other line has an entry; `forwardedFor_complete_iff` says so for every header map.
-/

namespace ApiGateway
namespace Gateway

open Library Core

/-- The text of an address: decimal or hexadecimal digits, colons and dots. -/
structure IsAddressText (text : String) : Prop where
  nonempty : text ≠ ""
  chars : ∀ char ∈ text.toList, char ∈ "0123456789abcdef:.".toList

/-- The lines of the chain as text, in order. -/
def chainLines (headers : HeaderMap) : List String :=
  (headers.getAll .xForwardedFor).filterMap HeaderValue.toStr

/-- The addresses of one line. -/
def chainEntries (line : String) : List String :=
  (CommaList.entries Text.isWhitespace line.toList).map String.ofList

/-- The headers that `route_and_proxy` forwards before the configured transforms. -/
def forwardedHeaders (incoming : Incoming) : HeaderMap :=
  forwardedRequestHeaders incoming.request.headers
    (clientIp incoming.request.headers incoming.peer) (requestHost incoming.request) "http"

theorem fwdHeaders_new (state : GatewayState) (incoming : Incoming) (routeName : String)
    (runtime : RouteRuntime) (correlation : String) (started : Instant) :
    (Exchange.new state incoming routeName runtime correlation started).fwdHeaders =
      setHeader (applyTransforms (forwardedHeaders incoming) runtime.config.requestHeaders)
        correlationHeader correlation := rfl

/-- The one value of the chain that is forwarded lists all addresses that came in, in order,
and the address of the peer. -/
def ChainComplete (incoming : Incoming) : Prop :=
  ∃ value text, (forwardedHeaders incoming).getAll .xForwardedFor = [value] ∧
    value.toStr = some text ∧
    chainEntries text =
      (chainLines incoming.request.headers).flatMap chainEntries ++ [incoming.peer]

/-! ## Texts -/

namespace IsAddressText

variable {text : String}

theorem of_all (hnonempty : text ≠ "")
    (hall : text.toList.all (fun char => "0123456789abcdef:.".toList.contains char) = true) :
    IsAddressText text :=
  ⟨hnonempty, fun char hchar => by simpa using List.all_eq_true.mp hall char hchar⟩

theorem not_blank (h : IsAddressText text) :
    ∀ char ∈ text.toList, Text.isWhitespace char = false := by
  have hall : "0123456789abcdef:.".toList.all (fun char => !Text.isWhitespace char) = true := by
    decide
  intro char hchar
  simpa using List.all_eq_true.mp hall char (h.chars char hchar)

theorem isReadable (h : IsAddressText text) :
    ∀ char ∈ text.toList, HeaderValue.IsReadable char :=
  fun char hchar => HeaderValue.isReadable_of_all (by decide) char (h.chars char hchar)

theorem isEntry (h : IsAddressText text) :
    CommaList.IsEntry Text.isWhitespace text.toList where
  nonempty := fun hnil => h.nonempty (String.toList_inj.mp hnil)
  noComma := fun hcomma => absurd (h.chars ',' hcomma) (by decide)
  stripped := CommaList.strip_eq_self h.not_blank

end IsAddressText

/-- The selected address is one entry. -/
theorem isEntry_clientIp (headers : HeaderMap) {peer : String} (hpeer : IsAddressText peer) :
    CommaList.IsEntry Text.isWhitespace (clientIp headers peer).toList := by
  unfold clientIp
  split
  · rename_i chain _
    simp only
    split
    · rename_i hfirst
      have hpiece : (Text.trim (Text.splitFirst chain ',')).toList =
          CommaList.strip Text.isWhitespace (chain.toList.takeWhile (· != ',')) := by
        rw [CommaList.trim_eq_strip, Text.splitFirst, String.toList_ofList]
      rw [hpiece]
      refine CommaList.isEntry_first fun hnil => hfirst ?_
      rw [String.isEmpty_iff]
      exact String.toList_inj.mp (hpiece.trans hnil)
    · exact hpeer.isEntry
  · exact hpeer.isEntry

theorem isReadable_clientIp (headers : HeaderMap) {peer : String} (hpeer : IsAddressText peer) :
    ∀ char ∈ (clientIp headers peer).toList, HeaderValue.IsReadable char := by
  unfold clientIp
  split
  · rename_i chain hchain
    simp only
    split
    · intro char hchar
      rw [CommaList.trim_eq_strip, Text.splitFirst, String.toList_ofList] at hchar
      have hmem := (List.takeWhile_prefix _).subset (CommaList.mem_of_mem_strip hchar)
      exact HeaderMap.isReadable_of_getStr hchain char hmem
    · exact hpeer.isReadable
  · exact hpeer.isReadable

/-- An address after a comma and a space is one more entry. -/
theorem chainEntries_append {address : String}
    (h : CommaList.IsEntry Text.isWhitespace address.toList) (line : String) :
    chainEntries (line ++ ", " ++ address) = chainEntries line ++ [address] := by
  have hlist : (line ++ ", " ++ address).toList = line.toList ++ ',' :: ' ' :: address.toList := by
    simp
  unfold chainEntries
  rw [hlist, CommaList.entries_append_comma, CommaList.entries_cons_of_isEntry rfl (by decide) h]
  simp

/-! ## What is forwarded -/

/-- The chain is built of texts that were read from headers, a comma and a space. -/
theorem isReadable_chainText (headers : HeaderMap) {address : String}
    (haddress : ∀ char ∈ address.toList, HeaderValue.IsReadable char) :
    ∀ char ∈ (chainText headers address).toList, HeaderValue.IsReadable char := by
  unfold chainText
  cases hline : headers.getStr .xForwardedFor with
  | none => exact haddress
  | some line =>
      intro char hchar
      simp only [Option.map_some, Option.getD_some, String.toList_append,
        List.mem_append] at hchar
      rcases hchar with (hold | hseparator) | hnew
      · exact HeaderMap.isReadable_of_getStr hline char hold
      · exact HeaderValue.isReadable_of_all (by decide) char hseparator
      · exact haddress char hnew

/-- The forwarded chain has the one text, which is a header value. -/
theorem getAll_forwardedFor {incoming : Incoming} (hpeer : IsAddressText incoming.peer) :
    ∃ value, (forwardedHeaders incoming).getAll .xForwardedFor = [value] ∧
      value.toStr = some (chainText incoming.request.headers
        (clientIp incoming.request.headers incoming.peer)) := by
  have hreadable := isReadable_chainText incoming.request.headers
    (isReadable_clientIp incoming.request.headers hpeer)
  obtain ⟨value, hvalue, htext⟩ := HeaderValue.fromStr_readable hreadable
  exact ⟨value, getAll_forwarded_of_ownText rfl hvalue, htext⟩

/-- When every line can be read, the first line is what `get` reads. -/
theorem getStr_eq_head? {headers : HeaderMap}
    (h : ∀ value ∈ headers.getAll .xForwardedFor, value.toStr.isSome = true) :
    headers.getStr .xForwardedFor = (chainLines headers).head? := by
  unfold HeaderMap.getStr HeaderMap.get chainLines
  cases hvalues : headers.getAll .xForwardedFor with
  | nil => rfl
  | cons value values =>
      obtain ⟨line, hline⟩ := Option.isSome_iff_exists.mp
        (h value (hvalues ▸ List.mem_cons_self))
      simp [hline]

/-- The peer is selected when the first entry of the first line is blank or is the peer. -/
theorem clientIp_eq_peer_iff {headers : HeaderMap} {peer first : String}
    (hfirst : headers.getStr .xForwardedFor = some first) :
    clientIp headers peer = peer ↔
      Text.trim (Text.splitFirst first ',') = "" ∨
        Text.trim (Text.splitFirst first ',') = peer := by
  unfold clientIp
  rw [hfirst]
  simp only
  split
  · rename_i hnonempty
    rw [String.isEmpty_iff] at hnonempty
    simp [hnonempty]
  · rename_i hempty
    rw [not_not, String.isEmpty_iff] at hempty
    simp [hempty]

/-- **When the forwarded chain is complete.**  For every request whose lines of the chain can
be read, and every peer address: the forwarded chain is all entries of all lines in order and
then the peer, exactly when there is no line at all, or the lines after the first have no
entries and the first entry of the first line is blank or is the peer itself. -/
theorem forwardedFor_complete_iff (incoming : Incoming) (hpeer : IsAddressText incoming.peer)
    (hlines : ∀ value ∈ incoming.request.headers.getAll .xForwardedFor,
      value.toStr.isSome = true) :
    ChainComplete incoming ↔
      ∀ first rest, chainLines incoming.request.headers = first :: rest →
        (∀ line ∈ rest, chainEntries line = []) ∧
          (Text.trim (Text.splitFirst first ',') = "" ∨
            Text.trim (Text.splitFirst first ',') = incoming.peer) := by
  obtain ⟨value, hvalue, htext⟩ := getAll_forwardedFor hpeer
  have hcomplete : ChainComplete incoming ↔
      chainEntries (chainText incoming.request.headers
          (clientIp incoming.request.headers incoming.peer)) =
        (chainLines incoming.request.headers).flatMap chainEntries ++ [incoming.peer] := by
    constructor
    · rintro ⟨value', text', hvalue', htext', hentries⟩
      obtain rfl : value = value' := (List.cons.inj (hvalue.symm.trans hvalue')).1
      rwa [Option.some.inj (htext.symm.trans htext')]
    · exact fun hentries => ⟨value, _, hvalue, htext, hentries⟩
  have hentry := isEntry_clientIp incoming.request.headers hpeer
  have hread := getStr_eq_head? hlines
  rw [hcomplete, chainText]
  cases hcases : chainLines incoming.request.headers with
  | nil =>
      rw [hcases, List.head?_nil] at hread
      have hclient : clientIp incoming.request.headers incoming.peer = incoming.peer := by
        unfold clientIp
        rw [hread]
      rw [hread, hclient]
      refine iff_of_true ?_ nofun
      simp [chainEntries, CommaList.entries_of_isEntry hpeer.isEntry]
  | cons first rest =>
      rw [hcases, List.head?_cons] at hread
      rw [hread, Option.map_some, Option.getD_some, chainEntries_append hentry, List.flatMap_cons,
        List.append_assoc, List.append_cancel_left_eq]
      constructor
      · intro hsame first' rest' hsplit
        obtain ⟨rfl, rfl⟩ := List.cons.inj hsplit
        -- A list of one element has nothing before its last.
        have hshape : ([] : List String) ++ [clientIp incoming.request.headers incoming.peer] =
            rest.flatMap chainEntries ++ [incoming.peer] := hsame
        obtain ⟨hnone, hclient⟩ := List.append_inj' hshape rfl
        refine ⟨List.flatMap_eq_nil_iff.mp hnone.symm, ?_⟩
        exact (clientIp_eq_peer_iff hread).mp (List.cons.inj hclient).1
      · intro hcondition
        obtain ⟨hnone, hclient⟩ := hcondition first rest rfl
        rw [List.flatMap_eq_nil_iff.mpr hnone, (clientIp_eq_peer_iff hread).mpr hclient]
        rfl

/-- A request from the peer `10.0.0.9` with one line of the chain. -/
def chainedIncoming (line : String) (hline : (Text.asBytes line).all isHeaderValueByte = true) :
    Incoming where
  request :=
    { method := .get
      uri := .ofPath "/chain" (by decide)
      headers := [(.xForwardedFor, ⟨Text.asBytes line, hline⟩)]
      body := ⟨[], true⟩ }
  peer := "10.0.0.9"

/-- A chain that begins with a blank entry is completed. -/
theorem forwardedFor_complete_blank :
    chainLines (chainedIncoming ", 10.0.0.1" (by decide)).request.headers = [", 10.0.0.1"] ∧
      ChainComplete (chainedIncoming ", 10.0.0.1" (by decide)) := by
  have hlines : chainLines (chainedIncoming ", 10.0.0.1" (by decide)).request.headers =
      [", 10.0.0.1"] := by decide
  refine ⟨hlines, (forwardedFor_complete_iff _ (.of_all (by decide) (by decide)) (by decide)).mpr ?_⟩
  intro first rest hsplit
  obtain ⟨rfl, rfl⟩ := List.cons.inj (hlines.symm.trans hsplit)
  exact ⟨nofun, Or.inl (by decide)⟩

/-- The peer `10.0.0.9` forwards a request of `10.0.0.1`.  The chain that is sent on has that
client twice and the peer not at all. -/
theorem chain_lacks_peer :
    ¬ ∀ incoming : Incoming, IsAddressText incoming.peer →
      (∀ value ∈ incoming.request.headers.getAll .xForwardedFor, value.toStr.isSome = true) →
        ChainComplete incoming := by
  intro hclaim
  obtain ⟨value, text, hvalue, htext, hentries⟩ :=
    hclaim (chainedIncoming "10.0.0.1" (by decide)) (.of_all (by decide) (by decide)) (by decide)
  have hforwarded : (forwardedHeaders (chainedIncoming "10.0.0.1" (by decide))).getAll
      .xForwardedFor = [⟨Text.asBytes "10.0.0.1, 10.0.0.1", by decide⟩] := by decide
  obtain ⟨rfl, -⟩ := List.cons.inj (hforwarded.symm.trans hvalue)
  obtain rfl : "10.0.0.1, 10.0.0.1" = text :=
    Option.some.inj ((by decide : HeaderValue.toStr _ = some "10.0.0.1, 10.0.0.1").symm.trans htext)
  exact absurd hentries (by decide)

end Gateway
end ApiGateway
