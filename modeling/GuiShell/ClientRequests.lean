-- What the gates of the broker (protocol.rs) make of the requests of the desktop client
-- (broker_client.dart). The client fills an envelope that the broker reads back, hashes to its
-- hash and dates to its clock, so a request fails only by its session, its date or its nonce.
import GuiShell.Broker.MetadataGate
import GuiShell.Broker.TimeRoundTrip
import GuiShell.ClientParity
import GuiShell.RemoteCall

open json serde_json authority broker_audit files store protocol ipc_server client_parity

namespace remote_call

variable {crates : Crates}

/-! ## The envelope -/

/-- A payload as the value that is hashed. -/
def payloadValue (payload : Option (List (String × Value))) : Option Value := payload.map .object

/-- A payload that both sides hash alike: its numbers are integers of Dart, its keys stand in
one order for both, and it nests no deeper than the broker reads. -/
structure Plain (payload : Option (List (String × Value))) : Prop where
  numbers : ∀ n ∈ ((payloadValue payload).getD .null).numbers,
    ∃ i : Int, n = .int i ∧ -9223372036854775808 ≤ i ∧ i < 9223372036854775808
  ordered : Utf16Ordered ((payloadValue payload).getD .null).sortKeys
  depth : ((payloadValue payload).getD .null).depth < MAX_DEPTH

/-- The envelope of a request of the client. -/
def clientEnvelope (endpoint : broker_client.BrokerEndpoint) (moment : broker_client.Moment)
    (operation : BrokerOperation) (payload : Option (List (String × Value))) :
    BrokerRequestEnvelope where
  request_id := some (broker_client.requestId moment)
  session_id := if operation = .Health then none else some endpoint.sessionId
  operation := some operation
  payload_hash := some (broker_client.payloadHash (payloadValue payload))
  nonce := some (broker_client.nonce moment)
  issued_at := some (broker_client.rfc3339Seconds moment.issued)
  metadata := [⟨"client", "desktop_flutter"⟩]
  metadata_present := true
  payload := (payloadValue payload).map Value.sortKeys

theorem valueOf_plain {f64 : List Char → Option FloatText}
    {payload : Option (List (String × Value))} (h : Plain payload) :
    valueOf f64 ((payloadValue payload).getD .null) =
      some ((payloadValue payload).getD .null).sortKeys := by
  apply valueOf_eq_sortKeys
  intro n hn
  obtain ⟨i, rfl, hlo, hhi⟩ := h.numbers n hn
  have hkeep : keepsInt i = true := by
    simp only [keepsInt, Bool.and_eq_true, decide_eq_true_eq]
    omega
  rw [numberOf, if_pos hkeep]

theorem as_str_eq_health_iff (operation : BrokerOperation) :
    operation.as_str = "health" ↔ operation = .Health := by
  cases operation <;> decide

theorem ofName_as_str (operation : BrokerOperation) :
    BrokerOperation.ofName operation.as_str = some operation := by
  cases operation <;> decide

/-- The session of a request. A health request names none. -/
def sessionValue (endpoint : broker_client.BrokerEndpoint) (operation : BrokerOperation) : Value :=
  if operation = .Health then .null else .string endpoint.sessionId

theorem asOptionString_sessionValue (endpoint : broker_client.BrokerEndpoint)
    (operation : BrokerOperation) :
    asOptionString (some (sessionValue endpoint operation)) =
      some (if operation = .Health then none else some endpoint.sessionId) := by
  unfold sessionValue
  split <;> rfl

theorem depth_sessionValue (endpoint : broker_client.BrokerEndpoint)
    (operation : BrokerOperation) : (sessionValue endpoint operation).depth = 0 := by
  unfold sessionValue
  split <;> rfl

/-- The fields of a request, in the order in which the broker looks for them. -/
def requestFields (endpoint : broker_client.BrokerEndpoint) (moment : broker_client.Moment)
    (operation : BrokerOperation) (payload : Option (List (String × Value))) :
    List (Option Value) := [
  some (.string (broker_client.requestId moment)),
  some (sessionValue endpoint operation),
  some (.string operation.as_str),
  some (.string (broker_client.payloadHash (payloadValue payload))),
  some (.string (broker_client.nonce moment)),
  some (.string (broker_client.rfc3339Seconds moment.issued)),
  some (.object [("client", .string "desktop_flutter")]),
  payloadValue payload]

theorem request_eq (endpoint : broker_client.BrokerEndpoint) (moment : broker_client.Moment)
    (operation : BrokerOperation) (payload : Option (List (String × Value))) :
    broker_client.request endpoint moment operation.as_str payload = .object (
      [("request_id", .string (broker_client.requestId moment)),
        ("session_id", sessionValue endpoint operation),
        ("operation", .string operation.as_str),
        ("payload_hash", .string (broker_client.payloadHash (payloadValue payload))),
        ("nonce", .string (broker_client.nonce moment)),
        ("issued_at", .string (broker_client.rfc3339Seconds moment.issued)),
        ("metadata", .object [("client", .string "desktop_flutter")])] ++
      ((payloadValue payload).map fun v => ("payload", v)).toList) := by
  have hsession : (if operation.as_str = "health" then Value.null
      else .string endpoint.sessionId) = sessionValue endpoint operation := by
    unfold sessionValue
    by_cases hop : operation = .Health
    · rw [if_pos hop, if_pos ((as_str_eq_health_iff _).mpr hop)]
    · rw [if_neg hop, if_neg fun hname => hop ((as_str_eq_health_iff _).mp hname)]
  unfold broker_client.request
  rw [hsession]
  rcases payload with _ | fields <;> rfl

theorem recordFields_request (endpoint : broker_client.BrokerEndpoint)
    (moment : broker_client.Moment) (operation : BrokerOperation)
    (payload : Option (List (String × Value))) :
    recordFields envelopeFields
        (broker_client.request endpoint moment operation.as_str payload) =
      some (requestFields endpoint moment operation payload) := by
  rw [request_eq]
  rcases payload with _ | fields <;> rfl

theorem deniesUnknown_request (endpoint : broker_client.BrokerEndpoint)
    (moment : broker_client.Moment) (operation : BrokerOperation)
    (payload : Option (List (String × Value))) :
    deniesUnknown (broker_client.request endpoint moment operation.as_str payload) = true := by
  rw [request_eq]
  rcases payload with _ | fields <;> rfl

theorem depth_request {endpoint : broker_client.BrokerEndpoint} {moment : broker_client.Moment}
    {operation : BrokerOperation} {payload : Option (List (String × Value))}
    (h : ((payloadValue payload).getD .null).depth < MAX_DEPTH) :
    (broker_client.request endpoint moment operation.as_str payload).depth ≤ MAX_DEPTH := by
  have hmax : MAX_DEPTH = 127 := rfl
  rw [request_eq]
  rcases payload with _ | fields
  · simp only [payloadValue, Option.map_none, Option.toList_none, List.append_nil, Value.depth,
      Value.depthOfFields, depth_sessionValue]
    omega
  · simp only [payloadValue, Option.map_some, Option.toList_some, Option.getD_some,
      List.cons_append, List.nil_append, Value.depth, Value.depthOfFields,
      depth_sessionValue] at h ⊢
    omega

/-- The broker reads the envelope that the client means. -/
theorem from_json_str_request (endpoint : broker_client.BrokerEndpoint)
    (moment : broker_client.Moment) (operation : BrokerOperation)
    {payload : Option (List (String × Value))} (h : Plain payload) :
    from_json_str crates (broker_client.jsonEncode
        (broker_client.request endpoint moment operation.as_str payload)) =
      some (clientEnvelope endpoint moment operation payload) := by
  have hop : asOptionOperation (some (.string operation.as_str)) = some (some operation) := by
    rw [asOptionOperation, ofName_as_str]
    rfl
  have hmetadata : asOptionMetadata crates.f64
      (some (.object [("client", .string "desktop_flutter")])) =
        some (some [⟨"client", "desktop_flutter"⟩]) := rfl
  have hpayload : asOptionValue crates.f64 (payloadValue payload) =
      some ((payloadValue payload).map Value.sortKeys) := by
    have hvalue := @valueOf_plain crates.f64 _ h
    rcases payload with _ | fields
    · rfl
    · rw [payloadValue, Option.map_some, asOptionValue]
      rw [payloadValue, Option.map_some, Option.getD_some] at hvalue
      rw [hvalue]
      rfl
  have htext : broker_client.jsonEncode
        (broker_client.request endpoint moment operation.as_str payload) =
      to_string (broker_client.request endpoint moment operation.as_str payload) := rfl
  rw [from_json_str, htext, parse_to_string, Option.bind_eq_bind, Option.bind_some,
    if_pos ⟨depth_request h.depth, deniesUnknown_request ..⟩, recordFields_request,
    Option.bind_eq_bind, Option.bind_some, requestFields]
  dsimp only
  rw [asOptionString_sessionValue, hop, hmetadata, hpayload]
  rfl

/-! ## The conditions -/

theorem is_tagged_sha256_hex {bytes : Bytes} (h : bytes.length = 32) :
    is_tagged_sha256 ("sha256:" ++ hex.encode bytes) = true := by
  have hencode : utf8.encode ("sha256:" ++ hex.encode bytes) =
      utf8.encode "sha256:" ++ utf8.encode (hex.encode bytes) := utf8.encode_append ..
  have hseven : (utf8.encode "sha256:").length = 7 := by decide
  rw [is_tagged_sha256, Bool.and_eq_true, Bool.and_eq_true, decide_eq_true_eq, hencode,
    List.length_append, hseven, length_hex, h]
  refine ⟨⟨rfl, ?_⟩, ?_⟩
  · rw [String.toList_append, List.isPrefixOf_iff_prefix]
    exact List.prefix_append ..
  · rw [← hseven, List.drop_left, List.all_eq_true]
    exact fun byte hbyte => mem_hex hbyte

/-- The client's hash of a plain payload is the one that the broker expects. -/
theorem payloadHash_plain {sha256 : Bytes → Bytes}
    (hsha2 : ∀ bytes, sha256 bytes = fips.digest bytes)
    {payload : Option (List (String × Value))} (h : Plain payload) :
    broker_client.payloadHash (payloadValue payload) =
      canonical_payload_hash sha256 ((payloadValue payload).map Value.sortKeys) := by
  have hbytes := (clientBytes_eq_brokerBytes_iff (payloadValue payload)).mpr h.ordered
  have hnull : ((payloadValue payload).map Value.sortKeys).getD .null =
      ((payloadValue payload).getD .null).sortKeys := by
    rcases payload with _ | fields <;> rfl
  rw [broker_client.payloadHash, broker_client.sha256Tagged_eq, canonical_payload_hash, hnull,
    ← clientBytes, hbytes, brokerBytes, audit_hash.sha256_tagged, hsha2]

/-- The second of a reading of the clock. -/
def issuedSeconds (value : broker_client.DateTime) : Int :=
  epochDay value.date * 86400 + value.hour * 3600 + value.minute * 60 + value.second

theorem padLeft_eq_pad (value width : Nat) :
    broker_client.padLeft value width = pad width value := by
  have hsign : ¬ (value : Int) < 0 := by omega
  unfold broker_client.padLeft pad
  dsimp only
  rw [if_neg hsign, List.length_nil, Nat.sub_zero, Int.natAbs_natCast, List.nil_append]

/-- The broker reads the second that the client wrote. -/
theorem parse_rfc3339Seconds {value : broker_client.DateTime} (h : value.date.year ≤ 9999) :
    parse_issued_at_epoch_seconds (broker_client.rfc3339Seconds value) =
      some (issuedSeconds value) := by
  obtain ⟨d, hour, minute, second, hhour, hminute, hsecond⟩ := value
  dsimp only at h
  have hrest : hour * 3600 + minute * 60 + second < 86400 := by omega
  have hday : (issuedSeconds ⟨d, hour, minute, second, hhour, hminute, hsecond⟩) / 86400 =
      epochDay d := by
    unfold issuedSeconds
    dsimp only
    omega
  have hformat : broker_client.rfc3339Seconds ⟨d, hour, minute, second, hhour, hminute, hsecond⟩ =
      epoch_seconds_to_rfc3339
        (issuedSeconds ⟨d, hour, minute, second, hhour, hminute, hsecond⟩) := by
    have hmod : (issuedSeconds ⟨d, hour, minute, second, hhour, hminute, hsecond⟩) % 86400 =
        ((hour * 3600 + minute * 60 + second : Nat) : Int) := by
      unfold issuedSeconds
      dsimp only
      omega
    unfold epoch_seconds_to_rfc3339
    dsimp only
    have hhours : ((hour * 3600 + minute * 60 + second : Nat) : Int).tdiv 3600 = hour := by
      rw [Int.tdiv_eq_ediv_of_nonneg (by omega)]
      omega
    have hminutes :
        (((hour * 3600 + minute * 60 + second : Nat) : Int).tmod 3600).tdiv 60 = minute := by
      rw [Int.tmod_eq_emod_of_nonneg (by omega), Int.tdiv_eq_ediv_of_nonneg (by omega)]
      omega
    have hseconds : ((hour * 3600 + minute * 60 + second : Nat) : Int).tmod 60 = second := by
      rw [Int.tmod_eq_emod_of_nonneg (by omega)]
      omega
    rw [hday, hmod, civil_from_days_eq, hhours, hminutes, hseconds]
    dsimp only [broker_client.rfc3339Seconds]
    simp only [padLeft_eq_pad]
  rw [hformat]
  exact parse_format h hday

/-- What the broker asks of a plain request of the client: that its store is ready, that the
session is its own unless it is asked for its health, that the clocks are near, and that the nonce
is new. -/
structure Welcome (broker : Broker crates) (endpoint : broker_client.BrokerEndpoint)
    (moment : broker_client.Moment) (operation : BrokerOperation) (clock : I64) : Prop where
  ready : broker.state_store.persistence_required = true →
    broker.state_store.persistence_ready = true
  session : operation = .Health ∨ endpoint.sessionId = broker.session_id
  near : (issuedSeconds moment.issued - (broker.current_epoch_seconds clock).val).natAbs ≤
    REQUEST_FRESHNESS_WINDOW_SECONDS
  unseen : broker.seen_nonces.contains_key (broker_client.nonce moment) = false

theorem ne_empty_of_append {s t : String} (h : s ≠ "") : s ++ t ≠ "" := by
  intro hempty
  exact h (String.append_eq_empty_iff.mp hempty).1

/-- The gates let a plain request of the client through exactly when it is welcome. -/
theorem gate_clientEnvelope_iff (hsha2 : ∀ bytes, crates.sha256 bytes = fips.digest bytes)
    {broker : Broker crates} {endpoint : broker_client.BrokerEndpoint}
    {moment : broker_client.Moment} (hyear : moment.issued.date.year ≤ 9999)
    {operation : BrokerOperation} {payload : Option (List (String × Value))} (h : Plain payload)
    {clock : I64} :
    broker.gate (clientEnvelope endpoint moment operation payload) clock = .pass ↔
      Welcome broker endpoint moment operation clock := by
  have hfresh : issued_at_is_fresh (broker_client.rfc3339Seconds moment.issued)
      (broker.current_epoch_seconds clock) = true ↔
        (issuedSeconds moment.issued - (broker.current_epoch_seconds clock).val).natAbs ≤
          REQUEST_FRESHNESS_WINDOW_SECONDS := by
    unfold issued_at_is_fresh
    simp only [parse_rfc3339Seconds hyear]
    generalize (issuedSeconds moment.issued - (broker.current_epoch_seconds clock).val).natAbs = n
    exact decide_eq_true_iff
  rw [gate_eq_pass_iff]
  constructor
  · intro hadmits
    refine ⟨fun hrequired => ?_, ?_, hfresh.mp hadmits.fresh, hadmits.unseen⟩
    · by_contra hready
      exact hadmits.ready ⟨hrequired, Bool.eq_false_iff.mpr hready⟩
    · by_cases hop : operation = .Health
      · exact .inl hop
      · rcases hadmits.session with hhealth | hsession
        · exact absurd (Option.some.inj hhealth) hop
        · rw [clientEnvelope, if_neg hop] at hsession
          exact .inr (Option.some.inj hsession)
  · intro hwelcome
    have htagged : is_tagged_sha256 (broker_client.payloadHash (payloadValue payload)) = true := by
      rw [broker_client.payloadHash, broker_client.sha256Tagged_eq]
      exact is_tagged_sha256_hex (fips.digest_length _)
    refine ⟨⟨_, rfl, ne_empty_of_append (by decide)⟩, ⟨operation, rfl⟩, ⟨_, rfl, ?_⟩,
      ⟨_, rfl, ?_⟩, ⟨_, rfl, ?_⟩, rfl, htagged, payloadHash_plain hsha2 h, hfresh.mpr hwelcome.near,
      ?_, ?_, hwelcome.unseen⟩
    · rw [broker_client.payloadHash, broker_client.sha256Tagged_eq]
      exact ne_empty_of_append (by decide)
    · intro hempty
      have hparse := parse_rfc3339Seconds hyear
      have hnone : parse_issued_at_epoch_seconds "" = none := by decide
      rw [hempty, hnone] at hparse
      cases hparse
    · exact ne_empty_of_append (ne_empty_of_append (ne_empty_of_append (by decide)))
    · rintro ⟨hrequired, hnot⟩
      rw [hwelcome.ready hrequired] at hnot
      cases hnot
    · rcases hwelcome.session with rfl | hsession
      · exact .inl rfl
      · by_cases hop : operation = .Health
        · exact .inl (congrArg some hop)
        · rw [clientEnvelope, if_neg hop, hsession]
          exact .inr rfl

/-- The metadata of the client claims no authority. -/
theorem client_metadata (h : NormalizesAscii crates) :
    metadata_attempts_authority crates [⟨"client", "desktop_flutter"⟩] = false := by
  have hkey : crates.nfkc "client" = "client" := h.ascii "client".toList (by simp)
  have hvalue : crates.nfkc "desktop_flutter" = "desktop_flutter" :=
    h.ascii "desktop_flutter".toList (by simp)
  simp only [metadata_attempts_authority, List.any_cons, List.any_nil, normalize_authority_token,
    hkey, hvalue]
  decide +kernel

def clientCall (endpoint : broker_client.BrokerEndpoint) (moment : broker_client.Moment)
    (operation : BrokerOperation) (payload : Option (List (String × Value))) : Call :=
  .handle_json (broker_client.jsonEncode
    (broker_client.request endpoint moment operation.as_str payload))

/-- A request of the client, as it comes over the line, reaches its operation exactly when it is
welcome and its nonce can be recorded. If not, it is refused. -/
theorem client_request_dispatches_iff (hsha2 : ∀ bytes, crates.sha256 bytes = fips.digest bytes)
    (hnfkc : NormalizesAscii crates) {endpoint : broker_client.BrokerEndpoint}
    {moment : broker_client.Moment} (hyear : moment.issued.date.year ≤ 9999)
    {payload : Option (List (String × Value))} (h : Plain payload) (w : World crates)
    (outside : Outside) (operation : BrokerOperation) :
    (w.ReachesDispatch outside (clientCall endpoint moment operation payload)
        (clientEnvelope endpoint moment operation payload) ↔
      Welcome w.broker endpoint moment operation outside.gate_clock ∧
        w.CanRecord outside (broker_client.nonce moment)) ∧
    (¬ w.ReachesDispatch outside (clientCall endpoint moment operation payload)
        (clientEnvelope endpoint moment operation payload) →
      World.Refuses (w.call outside (clientCall endpoint moment operation payload)).1) := by
  have hread := @from_json_str_request crates endpoint moment operation _ h
  have hgate := @gate_clientEnvelope_iff _ hsha2 w.broker endpoint _ hyear operation _ h
    outside.gate_clock
  have hclaims : World.claimsAuthority crates (clientEnvelope endpoint moment operation payload) =
      false := client_metadata hnfkc
  have hnonce : (clientEnvelope endpoint moment operation payload).nonceText =
      broker_client.nonce moment := rfl
  rw [← hnonce]
  have hcall : (clientCall endpoint moment operation payload).envelope crates =
      some (clientEnvelope endpoint moment operation payload) := hread
  generalize clientCall endpoint moment operation payload = call at hcall ⊢
  generalize clientEnvelope endpoint moment operation payload = envelope at hgate hclaims hcall ⊢
  refine ⟨World.reachesDispatch_iff.trans ⟨?_, ?_⟩, fun hnot => ?_⟩
  · rintro ⟨hadmitted, _, hrecords⟩
    exact ⟨hgate.mp (World.envelope_of_admitted hadmitted).2, World.records_iff.mp hrecords⟩
  · rintro ⟨hwelcome, hrecord⟩
    refine ⟨?_, hclaims, World.records_iff.mpr hrecord⟩
    exact Option.filter_eq_some_iff.mpr ⟨hcall, decide_eq_true (hgate.mpr hwelcome)⟩
  · refine (World.refuses_of_not_reachesDispatch fun envelope' hreaches => ?_).1
    obtain ⟨hadmitted, _⟩ := World.reachesDispatch_iff.mp hreaches
    obtain rfl := Option.some.inj (hcall.symm.trans (World.envelope_of_admitted hadmitted).1)
    exact hnot hreaches

theorem plain_none : Plain none where
  numbers n hn := by cases hn
  ordered keys hk := by cases hk
  depth := by decide

theorem issuedSeconds_newYear : issuedSeconds newYearMoment.issued = newYear.val := by
  have hyear := calendar.daysBeforeYear_eq 2026
  have hday : epochDay newYearMoment.issued.date = 20454 := by
    unfold epochDay calendar.Date.number
    dsimp only [newYearMoment]
    rw [epoch_eq, calendar.daysBeforeMonth]
    omega
  rw [issuedSeconds, hday]
  rfl

/-- A request of the new year is near to a reading of the clock in the new year. -/
theorem near_newYear : (issuedSeconds newYearMoment.issued - newYear.val).natAbs ≤
    REQUEST_FRESHNESS_WINDOW_SECONDS := by
  rw [issuedSeconds_newYear, Int.sub_self]
  exact Nat.zero_le _

theorem health_dispatches : memoryWorld.ReachesDispatch calm
    (clientCall (clientEndpoint zeroServer) newYearMoment .Health none)
    (clientEnvelope (clientEndpoint zeroServer) newYearMoment .Health none) :=
  (client_request_dispatches_iff (fun _ => rfl) normalizesAscii_ascii (by decide) plain_none
    memoryWorld calm .Health).1.mpr ⟨⟨by decide, .inl rfl, near_newYear, rfl⟩, trivial⟩

end remote_call
