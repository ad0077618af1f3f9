import Watchlist.Dispatch.Acknowledgements
import Watchlist.Mqtt.Outbound
import Watchlist.Mqtt.TopicFilters

/-!
Where acknowledgements go. The dispatcher hands its publisher the client that the
payload names, on every path and only when the id is valid; a valid id is one
level of a topic, so the acknowledgement topics of two clients and the topic of
the requests match each other only where they are the same.
-/

namespace Watchlist.Dispatch

open Bytes Transition Messaging Mqtt

/-- `AckTopicForClient` -/
def ackTopicForClient (clientId : Bytes) : Bytes := ascii "watchlist/acks/" ++ clientId

/-- The text of the payload's `source_client_id`, as the parser finds it. -/
def sourceClientOf (parse : Bytes → Document) (payload : Bytes) : Option Bytes :=
  match parse payload with
  | .object member => jsonStringValue member (ascii "source_client_id")
  | _ => none

/-! ### Topics -/

theorem isValidClientId_iff {clientId : Bytes} :
    isValidClientId clientId = true ↔ clientId ≠ [] ∧ clientId.length ≤ 128 ∧
      ∀ c ∈ clientId, (isAlnum c || c == 45 || c == 95 || c == 46) = true := by
  unfold isValidClientId
  split
  · rename_i h
    simp only [Bool.or_eq_true, List.isEmpty_iff, decide_eq_true_eq] at h
    refine iff_of_false Bool.false_ne_true ?_
    rintro ⟨hne, hlength, -⟩
    rcases h with h | h
    · exact hne h
    · omega
  · rename_i h
    simp only [Bool.or_eq_true, List.isEmpty_iff, decide_eq_true_eq, not_or, not_lt] at h
    rw [List.all_eq_true]
    exact ⟨fun hall => ⟨h.1, h.2, hall⟩, fun hvalid => hvalid.2.2⟩

/-- A separator and the wildcards are outside the alphabet. -/
theorem not_mem_of_isValidClientId {clientId : Bytes} (h : isValidClientId clientId = true) :
    47 ∉ clientId ∧ 35 ∉ clientId ∧ 43 ∉ clientId := by
  have hall := (isValidClientId_iff.mp h).2.2
  refine ⟨fun hc => ?_, fun hc => ?_, fun hc => ?_⟩
  · exact absurd (hall 47 hc) (by decide)
  · exact absurd (hall 35 hc) (by decide)
  · exact absurd (hall 43 hc) (by decide)

theorem levels_append {level : Bytes} (h : 47 ∉ level) (rest : Bytes) :
    levels (level ++ 47 :: rest) = level :: levels rest :=
  List.splitOn_append_cons_self_of_not_mem h rest

theorem levels_of_not_mem {level : Bytes} (h : 47 ∉ level) : levels level = [level] :=
  List.splitOn_eq_singleton h

theorem levels_requestsTopic : levels requestsTopic = [ascii "watchlist", ascii "requests"] := by
  decide

/-- A valid id is the third and last level of its topic. -/
theorem levels_ackTopicForClient {clientId : Bytes} (h : isValidClientId clientId = true) :
    levels (ackTopicForClient clientId) = [ascii "watchlist", ascii "acks", clientId] := by
  have htext : ackTopicForClient clientId =
      ascii "watchlist" ++ 47 :: (ascii "acks" ++ 47 :: clientId) := rfl
  rw [htext, levels_append (by decide), levels_append (by decide),
    levels_of_not_mem (not_mem_of_isValidClientId h).1]

theorem validLevels_ackTopicForClient {clientId : Bytes} (h : isValidClientId clientId = true) :
    ValidLevels (levels (ackTopicForClient clientId)) := by
  obtain ⟨-, hmulti, hsingle⟩ := not_mem_of_isValidClientId h
  rw [levels_ackTopicForClient h]
  have hfirst : 35 ∉ ascii "watchlist" ∧ 43 ∉ ascii "watchlist" := by decide
  have hsecond : 35 ∉ ascii "acks" ∧ 43 ∉ ascii "acks" := by decide
  refine ⟨?_, ?_, ?_, ?_, ?_, ?_, trivial⟩
  · exact fun hmem => absurd hmem hfirst.1
  · exact fun hmem => absurd hmem hfirst.2
  · exact fun hmem => absurd hmem hsecond.1
  · exact fun hmem => absurd hmem hsecond.2
  · exact fun hmem => absurd hmem hmulti
  · exact fun hmem => absurd hmem hsingle

/-- No wildcard stands in an acknowledgement topic. -/
theorem validTopicName_ackTopicForClient {clientId : Bytes}
    (h : isValidClientId clientId = true) : ValidTopicName (ackTopicForClient clientId) := by
  obtain ⟨-, hmulti, hsingle⟩ := not_mem_of_isValidClientId h
  refine ⟨List.append_ne_nil_of_left_ne_nil (by decide) _, fun hmem => ?_, fun hmem => ?_⟩
  · rcases List.mem_append.mp hmem with hmem | hmem
    · exact absurd hmem (by decide)
    · exact hmulti hmem
  · rcases List.mem_append.mp hmem with hmem | hmem
    · exact absurd hmem (by decide)
    · exact hsingle hmem

theorem topicMatches_ackTopicForClient {a b : Bytes} (ha : isValidClientId a = true)
    (hb : isValidClientId b = true) :
    topicMatches (ackTopicForClient a) (ackTopicForClient b) = true ↔ a = b := by
  have hmulti : a ≠ ascii "#" := by
    rintro rfl
    exact absurd ha (by decide)
  have hsingle : a ≠ ascii "+" := by
    rintro rfl
    exact absurd ha (by decide)
  have hparent : ¬ParentOf [ascii "watchlist", ascii "acks", a]
      [ascii "watchlist", ascii "acks", b] := by
    rintro ⟨hlast, -⟩
    exact hmulti (Option.some.inj hlast)
  rw [topicMatches_iff (validLevels_ackTopicForClient ha), levels_ackTopicForClient ha,
    levels_ackTopicForClient hb, and_iff_left hparent, matches_cons (by decide),
    matches_cons (by decide), matches_cons hmulti]
  constructor
  · rintro ⟨-, -, heq, -⟩
    exact heq.resolve_left hsingle
  · rintro rfl
    exact ⟨.inr rfl, .inr rfl, .inr rfl, .ended⟩

/-- The acknowledgements of a client and the requests keep apart. -/
theorem topicMatches_requestsTopic {a : Bytes} (ha : isValidClientId a = true) :
    topicMatches (ackTopicForClient a) requestsTopic = false ∧
      topicMatches requestsTopic (ackTopicForClient a) = false := by
  have hrequests : ValidLevels (levels requestsTopic) := by
    rw [levels_requestsTopic]
    exact ⟨by decide, by decide, by decide, by decide, trivial⟩
  constructor
  · apply Bool.eq_false_of_not_eq_true
    rw [topicMatches_iff (validLevels_ackTopicForClient ha), levels_ackTopicForClient ha,
      levels_requestsTopic, matches_cons (by decide), matches_cons (by decide)]
    rintro ⟨⟨-, hlevel, -⟩, -⟩
    exact absurd hlevel (by decide)
  · apply Bool.eq_false_of_not_eq_true
    rw [topicMatches_iff hrequests, levels_ackTopicForClient ha, levels_requestsTopic,
      matches_cons (by decide), matches_cons (by decide)]
    rintro ⟨⟨-, hlevel, -⟩, -⟩
    exact absurd hlevel (by decide)

/-! ### Routes -/

namespace RequestDispatcher

variable {n k : ℕ} {parse : Bytes → Document} {payloads : Fin k → Bytes}

/-- A publication for a payload goes to the client that its result names. -/
theorem Progress.route {p : ParseResult} {call : CallPc} {job : JobPc}
    {acks : List (Bool × MqttAck)} {published : List (MqttRequest × MqttAck)}
    (h : Progress p call job acks published) :
    ∀ x ∈ published, x.1.sourceClientId = p.sourceClientId ∧
      isValidClientId p.sourceClientId = true := by
  have hone : ∀ {route : MqttRequest} {ack : MqttAck}, Routed p route ack →
      ∀ x ∈ publications p route ack, x.1.sourceClientId = p.sourceClientId ∧
        isValidClientId p.sourceClientId = true := by
    intro route ack hrouted x hx
    unfold publications at hx
    split at hx
    · rename_i hvalid
      obtain rfl := List.mem_singleton.mp hx
      exact ⟨hrouted.source, hvalid⟩
    · cases hx
  cases h with
  | rejected hrouted => exact hone hrouted
  | answered hrouted => exact hone hrouted
  | notCalled | preparing | recording | publishing | queued | executing | upserting
  | jobRecording | jobPublishing | failed => exact fun x hx => absurd hx List.not_mem_nil

theorem sourceClientId_parseRequest (payload : Bytes) :
    (parseRequest parse payload).sourceClientId = (sourceClientOf parse payload).getD [] := by
  unfold parseRequest sourceClientOf
  cases parse payload with
  | discarded => rfl
  | notObject => rfl
  | object member =>
      simp only
      cases parseEnvelope member with
      | error error => rfl
      | ok request => rfl

/-- A result names the payload's client, or none that is valid. -/
theorem sourceClientOf_eq {payload : Bytes}
    (h : isValidClientId (parseRequest parse payload).sourceClientId = true) :
    sourceClientOf parse payload = some (parseRequest parse payload).sourceClientId := by
  rw [sourceClientId_parseRequest] at h ⊢
  cases hclient : sourceClientOf parse payload with
  | none =>
      rw [hclient] at h
      exact absurd h (by decide)
  | some client => rfl

/-- What a strict parser finds is a member of the payload. -/
theorem mem_of_sourceClientOf (hparse : StrictParser parse) {payload client : Bytes}
    (h : sourceClientOf parse payload = some client) :
    ∃ members v, Json.decode payload = some (.object members) ∧
      (ascii "source_client_id", v) ∈ members ∧ v.text? = some client := by
  unfold sourceClientOf at h
  cases hdecode : Json.decode payload with
  | none =>
      rw [hparse.discarded payload hdecode] at h
      cases h
  | some v =>
      by_cases hobject : ∃ members, v = .object members
      · obtain ⟨members, rfl⟩ := hobject
        obtain ⟨member, hmember, -, htext⟩ := hparse.object payload members hdecode
        rw [hmember] at h
        obtain ⟨v, hv, hx⟩ := htext _ _ (Option.join_eq_some_iff.mp h)
        exact ⟨members, v, rfl, hv, hx.symm⟩
      · rw [hparse.notObject payload v hdecode (fun members hv => hobject ⟨members, hv⟩)] at h
        cases h

theorem published_route {ls : List (Label n k)} {d : RequestDispatcher n k}
    (hrun : (machine n k parse payloads).exec (initial n k) ls = some d) :
    ∀ p ∈ d.published, isValidClientId p.route.sourceClientId = true ∧
      sourceClientOf parse (payloads p.call) = some p.route.sourceClientId := by
  intro p hp
  have hmem : (p.route, p.ack) ∈ d.publishedOf p.call :=
    List.mem_map.mpr ⟨p, List.mem_filter.mpr ⟨hp, by simp⟩, rfl⟩
  obtain ⟨hsource, hvalid⟩ := ((tracked_of_exec hrun).progress p.call).route _ hmem
  rw [hsource]
  exact ⟨hvalid, sourceClientOf_eq hvalid⟩

/-- Every acknowledgement that is published, in any run, goes to the topic of the client
that its payload names, and only a subscription to that topic takes it. -/
theorem acks_reach_their_client (hparse : StrictParser parse) {ls : List (Label n k)}
    {d : RequestDispatcher n k}
    (hrun : (machine n k parse payloads).exec (initial n k) ls = some d) :
    (∀ p ∈ d.published,
      (sourceClientOf parse (payloads p.call) = some p.route.sourceClientId ∧
        ∃ members v, Json.decode (payloads p.call) = some (.object members) ∧
          (ascii "source_client_id", v) ∈ members ∧ v.text? = some p.route.sourceClientId) ∧
      isValidClientId p.route.sourceClientId = true ∧
      ValidTopicName (ackTopicForClient p.route.sourceClientId) ∧
      (levels (ackTopicForClient p.route.sourceClientId)).length = 3 ∧
      ackTopicForClient p.route.sourceClientId ≠ requestsTopic ∧
      ∀ client, isValidClientId client = true →
        (topicMatches (ackTopicForClient client) (ackTopicForClient p.route.sourceClientId) = true ↔
          sourceClientOf parse (payloads p.call) = some client)) ∧
    (∀ a b, isValidClientId a = true → isValidClientId b = true →
      (topicMatches (ackTopicForClient a) (ackTopicForClient b) = true ↔ a = b)) ∧
    ∀ a, isValidClientId a = true →
      topicMatches (ackTopicForClient a) requestsTopic = false ∧
        topicMatches requestsTopic (ackTopicForClient a) = false := by
  refine ⟨fun p hp => ?_, fun a b => topicMatches_ackTopicForClient,
    fun a => topicMatches_requestsTopic⟩
  obtain ⟨hvalid, hsource⟩ := published_route hrun p hp
  refine ⟨⟨hsource, mem_of_sourceClientOf hparse hsource⟩, hvalid,
    validTopicName_ackTopicForClient hvalid, ?_, ?_, fun client hclient => ?_⟩
  · rw [levels_ackTopicForClient hvalid]
    rfl
  · intro hrequests
    have hlevels := congrArg levels hrequests
    rw [levels_ackTopicForClient hvalid, levels_requestsTopic] at hlevels
    simp at hlevels
  · rw [topicMatches_ackTopicForClient hclient hvalid, hsource]
    exact ⟨fun h => h ▸ rfl, fun h => (Option.some.inj h).symm⟩

/-- A payload that is refused, from a client with a valid id. -/
def refusedPayload (_ : Fin 1) : Bytes := ascii "\x7b\"source_client_id\":\"a\"\x7d"

theorem acks_reach_their_client_refused :
    ∃ d, (machine 1 1 lastMemberParser refusedPayload).exec (initial 1 1)
        [.advance 0 [], .advance 0 [], .advance 0 []] = some d ∧ d.published.length = 1 ∧
      ∀ p ∈ d.published,
        sourceClientOf lastMemberParser (refusedPayload p.call) = some p.route.sourceClientId := by
  have hlength : ((machine 1 1 lastMemberParser refusedPayload).exec (initial 1 1)
      [.advance 0 [], .advance 0 [], .advance 0 []]).map (fun d => d.published.length) =
        some 1 := by decide +kernel
  obtain ⟨d, hrun, hlength⟩ := Option.map_eq_some_iff.mp hlength
  refine ⟨d, hrun, hlength, fun p hp => ?_⟩
  exact ((acks_reach_their_client strictParser_lastMemberParser hrun).1 p hp).1.1

end RequestDispatcher

end Watchlist.Dispatch
