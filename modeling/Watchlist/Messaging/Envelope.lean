import Watchlist.Messaging.RoundTrip

/-!
Which texts hold a request. The first part is about the texts that
`SerializeRequest` writes, for any bytes in the fields; the second about every
text, with the envelope spelled out as the members of an object.
-/

namespace Watchlist.Messaging

open Bytes

/-! ### Serialized requests -/

/-- A text that decodes has the members it was written from, whatever bytes they hold. -/
theorem object_of_decode_objectText {fields : List (Bytes × Bytes)} {v : Json.Value}
    (hne : fields ≠ []) (hnames : ∀ g ∈ fields, Plain g.1)
    (h : Json.decode (objectText fields) = some v) :
    v = .object (fields.map fun g => (g.1, .string g.2)) := by
  obtain ⟨f, rest, rfl⟩ := List.exists_cons_of_ne_nil hne
  rw [Json.decode] at h
  split at h
  · rw [tokens_objectText hnames] at h
    by_cases hfields : AllEmittable (f :: rest)
    · rw [if_pos hfields, Option.bind_some, run_objectTokens] at h
      exact (Option.some.inj h).symm
    · rw [if_neg hfields] at h
      cases h
  · cases h

theorem object_of_decode_serializeRequest {r : MqttRequest} {v : Json.Value}
    (h : Json.decode (serializeRequest r) = some v) :
    v = .object ((present (envelope r)).map fun f => (f.1, .string f.2)) := by
  rw [serializeRequest_eq] at h
  refine object_of_decode_objectText (by simp [present, envelope]) ?_ h
  intro f hf
  refine (plain_envelopeFields f.1 ?_).1
  rw [← names_envelope r]
  exact List.mem_map_of_mem (mem_present.mp hf)

/-- What is read out of the members of a request is that request, if it is accepted. -/
theorem eq_of_readsEnvelope {member : Bytes → Option (Option Bytes)} {r r' : MqttRequest}
    (h : ReadsEnvelope member r) (hparse : parseEnvelope member = .ok r') : r' = r := by
  have htype : jsonStringValue member (ascii "type") = some (toString r.type) :=
    jsonStringValue_of_readsEnvelope h (by simp [envelope])
  simp only [parseEnvelope, nonStringEnvelopeField_of_readsEnvelope h, htype,
    messageTypeFromString_toString, requestOf_of_readsEnvelope h] at hparse
  cases hmissing : missingRequiredField r with
  | some error => simp only [hmissing, reduceCtorEq] at hparse
  | none =>
      rw [hmissing] at hparse
      exact (Except.ok.inj hparse).symm

/-- No bytes in the fields make a serialized request read as another request, and a
text that is JSON at all has just the members that were written. -/
theorem serialized_request_unambiguous {parse : Bytes → Document} (hparse : StrictParser parse)
    (r : MqttRequest) :
    (∀ r', (parseRequest parse (serializeRequest r)).request = some r' → r' = r) ∧
    ∀ v, Json.decode (serializeRequest r) = some v →
      v = .object ((present (envelope r)).map fun f => (f.1, .string f.2)) := by
  refine ⟨?_, fun v => object_of_decode_serializeRequest⟩
  intro r' hr'
  cases hdecode : Json.decode (serializeRequest r) with
  | none =>
      rw [parseRequest, hparse.discarded _ hdecode] at hr'
      cases hr'
  | some v =>
      obtain rfl := object_of_decode_serializeRequest hdecode
      obtain ⟨member, hobject, hreads⟩ := readsEnvelope_of_strictParser hparse hdecode
      simp only [parseRequest, hobject] at hr'
      cases henvelope : parseEnvelope member with
      | error error => simp only [henvelope, reduceCtorEq] at hr'
      | ok request =>
          rw [henvelope] at hr'
          obtain rfl := Option.some.inj hr'
          exact eq_of_readsEnvelope hreads henvelope

theorem serialized_request_unambiguous_quote :
    ∃ r', (parseRequest lastMemberParser
      (serializeRequest (storeRequest (ascii "\",\"type\":\"execute_script")))).request = some r' ∧
        r' = storeRequest (ascii "\",\"type\":\"execute_script") := by
  have hparsed : (parseRequest lastMemberParser
      (serializeRequest (storeRequest (ascii "\",\"type\":\"execute_script")))).request =
        some (storeRequest (ascii "\",\"type\":\"execute_script")) := by
    rw [parseRequest_of_emittable strictParser_lastMemberParser]
    all_goals decide
  exact ⟨_, hparsed,
    (serialized_request_unambiguous strictParser_lastMemberParser _).1 _ hparsed⟩

/-! ### The envelope -/

/-- A letter or digit of ASCII, or one of the three punctuation characters. -/
def ClientIdChar (c : UInt8) : Prop :=
  (48 ≤ c ∧ c ≤ 57) ∨ (65 ≤ c ∧ c ≤ 90) ∨ (97 ≤ c ∧ c ≤ 122) ∨ c = 45 ∨ c = 95 ∨ c = 46

def ClientId (s : Bytes) : Prop := 1 ≤ s.length ∧ s.length ≤ 128 ∧ ∀ c ∈ s, ClientIdChar c

/-- The members that a request of a type needs. -/
def requiredFields : MessageType → List Bytes
  | .executeScript => [ascii "script_name"]
  | .sendToDevice => [ascii "device_id", ascii "payload"]
  | .cmdToDevice => [ascii "device_id", ascii "command"]
  | .storeDatabaseValue => [ascii "key", ascii "value"]
  | .queryAiPrompt => [ascii "prompt"]

/-- The members of an object are those of a request envelope. -/
structure IsEnvelope (member : Bytes → Option (Option Bytes)) : Prop where
  /-- a member of the envelope that is there is a string -/
  strings : ∀ name ∈ envelopeFields, member name ≠ some none
  /-- the type is known, and what it needs is there -/
  type : ∃ type, member (ascii "type") = some (some (toString type)) ∧
    ∀ name ∈ requiredFields type, member name ≠ none
  id : ∃ id, member (ascii "id") = some (some id) ∧ id ≠ []
  createdUtc : ∃ t, member (ascii "created_utc") = some (some t) ∧ t ≠ []
  sourceClientId : ∃ s, member (ascii "source_client_id") = some (some s) ∧ ClientId s

/-- The text of a member that is a string, and nothing for one that is not. -/
def Recovers (member : Bytes → Option (Option Bytes)) (name s : Bytes) : Prop :=
  member name = some (some s) ∨ (∀ t, member name ≠ some (some t)) ∧ s = []

theorem isValidClientId_iff {s : Bytes} : isValidClientId s = true ↔ ClientId s := by
  have hchar : ∀ c : UInt8, (isAlnum c || c == 45 || c == 95 || c == 46) = true ↔
      ClientIdChar c := by
    intro c
    simp only [isAlnum, isDigit, isUpper, isLower, ClientIdChar, Bool.or_eq_true, Bool.and_eq_true,
      decide_eq_true_eq, beq_iff_eq]
    tauto
  unfold isValidClientId ClientId
  split
  · rename_i hlength
    refine iff_of_false Bool.false_ne_true ?_
    rintro ⟨hpos, hle, -⟩
    simp only [Bool.or_eq_true, List.isEmpty_iff, decide_eq_true_eq] at hlength
    rcases hlength with rfl | hlong
    · simp at hpos
    · omega
  · rename_i hlength
    simp only [Bool.or_eq_true, List.isEmpty_iff, decide_eq_true_eq, not_or, not_lt] at hlength
    have hpos : 1 ≤ s.length := List.length_pos_iff.mpr hlength.1
    simp only [List.all_eq_true, hchar, hpos, hlength.2, true_and]

theorem messageTypeFromString_eq_some {s : Bytes} {type : MessageType} :
    messageTypeFromString s = some type ↔ s = toString type := by
  constructor
  · intro h
    unfold messageTypeFromString at h
    split_ifs at h with h₁ h₂ h₃ h₄ h₅ <;> obtain rfl := Option.some.inj h <;> assumption
  · rintro rfl
    exact messageTypeFromString_toString type

theorem nonStringEnvelopeField_eq_none {member : Bytes → Option (Option Bytes)} :
    nonStringEnvelopeField member = none ↔ ∀ name ∈ envelopeFields, member name ≠ some none := by
  simp only [nonStringEnvelopeField, Option.map_eq_none_iff, List.find?_eq_none,
    decide_eq_true_eq]

/-- What the type of a request needs is there. -/
def MqttRequest.Complete (request : MqttRequest) : Prop :=
  match request.type with
  | .executeScript => request.scriptName ≠ none
  | .sendToDevice => request.deviceId ≠ none ∧ request.payload ≠ none
  | .cmdToDevice => request.deviceId ≠ none ∧ request.command ≠ none
  | .storeDatabaseValue => request.key ≠ none ∧ request.value ≠ none
  | .queryAiPrompt => request.prompt ≠ none

theorem missing_ne_none (field : String) : missing field ≠ none := Option.some_ne_none _

theorem missingRequiredField_eq_none {request : MqttRequest} :
    missingRequiredField request = none ↔
      request.id ≠ [] ∧ request.createdUtc ≠ [] ∧ ClientId request.sourceClientId ∧
        request.Complete := by
  have hsource : ∀ s : Bytes, ClientId s → s ≠ [] := by
    rintro s ⟨hpos, -⟩ rfl
    simp at hpos
  rw [missingRequiredField]
  simp only [List.isEmpty_iff]
  by_cases hid : request.id = []
  · rw [if_pos hid]
    exact iff_of_false (missing_ne_none _) fun hall => hall.1 hid
  by_cases hcreated : request.createdUtc = []
  · rw [if_neg hid, if_pos hcreated]
    exact iff_of_false (missing_ne_none _) fun hall => hall.2.1 hcreated
  by_cases hempty : request.sourceClientId = []
  · rw [if_neg hid, if_neg hcreated, if_pos hempty]
    exact iff_of_false (missing_ne_none _) fun hall => hsource _ hall.2.2.1 hempty
  rw [if_neg hid, if_neg hcreated, if_neg hempty, ← isValidClientId_iff]
  by_cases hvalid : isValidClientId request.sourceClientId = true
  swap
  · rw [if_pos (by simpa using hvalid)]
    exact iff_of_false (Option.some_ne_none _) fun hall => hvalid hall.2.2.1
  rw [if_neg (by simpa using hvalid), and_iff_right hid, and_iff_right hcreated,
    and_iff_right hvalid, MqttRequest.Complete]
  -- one or two members remain, by type
  cases request.type with
  | executeScript | queryAiPrompt =>
      simp only [Option.isNone_iff_eq_none, missing]
      split_ifs with h <;> simp [h]
  | sendToDevice | cmdToDevice | storeDatabaseValue =>
      simp only [Option.isNone_iff_eq_none, missing]
      split_ifs <;> simp [*]

theorem complete_requestOf {member : Bytes → Option (Option Bytes)} {type : MessageType} :
    (requestOf member type).Complete ↔
      ∀ name ∈ requiredFields type, jsonStringValue member name ≠ none := by
  cases type with
  | executeScript | queryAiPrompt =>
      simp only [requiredFields, List.forall_mem_singleton]
      rfl
  | sendToDevice | cmdToDevice | storeDatabaseValue =>
      simp only [requiredFields, List.forall_mem_cons, List.not_mem_nil, false_implies,
        implies_true, and_true]
      rfl

theorem parseEnvelope_eq_ok {member : Bytes → Option (Option Bytes)} {request : MqttRequest} :
    parseEnvelope member = .ok request ↔
      nonStringEnvelopeField member = none ∧ ∃ type,
        jsonStringValue member (ascii "type") = some (toString type) ∧
        missingRequiredField (requestOf member type) = none ∧ request = requestOf member type := by
  constructor
  · intro h
    unfold parseEnvelope at h
    cases hfield : nonStringEnvelopeField member with
    | some error => simp only [hfield, reduceCtorEq] at h
    | none =>
        refine ⟨rfl, ?_⟩
        cases htype : jsonStringValue member (ascii "type") with
        | none => simp only [hfield, htype, reduceCtorEq] at h
        | some typeValue =>
            cases hknown : messageTypeFromString typeValue with
            | none => simp only [hfield, htype, hknown, reduceCtorEq] at h
            | some type =>
                cases hmissing : missingRequiredField (requestOf member type) with
                | some error => simp only [hfield, htype, hknown, hmissing, reduceCtorEq] at h
                | none =>
                    simp only [hfield, htype, hknown, hmissing] at h
                    exact ⟨type, congrArg some (messageTypeFromString_eq_some.mp hknown), hmissing,
                      (Except.ok.inj h).symm⟩
  · rintro ⟨hfield, type, htype, hmissing, rfl⟩
    simp only [parseEnvelope, hfield, htype, messageTypeFromString_toString, hmissing]

/-! ### Members by name -/

section
variable {member : Bytes → Option (Option Bytes)} {name s : Bytes}

theorem jsonStringValue_eq_some :
    jsonStringValue member name = some s ↔ member name = some (some s) :=
  Option.join_eq_some_iff

/-- A member that is no other value than a string is known by its text. -/
theorem member_eq_of_string (h : member name ≠ some none) :
    member name = (jsonStringValue member name).map some := by
  rw [jsonStringValue]
  cases hmember : member name with
  | none => rfl
  | some x =>
      cases x with
      | none => exact absurd hmember h
      | some t => rfl

theorem recovers_getD : Recovers member name ((jsonStringValue member name).getD []) := by
  cases hvalue : jsonStringValue member name with
  | some t => exact .inl (jsonStringValue_eq_some.mp hvalue)
  | none =>
      refine .inr ⟨fun t ht => ?_, rfl⟩
      rw [jsonStringValue_eq_some.mpr ht] at hvalue
      cases hvalue

theorem exists_of_getD_ne_nil (h : (jsonStringValue member name).getD [] ≠ []) :
    jsonStringValue member name = some ((jsonStringValue member name).getD []) := by
  cases hvalue : jsonStringValue member name with
  | none => exact absurd (by rw [hvalue]; rfl) h
  | some t => rfl

end

theorem requiredFields_subset (type : MessageType) :
    ∀ name ∈ requiredFields type, name ∈ envelopeFields := by
  cases type <;> decide

section
variable {member : Bytes → Option (Option Bytes)} {request : MqttRequest}

/-- An accepted request holds the members of the envelope, absent ones absent. -/
theorem readsEnvelope_of_parseEnvelope (h : parseEnvelope member = .ok request) :
    ReadsEnvelope member request := by
  obtain ⟨hstrings, type, htype, hmissing, rfl⟩ := parseEnvelope_eq_ok.mp h
  rw [nonStringEnvelopeField_eq_none] at hstrings
  obtain ⟨hid, hcreated, ⟨hpos, -⟩, -⟩ := missingRequiredField_eq_none.mp hmissing
  have hsource : (jsonStringValue member (ascii "source_client_id")).getD [] ≠ [] :=
    List.length_pos_iff.mp hpos
  intro m hm
  have hname : m.1 ∈ envelopeFields := by
    rw [← names_envelope (requestOf member type)]
    exact List.mem_map_of_mem hm
  rw [member_eq_of_string (hstrings m.1 hname)]
  -- four members are read with a default, which none of them takes
  suffices hread : ∀ m ∈ envelope (requestOf member type), jsonStringValue member m.1 = m.2 by
    rw [hread m hm]
  simp only [envelope, List.forall_mem_cons]
  exact ⟨exists_of_getD_ne_nil hid, htype, exists_of_getD_ne_nil hcreated,
    exists_of_getD_ne_nil hsource, rfl, rfl, rfl, rfl, rfl, rfl, rfl, by simp⟩

theorem isEnvelope_of_parseEnvelope (h : parseEnvelope member = .ok request) :
    IsEnvelope member := by
  obtain ⟨hstrings, type, htype, hmissing, rfl⟩ := parseEnvelope_eq_ok.mp h
  obtain ⟨hid, hcreated, hsource, hcomplete⟩ := missingRequiredField_eq_none.mp hmissing
  have hsource' : (jsonStringValue member (ascii "source_client_id")).getD [] ≠ [] :=
    List.length_pos_iff.mp hsource.1
  refine ⟨nonStringEnvelopeField_eq_none.mp hstrings,
    ⟨type, jsonStringValue_eq_some.mp htype, fun name hname habsent => ?_⟩,
    ⟨_, jsonStringValue_eq_some.mp (exists_of_getD_ne_nil hid), hid⟩,
    ⟨_, jsonStringValue_eq_some.mp (exists_of_getD_ne_nil hcreated), hcreated⟩,
    ⟨_, jsonStringValue_eq_some.mp (exists_of_getD_ne_nil hsource'), hsource⟩⟩
  refine complete_requestOf.mp hcomplete name hname ?_
  rw [jsonStringValue, habsent]
  rfl

theorem IsEnvelope.parseEnvelope_eq_ok (h : IsEnvelope member) :
    ∃ request, parseEnvelope member = .ok request := by
  obtain ⟨type, htype, hrequired⟩ := h.type
  obtain ⟨id, hid, hidne⟩ := h.id
  obtain ⟨t, hcreated, htne⟩ := h.createdUtc
  obtain ⟨s, hsource, hclient⟩ := h.sourceClientId
  refine ⟨requestOf member type, Messaging.parseEnvelope_eq_ok.mpr
    ⟨nonStringEnvelopeField_eq_none.mpr h.strings, type, jsonStringValue_eq_some.mpr htype,
      missingRequiredField_eq_none.mpr ⟨?_, ?_, ?_, complete_requestOf.mpr fun name hname => ?_⟩,
      rfl⟩⟩
  · show (jsonStringValue member (ascii "id")).getD [] ≠ []
    rwa [jsonStringValue_eq_some.mpr hid]
  · show (jsonStringValue member (ascii "created_utc")).getD [] ≠ []
    rwa [jsonStringValue_eq_some.mpr hcreated]
  · show ClientId ((jsonStringValue member (ascii "source_client_id")).getD [])
    rwa [jsonStringValue_eq_some.mpr hsource]
  · intro habsent
    refine hrequired name hname ?_
    rw [member_eq_of_string (h.strings name (requiredFields_subset type name hname)), habsent]
    rfl

/-- The errors for a missing member are not empty. -/
theorem missingRequiredField_ne_nil (request : MqttRequest) :
    missingRequiredField request ≠ some [] := by
  rw [missingRequiredField]
  -- every branch that answers gives a literal
  repeat' split
  all_goals decide

theorem error_ne_nil {error : Bytes} (h : parseEnvelope member = .error error) : error ≠ [] := by
  have happend : ∀ (text : String) (s : Bytes), (ascii text).isEmpty = false →
      ascii text ++ s ≠ [] := by
    intro text s htext hnil
    rw [(List.append_eq_nil_iff.mp hnil).1] at htext
    cases htext
  unfold parseEnvelope at h
  cases hfield : nonStringEnvelopeField member with
  | some message =>
      simp only [hfield, Except.error.injEq] at h
      obtain ⟨field, -, rfl⟩ := Option.map_eq_some_iff.mp hfield
      rw [← h]
      exact happend _ _ (by decide)
  | none =>
      cases htype : jsonStringValue member (ascii "type") with
      | none =>
          simp only [hfield, htype, Except.error.injEq] at h
          rw [← h]
          decide
      | some typeValue =>
          cases hknown : messageTypeFromString typeValue with
          | none =>
              simp only [hfield, htype, hknown, Except.error.injEq] at h
              rw [← h]
              exact happend _ _ (by decide)
          | some type =>
              cases hmissing : missingRequiredField (requestOf member type) with
              | none => simp only [hfield, htype, hknown, hmissing, reduceCtorEq] at h
              | some message =>
                  simp only [hfield, htype, hknown, hmissing, Except.error.injEq] at h
                  rintro rfl
                  exact missingRequiredField_ne_nil _ (h ▸ hmissing)

end

/-! ### Every text -/

/-- The parser sees an object where the grammar does. -/
theorem object_iff {parse : Bytes → Document} (hparse : StrictParser parse) (s : Bytes) :
    (∃ member, parse s = .object member) ↔ ∃ members, Json.decode s = some (.object members) := by
  constructor
  · rintro ⟨member, hobject⟩
    cases hdecode : Json.decode s with
    | none =>
        rw [hparse.discarded s hdecode] at hobject
        cases hobject
    | some v =>
        by_contra hnone
        push Not at hnone
        rw [hparse.notObject s v hdecode fun members hv => hnone members (congrArg some hv)]
          at hobject
        cases hobject
  · rintro ⟨members, hdecode⟩
    obtain ⟨member, hobject, -⟩ := hparse.object s members hdecode
    exact ⟨member, hobject⟩

/-- A text holds a request if and only if it is an object whose members are those of an
envelope; the request is what they hold. Any other text is refused with a reason, and an
object gives up its id and client even then. -/
theorem parseRequest_exact {parse : Bytes → Document} (hparse : StrictParser parse) (s : Bytes) :
    ((∃ member, parse s = .object member) ↔ ∃ members, Json.decode s = some (.object members)) ∧
    ((parseRequest parse s).request.isSome = true ↔
      ∃ member, parse s = .object member ∧ IsEnvelope member) ∧
    (∀ request, (parseRequest parse s).request = some request →
      ∃ member, parse s = .object member ∧ ReadsEnvelope member request) ∧
    ((parseRequest parse s).request = none → (parseRequest parse s).error ≠ []) ∧
    ∀ member, parse s = .object member →
      Recovers member (ascii "id") (parseRequest parse s).requestId ∧
      Recovers member (ascii "source_client_id") (parseRequest parse s).sourceClientId := by
  refine ⟨object_iff hparse s, ?_⟩
  cases hdocument : parse s with
  | discarded | notObject =>
      simp only [parseRequest, hdocument]
      refine ⟨iff_of_false Bool.false_ne_true ?_, by rintro _ ⟨⟩, fun _ => by decide, by rintro _ ⟨⟩⟩
      rintro ⟨member, hobject, -⟩
      cases hobject
  | object member =>
      simp only [parseRequest, hdocument]
      have hrecovers : ∀ member', Document.object member = .object member' →
          Recovers member' (ascii "id") ((jsonStringValue member (ascii "id")).getD []) ∧
          Recovers member' (ascii "source_client_id")
            ((jsonStringValue member (ascii "source_client_id")).getD []) := by
        rintro _ ⟨⟩
        exact ⟨recovers_getD, recovers_getD⟩
      cases henvelope : parseEnvelope member with
      | error error =>
          refine ⟨iff_of_false Bool.false_ne_true ?_, by rintro _ ⟨⟩, fun _ => error_ne_nil henvelope,
            hrecovers⟩
          rintro ⟨_, ⟨⟩, hmembers⟩
          obtain ⟨request, hrequest⟩ := hmembers.parseEnvelope_eq_ok
          rw [henvelope] at hrequest
          cases hrequest
      | ok request =>
          refine ⟨iff_of_true rfl ⟨member, rfl, isEnvelope_of_parseEnvelope henvelope⟩, ?_, by rintro ⟨⟩,
            hrecovers⟩
          rintro _ ⟨⟩
          exact ⟨member, rfl, readsEnvelope_of_parseEnvelope henvelope⟩

theorem parseRequest_exact_untyped :
    (parseRequest lastMemberParser (ascii "\x7b\"id\":\"r\",\"type\":7\x7d")).request = none ∧
      (parseRequest lastMemberParser (ascii "\x7b\"id\":\"r\",\"type\":7\x7d")).error ≠ [] := by
  have hrefused : (parseRequest lastMemberParser
      (ascii "\x7b\"id\":\"r\",\"type\":7\x7d")).request = none := by
    decide +kernel
  exact ⟨hrefused, (parseRequest_exact strictParser_lastMemberParser _).2.2.2.1 hrefused⟩

end Watchlist.Messaging
