import Watchlist.Library.JsonUtf8
import Watchlist.Messaging.RoundTrip

/-!
Which acknowledgements a strict parser can read, and which strings of a payload
find their way into the acknowledgements for it. The texts that the server adds
are plain, so whether an acknowledgement can be read is decided by the control
characters in the strings it echoes.
-/

namespace Watchlist.Messaging

open Bytes

/-! ### Reading an acknowledgement -/

/-- The members of an acknowledgement in the order they are written. -/
def ackMembers (ack : MqttAck) : List (Bytes × Bytes) :=
  [(ascii "request_id", ack.requestId), (ascii "status", ack.status),
    (ascii "message", ack.message), (ascii "completed_utc", ack.completedUtc)]

/-- The text of the acknowledgement is an object with these members and no others. -/
def Readable (ack : MqttAck) : Prop :=
  Json.decode (serializeAck ack) =
    some (.object ((ackMembers ack).map fun m => (m.1, .string m.2)))

theorem serializeAck_eq (ack : MqttAck) : serializeAck ack = objectText (ackMembers ack) := rfl

theorem plain_ackMembers (ack : MqttAck) :
    ∀ m ∈ ackMembers ack, Plain m.1 ∧ Utf8.WellFormed m.1 := by
  have hnames : ∀ name ∈ [ascii "request_id", ascii "status", ascii "message",
      ascii "completed_utc"], Plain name ∧ Utf8.WellFormed name := by decide
  intro m hm
  exact hnames m.1 (List.mem_map_of_mem hm)

theorem readable_iff {ack : MqttAck} (hutf8 : ∀ m ∈ ackMembers ack, Utf8.WellFormed m.2) :
    Readable ack ↔ AllEmittable (ackMembers ack) := by
  have hplain := plain_ackMembers ack
  rw [Readable, serializeAck_eq, decode_objectText (by simp [ackMembers])
    (fun m hm => (hplain m hm).1) fun m hm => ⟨(hplain m hm).2, hutf8 m hm⟩]
  by_cases hall : AllEmittable (ackMembers ack)
  · rw [if_pos hall]
    exact iff_of_true rfl hall
  · rw [if_neg hall]
    exact iff_of_false nofun hall

/-! ### Texts -/

/-- The text of a timestamp: ASCII without control characters. -/
def Printable (s : Bytes) : Prop := ∀ c ∈ s, 32 ≤ c ∧ c < 0x80

instance (s : Bytes) : Decidable (Printable s) :=
  List.decidableBAll (fun c : UInt8 => 32 ≤ c ∧ c < 0x80) s

theorem Printable.emittable {s : Bytes} (h : Printable s) : Emittable s :=
  fun c hc => Or.inl (h c hc).1

theorem Printable.wellFormed {s : Bytes} (h : Printable s) : Utf8.WellFormed s :=
  Utf8.wellFormed_of_ascii fun c hc => (h c hc).2

theorem emittable_append {a b : Bytes} : Emittable (a ++ b) ↔ Emittable a ∧ Emittable b :=
  List.forall_mem_append

/-- A printable text in front changes nothing. -/
theorem emittable_append_of_printable {a b : Bytes} (ha : Printable a) :
    Emittable (a ++ b) ↔ Emittable b := by
  rw [emittable_append, and_iff_right ha.emittable]

/-! ### What a payload's acknowledgements echo -/

/-- The strings of a request that a handler's message repeats. -/
def MqttRequest.quoted (request : MqttRequest) : List Bytes :=
  match request.type with
  | .executeScript => []
  | .sendToDevice => request.deviceId.toList
  | .cmdToDevice => request.command.toList ++ request.deviceId.toList
  | .storeDatabaseValue => request.key.toList
  | .queryAiPrompt => request.prompt.toList

/-- The `type` member when nothing before it is wrong and it names no type. -/
def unknownType (member : Bytes → Option (Option Bytes)) : Option Bytes :=
  match nonStringEnvelopeField member with
  | some _ => none
  | none =>
      (jsonStringValue member (ascii "type")).filter fun t => (messageTypeFromString t).isNone

/-- The strings of a payload that its acknowledgements repeat: the id, and the type
when it is unknown or what the handler's message quotes. -/
def echoed (parse : Bytes → Document) (payload : Bytes) : List Bytes :=
  match parse payload with
  | .discarded | .notObject => []
  | .object member =>
      (jsonStringValue member (ascii "id")).toList ++
        match parseEnvelope member with
        | .error _ => (unknownType member).toList
        | .ok request => request.quoted

/-- A possibly absent string can be written as long as it is not there with a
control character. -/
theorem emittable_getD {s : Option Bytes} {default' : Bytes} (h : Emittable default') :
    Emittable (s.getD default') ↔ ∀ x ∈ s.toList, Emittable x := by
  cases s with
  | none => simpa using h
  | some s => simp

/-- The errors for a missing member are texts of the code. -/
theorem printable_missingRequiredField {request : MqttRequest} {message : Bytes}
    (h : missingRequiredField request = some message) : Printable message := by
  unfold missingRequiredField at h
  -- every branch that answers gives a literal
  repeat' split at h
  all_goals first
    | cases h
      done
    | (obtain rfl := Option.some.inj h
       decide)

/-- The text of a parse error comes from the code, unless it repeats an unknown type. -/
theorem error_cases {member : Bytes → Option (Option Bytes)} {error : Bytes}
    (h : parseEnvelope member = .error error) :
    Printable error ∧ unknownType member = none ∨
    ∃ t, unknownType member = some t ∧ jsonStringValue member (ascii "type") = some t ∧
      error = ascii "unknown message type: " ++ t := by
  have hfields : ∀ field ∈ envelopeFields, Printable (ascii "field must be a string: " ++ field) := by
    decide
  cases hfield : nonStringEnvelopeField member with
  | some nonString =>
      simp only [parseEnvelope, hfield, Except.error.injEq] at h
      obtain ⟨field, hfind, rfl⟩ := Option.map_eq_some_iff.mp hfield
      subst h
      simp only [unknownType, hfield]
      exact Or.inl ⟨hfields field (List.mem_of_find?_eq_some hfind), trivial⟩
  | none =>
      cases htype : jsonStringValue member (ascii "type") with
      | none =>
          simp only [parseEnvelope, hfield, htype, Except.error.injEq] at h
          subst h
          simp only [unknownType, hfield, htype]
          exact Or.inl ⟨by decide, rfl⟩
      | some t =>
          simp only [unknownType, hfield, htype]
          cases hknown : messageTypeFromString t with
          | none =>
              simp only [parseEnvelope, hfield, htype, hknown, Except.error.injEq] at h
              exact Or.inr ⟨t, by simp [Option.filter, hknown], rfl, h.symm⟩
          | some type =>
              simp only [parseEnvelope, hfield, htype, hknown] at h
              cases hmissing : missingRequiredField (requestOf member type) with
              | none => simp only [hmissing, reduceCtorEq] at h
              | some message =>
                  simp only [hmissing, Except.error.injEq] at h
                  subst h
                  exact Or.inl ⟨printable_missingRequiredField hmissing,
                    by simp [Option.filter, hknown]⟩

/-! ### The strings of a decoded payload -/

theorem wellFormed_of_strictParser {parse : Bytes → Document} (hparse : StrictParser parse)
    {payload : Bytes} {member : Bytes → Option (Option Bytes)}
    (hobject : parse payload = .object member) {name s : Bytes}
    (hs : jsonStringValue member name = some s) : Utf8.WellFormed s := by
  cases hdecode : Json.decode payload with
  | none =>
      rw [hparse.discarded payload hdecode] at hobject
      cases hobject
  | some v =>
      by_cases hv : ∃ members, v = .object members
      · obtain ⟨members, rfl⟩ := hv
        obtain ⟨member', hobject', -, hfound⟩ := hparse.object payload members hdecode
        obtain rfl := Document.object.inj (hobject.symm.trans hobject')
        have hmember : member name = some (some s) := Option.join_eq_some_iff.mp hs
        obtain ⟨w, hw, htext⟩ := hfound name _ hmember
        refine Json.wellFormed_of_decode hdecode (name, w) hw s ?_
        cases w with
        | string t => exact congrArg Json.Value.string (Option.some.inj htext).symm
        | null | boolean | number | array | object => cases htext
      · rw [hparse.notObject payload v hdecode fun members hm => hv ⟨members, hm⟩] at hobject
        cases hobject

/-- An accepted request is what the members make. -/
theorem requestOf_of_parseEnvelope {member : Bytes → Option (Option Bytes)}
    {request : MqttRequest} (h : parseEnvelope member = .ok request) :
    ∃ type, request = requestOf member type := by
  unfold parseEnvelope at h
  repeat' split at h
  all_goals first
    | cases h
      done
    | exact ⟨_, (Except.ok.inj h).symm⟩

section
variable {parse : Bytes → Document} {payload : Bytes}

/-- What is recovered from a payload that holds no request can be read and written as
far as what it repeats can. -/
theorem refused_payload (hparse : StrictParser parse)
    (hrefused : (parseRequest parse payload).request = none) :
    Utf8.WellFormed (parseRequest parse payload).requestId ∧
    Utf8.WellFormed (parseRequest parse payload).error ∧
    (Emittable (parseRequest parse payload).requestId ∧
      Emittable (parseRequest parse payload).error ↔
        ∀ s ∈ echoed parse payload, Emittable s) := by
  cases hdocument : parse payload with
  | discarded | notObject =>
      simp only [parseRequest, echoed, hdocument]
      exact ⟨by decide, by decide, iff_of_true (by decide) (List.forall_mem_nil _)⟩
  | object member =>
      simp only [parseRequest, echoed, hdocument] at hrefused ⊢
      cases henvelope : parseEnvelope member with
      | ok request => simp [henvelope] at hrefused
      | error error =>
          have hread : ∀ {name s : Bytes}, jsonStringValue member name = some s →
              Utf8.WellFormed s := wellFormed_of_strictParser hparse hdocument
          have hempty : Emittable [] := by decide
          simp only [List.forall_mem_append, emittable_getD hempty]
          refine ⟨?_, ?_, and_congr_right fun _ => ?_⟩
          · cases hid : jsonStringValue member (ascii "id") with
            | none => exact Utf8.wellFormed_nil
            | some id => exact hread hid
          · rcases error_cases henvelope with ⟨hprintable, -⟩ | ⟨t, -, htype, rfl⟩
            · exact hprintable.wellFormed
            · exact Utf8.WellFormed.append (by decide) (hread htype)
          · rcases error_cases henvelope with ⟨hprintable, hnone⟩ | ⟨t, hsome, -, rfl⟩
            · rw [hnone]
              exact iff_of_true hprintable.emittable (List.forall_mem_nil _)
            · rw [hsome, emittable_append_of_printable (by decide)]
              simp

/-- The same for the request that a payload holds. -/
theorem accepted_payload (hparse : StrictParser parse) {request : MqttRequest}
    (haccepted : (parseRequest parse payload).request = some request) :
    Utf8.WellFormed request.id ∧ (∀ s ∈ request.quoted, Utf8.WellFormed s) ∧
    (Emittable request.id ∧ (∀ s ∈ request.quoted, Emittable s) ↔
      ∀ s ∈ echoed parse payload, Emittable s) := by
  cases hdocument : parse payload with
  | discarded | notObject =>
      simp only [parseRequest, hdocument, reduceCtorEq] at haccepted
  | object member =>
      simp only [parseRequest, echoed, hdocument] at haccepted ⊢
      cases henvelope : parseEnvelope member with
      | error error => simp [henvelope] at haccepted
      | ok request' =>
          have hread : ∀ {name s : Bytes}, jsonStringValue member name = some s →
              Utf8.WellFormed s := wellFormed_of_strictParser hparse hdocument
          simp only [henvelope, Option.some.injEq] at haccepted
          subst haccepted
          obtain ⟨type, rfl⟩ := requestOf_of_parseEnvelope henvelope
          have hempty : Emittable [] := by decide
          simp only [List.forall_mem_append]
          refine ⟨?_, ?_, and_congr_left fun _ => emittable_getD hempty⟩
          · rw [requestOf]
            cases hid : jsonStringValue member (ascii "id") with
            | none => exact Utf8.wellFormed_nil
            | some id => exact hread hid
          · intro s hs
            unfold MqttRequest.quoted requestOf at hs
            cases type with
            | executeScript => cases hs
            | sendToDevice | storeDatabaseValue | queryAiPrompt =>
                exact hread (Option.mem_toList.mp hs)
            | cmdToDevice =>
                rcases List.mem_append.mp hs with hs | hs
                · exact hread (Option.mem_toList.mp hs)
                · exact hread (Option.mem_toList.mp hs)

end

end Watchlist.Messaging
