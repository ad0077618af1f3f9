import Watchlist.Protocol.Network

/-!
One answer to each request. A client program that alone uses its id, and to which each
acknowledgement is delivered at most once, on a network that delivers each request at
most once and takes no forged one, is shown at most one answer under any id. Once the
server is done with one of its requests there is an answer to it, except if the store of
its value has failed.
-/

namespace Watchlist.Protocol

open Bytes Transition Messaging Mqtt Dispatch Server

namespace Network

variable {n k : ℕ} {parse : Bytes → Document} {payloads : Fin k → Bytes} {s t : Network n k}
  {l : Label n k} {c : ℕ} {client : Bytes}

/-! ### What is shown -/

/-- The publication with a number. -/
def publicationAt (s : Network n k) (p : ℕ) : Option (Publication k) := s.server.published[p]?

/-- The line that the delivery of a publication adds. -/
def lineOf (s : Network n k) (p : ℕ) : Option Bytes :=
  (s.publicationAt p).map fun publication => serializeAck publication.ack

/-- The deliveries to client program `c` of acknowledgements under the id. -/
def answersTo (s : Network n k) (c : ℕ) (id : Bytes) : List ℕ :=
  (s.clients c).delivered.filter fun p =>
    (s.publicationAt p).any fun publication => decide (publication.ack.requestId = id)

/-- The number that client program `c` has given the request, if it is one of its own. -/
def numberOf (c : ℕ) (e : Published) : Option ℕ :=
  e.origin.bind fun sent => if sent.client = c then some sent.number else none

/-- The network delivers at most once, and nobody else speaks for the client. -/
def Once (parse : Bytes → Document) (c : ℕ) (client : Bytes) (s : Network n k) :
    Label n k → Prop
  | .send c' _ _ =>
      if c' = c then (s.clients c).requestCounter + 1 < 2 ^ 64
      else (s.clients c').console.clientId ≠ client
  | .publish payload => sourceClientOf parse payload ≠ some client
  | .deliverRequest _ r _ => r ∉ s.received.map Prod.snd
  | .deliverAck c' p => c' = c → p ∉ (s.clients c).delivered
  | _ => True

instance (s : Network n k) (l : Label n k) : Decidable (Once parse c client s l) := by
  unfold Once
  split <;> infer_instance

/-- What has been delivered to the client program, and what it has sent. -/
structure Orderly (parse : Bytes → Document) (payloads : Fin k → Bytes) (c : ℕ) (client : Bytes)
    (s : Network n k) : Prop where
  authentic : Authentic parse payloads s
  /-- what names the client is its own -/
  named : ∀ e ∈ s.requests, sourceClientOf parse e.payload = some client →
    ∃ sent, e.origin = some sent ∧ sent.client = c
  bounded : ∀ e ∈ s.requests, ∀ number, numberOf c e = some number →
    number ≤ (s.clients c).requestCounter
  distinct : s.requests.Pairwise fun e e' => ∀ number, numberOf c e = some number →
    numberOf c e' ≠ some number
  payload : ∀ x ∈ s.received, (s.requests[x.2]?).map Published.payload = some (payloads x.1)
  receivedOnce : (s.received.map Prod.snd).Nodup
  called : ∀ i, s.server.calls i ≠ .notCalled → ∃ r, (i, r) ∈ s.received
  deliveredOnce : (s.clients c).delivered.Nodup
  reached : ∀ p ∈ (s.clients c).delivered, ∃ publication, s.publicationAt p = some publication ∧
    reaches (s.clients c).subscribed publication.route.sourceClientId = true
  shown : (s.clients c).acks = AppState.lastLines ((s.clients c).delivered.filterMap s.lineOf)

theorem orderly_initial (consoles : ℕ → ConsoleState) :
    Orderly parse payloads c client (initial n k consoles) where
  authentic := authentic_initial consoles
  named := fun _ h => absurd h List.not_mem_nil
  bounded := fun _ h => absurd h List.not_mem_nil
  distinct := .nil
  payload := fun _ h => absurd h List.not_mem_nil
  receivedOnce := .nil
  called := fun _ h => absurd rfl h
  deliveredOnce := .nil
  reached := fun _ h => absurd h List.not_mem_nil
  shown := rfl

/-! ### Steps -/

/-- A change of one client program. -/
theorem Orderly.setClient (h : Orderly parse payloads c client s) {c' : ℕ}
    {program : ClientProgram} (hauthentic : Authentic parse payloads (s.setClient c' program))
    (hown : c' = c → (s.clients c).requestCounter ≤ program.requestCounter ∧
      program.delivered.Nodup ∧
      (∀ p ∈ program.delivered, ∃ publication, s.publicationAt p = some publication ∧
        reaches program.subscribed publication.route.sourceClientId = true) ∧
      program.acks = AppState.lastLines (program.delivered.filterMap s.lineOf)) :
    Orderly parse payloads c client (s.setClient c' program) := by
  by_cases hc : c' = c
  · subst hc
    obtain ⟨hcounter, honce, hreached, hshown⟩ := hown rfl
    have hself : (s.setClient c' program).clients c' = program := Function.update_self ..
    exact { h with
      authentic := hauthentic
      bounded := by
        intro e he number hnumber
        rw [hself]
        exact (h.bounded e he number hnumber).trans hcounter
      deliveredOnce := hself.symm ▸ honce
      reached := hself.symm ▸ hreached
      shown := hself.symm ▸ hshown }
  · have hother : (s.setClient c' program).clients c = s.clients c :=
      Function.update_of_ne (Ne.symm hc) ..
    exact { h with
      authentic := hauthentic
      bounded := hother.symm ▸ h.bounded
      deliveredOnce := hother.symm ▸ h.deliveredOnce
      reached := hother.symm ▸ h.reached
      shown := hother.symm ▸ h.shown }

/-- A new message on the topic of the requests. -/
theorem Orderly.publish (h : Orderly parse payloads c client s) {e : Published}
    (hauthentic : Authentic parse payloads { s with requests := s.requests ++ [e] })
    (hnamed : sourceClientOf parse e.payload = some client →
      ∃ sent, e.origin = some sent ∧ sent.client = c)
    (hbounded : ∀ number, numberOf c e = some number → number ≤ (s.clients c).requestCounter)
    (hnew : ∀ e' ∈ s.requests, ∀ number, numberOf c e' = some number →
      numberOf c e ≠ some number) :
    Orderly parse payloads c client { s with requests := s.requests ++ [e] } :=
  { h with
    authentic := hauthentic
    named := List.forall_mem_append.mpr ⟨h.named, List.forall_mem_singleton.mpr hnamed⟩
    bounded := List.forall_mem_append.mpr ⟨h.bounded, List.forall_mem_singleton.mpr hbounded⟩
    distinct := List.pairwise_append.mpr ⟨h.distinct, List.pairwise_singleton .., fun e' he' _ hmem =>
      List.mem_singleton.mp hmem ▸ hnew e' he'⟩
    payload := by
      intro x hx
      obtain ⟨e', he', hpayload⟩ := Option.map_eq_some_iff.mp (h.payload x hx)
      have hbound := (List.getElem?_eq_some_iff.mp he').1
      show ((s.requests ++ [e])[x.2]?).map Published.payload = some (payloads x.1)
      rw [List.getElem?_append_left hbound, he', Option.map_some, hpayload] }

/-- A step of the server; a call that begins has been given a request. -/
theorem Orderly.server (h : Orderly parse payloads c client s) {l : RequestDispatcher.Label n k}
    {d : RequestDispatcher n k} {received : List (Fin k × ℕ)}
    (hauthentic : Authentic parse payloads { s with server := d, received := received })
    (hstep : s.server.step parse payloads l = some d)
    (hpayload : ∀ x ∈ received, (s.requests[x.2]?).map Published.payload = some (payloads x.1))
    (honce : (received.map Prod.snd).Nodup) (hsub : s.received ⊆ received)
    (hbegins : ∀ i now, l = .advance i now → s.server.calls i = .notCalled →
      ∃ r, (i, r) ∈ received) :
    Orderly parse payloads c client { s with server := d, received := received } := by
  obtain ⟨new, hnew⟩ := published_step hstep
  have hkept : ∀ p publication, s.publicationAt p = some publication →
      d.published[p]? = some publication := by
    intro p publication hp
    rw [← hnew, List.getElem?_append_left (List.getElem?_eq_some_iff.mp hp).1]
    exact hp
  exact { h with
    authentic := hauthentic
    payload := hpayload
    receivedOnce := honce
    called := by
      intro i hcalled
      by_cases hbefore : s.server.calls i = .notCalled
      · rcases called_of_step hstep hcalled with hold | ⟨now, hl⟩
        · exact absurd hbefore hold
        · exact hbegins i now hl hbefore
      · obtain ⟨r, hr⟩ := h.called i hbefore
        exact ⟨r, hsub hr⟩
    reached := by
      intro p hp
      obtain ⟨publication, hat, hreaches⟩ := h.reached p hp
      exact ⟨publication, hkept p publication hat, hreaches⟩
    shown := by
      refine h.shown.trans (congrArg AppState.lastLines (List.filterMap_congr fun p hp => ?_))
      obtain ⟨publication, hat, -⟩ := h.reached p hp
      have hat' : d.published[p]? = some publication := hkept p publication hat
      simp only [lineOf, publicationAt] at hat ⊢
      rw [hat, hat'] }

/-- A form's request names the client of the form. -/
theorem clientId_of_sourceClientOf (hparse : StrictParser parse)
    (hclient : isValidClientId client = true) {console : ConsoleState} {number : ℕ} {now : Bytes}
    (hnow : now ≠ [])
    (hsource : sourceClientOf parse (serializeRequest (consoleRequest console number now)) =
      some client) : console.clientId = client := by
  have hread : (parseRequest parse (serializeRequest
      (consoleRequest console number now))).sourceClientId = client := by
    rw [RequestDispatcher.sourceClientId_parseRequest, hsource, Option.getD_some]
  have hparsed := parseRequest_consoleRequest hparse hnow (hread.symm ▸ hclient)
  rw [hparsed] at hread
  exact hread

theorem Orderly.send (hparse : StrictParser parse) (hclient : isValidClientId client = true)
    (h : Orderly parse payloads c client s) {c' : ℕ} {now : Bytes} {taken : Bool}
    (hauthentic : Authentic parse payloads (s.send c' now taken)) (hnow : now ≠ [])
    (honce : Once parse c client s (.send c' now taken)) :
    Orderly parse payloads c client (s.send c' now taken) := by
  have hcounted : Orderly parse payloads c client (s.setClient c'
      { s.clients c' with requestCounter := (s.clients c').nextNumber }) := by
    refine h.setClient (h.authentic.setClient_of_acks rfl (Or.inr rfl)) fun hc => ?_
    subst hc
    rw [Once, if_pos rfl] at honce
    refine ⟨?_, h.deliveredOnce, h.reached, h.shown⟩
    show (s.clients c').requestCounter ≤ ((s.clients c').requestCounter + 1) % 2 ^ 64
    rw [Nat.mod_eq_of_lt honce]
    exact Nat.le_succ _
  cases taken with
  | false =>
      have hsame : s.send c' now false = s.setClient c'
          { s.clients c' with requestCounter := (s.clients c').nextNumber } := by
        simp [Network.send, Network.setClient]
      exact hsame.symm ▸ hcounted
  | true =>
      refine hcounted.publish hauthentic (fun hsource => ⟨_, rfl, ?_⟩) (fun number hnumber => ?_)
        (fun e' he' number hnumber hsame => ?_)
      · -- only this program's form has the client's id
        by_contra hc
        rw [Once, if_neg hc] at honce
        exact honce (clientId_of_sourceClientOf hparse hclient hnow hsource)
      · simp only [numberOf, Option.bind_some, Option.ite_none_right_eq_some,
          Option.some.injEq] at hnumber
        obtain ⟨rfl, rfl⟩ := hnumber
        simp only [Network.setClient, Function.update_self]
        exact le_rfl
      · simp only [numberOf, Option.bind_some, Option.ite_none_right_eq_some,
          Option.some.injEq] at hsame
        obtain ⟨rfl, rfl⟩ := hsame
        rw [Once, if_pos rfl] at honce
        have hle := h.bounded e' he' _ hnumber
        rw [ClientProgram.nextNumber, Nat.mod_eq_of_lt honce] at hle
        exact absurd hle (Nat.not_succ_le_self _)

theorem Orderly.deliverAck (h : Orderly parse payloads c client s) {c' p : ℕ}
    {publication : Publication k} (hat : s.publicationAt p = some publication)
    (hreaches : reaches (s.clients c').subscribed publication.route.sourceClientId = true)
    (hauthentic : Authentic parse payloads
      (s.setClient c' ((s.clients c').addAck p publication.ack)))
    (honce : c' = c → p ∉ (s.clients c).delivered) :
    Orderly parse payloads c client (s.setClient c' ((s.clients c').addAck p publication.ack)) := by
  refine h.setClient hauthentic fun hc => ?_
  subst hc
  refine ⟨le_rfl, ?_, ?_, ?_⟩
  · exact List.nodup_append.mpr ⟨h.deliveredOnce, List.nodup_singleton _, fun q hq q' hq' heq =>
      honce rfl (List.mem_singleton.mp hq' ▸ heq ▸ hq)⟩
  · exact List.forall_mem_append.mpr
      ⟨h.reached, List.forall_mem_singleton.mpr ⟨publication, hat, hreaches⟩⟩
  · have hline : s.lineOf p = some (serializeAck publication.ack) := by rw [lineOf, hat, Option.map_some]
    show AppState.addBounded (s.clients c').acks (serializeAck publication.ack) =
      AppState.lastLines (((s.clients c').delivered ++ [p]).filterMap s.lineOf)
    rw [h.shown, AppState.addBounded_lastLines, List.filterMap_append]
    simp [hline]

theorem Orderly.step (hparse : StrictParser parse) (hclient : isValidClientId client = true)
    (h : Orderly parse payloads c client s) (htime : l.PrintableTime)
    (honce : Once parse c client s l) (hstep : s.step parse payloads l = some t) :
    Orderly parse payloads c client t := by
  have hauthentic := h.authentic.step htime hstep
  cases l with
  | edit c' console =>
      obtain rfl := Option.some.inj hstep
      refine h.setClient hauthentic fun hc => ?_
      subst hc
      exact ⟨le_rfl, h.deliveredOnce, h.reached, h.shown⟩
  | subscribe c' =>
      obtain ⟨hnone, rfl⟩ := allow_eq_some.mp hstep
      refine h.setClient hauthentic fun hc => ?_
      subst hc
      refine ⟨le_rfl, h.deliveredOnce, fun p hp => ?_, h.shown⟩
      -- nothing is delivered before the subscription
      obtain ⟨publication, -, hreaches⟩ := h.reached p hp
      rw [hnone] at hreaches
      cases hreaches
  | send c' now taken =>
      obtain rfl := Option.some.inj hstep
      exact h.send hparse hclient hauthentic htime.2 honce
  | publish payload =>
      obtain rfl := Option.some.inj hstep
      exact h.publish hauthentic (fun hsource => absurd hsource honce)
        (fun _ hnumber => by cases hnumber) (fun _ _ _ _ hsame => by cases hsame)
  | deliverRequest i r now =>
      simp only [Network.step] at hstep
      split at hstep
      · rename_i hdelivered
        obtain ⟨d, hd, rfl⟩ := Option.map_eq_some_iff.mp hstep
        refine h.server hauthentic hd ?_ ?_ (List.subset_append_left ..) ?_
        · exact List.forall_mem_append.mpr
            ⟨h.payload, List.forall_mem_singleton.mpr hdelivered.1⟩
        · rw [List.map_append]
          exact List.nodup_append.mpr ⟨h.receivedOnce, List.nodup_singleton _,
            fun q hq q' hq' heq => 
              honce ((heq.trans (List.mem_singleton.mp hq') : q = r) ▸ hq)⟩
        · intro j now' hj _
          injection hj with hij
          exact ⟨r, List.mem_append_right _ (hij ▸ List.mem_singleton_self _)⟩
      · cases hstep
  | server l =>
      simp only [Network.step] at hstep
      split at hstep
      · cases hstep
      · rename_i hbegins
        obtain ⟨d, hd, rfl⟩ := Option.map_eq_some_iff.mp hstep
        refine h.server hauthentic hd h.payload h.receivedOnce (List.Subset.refl _) ?_
        intro i now hl hcall
        subst hl
        exact absurd (isNotCalled_iff.mpr hcall) hbegins
  | deliverAck c' p =>
      simp only [Network.step] at hstep
      split at hstep
      · cases hstep
      · rename_i publication hpublication
        obtain ⟨hreaches, rfl⟩ := allow_eq_some.mp hstep
        exact h.deliverAck hpublication hreaches hauthentic honce

/-! ### Runs -/

theorem orderly_of_exec (hparse : StrictParser parse) (hclient : isValidClientId client = true)
    {consoles : ℕ → ConsoleState} {ls : List (Label n k)} (htime : ∀ l ∈ ls, l.PrintableTime)
    (honce : (machine n k parse payloads).Meets (Once parse c client) (initial n k consoles) ls)
    (hrun : (machine n k parse payloads).exec (initial n k consoles) ls = some t) :
    Orderly parse payloads c client t := by
  have hmeets := honce.and (Machine.meets_of_forall fun l hl _ => htime l hl)
  exact Machine.invariant_of_meets (Orderly parse payloads c client)
    (fun _ _ _ hs hl hstep => hs.step hparse hclient hl.2 hl.1 hstep) hmeets hrun
    (orderly_initial consoles)

theorem length_le_one_of_nodup {α : Type*} {xs : List α} (hnodup : xs.Nodup)
    (heq : ∀ x ∈ xs, ∀ y ∈ xs, x = y) : xs.length ≤ 1 := by
  match xs with
  | [] => exact Nat.zero_le _
  | [_] => exact le_rfl
  | x :: y :: _ =>
      have hxy := heq x List.mem_cons_self y (List.mem_cons_of_mem _ List.mem_cons_self)
      exact absurd (hxy ▸ List.mem_cons_self) (List.nodup_cons.mp hnodup).1

theorem length_publications_le (result : ParseResult) (route : MqttRequest) (ack : MqttAck) :
    (RequestDispatcher.publications result route ack).length ≤ 1 := by
  unfold RequestDispatcher.publications
  split <;> simp

theorem length_le_one_of_progress {result : ParseResult} {call : CallPc} {job : JobPc}
    {acks : List (Bool × MqttAck)} {published : List (MqttRequest × MqttAck)}
    (h : RequestDispatcher.Progress result call job acks published) : published.length ≤ 1 := by
  cases h with
  | rejected | answered => exact length_publications_le ..
  | notCalled | preparing | recording | publishing | queued | executing | upserting
  | jobRecording | jobPublishing | failed => exact Nat.zero_le _

/-- A call has at most one publication. -/
theorem call_inj (htracked : RequestDispatcher.Tracked parse payloads s.server) {p q : ℕ}
    {a b : Publication k} (hp : s.publicationAt p = some a) (hq : s.publicationAt q = some b)
    (hcall : a.call = b.call) : p = q := by
  have hnodup : (s.server.published.map Publication.call).Nodup := by
    refine List.nodup_iff_count_le_one.mpr fun i => ?_
    rw [List.count_eq_length_filter, List.filter_map, List.length_map]
    have hi := length_le_one_of_progress (htracked.progress i)
    rw [RequestDispatcher.publishedOf, List.length_map] at hi
    exact hi
  obtain ⟨hpbound, hp⟩ := List.getElem?_eq_some_iff.mp hp
  obtain ⟨hqbound, hq⟩ := List.getElem?_eq_some_iff.mp hq
  have hpbound' : p < (s.server.published.map Publication.call).length := by simpa using hpbound
  have hqbound' : q < (s.server.published.map Publication.call).length := by simpa using hqbound
  have hsame : (s.server.published.map Publication.call)[p] =
      (s.server.published.map Publication.call)[q] := by
    rw [List.getElem_map, List.getElem_map, hp, hq, hcall]
  exact hnodup.getElem_inj_iff.mp hsame

/-- A number of the client program is that of one request. -/
theorem Orderly.number_inj (h : Orderly parse payloads c client s) {r r' number : ℕ}
    {e e' : Published} (hr : s.requests[r]? = some e) (hr' : s.requests[r']? = some e')
    (hnumber : numberOf c e = some number) (hnumber' : numberOf c e' = some number) : r = r' := by
  have hlt {r r' : ℕ} {e e' : Published} (hr : s.requests[r]? = some e)
      (hr' : s.requests[r']? = some e') (hnumber : numberOf c e = some number)
      (hnumber' : numberOf c e' = some number) : ¬r < r' := by
    intro hlt
    obtain ⟨hbound, rfl⟩ := List.getElem?_eq_some_iff.mp hr
    obtain ⟨hbound', rfl⟩ := List.getElem?_eq_some_iff.mp hr'
    exact List.pairwise_iff_getElem.mp h.distinct r r' hbound hbound' hlt number hnumber hnumber'
  exact le_antisymm (not_lt.mp (hlt hr' hr hnumber' hnumber)) (not_lt.mp (hlt hr hr' hnumber hnumber'))

/-- What is delivered answers a request of the program's own, under its id. -/
theorem Orderly.asked (hparse : StrictParser parse) (hclient : isValidClientId client = true)
    (h : Orderly parse payloads c client s) (hsubscribed : (s.clients c).subscribed = some client)
    {p : ℕ} (hp : p ∈ (s.clients c).delivered) :
    ∃ publication r e sent, s.publicationAt p = some publication ∧
      (publication.call, r) ∈ s.received ∧ s.requests[r]? = some e ∧ e.origin = some sent ∧
      sent.client = c ∧ sent.request.id = publication.ack.requestId := by
  obtain ⟨publication, hat, hreaches⟩ := h.reached p hp
  rw [hsubscribed] at hreaches
  have hmem : publication ∈ s.server.published := List.mem_of_getElem? hat
  obtain ⟨hcall, -⟩ := recorded_of_progress
    (h.authentic.tracked.progress publication.call) _ (mem_publishedOf hmem)
  obtain ⟨r, hr⟩ := h.called _ hcall
  obtain ⟨e, he, hpayload⟩ := Option.map_eq_some_iff.mp (h.payload _ hr)
  have hanswers := h.authentic.answersClient hparse hmem hclient hreaches
    (List.mem_of_getElem? he) hpayload
  obtain ⟨sent, horigin, hown⟩ := h.named e (List.mem_of_getElem? he) hanswers.source
  obtain ⟨-, -, hid, -⟩ := hanswers.program sent horigin
  exact ⟨publication, r, e, sent, hat, hr, he, horigin, hown, hid.symm⟩

/-- The call that has answered under an id is the one that was given the request. -/
theorem Orderly.call_of_answersTo (hparse : StrictParser parse)
    (hclient : isValidClientId client = true) (h : Orderly parse payloads c client s)
    (hsubscribed : (s.clients c).subscribed = some client) {r : ℕ} {e : Published} {sent : Sent}
    (hr : s.requests[r]? = some e) (horigin : e.origin = some sent) (hown : sent.client = c)
    {p : ℕ} (hp : p ∈ s.answersTo c sent.request.id) :
    ∃ publication, s.publicationAt p = some publication ∧ (publication.call, r) ∈ s.received := by
  obtain ⟨hdelivered, hid⟩ := List.mem_filter.mp hp
  obtain ⟨publication, r', e', sent', hat, hreceived, hr', horigin', hown', hid'⟩ :=
    h.asked hparse hclient hsubscribed hdelivered
  rw [hat, Option.any_some, decide_eq_true_iff] at hid
  -- both requests are made from a form, so the id tells the number
  obtain ⟨console, now, -, hrequest, -⟩ := h.authentic.origins e (List.mem_of_getElem? hr) sent
    horigin
  obtain ⟨console', now', -, hrequest', -⟩ := h.authentic.origins e' (List.mem_of_getElem? hr')
    sent' horigin'
  have hnumber : sent'.number = sent.number := by
    have hids : sent'.request.id = sent.request.id := hid'.trans hid
    rw [hrequest, hrequest'] at hids
    exact (consoleRequest_id_inj.mp hids).2
  have hsame : r' = r := by
    have hat' : numberOf c e' = some sent.number := by
      rw [numberOf, horigin', Option.bind_some, if_pos hown', hnumber]
    have hat'' : numberOf c e = some sent.number := by
      rw [numberOf, horigin, Option.bind_some, if_pos hown]
    exact h.number_inj hr' hr hat' hat''
  exact ⟨publication, hat, hsame ▸ hreceived⟩

/-- A request is given to one call. -/
theorem Orderly.received_inj (h : Orderly parse payloads c client s) {i i' : Fin k} {r : ℕ}
    (hi : (i, r) ∈ s.received) (hi' : (i', r) ∈ s.received) : i = i' :=
  congrArg Prod.fst (List.inj_on_of_nodup_map h.receivedOnce hi hi' rfl)

theorem Orderly.length_answersTo_le (hparse : StrictParser parse)
    (hclient : isValidClientId client = true) (h : Orderly parse payloads c client s)
    (hsubscribed : (s.clients c).subscribed = some client) (id : Bytes) :
    (s.answersTo c id).length ≤ 1 := by
  refine length_le_one_of_nodup (h.deliveredOnce.filter _) fun p hp q hq => ?_
  obtain ⟨hdelivered, hid⟩ := List.mem_filter.mp hp
  obtain ⟨publication, r, e, sent, hat, hreceived, hr, horigin, hown, hid'⟩ :=
    h.asked hparse hclient hsubscribed hdelivered
  rw [hat, Option.any_some, decide_eq_true_iff] at hid
  obtain rfl := hid'.trans hid
  obtain ⟨publication', hat', hreceived'⟩ :=
    h.call_of_answersTo hparse hclient hsubscribed hr horigin hown hq
  exact call_inj h.authentic.tracked hat hat' (h.received_inj hreceived hreceived')

/-- The broker has delivered to the client program all that reaches its subscription. -/
def AllDelivered (s : Network n k) (c : ℕ) : Prop :=
  ∀ p publication, s.publicationAt p = some publication →
    reaches (s.clients c).subscribed publication.route.sourceClientId = true →
      p ∈ (s.clients c).delivered

/-- The call has returned, and its job, if there is one, has ended. -/
def isDone (d : RequestDispatcher n k) (i : Fin k) : Bool :=
  match d.calls i, d.jobs i with
  | .returned _, .absent | .returned _, .ended _ => true
  | _, _ => false

def failed : JobPc → Bool
  | .ended threw => threw
  | _ => false

/-- A call that is done has published its answer to a valid client, unless its job threw. -/
theorem publishedOf_of_done {result : ParseResult} {d : RequestDispatcher n k} {i : Fin k}
    {acks : List (Bool × MqttAck)} {published : List (MqttRequest × MqttAck)}
    (h : RequestDispatcher.Progress result (d.calls i) (d.jobs i) acks published)
    (hdone : isDone d i = true) (hvalid : isValidClientId result.sourceClientId = true) :
    (d.jobs i = .ended true ∧ published = []) ∨
      (d.jobs i ≠ .ended true ∧ ∃ route ack, published = [(route, ack)] ∧
        RequestDispatcher.Routed result route ack) := by
  unfold isDone at hdone
  generalize d.calls i = call at h hdone
  generalize d.jobs i = job at h hdone
  cases h with
  | @rejected route ack hrouted =>
      exact Or.inr ⟨by rintro ⟨⟩, route, ack, if_pos hvalid, hrouted⟩
  | @answered route ack hrouted =>
      exact Or.inr ⟨by rintro ⟨⟩, route, ack, if_pos hvalid, hrouted⟩
  | failed => exact Or.inl ⟨rfl, rfl⟩
  | notCalled | preparing | recording | publishing | queued | executing | upserting
  | jobRecording | jobPublishing => cases hdone

/-- A client program that has subscribed under a valid client id, as `Client::Run` sets one,
is shown at most one answer to each request id, in the order of delivery; and one to each of
the requests that it has made under the subscribed id and that the server could read and is
done with, except where the job threw. -/
theorem one_answer_each (hparse : StrictParser parse) (hclient : isValidClientId client = true)
    {consoles : ℕ → ConsoleState} {ls : List (Label n k)} (htime : ∀ l ∈ ls, l.PrintableTime)
    (honce : (machine n k parse payloads).Meets (Once parse c client) (initial n k consoles) ls)
    (hrun : (machine n k parse payloads).exec (initial n k consoles) ls = some t)
    (hsubscribed : (t.clients c).subscribed = some client) :
    (t.clients c).acks = AppState.lastLines ((t.clients c).delivered.filterMap t.lineOf) ∧
    (∀ id, (t.answersTo c id).length ≤ 1) ∧
    (t.AllDelivered c → ∀ i r e sent, (i, r) ∈ t.received → t.requests[r]? = some e →
      e.origin = some sent → sent.client = c → sent.request.sourceClientId = client →
      (parseRequest parse e.payload).request = some sent.request → isDone t.server i = true →
      ((t.answersTo c sent.request.id).length = 1 ↔ t.server.jobs i ≠ .ended true)) := by
  have h := orderly_of_exec hparse hclient htime honce hrun
  have hle := h.length_answersTo_le hparse hclient hsubscribed
  refine ⟨h.shown, hle, fun hall i r e sent hreceived hr horigin hown hnamed hread hdone => ?_⟩
  obtain ⟨e', he', hpayload⟩ := Option.map_eq_some_iff.mp (h.payload _ hreceived)
  obtain rfl : e' = e := Option.some.inj (he'.symm.trans hr)
  obtain ⟨hid, hsource⟩ := parseRequest_recovered hread
  rw [hpayload] at hid hsource
  have hvalid : isValidClientId (parseRequest parse (payloads i)).sourceClientId = true := by
    rw [← hsource, hnamed]
    exact hclient
  rcases publishedOf_of_done (h.authentic.tracked.progress i) hdone hvalid with
    ⟨hthrew, hnone⟩ | ⟨hkept, route, ack, hpublished, hrouted⟩
  · -- a delivered answer would be this call's publication
    refine iff_of_false (fun hone => ?_) (fun hne => hne hthrew)
    obtain ⟨p, hp⟩ := List.exists_mem_of_length_pos (hone ▸ Nat.one_pos)
    obtain ⟨publication, hat, hgiven⟩ :=
      h.call_of_answersTo hparse hclient hsubscribed hr horigin hown hp
    have hmem := mem_publishedOf (d := t.server) (List.mem_of_getElem? hat)
    rw [h.received_inj hgiven hreceived, hnone] at hmem
    cases hmem
  · refine iff_of_true (le_antisymm (hle _) ?_) hkept
    have hmem : (route, ack) ∈ t.server.publishedOf i := hpublished ▸ List.mem_singleton_self _
    obtain ⟨publication, hfilter, hpair⟩ := List.mem_map.mp hmem
    obtain ⟨hroute, hack⟩ := Prod.mk.inj hpair
    obtain ⟨p, hat⟩ := List.getElem?_of_mem (List.mem_filter.mp hfilter).1
    have hreaches : reaches (t.clients c).subscribed publication.route.sourceClientId = true := by
      rw [hsubscribed, hroute, hrouted.source, ← hsource, hnamed]
      exact (topicMatches_ackTopicForClient hclient hclient).mpr rfl
    refine List.length_pos_of_mem (List.mem_filter.mpr ⟨hall p publication hat hreaches, ?_⟩)
    rw [publicationAt, hat, Option.any_some, decide_eq_true_iff, hack, hrouted.id, hid]

theorem one_answer_each_oneRequest :
    ∃ t, (machine 1 1 lastMemberParser requestOfA).exec (initial 1 1 fun _ => clientA)
      (oneRequest 0 0) = some t ∧ (t.answersTo 0 (ascii "a-1")).length = 1 := by
  have hend : ((machine 1 1 lastMemberParser requestOfA).exec (initial 1 1 fun _ => clientA)
      (oneRequest 0 0)).map (fun t => ((t.clients 0).subscribed, (t.clients 0).delivered, t.received)) =
      some (some (ascii "a"), [0], [(0, 0)]) := by decide +kernel
  have hsent : ((machine 1 1 lastMemberParser requestOfA).exec (initial 1 1 fun _ => clientA)
      (oneRequest 0 0)).map Network.requests =
      some [⟨some ⟨0, 1, consoleRequest clientA 1 (ascii "now")⟩, requestOfA 0⟩] := by
    decide +kernel
  have hserver : ((machine 1 1 lastMemberParser requestOfA).exec (initial 1 1 fun _ => clientA)
      (oneRequest 0 0)).map (fun t => (t.server.published.length, isDone t.server 0,
        failed (t.server.jobs 0))) = some (1, true, false) := by decide +kernel
  obtain ⟨t, hrun, hend⟩ := Option.map_eq_some_iff.mp hend
  rw [hrun, Option.map_some, Option.some.injEq] at hserver hsent
  simp only [Prod.mk.injEq] at hend hserver
  obtain ⟨hsubscribed, hdelivered, hreceived⟩ := hend
  obtain ⟨hpublished, hdone, hfailed⟩ := hserver
  have honce : (machine 1 1 lastMemberParser requestOfA).Meets
      (Once lastMemberParser 0 (ascii "a")) (initial 1 1 fun _ => clientA) (oneRequest 0 0) := by
    decide +kernel
  have hread : (parseRequest lastMemberParser (requestOfA 0)).request =
      some (consoleRequest clientA 1 (ascii "now")) := by decide +kernel
  have hall : t.AllDelivered 0 := by
    intro p publication hat _
    have hp := (List.getElem?_eq_some_iff.mp hat).1
    rw [hpublished, Nat.lt_one_iff] at hp
    rw [hdelivered, hp]
    exact List.mem_singleton_self _
  have hkept : t.server.jobs 0 ≠ .ended true := by
    intro hthrew
    rw [hthrew] at hfailed
    cases hfailed
  have hrequest : t.requests[0]? = some ⟨some ⟨0, 1, consoleRequest clientA 1 (ascii "now")⟩,
      requestOfA 0⟩ := by rw [hsent, List.getElem?_cons_zero]
  obtain ⟨-, -, hone⟩ := one_answer_each strictParser_lastMemberParser (by decide) (by decide)
    honce hrun hsubscribed
  exact ⟨t, hrun, (hone hall 0 0 _ _ (hreceived ▸ List.mem_singleton_self _) hrequest rfl rfl rfl
    hread hdone).mpr hkept⟩

end Network

end Watchlist.Protocol
