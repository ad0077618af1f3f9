import Watchlist.Mqtt.Frame

/-!
The broker's subscriptions and `subscriptions_`. A function changes the map under
the lock and calls the client after it, so the two differ by what is still on its
way: a topic in the map that the broker does not have is going to be subscribed,
and one that the broker has in excess is going to be unsubscribed. Three orders
of events break this, and the condition of the last theorem names them: a call
that reaches the client after the map has turned against it, an `Unsubscribe`
outside `Connected` of a topic that the broker already has, and a connected
callback that finds the service `Connected` over a new connection.
-/

namespace Watchlist.Mqtt

open Bytes Transition

/-- The functions of the interface and the callbacks of a client that subscriptions
depend on. -/
def Call.ofSubscriptions (c : ℕ) : Call → Prop
  | .subscribe .. | .unsubscribe _ => True
  | .connected c' _ | .connectSucceeded c' | .connectionLost c' _ => c' = c
  | _ => False

namespace Section

/-- The section is going to make the call, itself or with the topics that follow. -/
def Issues (call : TransportCall) : Section → Prop
  | .trackOperation _ call' next | .transportCall _ call' next =>
      call' = call ∨ ∃ topic ∈ next, call = .subscribe call'.client topic
  | _ => False

/-- What a callback for the connection has still to do with the lifecycle. -/
def followsConnection : Section → Bool
  | .handleConnected _ | .checkShuttingDown _ | .writeStatus .. => true
  | _ => false

/-- The sections of these functions and callbacks. -/
def InPlay (c : ℕ) : Section → Prop
  | .trackOperation _ call _ | .transportCall _ call _ =>
      ∃ topic, call = .subscribe c topic ∨ call = .unsubscribe c topic
  | .reportSection _ changesLifecycle => changesLifecycle = false
  | .writeStatus status _ => status = .reconnecting
  | .notifyState | .snapshotConsole _ | .updateConsole _ | .addActivity _ | .callStatusHandler ..
  | .callErrorHandler .. | .cancelOperation _ | .insertSubscription .. | .eraseSubscription _
  | .handleConnected _ | .checkShuttingDown _ => True
  | _ => False

theorem issues_subscribeClient {c : ℕ} {topics : List Bytes} {topic : Bytes}
    (h : topic ∈ topics) : ∃ b ∈ subscribeClient (some c) topics, b.Issues (.subscribe c topic) := by
  cases topics with
  | nil => cases h
  | cons first next =>
      refine ⟨_, List.mem_cons_self, ?_⟩
      rcases List.mem_cons.mp h with rfl | hnext
      · exact Or.inl rfl
      · exact Or.inr ⟨topic, hnext, rfl⟩

theorem inPlay_subscribeClient {c : ℕ} {topics : List Bytes} :
    ∀ b ∈ subscribeClient (some c) topics, b.InPlay c := by
  intro b hb
  obtain ⟨c', topic, next, hc, -, rfl⟩ := MqttService.mem_subscribeClient hb
  obtain rfl := Option.some.inj hc
  exact ⟨topic, Or.inl rfl⟩

end Section

namespace MqttService

variable {c : ℕ} {s t : Threads MqttService Section} {l : Threads.Label Call Choice}

/-- The key set of `subscriptions_`. -/
def topics (s : MqttService) : Finset Bytes :=
  (s.subscriptions.toList.map Subscription.topic).toFinset

theorem mem_topics {s : MqttService} {topic : Bytes} :
    topic ∈ s.topics ↔ ∃ subscription ∈ s.subscriptions, subscription.topic = topic := by
  simp [topics, KeyedMap.mem_def]

/-- Some thread is going to make the call. -/
def WillIssue (s : Threads MqttService Section) (call : TransportCall) : Prop :=
  ∃ a, s.Pending a ∧ a.Issues call

/-- `Connect` has started an attempt with client `c`. -/
structure Attempted (c : ℕ) (s : MqttService) : Prop where
  client : s.client = some c
  running : s.shuttingDown = false
  unconnected : (s.clients c).connected = false

def EntersSubscriptions (c : ℕ) : Threads.Label Call Choice → Prop
  | .enter _ call => call.ofSubscriptions c
  | .advance .. => True

/-- The client refuses a call only when it is not connected. -/
def Accepts (c : ℕ) (s : Threads MqttService Section) : Threads.Label Call Choice → Prop
  | .advance k (.throws _) | .advance k (.throwsOther _) => ∀ operation call next rest,
      s.pending k = .transportCall operation call next :: rest →
        (s.shared.clients c).connected = false
  | _ => True

/-- The three orders of events that keep map and broker together, while client `c` is
connected: a call made to the client agrees with the map, or the opposite call is
on its way; a topic that is removed outside `Connected` is not subscribed, or will
be unsubscribed; a connected callback that finds the service `Connected` finds the
topics of the connection taken, or another callback under way. -/
def InOrder (c : ℕ) (s : Threads MqttService Section) : Threads.Label Call Choice → Prop
  | .enter .. => True
  | .advance k _ => (s.shared.clients c).connected = true →
      match s.pending k with
      | .transportCall _ (.subscribe _ topic) _ :: _ =>
          topic ∈ s.shared.topics ∨ WillIssue s (.unsubscribe c topic)
      | .transportCall _ (.unsubscribe _ topic) _ :: _ =>
          topic ∉ s.shared.topics ∨ WillIssue s (.subscribe c topic)
      | .eraseSubscription topic :: _ => s.shared.status ≠ .connected →
          topic ∉ (s.shared.clients c).filters ∨ WillIssue s (.unsubscribe c topic)
      | .handleConnected _ :: _ => s.shared.status = .connected →
          (s.shared.clients c).resubscribed = true ∨
            ∃ j a, j ≠ k ∧ a ∈ s.pending j ∧ a.followsConnection = true
      | _ => True

structure SubscriptionInvariant (c : ℕ) (s : Threads MqttService Section) : Prop where
  inPlay : ∀ a, s.Pending a → a.InPlay c
  client : s.shared.client = some c
  running : s.shared.shuttingDown = false
  /-- what the broker has in excess -/
  excess : (s.shared.clients c).connected = true → ∀ topic ∈ (s.shared.clients c).filters,
    topic ∈ s.shared.topics ∨ WillIssue s (.unsubscribe c topic)
  /-- what the broker is missing -/
  missing : s.shared.status = .connected → (s.shared.clients c).connected = true →
    (s.shared.clients c).resubscribed = true → ∀ topic ∈ s.shared.topics,
      topic ∈ (s.shared.clients c).filters ∨ WillIssue s (.subscribe c topic)
  renewed : s.shared.status = .connected → (s.shared.clients c).connected = true →
    (s.shared.clients c).resubscribed = true ∨
      ∃ a, s.Pending a ∧ a.followsConnection = true

theorem subscriptionInvariant_initial {s : MqttService} (h : Attempted c s) :
    SubscriptionInvariant c (Threads.initial s) where
  inPlay := fun a ha => absurd ha ((Threads.idle_initial _).not_pending a)
  client := h.client
  running := h.running
  excess := fun hup => absurd hup (ne_true_of_eq_false h.unconnected)
  missing := fun _ hup => absurd hup (ne_true_of_eq_false h.unconnected)
  renewed := fun _ hup => absurd hup (ne_true_of_eq_false h.unconnected)

/-- With no call in progress nothing is on its way. -/
theorem SubscriptionInvariant.filters_eq (h : SubscriptionInvariant c s) (hidle : s.Idle)
    (hstatus : s.shared.status = .connected) (hup : (s.shared.clients c).connected = true) :
    (s.shared.clients c).filters = s.shared.topics := by
  have hnone : ∀ call, ¬WillIssue s call := by
    rintro call ⟨a, ha, -⟩
    exact hidle.not_pending a ha
  have hrenewed : (s.shared.clients c).resubscribed = true := by
    refine (h.renewed hstatus hup).resolve_right ?_
    rintro ⟨a, ha, -⟩
    exact hidle.not_pending a ha
  ext topic
  constructor
  · intro hmem
    exact (h.excess hup topic hmem).resolve_right (hnone _)
  · intro hmem
    exact (h.missing hstatus hup hrenewed topic hmem).resolve_right (hnone _)

/-! ### One section -/

theorem topics_insert {s s' : MqttService} {topic : Bytes} {handler : ℕ}
    (h : s'.subscriptions = s.subscriptions.insert ⟨topic, handler⟩) :
    s'.topics = insert topic s.topics := by
  ext other
  rw [mem_topics, Finset.mem_insert, mem_topics, h]
  constructor
  · rintro ⟨subscription, hmem, rfl⟩
    rcases KeyedMap.mem_insert.mp hmem with rfl | ⟨hmem, -⟩
    · exact Or.inl rfl
    · exact Or.inr ⟨subscription, hmem, rfl⟩
  · rintro (rfl | ⟨subscription, hmem, rfl⟩)
    · exact ⟨⟨other, handler⟩, KeyedMap.mem_insert.mpr (Or.inl rfl), rfl⟩
    · by_cases heq : subscription.topic = topic
      · exact ⟨⟨topic, handler⟩, KeyedMap.mem_insert.mpr (Or.inl rfl), heq.symm⟩
      · exact ⟨subscription, KeyedMap.mem_insert.mpr (Or.inr ⟨hmem, heq⟩), rfl⟩

theorem topics_erase {s s' : MqttService} {topic : Bytes}
    (h : s'.subscriptions = s.subscriptions.erase topic) :
    s'.topics = s.topics.erase topic := by
  ext other
  rw [mem_topics, Finset.mem_erase, mem_topics, h]
  constructor
  · rintro ⟨subscription, hmem, rfl⟩
    obtain ⟨hmem, hne⟩ := KeyedMap.mem_erase.mp hmem
    exact ⟨hne, subscription, hmem, rfl⟩
  · rintro ⟨hne, subscription, hmem, rfl⟩
    exact ⟨subscription, KeyedMap.mem_erase.mpr ⟨hmem, hne⟩, rfl⟩

theorem topics_congr {s s' : MqttService} (h : s'.subscriptions = s.subscriptions) :
    s'.topics = s.topics := by
  rw [topics, h, topics]

section Steps

variable {k : ℕ} {a : Section} {rest as : List Section} {s' : MqttService} {call : TransportCall}

/-- A call that is on its way stays so, as long as the section that is run does not
make it, or hands it on. -/
theorem WillIssue.become (h : WillIssue s call) (hat : s.pending k = a :: rest)
    (ha : a.Issues call → ∃ b ∈ as, b.Issues call) :
    WillIssue (s.become k s' (as ++ rest)) call := by
  obtain ⟨b, hpending, hb⟩ := h
  rcases hpending.become hat with rfl | hpending
  · obtain ⟨b', hmem, hb'⟩ := ha hb
    exact ⟨b', Threads.pending_become_of_mem hmem, hb'⟩
  · exact ⟨b, hpending, hb⟩

theorem inPlay_become (hs : SubscriptionInvariant c s) (hat : s.pending k = a :: rest)
    (hplay : ∀ b ∈ as, b.InPlay c) :
    ∀ b, (s.become k s' (as ++ rest)).Pending b → b.InPlay c :=
  Threads.forall_pending_become hat hplay hs.inPlay

/-- A section that changes neither the map nor the connection nor the lifecycle, and
hands on what it leaves to do. -/
theorem SubscriptionInvariant.become (hs : SubscriptionInvariant c s)
    (hat : s.pending k = a :: rest) (hclient : s'.client = s.shared.client)
    (hrunning : s'.shuttingDown = s.shared.shuttingDown) (hstatus : s'.status = s.shared.status)
    (hsubscriptions : s'.subscriptions = s.shared.subscriptions)
    (hclients : s'.clients c = s.shared.clients c) (hplay : ∀ b ∈ as, b.InPlay c)
    (hissues : ∀ call, a.Issues call → ∃ b ∈ as, b.Issues call)
    (hfollows : a.followsConnection = true → ∃ b ∈ as, b.followsConnection = true) :
    SubscriptionInvariant c (s.become k s' (as ++ rest)) := by
  constructor
  · exact inPlay_become hs hat hplay
  · exact hclient.trans hs.client
  · exact hrunning.trans hs.running
  · rw [Threads.shared_become, hclients, topics_congr hsubscriptions]
    intro hup topic hmem
    exact (hs.excess hup topic hmem).imp_right fun h => h.become hat (hissues _)
  · rw [Threads.shared_become, hclients, hstatus, topics_congr hsubscriptions]
    intro hconnected hup htaken topic hmem
    exact (hs.missing hconnected hup htaken topic hmem).imp_right fun h => h.become hat (hissues _)
  · rw [Threads.shared_become, hclients, hstatus]
    intro hconnected hup
    refine (hs.renewed hconnected hup).imp_right ?_
    rintro ⟨b, hpending, hb⟩
    rcases hpending.become hat with rfl | hpending
    · obtain ⟨b', hmem, hb'⟩ := hfollows hb
      exact ⟨b', Threads.pending_become_of_mem hmem, hb'⟩
    · exact ⟨b, hpending, hb⟩

/-- The callbacks for the connection that are under way stay so when another section
is run. -/
theorem follows_become (hat : s.pending k = a :: rest) (ha : a.followsConnection = false)
    (h : ∃ b, s.Pending b ∧ b.followsConnection = true) :
    ∃ b, (s.become k s' (as ++ rest)).Pending b ∧ b.followsConnection = true := by
  obtain ⟨b, hpending, hb⟩ := h
  rcases hpending.become hat with rfl | hpending
  · exact absurd hb (ne_true_of_eq_false ha)
  · exact ⟨b, hpending, hb⟩

theorem insertSubscription_step {topic : Bytes} {handler : ℕ} {choice : Choice}
    (hs : SubscriptionInvariant c s) (hat : s.pending k = .insertSubscription topic handler :: rest)
    (hsection : s.shared.runSection k (.insertSubscription topic handler) choice = some (s', as)) :
    SubscriptionInvariant c (s.become k s' (as ++ rest)) := by
  obtain ⟨hs', has⟩ := Prod.mk.inj (Option.some.inj hsection)
  have htopics : s'.topics = insert topic s.shared.topics := topics_insert (by rw [← hs'])
  have hstatus : s'.status = s.shared.status := by rw [← hs']
  have hclients : s'.clients = s.shared.clients := by rw [← hs']
  rw [hs.client] at has
  constructor
  · refine inPlay_become hs hat fun b hb => ?_
    rw [← has] at hb
    split at hb
    · exact Section.inPlay_subscribeClient b hb
    · cases hb
  · rw [← hs']
    exact hs.client
  · rw [← hs']
    exact hs.running
  · rw [Threads.shared_become, hclients, htopics]
    intro hup other hmem
    rcases hs.excess hup other hmem with hold | hissue
    · exact Or.inl (Finset.mem_insert_of_mem hold)
    · exact Or.inr (hissue.become hat nofun)
  · rw [Threads.shared_become, hclients, htopics, hstatus]
    intro hconnected hup htaken other hmem
    rcases Finset.mem_insert.mp hmem with rfl | hmem
    · -- the call for the new topic
      rw [if_pos hconnected] at has
      rw [← has]
      exact Or.inr ⟨_, Threads.pending_become_of_mem List.mem_cons_self, Or.inl rfl⟩
    · rcases hs.missing hconnected hup htaken other hmem with hold | hissue
      · exact Or.inl hold
      · exact Or.inr (hissue.become hat nofun)
  · rw [Threads.shared_become, hclients, hstatus]
    intro hconnected hup
    exact (hs.renewed hconnected hup).imp_right (follows_become hat rfl)

theorem eraseSubscription_step {topic : Bytes} {choice : Choice}
    (hs : SubscriptionInvariant c s) (hat : s.pending k = .eraseSubscription topic :: rest)
    (hc : (s.shared.clients c).connected = true → s.shared.status ≠ .connected →
      topic ∉ (s.shared.clients c).filters ∨ WillIssue s (.unsubscribe c topic))
    (hsection : s.shared.runSection k (.eraseSubscription topic) choice = some (s', as)) :
    SubscriptionInvariant c (s.become k s' (as ++ rest)) := by
  obtain ⟨hs', has⟩ := Prod.mk.inj (Option.some.inj hsection)
  have htopics : s'.topics = s.shared.topics.erase topic := topics_erase (by rw [← hs'])
  have hstatus : s'.status = s.shared.status := by rw [← hs']
  have hclients : s'.clients = s.shared.clients := by rw [← hs']
  simp only [hs.client] at has
  constructor
  · refine inPlay_become hs hat fun b hb => ?_
    rw [← has] at hb
    split at hb
    · rw [List.mem_singleton.mp hb]
      exact ⟨topic, Or.inr rfl⟩
    · cases hb
  · rw [← hs']
    exact hs.client
  · rw [← hs']
    exact hs.running
  · rw [Threads.shared_become, hclients, htopics]
    intro hup other hmem
    rcases hs.excess hup other hmem with hold | hissue
    · by_cases heq : other = topic
      · subst heq
        right
        by_cases hconnected : s.shared.status = .connected
        · rw [if_pos hconnected] at has
          rw [← has]
          exact ⟨_, Threads.pending_become_of_mem List.mem_cons_self, Or.inl rfl⟩
        · -- no call is made outside `Connected`
          rcases hc hup hconnected with hnot | hissue
          · exact absurd hmem hnot
          · exact hissue.become hat nofun
      · exact Or.inl (Finset.mem_erase.mpr ⟨heq, hold⟩)
    · exact Or.inr (hissue.become hat nofun)
  · rw [Threads.shared_become, hclients, htopics, hstatus]
    intro hconnected hup htaken other hmem
    rcases hs.missing hconnected hup htaken other (Finset.mem_of_mem_erase hmem) with hold | hissue
    · exact Or.inl hold
    · exact Or.inr (hissue.become hat nofun)
  · rw [Threads.shared_become, hclients, hstatus]
    intro hconnected hup
    exact (hs.renewed hconnected hup).imp_right (follows_become hat rfl)

/-- A subscription that the client accepts. -/
theorem accept_subscribe_step {operation : Operation} {topic : Bytes} {next : List Bytes}
    (hs : SubscriptionInvariant c s)
    (hat : s.pending k = .transportCall operation (.subscribe c topic) next :: rest)
    (hc : (s.shared.clients c).connected = true →
      topic ∈ s.shared.topics ∨ WillIssue s (.unsubscribe c topic))
    (haccept : s.shared.accept (.subscribe c topic) = some s') :
    SubscriptionInvariant c (s.become k s' (subscribeClient (some c) next ++ rest)) := by
  obtain ⟨hup, rfl⟩ := allow_eq_some.mp haccept
  constructor
  · exact inPlay_become hs hat Section.inPlay_subscribeClient
  · exact hs.client
  · exact hs.running
  · rw [Threads.shared_become, clients_setClient, if_pos rfl]
    have hother : ∀ topic', (Section.transportCall operation (.subscribe c topic) next).Issues
        (.unsubscribe c topic') → ∃ b ∈ subscribeClient (some c) next,
          b.Issues (.unsubscribe c topic') := by
      rintro topic' (⟨⟨⟩⟩ | ⟨_, -, ⟨⟩⟩)
    intro _ other hmem
    rcases Finset.mem_insert.mp hmem with rfl | hmem
    · exact (hc hup).imp_right fun h => h.become hat (hother _)
    · exact (hs.excess hup other hmem).imp_right fun h => h.become hat (hother _)
  · rw [Threads.shared_become, clients_setClient, if_pos rfl]
    intro hconnected _ htaken other hmem
    rcases hs.missing hconnected hup htaken other hmem with hold | hissue
    · exact Or.inl (Finset.mem_insert_of_mem hold)
    · by_cases heq : other = topic
      · exact Or.inl (Finset.mem_insert.mpr (Or.inl heq))
      · refine Or.inr (hissue.become hat fun hissues => ?_)
        rcases hissues with hcall | ⟨topic', hnext, hcall⟩
        · exact absurd (TransportCall.subscribe.inj hcall).2.symm heq
        · obtain ⟨-, rfl⟩ := TransportCall.subscribe.inj hcall
          exact Section.issues_subscribeClient hnext
  · rw [Threads.shared_become, clients_setClient, if_pos rfl]
    intro hconnected _
    exact (hs.renewed hconnected hup).imp_right (follows_become hat rfl)

theorem accept_unsubscribe_step {operation : Operation} {topic : Bytes} {next : List Bytes}
    (hs : SubscriptionInvariant c s)
    (hat : s.pending k = .transportCall operation (.unsubscribe c topic) next :: rest)
    (hc : (s.shared.clients c).connected = true →
      topic ∉ s.shared.topics ∨ WillIssue s (.subscribe c topic))
    (haccept : s.shared.accept (.unsubscribe c topic) = some s') :
    SubscriptionInvariant c (s.become k s' (subscribeClient (some c) next ++ rest)) := by
  obtain ⟨hup, rfl⟩ := allow_eq_some.mp haccept
  have hsubscribe : ∀ topic', (Section.transportCall operation (.unsubscribe c topic) next).Issues
      (.subscribe c topic') → ∃ b ∈ subscribeClient (some c) next,
        b.Issues (.subscribe c topic') := by
    rintro topic' (⟨⟨⟩⟩ | ⟨topic'', hnext, hcall⟩)
    obtain ⟨-, rfl⟩ := TransportCall.subscribe.inj hcall
    exact Section.issues_subscribeClient hnext
  constructor
  · exact inPlay_become hs hat Section.inPlay_subscribeClient
  · exact hs.client
  · exact hs.running
  · rw [Threads.shared_become, clients_setClient, if_pos rfl]
    intro _ other hmem
    obtain ⟨hne, hmem⟩ := Finset.mem_erase.mp hmem
    refine (hs.excess hup other hmem).imp_right fun h => h.become hat fun hissues => ?_
    rcases hissues with hcall | ⟨_, -, ⟨⟩⟩
    exact absurd (TransportCall.unsubscribe.inj hcall).2.symm hne
  · rw [Threads.shared_become, clients_setClient, if_pos rfl]
    intro hconnected _ htaken other hmem
    by_cases heq : other = topic
    · subst heq
      rcases hc hup with hnot | hissue
      · exact absurd hmem hnot
      · exact Or.inr (hissue.become hat (hsubscribe _))
    · rcases hs.missing hconnected hup htaken other hmem with hold | hissue
      · exact Or.inl (Finset.mem_erase.mpr ⟨heq, hold⟩)
      · exact Or.inr (hissue.become hat (hsubscribe _))
  · rw [Threads.shared_become, clients_setClient, if_pos rfl]
    intro hconnected _
    exact (hs.renewed hconnected hup).imp_right (follows_become hat rfl)

theorem handleConnected_step {detail : Bytes} {choice : Choice}
    (hs : SubscriptionInvariant c s) (hat : s.pending k = .handleConnected detail :: rest)
    (hc : (s.shared.clients c).connected = true → s.shared.status = .connected →
      (s.shared.clients c).resubscribed = true ∨
        ∃ j a, j ≠ k ∧ a ∈ s.pending j ∧ a.followsConnection = true)
    (hsection : s.shared.runSection k (.handleConnected detail) choice = some (s', as)) :
    SubscriptionInvariant c (s.become k s' (as ++ rest)) := by
  simp only [runSection, hs.running, Bool.false_eq_true, false_or, hs.client] at hsection
  split at hsection
  · obtain ⟨rfl, rfl⟩ := Prod.mk.inj (Option.some.inj hsection)
    constructor
    · exact inPlay_become hs hat (List.forall_mem_nil _)
    · exact hs.client
    · exact hs.running
    · intro hup other hmem
      exact (hs.excess hup other hmem).imp_right fun h => h.become hat (by rintro ⟨⟩)
    · intro hconnected hup htaken other hmem
      exact (hs.missing hconnected hup htaken other hmem).imp_right fun h => h.become hat (by rintro ⟨⟩)
    · intro hconnected hup
      refine (hc hup hconnected).imp_right ?_
      rintro ⟨j, a, hjk, hmem, ha⟩
      exact ⟨a, ⟨j, by rwa [Threads.pending_become_of_ne hjk]⟩, ha⟩
  · obtain ⟨rfl, rfl⟩ := Prod.mk.inj (Option.some.inj hsection)
    constructor
    · refine inPlay_become hs hat
        (List.forall_mem_append.mpr ⟨?_, Section.inPlay_subscribeClient⟩)
      simp [announce, Section.InPlay]
    · exact hs.client
    · exact hs.running
    · intro hup other hmem
      simp only [Threads.shared_become, clients_setClient, if_pos] at hup hmem
      exact (hs.excess hup other hmem).imp_right fun h => h.become hat (by rintro ⟨⟩)
    · -- every topic of the map is going to be subscribed
      intro _ _ _ other hmem
      obtain ⟨b, hb, hissues⟩ :=
        Section.issues_subscribeClient (c := c) (List.mem_toFinset.mp hmem)
      exact Or.inr ⟨b, Threads.pending_become_of_mem (List.mem_append_right _ hb), hissues⟩
    · intro _ hup
      simp only [Threads.shared_become, clients_setClient, if_pos] at hup ⊢
      exact Or.inl hup

theorem writeStatus_step {detail : Bytes} (hs : SubscriptionInvariant c s)
    (hat : s.pending k = .writeStatus .reconnecting detail :: rest) {choice : Choice}
    (hsection : s.shared.runSection k (.writeStatus .reconnecting detail) choice =
      some (s', as)) :
    SubscriptionInvariant c (s.become k s' (as ++ rest)) := by
  obtain ⟨rfl, rfl⟩ := Prod.mk.inj (Option.some.inj hsection)
  constructor
  · refine inPlay_become hs hat ?_
    simp [announce, Section.InPlay]
  · exact hs.client
  · exact hs.running
  · intro hup other hmem
    exact (hs.excess hup other hmem).imp_right fun h => h.become hat (by rintro ⟨⟩)
  · rintro ⟨⟩
  · rintro ⟨⟩

end Steps

/-! ### Runs -/

/-- Without a connection there is nothing to agree on. -/
theorem subscriptionInvariant_of_down {k : ℕ} {s' : MqttService} {as : List Section}
    (hplay : ∀ a, (s.become k s' as).Pending a → a.InPlay c) (hclient : s'.client = some c)
    (hrunning : s'.shuttingDown = false) (hdown : (s'.clients c).connected = false) :
    SubscriptionInvariant c (s.become k s' as) where
  inPlay := hplay
  client := hclient
  running := hrunning
  excess := fun hup => absurd hup (ne_true_of_eq_false hdown)
  missing := fun _ hup => absurd hup (ne_true_of_eq_false hdown)
  renewed := fun _ hup => absurd hup (ne_true_of_eq_false hdown)

/-- A call that changes nothing when it is entered. -/
theorem SubscriptionInvariant.enter {k : ℕ} {as : List Section} (hs : SubscriptionInvariant c s)
    (hidle : s.pending k = []) (hplay : ∀ a ∈ as, a.InPlay c) :
    SubscriptionInvariant c (s.become k s.shared as) := by
  have hissue : ∀ call, WillIssue s call → WillIssue (s.become k s.shared as) call := by
    rintro call ⟨a, hpending, ha⟩
    exact ⟨a, hpending.enter hidle, ha⟩
  constructor
  · exact Threads.forall_pending_enter hplay hs.inPlay
  · exact hs.client
  · exact hs.running
  · intro hup topic hmem
    exact (hs.excess hup topic hmem).imp_right (hissue _)
  · intro hconnected hup htaken topic hmem
    exact (hs.missing hconnected hup htaken topic hmem).imp_right (hissue _)
  · intro hconnected hup
    refine (hs.renewed hconnected hup).imp_right ?_
    rintro ⟨a, hpending, ha⟩
    exact ⟨a, hpending.enter hidle, ha⟩

theorem establish_step {k : ℕ} {detail : Bytes} (hs : SubscriptionInvariant c s)
    (hidle : s.pending k = []) :
    SubscriptionInvariant c (s.become k (s.shared.establish c) [.handleConnected detail]) := by
  have hplay : ∀ a ∈ [Section.handleConnected detail], a.InPlay c := by
    simp [Section.InPlay]
  unfold establish
  split
  · exact hs.enter hidle hplay
  · -- a new connection: no filters yet, and a callback that is going to subscribe
    constructor
    · exact Threads.forall_pending_enter hplay hs.inPlay
    · exact hs.client
    · exact hs.running
    · intro _ topic hmem
      simp at hmem
    · intro _ _ htaken
      simp at htaken
    · intro _ _
      exact Or.inr ⟨_, Threads.pending_enter_of_mem List.mem_cons_self, rfl⟩

theorem subscriptionInvariant_enter {k : ℕ} {call : Call} {s' : MqttService} {as : List Section}
    (hs : SubscriptionInvariant c s) (hidle : s.pending k = []) (hcall : call.ofSubscriptions c)
    (henter : s.shared.enter k call = some (s', as)) :
    SubscriptionInvariant c (s.become k s' as) := by
  cases call <;> try contradiction
  case subscribe topic handler =>
      obtain ⟨rfl, -⟩ := enter_api rfl henter
      apply hs.enter hidle
      simp only [MqttService.enter] at henter
      split at henter
      · obtain ⟨-, rfl⟩ := Prod.mk.inj (Option.some.inj henter)
        simp [Mqtt.reportError, Section.InPlay]
      · split at henter
        all_goals
          obtain ⟨-, rfl⟩ := Prod.mk.inj (Option.some.inj henter)
          simp [Mqtt.reportError, Section.InPlay]
  case unsubscribe topic =>
      obtain ⟨rfl, -⟩ := enter_api rfl henter
      apply hs.enter hidle
      simp only [MqttService.enter] at henter
      split at henter
      all_goals
        obtain ⟨-, rfl⟩ := Prod.mk.inj (Option.some.inj henter)
        simp [Mqtt.reportError, Section.InPlay]
  case connected c' cause =>
      obtain rfl : c' = c := hcall
      simp only [MqttService.enter] at henter
      split at henter
      · obtain ⟨rfl, rfl⟩ := Prod.mk.inj (Option.some.inj henter)
        exact establish_step hs hidle
      · contradiction
  case connectSucceeded c' =>
      obtain rfl : c' = c := hcall
      simp only [MqttService.enter] at henter
      split at henter
      · obtain ⟨rfl, rfl⟩ := Prod.mk.inj (Option.some.inj henter)
        exact establish_step hs hidle
      · contradiction
  case connectionLost c' cause =>
      obtain rfl : c' = c := hcall
      simp only [MqttService.enter] at henter
      split at henter
      · obtain ⟨rfl, rfl⟩ := Prod.mk.inj (Option.some.inj henter)
        refine subscriptionInvariant_of_down (Threads.forall_pending_enter ?_ hs.inPlay) hs.client
          hs.running ?_
        · simp [Section.InPlay]
        · simp
      · contradiction

theorem subscriptionInvariant_step (hs : SubscriptionInvariant c s)
    (hcall : EntersSubscriptions c l) (haccepts : Accepts c s l) (hc : InOrder c s l)
    (h : machine.step s l = some t) : SubscriptionInvariant c t := by
  obtain ⟨k, call, s', as, rfl, hidle, henter, rfl⟩ |
    ⟨k, choice, a, rest, s', as, rfl, hat, -, hsection, rfl⟩ := step_cases h
  · exact subscriptionInvariant_enter hs hidle hcall henter
  · have hplay := hs.inPlay a (Threads.pending_head hat)
    simp only [InOrder, hat] at hc
    cases a <;> try contradiction
    case insertSubscription topic handler => exact insertSubscription_step hs hat hsection
    case eraseSubscription topic => exact eraseSubscription_step hs hat hc hsection
    case handleConnected detail => exact handleConnected_step hs hat hc hsection
    case writeStatus status detail =>
        obtain rfl : status = .reconnecting := hplay
        exact writeStatus_step hs hat hsection
    case transportCall operation call next =>
        obtain ⟨topic, hcall⟩ := hplay
        have hclient : call.client = c := by
          rcases hcall with rfl | rfl <;> rfl
        obtain ⟨what, rfl, rfl, rfl⟩ | ⟨what, rfl, rfl, rfl⟩ | ⟨hu, rfl⟩ :=
          transportCall_cases hsection
        · -- refused: there is no connection
          rw [hclient]
          refine subscriptionInvariant_of_down (inPlay_become hs hat (List.forall_mem_append.mpr
            ⟨?_, Section.inPlay_subscribeClient⟩)) hs.client hs.running
            (haccepts operation call next rest hat)
          simp [Mqtt.reportError, Section.InPlay]
        · refine subscriptionInvariant_of_down (inPlay_become hs hat ?_) hs.client hs.running
            (haccepts operation call next rest hat)
          simp [Section.InPlay]
        · rw [hclient]
          rcases hcall with rfl | rfl
          · exact accept_subscribe_step hs hat hc hu
          · exact accept_unsubscribe_step hs hat hc hu
    case trackOperation name call next =>
        obtain ⟨rfl, rfl⟩ := Prod.mk.inj (Option.some.inj hsection)
        refine hs.become hat rfl rfl rfl rfl rfl ?_ ?_ (by rintro ⟨⟩)
        · simpa [Section.InPlay] using hplay
        · exact fun call' hissues => ⟨_, List.mem_cons_self, hissues⟩
    case checkShuttingDown detail =>
        obtain ⟨rfl, rfl⟩ := Prod.mk.inj (Option.some.inj hsection)
        refine hs.become hat rfl rfl rfl rfl rfl ?_ (by rintro _ ⟨⟩) ?_
        · simp [hs.running, Mqtt.setStatus, Section.InPlay]
        · simp [hs.running, Mqtt.setStatus, Section.followsConnection]
    case reportSection error changesLifecycle =>
        obtain rfl : changesLifecycle = false := hplay
        simp only [runSection, Bool.and_false, Bool.false_eq_true, if_false] at hsection
        obtain ⟨rfl, rfl⟩ := Prod.mk.inj (Option.some.inj hsection)
        exact hs.become hat rfl rfl rfl rfl rfl (by simp [Section.InPlay])
          (by rintro _ ⟨⟩) (by rintro ⟨⟩)
    case notifyState =>
        obtain ⟨rfl, rfl⟩ := Prod.mk.inj (Option.some.inj hsection)
        rw [notifyAll_eq]
        exact hs.become hat rfl rfl rfl rfl rfl (List.forall_mem_nil _) (by rintro _ ⟨⟩)
          (by rintro ⟨⟩)
    -- the mirror and the handlers
    all_goals
      obtain ⟨rfl, rfl⟩ := Prod.mk.inj (Option.some.inj hsection)
      exact hs.become hat rfl rfl rfl rfl rfl (by simp [Section.InPlay]) (by rintro _ ⟨⟩)
        (by rintro ⟨⟩)

/-- In a run where the calls and callbacks meet the map in order, the broker has the
topics of the map whenever the service is connected and no call is in progress. -/
theorem filters_eq_topics_of_meets {s : MqttService} {ls : List (Threads.Label Call Choice)}
    (hs : Attempted c s) (hcalls : ∀ l ∈ ls, EntersSubscriptions c l)
    (haccepts : machine.Meets (Accepts c) (Threads.initial s) ls)
    (hmeets : machine.Meets (InOrder c) (Threads.initial s) ls)
    (hrun : machine.exec (Threads.initial s) ls = some t) (hidle : t.Idle)
    (hconnected : t.shared.status = .connected) (hup : (t.shared.clients c).connected = true) :
    (t.shared.clients c).filters = t.shared.topics := by
  have hall := (hmeets.and haccepts).and (Machine.meets_of_forall
    (C := fun _ => EntersSubscriptions c) fun l hl _ => hcalls l hl)
  have hinvariant := Machine.invariant_of_meets (SubscriptionInvariant c)
    (fun _ _ _ hu hl => subscriptionInvariant_step hu hl.2 hl.1.2 hl.1.1) hall hrun
    (subscriptionInvariant_initial hs)
  exact hinvariant.filters_eq hidle hconnected hup

/-! ### Crossing calls -/

/-- The service as its first `Connect` leaves it. -/
def attemptedService : MqttService :=
  ((machine.exec (Threads.initial (MqttService.initial .initial)) (connecting 0)).get
    (by decide +kernel)).shared

theorem attempted_attemptedService : Attempted 0 attemptedService where
  client := by decide +kernel
  running := by decide +kernel
  unconnected := by decide +kernel

/-- The broker accepts the connection. -/
def accepted : List (Threads.Label Call Choice) := .enter 1 (.connected 0 []) :: steps 1 6

/-- `Unsubscribe` overtakes `Subscribe` between the map and the client. -/
def crossedCalls : List (Threads.Label Call Choice) :=
  accepted ++ .enter 2 (.subscribe [97] (some 0)) :: steps 2 2 ++
    .enter 3 (.unsubscribe [97]) :: steps 3 3 ++ steps 2 1

/-- Whether the service is connected and idle, and the two sets of topics. -/
def topicView (s : Threads MqttService Section) : Bool × Finset Bytes × Finset Bytes :=
  (s.idleBelow 4 && (s.shared.status = .connected) && (s.shared.clients 0).connected,
    (s.shared.clients 0).filters, s.shared.topics)

theorem of_topicView {ls : List (Threads.Label Call Choice)} {filters topics : Finset Bytes}
    (hls : ∀ l ∈ ls, l.thread < 4) (hrun : machine.exec (Threads.initial attemptedService) ls = some t)
    (h : topicView t = (true, filters, topics)) :
    t.Idle ∧ t.shared.status = .connected ∧ (t.shared.clients 0).connected = true ∧
      (t.shared.clients 0).filters = filters ∧ t.shared.topics = topics := by
  simp only [topicView, Prod.mk.injEq, Bool.and_eq_true, decide_eq_true_eq] at h
  obtain ⟨⟨⟨hidle, hconnected⟩, hup⟩, hfilters, htopics⟩ := h
  have hbelow := Program.below_exec ((Threads.idle_initial _).below 4) hls hrun
  exact ⟨hbelow.idle_of_idleBelow hidle, hconnected, hup, hfilters, htopics⟩

theorem subscription_is_left_over :
    ∃ t, machine.exec (Threads.initial attemptedService) crossedCalls = some t ∧
      (∀ l ∈ crossedCalls, EntersSubscriptions 0 l) ∧ t.Idle ∧ t.shared.status = .connected ∧
      (t.shared.clients 0).connected = true ∧ (t.shared.clients 0).filters = {[97]} ∧
      t.shared.topics = ∅ := by
  have hend : (machine.exec (Threads.initial attemptedService) crossedCalls).map topicView =
      some (true, {[97]}, ∅) := by
    decide +kernel
  obtain ⟨t, hrun, hobserved⟩ := Option.map_eq_some_iff.mp hend
  refine ⟨t, hrun, ?_, of_topicView (by decide) hrun hobserved⟩
  simp [crossedCalls, accepted, steps, EntersSubscriptions, Call.ofSubscriptions]

/-- A check for `InOrder`. -/
def inOrder (c : ℕ) (s : Threads MqttService Section) : Threads.Label Call Choice → Bool
  | .enter .. => true
  | .advance k _ => !(s.shared.clients c).connected ||
      match s.pending k with
      | .transportCall _ (.subscribe _ topic) _ :: _ => topic ∈ s.shared.topics
      | .transportCall _ (.unsubscribe _ topic) _ :: _ => topic ∉ s.shared.topics
      | .eraseSubscription topic :: _ =>
          s.shared.status = .connected || topic ∉ (s.shared.clients c).filters
      | .handleConnected _ :: _ =>
          s.shared.status ≠ .connected || (s.shared.clients c).resubscribed
      | _ => true

theorem inOrder_of_check (h : inOrder c s l = true) : InOrder c s l := by
  cases l with
  | enter k call => trivial
  | advance k choice =>
      intro hup
      simp only [inOrder, hup, Bool.not_true, Bool.false_or] at h
      split at h
      · exact Or.inl (of_decide_eq_true h)
      · exact Or.inl (of_decide_eq_true h)
      · intro hstatus
        simp only [hstatus, decide_false, Bool.false_or] at h
        exact Or.inl (of_decide_eq_true h)
      · intro hstatus
        simp only [hstatus, ne_eq, not_true_eq_false, decide_false, Bool.false_or] at h
        exact Or.inl h
      · trivial

/-- A topic is subscribed, and the connection is lost and comes back. -/
def reconnected : List (Threads.Label Call Choice) :=
  accepted ++ .enter 2 (.subscribe [97] (some 0)) :: steps 2 3 ++
    .enter 1 (.connectionLost 0 []) :: steps 1 7 ++ .enter 1 (.connected 0 []) :: steps 1 8

theorem filters_eq_topics_of_meets_reconnected :
    ∃ t, machine.exec (Threads.initial attemptedService) reconnected = some t ∧
      t.shared.topics = {[97]} ∧ (t.shared.clients 0).filters = t.shared.topics := by
  have hend : (machine.exec (Threads.initial attemptedService) reconnected).map topicView =
      some (true, {[97]}, {[97]}) := by
    decide +kernel
  obtain ⟨t, hrun, hobserved⟩ := Option.map_eq_some_iff.mp hend
  obtain ⟨hidle, hconnected, hup, -, htopics⟩ := of_topicView (by decide) hrun hobserved
  have hchecks : machine.Meets (fun s l => inOrder 0 s l = true)
      (Threads.initial attemptedService) reconnected := by
    decide +kernel
  have hcalls : ∀ l ∈ reconnected, EntersSubscriptions 0 l := by
    simp [reconnected, accepted, steps, EntersSubscriptions, Call.ofSubscriptions]
  have haccepts : machine.Meets (Accepts 0) (Threads.initial attemptedService) reconnected := by
    apply Machine.meets_of_forall
    simp [reconnected, accepted, steps, Accepts]
  exact ⟨t, hrun, htopics, filters_eq_topics_of_meets attempted_attemptedService hcalls haccepts
    (hchecks.mono fun _ _ => inOrder_of_check) hrun hidle hconnected hup⟩

end MqttService

end Watchlist.Mqtt
