import Watchlist.Mqtt.Frame

/-!
`Disconnect` and what comes after it. `Connect` and `Disconnect` run under
`operationMutex_`, one at a time, and `HandleConnected` and `ReportError` test
`shuttingDown_` in the section that writes the lifecycle. `connection_lost` tests
it in one section and writes in a later one: a loss that has passed its test
before `Disconnect` may be written after it. As long as that does not happen, the
service stays offline until the next `Connect`.

The proof follows the thread that holds `operationMutex_`: what it still has to do
up to its unlocking is in one of five phases, and no other thread has a section
of `Connect` or `Disconnect` at hand.
-/

namespace Watchlist.Mqtt

open Bytes Transition

/-- The arguments that `Connect` accepts. -/
def Endpoint.Valid (endpoint : Endpoint) : Prop :=
  endpoint.host ≠ [] ∧ 1 ≤ endpoint.port ∧ endpoint.port ≤ 65535 ∧ endpoint.clientId ≠ []

theorem connect_of_valid {endpoint : Endpoint} (h : endpoint.Valid) :
    connect endpoint = [.lockConnect endpoint] := by
  obtain ⟨hhost, hlow, hhigh, hclient⟩ := h
  have hport : ¬(endpoint.port < 1 ∨ 65535 < endpoint.port) := by omega
  simp only [connect, List.isEmpty_iff, if_neg hhost, if_neg hport, if_neg hclient]

namespace Section

/-- The sections that run only while their thread holds `operationMutex_`. -/
def owned : Section → Bool
  | .connectGuard _ | .createClient _ | .storeClient _ | .connectClient _ | .startDisconnect
  | .unlockOperation | .takeClient | .closeClient _ | .dropClient _ | .clearPending => true
  | .writeStatus status _ => status ≠ .reconnecting
  | _ => false

def acquires : Section → Bool
  | .lockConnect _ | .lockDisconnect => true
  | _ => false

def unlocks : Section → Bool
  | .unlockOperation => true
  | _ => false

/-- What `ReleaseClient` and the announcement of `Disconnecting` leave to do. -/
def ofRelease : Section → Bool
  | .takeClient | .closeClient _ | .dropClient _ | .clearPending
  | .writeStatus .disconnecting _ => true
  | a => !a.owned

/-- What `Connect` does after its check. -/
def ofConnect : Section → Bool
  | .takeClient | .closeClient _ | .dropClient _ | .clearPending | .writeStatus .connecting _
  | .createClient _ | .storeClient _ | .connectClient _ => true
  | a => !a.owned

theorem ofConnect_of_not_owned {a : Section} (h : a.owned = false) : a.ofConnect = true := by
  unfold ofConnect
  split <;> first | rfl | rw [h]; rfl

theorem ofRelease_of_not_owned {a : Section} (h : a.owned = false) : a.ofRelease = true := by
  unfold ofRelease
  split <;> first | rfl | rw [h]; rfl

end Section

namespace MqttService

variable {s t : Threads MqttService Section} {l : Threads.Label Call Choice}

/-- Offline, without a client, and ready for the next `Connect`. -/
structure Final (s : MqttService) : Prop where
  offline : s.status = .offline
  released : s.client = none
  reconnects : ∀ k endpoint, endpoint.Valid →
    s.enter k (.connect endpoint) = some (s, [.lockConnect endpoint]) ∧
    ∀ choice, s.runSection k (.connectGuard endpoint) choice =
      some ({ s with shuttingDown := false, disconnected := false }, connectionAttempt endpoint)

theorem final_of_offline {s : MqttService} (hstatus : s.status = .offline)
    (hclient : s.client = none) : Final s where
  offline := hstatus
  released := hclient
  reconnects k endpoint hvalid := by
    refine ⟨?_, fun choice => ?_⟩
    · simp only [enter, connect_of_valid hvalid]
    · simp only [runSection, hstatus, reduceCtorEq, or_self, if_false]

/-- A lost connection is not written as `Reconnecting` after `Disconnect` has written
`Offline`. -/
def LossInTime (s : Threads MqttService Section) : Threads.Label Call Choice → Prop
  | .advance k _ => ∀ detail rest, s.pending k = .writeStatus .reconnecting detail :: rest →
      s.shared.disconnected = false
  | .enter .. => True

/-- The label enters no private function by itself. -/
def EntersPublic : Threads.Label Call Choice → Prop
  | .enter _ call => call.isPublic = true
  | .advance .. => True

/-! ### The thread that holds the mutex -/

/-- What the holder of `operationMutex_` still has to do before it unlocks. -/
inductive Phase (s : MqttService) : List Section → Prop
  | guard (endpoint : Endpoint) : Phase s [.connectGuard endpoint]
  | connecting {todo : List Section} (h : ∀ a ∈ todo, a.ofConnect = true)
      (hdisconnected : s.disconnected = false) : Phase s todo
  | start : Phase s [.startDisconnect]
  | stopping {todo : List Section} (detail : Bytes) (h : ∀ a ∈ todo, a.ofRelease = true)
      (hshutting : s.shuttingDown = true) (hclient : .takeClient ∈ todo ∨ s.client = none)
      (hannounce : ∀ detail, .writeStatus .disconnecting detail ∈ todo → s.disconnected = false) :
      Phase s (todo ++ [.writeStatus .offline detail])
  | leaving {todo : List Section} (h : ∀ a ∈ todo, a.owned = false) : Phase s todo

/-- What a thread has at hand: no section of `Connect` or `Disconnect`, or one of the
phases before the unlocking. -/
def AtHand (s : MqttService) (as : List Section) : Prop :=
  (∀ a ∈ as, a.owned = false) ∨
    ∃ todo rest, as = todo ++ .unlockOperation :: rest ∧ (∀ a ∈ rest, a.owned = false) ∧
      Phase s todo

structure DisconnectInvariant (s : Threads MqttService Section) : Prop where
  holder : s.Single Section.unlocks
  locked : ∀ a, s.Pending a → a.unlocks = true → s.shared.operationLocked = true
  threads : ∀ k, AtHand s.shared (s.pending k)
  final : s.shared.disconnected = true → s.shared.status = .offline ∧ s.shared.client = none ∧
    s.shared.shuttingDown = true

theorem disconnectInvariant_initial (app : AppState) :
    DisconnectInvariant (Threads.initial (MqttService.initial app)) where
  holder := (Threads.idle_initial _).single
  locked := fun a ha => absurd ha ((Threads.idle_initial _).not_pending a)
  threads := fun _ => Or.inl nofun
  final := nofun

/-- A thread without the unlocking at hand is outside `Connect` and `Disconnect`. -/
theorem AtHand.not_owned {s : MqttService} {as : List Section} (h : AtHand s as)
    (hnone : ∀ a ∈ as, a.unlocks = false) : ∀ a ∈ as, a.owned = false := by
  obtain hfree | ⟨todo, rest, rfl, -, -⟩ := h
  · exact hfree
  · have := hnone .unlockOperation (List.mem_append_right todo List.mem_cons_self)
    cases this

/-! ### Sections outside `Connect` and `Disconnect` -/

section Sections

variable {k : ℕ} {s s' : MqttService} {a : Section} {x : Choice} {as : List Section}

theorem unowned_fields (ha : a.owned = false) (h : s.runSection k a x = some (s', as)) :
    s'.disconnected = s.disconnected ∧ s'.shuttingDown = s.shuttingDown ∧
      s'.client = s.client := by
  have hframe := frame_runSection h
  refine ⟨?_, hframe.shuttingDown ?_, hframe.client ?_⟩
  · cases hw : a.writesDisconnected with
    | false => exact hframe.disconnected hw
    | true =>
        cases a <;> try contradiction
        case writeStatus status detail =>
            obtain rfl : status = .reconnecting := by simpa [Section.owned] using ha
            obtain ⟨rfl, -⟩ := Prod.mk.inj (Option.some.inj h)
            rfl
  · cases a <;> first | rfl | cases ha
  · cases a <;> first | rfl | cases ha

/-- The sections of `Connect` and `Disconnect` follow from each other, once the mutex
is locked. -/
theorem owned_of_origin {b : Section} (h : Origin s s' a b) (hb : b.owned = true) :
    a.owned = true ∨ a.acquires = true := by
  cases b <;> try contradiction
  case writeStatus status detail =>
      obtain ⟨endpoint, rfl, -⟩ | ⟨rfl, -⟩ | ⟨detail, rfl, rfl, -⟩ := h
      · exact Or.inl rfl
      · exact Or.inl rfl
      · cases hb
  case connectGuard endpoint =>
      rw [show a = .lockConnect endpoint from h]
      exact Or.inr rfl
  case startDisconnect =>
      rw [show a = .lockDisconnect from h]
      exact Or.inr rfl
  case createClient endpoint =>
      rw [show a = .connectGuard endpoint from h]
      exact Or.inl rfl
  case storeClient | connectClient =>
      obtain ⟨endpoint, rfl⟩ := h
      exact Or.inl rfl
  case unlockOperation =>
      obtain ⟨endpoint, rfl⟩ | rfl := h
      · exact Or.inr rfl
      · exact Or.inr rfl
  case takeClient =>
      obtain ⟨endpoint, rfl⟩ | rfl := h
      · exact Or.inl rfl
      · exact Or.inl rfl
  case closeClient | dropClient | clearPending =>
      rw [show a = .takeClient from h]
      exact Or.inl rfl

/-- Locking `operationMutex_`. -/
theorem acquires_cases (ha : a.acquires = true) (h : s.runSection k a x = some (s', as)) :
    s.operationLocked = false ∧ s'.operationLocked = true ∧
      ∃ b, as = [b, .unlockOperation] ∧ b.unlocks = false ∧ Phase s' [b] := by
  cases a <;> try contradiction
  case lockConnect endpoint =>
      simp only [runSection] at h
      split at h
      · contradiction
      · rename_i hfree
        obtain ⟨rfl, rfl⟩ := Prod.mk.inj (Option.some.inj h)
        exact ⟨Bool.eq_false_of_not_eq_true hfree, rfl, _, rfl, rfl, .guard endpoint⟩
  case lockDisconnect =>
      simp only [runSection] at h
      split at h
      · contradiction
      · rename_i hfree
        obtain ⟨rfl, rfl⟩ := Prod.mk.inj (Option.some.inj h)
        exact ⟨Bool.eq_false_of_not_eq_true hfree, rfl, _, rfl, rfl, .start⟩

/-- `ReportError` and `HandleConnected` see `shuttingDown_`, so a section outside
`Connect` and `Disconnect` leaves the service as `Disconnect` has left it. -/
theorem final_of_unowned (ha : a.owned = false)
    (hloss : ∀ detail, a = .writeStatus .reconnecting detail → s.disconnected = false)
    (h : s.runSection k a x = some (s', as))
    (hfinal : s.disconnected = true → s.status = .offline ∧ s.client = none ∧
      s.shuttingDown = true) :
    s'.disconnected = true → s'.status = .offline ∧ s'.client = none ∧ s'.shuttingDown = true := by
  obtain ⟨hdisconnected, hshutting, hclient⟩ := unowned_fields ha h
  rw [hdisconnected, hshutting, hclient]
  intro hd
  obtain ⟨hstatus, hrest⟩ := hfinal hd
  refine ⟨?_, hrest⟩
  rw [← hstatus]
  cases hw : a.writesStatus with
  | false => exact (frame_runSection h).status hw
  | true =>
      cases a <;> try contradiction
      case writeStatus status detail =>
          obtain rfl : status = .reconnecting := by simpa [Section.owned] using ha
          exact absurd hd (ne_true_of_eq_false (hloss detail rfl))
      case reportSection error changesLifecycle =>
          simp only [runSection, hrest.2, Bool.not_true, Bool.false_and, Bool.false_eq_true,
            if_false] at h
          obtain ⟨rfl, -⟩ := Prod.mk.inj (Option.some.inj h)
          rfl
      case handleConnected detail =>
          simp only [runSection, hrest.2, true_or, if_true] at h
          obtain ⟨rfl, -⟩ := Prod.mk.inj (Option.some.inj h)
          rfl

/-! ### What the holder does next -/

theorem ofConnect_of_origin {b : Section} (h : Origin s s' a b) (ha : a.ofConnect = true)
    (hacquires : a.acquires = false) : b.ofConnect = true := by
  cases hb : b.owned with
  | false => exact Section.ofConnect_of_not_owned hb
  | true =>
      cases b <;> try contradiction
      case writeStatus status detail =>
          obtain ⟨endpoint, rfl, -⟩ | ⟨rfl, -⟩ | ⟨detail, rfl, rfl, -⟩ := h
          · cases ha
          · cases ha
          · cases hb
      case connectGuard endpoint =>
          rw [show a = .lockConnect endpoint from h] at hacquires
          cases hacquires
      case startDisconnect =>
          rw [show a = .lockDisconnect from h] at hacquires
          cases hacquires
      case unlockOperation =>
          obtain ⟨endpoint, rfl⟩ | rfl := h
          · cases hacquires
          · cases hacquires
      all_goals rfl

theorem ofRelease_of_origin {b : Section} (h : Origin s s' a b) (ha : a.ofRelease = true)
    (hacquires : a.acquires = false) :
    b.ofRelease = true ∧ ∀ detail, b ≠ .writeStatus .disconnecting detail := by
  cases hb : b.owned with
  | false =>
      refine ⟨Section.ofRelease_of_not_owned hb, ?_⟩
      rintro detail rfl
      cases hb
  | true =>
      cases b <;> try contradiction
      case writeStatus status detail =>
          obtain ⟨endpoint, rfl, -⟩ | ⟨rfl, -⟩ | ⟨detail, rfl, rfl, -⟩ := h
          · cases ha
          · cases ha
          · cases hb
      case connectGuard endpoint =>
          rw [show a = .lockConnect endpoint from h] at hacquires
          cases hacquires
      case startDisconnect =>
          rw [show a = .lockDisconnect from h] at hacquires
          cases hacquires
      case createClient endpoint =>
          rw [show a = .connectGuard endpoint from h] at ha
          cases ha
      case storeClient | connectClient =>
          obtain ⟨endpoint, rfl⟩ := h
          cases ha
      case unlockOperation =>
          obtain ⟨endpoint, rfl⟩ | rfl := h
          · cases hacquires
          · cases hacquires
      all_goals exact ⟨rfl, by simp⟩

/-- A section of `Connect` after its check does not end in `Offline`. -/
theorem disconnected_of_ofConnect (ha : a.ofConnect = true)
    (h : s.runSection k a x = some (s', as)) (hs : s.disconnected = false) :
    s'.disconnected = false := by
  cases hw : a.writesDisconnected with
  | false => rw [(frame_runSection h).disconnected hw, hs]
  | true =>
      cases a <;> try contradiction
      case writeStatus status detail =>
          obtain ⟨rfl, -⟩ := Prod.mk.inj (Option.some.inj h)
          cases status <;> first | exact hs | cases ha

/-- A section before the last one of `Disconnect` keeps `shuttingDown_`, and leaves
no client once it has been taken. -/
theorem stopping_of_ofRelease (ha : a.ofRelease = true)
    (h : s.runSection k a x = some (s', as)) :
    s'.shuttingDown = s.shuttingDown ∧ s'.disconnected = s.disconnected ∧
      (a = .takeClient ∨ s.client = none → s'.client = none) := by
  have hframe := frame_runSection h
  refine ⟨hframe.shuttingDown ?_, ?_, ?_⟩
  · cases a <;> first | rfl | cases ha
  · cases hw : a.writesDisconnected with
    | false => exact hframe.disconnected hw
    | true =>
        cases a <;> try contradiction
        case writeStatus status detail =>
            obtain ⟨rfl, -⟩ := Prod.mk.inj (Option.some.inj h)
            cases status <;> first | rfl | cases ha
  · intro hnone
    by_cases htake : a = .takeClient
    · subst htake
      obtain ⟨rfl, -⟩ := Prod.mk.inj (Option.some.inj h)
      rfl
    · rw [hframe.client ?_]
      · exact hnone.resolve_left htake
      · cases a <;> first | rfl | contradiction

/-- One section of the thread that holds `operationMutex_`. -/
theorem phase_step {todo : List Section} (hphase : Phase s (a :: todo))
    (hacquires : a.acquires = false)
    (hloss : ∀ detail, a = .writeStatus .reconnecting detail → s.disconnected = false)
    (h : s.runSection k a x = some (s', as))
    (hfinal : s.disconnected = true → s.status = .offline ∧ s.client = none ∧
      s.shuttingDown = true) :
    Phase s' (as ++ todo) ∧ (s'.disconnected = true →
      s'.status = .offline ∧ s'.client = none ∧ s'.shuttingDown = true) := by
  have horigin := origin_runSection h
  generalize htodo : a :: todo = all at hphase
  cases hphase with
  | guard endpoint =>
      obtain ⟨rfl, rfl⟩ := List.cons.inj htodo
      simp only [runSection] at h
      split at h
      · obtain ⟨rfl, rfl⟩ := Prod.mk.inj (Option.some.inj h)
        exact ⟨.leaving (List.forall_mem_nil _), hfinal⟩
      · obtain ⟨rfl, rfl⟩ := Prod.mk.inj (Option.some.inj h)
        refine ⟨.connecting ?_ rfl, by rintro ⟨⟩⟩
        simp [connectionAttempt, setStatus, Section.ofConnect]
  | connecting hall hdisconnected =>
      subst htodo
      obtain ⟨ha, hrest⟩ := List.forall_mem_cons.mp hall
      have hstill := disconnected_of_ofConnect ha h hdisconnected
      refine ⟨.connecting (List.forall_mem_append.mpr ⟨fun b hb => ?_, hrest⟩) hstill, ?_⟩
      · exact ofConnect_of_origin (horigin b hb) ha hacquires
      · exact fun hd => absurd hd (ne_true_of_eq_false hstill)
  | start =>
      obtain ⟨rfl, rfl⟩ := List.cons.inj htodo
      obtain ⟨rfl, rfl⟩ := Prod.mk.inj (Option.some.inj h)
      have hsplit : ∀ front : List Section,
          front ++ .takeClient :: setStatus .offline (ascii "Offline") ++ [] =
            front ++ [.takeClient] ++ [.writeStatus .offline (ascii "Offline")] := by
        simp [setStatus]
      constructor
      · rw [hsplit]
        refine .stopping _ ?_ rfl (Or.inl (by simp)) ?_
        · split <;> simp [setStatus, Section.ofRelease]
        · -- with a client left, the last `Disconnect` is not the last word
          intro detail hdetail
          by_contra hd
          have hnone := (hfinal (Bool.eq_true_of_not_eq_false hd)).2.1
          simp [hnone] at hdetail
      · exact fun hd => ⟨(hfinal hd).1, (hfinal hd).2.1, rfl⟩
  | @stopping front detail hall hshutting hclient hannounce =>
      obtain ⟨rfl, hlast⟩ | ⟨front', rfl, rfl⟩ := List.cons_eq_append_iff.mp htodo
      · -- `Offline` is written
        obtain ⟨rfl, rfl⟩ := List.cons.inj hlast
        obtain ⟨rfl, rfl⟩ := Prod.mk.inj (Option.some.inj h)
        refine ⟨.leaving (by simp [announce, Section.owned]), fun _ => ⟨rfl, ?_, hshutting⟩⟩
        exact hclient.resolve_left (by rintro ⟨⟩)
      · obtain ⟨ha, hrest⟩ := List.forall_mem_cons.mp hall
        obtain ⟨hkeeps, hsame, hnone⟩ := stopping_of_ofRelease ha h
        rw [← List.append_assoc]
        constructor
        · refine .stopping detail ?_ (hkeeps.trans hshutting) ?_ ?_
          · refine List.forall_mem_append.mpr ⟨fun b hb => ?_, hrest⟩
            exact (ofRelease_of_origin (horigin b hb) ha hacquires).1
          · rcases hclient with htake | hnoclient
            · rcases List.mem_cons.mp htake with htake | htake
              · exact Or.inr (hnone (Or.inl htake.symm))
              · exact Or.inl (List.mem_append_right as htake)
            · exact Or.inr (hnone (Or.inr hnoclient))
          · intro detail' hdetail
            rw [hsame]
            rcases List.mem_append.mp hdetail with hnew | hold
            · exact absurd rfl ((ofRelease_of_origin (horigin _ hnew) ha hacquires).2 detail')
            · exact hannounce detail' (List.mem_cons_of_mem a hold)
        · cases howned : a.owned with
          | false => exact final_of_unowned howned hloss h hfinal
          | true =>
              rw [hsame, hkeeps]
              intro hd
              obtain ⟨hstatus, hnoclient, hshut⟩ := hfinal hd
              refine ⟨?_, hnone (Or.inr hnoclient), hshut⟩
              rw [← hstatus]
              apply (frame_runSection h).status
              cases a <;> try first | rfl | contradiction
              case writeStatus status detail' =>
                  cases status <;> try contradiction
                  case disconnecting =>
                      exact absurd hd (ne_true_of_eq_false
                        (hannounce detail' List.mem_cons_self))
  | leaving hall =>
      subst htodo
      obtain ⟨ha, hrest⟩ := List.forall_mem_cons.mp hall
      refine ⟨.leaving (List.forall_mem_append.mpr ⟨fun b hb => ?_, hrest⟩),
        final_of_unowned ha hloss h hfinal⟩
      apply Bool.eq_false_of_not_eq_true
      intro howns
      rcases owned_of_origin (horigin b hb) howns with howned | hacq
      · exact ne_true_of_eq_false ha howned
      · exact ne_true_of_eq_false hacquires hacq

end Sections

/-! ### Runs -/

theorem Phase.congr {s s' : MqttService} {as : List Section} (h : Phase s as)
    (hdisconnected : s'.disconnected = s.disconnected)
    (hshutting : s'.shuttingDown = s.shuttingDown) (hclient : s'.client = s.client) :
    Phase s' as := by
  cases h with
  | guard endpoint => exact .guard endpoint
  | connecting hall hd => exact .connecting hall (hdisconnected.trans hd)
  | start => exact .start
  | stopping detail hall hshut hnone hannounce =>
      refine .stopping detail hall (hshutting.trans hshut) ?_ ?_
      · rwa [hclient]
      · rwa [hdisconnected]
  | leaving hall => exact .leaving hall

theorem AtHand.congr {s s' : MqttService} {as : List Section} (h : AtHand s as)
    (hdisconnected : s'.disconnected = s.disconnected)
    (hshutting : s'.shuttingDown = s.shuttingDown) (hclient : s'.client = s.client) :
    AtHand s' as := by
  obtain hfree | ⟨todo, rest, rfl, hrest, hphase⟩ := h
  · exact Or.inl hfree
  · exact Or.inr ⟨todo, rest, rfl, hrest, hphase.congr hdisconnected hshutting hclient⟩

theorem not_owned_of_enter {k : ℕ} {s s' : MqttService} {call : Call} {as : List Section}
    (hcall : call.isPublic = true) (h : s.enter k call = some (s', as)) :
    ∀ b ∈ as, b.owned = false := by
  intro b hb
  rcases enter_sections h b hb with henters | ⟨status, detail, rfl, -⟩
  · cases b <;> first | rfl | cases henters
  · cases hcall

theorem not_unlocks_of_not_owned {a : Section} (h : a.owned = false) : a.unlocks = false := by
  cases a <;> first | rfl | cases h

theorem disconnectInvariant_step (hs : DisconnectInvariant s) (hpublic : EntersPublic l)
    (hc : LossInTime s l) (h : machine.step s l = some t) : DisconnectInvariant t := by
  obtain ⟨k, call, s', as, rfl, hidle, hcall, rfl⟩ |
    ⟨k, choice, a, rest, s', as, rfl, hat, -, hsection, rfl⟩ := step_cases h
  · have hfree := not_owned_of_enter hpublic hcall
    have hsame := enter_eq hcall
    constructor
    · exact hs.holder.enter fun b hb => not_unlocks_of_not_owned (hfree b hb)
    · intro b hb hunlocks
      rw [Threads.shared_become, show s'.operationLocked = s.shared.operationLocked from
        congrArg (·.operationLocked) hsame]
      rcases Threads.pending_of_enter hb with hnew | hold
      · exact absurd hunlocks (ne_true_of_eq_false (not_unlocks_of_not_owned (hfree b hnew)))
      · exact hs.locked b hold hunlocks
    · intro j
      rw [Threads.pending_become]
      split
      · exact Or.inl hfree
      · exact (hs.threads j).congr (congrArg (·.disconnected) hsame)
          (congrArg (·.shuttingDown) hsame) (congrArg (·.client) hsame)
    · rw [Threads.shared_become, show s'.disconnected = s.shared.disconnected from
        congrArg (·.disconnected) hsame, show s'.status = s.shared.status from
        congrArg (·.status) hsame, show s'.client = s.shared.client from
        congrArg (·.client) hsame, show s'.shuttingDown = s.shared.shuttingDown from
        congrArg (·.shuttingDown) hsame]
      exact hs.final
  · have hloss : ∀ detail, a = .writeStatus .reconnecting detail →
        s.shared.disconnected = false := by
      rintro detail rfl
      exact hc detail rest hat
    have hthread := hs.threads k
    rw [hat] at hthread
    obtain hfree | ⟨todo, rest', hsplit, hrest', hphase⟩ := hthread
    · -- a section outside `Connect` and `Disconnect`
      obtain ⟨ha, hrest⟩ := List.forall_mem_cons.mp hfree
      obtain ⟨hdisconnected, hshutting, hclient⟩ := unowned_fields ha hsection
      have hfinal := final_of_unowned ha hloss hsection hs.final
      have hothers : ∀ j, j ≠ k → AtHand s' ((s.become k s' (as ++ rest)).pending j) := by
        intro j hjk
        rw [Threads.pending_become_of_ne hjk]
        exact (hs.threads j).congr hdisconnected hshutting hclient
      by_cases hacquires : a.acquires = true
      · obtain ⟨hunlocked, hlocked, b, rfl, hb, hphase⟩ := acquires_cases hacquires hsection
        have hnone : ∀ b, s.Pending b → b.unlocks = false := by
          intro b hb
          apply Bool.eq_false_of_not_eq_true
          intro hunlocks
          exact ne_true_of_eq_false hunlocked (hs.locked b hb hunlocks)
        refine ⟨Threads.Single.acquire_append hnone hat ?_, fun _ _ _ => hlocked, fun j => ?_, hfinal⟩
        · rw [List.countP_cons_of_neg (ne_true_of_eq_false hb)]
          exact List.countP_le_length
        · by_cases hjk : j = k
          · rw [hjk, Threads.pending_become_self]
            exact Or.inr ⟨[b], rest, rfl, hrest, hphase⟩
          · exact hothers j hjk
      · have hnew : ∀ b ∈ as, b.owned = false := by
          intro b hb
          apply Bool.eq_false_of_not_eq_true
          intro howned
          rcases owned_of_origin (origin_runSection hsection b hb) howned with h | h
          · exact ne_true_of_eq_false ha h
          · exact hacquires h
        refine ⟨hs.holder.become hat ?_, fun b hb hunlocks => ?_, fun j => ?_, hfinal⟩
        · rw [List.countP_eq_zero.mpr fun b hb =>
            ne_true_of_eq_false (not_unlocks_of_not_owned (hnew b hb))]
          exact Nat.zero_le _
        · rw [Threads.shared_become, (frame_runSection hsection).operationLocked ?_]
          · rcases Threads.pending_of_become hat hb with hmem | hold
            · exact absurd hunlocks
                (ne_true_of_eq_false (not_unlocks_of_not_owned (hnew b hmem)))
            · exact hs.locked b hold hunlocks
          · cases a <;> first | rfl | contradiction
        · by_cases hjk : j = k
          · rw [hjk, Threads.pending_become_self]
            exact Or.inl (List.forall_mem_append.mpr ⟨hnew, hrest⟩)
          · exact hothers j hjk
    · -- the thread that holds the mutex: all others are outside
      have hmine : Section.unlockOperation ∈ s.pending k := by
        rw [hat, hsplit]
        exact List.mem_append_right todo List.mem_cons_self
      have hlocked := hs.locked _ ⟨k, hmine⟩ rfl
      have hothers : ∀ s' as j, j ≠ k → AtHand s' ((s.become k s' as).pending j) := by
        intro s' as j hjk
        rw [Threads.pending_become_of_ne hjk]
        refine Or.inl ((hs.threads j).not_owned fun b hb => ?_)
        apply Bool.eq_false_of_not_eq_true
        intro hunlocks
        exact hjk (hs.holder.alone j k b _ hb hmine hunlocks rfl)
      have hacquires : a.acquires = false := by
        apply Bool.eq_false_of_not_eq_true
        intro hacquires
        exact ne_true_of_eq_false (acquires_cases hacquires hsection).1 hlocked
      obtain ⟨rfl, hlast⟩ | ⟨todo', rfl, rfl⟩ := List.cons_eq_append_iff.mp hsplit
      · -- it unlocks
        obtain ⟨rfl, rfl⟩ := List.cons.inj hlast
        obtain ⟨hs', rfl⟩ := Prod.mk.inj (Option.some.inj hsection)
        have hnone : ∀ b, (s.become k s' ([] ++ rest')).Pending b → b.unlocks = false :=
          hs.holder.release hat rfl nofun
        subst hs'
        refine ⟨Threads.single_of_none hnone, fun b hb hunlocks => ?_, fun j => ?_, hs.final⟩
        · exact absurd hunlocks (ne_true_of_eq_false (hnone b hb))
        · by_cases hjk : j = k
          · rw [hjk, Threads.pending_become_self]
            exact Or.inl hrest'
          · exact hothers _ _ j hjk
      · obtain ⟨hphase', hfinal⟩ := phase_step hphase hacquires hloss hsection hs.final
        have ha : a.unlocks = false := by
          apply Bool.eq_false_of_not_eq_true
          intro hunlocks
          have hnone := (hs.holder.others hat hunlocks).1 .unlockOperation (by simp)
          cases hnone
        have hnew : ∀ b ∈ as, b.unlocks = false := by
          intro b hb
          apply Bool.eq_false_of_not_eq_true
          intro hunlocks
          cases b <;> try contradiction
          obtain ⟨endpoint, rfl⟩ | rfl := origin_runSection hsection _ hb
          · cases hacquires
          · cases hacquires
        refine ⟨hs.holder.become hat ?_, fun b hb hunlocks => ?_, fun j => ?_, hfinal⟩
        · rw [List.countP_eq_zero.mpr fun b hb => ne_true_of_eq_false (hnew b hb)]
          exact Nat.zero_le _
        · rw [Threads.shared_become, (frame_runSection hsection).operationLocked ?_]
          · exact hlocked
          · cases a <;> first | rfl | contradiction
        · by_cases hjk : j = k
          · rw [hjk, Threads.pending_become_self]
            exact Or.inr ⟨as ++ todo', rest', by simp, hrest', hphase'⟩
          · exact hothers _ _ j hjk

/-- A loss that is written after `Disconnect` leaves a lifecycle in which the next
`Connect` does nothing. -/
theorem not_final_of_late_loss {k : ℕ} {detail : Bytes} {rest : List Section} {choice : Choice}
    (hat : s.pending k = .writeStatus .reconnecting detail :: rest) (hfree : s.shared.held = false)
    (hdisconnected : s.shared.disconnected = true) :
    ∃ t, machine.step s (.advance k choice) = some t ∧ t.shared.disconnected = true ∧
      t.shared.status = .reconnecting ∧ ∀ j endpoint choice,
        t.shared.runSection j (.connectGuard endpoint) choice = some (t.shared, []) := by
  obtain ⟨u, hstep, hd, hstatus⟩ : ∃ u, machine.step s (.advance k choice) = some u ∧
      u.shared.disconnected = true ∧ u.shared.status = .reconnecting := by
    refine ⟨_, Program.step_of_moves (.advance hat (run_eq_some.mpr ⟨fun _ => hfree, rfl⟩)), ?_⟩
    exact ⟨hdisconnected, rfl⟩
  refine ⟨u, hstep, hd, hstatus, fun j endpoint choice => ?_⟩
  simp only [runSection, hstatus, reduceCtorEq, or_true, if_true]

/-- In a run where no loss is written too late, the service stays offline after
`Disconnect`, without a client, and ready for the next `Connect`. -/
theorem final_of_meets {app : AppState} {ls : List (Threads.Label Call Choice)}
    (hpublic : ∀ l ∈ ls, EntersPublic l)
    (hmeets : machine.Meets LossInTime (Threads.initial (MqttService.initial app)) ls)
    (hrun : machine.exec (Threads.initial (MqttService.initial app)) ls = some t)
    (hdisconnected : t.shared.disconnected = true) : Final t.shared := by
  have hboth := hmeets.and (Machine.meets_of_forall (C := fun _ => EntersPublic)
    fun l hl _ => hpublic l hl)
  have hinvariant := Machine.invariant_of_meets DisconnectInvariant
    (fun _ _ _ hs hc => disconnectInvariant_step hs hc.2 hc.1) hboth hrun
    (disconnectInvariant_initial app)
  obtain ⟨hstatus, hclient, -⟩ := hinvariant.final hdisconnected
  exact final_of_offline hstatus hclient

/-! ### A loss next to `Disconnect` -/

/-- The service is connected; thread 1 makes the callbacks. -/
def connectedRun : List (Threads.Label Call Choice) :=
  connecting 0 ++ .enter 1 (.connected 0 []) :: steps 1 6

/-- `Disconnect`, whole. -/
def disconnecting : List (Threads.Label Call Choice) := .enter 0 .disconnect :: steps 0 19

/-- The loss of the connection, up to the test of `shuttingDown_`. -/
def losing : List (Threads.Label Call Choice) := .enter 1 (.connectionLost 0 []) :: steps 1 1

/-- The lifecycle, whether `Disconnect` is the last word, and what two threads still
have to do. -/
def disconnectView (s : Threads MqttService Section) : LifecycleStatus × Bool × ℕ × ℕ :=
  (s.shared.status, s.shared.disconnected, (s.pending 0).length, (s.pending 1).length)

theorem loss_is_written_late :
    ∃ t, machine.exec (Threads.initial (MqttService.initial .initial))
        (connectedRun ++ losing ++ disconnecting ++ steps 1 6) = some t ∧
      t.Idle ∧ t.shared.disconnected = true ∧ t.shared.status = .reconnecting ∧
      ¬Final t.shared := by
  have hend : (machine.exec (Threads.initial (MqttService.initial .initial))
      (connectedRun ++ losing ++ disconnecting ++ steps 1 6)).map disconnectView =
        some (.reconnecting, true, 0, 0) := by
    decide +kernel
  obtain ⟨t, hrun, hobserved⟩ := Option.map_eq_some_iff.mp hend
  simp only [disconnectView, Prod.mk.injEq, List.length_eq_zero_iff] at hobserved
  obtain ⟨hstatus, hdisconnected, hzero, hone⟩ := hobserved
  have hbelow := Program.below_exec ((Threads.idle_initial _).below 2) (by decide) hrun
  refine ⟨t, hrun, hbelow.idle fun k hk => ?_, hdisconnected, hstatus, fun hfinal => ?_⟩
  · obtain rfl | rfl : k = 0 ∨ k = 1 := by omega
    · exact hzero
    · exact hone
  · rw [hfinal.offline] at hstatus
    cases hstatus

/-- A check for `LossInTime`. -/
def lossInTime (s : Threads MqttService Section) : Threads.Label Call Choice → Bool
  | .advance k _ =>
      match s.pending k with
      | .writeStatus .reconnecting _ :: _ => !s.shared.disconnected
      | _ => true
  | .enter .. => true

theorem lossInTime_of_check (h : lossInTime s l = true) : LossInTime s l := by
  cases l with
  | enter k call => trivial
  | advance k choice =>
      intro detail rest hat
      simpa only [lossInTime, hat, Bool.not_eq_true'] using h

/-- The loss is written before `Disconnect`. -/
theorem final_of_meets_connected :
    ∃ t, machine.exec (Threads.initial (MqttService.initial .initial))
        (connectedRun ++ losing ++ steps 1 6 ++ disconnecting) = some t ∧ Final t.shared := by
  have hend : (machine.exec (Threads.initial (MqttService.initial .initial))
      (connectedRun ++ losing ++ steps 1 6 ++ disconnecting)).map disconnectView =
        some (.offline, true, 0, 0) := by
    decide +kernel
  obtain ⟨t, hrun, hobserved⟩ := Option.map_eq_some_iff.mp hend
  have hchecks : machine.Meets (fun s l => lossInTime s l = true)
      (Threads.initial (MqttService.initial .initial))
      (connectedRun ++ losing ++ steps 1 6 ++ disconnecting) := by
    decide +kernel
  refine ⟨t, hrun, final_of_meets ?_ (hchecks.mono fun _ _ => lossInTime_of_check) hrun ?_⟩
  · simp [connectedRun, connecting, losing, disconnecting, steps, EntersPublic, Call.isPublic]
  · exact congrArg (·.2.1) hobserved

end MqttService

end Watchlist.Mqtt
