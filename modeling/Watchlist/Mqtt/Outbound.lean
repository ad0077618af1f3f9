import Watchlist.Mqtt.Frame

/-!
`AppState::DispatchOutbound` with the handler that the client installs, on top of
the service. The handler is `Publish` to the topic of all requests: what it does
is the service's own list of sections, run inside the dispatch. The history of
sent requests has an entry for every dispatch that returns `true`, and this
module finds out which of these entries are true.
-/

namespace Watchlist.Mqtt

open Bytes Transition

/-- `RequestsTopic` -/
def requestsTopic : Bytes := ascii "watchlist/requests"

/-- How the `publish` of a transport client comes out. -/
inductive Outcome
  | taken
  | mqttException (what : Bytes)
  | otherException (what : Bytes)
  deriving DecidableEq

/-- A call of `DispatchOutbound`. -/
structure Dispatch where
  payload : Bytes
  /-- a handler was installed when it was copied -/
  installed : Bool
  /-- the client that `Publish` found -/
  client : Option ℕ
  /-- how the call into that client came out, if there was one -/
  outcome : Option Outcome
  /-- what `DispatchOutbound` returned -/
  returned : Bool
  deriving DecidableEq

/-- The service, the part of `AppState` that a dispatch touches, and the dispatches that
have returned, which no section reads. -/
structure OutboundState where
  service : MqttService
  installed : Bool
  outbound : List Bytes
  dispatches : List Dispatch

inductive OutboundSection
  /-- a section of the service that is in no dispatch -/
  | service (a : Section)
  /-- copy the handler -/
  | copyHandler (payload : Bytes)
  /-- in the handler, with the rest of `Publish` -/
  | publishing (dispatch : Dispatch) (rest : List Section)
  /-- report the failure and return `false` -/
  | failing (dispatch : Dispatch) (line : Bytes)

inductive OutboundCall
  | service (call : Call)
  | setOutboundCommandHandler (installed : Bool)
  | dispatchOutbound (payload : Bytes)

/-- What a section of `Publish` finds out about its dispatch. -/
def Dispatch.note (dispatch : Dispatch) (s : MqttService) : Section → Choice → Dispatch
  | .copyClient .., _ => { dispatch with client := s.client }
  | .transportCall .., .throws what => { dispatch with outcome := some (.mqttException what) }
  | .transportCall .., .throwsOther what => { dispatch with outcome := some (.otherException what) }
  | .transportCall .., _ => { dispatch with outcome := some .taken }
  | _, _ => dispatch

namespace OutboundState

def initial (app : AppState) : OutboundState where
  service := .initial app
  installed := false
  outbound := []
  dispatches := []

def finish (s : OutboundState) (dispatch : Dispatch) (returned : Bool) : OutboundState :=
  { s with dispatches := s.dispatches ++ [{ dispatch with returned := returned }] }

def enter (k : ℕ) (s : OutboundState) : OutboundCall → Option (OutboundState × List OutboundSection)
  | .service call =>
      (s.service.enter k call).map fun r => ({ s with service := r.1 }, r.2.map .service)
  | .setOutboundCommandHandler installed => some ({ s with installed := installed }, [])
  | .dispatchOutbound payload => some (s, [.copyHandler payload])

def run (k : ℕ) (s : OutboundState) :
    OutboundSection → Choice → Option (OutboundState × List OutboundSection)
  | .service a, choice =>
      (s.service.run k a choice).map fun r => ({ s with service := r.1 }, r.2.map .service)
  | .copyHandler payload, _ =>
      let dispatch : Dispatch := ⟨payload, s.installed, none, none, false⟩
      if s.installed then
        (s.service.enter k (.publish requestsTopic payload)).map fun r =>
          ({ s with service := r.1 }, [.publishing dispatch r.2])
      else
        some (s, [.failing dispatch
          (ascii "Unable to send request: no outbound command handler is installed")])
  | .publishing dispatch [], _ =>
      -- `AddOutbound`, and `return true`
      some ({ s with outbound := AppState.addBounded s.outbound dispatch.payload }.finish dispatch
        true, [])
  | .publishing dispatch (.transportCall operation call next :: _), .throwsOther what =>
      -- `Publish` lets the exception through, after `CancelOperation`
      some ({ s with service := { s.service with threw := s.service.threw ++ [operation] } },
        [.service (.cancelOperation operation),
          .failing (dispatch.note s.service (.transportCall operation call next) (.throwsOther what))
            (ascii "Unable to send request: " ++ what)])
  | .publishing dispatch (a :: rest), choice =>
      (s.service.run k a choice).map fun r =>
        ({ s with service := r.1 },
          [.publishing (dispatch.note s.service a choice) (r.2 ++ rest)])
  | .failing dispatch line, _ =>
      some ({ s with service := { s.service with app := s.service.app.addActivity line } }.finish
        dispatch false, [])

def program : Program OutboundState OutboundSection OutboundCall Choice := ⟨enter, run⟩

def machine : Machine (Threads OutboundState OutboundSection) (Threads.Label OutboundCall Choice) :=
  program.machine

end OutboundState

/-- `Publish` handed the message to a client whose `publish` did not throw. -/
def Dispatch.Handed (dispatch : Dispatch) : Prop := dispatch.outcome = some .taken

/-- What the dispatch returned, and so its entry in the history or the lack of one, is so. -/
def Dispatch.Truthful (dispatch : Dispatch) : Prop :=
  dispatch.returned = true ↔ dispatch.Handed

/-- `Publish` finds a client, and the client does not throw an `mqtt::exception`. -/
def Dispatch.Deliverable (dispatch : Dispatch) : Prop :=
  dispatch.client ≠ none ∧ ∀ what, dispatch.outcome ≠ some (.mqttException what)

/-! ### The sections of `Publish` -/

/-- The sections of `ReportError` and `CancelOperation`. -/
def Section.reports : Section → Bool
  | .reportSection .. | .notifyState | .snapshotConsole _ | .updateConsole _ | .addActivity _
  | .callErrorHandler .. | .cancelOperation _ => true
  | _ => false

theorem reports_runSection {k : ℕ} {s s' : MqttService} {a : Section} {x : Choice}
    {as : List Section} (ha : a.reports = true) (h : s.runSection k a x = some (s', as)) :
    ∀ b ∈ as, b.reports = true := by
  cases a <;> try contradiction
  case reportSection error changesLifecycle =>
      simp only [MqttService.runSection] at h
      split at h
      all_goals
        obtain ⟨-, rfl⟩ := Prod.mk.inj (Option.some.inj h)
        simp [Section.reports]
  case snapshotConsole text =>
      obtain ⟨-, rfl⟩ := Prod.mk.inj (Option.some.inj h)
      simp [Section.reports]
  all_goals
    obtain ⟨-, rfl⟩ := Prod.mk.inj (Option.some.inj h)
    exact List.forall_mem_nil _

/-- How far `Publish` is, and what it has found out. -/
inductive Phase : Dispatch → List Section → Prop
  | copying {dispatch : Dispatch} {topic payload : Bytes} (hclient : dispatch.client = none)
      (houtcome : dispatch.outcome = none) : Phase dispatch [.copyClient topic payload]
  | tracking {dispatch : Dispatch} {name : Bytes} {call : TransportCall}
      (hclient : dispatch.client ≠ none) (houtcome : dispatch.outcome = none) :
      Phase dispatch [.trackOperation name call []]
  | calling {dispatch : Dispatch} {operation : Operation} {call : TransportCall}
      (hclient : dispatch.client ≠ none) (houtcome : dispatch.outcome = none) :
      Phase dispatch [.transportCall operation call []]
  /-- nothing is left but to report what has failed, if anything has -/
  | reporting {dispatch : Dispatch} {rest : List Section}
      (hmatch : dispatch.client = none ↔ dispatch.outcome = none)
      (hcaught : ∀ what, dispatch.outcome ≠ some (.otherException what))
      (hreports : ∀ a ∈ rest, a.reports = true) : Phase dispatch rest

/-- A section of `Publish` that throws nothing that `Publish` lets through. -/
theorem phase_run {k : ℕ} {s s' : MqttService} {dispatch : Dispatch} {a : Section} {x : Choice}
    {as rest : List Section} (hphase : Phase dispatch (a :: rest))
    (hcaught : ∀ operation call next what, a = .transportCall operation call next →
      x ≠ .throwsOther what)
    (h : s.runSection k a x = some (s', as)) : Phase (dispatch.note s a x) (as ++ rest) := by
  cases hphase with
  | copying hclient houtcome =>
      simp only [MqttService.runSection] at h
      cases hs : s.client with
      | none =>
          rw [hs] at h
          obtain ⟨-, rfl⟩ := Prod.mk.inj (Option.some.inj h)
          refine .reporting ?_ ?_ ?_
          · simp [Dispatch.note, hs, houtcome]
          · simp [Dispatch.note, houtcome]
          · simp [Mqtt.reportError, Section.reports]
      | some c =>
          rw [hs] at h
          obtain ⟨-, rfl⟩ := Prod.mk.inj (Option.some.inj h)
          exact .tracking (by simp [Dispatch.note, hs]) houtcome
  | tracking hclient houtcome =>
      obtain ⟨-, rfl⟩ := Prod.mk.inj (Option.some.inj h)
      exact .calling hclient houtcome
  | calling hclient houtcome =>
      rename_i operation call
      cases x with
      | throwsOther what => exact absurd rfl (hcaught operation call [] what rfl)
      | throws what =>
          obtain ⟨-, rfl⟩ := Prod.mk.inj (Option.some.inj h)
          refine .reporting ?_ ?_ ?_
          · simp [Dispatch.note, hclient]
          · simp [Dispatch.note]
          · simp [Mqtt.reportError, Section.reports]
      | proceed | timesOut | calls =>
          simp only [MqttService.runSection] at h
          obtain ⟨u, -, heq⟩ := Option.map_eq_some_iff.mp h
          obtain ⟨-, rfl⟩ := Prod.mk.inj heq
          refine .reporting ?_ ?_ ?_
          · simp [Dispatch.note, hclient]
          · simp [Dispatch.note]
          · simp
  | reporting hmatch hcaught' hreports =>
      have ha : a.reports = true := hreports a List.mem_cons_self
      have hnote : dispatch.note s a x = dispatch := by
        cases a <;> first | rfl | contradiction
      rw [hnote]
      refine .reporting hmatch hcaught' fun b hb => ?_
      rcases List.mem_append.mp hb with hb | hb
      · exact reports_runSection ha h b hb
      · exact hreports b (List.mem_cons_of_mem _ hb)

/-! ### Dispatches -/

/-- A dispatch is truthful if and only if, with a handler, it could be delivered. -/
def Dispatch.Judged (dispatch : Dispatch) : Prop :=
  dispatch.Truthful ↔ (dispatch.installed = true → dispatch.Deliverable)

/-- What is known of a dispatch while it goes on. -/
def OutboundSection.Sound : OutboundSection → Prop
  | .service _ | .copyHandler _ => True
  | .publishing dispatch rest => dispatch.installed = true ∧ Phase dispatch rest
  | .failing dispatch _ =>
      dispatch.installed = false ∧ dispatch.outcome = none ∨
        dispatch.client ≠ none ∧ ∃ what, dispatch.outcome = some (.otherException what)

theorem judged_of_published {dispatch : Dispatch} (hinstalled : dispatch.installed = true)
    (h : Phase dispatch []) : { dispatch with returned := true }.Judged := by
  cases h with
  | reporting hmatch hcaught hreports =>
      simp only [Dispatch.Judged, Dispatch.Truthful, Dispatch.Handed, Dispatch.Deliverable,
        hinstalled, true_iff, forall_const]
      cases houtcome : dispatch.outcome with
      | none => simp [hmatch.mpr houtcome]
      | some outcome =>
          have hclient : dispatch.client ≠ none := fun hnone => by
            rw [hmatch.mp hnone] at houtcome
            cases houtcome
          cases outcome with
          | taken => simp [hclient]
          | mqttException what => simp
          | otherException what => exact absurd houtcome (hcaught what)

theorem judged_of_failed {dispatch : Dispatch} {line : Bytes}
    (h : (OutboundSection.failing dispatch line).Sound) :
    { dispatch with returned := false }.Judged := by
  simp only [Dispatch.Judged, Dispatch.Truthful, Dispatch.Handed, Dispatch.Deliverable]
  rcases h with ⟨hinstalled, houtcome⟩ | ⟨hclient, what, houtcome⟩
  · simp [hinstalled, houtcome]
  · simp [hclient, houtcome]

namespace OutboundState

/-- The entries of the history, by the dispatches that made them. -/
def History (s : OutboundState) : Prop :=
  s.outbound = (s.dispatches.filter Dispatch.returned).foldl
    (fun lines dispatch => AppState.addBounded lines dispatch.payload) []

/-- The history holds what it should, and every dispatch has been judged. -/
structure Settled (s : OutboundState) : Prop where
  history : s.History
  judged : ∀ dispatch ∈ s.dispatches, dispatch.Judged

theorem Settled.of_same {s s' : OutboundState} (h : s.Settled) (houtbound : s'.outbound = s.outbound)
    (hdispatches : s'.dispatches = s.dispatches) : s'.Settled := by
  obtain ⟨hhistory, hjudged⟩ := h
  refine ⟨?_, hdispatches ▸ hjudged⟩
  rw [History, houtbound, hdispatches]
  exact hhistory

/-- A dispatch that returns makes its entry if it returns `true`. -/
theorem Settled.finish {s : OutboundState} (h : s.Settled) {dispatch : Dispatch}
    {outbound : List Bytes} {returned : Bool} {service : MqttService}
    (houtbound : outbound =
      if returned then AppState.addBounded s.outbound dispatch.payload else s.outbound)
    (hjudged : { dispatch with returned := returned }.Judged) :
    ({ s with service := service, outbound := outbound }.finish dispatch returned).Settled := by
  have hhistory := h.history
  constructor
  · show outbound = ((s.dispatches ++ [{ dispatch with returned := returned }]).filter
      Dispatch.returned).foldl _ []
    rw [houtbound, List.filter_append, List.foldl_append, ← hhistory]
    cases returned <;> rfl
  · intro d hd
    rcases List.mem_append.mp hd with hd | hd
    · exact h.judged d hd
    · rw [List.mem_singleton.mp hd]
      exact hjudged

variable {k : ℕ} {s s' : OutboundState} {a : OutboundSection} {x : Choice}
  {as : List OutboundSection}

theorem sound_service (as : List Section) :
    ∀ b ∈ as.map OutboundSection.service, b.Sound := by
  simp [OutboundSection.Sound]

/-- One section: what follows from it is sound, and a dispatch that returns is judged. -/
theorem settled_run (hsettled : s.Settled) (hsound : a.Sound) (h : s.run k a x = some (s', as)) :
    (∀ b ∈ as, b.Sound) ∧ s'.Settled := by
  cases a with
  | service a =>
      obtain ⟨r, -, heq⟩ := Option.map_eq_some_iff.mp h
      obtain ⟨rfl, rfl⟩ := Prod.mk.inj heq
      exact ⟨sound_service r.2, hsettled.of_same rfl rfl⟩
  | copyHandler payload =>
      simp only [run] at h
      split at h
      · rename_i hinstalled
        obtain ⟨rfl, rfl⟩ := Prod.mk.inj (Option.some.inj h)
        refine ⟨?_, hsettled.of_same rfl rfl⟩
        simp only [List.forall_mem_singleton]
        exact ⟨hinstalled, .copying rfl rfl⟩
      · rename_i hinstalled
        obtain ⟨rfl, rfl⟩ := Prod.mk.inj (Option.some.inj h)
        refine ⟨?_, hsettled⟩
        simp only [List.forall_mem_singleton]
        exact .inl ⟨Bool.eq_false_of_not_eq_true hinstalled, rfl⟩
  | failing dispatch line =>
      obtain ⟨rfl, rfl⟩ := Prod.mk.inj (Option.some.inj h)
      exact ⟨nofun, hsettled.finish rfl (judged_of_failed hsound)⟩
  | publishing dispatch rest =>
      obtain ⟨hinstalled, hphase⟩ := hsound
      cases rest with
      | nil =>
          obtain ⟨rfl, rfl⟩ := Prod.mk.inj (Option.some.inj h)
          exact ⟨nofun, hsettled.finish rfl (judged_of_published hinstalled hphase)⟩
      | cons a rest =>
          by_cases hthrows : ∃ operation call next what,
            a = .transportCall operation call next ∧ x = .throwsOther what
          · obtain ⟨operation, call, next, what, rfl, rfl⟩ := hthrows
            obtain ⟨rfl, rfl⟩ := Prod.mk.inj (Option.some.inj h)
            refine ⟨?_, hsettled.of_same rfl rfl⟩
            have hclient : dispatch.client ≠ none := by
              cases hphase with
              | calling hclient _ => exact hclient
              | reporting _ _ hreports => cases hreports _ List.mem_cons_self
            simp only [List.forall_mem_cons]
            exact ⟨trivial, .inr ⟨hclient, what, rfl⟩, nofun⟩
          · have hcaught : ∀ operation call next what, a = .transportCall operation call next →
                x ≠ .throwsOther what := fun operation call next what ha hx =>
              hthrows ⟨operation, call, next, what, ha, hx⟩
            have hrun : ((s.service.run k a x).map fun r =>
                ({ s with service := r.1 },
                  [.publishing (dispatch.note s.service a x) (r.2 ++ rest)])) = some (s', as) := by
              rw [← h]
              -- every arm but the one for a call that throws is this one
              cases a <;> first | rfl | (cases x <;> first | rfl | exact absurd rfl (hcaught _ _ _ _ rfl))
            obtain ⟨r, hr, heq⟩ := Option.map_eq_some_iff.mp hrun
            obtain ⟨rfl, rfl⟩ := Prod.mk.inj heq
            refine ⟨?_, hsettled.of_same rfl rfl⟩
            simp only [List.forall_mem_singleton]
            refine ⟨?_, phase_run hphase hcaught (MqttService.run_eq_some.mp hr).2⟩
            cases a <;> cases x <;> exact hinstalled

theorem sound_enter {call : OutboundCall} (hsettled : s.Settled)
    (h : s.enter k call = some (s', as)) : (∀ b ∈ as, b.Sound) ∧ s'.Settled := by
  cases call with
  | service call =>
      obtain ⟨r, -, heq⟩ := Option.map_eq_some_iff.mp h
      obtain ⟨rfl, rfl⟩ := Prod.mk.inj heq
      exact ⟨sound_service r.2, hsettled.of_same rfl rfl⟩
  | setOutboundCommandHandler installed =>
      obtain ⟨rfl, rfl⟩ := Prod.mk.inj (Option.some.inj h)
      exact ⟨nofun, hsettled.of_same rfl rfl⟩
  | dispatchOutbound payload =>
      obtain ⟨rfl, rfl⟩ := Prod.mk.inj (Option.some.inj h)
      exact ⟨by simp [OutboundSection.Sound], hsettled⟩

theorem settled_of_reaches {app : AppState} {s : Threads OutboundState OutboundSection}
    (h : machine.Reaches (.initial (.initial app)) s) :
    (∀ a, s.Pending a → a.Sound) ∧ s.shared.Settled := by
  refine Machine.invariant (fun s : Threads OutboundState OutboundSection =>
    (∀ a, s.Pending a → a.Sound) ∧ s.shared.Settled) ?_ h ⟨?_, rfl, nofun⟩
  · rintro s l t ⟨hsound, hsettled⟩ hstep
    cases Program.moves_of_step hstep with
    | enter hidle hcall =>
        obtain ⟨hnew, hsettled'⟩ := sound_enter hsettled hcall
        exact ⟨Threads.forall_pending_enter hnew hsound, hsettled'⟩
    | advance hat hrun =>
        obtain ⟨hnew, hsettled'⟩ := settled_run hsettled (hsound _ (Threads.pending_head hat)) hrun
        exact ⟨Threads.forall_pending_become hat hnew hsound, hsettled'⟩
  · intro a ha
    exact absurd ha ((Threads.idle_initial _).not_pending a)

/-- In every run of the service and of dispatches, the history has an entry for every dispatch
that returned `true`; and what a dispatch returned is right if and only if, with a handler
installed, `Publish` found a client whose `publish` did not throw an `mqtt::exception`. -/
theorem outbound_truthful_iff {app : AppState} {s : Threads OutboundState OutboundSection}
    (h : machine.Reaches (.initial (.initial app)) s) :
    s.shared.History ∧ ∀ dispatch ∈ s.shared.dispatches,
      dispatch.Truthful ↔ (dispatch.installed = true → dispatch.Deliverable) :=
  ⟨(settled_of_reaches h).2.history, (settled_of_reaches h).2.judged⟩

/-- What can be seen of a state: the history, and the dispatches. -/
def view (s : Threads OutboundState OutboundSection) : List Bytes × List Dispatch :=
  (s.shared.outbound, s.shared.dispatches)

/-- Nobody has called `Connect`, the handler is installed, and a request is sent. -/
def neverConnected (payload : Bytes) : List (Threads.Label OutboundCall Choice) :=
  .enter 0 (.setOutboundCommandHandler true) :: .enter 0 (.dispatchOutbound payload) ::
    List.replicate 9 (.advance 0 .proceed)

/-- The run of a request to a client that nobody has connected. -/
theorem outbound_truthful_iff_neverConnected :
    ∃ s, machine.exec (.initial (.initial .initial)) (neverConnected [104]) = some s ∧
      s.shared.History ∧ ∀ dispatch ∈ s.shared.dispatches,
        dispatch.Truthful ↔ (dispatch.installed = true → dispatch.Deliverable) := by
  cases hrun : machine.exec (.initial (.initial .initial)) (neverConnected [104]) with
  | none => exact absurd hrun (by decide +kernel)
  | some s => exact ⟨s, rfl, outbound_truthful_iff ⟨_, hrun⟩⟩

/-- The request is reported as sent and listed, though no client was there to take it. -/
theorem outbound_lists_unsent :
    ∃ s dispatch, machine.Reaches (.initial (.initial .initial)) s ∧
      s.shared.dispatches = [dispatch] ∧ dispatch.installed = true ∧
      dispatch.returned = true ∧ s.shared.outbound = [dispatch.payload] ∧ ¬dispatch.Handed := by
  have hview : (machine.exec (.initial (.initial .initial)) (neverConnected [104])).map view =
      some ([[104]], [⟨[104], true, none, none, true⟩]) := by decide +kernel
  obtain ⟨s, hrun, hs⟩ := Option.map_eq_some_iff.mp hview
  obtain ⟨houtbound, hdispatches⟩ := Prod.mk.inj hs
  exact ⟨s, _, ⟨_, hrun⟩, hdispatches, rfl, rfl, houtbound, nofun⟩

end OutboundState

end Watchlist.Mqtt
