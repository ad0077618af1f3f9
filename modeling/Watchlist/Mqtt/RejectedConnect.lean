import Watchlist.Mqtt.Frame

/-!
A `Connect` whose arguments are rejected. It does nothing but report the error, and it does
so before it takes back the `shuttingDown_` that a `Disconnect` has left behind; for a
service that is shutting down `ReportError` changes neither the lifecycle nor the status
shown. The call is followed by itself: no other thread moves meanwhile, except that `Run`
gives up `mutex_` when it holds it.
-/

namespace Watchlist.Mqtt

open Bytes Transition Threads

/-- The arguments that `Connect` rejects. -/
def Rejected (endpoint : Endpoint) : Prop :=
  endpoint.host = [] ∨ endpoint.port < 1 ∨ 65535 < endpoint.port ∨ endpoint.clientId = []

/-- What `Connect` reports of the first argument that it rejects. -/
def rejection (endpoint : Endpoint) : Bytes :=
  if endpoint.host.isEmpty then ascii "MQTT broker host must not be empty"
  else if endpoint.port < 1 ∨ 65535 < endpoint.port then
    ascii "MQTT broker port " ++ ofInt endpoint.port ++ ascii " is outside 1-65535"
  else ascii "MQTT client ID must not be empty"

theorem connect_of_rejected {endpoint : Endpoint} (h : Rejected endpoint) :
    connect endpoint = [.reportSection (rejection endpoint) true] := by
  unfold connect rejection
  split_ifs with hhost hport hclient
  · rfl
  · rfl
  · rfl
  · rcases h with h | h | h | h
    · exact absurd (List.isEmpty_iff.mpr h) hhost
    · exact absurd (Or.inl h) hport
    · exact absurd (Or.inr h) hport
    · exact absurd (List.isEmpty_iff.mpr h) hclient

/-- The sections of `Run` that can find `mutex_` in its hands. -/
def Section.waits : Section → Bool
  | .waitCheck .. | .waitSleep .. => true
  | _ => false

namespace MqttService

/-- Thread `k` has more to do than the last `n` sections and nothing else happens, or `Run`
is about to give `mutex_` up. -/
def OnlyCall (k n : ℕ) (u : Threads MqttService Section) (l : Threads.Label Call Choice) : Prop :=
  (l.thread = k ∧ n < (u.pending k).length) ∨
    (u.shared.held = true ∧ ∃ a tail, u.pending l.thread = a :: tail ∧ a.waits = true)

/-- The run takes the call that thread `k` makes to its end, and does nothing else. -/
structure Completes (k : ℕ) (rest : List Section) (u : Threads MqttService Section)
    (ls : List (Threads.Label Call Choice)) (v : Threads MqttService Section) : Prop where
  runs : machine.exec u ls = some v
  alone : machine.Meets (OnlyCall k rest.length) u ls
  returned : v.pending k = rest

/-- What a rejected `Connect` should leave. -/
structure Reported (endpoint : Endpoint) (s s' : MqttService) : Prop where
  called : s'.errorCalls = s.errorCalls ++ (s.errorHandler.map (·, rejection endpoint)).toList
  noClient : s'.clients = s.clients ∧ s'.nextClient = s.nextClient ∧ s'.client = s.client
  lifecycle : s'.status = .error
  shown : s'.app.console.connectionStatus = statusText .error

/-- The call that thread `k` is about to make, with `rest` to do after it, comes to its end,
and however it does so leaves what it should. -/
structure Observable (endpoint : Endpoint) (k : ℕ) (rest : List Section)
    (u : Threads MqttService Section) : Prop where
  completes : ∃ ls v, Completes k rest u ls v
  reported : ∀ ls v, Completes k rest u ls v → Reported endpoint u.shared v.shared

variable {k n : ℕ} {s s' s₀ : MqttService} {a : Section} {x : Choice} {as rest : List Section}
  {u v : Threads MqttService Section} {l : Threads.Label Call Choice}
  {ls : List (Threads.Label Call Choice)} {error : Bytes} {endpoint : Endpoint}

/-! ### Who holds `mutex_` -/

/-- While `mutex_` is held between sections, `Run` is at the next of these. -/
def HeldByRun (u : Threads MqttService Section) : Prop :=
  u.shared.held = true → ∃ r a tail, u.pending r = a :: tail ∧ a.waits = true

/-- How often `Run` can still look at a predicate before it gives `mutex_` up. -/
def looks : Section → ℕ
  | .waitCheck _ (.attempt _) => 3
  | .waitCheck _ (.retry _) => 2
  | .waitCheck _ (.settled _) => 1
  | _ => 0

theorem looks_settle (s : MqttService) (endpoint : Endpoint) (retryDelay : ℕ) :
    (s.settle endpoint retryDelay).1.held = true →
      ∃ b, (s.settle endpoint retryDelay).2 = [b] ∧ b.waits = true ∧ looks b = 1 := by
  unfold settle
  split
  · exact fun _ => ⟨_, rfl, rfl, rfl⟩
  · nofun

theorem looks_afterWait (s : MqttService) (endpoint : Endpoint) (wait : Wait) :
    (s.afterWait endpoint wait).1.held = true →
      ∃ b, (s.afterWait endpoint wait).2 = [b] ∧ b.waits = true ∧
        looks b < looks (.waitCheck endpoint wait) := by
  have hsettle (retryDelay : ℕ) (h : (s.settle endpoint retryDelay).1.held = true) {m : ℕ}
      (hm : 1 < m) : ∃ b, (s.settle endpoint retryDelay).2 = [b] ∧ b.waits = true ∧
        looks b < m := by
    obtain ⟨b, hb, hwaits, hlooks⟩ := looks_settle s endpoint retryDelay h
    exact ⟨b, hb, hwaits, by omega⟩
  cases wait with
  | attempt retryDelay =>
      simp only [afterWait]
      split
      · exact fun _ => ⟨_, rfl, rfl, Nat.lt_succ_self 2⟩
      · exact fun h => hsettle 1 h (Nat.lt_of_succ_lt (Nat.lt_succ_self 2))
  | retry retryDelay => exact fun h => hsettle retryDelay h (Nat.lt_succ_self 1)
  | settled retryDelay => rintro ⟨⟩

/-- `Run` looks at its predicates, and after the last of them gives `mutex_` up. -/
theorem waits_runSection (k : ℕ) (s : MqttService) (ha : a.waits = true) (x : Choice) :
    ∃ s' as, s.runSection k a x = some (s', as) ∧
      s' = { s with held := s'.held, sleep := s'.sleep } ∧
      (s'.held = true → ∃ b, as = [b] ∧ b.waits = true ∧ looks b < looks a) := by
  cases a with
  | waitCheck endpoint wait =>
      by_cases hwaited : s.waitedFor wait = true
      · have heq := afterWait_eq s endpoint wait
        have hsleep : (s.afterWait endpoint wait).1.sleep = s.sleep := by
          have hsleep := congrArg sleep heq
          exact hsleep
        refine ⟨(s.afterWait endpoint wait).1, (s.afterWait endpoint wait).2,
          congrArg some (if_pos hwaited), ?_, looks_afterWait s endpoint wait⟩
        rw [hsleep]
        exact heq
      · refine ⟨_, _, congrArg some (if_neg hwaited), rfl, fun _ => ⟨_, rfl, rfl, ?_⟩⟩
        cases wait <;> exact Nat.succ_pos _
  | waitSleep endpoint wait => exact ⟨_, _, rfl, rfl, nofun⟩
  | _ => cases ha

/-- The other sections do not touch what holds `mutex_`, but for the one that takes it. -/
theorem held_runSection (h : s.runSection k a x = some (s', as)) :
    (a.waits = false ∧ s'.held = s.held) ∨
      (s'.held = true → ∃ b, as = [b] ∧ b.waits = true) := by
  by_cases hwaits : a.waits = true
  · obtain ⟨t, bs, hrun, -, hheld⟩ := waits_runSection k s hwaits x
    obtain ⟨rfl, rfl⟩ := Prod.mk.inj (Option.some.inj (hrun.symm.trans h))
    refine Or.inr fun hs' => ?_
    obtain ⟨b, hb, hnext, -⟩ := hheld hs'
    exact ⟨b, hb, hnext⟩
  cases a
  case waitCheck | waitSleep => exact absurd rfl hwaits
  case waitOver endpoint wait =>
      obtain heq : s.afterWait endpoint wait = (s', as) := Option.some.inj h
      refine Or.inr fun hs' => ?_
      have hlooks := looks_afterWait s endpoint wait
      rw [heq] at hlooks
      obtain ⟨b, hb, hwaits, -⟩ := hlooks hs'
      exact ⟨b, hb, hwaits⟩
  case notifyState | notifyStop =>
      obtain ⟨rfl, -⟩ := Prod.mk.inj (Option.some.inj h)
      rw [notifyAll_eq]
      exact Or.inl ⟨rfl, rfl⟩
  case transportCall operation call next =>
      obtain ⟨what, -, rfl, -⟩ | ⟨what, -, rfl, -⟩ | ⟨haccept, -⟩ := transportCall_cases h
      · exact Or.inl ⟨rfl, rfl⟩
      · exact Or.inl ⟨rfl, rfl⟩
      · rw [accept_eq haccept]
        exact Or.inl ⟨rfl, rfl⟩
  case inHandler topic =>
      simp only [runSection] at h
      split at h
      case h_3 =>
          split at h
          · rename_i hapi
            obtain ⟨⟨t, bs⟩, hcall, heq⟩ := Option.map_eq_some_iff.mp h
            obtain ⟨rfl, -⟩ := Prod.mk.inj heq
            rw [(enter_api hapi hcall).1]
            exact Or.inl ⟨rfl, rfl⟩
          · cases h
      all_goals
        obtain ⟨rfl, -⟩ := Prod.mk.inj (Option.some.inj h)
        exact Or.inl ⟨rfl, rfl⟩
  all_goals
    simp only [runSection] at h
    repeat' split at h
  all_goals first
    | contradiction
    | (obtain ⟨rfl, -⟩ := Prod.mk.inj (Option.some.inj h)
       exact Or.inl ⟨rfl, rfl⟩)

theorem heldByRun_step (h : HeldByRun u) (hstep : machine.step u l = some v) : HeldByRun v := by
  rcases step_cases hstep with ⟨j, call, s', as, rfl, hidle, hcall, rfl⟩ |
    ⟨j, choice, a, rest, s', as, rfl, hat, -, hrun, rfl⟩
  · intro hheld
    have hsame := congrArg held (enter_eq hcall)
    obtain ⟨r, b, tail, hb, hwaits⟩ := h (hsame.symm.trans hheld)
    have hrj : r ≠ j := by
      rintro rfl
      rw [hidle] at hb
      cases hb
    exact ⟨r, b, tail, (pending_become_of_ne hrj ..).trans hb, hwaits⟩
  · intro hheld
    rcases held_runSection hrun with ⟨ha, hsame⟩ | hnext
    · obtain ⟨r, b, tail, hb, hwaits⟩ := h (hsame.symm.trans hheld)
      have hrj : r ≠ j := by
        rintro rfl
        rw [hat] at hb
        obtain ⟨rfl, -⟩ := List.cons.inj hb
        rw [ha] at hwaits
        cases hwaits
      exact ⟨r, b, tail, (pending_become_of_ne hrj ..).trans hb, hwaits⟩
    · obtain ⟨b, rfl, hwaits⟩ := hnext hheld
      exact ⟨j, b, rest, pending_become_self .., hwaits⟩

/-! ### The call, section by section -/

/-- The lifecycle that `ReportError` leaves. -/
def reportedStatus (s : MqttService) : LifecycleStatus :=
  if s.shuttingDown then s.status else .error

/-- The status that `ReportError` displays, if any. -/
def reportedText (s : MqttService) : Option Bytes :=
  if s.shuttingDown then none else some (statusText .error)

/-- The console that `ReportError` leaves when nobody else writes it. -/
def reportedConsole (s : MqttService) : ConsoleState :=
  if s.shuttingDown then s.app.console else s.app.console.withStatus (statusText .error)

/-- After the locked section of `ReportError`. -/
structure Told (s₀ : MqttService) (console : ConsoleState) (calls : List (ℕ × Bytes))
    (s : MqttService) : Prop where
  free : s.held = false
  noClient : s.clients = s₀.clients ∧ s.nextClient = s₀.nextClient ∧ s.client = s₀.client
  status : s.status = reportedStatus s₀
  console : s.app.console = console
  calls : s.errorCalls = calls

/-- What is left of a call of `ReportError` that has begun in `s₀`, and of how many sections. -/
inductive Reporting (s₀ : MqttService) (error : Bytes) : ℕ → List Section → MqttService → Prop
  | report {s : MqttService} (hsame : s = { s₀ with held := s.held, sleep := s.sleep }) :
      Reporting s₀ error 6 [.reportSection error true] s
  | notify {s : MqttService} (htold : Told s₀ s₀.app.console s₀.errorCalls s) :
      Reporting s₀ error 5 [.notifyState, .snapshotConsole (reportedText s₀), .addActivity error,
        .callErrorHandler s₀.errorHandler error] s
  | snapshot {s : MqttService} (htold : Told s₀ s₀.app.console s₀.errorCalls s) :
      Reporting s₀ error 4 [.snapshotConsole (reportedText s₀), .addActivity error,
        .callErrorHandler s₀.errorHandler error] s
  | update {s : MqttService} (htold : Told s₀ s₀.app.console s₀.errorCalls s) :
      Reporting s₀ error 3 [.updateConsole (reportedConsole s₀), .addActivity error,
        .callErrorHandler s₀.errorHandler error] s
  | activity {s : MqttService} (htold : Told s₀ (reportedConsole s₀) s₀.errorCalls s) :
      Reporting s₀ error 2 [.addActivity error, .callErrorHandler s₀.errorHandler error] s
  | call {s : MqttService} (htold : Told s₀ (reportedConsole s₀) s₀.errorCalls s) :
      Reporting s₀ error 1 [.callErrorHandler s₀.errorHandler error] s
  | returned {s : MqttService} (htold : Told s₀ (reportedConsole s₀)
      (s₀.errorCalls ++ (s₀.errorHandler.map (·, error)).toList) s) : Reporting s₀ error 0 [] s

/-- Once the mutex is free each section has one outcome. -/
theorem Reporting.next (h : Reporting s₀ error n (a :: as) s) (hfree : s.held = false) :
    ∃ m s' bs, n = m + 1 ∧ (∀ k x, s.runSection k a x = some (s', bs)) ∧ s'.held = false ∧
      Reporting s₀ error m (bs ++ as) s' := by
  cases h with
  | report hsame =>
      have htold : Told s₀ s₀.app.console s₀.errorCalls
          { s with status := reportedStatus s₀, reported := s.reported ++ [error] } := by
        rw [hsame]
        exact ⟨hfree, ⟨rfl, rfl, rfl⟩, rfl, rfl, rfl⟩
      refine ⟨5, _, [.notifyState, .snapshotConsole (reportedText s₀), .addActivity error,
        .callErrorHandler s₀.errorHandler error], rfl, fun k x => ?_, htold.free, .notify htold⟩
      have hhandler := congrArg errorHandler hsame
      have hstatus := congrArg MqttService.status hsame
      have hshutting := congrArg shuttingDown hsame
      cases hs : s₀.shuttingDown with
      | false => simp [runSection, reportedStatus, reportedText, hhandler, hshutting, hs]
      | true => simp [runSection, reportedStatus, reportedText, hhandler, hshutting, hstatus, hs]
  | notify htold =>
      have htold' : Told s₀ s₀.app.console s₀.errorCalls s.notifyAll := by
        rw [notifyAll_eq]
        exact ⟨htold.free, htold.noClient, htold.status, htold.console, htold.calls⟩
      exact ⟨4, _, [], rfl, fun _ _ => rfl, htold'.free, .snapshot htold'⟩
  | snapshot htold =>
      refine ⟨3, s, [.updateConsole (reportedConsole s₀)], rfl, fun k x => ?_, htold.free,
        .update htold⟩
      cases hs : s₀.shuttingDown <;>
        simp [runSection, reportedText, reportedConsole, AppState.snapshotConsole, htold.console, hs]
  | update htold =>
      have htold' : Told s₀ (reportedConsole s₀) s₀.errorCalls
          { s with app := s.app.updateConsole (reportedConsole s₀) } :=
        ⟨htold.free, htold.noClient, htold.status, rfl, htold.calls⟩
      exact ⟨2, _, [], rfl, fun _ _ => rfl, htold'.free, .activity htold'⟩
  | activity htold =>
      have htold' : Told s₀ (reportedConsole s₀) s₀.errorCalls
          { s with app := s.app.addActivity error } :=
        ⟨htold.free, htold.noClient, htold.status, htold.console, htold.calls⟩
      exact ⟨1, _, [], rfl, fun _ _ => rfl, htold'.free, .call htold'⟩
  | call htold =>
      have htold' : Told s₀ (reportedConsole s₀)
          (s₀.errorCalls ++ (s₀.errorHandler.map (·, error)).toList)
          { s with errorCalls := s.errorCalls ++ (s₀.errorHandler.map (·, error)).toList } :=
        ⟨htold.free, htold.noClient, htold.status, htold.console, by rw [htold.calls]⟩
      exact ⟨0, _, [], rfl, fun _ _ => rfl, htold'.free, .returned htold'⟩

/-- While `Run` holds the mutex the call has not begun. -/
theorem Reporting.of_held (h : Reporting s₀ error n as s) (hheld : s.held = true) :
    n = 6 ∧ as = [.reportSection error true] ∧
      s = { s₀ with held := s.held, sleep := s.sleep } := by
  cases h with
  | report hsame => exact ⟨rfl, rfl, hsame⟩
  | notify htold | snapshot htold | update htold | activity htold | call htold | returned htold =>
      rw [htold.free] at hheld
      cases hheld

/-- Thread `k` is in a call of `ReportError` that has begun in `s₀`. -/
def InReport (s₀ : MqttService) (error : Bytes) (k : ℕ) (rest : List Section)
    (u : Threads MqttService Section) : Prop :=
  ∃ n as, u.pending k = as ++ rest ∧ Reporting s₀ error n as u.shared

theorem inReport_of_rejected (h : Rejected endpoint) (hat : u.pending k = connect endpoint ++ rest) :
    InReport u.shared (rejection endpoint) k rest u := by
  rw [connect_of_rejected h] at hat
  exact ⟨6, _, hat, .report rfl⟩

theorem inReport_step (h : InReport s₀ error k rest u) (hcall : OnlyCall k rest.length u l)
    (hstep : machine.step u l = some v) : InReport s₀ error k rest v := by
  obtain ⟨n, as, hpending, hreport⟩ := h
  rcases hcall with ⟨rfl, hlength⟩ | ⟨hheld, a, tail, ha, hwaits⟩
  · rcases step_cases hstep with ⟨j, call, s', bs, rfl, hidle, -, -⟩ |
      ⟨j, choice, a, tail, s', bs, rfl, hat, hfree, hrun, rfl⟩
    · rw [Label.thread, hidle] at hlength
      exact absurd hlength (Nat.not_lt_zero _)
    · rw [Label.thread] at hlength hpending ⊢
      obtain ⟨b, as, rfl⟩ : ∃ b bs, as = b :: bs := by
        cases as with
        | nil => exact absurd (congrArg List.length hpending) (Nat.ne_of_gt hlength)
        | cons b bs => exact ⟨b, bs, rfl⟩
      rw [List.cons_append] at hpending
      obtain ⟨rfl, rfl⟩ := List.cons.inj (hat.symm.trans hpending)
      have hunheld : u.shared.held = false := by
        cases hreport with
        | report => exact hfree rfl
        | notify htold | snapshot htold | update htold | activity htold | call htold =>
            exact htold.free
      obtain ⟨m, t, cs, rfl, hall, -, hnext⟩ := hreport.next hunheld
      obtain ⟨rfl, rfl⟩ := Prod.mk.inj (Option.some.inj (hrun.symm.trans (hall _ _)))
      refine ⟨m, bs ++ as, ?_, hnext⟩
      rw [pending_become_self, List.append_assoc]
  · obtain ⟨rfl, rfl, hsame⟩ := hreport.of_held hheld
    have hne : l.thread ≠ k := by
      rintro rfl
      rw [hpending] at ha
      obtain ⟨rfl, -⟩ := List.cons.inj ha
      cases hwaits
    rcases step_cases hstep with ⟨j, call, s', bs, rfl, hidle, -, -⟩ |
      ⟨j, choice, b, tail', s', bs, rfl, hat, -, hrun, rfl⟩
    · rw [Label.thread, hidle] at ha
      cases ha
    · rw [Label.thread] at hne ha
      obtain ⟨rfl, rfl⟩ := List.cons.inj (hat.symm.trans ha)
      obtain ⟨t, cs, hwait, hkeeps, -⟩ := waits_runSection j u.shared hwaits choice
      obtain ⟨rfl, rfl⟩ := Prod.mk.inj (Option.some.inj (hrun.symm.trans hwait))
      refine ⟨6, [.reportSection error true], ?_, .report ?_⟩
      · rw [pending_become_of_ne (Ne.symm hne)]
        exact hpending
      · rw [hsame] at hkeeps
        exact hkeeps

/-- What the call leaves, whichever way it comes to its end. -/
theorem Completes.told (h : Completes k rest u ls v) (hreport : InReport u.shared error k rest u) :
    Told u.shared (reportedConsole u.shared)
      (u.shared.errorCalls ++ (u.shared.errorHandler.map (·, error)).toList) v.shared := by
  obtain ⟨n, as, hpending, hend⟩ := Machine.invariant_of_meets (InReport u.shared error k rest)
    (fun _ _ _ => inReport_step) h.alone h.runs hreport
  obtain rfl : as = [] := List.append_left_eq_self.mp (hpending.symm.trans h.returned)
  cases hend with
  | returned htold => exact htold

/-! ### The call comes to its end -/

/-- A run that can be taken before another that completes the call. -/
theorem Completes.after {w : Threads MqttService Section} (h : OnlyCall k rest.length u l)
    (hstep : machine.step u l = some w) (hrest : Completes k rest w ls v) :
    Completes k rest u (l :: ls) v where
  runs := (Machine.exec_cons_of_step hstep ls).trans hrest.runs
  alone := ⟨h, fun t ht => by
    obtain rfl := Option.some.inj (hstep.symm.trans ht)
    exact hrest.alone⟩
  returned := hrest.returned

/-- With the mutex free the sections of the call follow each other. -/
theorem completes_of_free (hpending : u.pending k = as ++ rest)
    (hreport : Reporting s₀ error n as u.shared) (hfree : u.shared.held = false) :
    ∃ ls v, Completes k rest u ls v := by
  induction n generalizing u as with
  | zero =>
      cases hreport
      exact ⟨[], u, rfl, trivial, hpending⟩
  | succ n ih =>
      obtain ⟨a, as, rfl⟩ : ∃ a bs, as = a :: bs := by
        cases hreport <;> exact ⟨_, _, rfl⟩
      obtain ⟨m, s', bs, hm, hall, hfree', hnext⟩ := hreport.next hfree
      obtain rfl := Nat.succ.inj hm
      have hrun : u.shared.run k a .proceed = some (s', bs) :=
        run_eq_some.mpr ⟨fun _ => hfree, hall k .proceed⟩
      have hstep : machine.step u (.advance k .proceed) =
          some (u.become k s' (bs ++ (as ++ rest))) :=
        Program.step_of_moves (.advance hpending hrun)
      have hpending' : (u.become k s' (bs ++ (as ++ rest))).pending k = (bs ++ as) ++ rest := by
        rw [pending_become_self, List.append_assoc]
      obtain ⟨ls, v, hrest⟩ := ih hpending' hnext hfree'
      refine ⟨.advance k .proceed :: ls, v, hrest.after (Or.inl ⟨rfl, ?_⟩) hstep⟩
      rw [hpending, List.cons_append, List.length_cons, List.length_append]
      omega

/-- `Run` gives the mutex up, and the call goes on. -/
theorem completes_of_waiting {r : ℕ} {a : Section} {tail : List Section}
    (ha : u.pending r = a :: tail) (hwaits : a.waits = true)
    (hreport : InReport s₀ error k rest u) : ∃ ls v, Completes k rest u ls v := by
  induction hm : looks a using Nat.strong_induction_on generalizing u a with
  | _ m ih =>
      obtain ⟨n, as, hpending, hphase⟩ := hreport
      by_cases hheld : u.shared.held = true
      · obtain ⟨s', bs, hrun, -, hnext⟩ := waits_runSection r u.shared hwaits .proceed
        have hlocks : a.locks = false := by
          cases a <;> first | rfl | cases hwaits
        have hstep : machine.step u (.advance r .proceed) = some (u.become r s' (bs ++ tail)) := by
          refine Program.step_of_moves (.advance ha (run_eq_some.mpr ⟨fun h => ?_, hrun⟩))
          rw [hlocks] at h
          cases h
        have hcall : OnlyCall k rest.length u (.advance r .proceed) :=
          Or.inr ⟨hheld, a, tail, ha, hwaits⟩
        have hreport' := inReport_step ⟨n, as, hpending, hphase⟩ hcall hstep
        have hrest : ∃ ls v, Completes k rest (u.become r s' (bs ++ tail)) ls v := by
          by_cases hheld' : s'.held = true
          · obtain ⟨b, rfl, hwaits', hlooks⟩ := hnext hheld'
            exact ih (looks b) (hm ▸ hlooks) (pending_become_self ..) hwaits' hreport' rfl
          · obtain ⟨m', bs', hpending', hphase'⟩ := hreport'
            exact completes_of_free hpending' hphase' (Bool.eq_false_of_not_eq_true hheld')
        obtain ⟨ls, v, hrest⟩ := hrest
        exact ⟨_, v, hrest.after hcall hstep⟩
      · exact completes_of_free hpending hphase (Bool.eq_false_of_not_eq_true hheld)

/-- In every state that is reached a rejected `Connect` comes to its end. -/
theorem exists_completes {app : AppState}
    (hrun : machine.exec (Threads.initial (.initial app)) ls = some u)
    (hreport : InReport s₀ error k rest u) : ∃ ls v, Completes k rest u ls v := by
  have hheld : HeldByRun u := Machine.invariant HeldByRun (fun _ _ _ => heldByRun_step)
    ⟨ls, hrun⟩ nofun
  by_cases hfree : u.shared.held = true
  · obtain ⟨r, a, tail, ha, hwaits⟩ := hheld hfree
    exact completes_of_waiting ha hwaits hreport
  · obtain ⟨n, as, hpending, hphase⟩ := hreport
    exact completes_of_free hpending hphase (Bool.eq_false_of_not_eq_true hfree)

/-- Whatever the service has gone through, a `Connect` with rejected arguments calls the error
handler, creates no client and leaves the lifecycle and the status shown at Error, exactly when
the service is not shutting down or is at Error, and shows it, already. -/
theorem rejected_connect_observable_iff {app : AppState}
    {ls : List (Threads.Label Call Choice)} {u : Threads MqttService Section} {k : ℕ}
    {endpoint : Endpoint} {rest : List Section}
    (hrun : machine.exec (Threads.initial (.initial app)) ls = some u)
    (hrejected : Rejected endpoint) (hat : u.pending k = connect endpoint ++ rest) :
    Observable endpoint k rest u ↔
      u.shared.shuttingDown = false ∨
        (u.shared.status = .error ∧
          u.shared.app.console.connectionStatus = statusText .error) := by
  have hreport := inReport_of_rejected hrejected hat
  constructor
  · rintro ⟨⟨ls', v, hcompletes⟩, hreported⟩
    have htold := hcompletes.told hreport
    obtain ⟨-, -, hlifecycle, hshown⟩ := hreported ls' v hcompletes
    rw [htold.status] at hlifecycle
    rw [htold.console] at hshown
    cases hs : u.shared.shuttingDown with
    | false => exact Or.inl rfl
    | true =>
        simp only [reportedStatus, reportedConsole, hs, if_true] at hlifecycle hshown
        exact Or.inr ⟨hlifecycle, hshown⟩
  · intro hcondition
    refine ⟨exists_completes hrun hreport, fun ls' v hcompletes => ?_⟩
    have htold := hcompletes.told hreport
    refine ⟨htold.calls, htold.noClient, ?_, ?_⟩
    · rw [htold.status, reportedStatus]
      split
      · rename_i hs
        exact (hcondition.resolve_left (ne_true_of_eq_false · hs)).1
      · rfl
    · rw [htold.console, reportedConsole]
      split
      · rename_i hs
        exact (hcondition.resolve_left (ne_true_of_eq_false · hs)).2
      · rfl

/-- A `Connect` without a host. -/
def withoutHost : Endpoint := ⟨[], 1883, ascii "client"⟩

/-- A new service gets an error handler, and is asked to connect. -/
def connectAtStart : List (Threads.Label Call Choice) :=
  [.enter 0 (.setErrorHandler (some 7)), .advance 0 .proceed, .enter 0 (.connect withoutHost)]

theorem rejected_connect_observable_atStart :
    ∃ u, machine.exec (Threads.initial (.initial .initial)) connectAtStart = some u ∧
      Observable withoutHost 0 [] u :=
  ⟨_, rfl, (@rejected_connect_observable_iff .initial connectAtStart _ 0 withoutHost [] rfl
    (Or.inl rfl) rfl).mpr (Or.inl rfl)⟩

/-- The service is asked to connect after a `Disconnect`. -/
def connectAfterDisconnect : List (Threads.Label Call Choice) :=
  [.enter 0 (.setErrorHandler (some 7)), .advance 0 .proceed, .enter 0 .disconnect] ++
    steps 0 10 ++ [.enter 0 (.connect withoutHost)]

/-- The call is reported to the handler, and the service stays offline. -/
theorem rejected_connect_unseen :
    ∃ u v, machine.exec (Threads.initial (.initial .initial)) connectAfterDisconnect = some u ∧
      u.pending 0 = connect withoutHost ∧ machine.exec u (steps 0 6) = some v ∧
      v.pending 0 = [] ∧ v.shared.errorCalls = [(7, rejection withoutHost)] ∧
      v.shared.status = .offline ∧
      v.shared.app.console.connectionStatus = statusText .offline ∧
      ¬Observable withoutHost 0 [] u := by
  refine ⟨_, _, rfl, rfl, rfl, rfl, rfl, rfl, rfl, ?_⟩
  rintro ⟨⟨ls, v, hcompletes⟩, hreported⟩
  have hrejected : Rejected withoutHost := Or.inl rfl
  have htold := hcompletes.told (inReport_of_rejected hrejected rfl)
  have hlifecycle := (hreported ls v hcompletes).lifecycle
  rw [htold.status] at hlifecycle
  cases hlifecycle

end MqttService

end Watchlist.Mqtt
