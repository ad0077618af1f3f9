import Watchlist.Mqtt.Frame

/-!
The stop request of `Run`. The stop callback notifies without taking `mutex_`, and
a notification reaches only a thread that is already asleep; `Run` finds its
predicate false and goes to sleep in two steps. A request whose notification
falls between these two steps is missed by the untimed wait, for good. In every
other order it is noticed: the callback comes before the check, which then sees
the request, or after the thread has gone to sleep, and wakes it.
-/

namespace Watchlist.Mqtt.MqttService

open Bytes Transition

variable {s t : Threads MqttService Section} {l : Threads.Label Call Choice}

/-- `Run` sleeps in its wait without limit. -/
def AsleepSettled (s : Threads MqttService Section) : Prop :=
  s.shared.sleep = .asleep ∧
    ∃ endpoint retryDelay, s.Pending (.waitAsleep endpoint (.settled retryDelay))

/-- `Run` sleeps without limit though a stop has been requested and its callback is
over. -/
def StopMissed (s : Threads MqttService Section) : Prop :=
  s.shared.stopRequested = true ∧ s.shared.stopFinished = true ∧ AsleepSettled s

/-- The stop callback does not notify between the check of the untimed wait and the
sleep that follows it. -/
def NotifiedOutsideCheck (s : Threads MqttService Section) : Threads.Label Call Choice → Prop
  | .advance k _ => ∀ rest, s.pending k = .notifyStop :: rest →
      ∀ endpoint retryDelay, ¬s.Pending (.waitSleep endpoint (.settled retryDelay))
  | .enter .. => True

/-! ### One thread of `Run` -/

/-- At most one thread is in `Run`, at one place of it. -/
structure OneRun (s : Threads MqttService Section) : Prop where
  single : s.Single Section.ofRun
  running : ∀ a, s.Pending a → a.ofRun = true → s.shared.running = true

theorem length_afterWait (s : MqttService) (endpoint : Endpoint) (wait : Wait) :
    (s.afterWait endpoint wait).2.length = 1 := by
  have hsettle : ∀ retryDelay, (s.settle endpoint retryDelay).2.length = 1 := by
    intro retryDelay
    unfold settle
    split <;> rfl
  cases wait with
  | attempt retryDelay =>
      simp only [afterWait]
      split
      · rfl
      · exact hsettle 1
  | retry retryDelay => exact hsettle retryDelay
  | settled retryDelay => rfl

theorem ofRun_of_origin {s s' : MqttService} {a b : Section} (h : Origin s s' a b)
    (hb : b.ofRun = true) : a.ofRun = true := by
  cases b
  case waitSleep endpoint wait =>
      obtain ⟨rfl, -⟩ := h
      rfl
  case waitAsleep endpoint wait =>
      rw [show a = .waitSleep endpoint wait from h]
      rfl
  case enterRun => exact h.elim
  case checkStop | readLifecycle | waitCheck | waitOver | leaveRun => exact h
  all_goals cases hb

theorem ofRun_of_starts {b : Section} (h : b.starts = true) : b.ofRun = false := by
  cases b <;> first | rfl | cases h

/-- A section of `Run` is followed by at most one other, and no other section by any. -/
theorem countP_ofRun {k : ℕ} {a : Section} {x : Choice} {s s' : MqttService} {as : List Section}
    (h : s.runSection k a x = some (s', as)) :
    as.countP Section.ofRun ≤ if a.ofRun then 1 else 0 := by
  cases ha : a.ofRun with
  | false =>
      apply Nat.le_zero.mpr
      apply List.countP_eq_zero.mpr
      intro b hb hrun
      have := ofRun_of_origin (origin_runSection h b hb) hrun
      exact absurd this (ne_true_of_eq_false ha)
  | true =>
      rw [if_pos rfl]
      cases a <;> try contradiction
      case checkStop endpoint retryDelay =>
          simp only [runSection, Option.some.injEq] at h
          obtain ⟨-, rfl⟩ := Prod.mk.inj h
          split <;> simp [disconnect, Section.ofRun, List.countP_cons]
      case readLifecycle endpoint retryDelay =>
          simp only [runSection, Option.some.injEq] at h
          obtain ⟨-, rfl⟩ := Prod.mk.inj h
          have hconnect : (if s.status = .offline ∨ s.status = .error then connect endpoint
              else []).countP Section.ofRun = 0 := by
            apply List.countP_eq_zero.mpr
            intro b hb
            split at hb
            · exact ne_true_of_eq_false (ofRun_of_starts (starts_connect hb))
            · cases hb
          rw [List.countP_append, hconnect]
          simp [List.countP_cons, Section.ofRun]
      case waitCheck endpoint wait =>
          refine List.countP_le_length.trans ?_
          simp only [runSection, Option.some.injEq] at h
          split at h
          · rw [← show (s.afterWait endpoint wait).2 = as from congrArg Prod.snd h]
            exact (length_afterWait s endpoint wait).le
          · obtain ⟨-, rfl⟩ := Prod.mk.inj h
            exact le_rfl
      case waitOver endpoint wait =>
          refine List.countP_le_length.trans ?_
          rw [← show (s.afterWait endpoint wait).2 = as from
            congrArg Prod.snd (Option.some.inj h)]
          exact (length_afterWait s endpoint wait).le
      all_goals
        refine List.countP_le_length.trans ?_
        simp only [runSection] at h
        repeat' split at h
      all_goals first
        | contradiction
        | (obtain ⟨-, rfl⟩ := Prod.mk.inj (Option.some.inj h)
           exact Nat.le_refl _)
        | (obtain ⟨-, rfl⟩ := Prod.mk.inj (Option.some.inj h)
           exact Nat.zero_le _)

/-- A call is `Run`, entered when nobody is in it, or starts with no section of it. -/
theorem enter_run {k : ℕ} {call : Call} {s s' : MqttService} {as : List Section}
    (h : s.enter k call = some (s', as)) :
    (∃ endpoint, s.running = false ∧ s'.running = true ∧ as = [.enterRun endpoint]) ∨
    (s'.running = s.running ∧ ∀ b ∈ as, b.ofRun = false) := by
  cases call with
  | run endpoint =>
      simp only [enter] at h
      split at h
      · contradiction
      · rename_i hrunning
        obtain ⟨rfl, rfl⟩ := Prod.mk.inj (Option.some.inj h)
        exact Or.inl ⟨endpoint, Bool.eq_false_of_not_eq_true hrunning, rfl, rfl⟩
  | connect | subscribe | unsubscribe | publish | disconnect | setStatusHandler
  | setErrorHandler =>
      obtain ⟨rfl, hstarts⟩ := enter_api rfl h
      exact Or.inr ⟨rfl, fun b hb => ofRun_of_starts (hstarts b hb)⟩
  | requestStop | updateConsoleForm | setStatus | reportError | handleConnected =>
      obtain ⟨rfl, rfl⟩ := Prod.mk.inj (Option.some.inj h)
      exact Or.inr ⟨rfl, by simp [Mqtt.setStatus, Mqtt.reportError, Section.ofRun]⟩
  | connected c | connectSucceeded c =>
      simp only [enter] at h
      split at h
      · obtain ⟨rfl, rfl⟩ := Prod.mk.inj (Option.some.inj h)
        rw [establish_eq]
        exact Or.inr ⟨rfl, by simp [Section.ofRun]⟩
      · contradiction
  | connectFailed | connectionLost | messageArrived | operationSucceeded | operationFailed =>
      simp only [enter] at h
      split at h
      all_goals first
        | contradiction
        | obtain ⟨rfl, rfl⟩ := Prod.mk.inj (Option.some.inj h)
          exact Or.inr ⟨rfl, by simp [Mqtt.reportError, Section.ofRun]⟩

theorem oneRun_step (hs : OneRun s) (h : machine.step s l = some t) : OneRun t := by
  obtain ⟨k, call, s', as, rfl, hidle, hcall, rfl⟩ |
    ⟨k, choice, a, rest, s', as, rfl, hat, -, hsection, rfl⟩ := step_cases h
  · obtain ⟨endpoint, hrunning, hnow, rfl⟩ | ⟨hrunning, hnone⟩ := enter_run hcall
    · constructor
      · apply Threads.Single.acquire
        · intro b hb
          apply Bool.eq_false_of_not_eq_true
          intro hrun
          exact ne_true_of_eq_false hrunning (hs.running b hb hrun)
        · exact List.countP_le_length
      · exact fun _ _ _ => hnow
    · constructor
      · exact hs.single.enter hnone
      · intro b hb hrun
        rw [Threads.shared_become, hrunning]
        rcases Threads.pending_of_enter hb with hnew | hold
        · exact absurd hrun (ne_true_of_eq_false (hnone b hnew))
        · exact hs.running b hold hrun
  · have hcount := countP_ofRun hsection
    refine ⟨hs.single.become hat hcount, fun b hb hrun => ?_⟩
    cases ha : a.writesRunning with
    | false =>
        rw [Threads.shared_become, (frame_runSection hsection).running ha]
        rcases Threads.pending_of_become hat hb with hnew | hold
        · exact hs.running a (Threads.pending_head hat)
            (ofRun_of_origin (origin_runSection hsection b hnew) hrun)
        · exact hs.running b hold hrun
    | true =>
        -- after `leaveRun` nobody is in `Run`
        cases a <;> cases ha
        simp only [runSection] at hsection
        split at hsection
        · contradiction
        · obtain ⟨-, rfl⟩ := Prod.mk.inj (Option.some.inj hsection)
          exact absurd hrun (ne_true_of_eq_false (hs.single.release hat rfl (by simp) b hb))

/-! ### The stop callback -/

structure StopInvariant (s : Threads MqttService Section) : Prop extends OneRun s where
  requested : s.shared.stopFinished = true → s.shared.stopRequested = true
  notifying : s.Pending .notifyStop → s.shared.stopRequested = true
  /-- no check of the untimed wait from before the callback is left -/
  checked : s.shared.stopFinished = true →
    ∀ endpoint retryDelay, ¬s.Pending (.waitSleep endpoint (.settled retryDelay))
  awake : s.shared.stopFinished = true → ¬AsleepSettled s

theorem stopInvariant_initial (app : AppState) :
    StopInvariant (Threads.initial (MqttService.initial app)) where
  single := (Threads.idle_initial _).single
  running := fun a ha => absurd ha ((Threads.idle_initial _).not_pending a)
  requested := nofun
  notifying := fun h => absurd h ((Threads.idle_initial _).not_pending _)
  checked := nofun
  awake := nofun

theorem waitedFor_of_stopRequested {s : MqttService} (h : s.stopRequested = true) (wait : Wait) :
    s.waitedFor wait = true := by
  cases wait <;> simp [waitedFor, h]

/-- A stop request stays, and its callback is over after its notification, or when
`Run` finds the request already made. -/
theorem stop_cases {k : ℕ} {a : Section} {x : Choice} {s s' : MqttService} {as : List Section}
    (h : s.runSection k a x = some (s', as)) :
    (s.stopRequested = true → s'.stopRequested = true) ∧
    (s'.stopFinished = true → s.stopFinished = true ∨ a = .notifyStop ∨
      ∃ endpoint, a = .enterRun endpoint ∧ s.stopRequested = true) := by
  cases hw : a.writesStop with
  | false =>
      obtain ⟨hrequested, -, hfinished⟩ := (frame_runSection h).stop hw
      rw [hrequested, hfinished]
      exact ⟨id, Or.inl⟩
  | true =>
      cases a <;> try contradiction
      case enterRun endpoint =>
          obtain ⟨rfl, -⟩ := Prod.mk.inj (Option.some.inj h)
          split
          · rename_i hrequested
            exact ⟨id, fun _ => Or.inr (Or.inr ⟨endpoint, rfl, hrequested⟩)⟩
          · exact ⟨id, Or.inl⟩
      case setStop =>
          simp only [runSection] at h
          split at h
          · obtain ⟨rfl, -⟩ := Prod.mk.inj (Option.some.inj h)
            exact ⟨id, Or.inl⟩
          · obtain ⟨rfl, -⟩ := Prod.mk.inj (Option.some.inj h)
            exact ⟨fun _ => rfl, Or.inl⟩
      case notifyStop =>
          obtain ⟨rfl, -⟩ := Prod.mk.inj (Option.some.inj h)
          refine ⟨fun hrequested => ?_, fun _ => Or.inr (Or.inl rfl)⟩
          rw [notifyAll_eq]
          exact hrequested
      case leaveRun =>
          simp only [runSection] at h
          split at h
          · contradiction
          · obtain ⟨rfl, -⟩ := Prod.mk.inj (Option.some.inj h)
            exact ⟨id, Or.inl⟩

/-- Only `waitSleep` puts the thread of `Run` to sleep, and no notification leaves it
asleep. -/
theorem asleep_cases {k : ℕ} {a : Section} {x : Choice} {s s' : MqttService} {as : List Section}
    (h : s.runSection k a x = some (s', as)) (hsleep : s'.sleep = .asleep) :
    (s.sleep = .asleep ∧ a ≠ .notifyStop) ∨ ∃ endpoint wait, a = .waitSleep endpoint wait := by
  cases hw : a.writesSleep with
  | false =>
      rw [(frame_runSection h).sleep hw] at hsleep
      refine Or.inl ⟨hsleep, ?_⟩
      rintro rfl
      cases hw
  | true =>
      cases a <;> try contradiction
      case waitSleep endpoint wait => exact Or.inr ⟨endpoint, wait, rfl⟩
      case notifyState | notifyStop =>
          obtain ⟨rfl, -⟩ := Prod.mk.inj (Option.some.inj h)
          have hnotified : s.notifyAll.sleep = .asleep := hsleep
          rw [sleep_notifyAll] at hnotified
          split at hnotified
          · cases hnotified
          · contradiction
      case waitAsleep endpoint wait =>
          simp only [runSection] at h
          repeat' split at h
          all_goals first
            | contradiction
            | obtain ⟨rfl, -⟩ := Prod.mk.inj (Option.some.inj h)
              cases hsleep

theorem stopInvariant_step (hs : StopInvariant s) (hc : NotifiedOutsideCheck s l)
    (h : machine.step s l = some t) : StopInvariant t := by
  have hone := oneRun_step hs.toOneRun h
  obtain ⟨k, call, s', as, rfl, hidle, hcall, rfl⟩ |
    ⟨k, choice, a, rest, s', as, rfl, hat, -, hsection, rfl⟩ := step_cases h
  · -- a call neither requests a stop nor sleeps
    have hrequested : s'.stopRequested = s.shared.stopRequested :=
      congrArg (·.stopRequested) (enter_eq hcall)
    have hfinished : s'.stopFinished = s.shared.stopFinished :=
      congrArg (·.stopFinished) (enter_eq hcall)
    have hsleep : s'.sleep = s.shared.sleep := congrArg (·.sleep) (enter_eq hcall)
    have hold : ∀ b, (s.become k s' as).Pending b → b.enters = false →
        (∀ status detail, b ≠ .writeStatus status detail) → s.Pending b := by
      intro b hb henters hwrite
      refine (Threads.pending_of_enter hb).resolve_left fun hnew => ?_
      rcases enter_sections hcall b hnew with hb | ⟨status, detail, -, hb⟩
      · exact absurd hb (ne_true_of_eq_false henters)
      · exact hwrite status detail hb
    refine ⟨hone, ?_, ?_, ?_, ?_⟩
    · rw [Threads.shared_become, hrequested, hfinished]
      exact hs.requested
    · intro hp
      rw [Threads.shared_become, hrequested]
      exact hs.notifying (hold _ hp rfl (by simp))
    · intro hf endpoint retryDelay hp
      rw [Threads.shared_become, hfinished] at hf
      exact hs.checked hf endpoint retryDelay (hold _ hp rfl (by simp))
    · rintro hf ⟨hasleep, endpoint, retryDelay, hp⟩
      rw [Threads.shared_become, hfinished] at hf
      rw [Threads.shared_become, hsleep] at hasleep
      exact hs.awake hf ⟨hasleep, endpoint, retryDelay, hold _ hp rfl (by simp)⟩
  · have hhead := Threads.pending_head hat
    have horigin := origin_runSection hsection
    obtain ⟨hkeeps, hfinishes⟩ := stop_cases hsection
    -- no other section of `Run` is pending next to the one that is run
    have hothers : a.ofRun = true → ∀ b, s.Pending b → b.ofRun = true → b = a := by
      rintro hrun b ⟨j, hj⟩ hb
      obtain ⟨hrest, hthreads⟩ := hs.single.others hat hrun
      by_cases hjk : j = k
      · rw [hjk, hat] at hj
        rcases List.mem_cons.mp hj with hj | hj
        · exact hj
        · exact absurd hb (ne_true_of_eq_false (hrest b hj))
      · exact absurd hb (ne_true_of_eq_false (hthreads j hjk b hj))
    refine ⟨hone, ?_, ?_, ?_, ?_⟩
    · intro hf
      apply hkeeps
      rcases hfinishes hf with hbefore | rfl | ⟨endpoint, rfl, hrequested⟩
      · exact hs.requested hbefore
      · exact hs.notifying hhead
      · exact hrequested
    · intro hp
      rcases Threads.pending_of_become hat hp with hnew | hold
      · exact (horigin _ hnew).2
      · exact hkeeps (hs.notifying hold)
    · intro hf endpoint retryDelay hp
      rcases Threads.pending_of_become hat hp with hnew | hold
      · -- a check after the request finds the predicate true
        obtain ⟨rfl, hwaited⟩ := horigin _ hnew
        have hbefore := (hfinishes hf).resolve_right (by simp)
        rw [waitedFor_of_stopRequested (hs.requested hbefore)] at hwaited
        cases hwaited
      · rcases hfinishes hf with hbefore | rfl | ⟨_, rfl, -⟩
        · exact hs.checked hbefore endpoint retryDelay hold
        · exact hc rest hat endpoint retryDelay hold
        · cases hothers rfl _ hold rfl
    · rintro hf ⟨hasleep, endpoint, retryDelay, hp⟩
      rcases Threads.pending_of_become hat hp with hnew | hold
      · -- going to sleep: the check before it was made before the callback
        obtain rfl : a = .waitSleep endpoint (.settled retryDelay) := horigin _ hnew
        have hbefore := (hfinishes hf).resolve_right (by simp)
        exact hs.checked hbefore endpoint retryDelay hhead
      · rcases asleep_cases hsection hasleep with ⟨hbefore, hnotify⟩ | ⟨_, _, rfl⟩
        · rcases hfinishes hf with hdone | rfl | ⟨_, rfl, -⟩
          · exact hs.awake hdone ⟨hbefore, endpoint, retryDelay, hold⟩
          · exact hnotify rfl
          · cases hothers rfl _ hold rfl
        · cases hothers rfl _ hold rfl

/-- A notification between the check and the sleep is missed at the next step of `Run`. -/
theorem stopMissed_of_pending {k j : ℕ} {endpoint : Endpoint} {retryDelay : ℕ}
    {rest rest' : List Section} {choice choice' : Choice} (hjk : j ≠ k)
    (hrequested : s.shared.stopRequested = true) (hnotify : s.pending k = .notifyStop :: rest)
    (hcheck : s.pending j = .waitSleep endpoint (.settled retryDelay) :: rest') :
    ∃ t, machine.exec s [.advance k choice, .advance j choice'] = some t ∧ StopMissed t := by
  obtain ⟨u, hstep, hat, hstop, hfinished⟩ : ∃ u, machine.step s (.advance k choice) = some u ∧
      u.pending j = .waitSleep endpoint (.settled retryDelay) :: rest' ∧
      u.shared.stopRequested = true ∧ u.shared.stopFinished = true := by
    refine ⟨_, Program.step_of_moves (.advance hnotify rfl),
      (Threads.pending_become_of_ne hjk _ _).trans hcheck, ?_, rfl⟩
    rw [Threads.shared_become, notifyAll_eq]
    exact hrequested
  refine ⟨u.become j { u.shared with held := false, sleep := .asleep }
    ([.waitAsleep endpoint (.settled retryDelay)] ++ rest'), ?_, hstop, hfinished, rfl,
    endpoint, retryDelay, Threads.pending_become_of_mem List.mem_cons_self⟩
  rw [Machine.exec_cons_of_step hstep, Machine.exec_cons_of_step (Program.step_of_moves
    (.advance hat rfl)), Machine.exec_nil]

/-- In a run where the stop callback never notifies between the check of the untimed
wait and the sleep, no stop request is missed. -/
theorem not_stopMissed_of_meets {app : AppState} {ls : List (Threads.Label Call Choice)}
    (hmeets : machine.Meets NotifiedOutsideCheck (Threads.initial (MqttService.initial app)) ls)
    (hrun : machine.exec (Threads.initial (MqttService.initial app)) ls = some t) :
    ¬StopMissed t := by
  have hinvariant := Machine.invariant_of_meets StopInvariant
    (fun _ _ _ => stopInvariant_step) hmeets hrun (stopInvariant_initial app)
  rintro ⟨-, hfinished, hasleep⟩
  exact hinvariant.awake hfinished hasleep

/-! ### A stop request in the window -/

/-- `Run` connects, the broker accepts, and `Run` finds nothing to do: it is about to
sleep without limit. -/
def checkingRun : List (Threads.Label Call Choice) :=
  .enter 0 (.run localBroker) :: steps 0 15 ++ .enter 1 (.connected 0 []) :: steps 1 1 ++ steps 0 3

/-- A stop request, with its callback. -/
def stopping : List (Threads.Label Call Choice) := .enter 2 .requestStop :: steps 2 2

/-- Whether `Run`, on thread 0, is in its untimed wait, and what the stop token says. -/
def stopView (s : Threads MqttService Section) : Bool × Bool × Bool × Sleep :=
  (match s.pending 0 with
    | .waitAsleep _ (.settled _) :: _ => true
    | _ => false, s.shared.stopRequested, s.shared.stopFinished, s.shared.sleep)

theorem stopMissed_of_stopView {s : Threads MqttService Section}
    (h : stopView s = (true, true, true, .asleep)) : StopMissed s := by
  simp only [stopView, Prod.mk.injEq] at h
  obtain ⟨hwait, hrequested, hfinished, hsleep⟩ := h
  refine ⟨hrequested, hfinished, hsleep, ?_⟩
  split at hwait
  · rename_i endpoint retryDelay rest hat
    exact ⟨endpoint, retryDelay, Threads.pending_head hat⟩
  · cases hwait

theorem stop_request_is_missed :
    ∃ t, machine.exec (Threads.initial (MqttService.initial .initial))
      (checkingRun ++ stopping ++ steps 0 1) = some t ∧ StopMissed t := by
  have hend : (machine.exec (Threads.initial (MqttService.initial .initial))
      (checkingRun ++ stopping ++ steps 0 1)).map stopView = some (true, true, true, .asleep) := by
    decide +kernel
  obtain ⟨t, hrun, hobserved⟩ := Option.map_eq_some_iff.mp hend
  exact ⟨t, hrun, stopMissed_of_stopView hobserved⟩

/-- A check for `NotifiedOutsideCheck` in a run of three threads. -/
def checksOver (s : Threads MqttService Section) : Threads.Label Call Choice → Bool
  | .advance k _ =>
      match s.pending k with
      | .notifyStop :: _ => (List.range 3).all fun j => (s.pending j).all fun a =>
          match a with
          | .waitSleep .. => false
          | _ => true
      | _ => true
  | .enter .. => true

theorem notifiedOutsideCheck_of_checksOver (hs : s.Below 3) (h : checksOver s l = true) :
    NotifiedOutsideCheck s l := by
  cases l with
  | enter k call => trivial
  | advance k choice =>
      intro rest hat endpoint retryDelay hpending
      obtain ⟨j, hj, hmem⟩ := hs.pending hpending
      simp only [checksOver, hat, List.all_eq_true] at h
      exact absurd (h j (List.mem_range.mpr hj) _ hmem) Bool.false_ne_true

theorem not_stopMissed_of_meets_asleep :
    ∃ t, machine.exec (Threads.initial (MqttService.initial .initial))
        (checkingRun ++ steps 0 1 ++ stopping) = some t ∧
      t.shared.stopFinished = true ∧ t.shared.sleep = .notified ∧ ¬StopMissed t := by
  have hend : (machine.exec (Threads.initial (MqttService.initial .initial))
      (checkingRun ++ steps 0 1 ++ stopping)).map stopView =
        some (true, true, true, .notified) := by
    decide +kernel
  obtain ⟨t, hrun, hobserved⟩ := Option.map_eq_some_iff.mp hend
  have hchecks : machine.Meets (fun s l => checksOver s l = true)
      (Threads.initial (MqttService.initial .initial)) (checkingRun ++ steps 0 1 ++ stopping) := by
    decide +kernel
  have hmeets : machine.Meets NotifiedOutsideCheck
      (Threads.initial (MqttService.initial .initial)) (checkingRun ++ steps 0 1 ++ stopping) := by
    apply Program.meets_of_below ((Threads.idle_initial _).below 3) (by decide)
    exact hchecks.mono fun s l h hs => notifiedOutsideCheck_of_checksOver hs h
  simp only [stopView, Prod.mk.injEq] at hobserved
  obtain ⟨-, -, hfinished, hsleep⟩ := hobserved
  exact ⟨t, hrun, hfinished, hsleep, not_stopMissed_of_meets hmeets hrun⟩

end Watchlist.Mqtt.MqttService
