import Watchlist.Mqtt.Frame

/-!
The connection status on the console next to the lifecycle of the service. The
lifecycle is written under `mutex_` and mirrored later, in two calls into
`AppState`; what keeps the two together is a mirror that is still under way, that
is, a thread which is going to write the text of the current lifecycle. Writing
any other text is harmless as long as such a thread is left.
-/

namespace Watchlist.Mqtt

open Bytes Transition

namespace Section

/-- The sections of `SetStatus`, `ReportError` and `HandleConnected`, without the
subscriptions that the last of them issues. -/
def updatesStatus : Section → Bool
  | .writeStatus .. | .reportSection .. | .handleConnected _ | .notifyState | .snapshotConsole _
  | .updateConsole _ | .addActivity _ | .callStatusHandler .. | .callErrorHandler .. => true
  | _ => false

/-- The section is going to write the text to the console. -/
def Mirrors (text : Bytes) : Section → Prop
  | .snapshotConsole (some text') => text' = text
  | .updateConsole console => console.connectionStatus = text
  | _ => False

end Section

namespace MqttService

variable {s t : Threads MqttService Section} {l : Threads.Label Call Choice}

/-- None of `SetStatus`, `ReportError` and `HandleConnected` is in progress. -/
def NoUpdate (s : Threads MqttService Section) : Prop :=
  ∀ a, s.Pending a → a.updatesStatus = false

/-- The console shows the lifecycle. -/
def Shown (s : Threads MqttService Section) : Prop :=
  s.shared.app.console.connectionStatus = statusText s.shared.status

/-- The text of the current lifecycle, or a thread other than `k` that will write it. -/
def WillShow (s : Threads MqttService Section) (k : ℕ) (text : Bytes) : Prop :=
  text = statusText s.shared.status ∨
    ∃ j a, j ≠ k ∧ a ∈ s.pending j ∧ a.Mirrors (statusText s.shared.status)

/-- A console is written back with the text of the current lifecycle, or while
another thread is going to write that text. -/
def MirroredInOrder (s : Threads MqttService Section) : Threads.Label Call Choice → Prop
  | .advance k _ => ∀ console rest, s.pending k = .updateConsole console :: rest →
      WillShow s k console.connectionStatus
  | .enter .. => True

/-- The console shows the lifecycle, or some thread is going to make it. -/
def Mirrored (s : Threads MqttService Section) : Prop :=
  Shown s ∨ ∃ a, s.Pending a ∧ a.Mirrors (statusText s.shared.status)

theorem Mirrored.shown (h : Mirrored s) (hquiet : NoUpdate s) : Shown s := by
  obtain hshown | ⟨a, hpending, hmirrors⟩ := h
  · exact hshown
  · have hnone := hquiet a hpending
    cases a <;> contradiction

theorem mirrored_initial {app : AppState}
    (happ : app.console.connectionStatus = statusText .offline) :
    Mirrored (Threads.initial (MqttService.initial app)) := Or.inl happ

/-- A section that is no mirror, and changes neither side, changes nothing. -/
theorem Mirrored.become {k : ℕ} {a : Section} {rest as : List Section} {s' : MqttService}
    (h : Mirrored s) (hat : s.pending k = a :: rest) (hstatus : s'.status = s.shared.status)
    (hconsole : s'.app.console = s.shared.app.console)
    (hmirror : ¬a.Mirrors (statusText s.shared.status)) :
    Mirrored (s.become k s' (as ++ rest)) := by
  obtain hshown | ⟨b, hpending, hb⟩ := h
  · left
    show s'.app.console.connectionStatus = statusText s'.status
    rw [hstatus, hconsole]
    exact hshown
  · right
    rw [Threads.shared_become, hstatus]
    rcases hpending.become hat with rfl | hpending
    · exact absurd hb hmirror
    · exact ⟨b, hpending, hb⟩

/-- A section that writes the lifecycle is going to show it, unless it leaves the
lifecycle as it was. -/
theorem mirrors_of_writesStatus {k : ℕ} {a : Section} {x : Choice} {s s' : MqttService}
    {as : List Section} (ha : a.writesStatus = true)
    (h : s.runSection k a x = some (s', as)) :
    s'.status = s.status ∨ .snapshotConsole (some (statusText s'.status)) ∈ as := by
  cases a <;> cases ha
  case writeStatus status detail =>
      obtain ⟨rfl, rfl⟩ := Prod.mk.inj (Option.some.inj h)
      right
      simp [announce]
  case reportSection error changesLifecycle =>
      simp only [runSection] at h
      split at h
      · obtain ⟨rfl, rfl⟩ := Prod.mk.inj (Option.some.inj h)
        right
        simp
      · obtain ⟨rfl, rfl⟩ := Prod.mk.inj (Option.some.inj h)
        left
        rfl
  case handleConnected detail =>
      simp only [runSection] at h
      split at h
      · obtain ⟨rfl, rfl⟩ := Prod.mk.inj (Option.some.inj h)
        left
        rfl
      · obtain ⟨rfl, rfl⟩ := Prod.mk.inj (Option.some.inj h)
        right
        cases s.client <;> simp [announce]

theorem mirrored_step (hs : Mirrored s) (hc : MirroredInOrder s l)
    (h : machine.step s l = some t) : Mirrored t := by
  obtain ⟨k, call, s', as, rfl, hidle, hcall, rfl⟩ |
    ⟨k, choice, a, rest, s', as, rfl, hat, -, hsection, rfl⟩ := step_cases h
  · have hstatus : s'.status = s.shared.status := congrArg (·.status) (enter_eq hcall)
    have hconsole :
        s'.app.console.connectionStatus = s.shared.app.console.connectionStatus := by
      obtain ⟨console, -, -, happ, -⟩ | ⟨-, happ⟩ := enter_app hcall
      · rw [happ]
        rfl
      · rw [happ]
    obtain hshown | ⟨b, hpending, hb⟩ := hs
    · left
      show s'.app.console.connectionStatus = statusText s'.status
      rw [hstatus, hconsole]
      exact hshown
    · right
      rw [Threads.shared_become, hstatus]
      exact ⟨b, hpending.enter hidle, hb⟩
  · have hframe := frame_runSection hsection
    cases hw : a.writesStatus with
    | true =>
        have hconsole : s'.app.console = s.shared.app.console := by
          apply hframe.console
          cases a <;> first | rfl | cases hw
        rcases mirrors_of_writesStatus hw hsection with hsame | hnew
        · apply hs.become hat hsame hconsole
          intro hmirror
          cases a <;> contradiction
        · exact Or.inr ⟨_, Threads.pending_become_of_mem hnew, rfl⟩
    | false =>
        have hstatus := hframe.status hw
        by_cases hm : a.Mirrors (statusText s.shared.status) ∨ a.writesConsole = true
        · -- the two halves of a mirror: the snapshot, and its write
          cases a
          case snapshotConsole text =>
              obtain ⟨rfl, rfl⟩ := Prod.mk.inj (Option.some.inj hsection)
              cases text with
              | none => rcases hm with hm | hm <;> cases hm
              | some text =>
                  obtain rfl : text = _ := hm.resolve_right (by nofun)
                  exact Or.inr ⟨_, Threads.pending_become_of_mem List.mem_cons_self, rfl⟩
          case updateConsole console =>
              obtain ⟨rfl, rfl⟩ := Prod.mk.inj (Option.some.inj hsection)
              obtain hshown | ⟨j, b, hjk, hpending, hb⟩ := hc console rest hat
              · exact Or.inl hshown
              · refine Or.inr ⟨b, ⟨j, ?_⟩, hb⟩
                rwa [Threads.pending_become_of_ne hjk]
          all_goals rcases hm with hm | hm <;> cases hm
        · obtain ⟨hmirror, hconsole⟩ := not_or.mp hm
          exact hs.become hat hstatus (hframe.console (Bool.eq_false_of_not_eq_true hconsole)) hmirror

/-- In a run where every console is written back in order, the console shows the
lifecycle whenever no update is in progress. -/
theorem shown_of_meets {app : AppState} {ls : List (Threads.Label Call Choice)}
    (happ : app.console.connectionStatus = statusText .offline)
    (hmeets : machine.Meets MirroredInOrder (Threads.initial (MqttService.initial app)) ls)
    (hrun : machine.exec (Threads.initial (MqttService.initial app)) ls = some t)
    (hquiet : NoUpdate t) : Shown t :=
  (Machine.invariant_of_meets Mirrored (fun _ _ _ => mirrored_step) hmeets hrun
    (mirrored_initial happ)).shown hquiet

/-! ### Two updates at once -/

/-- A check for `MirroredInOrder` that needs no other thread. -/
def mirrorsCurrent (s : Threads MqttService Section) : Threads.Label Call Choice → Bool
  | .advance k _ =>
      match s.pending k with
      | .updateConsole console :: _ => console.connectionStatus = statusText s.shared.status
      | _ => true
  | .enter .. => true

theorem mirroredInOrder_of_mirrorsCurrent (h : mirrorsCurrent s l = true) :
    MirroredInOrder s l := by
  cases l with
  | enter k call => trivial
  | advance k choice =>
      intro console rest hat
      simp only [mirrorsCurrent, hat, decide_eq_true_eq] at h
      exact Or.inl h

/-- What the console shows, the lifecycle, and what two threads still have to do. -/
def shownBoth (s : Threads MqttService Section) : Bytes × LifecycleStatus × ℕ × ℕ :=
  (s.shared.app.console.connectionStatus, s.shared.status, (s.pending 0).length,
    (s.pending 1).length)

/-- `SetStatus`, section by section: before `n` of them, or after. -/
def settingStatus (k : ℕ) (status : LifecycleStatus) (n : ℕ) : List (Threads.Label Call Choice) :=
  .enter k (.setStatus status []) :: List.replicate n (.advance k .proceed)

/-- The connection comes back while its loss is being mirrored. -/
def crossedUpdates : List (Threads.Label Call Choice) :=
  settingStatus 0 .reconnecting 3 ++ settingStatus 1 .connected 6 ++
    List.replicate 3 (.advance 0 .proceed)

theorem idle_of_shownBoth {ls : List (Threads.Label Call Choice)} {text : Bytes}
    {status : LifecycleStatus} (hls : ∀ l ∈ ls, l.thread < 2)
    (hrun : machine.exec (Threads.initial (MqttService.initial .initial)) ls = some t)
    (h : shownBoth t = (text, status, 0, 0)) :
    t.Idle ∧ t.shared.app.console.connectionStatus = text ∧ t.shared.status = status := by
  simp only [shownBoth, Prod.mk.injEq, List.length_eq_zero_iff] at h
  obtain ⟨htext, hstatus, hzero, hone⟩ := h
  have hbelow := Program.below_exec ((Threads.idle_initial _).below 2) hls hrun
  refine ⟨hbelow.idle fun k hk => ?_, htext, hstatus⟩
  obtain rfl | rfl : k = 0 ∨ k = 1 := by omega
  · exact hzero
  · exact hone

theorem lifecycle_is_not_shown :
    ∃ t, machine.exec (Threads.initial (MqttService.initial .initial)) crossedUpdates = some t ∧
      NoUpdate t ∧ t.shared.status = .connected ∧
      t.shared.app.console.connectionStatus = ascii "Reconnecting" ∧ ¬Shown t := by
  have hend : (machine.exec (Threads.initial (MqttService.initial .initial)) crossedUpdates).map
      shownBoth = some (ascii "Reconnecting", .connected, 0, 0) := by
    decide +kernel
  obtain ⟨t, hrun, hobserved⟩ := Option.map_eq_some_iff.mp hend
  obtain ⟨hidle, htext, hstatus⟩ := idle_of_shownBoth (by decide) hrun hobserved
  refine ⟨t, hrun, fun a ha => absurd ha (hidle.not_pending a), hstatus, htext, ?_⟩
  intro hshown
  rw [Shown, htext, hstatus] at hshown
  revert hshown
  decide

theorem shown_of_meets_connected :
    ∃ t, machine.exec (Threads.initial (MqttService.initial .initial))
        (settingStatus 1 .connected 6) = some t ∧
      t.shared.status = .connected ∧ Shown t := by
  have hend : (machine.exec (Threads.initial (MqttService.initial .initial))
      (settingStatus 1 .connected 6)).map shownBoth = some (ascii "Connected", .connected, 0, 0) := by
    decide +kernel
  obtain ⟨t, hrun, hobserved⟩ := Option.map_eq_some_iff.mp hend
  obtain ⟨hidle, -, hstatus⟩ := idle_of_shownBoth (by decide) hrun hobserved
  have hmeets : machine.Meets (fun s l => mirrorsCurrent s l = true)
      (Threads.initial (MqttService.initial .initial)) (settingStatus 1 .connected 6) := by
    decide +kernel
  exact ⟨t, hrun, hstatus, shown_of_meets rfl
    (hmeets.mono fun _ _ => mirroredInOrder_of_mirrorsCurrent) hrun
    fun a ha => absurd ha (hidle.not_pending a)⟩

end MqttService

end Watchlist.Mqtt
