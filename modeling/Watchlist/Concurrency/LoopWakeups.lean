import Watchlist.Concurrency.LoopNotifications
import Watchlist.Library.Weights

/-!
No wake-up of the worker of `AsyncEventLoop` is lost, and a stop comes to its end. The
worker is blocked on `condition_` with something to do only while somebody has still to
notify; so some thread can always go on, unless the worker waits for what is not there yet
and the others have nothing to do. Once the loop is closed every section brings the end
nearer, the worker's too, since it is not blocked again.
-/

namespace Watchlist.Concurrency

open Transition Threads AsyncEventLoop

namespace NotifiedLoop

variable {deadlineOf : ℤ → ℤ → ℤ} {k : ℕ} {s s' : NotifiedLoop} {a : NotifiedSection}
  {b : AsyncSection} {choice : NotifiedChoice} {as rest : List NotifiedSection}
  {u v : Threads NotifiedLoop NotifiedSection} {l : Threads.Label AsyncCall NotifiedChoice}

/-! ### What the worker waits for -/

/-- The predicate of the wait. -/
def predicate (s : AsyncEventLoop) : AsyncSection → Bool
  | .awaitWork => s.stopping || !s.ready.isEmpty || s.delayed.top.isSome
  | .asleepUntil deadline => s.wakes deadline
  | _ => false

/-- The thread has still to notify. -/
def toCome : NotifiedSection → Bool
  | .cancelling _ | .notify => true
  | .plain _ => false

@[simp] theorem predicate_enter (s : AsyncEventLoop) (call : AsyncCall) (b : AsyncSection) :
    predicate (s.enter call).1 b = predicate s b := by
  cases call <;> cases b <;> rfl

/-- Only a section that is followed by a notification gives the worker something to do. -/
theorem predicate_run {s t : AsyncEventLoop} {c : AsyncChoice} {bs : List AsyncSection}
    (hdoes : AsyncEventLoop.Does deadlineOf k s c b t bs) (hwaits : waits b = false)
    (hsilent : s.notifies b = false) (hclosed : b = .close → s.accepting = false)
    (w : AsyncSection) : predicate t w = predicate s w := by
  cases hdoes with
  | queue hopen => rw [notifies, hopen] at hsilent; cases hsilent
  | delay hopen => rw [notifies, hopen] at hsilent; cases hsilent
  | emit hopen =>
      rw [notifies, hopen, Bool.true_and, Bool.not_eq_false', List.isEmpty_iff] at hsilent
      simp only [hsilent, List.append_nil]
      cases w <;> rfl
  | close hopen => rw [hclosed rfl] at hopen; cases hopen
  | takeReady => cases hwaits
  | takeDelayed => cases hwaits
  | calls call => exact predicate_enter s call w
  | _ => cases w <;> rfl

theorem notifies_run {s t : AsyncEventLoop} {c : AsyncChoice} {bs : List AsyncSection}
    (hdoes : AsyncEventLoop.Does deadlineOf k s c b t bs) (hnotifies : s.notifies b = true) :
    bs = [] := by
  cases hdoes with
  | refuse hclosed ha =>
      rcases ha with rfl | ⟨_, rfl⟩ | ⟨_, rfl⟩ <;> simp [notifies, hclosed] at hnotifies
  | queue | delay | emit | emitLate => rfl
  | _ => cases hnotifies

/-- A blocked worker waits for what is not there, or somebody is about to notify it. -/
def Attended (u : Threads NotifiedLoop NotifiedSection) : Prop :=
  u.shared.asleep = true → ∃ b, waits b = true ∧ u.Pending (.plain b) ∧
    (predicate u.shared.loop b = true → ∃ a, u.Pending a ∧ toCome a = true)

theorem Attended.keep (h : Attended u) (hat : u.pending k = a :: rest)
    (hasleep : s'.asleep = u.shared.asleep) (hnot : ∀ b, waits b = true → NotifiedSection.plain b ≠ a)
    (hnotified : ∀ b, waits b = true → predicate s'.loop b = true → (∃ a' ∈ as, toCome a' = true) ∨
      toCome a = false ∧ predicate u.shared.loop b = true) :
    Attended (u.become k s' (as ++ rest)) := by
  intro hblocked
  obtain ⟨b, hwaits, hpending, hcome⟩ := h (hasleep.symm.trans hblocked)
  refine ⟨b, hwaits, (Pending.become hat hpending).resolve_left (hnot b hwaits), fun hready => ?_⟩
  rcases hnotified b hwaits hready with ⟨a', ha', hnew⟩ | ⟨ha, hold⟩
  · exact ⟨a', pending_become_of_mem ha', hnew⟩
  · obtain ⟨a', ha', hnotify⟩ := hcome hold
    refine ⟨a', (Pending.become hat ha').resolve_left ?_, hnotify⟩
    rintro rfl
    rw [ha] at hnotify
    cases hnotify

theorem Attended.advance (h : Attended u) (hat : u.pending k = a :: rest)
    (hdoes : Does deadlineOf k u.shared choice a s' as) :
    Attended (u.become k s' (as ++ rest)) := by
  cases hdoes with
  | @block b hwaits hawake hnothing hasleep =>
      refine fun _ => ⟨b, hwaits, pending_become_of_mem List.mem_cons_self, fun hready => ?_⟩
      cases b with
      | awaitWork =>
          obtain ⟨hrunning, hempty, hnone⟩ := hnothing rfl
          simp [predicate, hrunning, hempty, hnone] at hready
      | asleepUntil deadline =>
          exact absurd hready (ne_true_of_eq_false (hasleep deadline rfl))
      | _ => cases hwaits
  | @sleep d hawake hrunning hready hd hrun =>
      refine fun _ => ⟨_, rfl, pending_become_of_mem List.mem_cons_self, fun hwakes => ?_⟩
      simp [predicate, wakes, hrunning, hready, hd] at hwakes
  | wakeSpuriously => exact fun hasleep => by cases hasleep
  | goOn => exact fun hasleep => by cases hasleep
  | notify => exact fun hasleep => by cases hasleep
  | close hopen =>
      refine h.keep hat ?_ ?_ ?_
      · rfl
      · rintro b hwaits ⟨rfl⟩
        cases hwaits
      · exact fun _ _ _ => Or.inl ⟨_, List.mem_singleton_self _, rfl⟩
  | cancelled =>
      refine h.keep hat ?_ ?_ ?_
      · rfl
      · rintro b hwaits ⟨⟩
      · exact fun _ _ _ => Or.inl ⟨.notify, List.mem_cons_self, rfl⟩
  | cancel =>
      refine h.keep hat ?_ ?_ ?_
      · rfl
      · rintro b hwaits ⟨⟩
      · exact fun _ _ _ => Or.inl ⟨_, List.mem_singleton_self _, rfl⟩
  | @plain b c loop bs hwaits hclosed hchoice hrun =>
      refine h.keep hat ?_ ?_ ?_
      · rfl
      · rintro b' hwaits' ⟨rfl⟩
        rw [hwaits] at hwaits'
        cases hwaits'
      · intro w hw hready
        cases hsilent : u.shared.loop.notifies b with
        | true => exact Or.inl ⟨.notify, List.mem_append_right _ List.mem_cons_self, rfl⟩
        | false =>
            have hsame := predicate_run (AsyncEventLoop.does_of_run hrun) hwaits hsilent hclosed w
            exact Or.inr ⟨rfl, hsame.symm.trans hready⟩

theorem attended_enter {call : AsyncCall} (h : Attended u) (hidle : u.pending k = [])
    (hcall : enter deadlineOf k u.shared call = some (s', as)) : Attended (u.become k s' as) := by
  obtain ⟨rfl, rfl, -⟩ := enter_eq hcall
  intro hblocked
  obtain ⟨b, hwaits, hpending, hcome⟩ := h hblocked
  refine ⟨b, hwaits, hpending.enter hidle, fun hready => ?_⟩
  obtain ⟨a, ha, hnotify⟩ := hcome ((predicate_enter _ call b).symm.trans hready)
  exact ⟨a, ha.enter hidle, hnotify⟩

/-- A thread that has still to notify does so next. -/
def NotifiesNext (u : Threads NotifiedLoop NotifiedSection) : Prop :=
  ∀ j, ∀ a ∈ (u.pending j).tail, toCome a = false

theorem toCome_plain {bs : List AsyncSection} :
    ∀ a ∈ bs.map NotifiedSection.plain, toCome a = false := by
  intro a ha
  obtain ⟨b, -, rfl⟩ := List.mem_map.mp ha
  rfl

theorem toCome_tail (hdoes : Does deadlineOf k s choice a s' as) :
    ∀ a' ∈ as.tail, toCome a' = false := by
  cases hdoes with
  | goOn => exact fun a' ha' => toCome_plain a' (List.mem_of_mem_tail ha')
  | @plain b c loop bs hwaits hclosed hchoice hrun =>
      cases hsilent : s.loop.notifies b with
      | true =>
          obtain rfl := notifies_run (AsyncEventLoop.does_of_run hrun) hsilent
          exact fun a' ha' => absurd ha' List.not_mem_nil
      | false =>
          intro a' ha'
          rw [if_neg Bool.false_ne_true, List.append_nil] at ha'
          exact toCome_plain a' (List.mem_of_mem_tail ha')
  | cancelled =>
      intro a' ha'
      obtain rfl := List.mem_singleton.mp ha'
      rfl
  | _ => exact fun a' ha' => absurd ha' List.not_mem_nil

/-- What is known of the threads in a reachable state. -/
structure Wakeful (u : Threads NotifiedLoop NotifiedSection) : Prop where
  settling : Settling (unnotified u)
  worker : OneWorker (unnotified u)
  attended : Attended u
  notifiesNext : NotifiesNext u

theorem Wakeful.start (mode : AsyncEventLoop.ExecutionMode) (now : ℤ) :
    Wakeful (start mode now) := by
  refine ⟨?_, ?_, by rintro ⟨⟩, ?_⟩
  · rw [unnotified_start]
    exact .start mode now
  · rw [unnotified_start]
    exact .start mode now
  · intro j a ha
    exact toCome_plain a (List.mem_of_mem_tail ha)

theorem Wakeful.step (h : Wakeful u) (hstep : (machine deadlineOf).step u l = some v) :
    Wakeful v := by
  refine ⟨?_, ?_, ?_, ?_⟩
  · rcases unnotified_step hstep with hsame | ⟨l', hl'⟩
    · rw [hsame]
      exact h.settling
    · exact h.settling.step hl'
  · rcases unnotified_step hstep with hsame | ⟨l', hl'⟩
    · rw [hsame]
      exact h.worker
    · exact h.worker.step hl'
  · cases Program.moves_of_step hstep with
    | enter hidle hcall => exact attended_enter h.attended hidle hcall
    | advance hat hrun => exact h.attended.advance hat (does_of_run hrun)
  · cases Program.moves_of_step hstep with
    | enter hidle hcall =>
        obtain ⟨rfl, rfl, -⟩ := enter_eq hcall
        exact forall_tail_enter (fun a ha => toCome_plain a (List.mem_of_mem_tail ha))
          h.notifiesNext
    | advance hat hrun =>
        exact forall_tail_become hat (toCome_tail (does_of_run hrun)) h.notifiesNext

theorem Wakeful.of_exec {ls : List (Threads.Label AsyncCall NotifiedChoice)} (h : Wakeful u)
    (hrun : (machine deadlineOf).exec u ls = some v) : Wakeful v :=
  Machine.invariant Wakeful (fun _ _ _ => Wakeful.step) ⟨ls, hrun⟩ h

/-! ### Somebody can go on -/

/-- The section waits for the gate, or on `condition_`. -/
inductive Blocked (k : ℕ) (s : NotifiedLoop) : AsyncSection → Prop
  | lockGate (hgate : s.loop.gate.lock k = none) : Blocked k s .lockGate
  | lockBoundary {task : ℕ} (hgate : s.loop.gate.lock k = none) : Blocked k s (.lockBoundary task)
  | waiting {b : AsyncSection} (hwaits : waits b = true) (hasleep : s.asleep = true) : Blocked k s b

theorem exists_run_plain (hwaits : waits b = false) (hfree : ¬Blocked k s b) :
    ∃ r, AsyncEventLoop.runSection deadlineOf k s.loop b .proceed = some r := by
  have hlock (hnone : s.loop.gate.lock k = none → Blocked k s b) :
      ∃ gate, s.loop.gate.lock k = some gate :=
    Option.ne_none_iff_exists'.mp fun hgate => hfree (hnone hgate)
  cases b with
  | awaitWork => cases hwaits
  | asleepUntil deadline => cases hwaits
  | lockGate =>
      obtain ⟨gate, hgate⟩ := hlock .lockGate
      exact ⟨_, Option.map_eq_some_iff.mpr ⟨gate, hgate, rfl⟩⟩
  | lockBoundary task =>
      obtain ⟨gate, hgate⟩ := hlock .lockBoundary
      exact ⟨_, Option.map_eq_some_iff.mpr ⟨gate, hgate, rfl⟩⟩
  | enqueueReady | enqueueAfter | enqueueEventWait | emit | close | startRun =>
      simp only [AsyncEventLoop.runSection]
      split <;> exact ⟨_, rfl⟩
  | cancelAll tasks => cases tasks <;> exact ⟨_, rfl⟩
  | _ => exact ⟨_, rfl⟩

/-- What is not blocked goes on. -/
theorem exists_run (hfree : ∀ b, a = .plain b → ¬Blocked k s b) :
    ∃ r, runSection deadlineOf k s a (.loop .proceed) = some r := by
  cases a with
  | notify => exact ⟨_, rfl⟩
  | cancelling tasks => cases tasks <;> exact ⟨_, rfl⟩
  | plain b =>
      have hb := hfree b rfl
      cases hwaits : waits b with
      | true =>
          have hawake : ¬s.asleep = true := fun hasleep => hb (.waiting hwaits hasleep)
          cases b with
          | awaitWork =>
              simp only [runSection, if_neg hawake]
              split <;> exact ⟨_, rfl⟩
          | asleepUntil deadline =>
              simp only [runSection, if_neg hawake]
              split <;> exact ⟨_, rfl⟩
          | _ => cases hwaits
      | false =>
          have hruns : ∃ r, AsyncEventLoop.runSection deadlineOf k s.loop b .proceed = some r :=
            exists_run_plain hwaits hb
          obtain ⟨r, hr⟩ := hruns
          by_cases hclose : b = .close
          · subst hclose
            exact ⟨_, Option.map_eq_some_iff.mpr ⟨r, hr, rfl⟩⟩
          · rw [runSection_plain hwaits hclose]
            exact ⟨_, Option.map_eq_some_iff.mpr ⟨r, hr, rfl⟩⟩

/-- Only one section of all is the worker's, and it is where the worker is. -/
theorem oneWorker_alone {u : Threads AsyncEventLoop AsyncSection} (h : OneWorker u)
    {rest : List AsyncSection} (hat : u.pending k = b :: rest) (hb : working b = 1) :
    (∀ b' ∈ rest, working b' = 0) ∧ ∀ j, j ≠ k → ∀ b' ∈ u.pending j, working b' = 0 := by
  obtain ⟨m, hm, hle⟩ := h
  obtain ⟨m₀, rfl, hrest⟩ := hm.become hat u.shared []
  have hnone : m₀ = 0 := by split at hle <;> omega
  rw [List.map_nil, List.sum_nil, hnone] at hrest
  have hzero {b' : AsyncSection} (hb' : (u.become k u.shared ([] ++ rest)).Pending b') :
      working b' = 0 := Nat.le_zero.mp (hrest.le hb')
  constructor
  · intro b' hb'
    exact hzero ⟨k, by rwa [pending_become_self]⟩
  · intro j hjk b' hb'
    exact hzero ⟨j, by rwa [pending_become_of_ne hjk]⟩

theorem working_waits (h : waits b = true) : working b = 1 ∧ holdsGate b = false := by
  cases b with
  | awaitWork => exact ⟨rfl, rfl⟩
  | asleepUntil deadline => exact ⟨rfl, rfl⟩
  | _ => cases h

/-- A worker that waits has nothing else to do. -/
theorem Wakeful.waits_only (h : Wakeful u) (hat : u.pending k = .plain b :: rest)
    (hwaits : waits b = true) : rest = [] := by
  by_contra hne
  obtain ⟨a, rest', rfl⟩ := List.exists_cons_of_ne_nil hne
  have hpending := pending_unnotified hat
  cases a with
  | plain b' =>
      -- below its section the worker can only be inside a task, where it would be at work
      have hinside := h.settling.stopping.inside k b'
      rw [hpending] at hinside
      obtain ⟨i, rfl⟩ := hinside List.mem_cons_self
      have hnone := (oneWorker_alone h.worker hpending (working_waits hwaits).1).1
      exact absurd (hnone (.inTask i) List.mem_cons_self) one_ne_zero
  | _ =>
      have hnext := h.notifiesNext k
      rw [hat] at hnext
      exact absurd (hnext _ List.mem_cons_self) (by rintro ⟨⟩)

/-- Who holds the gate does not wait on `condition_`. -/
theorem Wakeful.lock_free (h : Wakeful u)
    (hblocked : ∀ k b rest, u.pending k = .plain b :: rest → Blocked k u.shared b)
    (hplain : ∀ k a rest, u.pending k = a :: rest → ∃ b, a = .plain b) (k : ℕ) :
    ∃ gate, u.shared.loop.gate.lock k = some gate := by
  cases hgate : u.shared.loop.gate with
  | free => exact ⟨_, rfl⟩
  | held owner depth =>
      have htimes : u.shared.loop.gate.times owner = depth + 1 := by
        rw [hgate]
        exact if_pos rfl
      have hlocked := h.settling.stopping.locked owner
      obtain ⟨c, hc, hholds⟩ : ∃ c ∈ (unnotified u).pending owner, holdsGate c = true := by
        apply List.countP_pos_iff.mp
        rw [hlocked]
        exact Nat.lt_of_lt_of_eq (Nat.succ_pos depth) htimes.symm
      cases hat : u.pending owner with
      | nil =>
          simp only [unnotified, hat, List.flatMap_nil] at hc
          exact absurd hc List.not_mem_nil
      | cons a rest =>
          obtain ⟨b, rfl⟩ := hplain owner a rest hat
          have hown : u.shared.loop.gate.lock owner ≠ none := by
            rw [hgate, RecursiveMutex.lock, if_pos rfl]
            exact Option.some_ne_none _
          cases hblocked owner b rest hat with
          | lockGate hnone => exact absurd hnone hown
          | lockBoundary hnone => exact absurd hnone hown
          | waiting hwaits hasleep =>
              obtain rfl := h.waits_only hat hwaits
              rw [pending_unnotified hat] at hc
              obtain rfl := List.mem_singleton.mp hc
              rw [(working_waits hwaits).2] at hholds
              cases hholds

/-- The worker waits for what is not there yet, if there is a worker, and the other threads
have nothing to do. -/
def Resting (u : Threads NotifiedLoop NotifiedSection) : Prop :=
  ∀ k, u.pending k = [] ∨ ∃ b, u.pending k = [.plain b] ∧ waits b = true ∧
    u.shared.asleep = true ∧ predicate u.shared.loop b = false ∧
      ∀ deadline, b = .asleepUntil deadline → u.shared.loop.now < deadline

/-- Nothing spurious happens, and no callback calls the loop. -/
def isOwn : NotifiedChoice → Bool
  | .loop .proceed | .loop .timesOut => true
  | _ => false

theorem exists_timesOut {deadline : ℤ} (hasleep : s.asleep = true) (hdue : deadline ≤ s.loop.now)
    (hnone : s.loop.wakes deadline = false) :
    ∃ r, runSection deadlineOf k s (.plain (.asleepUntil deadline)) (.loop .timesOut) = some r := by
  cases htop : s.loop.delayed.top with
  | none => simp [wakes, htop] at hnone
  | some d =>
      have hawake : ¬s.loop.wakes deadline = true := ne_true_of_eq_false hnone
      simp only [runSection, if_pos hasleep, if_pos hdue, AsyncEventLoop.runSection, if_neg hawake,
        htop]
      split <;> exact ⟨_, rfl⟩

/-- Unless the loop rests, some thread can go on. -/
theorem Wakeful.progress (h : Wakeful u) : Resting u ∨
    ∃ l v, l.goesOnWith isOwn = true ∧ (machine deadlineOf).step u l = some v := by
  by_cases hstep : ∃ l v, l.goesOnWith isOwn = true ∧ (machine deadlineOf).step u l = some v
  · exact Or.inr hstep
  left
  have hstuck {k : ℕ} {a : NotifiedSection} {rest : List NotifiedSection} {c : AsyncChoice}
      (hat : u.pending k = a :: rest) (hc : isOwn (.loop c) = true) :
      ¬∃ r, runSection deadlineOf k u.shared a (.loop c) = some r := by
    rintro ⟨⟨s', as⟩, hrun⟩
    exact hstep ⟨.advance k (.loop c), _, hc, Program.step_of_moves (.advance hat hrun)⟩
  have hblocked : ∀ k a rest, u.pending k = a :: rest → ∃ b, a = .plain b ∧ Blocked k u.shared b := by
    intro k a rest hat
    by_contra hnot
    exact hstuck hat rfl (exists_run fun b ha hb => hnot ⟨b, ha, hb⟩)
  have hplain : ∀ k b rest, u.pending k = .plain b :: rest → Blocked k u.shared b := by
    intro k b rest hat
    obtain ⟨b', hb', hblock⟩ := hblocked k _ rest hat
    cases hb'
    exact hblock
  -- nobody waits for the gate, so everybody who is left is the worker
  have hworker : ∀ k a rest, u.pending k = a :: rest →
      ∃ b, u.pending k = [.plain b] ∧ waits b = true ∧ u.shared.asleep = true := by
    intro k a rest hat
    obtain ⟨b, rfl, hb⟩ := hblocked k a rest hat
    obtain ⟨gate, hgate⟩ := h.lock_free hplain (fun k a rest hat => (hblocked k a rest hat).imp
      fun b hb => hb.1) k
    cases hb with
    | lockGate hnone => rw [hgate] at hnone; cases hnone
    | lockBoundary hnone => rw [hgate] at hnone; cases hnone
    | waiting hwaits hasleep =>
        obtain rfl := h.waits_only hat hwaits
        exact ⟨b, hat, hwaits, hasleep⟩
  intro k
  cases hat : u.pending k with
  | nil => exact Or.inl rfl
  | cons a rest =>
      obtain ⟨b, hb, hwaits, hasleep⟩ := hworker k a rest hat
      have hnone : predicate u.shared.loop b = false := by
        by_contra hready
        obtain ⟨b', hwaits', ⟨j, hj⟩, hcome⟩ := h.attended hasleep
        have hsame : b' = b := by
          by_cases hjk : j = k
          · rw [hjk, hb] at hj
            exact NotifiedSection.plain.inj (List.mem_singleton.mp hj)
          · have hother := (oneWorker_alone h.worker (pending_unnotified hb)
              (working_waits hwaits).1).2 j hjk b'
              (List.mem_flatMap.mpr ⟨_, hj, List.mem_singleton_self _⟩)
            rw [(working_waits hwaits').1] at hother
            cases hother
        obtain ⟨a', ⟨i, hi⟩, hnotify⟩ := hcome (hsame ▸ Bool.eq_true_of_not_eq_false hready)
        obtain ⟨c, rest', hc⟩ := List.exists_cons_of_ne_nil (List.ne_nil_of_mem hi)
        obtain ⟨b'', hb'', -⟩ := hworker i c rest' hc
        rw [hb''] at hi
        obtain rfl := List.mem_singleton.mp hi
        cases hnotify
      refine Or.inr ⟨b, hat.symm.trans hb, hwaits, hasleep, hnone, ?_⟩
      rintro deadline rfl
      by_contra hdue
      exact hstuck hb rfl (exists_timesOut hasleep (not_lt.mp hdue) hnone)

/-- Every run is one of the loop without notifications. In every state that is reached the
worker is blocked with something to do only while some thread is about to notify it; and
unless the loop rests, some thread can go on without anything spurious. -/
theorem no_wakeup_lost {mode : AsyncEventLoop.ExecutionMode} {now : ℤ}
    {ls : List (Threads.Label AsyncCall NotifiedChoice)}
    (h : (machine deadlineOf).exec (start mode now) ls = some u) :
    (AsyncEventLoop.machine deadlineOf).Reaches (AsyncEventLoop.start mode now) (unnotified u) ∧
      (u.shared.asleep = true → ∃ b, waits b = true ∧ u.Pending (.plain b) ∧
        (predicate u.shared.loop b = true → ∃ a, u.Pending a ∧ toCome a = true)) ∧
      (Resting u ∨ ∃ l v, l.goesOnWith isOwn = true ∧ (machine deadlineOf).step u l = some v) := by
  have hwakeful : Wakeful u := (Wakeful.start mode now).of_exec h
  refine ⟨?_, hwakeful.attended, hwakeful.progress⟩
  rw [← unnotified_start]
  exact unnotified_exec h

/-- The worker is blocked, and a task has been queued but the worker not yet notified. -/
def queuedUnnotified : List (Threads.Label AsyncCall NotifiedChoice) :=
  [.advance 0 (.loop .proceed), .advance 0 (.loop .proceed), .enter 1 .schedule,
    .advance 1 (.loop .proceed)]

theorem no_wakeup_lost_queuedUnnotified :
    ∃ u, (machine exactDeadline).exec (start .ownedThread 0) queuedUnnotified = some u ∧
      u.shared.asleep = true ∧ u.shared.loop.ready = [0] ∧ u.pending 1 = [.notify] ∧
      ∃ b, waits b = true ∧ u.Pending (.plain b) ∧
        (predicate u.shared.loop b = true → ∃ a, u.Pending a ∧ toCome a = true) := by
  obtain ⟨u, hrun, hasleep, hready, hnotify⟩ :
      ∃ u, (machine exactDeadline).exec (start .ownedThread 0) queuedUnnotified = some u ∧
        u.shared.asleep = true ∧ u.shared.loop.ready = [0] ∧ u.pending 1 = [.notify] :=
    ⟨_, rfl, by decide +kernel, by decide +kernel, by decide +kernel⟩
  exact ⟨u, hrun, hasleep, hready, hnotify, (no_wakeup_lost hrun).2.1 hasleep⟩

/-! ### A stop comes to its end -/

/-- How many steps the section and what follows from it can take in a closed loop. -/
def stepsLeft : NotifiedSection → ℕ
  | .notify => 1
  | .cancelling tasks => tasks.length + 3
  | .plain a =>
      match a with
      | .enqueueReady _ | .enqueueAfter .. | .enqueueEventWait .. => 2
      | .reject _ | .emit _ | .awaitWork => 1
      | .lockGate => 3
      | .close | .startRun | .asleepUntil _ | .unlockBoundary => 2
      | .cancelAll tasks => tasks.length + 1
      | .lockBoundary _ => 7
      | .readStopping _ => 6
      | .checkStatus _ => 5
      | .resume _ => 4
      | .cancelTaken _ | .inTask _ => 3

/-- No callback calls the loop. -/
def callsNothing : NotifiedChoice → Bool
  | .loop (.calls _) => false
  | _ => true

/-- A closed loop stays closed, and a stop is under way or has returned. -/
structure Closing (u : Threads AsyncEventLoop AsyncSection) : Prop where
  closed : u.shared.stopping = true → u.shared.accepting = false
  returns : u.shared.stopping = true → u.shared.stopReturned = true ∨
    ∃ tasks, u.Pending (.cancelAll tasks)

@[simp] theorem stopping_enter (s : AsyncEventLoop) (call : AsyncCall) :
    (s.enter call).1.stopping = s.stopping := by
  cases call <;> rfl

/-- What a section does to a loop that is closed, or that it closes. -/
theorem closing_run {s t : AsyncEventLoop} {c : AsyncChoice} {bs : List AsyncSection}
    (hdoes : AsyncEventLoop.Does deadlineOf k s c b t bs) :
    (t.stopping = s.stopping ∧ t.accepting = s.accepting ∨
        t.stopping = true ∧ t.accepting = false ∧ ∃ tasks, AsyncSection.cancelAll tasks ∈ bs) ∧
      (∀ tasks, b = .cancelAll tasks → t.stopReturned = true ∨
        ∃ tasks', AsyncSection.cancelAll tasks' ∈ bs) ∧
      (s.stopReturned = true → t.stopReturned = true) := by
  cases hdoes with
  | close hopen =>
      exact ⟨Or.inr ⟨rfl, rfl, _, List.mem_singleton_self _⟩, by rintro tasks ⟨⟩, id⟩
  | stopReturns => exact ⟨Or.inl ⟨rfl, rfl⟩, fun _ _ => Or.inl rfl, fun _ => rfl⟩
  | cancel =>
      exact ⟨Or.inl ⟨rfl, rfl⟩, fun _ _ => Or.inr ⟨_, List.mem_singleton_self _⟩, id⟩
  | calls call =>
      obtain ⟨haccepting, hreturned, -, -⟩ := closed_enter s call
      refine ⟨Or.inl ⟨stopping_enter s call, haccepting⟩, by rintro tasks ⟨⟩, ?_⟩
      rw [hreturned]
      exact id
  | refuse hclosed ha =>
      refine ⟨Or.inl ⟨rfl, rfl⟩, ?_, id⟩
      rintro tasks rfl
      rcases ha with h | ⟨_, h⟩ | ⟨_, h⟩ <;> cases h
  | _ => exact ⟨Or.inl ⟨rfl, rfl⟩, by rintro tasks ⟨⟩, id⟩

theorem Closing.start (mode : AsyncEventLoop.ExecutionMode) (now : ℤ) :
    Closing (AsyncEventLoop.start mode now) :=
  ⟨by rintro ⟨⟩, by rintro ⟨⟩⟩

theorem Closing.step {u v : Threads AsyncEventLoop AsyncSection}
    {l : Threads.Label AsyncCall AsyncChoice} (h : Closing u)
    (hstep : (AsyncEventLoop.machine deadlineOf).step u l = some v) : Closing v := by
  cases Program.moves_of_step hstep with
  | @enter k call s' as hidle hcall =>
      obtain ⟨rfl, rfl⟩ := AsyncEventLoop.enter_eq hcall
      obtain ⟨haccepting, hreturned, -, -⟩ := closed_enter u.shared call
      constructor
      · rw [shared_become, stopping_enter, haccepting]
        exact h.closed
      · rw [shared_become, stopping_enter, hreturned]
        intro hstopping
        exact (h.returns hstopping).imp_right fun ⟨tasks, hp⟩ => ⟨tasks, hp.enter hidle⟩
  | advance hat hrun =>
      obtain ⟨hflags, hcancels, hreturned⟩ := closing_run (AsyncEventLoop.does_of_run hrun)
      constructor
      · rw [shared_become]
        intro hstopping
        rcases hflags with ⟨hstop, haccept⟩ | ⟨-, hclosed, -⟩
        · exact haccept.trans (h.closed (hstop.symm.trans hstopping))
        · exact hclosed
      · rw [shared_become]
        intro hstopping
        rcases hflags with ⟨hstop, -⟩ | ⟨-, -, tasks, hnew⟩
        · rcases h.returns (hstop.symm.trans hstopping) with hret | ⟨tasks, hp⟩
          · exact Or.inl (hreturned hret)
          · rcases Pending.become hat hp with heq | hold
            · exact (hcancels tasks heq.symm).imp_right fun ⟨tasks', hnew⟩ =>
                ⟨tasks', pending_become_of_mem hnew⟩
            · exact Or.inr ⟨tasks, hold⟩
        · exact Or.inr ⟨tasks, pending_become_of_mem hnew⟩

theorem notifies_closed {s : AsyncEventLoop} (hclosed : s.accepting = false) (b : AsyncSection) :
    s.notifies b = false := by
  cases b with
  | enqueueReady | enqueueAfter | emit => simp [notifies, hclosed]
  | _ => rfl

/-- In a closed loop the worker is not blocked any more. -/
theorem stepsLeft_waits {s t : AsyncEventLoop} {c : AsyncChoice} {bs : List AsyncSection}
    (hdoes : AsyncEventLoop.Does deadlineOf k s c b t bs) (hwaits : waits b = true)
    (hstopping : s.stopping = true) :
    ((bs.map NotifiedSection.plain).map stepsLeft).sum < stepsLeft (.plain b) := by
  cases hdoes with
  | runEnds => simp [stepsLeft]
  | wake => simp [stepsLeft]
  | takeReady hrunning => rw [hstopping] at hrunning; cases hrunning
  | takeDelayed hrunning => rw [hstopping] at hrunning; cases hrunning
  | sleep hrunning => rw [hstopping] at hrunning; cases hrunning
  | refuse hclosed ha => rcases ha with rfl | ⟨_, rfl⟩ | ⟨_, rfl⟩ <;> cases hwaits
  | _ => cases hwaits

theorem stepsLeft_plain {s t : AsyncEventLoop} {c : AsyncChoice} {bs : List AsyncSection}
    (hdoes : AsyncEventLoop.Does deadlineOf k s c b t bs) (hwaits : waits b = false)
    (hcalls : ∀ call, c ≠ .calls call) (hstopping : s.stopping = true)
    (hclosed : s.accepting = false) :
    ((bs.map NotifiedSection.plain).map stepsLeft).sum < stepsLeft (.plain b) := by
  cases hdoes with
  | queue hopen | delay hopen | register hopen | emit hopen | close hopen =>
      rw [hclosed] at hopen
      cases hopen
  | keep hrunning => rw [hstopping] at hrunning; cases hrunning
  | takeReady | takeDelayed | sleep | wake | runEnds => cases hwaits
  | refuse _ ha => rcases ha with rfl | ⟨_, rfl⟩ | ⟨_, rfl⟩ <;> simp [stepsLeft]
  | calls call hcall => exact absurd hcall (hcalls call)
  | _ => simp [stepsLeft]

/-- Every step of a closed loop brings the end nearer. -/
theorem stepsLeft_run (hdoes : Does deadlineOf k s choice a s' as)
    (hcalls : callsNothing choice = true) (hstopping : s.loop.stopping = true)
    (hclosed : s.loop.accepting = false) :
    (as.map stepsLeft).sum + s'.asleep.toNat < stepsLeft a + s.asleep.toNat := by
  cases hdoes with
  | @block b hwaits hawake hnothing hasleep =>
      cases b with
      | awaitWork => rw [hstopping] at hnothing; cases (hnothing rfl).1
      | asleepUntil deadline =>
          have hrunning := (wakes_eq_false (hasleep deadline rfl)).1
          rw [hstopping] at hrunning
          cases hrunning
      | _ => cases hwaits
  | sleep hawake hrunning => rw [hstopping] at hrunning; cases hrunning
  | wakeSpuriously hwaits hasleep => simp [hasleep]
  | goOn hwaits hrun hbs =>
      have hless := stepsLeft_waits (AsyncEventLoop.does_of_run hrun) hwaits hstopping
      simp only [Bool.toNat_false]
      omega
  | close hopen => rw [hclosed] at hopen; cases hopen
  | cancelled => simp [stepsLeft]
  | cancel => simp [stepsLeft, setLoop]
  | notify => simp [stepsLeft]
  | @plain b c loop bs hwaits hb hchoice hrun =>
      have hc : ∀ call, c ≠ .calls call := by
        rintro call rfl
        rcases hchoice with rfl | hproceed
        · cases hcalls
        · cases hproceed
      have hless := stepsLeft_plain (AsyncEventLoop.does_of_run hrun) hwaits hc hstopping hclosed
      rw [notifies_closed hclosed, if_neg Bool.false_ne_true, List.append_nil]
      exact Nat.add_lt_add_right hless _

/-- What is known while a stop comes to its end. -/
structure Ending (u : Threads NotifiedLoop NotifiedSection) : Prop where
  wakeful : Wakeful u
  closing : Closing (unnotified u)
  stopping : u.shared.loop.stopping = true

theorem closing_step (h : Closing (unnotified u)) (hstep : (machine deadlineOf).step u l = some v) :
    Closing (unnotified v) := by
  rcases unnotified_step hstep with hsame | ⟨l', hl'⟩
  · rwa [hsame]
  · exact h.step hl'

theorem stopping_step {u v : Threads AsyncEventLoop AsyncSection}
    {l : Threads.Label AsyncCall AsyncChoice} (h : u.shared.stopping = true)
    (hstep : (AsyncEventLoop.machine deadlineOf).step u l = some v) :
    v.shared.stopping = true := by
  cases Program.moves_of_step hstep with
  | enter hidle hcall =>
      obtain ⟨rfl, rfl⟩ := AsyncEventLoop.enter_eq hcall
      exact (stopping_enter _ _).trans h
  | advance hat hrun =>
      rcases (closing_run (AsyncEventLoop.does_of_run hrun)).1 with ⟨hstop, -⟩ | ⟨hstop, -⟩
      · exact hstop.trans h
      · exact hstop

theorem Ending.step (h : Ending u) (hstep : (machine deadlineOf).step u l = some v) : Ending v := by
  refine ⟨h.wakeful.step hstep, closing_step h.closing hstep, ?_⟩
  rcases unnotified_step hstep with hsame | ⟨l', hl'⟩
  · have hloop : v.shared.loop = u.shared.loop := congrArg Threads.shared hsame
    rw [hloop]
    exact h.stopping
  · exact stopping_step h.stopping hl'

/-- Whoever can do nothing more has come to the end. -/
theorem Ending.idle (h : Ending u) (hrests : Resting u) : u.Idle := by
  intro k
  rcases hrests k with hidle | ⟨b, -, hwaits, -, hnone, -⟩
  · exact hidle
  · cases b with
    | awaitWork => simp [predicate, h.stopping] at hnone
    | asleepUntil deadline => simp [predicate, wakes, h.stopping] at hnone
    | _ => cases hwaits

theorem Ending.settled (h : Ending u) (hidle : u.Idle) :
    u.shared.loop.stopReturned = true ∧
      ∀ i < u.shared.loop.nextTask, (u.shared.loop.states i).status ≠ .pending := by
  have hnone : (unnotified u).Idle := by
    intro k
    simp only [unnotified, hidle k, List.flatMap_nil]
  have hreturned : u.shared.loop.stopReturned = true := by
    rcases h.closing.returns h.stopping with hret | ⟨tasks, hp⟩
    · exact hret
    · exact absurd hp (hnone.not_pending _)
  exact ⟨hreturned, fun i hi => h.wakeful.settling.settled hreturned
    (fun a ha => absurd ha (hnone.not_pending a)) hi⟩

/-- From when a loop is closed, the threads can take only so many steps until a call begins
or a callback calls the loop. Some thread can always go on until all have come to their end;
then the stop has returned, the worker has left `run`, and every task has settled. -/
theorem stop_ends {mode : AsyncEventLoop.ExecutionMode} {now : ℤ}
    {ls : List (Threads.Label AsyncCall NotifiedChoice)}
    (h : (machine deadlineOf).exec (start mode now) ls = some u)
    (hstopping : u.shared.loop.stopping = true) :
    ∃ bound, ∀ ls' v, (∀ l ∈ ls', l.goesOnWith callsNothing = true) →
      (machine deadlineOf).exec u ls' = some v → ls'.length ≤ bound ∧
        ((∃ l w, l.goesOnWith isOwn = true ∧ (machine deadlineOf).step v l = some w) ∨
          v.Idle ∧ v.shared.loop.stopReturned = true ∧
            ∀ i < v.shared.loop.nextTask, (v.shared.loop.states i).status ≠ .pending) := by
  have hstart : Closing (unnotified (start mode now)) := by
    rw [unnotified_start]
    exact .start mode now
  have hending : Ending u :=
    ⟨(Wakeful.start mode now).of_exec h,
      Machine.invariant (fun u => Closing (unnotified u)) (fun _ _ _ => closing_step) ⟨ls, h⟩ hstart,
      hstopping⟩
  obtain ⟨n, hbelow⟩ : ∃ n, u.Below n := by
    refine Program.exists_below_exec (n := 1) (fun k hk => ?_) h
    simp only [NotifiedLoop.start, AsyncEventLoop.start]
    rw [if_neg (by omega), List.map_nil]
  refine ⟨∑ k ∈ Finset.range n, ((u.pending k).map stepsLeft).sum + u.shared.asleep.toNat,
    fun ls' v hls' hrun => ⟨?_, ?_⟩⟩
  · obtain ⟨m', -, hbound⟩ := Program.length_add_weight_le (fun s => s.asleep.toNat) Ending
      (fun _ _ _ => Ending.step)
      (fun s k a choice s' as hs _ hcalls hact => stepsLeft_run (does_of_run hact) hcalls
        hs.stopping (hs.closing.closed hs.stopping))
      hending hls' ⟨n, hbelow, rfl⟩ hrun
    omega
  · have hv : Ending v := Machine.invariant Ending (fun _ _ _ => Ending.step) ⟨ls', hrun⟩ hending
    rcases hv.wakeful.progress with hrests | hstep
    · have hidle := hv.idle hrests
      exact Or.inr ⟨hidle, hv.settled hidle⟩
    · exact Or.inl hstep

/-- Thread 1 has closed the loop while the worker is blocked and a delayed task is queued. -/
def closedAsleep : List (Threads.Label AsyncCall NotifiedChoice) :=
  [.enter 1 (.scheduleAfter 5), .advance 1 (.loop .proceed), .advance 1 (.loop .proceed),
    .advance 0 (.loop .proceed), .advance 0 (.loop .proceed), .enter 1 .stop,
    .advance 1 (.loop .proceed), .advance 1 (.loop .proceed)]

theorem stop_ends_closedAsleep :
    ∃ u, (machine exactDeadline).exec (start .ownedThread 0) closedAsleep = some u ∧
      u.shared.asleep = true ∧
      ∃ bound, ∀ ls' v, (∀ l ∈ ls', l.goesOnWith callsNothing = true) →
        (machine exactDeadline).exec u ls' = some v → ls'.length ≤ bound ∧
          ((∃ l w, l.goesOnWith isOwn = true ∧ (machine exactDeadline).step v l = some w) ∨
            v.Idle ∧ v.shared.loop.stopReturned = true ∧
              ∀ i < v.shared.loop.nextTask, (v.shared.loop.states i).status ≠ .pending) := by
  obtain ⟨u, hrun, hasleep, hstopping⟩ :
      ∃ u, (machine exactDeadline).exec (start .ownedThread 0) closedAsleep = some u ∧
        u.shared.asleep = true ∧ u.shared.loop.stopping = true :=
    ⟨_, rfl, by decide +kernel, by decide +kernel⟩
  exact ⟨u, hrun, hasleep, stop_ends hrun hstopping⟩

end NotifiedLoop

end Watchlist.Concurrency
