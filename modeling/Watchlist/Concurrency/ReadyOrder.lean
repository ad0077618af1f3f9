import Watchlist.Concurrency.EventRouting

/-!
The order in which `AsyncEventLoop` serves its ready tasks. They are put at the end of
`ready_tasks_`, in the order of the calls and of the registrations, but the worker takes
the last of them: whoever is still there is overtaken. First come, first served is what
comes out when the worker never has a choice.
-/

namespace Watchlist.Concurrency

namespace AsyncEventLoop

open Transition Threads History

variable {deadlineOf : ℤ → ℤ → ℤ} {i k m : ℕ} {s s' : AsyncEventLoop} {a b : AsyncSection}
  {as : List AsyncSection} {choice : AsyncChoice} {u v : Threads AsyncEventLoop AsyncSection}
  {l : Threads.Label AsyncCall AsyncChoice}

/-- Tasks are resumed in the order in which they have come into `ready_tasks_`, into which
the tasks that wait for one event come in the order of their registration. -/
structure FirstComeFirstServed (s : AsyncEventLoop) : Prop where
  served : s.resumed.filter (· ∈ s.readied) <+: s.readied
  released : ∀ e rel, .emitted e rel ∈ s.history → rel.Sublist s.registered

/-- When the worker looks for work there is no choice among the ready tasks. -/
def NoChoice (u : Threads AsyncEventLoop AsyncSection) :
    Threads.Label AsyncCall AsyncChoice → Prop
  | .enter _ _ => True
  | .advance k _ => (u.pending k).head? = some .awaitWork → u.shared.ready.length ≤ 1

instance (u : Threads AsyncEventLoop AsyncSection) (l : Threads.Label AsyncCall AsyncChoice) :
    Decidable (NoChoice u l) := by
  cases l <;> (unfold NoChoice; infer_instance)

/-! ### The ready queue -/

/-- The ready tasks are those that have come last, in their order. -/
def Queued (s : AsyncEventLoop) : Prop := s.readied = s.readyTaken ++ s.ready

theorem Queued.snoc {x : Happening} (h : Queued s) (hhistory : s'.history = s.history ++ [x])
    (hready : s.ready ++ x.readies = x.readyTakes ++ s'.ready) : Queued s' := by
  rw [Queued, readied, readyTaken, flatMap_snoc hhistory, flatMap_snoc hhistory,
    List.append_assoc, ← hready, ← List.append_assoc]
  exact congrArg (· ++ x.readies) h

theorem queued_run (hdoes : Does deadlineOf k s choice a s' as) (hcalm : calm a = true)
    (hlength : a = .awaitWork → s.ready.length ≤ 1) (h : Queued s) : Queued s' := by
  cases hdoes with
  | queue => exact h.snoc rfl rfl
  | emit => exact h.snoc rfl rfl
  | delay => exact h.snoc rfl (List.append_nil _)
  | register => exact h.snoc rfl (List.append_nil _)
  | takeDelayed => exact h.snoc rfl (List.append_nil _)
  | resume => exact h.snoc rfl (List.append_nil _)
  | @takeReady task hrunning htask =>
      -- the last ready task is the only one
      obtain ⟨rest, hrest⟩ := List.getLast?_eq_some_iff.mp htask
      have hone := hlength rfl
      rw [hrest, List.length_append, List.length_singleton] at hone
      obtain rfl : rest = [] := List.length_eq_zero_iff.mp (by omega)
      refine h.snoc rfl ?_
      simp [hrest, Happening.readies, Happening.readyTakes]
  | close => cases hcalm
  | calls call => cases call <;> exact h
  | _ => exact h

/-- The takes of tasks that have been ready, among all takes. -/
theorem filter_taken {p : ℕ → Bool} {h : List Happening}
    (hready : ∀ i ∈ h.flatMap Happening.readyTakes, p i = true)
    (hdelayed : ∀ d ∈ h.flatMap Happening.delayTakes, p d.frame = false) :
    (h.flatMap Happening.takes).filter p = h.flatMap Happening.readyTakes := by
  induction h with
  | nil => rfl
  | cons x h ih =>
      rw [List.flatMap_cons, List.forall_mem_append] at hready hdelayed
      rw [List.flatMap_cons, List.flatMap_cons, List.filter_append, ih hready.2 hdelayed.2]
      congr 1
      cases x with
      | takenReady task =>
          have htask : p task = true := hready.1 task List.mem_cons_self
          simp [Happening.takes, Happening.readyTakes, htask]
      | takenDelayed d now =>
          have hframe : p d.frame = false := hdelayed.1 d List.mem_cons_self
          simp [Happening.takes, Happening.readyTakes, hframe]
      | _ => rfl

theorem Going.served (h : Going u) (hqueued : Queued u.shared) :
    u.shared.resumed.filter (· ∈ u.shared.readied) <+: u.shared.readied := by
  have htaken : u.shared.taken.filter (· ∈ u.shared.readied) = u.shared.readyTaken := by
    apply filter_taken
    · intro i hi
      rw [decide_eq_true_iff, hqueued]
      exact List.mem_append_left _ hi
    · intro d hd
      -- a task that has been delayed is not admitted once more
      rw [decide_eq_false_iff_not]
      intro hmem
      obtain ⟨n, _, hwaiting, hready, hdelayed, hcarried, hadmitted⟩ := h.counts d.frame
      have hcreated := created_le d.frame u.shared
      have hreadied := List.count_pos_iff.mpr hmem
      rw [count_readied] at hreadied
      have hframe : 0 < (u.shared.delayTaken.map DelayedTask.frame).count d.frame :=
        List.count_pos_iff.mpr (List.mem_map_of_mem hd)
      omega
  have hprefix := h.carried.ordered.filter (fun i => decide (i ∈ u.shared.readied))
  rw [htaken] at hprefix
  exact hprefix.trans ⟨u.shared.ready, hqueued.symm⟩

/-- Who waits is listed in the order of registration. -/
theorem waitingIn_sublist (name : Bytes) (h : List Happening) :
    (waitingIn name h).Sublist (h.flatMap Happening.registers) := by
  induction h using List.reverseRecOn with
  | nil => exact List.Sublist.refl _
  | append_singleton h x ih =>
      rw [waitingIn_snoc, List.flatMap_append, List.flatMap_singleton]
      have hold := ih.trans (List.sublist_append_left _ x.registers)
      cases x with
      | registered task other =>
          simp only [waitNext]
          split
          · exact ih.append (List.Sublist.refl _)
          · exact hold
      | emitted event rel =>
          simp only [waitNext]
          split
          · exact List.nil_sublist _
          · exact hold
      | _ => exact hold

theorem Routed.released_sublist (h : Routed u) {e : Event} {rel : List ℕ}
    (hmem : .emitted e rel ∈ u.shared.history) : rel.Sublist u.shared.registered := by
  obtain ⟨pre, post, heq⟩ := List.append_of_mem hmem
  rw [h.emitted pre _ post heq e rel rfl]
  apply (waitingIn_sublist e.name pre).trans
  rw [registered, heq, List.flatMap_append]
  exact List.sublist_append_left _ _

/-! ### Runs in which the worker has no choice -/

/-- In every run without a stop in which the worker never has a choice among the ready
tasks, they are served first come, first served. -/
theorem ready_tasks_in_order {mode : ExecutionMode} {now : ℤ}
    {ls : List (Threads.Label AsyncCall AsyncChoice)} (hls : ∀ l ∈ ls, stops l = false)
    (hmeets : (machine deadlineOf).Meets NoChoice (start mode now) ls)
    (h : (machine deadlineOf).exec (start mode now) ls = some u) :
    FirstComeFirstServed u.shared := by
  suffices hall : Going u ∧ Routed u ∧ Queued u.shared by
    exact ⟨hall.1.served hall.2.2, fun e rel hmem => hall.2.1.released_sublist hmem⟩
  have hboth := hmeets.and (Machine.meets_of_forall fun l hl _ => hls l hl)
  refine Machine.invariant_of_meets (C := fun u l => NoChoice u l ∧ stops l = false)
    (fun w => Going w ∧ Routed w ∧ Queued w.shared) ?_ hboth h
    ⟨.start mode now, .start mode now, rfl⟩
  intro w l x ⟨hgoing, hrouted, hqueued⟩ ⟨hchoice, hl⟩ hstep
  refine ⟨hgoing.step hl hstep, hrouted.step hgoing hstep, ?_⟩
  cases Program.moves_of_step hstep with
  | @enter k call s' as hidle hcall =>
      obtain ⟨rfl, rfl⟩ := enter_eq hcall
      cases call <;> exact hqueued
  | @advance k choice a rest s' as hat hrun =>
      apply queued_run (does_of_run hrun) (hgoing.undisturbed.calm a (pending_head hat)) _ hqueued
      rintro rfl
      exact hchoice (by rw [hat]; rfl)

/-- Two tasks, each scheduled when the worker has nothing else to do. -/
def oneByOne : List (Threads.Label AsyncCall AsyncChoice) :=
  ([.enter 1 .schedule, .advance 1 .proceed] : List (Threads.Label AsyncCall AsyncChoice)) ++
    List.replicate 8 (.advance 0 .proceed) ++
    ([.enter 1 .schedule, .advance 1 .proceed] : List (Threads.Label AsyncCall AsyncChoice)) ++
    List.replicate 5 (.advance 0 .proceed)

theorem ready_tasks_in_order_oneByOne :
    ∃ u, (machine exactDeadline).exec (start .ownedThread 0) oneByOne = some u ∧
      u.shared.resumed = [0, 1] ∧ FirstComeFirstServed u.shared := by
  obtain ⟨u, hrun, hresumed⟩ :
      ∃ u, (machine exactDeadline).exec (start .ownedThread 0) oneByOne = some u ∧
        u.shared.resumed = [0, 1] := ⟨_, rfl, by decide +kernel⟩
  exact ⟨u, hrun, hresumed, ready_tasks_in_order (by decide) (by decide +kernel) hrun⟩

/-- Two tasks, scheduled before the worker looks for work: the second is resumed, and the
first waits. -/
def bothAtOnce : List (Threads.Label AsyncCall AsyncChoice) :=
  [.enter 1 .schedule, .advance 1 .proceed, .enter 1 .schedule, .advance 1 .proceed] ++
    List.replicate 6 (.advance 0 .proceed)

theorem ready_tasks_overtaken :
    ¬∀ (deadlineOf : ℤ → ℤ → ℤ) (mode : ExecutionMode) (now : ℤ)
      (ls : List (Threads.Label AsyncCall AsyncChoice))
      (u : Threads AsyncEventLoop AsyncSection), (∀ l ∈ ls, stops l = false) →
        (machine deadlineOf).exec (start mode now) ls = some u →
          FirstComeFirstServed u.shared := by
  intro hall
  obtain ⟨u, hrun, hhistory⟩ :
      ∃ u, (machine exactDeadline).exec (start .ownedThread 0) bothAtOnce = some u ∧
        u.shared.history = [.queued 0, .queued 1, .takenReady 1, .resumed 1 none] :=
    ⟨_, rfl, by decide +kernel⟩
  have hserved := (hall _ _ _ _ u (by decide) hrun).served
  rw [readied, resumed, hhistory] at hserved
  exact absurd hserved (by decide)

end AsyncEventLoop

end Watchlist.Concurrency
