import Watchlist.Library.Threads

/-!
What one thread of a program has run. Between two sections of a thread the others may
have changed the shared state; a relation says how far. What is proved of the thread
under this relation holds in every run in which the steps of the others are within it.
-/

namespace Transition

namespace Program

open Threads

variable {σ α κ ε : Type*}

/-- A section that a thread has run, with the shared state it ran in and the choice. -/
structure Entry (σ α ε : Type*) where
  state : σ
  ran : α
  choice : ε

variable (P : Program σ α κ ε)

/-- From shared state `s` thread `k` takes the sections of the log off its list, and has
the last list left; the steps of the others in between are within `R`. -/
inductive Runs (R : σ → σ → Prop) (k : ℕ) :
    σ → List α → List (Entry σ α ε) → σ → List α → Prop
  | stop {s t : σ} (as : List α) (hothers : R s t) : Runs R k s as [] t as
  | next {s s₁ s₂ t : σ} {a : α} {choice : ε} {as rest left : List α} {log : List (Entry σ α ε)}
      (hothers : R s s₁) (hrun : P.run k s₁ a choice = some (s₂, as))
      (hrest : Runs R k s₂ (as ++ rest) log t left) :
      Runs R k s (a :: rest) (⟨s₁, a, choice⟩ :: log) t left

/-- The others may do anything. -/
def Anything (_ _ : σ) : Prop := True

/-- What a single step adds to the log of thread `k`. -/
def ranIn (k : ℕ) (s : Threads σ α) : Threads.Label κ ε → List (Entry σ α ε)
  | .enter _ _ => []
  | .advance j choice =>
      if j = k then (s.pending k).head?.toList.map fun a => ⟨s.shared, a, choice⟩ else []

/-- The sections that thread `k` runs, from a state and the labels of a run. -/
def ranBy (k : ℕ) : Threads σ α → List (Threads.Label κ ε) → List (Entry σ α ε)
  | _, [] => []
  | s, l :: ls =>
      ranIn k s l ++
        match P.step s l with
        | none => []
        | some t => ranBy k t ls

variable {P} {k : ℕ} {s t : Threads σ α} {ls : List (Threads.Label κ ε)} {R : σ → σ → Prop}

/-- What the others do before the first section. -/
theorem Runs.before (htrans : ∀ x y z, R x y → R y z → R x z) {x y z : σ} {as left : List α}
    {log : List (Entry σ α ε)} (hothers : R x y) (h : P.Runs R k y as log z left) :
    P.Runs R k x as log z left := by
  cases h with
  | stop as hlater => exact .stop as (htrans _ _ _ hothers hlater)
  | next hlater hrun hrest => exact .next (htrans _ _ _ hothers hlater) hrun hrest

/-- As long as a thread enters no other call, its log is that of its pending sections,
with the others within what they are known to do. -/
theorem runs_ranBy {I : Threads σ α → Prop} (hrefl : ∀ x, R x x)
    (htrans : ∀ x y z, R x y → R y z → R x z)
    (hstep : ∀ s l t, I s → P.machine.step s l = some t → I t)
    (hrely : ∀ s l t, I s → l.thread ≠ k → P.machine.step s l = some t → R s.shared t.shared)
    (hown : ∀ call, Threads.Label.enter k call ∉ ls) (h : P.machine.exec s ls = some t)
    (hs : I s) : P.Runs R k s.shared (s.pending k) (P.ranBy k s ls) t.shared (t.pending k) := by
  induction ls generalizing s with
  | nil =>
      obtain rfl := Option.some.inj h
      exact .stop _ (hrefl _)
  | cons l ls ih =>
      rw [Machine.exec_cons] at h
      obtain ⟨u, hu, hrest⟩ := Option.bind_eq_some_iff.mp h
      have hown' : ∀ call, Threads.Label.enter k call ∉ ls :=
        fun call hmem => hown call (List.mem_cons_of_mem l hmem)
      have hruns := ih hown' hrest (hstep s l u hs hu)
      have hnext : P.step s l = some u := hu
      have hrely' := hrely s l u hs
      rw [ranBy, hnext]
      cases moves_of_step hu with
      | @enter j call s' as hidle hcall =>
          have hjk : j ≠ k := by
            rintro rfl
            exact hown call List.mem_cons_self
          rw [pending_become_of_ne (Ne.symm hjk)] at hruns
          exact hruns.before htrans (hrely' hjk hu)
      | @advance j choice a rest s' as hat hrun =>
          by_cases hjk : j = k
          · subst hjk
            rw [pending_become_self] at hruns
            have hran : ranIn j s (.advance j choice : Threads.Label κ ε) =
                [⟨s.shared, a, choice⟩] := by simp [ranIn, hat]
            rw [hran, hat]
            exact .next (hrefl _) hrun hruns
          · have hran : ranIn k s (.advance j choice : Threads.Label κ ε) = [] := by
              simp [ranIn, hjk]
            rw [pending_become_of_ne (Ne.symm hjk)] at hruns
            rw [hran]
            exact hruns.before htrans (hrely' hjk hu)

/-- The same without knowing anything of the others. -/
theorem runs_ranBy_anything (hown : ∀ call, Threads.Label.enter k call ∉ ls)
    (h : P.machine.exec s ls = some t) :
    P.Runs Anything k s.shared (s.pending k) (P.ranBy k s ls) t.shared (t.pending k) :=
  runs_ranBy (I := fun _ => True) (fun _ => trivial) (fun _ _ _ _ _ => trivial)
    (fun _ _ _ _ _ => trivial) (fun _ _ _ _ _ _ => trivial) hown h trivial

/-- A property that the sections hand on is one of all that the thread runs. -/
theorem Runs.forall_ran {J : α → Prop} {x y : σ} {as left : List α} {log : List (Entry σ α ε)}
    (h : P.Runs R k x as log y left)
    (hstep : ∀ e ∈ log, ∀ s' bs, J e.ran → P.run k e.state e.ran e.choice = some (s', bs) →
      ∀ b ∈ bs, J b)
    (has : ∀ a ∈ as, J a) : ∀ e ∈ log, J e.ran := by
  induction h with
  | stop as => nofun
  | next hothers hrun hrest ih =>
      obtain ⟨hhead, htail⟩ := List.forall_mem_cons.mp hstep
      obtain ⟨ha, hrest⟩ := List.forall_mem_cons.mp has
      exact List.forall_mem_cons.mpr
        ⟨ha, ih htail (List.forall_mem_append.mpr ⟨hhead _ _ ha hrun, hrest⟩)⟩

/-- The log of a longer run goes on where that of its first part has ended. -/
theorem ranBy_append (h : P.machine.exec s ls = some t) (ls' : List (Threads.Label κ ε)) :
    P.ranBy k s (ls ++ ls') = P.ranBy k s ls ++ P.ranBy k t ls' := by
  induction ls generalizing s with
  | nil =>
      obtain rfl := Option.some.inj h
      rfl
  | cons l ls ih =>
      rw [Machine.exec_cons] at h
      obtain ⟨u, hu, hrest⟩ := Option.bind_eq_some_iff.mp h
      have hnext : P.step s l = some u := hu
      rw [List.cons_append, ranBy, ranBy, hnext]
      simp only [ih hrest, List.append_assoc]

theorem ranBy_singleton {l : Threads.Label κ ε} (k : ℕ) (s : Threads σ α) :
    P.ranBy k s [l] = ranIn k s l := by
  rw [ranBy]
  split <;> exact List.append_nil _

/-- The choices in the log are those of the labels. -/
theorem choice_mem_of_ranBy {e : Entry σ α ε} (he : e ∈ P.ranBy k s ls) :
    Threads.Label.advance k e.choice ∈ ls := by
  induction ls generalizing s with
  | nil => cases he
  | cons l ls ih =>
      rw [ranBy] at he
      rcases List.mem_append.mp he with he | he
      · cases l with
        | enter j call => cases he
        | advance j choice =>
            simp only [ranIn] at he
            split at he
            · rename_i hjk
              obtain ⟨a, _, rfl⟩ := List.mem_map.mp he
              rw [hjk]
              exact List.mem_cons_self
            · cases he
      · split at he
        · cases he
        · exact List.mem_cons_of_mem l (ih he)

end Program

end Transition
