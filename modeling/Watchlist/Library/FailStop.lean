import Watchlist.Library.Faulty

/-!
Programs that stop at the first statement that fails. Under any flags such a program
does what it does without failures, and then every statement it issued has gone
through, or it throws right after the one that failed. So what it does without failures
is all there is to know of it. Everything that `Faulty` has is of this kind, and what
is put together from such programs is.
-/

namespace Faulty

/-- From the flags `faults` to the flags `rest` statements have gone through, and then, if
`failed`, one has failed. -/
def Issued (failed : Bool) (faults rest : List Bool) : Prop :=
  ∃ n, faults = List.replicate n false ++ if failed then true :: rest else rest

section Issued

variable {failed : Bool} {faults rest rest' : List Bool}

theorem Issued.refl (faults : List Bool) : Issued false faults faults := ⟨0, rfl⟩

theorem Issued.trans (h : Issued false faults rest) (h' : Issued failed rest rest') :
    Issued failed faults rest' := by
  obtain ⟨n, rfl⟩ := h
  obtain ⟨n', rfl⟩ := h'
  exact ⟨n + n', by rw [List.replicate_add, List.append_assoc]; rfl⟩

end Issued

namespace Program

variable {σ τ ε : Type*} {α β : Type}

/-- How a run that has met no failure is the run without failures. -/
structure Undisturbed (p : Program σ ε α) (w : World σ) : Prop where
  issued : Issued false w.faults (p w).2.faults
  same : p ⟨w.state, []⟩ = ((p w).1, ⟨(p w).2.state, []⟩)

/-- A statement has failed, and the run has ended there. -/
structure Stopped (failure : ε) (p : Program σ ε α) (w : World σ) : Prop where
  issued : Issued true w.faults (p w).2.faults
  threw : (p w).1 = .error failure

/-- The program stops at the first statement that fails. -/
def FailStop (failure : ε) (p : Program σ ε α) : Prop :=
  ∀ w, Undisturbed p w ∨ Stopped failure p w

variable {failure : ε}

theorem failStop_pure (a : α) : FailStop failure (pure a : Program σ ε α) :=
  fun _ => .inl ⟨.refl _, rfl⟩

theorem failStop_fail (e : ε) : FailStop failure (fail e : Program σ ε α) :=
  fun _ => .inl ⟨.refl _, rfl⟩

theorem failStop_ofExcept (r : Except ε α) : FailStop failure (ofExcept r : Program σ ε α) := by
  cases r with
  | ok a => exact failStop_pure a
  | error e => exact failStop_fail e

theorem failStop_require (c : Prop) [Decidable c] (e : ε) :
    FailStop failure (require c e : Program σ ε PUnit) := by
  unfold require
  split
  · exact failStop_pure _
  · exact failStop_fail e

theorem failStop_inspect (f : σ → α) : FailStop failure (inspect f : Program σ ε α) :=
  fun _ => .inl ⟨.refl _, rfl⟩

theorem failStop_modify (f : σ → σ) : FailStop failure (modify f : Program σ ε Unit) :=
  fun _ => .inl ⟨.refl _, rfl⟩

theorem failStop_statement (run : σ → Except ε (α × σ)) :
    FailStop failure (statement failure run) := by
  rintro ⟨s, faults⟩
  match faults with
  | true :: rest => exact .inr ⟨⟨0, rfl⟩, rfl⟩
  | [] =>
      left
      cases hrun : run s with
      | error e => constructor <;> simp [statement, hrun, Issued.refl]
      | ok r => constructor <;> simp [statement, hrun, Issued.refl]
  | false :: rest =>
      left
      have hissued : Issued false (false :: rest) rest := ⟨1, rfl⟩
      cases hrun : run s with
      | error e => constructor <;> simp [statement, hrun, hissued]
      | ok r => constructor <;> simp [statement, hrun, hissued]

theorem failStop_query (f : σ → α) : FailStop failure (query failure f) :=
  failStop_statement _

theorem failStop_command (f : σ → Except ε σ) : FailStop failure (command failure f) :=
  failStop_statement _

theorem FailStop.bind {p : Program σ ε α} {f : α → Program σ ε β} (hp : FailStop failure p)
    (hf : ∀ a, FailStop failure (f a)) : FailStop failure (p >>= f) := by
  intro w
  rcases hrun : p w with ⟨e | a, w₁⟩
  · have hbind : (p >>= f) w = (.error e, w₁) := bind_of_error hrun
    rcases hp w with ⟨hissued, hsame⟩ | ⟨hissued, hthrew⟩
    · rw [hrun] at hissued hsame
      exact .inl ⟨by rw [hbind]; exact hissued, by rw [hbind]; exact bind_of_error hsame⟩
    · rw [hrun] at hissued hthrew
      obtain rfl := Except.error.inj hthrew
      exact .inr ⟨by rw [hbind]; exact hissued, by rw [hbind]⟩
  · have hbind : (p >>= f) w = f a w₁ := bind_of_ok hrun
    rcases hp w with ⟨hissued, hsame⟩ | ⟨-, hthrew⟩
    swap
    · rw [hrun] at hthrew
      cases hthrew
    rw [hrun] at hissued hsame
    have hbind' : (p >>= f) ⟨w.state, []⟩ = f a ⟨w₁.state, []⟩ := bind_of_ok hsame
    -- the first part has gone through, so the second decides
    rcases hf a w₁ with ⟨hissued', hsame'⟩ | ⟨hissued', hthrew'⟩
    · exact .inl ⟨by rw [hbind]; exact hissued.trans hissued', by rw [hbind, hbind']; exact hsame'⟩
    · exact .inr ⟨by rw [hbind]; exact hissued.trans hissued', by rw [hbind]; exact hthrew'⟩

theorem FailStop.map {p : Program σ ε α} (hp : FailStop failure p) (f : α → β) :
    FailStop failure (f <$> p) := hp.bind fun _ => failStop_pure _

theorem FailStop.ite {c : Prop} [Decidable c] {p q : Program σ ε α} (hp : FailStop failure p)
    (hq : FailStop failure q) : FailStop failure (if c then p else q) := by
  split
  · exact hp
  · exact hq

theorem FailStop.forM {γ : Type*} {f : γ → Program σ ε PUnit} (hf : ∀ c, FailStop failure (f c))
    (l : List γ) : FailStop failure (l.forM f) := by
  induction l with
  | nil => exact failStop_pure _
  | cons c l ih => exact (hf c).bind fun _ => ih

/-- Go back to the state of `w` when the program throws. -/
def rollback (p : Program σ ε α) : Program σ ε α := fun w =>
  match p w with
  | (.error e, w') => (.error e, { w' with state := w.state })
  | (.ok a, w') => (.ok a, w')

theorem FailStop.rollback {p : Program σ ε α} (hp : FailStop failure p) :
    FailStop failure p.rollback := by
  intro w
  rcases hrun : p w with ⟨e | a, w₁⟩
  · have hback : p.rollback w = (.error e, { w₁ with state := w.state }) := by
      simp [Program.rollback, hrun]
    rcases hp w with ⟨hissued, hsame⟩ | ⟨hissued, hthrew⟩
    · rw [hrun] at hissued hsame
      exact .inl ⟨by rw [hback]; exact hissued, by rw [hback]; simp [Program.rollback, hsame]⟩
    · rw [hrun] at hissued hthrew
      exact .inr ⟨by rw [hback]; exact hissued, by rw [hback]; exact hthrew⟩
  · have hback : p.rollback w = (.ok a, w₁) := by simp [Program.rollback, hrun]
    rcases hp w with ⟨hissued, hsame⟩ | ⟨-, hthrew⟩
    · rw [hrun] at hissued hsame
      exact .inl ⟨by rw [hback]; exact hissued, by rw [hback]; simp [Program.rollback, hsame]⟩
    · rw [hrun] at hthrew
      cases hthrew

/-- A transaction is its block between two statements, rolled back when it throws. -/
theorem transaction_eq_rollback (body : Program σ ε α) :
    transaction failure body = rollback (do
      query failure fun _ => ()
      let a ← body
      query failure fun _ => ()
      pure a) := by
  funext w
  rcases hbegin : query failure (fun _ => ()) w with ⟨e | u, w₁⟩
  · have hstate : w₁.state = w.state := (readOnly_query failure _).of_eq hbegin
    rw [transaction, hbegin, rollback, bind_of_error hbegin, ← hstate]
  · rw [transaction, hbegin, rollback, bind_of_ok hbegin]
    dsimp only
    rcases hbody : body w₁ with ⟨e | a, w₂⟩
    · rw [bind_of_error hbody]
    · rw [bind_of_ok hbody]
      dsimp only
      rcases hcommit : query failure (fun _ => ()) w₂ with ⟨e | u', w₃⟩
      · rw [bind_of_error hcommit]
      · rw [bind_of_ok hcommit]
        rfl

theorem FailStop.transaction {body : Program σ ε α} (hbody : FailStop failure body) :
    FailStop failure (transaction failure body) := by
  rw [transaction_eq_rollback]
  apply FailStop.rollback
  refine (failStop_query _).bind fun _ => hbody.bind fun a => ?_
  exact (failStop_query _).bind fun _ => failStop_pure a

theorem FailStop.zoom {get : τ → σ} {set : τ → σ → τ} {p : Program σ ε α}
    (hp : FailStop failure p) : FailStop failure (zoom get set p) := by
  intro w
  rcases hrun : p ⟨get w.state, w.faults⟩ with ⟨r, v⟩
  have hzoom : Program.zoom get set p w = (r, ⟨set w.state v.state, v.faults⟩) :=
    zoom_of_eq hrun
  rcases hp ⟨get w.state, w.faults⟩ with ⟨hissued, hsame⟩ | ⟨hissued, hthrew⟩
  · rw [hrun] at hissued hsame
    exact .inl ⟨by rw [hzoom]; exact hissued, by
      rw [hzoom]
      exact zoom_of_eq (w := ⟨w.state, []⟩) hsame⟩
  · rw [hrun] at hissued hthrew
    exact .inr ⟨by rw [hzoom]; exact hissued, by rw [hzoom]; exact hthrew⟩

/-! ### Using it -/

/-- Where the program returns without failures it returns the same, or stops. -/
theorem FailStop.of_returns {p : Program σ ε α} (hp : FailStop failure p) {w : World σ} {a : α}
    {s : σ} (h : p.Returns w.state a s) :
    (∃ rest, p w = (.ok a, ⟨s, rest⟩) ∧ Issued false w.faults rest) ∨
      ∃ w', p w = (.error failure, w') ∧ Issued true w.faults w'.faults := by
  rcases hrun : p w with ⟨r, w'⟩
  rcases hp w with ⟨hissued, hsame⟩ | ⟨hissued, hthrew⟩
  · rw [hrun] at hissued hsame
    have heq := hsame.symm.trans h
    simp only [Prod.mk.injEq, World.mk.injEq, and_true] at heq
    obtain ⟨rfl, rfl⟩ := heq
    exact .inl ⟨w'.faults, rfl, hissued⟩
  · rw [hrun] at hissued hthrew
    exact .inr ⟨w', by rw [← hthrew], hissued⟩

/-- Where it throws without failures it throws the same, or stops. -/
theorem FailStop.of_throws {p : Program σ ε α} (hp : FailStop failure p) {w : World σ} {e : ε}
    (h : p.Throws w.state e) :
    (∃ rest, p w = (.error e, ⟨w.state, rest⟩) ∧ Issued false w.faults rest) ∨
      ∃ w', p w = (.error failure, w') ∧ Issued true w.faults w'.faults := by
  rcases hrun : p w with ⟨r, w'⟩
  rcases hp w with ⟨hissued, hsame⟩ | ⟨hissued, hthrew⟩
  · rw [hrun] at hissued hsame
    have heq := hsame.symm.trans h
    simp only [Prod.mk.injEq] at heq
    obtain ⟨rfl, heq⟩ := heq
    simp only [World.mk.injEq, and_true] at heq
    exact .inl ⟨w'.faults, by rw [← heq], hissued⟩
  · rw [hrun] at hissued hthrew
    exact .inr ⟨w', by rw [← hthrew], hissued⟩

end Program

end Faulty
