import Watchlist.Library.Transition

/-!
Forward simulations. Each step of the first machine is answered by at most one step of
the second, so that a run of the first is a run of the second to a related state. The
conditions that the steps of the two runs meet go along. In lockstep the two runs have the
same labels.
-/

namespace Transition.Machine

variable {σ σ' ℓ ℓ' : Type*}

/-- A step that meets `C` is answered by a step that meets `C'`, or by standing still. -/
def Simulates (M : Machine σ ℓ) (M' : Machine σ' ℓ') (R : σ → σ' → Prop) (C : σ → ℓ → Prop)
    (C' : σ' → ℓ' → Prop) : Prop :=
  ∀ s a l t, R s a → C s l → M.step s l = some t →
    R t a ∨ ∃ l' b, C' a l' ∧ M'.step a l' = some b ∧ R t b

variable {M : Machine σ ℓ} {M' : Machine σ' ℓ'} {R : σ → σ' → Prop} {C : σ → ℓ → Prop}
  {C' : σ' → ℓ' → Prop}

theorem Simulates.exec (h : M.Simulates M' R C C') {s t : σ} {a : σ'} {ls : List ℓ}
    (hmeets : M.Meets C s ls) (hrun : M.exec s ls = some t) (hrelated : R s a) :
    ∃ ls' b, M'.Meets C' a ls' ∧ M'.exec a ls' = some b ∧ R t b := by
  induction ls generalizing s a with
  | nil =>
      obtain rfl := Option.some.inj hrun
      exact ⟨[], a, trivial, rfl, hrelated⟩
  | cons l ls ih =>
      rw [exec_cons] at hrun
      obtain ⟨u, hu, hrest⟩ := Option.bind_eq_some_iff.mp hrun
      rcases h s a l u hrelated hmeets.1 hu with hstill | ⟨l', b, hcond, hstep, hnext⟩
      · exact ih (hmeets.2 u hu) hrest hstill
      · obtain ⟨ls', c, hmeets', hrun', hend⟩ := ih (hmeets.2 u hu) hrest hnext
        refine ⟨l' :: ls', c, ⟨hcond, fun v hv => ?_⟩, ?_, hend⟩
        · obtain rfl := Option.some.inj (hstep.symm.trans hv)
          exact hmeets'
        · rw [exec_cons_of_step hstep, hrun']

/-! ### In lockstep -/

/-- Two machines with the same labels. The steps have to be related only as far as `P` holds
behind them, which no step makes true. -/
theorem exec_lockstep {M : Machine σ ℓ} {M' : Machine σ' ℓ} {R : σ → σ' → Prop} {P : σ → Prop}
    (hback : ∀ s l t, M.step s l = some t → P t → P s)
    (hstep : ∀ s a l t, R s a → M.step s l = some t → P t → ∃ b, M'.step a l = some b ∧ R t b)
    {s t : σ} {a : σ'} {ls : List ℓ} (hrelated : R s a) (hrun : M.exec s ls = some t) (ht : P t) :
    ∃ b, M'.exec a ls = some b ∧ R t b := by
  induction ls using List.reverseRecOn generalizing t with
  | nil =>
      obtain rfl := Option.some.inj hrun
      exact ⟨a, rfl, hrelated⟩
  | append_singleton ls l ih =>
      rw [exec_append] at hrun
      obtain ⟨u, hu, hlast⟩ := Option.bind_eq_some_iff.mp hrun
      rw [exec_cons] at hlast
      obtain ⟨v, hv, hnil⟩ := Option.bind_eq_some_iff.mp hlast
      obtain rfl := Option.some.inj hnil
      obtain ⟨b, hb, hrelated'⟩ := ih hu (hback u l v hv ht)
      obtain ⟨c, hc, hend⟩ := hstep u b l v hrelated' hv ht
      refine ⟨c, ?_, hend⟩
      rw [exec_append, hb, Option.bind_some, exec_cons_of_step hc, exec_nil]

end Transition.Machine
