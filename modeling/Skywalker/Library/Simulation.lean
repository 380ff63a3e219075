import Skywalker.Library.Run

/-!
# Simulation

Two ways to say that one system does what another one does. `answers_eq`: of two machines that
answer every call, whose states are related as long as the calls satisfy a condition, both give the
same answers. `Reaches.simulates`: where each step of a system is matched by steps of another, each
run of it is matched by a run.
-/

namespace TransitionSystem

variable {σ τ α β γ : Type*}

/-- What a machine answers to calls made one after the other. -/
def answers (call : σ → α → β × σ) : σ → List α → List β
  | _, [] => []
  | s, a :: l => (call s a).1 :: answers call (call s a).2 l

/-- Machines that keep a relation between their states, and that give the same answer in related
states, give the same answers. -/
theorem answers_eq {call : σ → α → β × σ} {call' : τ → α → β × τ} {R : σ → τ → Prop}
    {ok : α → Prop}
    (hcall : ∀ s t a, R s t → ok a →
      (call s a).1 = (call' t a).1 ∧ R (call s a).2 (call' t a).2)
    {s : σ} {t : τ} (hst : R s t) {l : List α} (hl : ∀ a ∈ l, ok a) :
    answers call s l = answers call' t l := by
  induction l generalizing s t with
  | nil => rfl
  | cons a l ih =>
    obtain ⟨hsame, hnext⟩ := hcall s t a hst (hl a List.mem_cons_self)
    rw [answers, answers, hsame, ih hnext fun b hb => hl b (List.mem_cons_of_mem a hb)]

/-- A run of a system whose steps are matched by steps of another one is matched by a run. -/
theorem Reaches.simulates {step : σ → α → Option σ} {ok : σ → α → Prop} {init s : σ}
    {step' : τ → γ → Option τ} {ok' : τ → γ → Prop} {init' : τ} {R : σ → τ → Prop}
    (h : Reaches step ok init s) (h0 : R init init')
    (hstep : ∀ s u t a, R s t → ok s a → step s a = some u →
      ∃ v, Reaches step' ok' t v ∧ R u v) :
    ∃ t, Reaches step' ok' init' t ∧ R s t := by
  induction h with
  | refl => exact ⟨init', .refl, h0⟩
  | tail a _ hok hs ih =>
    obtain ⟨t, hrun, ht⟩ := ih
    obtain ⟨v, hmore, hv⟩ := hstep _ _ t a ht hok hs
    exact ⟨v, hrun.trans hmore, hv⟩

end TransitionSystem
