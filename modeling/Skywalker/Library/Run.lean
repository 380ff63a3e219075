import Mathlib.Logic.Relation

/-!
# Runs of a partial step function, and histories

A system is given by `step : σ → α → Option σ`, where `none` says that an action is not enabled. A
run executes a list of actions. `Reaches` collects the states that runs reach when every action of
the run satisfies a condition in the state it is taken in, and `Reaches.invariant` is the induction
over such runs. `invariant_of_actions` is the same when a step is broken into smaller actions, which
need not be steps themselves.

`record` keeps the steps of a run. A history is the list of what happened, newest first.
`AtEach Q h` says that each entry satisfied `Q` against the history that it was appended to.
-/

namespace TransitionSystem

variable {σ α : Type*}

/-- The state after a list of actions, `none` when one of them is not enabled. -/
def run (step : σ → α → Option σ) : σ → List α → Option σ
  | s, [] => some s
  | s, a :: l => (step s a).bind fun t => run step t l

/-- `run`, stopped where an action does not pass a check in the state it is taken in. -/
def runChecked (step : σ → α → Option σ) (check : σ → α → Bool) : σ → List α → Option σ
  | s, [] => some s
  | s, a :: l => if check s a then (step s a).bind fun t => runChecked step check t l else none

/-- The states that runs from `init` reach in which every action satisfies `ok` where it is
taken. -/
inductive Reaches (step : σ → α → Option σ) (ok : σ → α → Prop) (init : σ) : σ → Prop where
  | refl : Reaches step ok init init
  | tail {s t : σ} (a : α) : Reaches step ok init s → ok s a → step s a = some t →
      Reaches step ok init t

variable {step : σ → α → Option σ} {ok ok' : σ → α → Prop} {init s t : σ}

/-- A property that holds initially and that every permitted step keeps holds in every state
reached. -/
theorem Reaches.invariant {P : σ → Prop} (h : Reaches step ok init s) (h0 : P init)
    (hstep : ∀ s t a, P s → ok s a → step s a = some t → P t) : P s := by
  induction h with
  | refl => exact h0
  | tail a _ hok hs ih => exact hstep _ _ a ih hok hs

theorem Reaches.mono (h : Reaches step ok init s) (himp : ∀ s a, ok s a → ok' s a) :
    Reaches step ok' init s := by
  induction h with
  | refl => exact .refl
  | tail a _ hok hs ih => exact .tail a ih (himp _ _ hok) hs

/-- A property that every permitted step keeps may be added to the condition. -/
theorem Reaches.strengthen {P : σ → Prop} (h : Reaches step ok init s) (h0 : P init)
    (hstep : ∀ s t a, P s → ok s a → step s a = some t → P t) :
    Reaches step (fun s a => P s ∧ ok s a) init s := by
  induction h with
  | refl => exact .refl
  | tail a hs hok hst ih => exact .tail a ih ⟨hs.invariant h0 hstep, hok⟩ hst

theorem Reaches.trans (h : Reaches step ok init s) (h' : Reaches step ok s t) :
    Reaches step ok init t := by
  induction h' with
  | refl => exact h
  | tail a _ hok hs ih => exact .tail a ih hok hs

/-- The state that an executed list of actions ends in is reached, when each action satisfies the
condition in every state. -/
theorem Reaches.of_run (l : List α) (hl : ∀ a ∈ l, ∀ s, ok s a) (h : run step init l = some s) :
    Reaches step ok init s := by
  induction l generalizing init with
  | nil =>
    obtain rfl : init = s := by simpa [run] using h
    exact .refl
  | cons a l ih =>
    simp only [run, Option.bind_eq_some_iff] at h
    obtain ⟨t, ht, hrest⟩ := h
    have hfirst : Reaches step ok init t :=
      .tail a .refl (hl a (List.mem_cons_self ..) init) ht
    exact hfirst.trans (ih (fun b hb => hl b (List.mem_cons_of_mem a hb)) hrest)

/-- The state that a checked list of actions ends in is reached, when the check implies the
condition in the states that satisfy a property, which the actions of the list keep. -/
theorem Reaches.of_runChecked_of {check : σ → α → Bool} {P : σ → Prop} (l : List α) (h0 : P init)
    (hstep : ∀ a ∈ l, ∀ s t, P s → step s a = some t → P t)
    (hl : ∀ a ∈ l, ∀ s, P s → check s a = true → ok s a)
    (h : runChecked step check init l = some s) : Reaches step ok init s := by
  induction l generalizing init with
  | nil =>
    obtain rfl : init = s := by simpa [runChecked] using h
    exact .refl
  | cons a l ih =>
    simp only [runChecked, Option.ite_none_right_eq_some, Option.bind_eq_some_iff] at h
    obtain ⟨hcheck, t, ht, hrest⟩ := h
    have hfirst : Reaches step ok init t :=
      .tail a .refl (hl a List.mem_cons_self init h0 hcheck) ht
    refine hfirst.trans (ih (hstep a List.mem_cons_self init t h0 ht) ?_ ?_ hrest)
    · exact fun b hb => hstep b (List.mem_cons_of_mem a hb)
    · exact fun b hb => hl b (List.mem_cons_of_mem a hb)

theorem Reaches.of_runChecked {check : σ → α → Bool} (l : List α)
    (hl : ∀ a ∈ l, ∀ s, check s a = true → ok s a) (h : runChecked step check init l = some s) :
    Reaches step ok init s :=
  Reaches.of_runChecked_of (P := fun _ => True) l trivial (fun _ _ _ _ _ _ => trivial)
    (fun a ha s _ => hl a ha s) h

/-- A property that smaller actions keep holds after every permitted step that is made of them. The
actions may need a second property, which is known to hold throughout. -/
theorem invariant_of_actions {act : σ → σ → Prop} {P : σ → Prop}
    (hact : ∀ s t, P s → act s t → P t) (h : Relation.ReflTransGen act s t) (hs : P s) : P t := by
  induction h with
  | refl => exact hs
  | tail _ hst ih => exact hact _ _ ih hst

/-! ## Recorded runs -/

/-- A step that was taken. -/
structure Transition (σ α : Type*) where
  before : σ
  action : α
  after : σ

/-- The system with a record of the steps that it took, newest first. -/
def record (step : σ → α → Option σ) (s : σ × List (Transition σ α)) (a : α) :
    Option (σ × List (Transition σ α)) :=
  (step s.1 a).map fun t => (t, ⟨s.1, a, t⟩ :: s.2)

/-- A property of the state and the record, for every recorded run: it holds initially, and every
step keeps it. -/
theorem Reaches.invariant_record {P : σ → List (Transition σ α) → Prop}
    {s : σ × List (Transition σ α)} (h : Reaches (record step) (fun _ _ => True) (init, []) s)
    (h0 : P init []) (hstep : ∀ s t a l, P s l → step s a = some t → P t (⟨s, a, t⟩ :: l)) :
    P s.1 s.2 := by
  refine h.invariant (P := fun s => P s.1 s.2) h0 fun s t a hs _ ht => ?_
  obtain ⟨u, hu, rfl⟩ := Option.map_eq_some_iff.mp ht
  exact hstep s.1 u a s.2 hs hu

/-! ## Histories -/

/-- Each entry of a history satisfies `Q` against the entries before it. -/
def AtEach (Q : List α → α → Prop) : List α → Prop
  | [] => True
  | e :: h => Q h e ∧ AtEach Q h

theorem AtEach.of_split {Q : List α → α → Prop} {h h₁ h₂ : List α} {e : α} (hQ : AtEach Q h)
    (hsplit : h = h₁ ++ e :: h₂) : Q h₂ e := by
  induction h₁ generalizing h with
  | nil =>
    subst hsplit
    exact hQ.1
  | cons d h₁ ih =>
    subst hsplit
    exact ih hQ.2 rfl

/-- What held of each entry holds when `Q` gets weaker, if more is appended elsewhere. -/
theorem AtEach.mono {Q Q' : List α → α → Prop} {h : List α} (hQ : AtEach Q h)
    (himp : ∀ h e, Q h e → Q' h e) : AtEach Q' h := by
  induction h with
  | nil => trivial
  | cons e h ih => exact ⟨himp h e hQ.1, ih hQ.2⟩

/-- New entries satisfy `Q` against every history that extends the old one. -/
theorem AtEach.append {Q : List α → α → Prop} {h l : List α} (hQ : AtEach Q h)
    (hl : ∀ e ∈ l, ∀ l', Q (l' ++ h) e) : AtEach Q (l ++ h) := by
  induction l with
  | nil => exact hQ
  | cons e l ih =>
    refine ⟨hl e List.mem_cons_self l, ih fun d hd => hl d (List.mem_cons_of_mem e hd)⟩

end TransitionSystem
