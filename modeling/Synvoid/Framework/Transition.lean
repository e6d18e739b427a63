import Mathlib.Data.List.Basic

/-! # Labelled transition systems and their finite runs

    A `System` has initial states and a labelled step relation. A finite run
    is recorded as the list of its steps, each step as the pair of the state
    it starts from and its label, so that a condition "on the state before
    the step" can be stated of a whole run.

    The rest of the development reasons about runs with two induction rules:
    * `System.Exec.invariant`: a property of states, kept by every step;
    * `System.Exec.history`: a property of the run so far and the state it
      has reached, for invariants that refer to earlier steps.
    `System.Steps.history` is the same for the steps from a given state.

    Further rules turn an equivalence for one step into one for whole runs:
    `System.Exec.states_iff` (with an invariant beside the property:
    `System.Exec.states_iff_of`) and `System.Exec.steps_iff`.

    A system given by a guarded step function can also be replayed on a list
    of labels (`replay`, `exec_of_replay`).
-/

namespace Synvoid.Framework

universe u v

/-- A labelled transition system. -/
structure System (σ : Type u) (ι : Type v) where
  init : σ → Prop
  step : σ → ι → σ → Prop

variable {σ : Type u} {ι : Type v}

/-- `sys.Steps s tr s'`: the steps `tr` lead from `s` to `s'`. -/
inductive System.Steps (sys : System σ ι) (s : σ) : List (σ × ι) → σ → Prop where
  | nil : sys.Steps s [] s
  | snoc {t u : σ} {tr : List (σ × ι)} {l : ι} :
      sys.Steps s tr t → sys.step t l u → sys.Steps s (tr ++ [(t, l)]) u

/-- `sys.Exec tr s`: some initial state reaches `s` by the steps `tr`. -/
def System.Exec (sys : System σ ι) (tr : List (σ × ι)) (s : σ) : Prop :=
  ∃ s₀, sys.init s₀ ∧ sys.Steps s₀ tr s

theorem System.Exec.nil {sys : System σ ι} {s : σ} (h : sys.init s) : sys.Exec [] s :=
  ⟨s, h, .nil⟩

theorem System.Exec.snoc {sys : System σ ι} {tr : List (σ × ι)} {s s' : σ} {l : ι}
    (h : sys.Exec tr s) (hstep : sys.step s l s') : sys.Exec (tr ++ [(s, l)]) s' := by
  obtain ⟨s₀, hinit, hsteps⟩ := h
  exact ⟨s₀, hinit, .snoc hsteps hstep⟩

theorem System.Exec.append {sys : System σ ι} {tr tr' : List (σ × ι)} {s s' : σ}
    (h : sys.Exec tr s) (hsteps : sys.Steps s tr' s') : sys.Exec (tr ++ tr') s' := by
  induction hsteps with
  | nil => simpa using h
  | snoc _ hlast ih =>
    rw [← List.append_assoc]
    exact ih.snoc hlast

/-- The part of a run before one of its steps is a run to the state that the
    step starts from. -/
theorem System.Exec.before {sys : System σ ι} {pre post : List (σ × ι)} {s s' : σ} {l : ι}
    (h : sys.Exec (pre ++ (s, l) :: post) s') : sys.Exec pre s := by
  obtain ⟨s₀, hinit, hsteps⟩ := h
  generalize htr : pre ++ (s, l) :: post = tr at hsteps
  induction hsteps generalizing post with
  | nil => simp at htr
  | snoc hsteps' hlast ih =>
    rcases List.eq_nil_or_concat post with rfl | ⟨post', x, rfl⟩
    · obtain ⟨rfl, hlast⟩ := List.append_inj' htr rfl
      obtain ⟨rfl, -⟩ : s = _ ∧ l = _ := by simpa using hlast
      exact ⟨s₀, hinit, hsteps'⟩
    · rw [List.concat_eq_append, ← List.cons_append, ← List.append_assoc] at htr
      exact ih (List.append_inj' htr rfl).1

/-! ### Induction rules -/

/-- **History rule** for the steps from a given state. -/
theorem System.Steps.history {sys : System σ ι} {s₀ : σ} (P : List (σ × ι) → σ → Prop)
    (hnil : P [] s₀)
    (hstep : ∀ tr s l s', P tr s → sys.step s l s' → P (tr ++ [(s, l)]) s')
    {tr : List (σ × ι)} {s : σ} (h : sys.Steps s₀ tr s) : P tr s := by
  induction h with
  | nil => exact hnil
  | snoc _ hlast ih => exact hstep _ _ _ _ ih hlast

/-- **History rule.** A relation between the run so far and the state it has
    reached holds of every execution, if it holds of the empty run in every
    initial state and every step keeps it. -/
theorem System.Exec.history {sys : System σ ι} (P : List (σ × ι) → σ → Prop)
    (hinit : ∀ s, sys.init s → P [] s)
    (hstep : ∀ tr s l s', P tr s → sys.step s l s' → P (tr ++ [(s, l)]) s')
    {tr : List (σ × ι)} {s : σ} (h : sys.Exec tr s) : P tr s := by
  obtain ⟨s₀, h₀, hsteps⟩ := h
  exact System.Steps.history P (hinit s₀ h₀) hstep hsteps

/-- **Invariant rule.** A property of states that holds initially and is kept
    by every step holds in every state reached. -/
theorem System.Exec.invariant {sys : System σ ι} (P : σ → Prop)
    (hinit : ∀ s, sys.init s → P s)
    (hstep : ∀ s l s', P s → sys.step s l s' → P s')
    {tr : List (σ × ι)} {s : σ} (h : sys.Exec tr s) : P s :=
  System.Exec.history (fun _ s => P s) hinit (fun _ s l s' => hstep s l s') h

/-- The steps of a run that is longer by one. -/
theorem forall_mem_snoc {P : σ × ι → Prop} {tr : List (σ × ι)} {s : σ} {l : ι} :
    (∀ step ∈ tr ++ [(s, l)], P step) ↔ (∀ step ∈ tr, P step) ∧ P (s, l) := by
  rw [List.forall_mem_append, List.forall_mem_singleton]

/-- **States rule.** If a step from a state with `J` leads to one with `I` just
    when it is `Ok`, and then to one with `J` again, then all states of a run
    have `I` just when all its steps are `Ok`. -/
theorem System.Exec.states_iff_of {sys : System σ ι} (I J : σ → Prop) (Ok : σ → ι → Prop)
    (hinit : ∀ s, sys.init s → I s ∧ J s)
    (hstep : ∀ s l s', J s → sys.step s l s' → (I s' ↔ Ok s l) ∧ (I s' → J s'))
    {tr : List (σ × ι)} {s : σ} (h : sys.Exec tr s) :
    (∀ t ∈ tr.map Prod.fst ++ [s], I t) ↔ ∀ step ∈ tr, Ok step.1 step.2 := by
  have hrun := System.Exec.history (fun tr s => ((∀ t ∈ tr.map Prod.fst ++ [s], I t) ↔
    ∀ step ∈ tr, Ok step.1 step.2) ∧ ((∀ step ∈ tr, Ok step.1 step.2) → J s)) ?_ ?_ h
  · exact hrun.1
  · intro s hs
    simpa using hinit s hs
  · intro tr s l s' ⟨hiff, hinv⟩ hlast
    have hstates : (∀ t ∈ (tr ++ [(s, l)]).map Prod.fst ++ [s'], I t) ↔
        (∀ t ∈ tr.map Prod.fst ++ [s], I t) ∧ I s' := by
      rw [List.map_append, List.forall_mem_append, List.forall_mem_singleton]
      rfl
    rw [hstates, forall_mem_snoc, hiff]
    constructor
    · exact and_congr_right fun hall => (hstep s l s' (hinv hall) hlast).1
    · intro ⟨hall, hok⟩
      obtain ⟨hgood, hkeeps⟩ := hstep s l s' (hinv hall) hlast
      exact hkeeps (hgood.mpr hok)

/-- The states rule for a property that is an invariant itself. -/
theorem System.Exec.states_iff {sys : System σ ι} (I : σ → Prop) (Ok : σ → ι → Prop)
    (hinit : ∀ s, sys.init s → I s)
    (hstep : ∀ s l s', I s → sys.step s l s' → (I s' ↔ Ok s l))
    {tr : List (σ × ι)} {s : σ} (h : sys.Exec tr s) :
    (∀ t ∈ tr.map Prod.fst ++ [s], I t) ↔ ∀ step ∈ tr, Ok step.1 step.2 :=
  System.Exec.states_iff_of I I Ok (fun s hs => ⟨hinit s hs, hinit s hs⟩)
    (fun s l s' hs hlast => ⟨hstep s l s' hs hlast, id⟩) h

/-- **Steps rule.** If a `Good` step keeps `I`, and a step from a state with
    `I` is `Good` just when it is `Ok`, then all steps of a run are `Good` just
    when all are `Ok`. -/
theorem System.Exec.steps_iff {sys : System σ ι} (I : σ → Prop) (R Good Ok : σ → ι → Prop)
    (hinit : ∀ s, sys.init s → I s)
    (hstep : ∀ s l s', I s → R s l → sys.step s l s' →
      (Good s l ↔ Ok s l) ∧ (Good s l → I s'))
    {tr : List (σ × ι)} {s : σ} (h : sys.Exec tr s) (hR : ∀ step ∈ tr, R step.1 step.2) :
    (∀ step ∈ tr, Good step.1 step.2) ↔ ∀ step ∈ tr, Ok step.1 step.2 := by
  revert hR
  have hrun := System.Exec.history (fun tr s => (∀ step ∈ tr, R step.1 step.2) →
    ((∀ step ∈ tr, Good step.1 step.2) ↔ ∀ step ∈ tr, Ok step.1 step.2) ∧
      ((∀ step ∈ tr, Good step.1 step.2) → I s)) ?_ ?_ h
  · exact fun hR => (hrun hR).1
  · intro s hs _
    simpa using hinit s hs
  · intro tr s l s' ih hlast hR
    rw [forall_mem_snoc] at hR
    obtain ⟨hiff, hinv⟩ := ih hR.1
    simp only [forall_mem_snoc]
    constructor
    · rw [← hiff]
      exact and_congr_right fun hgood => (hstep s l s' (hinv hgood) hR.2 hlast).1
    · intro ⟨hgood, hlastGood⟩
      exact (hstep s l s' (hinv hgood) hR.2 hlast).2 hlastGood

/-! ### Executable systems -/

/-- The system of a guarded step function: label `l` is enabled in `s` when
    `next s l` is defined. -/
def System.ofNext (s₀ : σ) (next : σ → ι → Option σ) : System σ ι where
  init := fun s => s = s₀
  step := fun s l s' => next s l = some s'

/-- Replays labels from `s`; undefined if one of them is not enabled. -/
def replay (next : σ → ι → Option σ) (s : σ) : List ι → Option σ
  | [] => some s
  | l :: ls => (next s l).bind fun s' => replay next s' ls

/-- A replay that goes through is an execution with these labels. -/
theorem exec_of_replay {s₀ : σ} {next : σ → ι → Option σ} {tr : List (σ × ι)} {s s' : σ}
    (h : (System.ofNext s₀ next).Exec tr s) (ls : List ι) (hls : replay next s ls = some s') :
    ∃ tr', tr'.map Prod.snd = tr.map Prod.snd ++ ls ∧ (System.ofNext s₀ next).Exec tr' s' := by
  induction ls generalizing tr s with
  | nil =>
    obtain rfl : s = s' := by simpa [replay] using hls
    exact ⟨tr, by simp, h⟩
  | cons l ls ih =>
    obtain ⟨t, ht, hrest⟩ := Option.bind_eq_some_iff.mp hls
    obtain ⟨tr', hlabels, hexec⟩ := ih (h.snoc ht) hrest
    exact ⟨tr', by simpa using hlabels, hexec⟩

/-- The steps of a replay, up to the first label that is not enabled. -/
def traceOf (next : σ → ι → Option σ) (s : σ) : List ι → List (σ × ι)
  | [] => []
  | l :: ls => (s, l) :: ((next s l).elim [] fun s' => traceOf next s' ls)

theorem exec_traceOf {s₀ : σ} {next : σ → ι → Option σ} {tr : List (σ × ι)} {s s' : σ}
    (h : (System.ofNext s₀ next).Exec tr s) (ls : List ι) (hls : replay next s ls = some s') :
    (System.ofNext s₀ next).Exec (tr ++ traceOf next s ls) s' := by
  induction ls generalizing tr s with
  | nil =>
    obtain rfl : s = s' := by simpa [replay] using hls
    simpa [traceOf] using h
  | cons l ls ih =>
    obtain ⟨t, ht, hrest⟩ := Option.bind_eq_some_iff.mp hls
    have hexec := ih (h.snoc ht) hrest
    rw [List.append_assoc, List.singleton_append] at hexec
    rw [traceOf, ht]
    exact hexec

end Synvoid.Framework
