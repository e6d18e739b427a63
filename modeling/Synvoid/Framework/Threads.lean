import Mathlib.Algebra.Order.BigOperators.Group.List
import Mathlib.Algebra.Order.Ring.Nat
import Synvoid.Framework.Transition

/-! # Threads over a shared state

    Any number of calls work on one shared state. Each stands at a program
    point, and `advance` makes its next atomic access; `κ` is what the
    environment decides at an access (a clock, a random number). A run of
    `Shared.system` is an interleaving of the accesses of all calls.

    Two rules are about sums over the program points:
    * `Shared.conserved`: what the shared state and the calls hold together
      stays the same;
    * `Shared.tally`: a counter of the shared state is the sum over the calls.

    `Shared.invariant_of_access` is the induction rule for anything else, and
    `Shared.invariant_while` the one for runs whose turns meet a condition.
-/

namespace Synvoid.Framework

universe u v w x

variable {σ : Type u} {π : Type v} {α : Type w} {κ : Type x}

/-- The shared state and the program point of every call made so far. -/
structure Shared (σ : Type u) (π : Type v) where
  state : σ
  threads : List π

/-- A new call starts, or call number `i` makes its next access. -/
inductive Turn (α : Type w) (κ : Type x) where
  | call (arg : α)
  | access (i : Nat) (env : κ)

namespace Shared

/-- The sum of a measure over the calls. -/
def total (f : π → Nat) (s : Shared σ π) : Nat := (s.threads.map f).sum

def next (start : α → π) (advance : κ → σ → π → Option (σ × π)) (s : Shared σ π) :
    Turn α κ → Option (Shared σ π)
  | .call arg => some { s with threads := s.threads ++ [start arg] }
  | .access i env =>
      s.threads[i]?.bind fun p =>
        (advance env s.state p).map fun r => { state := r.1, threads := s.threads.set i r.2 }

/-- The interleavings of any number of calls. -/
def system (start : α → π) (advance : κ → σ → π → Option (σ × π)) (init : σ) :
    System (Shared σ π) (Turn α κ) :=
  System.ofNext ⟨init, []⟩ (next start advance)

theorem next_access {start : α → π} {advance : κ → σ → π → Option (σ × π)} {s : Shared σ π}
    {i : Nat} {p p' : π} {env : κ} {t : σ} (hp : s.threads[i]? = some p)
    (hr : advance env s.state p = some (t, p')) :
    next start advance s (.access i env) = some { state := t, threads := s.threads.set i p' } := by
  show (s.threads[i]?.bind fun p => (advance env s.state p).map _) = _
  rw [hp, Option.bind_some, hr, Option.map_some]

/-! ### Measures -/

theorem total_call (f : π → Nat) (s : Shared σ π) (p : π) :
    total f { s with threads := s.threads ++ [p] } = total f s + f p := by
  simp [total]

/-- A measure changes by what the call that moves contributes. -/
theorem total_access (f : π → Nat) {s : Shared σ π} {i : Nat} {p : π} (h : s.threads[i]? = some p)
    (t : σ) (p' : π) : total f { state := t, threads := s.threads.set i p' } + f p =
      total f s + f p' := by
  obtain ⟨hi, hget⟩ := List.getElem?_eq_some_iff.mp h
  unfold total
  simp only
  generalize s.threads = threads at *
  induction threads generalizing i with
  | nil => exact absurd hi (Nat.not_lt_zero i)
  | cons q threads ih =>
    cases i with
    | zero =>
      simp only [List.getElem_cons_zero] at hget
      subst hget
      simp only [List.set_cons_zero, List.map_cons, List.sum_cons]
      omega
    | succ i =>
      have hrest := ih (by simpa using h) (by simpa using hi) (by simpa using hget)
      simp only [List.set_cons_succ, List.map_cons, List.sum_cons]
      omega

theorem le_total (f : π → Nat) {s : Shared σ π} {p : π} (h : p ∈ s.threads) : f p ≤ total f s :=
  List.single_le_sum (fun _ _ => Nat.zero_le _) _ (List.mem_map_of_mem h)

theorem total_eq_zero_iff (f : π → Nat) (s : Shared σ π) :
    total f s = 0 ↔ ∀ p ∈ s.threads, f p = 0 := by
  simp [total, List.sum_eq_zero_iff]

theorem exists_of_total_pos {f : π → Nat} {s : Shared σ π} (h : 0 < total f s) :
    ∃ p ∈ s.threads, 0 < f p := by
  by_contra hnone
  have hzero : ∀ p ∈ s.threads, f p = 0 := by
    intro p hp
    by_contra hpos
    exact hnone ⟨p, hp, Nat.pos_of_ne_zero hpos⟩
  rw [(total_eq_zero_iff f s).mpr hzero] at h
  exact Nat.lt_irrefl 0 h

theorem total_mono {f g : π → Nat} {s : Shared σ π} (h : ∀ p ∈ s.threads, f p ≤ g p) :
    total f s ≤ total g s :=
  List.sum_le_sum h

/-! ### Invariants of interleavings -/

variable {start : α → π} {advance : κ → σ → π → Option (σ × π)} {init : σ}

/-- **Invariant rule** for the runs whose turns are all `Ok`, with the two
    kinds of turns apart. -/
theorem invariant_while (Ok : Shared σ π → Turn α κ → Prop) (P : Shared σ π → Prop)
    (hinit : P ⟨init, []⟩)
    (hcall : ∀ s arg, P s → P { s with threads := s.threads ++ [start arg] })
    (haccess : ∀ tr s i p env t p', (system start advance init).Exec tr s → P s →
      Ok s (.access i env) → s.threads[i]? = some p → advance env s.state p = some (t, p') →
      P { state := t, threads := s.threads.set i p' })
    {tr : List (Shared σ π × Turn α κ)} {s : Shared σ π}
    (h : (system start advance init).Exec tr s) (hok : ∀ step ∈ tr, Ok step.1 step.2) : P s := by
  have hrun := System.Exec.history (fun tr s => (system start advance init).Exec tr s ∧
    ((∀ step ∈ tr, Ok step.1 step.2) → P s)) ?_ ?_ h
  · exact hrun.2 hok
  · intro s hs
    refine ⟨.nil hs, fun _ => ?_⟩
    rw [show s = _ from hs]
    exact hinit
  · intro tr s turn s' ⟨hexec, ih⟩ hstep
    refine ⟨hexec.snoc hstep, fun hok => ?_⟩
    rw [forall_mem_snoc] at hok
    cases turn with
    | call arg =>
      obtain rfl : _ = s' := Option.some.inj hstep
      exact hcall s arg (ih hok.1)
    | access i env =>
      obtain ⟨p, hp, hadvance⟩ := Option.bind_eq_some_iff.mp hstep
      obtain ⟨⟨t, p'⟩, hr, rfl⟩ := Option.map_eq_some_iff.mp hadvance
      exact haccess tr s i p env t p' hexec (ih hok.1) hok.2 hp hr

/-- **Invariant rule** for all interleavings. -/
theorem invariant_of_access (P : Shared σ π → Prop) (hinit : P ⟨init, []⟩)
    (hcall : ∀ s arg, P s → P { s with threads := s.threads ++ [start arg] })
    (haccess : ∀ tr s i p env t p', (system start advance init).Exec tr s → P s →
      s.threads[i]? = some p → advance env s.state p = some (t, p') →
      P { state := t, threads := s.threads.set i p' })
    {tr : List (Shared σ π × Turn α κ)} {s : Shared σ π}
    (h : (system start advance init).Exec tr s) : P s :=
  invariant_while (fun _ _ => True) P hinit hcall
    (fun tr s i p env t p' hexec hP _ => haccess tr s i p env t p' hexec hP) h
    (fun _ _ => trivial)

/-- What the shared state and the calls hold together stays the same. -/
theorem conserved (f : π → Nat) (g : σ → Nat) (hcall : ∀ arg, f (start arg) = 0)
    (hadvance : ∀ env t p t' p', advance env t p = some (t', p') → g t' + f p' = g t + f p)
    {tr : List (Shared σ π × Turn α κ)} {s : Shared σ π}
    (h : (system start advance init).Exec tr s) : g s.state + total f s = g init := by
  refine invariant_of_access (fun s => g s.state + total f s = g init) ?_ ?_ ?_ h
  · simp [total]
  · intro s arg ih
    rw [total_call, hcall]
    exact ih
  · intro _ s i p env t p' _ ih hp hr
    have hbalance := hadvance env s.state p t p' hr
    have htotal := total_access f hp t p'
    simp only at *
    omega

/-- A counter is the sum over the calls: no access takes more from it than its
    call contributes. -/
theorem tally (f : π → Nat) (g : σ → Nat) (hinit : g init = 0) (hcall : ∀ arg, f (start arg) = 0)
    (hadvance : ∀ env t p t' p', f p ≤ g t → advance env t p = some (t', p') →
      g t' + f p = g t + f p')
    {tr : List (Shared σ π × Turn α κ)} {s : Shared σ π}
    (h : (system start advance init).Exec tr s) : g s.state = total f s := by
  refine invariant_of_access (fun s => g s.state = total f s) ?_ ?_ ?_ h
  · simp [total, hinit]
  · intro s arg ih
    rw [total_call, hcall]
    exact ih
  · intro _ s i p env t p' _ ih hp hr
    have hle : f p ≤ g s.state := ih ▸ le_total f (List.mem_of_getElem? hp)
    have hbalance := hadvance env s.state p t p' hle hr
    have htotal := total_access f hp t p'
    simp only at *
    omega

/-- A call that did not move is still there. -/
theorem mem_set_of_ne {threads : List π} {i : Nat} {p p' q : π} (h : threads[i]? = some p)
    (hq : q ∈ threads) (hne : q ≠ p) : q ∈ threads.set i p' := by
  obtain ⟨j, hj, hget⟩ := List.mem_iff_getElem.mp hq
  have hij : i ≠ j := by
    intro hij
    subst hij
    rw [List.getElem?_eq_getElem hj, hget] at h
    exact hne (Option.some.inj h)
  rw [List.mem_iff_getElem]
  exact ⟨j, by rw [List.length_set]; exact hj, by rw [List.getElem_set_ne hij, hget]⟩

theorem mem_set_self {threads : List π} {i : Nat} {p : π} (h : threads[i]? = some p) (p' : π) :
    p' ∈ threads.set i p' :=
  List.mem_set (List.getElem?_eq_some_iff.mp h).1 p'

/-- A call after a step: the one that moved, or one of before. -/
theorem getElem?_set_cases {threads : List π} {i j : Nat} {p q : π}
    (h : (threads.set i p)[j]? = some q) : (j = i ∧ q = p) ∨ (j ≠ i ∧ threads[j]? = some q) := by
  rw [List.getElem?_set] at h
  split at h
  · next hij =>
    split at h
    · exact .inl ⟨hij.symm, (Option.some.inj h).symm⟩
    · cases h
  · next hij => exact .inr ⟨Ne.symm hij, h⟩

/-- What holds of all calls still does if it holds of the one that moved. -/
theorem forall_set {P : π → Prop} {threads : List π} (h : ∀ p ∈ threads, P p) {i : Nat} {p' : π}
    (hp' : P p') : ∀ p ∈ threads.set i p', P p := by
  intro p hp
  rcases List.mem_or_eq_of_mem_set hp with hp | rfl
  · exact h p hp
  · exact hp'

end Shared

end Synvoid.Framework
