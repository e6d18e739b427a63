import Mathlib.Data.List.Nodup
import Mathlib.Data.List.Perm.Basic
import Mathlib.Logic.Relation

/-! # Challenges

    A place is held by one of a list of contenders, and each contender that is
    offered takes it if it beats the one that holds it. Of any two contenders
    one beats the other, but this need not be transitive. The contenders from
    which all others are reached by chains of `beats` form the top cycle.

    * However often and in whatever order the contenders are offered, one of the
      top cycle holds the place once all were offered (`Offered.inTopCycle`),
      also if an offer is ignored when the same contender was offered before.
    * Each contender of the top cycle holds the place after some order
      (`InTopCycle.exists_order`).
    So the holder has a property in every order just when all of the top cycle
    have it.
-/

namespace Synvoid.Framework

universe u

variable {α : Type u} (beats : α → α → Bool)

/-- The holder of the place after an offer. -/
def challenge : Option α → α → Option α
  | none, b => some b
  | some a, b => if beats b a then some b else some a

/-- Of any two contenders one beats the other. -/
def IsTournament (S : List α) : Prop :=
  ∀ a ∈ S, ∀ b ∈ S, a ≠ b → beats a b = true ∨ beats b a = true

/-- A chain of contenders of `S`, each of which beats the next. -/
def ReachesIn (S : List α) : α → α → Prop :=
  Relation.ReflTransGen fun a b => a ∈ S ∧ b ∈ S ∧ beats a b = true

def InTopCycle (S : List α) (t : α) : Prop := t ∈ S ∧ ∀ x ∈ S, ReachesIn beats S t x

variable {beats} {S : List α}

theorem InTopCycle.of_beats {a t : α} (ha : a ∈ S) (hbeats : beats a t = true)
    (ht : InTopCycle beats S t) : InTopCycle beats S a :=
  ⟨ha, fun x hx => (ht.2 x hx).head ⟨ha, ht.1, hbeats⟩⟩

theorem challenge_cases (a b : α) :
    challenge beats (some a) b = some b ∨ challenge beats (some a) b = some a := by
  by_cases hbeats : beats b a = true
  · exact Or.inl (if_pos hbeats)
  · exact Or.inr (if_neg hbeats)

theorem challenge_self (a : α) : challenge beats (some a) a = some a :=
  (challenge_cases a a).elim id id

/-! ### The holder is of the top cycle -/

/-- The place after offers of `l`, some of which may have been ignored because
    the contender was offered before. -/
inductive Offered (beats : α → α → Bool) : List α → Option α → Prop where
  | nil : Offered beats [] none
  | offer {l : List α} {holder : Option α} (h : Offered beats l holder) (b : α) :
      Offered beats (l ++ [b]) (challenge beats holder b)
  | ignore {l : List α} {holder : Option α} (h : Offered beats l holder) {b : α} (hb : b ∈ l) :
      Offered beats (l ++ [b]) holder

theorem Offered.holder_mem {l : List α} {holder : Option α} (h : Offered beats l holder) :
    (∀ a, holder = some a → a ∈ l) ∧ (holder = none → l = []) := by
  induction h with
  | nil => exact ⟨fun a ha => (by cases ha), fun _ => rfl⟩
  | @offer l holder h b ih =>
    cases holder with
    | none =>
      refine ⟨?_, fun hnone => (by cases hnone)⟩
      intro a ha
      obtain rfl : b = a := Option.some.inj ha
      exact List.mem_append_right _ (List.mem_singleton_self b)
    | some a =>
      rcases challenge_cases a b with hb | ha
      · rw [hb]
        refine ⟨?_, fun hnone => (by cases hnone)⟩
        intro a' ha'
        obtain rfl : b = a' := Option.some.inj ha'
        exact List.mem_append_right _ (List.mem_singleton_self b)
      · rw [ha]
        refine ⟨?_, fun hnone => (by cases hnone)⟩
        intro a' ha'
        obtain rfl : a = a' := Option.some.inj ha'
        exact List.mem_append_left _ (ih.1 a rfl)
  | ignore h hb ih =>
    refine ⟨fun a ha => List.mem_append_left _ (ih.1 a ha), ?_⟩
    intro hnone
    rw [ih.2 hnone] at hb
    cases hb

/-- Once a contender of the top cycle was offered, one of them holds the
    place. -/
theorem Offered.inTopCycle_of_mem (hS : IsTournament beats S) {l : List α} {holder : Option α}
    (h : Offered beats l holder) (hl : ∀ a ∈ l, a ∈ S) {t : α} (ht : InTopCycle beats S t)
    (hoffered : t ∈ l) : ∃ a, holder = some a ∧ InTopCycle beats S a := by
  induction h with
  | nil => cases hoffered
  | @offer l holder h b ih =>
    rw [List.forall_mem_append, List.forall_mem_singleton] at hl
    cases holder with
    | none =>
      have hnil := h.holder_mem.2 rfl
      subst hnil
      obtain rfl : t = b := by simpa using hoffered
      exact ⟨t, rfl, ht⟩
    | some a =>
      have ha := hl.1 a (h.holder_mem.1 a rfl)
      by_cases hbeats : beats b a = true
      · refine ⟨b, if_pos hbeats, ?_⟩
        rcases List.mem_append.mp hoffered with hbefore | hnow
        -- the new holder beats one of the top cycle
        · obtain ⟨a', ha', htop⟩ := ih hl.1 hbefore
          obtain rfl : a = a' := Option.some.inj ha'
          exact htop.of_beats hl.2 hbeats
        · obtain rfl : t = b := by simpa using hnow
          exact ht
      · refine ⟨a, if_neg hbeats, ?_⟩
        rcases List.mem_append.mp hoffered with hbefore | hnow
        · obtain ⟨a', ha', htop⟩ := ih hl.1 hbefore
          obtain rfl : a = a' := Option.some.inj ha'
          exact htop
        -- the holder beats the contender of the top cycle that was refused
        · obtain rfl : t = b := by simpa using hnow
          by_cases heq : a = t
          · subst heq
            exact ht
          · exact ht.of_beats ha ((hS a ha t hl.2 heq).resolve_right hbeats)
  | @ignore l holder h b hb ih =>
    rw [List.forall_mem_append, List.forall_mem_singleton] at hl
    have hbefore : t ∈ l := by
      rcases List.mem_append.mp hoffered with hbefore | hnow
      · exact hbefore
      · obtain rfl : t = b := by simpa using hnow
        exact hb
    exact ih hl.1 hbefore

theorem ReachesIn.mono {S' : List α} (hsub : S ⊆ S') {a b : α} (h : ReachesIn beats S a b) :
    ReachesIn beats S' a b :=
  Relation.ReflTransGen.mono (fun _ _ hab => ⟨hsub hab.1, hsub hab.2.1, hab.2.2⟩) _ _ h

theorem exists_inTopCycle (hS : IsTournament beats S) (hne : S ≠ []) :
    ∃ t, InTopCycle beats S t := by
  induction S with
  | nil => exact absurd rfl hne
  | cons x S ih =>
    by_cases hnil : S = []
    · subst hnil
      refine ⟨x, List.mem_singleton_self x, ?_⟩
      intro y hy
      obtain rfl : y = x := by simpa using hy
      exact .refl
    · have hS' : IsTournament beats S := fun a ha b hb =>
        hS a (List.mem_cons_of_mem x ha) b (List.mem_cons_of_mem x hb)
      obtain ⟨t, ht, hreach⟩ := ih hS' hnil
      have hreach' : ∀ y ∈ S, ReachesIn beats (x :: S) t y :=
        fun y hy => (hreach y hy).mono (List.subset_cons_self x S)
      have hx : x ∈ x :: S := List.mem_cons_self ..
      have ht' : t ∈ x :: S := List.mem_cons_of_mem x ht
      by_cases heq : x = t
      · subst heq
        refine ⟨x, hx, ?_⟩
        rw [List.forall_mem_cons]
        exact ⟨.refl, hreach'⟩
      · rcases hS x hx t ht' heq with hxt | htx
        · refine ⟨x, hx, ?_⟩
          rw [List.forall_mem_cons]
          exact ⟨.refl, fun y hy => (hreach' y hy).head ⟨hx, ht', hxt⟩⟩
        · refine ⟨t, ht', ?_⟩
          rw [List.forall_mem_cons]
          exact ⟨.single ⟨ht', hx, htx⟩, hreach'⟩

/-- **The holder is of the top cycle** once all contenders were offered. -/
theorem Offered.inTopCycle (hS : IsTournament beats S) (hne : S ≠ []) {l : List α}
    {holder : Option α} (h : Offered beats l holder) (hl : ∀ a, a ∈ l ↔ a ∈ S) :
    ∃ a, holder = some a ∧ InTopCycle beats S a := by
  obtain ⟨t, ht⟩ := exists_inTopCycle hS hne
  exact h.inTopCycle_of_mem hS (fun a ha => (hl a).mp ha) ht ((hl t).mpr ht.1)

/-- If no contender is offered twice, none of the offers is ignored. -/
theorem Offered.eq_foldl {l : List α} {holder : Option α} (h : Offered beats l holder)
    (hl : l.Nodup) : holder = l.foldl (challenge beats) none := by
  induction h with
  | nil => rfl
  | offer h b ih =>
    rw [List.foldl_append, ← ih (List.Nodup.of_append_left hl)]
    rfl
  | ignore h hb ih =>
    exact absurd (List.mem_singleton_self _) (List.disjoint_of_nodup_append hl hb)

/-! ### Each of the top cycle can hold the place -/

theorem challenge_some (a : α) (l : List α) :
    ∃ a', l.foldl (challenge beats) (some a) = some a' ∧
      (a' ∈ l ∨ a' = a ∧ ∀ b ∈ l, beats b a = false) := by
  induction l generalizing a with
  | nil => exact ⟨a, rfl, Or.inr ⟨rfl, fun b hb => (by cases hb)⟩⟩
  | cons b l ih =>
    rw [List.foldl_cons]
    by_cases hbeats : beats b a = true
    · rw [challenge, if_pos hbeats]
      obtain ⟨a', ha', hlast⟩ := ih b
      refine ⟨a', ha', Or.inl ?_⟩
      rcases hlast with hmem | ⟨rfl, -⟩
      · exact List.mem_cons_of_mem b hmem
      · exact List.mem_cons_self ..
    · rw [challenge, if_neg hbeats]
      obtain ⟨a', ha', hlast⟩ := ih a
      refine ⟨a', ha', ?_⟩
      rcases hlast with hmem | ⟨rfl, hall⟩
      · exact Or.inl (List.mem_cons_of_mem b hmem)
      · refine Or.inr ⟨rfl, ?_⟩
        rw [List.forall_mem_cons]
        exact ⟨Bool.not_eq_true _ ▸ hbeats, hall⟩

/-- The contenders of `l` in this order give the place to `t`, if it was held by
    one of them or by one that is beaten by one of them. -/
def Absorbs (beats : α → α → Bool) (l : List α) (t : α) : Prop :=
  ∀ a, (a ∈ l ∨ ∃ b ∈ l, beats b a = true) → l.foldl (challenge beats) (some a) = some t

theorem absorbs_singleton (t : α) : Absorbs beats [t] t := by
  rintro a (ha | ⟨b, hb, hbeats⟩)
  · obtain rfl : a = t := by simpa using ha
    exact challenge_self a
  · obtain rfl : b = t := by simpa using hb
    exact if_pos hbeats

/-- Those that are beaten by one of `l` may come before. -/
theorem Absorbs.append {l front : List α} {t : α} (h : Absorbs beats l t)
    (hfront : ∀ a ∈ front, ∃ b ∈ l, beats b a = true) : Absorbs beats (front ++ l) t := by
  intro a ha
  rw [List.foldl_append]
  obtain ⟨a', ha', hlast⟩ : ∃ a', front.foldl (challenge beats) (some a) = some a' ∧
      (a' ∈ front ∨ a' = a ∧ ∀ b ∈ front, beats b a = false) := challenge_some a front
  rw [ha']
  rcases hlast with hmem | ⟨rfl, hkept⟩
  · exact h a' (Or.inr (hfront a' hmem))
  · apply h a'
    rcases ha with hmem | ⟨b, hb, hbeats⟩
    · rcases List.mem_append.mp hmem with hmem | hmem
      · exact Or.inr (hfront a' hmem)
      · exact Or.inl hmem
    · rcases List.mem_append.mp hb with hb | hb
      · rw [hkept b hb] at hbeats
        cases hbeats
      · exact Or.inr ⟨b, hb, hbeats⟩

/-- A chain that leaves `l` has a first contender outside it. -/
theorem exists_beaten {l : List α} {t x : α} (h : ReachesIn beats S t x) (ht : t ∈ l) (hx : x ∉ l) :
    ∃ a ∈ S, a ∉ l ∧ ∃ b ∈ l, beats b a = true := by
  induction h with
  | refl => exact absurd ht hx
  | @tail y z _ hyz ih =>
    by_cases hy : y ∈ l
    · exact ⟨z, hyz.2.1, hx, y, hy, hyz.2.2⟩
    · exact ih hy

/-- An order that ends in `t`, built from its end: what is still to be placed
    and is beaten by one that is placed comes before them. -/
theorem exists_absorbs (hS : S.Nodup) {t : α} (ht : InTopCycle beats S t) (n : Nat)
    {l rest : List α} (hrest : rest.length ≤ n) (hperm : (l ++ rest).Perm S) (htl : t ∈ l)
    (h : Absorbs beats l t) : ∃ l', l'.Perm S ∧ Absorbs beats l' t := by
  induction n generalizing l rest with
  | zero =>
    obtain rfl := List.length_eq_zero_iff.mp (Nat.le_zero.mp hrest)
    exact ⟨l, by simpa using hperm, h⟩
  | succ n ih =>
    cases rest with
    | nil => exact ⟨l, by simpa using hperm, h⟩
    | cons x xs =>
      have hdisjoint := List.disjoint_of_nodup_append (hperm.nodup_iff.mpr hS)
      have hx : x ∈ S := hperm.mem_iff.mp (List.mem_append_right l (List.mem_cons_self ..))
      obtain ⟨a, ha, hal, hbeaten⟩ := exists_beaten (ht.2 x hx) htl
        (fun hxl => hdisjoint hxl (List.mem_cons_self ..))
      let isBeaten : α → Bool := fun y => l.any (beats · y)
      have hisBeaten : ∀ y, isBeaten y = true ↔ ∃ b ∈ l, beats b y = true :=
        fun y => List.any_eq_true
      -- the first contender outside `l` of a chain is among those placed now
      have hless : ((x :: xs).filter fun y => !isBeaten y).length ≤ n := by
        have harest : a ∈ x :: xs :=
          (List.mem_append.mp (hperm.mem_iff.mpr ha)).resolve_left hal
        have hlt : ((x :: xs).filter fun y => !isBeaten y).length < (x :: xs).length :=
          List.length_filter_lt_length_iff_exists.mpr
            ⟨a, harest, by simp [(hisBeaten a).mpr hbeaten]⟩
        omega
      have hfront : ∀ y ∈ (x :: xs).filter isBeaten, ∃ b ∈ l, beats b y = true :=
        fun y hy => (hisBeaten y).mp (List.mem_filter.mp hy).2
      refine ih hless ?_ (List.mem_append_right _ htl) (h.append hfront)
      refine List.Perm.trans ?_ hperm
      rw [List.append_assoc]
      refine (List.perm_append_comm_assoc _ _ _).trans ?_
      exact (List.filter_append_perm isBeaten (x :: xs)).append_left l

/-- **Each of the top cycle can hold the place**, after some order of all
    contenders. -/
theorem InTopCycle.exists_order (hS : S.Nodup) {t : α} (ht : InTopCycle beats S t) :
    ∃ l : List α, l.Perm S ∧ l.foldl (challenge beats) none = some t := by
  obtain ⟨before, after, heq⟩ := List.append_of_mem ht.1
  have hperm : ([t] ++ (before ++ after)).Perm S := by
    rw [heq, List.singleton_append]
    exact List.perm_middle.symm
  obtain ⟨l, hl, habsorbs⟩ := exists_absorbs hS ht (before ++ after).length (Nat.le_refl _) hperm
    (List.mem_singleton_self t) (absorbs_singleton t)
  refine ⟨l, hl, ?_⟩
  cases l with
  | nil => exact absurd (hl.mem_iff.mpr ht.1) List.not_mem_nil
  | cons a l =>
    -- the first contender offered against itself keeps the place
    have hlast := habsorbs a (Or.inl (List.mem_cons_self ..))
    rw [List.foldl_cons, challenge_self] at hlast
    exact hlast

end Synvoid.Framework
