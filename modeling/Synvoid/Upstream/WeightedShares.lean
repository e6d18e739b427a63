import Synvoid.Upstream.Pool
import Mathlib.Data.Nat.Periodic

/-! # Shares of the weighted round robin

    `apply_weighted_round_robin` reduces its counter modulo the sum `W` of the
    weights and walks over the weights with the remainder. Over `W` consecutive
    values of the counter every remainder comes once, so each position of the
    list is chosen as often as its weight says (`weighted_shares`).
-/

namespace Synvoid.Upstream

/-! ### Counting over a window -/

/-- A periodic predicate holds equally often in every window of its period. -/
theorem countP_window {p : Nat → Prop} [DecidablePred p] {period : Nat}
    (hp : Function.Periodic p period) (start : Nat) :
    (List.range' start period).countP p = Nat.count p period := by
  rw [← Nat.filter_multiset_Ico_card_eq_of_periodic start period p hp, Multiset.Ico,
    Nat.Ico_eq_range', Nat.add_sub_cancel_left]
  simp [List.countP_eq_length_filter]

/-! ### Positions -/

def weightSum (backends : List Backend) : Nat := (backends.map fun b => b.weight.toNat).sum

/-- The position at which the walk over the weights stops. -/
def weightedPosition (remainder : Nat) : List Backend → Nat
  | [] => 0
  | b :: bs =>
      if remainder < b.weight.toNat then 0
      else weightedPosition (remainder - b.weight.toNat) bs + 1

/-- The walk stops within the list. -/
theorem weightedFrom_eq {remainder : UInt32} {backends : List Backend}
    (h : remainder.toNat < weightSum backends) :
    ∃ b, backends[weightedPosition remainder.toNat backends]? = some b ∧
      weightedFrom remainder backends = some b := by
  induction backends generalizing remainder with
  | nil => cases h
  | cons b bs ih =>
    rw [weightedPosition, weightedFrom]
    simp only [UInt32.lt_iff_toNat_lt]
    split
    · exact ⟨b, rfl, rfl⟩
    · next hge =>
      have hle : b.weight ≤ remainder := UInt32.le_iff_toNat_le.mpr (Nat.le_of_not_lt hge)
      have hsub := UInt32.toNat_sub_of_le _ _ hle
      have hsum : weightSum (b :: bs) = b.weight.toNat + weightSum bs := rfl
      obtain ⟨c, hget, hwalk⟩ := @ih (remainder - b.weight) (by omega)
      rw [hsub] at hget
      exact ⟨c, hget, hwalk⟩

/-- Each position belongs to as many remainders as its weight says. -/
theorem count_weightedPosition {backends : List Backend} {i : Nat} {b : Backend}
    (h : backends[i]? = some b) :
    Nat.count (fun remainder => weightedPosition remainder backends = i) (weightSum backends) =
      b.weight.toNat := by
  induction backends generalizing i with
  | nil => cases h
  | cons c bs ih =>
    have hsum : weightSum (c :: bs) = c.weight.toNat + weightSum bs := rfl
    have hrest : ∀ k, weightedPosition (c.weight.toNat + k) (c :: bs) =
        weightedPosition k bs + 1 := fun k => by
      rw [weightedPosition, if_neg (by omega), Nat.add_sub_cancel_left]
    have hfirst : ∀ k < c.weight.toNat, weightedPosition k (c :: bs) = 0 := fun k hk => by
      rw [weightedPosition, if_pos hk]
    rw [hsum, Nat.count_add]
    simp only [hrest]
    cases i with
    | zero =>
      obtain rfl := Option.some.inj h
      rw [Nat.count_of_forall hfirst, Nat.count_of_forall_not (by simp), Nat.add_zero]
    | succ i =>
      have hnone : ∀ k < c.weight.toNat, ¬ weightedPosition k (c :: bs) = i + 1 := fun k hk => by
        rw [hfirst k hk]
        exact Nat.zero_ne_add_one i
      rw [Nat.count_of_forall_not hnone, Nat.zero_add]
      simp only [Nat.add_right_cancel_iff]
      exact ih h

/-! ### Selections in a row -/

section selections
variable (backends : List Backend) (isMatch : Backend → Bool)

/-- The results of the next `n` selections. -/
def weightedSelections : Nat → UInt64 → List (Option Backend)
  | 0, _ => []
  | n + 1, index =>
      let selection := applyWeightedRoundRobin index backends isMatch
      selection.1 :: weightedSelections n selection.2

variable {backends isMatch}

theorem toNat_totalWeight (hsum : weightSum (backends.filter isMatch) < 2 ^ 32) :
    ((backends.filter isMatch).foldl (fun total b => total + b.weight) (0 : UInt32)).toNat =
      weightSum (backends.filter isMatch) := by
  have hfold : ∀ (bs : List Backend) (total : UInt32), total.toNat + weightSum bs < 2 ^ 32 →
      (bs.foldl (fun total b => total + b.weight) total).toNat = total.toNat + weightSum bs := by
    intro bs
    induction bs with
    | nil => exact fun total _ => rfl
    | cons b bs ih =>
      intro total hlt
      have hcons : weightSum (b :: bs) = b.weight.toNat + weightSum bs := rfl
      have hadd : (total + b.weight).toNat = total.toNat + b.weight.toNat := by
        rw [UInt32.toNat_add]
        exact Nat.mod_eq_of_lt (by omega)
      rw [List.foldl_cons, ih _ (by omega)]
      omega
  have hzero := hfold (backends.filter isMatch) 0 (by simpa using hsum)
  simpa using hzero

/-- A selection returns what the walk finds. -/
theorem applyWeightedRoundRobin_eq (hpos : 0 < weightSum (backends.filter isMatch))
    (hsum : weightSum (backends.filter isMatch) < 2 ^ 32) (index : UInt64) :
    ∃ b, weightedFrom (UInt32.ofNat (index.toNat % weightSum (backends.filter isMatch)))
          (backends.filter isMatch) = some b ∧
      (backends.filter isMatch)[weightedPosition
        (index.toNat % weightSum (backends.filter isMatch)) (backends.filter isMatch)]? = some b ∧
      applyWeightedRoundRobin index backends isMatch = (some b, index + 1) := by
  have htotal := toNat_totalWeight hsum
  have hlt := Nat.mod_lt index.toNat hpos
  have hremainder : (UInt32.ofNat (index.toNat % weightSum (backends.filter isMatch))).toNat =
      index.toNat % weightSum (backends.filter isMatch) :=
    UInt32.toNat_ofNat_of_lt' (hlt.trans hsum)
  obtain ⟨b, hget, hwalk⟩ := weightedFrom_eq (hremainder.symm ▸ hlt)
  rw [hremainder] at hget
  refine ⟨b, hwalk, hget, ?_⟩
  unfold applyWeightedRoundRobin
  simp only
  rw [if_neg, htotal, hwalk]
  · rfl
  · intro hzero
    rw [hzero] at htotal
    exact hpos.ne htotal

theorem weightedSelections_eq (hpos : 0 < weightSum (backends.filter isMatch))
    (hsum : weightSum (backends.filter isMatch) < 2 ^ 32) (n : Nat) (start : UInt64)
    (hstart : start.toNat + n ≤ 2 ^ 64) :
    weightedSelections backends isMatch n start =
      (List.range' start.toNat n).map fun index => (backends.filter isMatch)[weightedPosition
        (index % weightSum (backends.filter isMatch)) (backends.filter isMatch)]? := by
  induction n generalizing start with
  | zero => rfl
  | succ n ih =>
    obtain ⟨b, -, hget, heq⟩ := applyWeightedRoundRobin_eq hpos hsum start
    rw [weightedSelections, heq, List.range'_succ, List.map_cons, hget]
    simp only
    cases n with
    | zero => rfl
    | succ n =>
      have hnext : (start + 1).toNat = start.toNat + 1 := by
        rw [UInt64.toNat_add]
        exact Nat.mod_eq_of_lt (show start.toNat + 1 < 2 ^ 64 by omega)
      rw [ih (start + 1) (by omega), hnext]

end selections

/-- Of as many selections in a row as the weights sum up to, each position of the list of matching
    backends gets its weight, and none of them is the one behind the walk. -/
theorem weighted_shares (backends : List Backend) (isMatch : Backend → Bool) (start : UInt64)
    (hpos : 0 < weightSum (backends.filter isMatch))
    (hsum : weightSum (backends.filter isMatch) < 2 ^ 32)
    (hstart : start.toNat + weightSum (backends.filter isMatch) ≤ 2 ^ 64) :
    (∃ positions : List Nat,
      weightedSelections backends isMatch (weightSum (backends.filter isMatch)) start =
        positions.map (fun i => (backends.filter isMatch)[i]?) ∧
      ∀ i b, (backends.filter isMatch)[i]? = some b → positions.count i = b.weight.toNat) ∧
    ∀ index : UInt64, ∃ b,
      weightedFrom (UInt32.ofNat (index.toNat % weightSum (backends.filter isMatch)))
        (backends.filter isMatch) = some b ∧
      (applyWeightedRoundRobin index backends isMatch).1 = some b := by
  refine ⟨⟨(List.range' start.toNat (weightSum (backends.filter isMatch))).map fun index =>
    weightedPosition (index % weightSum (backends.filter isMatch)) (backends.filter isMatch),
    ?_, ?_⟩, ?_⟩
  · rw [weightedSelections_eq hpos hsum _ start hstart, List.map_map]
    rfl
  · intro i b hb
    have hperiodic : Function.Periodic (fun index => weightedPosition
        (index % weightSum (backends.filter isMatch)) (backends.filter isMatch) = i)
        (weightSum (backends.filter isMatch)) := fun index => by
      simp only [Nat.add_mod_right]
    have hmod : Nat.count (fun index => weightedPosition
          (index % weightSum (backends.filter isMatch)) (backends.filter isMatch) = i)
          (weightSum (backends.filter isMatch)) =
        Nat.count (fun remainder => weightedPosition remainder (backends.filter isMatch) = i)
          (weightSum (backends.filter isMatch)) := by
      unfold Nat.count
      refine List.countP_congr fun index hindex => ?_
      simp only [Nat.mod_eq_of_lt (List.mem_range.mp hindex)]
    have hcount := countP_window hperiodic start.toNat
    rw [hmod, count_weightedPosition hb] at hcount
    rw [List.count_eq_countP, List.countP_map, ← hcount]
    exact List.countP_congr fun index _ => by simp
  · intro index
    obtain ⟨b, hwalk, -, heq⟩ := applyWeightedRoundRobin_eq hpos hsum index
    exact ⟨b, hwalk, by rw [heq]⟩

/-- A backend of weight two, one of weight zero, one that is down and one of weight one. -/
def fourBackends : List Backend :=
  [{ url := ['a'], weight := 2 }, { url := ['b'], weight := 0 },
    { url := ['c'], weight := 5, isHealthy := false }, { url := ['d'] }]

theorem fourBackends_shares :
    weightSum (fourBackends.filter Backend.isAvailable) = 3 ∧
      ∃ positions : List Nat,
        weightedSelections fourBackends Backend.isAvailable
            (weightSum (fourBackends.filter Backend.isAvailable)) 5 =
          positions.map (fun i => (fourBackends.filter Backend.isAvailable)[i]?) ∧
        positions.count 0 = 2 ∧ positions.count 1 = 0 ∧ positions.count 2 = 1 := by
  obtain ⟨positions, heq, hshares⟩ :=
    (weighted_shares fourBackends Backend.isAvailable 5 (by decide) (by decide) (by decide)).1
  exact ⟨by decide, positions, heq, hshares 0 _ rfl, hshares 1 _ rfl, hshares 2 _ rfl⟩

end Synvoid.Upstream
