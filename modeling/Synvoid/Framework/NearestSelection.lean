import Mathlib.Data.List.Induction
import Mathlib.Data.List.Perm.Subperm
import Mathlib.Data.List.Sort
import Mathlib.Order.MinMax

/-! # The nearest elements of a walk

    Elements are offered one after the other to a list of at most `k`
    candidates. While there is room an element is taken. After that it is taken
    only if it is nearer than the farthest candidate, and then all candidates
    at that distance are dropped. At the end the candidates are sorted by
    distance (`selectNearest`).

    An element may be met more than once. As long as nothing nearer comes
    behind the second time, what is selected is the start of the sorted walk
    (`selectNearest_eq_take`). If one element is met again and again, these are
    the nearest elements just when there is no room for its second copy
    (`isNearest_repeated_iff`).

    A list that is sorted and cut after each offer has the nearest of all
    elements offered (`IsNearest.offer_more`).
-/

namespace Synvoid.Framework

universe u v

variable {α : Type u} {κ : Type v} [LinearOrder κ] (dist : α → κ) (top : κ)

/-! ## Section 1: Selection -/

/-- One element is offered. Without candidates, the farthest distance is
    `top`. -/
def offerNearest (k : Nat) (candidates : List α) (x : α) : List α :=
  if candidates.length < k then candidates ++ [x]
  else
    let maxDist := (candidates.map dist).max?.getD top
    if dist x < maxDist then candidates.filter (fun y => dist y ≠ maxDist) ++ [x]
    else candidates

def selectCandidates (k : Nat) (walk : List α) : List α :=
  walk.foldl (offerNearest dist top k) []

/-- A stable sort by distance. -/
def sortByDist (l : List α) : List α := l.mergeSort fun a b => dist a ≤ dist b

def selectNearest (k : Nat) (walk : List α) : List α :=
  (sortByDist dist (selectCandidates dist top k walk)).take k

/-- The number of elements that are nearer than a given one. -/
def rank (l : List α) (x : α) : Nat := l.countP fun y => dist y < dist x

/-- The nearest elements of `l`: as many as there are, up to `k`, each once,
    and all others are farther away. -/
structure IsNearest (k : Nat) (l result : List α) : Prop where
  nodup : result.Nodup
  length_eq : result.length = min k l.length
  subset : ∀ x ∈ result, x ∈ l
  nearer : ∀ x ∈ result, ∀ y ∈ l, y ∉ result → dist x < dist y

/-- Only copies of one element are at the same distance. -/
def DistInj (l : List α) : Prop := ∀ x ∈ l, ∀ y ∈ l, dist x = dist y → x = y

/-- When an element is offered, those farther away have been met just once. -/
def FarMetOnce (walk : List α) : Prop :=
  ∀ pre x, pre ++ [x] <+: walk → ∀ y ∈ pre, dist x < dist y →
    pre.countP (fun w => dist w = dist y) ≤ 1

/-! ## Section 2: Sorted lists -/

variable {dist}

omit [LinearOrder κ] in
theorem distInj_of_nodup {l : List α} (h : (l.map dist).Nodup) : DistInj dist l :=
  fun _ hx _ hy => List.inj_on_of_nodup_map h hx hy

omit [LinearOrder κ] in
theorem DistInj.mono {l l' : List α} (h : DistInj dist l) (hsub : ∀ x ∈ l', x ∈ l) :
    DistInj dist l' :=
  fun x hx y hy => h x (hsub x hx) y (hsub y hy)

variable (dist) in
theorem sortByDist_perm (l : List α) : (sortByDist dist l).Perm l := List.mergeSort_perm l _

variable (dist) in
theorem pairwise_sortByDist (l : List α) :
    (sortByDist dist l).Pairwise fun a b => dist a ≤ dist b := by
  have hsorted : (sortByDist dist l).Pairwise fun a b => decide (dist a ≤ dist b) = true := by
    apply List.pairwise_mergeSort
    · intro a b c
      simpa using le_trans
    · intro a b
      simpa using le_total _ _
  exact hsorted.imp (by simp)

/-- There is one sorted order. -/
theorem eq_sortByDist {l l' : List α} (hinj : DistInj dist l) (hperm : l'.Perm l)
    (hsorted : l'.Pairwise fun a b => dist a ≤ dist b) : l' = sortByDist dist l := by
  refine List.Perm.eq_of_pairwise ?_ hsorted (pairwise_sortByDist dist l)
    (hperm.trans (sortByDist_perm dist l).symm)
  intro a b ha hb hab hba
  exact hinj a (hperm.mem_iff.mp ha) b ((sortByDist_perm dist l).mem_iff.mp hb)
    (le_antisymm hab hba)

theorem sortByDist_congr {l l' : List α} (hinj : DistInj dist l) (hperm : l'.Perm l) :
    sortByDist dist l' = sortByDist dist l :=
  eq_sortByDist hinj ((sortByDist_perm dist l').trans hperm) (pairwise_sortByDist dist l')

/-- A sorted list is split at a distance. -/
theorem exists_split {l : List α} (hsorted : l.Pairwise fun a b => dist a ≤ dist b) (d : κ) :
    ∃ near far, l = near ++ far ∧ (∀ y ∈ near, dist y ≤ d) ∧ ∀ y ∈ far, d < dist y := by
  induction l with
  | nil => exact ⟨[], [], rfl, by simp, by simp⟩
  | cons a l ih =>
    rw [List.pairwise_cons] at hsorted
    by_cases ha : dist a ≤ d
    · obtain ⟨near, far, rfl, hnear, hfar⟩ := ih hsorted.2
      exact ⟨a :: near, far, rfl, List.forall_mem_cons.mpr ⟨ha, hnear⟩, hfar⟩
    · have hlt : d < dist a := not_le.mp ha
      refine ⟨[], a :: l, rfl, by simp, List.forall_mem_cons.mpr ⟨hlt, ?_⟩⟩
      intro y hy
      exact hlt.trans_le (hsorted.1 y hy)

/-- A further element stands behind what is not farther. -/
theorem sortByDist_snoc {l : List α} {x : α} (hinj : DistInj dist (l ++ [x])) :
    ∃ near far, sortByDist dist l = near ++ far ∧
      sortByDist dist (l ++ [x]) = near ++ x :: far ∧
      (∀ y ∈ near, dist y ≤ dist x) ∧ ∀ y ∈ far, dist x < dist y := by
  have hsorted := pairwise_sortByDist dist l
  obtain ⟨near, far, hsplit, hnear, hfar⟩ := exists_split hsorted (dist x)
  refine ⟨near, far, hsplit, (eq_sortByDist hinj ?_ ?_).symm, hnear, hfar⟩
  · refine List.perm_middle.trans ?_
    rw [← hsplit]
    exact ((sortByDist_perm dist l).cons x).trans (List.perm_append_singleton x l).symm
  · rw [hsplit, List.pairwise_append] at hsorted
    rw [List.pairwise_append, List.pairwise_cons]
    refine ⟨hsorted.1, ⟨fun y hy => (hfar y hy).le, hsorted.2.1⟩, ?_⟩
    intro a ha b hb
    rcases List.mem_cons.mp hb with rfl | hb
    · exact hnear a ha
    · exact hsorted.2.2 a ha b hb

/-! ## Section 3: Offers -/

/-- The farthest candidate is the last one of the sorted list. -/
theorem max?_map_eq {candidates init : List α} {z : α}
    (hperm : candidates.Perm (init ++ [z]))
    (hsorted : (init ++ [z]).Pairwise fun a b => dist a ≤ dist b) :
    (candidates.map dist).max?.getD top = dist z := by
  have hmax : (candidates.map dist).max? = some (dist z) := by
    rw [List.max?_eq_some_iff]
    constructor
    · exact List.mem_map_of_mem (hperm.mem_iff.mpr (by simp))
    · intro d hd
      obtain ⟨y, hy, rfl⟩ := List.mem_map.mp hd
      rw [hperm.mem_iff, List.mem_append, List.mem_singleton] at hy
      rcases hy with hy | rfl
      · rw [List.pairwise_append] at hsorted
        exact hsorted.2.2 y hy z (by simp)
      · exact le_rfl
  rw [hmax]
  rfl

/-- If no other is at its distance, only the farthest candidate is dropped. -/
theorem filter_ne_last_perm {candidates init : List α} {z : α}
    (hperm : candidates.Perm (init ++ [z])) (hother : ∀ y ∈ init, dist y ≠ dist z) :
    (candidates.filter fun y => dist y ≠ dist z).Perm init := by
  have hfilter : (init ++ [z]).filter (fun y => dist y ≠ dist z) = init := by
    rw [List.filter_append, List.filter_eq_self.mpr (by simpa using hother)]
    simp
  have hkept := hperm.filter fun y => dist y ≠ dist z
  rwa [hfilter] at hkept

/-- What the walk has met once stands alone at its distance when it is sorted. -/
theorem dist_ne_of_once {walk sorted init : List α} {z : α} (hperm : sorted.Perm walk)
    (hsub : (init ++ [z]).Sublist sorted) (honce : walk.countP (fun w => dist w = dist z) ≤ 1) :
    ∀ y ∈ init, dist y ≠ dist z := by
  intro y hy heq
  have hle := hsub.countP_le (p := fun w => dist w = dist z)
  rw [hperm.countP_eq, List.countP_append, List.countP_singleton] at hle
  have hpos : 0 < init.countP fun w => dist w = dist z :=
    List.countP_pos_iff.mpr ⟨y, hy, by simpa using heq⟩
  simp only [decide_true, if_true] at hle
  omega

/-- One offer keeps the candidates the start of the sorted walk. -/
theorem offerNearest_perm {k : Nat} (hk : 0 < k) {walk candidates : List α} {x : α}
    (honce : ∀ y ∈ walk, dist x < dist y → walk.countP (fun w => dist w = dist y) ≤ 1)
    (hinj : DistInj dist (walk ++ [x]))
    (hperm : candidates.Perm ((sortByDist dist walk).take k)) :
    (offerNearest dist top k candidates x).Perm ((sortByDist dist (walk ++ [x])).take k) := by
  have hlength := hperm.length_eq
  rw [List.length_take] at hlength
  unfold offerNearest
  by_cases hroom : candidates.length < k
  · -- all of the walk is there
    have hall : (sortByDist dist walk).length ≤ k := by omega
    rw [if_pos hroom, List.take_of_length_le]
    · rw [List.take_of_length_le hall] at hperm
      exact ((hperm.trans (sortByDist_perm dist walk)).append_right [x]).trans
        (sortByDist_perm dist _).symm
    · rw [(sortByDist_perm dist _).length_eq, List.length_append, List.length_singleton,
        ← (sortByDist_perm dist walk).length_eq]
      omega
  · obtain ⟨near, far, hsplit, hsnoc, hnear, hfar⟩ := sortByDist_snoc hinj
    have hsorted := (pairwise_sortByDist dist walk).sublist (List.take_sublist k _)
    have hsub := List.take_sublist k (sortByDist dist walk)
    have hwalk := sortByDist_perm dist walk
    rw [hsplit] at hperm hsorted hsub hwalk hlength
    rw [if_neg hroom, hsnoc]
    rcases Nat.lt_or_ge near.length k with hfew | hmany
    · -- the farthest candidate is farther than the new element, and gives way
      obtain ⟨n, rfl⟩ : ∃ n, k = near.length + (n + 1) := ⟨k - near.length - 1, by omega⟩
      have hn : n < far.length := by
        rw [List.length_append] at hlength
        omega
      rw [List.take_length_add_append, List.take_succ_eq_append_getElem hn,
        ← List.append_assoc] at hperm hsorted hsub
      have hz : dist x < dist far[n] := hfar _ (List.getElem_mem hn)
      have hother := dist_ne_of_once hwalk hsub (honce far[n] (hwalk.mem_iff.mp (by simp)) hz)
      rw [max?_map_eq top hperm hsorted, if_pos hz,
        List.take_length_add_append, List.take_succ_cons]
      refine ((filter_ne_last_perm hperm hother).append_right [x]).trans ?_
      rw [List.append_assoc]
      exact (List.perm_append_singleton x _).append_left near
    · obtain ⟨n, rfl⟩ : ∃ n, k = n + 1 := ⟨k - 1, by omega⟩
      rw [List.take_append_of_le_length hmany] at hperm hsorted ⊢
      have hlast := List.take_succ_eq_append_getElem (l := near) (by omega : n < near.length)
      rw [hlast] at hperm hsorted ⊢
      rw [max?_map_eq top hperm hsorted, if_neg]
      · exact hperm
      · exact not_lt.mpr (hnear _ (List.getElem_mem _))

theorem selectCandidates_snoc (k : Nat) (walk : List α) (x : α) :
    selectCandidates dist top k (walk ++ [x]) =
      offerNearest dist top k (selectCandidates dist top k walk) x := by
  simp [selectCandidates]

/-- The candidates are the start of the sorted walk. -/
theorem selectCandidates_perm {k : Nat} (hk : 0 < k) {walk : List α}
    (honce : FarMetOnce dist walk) (hinj : DistInj dist walk) :
    (selectCandidates dist top k walk).Perm ((sortByDist dist walk).take k) := by
  induction walk using List.reverseRecOn with
  | nil =>
    have hnil : sortByDist dist ([] : List α) = [] := (sortByDist_perm dist []).eq_nil
    simp [selectCandidates, hnil]
  | append_singleton walk x ih =>
    rw [selectCandidates_snoc]
    apply offerNearest_perm top hk (honce walk x List.prefix_rfl) hinj
    apply ih
    · intro pre y hstart
      exact honce pre y (hstart.trans (List.prefix_append walk [x]))
    · exact hinj.mono fun y hy => List.mem_append_left _ hy

/-- What is selected is the start of the sorted walk. -/
theorem selectNearest_eq_take (k : Nat) {walk : List α} (honce : FarMetOnce dist walk)
    (hinj : DistInj dist walk) :
    selectNearest dist top k walk = (sortByDist dist walk).take k := by
  unfold selectNearest
  rcases Nat.eq_zero_or_pos k with rfl | hk
  · simp
  · have hperm := selectCandidates_perm top hk honce hinj
    have hsort : (sortByDist dist walk).take k =
        sortByDist dist (selectCandidates dist top k walk) := by
      refine eq_sortByDist (hinj.mono ?_) hperm.symm
        ((pairwise_sortByDist dist walk).sublist (List.take_sublist k _))
      intro y hy
      exact (sortByDist_perm dist walk).mem_iff.mp (List.mem_of_mem_take (hperm.mem_iff.mp hy))
    rw [← hsort, List.take_take, Nat.min_self]

theorem countP_dist_le_one {l : List α} (hdistinct : (l.map dist).Nodup) (y : α) :
    l.countP (fun w => dist w = dist y) ≤ 1 := by
  have hcount := List.nodup_iff_count_le_one.mp hdistinct (dist y)
  rw [List.count_eq_countP, List.countP_map] at hcount
  refine le_trans (List.countP_mono_left ?_) hcount
  intro w _ hw
  simpa using hw

theorem farMetOnce_of_nodup {walk : List α} (hdistinct : (walk.map dist).Nodup) :
    FarMetOnce dist walk := by
  intro pre x hstart y hy hlt
  have hpre : pre.Sublist walk := (List.prefix_append pre [x]).sublist.trans hstart.sublist
  exact countP_dist_le_one (hdistinct.sublist (hpre.map dist)) y

/-- A walk without repetition that goes on with one element `c` and elements
    farther away, of which only `c` may come again. -/
theorem farMetOnce_append {c : α} {early late : List α} (hearly : (early.map dist).Nodup)
    (hlate : ∀ x ∈ late, dist c ≤ dist x)
    (honce : ∀ y, dist y ≠ dist c → (early ++ late).countP (fun w => dist w = dist y) ≤ 1) :
    FarMetOnce dist (early ++ late) := by
  intro pre x hstart y hy hlt
  obtain ⟨post, hsplit⟩ := hstart
  have hpre : pre.Sublist (early ++ late) := by
    rw [← hsplit, List.append_assoc]
    exact List.sublist_append_left pre _
  by_cases hc : dist y = dist c
  · -- then nothing nearer than `c` comes late
    have hxearly : (pre ++ [x]).Sublist early := by
      rcases List.append_eq_append_iff.mp hsplit with ⟨rest, hrest, -⟩ | ⟨rest, hrest, hlast⟩
      · rw [hrest]
        exact List.sublist_append_left _ _
      · rcases List.eq_nil_or_concat rest with rfl | ⟨rest', z, rfl⟩
        · rw [hrest, List.append_nil]
        · rw [List.concat_eq_append, ← List.append_assoc] at hrest
          obtain ⟨-, hlastEq⟩ := List.append_inj' hrest rfl
          obtain rfl : x = z := by simpa using hlastEq
          exact absurd (hlate x (by simp [hlast])) (by rw [← hc]; exact not_le.mpr hlt)
    have hsub := (List.sublist_append_left pre [x]).trans hxearly
    exact countP_dist_le_one (hearly.sublist (hsub.map dist)) y
  · exact (hpre.countP_le).trans (honce y hc)

/-! ## Section 4: The nearest elements -/

theorem IsNearest.perm {k : Nat} {l l' result : List α} (h : IsNearest dist k l result)
    (hperm : l.Perm l') : IsNearest dist k l' result where
  nodup := h.nodup
  length_eq := by rw [h.length_eq, hperm.length_eq]
  subset := fun x hx => hperm.mem_iff.mp (h.subset x hx)
  nearer := fun x hx y hy => h.nearer x hx y (hperm.mem_iff.mpr hy)

theorem isNearest_congr {k : Nat} {l l' result : List α} (hperm : l.Perm l') :
    IsNearest dist k l result ↔ IsNearest dist k l' result :=
  ⟨fun h => h.perm hperm, fun h => h.perm hperm.symm⟩

section distinct

variable {l : List α} (hdistinct : (l.map dist).Nodup)

include hdistinct

/-- Without equal distances the order is strict. -/
theorem pairwise_lt_sortByDist : (sortByDist dist l).Pairwise fun a b => dist a < dist b := by
  have hne : (sortByDist dist l).Pairwise fun a b => dist a ≠ dist b := by
    rw [← List.pairwise_map (f := dist) (R := fun d d' => d ≠ d')]
    exact ((sortByDist_perm dist l).map dist).nodup_iff.mpr hdistinct
  exact (pairwise_sortByDist dist l).imp₂ (fun _ _ => lt_of_le_of_ne) hne

theorem isNearest_take_sortByDist (k : Nat) : IsNearest dist k l ((sortByDist dist l).take k) where
  nodup := ((sortByDist_perm dist l).nodup_iff.mpr hdistinct.of_map).sublist (List.take_sublist _ _)
  length_eq := by rw [List.length_take, (sortByDist_perm dist l).length_eq]
  subset := fun x hx => (sortByDist_perm dist l).mem_iff.mp (List.mem_of_mem_take hx)
  nearer := by
    intro x hx y hy hnot
    have hsorted := pairwise_lt_sortByDist hdistinct
    have hmem : y ∈ sortByDist dist l := (sortByDist_perm dist l).mem_iff.mpr hy
    rw [← List.take_append_drop k (sortByDist dist l)] at hsorted hmem
    rw [List.pairwise_append] at hsorted
    exact hsorted.2.2 x hx y ((List.mem_append.mp hmem).resolve_left hnot)

end distinct

/-- Of as many elements, one is missing if another is there. -/
theorem exists_missing {result before : List α} {x : α} (hnodup : before.Nodup)
    (hlength : result.length ≤ before.length) (hx : x ∈ result) (hnew : x ∉ before) :
    ∃ c ∈ before, c ∉ result := by
  by_contra hall
  have hsub : x :: before ⊆ result := by
    intro c hc
    rcases List.mem_cons.mp hc with rfl | hc
    · exact hx
    · by_contra hnot
      exact hall ⟨c, hc, hnot⟩
  have hle := ((List.nodup_cons.mpr ⟨hnew, hnodup⟩).subperm hsub).length_le
  rw [List.length_cons] at hle
  omega

/-- **What was dropped is not missed.** The nearest of the elements kept so far
    and of new ones are the nearest of all that have ever been offered. An
    element that comes again after it was dropped does not get in. -/
theorem IsNearest.offer_more {k : Nat} {l nearest more : List α} (h : IsNearest dist k l nearest)
    (hdistinct : ((nearest ++ more).map dist).Nodup) :
    IsNearest dist k (l ++ more.filter fun y => dist y ∉ l.map dist)
      ((sortByDist dist (nearest ++ more)).take k) := by
  have hresult := isNearest_take_sortByDist hdistinct k
  generalize (sortByDist dist (nearest ++ more)).take k = result at hresult
  have hapart : ∀ x ∈ nearest, ∀ y ∈ more, dist x ≠ dist y := by
    rw [List.map_append, List.nodup_append] at hdistinct
    intro x hx y hy
    exact hdistinct.2.2 _ (List.mem_map_of_mem hx) _ (List.mem_map_of_mem hy)
  have hlength := h.length_eq
  rcases Nat.le_total l.length k with hfew | hmany
  · -- nothing has been dropped
    have hall : nearest.Perm l :=
      (h.nodup.subperm h.subset).perm_of_length_le (by omega)
    have hnew : (more.filter fun y => dist y ∉ l.map dist) = more := by
      rw [List.filter_eq_self]
      intro y hy
      have hnot : dist y ∉ l.map dist := by
        intro hmem
        obtain ⟨x, hx, heq⟩ := List.mem_map.mp hmem
        exact hapart x (hall.mem_iff.mpr hx) y hy heq
      simpa using hnot
    rw [hnew]
    exact hresult.perm (hall.append_right more)
  · have hk : nearest.length = k := by omega
    have hresultLength : result.length = k := by
      rw [hresult.length_eq, List.length_append]
      omega
    -- a new element takes the place of one that was nearest before
    have hplace : ∀ x ∈ result, x ∈ more → ∃ c ∈ nearest, dist x < dist c := by
      intro x hx hmore
      have hnew : x ∉ nearest := fun hmem => hapart x hmem x hmore rfl
      obtain ⟨c, hc, hout⟩ := exists_missing h.nodup (by omega) hx hnew
      exact ⟨c, hc, hresult.nearer x hx c (List.mem_append_left more hc) hout⟩
    refine ⟨hresult.nodup, ?_, ?_, ?_⟩
    · rw [List.length_append, hresultLength]
      omega
    · intro x hx
      rcases List.mem_append.mp (hresult.subset x hx) with hold | hmore
      · exact List.mem_append_left _ (h.subset x hold)
      · refine List.mem_append_right _ (List.mem_filter.mpr ⟨hmore, ?_⟩)
        have hfresh : dist x ∉ l.map dist := by
          intro hmem
          -- it was dropped before, so all that are kept are nearer
          obtain ⟨z, hz, heq⟩ := List.mem_map.mp hmem
          obtain ⟨c, hc, hlt⟩ := hplace x hx hmore
          have hdropped : z ∉ nearest := fun hz' => hapart z hz' x hmore heq
          have hcz := h.nearer c hc z hz hdropped
          rw [heq] at hcz
          exact lt_asymm hlt hcz
        simpa using hfresh
    · intro x hx y hy hnot
      rcases List.mem_append.mp hy with hold | hmore
      · by_cases hkept : y ∈ nearest
        · exact hresult.nearer x hx y (List.mem_append_left more hkept) hnot
        · rcases List.mem_append.mp (hresult.subset x hx) with hx' | hx'
          · exact h.nearer x hx' y hold hkept
          · obtain ⟨c, hc, hlt⟩ := hplace x hx hx'
            exact hlt.trans (h.nearer c hc y hold hkept)
      · exact hresult.nearer x hx y
          (List.mem_append_right nearest (List.mem_of_mem_filter hmore)) hnot

section repeated

variable {c : α} {others : List α} (hdistinct : ((c :: others).map dist).Nodup)

include hdistinct

/-- The sorted list with one copy of an element and with more, where as many
    elements stand before it as are nearer. -/
theorem sortByDist_repeated (n : Nat) : ∃ pre post, pre.length = rank dist others c ∧
    sortByDist dist (c :: others) = pre ++ c :: post ∧
    sortByDist dist (List.replicate n c ++ others) = pre ++ (List.replicate n c ++ post) := by
  have hmem : c ∈ sortByDist dist (c :: others) := (sortByDist_perm dist _).mem_iff.mpr (by simp)
  obtain ⟨pre, post, hsplit⟩ := List.append_of_mem hmem
  have hsorted := pairwise_lt_sortByDist hdistinct
  have hperm := sortByDist_perm dist (c :: others)
  rw [hsplit] at hsorted hperm
  have hothers : (pre ++ post).Perm others := (List.perm_middle.symm.trans hperm).cons_inv
  rw [List.pairwise_append, List.pairwise_cons] at hsorted
  obtain ⟨hpre, ⟨hcpost, hpost⟩, hcross⟩ := hsorted
  refine ⟨pre, post, ?_, hsplit, (eq_sortByDist ?_ ?_ ?_).symm⟩
  · have hbefore : pre.countP (fun y => dist y < dist c) = pre.length := by
      rw [List.countP_eq_length]
      intro y hy
      simpa using hcross y hy c (by simp)
    have hbehind : post.countP (fun y => dist y < dist c) = 0 := by
      rw [List.countP_eq_zero]
      intro y hy
      simpa using (hcpost y hy).le
    unfold rank
    rw [← hothers.countP_eq, List.countP_append, hbefore, hbehind, Nat.add_zero]
  · apply (distInj_of_nodup hdistinct).mono
    intro y hy
    rcases List.mem_append.mp hy with hy | hy
    · rw [List.eq_of_mem_replicate hy]
      exact List.mem_cons_self
    · exact List.mem_cons_of_mem _ hy
  · exact (List.perm_append_comm_assoc _ _ _).trans (hothers.append_left _)
  · rw [List.pairwise_append, List.pairwise_append]
    refine ⟨hpre.imp le_of_lt, ⟨?_, hpost.imp le_of_lt, ?_⟩, ?_⟩
    · rw [List.pairwise_replicate]
      exact Or.inr le_rfl
    · intro a ha b hb
      rw [List.eq_of_mem_replicate ha]
      exact (hcpost b hb).le
    · intro a ha b hb
      rcases List.mem_append.mp hb with hb | hb
      · rw [List.eq_of_mem_replicate hb]
        exact (hcross a ha c (by simp)).le
      · exact (hcross a ha b (List.mem_cons_of_mem _ hb)).le

/-- The start of the list in which an element stands more than once has the
    nearest elements just when the second copy does not belong to it. -/
theorem isNearest_repeated_iff (n k : Nat) :
    IsNearest dist k (c :: others)
        ((sortByDist dist (List.replicate (n + 2) c ++ others)).take k) ↔
      k ≤ rank dist others c + 1 := by
  obtain ⟨pre, post, hrank, honce, hmore⟩ := sortByDist_repeated hdistinct (n + 2)
  have hcopies : List.replicate (n + 2) c ++ post = c :: c :: (List.replicate n c ++ post) := by
    simp [List.replicate_succ]
  rw [hcopies] at hmore
  rw [hmore]
  constructor
  · intro hnearest
    by_contra hlt
    have hnodup := hnearest.nodup
    obtain ⟨m, rfl⟩ : ∃ m, k = pre.length + (m + 2) := ⟨k - pre.length - 2, by omega⟩
    rw [List.take_length_add_append, List.take_succ_cons, List.take_succ_cons, List.nodup_append,
      List.nodup_cons] at hnodup
    exact hnodup.2.1.1 List.mem_cons_self
  · intro hk
    have hsame : (pre ++ c :: c :: (List.replicate n c ++ post)).take k =
        (sortByDist dist (c :: others)).take k := by
      have hlength : k ≤ (pre ++ [c]).length := by
        rw [List.length_append, List.length_singleton]
        omega
      rw [honce, List.append_cons pre c post, List.append_cons pre c (c :: _),
        List.take_append_of_le_length hlength, List.take_append_of_le_length hlength]
    rw [hsame]
    exact isNearest_take_sortByDist hdistinct k

end repeated

end Synvoid.Framework
