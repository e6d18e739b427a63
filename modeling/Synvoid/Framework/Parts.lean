import Mathlib.Data.List.DropRight
import Mathlib.Data.List.Infix

/-! # Parts between separators

    A list is split at the elements that equal a separator. It is `Tidy` if no
    part is bad and none between two separators is empty. Whether two lists
    with a separator between them are tidy is decided on each of them
    (`tidy_append_cons`), with the empty part at its end allowed or not.
-/

namespace Synvoid.Framework

variable {α : Type*} [BEq α] [LawfulBEq α] {sep c : α} {x y : List α}

/-! ## Section 1: Splitting -/

theorem splitOn_append_of_notMem (h : sep ∉ x) (y : List α) :
    (x ++ y).splitOn sep = (y.splitOn sep).modifyHead (x ++ ·) := by
  induction x with
  | nil =>
    cases hparts : y.splitOn sep with
    | nil => exact absurd hparts (List.splitOn_ne_nil _ _)
    | cons part parts => simp [hparts]
  | cons c x ih =>
    obtain ⟨hc, hx⟩ := not_or.mp (List.mem_cons.not.mp h)
    rw [List.cons_append, List.splitOn_cons_eq_if_modifyHead, ih hx, if_neg (by simp [Ne.symm hc])]
    cases y.splitOn sep <;> rfl

omit [LawfulBEq α] in
theorem mem_of_mem_splitOn {part : List α} (hpart : part ∈ x.splitOn sep) (hc : c ∈ part) :
    c ∈ x := by
  induction x generalizing part with
  | nil =>
    rw [List.splitOn_nil, List.mem_singleton] at hpart
    rwa [hpart] at hc
  | cons d x ih =>
    rw [List.splitOn_cons_eq_if_modifyHead] at hpart
    split at hpart
    · rcases List.mem_cons.mp hpart with rfl | hpart
      · cases hc
      · exact List.mem_cons_of_mem _ (ih hpart hc)
    · cases hparts : x.splitOn sep with
      | nil => exact absurd hparts (List.splitOn_ne_nil _ _)
      | cons first parts =>
        rw [hparts, List.modifyHead_cons] at hpart
        rw [hparts] at ih
        rcases List.mem_cons.mp hpart with rfl | hpart
        · rcases List.mem_cons.mp hc with rfl | hc
          · exact List.mem_cons_self
          · exact List.mem_cons_of_mem _ (ih List.mem_cons_self hc)
        · exact List.mem_cons_of_mem _ (ih (List.mem_cons_of_mem _ hpart) hc)

theorem splitOn_map {β : Type*} [BEq β] [LawfulBEq β] {f : α → β} (hf : Function.Injective f)
    (sep : α) (x : List α) :
    (x.map f).splitOn (f sep) = (x.splitOn sep).map (List.map f) := by
  induction x with
  | nil => rw [List.map_nil, List.splitOn_nil, List.splitOn_nil, List.map_singleton, List.map_nil]
  | cons c x ih =>
    rw [List.map_cons, List.splitOn_cons_eq_if_modifyHead, List.splitOn_cons_eq_if_modifyHead, ih]
    by_cases hc : c = sep
    · simp [hc]
    · rw [if_neg (by simpa using fun h => hc (hf h)), if_neg (by simpa using hc)]
      cases x.splitOn sep <;> rfl

omit [BEq α] [LawfulBEq α] in
/-- A list with a separator, split at the last one. -/
theorem exists_last_of_mem (h : sep ∈ x) : ∃ a b, x = a ++ sep :: b ∧ sep ∉ b := by
  obtain ⟨a, b, heq, hnot⟩ := List.eq_append_cons_of_mem (List.mem_reverse.mpr h)
  refine ⟨b.reverse, a.reverse, ?_, by simpa using hnot⟩
  rw [← List.reverse_inj, heq]
  simp

/-! ## Section 2: Tidy lists -/

section Tidy

variable {bad : List α → Prop}

def Tidy (sep : α) (bad : List α → Prop) (x : List α) : Prop :=
  (∀ part ∈ x.splitOn sep, ¬ bad part) ∧ [] ∉ (x.splitOn sep).tail.dropLast

/-- Tidy with a separator behind it. -/
def TidyBefore (sep : α) (bad : List α → Prop) (x : List α) : Prop :=
  (∀ part ∈ x.splitOn sep, ¬ bad part) ∧ [] ∉ (x.splitOn sep).tail

/-- Tidy with a separator in front of it. -/
def TidyBehind (sep : α) (bad : List α → Prop) (x : List α) : Prop :=
  (∀ part ∈ x.splitOn sep, ¬ bad part) ∧ [] ∉ (x.splitOn sep).dropLast

theorem tidy_append_cons :
    Tidy sep bad (x ++ sep :: y) ↔ TidyBefore sep bad x ∧ TidyBehind sep bad y := by
  unfold Tidy TidyBefore TidyBehind
  rw [List.splitOn_append_cons_self, List.tail_append_of_ne_nil (List.splitOn_ne_nil _ _),
    List.dropLast_append_of_ne_nil (List.splitOn_ne_nil _ _), List.mem_append]
  simp only [List.mem_append, or_imp, forall_and, not_or]
  tauto

omit [LawfulBEq α] in
theorem TidyBefore.tidy (h : TidyBefore sep bad x) : Tidy sep bad x :=
  ⟨h.1, fun hmem => h.2 (List.mem_of_mem_dropLast hmem)⟩

omit [LawfulBEq α] in
theorem tidyBefore_nil (hempty : ¬ bad []) : TidyBefore sep bad ([] : List α) := by
  unfold TidyBefore
  rw [List.splitOn_nil]
  exact ⟨by simpa using hempty, by simp⟩

omit [LawfulBEq α] in
theorem tidyBehind_nil (hempty : ¬ bad []) : TidyBehind sep bad ([] : List α) := by
  unfold TidyBehind
  rw [List.splitOn_nil]
  exact ⟨by simpa using hempty, by simp⟩

theorem tidyBefore_of_notMem (h : sep ∉ x) : TidyBefore sep bad x ↔ ¬ bad x := by
  unfold TidyBefore
  rw [List.splitOn_eq_singleton h]
  simp

theorem tidyBehind_of_notMem (h : sep ∉ x) : TidyBehind sep bad x ↔ ¬ bad x := by
  unfold TidyBehind
  rw [List.splitOn_eq_singleton h]
  simp

theorem tidyBehind_append_cons_iff :
    TidyBehind sep bad (x ++ sep :: y) ↔
      ((∀ part ∈ x.splitOn sep, ¬ bad part) ∧ [] ∉ x.splitOn sep) ∧ TidyBehind sep bad y := by
  unfold TidyBehind
  rw [List.splitOn_append_cons_self, List.dropLast_append_of_ne_nil (List.splitOn_ne_nil _ _)]
  simp only [List.mem_append, or_imp, forall_and, not_or]
  tauto

theorem tidyBehind_append_cons (h : sep ∉ x) :
    TidyBehind sep bad (x ++ sep :: y) ↔ (¬ bad x ∧ x ≠ []) ∧ TidyBehind sep bad y := by
  rw [tidyBehind_append_cons_iff, List.splitOn_eq_singleton h]
  simp only [List.mem_singleton, forall_eq, ne_eq, @eq_comm _ []]

/-- The part at the end is not empty where the list does not end with a separator. -/
theorem Tidy.tidyBefore (h : Tidy sep bad x) (hlast : x.getLast? ≠ some sep) :
    TidyBefore sep bad x := by
  refine ⟨h.1, ?_⟩
  by_cases hmem : sep ∈ x
  · obtain ⟨a, b, rfl, hb⟩ := exists_last_of_mem hmem
    have hne : b ≠ [] := by
      rintro rfl
      simp at hlast
    rw [List.splitOn_append_cons_self, List.splitOn_eq_singleton hb,
      List.tail_append_of_ne_nil (List.splitOn_ne_nil _ _)]
    simpa [hne.symm] using (tidy_append_cons.mp h).1.2
  · rw [List.splitOn_eq_singleton hmem]
    simp

/-- What follows on a list and starts with an element that makes no two parts that
    are not bad a bad one. -/
theorem Tidy.append_cons (hc : c ≠ sep)
    (hmerge : ∀ p q, ¬ bad p → ¬ bad (c :: q) → ¬ bad (p ++ c :: q))
    (hx : Tidy sep bad x) (hy : Tidy sep bad (c :: y)) : Tidy sep bad (x ++ c :: y) := by
  -- the first part behind, which the last part before becomes a part of
  obtain ⟨first, parts, hparts⟩ : ∃ first parts, (c :: y).splitOn sep = (c :: first) :: parts := by
    rw [List.splitOn_cons_eq_if_modifyHead, if_neg (by simpa using hc)]
    cases hparts : y.splitOn sep with
    | nil => exact absurd hparts (List.splitOn_ne_nil _ _)
    | cons first parts => exact ⟨first, parts, rfl⟩
  have hsplit : ∀ {b : List α}, sep ∉ b →
      (b ++ c :: y).splitOn sep = (b ++ c :: first) :: parts := by
    intro b hb
    rw [splitOn_append_of_notMem hb, hparts, List.modifyHead_cons]
  have hgood : ∀ {b : List α}, ¬ bad b → ∀ part ∈ (b ++ c :: first) :: parts, ¬ bad part := by
    intro b hb part hpart
    rcases List.mem_cons.mp hpart with rfl | hpart
    · exact hmerge b first hb (hy.1 _ (by rw [hparts]; exact List.mem_cons_self))
    · exact hy.1 part (by rw [hparts]; exact List.mem_cons_of_mem _ hpart)
  have hinner : [] ∉ parts.dropLast := by
    have := hy.2
    rwa [hparts] at this
  by_cases hmem : sep ∈ x
  · obtain ⟨a, b, rfl, hb⟩ := exists_last_of_mem hmem
    rw [List.append_assoc, List.cons_append, tidy_append_cons]
    obtain ⟨hbefore, hbehind⟩ := tidy_append_cons.mp hx
    have hlast : ¬ bad b := hbehind.1 b (by rw [List.splitOn_eq_singleton hb]; simp)
    refine ⟨hbefore, ?_⟩
    unfold TidyBehind
    rw [hsplit hb]
    refine ⟨hgood hlast, ?_⟩
    cases parts with
    | nil => simp
    | cons second parts => simpa using hinner
  · have honly : ¬ bad x := hx.1 x (by rw [List.splitOn_eq_singleton hmem]; simp)
    unfold Tidy
    rw [hsplit hmem]
    exact ⟨hgood honly, hinner⟩

theorem Tidy.rdropWhile (h : Tidy sep bad x) : Tidy sep bad (x.rdropWhile (· == sep)) := by
  induction x using List.reverseRecOn with
  | nil => exact h
  | append_singleton x c ih =>
    rw [List.rdropWhile_concat]
    split
    · next hc =>
      rw [eq_of_beq hc] at h
      exact ih (tidy_append_cons.mp h).1.tidy
    · exact h

/-- An empty part that is not the first one stands behind two separators in a
    row, or behind one at the start of the list. -/
theorem empty_part (x : List α) :
    ([] ∈ (x.splitOn sep).tail.dropLast → [sep, sep] <:+: x) ∧
      ([] ∈ (x.splitOn sep).dropLast → x.head? = some sep ∨ [sep, sep] <:+: x) := by
  induction x with
  | nil => simp [List.splitOn_nil]
  | cons c x ih =>
    obtain ⟨part, parts, hparts⟩ := List.exists_cons_of_ne_nil (List.splitOn_ne_nil sep x)
    rw [List.splitOn_cons_eq_if_modifyHead]
    by_cases hc : c = sep
    · subst hc
      rw [if_pos (beq_self_eq_true c), List.tail_cons]
      refine ⟨?_, fun _ => .inl rfl⟩
      intro hmem
      rcases ih.2 hmem with hhead | hpair
      · obtain ⟨tail, rfl⟩ := List.head?_eq_some_iff.mp hhead
        exact ⟨[], tail, rfl⟩
      · exact List.infix_cons hpair
    · rw [if_neg (by simpa using hc), hparts, List.modifyHead_cons, List.tail_cons]
      rw [hparts, List.tail_cons] at ih
      refine ⟨fun hmem => List.infix_cons (ih.1 hmem), ?_⟩
      intro hmem
      cases parts with
      | nil => simp at hmem
      | cons next parts =>
        rw [List.dropLast_cons_of_ne_nil (List.cons_ne_nil _ _), List.mem_cons] at hmem
        rcases hmem with hmem | hmem
        · cases hmem
        · exact .inr (List.infix_cons (ih.1 hmem))

theorem tidy_map {β : Type*} [BEq β] [LawfulBEq β] {f : α → β} (hf : Function.Injective f)
    (sep : α) (bad : List β → Prop) (x : List α) :
    Tidy (f sep) bad (x.map f) ↔ Tidy sep (fun part => bad (part.map f)) x := by
  have hempty : ∀ parts : List (List α), [] ∈ parts.map (List.map f) ↔ [] ∈ parts := by
    intro parts
    rw [List.mem_map]
    constructor
    · rintro ⟨part, hpart, hnil⟩
      rwa [List.map_eq_nil_iff.mp hnil] at hpart
    · exact fun hnil => ⟨[], hnil, List.map_nil⟩
  unfold Tidy
  rw [splitOn_map hf, ← List.map_tail, ← List.map_dropLast, hempty, List.forall_mem_map]

section Transfer

variable {β : Type*} [BEq β] [LawfulBEq β] {sep' : β} {bad' : List β → Prop} {f : List α → List β}

/-- A function of lists that goes on part by part, or ends behind one, keeps a list
    tidy if it makes tidy ones of the parts. -/
theorem TidyBehind.transfer
    (hsplit : ∀ a b, sep ∉ a → ¬ bad a →
      (f (a ++ sep :: b) = f a ++ sep' :: f b ∧ (a ≠ [] → [] ∉ (f a).splitOn sep')) ∨
        f (a ++ sep :: b) = f a)
    (hpart : ∀ a, sep ∉ a → ¬ bad a →
      TidyBefore sep' bad' (f a) ∧ TidyBehind sep' bad' (f a)) {x : List α}
    (h : TidyBehind sep bad x) : TidyBehind sep' bad' (f x) := by
  induction hn : x.length using Nat.strong_induction_on generalizing x with
  | _ n ih =>
    by_cases hmem : sep ∈ x
    · obtain ⟨a, b, rfl, ha⟩ := List.eq_append_cons_of_mem hmem
      obtain ⟨⟨hgood, hne⟩, hb⟩ := (tidyBehind_append_cons ha).mp h
      obtain ⟨hbefore, hbehind⟩ := hpart a ha hgood
      rcases hsplit a b ha hgood with ⟨heq, hnonempty⟩ | heq
      · rw [heq]
        refine tidyBehind_append_cons_iff.mpr
          ⟨⟨hbefore.1, hnonempty hne⟩, ih b.length ?_ hb rfl⟩
        rw [← hn, List.length_append, List.length_cons]
        omega
      · rw [heq]
        exact hbehind
    · exact (hpart x hmem ((tidyBehind_of_notMem hmem).mp h)).2

theorem Tidy.transfer
    (hsplit : ∀ a b, sep ∉ a → ¬ bad a →
      (f (a ++ sep :: b) = f a ++ sep' :: f b ∧ (a ≠ [] → [] ∉ (f a).splitOn sep')) ∨
        f (a ++ sep :: b) = f a)
    (hpart : ∀ a, sep ∉ a → ¬ bad a →
      TidyBefore sep' bad' (f a) ∧ TidyBehind sep' bad' (f a)) {x : List α}
    (h : Tidy sep bad x) : Tidy sep' bad' (f x) := by
  by_cases hmem : sep ∈ x
  · obtain ⟨a, b, rfl, ha⟩ := List.eq_append_cons_of_mem hmem
    obtain ⟨hbefore, hbehind⟩ := tidy_append_cons.mp h
    have hgood := (tidyBefore_of_notMem ha).mp hbefore
    rcases hsplit a b ha hgood with ⟨heq, -⟩ | heq
    · rw [heq]
      exact tidy_append_cons.mpr ⟨(hpart a ha hgood).1, hbehind.transfer hsplit hpart⟩
    · rw [heq]
      exact (hpart a ha hgood).1.tidy
  · have hgood : ¬ bad x := h.1 x (by rw [List.splitOn_eq_singleton hmem]; simp)
    exact (hpart x hmem hgood).1.tidy

end Transfer

theorem tidy_of_no_pair (hgood : ∀ part ∈ x.splitOn sep, ¬ bad part)
    (hpair : ¬ [sep, sep] <:+: x) : Tidy sep bad x :=
  ⟨hgood, fun hmem => hpair ((empty_part x).1 hmem)⟩

end Tidy

end Synvoid.Framework
