import Synvoid.Framework.Checked

/-! # Readers

    A `Source` is what a reader of the standard library will deliver: pieces
    of data and errors, in this order, and then the end of the stream. One
    `read` gives at most one piece, and at most as much of it as there is room
    for. `read_exact` reads until it has enough.

    What can be read from a source without errors depends only on its bytes,
    not on the pieces (`readExact_of_append`, `readExact_of_lt`).
-/

namespace Synvoid.Framework

inductive ErrorKind where
  | unexpectedEof
  | wouldBlock
  | interrupted
  | invalidData
  | invalidInput
  | permissionDenied
  | other
  deriving DecidableEq

/-- `io::Error`. -/
structure IoError where
  kind : ErrorKind
  message : String
  deriving DecidableEq

/-- One result of a reader: at least one byte, or an error. -/
inductive ReadEvent where
  | data (first : UInt8) (rest : Bytes)
  | err (e : IoError)
  deriving DecidableEq

abbrev Source := List ReadEvent

namespace Source

/-- The bytes that are still to come. -/
def bytes : Source → Bytes
  | [] => []
  | .data first rest :: s => first :: rest ++ bytes s
  | .err _ :: s => bytes s

/-- The reader fails only in ways that `p` allows. -/
def FailsOnly (p : ErrorKind → Prop) (s : Source) : Prop := ∀ e, .err e ∈ s → p e.kind

/-- The reader never fails. -/
abbrev Clean (s : Source) : Prop := s.FailsOnly fun _ => False

/-- A single piece. -/
def ofBytes : Bytes → Source
  | [] => []
  | first :: rest => [.data first rest]

/-- `read` with room for `n + 1` bytes; nothing at the end of the stream. -/
def read (n : Nat) : Source → Except IoError Bytes × Source
  | [] => (.ok [], [])
  | .err e :: s => (.error e, s)
  | .data first rest :: s => (.ok (first :: rest.take n), ofBytes (rest.drop n) ++ s)

/-- A bound on the number of reads to the end of the stream. -/
def size : Source → Nat
  | [] => 0
  | .data _ rest :: s => rest.length + 1 + size s
  | .err _ :: s => 1 + size s

/-- `read_exact`. Bytes that were read before an error are lost. -/
def readExact : Nat → Source → Except IoError Bytes × Source
  | 0, s => (.ok [], s)
  | _ + 1, [] => (.error ⟨.unexpectedEof, "failed to fill whole buffer"⟩, [])
  | n + 1, .err e :: s => if e.kind = .interrupted then readExact (n + 1) s else (.error e, s)
  | n + 1, .data first rest :: s =>
      if rest.length ≤ n then
        match readExact (n - rest.length) s with
        | (.ok more, s) => (.ok (first :: rest ++ more), s)
        | (.error e, s) => (.error e, s)
      else (.ok (first :: rest.take n), ofBytes (rest.drop n) ++ s)
termination_by structural _ s => s

/-! ### Bytes -/

@[simp] theorem bytes_nil : bytes [] = [] := rfl

@[simp] theorem bytes_data (first : UInt8) (rest : Bytes) (s : Source) :
    bytes (.data first rest :: s) = first :: rest ++ bytes s := rfl

@[simp] theorem bytes_err (e : IoError) (s : Source) : bytes (.err e :: s) = bytes s := rfl

@[simp] theorem bytes_append (s t : Source) : bytes (s ++ t) = bytes s ++ bytes t := by
  induction s with
  | nil => rfl
  | cons event s ih => cases event <;> simp [ih]

@[simp] theorem bytes_ofBytes (b : Bytes) : bytes (ofBytes b) = b := by
  cases b <;> simp [ofBytes]

/-! ### Errors -/

variable {p : ErrorKind → Prop}

theorem FailsOnly.cons {event : ReadEvent} {s : Source} (h : FailsOnly p (event :: s)) :
    s.FailsOnly p :=
  fun e he => h e (List.mem_cons_of_mem _ he)

theorem FailsOnly.ofBytes_append {s : Source} (h : s.FailsOnly p) (b : Bytes) :
    FailsOnly p (ofBytes b ++ s) := by
  intro e he
  rcases List.mem_append.mp he with hnew | hold
  · cases b <;> simp [ofBytes] at hnew
  · exact h e hold

theorem clean_ofBytes (b : Bytes) : (ofBytes b).Clean := by
  have hnil : FailsOnly (fun _ => False) [] := fun e he => by cases he
  simpa using hnil.ofBytes_append b

/-! ### Single reads -/

theorem size_ofBytes (b : Bytes) : size (ofBytes b) = b.length := by
  cases b <;> simp [ofBytes, size]

theorem size_append (s t : Source) : size (s ++ t) = size s + size t := by
  induction s with
  | nil => simp [size]
  | cons event s ih => cases event <;> simp [size, ih] <;> omega

/-- Every read of a source that is not at its end uses some of it up. -/
theorem size_read_lt (n : Nat) {s : Source} (h : s ≠ []) : (s.read n).2.size < s.size := by
  match s, h with
  | .err e :: s, _ => simp [read, size]
  | .data first rest :: s, _ =>
    simp only [read, size, size_append, size_ofBytes, List.length_drop]
    omega

theorem FailsOnly.read {s : Source} (h : s.FailsOnly p) (n : Nat) : (s.read n).2.FailsOnly p := by
  match s with
  | [] => exact h
  | .err e :: s => exact h.cons
  | .data first rest :: s => exact h.cons.ofBytes_append _

/-- What a read gives is taken off the front of the bytes. -/
theorem bytes_read_ok {n : Nat} {s s' : Source} {b : Bytes} (h : s.read n = (.ok b, s')) :
    s.bytes = b ++ s'.bytes ∧ b.length ≤ n + 1 := by
  match s with
  | [] =>
    obtain ⟨rfl, rfl⟩ : b = [] ∧ s' = [] := by simpa [read, eq_comm] using h
    exact ⟨rfl, Nat.zero_le _⟩
  | .err e :: s => simp [read] at h
  | .data first rest :: s =>
    obtain ⟨rfl, rfl⟩ : b = first :: rest.take n ∧ s' = ofBytes (rest.drop n) ++ s := by
      simpa [read, eq_comm] using h
    refine ⟨?_, ?_⟩
    · simp [← List.append_assoc]
    · rw [List.length_cons]
      exact Nat.succ_le_succ (List.length_take_le n rest)

/-- A read gives nothing only at the end of the stream. -/
theorem eq_nil_of_read_nil {n : Nat} {s s' : Source} (h : s.read n = (.ok [], s')) :
    s = [] := by
  match s with
  | [] => rfl
  | .err e :: s => simp [read] at h
  | .data first rest :: s => simp [read] at h

theorem bytes_read_error {n : Nat} {s s' : Source} {e : IoError} (h : s.read n = (.error e, s')) :
    s = .err e :: s' := by
  match s with
  | [] => simp [read] at h
  | .err e' :: s =>
    obtain ⟨rfl, rfl⟩ : e' = e ∧ s = s' := by simpa [read] using h
    rfl
  | .data first rest :: s => simp [read] at h

/-! ### Reads before the first error -/

/-- The bytes in front of the first error. -/
def available : Source → Bytes
  | [] => []
  | .data first rest :: s => first :: rest ++ available s
  | .err _ :: _ => []

@[simp] theorem available_ofBytes_append (b : Bytes) (s : Source) :
    available (ofBytes b ++ s) = b ++ available s := by
  cases b <;> simp [ofBytes, available]

theorem available_prefix (s : Source) : s.available <+: s.bytes := by
  induction s with
  | nil => exact List.prefix_refl _
  | cons event s ih =>
    cases event with
    | data first rest => exact (List.prefix_append_right_inj (first :: rest)).mpr ih
    | err e => exact List.nil_prefix

theorem available_of_clean {s : Source} (h : s.Clean) : s.available = s.bytes := by
  induction s with
  | nil => rfl
  | cons event s ih =>
    cases event with
    | data first rest => simp [available, ih h.cons]
    | err e => exact (h e (List.mem_cons_self ..)).elim

/-- As long as there are bytes, a read gives some of them. -/
theorem read_available {s : Source} (h : s.available ≠ []) (n : Nat) :
    ∃ first more s', s.read n = (.ok (first :: more), s') ∧ more.length ≤ n ∧
      s.available = first :: more ++ s'.available := by
  match s with
  | [] => exact absurd rfl h
  | .err e :: s => exact absurd rfl h
  | .data first rest :: s =>
    refine ⟨first, rest.take n, _, rfl, List.length_take_le _ _, ?_⟩
    simp [available, ← List.append_assoc]

/-- A read takes what it gives off the source. -/
theorem size_read_ok {n : Nat} {s s' : Source} {b : Bytes} (h : s.read n = (.ok b, s')) :
    s.size = b.length + s'.size := by
  match s with
  | [] =>
    obtain ⟨rfl, rfl⟩ : b = [] ∧ s' = [] := by simpa [read, eq_comm] using h
    rfl
  | .err e :: s => simp [read] at h
  | .data first rest :: s =>
    obtain ⟨rfl, rfl⟩ : b = first :: rest.take n ∧ s' = ofBytes (rest.drop n) ++ s := by
      simpa [read, eq_comm] using h
    simp only [size, size_append, size_ofBytes, List.length_cons, List.length_take,
      List.length_drop]
    omega

theorem read_unavailable {s : Source} (h : s.available = []) (n : Nat) :
    s.read n = (.ok [], []) ∨ ∃ e s', s.read n = (.error e, s') := by
  match s with
  | [] => exact .inl rfl
  | .err e :: s => exact .inr ⟨e, s, rfl⟩
  | .data first rest :: s => simp [available] at h

/-! ### Exact reads -/

theorem size_readExact_le (n : Nat) (s : Source) : (s.readExact n).2.size ≤ s.size := by
  induction s generalizing n with
  | nil => cases n <;> exact Nat.le_refl _
  | cons event s ih =>
    cases n with
    | zero => exact Nat.le_refl _
    | succ n =>
      cases event with
      | err e =>
        unfold readExact
        split
        · exact Nat.le_trans (ih _) (Nat.le_add_left _ _)
        · exact Nat.le_add_left _ _
      | data first rest =>
        unfold readExact
        split
        · have hmore := ih (n - rest.length)
          simp only [size]
          split
          · next hread =>
            rw [hread] at hmore
            exact Nat.le_trans hmore (Nat.le_add_left _ _)
          · next hread =>
            rw [hread] at hmore
            exact Nat.le_trans hmore (Nat.le_add_left _ _)
        · simp only [size_append, size_ofBytes, size, List.length_drop]
          omega

theorem readExact_of_append {s : Source} (hclean : s.Clean) {front back : Bytes}
    (h : s.bytes = front ++ back) :
    ∃ s', s.readExact front.length = (.ok front, s') ∧ s'.bytes = back ∧ s'.Clean := by
  induction s generalizing front with
  | nil =>
    obtain ⟨rfl, rfl⟩ : front = [] ∧ back = [] := by simpa [eq_comm] using h
    exact ⟨[], by simp [readExact], rfl, hclean⟩
  | cons event s ih =>
    cases front with
    | nil => exact ⟨event :: s, by simp [readExact], by simpa using h, hclean⟩
    | cons b front =>
      cases event with
      | err e => exact (hclean e (List.mem_cons_self ..)).elim
      | data first rest =>
        simp only [bytes_data, List.cons_append, List.cons.injEq] at h
        obtain ⟨rfl, hrest⟩ := h
        rw [List.length_cons, readExact]
        split
        -- the whole piece, and more
        · next hfits =>
          obtain ⟨more, rfl, hmore⟩ : ∃ more, front = rest ++ more ∧ bytes s = more ++ back := by
            rcases List.append_eq_append_iff.mp hrest with ⟨more, h₁, h₂⟩ | ⟨more, h₁, h₂⟩
            · exact ⟨more, h₁, h₂⟩
            · have hnil : more = [] := by
                have := congrArg List.length h₁
                rw [List.length_append] at this
                exact List.length_eq_zero_iff.mp (by omega)
              subst hnil
              exact ⟨[], by simpa using h₁.symm, by simpa using h₂.symm⟩
          obtain ⟨s', hread, hback, hclean'⟩ := ih hclean.cons hmore
          rw [List.length_append, Nat.add_sub_cancel_left, hread]
          exact ⟨s', rfl, hback, hclean'⟩
        -- a part of the piece
        · next hpart =>
          obtain ⟨more, rfl, rfl⟩ : ∃ more, rest = front ++ more ∧ back = more ++ bytes s := by
            rcases List.append_eq_append_iff.mp hrest with ⟨more, h₁, h₂⟩ | ⟨more, h₁, h₂⟩
            · exfalso
              rw [h₁, List.length_append] at hpart
              omega
            · exact ⟨more, h₁, h₂⟩
          refine ⟨ofBytes more ++ s, ?_, by simp, hclean.cons.ofBytes_append _⟩
          simp

theorem readExact_of_lt {s : Source} (hclean : s.Clean) {n : Nat} (h : s.bytes.length < n) :
    (s.readExact n).1 = .error ⟨.unexpectedEof, "failed to fill whole buffer"⟩ := by
  induction s generalizing n with
  | nil =>
    cases n with
    | zero => simp at h
    | succ n => rfl
  | cons event s ih =>
    cases event with
    | err e => exact (hclean e (List.mem_cons_self ..)).elim
    | data first rest =>
      obtain ⟨n, rfl⟩ : ∃ m, n = m + 1 := ⟨n - 1, by omega⟩
      simp only [bytes_data, List.cons_append, List.length_cons, List.length_append] at h
      have hmore := ih hclean.cons (by omega : (bytes s).length < n - rest.length)
      rw [readExact, if_pos (by omega)]
      generalize readExact (n - rest.length) s = result at hmore ⊢
      obtain ⟨result, s'⟩ := result
      obtain rfl : result = _ := hmore
      rfl

end Source

end Synvoid.Framework
