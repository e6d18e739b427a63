import Mathlib.Logic.Relation
import Synvoid.Waf.Streaming

/-! # Cross-chunk coverage of multipart bodies

    The multipart scanner keeps only `boundary.len() + 4` bytes between
    chunks, so that a boundary or blank line split over two chunks is still
    found. The next chunk is parsed behind this window, from the beginning of
    the window, in the state the last chunk ended in: the window's bytes are
    read twice.

    The reference is the parse of the whole body (`Next`): a preamble, then
    parts whose headers end at a blank line and whose content ends at the
    next boundary. Two things are shown of every split into chunks.

    * Parsing does not go astray: if the boundary contains no blank line and
      does not end in the beginning of one (`BoundaryClear`), reading the
      window twice always leads back to the reference parse (`resync`).
    * A fragment of a part's content that is handed to the detector reaches
      back over the window only. So a run of content bytes is seen in one
      piece if it does not start more than `boundary.len() + 4` bytes before
      the chunk it ends in, and `multipart_scan_misses_run` shows that it is
      not seen otherwise.
-/

namespace Synvoid.Waf

open Synvoid.Framework

variable {ρ : Type}

/-! ## Section 1: The reference parse -/

inductive Phase where
  | preamble
  | headers
  | content
  deriving DecidableEq, Repr

/-- What ends a phase: the boundary, or the blank line behind headers. -/
def Phase.needle (B : Bytes) : Phase → Bytes
  | .preamble => B
  | .headers => blankLine
  | .content => B

/-- The phase behind the needle. -/
def Phase.following : Phase → Phase
  | .preamble => .headers
  | .headers => .content
  | .content => .headers

/-- A phase and the position it was entered at. -/
structure Cursor where
  phase : Phase
  pos : Nat

/-- One step of the reference parse: on to the phase behind the first
    occurrence of the needle. -/
def Next (B body : Bytes) (c c' : Cursor) : Prop :=
  ∃ p, FirstAt (c.phase.needle B) body c.pos p ∧
    c' = ⟨c.phase.following, p + (c.phase.needle B).length⟩

def Reaches (B body : Bytes) : Cursor → Cursor → Prop :=
  Relation.ReflTransGen (Next B body)

def Cursor.start : Cursor := ⟨.preamble, 0⟩

/-- `[s, e)` is the content of a part of the body: up to the next boundary,
    or to the end of the body if there is none. -/
structure PartContent (B body : Bytes) (s e : Nat) : Prop where
  reached : Reaches B body .start ⟨.content, s⟩
  ends : FirstAt B body s e ∨ (Absent B body s ∧ e = body.length)

section reference
variable {B body : Bytes} {c c' d : Cursor}

theorem needle_ne_nil (hB : B ≠ []) (φ : Phase) : φ.needle B ≠ [] := by
  cases φ <;> simp [Phase.needle, hB, blankLine]

theorem Next.unique (h : Next B body c c') (h' : Next B body c d) : c' = d := by
  obtain ⟨p, hp, rfl⟩ := h
  obtain ⟨q, hq, rfl⟩ := h'
  rw [hp.unique hq]

theorem Next.pos_le (h : Next B body c c') : c.pos ≤ c'.pos := by
  obtain ⟨p, hp, rfl⟩ := h
  have := hp.le
  simp
  omega

theorem Reaches.pos_le (h : Reaches B body c c') : c.pos ≤ c'.pos := by
  induction h with
  | refl => exact Nat.le_refl _
  | tail _ hstep ih => exact ih.trans hstep.pos_le

/-- Two cursors of one parse are on one line. -/
theorem Reaches.comparable {a : Cursor} (h : Reaches B body a c) (h' : Reaches B body a d) :
    Reaches B body c d ∨ Reaches B body d c :=
  Relation.ReflTransGen.total_of_right_unique (fun _ _ _ h₁ h₂ => h₁.unique h₂) h h'

/-- More input does not change the parse so far. -/
theorem Reaches.append (hB : B ≠ []) (h : Reaches B body c c') (more : Bytes) :
    Reaches B (body ++ more) c c' := by
  induction h with
  | refl => exact .refl
  | tail _ hstep ih =>
    obtain ⟨p, hp, rfl⟩ := hstep
    exact ih.tail ⟨p, hp.append (needle_ne_nil hB _) more, rfl⟩

/-- The parse up to a position needs the bytes before it only. -/
theorem Reaches.of_append {more : Bytes} (h : Reaches B (body ++ more) c c')
    (hpos : c'.pos ≤ body.length) : Reaches B body c c' := by
  induction h with
  | refl => exact .refl
  | tail _ hstep ih =>
    obtain ⟨p, hp, rfl⟩ := hstep
    simp only at hpos
    have hle := hp.le
    exact (ih (by omega)).tail ⟨p, hp.of_append hpos, rfl⟩

/-- Headers start right behind a boundary. -/
theorem Reaches.boundary_before {a : Nat} (h : Reaches B body .start ⟨.headers, a⟩) :
    B.length ≤ a ∧ OccursAt B body (a - B.length) := by
  rcases Relation.ReflTransGen.cases_tail h with heq | ⟨⟨φ, q⟩, -, p, hp, heq⟩
  · simp [Cursor.start] at heq
  · cases φ with
    | headers => simp [Phase.following] at heq
    | preamble =>
      simp only [Phase.following, Phase.needle, Cursor.mk.injEq, true_and] at heq hp
      exact ⟨by omega, by rw [heq, Nat.add_sub_cancel]; exact hp.occurs⟩
    | content =>
      simp only [Phase.following, Phase.needle, Cursor.mk.injEq, true_and] at heq hp
      exact ⟨by omega, by rw [heq, Nat.add_sub_cancel]; exact hp.occurs⟩

/-- Content starts right behind a blank line. -/
theorem Reaches.blankLine_before {a : Nat} (h : Reaches B body .start ⟨.content, a⟩) :
    4 ≤ a ∧ OccursAt blankLine body (a - 4) := by
  rcases Relation.ReflTransGen.cases_tail h with heq | ⟨⟨φ, q⟩, -, p, hp, heq⟩
  · simp [Cursor.start] at heq
  · cases φ with
    | preamble => simp [Phase.following] at heq
    | content => simp [Phase.following] at heq
    | headers =>
      simp only [Phase.following, Phase.needle, Cursor.mk.injEq, true_and] at heq hp
      have hlen : blankLine.length = 4 := rfl
      exact ⟨by omega, by rw [heq, hlen, Nat.add_sub_cancel]; exact hp.occurs⟩

end reference

/-! ## Section 2: Scanning from any cursor -/

/-- The stretch of content that is handed over when the search from `c` ends
    at `p`. -/
def emit (c : Cursor) (p : Nat) : List (Nat × Nat) :=
  if c.phase = .content then [(c.pos, p)] else []

theorem mem_emit {c : Cursor} {p x y : Nat} :
    (x, y) ∈ emit c p ↔ c.phase = .content ∧ x = c.pos ∧ y = p := by
  unfold emit
  split
  · next hphase => simp [hphase]
  · next hphase => simp [hphase]

/-- `Scan B v c es φ`: scanning `v` from `c` hands over the content stretches
    `es` and ends in phase `φ`. Unlike the reference parse it may start at a
    cursor the parse never visits. -/
inductive Scan (B v : Bytes) : Cursor → List (Nat × Nat) → Phase → Prop where
  | stop {c : Cursor} : v.length ≤ c.pos → Scan B v c [] c.phase
  | found {c : Cursor} {p : Nat} {es : List (Nat × Nat)} {φ : Phase} :
      c.pos < v.length → FirstAt (c.phase.needle B) v c.pos p →
      Scan B v ⟨c.phase.following, p + (c.phase.needle B).length⟩ es φ →
      Scan B v c (emit c p ++ es) φ
  | missing {c : Cursor} : c.pos < v.length → Absent (c.phase.needle B) v c.pos →
      Scan B v c (emit c v.length) c.phase

theorem Scan.at_end {B v : Bytes} {c : Cursor} {es : List (Nat × Nat)} {φ : Phase}
    (h : Scan B v c es φ) (hc : v.length ≤ c.pos) : φ = c.phase := by
  cases h with
  | stop _ => rfl
  | found hlt _ _ => omega
  | missing _ _ => rfl

/-- A scan that meets the needle at once continues behind it. -/
theorem Scan.step_at {B v : Bytes} {c : Cursor} {es : List (Nat × Nat)} {φ : Phase}
    (hB : B ≠ []) (h : Scan B v c es φ) (hocc : OccursAt (c.phase.needle B) v c.pos) :
    ∃ es', Scan B v ⟨c.phase.following, c.pos + (c.phase.needle B).length⟩ es' φ ∧
      ∀ x ∈ es', x ∈ es := by
  have hhere : FirstAt (c.phase.needle B) v c.pos c.pos := ⟨Nat.le_refl _, hocc, by omega⟩
  cases h with
  | stop hlen => exact absurd hocc (absent_of_length_le (needle_ne_nil hB _) hlen _ (Nat.le_refl _))
  | missing _ habs => exact absurd hocc (habs _ (Nat.le_refl _))
  | found _ hp hrest =>
    rw [← hhere.unique hp] at hrest
    exact ⟨_, hrest, fun x hx => List.mem_append_right _ hx⟩

/-- **Scanning in step with the parse** hands over the content of every part
    from the cursor on, and ends where the parse of `v` ends. -/
theorem Scan.in_step {B v : Bytes} {c : Cursor} {es : List (Nat × Nat)} {φ : Phase}
    (hB : B ≠ []) (h : Scan B v c es φ) (hc : c.pos ≤ v.length) :
    (∃ a, Reaches B v c ⟨φ, a⟩ ∧ Absent (φ.needle B) v a ∧ a ≤ v.length) ∧
    ∀ s e, Reaches B v c ⟨.content, s⟩ → s < v.length →
      (FirstAt B v s e ∨ (Absent B v s ∧ e = v.length)) → (s, e) ∈ es := by
  induction h with
  | @stop c hlen =>
    -- nothing is left, so no content begins here
    have habs := absent_of_length_le (l := v) (needle_ne_nil hB c.phase) hlen
    refine ⟨⟨c.pos, .refl, habs, hc⟩, ?_⟩
    intro s e hr hs _
    have := hr.pos_le
    simp only at this
    omega
  | @missing c _ habs =>
    -- the stretch from the cursor is the last, and reaches to the end of `v`
    refine ⟨⟨c.pos, .refl, habs, hc⟩, ?_⟩
    intro s e hr _ hend
    rcases Relation.ReflTransGen.cases_head hr with rfl | ⟨d, ⟨p, hp, -⟩, -⟩
    · rcases hend with hfirst | ⟨-, rfl⟩
      · exact absurd habs hfirst.not_absent
      · simp [emit]
    · exact absurd habs hp.not_absent
  | @found c p es φ _ hp _ ih =>
    have hlen := hp.length_le (needle_ne_nil hB c.phase)
    obtain ⟨⟨a, hreach, habs, ha⟩, hcontent⟩ := ih hlen
    have hnext : Next B v c ⟨c.phase.following, p + (c.phase.needle B).length⟩ := ⟨p, hp, rfl⟩
    refine ⟨⟨a, .head hnext hreach, habs, ha⟩, ?_⟩
    intro s e hr hs hend
    rcases Relation.ReflTransGen.cases_head hr with rfl | ⟨d, hd, hrest⟩
    · -- the cursor itself: its stretch ends at the boundary found
      rcases hend with hfirst | ⟨habs', -⟩
      · have : e = p := hfirst.unique hp
        simp [emit, this]
      · exact absurd habs' hp.not_absent
    · rw [hd.unique hnext] at hrest
      exact List.mem_append_right _ (hcontent s e hrest hs hend)

/-! ## Section 3: The chunk loop is a scan -/

/-- The phase a state of the scanner stands for. Form fields and files are
    both content. -/
def MultipartState.phase : MultipartState → Phase
  | .none => .preamble
  | .lookingForBoundary => .preamble
  | .readingHeaders => .headers
  | .readingField => .content
  | .skippingFile => .content

theorem fragmentByte_eq (frag0 frag1 : Bytes) (pos : Nat) :
    fragmentByte frag0 frag1 pos = (frag0 ++ frag1)[pos]? := by
  unfold fragmentByte
  split
  · next h => rw [List.getElem?_append_left h]
  · next h => rw [List.getElem?_append_right (by omega)]

theorem matchesAt_iff (frag0 frag1 needle : Bytes) (i : Nat) :
    matchesAt frag0 frag1 needle i = true ↔ OccursAt needle (frag0 ++ frag1) i := by
  have hbytes : matchesAt frag0 frag1 needle i = true ↔
      ∀ j, (hj : j < needle.length) → (frag0 ++ frag1)[i + j]? = some needle[j] := by
    simp only [matchesAt, List.all_eq_true, beq_iff_eq, fragmentByte_eq]
    constructor
    · intro h j hj
      exact h (needle[j], j) (List.mk_mem_zipIdx_iff_getElem?.mpr (List.getElem?_eq_getElem hj))
    · intro h ⟨x, j⟩ hx
      obtain ⟨hj, rfl⟩ := List.getElem?_eq_some_iff.mp (List.mk_mem_zipIdx_iff_getElem?.mp hx)
      exact h j hj
  rw [hbytes, OccursAt, List.prefix_iff_getElem?]
  simp only [List.getElem?_drop]

/-- **Search.** `find_in_fragments` finds the first occurrence in the two
    fragments read as one buffer. -/
theorem findInFragments_spec (frag0 frag1 needle : Bytes) (start : Nat) (hne : needle ≠ []) :
    match findInFragments frag0 frag1 start needle with
    | some p => FirstAt needle (frag0 ++ frag1) start p
    | .none => Absent needle (frag0 ++ frag1) start := by
  have hbound : ∀ j, OccursAt needle (frag0 ++ frag1) j →
      j + needle.length ≤ frag0.length + frag1.length := by
    intro j hj
    simpa using hj.length_le hne
  unfold findInFragments
  simp only [if_neg hne]
  split_ifs with hlong
  · -- too few bytes are left for the needle
    intro j hj hocc
    have := hbound j hocc
    omega
  · cases hfind : (List.range' start
      (frag0.length + frag1.length - needle.length + 1 - start)).find?
        (matchesAt frag0 frag1 needle) with
    | none =>
      intro j hj hocc
      -- every position where it fits was tried
      have hj' := hbound j hocc
      have hmem : j ∈ List.range' start
          (frag0.length + frag1.length - needle.length + 1 - start) := by
        rw [List.mem_range'_1]; omega
      have := List.find?_eq_none.mp hfind j hmem
      exact this ((matchesAt_iff ..).mpr hocc)
    | some p =>
      obtain ⟨hp, as, bs, heq, hnot⟩ := List.find?_eq_some_iff_append.mp hfind
      have hmem : p ∈ List.range' start
          (frag0.length + frag1.length - needle.length + 1 - start) := by
        rw [heq]; simp
      rw [List.mem_range'_1] at hmem
      refine ⟨hmem.1, (matchesAt_iff ..).mp hp, ?_⟩
      intro j hj hjp hocc
      have hjmem : j ∈ as := by
        have hj' : j ∈ as ++ p :: bs := by rw [← heq, List.mem_range'_1]; omega
        have hsorted : (as ++ p :: bs).Pairwise (· < ·) := heq ▸ List.pairwise_lt_range'
        rcases List.mem_append.mp hj' with hin | hin
        · exact hin
        · -- everything from `p` on is at least `p`
          rw [List.pairwise_append, List.pairwise_cons] at hsorted
          rcases List.mem_cons.mp hin with rfl | hin'
          · omega
          · have := hsorted.2.1.1 j hin'
            omega
      have := hnot j hjmem
      simp [(matchesAt_iff ..).mpr hocc] at this

/-- **Copy.** `copy_from_fragments` appends a slice of the buffer. -/
theorem copyFromFragments_eq (dest frag0 frag1 : Bytes) (start stop : Nat)
    (hle : start ≤ stop) :
    copyFromFragments dest frag0 frag1 start (stop - start) =
      dest ++ slice (frag0 ++ frag1) start stop := by
  unfold slice
  rw [List.drop_append]
  by_cases hstart : start < frag0.length
  · by_cases htake : stop - start > frag0.length - start
    · -- the slice starts in the first fragment and ends in the second
      have hmin : min (frag0.length - start) (stop - start) = frag0.length - start := by omega
      simp only [copyFromFragments, hstart, if_true, hmin, htake]
      rw [show start - frag0.length = 0 by omega, List.drop_zero, List.append_assoc,
        List.take_append, List.length_drop,
        List.take_of_length_le (show (frag0.drop start).length ≤ frag0.length - start by simp),
        List.take_of_length_le (show (frag0.drop start).length ≤ stop - start by simp; omega)]
    · -- it lies in the first fragment
      have hmin : min (frag0.length - start) (stop - start) = stop - start := by omega
      simp only [copyFromFragments, hstart, if_true, hmin, Nat.lt_irrefl, gt_iff_lt, if_false]
      rw [List.take_append_of_le_length (by simp; omega)]
  · simp only [copyFromFragments, hstart, if_false]
    rw [List.drop_of_length_le (by omega : frag0.length ≤ start), List.nil_append]

section loop
variable {inner : AttackDetector ρ} {B frag0 frag1 : Bytes}

/-- What an iteration in phase `φ` does, in terms of the buffer: it follows
    the search for the phase's needle, hands over the stretch it passes if
    that is content, and touches neither the boundary nor the trailing
    window. -/
structure StepSpec (B v : Bytes) (st : StreamingState ρ) (φ : Phase) (pos : Nat)
    (step : MultipartStep ρ) : Prop where
  boundary : step.next.boundary = st.boundary
  window : step.next.trailingWindow = st.trailingWindow
  active : step.next.multipartState ≠ .none
  moves : (∃ p, FirstAt (φ.needle B) v pos p ∧
      step.next.multipartState.phase = φ.following ∧
      step.currentPos = p + (φ.needle B).length ∧
      (φ = .content → pos < p → ∃ w text, step.scan = some (w, slice v pos p, text))) ∨
    (Absent (φ.needle B) v pos ∧
      step.next.multipartState.phase = φ ∧
      step.currentPos = v.length ∧
      (φ = .content → ∃ w text, step.scan = some (w, slice v pos v.length, text)))

theorem scanUnlessEmpty_slice {v : Bytes} {pos stop : Nat} (window : Bytes) (text : String)
    (hlt : pos < stop) (hstop : stop ≤ v.length) :
    scanUnlessEmpty window (slice v pos stop) text = some (window, slice v pos stop, text) := by
  have hlen := length_slice v pos stop hstop
  exact if_pos (by omega)

theorem multipartStep_spec (hB : B ≠ []) (st : StreamingState ρ) (pos : Nat)
    (hactive : st.multipartState ≠ .none) (hpos : pos < (frag0 ++ frag1).length) :
    StepSpec B (frag0 ++ frag1) st st.multipartState.phase pos
      (multipartStep B frag0 frag1 st pos) := by
  have hlen : frag0.length + frag1.length = (frag0 ++ frag1).length := List.length_append.symm
  have hcopy : ∀ stop, pos ≤ stop →
      copyFromFragments [] frag0 frag1 pos (stop - pos) = slice (frag0 ++ frag1) pos stop :=
    fun stop hle => copyFromFragments_eq [] frag0 frag1 pos stop hle
  have hfind := findInFragments_spec frag0 frag1 B pos hB
  have hblank := findInFragments_spec frag0 frag1 blankLine pos (by simp [blankLine])
  unfold multipartStep
  cases hst : st.multipartState with
  | none => exact absurd hst hactive
  | lookingForBoundary =>
    cases hf : findInFragments frag0 frag1 pos B with
    | some p =>
      rw [hf] at hfind
      exact ⟨rfl, rfl, by simp, Or.inl ⟨p, hfind, rfl, rfl, by simp [MultipartState.phase]⟩⟩
    | none =>
      rw [hf] at hfind
      exact ⟨rfl, rfl, by simp [hst], Or.inr ⟨hfind, by simp [hst], hlen,
        by simp [MultipartState.phase]⟩⟩
  | readingHeaders =>
    cases hf : findInFragments frag0 frag1 pos blankLine with
    | some p =>
      rw [hf] at hblank
      refine ⟨?_, ?_, ?_, Or.inl ⟨p, hblank, ?_, rfl, by simp [MultipartState.phase]⟩⟩ <;>
        simp only <;> split <;> first | rfl | simp
    | none =>
      rw [hf] at hblank
      exact ⟨rfl, rfl, by simp, Or.inr ⟨hblank, by simp, hlen,
        by simp [MultipartState.phase]⟩⟩
  | readingField =>
    cases hf : findInFragments frag0 frag1 pos B with
    | some p =>
      rw [hf] at hfind
      exact ⟨rfl, rfl, by simp, Or.inl ⟨p, hfind, rfl, rfl, fun _ _ =>
        ⟨_, _, by rw [← hcopy p hfind.le]⟩⟩⟩
    | none =>
      rw [hf] at hfind
      exact ⟨rfl, rfl, by simp, Or.inr ⟨hfind, by simp, hlen, fun _ =>
        ⟨_, _, by rw [← hcopy _ (Nat.le_of_lt hpos), hlen]⟩⟩⟩
  | skippingFile =>
    cases hf : findInFragments frag0 frag1 pos B with
    | some p =>
      rw [hf] at hfind
      have hp := hfind.length_le hB
      exact ⟨rfl, rfl, by simp, Or.inl ⟨p, hfind, rfl, rfl, fun _ hlt =>
        ⟨_, _, (congrArg (scanUnlessEmpty _ · _) (hcopy p hfind.le)).trans
          (scanUnlessEmpty_slice _ _ hlt (by omega))⟩⟩⟩
    | none =>
      rw [hf] at hfind
      exact ⟨rfl, rfl, by simp [hst], Or.inr ⟨hfind, by simp [hst], hlen, fun _ =>
        ⟨_, _, (congrArg (scanUnlessEmpty _ · _) (hlen.symm ▸ hcopy _ (Nat.le_of_lt hpos))).trans
          (scanUnlessEmpty_slice _ _ hpos (Nat.le_refl _))⟩⟩⟩

/-- An iteration that does not block hands over its fragment and goes on. -/
theorem multipartLoop_iterate (fuel : Nat) (st : StreamingState ρ) (pos : Nat)
    (hpos : pos < frag0.length + frag1.length)
    (hcont : (multipartLoop inner B frag0 frag1 (fuel + 1) st pos).decision = .continue) :
    let step := multipartStep B frag0 frag1 st pos
    let rest := multipartLoop inner B frag0 frag1 fuel step.next step.currentPos
    let result := multipartLoop inner B frag0 frag1 (fuel + 1) st pos
    rest.decision = .continue ∧ result.next = rest.next ∧
      (∀ call ∈ rest.handed, call ∈ result.handed) ∧
      (∀ w f text, step.scan = some (w, f, text) → [w, f] ∈ result.handed) := by
  intro step rest result
  cases hscan : (multipartStep B frag0 frag1 st pos).scan with
  | none =>
    have hres : result = rest := by
      simp only [result, multipartLoop, if_pos hpos, hscan]
      rfl
    -- headers, or an empty fragment: nothing is handed over
    exact ⟨hres ▸ hcont, by rw [hres], by rw [hres]; exact fun _ h => h, by simp⟩
  | some call =>
    obtain ⟨window, fragment, text⟩ := call
    cases hcheck : inner.checkBodyFragments [window, fragment] with
    -- a detection would have blocked
    | some found => simp [multipartLoop, hpos, hscan, hcheck, detected] at hcont
    | none =>
      have hres : result = { rest with handed := [window, fragment] :: rest.handed } := by
        simp only [result, multipartLoop, if_pos hpos, hscan, hcheck]
        rfl
      have hdec : result.decision = .continue := hcont
      rw [hres] at hdec ⊢
      refine ⟨hdec, rfl, fun _ h => List.mem_cons_of_mem _ h, ?_⟩
      intro w f text' hsome
      simp only [Option.some.injEq, Prod.mk.injEq] at hsome
      obtain ⟨rfl, rfl, -⟩ := hsome
      exact List.mem_cons_self

/-- **Run lemma of the loop.** The loop scans the buffer, and hands every
    nonempty stretch of content to the detector, behind some window. -/
theorem multipartLoop_scan (hB : B ≠ []) (fuel : Nat) (st : StreamingState ρ) (pos : Nat)
    (hactive : st.multipartState ≠ .none) (hpos : pos ≤ (frag0 ++ frag1).length)
    (hfuel : (frag0 ++ frag1).length - pos < fuel)
    (hcont : (multipartLoop inner B frag0 frag1 fuel st pos).decision = .continue) :
    let result := multipartLoop inner B frag0 frag1 fuel st pos
    result.next.boundary = st.boundary ∧ result.next.multipartState ≠ .none ∧
    ∃ es, Scan B (frag0 ++ frag1) ⟨st.multipartState.phase, pos⟩ es
        result.next.multipartState.phase ∧
      ∀ x y, (x, y) ∈ es → x < y → ∃ w, [w, slice (frag0 ++ frag1) x y] ∈ result.handed := by
  intro result
  induction fuel generalizing st pos with
  | zero => omega
  | succ fuel ih =>
    by_cases hlt : pos < (frag0 ++ frag1).length
    · have hlt' : pos < frag0.length + frag1.length := List.length_append ▸ hlt
      obtain ⟨hrest, hnext, hsub, hscan⟩ := multipartLoop_iterate fuel st pos hlt' hcont
      have hspec : StepSpec B (frag0 ++ frag1) st st.multipartState.phase pos
          (multipartStep B frag0 frag1 st pos) := multipartStep_spec hB st pos hactive hlt
      obtain ⟨hbound, -, hact, hmoves⟩ := hspec
      have hneedle : 0 < (st.multipartState.phase.needle B).length :=
        List.length_pos_iff.mpr (needle_ne_nil hB _)
      rcases hmoves with ⟨p, hp, hphase, hcur, hemit⟩ | ⟨habs, hphase, hcur, hemit⟩
      · -- the needle is found: this stretch, then the rest of the scan
        have hlen := hp.length_le (needle_ne_nil hB _)
        have hle := hp.le
        obtain ⟨hb, ha, es, hes, hhanded⟩ :=
          ih (multipartStep B frag0 frag1 st pos).next
            (multipartStep B frag0 frag1 st pos).currentPos
            hact (by omega) (by omega) hrest
        refine ⟨by rw [hnext, hb, hbound], by rw [hnext]; exact ha, _,
          by rw [hnext]; exact .found hlt hp (by rw [← hcur, ← hphase]; exact hes), ?_⟩
        intro x y hxy hxlt
        rcases List.mem_append.mp hxy with hin | hin
        · obtain ⟨hφ, rfl, rfl⟩ := mem_emit.mp hin
          obtain ⟨w, text, hw⟩ := hemit hφ hxlt
          exact ⟨w, hscan _ _ _ hw⟩
        · obtain ⟨w, hw⟩ := hhanded x y hin hxlt
          exact ⟨w, hsub _ hw⟩
      · -- it is not: this stretch is the last
        obtain ⟨hb, ha, es, hes, -⟩ :=
          ih (multipartStep B frag0 frag1 st pos).next
            (multipartStep B frag0 frag1 st pos).currentPos
            hact (by omega) (by omega) hrest
        have hend := hes.at_end (Nat.le_of_eq hcur.symm)
        rw [hphase] at hend
        refine ⟨by rw [hnext, hb, hbound], by rw [hnext]; exact ha, _,
          by rw [hnext, hend]; exact .missing hlt habs, ?_⟩
        intro x y hin hxlt
        obtain ⟨hφ, rfl, rfl⟩ := mem_emit.mp hin
        obtain ⟨w, text, hw⟩ := hemit hφ
        exact ⟨w, hscan _ _ _ hw⟩
    · -- the position is at the end of the buffer
      have hres : result = { decision := .continue, next := st, handed := [] } := by
        simp only [result, multipartLoop]
        rw [if_neg (by simpa using hlt)]
      rw [hres]
      exact ⟨rfl, hactive, [], .stop (Nat.le_of_not_lt hlt), by simp⟩

end loop

/-! ## Section 4: Getting back in step -/

/-- A boundary that no blank line can overlap: none lies inside it, and it
    does not end in the beginning of one. -/
def BoundaryClear (B : Bytes) : Prop :=
  ¬ blankLine <:+: B ∧ ¬ [13] <:+ B ∧ ¬ [13, 10] <:+ B

instance (B : Bytes) : Decidable (BoundaryClear B) := inferInstanceAs (Decidable (_ ∧ _))

theorem ne_nil_of_dashes {B : Bytes} (hdash : dashes <+: B) : B ≠ [] := by
  rintro rfl
  simp [dashes] at hdash

/-- `v` is parsed up to `⟨φ, a⟩`, and what ends `φ` is yet to come. -/
structure ParsedTo (B v : Bytes) (φ : Phase) (a : Nat) : Prop where
  reached : Reaches B v .start ⟨φ, a⟩
  pending : Absent (φ.needle B) v a
  le : a ≤ v.length

section resync
variable {B v : Bytes} {es : List (Nat × Nat)} {φ ψ : Phase} {a k : Nat}

theorem BoundaryClear.disjoint (hclear : BoundaryClear B) (hdash : dashes <+: B) {i j : Nat}
    (hi : OccursAt B v i) (hj : OccursAt blankLine v j) : i + B.length ≤ j ∨ j + 4 ≤ i := by
  obtain ⟨hin, hcr, hcrlf⟩ := hclear
  by_contra hover
  rcases Nat.le_total i j with hij | hji
  · have hsuf : B.drop (j - i) <:+ B := List.drop_suffix _ _
    rcases hi.overlap hj hij with hpre | hpre
    · -- a nonempty end of the boundary begins a blank line
      have hlen : (B.drop (j - i)).length = B.length - (j - i) := List.length_drop
      have htake := List.prefix_iff_eq_take.mp hpre
      have hle : (B.drop (j - i)).length ≤ 4 := hpre.length_le
      have hpos : 0 < (B.drop (j - i)).length := by omega
      generalize B.drop (j - i) = t at *
      generalize t.length = m at *
      subst htake
      interval_cases m
      · exact hcr hsuf
      · exact hcrlf hsuf
      · exact hcr (List.IsSuffix.trans ⟨[13, 10], rfl⟩ hsuf)
      · exact hin hsuf.isInfix
    · exact hin (hpre.isInfix.trans hsuf.isInfix)
  · -- a dash would lie in the blank line
    obtain ⟨t, rfl⟩ := hdash
    have hoff : i - j < 4 := by omega
    rcases hj.overlap hi hji with hpre | hpre
    · interval_cases i - j <;> simp [blankLine, dashes] at hpre
    · interval_cases i - j <;> simp [blankLine, dashes] at hpre

/-- Two starts with no needle between them give the same scan, up to where
    the first stretch begins. -/
theorem Scan.move_start (hB : B ≠ []) (h : Scan B v ⟨φ, k⟩ es ψ)
    (hk : k < v.length ∨ v.length ≤ a)
    (hka : ∀ j, k ≤ j → j < a → ¬ OccursAt (φ.needle B) v j)
    (hak : ∀ j, a ≤ j → j < k → ¬ OccursAt (φ.needle B) v j) :
    ∃ es', Scan B v ⟨φ, a⟩ es' ψ ∧
      ∀ x y, (x, y) ∈ es' → (x, y) ∈ es ∨ (x = a ∧ (k, y) ∈ es) := by
  have hemit : ∀ p x y, (x, y) ∈ emit ⟨φ, a⟩ p → x = a ∧ (k, y) ∈ emit ⟨φ, k⟩ p := by
    intro p x y hxy
    obtain ⟨hφ, rfl, rfl⟩ := mem_emit.mp hxy
    exact ⟨rfl, mem_emit.mpr ⟨hφ, rfl, rfl⟩⟩
  cases h with
  | stop hlen => exact ⟨[], .stop (hk.resolve_left (Nat.not_lt.mpr hlen)), by simp⟩
  | missing hlt habs =>
    by_cases ha : a < v.length
    · refine ⟨_, .missing ha (habs.of_start hak), ?_⟩
      intro x y hxy
      exact Or.inr (hemit _ x y hxy)
    · exact ⟨[], .stop (Nat.le_of_not_lt ha), by simp⟩
  | @found _ p es _ hlt hp hrest =>
    -- no needle lies between the two starts, so both searches find this one
    have hle : a ≤ p := by
      by_contra hpa
      exact hka p hp.le (by omega) hp.occurs
    have hlen := hp.length_le (needle_ne_nil hB _)
    have hpos : 0 < (φ.needle B).length := List.length_pos_iff.mpr (needle_ne_nil hB _)
    refine ⟨_, .found (c := ⟨φ, a⟩) (by simp only at hlen ⊢; omega) (hp.of_start hle hak) hrest, ?_⟩
    intro x y hxy
    rcases List.mem_append.mp hxy with hin | hin
    · obtain ⟨rfl, hy⟩ := hemit _ x y hin
      exact Or.inr ⟨rfl, List.mem_append_left _ hy⟩
    · exact Or.inl (List.mem_append_right _ hin)

/-- The preamble starts at the beginning of the body. -/
theorem Reaches.preamble_pos (h : Reaches B v .start ⟨.preamble, a⟩) : a = 0 := by
  rcases Relation.ReflTransGen.cases_tail h with heq | ⟨⟨φ, q⟩, -, p, -, heq⟩
  · simpa [Cursor.start] using heq
  · cases φ <;> simp [Phase.following] at heq

/-- A scan that meets the needle of its phase and, right behind it, the needle
    of the next one is back in its phase. -/
theorem Scan.round_trip (hB : B ≠ []) (h : Scan B v ⟨φ, k⟩ es ψ)
    (hφ : φ.following.following = φ) (hocc : OccursAt (φ.needle B) v k)
    (hocc' : OccursAt (φ.following.needle B) v (k + (φ.needle B).length))
    (ha : k + (φ.needle B).length + (φ.following.needle B).length = a) :
    ∃ es', Scan B v ⟨φ, a⟩ es' ψ ∧ ∀ x ∈ es', x ∈ es := by
  obtain ⟨es₁, h₁, hsub₁⟩ := h.step_at hB hocc
  obtain ⟨es₂, h₂, hsub₂⟩ := h₁.step_at hB hocc'
  refine ⟨es₂, ?_, fun x hx => hsub₁ x (hsub₂ x hx)⟩
  rw [← ha]
  simpa only [hφ] using h₂

/-- **Resynchronisation.** The scan that starts at the window, in the phase
    the last chunk ended in, hands over what the scan from the parse's own
    cursor does; only the first stretch may begin elsewhere. -/
theorem resync (hdash : dashes <+: B) (hclear : v = [] ∨ BoundaryClear B)
    (hp : ParsedTo B v φ a) (d : Bytes)
    (h : Scan B (v ++ d) ⟨φ, v.length - (B.length + 4)⟩ es ψ) :
    ∃ es', Scan B (v ++ d) ⟨φ, a⟩ es' ψ ∧
      ∀ x y, (x, y) ∈ es' → (x, y) ∈ es ∨ (x = a ∧ (v.length - (B.length + 4), y) ∈ es) := by
  have hB : B ≠ [] := ne_nil_of_dashes hdash
  have hBpos : 0 < B.length := List.length_pos_iff.mpr hB
  have hneedle : (φ.needle B).length ≤ B.length + 4 := by
    cases φ <;> simp [Phase.needle, blankLine]
  have hale := hp.le
  by_cases hgap : ∃ j, v.length - (B.length + 4) ≤ j ∧ j < a ∧ OccursAt (φ.needle B) (v ++ d) j
  · -- the needle that began the phase is read again: two steps lead back
    obtain ⟨j, hkj, hja, hocc⟩ := hgap
    have hclear : BoundaryClear B := by
      rcases hclear with rfl | hclear
      · simp at hale; omega
      · exact hclear
    have hreach := hp.reached.append hB d
    cases φ with
    | preamble =>
      have := hp.reached.preamble_pos
      omega
    | headers =>
      -- the blank line read again is right before the boundary of the phase
      obtain ⟨hba, hbefore⟩ := hreach.boundary_before
      have hdis := hclear.disjoint hdash hbefore hocc
      have hj : v.length - (B.length + 4) = j := by omega
      have hnext : j + 4 = a - B.length := by omega
      rw [hj] at h ⊢
      obtain ⟨es', h', hsub⟩ := h.round_trip hB rfl hocc
        (show OccursAt B (v ++ d) (j + 4) from hnext ▸ hbefore)
        (show j + 4 + B.length = a by omega)
      exact ⟨es', h', fun x y hxy => Or.inl (hsub _ hxy)⟩
    | content =>
      -- the boundary read again is right before the headers' blank line
      obtain ⟨hba, hbefore⟩ := hreach.blankLine_before
      have hdis := hclear.disjoint hdash hocc hbefore
      have hj : v.length - (B.length + 4) = j := by omega
      have hnext : j + B.length = a - 4 := by omega
      rw [hj] at h ⊢
      obtain ⟨es', h', hsub⟩ := h.round_trip hB rfl hocc
        (show OccursAt blankLine (v ++ d) (j + B.length) from hnext ▸ hbefore)
        (show j + B.length + 4 = a by omega)
      exact ⟨es', h', fun x y hxy => Or.inl (hsub _ hxy)⟩
  · refine h.move_start hB ?_ (fun j hk hj hocc => hgap ⟨j, hk, hj, hocc⟩) ?_
    · rcases Nat.eq_zero_or_pos v.length with hv | hv
      · by_cases hd : d = []
        · right; simp [hd]; omega
        · left
          have : 0 < d.length := List.length_pos_iff.mpr hd
          simp; omega
      · left; simp; omega
    · -- before the window everything lies in `v`, where the needle is absent
      intro j haj hjk hocc
      exact hp.pending j haj ((occursAt_append (by omega)).mp hocc)

end resync

/-! ## Section 5: One chunk -/

section chunk
variable {B v d : Bytes} {es : List (Nat × Nat)} {φ ψ : Phase} {a k : Nat}

/-- A scan of the buffer is a scan of the bytes it is the end of. -/
theorem Scan.of_drop {c : Cursor} (h : Scan B (v.drop k) c es φ) :
    Scan B v ⟨c.phase, k + c.pos⟩ (es.map fun e => (k + e.1, k + e.2)) φ := by
  have hlen : (v.drop k).length = v.length - k := List.length_drop
  have hemit : ∀ (c : Cursor) (p : Nat),
      (emit c p).map (fun e => (k + e.1, k + e.2)) = emit ⟨c.phase, k + c.pos⟩ (k + p) := by
    intro c p
    unfold emit
    split <;> simp_all
  induction h with
  | @stop c hstop =>
    exact .stop (c := ⟨c.phase, k + c.pos⟩) (by simp only; omega)
  | @missing c hlt habs =>
    rw [hemit, show k + (v.drop k).length = v.length by omega]
    exact .missing (c := ⟨c.phase, k + c.pos⟩) (by simp only; omega) ((absent_drop ..).mp habs)
  | @found c p es φ hlt hp _ ih =>
    rw [List.map_append, hemit]
    refine .found (c := ⟨c.phase, k + c.pos⟩) (by simp only; omega) ((firstAt_drop ..).mp hp) ?_
    simpa only [Nat.add_assoc] using ih

/-- **Step lemma.** Scanning a chunk behind the window leaves the parse at
    the end of the chunk, and every run of content that ends in the chunk and
    starts in the window or later lies in a stretch handed over. -/
theorem chunk_covers (hdash : dashes <+: B) (hclear : v = [] ∨ BoundaryClear B)
    (hp : ParsedTo B v φ a) (h : Scan B (v ++ d) ⟨φ, v.length - (B.length + 4)⟩ es ψ) :
    (∃ a', ParsedTo B (v ++ d) ψ a') ∧
    ∀ s e p q, PartContent B (v ++ d) s e → s ≤ p → p < q → q ≤ e → v.length < q →
      v.length - (B.length + 4) ≤ p → ∃ x y, (x, y) ∈ es ∧ x ≤ p ∧ q ≤ y := by
  have hB : B ≠ [] := ne_nil_of_dashes hdash
  have hale := hp.le
  have hreach := hp.reached.append hB d
  obtain ⟨es', h', hsub⟩ := resync hdash hclear hp d h
  obtain ⟨⟨a', hr', habs', ha'⟩, hcontent⟩ := h'.in_step hB (by simp; omega)
  refine ⟨⟨a', hreach.trans hr', habs', ha'⟩, ?_⟩
  intro s e p q hpart hsp hpq hqe hvq hkp
  -- the part's content is reached from the cursor, not the other way round
  have hfrom : Reaches B (v ++ d) ⟨φ, a⟩ ⟨.content, s⟩ := by
    rcases hreach.comparable hpart.reached with hr | hr
    · exact hr
    · rcases Relation.ReflTransGen.cases_head hr with heq | ⟨c', ⟨e', he', rfl⟩, hrest⟩
      · rw [← heq]
        exact .refl
      · have hpos := Reaches.pos_le hrest
        rcases hpart.ends with hfirst | ⟨habs, -⟩
        · have : e = e' := hfirst.unique he'
          simp only at hpos
          omega
        · exact absurd habs he'.not_absent
  have hs : s < (v ++ d).length := by
    rcases hpart.ends with hfirst | ⟨-, rfl⟩
    · have := hfirst.length_le hB
      omega
    · omega
  -- its content is one stretch, and the run lies in it
  have hmem := hcontent s e hfrom hs hpart.ends
  rcases hsub s e hmem with hin | ⟨-, hin⟩
  · exact ⟨s, e, hin, hsp, hqe⟩
  · exact ⟨_, e, hin, hkp, hqe⟩

/-- A part's content in the bytes seen so far. -/
theorem PartContent.truncate {more : Bytes} {s e : Nat} (hB : B ≠ [])
    (h : PartContent B (v ++ more) s e) (hs : s ≤ v.length) :
    ∃ e', PartContent B v s e' ∧ (e' = e ∨ e' = v.length) := by
  have hreach := h.reached.of_append hs
  rcases firstAt_or_absent B v s with ⟨e', he'⟩ | habs
  · -- the content ends in `v`
    refine ⟨e', ⟨hreach, Or.inl he'⟩, Or.inl ?_⟩
    have hfirst := he'.append hB more
    rcases h.ends with hend | ⟨habs, -⟩
    · exact hfirst.unique hend
    · exact absurd habs hfirst.not_absent
  · -- it goes on behind `v`
    exact ⟨v.length, ⟨hreach, Or.inr ⟨habs, rfl⟩⟩, Or.inr rfl⟩

end chunk

/-! ## Section 6: Whole bodies -/

/-- The scanner has seen `v` and is in step with its parse. -/
structure InStep (B v : Bytes) (core : StreamingWafCore ρ) : Prop where
  boundary : core.state.boundary = some B
  active : core.state.multipartState ≠ .none
  window : core.state.trailingWindow = v.rtake (B.length + 4)
  parsed : ∃ a, ParsedTo B v core.state.multipartState.phase a

theorem scanChunk_inStep {B v chunk : Bytes} {core : StreamingWafCore ρ} (hdash : dashes <+: B)
    (hclear : v = [] ∨ BoundaryClear B) (hin : InStep B v core)
    (hcont : (core.scanChunk chunk).decision = .continue) :
    InStep B (v ++ chunk) (core.scanChunk chunk).next ∧
    ∀ s e p q, PartContent B (v ++ chunk) s e → s ≤ p → p < q → q ≤ e → v.length < q →
      v.length ≤ p + (B.length + 4) →
      ∃ call ∈ (core.scanChunk chunk).handed, slice (v ++ chunk) p q <:+: call.flatten := by
  have hB : B ≠ [] := ne_nil_of_dashes hdash
  obtain ⟨hbound, hact, hwin, a, hparsed⟩ := hin
  -- window and chunk are the end of all bytes seen
  have hbuf := rtake_append_eq_drop v chunk (B.length + 4)
  have hfits : ¬ core.state.bytesSeen + chunk.length > core.maxBufferedBytes := by
    intro hover
    simp [StreamingWafCore.scanChunk, hover] at hcont
  -- the loop runs over window and chunk
  set loop := multipartLoop core.inner B (v.rtake (B.length + 4)) chunk
    ((v.rtake (B.length + 4)).length + chunk.length + 2) (core.state.countChunk chunk) 0 with hloop
  have hloopcont : loop.decision = .continue := by
    cases hd : loop.decision with
    | «continue» => rfl
    | block status reason =>
      simp [StreamingWafCore.scanChunk, hfits, hbound, processMultipartChunk, hwin, ← hloop,
        hd] at hcont
  have hresult : core.scanChunk chunk = ⟨.continue,
      { core with
        state :=
          { loop.next with
            trailingWindow := List.rtake (v.rtake (B.length + 4) ++ chunk) (B.length + 4) } },
      loop.handed⟩ := by
    have hcopy := copyFromFragments_eq [] (v.rtake (B.length + 4)) chunk
      ((v.rtake (B.length + 4)).length + chunk.length - (B.length + 4))
      ((v.rtake (B.length + 4)).length + chunk.length) (Nat.sub_le _ _)
    rw [← List.length_append, slice_to_end, List.nil_append, ← rtake_eq_drop,
      List.length_append] at hcopy
    simp only [StreamingWafCore.scanChunk, if_neg hfits, countChunk_boundary, hbound,
      Option.isSome_some, if_true, processMultipartChunk, countChunk_trailingWindow, hwin,
      ← hloop, hloopcont, hcopy]
  obtain ⟨hb, ha, es, hscan, hhanded⟩ :=
    multipartLoop_scan hB ((v.rtake (B.length + 4)).length + chunk.length + 2)
      (core.state.countChunk chunk) 0 hact (Nat.zero_le _) (by simp) hloopcont
  rw [hbuf] at hscan hhanded
  obtain ⟨hnext, hcovers⟩ := chunk_covers hdash hclear hparsed hscan.of_drop
  rw [hresult]
  refine ⟨⟨hb.trans hbound, ha, ?_, hnext⟩, ?_⟩
  · exact rtake_rtake_append v chunk (B.length + 4)
  · intro s e p q hpart hsp hpq hqe hvq hkp
    obtain ⟨x, y, hxy, hx, hy⟩ := hcovers s e p q hpart hsp hpq hqe hvq (by omega)
    -- back from positions in the body to positions in the buffer
    obtain ⟨⟨x', y'⟩, hmem, heq⟩ := List.mem_map.mp hxy
    simp only [Prod.mk.injEq] at heq
    obtain ⟨w, hw⟩ := hhanded x' y' hmem (by omega)
    refine ⟨_, hw, ?_⟩
    rw [slice_drop, heq.1, heq.2]
    have : slice (v ++ chunk) p q <:+: slice (v ++ chunk) x y := slice_infix_slice _ hx hy
    exact this.trans ⟨w, [], by simp⟩

/-- **Run lemma.** A run of content bytes is handed over in one piece if it
    starts at most a window's length before each chunk border inside it. -/
theorem scanChunks_covers {B v : Bytes} {core core' : StreamingWafCore ρ} {chunks : List Bytes}
    {handed : List (List Bytes)} (hdash : dashes <+: B) (hin : InStep B v core)
    (hclear : v = [] ∧ chunks.length ≤ 1 ∨ BoundaryClear B)
    (hscan : core.scanChunks chunks = some (core', handed))
    {s e p q : Nat} (hpart : PartContent B (v ++ chunks.flatten) s e)
    (hsp : s ≤ p) (hpq : p < q) (hqe : q ≤ e) (hvq : v.length < q)
    (hborder : ∀ before after, chunks = before ++ after → (v ++ before.flatten).length < q →
      (v ++ before.flatten).length ≤ p + (B.length + 4)) :
    ∃ call ∈ handed, slice (v ++ chunks.flatten) p q <:+: call.flatten := by
  have hB : B ≠ [] := ne_nil_of_dashes hdash
  induction chunks generalizing v core handed with
  | nil =>
    -- no chunk is left, but the run ends behind `v`
    have hle : e ≤ v.length := by
      rcases hpart.ends with hfirst | ⟨-, rfl⟩
      · have := hfirst.length_le hB
        simp at this
        omega
      · simp
    omega
  | cons chunk chunks ih =>
    obtain ⟨hcont, rest, hrest, rfl⟩ := scanChunks_cons hscan
    have hclear' : v = [] ∨ BoundaryClear B := hclear.imp_left And.left
    obtain ⟨hin', hcovers⟩ := scanChunk_inStep hdash hclear' hin hcont
    have hassoc : v ++ (chunk :: chunks).flatten = (v ++ chunk) ++ chunks.flatten := by simp
    rw [hassoc] at hpart ⊢
    by_cases hq : q ≤ (v ++ chunk).length
    · -- the run ends in this chunk
      obtain ⟨e', hpart', he'⟩ := hpart.truncate hB (by omega)
      have hfirst := hborder [] (chunk :: chunks) rfl (by simpa using hvq)
      obtain ⟨call, hcall, hsub⟩ :=
        hcovers s e' p q hpart' hsp hpq (by omega) hvq (by simpa using hfirst)
      refine ⟨call, List.mem_append_left _ hcall, ?_⟩
      rw [slice_append _ _ _ _ hq]
      exact hsub
    · have hclear'' : v ++ chunk = [] ∧ chunks.length ≤ 1 ∨ BoundaryClear B := by
        rcases hclear with ⟨rfl, hlen⟩ | hclear
        · -- there is no further chunk, so the run would have ended
          have hnone : chunks = [] := by
            simp only [List.length_cons] at hlen
            exact List.length_eq_zero_iff.mp (by omega)
          subst hnone
          rcases hpart.ends with hfirst | ⟨-, rfl⟩
          · have := hfirst.length_le hB
            simp at this hq
            omega
          · simp at hqe hq
            omega
        · exact Or.inr hclear
      obtain ⟨call, hcall, hsub⟩ := ih hin' hclear'' hrest hpart (by omega) (by
        intro before after heq hlt
        have := hborder (chunk :: before) after (by simp [heq]) (by simpa using hlt)
        simpa using this)
      exact ⟨call, List.mem_append_right _ hcall, hsub⟩

/-- Where a split into chunks does no harm: with more than one chunk the
    boundary is not confused with a blank line, and no chunk border lies
    inside a part's content further than the window from its beginning,
    unless the window is long enough for every run. -/
structure HarmlessSplits (B : Bytes) (chunks : List Bytes) : Prop where
  clear : 2 ≤ chunks.length → BoundaryClear B
  shallow : ∀ before after s e, chunks = before ++ after → PartContent B chunks.flatten s e →
    s < before.flatten.length → before.flatten.length < e →
    before.flatten.length ≤ s + (B.length + 4) ∨ trailingWindowSize ≤ B.length + 5

theorem setMultipartBoundary_inStep (inner : AttackDetector ρ) (chunkSize maxBufferedBytes : Nat)
    (boundary : Bytes) :
    InStep (dashes ++ boundary) []
      ((StreamingWafCore.withConfig inner chunkSize maxBufferedBytes).setMultipartBoundary
        boundary) := by
  refine ⟨rfl, by simp [StreamingWafCore.setMultipartBoundary], by rw [List.rtake_nil]; rfl, 0,
    .refl, ?_, Nat.le_refl _⟩
  exact absent_of_length_le (by simp [MultipartState.phase, StreamingWafCore.setMultipartBoundary,
    Phase.needle, dashes]) (Nat.le_refl _)

/-- **Coverage of multipart bodies.** If the splits are harmless, every run of
    at most 512 bytes of a part's content is handed to the detector in one
    piece, as it is when the body arrives in one chunk. -/
theorem multipart_scan_covers (inner : AttackDetector ρ) (chunkSize maxBufferedBytes : Nat)
    (boundary : Bytes) (chunks : List Bytes) {core₁ core₂ : StreamingWafCore ρ}
    {handed handedWhole : List (List Bytes)}
    (hscan : ((StreamingWafCore.withConfig inner chunkSize maxBufferedBytes).setMultipartBoundary
      boundary).scanChunks chunks = some (core₁, handed))
    (hwhole : ((StreamingWafCore.withConfig inner chunkSize maxBufferedBytes).setMultipartBoundary
      boundary).scanChunks [chunks.flatten] = some (core₂, handedWhole))
    (hsplits : HarmlessSplits (dashes ++ boundary) chunks)
    {s e : Nat} (hpart : PartContent (dashes ++ boundary) chunks.flatten s e)
    {run : Bytes} (hne : run ≠ []) (hlen : run.length ≤ trailingWindowSize)
    (hrun : run <:+: slice chunks.flatten s e) :
    (∃ call ∈ handed, run <:+: call.flatten) ∧
    (∃ call ∈ handedWhole, run <:+: call.flatten) := by
  have hdash : dashes <+: dashes ++ boundary := List.prefix_append _ _
  have hstart := setMultipartBoundary_inStep inner chunkSize maxBufferedBytes boundary
  have hpos : 0 < run.length := List.length_pos_iff.mpr hne
  -- the run is the slice of the body from `s + i` on
  obtain ⟨i, hi, hslice⟩ := exists_slice_of_infix hrun
  have hi' : (slice chunks.flatten s e).length ≤ e - s := List.length_take_le _ _
  rw [slice_slice _ (by omega)] at hslice
  rw [hslice]
  constructor
  · have hclear : ([] : Bytes) = [] ∧ chunks.length ≤ 1 ∨ BoundaryClear (dashes ++ boundary) := by
      rcases Nat.lt_or_ge chunks.length 2 with hfew | hmany
      · exact Or.inl ⟨rfl, by omega⟩
      · exact Or.inr (hsplits.clear hmany)
    refine scanChunks_covers hdash hstart hclear hscan (s := s) (e := e) hpart (by omega) (by omega)
      (by omega) (by simp; omega) ?_
    intro before after heq hlt
    simp only [List.nil_append] at hlt ⊢
    by_cases hs : s < before.flatten.length
    · rcases hsplits.shallow before after s e heq hpart hs (by omega) with hshallow | hwide
      · omega
      · omega
    · omega
  · have hend : e ≤ chunks.flatten.length := by
      rcases hpart.ends with hfirst | ⟨-, rfl⟩
      · have := hfirst.length_le (by simp [dashes])
        omega
      · exact Nat.le_refl _
    have hflat : ([] : Bytes) ++ [chunks.flatten].flatten = chunks.flatten := by simp
    rw [← hflat] at hpart ⊢
    refine scanChunks_covers hdash hstart (Or.inl ⟨rfl, Nat.le_refl _⟩) hwhole (s := s) (e := e)
      hpart (by omega) (by omega) (by omega) (by simp; omega) ?_
    intro before after heq hlt
    rcases before with - | ⟨b, - | ⟨b', t⟩⟩
    · simp
    · -- behind the only chunk nothing is left of the run
      simp only [List.singleton_append, List.cons.injEq] at heq
      rw [← heq.1] at hlt
      simp only [List.nil_append, List.flatten_cons, List.flatten_nil, List.append_nil] at hlt
      omega
    · simp at heq

/-- The part of a body `--b`, blank line, content. -/
theorem partContent_of_one_part {body : Bytes}
    (hboundary : FirstAt (dashes ++ [98]) body 0 0) (hblank : FirstAt blankLine body 3 3)
    (hlast : ∀ j < body.length, 7 ≤ j → ¬ OccursAt (dashes ++ [98]) body j) :
    PartContent (dashes ++ [98]) body 7 body.length := by
  refine ⟨?_, Or.inr ⟨absent_of_lt_length (by simp) hlast, rfl⟩⟩
  have hfirst : Next (dashes ++ [98]) body .start ⟨.headers, 3⟩ := ⟨0, hboundary, rfl⟩
  have hsecond : Next (dashes ++ [98]) body ⟨.headers, 3⟩ ⟨.content, 7⟩ := ⟨3, hblank, rfl⟩
  exact (Relation.ReflTransGen.single hfirst).tail hsecond

/-- With boundary `b`, the content `abcd` may be split in the middle. -/
theorem multipart_scan_covers_abcd :
    (∃ call ∈ [[[], [97, 98]], [[97, 98], [98, 13, 10, 13, 10, 97, 98, 99, 100]]],
      [98, 99] <:+: List.flatten (α := UInt8) call) ∧
    (∃ call ∈ [[[], [97, 98, 99, 100]]], [98, 99] <:+: List.flatten (α := UInt8) call) :=
  multipart_scan_covers silentDetector 1024 1024 [98]
    [dashes ++ [98] ++ blankLine ++ [97, 98], [99, 100]] rfl rfl
    ⟨fun _ => by decide, by
      intro before after s e heq hpart _ _
      left
      have hs := hpart.reached.blankLine_before.1
      have hlen : before.flatten.length ≤ 11 := by
        have := congrArg (fun l => l.flatten.length) heq
        simp [dashes, blankLine] at this
        simp
        omega
      simp only [dashes, List.length_append, List.length_cons, List.length_nil]
      omega⟩
    (partContent_of_one_part (by decide) (by decide) (by decide))
    (by decide) (by decide) (by decide)

/-- A run of content that starts before the window of the chunk it ends in is
    never seen in one piece: with boundary `b` the scanner keeps 7 bytes, and
    of `0123456789` then `abc` it hands over `0123456789` and
    `01234567893456789abc`, but not the `23456789a` it finds in the undivided
    body. -/
theorem multipart_scan_misses_run :
    let core := (StreamingWafCore.withConfig silentDetector 1024 1024).setMultipartBoundary [98]
    let chunks : List Bytes :=
      [dashes ++ [98] ++ blankLine ++ [48, 49, 50, 51, 52, 53, 54, 55, 56, 57], [97, 98, 99]]
    let run : Bytes := [50, 51, 52, 53, 54, 55, 56, 57, 97]
    PartContent (dashes ++ [98]) chunks.flatten 7 chunks.flatten.length ∧
    run <:+: slice chunks.flatten 7 chunks.flatten.length ∧
    run.length ≤ trailingWindowSize ∧
    (∃ core₁ handed, core.scanChunks chunks = some (core₁, handed) ∧
      ∀ call ∈ handed, ¬ run <:+: call.flatten) ∧
    (∃ core₂ handed, core.scanChunks [chunks.flatten] = some (core₂, handed) ∧
      ∃ call ∈ handed, run <:+: call.flatten) := by
  refine ⟨partContent_of_one_part (by decide) (by decide) (by decide), by decide, by decide, ?_, ?_⟩
  · exact ⟨_, [[[], [48, 49, 50, 51, 52, 53, 54, 55, 56, 57]],
      [[48, 49, 50, 51, 52, 53, 54, 55, 56, 57], [51, 52, 53, 54, 55, 56, 57, 97, 98, 99]]],
      rfl, by decide⟩
  · exact ⟨_, [[[], [48, 49, 50, 51, 52, 53, 54, 55, 56, 57, 97, 98, 99]]], rfl, by decide⟩

end Synvoid.Waf
