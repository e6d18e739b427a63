import Synvoid.Waf.Streaming

/-! # Cross-chunk coverage of regular bodies

    A body without a multipart boundary is scanned chunk by chunk, each chunk
    behind the trailing window of the stream. However the body is split, the
    window is the last 512 bytes seen so far (fewer if fewer were seen).
    Hence every run of at most 513 bytes lies in one buffer the detector
    sees, and each such buffer is a contiguous piece of the body.
-/

namespace Synvoid.Waf

open Synvoid.Framework

variable {ρ : Type}

/-! ## Section 1: The window after one chunk -/

/-- The rebuilt window is the trailing window of the old one and the chunk. -/
theorem nextTrailingWindow_eq (window chunk : Bytes)
    (h : window.length ≤ trailingWindowSize) :
    nextTrailingWindow window chunk = (window ++ chunk).rtake trailingWindowSize := by
  rcases Nat.le_total trailingWindowSize chunk.length with hlong | hshort
  · -- the chunk alone fills the window
    have hmax : trailingWindowSize - chunk.length = 0 := by omega
    have hold : nextTrailingWindow window chunk =
        chunk.drop (chunk.length - trailingWindowSize) := by
      simp [nextTrailingWindow, hmax]
    rw [hold, rtake_eq_drop, List.length_append, List.drop_append,
      List.drop_of_length_le (by omega : window.length ≤ _), List.nil_append,
      show window.length + chunk.length - trailingWindowSize - window.length =
        chunk.length - trailingWindowSize by omega]
  · -- the whole chunk is kept, with as much of the old window as fits
    have hkeep : nextTrailingWindow window chunk =
        window.drop (window.length - (trailingWindowSize - chunk.length)) ++ chunk := by
      unfold nextTrailingWindow
      simp only [List.length_drop]
      have hall : chunk.length - (trailingWindowSize - (window.length -
          (window.length - min window.length (trailingWindowSize - chunk.length)))) = 0 := by
        omega
      rw [hall, List.drop_zero, show window.length -
        min window.length (trailingWindowSize - chunk.length) =
          window.length - (trailingWindowSize - chunk.length) by omega]
    rw [hkeep, rtake_eq_drop, List.length_append, List.drop_append_of_le_length (by omega),
      show window.length + chunk.length - trailingWindowSize =
        window.length - (trailingWindowSize - chunk.length) by omega]

/-! ## Section 2: What a run hands to the detector -/

/-- The fragment sequences for `chunks` after the bytes `seen`. -/
def regularHanded (seen : Bytes) : List Bytes → List (List Bytes)
  | [] => []
  | chunk :: chunks =>
    [seen.rtake trailingWindowSize, chunk] :: regularHanded (seen ++ chunk) chunks

/-- The scanner has seen exactly `seen`, and no boundary was set. -/
structure RegularInv (seen : Bytes) (st : StreamingState ρ) : Prop where
  boundary : st.boundary = .none
  window : st.trailingWindow = seen.rtake trailingWindowSize

theorem processRegularChunk_spec (inner : AttackDetector ρ) (st : StreamingState ρ)
    (chunk : Bytes) (h : (processRegularChunk inner st chunk).decision = .continue) :
    (processRegularChunk inner st chunk).next =
        { st with trailingWindow := nextTrailingWindow st.trailingWindow chunk } ∧
    (processRegularChunk inner st chunk).handed = [[st.trailingWindow, chunk]] := by
  cases hcheck : inner.checkBodyFragments [st.trailingWindow, chunk] with
  | none => simp [processRegularChunk, hcheck]
  | some r => simp [processRegularChunk, hcheck, detected] at h

/-- **Step lemma.** A chunk that is not blocked is appended to what was seen,
    and is handed over behind the trailing window. -/
theorem RegularInv.scanChunk {core : StreamingWafCore ρ} {seen : Bytes}
    (hinv : RegularInv seen core.state) (chunk : Bytes)
    (h : (core.scanChunk chunk).decision = .continue) :
    RegularInv (seen ++ chunk) (core.scanChunk chunk).next.state ∧
    (core.scanChunk chunk).handed = [[seen.rtake trailingWindowSize, chunk]] := by
  -- a chunk past the limit is blocked
  by_cases hsize : core.state.bytesSeen + chunk.length > core.maxBufferedBytes
  · simp [StreamingWafCore.scanChunk, hsize] at h
  · have hscan : core.scanChunk chunk =
        { decision := (processRegularChunk core.inner (core.state.countChunk chunk) chunk).decision
          next := { core with
            state := (processRegularChunk core.inner (core.state.countChunk chunk) chunk).next }
          handed :=
            (processRegularChunk core.inner (core.state.countChunk chunk) chunk).handed } := by
      simp [StreamingWafCore.scanChunk, hsize, hinv.boundary]
    rw [hscan] at h ⊢
    obtain ⟨hnext, hhanded⟩ := processRegularChunk_spec _ _ _ h
    have hlen : (seen.rtake trailingWindowSize).length ≤ trailingWindowSize := by
      rw [rtake_eq_drop, List.length_drop]; omega
    refine ⟨⟨?_, ?_⟩, ?_⟩
    · simpa [hnext] using hinv.boundary
    · simp only [hnext, countChunk_trailingWindow]
      rw [hinv.window, nextTrailingWindow_eq _ _ hlen, rtake_rtake_append]
    · simp only [hhanded, countChunk_trailingWindow, hinv.window]

/-- **Run lemma.** After chunks none of which is blocked, the window is the
    trailing window of all bytes seen, and the calls are `regularHanded`. -/
theorem RegularInv.scanChunks {core core' : StreamingWafCore ρ} {seen : Bytes}
    {handed : List (List Bytes)} (hinv : RegularInv seen core.state) (chunks : List Bytes)
    (h : core.scanChunks chunks = some (core', handed)) :
    RegularInv (seen ++ chunks.flatten) core'.state ∧ handed = regularHanded seen chunks := by
  induction chunks generalizing core seen handed with
  | nil =>
    simp only [StreamingWafCore.scanChunks, Option.some.injEq, Prod.mk.injEq] at h
    obtain ⟨rfl, rfl⟩ := h
    exact ⟨by simpa using hinv, rfl⟩
  | cons chunk chunks ih =>
    obtain ⟨hd, rest, hrest, rfl⟩ := scanChunks_cons h
    obtain ⟨hinv', hhanded⟩ := hinv.scanChunk chunk hd
    obtain ⟨hfinal, rfl⟩ := ih hinv' hrest
    refine ⟨by simpa using hfinal, ?_⟩
    rw [hhanded]
    rfl

/-! ## Section 3: Coverage -/

/-- Every call is a window and one of the chunks. -/
theorem regularHanded_shape (seen : Bytes) (chunks : List Bytes) :
    ∀ call ∈ regularHanded seen chunks,
      ∃ window chunk, call = [window, chunk] ∧ chunk ∈ chunks := by
  induction chunks generalizing seen with
  | nil => simp [regularHanded]
  | cons chunk chunks ih =>
    intro call hcall
    rcases List.mem_cons.mp hcall with rfl | hrest
    · exact ⟨_, chunk, rfl, List.mem_cons_self⟩
    · obtain ⟨window, c, rfl, hc⟩ := ih (seen ++ chunk) call hrest
      exact ⟨window, c, rfl, List.mem_cons_of_mem _ hc⟩

/-- Every handed buffer is a contiguous piece of the body. -/
theorem regularHanded_infix (seen : Bytes) (chunks : List Bytes) :
    ∀ call ∈ regularHanded seen chunks, call.flatten <:+: seen ++ chunks.flatten := by
  induction chunks generalizing seen with
  | nil => simp [regularHanded]
  | cons chunk chunks ih =>
    intro call hcall
    rcases List.mem_cons.mp hcall with rfl | hrest
    · -- window and chunk are the end of what was seen
      have hsuffix : [seen.rtake trailingWindowSize, chunk].flatten <:+ seen ++ chunk := by
        simp only [List.flatten_cons, List.flatten_nil, List.append_nil, rtake_append_eq_drop]
        exact List.drop_suffix _ _
      have hfront : seen ++ chunk <+: seen ++ (chunk :: chunks).flatten := by
        simp
      exact hsuffix.isInfix.trans hfront.isInfix
    · have := ih (seen ++ chunk) call hrest
      simpa using this

/-- A run of at most 513 bytes that ends in one of the chunks lies in the
    buffer handed over for that chunk. -/
theorem regularHanded_covers (seen : Bytes) (chunks : List Bytes) (a len : Nat)
    (hlen : len ≤ trailingWindowSize + 1) (hstart : seen.length < a + len)
    (hend : a + len ≤ (seen ++ chunks.flatten).length) :
    ∃ call ∈ regularHanded seen chunks,
      slice (seen ++ chunks.flatten) a (a + len) <:+: call.flatten := by
  induction chunks generalizing seen with
  | nil => simp at hend; omega
  | cons chunk chunks ih =>
    rcases Nat.lt_or_ge (seen ++ chunk).length (a + len) with hlater | hhere
    · -- the run ends in a later chunk
      obtain ⟨call, hcall, hin⟩ := ih (seen ++ chunk) hlater (by simpa using hend)
      exact ⟨call, List.mem_cons_of_mem _ hcall, by simpa using hin⟩
    · -- it ends here, and at most 512 of its bytes lie before the chunk
      refine ⟨_, List.mem_cons_self, ?_⟩
      have hbuffer : [seen.rtake trailingWindowSize, chunk].flatten =
          slice (seen ++ chunk) (seen.length - trailingWindowSize) (seen ++ chunk).length := by
        rw [slice_to_end, ← rtake_append_eq_drop]; simp
      rw [hbuffer, List.flatten_cons, ← List.append_assoc, slice_append _ _ _ _ hhere]
      exact slice_infix_slice _ (by omega) hhere

/-- **Coverage.** For every body and every split of it into chunks none of
    which is blocked: after every chunk the window is the last 512 bytes so
    far, every run of up to 513 bytes lies in one handed buffer, and every
    handed buffer is a window and a chunk that are contiguous in the body. -/
theorem regular_scan_covers (inner : AttackDetector ρ) (chunkSize maxBufferedBytes : Nat)
    (chunks : List Bytes) (core : StreamingWafCore ρ) (handed : List (List Bytes))
    (h : (StreamingWafCore.withConfig inner chunkSize maxBufferedBytes).scanChunks chunks =
      some (core, handed)) :
    (∀ before after, chunks = before ++ after →
      ∃ core' handed', (StreamingWafCore.withConfig inner chunkSize maxBufferedBytes).scanChunks
          before = some (core', handed') ∧
        core'.state.trailingWindow = before.flatten.rtake 512) ∧
    (∀ run, run ≠ [] → run.length ≤ 513 → run <:+: chunks.flatten →
      ∃ window chunk, [window, chunk] ∈ handed ∧ run <:+: window ++ chunk) ∧
    (∀ call ∈ handed, ∃ window chunk, call = [window, chunk] ∧
      chunk ∈ chunks ∧ window ++ chunk <:+: chunks.flatten) := by
  -- a fresh scanner has seen nothing
  have hinit : RegularInv [] (StreamingWafCore.withConfig inner chunkSize maxBufferedBytes).state :=
    ⟨rfl, rfl⟩
  obtain ⟨-, rfl⟩ := hinit.scanChunks chunks h
  refine ⟨?_, ?_, ?_⟩
  · rintro before after rfl
    obtain ⟨core', handed', hbefore⟩ := scanChunks_prefix before after h
    obtain ⟨hinv, -⟩ := hinit.scanChunks before hbefore
    exact ⟨core', handed', hbefore, by simpa [trailingWindowSize] using hinv.window⟩
  · intro run hne hlen hrun
    obtain ⟨a, hend, heq⟩ := exists_slice_of_infix hrun
    have hpos : 0 < run.length := List.length_pos_iff.mpr hne
    obtain ⟨call, hcall, hin⟩ := regularHanded_covers [] chunks a run.length hlen
      (by simp; omega) (by simpa using hend)
    obtain ⟨window, chunk, rfl, -⟩ := regularHanded_shape [] chunks call hcall
    refine ⟨window, chunk, hcall, ?_⟩
    rw [heq]
    simpa using hin
  · intro call hcall
    obtain ⟨window, chunk, rfl, hmem⟩ := regularHanded_shape [] chunks call hcall
    have hin := regularHanded_infix [] chunks _ hcall
    exact ⟨window, chunk, rfl, hmem, by simpa using hin⟩

theorem regular_scan_covers_two_chunks :
    ∃ window chunk, [window, chunk] ∈ [[[], [1, 2]], [[1, 2], ([3] : Bytes)]] ∧
      [2, 3] <:+: window ++ chunk :=
  (regular_scan_covers silentDetector 4096 16 [[1, 2], [3]] _ _ rfl).2.1
    [2, 3] (by decide) (by decide) ⟨[1], [], rfl⟩

end Synvoid.Waf
