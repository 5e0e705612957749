import EbpfProfiler.StackDeltas.UnwindTableTheorems

/-!
# What `loadDeltas` emits

Exactly the rows of the input without repeats (`convertDeltas_emitted`).
-/

namespace EbpfProfiler.StackDeltas

open List UnwindInfo
open Lib (Comp lastLe readAt dropRepeats valueAfter)

variable {mapUpdate : BitVec 16 → UnwindInfo → Option String} {l : List (ℕ × UnwindInfo)}
  {st st' : Loader} {info : UnwindInfo} {t t' : UnwindTable} {firstPage : ℕ}

/-! ## Emitted rows -/

/-- The deltas emitted so far are the rows `l` without repeats, under indices of `t`. -/
structure Emitted (t : UnwindTable) (st : Loader) (l : List (ℕ × UnwindInfo)) : Prop where
  issued : ∀ d ∈ st.ebpfDeltas, t.Issued d.unwindInfo
  decoded : st.ebpfDeltas.map (fun d => (d.address, t.decode d.unwindInfo)) = dropRepeats none l

lemma Emitted.extends (h : Emitted t st l) (ht : t.Synced) (ht' : t'.Synced) (he : t.Extends t') :
    Emitted t' st l := by
  refine ⟨fun d hd => (h.issued d hd).extends he, ?_⟩
  rw [← h.decoded]
  apply map_congr_left
  intro d hd
  rw [UnwindTable.decode_of_extends ht ht' he (h.issued d hd)]

lemma Emitted.valueAfter_eq (h : Emitted t st l) :
    valueAfter none l = st.ebpfDeltas.getLast?.map (fun d => t.decode d.unwindInfo) := by
  rw [← Lib.valueAfter_dropRepeats, ← h.decoded, valueAfter, getLast?_map, Option.or_none,
    Option.map_map]
  rfl

/-- Equal indices are equal recipes, as `dropRepeats` tests. -/
lemma Emitted.repeats_iff {index : BitVec 16} (ht : t.Synced) (hst : Emitted t st l)
    (hissued : t.Issued index) (hdecode : t.decode index = info) :
    st.ebpfDeltas.getLast?.map (·.unwindInfo) = some index ↔ valueAfter none l = some info := by
  rw [hst.valueAfter_eq]
  cases hlast : st.ebpfDeltas.getLast? with
  | none => simp
  | some d =>
    have hd := hst.issued d (mem_of_getLast? hlast)
    simp only [Option.map_some, Option.some.injEq]
    constructor
    · rintro rfl
      exact hdecode
    · intro heq
      exact UnwindTable.issued_inj ht hd hissued (heq.trans hdecode.symm)

/-- `addDelta` drops a repeat, adds a delta on a counted page, and panics otherwise. -/
lemma addDelta_cases (firstPage addr : ℕ) {index : BitVec 16} (ht : t.Synced)
    (hinfo : info.Encodable) (hst : Emitted t st l)
    (hget : (getUnwindInfoIndex mapUpdate info).exec t = (.ok index, t')) :
    (valueAfter none l = some info ∧
      (addDelta mapUpdate firstPage st addr info).exec t = (.ok st, t')) ∨
    (valueAfter none l ≠ some info ∧ pageIndex firstPage addr < st.numDeltasPerPage.length ∧
      (addDelta mapUpdate firstPage st addr info).exec t = (.ok {
        ebpfDeltas := st.ebpfDeltas ++ [⟨addr, index⟩]
        numDeltasPerPage := st.numDeltasPerPage.modify (pageIndex firstPage addr) (· + 1) }, t')) ∨
    (valueAfter none l ≠ some info ∧ st.numDeltasPerPage.length ≤ pageIndex firstPage addr ∧
      (addDelta mapUpdate firstPage st addr info).exec t =
        (.error (.panic "index out of range"), t')) := by
  obtain ⟨ht', hext⟩ := getUnwindInfoIndex_synced mapUpdate info ht
  rw [hget] at ht' hext
  obtain ⟨hissued, hdecode⟩ := getUnwindInfoIndex_ok ht hinfo hget
  have htest := Emitted.repeats_iff ht' (hst.extends ht ht' hext) hissued hdecode
  unfold addDelta
  rw [Comp.exec_bind_of_ok hget]
  by_cases hrep : st.ebpfDeltas.getLast?.map (·.unwindInfo) = some index
  · rw [if_pos hrep]
    exact .inl ⟨htest.mp hrep, rfl⟩
  · rw [if_neg hrep]
    by_cases hpage : pageIndex firstPage addr < st.numDeltasPerPage.length
    · rw [if_pos hpage]
      exact .inr (.inl ⟨mt htest.mpr hrep, hpage, rfl⟩)
    · rw [if_neg hpage]
      exact .inr (.inr ⟨mt htest.mpr hrep, not_lt.mp hpage, rfl⟩)

/-- **Step lemma.** `addDelta` adds one row. -/
lemma addDelta_emitted {addr : ℕ} (ht : t.Synced) (hinfo : info.Encodable) (hst : Emitted t st l)
    (h : (addDelta mapUpdate firstPage st addr info).exec t = (.ok st', t')) :
    t'.Synced ∧ Emitted t' st' (l ++ [(addr, info)]) ∧
      st'.numDeltasPerPage.length = st.numDeltasPerPage.length := by
  obtain ⟨index, t₁, hget, -⟩ := Comp.exec_bind_ok.mp h
  obtain ⟨ht₁, hext⟩ := getUnwindInfoIndex_synced mapUpdate info ht
  rw [hget] at ht₁ hext
  obtain ⟨hissued, hdecode⟩ := getUnwindInfoIndex_ok ht hinfo hget
  have hst₁ : Emitted t₁ st l := hst.extends ht ht₁ hext
  rcases addDelta_cases firstPage addr ht hinfo hst hget with ⟨hrep, hexec⟩ |
    ⟨hrep, -, hexec⟩ | ⟨-, -, hexec⟩
  · cases hexec.symm.trans h
    refine ⟨ht₁, ⟨hst₁.issued, ?_⟩, rfl⟩
    rw [Lib.dropRepeats_append, hrep, dropRepeats, if_pos rfl, dropRepeats, append_nil]
    exact hst₁.decoded
  · cases hexec.symm.trans h
    refine ⟨ht₁, ⟨?_, ?_⟩, by simp⟩
    · intro d hd
      rcases mem_append.mp hd with hd | hd
      · exact hst₁.issued d hd
      · rw [mem_singleton.mp hd]
        exact hissued
    · rw [Lib.dropRepeats_append, dropRepeats, if_neg hrep, dropRepeats, map_append, hst₁.decoded,
        map_singleton, hdecode]
  · cases hexec.symm.trans h

lemma addDelta_first_page {addr : ℕ} (hst : st.ebpfDeltas = [])
    (h : (addDelta mapUpdate firstPage st addr info).exec t = (.ok st', t')) :
    pageIndex firstPage addr < st.numDeltasPerPage.length := by
  obtain ⟨index, t₁, -, h⟩ := Comp.exec_bind_ok.mp h
  rw [hst] at h
  by_contra hpage
  rw [if_neg hpage] at h
  cases h

/-! ## A list of rows -/

def addRows (mapUpdate : BitVec 16 → UnwindInfo → Option String) (firstPage : ℕ) (st : Loader)
    (l : List (ℕ × UnwindInfo)) : Comp UnwindTable Loader :=
  l.foldlM (fun st row => addDelta mapUpdate firstPage st row.1 row.2) st

lemma addRows_append (mapUpdate : BitVec 16 → UnwindInfo → Option String) (firstPage : ℕ)
    (st : Loader) (l m : List (ℕ × UnwindInfo)) : addRows mapUpdate firstPage st (l ++ m) =
      addRows mapUpdate firstPage st l >>= fun st => addRows mapUpdate firstPage st m :=
  foldlM_append

/-- **Run lemma.** Rows that are added are emitted. -/
lemma addRows_emitted {m : List (ℕ × UnwindInfo)} (hm : ∀ row ∈ m, row.2.Encodable) (ht : t.Synced)
    (hst : Emitted t st l) (h : (addRows mapUpdate firstPage st m).exec t = (.ok st', t')) :
    t'.Synced ∧ Emitted t' st' (l ++ m) := by
  induction m generalizing st t l with
  | nil =>
    cases h
    exact ⟨ht, by simpa using hst⟩
  | cons row m ih =>
    obtain ⟨st₁, t₁, hadd, h⟩ := Comp.exec_bind_ok.mp h
    obtain ⟨ht₁, hst₁, -⟩ := addDelta_emitted ht (hm row mem_cons_self) hst hadd
    rw [append_cons]
    exact ih (fun r hr => hm r (mem_cons_of_mem _ hr)) ht₁ hst₁ h

/-! ## Merged recipes -/

lemma encodable_withMerge {d : StackDelta} (n : StackDelta) (h : d.info.Canonical) :
    (d.info.withMerge (calculateMergeOpcode d n)).Encodable := by
  intro hc
  rw [isCommand_withMerge] at hc
  have hzero : calculateMergeOpcode d n = 0 := by
    rw [calculateMergeOpcode, if_pos hc]
  rw [hzero, withMerge_zero h.merge]
  exact h.encodable hc

/-! ## The loops -/

section Loops

variable (mapUpdate : BitVec 16 → UnwindInfo → Option String) (firstPage : ℕ)

/-- The inner loop adds the rows of the block, and ends with no merge pending. -/
lemma loadBlock_eq (start : ℕ) (ds : List StackDelta) (hds : ∀ d ∈ ds, d.info.Canonical)
    {u : UnwindInfo} (hu : u.mergeOpcode = 0) :
    ∃ u' : UnwindInfo, u'.mergeOpcode = 0 ∧ ∀ st, loadBlock mapUpdate firstPage start u ds st =
      addRows mapUpdate firstPage st (blockRows start ds) >>= fun st => pure (u', st) := by
  -- the recursion of `blockRows`: a merged pair takes two rounds of the loop
  induction ds using blockRows.induct generalizing u with
  | case1 =>
    refine ⟨u, hu, fun st => ?_⟩
    rw [loadBlock, blockRows, addRows, foldlM_nil, pure_bind]
  | case2 d =>
    refine ⟨d.info, (hds d (by simp)).merge, fun st => ?_⟩
    rw [loadBlock, if_neg (by simpa using hu), blockRows, addRows, foldlM_cons, bind_assoc]
    rfl
  | case3 d n ds ih₁ ih₂ =>
    have htail : ∀ x ∈ n :: ds, x.info.Canonical := fun x hx => hds x (mem_cons_of_mem _ hx)
    have hround : ∀ st, loadBlock mapUpdate firstPage start u (d :: n :: ds) st =
        addDelta mapUpdate firstPage st (pairRow start d n).1 (pairRow start d n).2 >>=
          fun st => loadBlock mapUpdate firstPage start (pairRow start d n).2 (n :: ds) st := by
      intro st
      rw [loadBlock, if_neg (by simpa using hu)]
      rfl
    by_cases hop : calculateMergeOpcode d n = 0
    · obtain ⟨u', hu', hrest⟩ := ih₁ htail (u := (pairRow start d n).2) hop
      refine ⟨u', hu', fun st => ?_⟩
      rw [hround, blockRows, if_pos hop, addRows, foldlM_cons, bind_assoc]
      exact congrArg _ (funext hrest)
    · obtain ⟨u', hu', hrest⟩ := ih₂ (fun x hx => htail x (mem_cons_of_mem _ hx))
        (u := (pairRow start d n).2.withMerge 0) rfl
      refine ⟨u', hu', fun st => ?_⟩
      have hskip : ∀ st, loadBlock mapUpdate firstPage start (pairRow start d n).2 (n :: ds) st =
          loadBlock mapUpdate firstPage start ((pairRow start d n).2.withMerge 0) ds st := by
        intro st
        rw [loadBlock, if_pos (by simpa [pairRow] using hop)]
      rw [hround, blockRows, if_neg hop, addRows, foldlM_cons, bind_assoc]
      exact congrArg _ (funext fun st => (hskip st).trans (hrest st))

lemma loadBlocks_eq (bs : List BasicBlock) (hbs : ∀ b ∈ bs, ∀ d ∈ b.deltas, d.info.Canonical)
    {u : UnwindInfo} (hu : u.mergeOpcode = 0) (st : Loader) :
    loadBlocks mapUpdate firstPage u bs st = addRows mapUpdate firstPage st (rows bs) := by
  induction bs generalizing u st with
  | nil => rfl
  | cons b bs ih =>
    obtain ⟨u', hu', hblock⟩ :=
      loadBlock_eq mapUpdate firstPage b.start b.deltas (hbs b mem_cons_self) hu
    have hclose : ∀ st, closeBlock mapUpdate firstPage b bs st =
        addRows mapUpdate firstPage st (if needsMarker b bs then [(b.end, .invalid)] else []) := by
      intro st
      unfold closeBlock
      split
      · exact (bind_pure _).symm
      · rfl
    rw [loadBlocks, hblock, bind_assoc, rows, addRows_append]
    congr 1
    funext st₁
    rw [pure_bind, hclose, addRows_append]
    congr 1
    funext st₂
    exact ih (fun x hx => hbs x (mem_cons_of_mem _ hx)) hu' st₂

end Loops

variable {ds : List StackDelta} {bs : List BasicBlock} {iv : IntervalData}

lemma blockRows_encodable {start : ℕ}
    (hds : ∀ d ∈ ds, d.info.Canonical) : ∀ row ∈ blockRows start ds, row.2.Encodable := by
  induction ds using blockRows.induct with
  | case1 => simp [blockRows]
  | case2 d =>
    intro row hrow
    rw [blockRows, mem_singleton] at hrow
    rw [hrow]
    exact (hds d (by simp)).encodable
  | case3 d n ds ih₁ ih₂ =>
    have htail : ∀ x ∈ n :: ds, x.info.Canonical := fun x hx => hds x (mem_cons_of_mem _ hx)
    intro row hrow
    rcases mem_cons.mp hrow with rfl | hrow
    · exact encodable_withMerge n (hds d (by simp))
    · split at hrow
      · exact ih₁ htail row hrow
      · exact ih₂ (fun x hx => htail x (mem_cons_of_mem _ hx)) row hrow

lemma rows_encodable (hbs : ∀ b ∈ bs, ∀ d ∈ b.deltas, d.info.Canonical) :
    ∀ row ∈ rows bs, row.2.Encodable := by
  induction bs with
  | nil => simp [rows]
  | cons b bs ih =>
    intro row hrow
    rw [rows, mem_append, mem_append] at hrow
    rcases hrow with hrow | hrow | hrow
    · exact blockRows_encodable (hbs b mem_cons_self) row hrow
    · split at hrow
      · rw [mem_singleton.mp hrow]
        exact encodable_invalid
      · cases hrow
    · exact ih (fun x hx => hbs x (mem_cons_of_mem _ hx)) row hrow

lemma makeCounters_ok {σ : Type} {n : ℕ} {s s' : σ} {counters : List (BitVec 16)}
    (h : (makeCounters n).exec s = (.ok counters, s')) :
    s' = s ∧ counters = List.replicate n 0 ∧ 2 * n ≤ maxAlloc := by
  unfold makeCounters at h
  by_cases hn : maxAlloc < 2 * n
  · rw [if_pos hn] at h
    cases h
  · rw [if_neg hn] at h
    cases h
    exact ⟨rfl, rfl, by omega⟩

lemma convertDeltas_emitted (hiv : ∀ b ∈ iv.blocks, ∀ d ∈ b.deltas, d.info.Canonical)
    (ht : t.Synced) (h : (convertDeltas mapUpdate iv).exec t = (.ok st, t')) :
    t'.Synced ∧ Emitted t' st (rows iv.blocks) := by
  unfold convertDeltas at h
  split at h
  · obtain ⟨counters, t₁, hmake, h⟩ := Comp.exec_bind_ok.mp h
    rw [(makeCounters_ok hmake).1] at h
    have hnil : Emitted t ⟨[], counters⟩ [] := ⟨by simp, rfl⟩
    rw [loadBlocks_eq _ _ iv.blocks hiv rfl] at h
    exact addRows_emitted (rows_encodable hiv) ht hnil h
  · cases h

/-- A trampoline at address zero in front is never converted: its page is the last. -/
lemma convertDeltas_start_pos {b : BasicBlock} {d : StackDelta} (hbs : iv.blocks = b :: bs)
    (hds : b.deltas = d :: ds) (hoff : d.offset = 0) (hsig : d.info.isSignal = true)
    (h : (convertDeltas mapUpdate iv).exec t = (.ok st, t')) : 0 < b.start := by
  by_contra hzero
  have hstart : b.start = 0 := by omega
  unfold convertDeltas at h
  split at h
  · next first last hfirst hlast =>
    obtain ⟨counters, t₁, hmake, h⟩ := Comp.exec_bind_ok.mp h
    obtain ⟨-, rfl, hlen⟩ := makeCounters_ok hmake
    obtain rfl : b = first := by simpa [hbs] using hfirst
    rw [hbs] at h
    obtain ⟨r, t₂, hblock, -⟩ := Comp.exec_bind_ok.mp h
    rw [hds] at hblock
    obtain ⟨st₁, t₃, hadd, -⟩ := Comp.exec_bind_ok.mp hblock
    have hpage := addDelta_first_page rfl hadd
    have haddr : deltaAddr b.start d.offset (mergedInfo d ds) = 2 ^ 64 - 1 := by
      have hsig' : (mergedInfo d ds).isSignal = true := by
        cases ds with
        | nil => exact hsig
        | cons n ds => exact hsig
      rw [deltaAddr, if_pos hsig', hstart, hoff]
      rfl
    simp only [length_replicate] at hpage
    have hval : pageIndex (b.start / 2 ^ stackDeltaPageBits) (2 ^ 64 - 1) = 2 ^ 48 - 1 := by
      rw [pageIndex, hstart, Nat.zero_div,
        Lib.subWord_of_le (Nat.zero_le _) (by simp [stackDeltaPageBits])]
      simp [stackDeltaPageBits]
    rw [haddr] at hpage
    simp only [maxAlloc] at hlen
    omega
  · cases h

end EbpfProfiler.StackDeltas
