import EbpfProfiler.StackDeltas.LoadDeltasTheorems

/-!
# When the emitted table means its input

A dropped row would have restarted the distance that its merge opcode counts.
-/

namespace EbpfProfiler.StackDeltas

open Option UnwindInfo
open List
open Lib (Comp lastLe readAt dropRepeats valueAfter)

variable {b : BasicBlock} {iv : IntervalData} {bs : List BasicBlock} {ds : List StackDelta}
  {d : StackDelta} {p : StackDelta × StackDelta} {info : UnwindInfo} {a : ℕ} {x : ℕ × UnwindInfo}

/-! ## Reading one row -/

lemma readInfo_of_merge_zero (h : info.mergeOpcode = 0) (k : ℕ) : readInfo info k = info := by
  rw [readInfo, UnwindInfo.applyMerge, if_neg (by simp [h]), withMerge_zero h]

lemma flat_of_merge_zero (h : info.mergeOpcode = 0) : Lib.Flat readInfo info := by
  intro k
  rw [readInfo_of_merge_zero h, readInfo_of_merge_zero h]

/-- The distance at which a row with a merge opcode changes. -/
def mergeSpan (info : UnwindInfo) : ℕ := (info.mergeOpcode &&& ~~~mergeOpcodeNegative).toNat

/-- Two deltas that `loadDeltas` merges. -/
structure Mergeable (d n : StackDelta) : Prop where
  isCommand : d.info.isCommand = false
  offset : n.offset = d.offset + mergeSpan (d.info.withMerge (calculateMergeOpcode d n))
  span_pos : 0 < mergeSpan (d.info.withMerge (calculateMergeOpcode d n))
  info : n.info.withMerge 0 = { d.info.withMerge 0 with
    flags := n.info.flags
    param := d.info.param +
      (if calculateMergeOpcode d n &&& mergeOpcodeNegative ≠ 0 then -8 else 8) }

lemma mergeable_of_ne_zero {n : StackDelta} (hlt : d.offset < n.offset) (hn : n.offset < 2 ^ 32)
    (h : calculateMergeOpcode d n ≠ 0) : Mergeable d n := by
  generalize hop : calculateMergeOpcode d n = op at h
  have hval := hop
  unfold calculateMergeOpcode at hval
  dsimp only at hval
  rw [Lib.subWord_of_le hlt.le hn] at hval
  split_ifs at hval with hc hdiff hregs hup hdown
  case pos | pos | pos | neg => exact absurd hval.symm h
  all_goals
    simp only [not_or, ne_eq, not_not] at hregs
    -- the distance is 1 or 2, and each sign gives one opcode
    obtain ⟨hspan, hparam⟩ : (op &&& ~~~mergeOpcodeNegative).toNat = n.offset - d.offset ∧
        n.info.param - d.info.param = if op &&& mergeOpcodeNegative ≠ 0 then -8 else 8 := by
      rw [← hval]
      rcases (by omega : n.offset - d.offset = 1 ∨ n.offset - d.offset = 2) with hk | hk
      all_goals
        simp only [*]
        decide
    refine ⟨by simpa using hc, ?_, ?_, ?_⟩
    · rw [mergeSpan, mergeOpcode_withMerge, hop, hspan]
      omega
    · rw [mergeSpan, mergeOpcode_withMerge, hop, hspan]
      omega
    · rw [hop, ← hparam, BitVec.add_comm, BitVec.sub_add_cancel]
      simp only [UnwindInfo.withMerge, hregs]

/-- A merged pair reads as its two deltas, the second with the flags of the first. -/
lemma readInfo_merged {n : StackDelta} (hm : Mergeable d n) (hd : d.info.mergeOpcode = 0)
    (hn : n.info.mergeOpcode = 0) (hop : calculateMergeOpcode d n ≠ 0) (k : ℕ) :
    readInfo (d.info.withMerge (calculateMergeOpcode d n)) k =
      if n.offset ≤ d.offset + k then { n.info with flags := d.info.flags } else d.info := by
  have hoff := hm.offset
  have hinfo := hm.info
  rw [withMerge_zero hn] at hinfo
  rw [readInfo, UnwindInfo.applyMerge, mergeOpcode_withMerge]
  rw [mergeSpan, mergeOpcode_withMerge] at hoff
  by_cases hk : n.offset ≤ d.offset + k
  · rw [if_pos ⟨hop, by omega⟩, if_pos hk, hinfo]
    simp [UnwindInfo.withMerge]
  · rw [if_neg (by omega), if_neg hk]
    exact withMerge_zero hd

lemma readInfo_past_span (h : info.mergeOpcode ≠ 0) {k : ℕ} (hk : mergeSpan info ≤ k) :
    (readInfo info k).param ≠ info.param := by
  rw [readInfo, UnwindInfo.applyMerge, if_pos ⟨h, by exact_mod_cast hk⟩]
  have hne : ∀ x : BitVec 32, x ≠ 0 → info.param + x ≠ info.param := by
    intro x hx heq
    exact hx (by simpa using heq)
  split <;> exact hne _ (by decide)

@[simp] lemma isCommand_readInfo (info : UnwindInfo) (k : ℕ) :
    (readInfo info k).isCommand = info.isCommand := by
  rw [readInfo, UnwindInfo.applyMerge]
  split <;> rfl

/-! ## The rows of one block -/

/-- A well-formed block that is no signal trampoline at address zero. -/
structure BasicBlock.Placed (b : BasicBlock) : Prop extends b.WellFormed where
  start_pos : b.isSignal = true → 0 < b.start

section Block

variable {b : BasicBlock}

lemma BasicBlock.WellFormed.exists_head (hb : b.WellFormed) :
    ∃ d ds, b.deltas = d :: ds ∧ d.offset = 0 := by
  have hhead := hb.head
  cases hds : b.deltas with
  | nil => simp [hds] at hhead
  | cons d ds => exact ⟨d, ds, rfl, by simpa [hds] using hhead⟩

lemma BasicBlock.WellFormed.offset_zero_of_signal (hb : b.WellFormed) (hd : d ∈ b.deltas)
    (h : d.info.isSignal = true) : b.isSignal = true ∧ d.offset = 0 := by
  have hoff := hb.signal d hd h
  obtain ⟨d₀, ds, hds, hd₀⟩ := hb.exists_head
  have hsorted := hb.sorted
  rw [hds] at hd hsorted
  rcases mem_cons.mp hd with rfl | hd
  · exact ⟨by rw [BasicBlock.isSignal, hds]; exact h, hoff⟩
  · have hlt := (pairwise_cons.mp hsorted).1 d hd
    omega

lemma BasicBlock.Placed.deltaAddr_eq (hb : b.Placed) (hd : d ∈ b.deltas) :
    deltaAddr b.start d.offset d.info =
      b.start + d.offset - (if d.info.isSignal then 1 else 0) := by
  have hin := hb.inside d hd
  have hend := hb.end_lt
  rw [deltaAddr, Nat.mod_eq_of_lt (by omega)]
  by_cases hs : d.info.isSignal = true
  · obtain ⟨hbs, hoff⟩ := hb.toWellFormed.offset_zero_of_signal hd hs
    have hpos := hb.start_pos hbs
    rw [if_pos hs, if_pos hs, Lib.subWord_of_le (by omega) (by omega)]
  · rw [if_neg hs, if_neg hs, Nat.sub_zero]

lemma BasicBlock.Placed.deltaAddr_le_iff (hb : b.Placed) (hd : d ∈ b.deltas) (ha : b.start ≤ a) :
    deltaAddr b.start d.offset d.info ≤ a ↔ b.start + d.offset ≤ a := by
  rw [hb.deltaAddr_eq hd]
  by_cases hs : d.info.isSignal = true
  · have hoff := hb.signal d hd hs
    omega
  · rw [if_neg hs, Nat.sub_zero]

end Block

lemma mem_blockRows {start : ℕ} (hds : ∀ d ∈ ds, d.info.mergeOpcode = 0)
    (h : x ∈ blockRows start ds) : (∃ d ∈ ds, x = (deltaAddr start d.offset d.info, d.info)) ∨
      ∃ p ∈ mergedPairs ds, x = pairRow start p.1 p.2 := by
  induction ds using blockRows.induct with
  | case1 => cases h
  | case2 d => exact Or.inl ⟨d, by simp, by simpa [blockRows] using h⟩
  | case3 d n ds ih₁ ih₂ =>
    rw [blockRows] at h
    rw [mergedPairs]
    by_cases hop : calculateMergeOpcode d n = 0
    · rw [if_pos hop] at h ⊢
      rcases mem_cons.mp h with rfl | h
      · refine Or.inl ⟨d, by simp, ?_⟩
        rw [pairRow, hop, withMerge_zero (hds d (by simp))]
      · rcases ih₁ (fun x hx => hds x (mem_cons_of_mem _ hx)) h with ⟨e, he, rfl⟩ | hp
        · exact Or.inl ⟨e, mem_cons_of_mem _ he, rfl⟩
        · exact Or.inr hp
    · rw [if_neg hop] at h ⊢
      rcases mem_cons.mp h with rfl | h
      · exact Or.inr ⟨(d, n), by simp, rfl⟩
      · have hsub : ∀ x ∈ ds, x ∈ d :: n :: ds := fun x hx =>
          mem_cons_of_mem _ (mem_cons_of_mem _ hx)
        rcases ih₂ (fun x hx => hds x (hsub x hx)) h with ⟨e, he, rfl⟩ | ⟨p, hp, rfl⟩
        · exact Or.inl ⟨e, hsub e he, rfl⟩
        · exact Or.inr ⟨p, mem_cons_of_mem _ hp, rfl⟩

/-- A merged pair is two neighbours, with its row between those around them. -/
lemma mergedPairs_split (start : ℕ) (h : p ∈ mergedPairs ds) : calculateMergeOpcode p.1 p.2 ≠ 0 ∧
      ∃ pre post l, ds = pre ++ p.1 :: p.2 :: post ∧
        blockRows start ds = l ++ pairRow start p.1 p.2 :: blockRows start post := by
  induction ds using blockRows.induct with
  | case1 => cases h
  | case2 d => cases h
  | case3 d n ds ih₁ ih₂ =>
    rw [mergedPairs] at h
    by_cases hop : calculateMergeOpcode d n = 0
    · rw [if_pos hop] at h
      obtain ⟨hne, pre, post, l, hds, hrows⟩ := ih₁ h
      refine ⟨hne, d :: pre, post, pairRow start d n :: l, by rw [hds, cons_append], ?_⟩
      rw [blockRows, if_pos hop, hrows, cons_append]
    · rw [if_neg hop] at h
      rcases mem_cons.mp h with rfl | h
      · refine ⟨hop, [], ds, [], rfl, ?_⟩
        rw [blockRows, if_neg hop, nil_append]
      · obtain ⟨hne, pre, post, l, hds, hrows⟩ := ih₂ h
        refine ⟨hne, d :: n :: pre, post, pairRow start d n :: l, by rw [hds]; rfl, ?_⟩
        rw [blockRows, if_neg hop, hrows, cons_append]

lemma mem_of_mergedPairs (h : p ∈ mergedPairs ds) : p.1 ∈ ds ∧ p.2 ∈ ds := by
  obtain ⟨-, pre, post, -, rfl, -⟩ := mergedPairs_split 0 h
  simp

section Block

variable {b : BasicBlock}

lemma BasicBlock.WellFormed.mergeable (hb : b.WellFormed) (h : p ∈ mergedPairs b.deltas) :
    Mergeable p.1 p.2 := by
  obtain ⟨hop, pre, post, -, hds, -⟩ := mergedPairs_split 0 h
  have hsorted := hb.sorted
  rw [hds] at hsorted
  have hlt := (pairwise_cons.mp (pairwise_append.mp hsorted).2.1).1 p.2 (by simp)
  exact mergeable_of_ne_zero hlt (hb.offset_lt _ (mem_of_mergedPairs h).2) hop

lemma BasicBlock.Placed.deltaAddr_of_not_signal (hb : b.Placed) (hd : d ∈ b.deltas)
    (h : d.info.isSignal = false) : deltaAddr b.start d.offset d.info = b.start + d.offset := by
  rw [hb.deltaAddr_eq hd, h]
  rfl

lemma isSignal_of_isCommand (h : info.isCommand = false) : info.isSignal = false := by
  rw [UnwindInfo.isSignal, h, Bool.false_and]

/-- Each row with its span is inside the block, but a signal trampoline is a byte early. -/
lemma BasicBlock.Placed.row_bounds (hb : b.Placed) (hx : x ∈ blockRows b.start b.deltas) :
    x.1 + mergeSpan x.2 < b.end ∧
      (b.start ≤ x.1 ∨ (x.1 + 1 = b.start ∧ b.isSignal = true ∧ x.2 = .signal)) := by
  rcases mem_blockRows (fun d hd => (hb.canonical d hd).merge) hx with
    ⟨d, hd, rfl⟩ | ⟨p, hp, rfl⟩
  · have hin := hb.inside d hd
    have hspan : mergeSpan d.info = 0 := by
      rw [mergeSpan, (hb.canonical d hd).merge]
      rfl
    have haddr := hb.deltaAddr_eq hd
    dsimp only
    by_cases hs : d.info.isSignal = true
    · obtain ⟨hbs, hoff⟩ := hb.toWellFormed.offset_zero_of_signal hd hs
      have hpos := hb.start_pos hbs
      rw [if_pos hs] at haddr
      exact ⟨by omega, Or.inr ⟨by omega, hbs, (hb.canonical d hd).eq_signal hs⟩⟩
    · rw [if_neg hs] at haddr
      exact ⟨by omega, Or.inl (by omega)⟩
  · obtain ⟨hp₁, hp₂⟩ := mem_of_mergedPairs hp
    have hm := hb.toWellFormed.mergeable hp
    have hoff := hm.offset
    have hin := hb.inside _ hp₂
    have haddr := hb.deltaAddr_of_not_signal hp₁ (isSignal_of_isCommand hm.isCommand)
    dsimp only [pairRow]
    exact ⟨by omega, Or.inl (by omega)⟩

/-- No row of a block starts within the span of an earlier one. -/
lemma BasicBlock.Placed.blockRows_pairwise (hb : b.Placed) (ds : List StackDelta)
    (hds : ds.Sublist b.deltas) :
    (blockRows b.start ds).Pairwise fun x y => x.1 + mergeSpan x.2 < y.1 := by
  -- the key of a row behind `d` is the plain address of a delta behind `d`
  have hkey : ∀ {d : StackDelta} {ds : List StackDelta}, (d :: ds).Sublist b.deltas →
      ∀ y ∈ blockRows b.start ds, b.start + d.offset < y.1 := by
    intro d ds hsub y hy
    have hmem : ∀ e ∈ ds, e ∈ b.deltas := fun e he => hsub.subset (mem_cons_of_mem _ he)
    have hlt := (pairwise_cons.mp (hb.sorted.sublist hsub)).1
    obtain ⟨e, he, hye⟩ : ∃ e ∈ ds, y.1 = deltaAddr b.start e.offset e.info := by
      rcases mem_blockRows (fun d hd => (hb.canonical d (hmem d hd)).merge) hy with
        ⟨e, he, rfl⟩ | ⟨p, hp, rfl⟩
      · exact ⟨e, he, rfl⟩
      · exact ⟨p.1, (mem_of_mergedPairs hp).1, rfl⟩
    have hoff := hlt e he
    have hs : e.info.isSignal = false := by
      by_contra hs
      have := hb.signal e (hmem e he) (by simpa using hs)
      omega
    rw [hye, hb.deltaAddr_of_not_signal (hmem e he) hs]
    omega
  induction ds using blockRows.induct with
  | case1 => exact List.Pairwise.nil
  | case2 d => exact pairwise_singleton _ _
  | case3 d n ds ih₁ ih₂ =>
    have hd : d ∈ b.deltas := hds.subset (by simp)
    have hn : n ∈ b.deltas := hds.subset (by simp)
    have haddr := hb.deltaAddr_eq hd
    rw [blockRows, pairwise_cons]
    by_cases hop : calculateMergeOpcode d n = 0
    · rw [if_pos hop]
      refine ⟨?_, ih₁ ((sublist_cons_self _ _).trans hds)⟩
      intro y hy
      have hlt := hkey hds y hy
      have hspan : mergeSpan (pairRow b.start d n).2 = 0 := by
        rw [pairRow, mergeSpan, mergeOpcode_withMerge, hop]
        rfl
      rw [hspan]
      dsimp only [pairRow]
      omega
    · rw [if_neg hop]
      have hnds : (n :: ds).Sublist b.deltas := (sublist_cons_self _ _).trans hds
      refine ⟨?_, ih₂ ((sublist_cons_self _ _).trans hnds)⟩
      intro y hy
      have hlt := hkey hnds y hy
      have hdn := (pairwise_cons.mp (hb.sorted.sublist hds)).1 n (by simp)
      have hoff := (mergeable_of_ne_zero hdn (hb.offset_lt n hn) hop).offset
      dsimp only [pairRow]
      omega

lemma BasicBlock.WellFormed.infoAt_delta (hb : b.WellFormed) (hd : d ∈ b.deltas) :
    b.infoAt (b.start + d.offset) = some d.info := by
  obtain ⟨pre, post, hds⟩ := append_of_mem hd
  have hsorted := hb.sorted
  rw [hds] at hsorted
  have hlt := (pairwise_cons.mp (pairwise_append.mp hsorted).2.1).1
  rw [BasicBlock.infoAt, hds, map_append, map_cons, Lib.lastLe_append_cons (le_refl _)]
  · rfl
  · intro x hx
    obtain ⟨e, he, rfl⟩ := mem_map.mp hx
    have := hlt e he
    omega

/-- **Inside a block** the rows read as the deltas where no merged pair hides flags. -/
lemma BasicBlock.Placed.readAt_blockRows (hb : b.Placed) (ha : b.start ≤ a) (ds : List StackDelta)
    (hds : ds.Sublist b.deltas)
    (hflags : ∀ p ∈ mergedPairs ds, p.1.info.flags = p.2.info.flags ∨ a < b.start + p.2.offset) :
    readAt readInfo (blockRows b.start ds) a =
      (lastLe (ds.map fun d => (b.start + d.offset, d.info)) a).map (·.2) := by
  have hrow : ∀ {d : StackDelta}, d ∈ b.deltas →
      (if deltaAddr b.start d.offset d.info ≤ a then
        some (readInfo d.info (a - deltaAddr b.start d.offset d.info)) else none) =
      Option.map (·.2)
        (if b.start + d.offset ≤ a then some (b.start + d.offset, d.info) else none) := by
    intro d hd
    rw [readInfo_of_merge_zero (hb.canonical d hd).merge]
    by_cases hle : b.start + d.offset ≤ a
    · rw [if_pos ((hb.deltaAddr_le_iff hd ha).mpr hle), if_pos hle]
      rfl
    · rw [if_neg (mt (hb.deltaAddr_le_iff hd ha).mp hle), if_neg hle]
      rfl
  induction ds using blockRows.induct with
  | case1 => rfl
  | case2 d =>
    rw [blockRows, Lib.readAt_cons]
    exact hrow (hds.subset (by simp))
  | case3 d n ds ih₁ ih₂ =>
    have hd : d ∈ b.deltas := hds.subset (by simp)
    have hn : n ∈ b.deltas := hds.subset (by simp)
    rw [blockRows, pairRow, Lib.readAt_cons_mk, map_cons, Lib.lastLe_cons, map_or]
    rw [mergedPairs] at hflags
    by_cases hop : calculateMergeOpcode d n = 0
    · rw [if_pos hop] at hflags ⊢
      rw [ih₁ ((sublist_cons_self _ _).trans hds) hflags]
      rw [hop, withMerge_zero (hb.canonical d hd).merge, hrow hd]
    · rw [if_neg hop] at hflags ⊢
      have hnds : (n :: ds).Sublist b.deltas := (sublist_cons_self _ _).trans hds
      rw [ih₂ ((sublist_cons_self _ _).trans hnds) (fun p hp => hflags p (mem_cons_of_mem _ hp))]
      rw [map_cons, Lib.lastLe_cons, map_or, Option.or_assoc]
      -- one row on the left, two deltas on the right
      have hdn := (pairwise_cons.mp (hb.sorted.sublist hds)).1 n (by simp)
      have hm := mergeable_of_ne_zero hdn (hb.offset_lt n hn) hop
      have haddr := hb.deltaAddr_of_not_signal hd (isSignal_of_isCommand hm.isCommand)
      rw [haddr, readInfo_merged hm (hb.canonical d hd).merge (hb.canonical n hn).merge hop]
      by_cases hna : b.start + n.offset ≤ a
      · have hf : d.info.flags = n.info.flags := by
          rcases hflags (d, n) (by simp) with hf | hlt
          · exact hf
          · dsimp only at hlt
            omega
        rw [if_pos (by omega), if_pos (by omega), if_pos hna, hf]
        rfl
      · rw [if_neg hna]
        by_cases hda : b.start + d.offset ≤ a
        · rw [if_pos hda, if_neg (by omega), if_pos hda]
          rfl
        · rw [if_neg hda, if_neg hda]
          rfl

lemma BasicBlock.Placed.exists_row_le (hb : b.Placed) (ha : b.start ≤ a) :
    ∃ x ∈ blockRows b.start b.deltas, x.1 ≤ a := by
  obtain ⟨d, ds, hds, hoff⟩ := hb.exists_head
  have hd : d ∈ b.deltas := by simp [hds]
  have hle : deltaAddr b.start d.offset d.info ≤ a :=
    (hb.deltaAddr_le_iff hd ha).mpr (by omega)
  rw [hds]
  cases ds with
  | nil => exact ⟨_, by exact mem_singleton_self _, hle⟩
  | cons n ds => exact ⟨_, by exact mem_cons_self .., hle⟩

end Block

/-! ## The rows of all blocks -/

/-- Blocks that are placed and follow one another. -/
structure Laid (bs : List BasicBlock) : Prop where
  placed : ∀ b ∈ bs, b.Placed
  disjoint : bs.Pairwise fun b b' => b.end ≤ b'.start

lemma Laid.tail (h : Laid (b :: bs)) : Laid bs :=
  ⟨fun x hx => h.placed x (mem_cons_of_mem _ hx), (pairwise_cons.mp h.disjoint).2⟩

lemma Laid.of_append {pre : List BasicBlock} (h : Laid (pre ++ bs)) : Laid bs :=
  ⟨fun x hx => h.placed x (mem_append_right _ hx), (pairwise_append.mp h.disjoint).2.1⟩

lemma BasicBlock.WellFormed.start_lt_end (hb : b.WellFormed) : b.start < b.end := by
  obtain ⟨d, ds, hds, hoff⟩ := hb.exists_head
  have := hb.inside d (by simp [hds])
  omega

lemma Laid.end_le (h : Laid bs) {b' : BasicBlock} (hb : b ∈ bs) (hb' : b' ∈ bs)
    (hlt : b.start < b'.start) : b.end ≤ b'.start := by
  obtain ⟨pre, post, rfl⟩ := append_of_mem hb
  obtain ⟨-, hpost, hpre⟩ := pairwise_append.mp h.disjoint
  rcases mem_append.mp hb' with hb' | hb'
  · have hle := hpre b' hb' b (by simp)
    have := (h.placed b' (mem_append_left _ hb')).toWellFormed.start_lt_end
    omega
  · rcases mem_cons.mp hb' with rfl | hb'
    · omega
    · exact (pairwise_cons.mp hpost).1 b' hb'

lemma mem_rows (h : x ∈ rows bs) :
    ∃ b ∈ bs, x ∈ blockRows b.start b.deltas ∨ x = (b.end, .invalid) := by
  induction bs with
  | nil => cases h
  | cons b bs ih =>
    rw [rows, mem_append, mem_append] at h
    rcases h with h | h | h
    · exact ⟨b, by simp, Or.inl h⟩
    · refine ⟨b, by simp, Or.inr ?_⟩
      split at h
      · exact mem_singleton.mp h
      · cases h
    · obtain ⟨b', hb', hx⟩ := ih h
      exact ⟨b', mem_cons_of_mem _ hb', hx⟩

lemma rows_append (pre bs : List BasicBlock) : ∃ l, rows (pre ++ bs) = l ++ rows bs := by
  induction pre with
  | nil => exact ⟨[], rfl⟩
  | cons b pre ih =>
    obtain ⟨l, hl⟩ := ih
    rw [cons_append, rows, hl]
    exact ⟨_, by rw [← append_assoc, ← append_assoc]⟩

lemma Laid.row_ge (h : Laid bs) {e : ℕ} (he : ∀ b ∈ bs, e ≤ b.start) (hx : x ∈ rows bs) :
    e ≤ x.1 ∨ (x.1 + 1 = e ∧ x.2 = .signal ∧ ∃ b ∈ bs, b.start = e ∧ b.isSignal = true) := by
  obtain ⟨b, hb, hx⟩ := mem_rows hx
  have hstart := he b hb
  rcases hx with hx | rfl
  · rcases ((h.placed b hb).row_bounds hx).2 with hge | ⟨hx1, hbs, hx2⟩
    · exact Or.inl (by omega)
    · by_cases heq : b.start = e
      · exact Or.inr ⟨by omega, hx2, b, hb, heq, hbs⟩
      · exact Or.inl (by omega)
  · have := (h.placed b hb).toWellFormed.start_lt_end
    exact Or.inl (by omega)

/-- No row starts in the span of an earlier merged row, or before one with its recipe. -/
lemma Laid.rows_pairwise (h : Laid bs) : (rows bs).Pairwise fun x y =>
      (x.2.mergeOpcode ≠ 0 ∨ x.2 = y.2) → x.1 + mergeSpan x.2 ≤ y.1 := by
  induction bs with
  | nil => exact List.Pairwise.nil
  | cons b bs ih =>
    have hb := h.placed b (by simp)
    have hge : ∀ b' ∈ bs, b.end ≤ b'.start := (pairwise_cons.mp h.disjoint).1
    rw [rows, pairwise_append, pairwise_append]
    refine ⟨?_, ⟨?_, ih h.tail, ?_⟩, ?_⟩
    · exact (hb.blockRows_pairwise b.deltas (List.Sublist.refl _)).imp fun hlt _ => hlt.le
    · split
      · exact pairwise_singleton _ _
      · exact List.Pairwise.nil
    · -- behind a marker only another marker, or a block that starts with the invalid recipe
      intro x hx y hy hxy
      obtain rfl : x = (b.end, .invalid) := by
        split at hx
        · exact mem_singleton.mp hx
        · cases hx
      have hspan : mergeSpan .invalid = 0 := rfl
      have hne : UnwindInfo.invalid ≠ .signal := by decide
      rw [hspan]
      rcases h.tail.row_ge hge hy with hle | ⟨-, hsig, -⟩
      · exact hle
      · rcases hxy with hxy | hxy
        · exact absurd rfl hxy
        · exact absurd (hxy.trans hsig) hne
    · intro x hx y hy _
      have hx := (hb.row_bounds hx).1
      rcases mem_append.mp hy with hy | hy
      · split at hy
        · rw [mem_singleton.mp hy]
          exact hx.le
        · cases hy
      · rcases h.tail.row_ge hge hy with hle | ⟨heq, -, -⟩ <;> omega

def SignalIn (bs : List BasicBlock) (a : ℕ) : Prop := ∃ b ∈ bs, b.start = a ∧ b.isSignal = true

/-- No later row is in range of the block, unless a trampoline is next. -/
lemma Laid.lt_row (h : Laid (b :: bs)) (ha : a < b.end) (hsig : ¬ SignalIn bs (a + 1))
    (hx : x ∈ (if needsMarker b bs then [(b.end, UnwindInfo.invalid)] else []) ++ rows bs) :
    a < x.1 := by
  have hge : ∀ b' ∈ bs, b.end ≤ b'.start := (pairwise_cons.mp h.disjoint).1
  rcases mem_append.mp hx with hx | hx
  · split at hx
    · rw [mem_singleton.mp hx]
      exact ha
    · cases hx
  · rcases h.tail.row_ge hge hx with hle | ⟨heq, -, b', hb', hstart, hs⟩
    · omega
    · by_contra hle
      exact hsig ⟨b', hb', by omega, hs⟩

/-- **Between blocks.** A row reads as in its block alone, or as a trampoline's in front of one. -/
lemma Laid.readAt_rows_block (h : Laid bs) (hb : b ∈ bs) (ha : b.start ≤ a) (ha' : a < b.end)
    (hsig : ¬ SignalIn bs (a + 1)) :
    readAt readInfo (rows bs) a = readAt readInfo (blockRows b.start b.deltas) a := by
  obtain ⟨pre, post, rfl⟩ := append_of_mem hb
  obtain ⟨l, hl⟩ := rows_append pre (b :: post)
  have hlaid : Laid (b :: post) := h.of_append
  have hsig' : ¬ SignalIn post (a + 1) := by
    rintro ⟨b', hb', hs⟩
    exact hsig ⟨b', by simp [hb'], hs⟩
  obtain ⟨x, hx, hxa⟩ := (h.placed b hb).exists_row_le ha
  have hsome := Lib.readAt_isSome readInfo hx hxa
  rw [hl, rows, Lib.readAt_append, Lib.readAt_append,
    Lib.readAt_eq_none readInfo fun y hy => hlaid.lt_row ha' hsig' hy, none_or, or_of_isSome hsome]

lemma Laid.readAt_rows_signal (h : Laid bs) (hsig : SignalIn bs (a + 1)) :
    readAt readInfo (rows bs) a = some .signal := by
  obtain ⟨b, hb, hstart, hs⟩ := hsig
  obtain ⟨pre, post, rfl⟩ := append_of_mem hb
  obtain ⟨l, hl⟩ := rows_append pre (b :: post)
  have hlaid : Laid (b :: post) := h.of_append
  have hplaced := h.placed b hb
  obtain ⟨d, ds, hds, hoff⟩ := hplaced.exists_head
  have hd : d ∈ b.deltas := by simp [hds]
  have hds' : d.info.isSignal = true := by simpa [BasicBlock.isSignal, hds] using hs
  have hinfo : d.info = .signal := (hplaced.canonical d hd).eq_signal hds'
  have haddr : deltaAddr b.start d.offset d.info = a := by
    rw [hplaced.deltaAddr_eq hd, if_pos hds']
    omega
  -- the first row of the trampoline is at `a`, all rows behind it are above `a`
  obtain ⟨m, hrows⟩ : ∃ m, blockRows b.start b.deltas = (a, UnwindInfo.signal) :: m := by
    rw [hds]
    cases ds with
    | nil => exact ⟨[], by rw [blockRows, haddr, hinfo]⟩
    | cons n ds =>
      have hop : calculateMergeOpcode d n = 0 := by
        have hc : d.info.isCommand = true := by
          rw [hinfo]
          rfl
        rw [calculateMergeOpcode, if_pos hc]
      refine ⟨blockRows b.start (n :: ds), ?_⟩
      rw [blockRows, pairRow, hop, haddr, hinfo]
      rfl
  have hpair := hplaced.blockRows_pairwise b.deltas (List.Sublist.refl _)
  rw [hrows, pairwise_cons] at hpair
  have hpost : ¬ SignalIn post (a + 1) := by
    rintro ⟨b', hb', hstart', -⟩
    have hge := (pairwise_cons.mp hlaid.disjoint).1 b' hb'
    have hlt := hplaced.toWellFormed.start_lt_end
    omega
  have hend : a < b.end := by
    have := hplaced.toWellFormed.start_lt_end
    omega
  rw [hl, rows, hrows, readAt, cons_append, Lib.lastLe_append_cons (le_refl a)]
  · rfl
  · intro y hy
    rcases mem_append.mp hy with hy | hy
    · have := hpair.1 y hy
      omega
    · exact hlaid.lt_row hend hpost hy

/-! ## The emitted table -/

lemma IntervalData.WellFormed.canonical (h : iv.WellFormed) :
    ∀ b ∈ iv.blocks, ∀ d ∈ b.deltas, d.info.Canonical :=
  fun b hb => (h.blocks b hb).canonical

lemma laid_of_convertDeltas {mapUpdate : BitVec 16 → UnwindInfo → Option String} {st : Loader}
    {t t' : UnwindTable} (hiv : iv.WellFormed)
    (h : (convertDeltas mapUpdate iv).exec t = (.ok st, t')) : Laid iv.blocks := by
  refine ⟨fun b hb => ⟨hiv.blocks b hb, fun hs => ?_⟩, hiv.disjoint⟩
  by_contra hzero
  obtain ⟨pre, post, hbs⟩ := append_of_mem hb
  cases pre with
  | nil =>
    obtain ⟨d, ds, hds, hoff⟩ := (hiv.blocks b hb).exists_head
    have hds' : d.info.isSignal = true := by simpa [BasicBlock.isSignal, hds] using hs
    exact hzero (convertDeltas_start_pos hbs hds hoff hds' h)
  | cons b₀ pre =>
    -- a block in front of `b` leaves no room below it
    have hb₀ : b₀ ∈ iv.blocks := by simp [hbs]
    have hlt := (hiv.blocks b₀ hb₀).start_lt_end
    have hdis := hiv.disjoint
    rw [hbs] at hdis
    have hle := (pairwise_cons.mp hdis).1 b (by simp)
    omega

lemma Laid.readAt_dropRepeats (h : Laid bs)
    (hrep : (rows bs).IsChain fun x y => x.2 = y.2 → y.2.mergeOpcode = 0) (a : ℕ) :
    readAt readInfo (dropRepeats none (rows bs)) a = readAt readInfo (rows bs) a := by
  apply Lib.readAt_dropRepeats
  have hord : (rows bs).IsChain fun x y => x.2 = y.2 → x.1 ≤ y.1 :=
    (h.rows_pairwise.imp fun hxy heq => le_trans (Nat.le_add_right _ _) (hxy (Or.inr heq))).isChain
  rw [isChain_iff_forall_rel_of_append_cons_cons] at hrep hord ⊢
  intro x y l m hl heq
  exact ⟨hord hl heq, flat_of_merge_zero (hrep hl heq)⟩

/-- The condition is enough: the rows of a kept table mean the input. -/
lemma Laid.meansInput (h : Laid iv.blocks) (hkept : iv.MergesKept) :
    iv.MeansInput (readAt readInfo (dropRepeats none (rows iv.blocks))) := by
  intro b hb a ha ha'
  rw [h.readAt_dropRepeats hkept.repeats]
  by_cases hsig : SignalIn iv.blocks (a + 1)
  · exact Or.inr ⟨hsig, h.readAt_rows_signal hsig⟩
  · left
    rw [h.readAt_rows_block hb ha ha' hsig,
      (h.placed b hb).readAt_blockRows ha b.deltas (List.Sublist.refl _), BasicBlock.infoAt]
    intro p hp
    rcases hkept.flags b hb p hp with hf | hs
    · exact Or.inl hf
    · -- the second half of the pair is the last byte of the block, and it is not `a`
      obtain ⟨b', hb', hstart, hs'⟩ := hs
      have hend := h.end_le hb hb' (by omega)
      have hne : a ≠ b.start + p.2.offset := by
        rintro rfl
        exact hsig ⟨b', hb', hstart, hs'⟩
      omega

/-- A merged row that repeats the one before is lost, and its second half read too early. -/
lemma Laid.repeats_of_meansInput (h : Laid iv.blocks)
    (hmeans : iv.MeansInput (readAt readInfo (dropRepeats none (rows iv.blocks)))) :
    (rows iv.blocks).IsChain fun x y => x.2 = y.2 → y.2.mergeOpcode = 0 := by
  rw [isChain_iff_forall_rel_of_append_cons_cons]
  intro x y l m hl heq
  by_contra hop
  have hpair := h.rows_pairwise
  rw [hl] at hpair
  -- `y` is the row of a merged pair of some block
  have hy : y ∈ rows iv.blocks := by simp [hl]
  obtain ⟨b, hb, hrow⟩ := mem_rows hy
  have hplaced := h.placed b hb
  obtain ⟨p, hp, rfl⟩ : ∃ p ∈ mergedPairs b.deltas, y = pairRow b.start p.1 p.2 := by
    rcases hrow with hrow | rfl
    · rcases mem_blockRows (fun d hd => (hplaced.canonical d hd).merge) hrow with
        ⟨d, hd, rfl⟩ | hp
      · exact absurd (hplaced.canonical d hd).merge hop
      · exact hp
    · exact absurd rfl hop
  obtain ⟨hp₁, hp₂⟩ := mem_of_mergedPairs hp
  have hm := hplaced.toWellFormed.mergeable hp
  have haddr := hplaced.deltaAddr_of_not_signal hp₁ (isSignal_of_isCommand hm.isCommand)
  set y := pairRow b.start p.1 p.2 with hydef
  have hy₁ : y.1 = b.start + p.1.offset := haddr
  -- the row before it stands for the whole run of equal rows, from its first key on
  have hxy : x.1 + mergeSpan x.2 ≤ y.1 :=
    (pairwise_cons.mp (pairwise_append.mp hpair).2.1).1 y (by simp) (Or.inr heq)
  have hafter : ∀ z ∈ m, y.1 < z.1 := by
    intro z hz
    have hspan : 0 < mergeSpan y.2 := hm.span_pos
    have := (pairwise_cons.mp (pairwise_cons.mp
      (pairwise_append.mp hpair).2.1).2).1 z hz (Or.inl hop)
    omega
  have hord : (l ++ [x]).IsChain fun x z => x.2 = z.2 → x.1 ≤ z.1 := by
    have hsub : (l ++ [x]).Sublist (l ++ x :: y :: m) :=
      List.Sublist.append (List.Sublist.refl l) (by simp)
    exact ((hpair.sublist hsub).imp fun hxz heq' =>
      le_trans (Nat.le_add_right _ _) (hxz (Or.inr heq'))).isChain
  obtain ⟨e, he, hev, hek⟩ := Lib.getLast?_dropRepeats l x hord
  obtain ⟨q, hq⟩ := getLast?_eq_some_iff.mp he
  have hread : readAt readInfo (dropRepeats none (rows iv.blocks)) y.1 =
      some (readInfo y.2 (y.1 - e.1)) := by
    have hsplit : l ++ x :: y :: m = (l ++ [x]) ++ y :: m := by simp
    rw [hl, hsplit, Lib.dropRepeats_append, Lib.valueAfter_concat, dropRepeats, heq, if_pos rfl, hq,
      append_assoc, readAt, singleton_append,
      Lib.lastLe_append_cons (by omega) (fun z hz => hafter z (Lib.dropRepeats_mem hz))]
    rw [map_some, hev, heq]
  have hin := hplaced.inside p.1 hp₁
  rcases hmeans b hb y.1 (by omega) (by omega) with hval | ⟨-, hval⟩
  · rw [hread, hy₁, hplaced.toWellFormed.infoAt_delta hp₁, some.injEq] at hval
    have hpast := readInfo_past_span hop (k := b.start + p.1.offset - e.1)
      (by rw [← heq]; omega)
    rw [hval] at hpast
    exact hpast rfl
  · rw [hread, some.injEq] at hval
    have hc : (readInfo y.2 (y.1 - e.1)).isCommand = false := by
      rw [isCommand_readInfo]
      exact hm.isCommand
    rw [hval] at hc
    exact absurd hc (by decide)

/-- A pair that differs in its flags reads the flags of its first half at the second. -/
lemma Laid.flags_of_meansInput (h : Laid iv.blocks)
    (hmeans : iv.MeansInput (readAt readInfo (rows iv.blocks))) (hb : b ∈ iv.blocks)
    (hp : p ∈ mergedPairs b.deltas) :
    p.1.info.flags = p.2.info.flags ∨ iv.SignalAt (b.start + p.2.offset + 1) := by
  by_cases hsig : iv.SignalAt (b.start + p.2.offset + 1)
  · exact Or.inr hsig
  left
  have hplaced := h.placed b hb
  obtain ⟨hp₁, hp₂⟩ := mem_of_mergedPairs hp
  have hm := hplaced.toWellFormed.mergeable hp
  have haddr := hplaced.deltaAddr_of_not_signal hp₁ (isSignal_of_isCommand hm.isCommand)
  have hoff := hm.offset
  obtain ⟨hop, pre, post, l, -, hrows⟩ := mergedPairs_split b.start hp
  have hread : readAt readInfo (blockRows b.start b.deltas) (b.start + p.2.offset) =
      some { p.2.info with flags := p.1.info.flags } := by
    have hpair := hplaced.blockRows_pairwise b.deltas (List.Sublist.refl _)
    rw [hrows] at hpair
    have hafter := (pairwise_cons.mp (pairwise_append.mp hpair).2.1).1
    rw [hrows, readAt, Lib.lastLe_append_cons]
    · rw [map_some, pairRow, readInfo_merged hm (hplaced.canonical _ hp₁).merge
        (hplaced.canonical _ hp₂).merge hop, if_pos (by omega)]
    · rw [pairRow]
      omega
    · intro z hz
      have := hafter z hz
      rw [pairRow] at this
      dsimp only at this
      omega
  have hin := hplaced.inside p.2 hp₂
  rcases hmeans b hb (b.start + p.2.offset) (by omega) hin with hval | ⟨hs, -⟩
  · rw [h.readAt_rows_block hb (by omega) hin hsig, hread, hplaced.toWellFormed.infoAt_delta hp₂,
      some.injEq] at hval
    have hf := congrArg UnwindInfo.flags hval
    exact hf
  · exact absurd hs hsig

/-- **The emitted table means its input exactly when its merges are kept.** For sorted disjoint
blocks, every address has the recipe of its block (a signal trampoline may start one byte early) if
and only if no merged pair hides a change of flags and no merged row repeats the row before. -/
theorem convertDeltas_meansInput_iff {mapUpdate : BitVec 16 → UnwindInfo → Option String}
    {iv : IntervalData} {st : Loader} {t t' : UnwindTable} (hiv : iv.WellFormed) (ht : t.Synced)
    (h : (convertDeltas mapUpdate iv).exec t = (.ok st, t')) :
    iv.MeansInput (readDeltas t' st.ebpfDeltas) ↔ iv.MergesKept := by
  have hlaid := laid_of_convertDeltas hiv h
  obtain ⟨-, hemitted⟩ := convertDeltas_emitted hiv.canonical ht h
  have hread : readDeltas t' st.ebpfDeltas =
      readAt readInfo (dropRepeats none (rows iv.blocks)) := by
    funext a
    rw [readDeltas, hemitted.decoded]
  rw [hread]
  constructor
  · intro hmeans
    have hrep := hlaid.repeats_of_meansInput hmeans
    have hmeans' : iv.MeansInput (readAt readInfo (rows iv.blocks)) := by
      intro b hb a ha ha'
      rw [← hlaid.readAt_dropRepeats hrep]
      exact hmeans b hb a ha ha'
    exact ⟨fun b hb p hp => hlaid.flags_of_meansInput hmeans' hb hp, hrep⟩
  · exact hlaid.meansInput

/-- What a fresh manager's table reads at `a`, the kernel accepting all updates. -/
def convertedReading (iv : IntervalData) (a : ℕ) : Option UnwindInfo :=
  match (convertDeltas (fun _ _ => none) iv).exec .empty with
  | (.ok st, t) => readDeltas t st.ebpfDeltas a
  | _ => none

lemma exec_of_convertedReading (h : (convertedReading iv a).isSome = true) :
    ∃ st t', (convertDeltas (fun _ _ => none) iv).exec .empty = (.ok st, t') ∧
      convertedReading iv a = readDeltas t' st.ebpfDeltas a := by
  unfold convertedReading at h ⊢
  rcases hexec : (convertDeltas (fun _ _ => none) iv).exec .empty with ⟨r, t'⟩
  rw [hexec] at h
  cases r with
  | error e => cases h
  | ok st => exact ⟨st, t', rfl, rfl⟩

def spPlus (param : BitVec 32) : UnwindInfo := { baseReg := 3, param := param }

/-- A function that pushes a register and returns. -/
def pushFunction (start : ℕ) : BasicBlock :=
  ⟨start, start + 16, [⟨0, spPlus 8⟩, ⟨1, spPlus 16⟩, ⟨9, spPlus 8⟩]⟩

theorem convertDeltas_meansInput_pushFunction :
    (⟨3, [pushFunction 0x1000]⟩ : IntervalData).WellFormed ∧
    ∃ st t', (convertDeltas (fun _ _ => none) ⟨3, [pushFunction 0x1000]⟩).exec .empty =
        (.ok st, t') ∧
      ((⟨3, [pushFunction 0x1000]⟩ : IntervalData).MeansInput (readDeltas t' st.ebpfDeltas) ↔
        (⟨3, [pushFunction 0x1000]⟩ : IntervalData).MergesKept) := by
  have hwf : (⟨3, [pushFunction 0x1000]⟩ : IntervalData).WellFormed := by decide
  have hread : (convertedReading ⟨3, [pushFunction 0x1000]⟩ 0x1000).isSome = true := by
    decide +kernel
  obtain ⟨st, t', hexec, -⟩ := exec_of_convertedReading hread
  exact ⟨hwf, st, t', hexec, convertDeltas_meansInput_iff hwf UnwindTable.synced_empty hexec⟩

/-- A function that pushes a register and does not return. -/
def pushNoReturn (start : ℕ) : BasicBlock :=
  ⟨start, start + 16, [⟨0, spPlus 8⟩, ⟨1, spPlus 16⟩]⟩

/-- Of two such functions, the row of the second is dropped, and its push seems executed. -/
theorem convertDeltas_loses_pushNoReturn :
    (⟨4, [pushNoReturn 0x1000, pushNoReturn 0x1010]⟩ : IntervalData).WellFormed ∧
    ∃ st t', (convertDeltas (fun _ _ => none)
        ⟨4, [pushNoReturn 0x1000, pushNoReturn 0x1010]⟩).exec .empty = (.ok st, t') ∧
      (pushNoReturn 0x1010).infoAt 0x1010 = some (spPlus 8) ∧
      readDeltas t' st.ebpfDeltas 0x1010 = some (spPlus 16) ∧
      ¬ (⟨4, [pushNoReturn 0x1000, pushNoReturn 0x1010]⟩ : IntervalData).MeansInput
        (readDeltas t' st.ebpfDeltas) := by
  have hread : convertedReading ⟨4, [pushNoReturn 0x1000, pushNoReturn 0x1010]⟩ 0x1010 =
      some (spPlus 16) := by
    decide +kernel
  obtain ⟨st, t', hexec, heq⟩ := exec_of_convertedReading (by rw [hread]; rfl)
  rw [hread] at heq
  have hinfo : (pushNoReturn 0x1010).infoAt 0x1010 = some (spPlus 8) := by decide
  refine ⟨by decide, st, t', hexec, hinfo, heq.symm, ?_⟩
  intro hmeans
  have hne : (spPlus 16) ≠ spPlus 8 ∧ spPlus 16 ≠ .signal := by decide
  rcases hmeans (pushNoReturn 0x1010) (by simp) 0x1010 (by decide) (by decide) with h | ⟨-, h⟩
  · rw [← heq, hinfo, some.injEq] at h
    exact hne.1 h
  · rw [← heq, some.injEq] at h
    exact hne.2 h

end EbpfProfiler.StackDeltas
