import Mathlib.Data.Finset.Max
import EbpfProfiler.Lib.Lists
import EbpfProfiler.StackDeltas.DeltaMeaning

/-!
# Interval data: adding, sorting and finding blocks

`Add` merges across gaps before it is known what comes there. The proof goes over the runs of the
added list, which become one block each.
-/

namespace EbpfProfiler.StackDeltas

open List IntervalData BasicBlock
open Lib (Sorter lowerBound subWord)

variable {b m x y : BasicBlock} {bbs run : List BasicBlock} {a : ℕ}

/-! ## The code -/

/-- `IntervalData.Sort`: `slices.SortFunc` by `Start`. -/
def IntervalData.sort (sorter : Sorter fun a b : BasicBlock => a.start ≤ b.start)
    (intervals : IntervalData) : IntervalData :=
  { intervals with blocks := sorter.sort intervals.blocks }

/-- `IntervalData.FindIndex`; `none` is the index `-1`. -/
def IntervalData.findIndex (intervals : IntervalData) (addr : ℕ) : Option ℕ :=
  let idx := lowerBound start intervals.blocks addr
  let ok := (intervals.blocks[idx]?).any fun bb => bb.start = addr
  if ok = false ∧ idx = 0 then none
  else
    let idx := if ok then idx else idx - 1
    -- both indices are inside the slice
    (intervals.blocks[idx]?).bind fun bb => if bb.start ≤ addr ∧
    addr < bb.end then some idx else none

def IntervalData.find (intervals : IntervalData) (addr : ℕ) : Option BasicBlock :=
  (intervals.findIndex addr).bind fun idx => intervals.blocks[idx]?

def IntervalData.addAll (bbs : List BasicBlock) : IntervalData := bbs.foldl add ⟨0, []⟩

/-! ## What is asked of the data -/

/-- Every added address is found with its recipe, and nothing far from all blocks. -/
structure FindsAdded (bbs : List BasicBlock) (intervals : IntervalData) : Prop where
  inside : ∀ b ∈ bbs, ∀ a, b.start ≤ a → a < b.end → ∃ found, intervals.find a = some found ∧
    ∀ info, b.infoAt a = some info → found.infoAt a = some info
  outside : ∀ a, (∀ b ∈ bbs, a + minimumGap < b.start ∨ b.end + minimumGap ≤ a) →
    intervals.find a = none

/-- The test of `Add`: the block continues the one added before it. -/
def merges (lastBlock bb : BasicBlock) : Bool :=
  bb.deltas.length = 1 ∧ lastBlock.deltas.length = 1 ∧ bb.deltas.head? = lastBlock.deltas.head? ∧
    subWord 64 bb.start lastBlock.end ≤ minimumGap

/-- The stretches of the list in which each block continues the last. -/
def runs (bbs : List BasicBlock) : List (List BasicBlock) := bbs.splitBy merges

def runStart (run : List BasicBlock) : ℕ := (run.head?.map (·.start)).getD 0

/-- `run` is the last one, by address, that starts at or below `a`. -/
structure LastRun (bbs : List BasicBlock) (a : ℕ) (run : List BasicBlock) : Prop where
  mem : run ∈ runs bbs
  start_le : runStart run ≤ a
  last : ∀ other ∈ runs bbs, runStart other ≤ a → runStart other ≤ runStart run

/-- The blocks of a run ascend, and where another run starts between its first block and a later
`y`, the last such run goes on behind `y` with its recipes. -/
structure RunsApart (bbs : List BasicBlock) : Prop where
  ascending : ∀ run ∈ runs bbs, run.IsChain fun x y => x.end ≤ y.start
  crossing : ∀ run ∈ runs bbs, ∀ y ∈ run, ∀ other, LastRun bbs y.start other → other ≠ run →
    (∃ q ∈ other, y.start < q.start) ∧
      ∀ h ∈ other.head?, ∀ a info, y.start ≤ a → a < y.end → y.infoAt a = some info →
        h.infoAt a = some info

/-! ## Adding -/

/-- The block that `Add` makes of a run. -/
def hull : List BasicBlock → BasicBlock
  | [] => ⟨0, 0, []⟩
  | b :: bs => { b with «end» := ((b :: bs).getLast (cons_ne_nil b bs)).end }

lemma deltas_of_merges (h : merges x y = true) : y.deltas = x.deltas := by
  rw [merges, decide_eq_true_eq] at h
  obtain ⟨hy, hx, hhead, -⟩ := h
  obtain ⟨d, hd⟩ := length_eq_one_iff.mp hy
  obtain ⟨e, he⟩ := length_eq_one_iff.mp hx
  rw [hd, he] at hhead ⊢
  cases hhead
  rfl

lemma subWord_le_of_merges (h : merges x y = true) : subWord 64 y.start x.end ≤ minimumGap := by
  rw [merges, decide_eq_true_eq] at h
  exact h.2.2.2

/-- Merged blocks are at most 15 bytes apart, or meet at the top of the address space. -/
lemma gap_of_merges (h : merges x y = true) (hx : x.end < 2 ^ 64) (hy : y.start < 2 ^ 64) :
    (x.end ≤ y.start ∧ y.start ≤ x.end + 15) ∨ (y.start < 15 ∧ 2 ^ 64 < x.end + 16) := by
  have hgap := subWord_le_of_merges h
  rw [subWord, minimumGap] at hgap
  omega

lemma deltas_of_isChain (h : run.IsChain fun x y => merges x y = true) (hb : b ∈ run.head?)
    (hm : m ∈ run) : m.deltas = b.deltas := by
  induction run generalizing b with
  | nil => cases hm
  | cons x run ih =>
    cases hb
    rw [mem_cons] at hm
    rcases hm with rfl | hm
    · rfl
    · cases run with
      | nil => cases hm
      | cons y run =>
        rw [isChain_cons_cons] at h
        rw [ih h.2 rfl hm, deltas_of_merges h.1]

lemma hull_concat (hne : run ≠ []) (bb : BasicBlock) :
    hull (run ++ [bb]) = { hull run with «end» := bb.end } := by
  cases run with
  | nil => contradiction
  | cons b bs => simp [hull]

lemma end_hull (hx : run.getLast? = some x) : (hull run).end = x.end := by
  cases run with
  | nil => cases hx
  | cons b bs =>
    rw [hull, Option.some.inj hx]

lemma hull_end_append (front : List BasicBlock) (y : BasicBlock) (back : List BasicBlock) :
    (hull (front ++ y :: back)).end = (hull (y :: back)).end := by
  have hlast := getLast?_eq_some_getLast (cons_ne_nil y back)
  rw [end_hull hlast, end_hull (x := (y :: back).getLast (cons_ne_nil y back))]
  rw [getLast?_append, hlast, Option.some_or]

lemma deltas_hull (h : run.IsChain fun x y => merges x y = true) (hm : m ∈ run) :
    (hull run).deltas = m.deltas := by
  cases run with
  | nil => cases hm
  | cons b bs => exact (deltas_of_isChain h rfl hm).symm

lemma start_hull (run : List BasicBlock) : (hull run).start = runStart run := by
  cases run <;> rfl

lemma infoAt_hull {w : BasicBlock} (hw : run.head? = some w) (a : ℕ) :
    (hull run).infoAt a = w.infoAt a := by
  cases run with
  | nil => cases hw
  | cons b bs =>
    cases hw
    rfl

variable {iv : IntervalData}

lemma add_of_getLast {lastBlock : BasicBlock} (h : iv.blocks.getLast? = some lastBlock)
    (bb : BasicBlock) : (iv.add bb).blocks = if merges lastBlock bb then
      iv.blocks.dropLast ++ [{ lastBlock with «end» := bb.end }] else iv.blocks ++ [bb] := by
  rw [add, h]
  dsimp only
  by_cases hm : merges lastBlock bb = true
  · rw [if_pos (decide_eq_true_eq.mp hm), if_pos hm]
  · rw [if_neg fun hc => hm (decide_eq_true hc), if_neg hm]

/-- `Add` looks at the deltas and the end only: the hull of a run passes for its last block. -/
lemma merges_hull (h : run.IsChain fun x y => merges x y = true) (hx : run.getLast? = some x)
    (bb : BasicBlock) : merges (hull run) bb = merges x bb := by
  rw [merges, merges, deltas_hull h (mem_of_getLast? hx), end_hull hx]

/-- **Step lemma.** `Add` keeps the blocks the hulls of the runs. -/
lemma blocks_add (h : iv.blocks = (runs bbs).map hull) (bb : BasicBlock) :
    (iv.add bb).blocks = (runs (bbs ++ [bb])).map hull := by
  cases hlast : bbs.getLast? with
  | none =>
    rw [getLast?_eq_none_iff] at hlast
    subst hlast
    have hblocks : iv.blocks = [] := h
    simp [add, hblocks, runs, splitBy, splitBy.loop, hull]
  | some x =>
    -- the last block of the data is the hull of the run that ends in `x`
    obtain ⟨rs, run, hruns, hrun⟩ : ∃ rs run, runs bbs = rs ++ [run] ∧ run.getLast? = some x :=
      Lib.exists_last_run hlast
    have hchain : run.IsChain fun x y => merges x y = true :=
      isChain_of_mem_splitBy (l := bbs) (by rw [← runs, hruns]; simp)
    have hlastBlock : iv.blocks.getLast? = some (hull run) := by simp [h, hruns]
    rw [add_of_getLast hlastBlock, merges_hull hchain hrun]
    cases hm : merges x bb with
    | true =>
      have hsplit := Lib.splitBy_concat hlast hm hruns
      have hne : run ≠ [] := by
        intro hnil
        rw [hnil] at hrun
        cases hrun
      rw [runs, hsplit, h, hruns]
      simp [hull_concat hne]
    | false =>
      have hsplit := Lib.splitBy_concat_of_not (r := merges) (l := bbs) (b := bb) (by
        intro y hy
        rw [hlast] at hy
        cases hy
        exact hm)
      rw [runs, hsplit, h, runs]
      simp [hull]

lemma blocks_addAll (bbs : List BasicBlock) :
    (addAll bbs).blocks = (runs bbs).map hull := by
  induction bbs using reverseRecOn with
  | nil => rfl
  | append_singleton bbs bb ih =>
    rw [addAll, foldl_append]
    exact blocks_add ih bb

/-! ## Finding -/

section Find

variable {iv : IntervalData} {a : ℕ}

lemma find_of_getElem (ok : Bool) (idx : ℕ) {h : BasicBlock}
    (hok : (iv.blocks[lowerBound start iv.blocks a]?).any (fun bb => bb.start = a) = ok)
    (hidx : (if ok then lowerBound start iv.blocks a
      else lowerBound start iv.blocks a - 1) = idx)
    (hpos : ok = false → lowerBound start iv.blocks a ≠ 0)
    (hget : iv.blocks[idx]? = some h) (hle : h.start ≤ a) :
    iv.find a = if a < h.end then some h else none := by
  rw [find, findIndex]
  dsimp only
  rw [hok, hidx, if_neg fun hc => hpos hc.1 hc.2, hget, Option.bind_some]
  by_cases hlt : a < h.end
  · rw [if_pos ⟨hle, hlt⟩, if_pos hlt, Option.bind_some, hget]
  · rw [if_neg fun hc => hlt hc.2, if_neg hlt, Option.bind_none]

section
variable (hsorted : iv.blocks.Pairwise fun b b' => b.start ≤ b'.start)
include hsorted

/-- `Find` looks at the last block that starts at or below the address. -/
lemma find_of_last {h : BasicBlock} (hmem : h ∈ iv.blocks) (hle : h.start ≤ a)
    (hlast : ∀ b ∈ iv.blocks, b.start ≤ a → b.start ≤ h.start)
    (huniq : ∀ b ∈ iv.blocks, b.start = h.start → b = h) :
    iv.find a = if a < h.end then some h else none := by
  obtain ⟨k, hk, rfl⟩ := getElem_of_mem hmem
  have hborder : ∀ {i : ℕ} (hi : i < iv.blocks.length),
      i < lowerBound start iv.blocks a ↔ (iv.blocks[i]).start < a :=
    fun hi => Lib.lt_lowerBound_iff hsorted a hi
  have hmono {i j : ℕ} (hj : j < iv.blocks.length) (hij : i ≤ j) :
      (iv.blocks[i]).start ≤ (iv.blocks[j]).start := by
    rcases Nat.eq_or_lt_of_le hij with rfl | hlt
    · exact le_rfl
    · exact pairwise_iff_getElem.mp hsorted i j _ hj hlt
  generalize hr : lowerBound start iv.blocks a = r at hborder
  have hr_le : r ≤ iv.blocks.length := hr ▸ Lib.lowerBound_le _ _ _
  cases hok : (iv.blocks[r]?).any fun bb => bb.start = a with
  | true =>
    -- a block starts at the address itself
    rw [Option.any_eq_true] at hok
    obtain ⟨bb, hbb, hstart⟩ := hok
    rw [decide_eq_true_eq] at hstart
    have hbb_mem : bb ∈ iv.blocks := mem_of_getElem? hbb
    have hbb_le := hlast bb hbb_mem (by omega)
    have heq := huniq bb hbb_mem (by omega)
    refine find_of_getElem true r ?_ (by rw [hr]; rfl) (by simp) (by rw [hbb, heq]) hle
    rw [hr, hbb]
    simpa using hstart
  | false =>
    -- the search has ended behind the block
    have hkr : k < r := by
      by_contra hge
      have hrlen : r < iv.blocks.length := by omega
      have hup := hmono hk (Nat.le_of_not_lt hge)
      have hnot : ¬ (iv.blocks[r]).start < a := fun hlt => lt_irrefl r ((hborder hrlen).mpr hlt)
      simp [hrlen] at hok
      omega
    have hlt : r - 1 < iv.blocks.length := by omega
    have hprev : iv.blocks[r - 1] = iv.blocks[k] := by
      apply huniq _ (getElem_mem hlt)
      have hup := hlast iv.blocks[r - 1] (getElem_mem hlt) (by
        have := (hborder hlt).mp (by omega)
        omega)
      have hdown := hmono hlt (Nat.le_sub_one_of_lt hkr)
      omega
    refine find_of_getElem false (r - 1) (by rw [hr, hok]) (by rw [hr]; rfl) (by omega)
      ?_ hle
    rw [getElem?_eq_getElem hlt, hprev]

lemma find_of_lt (h : ∀ b ∈ iv.blocks, a < b.start) : iv.find a = none := by
  have hzero : lowerBound start iv.blocks a = 0 := by
    by_contra hne
    have hle := Lib.lowerBound_le start iv.blocks a
    have hlt : 0 < iv.blocks.length := by omega
    have hstart := (Lib.lt_lowerBound_iff hsorted a hlt).mp (by omega)
    have hfirst := h _ (getElem_mem hlt)
    omega
  have hok : (iv.blocks[0]?).any (fun bb => bb.start = a) = false := by
    cases hget : iv.blocks[0]? with
    | none => rfl
    | some bb =>
      have hstart := h bb (mem_of_getElem? hget)
      exact decide_eq_false (by omega)
  rw [find, findIndex]
  rw [hzero, hok, if_pos ⟨rfl, rfl⟩, Option.bind_none]

end

end Find

/-! ## Hulls of runs -/

section Hulls

variable {run : List BasicBlock} (hchain : run.IsChain fun x y => merges x y = true)
  (hblocks : ∀ m ∈ run, m.start < m.end ∧ m.end < 2 ^ 64)

include hchain hblocks

/-- An address of the hull is in a block or a gap of at most 15 bytes; runs wrap forward only. -/
lemma block_or_gap (hlo : runStart run ≤ a) (hhi : a < (hull run).end) :
    (∃ m ∈ run, m.start ≤ a ∧ a < m.end) ∨
      ∃ x ∈ run, ∃ y ∈ run, x.end ≤ a ∧ a < y.start ∧ y.start ≤ x.end + 15 := by
  induction run using reverseRecOn with
  | nil => cases hhi
  | append_singleton run y ih =>
    rw [isChain_append] at hchain
    cases hlast : run.getLast? with
    | none =>
      rw [getLast?_eq_none_iff] at hlast
      subst hlast
      exact .inl ⟨y, by simp, hlo, hhi⟩
    | some x =>
      have hx : x ∈ run := mem_of_getLast? hlast
      have hne : run ≠ [] := ne_nil_of_mem hx
      have hstart : runStart (run ++ [y]) = runStart run := by
        rw [← start_hull, ← start_hull, hull_concat hne]
      have hend : (hull (run ++ [y])).end = y.end := end_hull (by simp)
      rw [hstart] at hlo
      rw [hend] at hhi
      have hblocks' : ∀ m ∈ run, m.start < m.end ∧ m.end < 2 ^ 64 := fun m hm =>
        hblocks m (mem_append_left _ hm)
      by_cases hax : a < x.end
      · -- the address belongs to the run before `y`
        rcases ih hchain.1 hblocks' hlo (by rwa [end_hull hlast]) with ⟨m, hm, hin⟩ |
          ⟨u, hu, v, hv, hgap⟩
        · exact .inl ⟨m, mem_append_left _ hm, hin⟩
        · exact .inr ⟨u, mem_append_left _ hu, v, mem_append_left _ hv, hgap⟩
      · have hmerge := hchain.2.2 x hlast y rfl
        have hy := hblocks y (by simp)
        have hgap := gap_of_merges hmerge (hblocks' x hx).2 (by omega)
        by_cases hay : a < y.start
        · exact .inr ⟨x, by simp [hx], y, by simp, by omega, hay, by omega⟩
        · exact .inl ⟨y, by simp, by omega, hhi⟩

lemma short_of_hull (hb : b.start < b.end) (hapart : ∀ m ∈ run, m.end ≤ b.start ∨ b.end ≤ m.start)
    (hlo : runStart run ≤ b.start) (hhi : b.end ≤ (hull run).end) : b.end ≤ b.start + 15 := by
  rcases block_or_gap hchain hblocks hlo (by omega) with ⟨m, hm, hin⟩ | ⟨x, hx, y, hy, hgap⟩
  · have := hapart m hm
    omega
  · have := hapart y hy
    have := hblocks y hy
    omega

/-- A run of short blocks needs one block for every 30 bytes it climbs. -/
lemma climb {A B : ℕ} (hA : 15 ≤ A) (hstart : runStart run ≤ A)
    (hshort : ∀ m ∈ run, m.start < B → m.end ≤ m.start + 15) (hB : B ≤ (hull run).end) :
    B ≤ A + 30 * run.length := by
  induction run generalizing A with
  | nil =>
    have : B ≤ 0 := hB
    omega
  | cons m rest ih =>
    have hm := hshort m (by simp)
    have hms : m.start ≤ A := hstart
    cases rest with
    | nil =>
      have hBm : B ≤ m.end := hB
      simp only [length_singleton]
      omega
    | cons n rest =>
      rw [isChain_cons_cons] at hchain
      have hgap := gap_of_merges hchain.1 (hblocks m (by simp)).2 (by
        have := hblocks n (by simp)
        omega)
      by_cases hlt : m.start < B
      · have hnext : runStart (n :: rest) ≤ A + 30 := by
          have hn : runStart (n :: rest) = n.start := rfl
          omega
        have hrest := ih hchain.2 (fun k hk => hblocks k (mem_cons_of_mem _ hk)) (by omega) hnext
          (fun k hk => hshort k (mem_cons_of_mem _ hk)) hB
        simp only [length_cons] at hrest ⊢
        omega
      · omega

end Hulls

/-! ## Disjoint blocks -/

/-- Pairwise disjoint non-empty blocks of the 64-bit address space. -/
structure DisjointBlocks (bbs : List BasicBlock) : Prop where
  nonempty : ∀ b ∈ bbs, b.start < b.end
  end_lt : ∀ b ∈ bbs, b.end < 2 ^ 64
  disjoint : bbs.Pairwise fun b b' => b.end ≤ b'.start ∨ b'.end ≤ b.start

namespace DisjointBlocks

variable {bbs : List BasicBlock} (h : DisjointBlocks bbs)

include h

lemma apart {b' : BasicBlock} (hb : b ∈ bbs) (hb' : b' ∈ bbs) (hne : b ≠ b') :
    b.end ≤ b'.start ∨ b'.end ≤ b.start := by
  have hsymm : Std.Symm fun b b' : BasicBlock => b.end ≤ b'.start ∨ b'.end ≤ b.start :=
    ⟨fun _ _ hor => hor.symm⟩
  exact h.disjoint.forall hb hb' hne

lemma nodup : bbs.Nodup := by
  apply List.Pairwise.imp_of_mem _ h.disjoint
  intro b b' hb _ hor heq
  subst heq
  have := h.nonempty b hb
  omega

lemma eq_of_start {b' : BasicBlock} (hb : b ∈ bbs) (hb' : b' ∈ bbs) (heq : b.start = b'.start) :
    b = b' := by
  by_contra hne
  have := h.apart hb hb' hne
  have := h.nonempty b hb
  have := h.nonempty b' hb'
  omega

end DisjointBlocks

lemma mem_of_run (hrun : run ∈ runs bbs) (hm : m ∈ run) : m ∈ bbs := by
  rw [← flatten_splitBy merges bbs, mem_flatten]
  exact ⟨run, hrun, hm⟩

lemma length_run_le (hrun : run ∈ runs bbs) : run.length ≤ bbs.length := by
  rw [← flatten_splitBy merges bbs]
  exact (sublist_flatten_of_mem hrun).length_le

lemma isChain_run (hrun : run ∈ runs bbs) : run.IsChain fun x y => merges x y = true :=
  isChain_of_mem_splitBy hrun

lemma exists_run (hb : b ∈ bbs) : ∃ run ∈ runs bbs, b ∈ run := by
  rw [← flatten_splitBy merges bbs, mem_flatten] at hb
  exact hb

lemma exists_head (hrun : run ∈ runs bbs) :
    ∃ w ∈ run, run.head? = some w ∧ w.start = runStart run := by
  cases run with
  | nil => exact absurd hrun (nil_notMem_splitBy _ _)
  | cons w rest => exact ⟨w, by simp, rfl, rfl⟩

section Runs

variable {bbs : List BasicBlock} (h : DisjointBlocks bbs)

include h

variable {run' : List BasicBlock}

section
variable (hrun : run ∈ runs bbs)
include hrun

lemma run_eq (hrun' : run' ∈ runs bbs) (hm : m ∈ run) (hm' : m ∈ run') : run = run' := by
  by_contra hne
  have hnodup := h.nodup
  rw [← flatten_splitBy merges bbs, nodup_flatten] at hnodup
  have hsymm : Std.Symm (List.Disjoint (α := BasicBlock)) := ⟨fun _ _ hd => hd.symm⟩
  exact hnodup.2.forall hrun hrun' hne hm hm'

lemma run_eq_of_start (hrun' : run' ∈ runs bbs)
    (heq : runStart run = runStart run') : run = run' := by
  obtain ⟨w, hw, -, hstart⟩ := exists_head hrun
  obtain ⟨w', hw', -, hstart'⟩ := exists_head hrun'
  have hww : w = w' := h.eq_of_start (mem_of_run hrun hw) (mem_of_run hrun' hw') (by omega)
  exact run_eq h hrun hrun' hw (hww ▸ hw')

lemma run_blocks : ∀ m ∈ run, m.start < m.end ∧ m.end < 2 ^ 64 := fun m hm =>
  ⟨h.nonempty m (mem_of_run hrun hm), h.end_lt m (mem_of_run hrun hm)⟩

lemma run_apart (hb : b ∈ bbs) (hnot : b ∉ run) : ∀ m ∈ run, m.end ≤ b.start ∨ b.end ≤ m.start := by
  intro m hm
  apply h.apart (mem_of_run hrun hm) hb
  intro heq
  exact hnot (heq ▸ hm)

end

lemma lastRun_inside (hb : b ∈ bbs) (hlo : b.start ≤ a) (hhi : a < b.end)
    (hrun : LastRun bbs b.start run) : LastRun bbs a run := by
  refine ⟨hrun.mem, le_trans hrun.start_le hlo, ?_⟩
  intro other hother hle
  apply hrun.last other hother
  obtain ⟨w, hw, -, hstart⟩ := exists_head hother
  by_cases heq : w = b
  · rw [← hstart, heq]
  · have := h.apart (mem_of_run hother hw) hb heq
    have := h.nonempty w (mem_of_run hother hw)
    omega

omit h in
lemma exists_lastRun (hrun : run ∈ runs bbs) (hle : runStart run ≤ a) :
    ∃ last, LastRun bbs a last := by
  have hmem : run ∈ ((runs bbs).filter fun r => runStart r ≤ a).toFinset := by simp [hrun, hle]
  obtain ⟨last, hlast, hmax⟩ := Finset.exists_max_image _ runStart ⟨run, hmem⟩
  rw [mem_toFinset, mem_filter, decide_eq_true_eq] at hlast
  refine ⟨last, hlast.1, hlast.2, ?_⟩
  intro other hother hle'
  exact hmax other (by simp [hother, hle'])

end Runs

/-! ## What the data finds -/

section Lookup

variable (sorter : Sorter fun a b : BasicBlock => a.start ≤ b.start) {bbs : List BasicBlock}

lemma mem_sort_addAll :
    b ∈ ((addAll bbs).sort sorter).blocks ↔ ∃ run ∈ runs bbs, hull run = b := by
  rw [sort, (sorter.perm _).mem_iff, blocks_addAll, mem_map]

lemma find_of_lastRun (h : DisjointBlocks bbs) (hrun : LastRun bbs a run) :
    ((addAll bbs).sort sorter).find a =
      if a < (hull run).end then some (hull run) else none := by
  apply find_of_last (sorter.sorted _) ((mem_sort_addAll sorter).mpr ⟨run, hrun.mem, rfl⟩)
  · rw [start_hull]
    exact hrun.start_le
  · intro b hb hle
    obtain ⟨other, hother, rfl⟩ := (mem_sort_addAll sorter).mp hb
    rw [start_hull] at hle ⊢
    rw [start_hull]
    exact hrun.last other hother hle
  · intro b hb heq
    obtain ⟨other, hother, rfl⟩ := (mem_sort_addAll sorter).mp hb
    rw [start_hull, start_hull] at heq
    rw [run_eq_of_start h hother hrun.mem heq]

lemma find_of_no_run (hnone : ¬ ∃ run, LastRun bbs a run) :
    ((addAll bbs).sort sorter).find a = none := by
  apply find_of_lt (sorter.sorted _)
  intro b hb
  obtain ⟨run, hrun, rfl⟩ := (mem_sort_addAll sorter).mp hb
  rw [start_hull]
  by_contra hle
  exact hnone (exists_lastRun hrun (by omega))

lemma find_outside (h : DisjointBlocks bbs)
    (hfar : ∀ b ∈ bbs, a + minimumGap < b.start ∨ b.end + minimumGap ≤ a) :
    ((addAll bbs).sort sorter).find a = none := by
  by_cases hsome : ∃ run, LastRun bbs a run
  · obtain ⟨run, hrun⟩ := hsome
    rw [find_of_lastRun sorter h hrun, if_neg]
    intro hlt
    rw [minimumGap] at hfar
    rcases block_or_gap (isChain_run hrun.mem) (run_blocks h hrun.mem) hrun.start_le hlt with
      ⟨m, hm, hin⟩ | ⟨x, hx, y, hy, hgap⟩
    · have := hfar m (mem_of_run hrun.mem hm)
      omega
    · have := hfar x (mem_of_run hrun.mem hx)
      have := (run_blocks h hrun.mem x hx).1
      omega
  · exact find_of_no_run sorter hsome

/-- A block is found when the last run at its start reaches its end with its recipes. -/
lemma finds_iff_lastRun (h : DisjointBlocks bbs) (hb : b ∈ bbs) : (∀ a, b.start ≤ a → a < b.end →
      ∃ found, ((addAll bbs).sort sorter).find a = some found ∧
        ∀ info, b.infoAt a = some info → found.infoAt a = some info) ↔
      ∃ run, LastRun bbs b.start run ∧ b.end ≤ (hull run).end ∧
        ∀ w ∈ run.head?, ∀ a info, b.start ≤ a → a < b.end → b.infoAt a = some info →
          w.infoAt a = some info := by
  constructor
  · intro hfind
    have hpos := h.nonempty b hb
    have hsome : ∃ run, LastRun bbs b.start run := by
      by_contra hnone
      obtain ⟨found, hfound, -⟩ := hfind b.start le_rfl hpos
      rw [find_of_no_run sorter hnone] at hfound
      cases hfound
    obtain ⟨run, hrun⟩ := hsome
    have hat : ∀ a, b.start ≤ a → a < b.end → a < (hull run).end ∧
        ∀ info, b.infoAt a = some info → (hull run).infoAt a = some info := by
      intro a hlo hhi
      obtain ⟨found, hfound, hinfo⟩ := hfind a hlo hhi
      rw [find_of_lastRun sorter h (lastRun_inside h hb hlo hhi hrun)] at hfound
      by_cases hlt : a < (hull run).end
      · rw [if_pos hlt] at hfound
        cases hfound
        exact ⟨hlt, hinfo⟩
      · rw [if_neg hlt] at hfound
        cases hfound
    refine ⟨run, hrun, ?_, ?_⟩
    · have hend := (hat (b.end - 1) (by omega) (by omega)).1
      omega
    · intro w hw a info hlo hhi hinfo
      rw [← infoAt_hull hw]
      exact (hat a hlo hhi).2 info hinfo
  · intro hrun a hlo hhi
    obtain ⟨run, hrun, hend, hinfo⟩ := hrun
    obtain ⟨w, -, hw, -⟩ := exists_head hrun.mem
    refine ⟨hull run, ?_, ?_⟩
    · rw [find_of_lastRun sorter h (lastRun_inside h hb hlo hhi hrun), if_pos (by omega)]
    · intro info hb
      rw [infoAt_hull hw]
      exact hinfo w hw a info hlo hhi hb

end Lookup

/-! ## The condition is enough -/

lemma within_hull (hblocks : ∀ m ∈ run, m.start < m.end)
    (hasc : run.IsChain fun x y => x.end ≤ y.start) (hm : m ∈ run) :
    runStart run ≤ m.start ∧ m.end ≤ (hull run).end := by
  induction run using reverseRecOn generalizing m with
  | nil => cases hm
  | append_singleton run y ih =>
    rw [isChain_append] at hasc
    have hend : (hull (run ++ [y])).end = y.end := end_hull (by simp)
    cases hlast : run.getLast? with
    | none =>
      rw [getLast?_eq_none_iff] at hlast
      subst hlast
      rw [nil_append, mem_singleton] at hm
      subst hm
      exact ⟨le_rfl, le_rfl⟩
    | some x =>
      have hx : x ∈ run := mem_of_getLast? hlast
      have hstart : runStart (run ++ [y]) = runStart run := by
        rw [← start_hull, ← start_hull, hull_concat (ne_nil_of_mem hx)]
      have hxy : x.end ≤ y.start := hasc.2.2 x hlast y rfl
      have hin : ∀ m ∈ run, runStart run ≤ m.start ∧ m.end ≤ x.end := by
        intro m hm
        rw [← end_hull hlast]
        exact ih (fun k hk => hblocks k (mem_append_left _ hk)) hasc.1 hm
      have hy := hblocks y (by simp)
      rw [mem_append, mem_singleton] at hm
      rcases hm with hm | rfl
      · have := hin m hm
        omega
      · have := hin x hx
        have := hblocks x (mem_append_left _ hx)
        omega

/-- The first block of a run gives the recipes of the later ones. -/
lemma infoAt_first (hchain : run.IsChain fun x y => merges x y = true) {w : BasicBlock}
    (hw : run.head? = some w) (hm : m ∈ run) (hle : w.start ≤ m.start) {info : UnwindInfo}
    (hinfo : m.infoAt a = some info) : w.infoAt a = some info := by
  have hdeltas := deltas_of_isChain hchain hw hm
  cases run with
  | nil => cases hm
  | cons b rest =>
    cases hw
    cases rest with
    | nil =>
      rw [mem_singleton] at hm
      exact hm ▸ hinfo
    | cons n rest =>
      rw [isChain_cons_cons] at hchain
      have hone : w.deltas.length = 1 := (decide_eq_true_eq.mp hchain.1).2.1
      obtain ⟨d, hd⟩ := length_eq_one_iff.mp hone
      rw [infoAt, hdeltas, hd] at hinfo
      rw [infoAt, hd]
      simp only [map_cons, map_nil, Lib.lastLe, Option.none_or] at hinfo ⊢
      by_cases hoff : m.start + d.offset ≤ a
      · rw [if_pos hoff] at hinfo
        rw [if_pos (by omega)]
        exact hinfo
      · rw [if_neg hoff] at hinfo
        cases hinfo

section Condition

variable {sorter : Sorter fun a b : BasicBlock => a.start ≤ b.start} {bbs : List BasicBlock}

lemma RunsApart.findsAdded (h : DisjointBlocks bbs) (hapart : RunsApart bbs) :
    FindsAdded bbs ((addAll bbs).sort sorter) := by
  refine ⟨?_, fun a hfar => find_outside sorter h hfar⟩
  intro b hb
  rw [finds_iff_lastRun sorter h hb]
  obtain ⟨run, hrun, hmem⟩ := exists_run hb
  have hwithin : ∀ {r}, r ∈ runs bbs → ∀ {m}, m ∈ r → runStart r ≤ m.start ∧
      m.end ≤ (hull r).end := by
    intro r hr m hm
    exact within_hull (fun k hk => (run_blocks h hr k hk).1) (hapart.ascending r hr) hm
  obtain ⟨last, hlast⟩ := exists_lastRun hrun (hwithin hrun hmem).1
  refine ⟨last, hlast, ?_⟩
  by_cases heq : last = run
  · -- the block is found in its own run
    subst heq
    refine ⟨(hwithin hrun hmem).2, ?_⟩
    intro w hw a info _ _ hinfo
    apply infoAt_first (isChain_run hrun) hw hmem _ hinfo
    obtain ⟨w', -, hw', hstart⟩ := exists_head hrun
    have hww : w = w' := Option.some.inj (hw.symm.trans hw')
    rw [hww, hstart]
    exact hlast.start_le
  · -- it is found in a run that jumps over it
    obtain ⟨⟨q, hq, hlt⟩, hinfo⟩ := hapart.crossing run hrun b hmem last hlast heq
    refine ⟨?_, hinfo⟩
    have hnot : b ∉ last := fun hin => heq (run_eq h hlast.mem hrun hin hmem)
    have := run_apart h hlast.mem hb hnot q hq
    have := hwithin hlast.mem hq
    have := h.nonempty q (mem_of_run hlast.mem hq)
    omega

/-! ## The condition is needed -/

section
variable (h : DisjointBlocks bbs)
include h

lemma short_of_lastRun (hb : b ∈ bbs) {last : List BasicBlock} (hlast : LastRun bbs b.start last)
    (hend : b.end ≤ (hull last).end) (hnot : b ∉ last) : b.end ≤ b.start + 15 :=
  short_of_hull (isChain_run hlast.mem) (run_blocks h hlast.mem) (h.nonempty b hb)
    (run_apart h hlast.mem hb hnot) hlast.start_le hend

section
variable (hfinds : FindsAdded bbs ((addAll bbs).sort sorter))
include hfinds

lemma FindsAdded.lastRun (hb : b ∈ bbs) :
    ∃ last, LastRun bbs b.start last ∧ b.end ≤ (hull last).end := by
  obtain ⟨last, hlast, hend, -⟩ := (finds_iff_lastRun sorter h hb).mp (hfinds.inside b hb)
  exact ⟨last, hlast, hend⟩

/-- In front of a wrap-around blocks are short, found in other runs or beside later ones. -/
lemma FindsAdded.short_front {front back : List BasicBlock} (hrun : front ++ y :: back ∈ runs bbs)
    (hy : y.start < 15) (hm : m ∈ front) : m.end ≤ m.start + 15 := by
  have hm_run : m ∈ front ++ y :: back := mem_append_left _ hm
  have hbb := mem_of_run hrun hm_run
  obtain ⟨last, hlast, hend⟩ := hfinds.lastRun h hbb
  by_cases heq : last = front ++ y :: back
  · subst heq
    have hnodup : (front ++ y :: back).Nodup := by
      have hnodup := h.nodup
      rw [← flatten_splitBy merges bbs, nodup_flatten] at hnodup
      exact hnodup.1 _ hrun
    have hnot : m ∉ y :: back := fun hin => (nodup_append.mp hnodup).2.2 m hm m hin rfl
    have hapart : ∀ k ∈ y :: back, k.end ≤ m.start ∨ m.end ≤ k.start := by
      intro k hk
      apply h.apart (mem_of_run hrun (mem_append_right _ hk)) hbb
      intro hkm
      exact hnot (hkm ▸ hk)
    by_cases hle : y.start ≤ m.start
    · apply short_of_hull (isChain_append.mp (isChain_run hrun)).2.1
        (fun k hk => run_blocks h hrun k (mem_append_right _ hk)) (h.nonempty m hbb) hapart hle
      rwa [hull_end_append] at hend
    · have := hapart y (by simp)
      have := h.nonempty y (mem_of_run hrun (by simp))
      omega
  · exact short_of_lastRun h hbb hlast hend fun hin => heq (run_eq h hlast.mem hrun hin hm_run)

lemma FindsAdded.short_below (hrun : run ∈ runs bbs) (hm : m ∈ run)
    (hlt : m.start < runStart run) : m.end ≤ m.start + 15 := by
  obtain ⟨last, hlast, hend⟩ := hfinds.lastRun h (mem_of_run hrun hm)
  apply short_of_lastRun h (mem_of_run hrun hm) hlast hend
  intro hin
  have heq := run_eq h hlast.mem hrun hin hm
  subst heq
  have := hlast.start_le
  omega

lemma FindsAdded.start_lt_end (hrun : run ∈ runs bbs) : runStart run < (hull run).end := by
  obtain ⟨w, hw, -, hstart⟩ := exists_head hrun
  obtain ⟨last, hlast, hend⟩ := hfinds.lastRun h (mem_of_run hrun hw)
  have heq : last = run := by
    apply run_eq_of_start h hlast.mem hrun
    have := hlast.start_le
    have := hlast.last run hrun (by omega)
    omega
  subst heq
  have := h.nonempty w (mem_of_run hrun hw)
  omega

end

section
variable (hmem : 8 * bbs.length ≤ maxAlloc)
  (hfinds : FindsAdded bbs ((addAll bbs).sort sorter))
include hmem hfinds

/-- A run that wraps around would take more short blocks than memory holds. -/
lemma FindsAdded.ascending (hrun : run ∈ runs bbs) : run.IsChain fun x y => x.end ≤ y.start := by
  rw [isChain_iff_forall_rel_of_append_cons_cons]
  intro x y front back hsplit
  by_contra hdown
  have hjump : run = (front ++ [x]) ++ y :: back := by simp [hsplit]
  subst hjump
  have hlen := length_run_le hrun
  rw [length_append] at hlen
  rw [maxAlloc] at hmem
  have hblocks := run_blocks h hrun
  obtain ⟨hfront, hback, hmerge⟩ := isChain_append.mp (isChain_run hrun)
  have hwrap := gap_of_merges (hmerge x (by simp) y rfl) (hblocks x (by simp)).2 (by
    have := hblocks y (by simp)
    omega)
  have hstart : runStart (front ++ [x] ++ y :: back) = runStart (front ++ [x]) := by
    cases front <;> rfl
  by_cases hlow : runStart (front ++ [x]) < 2 ^ 63
  · -- in front of the jump, from the start of the run to the top
    have hclimb := climb hfront (fun m hm => hblocks m (mem_append_left _ hm))
      (A := 2 ^ 63) (B := 2 ^ 64 - 15) (by omega) (by omega)
      (fun m hm _ => hfinds.short_front h hrun (by omega) hm) (by
        rw [end_hull (x := x) (by simp)]
        omega)
    omega
  · -- behind the jump, from the bottom to the start of the run
    have hend := hfinds.start_lt_end h hrun
    rw [hull_end_append] at hend
    have hclimb := climb hback (fun m hm => hblocks m (mem_append_right _ hm))
      (A := 15) (B := runStart (front ++ [x])) (by omega) (by
        have hy : runStart (y :: back) = y.start := rfl
        omega)
      (fun m hm hlt => hfinds.short_below h hrun (mem_append_right _ hm) (by rwa [hstart]))
      (by omega)
    omega

lemma FindsAdded.runsApart : RunsApart bbs := by
  refine ⟨fun run hrun => hfinds.ascending h hmem hrun, ?_⟩
  intro run hrun y hy other hother hne
  have hbb := mem_of_run hrun hy
  obtain ⟨last, hlast, hend, hinfo⟩ := (finds_iff_lastRun sorter h hbb).mp (hfinds.inside y hbb)
  have heq : last = other := by
    apply run_eq_of_start h hlast.mem hother.mem
    exact le_antisymm (hother.last last hlast.mem hlast.start_le)
      (hlast.last other hother.mem hother.start_le)
  subst heq
  refine ⟨?_, hinfo⟩
  -- the last block of the other run lies behind `y`
  have hnot : y ∉ last := fun hin => hne (run_eq h hlast.mem hrun hin hy)
  cases hq : last.getLast? with
  | none =>
    rw [getLast?_eq_none_iff] at hq
    subst hq
    exact absurd hlast.mem (nil_notMem_splitBy _ _)
  | some q =>
    have hqm : q ∈ last := mem_of_getLast? hq
    have := run_apart h hlast.mem hbb hnot q hqm
    have := h.nonempty y hbb
    rw [end_hull hq] at hend
    exact ⟨q, hqm, by omega⟩

end

end

end Condition

/-- **Main result.** Disjoint sorted blocks are found again exactly when the runs that `Add` merges
keep apart, for lists that fit into memory. -/
theorem find_addAll_iff (sorter : Sorter fun a b : BasicBlock => a.start ≤ b.start)
    {bbs : List BasicBlock} (h : DisjointBlocks bbs) :
    (RunsApart bbs → FindsAdded bbs ((addAll bbs).sort sorter)) ∧
      (8 * bbs.length ≤ maxAlloc →
        FindsAdded bbs ((addAll bbs).sort sorter) → RunsApart bbs) :=
  ⟨fun hapart => hapart.findsAdded h, fun hmem hfinds => hfinds.runsApart h hmem⟩

def byStart : Sorter fun a b : BasicBlock => a.start ≤ b.start :=
  have _ : Std.Total fun a b : BasicBlock => a.start ≤ b.start :=
    ⟨fun a b => Nat.le_total a.start b.start⟩
  have _ : IsTrans BasicBlock fun a b => a.start ≤ b.start := ⟨fun _ _ _ => Nat.le_trans⟩
  .insertion _

/-- Two neighbours that are merged. -/
def neighbours : List BasicBlock :=
  [⟨0x1000, 0x1010, [⟨0, .stop⟩]⟩, ⟨0x1012, 0x1020, [⟨0, .stop⟩]⟩]

theorem find_addAll_neighbours : DisjointBlocks neighbours ∧
    FindsAdded neighbours ((addAll neighbours).sort byStart) := by
  have hdisjoint : DisjointBlocks neighbours := ⟨by decide, by decide, by decide⟩
  have hruns : runs neighbours = [neighbours] := by decide
  refine ⟨hdisjoint, (find_addAll_iff byStart hdisjoint).1 ⟨?_, ?_⟩⟩
  · intro run hrun
    rw [hruns, mem_singleton] at hrun
    subst hrun
    decide
  · intro run hrun y _ other hother hne
    have hmem := hother.mem
    rw [hruns, mem_singleton] at hrun hmem
    exact absurd (hmem.trans hrun.symm) hne

/-- Two neighbours that are merged before the block between them is added. -/
def swallowed : List BasicBlock := neighbours ++ [⟨0x1010, 0x1012, [⟨0, .invalid⟩]⟩]

theorem find_addAll_swallowed : DisjointBlocks swallowed ∧
    ¬ FindsAdded swallowed ((addAll swallowed).sort byStart) := by
  refine ⟨⟨by decide, by decide, by decide⟩, ?_⟩
  intro hfinds
  obtain ⟨found, hfound, -⟩ := hfinds.inside ⟨0x1012, 0x1020, [⟨0, .stop⟩]⟩ (by decide) 0x1015
    (by decide) (by decide)
  cases hfound

end EbpfProfiler.StackDeltas
