import Mathlib.Data.List.Induction
import EbpfProfiler.StackDeltas.PageLookup

/-!
# `get_stack_delta` finds the last delta at or below an address

The window of a page starts at the number of deltas in earlier pages, and the search ends at the
number of deltas up to the address.
-/

namespace EbpfProfiler.StackDeltas

open List StackDeltaMaps Nat Option
open Lib (bisect bisectStep Border)

variable {inner : InnerMap} {deltas : List StackDeltaEBPF} {batch setup : Option String}
  {d : StackDeltaEBPF} {a fileID firstPage i mapID : ℕ}

def StackDeltaEBPF.page (d : StackDeltaEBPF) : ℕ := d.address / 2 ^ stackDeltaPageBits

/-! ## The page counters -/

section
variable (firstPage numPages : ℕ) (deltas : List StackDeltaEBPF)

lemma pageCounters_concat (d : StackDeltaEBPF) : pageCounters firstPage numPages (deltas ++ [d]) =
      (pageCounters firstPage numPages deltas).modify (pageIndex firstPage d.address) (· + 1) := by
  rw [pageCounters, foldl_concat, pageCounters]

lemma length_pageCounters : (pageCounters firstPage numPages deltas).length = numPages := by
  induction deltas using reverseRecOn with
  | nil => simp [pageCounters]
  | append_singleton deltas d ih => rw [pageCounters_concat, length_modify, ih]

end

lemma pageIndex_eq (h : firstPage ≤ d.page) (hlt : d.page < 2 ^ 64) :
    pageIndex firstPage d.address = d.page - firstPage :=
  Lib.subWord_of_le h hlt

lemma getElem?_pageCounters {numPages : ℕ}
    (hpage : ∀ d ∈ deltas, firstPage ≤ d.page ∧ d.page < 2 ^ 64) (hi : i < numPages) :
    (pageCounters firstPage numPages deltas)[i]? =
      some (BitVec.ofNat 16 (deltas.countP fun d => d.page = firstPage + i)) := by
  induction deltas using reverseRecOn with
  | nil => simp [pageCounters, hi]
  | append_singleton deltas d ih =>
    obtain ⟨hle, hlt⟩ := hpage d (by simp)
    have ih := ih fun e he => hpage e (mem_append_left _ he)
    rw [pageCounters_concat, pageIndex_eq hle hlt, countP_append, countP_singleton]
    by_cases hd : d.page = firstPage + i
    · have hindex : d.page - firstPage = i := by omega
      rw [hindex, getElem?_modify_eq, ih, decide_eq_true hd, BitVec.ofNat_add]
      rfl
    · have hindex : d.page - firstPage ≠ i := by omega
      rw [getElem?_modify_ne _ _ hindex, ih, decide_eq_false hd]
      rfl

/-! ## The page windows -/

lemma countP_page_lt_succ (deltas : List StackDeltaEBPF) (p : ℕ) :
    (deltas.countP fun d => d.page < p + 1) =
      (deltas.countP fun d => d.page < p) + deltas.countP fun d => d.page = p := by
  induction deltas with
  | nil => rfl
  | cons d deltas ih =>
    rw [countP_cons, countP_cons, countP_cons]
    rcases lt_trichotomy d.page p with h | h | h
    · simp only [show d.page < p + 1 by omega, h, show d.page ≠ p by omega, decide_true,
        decide_false, if_true, Bool.false_eq_true, if_false]
      omega
    · simp only [h, lt_succ_self, lt_irrefl, decide_true, decide_false, if_true, Bool.false_eq_true,
        if_false]
      omega
    · simp only [show ¬ d.page < p + 1 by omega, show ¬ d.page < p by omega,
        show d.page ≠ p by omega, decide_false, Bool.false_eq_true, if_false]
      omega

lemma sum_take_pageCounters {numPages : ℕ}
    (hpage : ∀ d ∈ deltas, firstPage ≤ d.page ∧ d.page < 2 ^ 64)
    (hcount : ∀ p, (deltas.countP fun d => d.page = p) ≤ 65535) (hi : i ≤ numPages) :
    (((pageCounters firstPage numPages deltas).take i).map BitVec.toNat).sum =
      deltas.countP fun d => d.page < firstPage + i := by
  induction i with
  | zero =>
    rw [take_zero, eq_comm, map_nil, sum_nil, countP_eq_zero]
    intro d hd
    have := (hpage d hd).1
    simp only [decide_eq_true_eq]
    omega
  | succ i ih =>
    have hget := getElem?_pageCounters hpage (show i < numPages by omega)
    have hsmall := hcount (firstPage + i)
    rw [take_add_one, hget, map_append, sum_append_nat, ih (by omega), ← add_assoc,
      countP_page_lt_succ]
    simp only [toList_some, map_cons, map_nil, sum_singleton, BitVec.toNat_ofNat]
    rw [mod_eq_of_lt (by omega)]

lemma lookup_stackDeltaPages (mapID : ℕ) {firstPageAddr : ℕ} {counters : List (BitVec 16)}
    {pageNumber firstDelta : ℕ} {c : BitVec 16} (hi : counters[i]? = some c)
    (haddr : firstPageAddr + (pageNumber + i) * 2 ^ stackDeltaPageBits < 2 ^ 64)
    (hsum : firstDelta + (counters.map BitVec.toNat).sum < 2 ^ 32) :
    (stackDeltaPages mapID firstPageAddr pageNumber firstDelta counters).lookup
        (firstPageAddr + (pageNumber + i) * 2 ^ stackDeltaPageBits) =
      some ⟨firstDelta + ((counters.take i).map BitVec.toNat).sum, c, mapID⟩ := by
  induction counters generalizing pageNumber firstDelta i with
  | nil => simp at hi
  | cons n counters ih =>
    rw [stackDeltaPages, lookup_cons]
    simp only [map_cons, sum_cons] at hsum
    simp only [stackDeltaPageBits] at haddr ⊢
    cases i with
    | zero =>
      have hkey : (firstPageAddr + pageNumber * 2 ^ 16) % 2 ^ 64 =
          firstPageAddr + (pageNumber + 0) * 2 ^ 16 := by
        exact mod_eq_of_lt haddr
      rw [hkey]
      simpa using hi
    | succ i =>
      have hne : (firstPageAddr + (pageNumber + (i + 1)) * 2 ^ 16 ==
          (firstPageAddr + pageNumber * 2 ^ 16) % 2 ^ 64) = false := by
        rw [beq_eq_false_iff_ne]
        omega
      have hstep : pageNumber + (i + 1) = pageNumber + 1 + i := by omega
      have hfirst : (firstDelta + n.toNat) % 2 ^ 32 = firstDelta + n.toNat :=
        mod_eq_of_lt (by omega)
      rw [hne, hfirst, hstep]
      refine (ih (by simpa using hi) (by rw [← hstep]; exact haddr) (by omega)).trans ?_
      rw [take_succ_cons, map_cons, sum_cons, add_assoc]

/-! ## The search -/

def lowLe (m : InnerMap) (pageOffset index : ℕ) : Bool :=
  (m.entries.getD index ⟨0, 0⟩).addrLow ≤ pageOffset

/-- Inside the map, the kernel's search is bisection. -/
lemma bsearch_eq_bisect {m : InnerMap} {pageOffset n lo hi : ℕ} (hmap : hi ≤ m.maxEntries)
    (hwrap : hi < 2 ^ 31) (hlt : lo < hi) :
    bsearch m pageOffset n lo hi = Lib.bisect (lowLe m pageOffset) n lo hi := by
  induction n generalizing lo hi with
  | zero => rfl
  | succ n ih =>
    have hpivot : (lo + hi) % 2 ^ 32 / 2 = (lo + hi) / 2 := by
      rw [mod_eq_of_lt (by omega)]
    have hstep : bsearchStep m pageOffset lo hi = bisectStep (lowLe m pageOffset) lo hi := by
      rw [bsearchStep, bisectStep, hpivot, InnerMap.lookup, if_pos (by omega)]
      have hsucc : ((lo + hi) / 2 + 1) % 2 ^ 32 = (lo + hi) / 2 + 1 := mod_eq_of_lt (by omega)
      simp only [hsucc, lowLe, decide_eq_true_eq]
    rw [bsearch, Lib.bisect, hstep]
    rcases hb : bisectStep (lowLe m pageOffset) lo hi with ⟨window, more⟩
    cases more with
    | false => rfl
    | true =>
      -- the window only shrinks
      have hwin : window.1 < window.2 ∧ window.2 ≤ hi := by
        rw [bisectStep] at hb
        cases hb' : lowLe m pageOffset ((lo + hi) / 2) <;> rw [hb'] at hb <;>
          simp only [Prod.mk.injEq, decide_eq_true_eq, Bool.false_eq_true, if_true,
            if_false] at hb <;>
          obtain ⟨rfl, hlt'⟩ := hb <;> dsimp only at hlt' ⊢ <;> omega
      exact ih (by omega) (by omega) hwin.1

/-! ## A loaded delta list -/

/-- Sorted deltas in counted pages, with no more of them than a counter holds. -/
structure Loadable (deltas : List StackDeltaEBPF) (firstPage numPages : ℕ) : Prop where
  sorted : deltas.Pairwise fun d e => d.address ≤ e.address
  pages : ∀ d ∈ deltas, firstPage ≤ d.page ∧ d.page < firstPage + numPages
  space : firstPage + numPages ≤ 2 ^ 48
  count : ∀ p, (deltas.countP fun d => d.page = p) ≤ 65535

def countLe (deltas : List StackDeltaEBPF) (a : ℕ) : ℕ := deltas.countP fun d => d.address ≤ a

def countBelow (deltas : List StackDeltaEBPF) (page : ℕ) : ℕ := deltas.countP fun d => d.page < page

/-- The window that the load writes for the page of `a`. -/
def pageWindow (deltas : List StackDeltaEBPF) (mapID a : ℕ) : StackDeltaPageInfo where
  firstDelta := countBelow deltas (a / 2 ^ stackDeltaPageBits)
  numDeltas := BitVec.ofNat 16 (deltas.countP fun d => d.page = a / 2 ^ stackDeltaPageBits)
  mapID := mapID

lemma getMapID_ok {n : ℕ} (h : getMapID n = .ok mapID) :
    (stackDeltaBucketSmallest ≤ mapID ∧ mapID ≤ stackDeltaBucketLargest) ∧ n < 2 ^ mapID := by
  unfold getMapID at h
  dsimp only at h
  split at h
  · next hsmall =>
    cases h
    exact ⟨by decide, Nat.size_le.mp hsmall⟩
  · split at h
    · cases h
    · cases h
      exact ⟨by omega, Nat.lt_size_self n⟩

lemma updateExeIDToStackDeltas_ok
    (h : updateExeIDToStackDeltas setup batch fileID deltas = .ok (mapID, inner)) :
    (stackDeltaBucketSmallest ≤ mapID ∧ mapID ≤ stackDeltaBucketLargest) ∧
      deltas.length < 2 ^ mapID ∧
      inner = ⟨2 ^ mapID, deltas.map fun d => ⟨d.addressLow, d.unwindInfo⟩⟩ := by
  unfold updateExeIDToStackDeltas at h
  split at h
  · cases h
  · cases h
  · next id hid =>
    by_cases hlen : 2 ^ id < deltas.length
    · rw [if_pos hlen] at h
      cases h
    · rw [if_neg hlen] at h
      cases batch with
      | some err => cases h
      | none =>
        cases h
        obtain ⟨hvalid, hlt⟩ := getMapID_ok hid
        have hle : 2 ^ mapID ≤ 2 ^ stackDeltaBucketLargest :=
          Nat.pow_le_pow_right (by decide) hvalid.2
        rw [stackDeltaBucketLargest] at hle
        exact ⟨hvalid, by omega, rfl⟩

/-- If the kernel takes the inner map, the number of deltas decides. -/
lemma exists_updateExeIDToStackDeltas (h : deltas.length < 2 ^ stackDeltaBucketLargest) :
    ∃ loaded, updateExeIDToStackDeltas none none fileID deltas = .ok loaded := by
  have hsmall : deltas.length % 2 ^ 32 = deltas.length :=
    Nat.mod_eq_of_lt (lt_trans h (by decide))
  obtain ⟨mapID, hid⟩ : ∃ mapID, getMapID deltas.length = .ok mapID := by
    unfold getMapID
    dsimp only
    split
    · exact ⟨_, rfl⟩
    · rw [if_neg (not_lt.mpr (Nat.size_le.mpr h))]
      exact ⟨_, rfl⟩
  unfold updateExeIDToStackDeltas
  rw [hsmall, hid]
  dsimp only
  rw [if_neg (not_lt.mpr (getMapID_ok hid).2.le)]
  exact ⟨_, rfl⟩

section Loaded

variable {deltas : List StackDeltaEBPF} {firstPage numPages : ℕ}

section
variable (h : Loadable deltas firstPage numPages)
include h

lemma Loadable.page_lt : ∀ d ∈ deltas, firstPage ≤ d.page ∧ d.page < 2 ^ 64 := by
  intro d hd
  have h1 := h.pages d hd
  have h2 := h.space
  omega

lemma Loadable.address_le_iff (hi : i < deltas.length) :
    deltas[i].address ≤ a ↔ i < countLe deltas a := by
  have hmono : deltas.Pairwise fun d e => decide (e.address ≤ a) = true →
      decide (d.address ≤ a) = true :=
    h.sorted.imp fun hle hea => by
      rw [decide_eq_true_eq] at hea ⊢
      omega
  rw [countLe, ← Lib.getElem_iff_lt_countP hmono hi, decide_eq_true_eq]

lemma Loadable.page_lt_iff {p : ℕ}
    (hi : i < deltas.length) : deltas[i].page < p ↔ i < countBelow deltas p := by
  have hmono : deltas.Pairwise fun d e => decide (e.page < p) = true → decide (d.page < p) = true :=
    h.sorted.imp fun hle hea => by
      rw [decide_eq_true_eq] at hea ⊢
      have : _ / 2 ^ stackDeltaPageBits ≤ _ / 2 ^ stackDeltaPageBits := Nat.div_le_div_right hle
      exact lt_of_le_of_lt this hea
  rw [countBelow, ← Lib.getElem_iff_lt_countP hmono hi, decide_eq_true_eq]

end

section
variable (deltas : List StackDeltaEBPF)

lemma countLe_le_length (a : ℕ) : countLe deltas a ≤ deltas.length :=
  countP_le_length

lemma countBelow_le_length (p : ℕ) : countBelow deltas p ≤ deltas.length :=
  countP_le_length

lemma countLe_bounds (a : ℕ) : countBelow deltas (a / 2 ^ stackDeltaPageBits) ≤ countLe deltas a ∧
      countLe deltas a ≤ countBelow deltas (a / 2 ^ stackDeltaPageBits + 1) := by
  constructor
  · apply countP_mono_left
    intro d _ hd
    rw [decide_eq_true_eq, StackDeltaEBPF.page] at hd
    rw [decide_eq_true_eq]
    simp only [stackDeltaPageBits] at hd
    omega
  · apply countP_mono_left
    intro d _ hd
    rw [decide_eq_true_eq] at hd ⊢
    exact lt_succ_of_le (Nat.div_le_div_right hd)

end

section
variable (h : Loadable deltas firstPage numPages)
include h

lemma Loadable.lookup_page {m : StackDeltaMaps} (hlen : deltas.length < 2 ^ 32)
    (ha : firstPage ≤ a / 2 ^ stackDeltaPageBits)
    (ha' : a / 2 ^ stackDeltaPageBits < firstPage + numPages) :
    (m.loadCounted fileID mapID inner firstPage numPages deltas).stackDeltaPageToInfo fileID
        (a - a % 2 ^ stackDeltaPageBits) = some (pageWindow deltas mapID a) := by
  set i := a / 2 ^ stackDeltaPageBits - firstPage with hi
  have hpage : a / 2 ^ stackDeltaPageBits = firstPage + i := by omega
  have hin : i < numPages := by omega
  have hkey : a - a % 2 ^ stackDeltaPageBits =
      firstPage * 2 ^ stackDeltaPageBits + (0 + i) * 2 ^ stackDeltaPageBits := by
    have hdiv := div_add_mod a (2 ^ stackDeltaPageBits)
    rw [hpage] at hdiv
    rw [zero_add, ← add_mul, mul_comm]
    omega
  have hspace := h.space
  have haddr : firstPage * 2 ^ stackDeltaPageBits + (0 + i) * 2 ^ stackDeltaPageBits < 2 ^ 64 := by
    simp only [stackDeltaPageBits]
    omega
  have hsum : 0 + ((pageCounters firstPage numPages deltas).map BitVec.toNat).sum < 2 ^ 32 := by
    have hall := sum_take_pageCounters h.page_lt h.count (le_refl numPages)
    rw [take_of_length_le (length_pageCounters firstPage numPages deltas).le] at hall
    rw [hall, zero_add]
    exact lt_of_le_of_lt countP_le_length hlen
  have hfound := lookup_stackDeltaPages mapID (getElem?_pageCounters h.page_lt hin) haddr hsum
  rw [sum_take_pageCounters h.page_lt h.count hin.le] at hfound
  rw [loadCounted, load, pageWindow, hpage, hkey]
  simp only [if_true, updateStackDeltaPages, hfound, some_or]
  rw [zero_add]
  rfl

lemma Loadable.border {maxEntries : ℕ} :
    Border (lowLe ⟨maxEntries, deltas.map fun d => ⟨d.addressLow, d.unwindInfo⟩⟩
        (a % 2 ^ stackDeltaPageBits))
      (countBelow deltas (a / 2 ^ stackDeltaPageBits))
      (countBelow deltas (a / 2 ^ stackDeltaPageBits + 1)) (countLe deltas a) := by
  obtain ⟨hlo, hhi⟩ := countLe_bounds deltas a
  have hlen := countBelow_le_length deltas (a / 2 ^ stackDeltaPageBits + 1)
  have hlow : ∀ i, (hi : i < deltas.length) →
      countBelow deltas (a / 2 ^ stackDeltaPageBits) ≤ i →
      i < countBelow deltas (a / 2 ^ stackDeltaPageBits + 1) →
      lowLe ⟨maxEntries, deltas.map fun d => ⟨d.addressLow, d.unwindInfo⟩⟩
        (a % 2 ^ stackDeltaPageBits) i = decide (deltas[i].address ≤ a) := by
    intro i hi hge hlt
    have hpage : deltas[i].page = a / 2 ^ stackDeltaPageBits := by
      have h1 :=
        mt (h.page_lt_iff hi).mp (by omega : ¬ i < countBelow deltas (a / 2 ^ stackDeltaPageBits))
      have h2 := (h.page_lt_iff hi).mpr hlt
      omega
    rw [StackDeltaEBPF.page] at hpage
    simp only [lowLe, getD_eq_getElem?_getD, getElem?_map, getElem?_eq_getElem hi, map_some,
      getD_some, StackDeltaEBPF.addressLow]
    simp only [stackDeltaPageBits] at hpage ⊢
    congr 1
    rw [eq_iff_iff]
    omega
  refine ⟨hlo, hhi, ?_, ?_⟩
  · intro i hge hlt
    have hi : i < deltas.length := by omega
    rw [hlow i hi hge (by omega), decide_eq_true ((h.address_le_iff hi).mpr hlt)]
  · intro i hge hlt
    have hi : i < deltas.length := by omega
    rw [hlow i hi (by omega) hlt, decide_eq_false (mt (h.address_le_iff hi).mp (by omega))]

/-- The search ends within 16 steps, on the last delta up to the address. -/
lemma Loadable.findDelta_eq (hfit : deltas.length ≤ 2 ^ mapID) (hmap : 2 ^ mapID ≤ 2 ^ 23)
    (hpos : 0 < countLe deltas a) :
    findDelta ⟨2 ^ mapID, deltas.map fun d => ⟨d.addressLow, d.unwindInfo⟩⟩
      (pageWindow deltas mapID a) (a % 2 ^ stackDeltaPageBits) = .ok (countLe deltas a - 1) := by
  have hlen : countBelow deltas (a / 2 ^ stackDeltaPageBits + 1) ≤ deltas.length :=
    countBelow_le_length deltas _
  obtain ⟨hlo, hhi⟩ := countLe_bounds deltas a
  have hsplit : countBelow deltas (a / 2 ^ stackDeltaPageBits + 1) =
      countBelow deltas (a / 2 ^ stackDeltaPageBits) +
        deltas.countP fun d => d.page = a / 2 ^ stackDeltaPageBits :=
    countP_page_lt_succ deltas _
  have hcount := h.count (a / 2 ^ stackDeltaPageBits)
  have hnum : (pageWindow deltas mapID a).numDeltas.toNat =
      deltas.countP fun d => d.page = a / 2 ^ stackDeltaPageBits := by
    rw [pageWindow, BitVec.toNat_ofNat, mod_eq_of_lt (by omega)]
  have hdec : Lib.subWord 32 (countLe deltas a) 1 = countLe deltas a - 1 :=
    Lib.subWord_of_le hpos (by omega)
  unfold findDelta
  by_cases hzero : (pageWindow deltas mapID a).numDeltas = 0
  · -- no delta in the page: the window is empty and its start is already one too far
    rw [if_neg (by simpa using hzero)]
    rw [hzero] at hnum
    have hstart : (pageWindow deltas mapID a).firstDelta = countLe deltas a := by
      show countBelow deltas _ = _
      have hnum : 0 = deltas.countP fun d => d.page = a / 2 ^ stackDeltaPageBits := hnum
      omega
    rw [hstart, hdec]
  · rw [if_pos hzero]
    have hopen : 0 < (pageWindow deltas mapID a).numDeltas.toNat := by
      rw [Nat.pos_iff_ne_zero]
      intro hn
      exact hzero (BitVec.eq_of_toNat_eq hn)
    have hend : ((pageWindow deltas mapID a).firstDelta +
        (pageWindow deltas mapID a).numDeltas.toNat) % 2 ^ 32 =
        countBelow deltas (a / 2 ^ stackDeltaPageBits + 1) := by
      have hfirst : (pageWindow deltas mapID a).firstDelta =
          countBelow deltas (a / 2 ^ stackDeltaPageBits) := rfl
      rw [hnum, hsplit, hfirst, mod_eq_of_lt (by omega)]
    have hsearch : bsearch ⟨2 ^ mapID, deltas.map fun d => ⟨d.addressLow, d.unwindInfo⟩⟩
        (a % 2 ^ stackDeltaPageBits) 16 (pageWindow deltas mapID a).firstDelta
        (countBelow deltas (a / 2 ^ stackDeltaPageBits + 1)) =
        some (countLe deltas a, countLe deltas a) := by
      show bsearch _ _ 16 (countBelow deltas (a / 2 ^ stackDeltaPageBits)) _ = _
      rw [bsearch_eq_bisect (le_trans hlen hfit) (by omega) (by omega)]
      exact Lib.bisect_eq h.border (by omega) (by omega)
    rw [hend, hsearch]
    dsimp only
    rw [if_neg (by omega), hdec]

/-- The distance that `get_stack_delta` reports, reduced to one page. -/
def reportedDiff (d : StackDeltaEBPF) (a : ℕ) : ℤ :=
  (a % 2 ^ stackDeltaPageBits : ℕ) - (d.addressLow : ℤ) +
    if d.page < a / 2 ^ stackDeltaPageBits then 2 ^ stackDeltaPageBits else 0

/-- The error code that goes with a selected delta. -/
def deltaCode (d : StackDeltaEBPF) : ErrorCode :=
  if d.unwindInfo = stackDeltaInvalid then .nativeStackDeltaInvalid else .ok

variable (m : StackDeltaMaps)
    (hload : updateExeIDToStackDeltas setup batch fileID deltas = .ok (mapID, inner))
    (ha : firstPage ≤ a / 2 ^ stackDeltaPageBits)
    (ha' : a / 2 ^ stackDeltaPageBits < firstPage + numPages) (hpos : 0 < countLe deltas a)
include hload ha ha' hpos

/-- **Selection.** In a loaded page, the last delta up to the address is selected. -/
lemma Loadable.selectDelta_eq :
    selectDelta (m.loadCounted fileID mapID inner firstPage numPages deltas) fileID a =
      .ok (countLe deltas a - 1, pageWindow deltas mapID a, inner) := by
  obtain ⟨⟨hsmallest, hlargest⟩, hlt, hinner⟩ := updateExeIDToStackDeltas_ok hload
  have hfit := hlt.le
  have hmap : 2 ^ mapID ≤ 2 ^ 23 := Nat.pow_le_pow_right (by decide) hlargest
  have hmaps : (m.loadCounted fileID mapID inner firstPage numPages deltas).exeIDToStackDeltas
      mapID fileID = some inner := by
    simp [loadCounted, load]
  have hid : ¬ ((pageWindow deltas mapID a).mapID < stackDeltaBucketSmallest ∨
      stackDeltaBucketLargest < (pageWindow deltas mapID a).mapID) := by
    show ¬ (mapID < _ ∨ _ < mapID)
    omega
  unfold selectDelta
  dsimp only
  rw [h.lookup_page (by omega) ha ha']
  dsimp only
  rw [if_neg hid]
  rw [show (pageWindow deltas mapID a).mapID = mapID from rfl, hmaps]
  dsimp only
  rw [hinner, h.findDelta_eq hfit hmap hpos]

lemma Loadable.getStackDelta_eq (hd : deltas[countLe deltas a - 1]? = some d) :
    getStackDelta (m.loadCounted fileID mapID inner firstPage numPages deltas) fileID a =
      (deltaCode d, some (reportedDiff d a, d.unwindInfo)) := by
  obtain ⟨-, hlt, hinner⟩ := updateExeIDToStackDeltas_ok hload
  have hfit := hlt.le
  have hk : countLe deltas a - 1 < deltas.length := (List.getElem?_eq_some_iff.mp hd).1
  have hget : deltas[countLe deltas a - 1] = d := (List.getElem?_eq_some_iff.mp hd).2
  have hlookup : inner.lookup (countLe deltas a - 1) = some ⟨d.addressLow, d.unwindInfo⟩ := by
    rw [hinner, InnerMap.lookup, if_pos (show countLe deltas a - 1 < 2 ^ mapID by omega)]
    simp [getD_eq_getElem?_getD, hd]
  have hbelow : countLe deltas a - 1 < (pageWindow deltas mapID a).firstDelta ↔
      d.page < a / 2 ^ stackDeltaPageBits := by
    rw [← hget]
    exact (h.page_lt_iff hk).symm
  unfold getStackDelta
  rw [h.selectDelta_eq m hload ha ha' hpos]
  dsimp only
  rw [hlookup]
  dsimp only
  by_cases hpage : d.page < a / 2 ^ stackDeltaPageBits
  · rw [if_pos (hbelow.mpr hpage), reportedDiff, if_pos hpage]
    rfl
  · rw [if_neg (mt hbelow.mp hpage), reportedDiff, if_neg hpage, Int.add_zero]
    rfl

end

/-- The last delta up to `a`, at a distance that merge comparisons read like the true one. -/
def FindsDelta (deltas : List StackDeltaEBPF) (m : StackDeltaMaps) (fileID a : ℕ) : Prop :=
  ∃ k d info inner addrDiff, deltas[k]? = some d ∧ d.address ≤ a ∧
    (∀ e ∈ deltas.drop (k + 1), a < e.address) ∧
    selectDelta m fileID a = .ok (k, info, inner) ∧
    getStackDelta m fileID a = (deltaCode d, some (addrDiff, d.unwindInfo)) ∧
    (1 ≤ addrDiff ↔ 1 ≤ a - d.address) ∧ (2 ≤ addrDiff ↔ 2 ≤ a - d.address)

/-- The first byte of a page, with the last delta at the end of a page further back. -/
def PageEndAlias (deltas : List StackDeltaEBPF) (a : ℕ) : Prop :=
  a % 2 ^ stackDeltaPageBits = 0 ∧ ∃ d ∈ deltas,
    d.address % 2 ^ stackDeltaPageBits = 2 ^ stackDeltaPageBits - 1 ∧ d.address + 1 < a ∧
    ∀ e ∈ deltas, e.address ≤ a → e.address ≤ d.address

lemma reportedDiff_iff (hd : d.address ≤ a) :
    ((1 ≤ reportedDiff d a ↔ 1 ≤ a - d.address) ∧ (2 ≤ reportedDiff d a ↔ 2 ≤ a - d.address)) ↔
      ¬ (a % 2 ^ stackDeltaPageBits = 0 ∧
        d.address % 2 ^ stackDeltaPageBits = 2 ^ stackDeltaPageBits - 1 ∧ d.address + 1 < a) := by
  rw [reportedDiff]
  by_cases hpage : d.page < a / 2 ^ stackDeltaPageBits
  all_goals
    simp only [StackDeltaEBPF.addressLow, StackDeltaEBPF.page, stackDeltaPageBits] at hpage ⊢
    omega

/-- **`get_stack_delta` is right except at the page end alias**, for an address in a loaded page
that is not below the first delta. -/
theorem getStackDelta_findsDelta_iff (h : Loadable deltas firstPage numPages) (m : StackDeltaMaps)
    {setup batch : Option String} {fileID mapID : ℕ} {inner : InnerMap}
    (hload : updateExeIDToStackDeltas setup batch fileID deltas = .ok (mapID, inner)) {a : ℕ}
    (ha : firstPage ≤ a / 2 ^ stackDeltaPageBits)
    (ha' : a / 2 ^ stackDeltaPageBits < firstPage + numPages) {first : StackDeltaEBPF}
    (hfirst : deltas.head? = some first) (hbelow : first.address ≤ a) :
    FindsDelta deltas (m.loadCounted fileID mapID inner firstPage numPages deltas) fileID a ↔
      ¬ PageEndAlias deltas a := by
  have hpos : 0 < countLe deltas a := by
    obtain ⟨rest, rfl⟩ : ∃ rest, deltas = first :: rest := head?_eq_some_iff.mp hfirst
    exact (h.address_le_iff (a := a) (i := 0) (by simp)).mp hbelow
  have hk : countLe deltas a - 1 < deltas.length := by
    have := countLe_le_length deltas a
    omega
  set d := deltas[countLe deltas a - 1] with hddef
  have hd : deltas[countLe deltas a - 1]? = some d := getElem?_eq_getElem hk
  have hda : d.address ≤ a := (h.address_le_iff hk).mpr (by omega)
  have hafter : ∀ e ∈ deltas.drop (countLe deltas a - 1 + 1), a < e.address := by
    intro e he
    obtain ⟨j, hj, rfl⟩ := mem_iff_getElem.mp he
    rw [getElem_drop]
    have hlt := mt (h.address_le_iff (a := a) (i := countLe deltas a - 1 + 1 + j)
      (by rw [length_drop] at hj; omega)).mp (by omega)
    omega
  -- every delta at or below `a` is at or before `d`
  have hmax : ∀ e ∈ deltas, e.address ≤ a → e.address ≤ d.address := by
    intro e he hea
    obtain ⟨j, hj, rfl⟩ := mem_iff_getElem.mp he
    have hjk : j ≤ countLe deltas a - 1 := by
      have := (h.address_le_iff hj).mp hea
      omega
    rcases lt_or_eq_of_le hjk with hlt | heq
    · exact pairwise_iff_getElem.mp h.sorted j _ hj hk hlt
    · simp only [heq, hddef, le_refl]
  have halias : PageEndAlias deltas a ↔ a % 2 ^ stackDeltaPageBits = 0 ∧
      d.address % 2 ^ stackDeltaPageBits = 2 ^ stackDeltaPageBits - 1 ∧ d.address + 1 < a := by
    constructor
    · rintro ⟨hzero, e, he, hend, hlt, hemax⟩
      have heq : e.address = d.address :=
        le_antisymm (hmax e he (by omega)) (hemax d (getElem_mem hk) hda)
      exact ⟨hzero, by rw [← heq]; exact hend, by omega⟩
    · rintro ⟨hzero, hend, hlt⟩
      exact ⟨hzero, d, getElem_mem hk, hend, hlt, hmax⟩
  have hselect := h.selectDelta_eq m hload ha ha' hpos
  have hget := h.getStackDelta_eq m hload ha ha' hpos hd
  rw [halias, ← reportedDiff_iff hda]
  constructor
  · rintro ⟨k, e, info, inner', addrDiff, hke, -, -, hsel, hval, hcmp⟩
    rw [hselect] at hsel
    cases hsel
    rw [hd] at hke
    cases hke
    rw [hget] at hval
    cases hval
    exact hcmp
  · intro hcmp
    exact ⟨_, d, _, _, _, hd, hda, hafter, hselect, hget, hcmp⟩

end Loaded

def pageEndDeltas : List StackDeltaEBPF := [⟨0xffff, 5⟩, ⟨0x20010, stackDeltaInvalid⟩]

def StackDeltaMaps.empty : StackDeltaMaps := ⟨fun _ _ => none, fun _ _ => none⟩

lemma loadable_pageEndDeltas : Loadable pageEndDeltas 0 3 where
  sorted := by decide
  pages := by decide
  space := by decide
  count p := le_trans countP_le_length (by decide)

def pageEndInner : InnerMap := ⟨256, [⟨0xffff, 5⟩, ⟨0x10, stackDeltaInvalid⟩]⟩

lemma load_pageEndDeltas :
    updateExeIDToStackDeltas none none 1 pageEndDeltas = .ok (8, pageEndInner) := by
  decide +kernel

theorem getStackDelta_findsDelta_pageEnd :
    Loadable pageEndDeltas 0 3 ∧
    updateExeIDToStackDeltas none none 1 pageEndDeltas = .ok (8, pageEndInner) ∧
    (FindsDelta pageEndDeltas
        (empty.loadCounted 1 8 pageEndInner 0 3 pageEndDeltas) 1 0x10000 ↔
      ¬ PageEndAlias pageEndDeltas 0x10000) :=
  ⟨loadable_pageEndDeltas, load_pageEndDeltas,
    getStackDelta_findsDelta_iff loadable_pageEndDeltas empty load_pageEndDeltas
      (by decide) (by decide) rfl (by decide)⟩

/-- Two pages later the distance 65537 is reported as 1. -/
theorem getStackDelta_loses_pages :
    Loadable pageEndDeltas 0 3 ∧
    updateExeIDToStackDeltas none none 1 pageEndDeltas = .ok (8, pageEndInner) ∧
    getStackDelta (empty.loadCounted 1 8 pageEndInner 0 3 pageEndDeltas) 1 0x20000 =
      (.ok, some (1, 5)) ∧
    ¬ FindsDelta pageEndDeltas
      (empty.loadCounted 1 8 pageEndInner 0 3 pageEndDeltas) 1 0x20000 := by
  have hget : getStackDelta (empty.loadCounted 1 8 pageEndInner 0 3 pageEndDeltas)
      1 0x20000 = (.ok, some (1, 5)) := by
    decide +kernel
  refine ⟨loadable_pageEndDeltas, load_pageEndDeltas, hget, ?_⟩
  rintro ⟨k, d, info, inner, addrDiff, hk, hda, -, -, hval, -, hcmp⟩
  rw [hget] at hval
  obtain rfl : addrDiff = 1 := by
    simp only [Prod.mk.injEq, some.injEq] at hval
    exact hval.2.1.symm
  have hd : d = ⟨0xffff, 5⟩ := by
    have hmem := mem_of_getElem? hk
    simp only [pageEndDeltas, mem_cons, not_mem_nil, or_false] at hmem
    rcases hmem with rfl | rfl
    · rfl
    · exact absurd hda (by decide)
  subst hd
  exact absurd (hcmp.mpr (by decide)) (by decide)

end EbpfProfiler.StackDeltas
