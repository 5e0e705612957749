import Mathlib.Data.Finset.Card
import EbpfProfiler.ExecInfo.ManagerTheorems
import EbpfProfiler.StackDeltas.DeltaMeaningTheorems

/-!
# When `loadDeltas` panics

Counters and keys are allocated for the pages from the first block to the last one, and a delta is
counted in the page of its address. `Loadable` is what the interval data must meet.
-/

namespace EbpfProfiler.ExecInfo

open Lib StackDeltas List Comp Finset

variable {iv : IntervalData} {t : UnwindTable}

variable {ι : Type}

/-! ## The condition -/

/-- The recipes of some rows that take an index of their own. -/
def recipes (l : List (ℕ × UnwindInfo)) : Finset UnwindInfo :=
  ((l.map (·.2)).filter fun info => info.isCommand = false).toFinset

/-- The row is written after `before` but not counted: it is no repeat, its recipe can get an index,
and its page is outside. -/
structure Stray (firstPage n : ℕ) (before : List (ℕ × UnwindInfo)) (row : ℕ × UnwindInfo) :
    Prop where
  new : valueAfter none before ≠ some row.2
  fits : (recipes (before ++ [row])).card ≤ unwindInfoMaxEntries
  outside : n ≤ pageIndex firstPage row.1

/-- There are indices for all recipes of the rows, and a map for all deltas. -/
structure Fits (l : List (ℕ × UnwindInfo)) : Prop where
  recipes : (recipes l).card ≤ unwindInfoMaxEntries
  deltas : (dropRepeats none l).length < 2 ^ stackDeltaBucketLargest

/-- Counters and keys can be allocated where needed, and every written row has its counter. -/
structure Loadable (iv : IntervalData) : Prop where
  alloc : 2 * numPages iv ≤ maxAlloc
  inside : ∀ before row after, rows iv.blocks = before ++ row :: after →
    ¬ Stray (firstPage iv) (numPages iv) before row
  keys : Fits (rows iv.blocks) → 16 * numPages iv ≤ maxAlloc

lemma loadable_of_forall (halloc : 16 * numPages iv ≤ maxAlloc)
    (hrows : ∀ row ∈ rows iv.blocks, pageIndex (firstPage iv) row.1 < numPages iv) :
    Loadable iv := by
  refine ⟨by omega, ?_, fun _ => halloc⟩
  intro before row after heq hstray
  have hlt := hrows row (by simp [heq])
  have hle := hstray.outside
  omega

/-! ## The recipes in the table -/

lemma recipes_concat (l : List (ℕ × UnwindInfo)) (row : ℕ × UnwindInfo) :
    recipes (l ++ [row]) = if row.2.isCommand then recipes l else insert row.2 (recipes l) := by
  unfold recipes
  cases h : row.2.isCommand with
  | true => simp [h]
  | false => simp [h]

lemma recipes_subset_append (l m : List (ℕ × UnwindInfo)) : recipes l ⊆ recipes (l ++ m) := by
  intro info h
  unfold recipes at h ⊢
  simp only [map_append, filter_append, toFinset_append]
  exact mem_union_left _ h

def tableRecipes (t : UnwindTable) : Finset UnwindInfo := (t.unwindInfoIndex.map (·.1)).toFinset

lemma card_tableRecipes (ht : t.Synced) : (tableRecipes t).card = t.unwindInfoIndex.length := by
  rw [tableRecipes, toFinset_card_of_nodup ht.nodup, length_map]

lemma mem_tableRecipes_of_lookup {info : UnwindInfo} {index : BitVec 16}
    (h : t.unwindInfoIndex.lookup info = some index) : info ∈ tableRecipes t := by
  obtain ⟨l, m, heq, -⟩ := lookup_eq_some_iff.mp h
  simp [tableRecipes, heq]

variable {mapUpdate : BitVec 16 → UnwindInfo → Option String}

lemma tableRecipes_getUnwindInfoIndex {info : UnwindInfo} {t' : UnwindTable} {index : BitVec 16}
    (h : (getUnwindInfoIndex mapUpdate info).exec t = (.ok index, t')) : tableRecipes t' =
      if info.isCommand then tableRecipes t else insert info (tableRecipes t) := by
  rcases getUnwindInfoIndex_cases mapUpdate info t with
    ⟨hc, h'⟩ | ⟨i, hl, h'⟩ | ⟨hc, -, -, h'⟩ | ⟨text, h'⟩
  · cases h.symm.trans h'
    rw [if_pos hc]
  · cases h.symm.trans h'
    split
    · rfl
    · exact (insert_eq_of_mem (mem_tableRecipes_of_lookup hl)).symm
  · cases h.symm.trans h'
    simp [tableRecipes, UnwindTable.insert, hc]
  · cases h.symm.trans h'

lemma getUnwindInfoIndex_succeeds (ht : t.Synced) (info : UnwindInfo)
    (hroom : info.isCommand = false → (insert info (tableRecipes t)).card ≤ unwindInfoMaxEntries) :
    ∃ index t', (getUnwindInfoIndex (fun _ _ => none) info).exec t = (.ok index, t') := by
  unfold getUnwindInfoIndex
  by_cases hc : info.isCommand = true
  · rw [if_pos hc]
    exact ⟨_, _, rfl⟩
  rw [if_neg hc, exec_get_bind]
  cases hl : t.unwindInfoIndex.lookup info with
  | some index => exact ⟨index, t, rfl⟩
  | none =>
    have hnew : info ∉ tableRecipes t := by
      intro hmem
      rw [tableRecipes, mem_toFinset] at hmem
      obtain ⟨e, he, hinfo⟩ := mem_map.mp hmem
      have hne := lookup_eq_none_iff.mp hl e he
      simp [hinfo] at hne
    have hlt : t.unwindInfoIndex.length < unwindInfoMaxEntries := by
      have hcard := hroom (by simpa using hc)
      rw [card_insert_of_notMem hnew, card_tableRecipes ht] at hcard
      omega
    have hidx : (BitVec.ofNat 16 t.unwindInfoIndex.length).toNat = t.unwindInfoIndex.length := by
      have hsmall : t.unwindInfoIndex.length < 2 ^ 16 := lt_trans hlt (by decide)
      rw [BitVec.toNat_ofNat, Nat.mod_eq_of_lt hsmall]
    have hupdate : (updateUnwindInfo (fun _ _ => none)
        (BitVec.ofNat 16 t.unwindInfoIndex.length) info).exec t = (.ok (), { t with
          unwindInfoArray := Function.update t.unwindInfoArray
            (BitVec.ofNat 16 t.unwindInfoIndex.length) info }) := by
      unfold updateUnwindInfo
      rw [if_neg (by omega)]
      rfl
    rw [exec_bind_of_ok (exec_wrapError_ok hupdate _)]
    exact ⟨_, _, rfl⟩

/-! ## Rows -/

/-- The state of a load after the rows `l`, with `n` counted pages. -/
structure Loading (t : UnwindTable) (st : Loader) (l : List (ℕ × UnwindInfo)) (n : ℕ) : Prop where
  synced : t.Synced
  emitted : Emitted t st l
  held : recipes l ⊆ tableRecipes t
  pages : st.numDeltasPerPage.length = n

section Rows

variable {mapUpdate : BitVec 16 → UnwindInfo → Option String} {fp n : ℕ} {st st' : Loader}
  {t t' : UnwindTable} {l : List (ℕ × UnwindInfo)} {row : ℕ × UnwindInfo}

lemma recipes_subset_concat {s : Finset UnwindInfo} (h : recipes l ⊆ s) (row : ℕ × UnwindInfo) :
    recipes (l ++ [row]) ⊆ if row.2.isCommand then s else insert row.2 s := by
  rw [recipes_concat]
  split
  · exact h
  · exact insert_subset_insert _ h

/-- **Step lemma.** One row is loaded. -/
lemma Loading.addDelta (h : Loading t st l n) (hrow : row.2.Encodable)
    (hexec : (addDelta mapUpdate fp st row.1 row.2).exec t = (.ok st', t')) :
    Loading t' st' (l ++ [row]) n := by
  obtain ⟨ht', hst', hlen⟩ := addDelta_emitted h.synced hrow h.emitted hexec
  refine ⟨ht', hst', ?_, hlen.trans h.pages⟩
  obtain ⟨index, t₁, hget, hrest⟩ := exec_bind_ok.mp hexec
  have hsame : t₁ = t' := by
    split at hrest
    · cases hrest
      rfl
    · split at hrest
      · cases hrest
        rfl
      · cases hrest
  rw [← hsame, tableRecipes_getUnwindInfoIndex hget]
  exact recipes_subset_concat h.held row

/-- **Run lemma.** All rows are loaded. -/
lemma Loading.append {m : List (ℕ × UnwindInfo)} (hm : ∀ row ∈ m, row.2.Encodable)
    (h : Loading t st l n) (hexec : (addRows mapUpdate fp st m).exec t = (.ok st', t')) :
    Loading t' st' (l ++ m) n := by
  induction m generalizing st t l with
  | nil =>
    cases hexec
    rwa [append_nil]
  | cons row m ih =>
    obtain ⟨st₁, t₁, hadd, hexec⟩ := exec_bind_ok.mp hexec
    rw [append_cons]
    exact ih (fun r hr => hm r (mem_cons_of_mem _ hr))
      (h.addDelta (hm row mem_cons_self) hadd) hexec

lemma card_le_of_subset (ht : t.Synced) (h : recipes l ⊆ tableRecipes t) :
    (recipes l).card ≤ unwindInfoMaxEntries := by
  calc (recipes l).card
      ≤ (tableRecipes t).card := card_le_card h
    _ = t.unwindInfoIndex.length := card_tableRecipes ht
    _ ≤ unwindInfoMaxEntries := ht.length_le

/-- **Run lemma.** A panic is that of a stray row. -/
lemma Loading.stray_of_panics {m : List (ℕ × UnwindInfo)} (hm : ∀ row ∈ m, row.2.Encodable)
    (h : Loading t st l n) (hp : (addRows mapUpdate fp st m).Panics t) :
    ∃ before row after, m = before ++ row :: after ∧ Stray fp n (l ++ before) row := by
  induction m generalizing st t l with
  | nil =>
    obtain ⟨text, u, hexec⟩ := hp
    cases hexec
  | cons row m ih =>
    have hrow := hm row mem_cons_self
    rw [addRows, foldlM_cons, panics_bind] at hp
    rcases hp with ⟨text, u, hexec⟩ | ⟨st₁, t₁, hexec, hp⟩
    · refine ⟨[], row, m, rfl, ?_⟩
      rw [append_nil]
      rcases hget : (getUnwindInfoIndex mapUpdate row.2).exec t with ⟨r, t₁⟩
      cases r with
      | error e =>
        -- asking for an index fails with an error, it does not panic
        unfold StackDeltas.addDelta at hexec
        rw [exec_bind_of_error hget] at hexec
        rcases getUnwindInfoIndex_cases mapUpdate row.2 t with
          ⟨-, h'⟩ | ⟨i, -, h'⟩ | ⟨-, -, -, h'⟩ | ⟨err, h'⟩
        · cases hget.symm.trans h'
        · cases hget.symm.trans h'
        · cases hget.symm.trans h'
        · cases hget.symm.trans h'
          cases hexec
      | ok index =>
        have ht₁ := (getUnwindInfoIndex_synced mapUpdate row.2 h.synced).1
        rw [hget] at ht₁
        rcases addDelta_cases fp row.1 h.synced hrow h.emitted hget with
          ⟨-, h'⟩ | ⟨-, -, h'⟩ | ⟨hnew, hpage, -⟩
        · cases h'.symm.trans hexec
        · cases h'.symm.trans hexec
        · have hsub := recipes_subset_concat h.held row
          rw [← tableRecipes_getUnwindInfoIndex hget] at hsub
          exact ⟨hnew, card_le_of_subset ht₁ hsub, h.pages ▸ hpage⟩
    · obtain ⟨before, bad, after, rfl, hbad⟩ :=
        ih (fun r hr => hm r (mem_cons_of_mem _ hr)) (h.addDelta hrow hexec) hp
      refine ⟨row :: before, bad, after, rfl, ?_⟩
      rwa [append_cons]

lemma getUnwindInfoIndex_of_fits (ht : t.Synced) (honly : tableRecipes t ⊆ recipes l)
    (hfits : (recipes (l ++ [row])).card ≤ unwindInfoMaxEntries) :
    ∃ index t', (getUnwindInfoIndex (fun _ _ => none) row.2).exec t = (.ok index, t') ∧
      tableRecipes t' ⊆ recipes (l ++ [row]) := by
  have hsub : (if row.2.isCommand then tableRecipes t else insert row.2 (tableRecipes t)) ⊆
      recipes (l ++ [row]) := by
    rw [recipes_concat]
    split
    · exact honly
    · exact insert_subset_insert _ honly
  obtain ⟨index, t', hget⟩ := getUnwindInfoIndex_succeeds ht row.2 (by
    intro hc
    rw [hc] at hsub
    exact (card_le_card hsub).trans hfits)
  rw [← tableRecipes_getUnwindInfoIndex hget] at hsub
  exact ⟨index, t', hget, hsub⟩

/-- **Run lemma.** If the kernel takes every entry, rows that fit are loaded, or loading panics. -/
lemma Loading.panics_or_ok {m : List (ℕ × UnwindInfo)} (hm : ∀ r ∈ m, r.2.Encodable)
    (h : Loading t st l n) (honly : tableRecipes t ⊆ recipes l)
    (hfits : (recipes (l ++ m)).card ≤ unwindInfoMaxEntries) :
    (addRows (fun _ _ => none) fp st m).Panics t ∨ ∃ st' t',
      (addRows (fun _ _ => none) fp st m).exec t = (.ok st', t') ∧
        tableRecipes t' ⊆ recipes (l ++ m) := by
  induction m generalizing st t l with
  | nil =>
    rw [append_nil]
    exact .inr ⟨st, t, rfl, honly⟩
  | cons r m ih =>
    rw [append_cons] at hfits ⊢
    have hle : (recipes (l ++ [r])).card ≤ unwindInfoMaxEntries :=
      (card_le_card (recipes_subset_append _ _)).trans hfits
    obtain ⟨index, t₁, hget, honly'⟩ := getUnwindInfoIndex_of_fits h.synced honly hle
    have henc := hm r mem_cons_self
    have hrest : ∀ st₁ : Loader,
        (StackDeltas.addDelta (fun _ _ => none) fp st r.1 r.2).exec t = (.ok st₁, t₁) →
        (addRows (fun _ _ => none) fp st (r :: m)).Panics t ∨ ∃ st' t',
          (addRows (fun _ _ => none) fp st (r :: m)).exec t = (.ok st', t') ∧
            tableRecipes t' ⊆ recipes (l ++ [r] ++ m) := by
      intro st₁ hexec
      rw [addRows, foldlM_cons, panics_bind]
      simp only [exec_bind_of_ok hexec]
      exact (ih (fun x hx => hm x (mem_cons_of_mem _ hx))
        (h.addDelta henc hexec) honly' hfits).imp_left fun hp => .inr ⟨st₁, t₁, hexec, hp⟩
    rcases addDelta_cases fp r.1 h.synced henc h.emitted hget with ⟨-, h'⟩ | ⟨-, -, h'⟩ | ⟨-, -, h'⟩
    · exact hrest _ h'
    · exact hrest _ h'
    · left
      rw [addRows, foldlM_cons, panics_bind]
      exact .inl ⟨_, _, h'⟩

/-- A stray row makes the load panic, at the latest when it comes to it. -/
lemma Loading.panics_of_stray {before after : List (ℕ × UnwindInfo)}
    (hm : ∀ r ∈ before ++ row :: after, r.2.Encodable) (h : Loading t st l n)
    (honly : tableRecipes t ⊆ recipes l) (hbad : Stray fp n (l ++ before) row) :
    (addRows (fun _ _ => none) fp st (before ++ row :: after)).Panics t := by
  have hbefore : ∀ r ∈ before, r.2.Encodable := fun r hr => hm r (mem_append_left _ hr)
  rw [addRows_append, panics_bind]
  rcases h.panics_or_ok hbefore honly
    ((card_le_card (recipes_subset_append _ _)).trans hbad.fits) with hp | ⟨st₁, t₁, hexec, honly'⟩
  · exact .inl hp
  · have h₁ := h.append hbefore hexec
    obtain ⟨index, t₂, hget, -⟩ := getUnwindInfoIndex_of_fits h₁.synced honly' hbad.fits
    refine .inr ⟨st₁, t₁, hexec, ?_⟩
    rw [addRows, foldlM_cons, panics_bind]
    rcases addDelta_cases fp row.1 h₁.synced (hm row (by simp)) h₁.emitted hget with
      ⟨hrep, -⟩ | ⟨-, hpage, -⟩ | ⟨-, -, h'⟩
    · exact absurd hrep hbad.new
    · have hle := hbad.outside
      rw [h₁.pages] at hpage
      omega
    · exact .inl ⟨_, _, h'⟩

end Rows

/-! ## Interval data -/

lemma convertDeltas_eq (mapUpdate : BitVec 16 → UnwindInfo → Option String)
    (hiv : ∀ b ∈ iv.blocks, ∀ d ∈ b.deltas, d.info.Canonical) (hne : iv.blocks ≠ []) :
    convertDeltas mapUpdate iv = makeCounters (numPages iv) >>= fun counters =>
      addRows mapUpdate (firstPage iv) ⟨[], counters⟩ (rows iv.blocks) := by
  unfold convertDeltas numPages firstPage
  rw [head?_eq_some_head hne, getLast?_eq_some_getLast hne]
  dsimp only [Option.elim]
  congr 1
  funext counters
  exact loadBlocks_eq mapUpdate _ iv.blocks hiv rfl _

lemma loading_start (ht : t.Synced) (n : ℕ) : Loading t ⟨[], List.replicate n 0⟩ [] n :=
  ⟨ht, ⟨by simp, rfl⟩, by simp [recipes], length_replicate⟩

section
variable (hiv : ∀ b ∈ iv.blocks, ∀ d ∈ b.deltas, d.info.Canonical)
include hiv

/-- A conversion in which every row has its counter does not panic. -/
lemma convertDeltas_safe (hne : iv.blocks ≠ []) (h : Loadable iv)
    (ht : t.Synced) : ¬ (convertDeltas mapUpdate iv).Panics t := by
  have halloc := h.alloc
  rw [convertDeltas_eq mapUpdate hiv hne, makeCounters, if_neg (by omega)]
  intro hp
  obtain ⟨before, row, after, heq, hbad⟩ :=
    (loading_start ht (numPages iv)).stray_of_panics (rows_encodable hiv) hp
  exact h.inside before row after heq hbad

/-- What has been loaded did fit. -/
lemma fits_of_loaded (hne : iv.blocks ≠ []) (ht : t.Synced) {st : Loader} {t' : UnwindTable}
    {setup batch : Option String} {fileID : ℕ} {loaded : ℕ × InnerMap}
    (h : (convertDeltas mapUpdate iv).exec t = (.ok st, t'))
    (hload : updateExeIDToStackDeltas setup batch fileID st.ebpfDeltas = .ok loaded) :
    Fits (rows iv.blocks) := by
  rw [convertDeltas_eq mapUpdate hiv hne] at h
  obtain ⟨counters, t₁, hmake, h⟩ := exec_bind_ok.mp h
  obtain ⟨rfl, rfl, -⟩ := makeCounters_ok hmake
  have hloading : Loading t' st (rows iv.blocks) (numPages iv) :=
    (loading_start ht _).append (rows_encodable hiv) h
  refine ⟨card_le_of_subset hloading.synced hloading.held, ?_⟩
  obtain ⟨hvalid, hlt, -⟩ := updateExeIDToStackDeltas_ok hload
  calc (dropRepeats none (rows iv.blocks)).length
      = st.ebpfDeltas.length := by rw [← hloading.emitted.decoded, length_map]
    _ < 2 ^ loaded.1 := hlt
    _ ≤ 2 ^ stackDeltaBucketLargest := Nat.pow_le_pow_right (by decide) hvalid.2

/-- A new manager whose kernel takes everything tells loadable data. -/
lemma loadable_of_safe (hne : iv.blocks ≠ []) (fileID : ℕ)
    (h : ¬ (convertDeltas (fun _ _ => none) iv).Panics UnwindTable.empty)
    (hkeys : ∀ st t loaded,
      (convertDeltas (fun _ _ => none) iv).exec UnwindTable.empty = (.ok st, t) →
      updateExeIDToStackDeltas none none fileID st.ebpfDeltas = .ok loaded →
      16 * numPages iv ≤ maxAlloc) : Loadable iv := by
  rw [convertDeltas_eq _ hiv hne, makeCounters] at h hkeys
  have halloc : 2 * numPages iv ≤ maxAlloc := by
    by_contra hbig
    rw [if_pos (not_le.mp hbig)] at h
    exact h ⟨_, _, rfl⟩
  rw [if_neg (not_lt.mpr halloc)] at h hkeys
  have hstart := loading_start UnwindTable.synced_empty (numPages iv)
  have honly : tableRecipes UnwindTable.empty ⊆ recipes [] := by
    simp [tableRecipes, UnwindTable.empty]
  refine ⟨halloc, ?_, ?_⟩
  · intro before row after heq hbad
    rw [heq] at h
    refine h (hstart.panics_of_stray ?_ honly hbad)
    rw [← heq]
    exact rows_encodable hiv
  · intro hfits
    rcases hstart.panics_or_ok (rows_encodable hiv) honly hfits.recipes with hp | ⟨st, t, hexec, -⟩
    · exact absurd hp h
    · have hloading : Loading t st (rows iv.blocks) (numPages iv) :=
        hstart.append (rows_encodable hiv) hexec
      have hlt := hfits.deltas
      rw [← hloading.emitted.decoded, length_map] at hlt
      obtain ⟨loaded, hload⟩ := exists_updateExeIDToStackDeltas hlt
      exact hkeys st t loaded hexec hload

end

/-! ## The manager -/

section Keeps

-- A property of the recipe table that a new recipe keeps is kept by whole runs of the manager.
variable {P : UnwindTable → Prop}
  (hP : ∀ mapUpdate info, (getUnwindInfoIndex mapUpdate info).Keeps P)

include hP in
lemma convertDeltas_keeps (mapUpdate : BitVec 16 → UnwindInfo → Option String)
    (iv : IntervalData) : (convertDeltas mapUpdate iv).Keeps P := by
  have hadd : ∀ fp st addr info, (addDelta mapUpdate fp st addr info).Keeps P := by
    intro fp st addr info
    refine .bind (hP mapUpdate info) fun index => ?_
    split
    · exact keeps_pure _
    · split
      · exact keeps_pure _
      · exact keeps_panic _
  have hblock : ∀ fp start ds u st, (loadBlock mapUpdate fp start u ds st).Keeps P := by
    intro fp start ds
    induction ds with
    | nil =>
      intro u st
      exact keeps_pure _
    | cons d ds ih =>
      intro u st
      rw [loadBlock]
      split
      · exact ih _ _
      · exact .bind (hadd _ _ _ _) fun st => ih _ st
  have hblocks : ∀ fp bs u st, (loadBlocks mapUpdate fp u bs st).Keeps P := by
    intro fp bs
    induction bs with
    | nil =>
      intro u st
      exact keeps_pure _
    | cons b bs ih =>
      intro u st
      refine .bind (hblock _ _ _ _ _) fun r => .bind ?_ fun st => ih _ st
      unfold closeBlock
      split
      · exact hadd _ _ _ _
      · exact keeps_pure _
  unfold convertDeltas makeCounters
  split
  · dsimp only
    split
    · exact .bind (keeps_panic _) fun _ => hblocks _ _ _ _
    · exact .bind (keeps_pure _) fun _ => hblocks _ _ _ _
  · exact keeps_panic _

variable (fileID : FileID)

include hP in
lemma loadDeltas_keeps (outcome : LoadOutcome) (iv : IntervalData) :
    (loadDeltas outcome fileID iv : Comp (ManagerState ι) MapRef).Keeps
      fun s => P s.unwindTable := by
  unfold loadDeltas
  split
  · exact keeps_pure _
  · refine .bind ((convertDeltas_keeps hP _ iv).zoom (fun _ h => h) (fun _ _ _ h => h)) ?_
    intro loader
    split
    · exact keeps_error _
    · refine .bind ?_ fun _ => ?_
      · unfold makeKeys
        split
        · exact keeps_panic _
        · exact keeps_pure _
      split
      · exact keeps_error _
      · apply keeps_get_bind
        intro s hs
        exact .bind (keeps_set hs) fun _ => keeps_pure _

lemma incRef_keeps (e : Entry ι) : (incRef fileID e).Keeps fun s => P s.unwindTable := by
  apply keeps_get_bind
  intro s hs
  refine .bind (keeps_set ?_) fun _ => keeps_pure _
  split <;> exact hs

include hP in
lemma addOrIncRef_keeps (call : AddCall ι) :
    (addOrIncRef fileID call).Keeps fun s => P s.unwindTable := by
  unfold addOrIncRef
  split
  · exact keeps_error _
  apply keeps_get_bind
  intro s _
  split
  · exact incRef_keeps fileID _
  split
  · exact keeps_error _
  · next intervals _ =>
    apply keeps_get_bind
    intro s _
    split
    · exact incRef_keeps fileID _
    · refine .bind ((loadDeltas_keeps hP fileID call.load intervals).wrapError _) fun ref => ?_
      apply keeps_get_bind
      intro s hs
      exact .bind (keeps_set hs) fun _ => keeps_pure _

lemma decRef_keeps (now : Time) :
    (decRef fileID now : Comp (ManagerState ι) Unit).Keeps fun s => P s.unwindTable := by
  apply keeps_get_bind
  intro s hs
  split
  · exact keeps_error _
  split
  · exact keeps_error _
  · apply keeps_set
    split <;> exact hs

lemma cleanupEntry_keeps (outcome : UnloadOutcome) (cutoff : Time) :
    (cleanupEntry outcome cutoff fileID : Comp (ManagerState ι) Unit).Keeps
      fun s => P s.unwindTable := by
  apply keeps_get_bind
  intro s _
  split
  · exact keeps_pure _
  split
  · exact keeps_pure _
  split
  · exact keeps_error _
  split
  · exact keeps_error _
  · refine .bind (Comp.Keeps.wrapError ?_ _) fun _ => ?_
    · unfold unloadDeltas
      split
      · exact keeps_pure _
      · apply keeps_get_bind
        intro s hs
        refine .bind (keeps_set hs) fun _ => ?_
        split
        · exact keeps_pure _
        · exact keeps_error _
    · apply keeps_get_bind
      intro s hs
      exact keeps_set hs

include hP in
lemma run_keeps (s : ManagerState ι) (h : P s.unwindTable) (events : List (Event ι)) :
    P (run s events).unwindTable := by
  have hcleanup : ∀ (outcome : UnloadOutcome) (cutoff : Time) (order : List FileID),
      (cleanupUnused outcome cutoff order : Comp (ManagerState ι) Unit).Keeps
        fun s => P s.unwindTable := by
    intro outcome cutoff order
    induction order with
    | nil => exact keeps_pure _
    | cons f order ih => exact .bind (cleanupEntry_keeps f outcome cutoff) fun _ => ih
  have hstep : ∀ (s : ManagerState ι) event, P s.unwindTable → P (step s event).unwindTable := by
    intro s event hs
    cases event with
    | addOrIncRef fileID call => exact addOrIncRef_keeps hP fileID call s hs
    | decRef fileID now => exact decRef_keeps fileID now s hs
    | cleanupUnused outcome cutoff order => exact hcleanup outcome cutoff order s hs
  exact foldlRecOn (motive := fun s => P s.unwindTable) events step h
    fun s hs event _ => hstep s event hs

end Keeps

def ManagerState.TableSynced (s : ManagerState ι) : Prop := s.unwindTable.Synced

lemma run_tableSynced (events : List (Event ι)) :
    (run (ManagerState.new : ManagerState ι) events).TableSynced :=
  run_keeps (P := UnwindTable.Synced)
    (fun mapUpdate info _ ht => (getUnwindInfoIndex_synced mapUpdate info ht).1) _
    UnwindTable.synced_empty events

/-- **Loaded deltas keep their meaning.** Whatever was loaded before and is done later, the recipe
that the deltas of a file give for an address stays the same. -/
theorem readDeltas_run {mapUpdate : BitVec 16 → UnwindInfo → Option String} {st : Loader}
    {s : ManagerState ι} (before after : List (Event ι))
    (hiv : ∀ b ∈ iv.blocks, ∀ d ∈ b.deltas, d.info.Canonical)
    (h : (convertDeltas mapUpdate iv).exec
      (run (ManagerState.new : ManagerState ι) before).unwindTable = (.ok st, s.unwindTable)) :
    readDeltas (run s after).unwindTable st.ebpfDeltas =
      readDeltas s.unwindTable st.ebpfDeltas := by
  obtain ⟨ht, hemitted⟩ := convertDeltas_emitted hiv (run_tableSynced before) h
  have hlater := run_keeps (P := fun t => t.Synced ∧ s.unwindTable.Extends t)
    (fun mapUpdate info t ht => (getUnwindInfoIndex_synced mapUpdate info ht.1).imp_right
      (List.Subset.trans ht.2)) s ⟨ht, .refl _⟩ after
  funext a
  rw [readDeltas, readDeltas, (hemitted.extends ht hlater.1 hlater.2).decoded, hemitted.decoded]

/-- The load of a function with another recipe. -/
def otherCall : AddCall Unit where
  deferred := false
  extracted := .ok ⟨1, [⟨0x2000, 0x2010, [⟨0, spPlus 24⟩]⟩]⟩
  synthesized := .ok ⟨0, []⟩
  load := ⟨fun _ _ => none, none, none, none⟩
  info := ()

theorem readDeltas_run_pushFunction :
    ∃ st t, (convertDeltas (fun _ _ => none) ⟨3, [pushFunction 0x1000]⟩).exec .empty = (.ok st, t) ∧
      spPlus 24 ∉ t.unwindInfoIndex.map (·.1) ∧
      spPlus 24 ∈ (run (ManagerState.new.setTable t)
        [.addOrIncRef 8 otherCall]).unwindTable.unwindInfoIndex.map (·.1) ∧
      readDeltas (run (ManagerState.new.setTable t) [.addOrIncRef 8 otherCall]).unwindTable
        st.ebpfDeltas = readDeltas t st.ebpfDeltas := by
  have hread : (convertedReading ⟨3, [pushFunction 0x1000]⟩ 0x1000).isSome = true := by
    decide +kernel
  obtain ⟨st, t, hexec, -⟩ := exec_of_convertedReading hread
  obtain rfl :
    ((convertDeltas (fun _ _ => none) ⟨3, [pushFunction 0x1000]⟩).exec .empty).2 = t := by
    rw [hexec]
  exact ⟨st, _, hexec, by decide +kernel, by decide +kernel, readDeltas_run [] _ (by decide) hexec⟩

lemma panics_makeKeys {σ : Type} (n : ℕ) (s : σ) : (makeKeys n).Panics s ↔ maxAlloc < 16 * n := by
  unfold makeKeys
  split
  · next hbig => exact iff_of_true ⟨_, s, rfl⟩ hbig
  · next hsmall => exact iff_of_false (noPanic_pure () s) hsmall

lemma panics_loadDeltas (outcome : LoadOutcome) (fileID : FileID) (iv : IntervalData)
    (s : ManagerState ι) : (loadDeltas outcome fileID iv).Panics s ↔ iv.numDeltas ≠ 0 ∧
      ((convertDeltas outcome.updateUnwindInfo iv).Panics s.unwindTable ∨ ∃ loader t loaded,
        (convertDeltas outcome.updateUnwindInfo iv).exec s.unwindTable = (.ok loader, t) ∧
        updateExeIDToStackDeltas outcome.setup outcome.batch fileID.toNat loader.ebpfDeltas =
          .ok loaded ∧ maxAlloc < 16 * numPages iv) := by
  unfold loadDeltas
  by_cases hn : iv.numDeltas = 0
  · rw [if_pos hn]
    exact iff_of_false (noPanic_pure _ s) (fun h => h.1 hn)
  · rw [if_neg hn, and_iff_right hn, panics_bind, panics_zoom]
    apply or_congr_right
    constructor
    · rintro ⟨loader, t, hexec, h⟩
      obtain ⟨t', hconv, -⟩ := exec_zoom_ok.mp hexec
      split at h
      · exact absurd h (noPanic_error _ t)
      · next loaded hload =>
        refine ⟨loader, t', loaded, hconv, hload, ?_⟩
        rcases (panics_bind _ _ _).mp h with h | ⟨_, u, -, h⟩
        · exact (panics_makeKeys _ _).mp h
        · -- after the keys there are errors only
          split at h
          · exact absurd h (noPanic_error _ u)
          · obtain ⟨text, v, h⟩ := h
            cases h
    · rintro ⟨loader, t, loaded, hconv, hload, hbig⟩
      refine ⟨loader, _, exec_zoom_ok.mpr ⟨t, hconv, rfl⟩, ?_⟩
      rw [hload]
      exact (panics_bind _ _ _).mpr (.inl ((panics_makeKeys _ _).mpr hbig))

/-- Loading never panics, in any run, exactly if the interval data is empty or loadable. -/
lemma loadDeltas_safe_iff (hiv : ∀ b ∈ iv.blocks, ∀ d ∈ b.deltas, d.info.Canonical)
    (hempty : iv.blocks = [] → iv.numDeltas = 0) :
    (∀ (outcome : LoadOutcome) (fileID : FileID) (events : List (Event ι)),
      ¬ (loadDeltas outcome fileID iv).Panics (run ManagerState.new events)) ↔
    iv.numDeltas = 0 ∨ Loadable iv := by
  constructor
  · intro h
    by_cases hn : iv.numDeltas = 0
    · exact .inl hn
    · have hfresh := h ⟨fun _ _ => none, none, none, none⟩ 0 []
      rw [panics_loadDeltas, not_and, not_or] at hfresh
      obtain ⟨hconv, hkeys⟩ := hfresh hn
      refine .inr (loadable_of_safe hiv (fun he => hn (hempty he)) 0 hconv ?_)
      intro st t loaded hexec hload
      by_contra hbig
      exact hkeys ⟨st, t, loaded, hexec, hload, not_le.mp hbig⟩
  · intro h outcome fileID events hp
    have ht := run_tableSynced events
    obtain ⟨hn, hp⟩ := (panics_loadDeltas outcome fileID iv _).mp hp
    have hne : iv.blocks ≠ [] := fun he => hn (hempty he)
    rcases h with h | h
    · exact hn h
    rcases hp with hp | ⟨loader, t, loaded, hexec, hload, hbig⟩
    · exact convertDeltas_safe hiv hne h ht hp
    · exact absurd (h.keys (fits_of_loaded hiv hne ht hexec hload)) (not_le.mpr hbig)

end EbpfProfiler.ExecInfo
