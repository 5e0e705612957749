import Mathlib.Data.List.Nodup
import Mathlib.Data.Nat.Bitwise
import EbpfProfiler.StackDeltas.DeltaMeaning

/-!
# The recipe table is a faithful code

Comparing the indices of a `Synced` table is comparing recipes.
-/

namespace EbpfProfiler.StackDeltas

open BitVec Nat Function
open List
open Lib (Comp)

variable {index : BitVec 16} {info : UnwindInfo} {t t' : UnwindTable}

/-! ## Bits of an index -/

private lemma testBit_fifteen {n : ℕ} (h : ¬ n < 2 ^ 15) (hlt : n < 2 ^ 16) :
    n.testBit 15 = true := by
  have hdiv : n / 2 ^ 15 = 1 := by omega
  rw [testBit_eq_decide_div_mod_eq, hdiv]
  rfl

/-- The command flag is the top bit of an index. -/
lemma and_deltaCommandFlag_eq_zero (x : BitVec 16) :
    x &&& deltaCommandFlag = 0 ↔ x.toNat < 2 ^ 15 := by
  have hand : (x &&& deltaCommandFlag).toNat = (x.toNat.testBit 15).toNat * 2 ^ 15 := by
    rw [← and_two_pow]
    rfl
  constructor
  · intro h
    by_contra hge
    rw [h, testBit_fifteen hge x.isLt] at hand
    simp at hand
  · intro h
    apply eq_of_toNat_eq
    rw [hand, testBit_lt_two_pow h]
    rfl

lemma getLsbD_deltaCommandFlag (j : ℕ) : deltaCommandFlag.getLsbD j = decide (j = 15) := by
  by_cases hj : j < 16
  · have hsmall : ∀ j < 16, deltaCommandFlag.getLsbD j = decide (j = 15) := by decide
    exact hsmall j hj
  · have hne : j ≠ 15 := by omega
    rw [getLsbD_of_ge _ _ (by omega)]
    simp [hne]

/-- A command number survives the trip through the index. -/
lemma setWidth_or_deltaCommandFlag {p : BitVec 32} (hp : p.toNat < 2 ^ 15) :
    ((p.setWidth 16 ||| deltaCommandFlag) &&& ~~~deltaCommandFlag).setWidth 32 = p := by
  apply eq_of_getLsbD_eq
  intro i hi
  have hhigh : 15 ≤ i → p.getLsbD i = false := fun h =>
    testBit_lt_two_pow (lt_of_lt_of_le hp (Nat.pow_le_pow_right (by decide) h))
  simp only [getLsbD_setWidth, getLsbD_and, getLsbD_or, getLsbD_not, getLsbD_deltaCommandFlag]
  by_cases h : i < 15
  · have h15 : i ≠ 15 := by omega
    simp [hi, h15, show i < 16 by omega]
  · rw [hhigh (by omega)]
    by_cases h15 : i = 15 <;> simp [h15]

lemma or_deltaCommandFlag_of_set {x : BitVec 16} (hx : ¬ x.toNat < 2 ^ 15) :
    ((x &&& ~~~deltaCommandFlag).setWidth 32).setWidth 16 ||| deltaCommandFlag = x := by
  have hbit : x.getLsbD 15 = true := testBit_fifteen hx x.isLt
  apply eq_of_getLsbD_eq
  intro i hi
  simp only [getLsbD_setWidth, getLsbD_and, getLsbD_or, getLsbD_not, getLsbD_deltaCommandFlag]
  by_cases h15 : i = 15
  · subst h15
    simp [hbit]
  · simp [h15, hi, show i < 32 by omega]

/-! ## The invariant -/

namespace UnwindTable

/-- Each recipe has one index below the length of the map, where the array holds it. -/
structure Synced (t : UnwindTable) : Prop where
  length_le : t.unwindInfoIndex.length ≤ unwindInfoMaxEntries
  nodup : (t.unwindInfoIndex.map (·.1)).Nodup
  isCommand : ∀ e ∈ t.unwindInfoIndex, e.1.isCommand = false
  index_lt : ∀ e ∈ t.unwindInfoIndex, e.2.toNat < t.unwindInfoIndex.length
  array : ∀ e ∈ t.unwindInfoIndex, t.unwindInfoArray e.2 = e.1

lemma synced_empty : empty.Synced where
  length_le := by decide
  nodup := nodup_nil
  isCommand := by simp [empty]
  index_lt := by simp [empty]
  array := by simp [empty]

def Extends (t t' : UnwindTable) : Prop := t.unwindInfoIndex ⊆ t'.unwindInfoIndex

lemma Extends.refl (t : UnwindTable) : Extends t t := List.Subset.refl _

/-- Indices that were handed out: commands, and entries of the map. -/
def Issued (t : UnwindTable) (index : BitVec 16) : Prop :=
  ¬ index.toNat < 2 ^ 15 ∨ ∃ info, (info, index) ∈ t.unwindInfoIndex

lemma Issued.extends (h : t.Issued index) (he : Extends t t') : t'.Issued index := by
  rcases h with h | ⟨info, h⟩
  · exact Or.inl h
  · exact Or.inr ⟨info, he h⟩

lemma decode_command (t : UnwindTable) (h : ¬ index.toNat < 2 ^ 15) :
    t.decode index = .command ((index &&& ~~~deltaCommandFlag).setWidth 32) := by
  rw [decode, if_pos (mt (and_deltaCommandFlag_eq_zero index).mp h)]

lemma decode_entry (ht : t.Synced) (h : (info, index) ∈ t.unwindInfoIndex) :
    t.decode index = info := by
  have hlt : index.toNat < 2 ^ 15 := by
    have h1 := ht.index_lt _ h
    have h2 := ht.length_le
    simp only [unwindInfoMaxEntries] at h1 h2
    omega
  have hzero : index &&& deltaCommandFlag = 0 := (and_deltaCommandFlag_eq_zero index).mpr hlt
  rw [decode, if_neg (by simpa using hzero)]
  exact ht.array _ h

lemma decode_of_extends (ht : t.Synced) (ht' : t'.Synced) (he : Extends t t') (h : t.Issued index) :
    t'.decode index = t.decode index := by
  rcases h with h | ⟨info, h⟩
  · rw [decode_command t' h, decode_command t h]
  · rw [decode_entry ht' (he h), decode_entry ht h]

lemma issued_inj (ht : t.Synced) {i j : BitVec 16} (hi : t.Issued i) (hj : t.Issued j)
    (h : t.decode i = t.decode j) : i = j := by
  rcases hi with hi | ⟨info, hi⟩ <;> rcases hj with hj | ⟨info', hj⟩
  · rw [decode_command t hi, decode_command t hj] at h
    have hp := congrArg UnwindInfo.param h
    simp only [UnwindInfo.param_command] at hp
    rw [← or_deltaCommandFlag_of_set hi, hp, or_deltaCommandFlag_of_set hj]
  · rw [decode_command t hi, decode_entry ht hj] at h
    have hc := ht.isCommand _ hj
    simp [← h] at hc
  · rw [decode_command t hj, decode_entry ht hi] at h
    have hc := ht.isCommand _ hi
    simp [h] at hc
  · rw [decode_entry ht hi, decode_entry ht hj] at h
    subst h
    exact congrArg Prod.snd (inj_on_of_nodup_map ht.nodup hi hj rfl)

/-! ## Issuing an index -/

def nextIndex (t : UnwindTable) : BitVec 16 := BitVec.ofNat 16 t.unwindInfoIndex.length

def insert (t : UnwindTable) (info : UnwindInfo) : UnwindTable where
  unwindInfoIndex := t.unwindInfoIndex ++ [(info, t.nextIndex)]
  unwindInfoArray := update t.unwindInfoArray t.nextIndex info

lemma extends_insert (t : UnwindTable) (info : UnwindInfo) : Extends t (t.insert info) :=
  subset_append_left _ _

lemma Synced.insert (ht : t.Synced) (hc : info.isCommand = false)
    (hnew : t.unwindInfoIndex.lookup info = none)
    (hroom : t.nextIndex.toNat < unwindInfoMaxEntries) : (t.insert info).Synced := by
  have hidx : t.nextIndex.toNat = t.unwindInfoIndex.length := by
    have hsmall : t.unwindInfoIndex.length < 2 ^ 16 := lt_of_le_of_lt ht.length_le (by decide)
    rw [nextIndex, toNat_ofNat, mod_eq_of_lt hsmall]
  have hlen : (t.insert info).unwindInfoIndex.length = t.unwindInfoIndex.length + 1 := by
    simp [UnwindTable.insert]
  have hmem : ∀ e ∈ (t.insert info).unwindInfoIndex,
      e ∈ t.unwindInfoIndex ∨ e = (info, t.nextIndex) := by
    simp [UnwindTable.insert]
  refine ⟨by omega, ?_, ?_, ?_, ?_⟩
  · rw [UnwindTable.insert, map_append, nodup_append]
    refine ⟨ht.nodup, by simp, ?_⟩
    intro x hx y hy hxy
    obtain ⟨e, he, rfl⟩ := mem_map.mp hx
    simp only [map_cons, map_nil, mem_singleton] at hy
    have hne := lookup_eq_none_iff.mp hnew e he
    simp [hxy, hy] at hne
  · intro e he
    rcases hmem e he with he | rfl
    · exact ht.isCommand e he
    · exact hc
  · intro e he
    rw [hlen]
    rcases hmem e he with he | rfl
    · exact lt_succ_of_lt (ht.index_lt e he)
    · rw [hidx]
      exact lt_succ_self _
  · intro e he
    rcases hmem e he with he | rfl
    · have hfresh : e.2 ≠ t.nextIndex := by
        intro h
        have hlt := ht.index_lt e he
        rw [h] at hlt
        omega
      exact (update_of_ne hfresh _ _).trans (ht.array e he)
    · exact update_self ..

end UnwindTable

variable (mapUpdate : BitVec 16 → UnwindInfo → Option String)

lemma updateUnwindInfo_cases (index : BitVec 16) (value : UnwindInfo) (t : UnwindTable) :
    (index.toNat < unwindInfoMaxEntries ∧ (updateUnwindInfo mapUpdate index value).exec t =
      (.ok (), { t with unwindInfoArray := update t.unwindInfoArray index value })) ∨
    (∃ err, (updateUnwindInfo mapUpdate index value).exec t = (.error (.error err), t)) := by
  unfold updateUnwindInfo
  by_cases hfull : unwindInfoMaxEntries ≤ index.toNat
  · rw [if_pos hfull]
    exact Or.inr ⟨_, rfl⟩
  · rw [if_neg hfull]
    cases mapUpdate index value with
    | some err => exact Or.inr ⟨err, rfl⟩
    | none => exact Or.inl ⟨by omega, rfl⟩

/-- An encoded command, a known index, a new entry, or an error; only the third adds. -/
lemma getUnwindInfoIndex_cases (info : UnwindInfo) (t : UnwindTable) :
    (info.isCommand = true ∧ (getUnwindInfoIndex mapUpdate info).exec t =
        (.ok (info.param.setWidth 16 ||| deltaCommandFlag), t)) ∨
    (∃ index, t.unwindInfoIndex.lookup info = some index ∧
      (getUnwindInfoIndex mapUpdate info).exec t = (.ok index, t)) ∨
    (info.isCommand = false ∧ t.unwindInfoIndex.lookup info = none ∧
      t.nextIndex.toNat < unwindInfoMaxEntries ∧
      (getUnwindInfoIndex mapUpdate info).exec t = (.ok t.nextIndex, t.insert info)) ∨
    (∃ text, (getUnwindInfoIndex mapUpdate info).exec t = (.error (.error text), t)) := by
  unfold getUnwindInfoIndex
  by_cases hc : info.isCommand = true
  · rw [if_pos hc]
    exact Or.inl ⟨hc, rfl⟩
  rw [if_neg hc, Comp.exec_get_bind]
  right
  cases hl : t.unwindInfoIndex.lookup info with
  | some index => exact Or.inl ⟨index, rfl, rfl⟩
  | none =>
    right
    rcases updateUnwindInfo_cases mapUpdate t.nextIndex info t with ⟨hroom, hu⟩ | ⟨err, hu⟩
    · refine Or.inl ⟨by simpa using hc, rfl, hroom, ?_⟩
      exact Comp.exec_bind_of_ok (Comp.exec_wrapError_ok hu _) _
    · exact Or.inr ⟨_, Comp.exec_bind_of_error (Comp.exec_wrapError_error hu _) _⟩

lemma getUnwindInfoIndex_synced
    (info : UnwindInfo) (ht : t.Synced) : ((getUnwindInfoIndex mapUpdate info).exec t).2.Synced ∧
      t.Extends ((getUnwindInfoIndex mapUpdate info).exec t).2 := by
  rcases getUnwindInfoIndex_cases mapUpdate info t with
    ⟨-, h⟩ | ⟨index, -, h⟩ | ⟨hc, hnew, hroom, h⟩ | ⟨text, h⟩
  · rw [h]
    exact ⟨ht, .refl t⟩
  · rw [h]
    exact ⟨ht, .refl t⟩
  · rw [h]
    exact ⟨ht.insert hc hnew hroom, t.extends_insert info⟩
  · rw [h]
    exact ⟨ht, .refl t⟩

lemma getUnwindInfoIndex_ok {mapUpdate : BitVec 16 → UnwindInfo → Option String} (ht : t.Synced)
    (hinfo : info.Encodable) (h : (getUnwindInfoIndex mapUpdate info).exec t = (.ok index, t')) :
    t'.Issued index ∧ t'.decode index = info := by
  have hsync := (getUnwindInfoIndex_synced mapUpdate info ht).1
  rw [h] at hsync
  rcases getUnwindInfoIndex_cases mapUpdate info t with
    ⟨hc, h'⟩ | ⟨i, hl, h'⟩ | ⟨-, -, -, h'⟩ | ⟨text, h'⟩
  · rw [h] at h'
    cases h'
    obtain ⟨hinfo, hlt⟩ := hinfo hc
    have hset : ¬ (info.param.setWidth 16 ||| deltaCommandFlag).toNat < 2 ^ 15 := by
      rw [toNat_or]
      have hle :
          deltaCommandFlag.toNat ≤ (info.param.setWidth 16).toNat ||| deltaCommandFlag.toNat :=
        right_le_or
      have hflag : deltaCommandFlag.toNat = 2 ^ 15 := rfl
      omega
    refine ⟨Or.inl hset, ?_⟩
    rw [UnwindTable.decode_command t hset, setWidth_or_deltaCommandFlag hlt, ← hinfo]
  · rw [h] at h'
    cases h'
    have hmem : (info, index) ∈ t.unwindInfoIndex := by
      obtain ⟨l, m, heq, -⟩ := lookup_eq_some_iff.mp hl
      rw [heq]
      simp
    exact ⟨Or.inr ⟨info, hmem⟩, UnwindTable.decode_entry ht hmem⟩
  · rw [h] at h'
    cases h'
    have hmem : (info, t.nextIndex) ∈ (t.insert info).unwindInfoIndex := by
      simp [UnwindTable.insert]
    exact ⟨Or.inr ⟨info, hmem⟩, UnwindTable.decode_entry hsync hmem⟩
  · rw [h] at h'
    cases h'

end EbpfProfiler.StackDeltas
