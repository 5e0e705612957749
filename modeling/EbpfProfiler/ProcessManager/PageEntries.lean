import EbpfProfiler.ProcessManager.ProcessInfoTheorems
import Mathlib.Logic.Function.Basic

/-!
# The entries of the page map

`Shows` says which native entries a map has; each operation has one rule for it.
-/

namespace EbpfProfiler.ProcessManager

open List AList Function
open ExecInfo Lib Lpm Reporter Wire

variable {kernel : KernelOutcome} {ms ns : List Mapping} {m : Mapping} {dummy : Option Word}
  {pid q : Pid} {v : PidPageMappingInfo} {p : Prefix} {bias : Word} {a : ℕ}

/-! ## Values -/

/-- The value that `UpdatePidPageMappingInfo` writes. -/
def nativeInfo (fileID bias : Word) : PidPageMappingInfo :=
  ⟨fileID, bias ||| progUnwindNative.setWidth 64 <<< 56⟩

lemma toNat_or_progUnwindNative (h : bias.toNat < 2 ^ 56) :
    (bias ||| progUnwindNative.setWidth 64 <<< 56).toNat = 2 ^ 56 + bias.toNat := by
  have hprogram : (progUnwindNative.setWidth 64 <<< 56 : Word).toNat = 2 ^ 56 := by decide
  have hdisjoint := Nat.two_pow_add_eq_or_of_lt h 1
  rw [mul_one] at hdisjoint
  rw [BitVec.toNat_or, hprogram, Nat.or_comm, hdisjoint]

lemma isNative_nativeInfo (fileID : Word) (h : bias.toNat < 2 ^ 56) :
    (nativeInfo fileID bias).isNative = true := by
  rw [PidPageMappingInfo.isNative, decide_eq_true_eq]
  apply BitVec.eq_of_toNat_eq
  rw [PidPageMappingInfo.unwindProgram, BitVec.toNat_setWidth, BitVec.toNat_ushiftRight]
  have hvalue := toNat_or_progUnwindNative h
  have hone : progUnwindNative.toNat = 1 := rfl
  dsimp only [nativeInfo]
  omega

lemma bias_nativeInfo (fileID : Word) (h : bias.toNat < 2 ^ 56) :
    (nativeInfo fileID bias).bias = bias := by
  apply BitVec.eq_of_toNat_eq
  have hmask : (0x00FFFFFFFFFFFFFF : Word).toNat = 2 ^ 56 - 1 := by decide
  rw [PidPageMappingInfo.bias, BitVec.toNat_and, hmask, Nat.and_two_pow_sub_one_eq_mod]
  have hvalue := toNat_or_progUnwindNative h
  dsimp only [nativeInfo]
  omega

def KernelOutcome.Ok (kernel : KernelOutcome) : Prop :=
  (∀ p, kernel.update p = none) ∧ ∀ p, kernel.delete p = none

lemma updatePidPageMappingInfo_ok (hk : kernel.Ok) (h : bias.toNat < 2 ^ 56) (pid : Pid)
    (p : Prefix) (fileID : Word) (t : PidPageMap) :
    updatePidPageMappingInfo kernel pid p fileID bias t =
      .ok (t.insert (pid, p) (nativeInfo fileID bias)) := by
  have hencode : encodeBiasAndUnwindProgram bias progUnwindNative =
      .ok (bias ||| progUnwindNative.setWidth 64 <<< 56) := by
    rw [encodeBiasAndUnwindProgram, if_neg]
    rw [BitVec.lt_def, BitVec.toNat_ushiftRight, Nat.shiftRight_eq_div_pow, Nat.div_eq_of_lt h]
    exact lt_irrefl 0
  rw [updatePidPageMappingInfo, hencode]
  rw [hk.1 p]
  rfl

/-! ## What a map shows -/

/-- The entries of each process, by prefix. -/
abbrev Entries := Pid → Prefix → PidPageMappingInfo → Prop

def NativeAt (t : PidPageMap) : Entries := fun pid p v =>
  t.lookup (pid, p) = some v ∧ v.isNative = true

def ForeignAt (t : PidPageMap) (pid : Pid) (p : Prefix) : Prop :=
  ∃ v, t.lookup (pid, p) = some v ∧ v.isNative = false

def nativeTerm (_ : Pid × Prefix) (v : PidPageMappingInfo) : ℕ := if v.isNative then 1 else 0

def nativeCount (t : PidPageMap) : ℕ := t.total nativeTerm

variable {k : Pid × Prefix} {w : PidPageMappingInfo} {op : InterpreterOp}

lemma nativeTerm_native (h : v.isNative = true) : nativeTerm k v = 1 := if_pos h

lemma nativeTerm_foreign (h : v.isNative = false) : nativeTerm k v = 0 := by
  rw [nativeTerm, h]
  rfl

/-- The native entries of a map, their number, and the foreign places. -/
structure Shows (t : PidPageMap) (native : Entries) (foreign : Pid → Prefix → Prop) (n : ℕ) :
    Prop where
  native : ∀ pid p v, NativeAt t pid p v ↔ native pid p v
  foreign : ∀ pid p, ForeignAt t pid p → foreign pid p
  count : nativeCount t = n

variable {t : PidPageMap} {N : Entries} {F : Pid → Prefix → Prop} {n : ℕ}

lemma Shows.congr (h : Shows t N F n) {N' : Entries} (hN : ∀ pid p v, N pid p v ↔ N' pid p v) :
    Shows t N' F n :=
  ⟨fun pid p v => (h.native pid p v).trans (hN pid p v), h.foreign, h.count⟩

lemma Shows.weaken (h : Shows t N F n) {G : Pid → Prefix → Prop}
    (hF : ∀ pid p, ForeignAt t pid p → F pid p → G pid p) : Shows t N G n :=
  ⟨h.native, fun pid p hp => hF pid p hp (h.foreign pid p hp), h.count⟩

open Table

lemma termAt_of_not_native (h : ∀ v, ¬ NativeAt t pid p v) :
    termAt nativeTerm t (pid, p) = 0 := by
  unfold termAt
  cases hv : t.lookup (pid, p) with
  | none => rfl
  | some v => exact if_neg fun hnative => h v ⟨hv, hnative⟩

/-! ## Writing and erasing one entry -/

lemma Shows.insert (h : Shows t N F n) (hv : v.isNative = true) (hfresh : ∀ w, ¬ N pid p w) :
    Shows (t.insert (pid, p) v) (fun q r w => N q r w ∨ (q = pid ∧ r = p ∧ w = v)) F (n + 1) := by
  have hfresh' : ∀ w, ¬ NativeAt t pid p w := fun w hw => hfresh w ((h.native pid p w).mp hw)
  refine ⟨fun q r w => ?_, fun q r hqr => ?_, ?_⟩
  · by_cases hkey : (q, r) = (pid, p)
    · obtain ⟨rfl, rfl⟩ := Prod.mk.inj hkey
      rw [NativeAt, lookup_insert]
      constructor
      · rintro ⟨hw, -⟩
        exact .inr ⟨rfl, rfl, (Option.some.inj hw).symm⟩
      · rintro (hw | ⟨-, -, rfl⟩)
        · exact (hfresh w hw).elim
        · exact ⟨rfl, hv⟩
    · rw [NativeAt, lookup_insert_ne hkey]
      refine (h.native q r w).trans ⟨.inl, ?_⟩
      rintro (hw | ⟨rfl, rfl, -⟩)
      · exact hw
      · exact (hkey rfl).elim
  · obtain ⟨w, hw, hforeign⟩ := hqr
    by_cases hkey : (q, r) = (pid, p)
    · rw [hkey, lookup_insert] at hw
      cases hw
      rw [hv] at hforeign
      cases hforeign
    · rw [lookup_insert_ne hkey] at hw
      exact h.foreign q r ⟨w, hw, hforeign⟩
  · have hinsert := total_insert_add nativeTerm t (pid, p) v
    rw [termAt_of_not_native hfresh', nativeTerm_native hv] at hinsert
    have := h.count
    rw [nativeCount] at this ⊢
    omega

lemma Shows.replace (h : Shows t N F n) (hv : v.isNative = true)
    (hw : N pid p w) : Shows (t.insert (pid, p) v)
      (fun q r u => if (q, r) = (pid, p) then u = v else N q r u) F n := by
  have hold := (h.native pid p w).mpr hw
  refine ⟨fun q r u => ?_, fun q r hqr => ?_, ?_⟩
  · by_cases hkey : (q, r) = (pid, p)
    · rw [NativeAt, hkey, lookup_insert, if_pos rfl]
      constructor
      · rintro ⟨hu, -⟩
        exact (Option.some.inj hu).symm
      · rintro rfl
        exact ⟨rfl, hv⟩
    · rw [NativeAt, lookup_insert_ne hkey, if_neg hkey]
      exact h.native q r u
  · obtain ⟨u, hu, hforeign⟩ := hqr
    by_cases hkey : (q, r) = (pid, p)
    · rw [hkey, lookup_insert] at hu
      cases hu
      rw [hv] at hforeign
      cases hforeign
    · rw [lookup_insert_ne hkey] at hu
      exact h.foreign q r ⟨u, hu, hforeign⟩
  · have hinsert := total_insert_add nativeTerm t (pid, p) v
    rw [termAt_some hold.1, nativeTerm_native hold.2, nativeTerm_native hv] at hinsert
    have := h.count
    rw [nativeCount] at this ⊢
    omega

lemma nativeAt_erase {r : Prefix} :
    NativeAt (t.erase (pid, p)) q r w ↔ NativeAt t q r w ∧ (q, r) ≠ (pid, p) := by
  by_cases hkey : (q, r) = (pid, p)
  · rw [NativeAt, hkey, lookup_erase]
    exact ⟨fun hw => (nomatch hw.1), fun hw => (hw.2 rfl).elim⟩
  · rw [NativeAt, lookup_erase_ne hkey]
    exact ⟨fun hw => ⟨hw, hkey⟩, And.left⟩

lemma foreignAt_erase {r : Prefix} (h : ForeignAt (t.erase (pid, p)) q r) : ForeignAt t q r := by
  obtain ⟨w, hw, hforeign⟩ := h
  by_cases hkey : (q, r) = (pid, p)
  · rw [hkey, lookup_erase] at hw
    cases hw
  · rw [lookup_erase_ne hkey] at hw
    exact ⟨w, hw, hforeign⟩

lemma Shows.deletePrefix (h : Shows t N F n) (hk : kernel.Ok) (hp : ¬ F pid p) (k : ℕ) :
    ∃ m, Shows (deletePrefix kernel pid (k, t) p).2
        (fun q r w => N q r w ∧ (q, r) ≠ (pid, p)) F m ∧
      (deletePrefix kernel pid (k, t) p).1 + m = k + n := by
  unfold ProcessManager.deletePrefix
  split
  · next hmem =>
    obtain ⟨v, hv⟩ := Option.isSome_iff_exists.mp (lookup_isSome.mpr hmem.2)
    have hnative : v.isNative = true := by
      by_contra hforeign
      exact hp (h.foreign pid p ⟨v, hv, Bool.eq_false_of_not_eq_true hforeign⟩)
    have herase := total_erase_add nativeTerm t (pid, p)
    rw [termAt_some hv, nativeTerm_native hnative] at herase
    have hcount := h.count
    rw [nativeCount] at hcount
    refine ⟨nativeCount (t.erase (pid, p)), ⟨fun q r w => ?_, ?_, rfl⟩, ?_⟩
    · rw [nativeAt_erase, h.native]
    · exact fun q r hqr => h.foreign q r (foreignAt_erase hqr)
    · rw [nativeCount]
      omega
  · next hmem =>
    -- nothing was there, so nothing changes
    have hnone : ∀ w, ¬ N pid p w := by
      intro w hw
      have hlookup := ((h.native pid p w).mpr hw).1
      exact hmem ⟨hk.2 p, lookup_isSome.mp (by rw [hlookup]; rfl)⟩
    refine ⟨n, h.congr fun q r w => ⟨fun hw => ⟨hw, fun hkey => ?_⟩, And.left⟩, rfl⟩
    obtain ⟨rfl, rfl⟩ := Prod.mk.inj hkey
    exact hnone w hw

/-! ## Operations of interpreter instances -/

/-- An instance does not touch the dummy entry, nor register the native program. -/
def InterpreterOp.Foreign : InterpreterOp → Prop
  | .update p value => p ≠ dummyPrefix ∧ value.isNative = false
  | .delete p => p ≠ dummyPrefix

lemma InterpreterOp.Foreign.ne_dummy (h : op.Foreign) : op.key ≠ dummyPrefix := by
  cases op with
  | update p value => exact h.1
  | delete p => exact h

lemma Shows.apply (h : Shows t N F n) (hop : op.Foreign) (hkey : ∀ w, ¬ N pid op.key w)
    (hF : F pid op.key) : Shows (op.apply pid t) N F n := by
  have hnone : ∀ w, ¬ NativeAt t pid op.key w := fun w hw => hkey w ((h.native _ _ w).mp hw)
  cases op with
  | update p value =>
    dsimp only [InterpreterOp.key] at hkey hnone hF
    rw [InterpreterOp.apply]
    split
    · exact h
    next hmem =>
    have hinsert := total_insert_add nativeTerm t (pid, p) value
    rw [termAt_of_not_native hnone, nativeTerm_foreign hop.2] at hinsert
    refine ⟨fun q r w => (Iff.trans ?_ (h.native q r w)), fun q r hqr => ?_, ?_⟩
    · by_cases hqr : (q, r) = (pid, p)
      · obtain ⟨rfl, rfl⟩ := Prod.mk.inj hqr
        rw [NativeAt, lookup_insert]
        refine ⟨fun hw => ?_, fun hw => (hnone w hw).elim⟩
        obtain ⟨hw, hnative⟩ := hw
        cases hw
        rw [hop.2] at hnative
        cases hnative
      · rw [NativeAt, lookup_insert_ne hqr]
        rfl
    · obtain ⟨w, hw, hforeign⟩ := hqr
      by_cases hqr : (q, r) = (pid, p)
      · obtain ⟨rfl, rfl⟩ := Prod.mk.inj hqr
        exact hF
      · rw [lookup_insert_ne hqr] at hw
        exact h.foreign q r ⟨w, hw, hforeign⟩
    · have := h.count
      rw [nativeCount] at this ⊢
      omega
  | delete p =>
    dsimp only [InterpreterOp.key] at hkey hnone hF
    rw [InterpreterOp.apply]
    have herase := total_erase_add nativeTerm t (pid, p)
    rw [termAt_of_not_native hnone] at herase
    refine ⟨fun q r w => ?_, fun q r hqr => h.foreign q r (foreignAt_erase hqr), ?_⟩
    · rw [nativeAt_erase, h.native]
      refine ⟨And.left, fun hw => ⟨hw, fun hqr => ?_⟩⟩
      obtain ⟨rfl, rfl⟩ := Prod.mk.inj hqr
      exact hkey w hw
    · have := h.count
      rw [nativeCount] at this ⊢
      omega

lemma Shows.applyOps (h : Shows t N F n) {ops : List InterpreterOp}
    (hops : ∀ op ∈ ops, op.Foreign ∧ (∀ w, ¬ N pid op.key w) ∧ F pid op.key) :
    Shows (applyOps pid ops t) N F n := by
  induction ops generalizing t with
  | nil => exact h
  | cons op ops ih =>
    obtain ⟨hop, hkey, hF⟩ := hops op mem_cons_self
    exact ih (h.apply hop hkey hF) fun o ho => hops o (mem_cons_of_mem op ho)

/-! ## The entries of mappings -/

namespace Mapping

/-- The prefixes of a mapping that is not empty. -/
def prefixes (m : Mapping) : List Prefix := Lpm.prefixes m.vaddr.toNat m.endAddr.toNat

def info (m : Mapping) : PidPageMappingInfo := nativeInfo m.fileID m.bias

def Contains (m : Mapping) (a : ℕ) : Prop := m.vaddr.toNat ≤ a ∧ a < m.endAddr.toNat

instance (m : Mapping) (a : ℕ) : Decidable (m.Contains a) :=
  inferInstanceAs (Decidable (m.vaddr.toNat ≤ a ∧ a < m.endAddr.toNat))

def Apart (m n : Mapping) : Prop := ∀ a, m.Contains a → ¬ n.Contains a

instance : Std.Symm Apart := ⟨fun _ _ h a ha hb => h a hb ha⟩

/-- A mapping with writable entries, none in the place of the dummy entry. -/
structure Mappable (m : Mapping) : Prop where
  spans : m.Spans
  nonempty : m.vaddr.toNat < m.endAddr.toNat
  bias : m.bias.toNat < 2 ^ 56
  notDummy : dummyPrefix ∉ m.prefixes

variable {m : Mapping}

section
variable (h : m.Mappable)
include h

lemma Mappable.prefixList_eq : m.prefixList = .ok m.prefixes :=
  calculatePrefixList_eq h.nonempty

lemma Mappable.isNative_info : m.info.isNative = true :=
  isNative_nativeInfo m.fileID h.bias

lemma Mappable.nodup_prefixes : m.prefixes.Nodup :=
  prefixes_nodup h.nonempty m.endAddr.isLt

lemma Mappable.contains_of_covers (hp : p ∈ m.prefixes) (ha : p.covers a = true) : m.Contains a :=
  mem_range_of_covers h.nonempty m.endAddr.isLt hp ha

lemma Mappable.contains_key (hp : p ∈ m.prefixes) : m.Contains p.key :=
  key_mem_range h.nonempty m.endAddr.isLt hp

end

end Mapping

def Occupied (ms : List Mapping) (a : ℕ) : Prop := ∃ m ∈ ms, m.Contains a

/-- Mappings that have entries of their own. -/
structure Laid (ms : List Mapping) : Prop where
  mappable : ∀ m ∈ ms, m.Mappable
  apart : ms.Pairwise Mapping.Apart

lemma Laid.perm (h : Laid ms) (hp : ms.Perm ns) : Laid ns :=
  ⟨fun m hm => h.mappable m (hp.symm.subset hm), (hp.pairwise_iff fun hmn => symm hmn).mp h.apart⟩

lemma laid_nil : Laid [] := ⟨fun _ hm => (nomatch hm), List.Pairwise.nil⟩

lemma Laid.sublist (h : Laid ms) (hs : ns.Sublist ms) : Laid ns :=
  ⟨fun m hm => h.mappable m (hs.subset hm), h.apart.sublist hs⟩

lemma Laid.eq_of_contains (h : Laid ms) {n : Mapping} (hm : m ∈ ms) (hn : n ∈ ms)
    (hma : m.Contains a) (hna : n.Contains a) : m = n := by
  by_contra hne
  exact h.apart.forall hm hn hne a hma hna

/-- The entries that belong to mappings. -/
def Owned (ms : List Mapping) (p : Prefix) (v : PidPageMappingInfo) : Prop :=
  ∃ m ∈ ms, p ∈ m.prefixes ∧ v = m.info

/-- The entries of the mappings and, for a known process, the dummy entry. -/
def processEntries (dummy : Option Word) (ms : List Mapping) (p : Prefix) (v : PidPageMappingInfo) :
    Prop :=
  (p = dummyPrefix ∧ ∃ d, dummy = some d ∧ v = nativeInfo d 0) ∨ Owned ms p v

lemma Owned.occupied (h : Laid ms) (hp : Owned ms p v) : Occupied ms p.key := by
  obtain ⟨m, hm, hpm, -⟩ := hp
  exact ⟨m, hm, (h.mappable m hm).contains_key hpm⟩

lemma owned_cons : Owned (m :: ms) p v ↔ (p ∈ m.prefixes ∧ v = m.info) ∨ Owned ms p v := by
  simp [Owned]

lemma owned_perm (h : ms.Perm ns) : Owned ms p v ↔ Owned ns p v := by
  simp only [Owned, h.mem_iff]

lemma processEntries_perm (h : ms.Perm ns) (dummy : Option Word) :
    processEntries dummy ms = processEntries dummy ns := by
  funext p v
  rw [processEntries, processEntries, owned_perm h]

lemma processEntries_cons : processEntries dummy (m :: ms) p v ↔
      processEntries dummy ms p v ∨ (p ∈ m.prefixes ∧ v = m.info) := by
  rw [processEntries, processEntries, owned_cons, or_assoc]
  exact or_congr_right or_comm

lemma Laid.not_processEntries (h : Laid (m :: ms)) (dummy : Option Word) (hp : p ∈ m.prefixes)
    (v : PidPageMappingInfo) : ¬ processEntries dummy ms p v := by
  have hm := h.mappable m mem_cons_self
  rintro (⟨rfl, -⟩ | ⟨n, hn, hpn, -⟩)
  · exact hm.notDummy hp
  · have hapart := (pairwise_cons.mp h.apart).1 n hn p.key (hm.contains_key hp)
    exact hapart ((h.mappable n (mem_cons_of_mem m hn)).contains_key hpn)

/-! ## Adding and removing a mapping -/

lemma update_apply_iff {E : Prefix → PidPageMappingInfo → Prop} :
    update N pid E q p v ↔ (q = pid ∧ E p v) ∨ (q ≠ pid ∧ N q p v) := by
  by_cases hq : q = pid
  · subst hq
    simp
  · simp [hq]

section
variable (hk : kernel.Ok)
include hk

lemma Shows.addPrefixes (pid : Pid) (fileID : Word) (hbias : bias.toNat < 2 ^ 56) {ps : List Prefix}
    (hps : ps.Nodup) (h : Shows t N F n) (hfresh : ∀ p ∈ ps, ∀ w, ¬ N pid p w) :
    (addPrefixes kernel pid fileID bias ps t).1 = ps.length ∧
      Shows (addPrefixes kernel pid fileID bias ps t).2
        (fun q r w => N q r w ∨ (q = pid ∧ r ∈ ps ∧ w = nativeInfo fileID bias)) F
        (n + ps.length) := by
  induction ps generalizing t N n with
  | nil => exact ⟨rfl, h.congr fun q r w => by simp⟩
  | cons p ps ih =>
    obtain ⟨hp, hps⟩ := nodup_cons.mp hps
    have hinsert := h.insert (isNative_nativeInfo fileID hbias)
      (hfresh p mem_cons_self)
    obtain ⟨hlen, hrest⟩ := ih hps hinsert fun r hr w => by
      rintro (hw | ⟨-, rfl, -⟩)
      · exact hfresh r (mem_cons_of_mem p hr) w hw
      · exact hp hr
    rw [ProcessManager.addPrefixes, updatePidPageMappingInfo_ok hk hbias]
    dsimp only
    rw [hlen, length_cons]
    refine ⟨rfl, ?_⟩
    rw [show n + (ps.length + 1) = n + 1 + ps.length by omega]
    refine hrest.congr fun q r w => ?_
    rw [mem_cons]
    tauto

lemma Shows.deletePidPageMappingInfo (pid : Pid) (ps : List Prefix) (h : Shows t N F n)
    (hps : ∀ p ∈ ps, ¬ F pid p) (k : ℕ) :
    ∃ m, Shows (ps.foldl (ProcessManager.deletePrefix kernel pid) (k, t)).2
        (fun q r w => N q r w ∧ ¬ (q = pid ∧ r ∈ ps)) F m ∧
      (ps.foldl (ProcessManager.deletePrefix kernel pid) (k, t)).1 + m = k + n := by
  induction ps generalizing t N n k with
  | nil => exact ⟨n, h.congr fun q r w => by simp, rfl⟩
  | cons p ps ih =>
    obtain ⟨m, hshows, hcount⟩ := h.deletePrefix hk (hps p mem_cons_self) k
    obtain ⟨m', hrest, hcount'⟩ := ih hshows (fun r hr => hps r (mem_cons_of_mem p hr))
      (ProcessManager.deletePrefix kernel pid (k, t) p).1
    refine ⟨m', hrest.congr fun q r w => ?_, hcount'.trans hcount⟩
    rw [mem_cons, Ne, Prod.mk.injEq]
    tauto

lemma Shows.processNewMapping (hlaid : Laid (m :: ms))
    (h : Shows t (update N pid (processEntries dummy ms)) F n) (k : ℕ) :
    ∃ n', Shows (processNewMapping kernel pid (k, t) m).2
        (update N pid (processEntries dummy (m :: ms))) F n' ∧
      (processNewMapping kernel pid (k, t) m).1 + n = k + n' := by
  have hm := hlaid.mappable m mem_cons_self
  obtain ⟨hlen, hadd⟩ := h.addPrefixes hk pid m.fileID hm.bias hm.nodup_prefixes
    fun p hp w hw => by
      rw [update_self] at hw
      exact hlaid.not_processEntries dummy hp w hw
  rw [ProcessManager.processNewMapping, hm.prefixList_eq]
  dsimp only
  refine ⟨n + m.prefixes.length, hadd.congr fun q r w => ?_, by omega⟩
  rw [update_apply_iff, update_apply_iff, processEntries_cons]
  tauto

lemma Shows.processNewMappings {new : List Mapping} (hlaid : Laid (new ++ ms))
    (h : Shows t (update N pid (processEntries dummy ms)) F n) (k : ℕ) :
    ∃ n', Shows (new.foldl (ProcessManager.processNewMapping kernel pid) (k, t)).2
        (update N pid (processEntries dummy (new ++ ms))) F n' ∧
      (new.foldl (ProcessManager.processNewMapping kernel pid) (k, t)).1 + n = k + n' := by
  induction new generalizing t ms n k with
  | nil => exact ⟨n, h, rfl⟩
  | cons m new ih =>
    have hmiddle : (m :: new ++ ms).Perm (new ++ m :: ms) := perm_middle.symm
    have hlaid' := hlaid.perm hmiddle
    obtain ⟨n₁, h₁, hcount₁⟩ :=
      h.processNewMapping hk (hlaid'.sublist (sublist_append_right new _)) k
    obtain ⟨n₂, h₂, hcount₂⟩ :=
      ih hlaid' h₁ (ProcessManager.processNewMapping kernel pid (k, t) m).1
    rw [foldl_cons, processEntries_perm hmiddle]
    refine ⟨n₂, h₂, ?_⟩
    have hpair : ((ProcessManager.processNewMapping kernel pid (k, t) m).1,
        (ProcessManager.processNewMapping kernel pid (k, t) m).2) =
      ProcessManager.processNewMapping kernel pid (k, t) m := rfl
    rw [hpair] at hcount₂
    omega

lemma Shows.processRemovedMapping {ι : Type} (hlaid : Laid (m :: ms)) {r : Removal ι}
    (h : Shows r.map (update N pid (processEntries dummy (m :: ms))) F n)
    (hF : ∀ p ∈ m.prefixes, ¬ F pid p) (now : Time) :
    ∃ n', Shows (processRemovedMapping kernel now pid r m).map
        (update N pid (processEntries dummy ms)) F n' ∧
      (processRemovedMapping kernel now pid r m).deleted + n' = r.deleted + n := by
  have hm := hlaid.mappable m mem_cons_self
  obtain ⟨n', hdelete, hcount⟩ := h.deletePidPageMappingInfo hk pid m.prefixes hF 0
  rw [ProcessManager.processRemovedMapping, hm.prefixList_eq]
  dsimp only [ProcessManager.deletePidPageMappingInfo]
  refine ⟨n', hdelete.congr fun q p w => ?_, by omega⟩
  have hnone : p ∈ m.prefixes → ¬ processEntries dummy ms p w := fun hp =>
    hlaid.not_processEntries dummy hp w
  rw [update_apply_iff, update_apply_iff, processEntries_cons]
  tauto

lemma Shows.processRemovedMappings {ι : Type} {gone : List Mapping} (hlaid : Laid (gone ++ ms))
    {r : Removal ι} (h : Shows r.map (update N pid (processEntries dummy (gone ++ ms))) F n)
    (hF : ∀ m ∈ gone, ∀ p ∈ m.prefixes, ¬ F pid p) (now : Time) :
    ∃ n', Shows (processRemovedMappings kernel now pid gone r).map
        (update N pid (processEntries dummy ms)) F n' ∧
      (processRemovedMappings kernel now pid gone r).deleted + n' = r.deleted + n := by
  induction gone generalizing r n with
  | nil => exact ⟨n, h, rfl⟩
  | cons m gone ih =>
    obtain ⟨n₁, h₁, hcount₁⟩ := Shows.processRemovedMapping hk hlaid h (hF m mem_cons_self) now
    obtain ⟨n₂, h₂, hcount₂⟩ := ih (hlaid.sublist (sublist_cons_self m _)) h₁
      fun m' hm' => hF m' (mem_cons_of_mem m hm')
    exact ⟨n₂, h₂, hcount₂.trans hcount₁⟩

end

/-! ## Lookups -/

lemma lookupPage_some (h : t.lookupPage pid a = some v) :
    ∃ p, t.lookup (pid, p) = some v ∧ p.covers a = true := by
  rw [PidPageMap.lookupPage, Option.map_eq_some_iff] at h
  obtain ⟨e, he, rfl⟩ := h
  have hmem := mem_filter.mp (argmax_mem he)
  rw [Bool.and_eq_true, decide_eq_true_eq] at hmem
  obtain ⟨hentry, hpid, hcovers⟩ := hmem
  refine ⟨e.1.2, ?_, hcovers⟩
  rw [← hpid]
  exact mem_entries_iff.mp hentry

lemma exists_lookupPage (h : t.lookup (pid, p) = some v) (ha : p.covers a = true) :
    ∃ w, t.lookupPage pid a = some w := by
  have hmem : (⟨(pid, p), v⟩ : Sigma fun _ : Pid × Prefix => PidPageMappingInfo) ∈
      t.entries.filter fun e => e.1.1 = pid && e.1.2.covers a := by
    refine mem_filter.mpr ⟨mem_entries_iff.mpr h, ?_⟩
    rw [ha, Bool.and_true, decide_eq_true_eq]
  rw [PidPageMap.lookupPage]
  cases hmax : (t.entries.filter fun e => e.1.1 = pid && e.1.2.covers a).argmax
    fun e => e.1.2.length with
  | none =>
    rw [argmax_eq_none] at hmax
    rw [hmax] at hmem
    cases hmem
  | some e => exact ⟨e.2, rfl⟩

lemma not_covers_dummyPrefix (ha : 0x1000 ≤ a) : dummyPrefix.covers a = false := by
  rw [Prefix.covers, decide_eq_false_iff_not]
  show a / 2 ^ 0 ≠ 0 / 2 ^ 0
  omega

section Lookup

variable {pid : Pid} {d : Option Word} {ms : List Mapping} (hlaid : Laid ms)
  (hnative : ∀ p v, NativeAt t pid p v ↔ processEntries d ms p v)
  {a : ℕ} (ha : 0x1000 ≤ a)
include hlaid hnative ha

lemma NativeAt.contains (hv : NativeAt t pid p v) (hcovers : p.covers a = true) :
    ∃ m ∈ ms, m.Contains a ∧ v = m.info := by
  rcases (hnative p v).mp hv with ⟨rfl, -⟩ | ⟨m, hm, hp, rfl⟩
  · rw [not_covers_dummyPrefix ha] at hcovers
    cases hcovers
  · exact ⟨m, hm, (hlaid.mappable m hm).contains_of_covers hp hcovers, rfl⟩

lemma lookupPage_of_contains (hforeign : ∀ p, ForeignAt t pid p → p.covers a = false) (hm : m ∈ ms)
    (hma : m.Contains a) : t.lookupPage pid a = some m.info := by
  obtain ⟨p, hp, hcovers⟩ :=
    exists_covers (hlaid.mappable m hm).nonempty m.endAddr.isLt hma.1 hma.2
  have hentry := (hnative p m.info).mpr (.inr ⟨m, hm, hp, rfl⟩)
  obtain ⟨w, hw⟩ := exists_lookupPage hentry.1 hcovers
  obtain ⟨r, hr, hrcovers⟩ := lookupPage_some hw
  have hwnative : w.isNative = true := by
    by_contra hfalse
    have := hforeign r ⟨w, hr, Bool.eq_false_of_not_eq_true hfalse⟩
    rw [hrcovers] at this
    cases this
  obtain ⟨k, hk, hka, rfl⟩ := NativeAt.contains hlaid hnative ha ⟨hr, hwnative⟩ hrcovers
  rw [hw, hlaid.eq_of_contains hk hm hka hma]

/-- Where there is no mapping, a lookup finds no native entry. -/
lemma lookupPage_of_not_occupied (hma : ¬ Occupied ms a) (hv : t.lookupPage pid a = some v) :
    v.isNative = false := by
  obtain ⟨p, hp, hcovers⟩ := lookupPage_some hv
  by_contra hfalse
  obtain ⟨m, hm, hmc, -⟩ := NativeAt.contains hlaid hnative ha
    ⟨hp, Bool.eq_true_of_not_eq_false hfalse⟩ hcovers
  exact hma ⟨m, hm, hmc⟩

end Lookup

end EbpfProfiler.ProcessManager
