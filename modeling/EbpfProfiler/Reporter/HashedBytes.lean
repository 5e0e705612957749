import EbpfProfiler.Reporter.Trace
import Mathlib.Data.List.Infix
import Mathlib.Order.SymmDiff

/-!
# What the hashed bytes tell apart

For which traces `Trace.Hash` writes the same bytes (`bytes_eq_iff`).
-/

namespace EbpfProfiler.Reporter

open List

/-- What `Hash` reads of a frame: file ID, zero without one, and address. -/
def Frame.site (frame : Frame) : BitVec 128 × BitVec 64 :=
  (frame.mapping.elim 0 (·.file.fileID), frame.addressOrLineno)

/-- What `Hash` reads of the frames of a trace. -/
def Trace.sites (t : Trace) : List (BitVec 128 × BitVec 64) := t.frames.map Frame.site

variable {labelHash : String × String → BitVec 64} {l l' : Labels} {f f' : BitVec 128}
  {v w : BitVec 64} {n : ℕ} {x : List (BitVec 8)}

/-! ## Numbers -/

lemma length_fileIDBytes (f : BitVec 128) : (fileIDBytes f).length = 16 := by simp [fileIDBytes]

lemma fileIDBytes_injective : Function.Injective fileIDBytes := by
  intro f f' h
  ext i hi
  have hbyte := List.map_inj_left.mp h (15 - i / 8) (by simp; omega)
  have hbit := congrArg (fun b => b.getLsbD (i % 8)) hbyte
  have hshift : 8 * (15 - (15 - i / 8)) + i % 8 = i := by omega
  simpa [hshift, show i % 8 < 8 by omega, BitVec.getLsbD_eq_getElem hi] using hbit

lemma littleEndian_injective : Function.Injective littleEndian := by
  intro v w h
  ext i hi
  have hbyte := List.map_inj_left.mp h (i / 8) (by simp; omega)
  have hbit := congrArg (fun b => b.getLsbD (i % 8)) hbyte
  simpa [Nat.div_add_mod, show i % 8 < 8 by omega, BitVec.getLsbD_eq_getElem hi] using hbit

/-- A number that is not zero has bytes. -/
lemma putBytes_ne_nil (hv : v.toNat < 2 ^ (8 * n)) (hne : v ≠ 0) : putBytes n v ≠ [] := by
  cases n with
  | zero => exact absurd (BitVec.eq_of_toNat_eq (by simpa using hv)) hne
  | succ n => simp [putBytes]

lemma toNat_ushiftRight_lt (hv : v.toNat < 2 ^ (8 * (n + 1))) : (v >>> 8).toNat < 2 ^ (8 * n) := by
  rw [Nat.mul_succ, Nat.pow_add] at hv
  rw [BitVec.toNat_ushiftRight, Nat.shiftRight_eq_div_pow]
  omega

lemma length_putBytes_le (n : ℕ) (v : BitVec 64) : (putBytes n v).length ≤ n := by
  induction n generalizing v with
  | zero => exact le_rfl
  | succ n ih =>
    rw [putBytes, length_cons]
    split
    · simp
    · exact Nat.succ_le_succ (ih _)

/-- The bytes of a number that fits into them give it back. -/
lemma putBytes_inj (hv : v.toNat < 2 ^ (8 * n)) (hw : w.toNat < 2 ^ (8 * n))
    (h : putBytes n v = putBytes n w) : v = w := by
  induction n generalizing v w with
  | zero => exact BitVec.eq_of_toNat_eq (by omega)
  | succ n ih =>
    rw [putBytes, putBytes, List.cons.injEq] at h
    obtain ⟨hlow, hrest⟩ := h
    have hhigh : v >>> 8 = w >>> 8 := by
      split at hrest <;> split at hrest
      · next hv' hw' => rw [hv', hw']
      · next hw' => exact absurd hrest.symm (putBytes_ne_nil (toNat_ushiftRight_lt hw) hw')
      · next hv' _ => exact absurd hrest (putBytes_ne_nil (toNat_ushiftRight_lt hv) hv')
      · exact ih (toNat_ushiftRight_lt hv) (toNat_ushiftRight_lt hw) hrest
    bv_omega

lemma putUint64_injective : Function.Injective putUint64 :=
  fun v w h => putBytes_inj v.isLt w.isLt h

/-- The last byte is zero for zero only. -/
lemma getLast?_putBytes (hv : v.toNat < 2 ^ (8 * n)) (hne : v ≠ 0) :
    (putBytes n v).getLast? ≠ some 0 := by
  induction n generalizing v with
  | zero => simp [putBytes]
  | succ n ih =>
    rw [putBytes]
    by_cases hhigh : v >>> 8 = 0
    · rw [if_pos hhigh, getLast?_singleton, Ne, Option.some.injEq]
      intro hlow
      apply hne
      bv_omega
    · have hbytes := putBytes_ne_nil (toNat_ushiftRight_lt hv) hhigh
      rw [if_neg hhigh, getLast?_cons_of_ne_nil hbytes]
      exact ih (toNat_ushiftRight_lt hv) hhigh

/-! ## Labels -/

/-- The bytes that `Hash` writes for labels. -/
def labelBytes (labelHash : String × String → BitVec 64) (l : Labels) : List (BitVec 8) :=
  if l.pairs = ∅ then [] else littleEndian (l.digest labelHash)

/-- Labels that `Hash` confuses: the hashes of the pairs on one side only cancel. -/
def Labels.Alias (labelHash : String × String → BitVec 64) (l l' : Labels) : Prop :=
  (l.pairs = ∅ ↔ l'.pairs = ∅) ∧ pairsDigest labelHash (symmDiff l.pairs l'.pairs) = 0

lemma digest_eq_iff : l.digest labelHash = l'.digest labelHash ↔
    pairsDigest labelHash (symmDiff l.pairs l'.pairs) = 0 := by
  unfold Labels.digest pairsDigest
  have hfold (s t : Finset (String × String)) :=
    @Finset.fold_union_inter _ _ (fun x y : BitVec 64 => x ^^^ y) _ _ labelHash _ s t 0 0
  have hunion := hfold l.pairs l'.pairs
  have hsplit := hfold (symmDiff l.pairs l'.pairs) (l.pairs ∩ l'.pairs)
  have hsup : symmDiff l.pairs l'.pairs ∪ l.pairs ∩ l'.pairs = l.pairs ∪ l'.pairs :=
    symmDiff_sup_inf _ _
  have hinf : symmDiff l.pairs l'.pairs ∩ (l.pairs ∩ l'.pairs) = ∅ :=
    (disjoint_symmDiff_inf _ _).eq_bot
  have hzero (v : BitVec 64) : v ^^^ 0 = v := BitVec.xor_zero
  rw [hsup, hinf, Finset.fold_empty, hzero] at hsplit
  rw [hsplit, BitVec.xor_assoc, BitVec.xor_self, BitVec.xor_zero] at hunion
  rw [hunion]
  exact BitVec.xor_eq_zero_iff.symm

lemma labelBytes_eq_iff : labelBytes labelHash l = labelBytes labelHash l' ↔
    l.Alias labelHash l' := by
  have hne (v : BitVec 64) : littleEndian v ≠ [] := by simp [littleEndian]
  unfold labelBytes Labels.Alias
  rw [← digest_eq_iff]
  by_cases h : l.pairs = ∅ <;> by_cases h' : l'.pairs = ∅
  · simp [h, h', Labels.digest]
  · rw [if_pos h, if_neg h']
    exact iff_of_false (hne _).symm (by simp [h, h'])
  · rw [if_neg h, if_pos h']
    exact iff_of_false (hne _) (by simp [h, h'])
  · rw [if_neg h, if_neg h', littleEndian_injective.eq_iff]
    simp [h, h']

lemma length_labelBytes (labelHash : String × String → BitVec 64) (l : Labels) :
    (labelBytes labelHash l).length = 0 ∨ (labelBytes labelHash l).length = 8 := by
  unfold labelBytes
  split
  · exact .inl rfl
  · right
    simp [littleEndian]

/-! ## Frames -/

/-- The bytes that `Hash` writes for one frame. -/
def siteBytes (site : BitVec 128 × BitVec 64) : List (BitVec 8) :=
  fileIDBytes site.1 ++ putUint64 site.2

/-- The bytes that `Hash` writes for frames and labels. -/
def bytes (labelHash : String × String → BitVec 64) (sites : List (BitVec 128 × BitVec 64))
    (l : Labels) : List (BitVec 8) :=
  sites.flatMap siteBytes ++ labelBytes labelHash l

lemma hashInput_eq_bytes (t : Trace) :
    t.hashInput labelHash = bytes labelHash t.sites t.customLabels := by
  have hframe : ∀ frame : Frame, frame.hashBytes = siteBytes frame.site := by
    intro frame
    unfold Frame.hashBytes Frame.site siteBytes
    cases frame.mapping <;> rfl
  rw [Trace.hashInput, bytes, Trace.sites, flatMap_map, funext hframe]
  rfl

variable {s s' : List (BitVec 128 × BitVec 64)} {site : BitVec 128 × BitVec 64}

lemma bytes_cons : bytes labelHash (site :: s) l =
    fileIDBytes site.1 ++ (putUint64 site.2 ++ bytes labelHash s l) := by
  simp [bytes, siteBytes]

/-- One address is spelled with the bytes of another and more, and the rest agrees. -/
def Straddles (labelHash : String × String → BitVec 64) (s : List (BitVec 128 × BitVec 64))
    (l : Labels) (s' : List (BitVec 128 × BitVec 64)) (l' : Labels) : Prop :=
  ∃ common fileID a a' rest rest' spill, s = common ++ (fileID, a) :: rest ∧
    s' = common ++ (fileID, a') :: rest' ∧ spill ≠ [] ∧ putUint64 a' = putUint64 a ++ spill ∧
    bytes labelHash rest l = spill ++ bytes labelHash rest' l'

lemma Straddles.bytes_eq (h : Straddles labelHash s l s' l') :
    bytes labelHash s l = bytes labelHash s' l' := by
  obtain ⟨common, fileID, a, a', rest, rest', spill, rfl, rfl, -, haddress, hrest⟩ := h
  have happend (tail : List (BitVec 128 × BitVec 64)) (l : Labels) :
      bytes labelHash (common ++ tail) l = common.flatMap siteBytes ++ bytes labelHash tail l := by
    simp [bytes]
  rw [happend, happend, bytes_cons, bytes_cons, haddress, hrest, append_assoc]

lemma Straddles.cons (h : Straddles labelHash s l s' l') (site : BitVec 128 × BitVec 64) :
    Straddles labelHash (site :: s) l (site :: s') l' := by
  obtain ⟨common, fileID, a, a', rest, rest', spill, rfl, rfl, hrest⟩ := h
  exact ⟨site :: common, fileID, a, a', rest, rest', spill, rfl, rfl, hrest⟩

lemma length_putUint64 (v : BitVec 64) : 1 ≤ (putUint64 v).length ∧ (putUint64 v).length ≤ 8 :=
  ⟨by simp [putUint64, putBytes], length_putBytes_le 8 v⟩

variable (labelHash l)

/-- A frame has more bytes than labels. -/
lemma length_bytes_cons (site : BitVec 128 × BitVec 64) (s : List (BitVec 128 × BitVec 64)) :
    17 ≤ (bytes labelHash (site :: s) l).length := by
  have hlen := (length_putUint64 site.2).1
  rw [bytes_cons, length_append, length_append, length_fileIDBytes]
  omega

lemma length_bytes_nil : (bytes labelHash [] l).length = 0 ∨ (bytes labelHash [] l).length = 8 :=
  length_labelBytes labelHash l

variable {labelHash l}

/-- Of which frames and labels `Hash` writes the same bytes. -/
lemma bytes_eq_iff : bytes labelHash s l = bytes labelHash s' l' ↔
    (s = s' ∧ l.Alias labelHash l') ∨ Straddles labelHash s l s' l' ∨
    Straddles labelHash s' l' s l := by
  refine ⟨fun h => ?_, ?_⟩
  · induction s generalizing s' with
    | nil =>
      cases s' with
      | nil => exact .inl ⟨rfl, labelBytes_eq_iff.mp h⟩
      | cons site s' =>
        have hlen := length_bytes_cons labelHash l' site s'
        have hlabels := length_bytes_nil labelHash l
        rw [h] at hlabels
        omega
    | cons site s ih =>
      cases s' with
      | nil =>
        have hlen := length_bytes_cons labelHash l site s
        have hlabels := length_bytes_nil labelHash l'
        rw [h] at hlen
        omega
      | cons site' s' =>
        obtain ⟨fileID, a⟩ := site
        obtain ⟨fileID', a'⟩ := site'
        rw [bytes_cons, bytes_cons] at h
        obtain ⟨hfile, hrest⟩ := append_inj h (by rw [length_fileIDBytes, length_fileIDBytes])
        obtain rfl := fileIDBytes_injective hfile
        by_cases ha : a = a'
        · subst ha
          rcases ih (append_cancel_left hrest) with ⟨rfl, hl⟩ | hspill | hspill
          · exact .inl ⟨rfl, hl⟩
          · exact .inr (.inl (hspill.cons _))
          · exact .inr (.inr (hspill.cons _))
        · have hne : putUint64 a ≠ putUint64 a' := fun h => ha (putUint64_injective h)
          right
          rcases append_eq_append_iff.mp hrest with ⟨spill, hspill, hrest⟩ | ⟨spill, hspill, hrest⟩
          · refine .inl ⟨[], fileID, a, a', s, s', spill, rfl, rfl, ?_, hspill, hrest⟩
            rintro rfl
            exact hne (by simpa using hspill.symm)
          · refine .inr ⟨[], fileID, a', a, s', s, spill, rfl, rfl, ?_, hspill, hrest⟩
            rintro rfl
            exact hne (by simpa using hspill)
  · rintro (⟨rfl, hl⟩ | hspill | hspill)
    · rw [bytes, bytes, labelBytes_eq_iff.mpr hl]
    · exact hspill.bytes_eq
    · exact hspill.bytes_eq.symm

/-- One to seven bytes, the last not zero, and then the first bytes of the other ID. -/
def Shifted (fileID fileID' : BitVec 128) : Prop :=
  ∃ m < 8, 0 < m ∧ (fileIDBytes fileID)[m - 1]? ≠ some 0 ∧
    (fileIDBytes fileID).drop m = (fileIDBytes fileID').take (16 - m)

instance (fileID fileID' : BitVec 128) : Decidable (Shifted fileID fileID') :=
  inferInstanceAs (Decidable (∃ m < 8, _))

/-- Bytes that are left over are the first ones of a file ID. -/
lemma Straddles.shifted (h : Straddles labelHash s l s' l') :
    ∃ site ∈ s, ∃ site' ∈ s', Shifted site.1 site'.1 := by
  obtain ⟨common, fileID, a, a', rest, rest', spill, rfl, rfl, hspill, haddress, hbytes⟩ := h
  have hlen := congrArg length haddress
  have hlen' := congrArg length hbytes
  rw [length_append] at hlen hlen'
  have ha := length_putUint64 a
  have ha' := length_putUint64 a'
  have hpos := length_pos_of_ne_nil hspill
  cases rest with
  | nil =>
    have hlabels := length_bytes_nil labelHash l
    cases rest' with
    | nil =>
      have hlabels' := length_bytes_nil labelHash l'
      omega
    | cons site' rest' =>
      have hsite := length_bytes_cons labelHash l' site' rest'
      omega
  | cons site rest =>
    cases rest' with
    | nil =>
      have hsite := length_bytes_cons labelHash l site rest
      have hlabels := length_bytes_nil labelHash l'
      omega
    | cons site' rest' =>
      have hfile :
          fileIDBytes site.1 = spill ++ (fileIDBytes site'.1).take (16 - spill.length) := by
        rw [bytes_cons, bytes_cons] at hbytes
        have htake := congrArg (take 16) hbytes
        rwa [take_left' (length_fileIDBytes _), take_append, take_of_length_le (by omega),
          take_append, length_fileIDBytes, show 16 - spill.length - 16 = 0 by omega, take_zero,
          append_nil] at htake
      refine ⟨site, by simp, site', by simp, spill.length, by omega, hpos, ?_, ?_⟩
      · have hlast : spill.getLast? = (putUint64 a').getLast? := by
          rw [haddress, getLast?_append_of_ne_nil _ hspill]
        have hne : a' ≠ 0 := by
          rintro rfl
          have hzero : (putUint64 0).length = 1 := rfl
          omega
        rw [hfile, getElem?_append_left (by omega), ← getLast?_eq_getElem?, hlast]
        exact getLast?_putBytes a'.isLt hne
      · rw [hfile, drop_left]

end EbpfProfiler.Reporter
