import EbpfProfiler.PfBufio.Spec

/-!
# The buffer is a window of the source

Between `pos` and `nbuf` are the next bytes, and `nlim` is where the section ends.
-/

namespace EbpfProfiler.PfBufio

open Lib List Comp

variable {c : Cursor} {bytes : List Byte} {src : ReadAt} {r : Reader} {base : ℕ}

lemma i64_eq {x : ℤ} (h : -2 ^ 63 ≤ x) (h' : x < 2 ^ 63) : i64 x = x := by
  unfold i64
  rw [Int.bmod_eq_of_le (by omega) (by omega)]

lemma maxBufferSize_eq : maxBufferSize = 65536 := rfl

/-- The ends of nested sections, inside out, are inside the region. -/
def Within (len : ℕ) : ℕ → List ℕ → Prop
  | slimit, [] => slimit ≤ len
  | slimit, outer :: ends => slimit ≤ outer ∧ Within len outer ends

lemma Within.le {len slimit : ℕ} {ends : List ℕ} (h : Within len slimit ends) : slimit ≤ len := by
  induction ends generalizing slimit with
  | nil => exact h
  | cons outer ends ih => exact le_trans h.1 (ih h.2)

/-- The reader of a region from `base` on is at the place of the cursor. -/
structure Inv (bytes : List Byte) (base : ℕ) (r : Reader) (c : Cursor) : Prop where
  size : bytes.length < 2 ^ 63
  start : r.start = base
  limit : r.limit = r.start + c.source.length
  inside : r.limit ≤ bytes.length
  source : c.source = (bytes.drop r.start.toNat).take c.source.length
  bufSize_ge : 8 ≤ r.bufSize
  bufSize_le : r.bufSize ≤ 65536
  slimit : r.slimit = r.start + c.slimit
  ends : r.sectionEnds = c.sectionEnds.map fun e : ℕ => r.start + (e : ℤ)
  within : Within c.source.length c.slimit c.sectionEnds
  pos_nonneg : 0 ≤ r.pos
  pos_le : r.pos ≤ r.nbuf
  nbuf_le : r.nbuf ≤ r.bufSize
  off : r.off = r.start + c.pos + (r.nbuf - r.pos)
  off_lt : r.off < 2 ^ 63
  off_le : r.pos < r.nbuf → r.off ≤ r.limit
  data : r.buf.read r.pos.toNat (r.nbuf - r.pos).toNat = c.ahead (r.nbuf - r.pos).toNat
  nlim : c.pos ≤ c.slimit ∧ r.nlim = r.nbuf - max 0 (r.off - r.slimit) ∨
    c.slimit < c.pos ∧ r.pos = 0 ∧ r.nbuf = 0 ∧ r.nlim ≤ 0

namespace Inv

variable {bytes : List Byte} {base : ℕ} {r : Reader} {c : Cursor}

section
variable (h : Inv bytes base r c)
include h

lemma start_nonneg : 0 ≤ r.start := by
  rw [h.start]
  exact Int.natCast_nonneg base

lemma slimit_le : c.slimit ≤ c.source.length := h.within.le

lemma available_eq : c.available = c.slimit - c.pos := by
  have := h.slimit_le
  unfold Cursor.available
  omega

/-- What the invariant says about sizes and positions. -/
lemma numbers : (bytes.length < 2 ^ 63 ∧ 0 ≤ r.start ∧ r.limit = r.start + c.source.length ∧
      r.limit ≤ bytes.length ∧ r.slimit = r.start + c.slimit ∧ c.slimit ≤ c.source.length ∧
      c.available = c.slimit - c.pos) ∧
    (8 ≤ r.bufSize ∧ r.bufSize ≤ 65536 ∧ 0 ≤ r.pos ∧ r.pos ≤ r.nbuf ∧ r.nbuf ≤ r.bufSize) ∧
    r.off = r.start + c.pos + (r.nbuf - r.pos) ∧ r.off < 2 ^ 63 ∧
    (c.pos ≤ c.slimit ∧ r.nlim = r.nbuf - max 0 (r.off - r.slimit) ∨
      c.slimit < c.pos ∧ r.pos = 0 ∧ r.nbuf = 0 ∧ r.nlim ≤ 0) :=
  ⟨⟨h.size, h.start_nonneg, h.limit, h.inside, h.slimit, h.slimit_le, h.available_eq⟩,
    ⟨h.bufSize_ge, h.bufSize_le, h.pos_nonneg, h.pos_le, h.nbuf_le⟩, h.off, h.off_lt, h.nlim⟩

lemma shows : Shows r c := by
  have hnum := h.numbers
  constructor
  · unfold Reader.tell
    rw [i64_eq (by omega) (by omega)]
    omega
  · unfold Reader.remaining
    rw [i64_eq (by omega) (by omega)]
    omega

lemma off_lt_slimit (hlt : r.off < r.slimit) : c.pos ≤ c.slimit ∧ r.nlim = r.nbuf := by
  have hnum := h.numbers
  obtain ⟨hle, hnlim⟩ | ⟨hbeyond, -⟩ := h.nlim <;> omega

lemma ahead {k : ℕ} (hk : (k : ℤ) ≤ r.nbuf - r.pos) : r.buf.read r.pos.toNat k = c.ahead k := by
  have hsplit : (r.nbuf - r.pos).toNat = k + ((r.nbuf - r.pos).toNat - k) := by omega
  have hdata := congrArg (take k) h.data
  rw [hsplit, Memory.read_add, take_left' (Memory.length_read _ _ _)] at hdata
  rw [hdata, Cursor.ahead, Cursor.ahead, take_take, min_eq_left (by omega)]

lemma advance {k : ℕ} (hk : (k : ℤ) ≤ r.nlim - r.pos) :
    Inv bytes base { r with pos := r.pos + k } (skip c k) := by
  have hnum := h.numbers
  have hcount : (r.nbuf - r.pos).toNat = k + (r.nbuf - (r.pos + k)).toNat := by omega
  refine { h with pos_nonneg := ?_, pos_le := ?_, off := ?_, off_le := ?_, data := ?_, nlim := ?_ }
  · show 0 ≤ r.pos + k
    omega
  · show r.pos + k ≤ r.nbuf
    omega
  · show r.off = r.start + ((c.pos + k : ℕ) : ℤ) + (r.nbuf - (r.pos + k))
    omega
  · intro hlt
    exact h.off_le (by have : r.pos + k < r.nbuf := hlt; omega)
  · show r.buf.read (r.pos + k).toNat (r.nbuf - (r.pos + k)).toNat =
      (skip c k).ahead (r.nbuf - (r.pos + k)).toNat
    have hdata := congrArg (drop k) h.data
    rw [hcount, Memory.read_add, drop_left' (Memory.length_read _ _ _)] at hdata
    rw [show (r.pos + k).toNat = r.pos.toNat + k by omega, hdata, Cursor.ahead, drop_take,
      drop_drop, Nat.add_sub_cancel_left]
    rfl
  · show c.pos + k ≤ c.slimit ∧ r.nlim = r.nbuf - max 0 (r.off - r.slimit) ∨
      c.slimit < c.pos + k ∧ r.pos + k = 0 ∧ r.nbuf = 0 ∧ r.nlim ≤ 0
    omega

end

end Inv

/-! ## Filling the buffer -/

lemma exec_lift {α : Type} (x : Except Fault α) (r : Reader) :
    Comp.exec (Comp.lift x : Comp Reader α) r = (x, r) := rfl

lemma exec_bufSlice {a b : ℤ} (h : 0 ≤ a ∧ a ≤ b ∧ b ≤ 65536) :
    (bufSlice a b).exec r = (.ok (r.buf.read a.toNat (b - a).toNat), r) := by
  unfold bufSlice
  rw [exec_get_bind, if_pos (by rwa [maxBufferSize_eq])]
  rfl

lemma fill_eof (h : r.slimit ≤ r.off ∨ r.nbuf ≠ r.nlim) :
    (fill src).exec r = (.ok (some .eof), r) := by
  unfold fill
  rw [exec_get_bind]
  by_cases hoff : r.slimit ≤ r.off
  · rw [if_pos hoff]
    rfl
  · rw [if_neg hoff, if_pos (h.resolve_left hoff)]
    rfl

lemma Inv.readAt (hsrc : Obeys bytes src) (h : Inv bytes base r c) {off : ℤ} {n : ℕ}
    (hstart : r.start ≤ off) (hlimit : off + n ≤ r.limit) :
    ∃ err, src off n = .ok ((c.source.drop (off - r.start).toNat).take n, err) ∧
      (err = none ∨ err = some .eof ∧ off + n = bytes.length) := by
  have hnum := h.numbers
  obtain ⟨k, hk⟩ : ∃ k : ℕ, off = k := ⟨off.toNat, by omega⟩
  have hregion : (c.source.drop (off - r.start).toNat).take n = (bytes.drop k).take n := by
    rw [h.source, drop_take, take_take, drop_drop, min_eq_left (by omega),
      show r.start.toNat + (off - r.start).toNat = k by omega]
  rw [hregion, hk]
  rcases Nat.lt_or_eq_of_le (show k + n ≤ bytes.length by omega) with hlt | heq
  · exact ⟨none, hsrc.inside k n hlt, .inl rfl⟩
  · obtain ⟨err, herr, hread⟩ := hsrc.atEnd k n heq
    exact ⟨err, hread, herr.imp_right fun he => ⟨he, by omega⟩⟩

lemma moveDown_ok (h : Inv bytes base r c) :
    ∃ buf, (moveDown (r.nbuf - r.pos)).exec r = (.ok (), { r with buf := buf }) ∧
      buf.read 0 (r.nbuf - r.pos).toNat = c.ahead (r.nbuf - r.pos).toNat := by
  have hnonneg := h.pos_nonneg
  have hnum := h.numbers
  unfold moveDown
  rw [exec_get_bind]
  by_cases hmove : 0 < r.nbuf - r.pos ∧ 0 < r.pos
  · refine ⟨r.buf.write 0 (c.ahead (r.nbuf - r.pos).toNat), ?_, ?_⟩
    · rw [if_pos hmove, exec_bind_of_ok (exec_bufSlice (by omega)),
        exec_bind_of_ok (exec_bufSlice (by omega)),
        show r.pos + (r.nbuf - r.pos) - r.pos = r.nbuf - r.pos by omega, h.data]
      rfl
    · have hread := Memory.read_write r.buf 0 (c.ahead (r.nbuf - r.pos).toNat)
      rwa [← h.data, Memory.length_read, h.data] at hread
  · refine ⟨r.buf, ?_, ?_⟩
    · rw [if_neg hmove]
      rfl
    · rcases Int.lt_or_eq_of_le hnonneg with hpos | hpos
      · rw [show (r.nbuf - r.pos).toNat = 0 by omega]
        rfl
      · have hdata := h.data
        rwa [show r.pos.toNat = 0 by omega] at hdata

/-- Nothing but the buffer changes. -/
structure SameRegion (r r' : Reader) : Prop where
  start : r'.start = r.start
  limit : r'.limit = r.limit
  slimit : r'.slimit = r.slimit
  bufSize : r'.bufSize = r.bufSize
  sectionEnds : r'.sectionEnds = r.sectionEnds

/-- The buffer is filled up to its size or the end of the region. -/
structure Filled (r : Reader) (c : Cursor) (r' : Reader) : Prop where
  same : SameRegion r r'
  pos : r'.pos = 0
  nbuf : r'.nbuf = min r.bufSize ((c.source.length : ℤ) - c.pos)

section
variable (hsrc : Obeys bytes src) (h : Inv bytes base r c) (hoff : r.off < r.slimit)
include hsrc h hoff

lemma readMore_ok {buf : Memory}
    (hbuf : buf.read 0 (r.nbuf - r.pos).toNat = c.ahead (r.nbuf - r.pos).toNat) :
    ∃ r', (readMore src (r.nbuf - r.pos)).exec { r with buf := buf } =
        (.ok (if r.nbuf - r.pos < r.bufSize then none else some .eof), r') ∧
      Inv bytes base r' c ∧ Filled r c r' := by
  have hnum := h.numbers
  obtain ⟨hcpos, -⟩ := h.off_lt_slimit hoff
  obtain ⟨k, hk⟩ : ∃ k : ℕ, min (r.bufSize - (r.nbuf - r.pos)) (r.limit - r.off) = k :=
    ⟨(min (r.bufSize - (r.nbuf - r.pos)) (r.limit - r.off)).toNat, by omega⟩
  obtain ⟨err, hread, herr⟩ := h.readAt hsrc (n := k) (show r.start ≤ r.off by omega) (by omega)
  have hlength : ((c.source.drop (r.off - r.start).toNat).take k).length = k := by
    rw [length_take, length_drop]
    omega
  have heof : err.getD .eof = .eof := by
    rcases herr with rfl | ⟨rfl, -⟩ <;> rfl
  have hexec : (readMore src (r.nbuf - r.pos)).exec { r with buf := buf } =
      (.ok (if r.nbuf - r.pos < r.bufSize then none else some .eof),
        Reader.updateBufferLimit { r with
        pos := 0
        buf := buf.write (r.nbuf - r.pos).toNat ((c.source.drop (r.off - r.start).toNat).take k)
        nbuf := k + (r.nbuf - r.pos)
        off := r.off + k }) := by
    unfold readMore
    rw [exec_get_bind]
    dsimp only
    rw [i64_eq (show -2 ^ 63 ≤ r.limit - r.off by omega) (by omega), hk,
      exec_bind_of_ok (exec_bufSlice (by omega)), Int.toNat_natCast, hread,
      exec_bind_of_ok (exec_lift _ _)]
    rw [hlength, i64_eq (show -2 ^ 63 ≤ r.off + k by omega) (by omega), heof]
    by_cases hroom : r.nbuf - r.pos < r.bufSize
    · rw [if_pos (show 0 < k by omega), if_pos hroom]
      rfl
    · rw [if_neg (show ¬0 < k by omega), if_neg hroom]
      rfl
  refine ⟨_, hexec, ?_, ?_⟩
  · have hnlim : i64 ((k : ℤ) + (r.nbuf - r.pos) - max 0 (i64 (r.off + k - r.slimit))) =
        k + (r.nbuf - r.pos) - max 0 (r.off + k - r.slimit) := by
      rw [i64_eq (show -2 ^ 63 ≤ r.off + k - r.slimit by omega) (by omega),
        i64_eq (by omega) (by omega)]
    unfold Reader.updateBufferLimit
    rw [hnlim]
    refine { h with
      pos_nonneg := Int.le_refl 0, pos_le := ?_, nbuf_le := ?_, off := ?_, off_lt := ?_,
      off_le := ?_, data := ?_, nlim := .inl ⟨hcpos, Eq.refl _⟩ }
    · show 0 ≤ (k : ℤ) + (r.nbuf - r.pos)
      omega
    · show (k : ℤ) + (r.nbuf - r.pos) ≤ r.bufSize
      omega
    · show r.off + k = r.start + c.pos + (k + (r.nbuf - r.pos) - 0)
      omega
    · show r.off + k < 2 ^ 63
      omega
    · intro _
      show r.off + k ≤ r.limit
      omega
    · show Memory.read _ 0 ((k : ℤ) + (r.nbuf - r.pos) - 0).toNat =
        c.ahead ((k : ℤ) + (r.nbuf - r.pos) - 0).toNat
      have hwritten := Memory.read_write buf (r.nbuf - r.pos).toNat
        ((c.source.drop (r.off - r.start).toNat).take k)
      rw [hlength] at hwritten
      rw [show ((k : ℤ) + (r.nbuf - r.pos) - 0).toNat = (r.nbuf - r.pos).toNat + k by omega,
        Memory.read_add, Memory.read_write_of_le _ _ (by omega), hbuf, zero_add, hwritten,
        Cursor.ahead, Cursor.ahead, take_add, drop_drop,
        show (r.off - r.start).toNat = c.pos + (r.nbuf - r.pos).toNat by omega]
  · refine ⟨⟨Eq.refl _, Eq.refl _, Eq.refl _, Eq.refl _, Eq.refl _⟩, Eq.refl _, ?_⟩
    show (k : ℤ) + (r.nbuf - r.pos) = min r.bufSize ((c.source.length : ℤ) - c.pos)
    omega

/-- Filling keeps the place and gets all it can; a full buffer counts as the end. -/
lemma exec_fill : ∃ r', (fill src).exec r =
        (.ok (if r.nbuf - r.pos < r.bufSize then none else some .eof), r') ∧
      Inv bytes base r' c ∧ Filled r c r' := by
  obtain ⟨-, hnlim⟩ := h.off_lt_slimit hoff
  obtain ⟨buf, hmove, hbuf⟩ := moveDown_ok h
  obtain ⟨r', hmore, hinv, hfilled⟩ := readMore_ok hsrc h hoff hbuf
  refine ⟨r', ?_, hinv, hfilled⟩
  unfold fill
  rw [exec_get_bind, if_neg (by omega), if_neg (by omega), exec_bind_of_ok hmove, hmore]

lemma fill_ok (hroom : r.nbuf - r.pos < r.bufSize) :
    ∃ r', (fill src).exec r = (.ok none, r') ∧ Inv bytes base r' c ∧ Filled r c r' := by
  have hfill := exec_fill hsrc h hoff
  rwa [if_pos hroom] at hfill

end

end EbpfProfiler.PfBufio
