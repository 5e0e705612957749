import EbpfProfiler.PfBufio.Searches

/-!
# The buffer cannot be noticed

A run conforms just when all of its calls are `Fine`.
-/

namespace EbpfProfiler.PfBufio

open Lib List Comp Cursor

variable {bytes : List Byte} {base : ℕ} {src : ReadAt} {r r' : Reader} {c : Cursor}

/-! ## Seek and sections -/

section
variable (h : Inv bytes base r c)
include h

lemma seek_spec (offset : Fin (2 ^ 63)) : (2 ^ 63 ≤ r.start.toNat + offset.val ∧
        (seek offset.val 0).exec r = (.ok (0, some .offset), r)) ∨
      r.start.toNat + offset.val < 2 ^ 63 ∧
        ∃ r', (seek offset.val 0).exec r = (.ok ((offset.val : ℤ), none), r') ∧
          Inv bytes base r' (c.seek offset.val) := by
  have hnum := h.numbers
  unfold seek
  rw [exec_get_bind, if_neg (not_not.2 rfl)]
  rcases lt_or_ge (r.start.toNat + offset.val) (2 ^ 63) with hlt | hge
  · refine .inr ⟨hlt, { r with off := offset.val + r.start }.flush, ?_, ?_⟩
    · rw [i64_eq (show -2 ^ 63 ≤ (offset.val : ℤ) + r.start by omega) (by omega),
        if_neg (by omega), Int.add_sub_cancel,
        i64_eq (by omega) (by omega)]
      rfl
    · refine { h with
        pos_nonneg := Int.le_refl 0, pos_le := Int.le_refl 0, nbuf_le := ?_, off :=
          ?_, off_lt := ?_,
        off_le := fun hlt => absurd hlt (lt_irrefl 0), data := rfl, nlim := ?_ }
      · show 0 ≤ r.bufSize
        omega
      · show (offset.val : ℤ) + r.start = r.start + offset.val + (0 - 0)
        omega
      · show (offset.val : ℤ) + r.start < 2 ^ 63
        omega
      · show offset.val ≤ c.slimit ∧ (0 : ℤ) = 0 - max 0 (offset.val + r.start - r.slimit) ∨
          c.slimit < offset.val ∧ (0 : ℤ) = 0 ∧ (0 : ℤ) = 0 ∧ (0 : ℤ) ≤ 0
        omega
  · refine .inl ⟨hge, ?_⟩
    -- the sum wraps to a negative offset
    have hwrap : i64 ((offset.val : ℤ) + r.start) = offset.val + r.start - 2 ^ 64 := by
      unfold i64
      rw [Int.bmod_eq_emod, if_pos (by omega)]
      omega
    rw [if_pos (by omega)]
    rfl

lemma Inv.withLimit (slimit : ℕ) (ends : List ℕ) (hpos : c.pos ≤ slimit ∨ r.pos = 0 ∧ r.nbuf = 0)
    (hwithin : Within c.source.length slimit ends) : Inv bytes base
      { r with
        slimit := r.start + slimit
        sectionEnds := ends.map fun e : ℕ => r.start + (e : ℤ) }.updateBufferLimit
      { c with slimit := slimit, sectionEnds := ends } := by
  have hnum := h.numbers
  have hslimit_le := hwithin.le
  have hnlim : i64 (r.nbuf - max 0 (i64 (r.off - (r.start + slimit)))) =
      r.nbuf - max 0 (r.off - (r.start + slimit)) := by
    rw [i64_eq (show -2 ^ 63 ≤ r.off - (r.start + slimit) by omega) (by omega),
      i64_eq (by omega) (by omega)]
  unfold Reader.updateBufferLimit
  rw [hnlim]
  refine { h with slimit := Eq.refl _, ends := Eq.refl _, within := hwithin, nlim := ?_ }
  show c.pos ≤ slimit ∧ r.nbuf - max 0 (r.off - (r.start + slimit)) =
      r.nbuf - max 0 (r.off - (r.start + slimit)) ∨
    slimit < c.pos ∧ r.pos = 0 ∧ r.nbuf = 0 ∧ r.nbuf - max 0 (r.off - (r.start + slimit)) ≤ 0
  omega

lemma startSection_spec (n : ℕ) :
    (c.slimit < c.pos + n ∧ (startSection n).exec r = (.ok (some .unexpectedEOF), r)) ∨
      c.pos + n ≤ c.slimit ∧ ∃ r', (startSection n).exec r = (.ok none, r') ∧
        Inv bytes base r'
          { c with slimit := c.pos + n, sectionEnds := c.slimit :: c.sectionEnds } := by
  have hremaining := h.shows.2
  have hnum := h.numbers
  have hslimit := h.slimit
  unfold startSection
  rw [exec_get_bind, if_neg (by omega)]
  rcases lt_or_ge c.slimit (c.pos + n) with hlt | hge
  · refine .inl ⟨hlt, ?_⟩
    rw [if_pos (by omega)]
    rfl
  · have hinv := h.withLimit (c.pos + n) (c.slimit :: c.sectionEnds)
      (.inl (by omega)) ⟨hge, h.within⟩
    rw [map_cons, ← h.ends, ← hslimit] at hinv
    refine .inr ⟨hge, _, ?_, hinv⟩
    rw [if_neg (by omega), i64_eq (show -2 ^ 63 ≤ r.off - (r.nbuf - r.pos) + n by omega) (by omega),
      show r.off - (r.nbuf - r.pos) + n = r.start + ((c.pos + n : ℕ) : ℤ) by omega]
    rfl

lemma leaveSection_spec {slimit : ℕ} (hwithin : Within c.source.length slimit c.sectionEnds)
    (hle : c.slimit ≤ slimit) : ∃ r', (leaveSection (r.start + slimit)).exec r = (.ok (), r') ∧
      Inv bytes base r' { c with slimit := slimit } := by
  have hnum := h.numbers
  have hinv := h.withLimit slimit c.sectionEnds (by omega) hwithin
  rw [← h.ends] at hinv
  exact ⟨_, rfl, hinv⟩

end

lemma endSection_spec (hsrc : Obeys bytes src) (h : Inv bytes base r c)
    (hopen : r.sectionEnds ≠ []) :
    ∃ r', (endSection src).exec r = (.ok (), r') ∧
      Inv bytes base r' { c with
        pos := max c.pos c.slimit
        slimit := c.sectionEnds.headD c.slimit
        sectionEnds := c.sectionEnds.tail } := by
  have hends := h.ends
  cases hc : c.sectionEnds with
  | nil =>
    rw [hc] at hends
    exact absurd hends hopen
  | cons outer ends =>
    have hwithin := h.within
    rw [hc] at hends hwithin
    obtain ⟨hle, houter⟩ := hwithin
    have hinner : Within c.source.length c.slimit ends := by
      cases ends with
      | nil => exact le_trans hle houter
      | cons next ends => exact ⟨le_trans hle houter.1, houter.2⟩
    have hinv : Inv bytes base { r with sectionEnds := ends.map fun e : ℕ => r.start + (e : ℤ) }
        { c with sectionEnds := ends } := { h with ends := rfl, within := hinner }
    have hremaining := h.shows.2
    have havail := hinv.available_eq
    unfold endSection
    rw [exec_get_bind, hends, map_cons]
    rw [exec_set_bind, hremaining]
    rcases lt_or_ge c.pos c.slimit with hlt | hge
    · rw [if_pos (by omega), show (c.slimit : ℤ) - c.pos = ((c.slimit - c.pos : ℕ) : ℤ) by omega]
      obtain ⟨r₁, hdiscard, hinv₁⟩ := discard_spec hsrc hinv (c.slimit - c.pos)
      rw [min_eq_left (by rw [havail])] at hinv₁
      obtain ⟨r', hleave, hinv'⟩ := leaveSection_spec hinv₁ houter hle
      rw [hinv₁.start, ← h.start] at hleave
      refine ⟨r', ?_, ?_⟩
      · rw [exec_bind_of_ok hdiscard]
        exact hleave
      · rw [max_eq_right (le_of_lt hlt)]
        rwa [show (skip { c with sectionEnds := ends } (c.slimit - c.pos)).pos = c.slimit from
          Nat.add_sub_cancel' (le_of_lt hlt)] at hinv'
    · rw [if_neg (by omega), max_eq_left hge]
      exact leaveSection_spec hinv houter hle

/-! ## Calls that conform -/

/-- A call replies as the cursor does, and the reader is at its place then. -/
def StepOk (bytes : List Byte) (base : ℕ) (src : ReadAt) (r : Reader) (c : Cursor) (call : Call) :
    Prop :=
  ∃ reply r', (perform src call).exec r = (.ok reply, r') ∧
    Allowed r.bufSize.toNat r.start.toNat c call reply ∧
    Inv bytes base r' (next r.bufSize.toNat c call reply.err)

lemma stepOk_readByte (hsrc : Obeys bytes src) (h : Inv bytes base r c) :
    StepOk bytes base src r c .readByte := by
  unfold StepOk perform Allowed next
  rcases readByte_spec hsrc h with ⟨hpos, b, r', hb, hread, hinv⟩ | ⟨hzero, hread⟩
  · refine ⟨{ bytes := [b] }, r', exec_return hread _, ?_, ?_⟩
    · rw [if_pos hpos, hb]
    · rwa [min_eq_left hpos]
  · refine ⟨{ err := some .eof }, r, exec_return hread _, ?_, ?_⟩
    · rw [if_neg (by omega)]
    · rwa [hzero]

variable {call : Call} {n : ℕ} {pattern : List Byte}

lemma stepOk_number {x : Comp Reader ℕ} (hcall : perform src call = (do return { number := (← x) }))
    (hallowed : ∀ bufSize start reply, Allowed bufSize start c call reply ↔
      reply = { number := numberAt c n })
    (hnext : ∀ bufSize err, next bufSize c call err = afterNumber c n)
    (hx : ∃ r', x.exec r = (.ok (numberAt c n), r') ∧ Inv bytes base r' (afterNumber c n)) :
    StepOk bytes base src r c call := by
  obtain ⟨r', hexec, hinv⟩ := hx
  refine ⟨{ number := numberAt c n }, r', ?_, (hallowed _ _ _).2 rfl, ?_⟩
  · rw [hcall]
    exact exec_return hexec _
  · rwa [hnext]

section
variable (hsrc : Obeys bytes src)
include hsrc

section
variable (h : Inv bytes base r c)
include h

lemma stepOk_peek (hfine : Fine r (.peek n)) : StepOk bytes base src r c (.peek n) := by
  have hnum := h.numbers
  obtain ⟨res, r', hexec, hinv, hres⟩ := peek_spec hsrc h hfine
  refine ⟨Reply.ofSlice res, r', exec_return hexec _, ?_, hinv⟩
  show SliceAllowed r.bufSize.toNat c n (Reply.ofSlice res)
  unfold SliceAllowed
  rcases hres with ⟨hn, rfl, -⟩ | ⟨hn, rfl⟩ | ⟨hn, rfl⟩
  · rw [if_pos hn]
    exact .inl rfl
  · rw [if_neg (by omega)]
    exact .inl rfl
  · exact .inr ⟨by omega, rfl⟩

lemma stepOk_readN (hfine : Fine r (.readN n)) : StepOk bytes base src r c (.readN n) := by
  have hnum := h.numbers
  obtain ⟨res, r', hexec, hres⟩ := readN_spec hsrc h hfine
  refine ⟨Reply.ofSlice res, r', exec_return hexec _, ?_⟩
  unfold Allowed SliceAllowed next
  dsimp only
  rcases hres with ⟨hn, rfl, hinv⟩ | ⟨hn, rfl, hinv⟩ | ⟨hn, rfl, hinv⟩
  · rw [if_pos hn]
    exact ⟨.inl rfl, hinv⟩
  · rw [if_neg (by omega)]
    exact ⟨.inl rfl, hinv⟩
  · exact ⟨.inr ⟨by omega, rfl⟩, hinv⟩

lemma stepOk_readSlice {delim : Byte}
    (hfine : Fine r (.readSlice delim)) : StepOk bytes base src r c (.readSlice delim) := by
  obtain ⟨reply, r', c', hexec, hout, hinv⟩ := readSlice_spec hsrc h hfine
  refine ⟨{ bytes := reply.1, err := reply.2 }, r', exec_return hexec _, ?_⟩
  unfold Allowed next
  dsimp only
  rcases hout with ⟨i, hidx, rfl, rfl⟩ | ⟨hidx, rfl, rfl⟩ | ⟨hlarge, rfl, rfl⟩
  · rw [sliceLength, hidx]
    exact ⟨.inl rfl, hinv⟩
  · rw [sliceLength, hidx]
    exact ⟨.inl rfl, hinv⟩
  · exact ⟨.inr ⟨hlarge, rfl⟩, hinv⟩

lemma stepOk_searchSlice
    (hfine : Fine r (.searchSlice pattern)) : StepOk bytes base src r c (.searchSlice pattern) := by
  unfold StepOk perform Allowed next
  dsimp only
  by_cases hpattern : pattern = []
  · refine ⟨{ number := c.pos }, r, ?_, ?_, ?_⟩
    · rw [hpattern, ← h.shows.1]
      rfl
    · rw [if_pos hpattern]
    · rw [if_pos (.inl hpattern)]
      exact h
  · obtain ⟨reply, r', c', hexec, hout, hinv⟩ := searchSlice_spec hsrc h hpattern hfine
    refine ⟨{ number := reply.1, err := reply.2 }, r', exec_return hexec _, ?_⟩
    rw [if_neg hpattern]
    rcases hout with ⟨i, hidx, rfl, rfl⟩ | ⟨hidx, rfl, rfl⟩
    · rw [hidx, if_neg (by simp [hpattern])]
      exact ⟨.inl (by rfl), hinv⟩
    · rw [hidx, if_neg (by simp [hpattern])]
      exact ⟨.inl rfl, hinv⟩

end

end

lemma stepOk_seek (h : Inv bytes base r c) (offset : Fin (2 ^ 63)) (whence : ℕ) :
    StepOk bytes base src r c (.seek offset whence) := by
  unfold StepOk perform Allowed next
  dsimp only
  by_cases hwhence : whence = 0
  · rw [hwhence, if_neg (not_not.2 rfl)]
    rcases seek_spec h offset with ⟨hge, hexec⟩ | ⟨hlt, r', hexec, hinv⟩
    · exact ⟨{ err := some .offset }, r, exec_return hexec _, by rw [if_pos hge], h⟩
    · exact ⟨{ number := offset.val }, r', exec_return hexec _, by rw [if_neg (by omega)], hinv⟩
  · have hexec : (seek offset.val whence).exec r = (.ok (0, some .whence), r) := by
      unfold seek
      rw [exec_get_bind, if_pos hwhence]
      rfl
    exact ⟨{ err := some .whence }, r, exec_return hexec _, by rw [if_pos hwhence], h⟩

lemma stepOk_startSection (h : Inv bytes base r c) (n : ℕ) :
    StepOk bytes base src r c (.startSection n) := by
  unfold StepOk perform Allowed next
  dsimp only
  rcases startSection_spec h n with ⟨hlt, hexec⟩ | ⟨hle, r', hexec, hinv⟩
  · exact ⟨{ err := some .unexpectedEOF }, r, exec_return hexec _, by rw [if_pos hlt], h⟩
  · exact ⟨{}, r', exec_return hexec _, by rw [if_neg (by omega)], hinv⟩

/-- Every call that is fine conforms, and keeps the invariant. -/
lemma stepOk_of_fine (hsrc : Obeys bytes src) (h : Inv bytes base r c) (hnested : Nested r call)
    (hfine : Fine r call) : StepOk bytes base src r c call := by
  cases call with
  | read len =>
    obtain ⟨err, r', hexec, herr, hinv⟩ := read_spec hsrc h hfine
    exact ⟨_, r', exec_return hexec _, ⟨rfl, herr.1, herr.2 trivial⟩, hinv⟩
  | readByte => exact stepOk_readByte hsrc h
  | uint8 => exact stepOk_number rfl (fun _ _ _ => Iff.rfl) (fun _ _ => rfl) (uint8_spec hsrc h)
  | uint16 | uint32 | uint64 =>
    exact stepOk_number rfl (fun _ _ _ => Iff.rfl) (fun _ _ => rfl)
      (uintN_spec hsrc h (by decide) (by decide))
  | discard n =>
    obtain ⟨r', hexec, hinv⟩ := discard_spec hsrc h n
    exact ⟨_, r', exec_return hexec _, rfl, hinv⟩
  | peek n => exact stepOk_peek hsrc h hfine
  | readN n => exact stepOk_readN hsrc h hfine
  | readSlice delim => exact stepOk_readSlice hsrc h hfine
  | searchSlice pattern => exact stepOk_searchSlice hsrc h hfine
  | seek offset whence => exact stepOk_seek h offset whence
  | startSection n => exact stepOk_startSection h n
  | endSection =>
    obtain ⟨r', hexec, hinv⟩ := endSection_spec hsrc h (hnested rfl)
    exact ⟨{}, r', exec_return hexec _, rfl, hinv⟩

/-! ## Calls that do not -/

lemma exec_bufSlice_panic {a b : ℤ} (h : b < a) :
    (bufSlice a b).exec r = (.error (.panic "slice bounds out of range"), r) := by
  unfold bufSlice
  rw [exec_get_bind, if_neg (by omega)]
  rfl

lemma Inv.beyond (h : Inv bytes base r c) (hlt : r.nlim < r.pos) :
    r.slimit ≤ r.off ∧ c.available = 0 := by
  have hnum := h.numbers
  omega

lemma exec_peek_zero (h : Inv bytes base r c) (hlt : r.nlim < r.pos) :
    (peek src (0 : ℕ)).exec r = (.ok (.error .eof), r) := by
  have hnum := h.numbers
  unfold peek
  rw [exec_get_bind, if_neg (by omega), if_pos (by omega),
    exec_bind_of_ok (fill_eof (.inl (h.beyond hlt).1))]
  rfl

lemma not_sliceAllowed_zero {bufSize : ℕ} : ¬SliceAllowed bufSize c 0 { err := some .eof } := by
  simp [SliceAllowed]

/-- A large `Read` at the end of a section panics, or reports nothing. -/
lemma read_at_end (hsrc : Obeys bytes src) (h : Inv bytes base r c) {len : ℕ}
    {reply : List Byte × Option ReadErr} (hfine : ¬Fine r (.read len))
    (hexec : (read src len).exec r = (.ok reply, r')) :
    reply.2 = none ∧ 0 < len ∧ c.available = 0 := by
  obtain ⟨hlarge, hpos, hnlim, hend, hlimit⟩ := not_not.1 hfine
  have hnum := h.numbers
  refine ⟨?_, by omega, by omega⟩
  unfold read readLoop at hexec
  rw [if_pos (by rw [length_nil]; omega), exec_get_bind, if_neg (by omega), if_neg (by omega),
    if_pos (by rw [length_nil]; omega)] at hexec
  obtain ⟨direct, t, hdirect, hreply⟩ := exec_bind_ok.1 hexec
  cases hreply
  show direct.2 = none
  unfold readDirect at hdirect
  rw [exec_get_bind] at hdirect
  dsimp only at hdirect
  rw [i64_eq (show -2 ^ 63 ≤ r.slimit - r.off by omega) (by omega),
    if_pos (show r.slimit - r.off < (len : ℤ) - (([] : List Byte).length : ℕ) by
      rw [length_nil]; omega)] at hdirect
  by_cases heq : r.slimit = r.off
  · -- an empty read inside the source has no error
    obtain ⟨err, hread, herr⟩ := h.readAt hsrc (n := 0) (show r.start ≤ r.off by omega) (by omega)
    have hnone : err = none := by
      rcases herr with hnone | ⟨-, hlen⟩
      · exact hnone
      · omega
    rw [heq, sub_self, Int.toNat_zero, hread, hnone] at hdirect
    cases hdirect
    rfl
  · rw [if_neg (by omega)] at hdirect
    cases hdirect

lemma searchLoop_large (h : Inv bytes base r c) (hfine : r.pos ≤ r.nlim)
    (hlarge : r.bufSize < pattern.length) {err : Option ReadErr}
    (hfill : (fill src).exec r = (.ok err, r')) (fuel : ℕ) :
    (searchLoop src pattern (fuel + 1)).exec r =
      err.elim ((searchLoop src pattern fuel).exec r')
        fun e => (.ok (-1, some e), { r' with pos := r'.nlim }) := by
  obtain ⟨n, hn⟩ : ∃ n : ℕ, r.nlim = r.pos + n := ⟨(r.nlim - r.pos).toNat, by omega⟩
  have hnum := h.numbers
  have hpattern : pattern ≠ [] := by
    rintro rfl
    rw [length_nil] at hlarge
    omega
  have hslice := h.exec_bufSlice (n := n) (by omega)
  rw [← hn] at hslice
  have hidx : indexOf pattern (c.ahead n) = none := by
    refine (indexOf_eq_none_iff hpattern).2 fun i hpre => ?_
    have hroom := add_length_le_of_occurs hpattern hpre
    rw [length_ahead (by omega)] at hroom
    omega
  rw [searchLoop, exec_get_bind, exec_bind_of_ok hslice, hidx]
  rw [show r.nlim - min (r.nlim - r.pos) ((pattern.length : ℤ) - 1) = r.pos by omega,
    exec_set_bind, exec_bind_of_ok hfill]
  cases err <;> rfl

section
variable (hsrc : Obeys bytes src) (h : Inv bytes base r c) (hlarge : r.bufSize < pattern.length)
  (hmore : r.bufSize < c.available)
include hsrc h hlarge hmore

lemma searchLoop_full (hfull : r.nlim - r.pos = r.bufSize) (fuel : ℕ) :
    ∃ r', (searchLoop src pattern (fuel + 1)).exec r = (.ok (-1, some .eof), r') ∧
      Inv bytes base r' (skip c r.bufSize.toNat) := by
  have hnum := h.numbers
  have hmissing := h.missing_iff.2
  have hoff : r.off < r.slimit := hmissing.2 (by omega)
  obtain ⟨hle, hnlim⟩ := h.off_lt_slimit hoff
  obtain ⟨r₁, hfill, hinv, hfilled⟩ := exec_fill hsrc h hoff
  have hbuffered := hfilled.buffered hinv hle
  rw [if_neg (by omega)] at hfill
  have hadvance := hinv.advance (k := r.bufSize.toNat) (by omega)
  rw [show r₁.pos + (r.bufSize.toNat : ℤ) = r₁.nlim by omega] at hadvance
  exact ⟨_, searchLoop_large h (by omega) hlarge hfill fuel, hadvance⟩

lemma searchSlice_large
        (hfine : r.pos ≤ r.nlim) : ∃ r', (searchSlice src pattern).exec r =
        (.ok (-1, some .eof), r') ∧
      Inv bytes base r' (skip c r.bufSize.toNat) := by
  have hnum := h.numbers
  unfold searchSlice
  rw [exec_get_bind, if_neg (by omega)]
  by_cases hfull : r.nlim - r.pos = r.bufSize
  · exact searchLoop_full hsrc h hlarge hmore hfull _
  · obtain ⟨r₁, hfill, hinv, hfilled, hbuffered⟩ := h.fill hsrc (by omega) (by omega)
    have hsize := hfilled.same.bufSize
    obtain ⟨fuel, hfuel⟩ : ∃ fuel, (r.slimit - r.off).toNat = fuel + 1 :=
      ⟨(r.slimit - r.off).toNat - 1, by omega⟩
    rw [hfuel, searchLoop_large h hfine hlarge hfill, ← hsize]
    exact searchLoop_full hsrc hinv (by omega) (by omega) (by omega) fuel

end

lemma fine_of_stepConforms (hsrc : Obeys bytes src) (h : Inv bytes base r c) {reply : Reply}
    (hstep : StepConforms src r c call reply r') : Fine r call := by
  obtain ⟨hexec, hallowed, hshows⟩ := hstep
  have hnum := h.numbers
  by_contra hfine
  cases call with
  | read len =>
    obtain ⟨res, t, hread, hreply⟩ := exec_bind_ok.1 hexec
    cases hreply
    obtain ⟨hnone, hlen, hzero⟩ := read_at_end hsrc h hfine hread
    have heof : res.2 = some .eof := hallowed.2.2 hlen hzero
    rw [hnone] at heof
    cases heof
  | peek n =>
    obtain ⟨rfl, hlt⟩ := Classical.not_imp.1 hfine
    obtain ⟨res, t, hpeek, hreply⟩ := exec_bind_ok.1 hexec
    rw [exec_peek_zero h (by omega)] at hpeek
    cases hpeek
    cases hreply
    exact not_sliceAllowed_zero hallowed
  | readN n =>
    obtain ⟨rfl, hlt⟩ := Classical.not_imp.1 hfine
    obtain ⟨res, t, hread, hreply⟩ := exec_bind_ok.1 hexec
    obtain ⟨res', t', hpeek, hres⟩ := exec_bind_ok.1 hread
    rw [exec_peek_zero h (by omega)] at hpeek
    cases hpeek
    cases hres
    cases hreply
    exact not_sliceAllowed_zero hallowed
  | readSlice delim =>
    have hlt : r.nlim < r.pos := not_le.1 hfine
    obtain ⟨res, t, hread, -⟩ := exec_bind_ok.1 hexec
    unfold readSlice readSliceLoop at hread
    rw [exec_get_bind, exec_bind_of_error (exec_bufSlice_panic hlt)] at hread
    cases hread
  | searchSlice pattern =>
    obtain ⟨hpattern, hrest⟩ := not_or.1 hfine
    have hlength := length_pos_iff.2 hpattern
    obtain ⟨res, t, hsearch, hreply⟩ := exec_bind_ok.1 hexec
    cases hreply
    by_cases hlt : r.nlim < r.pos
    · unfold searchSlice searchLoop at hsearch
      rw [exec_get_bind, if_neg (by omega), exec_get_bind,
        exec_bind_of_error (exec_bufSlice_panic hlt)] at hsearch
      cases hsearch
    · -- the end is reported a buffer further, not at the end
      obtain ⟨hlarge, hremaining⟩ := not_or.1 (not_and.1 hrest (by omega))
      rw [h.shows.2] at hremaining
      obtain ⟨r₁, hexec₁, hinv⟩ := searchSlice_large hsrc h (not_le.1 hlarge) (by omega) (by omega)
      rw [hexec₁] at hsearch
      cases hsearch
      have htell := hshows.1
      rw [hinv.shows.1] at htell
      unfold Allowed at hallowed
      unfold next at htell
      dsimp only at hallowed htell
      rw [if_neg hpattern] at hallowed
      rw [if_neg (by simp [hpattern])] at htell
      rcases hallowed with hreply | ⟨-, herr⟩
      · cases hidx : indexOf pattern (rest c) with
        | none =>
          rw [hidx] at htell
          have hskip : c.pos + r.bufSize.toNat = c.pos + c.available := Int.ofNat_inj.1 htell
          omega
        | some i =>
          rw [hidx] at hreply
          cases hreply
      · cases herr
  | _ => exact hfine trivial

/-! ## Runs -/

lemma conforms_iff_of_inv (hsrc : Obeys bytes src) (h : Inv bytes base r c) {calls : List Call}
    (hnested : Throughout src Nested r calls) :
    Conforms src r c calls ↔ Throughout src Fine r calls := by
  induction calls generalizing r c with
  | nil => exact Iff.rfl
  | cons call calls ih =>
    obtain ⟨hcall, hrest⟩ := hnested
    constructor
    · rintro ⟨reply, r', hstep, hconforms⟩
      have hfine := fine_of_stepConforms hsrc h hstep
      obtain ⟨reply₁, r₁, hexec, -, hinv⟩ := stepOk_of_fine hsrc h hcall hfine
      refine ⟨hfine, fun reply₂ r₂ hexec₂ => ?_⟩
      -- a call has one outcome
      obtain ⟨rfl, rfl⟩ : reply = reply₁ ∧ r' = r₁ := by
        cases hstep.1.symm.trans hexec
        exact ⟨rfl, rfl⟩
      obtain ⟨rfl, rfl⟩ : reply = reply₂ ∧ r' = r₂ := by
        cases hexec.symm.trans hexec₂
        exact ⟨rfl, rfl⟩
      exact (ih hinv (hrest _ _ hexec)).1 hconforms
    · rintro ⟨hfine, hthrough⟩
      obtain ⟨reply, r', hexec, hallowed, hinv⟩ := stepOk_of_fine hsrc h hcall hfine
      exact ⟨reply, r', ⟨hexec, hallowed, hinv.shows⟩,
        (ih hinv (hrest _ _ hexec)).2 (hthrough _ _ hexec)⟩

lemma inv_init (buf : Memory) (size : ℤ) {start maxLen : ℕ} (hsize : bytes.length < 2 ^ 63)
    (hinside : start + maxLen ≤ bytes.length) :
    Inv bytes start ((Reader.init buf start maxLen).setBufferSize size)
      (init bytes start maxLen) := by
  have hsource : (init bytes start maxLen).source = (bytes.drop start).take maxLen := by
    unfold init
    rw [if_pos (by omega)]
  have hlength : (init bytes start maxLen).source.length = maxLen := by
    rw [hsource, length_take, length_drop]
    omega
  have hlimit : i64 ((start : ℤ) + maxLen) = start + maxLen := i64_eq (by omega) (by omega)
  unfold Reader.init Reader.setBufferSize
  rw [hlimit]
  refine {
    size := hsize
    start := rfl
    limit := by rw [hlength]
    inside := by show (start : ℤ) + maxLen ≤ bytes.length; omega
    source := by rw [hlength, hsource]; rfl
    bufSize_ge := by show (8 : ℤ) ≤ min (max size 1024) 65536; omega
    bufSize_le := by show min (max size 1024) 65536 ≤ (65536 : ℤ); omega
    slimit := rfl
    ends := rfl
    within := by rw [hlength]; exact Nat.le_refl maxLen
    pos_nonneg := Int.le_refl 0
    pos_le := Int.le_refl 0
    nbuf_le := by show (0 : ℤ) ≤ min (max size 1024) 65536; omega
    off := (add_zero _).symm
    off_lt := by show (start : ℤ) < 2 ^ 63; omega
    off_le := fun hlt => absurd hlt (lt_irrefl 0)
    data := rfl
    nlim := .inl ⟨Nat.zero_le _, ?_⟩ }
  show (0 : ℤ) = 0 - max 0 ((start : ℤ) - (start + maxLen))
  omega

/-- In every run, the reader is like an unbuffered cursor just when every call is fine. -/
theorem reader_conforms_iff (hsrc : Obeys bytes src) (hsize : bytes.length < 2 ^ 63)
    {start maxLen : ℕ} (hinside : start + maxLen ≤ bytes.length) (buf : Memory) (size : ℤ)
    (calls : List Call)
    (hnested : Throughout src Nested ((Reader.init buf start maxLen).setBufferSize size) calls) :
    Conforms src ((Reader.init buf start maxLen).setBufferSize size)
        (init bytes start maxLen) calls ↔
      Throughout src Fine ((Reader.init buf start maxLen).setBufferSize size) calls :=
  conforms_iff_of_inv hsrc (inv_init buf size hsize hinside) hnested

def arrayReadAt (bytes : List Byte) : ReadAt := fun off n =>
  .ok ((bytes.drop off.toNat).take n, if (bytes.length : ℤ) < off + n then some .eof else none)

lemma obeys_arrayReadAt (bytes : List Byte) : Obeys bytes (arrayReadAt bytes) where
  inside off n h := by
    unfold arrayReadAt
    rw [if_neg (by omega)]
    rfl
  atEnd off n h := by
    unfold arrayReadAt
    rw [if_neg (by omega)]
    exact ⟨none, .inl rfl, rfl⟩
  beyond off n h := by
    unfold arrayReadAt
    rw [if_pos (by omega)]
    exact ⟨.eof, rfl⟩

/-- A section of two bytes is entered, read in part and left. -/
theorem reader_conforms_section :
    Conforms (arrayReadAt [1, 2, 3, 0]) ((Reader.init (fun _ => 0) 0 4).setBufferSize 0)
        (init [1, 2, 3, 0] 0 4) [.startSection 2, .readByte, .endSection] ↔
      Throughout (arrayReadAt [1, 2, 3, 0]) Fine ((Reader.init (fun _ => 0) 0 4).setBufferSize 0)
        [.startSection 2, .readByte, .endSection] := by
  refine reader_conforms_iff (obeys_arrayReadAt _) (by decide) (show 0 + 4 ≤ _ by decide)
    (fun _ => 0) 0 _ ⟨nofun, fun reply r hstart => ⟨nofun, fun reply' r' hread => ?_⟩⟩
  cases hstart
  cases hread
  exact ⟨fun _ => nofun, fun _ _ _ => trivial⟩

/-- A large read in an empty section reports no end. -/
theorem reader_empty_section :
    ¬Conforms (arrayReadAt [7]) ((Reader.init (fun _ => 0) 0 1).setBufferSize 0)
      (init [7] 0 1) [.startSection 0, .read 1024] := by
  rintro ⟨reply, r, ⟨hstart, -⟩, reply', r', ⟨hread, hallowed, -⟩, -⟩
  cases hstart
  cases hread
  exact absurd (hallowed.2.2 (by decide) (by decide)) (by decide)

end EbpfProfiler.PfBufio
