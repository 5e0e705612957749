import EbpfProfiler.PfBufio.Calls

/-!
# ReadSlice and SearchSlice

`SearchSlice` drops what cannot start a match; the matches in the rest are shifted.
-/

namespace EbpfProfiler.PfBufio

open Lib List Comp Nat

variable {delim : Byte} {bs pattern : List Byte} {fuel i k n : ℕ}

variable {bytes : List Byte} {base : ℕ} {src : ReadAt} {r r' : Reader} {c : Cursor}

lemma rest_eq_append (c : Cursor) (h : n ≤ c.available) :
    rest c = c.ahead n ++ rest (skip c n) := by
  unfold rest
  rw [available_skip, ← ahead_add, Nat.add_sub_cancel' h]

lemma length_rest (c : Cursor) : (rest c).length = c.available := length_ahead (Nat.le_refl _)

/-! ## ReadSlice -/

lemma idxOf?_rest_of_some (h : n ≤ c.available) (hidx : (c.ahead n).idxOf? delim = some i) :
    (rest c).idxOf? delim = some i ∧ i < n ∧ (rest c).take i = (c.ahead n).take i := by
  obtain ⟨hlt, -⟩ := findIdx?_eq_some_iff_getElem.1 hidx
  rw [length_ahead h] at hlt
  refine ⟨?_, hlt, ?_⟩
  · rw [rest_eq_append c h, idxOf?, findIdx?_append]
    exact congrArg (fun o : Option ℕ => o.or _) hidx
  · rw [rest_eq_append c h, take_append_of_le_length (by rw [length_ahead h]; omega)]

lemma idxOf?_rest_of_none (h : n ≤ c.available) (hidx : (c.ahead n).idxOf? delim = none)
    (hlt : n < c.available) : n < sliceLength c delim := by
  have hrest : (rest c).idxOf? delim =
      ((rest (skip c n)).idxOf? delim).map fun i => i + (c.ahead n).length := by
    rw [rest_eq_append c h, idxOf?, findIdx?_append]
    exact congrArg (fun o : Option ℕ => o.or _) hidx
  unfold sliceLength
  rw [hrest]
  cases (rest (skip c n)).idxOf? delim with
  | none => exact hlt
  | some i =>
    show n < i + (c.ahead n).length + 1
    rw [length_ahead h]
    omega

/-- `ReadSlice`: the bytes to the delimiter, all that remain, or a full buffer. -/
def SliceOutcome (bufSize : ℕ) (c : Cursor) (delim : Byte) (reply : List Byte × Option ReadErr)
    (c' : Cursor) : Prop :=
  (∃ i, (rest c).idxOf? delim = some i ∧ reply = ((rest c).take i, none) ∧ c' = skip c (i + 1)) ∨
    ((rest c).idxOf? delim = none ∧ reply = (rest c, some .eof) ∧ c' = skip c c.available) ∨
    (bufSize < sliceLength c delim ∧ reply = (c.ahead bufSize, some .bufferTooSmall) ∧
      c' = skip c bufSize)

lemma readSliceLoop_found (h : Inv bytes base r c) (hn : r.nlim = r.pos + n)
    (hidx : (c.ahead n).idxOf? delim = some i) :
    ∃ reply r' c', (readSliceLoop src delim (fuel + 1)).exec r = (.ok reply, r') ∧
      SliceOutcome r.bufSize.toNat c delim reply c' ∧ Inv bytes base r' c' := by
  have hnum := h.numbers
  obtain ⟨hrest, hlt, htake⟩ := idxOf?_rest_of_some (by omega) hidx
  refine ⟨((c.ahead n).take i, none), { r with pos := r.pos + ((i : ℤ) + 1) }, skip c (i + 1), ?_,
    .inl ⟨i, hrest, by rw [htake], rfl⟩, ?_⟩
  · unfold readSliceLoop
    rw [exec_get_bind, hn, exec_bind_of_ok (h.exec_bufSlice (by omega)), hidx]
    rfl
  · have hinv := h.advance (k := i + 1) (by omega)
    rwa [cast_add] at hinv

/-- The last turn: no `fill` can follow. -/
lemma readSliceLoop_last (h : Inv bytes base r c) (hfine : r.pos ≤ r.nlim)
    (hlast : r.slimit ≤ r.off ∨ r.pos = 0 ∧ r.nbuf = r.bufSize) :
    ∃ reply r' c', (readSliceLoop src delim (fuel + 1)).exec r = (.ok reply, r') ∧
      SliceOutcome r.bufSize.toNat c delim reply c' ∧ Inv bytes base r' c' := by
  obtain ⟨n, hn⟩ : ∃ n : ℕ, r.nlim = r.pos + n := ⟨(r.nlim - r.pos).toNat, by omega⟩
  have hnum := h.numbers
  have hslice := h.exec_bufSlice (n := n) (by omega)
  have hadvance := h.advance (k := n) (by omega)
  rw [← hn] at hslice hadvance
  cases hidx : (c.ahead n).idxOf? delim with
  | some i => exact readSliceLoop_found h hn hidx
  | none =>
    by_cases hend : r.slimit ≤ r.off
    · -- all that remains is buffered
      have hall : n = c.available := by omega
      refine ⟨(c.ahead n, some .eof), { r with pos := r.nlim }, skip c n, ?_, ?_, hadvance⟩
      · unfold readSliceLoop
        rw [exec_get_bind, exec_bind_of_ok hslice, hidx]
        rw [if_pos hend]
        rfl
      · rw [hall] at hidx ⊢
        exact .inr (.inl ⟨hidx, rfl, rfl⟩)
    · -- the buffer is full
      obtain ⟨hpos, hfull⟩ := hlast.resolve_left hend
      have hsize : r.bufSize.toNat = n := by omega
      refine ⟨(c.ahead n, some .bufferTooSmall), { r with pos := r.nlim }, skip c n,
        ?_, ?_, hadvance⟩
      · unfold readSliceLoop
        rw [exec_get_bind, exec_bind_of_ok hslice, hidx]
        rw [if_neg hend, if_pos (.inr ⟨hpos, hfull⟩)]
        rfl
      · rw [hsize]
        exact .inr (.inr ⟨idxOf?_rest_of_none (by omega) hidx (by omega), rfl, rfl⟩)

lemma readSlice_spec (hsrc : Obeys bytes src) (h : Inv bytes base r c) (hfine : r.pos ≤ r.nlim) :
    ∃ reply r' c', (readSlice src delim).exec r = (.ok reply, r') ∧
      SliceOutcome r.bufSize.toNat c delim reply c' ∧ Inv bytes base r' c' := by
  unfold readSlice
  by_cases hlast : r.slimit ≤ r.off ∨ r.pos = 0 ∧ r.nbuf = r.bufSize
  · exact readSliceLoop_last h hfine hlast
  obtain ⟨n, hn⟩ : ∃ n : ℕ, r.nlim = r.pos + n := ⟨(r.nlim - r.pos).toNat, by omega⟩
  cases hidx : (c.ahead n).idxOf? delim with
  | some i => exact readSliceLoop_found h hn hidx
  | none =>
    have hnum := h.numbers
    obtain ⟨hle, hnlim⟩ := h.off_lt_slimit (by omega)
    obtain ⟨r₁, hfill, hinv, hfilled⟩ := fill_ok hsrc h (by omega) (by omega)
    have hbuffered := hfilled.buffered hinv hle
    have hsame := hfilled.same
    have hnbuf₁ := hfilled.nbuf
    have hnum₁ := hinv.numbers
    have hturn : (readSliceLoop src delim 2).exec r = (readSliceLoop src delim 1).exec r₁ := by
      rw [readSliceLoop, exec_get_bind, hn, exec_bind_of_ok (h.exec_bufSlice (by omega)), hidx]
      rw [if_neg (by omega), if_neg (by omega), exec_bind_of_ok hfill]
    rw [hturn, ← hsame.bufSize]
    exact readSliceLoop_last hinv (by omega) (by rw [hsame.bufSize]; omega)

/-! ## SearchSlice -/

lemma indexOf_eq_some_iff : indexOf pattern bs = some i ↔
      pattern <+: bs.drop i ∧ i ≤ bs.length ∧ ∀ j < i, ¬pattern <+: bs.drop j := by
  unfold indexOf
  rw [find?_range_eq_some]
  simp only [mem_range, isPrefixOf_iff_prefix, Nat.lt_succ_iff, Bool.not_eq_true',
    Bool.eq_false_iff, ne_eq]

lemma indexOf_eq_none_iff (hpattern : pattern ≠ []) :
    indexOf pattern bs = none ↔ ∀ i, ¬pattern <+: bs.drop i := by
  unfold indexOf
  rw [find?_range_eq_none]
  simp only [Bool.not_eq_true', isPrefixOf_iff_prefix, Bool.eq_false_iff, ne_eq]
  refine ⟨fun h i hpre => ?_, fun h i _ => h i⟩
  by_cases hi : i < bs.length + 1
  · exact h i hi hpre
  · rw [drop_eq_nil_of_le (by omega)] at hpre
    exact hpattern (prefix_nil.1 hpre)

lemma add_length_le_of_occurs (hpattern : pattern ≠ []) (h : pattern <+: bs.drop i) :
    i + pattern.length ≤ bs.length := by
  have hle := h.length_le
  have hpos := length_pos_iff.2 hpattern
  rw [length_drop] at hle
  omega

lemma occurs_append_iff {as : List Byte} (h : i + pattern.length ≤ as.length) :
    pattern <+: (as ++ bs).drop i ↔ pattern <+: as.drop i := by
  rw [drop_append_of_le_length (by omega)]
  refine ⟨fun hpre => ?_, fun hpre => hpre.trans (prefix_append _ _)⟩
  exact prefix_of_prefix_length_le hpre (prefix_append _ _)
    (by rw [length_drop]; omega)

lemma indexOf_append_of_some {as : List Byte} (hpattern : pattern ≠ [])
    (h : indexOf pattern as = some i) : indexOf pattern (as ++ bs) = some i := by
  obtain ⟨hpre, hle, hfirst⟩ := indexOf_eq_some_iff.1 h
  have hroom := add_length_le_of_occurs hpattern hpre
  refine indexOf_eq_some_iff.2 ⟨(occurs_append_iff hroom).2 hpre, ?_, ?_⟩
  · rw [length_append]
    omega
  · intro j hj
    rw [occurs_append_iff (by omega)]
    exact hfirst j hj

lemma indexOf_drop (hpattern : pattern ≠ []) (hk : k ≤ bs.length)
    (hno : ∀ j < k, ¬pattern <+: bs.drop j) :
    indexOf pattern bs = (indexOf pattern (bs.drop k)).map fun i => k + i := by
  cases hidx : indexOf pattern (bs.drop k) with
  | none =>
    rw [indexOf_eq_none_iff hpattern] at hidx
    refine (indexOf_eq_none_iff hpattern).2 fun i hpre => ?_
    rcases Nat.lt_or_ge i k with hlt | hge
    · exact hno i hlt hpre
    · have hdrop := hidx (i - k)
      rw [drop_drop, Nat.add_sub_cancel' hge] at hdrop
      exact hdrop hpre
  | some i =>
    obtain ⟨hpre, hle, hfirst⟩ := indexOf_eq_some_iff.1 hidx
    rw [drop_drop] at hpre
    rw [length_drop] at hle
    rw [Option.map_some, indexOf_eq_some_iff]
    refine ⟨hpre, by omega, fun j hj hpre => ?_⟩
    rcases Nat.lt_or_ge j k with hlt | hge
    · exact hno j hlt hpre
    · refine hfirst (j - k) (by omega) ?_
      rwa [drop_drop, Nat.add_sub_cancel' hge]

lemma drop_rest (c : Cursor) (hk : k ≤ c.available) : (rest c).drop k = rest (skip c k) := by
  rw [rest_eq_append c hk, drop_left' (length_ahead hk)]

/-- The outcomes of `SearchSlice`. -/
def SearchOutcome (c : Cursor) (pattern : List Byte) (reply : ℤ × Option ReadErr) (c' : Cursor) :
    Prop :=
  (∃ i, indexOf pattern (rest c) = some i ∧ reply = (((c.pos + i : ℕ) : ℤ), none) ∧
      c' = skip c (i + pattern.length)) ∨
    (indexOf pattern (rest c) = none ∧ reply = (-1, some .eof) ∧ c' = skip c c.available)

lemma SearchOutcome.of_skip {reply : ℤ × Option ReadErr} {c' : Cursor} (hpattern : pattern ≠ [])
    (hk : k ≤ c.available) (hno : ∀ j < k, ¬pattern <+: (rest c).drop j)
    (h : SearchOutcome (skip c k) pattern reply c') : SearchOutcome c pattern reply c' := by
  have hindex := indexOf_drop hpattern (by rwa [length_rest]) hno
  rw [drop_rest c hk] at hindex
  rcases h with ⟨i, hidx, rfl, rfl⟩ | ⟨hidx, rfl, rfl⟩
  · refine .inl ⟨k + i, by rw [hindex, hidx]; rfl, ?_, ?_⟩
    · rw [show (skip c k).pos = c.pos + k from rfl, Nat.add_assoc]
    · rw [skip_skip, Nat.add_assoc]
  · refine .inr ⟨by rw [hindex, hidx]; rfl, rfl, ?_⟩
    rw [skip_skip, available_skip, Nat.add_sub_cancel' hk]

/-- The search in the buffer and then behind it; each `fill` gets nearer to the end. -/
lemma searchLoop_spec (hsrc : Obeys bytes src) (hpattern : pattern ≠ []) (h : Inv bytes base r c)
    (hfine : r.pos ≤ r.nlim)
    (hfit : (pattern.length : ℤ) ≤ r.bufSize ∨ (c.available : ℤ) ≤ r.bufSize)
    (hfuel : (r.slimit - r.off).toNat < fuel) :
    ∃ reply r' c', (searchLoop src pattern fuel).exec r = (.ok reply, r') ∧
      SearchOutcome c pattern reply c' ∧ Inv bytes base r' c' := by
  induction fuel generalizing r c with
  | zero => omega
  | succ fuel ih =>
    obtain ⟨n, hn⟩ : ∃ n : ℕ, r.nlim = r.pos + n := ⟨(r.nlim - r.pos).toNat, by omega⟩
    have hnum := h.numbers
    have hle : n ≤ c.available := by omega
    have hlength := length_pos_iff.2 hpattern
    have hslice := h.exec_bufSlice (n := n) (by omega)
    rw [← hn] at hslice
    unfold searchLoop
    rw [exec_get_bind, exec_bind_of_ok hslice]
    cases hidx : indexOf pattern (c.ahead n) with
    | some i =>
      obtain ⟨hpre, -, -⟩ := indexOf_eq_some_iff.1 hidx
      have hroom := add_length_le_of_occurs hpattern hpre
      rw [length_ahead hle] at hroom
      have hinv := h.advance (k := i + pattern.length) (by omega)
      rw [cast_add] at hinv
      have havail := h.available_eq
      have htell : i64 (r.tell + i) = (c.pos + i : ℕ) := by
        rw [h.shows.1, i64_eq (by omega) (by omega), cast_add]
      refine ⟨(((c.pos + i : ℕ) : ℤ), none), _, _, ?_, .inl ⟨i, ?_, rfl, rfl⟩, hinv⟩
      · rw [← htell]
        rfl
      · rw [rest_eq_append c hle]
        exact indexOf_append_of_some hpattern hidx
    | none =>
      -- all but the last bytes of the buffer are dropped
      obtain ⟨kept, hkept⟩ : ∃ kept : ℕ, min n (pattern.length - 1) = kept := ⟨_, rfl⟩
      have hinv := h.advance (k := n - kept) (by omega)
      have hpos₁ : r.nlim - min (r.nlim - r.pos) ((pattern.length : ℤ) - 1) =
          r.pos + ((n - kept : ℕ) : ℤ) := by omega
      have hno : ∀ j < n - kept, ¬pattern <+: (rest c).drop j := by
        intro j hj hpre
        rw [rest_eq_append c hle, occurs_append_iff (by rw [length_ahead hle]; omega)] at hpre
        exact (indexOf_eq_none_iff hpattern).1 hidx j hpre
      have havail := available_skip c (n - kept)
      rw [hpos₁, exec_set_bind]
      by_cases hend : r.slimit ≤ r.off
      · -- the section has no more
        have hall : n = c.available := by omega
        have hinv' := h.advance (k := n) (by omega)
        rw [← hn, hall] at hinv'
        refine ⟨(-1, some .eof), _, _, ?_, .inr ⟨?_, rfl, rfl⟩, hinv'⟩
        · have heof : (fill src).exec { r with pos := r.pos + ((n - kept : ℕ) : ℤ) } =
              (.ok (some .eof), _) := fill_eof (.inl hend)
          rw [exec_bind_of_ok heof]
          rfl
        · rwa [hall] at hidx
      · have hroom : r.nbuf - (r.pos + ((n - kept : ℕ) : ℤ)) < r.bufSize := by omega
        obtain ⟨r₂, hfill, hinv₂, hfilled⟩ :=
          fill_ok hsrc hinv (show r.off < r.slimit by omega) hroom
        obtain ⟨hfine₂, hcloser⟩ := hfilled.closer hinv hinv₂ (show r.off < r.slimit by omega) hroom
        have hbufSize : r₂.bufSize = r.bufSize := hfilled.same.bufSize
        have hslimit₂ : r₂.slimit = r.slimit := hfilled.same.slimit
        change r.off < r₂.off at hcloser
        obtain ⟨reply, r', c', hexec, hout, hinv'⟩ := ih hinv₂ hfine₂ (by omega) (by omega)
        refine ⟨reply, r', c', ?_, hout.of_skip hpattern (by omega) hno, hinv'⟩
        rw [exec_bind_of_ok hfill]
        exact hexec

lemma searchSlice_spec (hsrc : Obeys bytes src) (h : Inv bytes base r c) (hpattern : pattern ≠ [])
    (hfine : Fine r (.searchSlice pattern)) :
    ∃ reply r' c', (searchSlice src pattern).exec r = (.ok reply, r') ∧
      SearchOutcome c pattern reply c' ∧ Inv bytes base r' c' := by
  obtain ⟨hpos, hfit⟩ := hfine.resolve_left hpattern
  have hlength := length_pos_iff.2 hpattern
  have hnum := h.numbers
  rw [h.shows.2] at hfit
  unfold searchSlice
  rw [exec_get_bind, if_neg (by omega)]
  exact searchLoop_spec hsrc hpattern h hpos (by omega) (lt_succ_self _)

end EbpfProfiler.PfBufio
