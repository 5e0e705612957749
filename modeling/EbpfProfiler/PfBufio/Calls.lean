import EbpfProfiler.PfBufio.Invariant

/-!
# What the calls do

One lemma for each call: what it delivers, and where the cursor is then.
-/

namespace EbpfProfiler.PfBufio

open Lib List Comp Cursor Nat

variable {bytes : List Byte} {base : ℕ} {src : ReadAt} {r r' : Reader} {c : Cursor}

/-! ## What is buffered -/

lemma skip_skip (c : Cursor) (m n : ℕ) : skip (skip c m) n = skip c (m + n) := by
  unfold skip
  rw [add_assoc]

lemma available_skip (c : Cursor) (n : ℕ) : (skip c n).available = c.available - n := by
  unfold skip available
  dsimp only
  omega

variable {n : ℕ}

lemma length_ahead (h : n ≤ c.available) : (c.ahead n).length = n := by
  unfold available at h
  rw [ahead, length_take, length_drop]
  omega

lemma ahead_add (c : Cursor) (m n : ℕ) : c.ahead (m + n) = c.ahead m ++ (skip c m).ahead n := by
  unfold ahead skip
  rw [take_add, drop_drop]

lemma take_ahead {m : ℕ} (c : Cursor) (h : m ≤ n) : (c.ahead n).take m = c.ahead m := by
  rw [ahead, ahead, take_take, min_eq_left h]

lemma Inv.missing_iff (h : Inv bytes base r c) : max 0 (r.nlim - r.pos) ≤ c.available ∧
      (r.off < r.slimit ↔ max 0 (r.nlim - r.pos) < c.available) := by
  have hnum := h.numbers
  obtain ⟨hcpos, hnlim⟩ | ⟨hcpos, hpos, hnbuf, hnlim⟩ := h.nlim <;> omega

lemma Inv.eof (h : Inv bytes base r c) (hall : (c.available : ℤ) ≤ max 0 (r.nlim - r.pos)) :
    (fill src).exec r = (.ok (some .eof), r) := by
  have hnum := h.numbers
  exact fill_eof (.inl (by omega))

lemma Filled.buffered (hfilled : Filled r c r') (h : Inv bytes base r' c) (hle : c.pos ≤ c.slimit) :
    r'.nlim - r'.pos = min r.bufSize c.available := by
  have hnbuf := hfilled.nbuf
  have hpos := hfilled.pos
  have hnum := h.numbers
  omega

lemma Filled.closer (hfilled : Filled r c r') (h : Inv bytes base r c) (h' : Inv bytes base r' c)
    (hlt : r.off < r.slimit) (hroom : r.nbuf - r.pos < r.bufSize) : r'.pos ≤ r'.nlim ∧
    r.off < r'.off := by
  have hle := (h.off_lt_slimit hlt).1
  have hbuffered := hfilled.buffered h' hle
  have hnum := h.numbers
  have hnbuf := hfilled.nbuf
  have hpos := hfilled.pos
  have hstart := hfilled.same.start
  have hoff' := h'.off
  omega

lemma Inv.fill (hsrc : Obeys bytes src) (h : Inv bytes base r c)
    (hmissing : max 0 (r.nlim - r.pos) < c.available) (hroom : r.nlim - r.pos < r.bufSize) :
    ∃ r', (fill src).exec r = (.ok none, r') ∧ Inv bytes base r' c ∧ Filled r c r' ∧
      r'.nlim - r'.pos = min r.bufSize c.available := by
  have hoff := h.missing_iff.2.2 hmissing
  obtain ⟨hle, hnlim⟩ := h.off_lt_slimit hoff
  obtain ⟨r', hexec, hinv, hfilled⟩ := fill_ok hsrc h hoff (by omega)
  exact ⟨r', hexec, hinv, hfilled, hfilled.buffered hinv hle⟩

/-! ## Bytes and slices -/

lemma takeByte_ok (h : Inv bytes base r c) (hone : 1 ≤ r.nlim - r.pos) : ∃ b, c.ahead 1 = [b] ∧
      takeByte.exec r = (.ok (b, none), { r with pos := r.pos + 1 }) := by
  have hnum := h.numbers
  refine ⟨r.buf r.pos.toNat, ?_, ?_⟩
  · rw [← h.ahead (k := 1) (by omega)]
    rfl
  · unfold takeByte
    rw [exec_get_bind, if_pos (by rw [maxBufferSize_eq]; omega)]
    rfl

/-- `ReadByte` delivers the next byte, or reports the end. -/
lemma readByte_spec (hsrc : Obeys bytes src) (h : Inv bytes base r c) :
    (0 < c.available ∧ ∃ b r', c.ahead 1 = [b] ∧
      (readByte src).exec r = (.ok (b, none), r') ∧ Inv bytes base r' (skip c 1)) ∨
    c.available = 0 ∧ (readByte src).exec r = (.ok (0, some .eof), r) := by
  have hnum := h.numbers
  unfold readByte
  rw [exec_get_bind]
  by_cases hempty : r.nlim ≤ r.pos
  · rw [if_pos hempty]
    rcases Nat.eq_zero_or_pos c.available with hzero | hpos
    · refine .inr ⟨hzero, ?_⟩
      rw [exec_bind_of_ok (h.eof (by omega))]
      rfl
    · obtain ⟨r', hfill, hinv, -, hbuffered⟩ := h.fill hsrc (by omega) (by omega)
      obtain ⟨b, hb, htake⟩ := takeByte_ok hinv (by omega)
      refine .inl ⟨hpos, b, _, hb, ?_, hinv.advance (k := 1) (by omega)⟩
      rw [exec_bind_of_ok hfill]
      exact htake
  · rw [if_neg hempty]
    obtain ⟨b, hb, htake⟩ := takeByte_ok h (by omega)
    exact .inl ⟨by omega, b, _, hb, htake, h.advance (k := 1) (by omega)⟩

lemma Inv.exec_bufSlice (h : Inv bytes base r c) (hn : (n : ℤ) ≤ r.nlim - r.pos) :
    (bufSlice r.pos (r.pos + n)).exec r = (.ok (c.ahead n), r) := by
  have hnum := h.numbers
  rw [PfBufio.exec_bufSlice (by omega), show (r.pos + n - r.pos).toNat = n by omega,
    h.ahead (by omega)]

/-- The outcome of a request for `n` bytes. -/
def PeekOutcome (bufSize : ℤ) (c : Cursor) (n : ℕ) (r' : Reader)
    (res : Except ReadErr (List Byte)) : Prop :=
  (n ≤ c.available ∧ res = .ok (c.ahead n) ∧ (n : ℤ) ≤ r'.nlim - r'.pos) ∨
    (c.available < n ∧ res = .error .eof) ∨ (bufSize < n ∧ res = .error .bufferTooSmall)

section
variable (hsrc : Obeys bytes src)
include hsrc

section
variable (h : Inv bytes base r c)
include h

lemma peek_spec (hfine : n = 0 → r.pos ≤ r.nlim) :
    ∃ res r', (peek src n).exec r = (.ok res, r') ∧ Inv bytes base r' c ∧
      PeekOutcome r.bufSize c n r' res := by
  have hnum := h.numbers
  unfold peek
  rw [exec_get_bind]
  by_cases hlarge : r.bufSize < n
  · rw [if_pos hlarge]
    exact ⟨_, r, rfl, h, .inr (.inr ⟨hlarge, rfl⟩)⟩
  rw [if_neg hlarge]
  by_cases hshort : r.nlim - r.pos < n
  · rw [if_pos hshort]
    by_cases hmore : max 0 (r.nlim - r.pos) < c.available
    · obtain ⟨r', hfill, hinv, -, hbuffered⟩ := h.fill hsrc hmore (by omega)
      rw [exec_bind_of_ok hfill]
      rw [exec_bind_of_ok (exec_get r')]
      by_cases hn : n ≤ c.available
      · rw [if_neg (by omega), exec_bind_of_ok (hinv.exec_bufSlice (by omega))]
        exact ⟨_, r', rfl, hinv, .inl ⟨hn, rfl, by omega⟩⟩
      · rw [if_pos (by omega)]
        exact ⟨_, r', rfl, hinv, .inr (.inl ⟨by omega, rfl⟩)⟩
    · rw [exec_bind_of_ok (h.eof (by omega))]
      exact ⟨_, r, rfl, h, .inr (.inl ⟨by omega, rfl⟩)⟩
  · rw [if_neg hshort, exec_bind_of_ok (h.exec_bufSlice (by omega))]
    exact ⟨_, r, rfl, h, .inl ⟨by omega, rfl, by omega⟩⟩

lemma readN_spec (hfine : n = 0 → r.pos ≤ r.nlim) : ∃ res r', (readN src n).exec r = (.ok res, r') ∧
      ((n ≤ c.available ∧ res = .ok (c.ahead n) ∧ Inv bytes base r' (skip c n)) ∨
        (c.available < n ∧ res = .error .eof ∧ Inv bytes base r' c) ∨
        (r.bufSize < n ∧ res = .error .bufferTooSmall ∧ Inv bytes base r' c)) := by
  obtain ⟨res, r', hpeek, hinv, hres⟩ := peek_spec hsrc h hfine
  unfold readN
  rw [exec_bind_of_ok hpeek]
  rcases hres with ⟨hn, rfl, hbuffered⟩ | ⟨hn, rfl⟩ | ⟨hn, rfl⟩
  · exact ⟨_, _, rfl, .inl ⟨hn, rfl, hinv.advance hbuffered⟩⟩
  · exact ⟨_, r', rfl, .inr (.inl ⟨hn, rfl, hinv⟩)⟩
  · exact ⟨_, r', rfl, .inr (.inr ⟨hn, rfl, hinv⟩)⟩

lemma uintN_spec (hpos : 0 < n) (hn : n ≤ 8) :
    ∃ r', (uintN n src).exec r = (.ok (numberAt c n), r') ∧
      Inv bytes base r' (afterNumber c n) := by
  have hnum := h.numbers
  obtain ⟨res, r', hread, hres⟩ := readN_spec hsrc h (n := n) (by omega)
  refine ⟨r', ?_⟩
  unfold uintN numberAt afterNumber
  rw [exec_bind_of_ok hread]
  rcases hres with ⟨hle, rfl, hinv⟩ | ⟨hlt, rfl, hinv⟩ | ⟨hlarge, -⟩
  · rw [if_pos hle, if_pos hle]
    exact ⟨rfl, hinv⟩
  · rw [if_neg (by omega), if_neg (by omega)]
    exact ⟨rfl, hinv⟩
  · omega

lemma uint8_spec :
    ∃ r', (uint8 src).exec r = (.ok (numberAt c 1), r') ∧ Inv bytes base r' (afterNumber c 1) := by
  unfold uint8 numberAt afterNumber
  rcases readByte_spec hsrc h with ⟨hpos, b, r', hb, hread, hinv⟩ | ⟨hzero, hread⟩
  · refine ⟨r', ?_, ?_⟩
    · rw [exec_bind_of_ok hread, if_pos (by omega), hb]
      rfl
    · rw [if_pos (by omega)]
      exact hinv
  · refine ⟨r, ?_, ?_⟩
    · rw [exec_bind_of_ok hread, if_neg (by omega)]
      rfl
    · rw [if_neg (by omega)]
      exact h

end

end

/-! ## Discard -/

lemma discardBuffered_ok (h : Inv bytes base r c) {d : ℕ} (hd : d < n) (hsome : r.pos < r.nlim) :
    ∃ k r', 0 < k ∧ d + k ≤ n ∧ k ≤ c.available ∧
      (discardBuffered n d).exec r = (.ok ((d + k : ℕ) : ℤ), r') ∧
      Inv bytes base r' (skip c k) := by
  have hnum := h.numbers
  obtain ⟨k, hk⟩ : ∃ k : ℕ, min (r.nlim - r.pos) ((n : ℤ) - d) = k :=
    ⟨(min (r.nlim - r.pos) ((n : ℤ) - d)).toNat, by omega⟩
  refine ⟨k, { r with pos := r.pos + k }, by omega, by omega, by omega, ?_, h.advance (by omega)⟩
  unfold discardBuffered
  rw [exec_get_bind, hk]
  rfl

lemma discardLoop_spec (hsrc : Obeys bytes src) {fuel d : ℕ} (h : Inv bytes base r c) (hd : d ≤ n)
    (hfuel : n - d < fuel) : ∃ r', (discardLoop src n fuel d).exec r =
        (.ok (((d + min (n - d) c.available : ℕ) : ℤ),
          if n - d ≤ c.available then none else some .eof), r') ∧
      Inv bytes base r' (skip c (min (n - d) c.available)) := by
  induction fuel generalizing r c d with
  | zero => omega
  | succ fuel ih =>
    unfold discardLoop
    by_cases hdone : d = n
    · subst hdone
      rw [if_neg (by omega), Nat.sub_self]
      exact ⟨r, rfl, h⟩
    have hnum := h.numbers
    rw [if_pos (by omega), exec_get_bind]
    -- a turn with bytes in the buffer, before or after a fill
    have hturn {r₁ : Reader} (h₁ : Inv bytes base r₁ c) (hsome : r₁.pos < r₁.nlim) :
        ∃ r', (discardBuffered n d >>= fun k => discardLoop src n fuel k).exec r₁ =
            (.ok (((d + min (n - d) c.available : ℕ) : ℤ),
              if n - d ≤ c.available then none else some .eof), r') ∧
          Inv bytes base r' (skip c (min (n - d) c.available)) := by
      obtain ⟨k, r₂, hk, hkn, hka, hexec, hinv⟩ := discardBuffered_ok h₁ (by omega : d < n) hsome
      obtain ⟨r', hrest, hinv'⟩ := ih hinv (d := d + k) hkn (by omega)
      have havail := available_skip c k
      have hcount : min (n - (d + k)) (skip c k).available = min (n - d) c.available - k := by omega
      rw [hcount] at hrest hinv'
      refine ⟨r', ?_, ?_⟩
      · rw [exec_bind_of_ok hexec, hrest,
          show d + k + (min (n - d) c.available - k) = d + min (n - d) c.available by omega]
        congr 3
        exact if_congr (by omega) rfl rfl
      · rwa [skip_skip, show k + (min (n - d) c.available - k) = min (n - d) c.available by omega]
          at hinv'
    by_cases hempty : r.nlim ≤ r.pos
    · rw [if_pos hempty]
      rcases Nat.eq_zero_or_pos c.available with hzero | hpos
      · rw [exec_bind_of_ok (h.eof (by omega)), hzero, Nat.min_zero, if_neg (by omega)]
        exact ⟨r, rfl, h⟩
      · obtain ⟨r₁, hfill, hinv, -, hbuffered⟩ := h.fill hsrc (by omega) (by omega)
        rw [exec_bind_of_ok hfill]
        exact hturn hinv (by omega)
    · rw [if_neg hempty]
      exact hturn h (by omega)

lemma discard_spec (hsrc : Obeys bytes src) (h : Inv bytes base r c) (n : ℕ) :
    ∃ r', (discard src n).exec r =
        (.ok (((min n c.available : ℕ) : ℤ), if n ≤ c.available then none else some .eof), r') ∧
      Inv bytes base r' (skip c (min n c.available)) := by
  obtain ⟨r', hexec, hinv⟩ := discardLoop_spec hsrc h (zero_le n) (lt_succ_self n)
  rw [zero_add] at hexec
  exact ⟨r', hexec, hinv⟩

/-! ## Read -/

lemma readDirect_ok (hsrc : Obeys bytes src) (h : Inv bytes base r c) {len : ℕ} (hn : n ≤ len)
    (hempty : r.pos = r.nbuf) (hle : c.pos ≤ c.slimit) (hlimit : r.off < r.limit) :
    ∃ err r', (readDirect src n len).exec r =
        (.ok (c.ahead (min (len - n) c.available), err), r') ∧
      (err = none ∨ err = some .eof ∧ 0 < c.available ∧ c.available ≤ len - n) ∧
      Inv bytes base r' (skip c (min (len - n) c.available)) := by
  have hnum := h.numbers
  obtain ⟨k, hk⟩ : ∃ k, min (len - n) c.available = k := ⟨_, rfl⟩
  have htoRead : (if r.slimit - r.off < (len : ℤ) - n then r.slimit - r.off else (len : ℤ) - n) =
      k := by
    split <;> omega
  obtain ⟨err, hread, herr⟩ := h.readAt hsrc (n := k) (show r.start ≤ r.off by omega) (by omega)
  have hbytes : (c.source.drop (r.off - r.start).toNat).take k = c.ahead k := by
    rw [ahead, show (r.off - r.start).toNat = c.pos by omega]
  rw [hbytes] at hread
  refine ⟨err, { r with off := r.off + k }, ?_, ?_, ?_⟩
  · unfold readDirect
    rw [exec_get_bind]
    dsimp only
    rw [i64_eq (show -2 ^ 63 ≤ r.slimit - r.off by omega) (by omega), htoRead,
      if_pos (Int.natCast_nonneg k), Int.toNat_natCast, hread, exec_bind_of_ok (exec_lift _ _)]
    rw [length_ahead (by omega), i64_eq (show -2 ^ 63 ≤ r.off + k by omega) (by omega), hk]
    rfl
  · refine herr.imp_right fun he => ⟨he.1, ?_⟩
    omega
  · rw [hk]
    refine { h with off := ?_, off_lt := ?_, off_le := ?_, data := ?_, nlim := ?_ }
    · show r.off + k = r.start + ((c.pos + k : ℕ) : ℤ) + (r.nbuf - r.pos)
      omega
    · show r.off + k < 2 ^ 63
      omega
    · intro hlt
      exact absurd hempty (ne_of_lt hlt)
    · show r.buf.read r.pos.toNat (r.nbuf - r.pos).toNat =
        (skip c k).ahead (r.nbuf - r.pos).toNat
      rw [show (r.nbuf - r.pos).toNat = 0 by omega]
      rfl
    · show c.pos + k ≤ c.slimit ∧ r.nlim = r.nbuf - max 0 (r.off + k - r.slimit) ∨
        c.slimit < c.pos + k ∧ r.pos = 0 ∧ r.nbuf = 0 ∧ r.nlim ≤ 0
      omega

lemma Inv.available_eq_zero (h : Inv bytes base r c) (hempty : ¬r.pos < r.nlim)
    (hend : r.nlim ≠ r.nbuf ∨ r.limit ≤ r.off) : c.available = 0 := by
  have hnum := h.numbers
  rcases h.nlim with hnlim | hnlim <;> omega

lemma Inv.pos_add_le (h : Inv bytes base r c) {k : ℕ} (hk : (k : ℤ) ≤ r.nlim - r.pos)
    (hsome : r.pos < r.nlim) : c.pos + k ≤ c.slimit := by
  have hnum := h.numbers
  rcases h.nlim with hnlim | hnlim <;> omega

/-- The errors that `Read` may report with a number of bytes, when `len` are still wanted. -/
def ReadError (c : Cursor) (len : ℕ) (first : Prop) (err : Option ReadErr) : Prop :=
  (err = none ∨ err = some .eof ∧ 0 < len ∧ c.available ≤ len) ∧
    (first → 0 < len → c.available = 0 → err = some .eof)

/-- The loop delivers the target or all that remains, with direct reads at the end. -/
lemma readLoop_spec (hsrc : Obeys bytes src) {len fuel : ℕ} {p : List Byte} (h : Inv bytes base r c)
    (hp : p.length ≤ len) (hfine : c.pos ≤ c.slimit ∧ 0 < p.length ∨ Fine r (.read len))
    (hfuel : 2 * (len - p.length) + (if r.pos < r.nlim then 1 else 2) ≤ fuel) :
    ∃ err r', (readLoop src len fuel p).exec r =
        (.ok (p ++ c.ahead (min (len - p.length) c.available), err), r') ∧
      ReadError c (len - p.length) (p = []) err ∧
      Inv bytes base r' (skip c (min (len - p.length) c.available)) := by
  induction fuel generalizing r c p with
  | zero => split at hfuel <;> omega
  | succ fuel ih =>
    unfold readLoop
    by_cases hfull : p.length = len
    · rw [if_neg (by omega), hfull, Nat.sub_self, Nat.zero_min]
      refine ⟨none, r, ?_, ⟨.inl rfl, fun _ hlen => absurd hlen (Nat.lt_irrefl 0)⟩, h⟩
      rw [ahead, take_zero, append_nil]
      rfl
    have hnum := h.numbers
    rw [if_pos (by omega), exec_get_bind]
    by_cases hsome : r.pos < r.nlim
    · -- bytes are copied from the buffer
      rw [if_pos hsome] at hfuel ⊢
      obtain ⟨a, ha⟩ : ∃ a : ℕ, r.nlim - r.pos = a := ⟨(r.nlim - r.pos).toNat, by omega⟩
      have hslice := h.exec_bufSlice (n := a) (by omega)
      rw [show r.pos + (a : ℤ) = r.nlim by omega] at hslice
      obtain ⟨k, hk⟩ : ∃ k, min a (len - p.length) = k := ⟨_, rfl⟩
      have hlength : (c.ahead a).length = a := length_ahead (by omega)
      rw [exec_bind_of_ok hslice, hlength, hk, exec_set_bind, take_ahead c (by omega)]
      have hk' : (c.ahead k).length = k := length_ahead (by omega)
      have hp' : (p ++ c.ahead k).length = p.length + k := by rw [length_append, hk']
      obtain ⟨err, r', hexec, herr, hinv⟩ :=
        ih (p := p ++ c.ahead k) (h.advance (k := k) (by omega))
        (by omega) (.inl ⟨h.pos_add_le (by omega) hsome, by omega⟩)
        (by rw [hp']; split <;> omega)
      have hcount := available_skip c k
      have htotal : k + min (len - (p.length + k)) (skip c k).available =
        min (len - p.length) c.available := by omega
      refine ⟨err, r', ?_, ?_, ?_⟩
      · rw [hexec, hp', append_assoc, ← ahead_add, htotal]
      · obtain ⟨herr, -⟩ := herr
        rw [hp'] at herr
        exact ⟨herr.imp_right fun he => ⟨he.1, by omega, by omega⟩, fun _ _ hzero => by omega⟩
      · rwa [hp', skip_skip, htotal] at hinv
    rw [if_neg hsome] at hfuel ⊢
    by_cases hend : r.nlim ≠ r.nbuf ∨ r.limit ≤ r.off
    · -- the end of the section is in the buffer, or it is that of the region
      rw [if_pos hend]
      have hzero := h.available_eq_zero hsome hend
      rw [hzero, Nat.min_zero]
      refine ⟨if 0 < p.length then none else some .eof, r, ?_, ?_, h⟩
      · rw [ahead, take_zero, append_nil]
        rfl
      · by_cases hnil : p = []
        · have hlength : p.length = 0 := by rw [hnil, length_nil]
          rw [if_neg (by omega)]
          exact ⟨.inr ⟨rfl, by omega, by omega⟩, fun _ _ _ => rfl⟩
        · rw [if_pos (length_pos_iff.2 hnil)]
          exact ⟨.inl rfl, fun hnil' => absurd hnil' hnil⟩
    rw [if_neg hend]
    by_cases hlarge : r.bufSize ≤ (len : ℤ) - p.length
    · -- the rest is read into the target
      rw [if_pos hlarge]
      have hle : c.pos ≤ c.slimit := by
        rcases hfine with ⟨hle, -⟩ | hfine
        · exact hle
        · unfold Fine at hfine
          omega
      obtain ⟨err, r', hexec, herr, hinv⟩ := readDirect_ok hsrc h (le_of_lt_succ (by omega) :
        p.length ≤ len) (by omega) hle (by omega)
      refine ⟨err, r', ?_, ⟨?_, ?_⟩, hinv⟩
      · rw [exec_bind_of_ok hexec]
        rfl
      · exact herr.imp_right fun he => ⟨he.1, by omega, he.2.2⟩
      · intro hnil _ hzero
        rcases hfine with ⟨-, hp0⟩ | hfine
        · rw [hnil] at hp0
          exact absurd hp0 (Nat.lt_irrefl 0)
        · rw [hnil] at hlarge
          exact absurd ⟨by simpa using hlarge, by omega, by omega, by omega, by omega⟩ hfine
    · -- the buffer is filled for the next turn
      rw [if_neg hlarge]
      by_cases hmore : max 0 (r.nlim - r.pos) < c.available
      · obtain ⟨r₁, hfill, hinv, -, hbuffered⟩ := h.fill hsrc hmore (by omega)
        rw [exec_bind_of_ok hfill]
        exact ih hinv hp (.inr (by unfold Fine; omega)) (by rw [if_pos (by omega)]; omega)
      · rw [exec_bind_of_ok (h.eof (by omega))]
        have hzero : c.available = 0 := by omega
        dsimp only
        rw [if_neg hfull, hzero, Nat.min_zero]
        refine ⟨some .eof, r, ?_, ⟨.inr ⟨rfl, by omega, by omega⟩, fun _ _ _ => rfl⟩, h⟩
        rw [ahead, take_zero, append_nil]
        rfl

lemma read_spec (hsrc : Obeys bytes src) (h : Inv bytes base r c) {len : ℕ}
    (hfine : Fine r (.read len)) :
    ∃ err r', (read src len).exec r = (.ok (c.ahead (min len c.available), err), r') ∧
      ReadError c len True err ∧ Inv bytes base r' (skip c (min len c.available)) := by
  have hfuel : 2 * (len - ([] : List Byte).length) + (if r.pos < r.nlim then 1 else 2) ≤
      2 * len + 2 := by
    split <;> omega
  obtain ⟨err, r', hexec, herr, hinv⟩ := readLoop_spec hsrc h (zero_le len) (.inr hfine) hfuel
  exact ⟨err, r', hexec, ⟨herr.1, fun _ => herr.2 rfl⟩, hinv⟩

end EbpfProfiler.PfBufio
