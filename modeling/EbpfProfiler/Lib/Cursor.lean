import EbpfProfiler.Lib.Bytes
import EbpfProfiler.Lib.Comp

/-!
# A cursor over bytes with sections

Sections nest, and may claim more bytes than the file has; a read beyond gives zero.
-/

namespace EbpfProfiler.Lib

/-- A position in a region, with the ends of the sections around it. -/
structure Cursor where
  source : List Byte
  pos : ℕ
  slimit : ℕ
  sectionEnds : List ℕ
  deriving DecidableEq

namespace Cursor

/-- The start of a region of a file; if its end is no `int64`, nothing is read. -/
def init (file : List Byte) (offset length : ℕ) : Cursor where
  source := if offset + length < 2 ^ 63 then (file.drop offset).take length else []
  pos := 0
  slimit := length
  sectionEnds := []

/-- `Remaining`: the bytes up to the end of the section. -/
def remaining (c : Cursor) : ℕ := c.slimit - c.pos

/-- The bytes of the section that the file has. -/
def available (c : Cursor) : ℕ := min c.slimit c.source.length - c.pos

/-- The next `n` bytes. -/
def ahead (c : Cursor) (n : ℕ) : List Byte := (c.source.drop c.pos).take n

/-- `Seek` from the start of the region. -/
def seek (c : Cursor) (pos : ℕ) : Cursor := { c with pos := pos }

/-- `Discard`: as many bytes as can be read. -/
def discard (c : Cursor) (n : ℕ) : Cursor := { c with pos := c.pos + min n c.available }

end Cursor

namespace Comp

/-- `Uint8`, `Uint16`, `Uint32` and `Uint64`: a little-endian number of `n` bytes. -/
def uintLE (n : ℕ) : Comp Cursor ℕ := fun c =>
  if n ≤ c.available then (.ok (leNat (c.ahead n)), { c with pos := c.pos + n }) else (.ok 0, c)

/-- `ReadString(0)`: the bytes up to a zero, if they fit the buffer. -/
def cstring (bufSize : ℕ) : Comp Cursor (List Byte) := fun c =>
  let bs := c.ahead (min bufSize c.available)
  match bs.idxOf? 0 with
  | some i => (.ok (bs.take i), { c with pos := c.pos + i + 1 })
  | none =>
    if bufSize ≤ c.available ∧ bufSize < c.remaining then (.error (.error "buffer too small"), c)
    else (.error (.error "EOF"), c)

def startSection (n : ℕ) : Comp Cursor Unit := fun c =>
  if c.slimit < c.pos + n then (.error (.error "unexpected EOF"), c)
  else (.ok (), { c with slimit := c.pos + n, sectionEnds := c.slimit :: c.sectionEnds })

/-- `EndSection`: what remains of the section is skipped. -/
def endSection : Comp Cursor Unit := fun c =>
  match c.sectionEnds with
  | [] => (.error (.panic "index out of range"), c)
  | outer :: ends =>
    (.ok (), { c.discard c.remaining with slimit := outer, sectionEnds := ends })

/-- A computation inside a section of `n` bytes, which ends with it. -/
def withSection {α : Type} (n : ℕ) (x : Comp Cursor α) : Comp Cursor α := do
  startSection n
  deferring endSection x

end Comp

/-! ## Reading goes forward -/

variable {c c₁ d e : Cursor} {n : ℕ}

/-- `d` is a later position in the same section. -/
structure Cursor.Before (c d : Cursor) : Prop where
  source : d.source = c.source
  slimit : d.slimit = c.slimit
  sectionEnds : d.sectionEnds = c.sectionEnds
  pos : c.pos ≤ d.pos

namespace Cursor

lemma Before.refl (c : Cursor) : c.Before c := ⟨rfl, rfl, rfl, Nat.le_refl _⟩

lemma Before.trans (h : c.Before d) (h' : d.Before e) : c.Before e :=
  ⟨h'.source.trans h.source, h'.slimit.trans h.slimit, h'.sectionEnds.trans h.sectionEnds,
    le_trans h.pos h'.pos⟩

lemma before_skip (c : Cursor) (n : ℕ) : c.Before { c with pos := c.pos + n } :=
  ⟨rfl, rfl, rfl, Nat.le_add_right _ _⟩

lemma Before.remaining_le (h : c.Before d) : d.remaining ≤ c.remaining := by
  have hlimit := h.slimit
  have hpos := h.pos
  unfold remaining
  omega

lemma Before.remaining_add (h : c.Before d) (hd : c.remaining ≠ 0) (hpos : c.pos < d.pos) :
    d.remaining + 1 ≤ c.remaining := by
  have hlimit := h.slimit
  unfold remaining at hd ⊢
  omega

/-- `d` is later in the section, with nothing taken behind the end of section or file. -/
structure Until (c d : Cursor) : Prop where
  before : c.Before d
  stop : d.pos ≤ max c.pos (min c.slimit c.source.length)

lemma Until.refl (c : Cursor) : c.Until c := ⟨.refl c, Nat.le_max_left _ _⟩

lemma Until.trans (h : c.Until d) (h' : d.Until e) : c.Until e := by
  refine ⟨h.before.trans h'.before, ?_⟩
  have hd := h.stop
  have he := h'.stop
  rw [h.before.slimit, h.before.source] at he
  omega

lemma until_skip (h : n ≤ c.available) : c.Until { c with pos := c.pos + n } := by
  refine ⟨c.before_skip n, ?_⟩
  unfold available at h
  show c.pos + n ≤ _
  omega

lemma until_discard (c : Cursor) (n : ℕ) : c.Until (c.discard n) :=
  until_skip (min_le_right _ _)

end Cursor

namespace Comp

variable {α β : Type}

/-- Where the computation returns a value, it has gone forward in the section. -/
def Forward (x : Comp Cursor α) : Prop := ∀ c a d, exec x c = (.ok a, d) → c.Before d

/-- A computation that only reads: it goes forward, also with an error, and ends. -/
structure Reads (x : Comp Cursor α) : Prop where
  until_ok : ∀ c a d, exec x c = (.ok a, d) → c.Until d
  until_error : ∀ c text d, exec x c = (.error (.error text), d) → c.Until d
  halts : Halts x

variable {x : Comp Cursor α}

lemma Reads.forward (hx : Reads x) : Forward x :=
  fun c a d h => (hx.until_ok c a d h).before

lemma reads_of_exec (h : ∀ c, (∃ a d, exec x c = (.ok a, d) ∧ c.Until d) ∨
    ∃ text d, exec x c = (.error (.error text), d) ∧ c.Until d) : Reads x where
  until_ok c a d hx := by
    rcases h c with ⟨a', d', heq, huntil⟩ | ⟨text, d', heq, -⟩ <;> cases hx.symm.trans heq
    exact huntil
  until_error c text d hx := by
    rcases h c with ⟨a, d', heq, -⟩ | ⟨text', d', heq, huntil⟩ <;> cases hx.symm.trans heq
    exact huntil
  halts c := by
    rintro ⟨d, hx⟩
    rcases h c with ⟨a, d', heq, -⟩ | ⟨text, d', heq, -⟩ <;> cases hx.symm.trans heq

lemma reads_pure (a : α) : Reads (pure a) := reads_of_exec fun c => .inl ⟨a, c, rfl, .refl c⟩

lemma reads_error (text : String) : Reads (error text : Comp Cursor α) :=
  reads_of_exec fun c => .inr ⟨text, c, rfl, .refl c⟩

lemma reads_panic (text : String) : Reads (panic text : Comp Cursor α) where
  until_ok c b d h := by cases h
  until_error c text d h := by cases h
  halts := halts_panic text

lemma reads_get : Reads get := reads_of_exec fun c => .inl ⟨c, c, rfl, .refl c⟩

lemma Reads.bind {f : α → Comp Cursor β} (hx : Reads x)
    (hf : ∀ a, Reads (f a)) : Reads (x >>= f) where
  until_ok c b e h := by
    obtain ⟨a, d, ha, hb⟩ := exec_bind_ok.mp h
    exact (hx.until_ok c a d ha).trans ((hf a).until_ok d b e hb)
  until_error c text e h := by
    rcases exec_bind_error.mp h with h | ⟨a, d, ha, h⟩
    · exact hx.until_error c text e h
    · exact (hx.until_ok c a d ha).trans ((hf a).until_error d text e h)
  halts := hx.halts.bind fun a => (hf a).halts

lemma Reads.map (hx : Reads x) (f : α → β) :
    Reads (x >>= fun a => pure (f a)) := hx.bind fun _ => reads_pure _

lemma reads_modify {g : Cursor → Cursor} (hg : ∀ c : Cursor, c.Until (g c)) {f : Comp Cursor α}
    (hf : Reads f) : Reads (get >>= fun c => set (g c) >>= fun _ => f) where
  until_ok c a d h := (hg c).trans (hf.until_ok (g c) a d h)
  until_error c text d h := (hg c).trans (hf.until_error (g c) text d h)
  halts := halts_get.bind fun c => (halts_set (g c)).bind fun _ => hf.halts

lemma Reads.attempt (hx : Reads x) : Reads (attempt x) where
  until_ok c r d h := by
    cases r with
    | ok a => exact hx.until_ok c a d (exec_attempt_ok_iff.mp h)
    | error text => exact hx.until_error c text d (exec_attempt_error_iff.mp h)
  until_error c text d h := by
    exact absurd h (exec_attempt_ne_error _ _ _ _)
  halts := hx.halts.attempt

lemma exec_uintLE_of_le (h : n ≤ c.available) :
    exec (uintLE n) c = (.ok (leNat (c.ahead n)), { c with pos := c.pos + n }) := by
  unfold exec uintLE
  rw [if_pos h]

lemma exec_uintLE_of_lt (h : c.available < n) : exec (uintLE n) c = (.ok 0, c) := by
  unfold exec uintLE
  rw [if_neg (not_le.mpr h)]

lemma reads_uintLE (n : ℕ) : Reads (uintLE n) := by
  apply reads_of_exec
  intro c
  left
  rcases lt_or_ge c.available n with hlt | hle
  · exact ⟨_, _, exec_uintLE_of_lt hlt, .refl c⟩
  · exact ⟨_, _, exec_uintLE_of_le hle, Cursor.until_skip hle⟩

lemma reads_cstring (bufSize : ℕ) : Reads (cstring bufSize) := by
  apply reads_of_exec
  intro c
  unfold exec cstring
  dsimp only
  split
  · next i hi =>
    -- the zero is one of the bytes that can be read
    have hlt : i < (c.ahead (min bufSize c.available)).length := by
      rw [List.idxOf?_eq_some_iff] at hi
      exact hi.1
    have hlen : (c.ahead (min bufSize c.available)).length ≤ min bufSize c.available :=
      List.length_take_le _ _
    exact .inl ⟨_, _, rfl, Cursor.until_skip (n := i + 1) (by omega)⟩
  · split
    · exact .inr ⟨_, _, rfl, .refl c⟩
    · exact .inr ⟨_, _, rfl, .refl c⟩

lemma exec_startSection_ok (h : exec (startSection n) c = (.ok (), c₁)) : c.pos + n ≤ c.slimit ∧
      c₁ = { c with slimit := c.pos + n, sectionEnds := c.slimit :: c.sectionEnds } := by
  unfold exec startSection at h
  split at h
  · cases h
  · cases h
    exact ⟨by omega, rfl⟩

section
variable (hstart : exec (startSection n) c = (.ok (), c₁))
include hstart

lemma exec_endSection_ok (hd : c₁.Before d) (hend : exec endSection d = (.ok (), e)) :
    c.Before e ∧ e.pos = (d.discard d.remaining).pos := by
  obtain ⟨hn, rfl⟩ := exec_startSection_ok hstart
  have hends : d.sectionEnds = c.slimit :: c.sectionEnds := hd.sectionEnds
  unfold exec endSection at hend
  rw [hends] at hend
  cases hend
  refine ⟨⟨hd.source, rfl, rfl, ?_⟩, rfl⟩
  exact le_trans hd.pos (Nat.le_add_right _ _)

section
variable (hd : c₁.Until d) (hend : exec endSection d = (.ok (), e))
include hd hend

lemma pos_endSection : e.pos = max c.pos (min (c.pos + n) c.source.length) := by
  rw [(exec_endSection_ok hstart hd.before hend).2]
  obtain ⟨hn, rfl⟩ := exec_startSection_ok hstart
  have hpos := hd.before.pos
  have hstop := hd.stop
  unfold Cursor.discard Cursor.remaining Cursor.available
  rw [hd.before.slimit, hd.before.source]
  dsimp only at hpos hstop ⊢
  omega

lemma until_endSection : c.Until e := by
  refine ⟨(exec_endSection_ok hstart hd.before hend).1, ?_⟩
  have hn := (exec_startSection_ok hstart).1
  rw [pos_endSection hstart hd hend]
  omega

end

end

lemma halts_startSection (n : ℕ) : Halts (startSection n) := by
  rintro c ⟨d, h⟩
  unfold exec startSection at h
  split at h <;> cases h

lemma halts_endSection : Halts endSection := by
  rintro c ⟨d, h⟩
  unfold exec endSection at h
  split at h <;> cases h

lemma halts_withSection (n : ℕ) (hx : Halts x) : Halts (withSection n x) := by
  apply (halts_startSection n).bind
  intro _ c h
  exact hx c ((hangs_deferring halts_endSection x c).mp h)

lemma exec_startSection_error {text : String}
    (h : exec (startSection n) c = (.error (.error text), d)) : c.slimit < c.pos + n ∧ d = c := by
  unfold exec startSection at h
  split at h
  · next hlt =>
    cases h
    exact ⟨hlt, rfl⟩
  · cases h

lemma exec_endSection_ne_error {text : String} : exec endSection c ≠ (.error (.error text), d) := by
  intro h
  unfold exec endSection at h
  split at h <;> cases h

/-- **Frame.** A section is left behind. -/
lemma Forward.withSection (n : ℕ) (hx : Forward x) : Forward (withSection n x) := by
  intro c a e h
  obtain ⟨_, c₁, hstart, h⟩ := exec_bind_ok.mp h
  obtain ⟨d, hd, hend⟩ := exec_deferring_ok h
  exact (exec_endSection_ok hstart (hx c₁ a d hd) hend).1

/-- **Frame.** A section is left behind, whether reading succeeds or not. -/
lemma Reads.withSection (n : ℕ) (hx : Reads x) : Reads (withSection n x) where
  until_ok c a e h := by
    obtain ⟨_, c₁, hstart, h⟩ := exec_bind_ok.mp h
    obtain ⟨d, hd, hend⟩ := exec_deferring_ok h
    exact until_endSection hstart (hx.until_ok c₁ a d hd) hend
  until_error c text e h := by
    rcases exec_bind_error.mp h with h | ⟨_, c₁, hstart, h⟩
    · rw [(exec_startSection_error h).2]
      exact .refl c
    · obtain ⟨r, d, hd, hend | hend⟩ := exec_deferring_error h
      · exact until_endSection hstart (hx.attempt.until_ok c₁ r d hd) hend
      · exact absurd hend exec_endSection_ne_error
  halts := halts_withSection n hx.halts

lemma pos_withSection (hx : Reads x) {r : Except String α}
    (h : exec (Comp.attempt (withSection n x)) c = (.ok r, d)) :
    (c.pos + n ≤ c.slimit ∧ d.pos = max c.pos (min (c.pos + n) c.source.length)) ∨
      (c.slimit < c.pos + n ∧ d = c) := by
  cases r with
  | ok a =>
    obtain ⟨_, c₁, hstart, h⟩ := exec_bind_ok.mp (exec_attempt_ok_iff.mp h)
    obtain ⟨e, he, hend⟩ := exec_deferring_ok h
    exact .inl ⟨(exec_startSection_ok hstart).1, pos_endSection hstart (hx.until_ok c₁ a e he) hend⟩
  | error text =>
    rcases exec_bind_error.mp (exec_attempt_error_iff.mp h) with h | ⟨_, c₁, hstart, h⟩
    · exact .inr (exec_startSection_error h)
    · obtain ⟨r, e, he, hend | hend⟩ := exec_deferring_error h
      · exact .inl ⟨(exec_startSection_ok hstart).1,
          pos_endSection hstart (hx.attempt.until_ok c₁ r e he) hend⟩
      · exact absurd hend exec_endSection_ne_error

end Comp

end EbpfProfiler.Lib
