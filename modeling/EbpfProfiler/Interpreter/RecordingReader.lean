import EbpfProfiler.Lib.Bytes
import EbpfProfiler.Lib.Comp
import EbpfProfiler.Wire.EbpfFrame

/-!
# The recording reader

`RecordingReader` (`hotspot/recordingreader.go`) reads a chunk as a whole or not at all.
-/

namespace EbpfProfiler.Interpreter.Hotspot

open Lib Comp List Option
open Wire (Word)

/-- `ReadAt` of a memory in which some bytes can be read. -/
def readAll (mem : Word → Option Byte) (offs : Word) : ℕ → Option (List Byte)
  | 0 => some []
  | n + 1 => do
    let b ← mem offs
    let bytes ← readAll mem (offs + 1) n
    return b :: bytes

/-- A reader that keeps what it reads. -/
structure RecordingReader where
  buf : List Byte
  offs : Word
  i : ℕ
  chunk : ℕ

def maxRecordingReaderBuf : ℕ := 1 * 1024 * 1024

def newRecordingReader (offs : Word) (chunkSize : ℕ) : RecordingReader := ⟨[], offs, 0, chunkSize⟩

/-- The byte that is next in the buffer. -/
def takeNext (rr : RecordingReader) : Comp RecordingReader Byte :=
  match rr.buf[rr.i]? with
  | some b => do
    Comp.set { rr with i := rr.i + 1 }
    return b
  | none => Comp.panic "index out of range"

section
variable (mem : Word → Option Byte)

def RecordingReader.readByte : Comp RecordingReader Byte := do
  let rr ← Comp.get
  if rr.buf.length ≤ rr.i then
    if maxRecordingReaderBuf < rr.buf.length + rr.chunk then
      Comp.error "recording reader exceeded maximum buffer size of 1048576 bytes"
    else
      match readAll mem rr.offs rr.chunk with
      | none => Comp.error "bad address"
      | some bytes => takeNext { rr with
          buf := rr.buf ++ bytes
          offs := rr.offs + BitVec.ofNat 64 rr.chunk }
  else takeNext rr

/-- The bytes of a number of calls of `ReadByte`. -/
def readBytes : ℕ → Comp RecordingReader (List Byte)
  | 0 => return []
  | n + 1 => do
    let bytes ← readBytes n
    let b ← RecordingReader.readByte mem
    return bytes ++ [b]

end

def RecordingReader.getBuffer (rr : RecordingReader) : List Byte := rr.buf.take rr.i

section
variable {mem : Word → Option Byte} {offs : Word} {chunk n : ℕ} {bytes all : List Byte}
  {rr : RecordingReader} {b : Byte}

lemma readAll_add (mem : Word → Option Byte) (offs : Word) (m n : ℕ) :
    readAll mem offs (m + n) = (do
      let front ← readAll mem offs m
      let back ← readAll mem (offs + BitVec.ofNat 64 m) n
      return front ++ back) := by
  induction m generalizing offs with
  | zero => simp [readAll]
  | succ m ih =>
    have hnext : offs + 1#64 + BitVec.ofNat 64 m = offs + BitVec.ofNat 64 (m + 1) := by
      rw [add_assoc, add_comm 1#64, BitVec.ofNat_add]
    rw [Nat.succ_add]
    simp [readAll, ih, hnext, bind_assoc]

lemma length_of_readAll (h : readAll mem offs n = some bytes) : bytes.length = n := by
  induction n generalizing offs bytes with
  | zero => simp_all [readAll]
  | succ n ih =>
    simp only [readAll, bind_eq_bind, bind_eq_some_iff, Option.pure_def, Option.some.injEq] at h
    obtain ⟨b, -, rest, hrest, rfl⟩ := h
    rw [List.length_cons, ih hrest]

lemma take_of_readAll {m : ℕ} (h : readAll mem offs n = some all) (hm : m ≤ n) :
    readAll mem offs m = some (all.take m) := by
  rw [← Nat.add_sub_cancel' hm, readAll_add] at h
  cases hfront : readAll mem offs m with
  | none => simp [hfront] at h
  | some front =>
    simp only [hfront, bind_eq_bind, bind_some, bind_eq_some_iff, Option.pure_def,
      Option.some.injEq] at h
    obtain ⟨back, -, rfl⟩ := h
    rw [take_left' (length_of_readAll hfront)]

lemma exec_takeNext (h : rr.buf[rr.i]? = some b) (s : RecordingReader) :
    exec (takeNext rr) s = (.ok b, { rr with i := rr.i + 1 }) := by
  rw [takeNext, h]
  rfl

/-- The reader after the first bytes: it holds whole chunks, and no more than needed. -/
structure ReaderAt (mem : Word → Option Byte) (offs : Word) (chunk m : ℕ) (bytes : List Byte)
    (rr : RecordingReader) : Prop where
  chunk_eq : rr.chunk = chunk
  offs_eq : rr.offs = offs + BitVec.ofNat 64 (m * chunk)
  read : readAll mem offs (m * chunk) = some rr.buf
  taken : bytes = rr.buf.take rr.i
  within : rr.i ≤ m * chunk
  needed : m * chunk ≤ rr.i + chunk

lemma ReaderAt.readByte {m : ℕ} (h : ReaderAt mem offs chunk m bytes rr)
    (hcap : rr.i + chunk ≤ maxRecordingReaderBuf) :
    (∃ b s m', exec (RecordingReader.readByte mem) rr = (.ok b, s) ∧ s.i = rr.i + 1 ∧
        ReaderAt mem offs chunk m' (bytes ++ [b]) s) ∨
      (∃ e s, exec (RecordingReader.readByte mem) rr = (.error e, s)) ∧
        ∀ m', rr.i < m' * chunk → readAll mem offs (m' * chunk) = none := by
  obtain ⟨hchunk, hoffs, hread, htaken, hwithin, hneeded⟩ := h
  have hlen := length_of_readAll hread
  have hnext := readAll_add mem offs (m * chunk) chunk
  rw [hread, ← hoffs, ← Nat.add_one_mul] at hnext
  rw [RecordingReader.readByte, exec_bind_of_ok (exec_get _)]
  by_cases hin : rr.i < rr.buf.length
  · have htake := take_succ_eq_append_getElem hin
    rw [if_neg (by omega), exec_takeNext (getElem?_eq_getElem hin)]
    exact Or.inl ⟨_, _, m, rfl, rfl, hchunk, hoffs, hread, by rw [htake, htaken], by simp; omega,
      by simp; omega⟩
  rw [if_pos (by omega), if_neg (by omega), hchunk]
  cases hback : readAll mem rr.offs chunk with
  | none =>
    refine Or.inr ⟨⟨_, _, rfl⟩, fun m' hm' => ?_⟩
    -- A later chunk cannot be read without this one.
    have hle : (m + 1) * chunk ≤ m' * chunk :=
      Nat.mul_le_mul_right chunk (Nat.lt_of_mul_lt_mul_right (a := chunk) (by omega))
    cases hall : readAll mem offs (m' * chunk) with
    | none => rfl
    | some all => simp [take_of_readAll hall hle, hback] at hnext
  | some back =>
    have hback' := length_of_readAll hback
    cases back with
    | nil =>
      refine Or.inr ⟨⟨.panic "index out of range", rr, ?_⟩, fun m' hm' => ?_⟩
      · simp [takeNext, show rr.buf.length ≤ rr.i by omega]
      · simp [← hback'] at hm'
    | cons b back =>
      have hget : (rr.buf ++ b :: back)[rr.i]? = some b := by
        rw [getElem?_append_right (by omega), show rr.i - rr.buf.length = 0 by omega]
        rfl
      rw [exec_takeNext hget]
      have hfull : rr.i = rr.buf.length := by omega
      have hmul := Nat.add_one_mul m chunk
      simp only [length_cons] at hback'
      refine Or.inl ⟨b, _, m + 1, rfl, rfl, rfl, ?_, ?_, ?_, ?_, ?_⟩ <;> simp only
      · rw [hoffs, hmul, BitVec.ofNat_add, add_assoc]
      · rw [hnext, hback]
        rfl
      · rw [htaken, hfull, take_length, take_length_add_append]
        rfl
      · omega
      · omega

variable (mem offs) in
lemma readBytes_cases (hcap : n + chunk ≤ maxRecordingReaderBuf) :
    (∃ bytes s m, exec (readBytes mem n) (newRecordingReader offs chunk) = (.ok bytes, s) ∧
        s.i = n ∧ ReaderAt mem offs chunk m bytes s) ∨
      (∃ e s, exec (readBytes mem n) (newRecordingReader offs chunk) = (.error e, s)) ∧
        ∀ m, n ≤ m * chunk → readAll mem offs (m * chunk) = none := by
  induction n with
  | zero =>
    refine Or.inl ⟨[], newRecordingReader offs chunk, 0, rfl, rfl, rfl, ?_, ?_, ?_, ?_, ?_⟩ <;>
      simp [newRecordingReader, readAll]
  | succ n ih =>
    rcases ih (by omega) with ⟨bytes, s, m, hexec, rfl, hs⟩ | ⟨⟨e, s, hexec⟩, hnone⟩
    · rcases hs.readByte (by omega) with ⟨b, t, m', hb, hi, ht⟩ | ⟨⟨e, t, he⟩, hnone⟩
      · refine Or.inl ⟨bytes ++ [b], t, m', ?_, hi, ht⟩
        rw [readBytes, exec_bind_of_ok hexec, exec_return hb]
      · refine Or.inr ⟨⟨e, t, ?_⟩, hnone⟩
        rw [readBytes, exec_bind_of_ok hexec, exec_bind_of_error he]
    · refine Or.inr ⟨⟨e, s, ?_⟩, fun m hm => hnone m (by omega)⟩
      rw [readBytes, exec_bind_of_error hexec]

/-- Bytes are delivered exactly when they lie in readable whole chunks. -/
theorem readBytes_ok_iff (h : readAll mem offs n = some bytes)
    (hcap : n + chunk ≤ maxRecordingReaderBuf) :
    (∃ rr, exec (readBytes mem n) (newRecordingReader offs chunk) = (.ok bytes, rr) ∧
        rr.getBuffer = bytes) ↔
      ∃ m, n ≤ m * chunk ∧ (readAll mem offs (m * chunk)).isSome := by
  rcases readBytes_cases mem offs hcap with ⟨bytes', s, m, hexec, rfl, hs⟩ | ⟨⟨e, s, hexec⟩, hnone⟩
  · have hbytes := take_of_readAll hs.read hs.within
    rw [h, some.injEq, ← hs.taken] at hbytes
    subst hbytes
    exact iff_of_true ⟨s, hexec, hs.taken.symm⟩ ⟨m, hs.within, by rw [hs.read]; rfl⟩
  · rw [hexec]
    refine iff_of_false (fun ⟨_, hok, _⟩ => by cases hok) ?_
    rintro ⟨m, hm, hsome⟩
    rw [hnone m hm] at hsome
    cases hsome

theorem readBytes_ok_iff_two_chunks :
    ∃ rr, exec (readBytes (fun _ => some 7) 3) (newRecordingReader 0 2) = (.ok [7, 7, 7], rr) ∧
      rr.getBuffer = [7, 7, 7] :=
  (readBytes_ok_iff rfl (by decide)).2 ⟨2, by decide, rfl⟩

/-- A memory whose only page ends with the byte at `0xfff`. -/
def lastByte (addr : Word) : Option Byte := if addr = 0xfff then some 7 else none

theorem readBytes_before_hole : readAll lastByte 0xfff 1 = some [7] ∧
    1 + 256 ≤ maxRecordingReaderBuf ∧ (exec (readBytes lastByte 1)
      (newRecordingReader 0xfff 256)).1 = .error (.error "bad address") :=
  ⟨rfl, by decide, rfl⟩

end

end EbpfProfiler.Interpreter.Hotspot
