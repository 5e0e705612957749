import EbpfProfiler.Lib.Cursor
import EbpfProfiler.PfBufio.Reader

/-!
# What a plain cursor does

A cursor without a buffer, with which `Conforms` compares a run of the reader.
-/

namespace EbpfProfiler.PfBufio

open Lib

/-- The calls, with arguments that are not negative. -/
inductive Call
  | read (len : ℕ)
  | readByte
  | uint8
  | uint16
  | uint32
  | uint64
  | discard (n : ℕ)
  | peek (n : ℕ)
  | readN (n : ℕ)
  | readSlice (delim : Byte)
  | searchSlice (pattern : List Byte)
  | seek (offset : Fin (2 ^ 63)) (whence : ℕ)
  | startSection (n : ℕ)
  | endSection
  deriving DecidableEq

/-- The bytes, the number and the error that a call delivers. -/
structure Reply where
  bytes : List Byte := []
  number : ℤ := 0
  err : Option ReadErr := none
  deriving DecidableEq

def Reply.ofSlice : Except ReadErr (List Byte) → Reply
  | .ok bytes => { bytes := bytes }
  | .error err => { err := some err }

def perform (src : ReadAt) : Call → Comp Reader Reply
  | .read len => do
    let reply ← read src len
    return { bytes := reply.1, err := reply.2 }
  | .readByte => do
    let reply ← readByte src
    return if reply.2 = none then { bytes := [reply.1] } else { err := reply.2 }
  | .uint8 => do return { number := (← uint8 src) }
  | .uint16 => do return { number := (← uint16 src) }
  | .uint32 => do return { number := (← uint32 src) }
  | .uint64 => do return { number := (← uint64 src) }
  | .discard n => do
    let reply ← discard src n
    return { number := reply.1, err := reply.2 }
  | .peek n => do return Reply.ofSlice (← peek src n)
  | .readN n => do return Reply.ofSlice (← readN src n)
  | .readSlice delim => do
    let reply ← readSlice src delim
    return { bytes := reply.1, err := reply.2 }
  | .searchSlice pattern => do
    let reply ← searchSlice src pattern
    return { number := reply.1, err := reply.2 }
  | .seek offset whence => do
    let reply ← seek offset.val whence
    return { number := reply.1, err := reply.2 }
  | .startSection n => do return { err := (← startSection n) }
  | .endSection => do
    endSection src
    return {}

/-! ## The cursor -/

def skip (c : Cursor) (n : ℕ) : Cursor := { c with pos := c.pos + n }

/-- The bytes up to the end of the section. -/
def rest (c : Cursor) : List Byte := c.ahead c.available

/-- A number of `n` bytes, zero if there are less. -/
def numberAt (c : Cursor) (n : ℕ) : ℕ := if n ≤ c.available then leNat (c.ahead n) else 0

/-- Where the cursor is after a number of `n` bytes. -/
def afterNumber (c : Cursor) (n : ℕ) : Cursor := if n ≤ c.available then skip c n else c

/-- The replies for the next `n` bytes: only more than the buffer may be refused. -/
def SliceAllowed (bufSize : ℕ) (c : Cursor) (n : ℕ) (reply : Reply) : Prop :=
  reply = (if n ≤ c.available then { bytes := c.ahead n } else { err := some .eof }) ∨
    bufSize < n ∧ reply = { err := some .bufferTooSmall }

/-- The bytes that `ReadSlice` needs: up to the delimiter, or all that remain. -/
def sliceLength (c : Cursor) (delim : Byte) : ℕ :=
  ((rest c).idxOf? delim).elim c.available fun i => i + 1

/-- The allowed replies; a `Read` may report the end with the last bytes. -/
def Allowed (bufSize start : ℕ) (c : Cursor) : Call → Reply → Prop
  | .read len, reply => reply.bytes = c.ahead (min len c.available) ∧
      (reply.err = none ∨ reply.err = some .eof ∧ 0 < len ∧ c.available ≤ len) ∧
      (0 < len → c.available = 0 → reply.err = some .eof)
  | .readByte, reply =>
      reply = if 0 < c.available then { bytes := c.ahead 1 } else { err := some .eof }
  | .uint8, reply => reply = { number := numberAt c 1 }
  | .uint16, reply => reply = { number := numberAt c 2 }
  | .uint32, reply => reply = { number := numberAt c 4 }
  | .uint64, reply => reply = { number := numberAt c 8 }
  | .discard n, reply => reply =
      { number := (min n c.available : ℕ), err := if n ≤ c.available then none else some .eof }
  | .peek n, reply => SliceAllowed bufSize c n reply
  | .readN n, reply => SliceAllowed bufSize c n reply
  | .readSlice delim, reply =>
      reply = (((rest c).idxOf? delim).elim { bytes := rest c, err := some .eof }
        fun i => { bytes := (rest c).take i }) ∨
      bufSize < sliceLength c delim ∧
        reply = { bytes := c.ahead bufSize, err := some .bufferTooSmall }
  | .searchSlice pattern, reply =>
      if pattern = [] then reply = { number := c.pos }
      else reply = ((indexOf pattern (rest c)).elim { number := -1, err := some .eof }
          fun i => { number := c.pos + i }) ∨
        bufSize < pattern.length ∧ reply.err = some .bufferTooSmall
  | .seek offset whence, reply => reply =
      if whence ≠ 0 then { err := some .whence }
      else if 2 ^ 63 ≤ start + offset.val then { err := some .offset }
      else { number := offset.val }
  | .startSection n, reply => reply =
      if c.slimit < c.pos + n then { err := some .unexpectedEOF } else {}
  | .endSection, reply => reply = {}

/-- Where the cursor is after a call with a reply. -/
def next (bufSize : ℕ) (c : Cursor) : Call → Option ReadErr → Cursor
  | .read len, _ => skip c (min len c.available)
  | .readByte, _ => skip c (min 1 c.available)
  | .uint8, _ => afterNumber c 1
  | .uint16, _ => afterNumber c 2
  | .uint32, _ => afterNumber c 4
  | .uint64, _ => afterNumber c 8
  | .discard n, _ => skip c (min n c.available)
  | .peek _, _ => c
  | .readN n, err => if err = none then skip c n else c
  | .readSlice delim, err =>
      if err = some .bufferTooSmall then skip c bufSize else skip c (sliceLength c delim)
  | .searchSlice pattern, err =>
      if pattern = [] ∨ err = some .bufferTooSmall then c
      else skip c ((indexOf pattern (rest c)).elim c.available fun i => i + pattern.length)
  | .seek offset _, err => if err = none then c.seek offset.val else c
  | .startSection n, err =>
      if err = none then
        { c with slimit := c.pos + n, sectionEnds := c.slimit :: c.sectionEnds }
      else c
  | .endSection, _ =>
      { c with
        pos := max c.pos c.slimit
        slimit := c.sectionEnds.headD c.slimit
        sectionEnds := c.sectionEnds.tail }

/-! ## Runs -/

/-- `Tell` and `Remaining` are those of the cursor. -/
def Shows (r : Reader) (c : Cursor) : Prop :=
  r.tell = c.pos ∧ r.remaining = (c.slimit : ℤ) - c.pos

/-- The reader replies as the cursor allows, and is where it is then. -/
def StepConforms (src : ReadAt) (r : Reader) (c : Cursor) (call : Call) (reply : Reply)
    (r' : Reader) : Prop :=
  (perform src call).exec r = (.ok reply, r') ∧
    Allowed r.bufSize.toNat r.start.toNat c call reply ∧
    Shows r' (next r.bufSize.toNat c call reply.err)

/-- Every call of a run conforms. -/
def Conforms (src : ReadAt) : Reader → Cursor → List Call → Prop
  | _, _, [] => True
  | r, c, call :: calls => ∃ reply r', StepConforms src r c call reply r' ∧
      Conforms src r' (next r.bufSize.toNat c call reply.err) calls

/-- Whatever holds of the state before a call, for every call of a run. -/
def Throughout (src : ReadAt) (holds : Reader → Call → Prop) : Reader → List Call → Prop
  | _, [] => True
  | r, call :: calls => holds r call ∧
      ∀ reply r', (perform src call).exec r = (.ok reply, r') → Throughout src holds r' calls

/-- A section is ended only where one is open. -/
def Nested (r : Reader) (call : Call) : Prop := call = .endSection → r.sectionEnds ≠ []

/-- The buffer is not noticed: by a large `Read` at a section end, by an enclosing section that ends
first, or by a pattern that fits neither the buffer nor the rest. -/
def Fine (r : Reader) : Call → Prop
  | .read len => ¬(r.bufSize ≤ len ∧ r.pos = r.nlim ∧ r.nlim = r.nbuf ∧
      r.slimit ≤ r.off ∧ r.off < r.limit)
  | .peek n => n = 0 → r.pos ≤ r.nlim
  | .readN n => n = 0 → r.pos ≤ r.nlim
  | .readSlice _ => r.pos ≤ r.nlim
  | .searchSlice pattern => pattern = [] ∨
      r.pos ≤ r.nlim ∧ (pattern.length ≤ r.bufSize ∨ r.remaining ≤ r.bufSize)
  | _ => True

/-- An immutable array that obeys `io.ReaderAt`: only short reads, or those to the end, have
errors. -/
structure Obeys (bytes : List Byte) (src : ReadAt) : Prop where
  inside : ∀ off n : ℕ, off + n < bytes.length →
    src off n = .ok ((bytes.drop off).take n, none)
  atEnd : ∀ off n : ℕ, off + n = bytes.length →
    ∃ err, (err = none ∨ err = some .eof) ∧ src off n = .ok ((bytes.drop off).take n, err)
  beyond : ∀ off n : ℕ, bytes.length < off + n →
    ∃ err, src off n = .ok ((bytes.drop off).take n, some err)

end EbpfProfiler.PfBufio
