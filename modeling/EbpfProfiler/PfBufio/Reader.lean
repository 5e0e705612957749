import EbpfProfiler.Lib.Bytes
import EbpfProfiler.Lib.Comp
import Mathlib.Algebra.Ring.Int.Defs

/-!
# The buffered reader

`pfbufio.Reader` (`libpf/pfbufio/reader.go`). Offsets are `int64` and wrap; the buffer comes from a
pool and has any contents.
-/

namespace EbpfProfiler.PfBufio

open Lib

/-- The `int64` with the bits of a number. -/
def i64 (x : ℤ) : ℤ := x.bmod (2 ^ 64)

/-- `io.EOF` and the other errors of the reader. -/
inductive ReadErr
  | eof
  | unexpectedEOF
  | bufferTooSmall
  | negativeCount
  | whence
  | offset
  deriving DecidableEq

/-- `io.ReaderAt`: the bytes that are read at an offset, for a target of some length. -/
abbrev ReadAt := ℤ → ℕ → Except Fault (List Byte × Option ReadErr)

def maxBufferSize : ℤ := 64 * 1024

/-- `Reader`. The innermost of `sectionEnds` is first. -/
structure Reader where
  start : ℤ
  off : ℤ
  limit : ℤ
  slimit : ℤ
  pos : ℤ
  nbuf : ℤ
  nlim : ℤ
  bufSize : ℤ
  sectionEnds : List ℤ
  buf : Memory

namespace Reader

def flush (r : Reader) : Reader := { r with pos := 0, nbuf := 0, nlim := 0 }

/-- `Init`, with a buffer from the pool. -/
def init (buf : Memory) (start maxLen : ℤ) : Reader where
  start := start
  off := start
  limit := i64 (start + maxLen)
  slimit := i64 (start + maxLen)
  pos := 0
  nbuf := 0
  nlim := 0
  bufSize := maxBufferSize
  sectionEnds := []
  buf := buf

def setBufferSize (r : Reader) (size : ℤ) : Reader :=
  { r with bufSize := min (max size 1024) maxBufferSize }

def remaining (r : Reader) : ℤ := i64 (r.slimit - r.off + (r.nbuf - r.pos))

def tell (r : Reader) : ℤ := i64 (r.off - r.start - (r.nbuf - r.pos))

def updateBufferLimit (r : Reader) : Reader :=
  { r with nlim := i64 (r.nbuf - max 0 (i64 (r.off - r.slimit))) }

end Reader

/-- `r.buf[a:b]`. -/
def bufSlice (a b : ℤ) : Comp Reader (List Byte) := do
  let r ← Comp.get
  if 0 ≤ a ∧ a ≤ b ∧ b ≤ maxBufferSize then return r.buf.read a.toNat (b - a).toNat
  else Comp.panic "slice bounds out of range"

/-- The move of unconsumed bytes to the start of the buffer. -/
def moveDown (preserve : ℤ) : Comp Reader Unit := do
  let r ← Comp.get
  if 0 < preserve ∧ 0 < r.pos then do
    let _ ← bufSlice 0 preserve
    let bytes ← bufSlice r.pos (r.pos + preserve)
    Comp.set { r with buf := r.buf.write 0 bytes }
  else return ()

/-- The read of `fill` behind the bytes that are kept. -/
def readMore (src : ReadAt) (preserve : ℤ) : Comp Reader (Option ReadErr) := do
  let r ← Comp.get
  let toRead := min (r.bufSize - preserve) (i64 (r.limit - r.off))
  let _ ← bufSlice preserve (preserve + toRead)
  let (bytes, err) ← Comp.lift (src r.off toRead.toNat)
  Comp.set <| Reader.updateBufferLimit { r with
    pos := 0
    buf := r.buf.write preserve.toNat bytes
    nbuf := bytes.length + preserve
    off := i64 (r.off + bytes.length) }
  if 0 < bytes.length then return none else return some (err.getD .eof)

def fill (src : ReadAt) : Comp Reader (Option ReadErr) := do
  let r ← Comp.get
  if r.slimit ≤ r.off then return some .eof
  else if r.nbuf ≠ r.nlim then return some .eof
  else do
    moveDown (r.nbuf - r.pos)
    readMore src (r.nbuf - r.pos)

/-- The read of `Read` into the target. -/
def readDirect (src : ReadAt) (n len : ℕ) : Comp Reader (List Byte × Option ReadErr) := do
  let r ← Comp.get
  let rest := i64 (r.slimit - r.off)
  let toRead := if rest < (len : ℤ) - n then rest else (len : ℤ) - n
  if 0 ≤ toRead then do
    let (bytes, err) ← Comp.lift (src r.off toRead.toNat)
    Comp.set { r with off := i64 (r.off + bytes.length) }
    return (bytes, err)
  else Comp.panic "slice bounds out of range"

/-- The loop of `Read`, with the bytes so far. -/
def readLoop (src : ReadAt) (len : ℕ) : ℕ → List Byte → Comp Reader (List Byte × Option ReadErr)
  | 0, _ => Comp.hang
  | fuel + 1, p =>
    if p.length < len then do
      let r ← Comp.get
      if r.pos < r.nlim then do
        let bytes ← bufSlice r.pos r.nlim
        let copied := min bytes.length (len - p.length)
        Comp.set { r with pos := r.pos + copied }
        readLoop src len fuel (p ++ bytes.take copied)
      else if r.nlim ≠ r.nbuf ∨ r.limit ≤ r.off then
        return (p, if 0 < p.length then none else some .eof)
      else if r.bufSize ≤ (len : ℤ) - p.length then do
        let (bytes, err) ← readDirect src p.length len
        return (p ++ bytes, err)
      else do
        match ← fill src with
        | some err => return (p, if p.length = len then none else some err)
        | none => readLoop src len fuel p
    else return (p, none)

/-- `Read`: the bytes for a target; a turn copies or fills the buffer. -/
def read (src : ReadAt) (len : ℕ) : Comp Reader (List Byte × Option ReadErr) :=
  readLoop src len (2 * len + 2) []

/-- `r.buf[r.pos]`, which is consumed. -/
def takeByte : Comp Reader (Byte × Option ReadErr) := do
  let r ← Comp.get
  if 0 ≤ r.pos ∧ r.pos < maxBufferSize then do
    Comp.set { r with pos := r.pos + 1 }
    return (r.buf r.pos.toNat, none)
  else Comp.panic "index out of range"

def readByte (src : ReadAt) : Comp Reader (Byte × Option ReadErr) := do
  let r ← Comp.get
  if r.nlim ≤ r.pos then do
    match ← fill src with
    | some err => return (0, some err)
    | none => takeByte
  else takeByte

/-- `Peek`. The slice is `nil` together with an error. -/
def peek (src : ReadAt) (n : ℤ) : Comp Reader (Except ReadErr (List Byte)) := do
  let r ← Comp.get
  if r.bufSize < n then return .error .bufferTooSmall
  else if r.nlim - r.pos < n then do
    match ← fill src with
    | some err => return .error err
    | none => do
      let r ← Comp.get
      if r.nlim - r.pos < n then return .error .eof
      else return .ok (← bufSlice r.pos (r.pos + n))
  else return .ok (← bufSlice r.pos (r.pos + n))

def readN (src : ReadAt) (n : ℤ) : Comp Reader (Except ReadErr (List Byte)) := do
  match ← peek src n with
  | .error err => return .error err
  | .ok bytes => do
    let r ← Comp.get
    Comp.set { r with pos := r.pos + n }
    return .ok bytes

def uint8 (src : ReadAt) : Comp Reader ℕ := do
  return (← readByte src).1.toNat

/-- `Uint16`, `Uint32` and `Uint64`: a number of `n` bytes, zero if there are less. -/
def uintN (n : ℕ) (src : ReadAt) : Comp Reader ℕ := do
  match ← readN src n with
  | .error _ => return 0
  | .ok bytes => return leNat bytes

def uint16 : ReadAt → Comp Reader ℕ := uintN 2

def uint32 : ReadAt → Comp Reader ℕ := uintN 4

def uint64 : ReadAt → Comp Reader ℕ := uintN 8

/-- The part of a turn of `Discard` behind the test of the buffer. -/
def discardBuffered (n discarded : ℤ) : Comp Reader ℤ := do
  let r ← Comp.get
  let part := min (r.nlim - r.pos) (n - discarded)
  Comp.set { r with pos := r.pos + part }
  return discarded + part

/-- The loop of `Discard`. -/
def discardLoop (src : ReadAt) (n : ℤ) : ℕ → ℤ → Comp Reader (ℤ × Option ReadErr)
  | 0, _ => Comp.hang
  | fuel + 1, discarded =>
    if discarded < n then do
      let r ← Comp.get
      if r.nlim ≤ r.pos then do
        match ← fill src with
        | some err => return (discarded, some err)
        | none => do
          let discarded ← discardBuffered n discarded
          discardLoop src n fuel discarded
      else do
        let discarded ← discardBuffered n discarded
        discardLoop src n fuel discarded
    else return (discarded, none)

def discard (src : ReadAt) (n : ℤ) : Comp Reader (ℤ × Option ReadErr) :=
  if n < 0 then return (0, some .negativeCount)
  else discardLoop src n (n.toNat + 1) 0

/-- The loop of `ReadSlice`. -/
def readSliceLoop (src : ReadAt) (delim : Byte) :
    ℕ → Comp Reader (List Byte × Option ReadErr)
  | 0 => Comp.hang
  | fuel + 1 => do
    let r ← Comp.get
    let bytes ← bufSlice r.pos r.nlim
    match bytes.idxOf? delim with
    | some i => do
      Comp.set { r with pos := r.pos + (i + 1) }
      return (bytes.take i, none)
    | none =>
      if r.slimit ≤ r.off then do
        Comp.set { r with pos := r.nlim }
        return (bytes, some .eof)
      else if r.nlim ≠ r.nbuf ∨ r.pos = 0 ∧ r.nbuf = r.bufSize then do
        Comp.set { r with pos := r.nlim }
        return (bytes, some .bufferTooSmall)
      else do
        match ← fill src with
        | some err => return ([], some err)
        | none => readSliceLoop src delim fuel

/-- `ReadSlice`; after a `fill` the second turn is the last one. -/
def readSlice (src : ReadAt) (delim : Byte) : Comp Reader (List Byte × Option ReadErr) :=
  readSliceLoop src delim 2

/-- `bytes.Index`. -/
def indexOf (pattern bytes : List Byte) : Option ℕ :=
  (List.range (bytes.length + 1)).find? fun i => pattern.isPrefixOf (bytes.drop i)

/-- The loop of `SearchSlice`. -/
def searchLoop (src : ReadAt) (pattern : List Byte) : ℕ → Comp Reader (ℤ × Option ReadErr)
  | 0 => Comp.hang
  | fuel + 1 => do
    let r ← Comp.get
    let bytes ← bufSlice r.pos r.nlim
    match indexOf pattern bytes with
    | some i => do
      Comp.set { r with pos := r.pos + (i + pattern.length) }
      return (i64 (r.tell + i), none)
    | none => do
      Comp.set { r with pos := r.nlim - min (r.nlim - r.pos) (pattern.length - 1) }
      match ← fill src with
      | some err => do
        let r ← Comp.get
        Comp.set { r with pos := r.nlim }
        return (-1, some err)
      | none => searchLoop src pattern fuel

/-- `SearchSlice`. Each turn but the last reads at least a byte. -/
def searchSlice (src : ReadAt) (pattern : List Byte) : Comp Reader (ℤ × Option ReadErr) := do
  let r ← Comp.get
  if pattern.length = 0 then return (r.tell, none)
  else searchLoop src pattern ((r.slimit - r.off).toNat + 1)

/-- `Seek`; zero is `io.SeekStart`. -/
def seek (offset : ℤ) (whence : ℕ) : Comp Reader (ℤ × Option ReadErr) := do
  let r ← Comp.get
  if whence ≠ 0 then return (0, some .whence)
  else if i64 (offset + r.start) < r.start then return (0, some .offset)
  else do
    Comp.set { r with off := i64 (offset + r.start) }.flush
    return (i64 (i64 (offset + r.start) - r.start), none)

def startSection (n : ℤ) : Comp Reader (Option ReadErr) := do
  let r ← Comp.get
  if n < 0 then return some .negativeCount
  else if r.remaining < n then return some .unexpectedEOF
  else do
    Comp.set <| Reader.updateBufferLimit { r with
      sectionEnds := r.slimit :: r.sectionEnds
      slimit := i64 (r.off - (r.nbuf - r.pos) + n) }
    return none

/-- The end of `EndSection`. -/
def leaveSection (oldEnd : ℤ) : Comp Reader Unit := do
  let r ← Comp.get
  Comp.set { r with slimit := oldEnd }.updateBufferLimit

def endSection (src : ReadAt) : Comp Reader Unit := do
  let r ← Comp.get
  match r.sectionEnds with
  | [] => Comp.panic "index out of range"
  | oldEnd :: ends => do
    Comp.set { r with sectionEnds := ends }
    if 0 < r.remaining then do
      let _ ← discard src r.remaining
      leaveSection oldEnd
    else leaveSection oldEnd

end EbpfProfiler.PfBufio
