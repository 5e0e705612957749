import EbpfProfiler.Lib.Bytes
import EbpfProfiler.Wire.EbpfFrame

/-!
# The memory of a process

`remotememory` and `nopanicslicereader`. A read gives any bytes, or fails.
-/

namespace EbpfProfiler.Interpreter

open Lib
open Wire (Word)

/-- A number in a buffer, or zero when it does not fit (`nopanicslicereader`). -/
def npsrNat (size : ℕ) (b : List Byte) (offs : ℕ) : ℕ :=
  if b.length < (offs + size) % 2 ^ 64 then 0 else leNat (slice b offs (offs + size))

/-- `npsr.Ptr`. -/
def npsrPtr (b : List Byte) (offs : ℕ) : Word := BitVec.ofNat 64 (npsrNat 8 b offs)

/-- `npsr.Uint32`. -/
def npsrUint32 (b : List Byte) (offs : ℕ) : BitVec 32 := BitVec.ofNat 32 (npsrNat 4 b offs)

/-- `RemoteMemory`: what a read of a number of bytes gives, and the bias of pointers. -/
structure RemoteMemory where
  read : Word → ℕ → Except String (List Byte)
  bias : Word

/-- `Ptr`: zero when the read fails. -/
def RemoteMemory.ptr (rm : RemoteMemory) (a : Word) : Word :=
  match rm.read a 8 with
  | .ok b => BitVec.ofNat 64 (leNat b) - rm.bias
  | .error _ => 0

def RemoteMemory.uint32 (rm : RemoteMemory) (a : Word) : BitVec 32 :=
  match rm.read a 4 with
  | .ok b => BitVec.ofNat 32 (leNat b)
  | .error _ => 0

end EbpfProfiler.Interpreter
