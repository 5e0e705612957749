import EbpfProfiler.Lib.Varint

/-!
# Symbol files: records, messages and framing

`symblib::symbfile`. A `MessageCodec` is any pair of functions of which the second undoes the first.
-/

namespace EbpfProfiler.SymbFile

open Lib List Varint

abbrev U32 := BitVec 32
abbrev U64 := BitVec 64

/-! ## Records -/

/-- A line from an offset on. -/
structure LineTableEntry where
  offset : U32
  lineNumber : U32
  deriving DecidableEq

/-- The addresses of a function. -/
structure Range where
  elfVa : U64
  length : U32
  func : String
  file : Option String
  callFile : Option String
  callLine : Option U32
  depth : U32
  lineTable : List LineTableEntry
  deriving DecidableEq

/-- A function at a return pad. -/
structure ReturnPadEntry where
  func : String
  file : Option String
  line : Option U32
  deriving DecidableEq

/-- The frames behind a call. -/
structure ReturnPad where
  elfVa : U64
  entries : List ReturnPadEntry
  deriving DecidableEq

/-- What a file is read into. -/
inductive Record where
  | range (r : Range)
  | returnPad (p : ReturnPad)
  deriving DecidableEq

/-! ## Messages -/

/-- The `oneof` for an address; the difference is an `i64`. -/
inductive ElfVa where
  | delta (d : U64)
  | set (a : U64)
  deriving DecidableEq

/-- The `oneof`s for a text: the text itself, or its index in the string table. -/
inductive Text where
  | str (s : String)
  | ref (i : U32)
  deriving DecidableEq

/-- The line table of a message. -/
structure LineTable where
  offset : List U32
  lineNumber : List U32
  deriving DecidableEq

/-- The message of a range. -/
structure RangeV1 where
  elfVa : Option ElfVa
  length : U64
  func : Option Text
  file : Option Text
  callLine : U32
  callFile : Option Text
  depth : U32
  lineTable : Option LineTable
  deriving DecidableEq

/-- The message of a return pad. -/
structure ReturnPadV1 where
  elfVa : Option ElfVa
  func : List U32
  file : List U32
  line : List U32
  deriving DecidableEq

/-- The types of messages. -/
inductive MessageType where
  | invalid
  | header
  | rangeV1
  | returnPadV1
  | stringTableV1
  deriving DecidableEq

def MessageType.toNat : MessageType → ℕ
  | invalid => 0
  | header => 1
  | rangeV1 => 2
  | returnPadV1 => 3
  | stringTableV1 => 4

/-- `MessageType::try_from`. -/
def MessageType.ofNat? : ℕ → Option MessageType
  | 0 => some invalid
  | 1 => some header
  | 2 => some rangeV1
  | 3 => some returnPadV1
  | 4 => some stringTableV1
  | _ => none

lemma MessageType.toNat_le (kind : MessageType) : kind.toNat ≤ 4 := by
  cases kind <;> decide

/-! ## Errors -/

/-- Why a file cannot be read or written. -/
inductive Error where
  | lineTableNotSorted
  | invalidMagic
  | unexpectedType (expected : MessageType) (actual : Option MessageType)
  | invalidMessageType
  | invalidStringTableIndex
  | missingRequiredField (name : String)
  | truncatedMessage
  | varIntTooLong
  | maximumMsgSizeExceeded (size : ℕ)
  | columnLengthMismatch
  | relativeValueWithoutReference
  | unexpectedEof
  | decoding
  deriving DecidableEq

/-- How a call can end without a value. -/
inductive Failure where
  | error (e : Error)
  | panic (text : String)
  | hang
  deriving DecidableEq

/-! ## Encoding of messages -/

/-- `encode` and `decode` of a message type. -/
structure MessageCodec (M : Type) where
  encode : M → List Byte
  decode : List Byte → Option M
  decode_encode : ∀ m, decode (encode m) = some m

/-- prost, for the messages of a symbol file. -/
structure Prost where
  header : MessageCodec Unit
  range : MessageCodec RangeV1
  returnPad : MessageCodec ReturnPadV1
  stringTable : MessageCodec (List String)
  length_func_le : ∀ pad : ReturnPadV1, pad.func.length ≤ (returnPad.encode pad).length

/-! ## Framing -/

def fileMagic : List Byte := [0x73, 0x79, 0x6d, 0x62, 0x66, 0x69, 0x6c, 0x65]

def maxMsgSize : ℕ := 16 * 1024 * 1024

def encodeLengthDelimiter (n : ℕ) : List Byte := Varint.encode 7 9 n

/-- A message with its length and its type, as `write_msg` writes it. -/
def frame (kind : ℕ) (payload : List Byte) : List Byte :=
  encodeLengthDelimiter payload.length ++ encodeLengthDelimiter kind ++ payload

/-- The loop of `read_leb128`; the input may end in front of the first byte only. -/
def readLeb128Loop : ℕ → U64 → ℕ → List Byte → Except Failure (Option (U64 × List Byte))
  | 0, _, _, _ => .error (.error .varIntTooLong)
  | n + 1, _, _, [] => if n = 9 then .ok none else .error (.error .unexpectedEof)
  | n + 1, result, shift, b :: rest =>
    let result := result ||| ((b &&& 0x7f).setWidth 64 <<< shift)
    if b &&& 0x80 = 0 then .ok (some (result, rest)) else readLeb128Loop n result (shift + 7) rest

def readLeb128 (bytes : List Byte) : Except Failure (Option (U64 × List Byte)) :=
  readLeb128Loop 10 0 0 bytes

/-- `read_msg_prefix`: type, length and rest, or `none` at the end; a type must be an `i32`. -/
def readMsgPrefix (bytes : List Byte) :
    Except Failure (Option (Option MessageType × ℕ × List Byte)) := do
  match ← readLeb128 bytes with
  | none => .ok none
  | some (length, rest) =>
    if maxMsgSize < length.toNat then .error (.error (.maximumMsgSizeExceeded length.toNat))
    else
      match ← readLeb128 rest with
      | none => .error (.error .truncatedMessage)
      | some (rawKind, rest) =>
        if 2 ^ 31 ≤ rawKind.toNat then .error (.error .invalidMessageType)
        else .ok (some (MessageType.ofNat? rawKind.toNat, length.toNat, rest))

/-- `read_msg`: the payload is taken from the input and decoded. -/
def readMsg {M : Type} (codec : MessageCodec M) (length : ℕ) (bytes : List Byte) :
    Except Failure (M × List Byte) :=
  if bytes.length < length then .error (.error .truncatedMessage)
  else
    match codec.decode (bytes.take length) with
    | none => .error (.error .decoding)
    | some m => .ok (m, bytes.drop length)

/-! ## Reading back what was framed -/

lemma lastDigit (n : Fin 128) : BitVec.ofNat 8 n.val &&& 0x80 = 0 ∧
    (BitVec.ofNat 8 n.val &&& 0x7f).setWidth 64 = BitVec.ofNat 64 n.val := by
  revert n
  decide

lemma innerDigit (n : Fin 128) : BitVec.ofNat 8 (2 ^ 7 + n.val) &&& 0x80 ≠ 0 ∧
    (BitVec.ofNat 8 (2 ^ 7 + n.val) &&& 0x7f).setWidth 64 = BitVec.ofNat 64 n.val := by
  revert n
  decide

lemma readLeb128_encode {n : ℕ} (hn : n < 2 ^ 64) (rest : List Byte) :
    readLeb128 (encodeLengthDelimiter n ++ rest) = .ok (some (BitVec.ofNat 64 n, rest)) := by
  refine loop_encode (f := fun n shift acc => readLeb128Loop n acc shift)
    (fun hdigit hacc htotal => ?_) (fun r hdigit hacc => ?_) (by omega) (Nat.two_pow_pos 0)
    (Nat.zero_add _)
  · obtain ⟨hlast, hvalue⟩ := lastDigit ⟨_, hdigit⟩
    rw [readLeb128Loop, if_pos hlast, hvalue, ofNat_or_shiftLeft 64 hacc, htotal]
    simp
  · obtain ⟨hmore, hvalue⟩ := innerDigit ⟨_, hdigit⟩
    rw [readLeb128Loop, if_neg hmore, hvalue, ofNat_or_shiftLeft 64 hacc]

lemma readMsgPrefix_frame {kind : ℕ} {payload : List Byte} (hkind : kind < 2 ^ 31)
    (hsize : payload.length ≤ maxMsgSize) (rest : List Byte) :
    readMsgPrefix (frame kind payload ++ rest) =
      .ok (some (MessageType.ofNat? kind, payload.length, payload ++ rest)) := by
  have hmax : maxMsgSize < 2 ^ 64 := by decide
  have hlength : (BitVec.ofNat 64 payload.length).toNat = payload.length := by
    rw [BitVec.toNat_ofNat, Nat.mod_eq_of_lt (by omega)]
  have htype : (BitVec.ofNat 64 kind).toNat = kind := by
    rw [BitVec.toNat_ofNat, Nat.mod_eq_of_lt (by omega)]
  rw [readMsgPrefix, frame, append_assoc, append_assoc, readLeb128_encode (by omega)]
  show (if maxMsgSize < (BitVec.ofNat 64 payload.length).toNat then _ else _) = _
  rw [hlength, if_neg (by omega), readLeb128_encode (by omega)]
  show (if 2 ^ 31 ≤ (BitVec.ofNat 64 kind).toNat then _ else _) = _
  rw [htype, if_neg (by omega)]

lemma readMsg_encode {M : Type} (codec : MessageCodec M) (m : M) (rest : List Byte) :
    readMsg codec (codec.encode m).length (codec.encode m ++ rest) = .ok (m, rest) := by
  rw [readMsg, if_neg (by rw [length_append]; omega), take_left, codec.decode_encode, drop_left]

end EbpfProfiler.SymbFile
