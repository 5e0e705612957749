import EbpfProfiler.Lib.Protobuf
import EbpfProfiler.SymbFile.Proto

/-!
# The messages of a symbol file as protocol buffers

`wireProst` meets what the rest of the development assumes of prost.
-/

namespace EbpfProfiler.SymbFile

open List
open Lib Lib.Protobuf

/-! ## Values -/

def utf8 (s : String) : List Byte := s.toByteArray.data.toList.map fun b => b.toBitVec

def ofUtf8 (bytes : List Byte) : Option String :=
  String.fromUTF8? ⟨(bytes.map UInt8.ofBitVec).toArray⟩

lemma ofUtf8_utf8 (s : String) : ofUtf8 (utf8 s) = some s := by
  have hbytes : (⟨((utf8 s).map UInt8.ofBitVec).toArray⟩ : ByteArray) = s.toByteArray := by
    rw [utf8, map_map]
    have hid : (UInt8.ofBitVec ∘ fun b : UInt8 => b.toBitVec) = id := rfl
    rw [hid, map_id]
  rw [ofUtf8, hbytes, String.fromUTF8?, dif_pos s.isValidUTF8]
  rfl

/-- An `i64` with its sign in the lowest bit. -/
def zigzag (d : U64) : ℕ :=
  if 0 ≤ d.toInt then (2 * d.toInt).toNat else (-2 * d.toInt - 1).toNat

def unzigzag (n : ℕ) : U64 :=
  if n % 2 = 0 then BitVec.ofInt 64 (n / 2 : ℕ) else BitVec.ofInt 64 (-((n / 2 : ℕ) + 1))

lemma unzigzag_zigzag (d : U64) : unzigzag (zigzag d) = d := by
  have hofInt := BitVec.ofInt_toInt (x := d)
  unfold zigzag
  split
  · have heven : (2 * d.toInt).toNat % 2 = 0 := by omega
    have hhalf : (((2 * d.toInt).toNat / 2 : ℕ) : ℤ) = d.toInt := by omega
    rw [unzigzag, if_pos heven, hhalf, hofInt]
  · have hodd : ¬ (-2 * d.toInt - 1).toNat % 2 = 0 := by omega
    have hhalf : -((((-2 * d.toInt - 1).toNat / 2 : ℕ) : ℤ) + 1) = d.toInt := by omega
    rw [unzigzag, if_neg hodd, hhalf, hofInt]

/-! ## Fields -/

/-- A number, left out when it is zero. -/
def numField {w : ℕ} (num : ℕ) (n : BitVec w) : List Field :=
  if n = 0 then [] else [⟨num, .varint n.toNat⟩]

/-- A packed list of numbers, left out when it is empty. -/
def packedField (num : ℕ) (ns : List U32) : List Field :=
  if ns = [] then [] else [⟨num, .bytes ((ns.map BitVec.toNat).flatMap encodeVarint)⟩]

def textField (strNum refNum : ℕ) : Option Text → List Field
  | none => []
  | some (.str s) => [⟨strNum, .bytes (utf8 s)⟩]
  | some (.ref i) => [⟨refNum, .varint i.toNat⟩]

def elfVaField (setNum : ℕ) : Option ElfVa → List Field
  | none => []
  | some (.delta d) => [⟨1, .varint (zigzag d)⟩]
  | some (.set a) => [⟨setNum, .varint a.toNat⟩]

def packedNumbers (bytes : List Byte) : Option (List U32) :=
  (parseVarints bytes).map fun ns => ns.map (BitVec.ofNat 32)

lemma packedNumbers_encode (ns : List U32) :
    packedNumbers ((ns.map BitVec.toNat).flatMap encodeVarint) = some ns := by
  rw [packedNumbers, parseVarints_encode, Option.map_some, map_map]
  have hid : (BitVec.ofNat 32 ∘ BitVec.toNat : U32 → U32) = id := by
    funext n
    simp
  rw [hid, map_id]

/-! ## Reading fields -/

section
variable {M : Type} {applyField : M → Field → Option M} {m m₁ m₂ : M} {fs gs : List Field}

/-- The fields `fs` take a message from `m` to `m₁`. -/
def Sets (applyField : M → Field → Option M) (m : M) (fs : List Field) (m₁ : M) : Prop :=
  fs.foldlM applyField m = some m₁

lemma Sets.append (h : Sets applyField m fs m₁) (h' : Sets applyField m₁ gs m₂) :
    Sets applyField m (fs ++ gs) m₂ := by
  unfold Sets at *
  rw [foldlM_append, h]
  exact h'

lemma Sets.nil (h : m = m₁) : Sets applyField m [] m₁ := congrArg some h

lemma Sets.single {f : Field} (h : applyField m f = some m₁) : Sets applyField m [f] m₁ := by
  rw [Sets, foldlM_cons, h]
  rfl

def decodeFields (applyField : M → Field → Option M) (m : M) (bytes : List Byte) : Option M :=
  (parseFields bytes).bind fun fs => fs.foldlM applyField m

lemma Sets.decode (h : Sets applyField m fs m₁) :
    decodeFields applyField m (fs.flatMap Field.encode) = some m₁ := by
  rw [decodeFields, parseFields_encode]
  exact h

lemma sets_numField {w num : ℕ} {n : BitVec w} (put : BitVec w → M) (hzero : m = put 0)
    (hput : ∀ k, applyField m ⟨num, .varint k⟩ = some (put (BitVec.ofNat w k))) :
    Sets applyField m (numField num n) (put n) := by
  unfold numField
  split
  · next h =>
    rw [h]
    exact .nil hzero
  · apply Sets.single
    rw [hput, BitVec.ofNat_toNat, BitVec.setWidth_eq]

lemma sets_packedField {num : ℕ} {ns : List U32} (put : List U32 → M) (hempty : m = put [])
    (hput : ∀ bs, applyField m ⟨num, .bytes bs⟩ = (packedNumbers bs).map put) :
    Sets applyField m (packedField num ns) (put ns) := by
  unfold packedField
  split
  · next h =>
    rw [h]
    exact .nil hempty
  · apply Sets.single
    rw [hput, packedNumbers_encode, Option.map_some]

lemma sets_textField {strNum refNum : ℕ} {t : Option Text} (put : Option Text → M)
    (hnone : m = put none)
    (hstr : ∀ bs, applyField m ⟨strNum, .bytes bs⟩ = (ofUtf8 bs).map fun s => put (some (.str s)))
    (href : ∀ k, applyField m ⟨refNum, .varint k⟩ = some (put (some (.ref (BitVec.ofNat 32 k))))) :
    Sets applyField m (textField strNum refNum t) (put t) := by
  cases t with
  | none => exact .nil hnone
  | some t =>
    cases t with
    | str s =>
      apply Sets.single
      rw [hstr, ofUtf8_utf8, Option.map_some]
    | ref i =>
      apply Sets.single
      rw [href, BitVec.ofNat_toNat, BitVec.setWidth_eq]

lemma sets_elfVaField {setNum : ℕ} {va : Option ElfVa} (put : Option ElfVa → M)
    (hnone : m = put none)
    (hdelta : ∀ k, applyField m ⟨1, .varint k⟩ = some (put (some (.delta (unzigzag k)))))
    (hset : ∀ k, applyField m ⟨setNum, .varint k⟩ = some (put (some (.set (BitVec.ofNat 64 k))))) :
    Sets applyField m (elfVaField setNum va) (put va) := by
  cases va with
  | none => exact .nil hnone
  | some va =>
    cases va with
    | delta d =>
      apply Sets.single
      rw [hdelta, unzigzag_zigzag]
    | set a =>
      apply Sets.single
      rw [hset, BitVec.ofNat_toNat, BitVec.setWidth_eq]

end

/-! ## Line tables -/

def LineTable.fields (lt : LineTable) : List Field :=
  packedField 1 lt.offset ++ packedField 2 lt.lineNumber

def LineTable.applyField (lt : LineTable) (f : Field) : Option LineTable :=
  match f.num, f.value with
  | 1, .bytes bs => (packedNumbers bs).map fun ns => { lt with offset := ns }
  | 2, .bytes bs => (packedNumbers bs).map fun ns => { lt with lineNumber := ns }
  | _, _ => some lt

def decodeLineTable (bytes : List Byte) : Option LineTable :=
  decodeFields LineTable.applyField ⟨[], []⟩ bytes

lemma decodeLineTable_encode (lt : LineTable) :
    decodeLineTable (lt.fields.flatMap Field.encode) = some lt := by
  apply Sets.decode
  refine .append (sets_packedField (fun ns => ⟨ns, []⟩) rfl fun _ => rfl) ?_
  exact sets_packedField (fun ns => (⟨lt.offset, ns⟩ : LineTable)) rfl fun _ => rfl

/-! ## Ranges -/

def lineTableField : Option LineTable → List Field
  | none => []
  | some lt => [⟨8, .bytes (lt.fields.flatMap Field.encode)⟩]

def RangeV1.fields (m : RangeV1) : List Field :=
  elfVaField 12 m.elfVa ++
    (numField 2 m.length ++ (textField 3 9 m.func ++ (textField 4 10 m.file ++
    (numField 5 m.callLine ++ (textField 6 11 m.callFile ++ (numField 7 m.depth ++
      lineTableField m.lineTable))))))

def RangeV1.applyField (m : RangeV1) (f : Field) : Option RangeV1 :=
  match f.num, f.value with
  | 1, .varint n => some { m with elfVa := some (.delta (unzigzag n)) }
  | 12, .varint n => some { m with elfVa := some (.set (BitVec.ofNat 64 n)) }
  | 2, .varint n => some { m with length := BitVec.ofNat 64 n }
  | 3, .bytes bs => (ofUtf8 bs).map fun s => { m with func := some (.str s) }
  | 9, .varint n => some { m with func := some (.ref (BitVec.ofNat 32 n)) }
  | 4, .bytes bs => (ofUtf8 bs).map fun s => { m with file := some (.str s) }
  | 10, .varint n => some { m with file := some (.ref (BitVec.ofNat 32 n)) }
  | 5, .varint n => some { m with callLine := BitVec.ofNat 32 n }
  | 6, .bytes bs => (ofUtf8 bs).map fun s => { m with callFile := some (.str s) }
  | 11, .varint n => some { m with callFile := some (.ref (BitVec.ofNat 32 n)) }
  | 7, .varint n => some { m with depth := BitVec.ofNat 32 n }
  | 8, .bytes bs => (decodeLineTable bs).map fun lt => { m with lineTable := some lt }
  | _, _ => some m

lemma sets_lineTableField (m : RangeV1) (hnone : m.lineTable = none) (lt : Option LineTable) :
    Sets RangeV1.applyField m (lineTableField lt) { m with lineTable := lt } := by
  cases lt with
  | none =>
    apply Sets.nil
    rw [← hnone]
  | some lt =>
    apply Sets.single
    show (decodeLineTable _).map _ = _
    rw [decodeLineTable_encode, Option.map_some]

lemma sets_range (m : RangeV1) :
    Sets RangeV1.applyField ⟨none, 0, none, none, 0, none, 0, none⟩ m.fields m := by
  -- every field is set once, in the order in which they are written
  refine .append (sets_elfVaField (fun va => ⟨va, 0, none, none, 0, none, 0, none⟩) rfl
    (fun _ => rfl) fun _ => rfl) ?_
  refine .append
    (sets_numField (fun n => ⟨m.elfVa, n, none, none, 0, none, 0, none⟩) rfl fun _ => rfl) ?_
  refine .append (sets_textField (fun t => ⟨m.elfVa, m.length, t, none, 0, none, 0, none⟩) rfl
    (fun _ => rfl) fun _ => rfl) ?_
  refine .append (sets_textField (fun t => ⟨m.elfVa, m.length, m.func, t, 0, none, 0, none⟩) rfl
    (fun _ => rfl) fun _ => rfl) ?_
  refine .append (sets_numField (fun n => ⟨m.elfVa, m.length, m.func, m.file, n, none, 0, none⟩) rfl
    fun _ => rfl) ?_
  refine .append
    (sets_textField (fun t => ⟨m.elfVa, m.length, m.func, m.file, m.callLine, t, 0, none⟩) rfl
    (fun _ => rfl) fun _ => rfl) ?_
  refine .append (sets_numField
    (fun n => ⟨m.elfVa, m.length, m.func, m.file, m.callLine, m.callFile, n, none⟩) rfl fun _ =>
      rfl) ?_
  exact sets_lineTableField _ rfl m.lineTable

/-! ## Return pads -/

def ReturnPadV1.fields (m : ReturnPadV1) : List Field :=
  elfVaField 5 m.elfVa ++ (packedField 2 m.func ++ (packedField 3 m.file ++ packedField 4 m.line))

def ReturnPadV1.applyField (m : ReturnPadV1) (f : Field) : Option ReturnPadV1 :=
  match f.num, f.value with
  | 1, .varint n => some { m with elfVa := some (.delta (unzigzag n)) }
  | 5, .varint n => some { m with elfVa := some (.set (BitVec.ofNat 64 n)) }
  | 2, .bytes bs => (packedNumbers bs).map fun ns => { m with func := ns }
  | 3, .bytes bs => (packedNumbers bs).map fun ns => { m with file := ns }
  | 4, .bytes bs => (packedNumbers bs).map fun ns => { m with line := ns }
  | _, _ => some m

lemma sets_returnPad (m : ReturnPadV1) :
    Sets ReturnPadV1.applyField ⟨none, [], [], []⟩ m.fields m := by
  refine .append (sets_elfVaField (fun va => ⟨va, [], [], []⟩) rfl (fun _ => rfl) fun _ => rfl) ?_
  refine .append (sets_packedField (fun ns => ⟨m.elfVa, ns, [], []⟩) rfl fun _ => rfl) ?_
  refine .append (sets_packedField (fun ns => ⟨m.elfVa, m.func, ns, []⟩) rfl fun _ => rfl) ?_
  exact sets_packedField (fun ns => (⟨m.elfVa, m.func, m.file, ns⟩ : ReturnPadV1)) rfl fun _ => rfl

lemma length_le_packedField (num : ℕ) (ns : List U32) :
    ns.length ≤ ((packedField num ns).flatMap Field.encode).length := by
  unfold packedField
  split
  · next h =>
    rw [h]
    exact le_rfl
  · have hle := length_le_flatMap encodeVarint_length_pos (ns.map BitVec.toNat)
    rw [length_map] at hle
    rw [flatMap_singleton, Field.encode, length_append, length_append]
    omega

/-! ## String tables -/

def stringTableFields (strings : List String) : List Field :=
  strings.map fun s => ⟨1, .bytes (utf8 s)⟩

def stringTableApplyField (strings : List String) (f : Field) : Option (List String) :=
  match f.num, f.value with
  | 1, .bytes bs => (ofUtf8 bs).map fun s => strings ++ [s]
  | _, _ => some strings

lemma sets_stringTable (before strings : List String) :
    Sets stringTableApplyField before (stringTableFields strings) (before ++ strings) := by
  induction strings generalizing before with
  | nil => exact .nil (append_nil before).symm
  | cons s strings ih =>
    have hfirst : stringTableApplyField before ⟨1, .bytes (utf8 s)⟩ = some (before ++ [s]) := by
      show (ofUtf8 (utf8 s)).map _ = _
      rw [ofUtf8_utf8, Option.map_some]
    have hall := (Sets.single hfirst).append (ih (before ++ [s]))
    rwa [append_assoc] at hall

/-! ## The codec -/

/-- prost. A header has no fields. -/
def wireProst : Prost where
  header :=
    { encode := fun _ => []
      decode := fun bytes => (parseFields bytes).map fun _ => ()
      decode_encode := fun _ => rfl }
  range :=
    { encode := fun m => m.fields.flatMap Field.encode
      decode := decodeFields RangeV1.applyField ⟨none, 0, none, none, 0, none, 0, none⟩
      decode_encode := fun m => (sets_range m).decode }
  returnPad :=
    { encode := fun m => m.fields.flatMap Field.encode
      decode := decodeFields ReturnPadV1.applyField ⟨none, [], [], []⟩
      decode_encode := fun m => (sets_returnPad m).decode }
  stringTable :=
    { encode := fun strings => (stringTableFields strings).flatMap Field.encode
      decode := decodeFields stringTableApplyField []
      decode_encode := fun strings => (sets_stringTable [] strings).decode }
  length_func_le := by
    intro pad
    have hle := length_le_packedField 2 pad.func
    show pad.func.length ≤ (pad.fields.flatMap Field.encode).length
    rw [ReturnPadV1.fields, flatMap_append, flatMap_append, length_append, length_append]
    omega

end EbpfProfiler.SymbFile
