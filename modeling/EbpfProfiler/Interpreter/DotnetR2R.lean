import EbpfProfiler.Interpreter.DotnetNativeTable
import EbpfProfiler.Lib.Bisect
import EbpfProfiler.Lib.Comp

/-!
# Method names of ready-to-run code

`parseR2RMethodDefs` (`dotnet/pe.go`) writes doubled start addresses into the list of methods;
methods behind the last one with code keep a zero, so that the list is not in order there.
-/

namespace EbpfProfiler.Interpreter.Dotnet

open Lib List Option

/-! ## Types and methods -/

/-- A type of the metadata. -/
structure PeTypeSpec where
  namespaceIdx : ℕ
  typeNameIdx : ℕ
  methodIdx : ℕ
  enclosingClass : ℕ

/-- A method of the metadata. -/
structure PeMethodSpec where
  methodNameIdx : ℕ
  startRVA : ℕ

/-- What names are resolved with; `parseNestedClass` only takes an earlier enclosing class. -/
structure PeInfo where
  typeSpecs : List PeTypeSpec
  methodSpecs : List PeMethodSpec
  nested : ∀ (i : ℕ) (t : PeTypeSpec), typeSpecs[i]? = some t → t.enclosingClass ≤ i

/-- The walk over the enclosing classes: the outermost type, and the name. -/
def enclosingName (types : List PeTypeSpec) (lookup : ℕ → String) :
    ℕ → PeTypeSpec → String → Except Fault (PeTypeSpec × String)
  | 0, _, _ => .error .hang
  | n + 1, typeSpec, typeName =>
    if typeSpec.enclosingClass = 0 then .ok (typeSpec, typeName)
    else
      match types[typeSpec.enclosingClass - 1]? with
      | none => .error (.panic "index out of range")
      | some enclosingSpec =>
        enclosingName types lookup n enclosingSpec
          (lookup enclosingSpec.typeNameIdx ++ "/" ++ typeName)

/-- `resolveMethodName`, with the strings of the heap. -/
def resolveMethodName (info : PeInfo) (lookup : ℕ → String) (methodIdx : ℕ) : Except Fault String :=
  let idx := firstPassing (fun i => (info.typeSpecs[i]?.map (·.methodIdx)).getD 0 > methodIdx)
    info.typeSpecs.length
  if methodIdx = 0 ∨ methodIdx > info.methodSpecs.length ∨ idx = 0 then
    .ok ("<invalid method index " ++ toString methodIdx ++ "/" ++
      toString info.methodSpecs.length ++ ">")
  else
    match info.typeSpecs[idx - 1]?, info.methodSpecs[methodIdx - 1]? with
    | some typeSpec, some methodSpec => do
      let (typeSpec, typeName) ← enclosingName info.typeSpecs lookup idx typeSpec
        (lookup typeSpec.typeNameIdx)
      let methodName := lookup methodSpec.methodNameIdx
      if typeSpec.namespaceIdx ≠ 0 then
        pure (lookup typeSpec.namespaceIdx ++ "." ++ typeName ++ "." ++ methodName)
      else pure (typeName ++ "." ++ methodName)
    | _, _ => .error (.panic "index out of range")

/-! ## The entry points -/

/-- The sections of the image: entry points of methods, and functions. -/
structure R2RImage where
  table : List Byte
  functions : List Byte
  arm64 : Bool

/-- `r2rRuntimeFunctionSize`, `r2rRuntimeFunctionSizeARM64`. -/
def R2RImage.stride (img : R2RImage) : ℕ := if img.arm64 then 8 else 12

def functionIdx (id : ℕ) : ℕ := if id % 2 ≠ 0 then id / 4 else id / 2

/-- `binary.Read` of four bytes. -/
def readUint32 (d : List Byte) (offs : ℕ) : Except String ℕ :=
  if offs + 4 ≤ d.length then .ok (leNat (slice d offs (offs + 4)))
  else if d.length ≤ offs then .error "EOF" else .error "unexpected EOF"

/-- The variables of `parseR2RMethodDefs` that its callback changes. -/
structure MethodWalk where
  specs : List PeMethodSpec
  prevIndex : ℕ
  prevRVA : ℕ

def setStart (specs : List PeMethodSpec) (i startRVA : ℕ) : List PeMethodSpec :=
  specs.modify i fun m => { m with startRVA := startRVA }

/-- The loop over the methods without code: `n` methods from `i` on. -/
def fillStarts (startRVA : ℕ) : ℕ → ℕ → List PeMethodSpec → List PeMethodSpec
  | 0, _, specs => specs
  | n + 1, i, specs => fillStarts startRVA n (i + 1) (setStart specs i startRVA)

/-- The callback of `parseR2RMethodDefs`. -/
def methodDefEntry (img : R2RImage) (index offset : ℕ) (w : MethodWalk) :
    Except String MethodWalk := do
  let (id, _) ← uint img.table offset
  if w.specs.length ≤ index then
    .error ("method spec index " ++ toString index ++ " is out of range (" ++
      toString w.specs.length ++ ")")
  else
    let rva ← readUint32 img.functions (functionIdx id * img.stride)
    let startRVA := rva * 2 % 2 ^ 32
    if startRVA < w.prevRVA then
      .error ("non-monotonic R2R code RVA: " ++ hex startRVA ++ " < " ++ hex w.prevRVA)
    else
      let filled := fillStarts (subWord 32 startRVA 1) (index - (w.prevIndex + 1)) (w.prevIndex + 1)
        w.specs
      pure ⟨setStart filled index startRVA, index, startRVA⟩

/-- `parseR2RMethodDefs` for the methods with these names, with starts at zero. -/
def parseR2RMethodDefs (img : R2RImage) (names : List ℕ) : Except String (List PeMethodSpec) :=
  (walkTable img.table (methodDefEntry img) ⟨names.map fun m => ⟨m, 0⟩, 0, 0⟩).map (·.specs)

/-! ## The search -/

def startAt (specs : List PeMethodSpec) (i : ℕ) : ℕ := (specs[i]?.map (·.startRVA)).getD 0

/-- The index of `resolveR2RMethodName`: the first method not below the doubled address if it
matches, and otherwise the one in front. Methods count from one. -/
def r2rMethodIdx (specs : List PeMethodSpec) (pcRVA : ℕ) : ℕ :=
  let target := pcRVA * 2 % 2 ^ 32
  let idx := firstPassing (fun i => target ≤ startAt specs i) specs.length
  if idx < specs.length ∧ startAt specs idx = target then idx + 1 else idx

def resolveR2RMethodName (info : PeInfo) (lookup : ℕ → String) (pcRVA : ℕ) : Except Fault String :=
  resolveMethodName info lookup (r2rMethodIdx info.methodSpecs pcRVA)

/-! ## What the image says -/

def R2RImage.entryStart (img : R2RImage) (offset : ℕ) : Except String ℕ := do
  let (id, _) ← uint img.table offset
  readUint32 img.functions (functionIdx id * img.stride)

/-- Where the runtime finds the code of a method. -/
def R2RImage.methodStart (img : R2RImage) (i : ℕ) : Option ℕ :=
  (tryGetAt img.table i).bind fun offset => (img.entryStart offset).toOption

def firstStart (start : ℕ → Option ℕ) : ℕ → ℕ → Option ℕ
  | 0, _ => none
  | n + 1, i => (start i).or (firstStart start n (i + 1))

/-- The doubled start of a method, or one less than that of the next method with code, or zero. -/
def slot (start : ℕ → Option ℕ) (n i : ℕ) : ℕ :=
  match start i with
  | some s => s * 2
  | none =>
    if i = 0 then 0
    else ((firstStart start (n - (i + 1)) (i + 1)).map fun s => subWord 32 (s * 2) 1).getD 0

variable {l : List (ℕ × ℕ)} {w : MethodWalk} {b i k n s : ℕ}

/-! ## Names -/

/-- The walk over enclosing classes ends, as they only lead to earlier ones. -/
lemma enclosingName_ok {types : List PeTypeSpec}
    (hnested : ∀ (i : ℕ) (t : PeTypeSpec), types[i]? = some t → t.enclosingClass ≤ i)
    (lookup : ℕ → String) {t : PeTypeSpec} (ht : types[i]? = some t) (hi : i < n) (name : String) :
    ∃ r, enclosingName types lookup n t name = .ok r := by
  induction n generalizing i t name with
  | zero => omega
  | succ n ih =>
    have hle := hnested i t ht
    rw [enclosingName]
    by_cases hzero : t.enclosingClass = 0
    · exact ⟨_, if_pos hzero⟩
    · have hlen : i < types.length := (List.getElem?_eq_some_iff.mp ht).1
      have houter : types[t.enclosingClass - 1]? = some types[t.enclosingClass - 1] :=
        getElem?_eq_getElem (by omega)
      rw [if_neg hzero, houter]
      exact ih houter (by omega) _

lemma resolveMethodName_ok (info : PeInfo) (lookup : ℕ → String) (methodIdx : ℕ) :
    ∃ name, resolveMethodName info lookup methodIdx = .ok name := by
  unfold resolveMethodName
  dsimp only
  split
  · exact ⟨_, rfl⟩
  · next hvalid =>
    have hidx := (firstPassing_found (fun i =>
      (info.typeSpecs[i]?.map (·.methodIdx)).getD 0 > methodIdx) info.typeSpecs.length).le_hi
    generalize firstPassing
      (fun i => decide ((info.typeSpecs[i]?.map (·.methodIdx)).getD 0 > methodIdx))
      info.typeSpecs.length = idx at hvalid hidx
    have htype : info.typeSpecs[idx - 1]? = some info.typeSpecs[idx - 1] :=
      getElem?_eq_getElem (by omega)
    have hmethod : info.methodSpecs[methodIdx - 1]? = some info.methodSpecs[methodIdx - 1] :=
      getElem?_eq_getElem (by omega)
    obtain ⟨r, hr⟩ := enclosingName_ok info.nested lookup htype (n := idx) (by omega)
      (lookup info.typeSpecs[idx - 1].typeNameIdx)
    rw [htype, hmethod]
    dsimp only
    rw [hr]
    by_cases hspace : r.1.namespaceIdx ≠ 0
    · exact ⟨_, if_pos hspace⟩
    · exact ⟨_, if_neg hspace⟩

/-! ## The list of methods -/

lemma getElem?_setStart (specs : List PeMethodSpec) (i v j : ℕ) : (setStart specs i v)[j]? =
      specs[j]?.map fun m => ⟨m.methodNameIdx, if j = i then v else m.startRVA⟩ := by
  rw [setStart]
  by_cases hj : i = j
  · simp [hj]
  · simp [hj, Ne.symm hj]

lemma getElem?_fillStarts (v n i : ℕ) (specs : List PeMethodSpec) (j : ℕ) :
    (fillStarts v n i specs)[j]? =
      specs[j]?.map fun m => ⟨m.methodNameIdx, if i ≤ j ∧ j < i + n then v else m.startRVA⟩ := by
  induction n generalizing i specs with
  | zero =>
    have hout : ¬ (i ≤ j ∧ j < i + 0) := by omega
    simp only [fillStarts, if_neg hout, Option.map_id_fun', id]
  | succ n ih =>
    rw [fillStarts, ih, getElem?_setStart, Option.map_map]
    congr 1
    funext m
    simp only [Function.comp, PeMethodSpec.mk.injEq, true_and]
    split_ifs <;> omega

section
variable {img : R2RImage} {names : List ℕ} {start : ℕ → Option ℕ}

lemma firstStart_eq_some {m : ℕ} (hm : start m = some s) (hlo : i ≤ m) (hhi : m < i + n)
    (hnone : ∀ j, i ≤ j → j < m → start j = none) : firstStart start n i = some s := by
  induction n generalizing i with
  | zero => omega
  | succ n ih =>
    rw [firstStart]
    by_cases him : i = m
    · rw [him, hm, some_or]
    · rw [hnone i (Nat.le_refl i) (by omega)]
      exact ih (by omega) (by omega) fun j hj => hnone j (by omega)

lemma firstStart_eq_none (hnone : ∀ j, i ≤ j → start j = none) : firstStart start n i = none := by
  induction n generalizing i with
  | zero => rfl
  | succ n ih =>
    rw [firstStart, hnone i (Nat.le_refl i)]
    exact ih fun j hj => hnone j (by omega)

/-- The list while the entry points below `k` have been seen. -/
structure Filled (start : ℕ → Option ℕ) (names : List ℕ) (k : ℕ) (w : MethodWalk) : Prop where
  specs : ∀ i, w.specs[i]? =
    names[i]?.map fun m => PeMethodSpec.mk m (if i < k then slot start names.length i else 0)
  prevIndex : w.prevIndex = k - 1
  prevRVA : ∀ i s, k ≤ i → start i = some s → w.prevRVA ≤ s * 2

lemma Filled.length_eq (h : Filled start names k w) : w.specs.length = names.length := by
  apply le_antisymm
  · have := h.specs names.length
    simpa using this
  · have := h.specs w.specs.length
    simpa using this

lemma methodDefEntry_ok {index offset rva : ℕ} (h : img.entryStart offset = .ok rva)
    (hindex : index < w.specs.length) (hmono : w.prevRVA ≤ rva * 2 % 2 ^ 32) :
    methodDefEntry img index offset w =
      .ok ⟨setStart (fillStarts (subWord 32 (rva * 2 % 2 ^ 32) 1) (index - (w.prevIndex + 1))
        (w.prevIndex + 1) w.specs) index (rva * 2 % 2 ^ 32), index, rva * 2 % 2 ^ 32⟩ := by
  unfold R2RImage.entryStart at h
  unfold methodDefEntry
  cases hid : uint img.table offset with
  | error e =>
    rw [hid] at h
    cases h
  | ok id =>
    rw [hid] at h
    have hread : readUint32 img.functions (functionIdx id.1 * img.stride) = .ok rva := h
    show (if _ then _ else readUint32 img.functions (functionIdx id.1 * img.stride) >>= _) = _
    rw [if_neg (by omega), hread]
    exact if_neg (by omega)

/-- **Step lemma.** The callback fills the list up to the method it is called for. -/
lemma methodDefEntry_filled {m offset : ℕ} (h : Filled start names k w) (hk : k ≤ m)
    (hm : m < names.length) (hstart : start m = some s) (hs : s < 2 ^ 31)
    (hentry : img.entryStart offset = .ok s) (hnone : ∀ j, k ≤ j → j < m → start j = none)
    (hmono : ∀ i t, m < i → start i = some t → s ≤ t) :
    ∃ w', methodDefEntry img m offset w = .ok w' ∧ Filled start names (m + 1) w' := by
  have hlen : w.specs.length = names.length := h.length_eq
  have hdouble : s * 2 % 2 ^ 32 = s * 2 := Nat.mod_eq_of_lt (by omega)
  have hprev := h.prevRVA m s hk hstart
  refine ⟨_, methodDefEntry_ok hentry (by omega) (by omega), ?_, ?_, ?_⟩
  · intro i
    rw [hdouble, getElem?_setStart, getElem?_fillStarts, h.specs, Option.map_map, Option.map_map]
    congr 1
    funext name
    simp only [Function.comp, PeMethodSpec.mk.injEq, true_and]
    have hindex := h.prevIndex
    by_cases him : i = m
    · rw [if_pos him, if_pos (by omega), him, slot, hstart]
    · rw [if_neg him]
      by_cases hik : i < k
      · rw [if_neg (by omega), if_pos hik, if_pos (by omega)]
      · by_cases hi : i < m
        · -- a method without code in front of the one the callback is called for
          have hnext : firstStart start (names.length - (i + 1)) (i + 1) = some s :=
            firstStart_eq_some hstart (by omega) (by omega) fun j hj => hnone j (by omega)
          rw [if_pos (by omega : i < m + 1), slot, hnone i (by omega) hi]
          by_cases hzero : i = 0
          · rw [if_neg (by omega), if_neg hik, if_pos hzero]
          · rw [if_pos (by omega), if_neg hzero, hnext, map_some, getD_some]
        · rw [if_neg (by omega), if_neg hik, if_neg (by omega)]
  · show m = m + 1 - 1
    omega
  · intro i t hi ht
    show s * 2 % 2 ^ 32 ≤ t * 2
    have := hmono i t (by omega) ht
    omega

/-- **Run lemma.** The walk over the entry points from `k` on fills the whole list. -/
lemma foldlM_filled (img : R2RImage) (h : Filled start names k w)
    (hsorted : l.Pairwise fun a b => a.1 < b.1) (hge : ∀ e ∈ l, k ≤ e.1)
    (hread : ∀ e ∈ l, ∃ s, img.entryStart e.2 = .ok s ∧ start e.1 = some s)
    (hall : ∀ i s, k ≤ i → start i = some s → ∃ o, (i, o) ∈ l)
    (hindex : ∀ i s, start i = some s → i < names.length)
    (hsmall : ∀ i s, start i = some s → s < 2 ^ 31)
    (hmono : ∀ i j s t, i < j → start i = some s → start j = some t → s ≤ t) :
    ∃ w' k', l.foldlM (fun w e => methodDefEntry img e.1 e.2 w) w = .ok w' ∧
      Filled start names k' w' ∧ ∀ i, k' ≤ i → start i = none := by
  induction l generalizing k w with
  | nil =>
    refine ⟨w, k, rfl, h, fun i hi => ?_⟩
    by_contra hne
    obtain ⟨s, hs⟩ := ne_none_iff_exists'.mp hne
    obtain ⟨o, ho⟩ := hall i s hi hs
    cases ho
  | cons e l ih =>
    obtain ⟨hhead, htail⟩ := pairwise_cons.mp hsorted
    obtain ⟨s, hentry, hs⟩ := hread e mem_cons_self
    -- the methods between the last entry and this one have no code
    have hnone : ∀ j, k ≤ j → j < e.1 → start j = none := by
      intro j hkj hj
      by_contra hne
      obtain ⟨t, ht⟩ := ne_none_iff_exists'.mp hne
      obtain ⟨o, ho⟩ := hall j t hkj ht
      rcases mem_cons.mp ho with heq | hmem
      · rw [← heq] at hj
        exact lt_irrefl _ hj
      · exact absurd (hhead _ hmem) (not_lt.mpr (le_of_lt hj))
    obtain ⟨w₁, hw₁, hfilled⟩ := methodDefEntry_filled h (hge e mem_cons_self) (hindex _ _ hs) hs
      (hsmall _ _ hs) hentry hnone fun i t hi ht => hmono _ i s t hi hs ht
    have hall' : ∀ i t, e.1 + 1 ≤ i → start i = some t → ∃ o, (i, o) ∈ l := by
      intro i t hi ht
      have hk := hge e mem_cons_self
      obtain ⟨o, ho⟩ := hall i t (by omega) ht
      rcases mem_cons.mp ho with heq | hmem
      · rw [← heq] at hi
        exact absurd hi (Nat.not_succ_le_self i)
      · exact ⟨o, hmem⟩
    rw [foldlM_cons, hw₁]
    exact ih hfilled htail hhead (fun e' he' => hread e' (mem_cons_of_mem _ he')) hall'

lemma methodStart_eq_some_iff (hl : TableAt img.table l) (i t : ℕ) :
    img.methodStart i = some t ↔ ∃ o, (i, o) ∈ l ∧ img.entryStart o = .ok t := by
  simp only [R2RImage.methodStart, bind_eq_some_iff, tryGetAt_eq_some_iff hl]
  refine exists_congr fun o => and_congr_right fun _ => ?_
  cases img.entryStart o with
  | error e => simp [Except.toOption]
  | ok t => simp [Except.toOption]

/-- Entry points of known methods with readable, ascending starts of 31 bits. -/
structure EntryPoints (img : R2RImage) (n : ℕ) : Prop where
  table : ∃ l, TableAt img.table l
  readable : ∀ i offset, tryGetAt img.table i = some offset → ∃ s, img.entryStart offset = .ok s
  index_lt : ∀ i s, img.methodStart i = some s → i < n
  start_lt : ∀ i s, img.methodStart i = some s → s < 2 ^ 31
  mono : ∀ i j s t, i < j → img.methodStart i = some s → img.methodStart j = some t → s ≤ t

lemma parseR2RMethodDefs_eq (h : EntryPoints img names.length) : parseR2RMethodDefs img names =
      .ok (names.mapIdx fun i m => ⟨m, slot img.methodStart names.length i⟩) := by
  obtain ⟨l, hl⟩ := h.table
  have hstart := methodStart_eq_some_iff hl
  have hinit : Filled img.methodStart names 0 ⟨names.map fun m => ⟨m, 0⟩, 0, 0⟩ := by
    refine ⟨fun i => ?_, rfl, fun i s _ _ => Nat.zero_le _⟩
    simp
  obtain ⟨w, k, hw, hfilled, hnone⟩ := foldlM_filled img hinit hl.sorted
    (fun e _ => Nat.zero_le _)
    (by
      intro e he
      obtain ⟨s, hs⟩ := h.readable e.1 e.2 ((tryGetAt_eq_some_iff hl _ _).mpr he)
      exact ⟨s, hs, (hstart _ _).mpr ⟨e.2, he, hs⟩⟩)
    (by
      intro i s _ hs
      obtain ⟨o, ho, -⟩ := (hstart i s).mp hs
      exact ⟨o, ho⟩)
    h.index_lt h.start_lt h.mono
  have hspecs : w.specs = names.mapIdx fun i m => ⟨m, slot img.methodStart names.length i⟩ := by
    apply ext_getElem?
    intro i
    rw [hfilled.specs, getElem?_mapIdx]
    by_cases hi : i < k
    · rw [if_pos hi]
    · -- behind the last method with code nothing has been written
      rw [slot, hnone i (by omega), firstStart_eq_none fun j hj => hnone j (by omega)]
      simp
  rw [parseR2RMethodDefs, walkTable_eq hl, hw, ← hspecs]
  rfl

end

/-! ## What the search finds -/

/-- The numbers are on the right sides of a border at the indices that a search looks at. -/
def Splits (a : ℕ → ℕ) (n target k : ℕ) : Prop :=
  ∀ h ∈ probes k n 0 n, (target ≤ a h ↔ k ≤ h)

/-- A method is found at an exact match, or before the first greater number. -/
def Finds (a : ℕ → ℕ) (n target b : ℕ) : Prop :=
  (a b = target ∧ Splits a n target b) ∨
    (¬ (b + 1 < n ∧ a (b + 1) = target) ∧ Splits a n target (b + 1))

lemma r2rMethodIdx_eq_iff {specs : List PeMethodSpec} (hb : b < specs.length) (pcRVA : ℕ) :
    r2rMethodIdx specs pcRVA = b + 1 ↔
      Finds (startAt specs) specs.length (pcRVA * 2 % 2 ^ 32) b := by
  unfold r2rMethodIdx Finds Splits
  dsimp only
  generalize pcRVA * 2 % 2 ^ 32 = target
  have hexact := firstPassing_eq_iff (fun i => decide (target ≤ startAt specs i)) (le_of_lt hb)
  have hfront := firstPassing_eq_iff (fun i => decide (target ≤ startAt specs i)) hb
  simp only [decide_eq_true_eq] at hexact hfront
  rw [← hexact, ← hfront]
  generalize firstPassing (fun i => decide (target ≤ startAt specs i)) specs.length = idx
  constructor
  · intro h
    split at h
    · next hfound =>
      have hidx : idx = b := by omega
      exact .inl ⟨hidx ▸ hfound.2, hidx⟩
    · next hfound => exact .inr ⟨h ▸ hfound, h⟩
  · intro h
    rcases h with ⟨hmatch, hidx⟩ | ⟨hmatch, hidx⟩
    · rw [if_pos ⟨hidx ▸ hb, hidx ▸ hmatch⟩, hidx]
    · rw [if_neg (hidx ▸ hmatch), hidx]

lemma startAt_mapIdx (names : List ℕ) (a : ℕ → ℕ) (hi : i < names.length) :
    startAt (names.mapIdx fun i m => ⟨m, a i⟩) i = a i := by
  simp [startAt, hi]

lemma finds_congr {a a' : ℕ → ℕ} (hb : b < n) (h : ∀ i, i < n → a i = a' i) (target : ℕ) :
    Finds a n target b ↔ Finds a' n target b := by
  have hsplits : ∀ k, Splits a n target k ↔ Splits a' n target k := by
    intro k
    refine forall₂_congr fun i hi => ?_
    rw [h i (lt_of_mem_probes hi).2]
  have hnext : (b + 1 < n ∧ a (b + 1) = target) ↔ (b + 1 < n ∧ a' (b + 1) = target) :=
    and_congr_right fun hlt => by rw [h _ hlt]
  unfold Finds
  rw [h b hb, hsplits, hsplits, hnext]

/-! ## Indices out of place -/

/-- The number at the index is on the wrong side: an earlier method with the same start, one without
code at address zero or in front of start zero, or one behind the last with code. -/
def OutOfPlace (start : ℕ → Option ℕ) (n q b i : ℕ) : Prop :=
  match start i with
  | some t => i < b ∧ t = q
  | none =>
    if i = 0 then q = 0
    else
      match firstStart start (n - (i + 1)) (i + 1) with
      | some t => t = 0
      | none => q ≠ 0

instance (start : ℕ → Option ℕ) (n q b i : ℕ) : Decidable (OutOfPlace start n q b i) :=
  match h : start i with
  | some t => decidable_of_iff (i < b ∧ t = q) (by simp [OutOfPlace, h])
  | none =>
    match hnext : firstStart start (n - (i + 1)) (i + 1) with
    | some t => decidable_of_iff (if i = 0 then q = 0 else t = 0) (by simp [OutOfPlace, h, hnext])
    | none => decidable_of_iff (if i = 0 then q = 0 else q ≠ 0) (by simp [OutOfPlace, h, hnext])

section
variable {start : ℕ → Option ℕ} {n q b s : ℕ}

lemma firstStart_none (h : firstStart start n i = none) {j : ℕ} (hlo : i ≤ j) (hhi : j < i + n) :
    start j = none := by
  induction n generalizing i with
  | zero => omega
  | succ n ih =>
    rw [firstStart, or_eq_none_iff] at h
    by_cases hij : j = i
    · rw [hij]
      exact h.1
    · exact ih h.2 (by omega) (by omega)

lemma firstStart_some {t : ℕ} (h : firstStart start n i = some t) :
    ∃ m, i ≤ m ∧ m < i + n ∧ start m = some t ∧ ∀ j, i ≤ j → j < m → start j = none := by
  induction n generalizing i with
  | zero => cases h
  | succ n ih =>
    rw [firstStart] at h
    cases hi : start i with
    | some u =>
      rw [hi, some_or] at h
      exact ⟨i, Nat.le_refl i, by omega, by rw [hi, h], fun j hj hji => by omega⟩
    | none =>
      rw [hi] at h
      obtain ⟨m, hlo, hhi, hm, hnone⟩ := ih h
      refine ⟨m, by omega, by omega, hm, fun j hj hjm => ?_⟩
      by_cases hij : j = i
      · rw [hij, hi]
      · exact hnone j (by omega) hjm

/-- The border that a search for the address ends on. -/
def border (s q b : ℕ) : ℕ := if s = q then b else b + 1

variable (hindex : ∀ i t, start i = some t → i < n) (hsmall : ∀ i t, start i = some t → t < 2 ^ 31)
  (hmono : ∀ i j t u, i < j → start i = some t → start j = some u → t ≤ u)
  (hb : start b = some s) (hle : s ≤ q) (hq : q < 2 ^ 31)
  (hlast : ∀ j t, b < j → start j = some t → q < t)

include hindex hsmall hmono hb hle hq hlast

lemma le_slot_iff (i : ℕ) : (q * 2 ≤ slot start n i ↔ border s q b ≤ i) ↔
    ¬ OutOfPlace start n q b i := by
  have hborder : border s q b = b ∧ s = q ∨ border s q b = b + 1 ∧ s < q := by
    unfold border
    split <;> omega
  have hbn := hindex b s hb
  unfold slot OutOfPlace
  cases hi : start i with
  | some t =>
    dsimp only
    rcases Nat.lt_trichotomy i b with hib | hib | hib
    · have := hmono i b t s hib hi hb
      omega
    · have : t = s := by
        rw [hib, hb] at hi
        exact (some.inj hi).symm
      omega
    · have := hlast i t hib hi
      omega
  | none =>
    have hne : i ≠ b := by
      intro hib
      rw [hib, hb] at hi
      cases hi
    dsimp only
    by_cases hzero : i = 0
    · rw [if_pos hzero, if_pos hzero]
      omega
    · rw [if_neg hzero, if_neg hzero]
      cases hnext : firstStart start (n - (i + 1)) (i + 1) with
      | none =>
        -- the method with code at `b` is not behind this one
        have hib : b < i := by
          by_contra hle'
          rw [firstStart_none hnext (j := b) (by omega) (by omega)] at hb
          cases hb
        rw [map_none, getD_none]
        omega
      | some t =>
        obtain ⟨m, hlo, hhi, hm, hbetween⟩ := firstStart_some hnext
        have ht := hsmall m t hm
        rw [map_some, getD_some]
        by_cases htz : t = 0
        · have hib : i < b := by
            by_contra hge
            have := hlast m t (by omega) hm
            omega
          have hslot : subWord 32 (t * 2) 1 = 2 ^ 32 - 1 := by rw [htz]; rfl
          omega
        · rw [subWord_of_le (by omega) (by omega)]
          by_cases hib : i < b
          · have hmb : m ≤ b := by
              by_contra hgt
              rw [hbetween b (by omega) (by omega)] at hb
              cases hb
            have hts : t ≤ s := by
              by_cases heq : m = b
              · rw [heq, hb] at hm
                exact le_of_eq (some.inj hm).symm
              · exact hmono m b t s (by omega) hm hb
            omega
          · have := hlast m t (by omega) hm
            omega

/-- A search for an address of method `b` finds it when no index on its way is out of place. -/
lemma finds_iff : Finds (slot start n) n (q * 2) b ↔
    ∀ i ∈ probes (border s q b) n 0 n, ¬ OutOfPlace start n q b i := by
  have hbn := hindex b s hb
  have hside := le_slot_iff hindex hsmall hmono hb hle hq hlast
  have hsplits : Splits (slot start n) n (q * 2) (border s q b) ↔
      ∀ i ∈ probes (border s q b) n 0 n, ¬ OutOfPlace start n q b i :=
    forall₂_congr fun i _ => hside i
  have hslot : slot start n b = s * 2 := by rw [slot, hb]
  rw [← hsplits]
  unfold Finds
  by_cases hs : s = q
  · -- an exact match: a search that ends behind `b` would have passed it
    have hborder : border s q b = b := if_pos hs
    rw [hborder, hslot, hs]
    constructor
    · intro h
      rcases h with h | h
      · exact h.2
      · have :=
          (h.2 b (mem_probes_pred (Nat.zero_le b) hbn n.lt_two_pow_self)).mp (by rw [hslot, hs])
        omega
    · intro h
      exact .inl ⟨rfl, h⟩
  · have hborder : border s q b = b + 1 := if_neg hs
    rw [hborder]
    constructor
    · intro h
      rcases h with h | h
      · omega
      · exact h.2
    · intro h
      refine .inr ⟨fun hnext => ?_, h⟩
      have heq := hnext.2
      rw [slot] at heq
      cases hstart : start (b + 1) with
      | some t =>
        rw [hstart] at heq
        have := hlast (b + 1) t (by omega) hstart
        dsimp only at heq
        omega
      | none =>
        rw [hstart] at heq
        dsimp only at heq
        rw [if_neg (by omega)] at heq
        cases hfirst : firstStart start (n - (b + 1 + 1)) (b + 1 + 1) with
        | none =>
          rw [hfirst, map_none, getD_none] at heq
          omega
        | some t =>
          obtain ⟨m, hlo, -, hm, -⟩ := firstStart_some hfirst
          have ht := hsmall m t hm
          have hqt := hlast m t (by omega) hm
          rw [hfirst, map_some, getD_some, subWord_of_le (by omega) (by omega)] at heq
          omega

end

/-! ## The name of an address -/

lemma not_finds_of_lt {start : ℕ → Option ℕ} {q : ℕ} (hb : start b = some s) (hbn : b < n)
    (hlt : q < s) : ¬ Finds (slot start n) n (q * 2) b := by
  have hslot : slot start n b = s * 2 := by rw [slot, hb]
  intro h
  rcases h with h | h
  · omega
  · have := (h.2 b (mem_probes_pred (Nat.zero_le b) hbn n.lt_two_pow_self)).mp (by omega)
    omega

section
variable {img : R2RImage} {names : List ℕ} {pcRVA b s : ℕ}

/-- For an address between the start of a method and those of all later ones, a name is found; it is
that of the method exactly when the low 31 bits are not in front of the start and no index on the
way is out of place. -/
theorem resolveR2RMethodName_iff (h : EntryPoints img names.length)
    (hb : img.methodStart b = some s) (_hle : s ≤ pcRVA) (hpc : pcRVA < 2 ^ 32)
    (hlast : ∀ j t, b < j → img.methodStart j = some t → pcRVA < t) :
    ∃ specs, parseR2RMethodDefs img names = .ok specs ∧
      (∀ (info : PeInfo) (lookup : ℕ → String), info.methodSpecs = specs →
        ∃ name, resolveR2RMethodName info lookup pcRVA = .ok name ∧
          resolveMethodName info lookup (r2rMethodIdx specs pcRVA) = .ok name) ∧
      (r2rMethodIdx specs pcRVA = b + 1 ↔
        s ≤ pcRVA % 2 ^ 31 ∧
          ∀ i ∈ probes (border s (pcRVA % 2 ^ 31) b) names.length 0 names.length,
            ¬ OutOfPlace img.methodStart names.length (pcRVA % 2 ^ 31) b i) := by
  refine ⟨_, parseR2RMethodDefs_eq h, ?_, ?_⟩
  · intro info lookup hinfo
    obtain ⟨name, hname⟩ := resolveMethodName_ok info lookup (r2rMethodIdx info.methodSpecs pcRVA)
    exact ⟨name, hname, hinfo ▸ hname⟩
  · have hbn := h.index_lt b s hb
    have htarget : pcRVA * 2 % 2 ^ 32 = pcRVA % 2 ^ 31 * 2 := by omega
    rw [r2rMethodIdx_eq_iff (by rw [length_mapIdx]; exact hbn), length_mapIdx,
      finds_congr hbn (fun i hi => startAt_mapIdx names _ hi), htarget]
    by_cases hs : s ≤ pcRVA % 2 ^ 31
    · rw [and_iff_right hs]
      apply finds_iff h.index_lt h.start_lt h.mono hb hs (Nat.mod_lt _ (by omega))
      intro j t hj ht
      have := hlast j t hj ht
      omega
    · rw [iff_false_left (not_finds_of_lt hb hbn (by omega))]
      intro hcond
      exact hs hcond.1

end

/-! ## Two images -/

lemma EntryPoints.of_entries {img : R2RImage} (hl : TableAt img.table l) (f : ℕ → ℕ)
    (hread : ∀ e ∈ l, img.entryStart e.2 = .ok (f e.1)) (hindex : ∀ e ∈ l, e.1 < n)
    (hsmall : ∀ e ∈ l, f e.1 < 2 ^ 31) (hmono : ∀ e ∈ l, ∀ e' ∈ l, e.1 < e'.1 → f e.1 ≤ f e'.1) :
    EntryPoints img n := by
  have hstart : ∀ i t, img.methodStart i = some t → ∃ e ∈ l, e.1 = i ∧ f e.1 = t := by
    intro i t ht
    obtain ⟨o, ho, heq⟩ := (methodStart_eq_some_iff hl i t).mp ht
    rw [hread _ ho] at heq
    exact ⟨_, ho, rfl, Except.ok.inj heq⟩
  refine ⟨⟨l, hl⟩, ?_, ?_, ?_, ?_⟩
  · intro i o ho
    exact ⟨_, hread _ ((tryGetAt_eq_some_iff hl i o).mp ho)⟩
  · intro i t ht
    obtain ⟨e, he, rfl, rfl⟩ := hstart i t ht
    exact hindex e he
  · intro i t ht
    obtain ⟨e, he, rfl, rfl⟩ := hstart i t ht
    exact hsmall e he
  · intro i j t u hij ht hu
    obtain ⟨e, he, rfl, rfl⟩ := hstart i t ht
    obtain ⟨e', he', rfl, rfl⟩ := hstart j u hu
    exact hmono e he e' he' hij

def firstAndThird : R2RImage where
  table := [0x18, 0x01, 0x02, 0x02, 0x1e, 0x02, 0x00, 0x02, 0x04]
  functions := leBytes 12 0x10 ++ leBytes 12 0x20
  arm64 := false

lemma firstAndThird_table : TableAt firstAndThird.table [(0, 6), (2, 8)] := by
  have h2 : uint firstAndThird.table 2 = .ok (1, 3) := rfl
  have h3 : uint firstAndThird.table 3 = .ok (1, 4) := rfl
  have h4 : uint firstAndThird.table 4 = .ok (15, 5) := rfl
  have h5 : uint firstAndThird.table 5 = .ok (1, 6) := rfl
  have h7 : uint firstAndThird.table 7 = .ok (1, 8) := rfl
  have hblock : uintFixed firstAndThird.table 1 1 = .ok (1, 2) := rfl
  have hleft : NodeAt firstAndThird.table 1 5 0 [(0, 6)] := .left h5 rfl (.entry 6 0)
  have hright : NodeAt firstAndThird.table 1 7 2 [(2, 8)] := .left h7 rfl (.entry 8 2)
  have hnode : NodeAt firstAndThird.table 4 2 0 [(0, 6), (2, 8)] :=
    .left h2 rfl (.left h3 rfl (.both h4 rfl hleft hright))
  exact ⟨12, 1, rfl, .block hblock hnode (.done 16 2), by decide⟩

/-- The method between those with code is in place: behind the first start its name is given. -/
theorem resolveR2RMethodName_firstAndThird :
    ∃ specs, parseR2RMethodDefs firstAndThird [7, 8, 9] = .ok specs ∧
      r2rMethodIdx specs 0x18 = 0 + 1 := by
  have hpoints : EntryPoints firstAndThird [7, 8, 9].length :=
    .of_entries firstAndThird_table (fun i => if i = 0 then 0x10 else 0x20) (by decide +kernel)
      (by decide) (by decide) (by decide)
  have hzero : firstAndThird.methodStart 0 = some 0x10 := by decide +kernel
  have hlast : ∀ j t, 0 < j → firstAndThird.methodStart j = some t → 0x18 < t := by
    intro j t hj ht
    obtain ⟨o, ho, hread⟩ := (methodStart_eq_some_iff firstAndThird_table j t).mp ht
    have hthird : j = 2 ∧ o = 8 := by simpa [hj.ne'] using ho
    have hstart : firstAndThird.entryStart 8 = .ok 0x20 := by decide +kernel
    rw [hthird.2, hstart] at hread
    have := Except.ok.inj hread
    omega
  obtain ⟨specs, hparse, -, hiff⟩ := resolveR2RMethodName_iff hpoints hzero
    (by decide) (by decide) hlast
  exact ⟨specs, hparse, hiff.mpr ⟨by decide, by decide +kernel⟩⟩

def firstOfThree : R2RImage where
  table := [0x18, 0x01, 0x00, 0x00]
  functions := leBytes 12 0x10
  arm64 := false

lemma firstOfThree_table : TableAt firstOfThree.table [(0, 3)] := by
  have h2 : uint firstOfThree.table 2 = .ok (0, 3) := rfl
  have hblock : uintFixed firstOfThree.table 1 1 = .ok (1, 2) := rfl
  have hnode : NodeAt firstOfThree.table 4 2 0 [(0, 3)] :=
    .single h2 rfl (by decide) (by decide) (by decide)
  exact ⟨12, 1, rfl, .block hblock hnode (.done 16 2), by decide⟩

/-- The methods `A`, `B` and `C` of one class. -/
def firstOfThreeInfo : PeInfo where
  typeSpecs := [⟨0, 4, 1, 0⟩]
  methodSpecs := [⟨1, 0x20⟩, ⟨2, 0⟩, ⟨3, 0⟩]
  nested := by
    intro i t ht
    cases i with
    | zero =>
      have hspec : ⟨0, 4, 1, 0⟩ = t := Option.some.inj ht
      subst hspec
      exact Nat.le_refl 0
    | succ i => cases ht

def firstOfThreeName (i : ℕ) : String := ["", "A", "B", "C", "T"].getD i ""

/-- The last method gets every address behind the start of the only one with code. -/
theorem resolveR2RMethodName_behind_last :
    EntryPoints firstOfThree 3 ∧ firstOfThree.methodStart 0 = some 0x10 ∧
      (∀ j, 0 < j → firstOfThree.methodStart j = none) ∧
      parseR2RMethodDefs firstOfThree [1, 2, 3] = .ok firstOfThreeInfo.methodSpecs ∧
      resolveR2RMethodName firstOfThreeInfo firstOfThreeName 0x18 = .ok "T.C" ∧
      resolveMethodName firstOfThreeInfo firstOfThreeName 1 = .ok "T.A" := by
  have hpoints : EntryPoints firstOfThree 3 :=
    .of_entries firstOfThree_table (fun _ => 0x10) (by decide +kernel) (by decide)
      (by decide) (by decide)
  refine ⟨hpoints, by decide +kernel, ?_, rfl, rfl, rfl⟩
  intro j hj
  rw [eq_none_iff_forall_ne_some]
  intro t ht
  obtain ⟨o, ho, -⟩ := (methodStart_eq_some_iff firstOfThree_table j t).mp ht
  simp only [mem_singleton, Prod.mk.injEq] at ho
  omega

end EbpfProfiler.Interpreter.Dotnet
