import EbpfProfiler.Lib.Table
import EbpfProfiler.SymbFile.Proto

/-!
# Deduplication of strings

`Builder` and `Mapper` (`symbfile/strdedup.rs`): a string used once is handed out and then gone.
-/

namespace EbpfProfiler.SymbFile

open Lib List AList Table

/-! ## The builder -/

/-- The index and the uses of a string. -/
structure BuilderEntry where
  id : U32
  count : ℕ

/-- The strings of the buffered messages. -/
structure Builder where
  entries : Table String BuilderEntry
  sizeEstimate : ℕ
  nextId : U32

/-- `Builder::default`. -/
def Builder.empty : Builder := ⟨∅, 0, 0⟩

def Builder.indexForStr (b : Builder) (s : String) : U32 × Builder :=
  match b.entries.lookup s with
  | some e => (e.id, { b with entries := b.entries.insert s ⟨e.id, e.count + 1⟩ })
  | none =>
    (b.nextId, ⟨b.entries.insert s ⟨b.nextId, 1⟩, b.sizeEstimate + (5 + s.utf8ByteSize),
      b.nextId + 1⟩)

/-! ## The mapper -/

/-- Where a string is found. -/
inductive Mapping where
  | unique (s : String)
  | translate (i : U32)

/-- The strings to put in and the table. -/
structure Mapper where
  unique : Table U32 String
  translation : Table U32 U32
  table : List String

def Mapper.translate (m : Mapper) (oldIdx : U32) : Except Failure (Mapping × Mapper) :=
  match m.unique.lookup oldIdx with
  | some s => .ok (.unique s, { m with unique := m.unique.erase oldIdx })
  | none =>
    match m.translation.lookup oldIdx with
    | some newIdx => .ok (.translate newIdx, m)
    | none => .error (.panic "bug: invalid index passed to internal `translate` function")

def Mapper.forceEntry (m : Mapper) (oldIdx : U32) : Except Failure (U32 × Mapper) := do
  match ← m.translate oldIdx with
  | (.unique s, m) =>
    let newIdx := BitVec.ofNat 32 m.table.length
    .ok (newIdx, ⟨m.unique, m.translation.insert oldIdx newIdx, m.table ++ [s]⟩)
  | (.translate idx, m) => .ok (idx, m)

/-- The order in which a `HashMap` hands out its entries. -/
structure IterationOrder (α : Type) where
  arrange : List α → List α
  perm : ∀ l, (arrange l).Perm l

abbrev Entry := Sigma fun _ : String => BuilderEntry

def Builder.build (order : IterationOrder Entry) (b : Builder) : Mapper :=
  let entries := order.arrange b.entries.entries
  let duped := entries.filter fun e => e.2.count > 1
  let unique := entries.filter fun e => ¬ e.2.count > 1
  { unique := .ofList (unique.map fun e => (e.2.id, e.1))
    translation := .ofList (duped.zipIdx.map fun e => (e.1.2.id, BitVec.ofNat 32 e.2))
    table := duped.map fun e => e.1 }

/-! ## What a builder has seen -/

/-- The temporary index of a string. -/
def tempIdx (names : List String) (s : String) : U32 := BitVec.ofNat 32 (names.idxOf s)

/-- The builder holds these names. -/
structure Builder.Shows (b : Builder) (names uses : List String) : Prop where
  nodup : names.Nodup
  mem_iff : ∀ s, s ∈ names ↔ s ∈ uses
  lookup : ∀ s, b.entries.lookup s =
    if s ∈ names then some ⟨tempIdx names s, uses.count s⟩ else none
  nextId : b.nextId = BitVec.ofNat 32 names.length
  size : 5 * names.length ≤ b.sizeEstimate

lemma Builder.shows_empty : Builder.empty.Shows [] [] := by
  refine ⟨nodup_nil, fun s => Iff.rfl, fun s => ?_, rfl, le_rfl⟩
  rfl

variable {names uses : List String} {s : String}

lemma tempIdx_of_isPrefix {names' : List String} (h : names <+: names')
    (hs : s ∈ names) : tempIdx names' s = tempIdx names s := by
  obtain ⟨rest, rfl⟩ := h
  rw [tempIdx, tempIdx, idxOf_append_of_mem hs]

lemma getElem?_tempIdx (hlen : names.length ≤ 2 ^ 32)
    (hs : s ∈ names) : names[(tempIdx names s).toNat]? = some s := by
  have hlt : names.idxOf s < names.length := idxOf_lt_length_of_mem hs
  rw [tempIdx, BitVec.toNat_ofNat, Nat.mod_eq_of_lt (by omega), getElem?_eq_getElem hlt,
    getElem_idxOf hlt]

lemma count_append_of_ne {t : String} (h : t ≠ s) (uses : List String) :
    (uses ++ [s]).count t = uses.count t := by
  have hzero : [s].count t = 0 := count_eq_zero.mpr (by simpa using h)
  rw [count_append, hzero, add_zero]

/-- What is known after further uses `ss`. -/
structure Builder.Grows (names uses ss : List String) (b' : Builder)
    (names' : List String) : Prop where
  isPrefix : names <+: names'
  builder : b'.Shows names' (uses ++ ss)
  length : names'.length ≤ names.length + ss.length

lemma Builder.Grows.trans {ss ss' names₁ names₂ : List String} {b₁ b₂ : Builder}
    (h₁ : Grows names uses ss b₁ names₁) (h₂ : Grows names₁ (uses ++ ss) ss' b₂ names₂) :
    Grows names uses (ss ++ ss') b₂ names₂ := by
  have hle₁ := h₁.length
  have hle₂ := h₂.length
  refine ⟨h₁.isPrefix.trans h₂.isPrefix, ?_, ?_⟩
  · rw [← append_assoc]
    exact h₂.builder
  · rw [length_append]
    omega

lemma Builder.Grows.mem {ss names' : List String} {b' : Builder} (h : Grows names uses ss b' names')
    (hs : s ∈ ss) : s ∈ names' :=
  (h.builder.mem_iff s).mpr (mem_append_right _ hs)

lemma Builder.Shows.indexForStr {b : Builder} (h : b.Shows names uses)
    (s : String) : ∃ names', Grows names uses [s] (b.indexForStr s).2 names' ∧
      (b.indexForStr s).1 = tempIdx names' s := by
  by_cases hs : s ∈ names
  · have hlookup := h.lookup s
    rw [if_pos hs] at hlookup
    refine ⟨names, ⟨prefix_refl _, ?_, Nat.le_succ _⟩, ?_⟩
    · rw [Builder.indexForStr, hlookup]
      refine ⟨h.nodup, fun t => ?_, fun t => ?_, h.nextId, h.size⟩
      · rw [h.mem_iff, mem_append, mem_singleton]
        constructor
        · exact .inl
        · intro ht
          rcases ht with ht | ht
          · exact ht
          · rw [ht]
            exact (h.mem_iff s).mp hs
      · by_cases hts : t = s
        · rw [hts, lookup_insert, if_pos hs, count_append, count_singleton_self]
        · rw [lookup_insert_ne hts, h.lookup, count_append_of_ne hts]
    · rw [Builder.indexForStr, hlookup]
  · have hlookup := h.lookup s
    rw [if_neg hs] at hlookup
    have hnew : tempIdx (names ++ [s]) s = BitVec.ofNat 32 names.length := by
      rw [tempIdx, idxOf_append_of_notMem hs, idxOf_cons_self, add_zero]
    refine ⟨names ++ [s], ⟨prefix_append _ _, ?_, ?_⟩, ?_⟩
    · rw [Builder.indexForStr, hlookup]
      refine ⟨?_, fun t => ?_, fun t => ?_, ?_, ?_⟩
      · rw [nodup_append]
        refine ⟨h.nodup, nodup_singleton s, fun a ha b hb => ?_⟩
        rw [mem_singleton.mp hb]
        exact fun heq => hs (heq ▸ ha)
      · rw [mem_append, mem_append, h.mem_iff]
      · by_cases hts : t = s
        · have hcount : uses.count s = 0 :=
            count_eq_zero.mpr fun hmem => hs ((h.mem_iff s).mpr hmem)
          rw [hts, lookup_insert, if_pos (by simp), hnew, count_append, hcount,
            count_singleton_self, h.nextId]
        · have hmem : t ∈ names ++ [s] ↔ t ∈ names := by simp [hts]
          rw [lookup_insert_ne hts, h.lookup, count_append_of_ne hts]
          by_cases ht : t ∈ names
          · rw [if_pos ht, if_pos (hmem.mpr ht), tempIdx_of_isPrefix (prefix_append _ _) ht]
          · rw [if_neg ht, if_neg (mt hmem.mp ht)]
      · rw [length_append]
        show b.nextId + 1 = BitVec.ofNat 32 (names.length + 1)
        rw [h.nextId, BitVec.ofNat_add]
        rfl
      · have hsize := h.size
        rw [length_append]
        show 5 * (names.length + 1) ≤ b.sizeEstimate + (5 + s.utf8ByteSize)
        omega
    · rw [length_append]
    · rw [Builder.indexForStr, hlookup, hnew, h.nextId]

/-! ## What a mapper can still translate -/

/-- The mapper has what the indices `ids` stand for, each asked for at most once. -/
structure Mapper.Serves (m : Mapper) (names : List String) (ids : List U32) : Prop where
  unique : ∀ id s, m.unique.lookup id = some s → names[id.toNat]? = some s
  translation : ∀ id i, m.translation.lookup id = some i →
    ∃ s, names[id.toNat]? = some s ∧ m.table[i.toNat]? = some s
  covers : ∀ id ∈ ids, (∃ s, m.unique.lookup id = some s) ∨ ∃ i, m.translation.lookup id = some i
  once : ∀ id s, m.unique.lookup id = some s → ids.count id ≤ 1
  size : m.table.length + m.unique.entries.length ≤ 2 ^ 32

section
variable {m : Mapper} {names : List String} {id : U32} {ids : List U32}

section
variable (h : m.Serves names (id :: ids))
include h

lemma Mapper.Serves.erase {s : String} (hs : m.unique.lookup id = some s) :
    ({ m with unique := m.unique.erase id } : Mapper).Serves names ids := by
  have hlookup : ∀ id' s', (m.unique.erase id).lookup id' = some s' →
      id' ≠ id ∧ m.unique.lookup id' = some s' := by
    intro id' s' h'
    by_cases hid : id' = id
    · rw [hid, lookup_erase] at h'
      cases h'
    · rw [lookup_erase_ne hid] at h'
      exact ⟨hid, h'⟩
  have hcount := h.once id s hs
  rw [count_cons_self] at hcount
  refine ⟨fun id' s' h' => h.unique id' s' (hlookup id' s' h').2, h.translation, ?_, ?_, ?_⟩
  · intro id' hid'
    have hne : id' ≠ id := by
      intro heq
      have := count_pos_iff.mpr (heq ▸ hid')
      omega
    rcases h.covers id' (mem_cons_of_mem _ hid') with ⟨s', hs'⟩ | htr
    · exact .inl ⟨s', (lookup_erase_ne hne).trans hs'⟩
    · exact .inr htr
  · intro id' s' h'
    have := h.once id' s' (hlookup id' s' h').2
    rw [count_cons] at this
    omega
  · have hsize := h.size
    have hlen := length_erase_add_one hs
    show m.table.length + (m.unique.erase id).entries.length ≤ 2 ^ 32
    omega

lemma Mapper.Serves.tail : m.Serves names ids := by
  refine ⟨h.unique, h.translation, fun id' hid' => h.covers id' (mem_cons_of_mem _ hid'), ?_,
    h.size⟩
  intro id' s' h'
  have := h.once id' s' h'
  rw [count_cons] at this
  omega

lemma Mapper.Serves.translate_spec :
    ∃ mapping m' s, m.translate id = .ok (mapping, m') ∧ m'.Serves names ids ∧ m'.table = m.table ∧
      names[id.toNat]? = some s ∧
      (mapping = .unique s ∨ ∃ i, mapping = .translate i ∧ m.table[i.toNat]? = some s) := by
  rw [Mapper.translate]
  cases hunique : m.unique.lookup id with
  | some s => exact ⟨_, _, s, rfl, h.erase hunique, rfl, h.unique id s hunique, .inl rfl⟩
  | none =>
    rcases h.covers id mem_cons_self with ⟨s, hs⟩ | ⟨i, hi⟩
    · rw [hunique] at hs
      cases hs
    · obtain ⟨s, hname, htable⟩ := h.translation id i hi
      rw [hi]
      exact ⟨_, _, s, rfl, h.tail, rfl, hname, .inr ⟨i, rfl, htable⟩⟩

lemma Mapper.Serves.forceEntry_spec :
    ∃ i m' s, m.forceEntry id = .ok (i, m') ∧ m'.Serves names ids ∧ m.table <+: m'.table ∧
      names[id.toNat]? = some s ∧ m'.table[i.toNat]? = some s := by
  rw [Mapper.forceEntry, Mapper.translate]
  cases hunique : m.unique.lookup id with
  | none =>
    rcases h.covers id mem_cons_self with ⟨s, hs⟩ | ⟨i, hi⟩
    · rw [hunique] at hs
      cases hs
    · obtain ⟨s, hname, htable⟩ := h.translation id i hi
      rw [hi]
      exact ⟨_, _, s, rfl, h.tail, prefix_refl _, hname, htable⟩
  | some s =>
    have herase := h.erase hunique
    have hname := h.unique id s hunique
    -- the table has room, since the string was not in it
    have hroom : m.table.length < 2 ^ 32 := by
      have hsize := h.size
      have hlen := length_erase_add_one hunique
      omega
    have hplace : (BitVec.ofNat 32 m.table.length).toNat = m.table.length := by
      rw [BitVec.toNat_ofNat, Nat.mod_eq_of_lt hroom]
    have hnew : (m.table ++ [s])[(BitVec.ofNat 32 m.table.length).toNat]? = some s := by
      rw [hplace]
      simp
    have hgrow : ∀ (k : ℕ) (t : String), m.table[k]? = some t → (m.table ++ [s])[k]? = some t := by
      intro k t hk
      rw [getElem?_append_left (List.getElem?_eq_some_iff.mp hk).1, hk]
    refine ⟨_, _, s, rfl, ?_, prefix_append _ _, hname, hnew⟩
    refine ⟨herase.unique, ?_, ?_, herase.once, ?_⟩
    · intro id' i' h'
      by_cases hid : id' = id
      · rw [hid, lookup_insert] at h'
        rw [hid, ← Option.some.inj h']
        exact ⟨s, hname, hnew⟩
      · rw [lookup_insert_ne hid] at h'
        obtain ⟨t, hname', htable'⟩ := h.translation id' i' h'
        exact ⟨t, hname', hgrow _ _ htable'⟩
    · intro id' hid'
      by_cases hid : id' = id
      · exact .inr ⟨_, by rw [hid]; exact lookup_insert _⟩
      · rcases herase.covers id' hid' with hs' | ⟨i', hi'⟩
        · exact .inl hs'
        · exact .inr ⟨i', (lookup_insert_ne hid).trans hi'⟩
    · have hsize := h.size
      have hlen := length_erase_add_one hunique
      show (m.table ++ [s]).length + (m.unique.erase id).entries.length ≤ 2 ^ 32
      rw [length_append, length_singleton]
      omega

end

end

/-! ## The mapper of a builder -/

section
variable {b : Builder} {names uses : List String}

lemma tempIdx_inj (hlen : names.length ≤ 2 ^ 32) {s t : String} (hs : s ∈ names) (ht : t ∈ names)
    (h : tempIdx names s = tempIdx names t) : s = t := by
  have hget := getElem?_tempIdx hlen hs
  rw [h, getElem?_tempIdx hlen ht] at hget
  exact (Option.some.inj hget).symm

lemma count_map_tempIdx (hlen : names.length ≤ 2 ^ 32) {s : String} (hs : s ∈ names)
    (huses : ∀ t ∈ uses, t ∈ names) :
    (uses.map (tempIdx names)).count (tempIdx names s) = uses.count s := by
  induction uses with
  | nil => rfl
  | cons t uses ih =>
    have ih := ih fun t' ht' => huses t' (mem_cons_of_mem _ ht')
    have ht := huses t mem_cons_self
    rw [map_cons, count_cons, ih]
    by_cases heq : t = s
    · simp [heq]
    · have hne : tempIdx names t ≠ tempIdx names s := fun h => heq (tempIdx_inj hlen ht hs h)
      simp [heq, hne]

lemma Builder.Shows.mem_entries (h : b.Shows names uses) (e : Entry) :
    e ∈ b.entries.entries ↔ e.1 ∈ names ∧ e.2 = ⟨tempIdx names e.1, uses.count e.1⟩ := by
  have hentry : e ∈ b.entries.entries ↔ b.entries.lookup e.1 = some e.2 := mem_entries_iff
  rw [hentry, h.lookup]
  by_cases hs : e.1 ∈ names
  · rw [if_pos hs, Option.some.injEq, and_iff_right hs, eq_comm]
  · simp [hs]

lemma Builder.Shows.length_entries_le (h : b.Shows names uses) :
    b.entries.entries.length ≤ names.length := by
  have hsub : b.entries.keys ⊆ names := by
    intro s hs
    obtain ⟨e, he, rfl⟩ := mem_map.mp hs
    exact ((h.mem_entries e).mp he).1
  have hle := (b.entries.keys_nodup.subperm hsub).length_le
  rwa [AList.keys, List.keys, length_map] at hle

lemma Builder.Shows.nodup_ids (h : b.Shows names uses) (hlen : names.length ≤ 2 ^ 32)
    {entries : List Entry} (hperm : entries.Perm b.entries.entries) :
    (entries.map fun e => e.2.id).Nodup := by
  have hkeys : (entries.map Sigma.fst).Nodup :=
    ((hperm.map Sigma.fst).nodup_iff).mpr b.entries.keys_nodup
  have hinj : ∀ e ∈ entries, ∀ e' ∈ entries, e.2.id = e'.2.id → e.1 = e'.1 := by
    intro e he e' he' heq
    obtain ⟨hmem, hval⟩ := (h.mem_entries e).mp (hperm.mem_iff.mp he)
    obtain ⟨hmem', hval'⟩ := (h.mem_entries e').mp (hperm.mem_iff.mp he')
    rw [hval, hval'] at heq
    exact tempIdx_inj hlen hmem hmem' heq
  rw [List.Nodup, pairwise_map] at hkeys ⊢
  refine hkeys.imp_of_mem ?_
  intro e e' he he' hne heq
  exact hne (hinj e he e' he' heq)

section
variable {entries : List Entry}

lemma lookup_unique (hnodup : (entries.map fun e => e.2.id).Nodup) (id : U32) (s : String) :
    (Table.ofList (entries.map fun e => (e.2.id, e.1))).lookup id = some s ↔
      ∃ e ∈ entries, e.2.id = id ∧ e.1 = s := by
  rw [lookup_ofList (by rw [map_map]; exact hnodup), mem_map]
  simp only [Prod.mk.injEq]

lemma lookup_translation (hnodup : (entries.map fun e => e.2.id).Nodup) (id i : U32) :
    (Table.ofList (entries.zipIdx.map fun e => (e.1.2.id, BitVec.ofNat 32 e.2))).lookup id =
      some i ↔
      ∃ (k : ℕ) (e : Entry), entries[k]? = some e ∧ e.2.id = id ∧ BitVec.ofNat 32 k = i := by
  have hkeys : (entries.zipIdx.map fun e => (e.1.2.id, BitVec.ofNat 32 e.2)).map Prod.fst =
      entries.map fun e => e.2.id := by
    calc (entries.zipIdx.map fun e => (e.1.2.id, BitVec.ofNat 32 e.2)).map Prod.fst
        = (entries.zipIdx.map Prod.fst).map fun e => e.2.id := by
          rw [map_map, map_map]
          rfl
      _ = entries.map fun e => e.2.id := by rw [zipIdx_map_fst]
  rw [lookup_ofList (by rw [hkeys]; exact hnodup), mem_map]
  constructor
  · intro ⟨⟨e, k⟩, hmem, heq⟩
    exact ⟨k, e, mem_zipIdx_iff_getElem?.mp hmem, (Prod.mk.inj heq).1, (Prod.mk.inj heq).2⟩
  · intro ⟨k, e, hget, hid, hi⟩
    exact ⟨(e, k), mem_zipIdx_iff_getElem?.mpr hget, Prod.ext hid hi⟩

end

lemma Builder.Shows.build_serves (h : b.Shows names uses) (hlen : names.length ≤ 2 ^ 32)
    (order : IterationOrder Entry) {ids : List U32} (hids : ids.Perm (uses.map (tempIdx names))) :
    (b.build order).Serves names ids := by
  have hperm := order.perm b.entries.entries
  have hnodup := h.nodup_ids hlen hperm
  unfold Builder.build
  generalize order.arrange b.entries.entries = entries at hperm hnodup
  have hvalue : ∀ e ∈ entries, e.1 ∈ names ∧ e.2 = ⟨tempIdx names e.1, uses.count e.1⟩ :=
    fun e he => (h.mem_entries e).mp (hperm.mem_iff.mp he)
  have hname : ∀ e ∈ entries, names[e.2.id.toNat]? = some e.1 := by
    intro e he
    obtain ⟨hmem, hval⟩ := hvalue e he
    rw [hval]
    exact getElem?_tempIdx hlen hmem
  have hlength : entries.length ≤ names.length := hperm.length_eq ▸ h.length_entries_le
  have hsplit := length_eq_length_filter_add (l := entries) fun e => decide (e.2.count > 1)
  have hduped := lookup_translation (hnodup.sublist
    ((filter_sublist (p := fun e : Entry => e.2.count > 1)).map fun e => e.2.id))
  have hsingle := lookup_unique (hnodup.sublist
    ((filter_sublist (p := fun e : Entry => ¬ e.2.count > 1)).map fun e => e.2.id))
  refine ⟨?_, ?_, ?_, ?_, ?_⟩
  · intro id s hs
    obtain ⟨e, he, rfl, rfl⟩ := (hsingle id s).mp hs
    exact hname e (mem_of_mem_filter he)
  · intro id i hi
    obtain ⟨k, e, hget, rfl, rfl⟩ := (hduped id i).mp hi
    have hk := (List.getElem?_eq_some_iff.mp hget).1
    have hplace : (BitVec.ofNat 32 k).toNat = k := by
      rw [BitVec.toNat_ofNat, Nat.mod_eq_of_lt (by omega)]
    refine ⟨e.1, hname e (mem_of_mem_filter (mem_of_getElem? hget)), ?_⟩
    show ((entries.filter fun e => e.2.count > 1).map fun e => e.1)[(BitVec.ofNat 32 k).toNat]? =
      some e.1
    rw [hplace, getElem?_map, hget]
    rfl
  · intro id hid
    obtain ⟨s, hs, rfl⟩ := mem_map.mp (hids.mem_iff.mp hid)
    have hmem := (h.mem_iff s).mpr hs
    have hentry : (⟨s, ⟨tempIdx names s, uses.count s⟩⟩ : Entry) ∈ entries :=
      hperm.mem_iff.mpr ((h.mem_entries _).mpr ⟨hmem, rfl⟩)
    by_cases hcount : uses.count s > 1
    · -- used again: it has a place in the table
      have hin : (⟨s, ⟨tempIdx names s, uses.count s⟩⟩ : Entry) ∈
          entries.filter fun e => decide (e.2.count > 1) :=
            mem_filter.mpr ⟨hentry, by simpa using hcount⟩
      obtain ⟨k, hk⟩ := mem_iff_getElem?.mp hin
      exact .inr ⟨_, (hduped _ _).mpr ⟨k, _, hk, rfl, rfl⟩⟩
    · exact .inl ⟨s,
        (hsingle _ s).mpr ⟨_, mem_filter.mpr ⟨hentry, by simpa using hcount⟩, rfl, rfl⟩⟩
  · intro id s hs
    obtain ⟨e, he, rfl, rfl⟩ := (hsingle id s).mp hs
    obtain ⟨hmem, hval⟩ := hvalue e (mem_of_mem_filter he)
    have hcount : ¬ e.2.count > 1 := by simpa using (mem_filter.mp he).2
    have huses : ids.count e.2.id = uses.count e.1 := by
      rw [hids.count_eq, hval]
      exact count_map_tempIdx hlen hmem fun t ht => (h.mem_iff t).mpr ht
    rw [hval] at hcount
    dsimp only at hcount
    omega
  · have hle :=
      length_ofList_le ((entries.filter fun e => ¬ e.2.count > 1).map fun e => (e.2.id, e.1))
    rw [length_map] at hle
    have hnot : (entries.filter fun e => !decide (e.2.count > 1)) =
        entries.filter fun e => decide ¬ e.2.count > 1 := by simp only [decide_not]
    rw [hnot] at hsplit
    dsimp only
    rw [length_map]
    omega

end

end EbpfProfiler.SymbFile
