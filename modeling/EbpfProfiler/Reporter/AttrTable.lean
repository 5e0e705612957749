import EbpfProfiler.Reporter.OtlpSteps

/-!
# Indices of attributes

`AttrTableManager` (`attrmgr.go`) finds an attribute by a compound of its key and value.
-/

namespace EbpfProfiler.Reporter

open Lib List AList Builder

/-- A call of the attribute manager. -/
inductive AttrCall
  | appendInt (key : String) (value : ℤ)
  | appendOptionalString (key value : String)

def AttrCall.attributes : AttrCall → List (String × AttrValue)
  | appendInt key value => [(key, .int value)]
  | appendOptionalString key value => if value = "" then [] else [(key, .str value)]

namespace Builder

variable {b : Builder} {c key : String} {value : AttrValue} {i : Index}
  {kv : String × AttrValue} {kvs : List (String × AttrValue)}

def appendCall (b : Builder) : AttrCall → List Index × Builder
  | .appendInt key value => b.appendInt key value
  | .appendOptionalString key value => b.appendOptionalString key value

/-- The indices that calls append, one after the other. -/
def appendCalls : List AttrCall → Builder → List Index × Builder
  | [], b => ([], b)
  | call :: calls, b =>
    let rest := appendCalls calls (b.appendCall call).2
    ((b.appendCall call).1 ++ rest.1, rest.2)

/-- The same for the attributes alone. -/
def appendAll : List (String × AttrValue) → Builder → List Index × Builder
  | [], b => ([], b)
  | kv :: kvs, b =>
    let rest := appendAll kvs (b.appendAny kv.1 kv.2).2
    ((b.appendAny kv.1 kv.2).1 :: rest.1, rest.2)

open AttrCall

lemma appendCalls_eq (calls : List AttrCall) (b : Builder) :
    appendCalls calls b = appendAll (calls.flatMap attributes) b := by
  induction calls generalizing b with
  | nil => rfl
  | cons call calls ih =>
    rw [appendCalls, ih, flatMap_cons]
    cases call with
    | appendInt key value => rfl
    | appendOptionalString key value =>
      rw [appendCall, appendOptionalString, attributes]
      split <;> rfl

lemma empty_notMem (calls : List AttrCall) :
    ("", AttrValue.empty) ∉ calls.flatMap attributes := by
  intro hmem
  obtain ⟨call, -, hcall⟩ := mem_flatMap.1 hmem
  cases call with
  | appendInt | appendOptionalString => simp [attributes] at hcall

lemma appendAll_grows (kvs : List (String × AttrValue)) (b : Builder) :
    b.Grows (appendAll kvs b).2 := by
  induction kvs generalizing b with
  | nil => exact Grows.rfl
  | cons kv kvs ih => exact (appendAny_grows kv.1 kv.2 b).trans (ih _)

/-! ## The map of indices -/

/-- **Step lemma.** The index of a compound stays as it is. -/
lemma lookup_appendAny_of_some (h : b.attrIndices.lookup c = some i) :
    (b.appendAny key value).2.attrIndices.lookup c = some i := by
  cases hk : b.attrIndices.lookup (compound key value) with
  | some j =>
    rw [appendAny_of_some hk]
    exact h
  | none =>
    rw [appendAny_of_none hk]
    have hne : c ≠ compound key value := by
      rintro rfl
      cases h.symm.trans hk
    exact (lookup_insert_ne hne).trans h

lemma lookup_appendAny (key : String) (value : AttrValue) (b : Builder) :
    (b.appendAny key value).2.attrIndices.lookup (compound key value) =
      some (b.appendAny key value).1 := by
  cases hk : b.attrIndices.lookup (compound key value) with
  | some j =>
    rw [appendAny_of_some hk]
    exact hk
  | none =>
    rw [appendAny_of_none hk]
    exact lookup_insert _

lemma lookup_appendAll_of_some (kvs : List (String × AttrValue))
    (h : b.attrIndices.lookup c = some i) : (appendAll kvs b).2.attrIndices.lookup c = some i := by
  induction kvs generalizing b with
  | nil => exact h
  | cons kv kvs ih => exact ih (lookup_appendAny_of_some h)

/-- **Run lemma.** Every attribute has the index of its compound. -/
lemma appendAll_indices (kvs : List (String × AttrValue)) (b : Builder) :
    (appendAll kvs b).1 = kvs.map fun kv =>
      ((appendAll kvs b).2.attrIndices.lookup (compound kv.1 kv.2)).getD 0 := by
  induction kvs generalizing b with
  | nil => rfl
  | cons kv kvs ih =>
    have hfirst : (appendAll (kv :: kvs) b).2.attrIndices.lookup (compound kv.1 kv.2) = _ :=
      lookup_appendAll_of_some kvs (lookup_appendAny kv.1 kv.2 b)
    rw [map_cons, hfirst]
    exact congrArg _ (ih _)

lemma lookup_appendAll_of_mem (b : Builder) (h : kv ∈ kvs) :
    ∃ i, (appendAll kvs b).2.attrIndices.lookup (compound kv.1 kv.2) = some i := by
  induction kvs generalizing b with
  | nil => cases h
  | cons kv' kvs ih =>
    rcases mem_cons.1 h with rfl | htail
    · exact ⟨_, lookup_appendAll_of_some kvs (lookup_appendAny _ _ b)⟩
    · exact ih _ htail

/-! ## The rows -/

/-- The index leads to an attribute with this compound; there is a row for each compound. -/
structure Leads (kvs : List (String × AttrValue)) (b : Builder) : Prop where
  row : ∀ c i, b.attrIndices.lookup c = some i →
    ∃ kv ∈ kvs, compound kv.1 kv.2 = c ∧ b.dictionary.attr i = some kv
  rows : b.attributeTable.length = b.attrIndices.keys.length + 1
  strings : b.stringSet.elems.length ≤ b.attrIndices.keys.length + 1

lemma Leads.keys_lt (h : Leads kvs b) (hmem : kv ∈ kvs)
    (hnew : compound kv.1 kv.2 ∉ b.attrIndices) : b.attrIndices.keys.length < kvs.dedup.length := by
  have hnodup : (compound kv.1 kv.2 :: b.attrIndices.keys).Nodup :=
    nodup_cons.2 ⟨hnew, b.attrIndices.keys_nodup⟩
  have hsub : compound kv.1 kv.2 :: b.attrIndices.keys ⊆ compounds kvs.dedup := by
    refine cons_subset.2 ⟨mem_map_of_mem (mem_dedup.2 hmem), fun c hc => ?_⟩
    obtain ⟨i, hi⟩ := Option.isSome_iff_exists.1 (lookup_isSome.2 hc)
    obtain ⟨kv', hkv', hcompound, -⟩ := h.row c i hi
    exact mem_map.2 ⟨kv', mem_dedup.2 hkv', hcompound⟩
  have hle := (hnodup.subperm hsub).length_le
  rwa [compounds, length_map] at hle

/-- **Step lemma.** A new attribute is in the row that its index leads to. -/
lemma Leads.appendAny (h : Leads kvs b) (hmem : kv ∈ kvs) (hcount : kvs.dedup.length < 2 ^ 31) :
    Leads kvs (b.appendAny kv.1 kv.2).2 := by
  have hgrows := (appendAny_grows kv.1 kv.2 b).dictionary
  cases hk : b.attrIndices.lookup (compound kv.1 kv.2) with
  | some j =>
    rw [appendAny_of_some hk]
    exact h
  | none =>
    have hnew := lookup_eq_none.1 hk
    have hkeys := h.keys_lt hmem hnew
    have hrows := h.rows
    have hstrings := h.strings
    have hadd := b.stringSet.length_add_le kv.1
    have hkeys' : (b.withAttribute kv.1 kv.2).attrIndices.keys.length =
        b.attrIndices.keys.length + 1 := by
      rw [withAttribute, keys_insert, erase_of_not_mem hnew, length_cons]
    rw [appendAny_of_none hk] at hgrows ⊢
    constructor
    case row =>
      intro c i hi
      by_cases hc : c = compound kv.1 kv.2
      · subst hc
        obtain rfl := Option.some.inj ((lookup_insert _).symm.trans hi)
        refine ⟨kv, hmem, rfl, ?_⟩
        have hrow : getAt (b.withAttribute kv.1 kv.2).dictionary.attributeTable
            (BitVec.ofNat 32 b.attributeTable.length) = some ⟨(b.addString kv.1).1, kv.2⟩ := by
          rw [getAt_ofNat (by omega)]
          exact getElem?_concat_length
        have hkey :
            (b.withAttribute kv.1 kv.2).dictionary.string (b.addString kv.1).1 = some kv.1 :=
          OrderedSet.getAt_add (by omega)
        have hshows : AttributeShows (b.withAttribute kv.1 kv.2).dictionary kv
            ⟨(b.addString kv.1).1, kv.2⟩ := ⟨hkey, rfl⟩
        exact hshows.attr_eq hrow
      · obtain ⟨kv', hkv', hcompound, hattr⟩ :=
          h.row c i ((lookup_insert_ne hc).symm.trans hi)
        exact ⟨kv', hkv', hcompound, hgrows.attr _ _ hattr⟩
    case rows =>
      show (b.attributeTable ++ [_]).length = _
      rw [hkeys', length_append, length_singleton, hrows]
    case strings =>
      show (b.stringSet.add kv.1).2.elems.length ≤ _
      rw [hkeys']
      omega

/-- **Run lemma.** -/
lemma Leads.appendAll {rest : List (String × AttrValue)} (h : Leads kvs b) (hsub : rest ⊆ kvs)
    (hcount : kvs.dedup.length < 2 ^ 31) :
    Leads kvs (appendAll rest b).2 := by
  induction rest generalizing b with
  | nil => exact h
  | cons kv rest ih =>
    obtain ⟨hkv, hrest⟩ := cons_subset.1 hsub
    exact ih (h.appendAny hkv hcount) hrest

lemma leads_new : Leads kvs new where
  row _ _ hi := nomatch hi
  rows := rfl
  strings := Nat.le_refl _

/-! ## Exact indices -/

/-- Every index has the row of its call, and equal attributes have equal indices. -/
structure ExactIndices (calls : List AttrCall) (b : Builder) : Prop where
  rows : List.Forall₂ (fun i kv => (appendCalls calls b).2.dictionary.attr i = some kv)
    (appendCalls calls b).1 (calls.flatMap attributes)
  same : ∃ index : String × AttrValue → Index,
    (appendCalls calls b).1 = (calls.flatMap attributes).map index

lemma length_le_of_read {d : Dictionary} (hnodup : kvs.Nodup)
    (h : ∀ kv ∈ kvs, ∃ i, d.attr i = some kv) : kvs.length ≤ 2 ^ 31 := by
  have hsub : kvs ⊆ (range (2 ^ 31)).filterMap fun n => d.attr (BitVec.ofNat 32 n) := by
    intro kv hkv
    obtain ⟨i, hi⟩ := h kv hkv
    obtain ⟨row, hrow, -⟩ := Option.bind_eq_some_iff.1 hi
    refine mem_filterMap.2 ⟨i.toNat, mem_range.2 ?_, ?_⟩
    · rw [getAt] at hrow
      split at hrow
      · cases hrow
      · next hneg =>
        rw [BitVec.toInt_eq_toNat_cond] at hneg
        split at hneg <;> omega
    · rw [BitVec.ofNat_toNat]
      exact hi
  have hle := (hnodup.subperm hsub).length_le
  have hrange := length_filterMap_le (fun n => d.attr (BitVec.ofNat 32 n)) (range (2 ^ 31))
  rw [length_range] at hrange
  exact hle.trans hrange

/-- The indices are exact just when different attributes have different compounds and fit. -/
theorem appendCalls_exact_iff (calls : List AttrCall) :
    ExactIndices calls new ↔
      (∀ kv ∈ calls.flatMap attributes, ∀ kv' ∈ calls.flatMap attributes,
        compound kv.1 kv.2 = compound kv'.1 kv'.2 → kv = kv') ∧
      (calls.flatMap attributes).dedup.length < 2 ^ 31 := by
  have hindices := appendAll_indices (calls.flatMap attributes) new
  rw [← appendCalls_eq] at hindices
  constructor
  · intro hexact
    have hrows := hexact.rows
    rw [hindices, forall₂_map_left_iff, forall₂_same] at hrows
    refine ⟨fun kv hkv kv' hkv' hcompound => ?_, ?_⟩
    · have hattr := hrows kv hkv
      rw [hcompound, hrows kv' hkv'] at hattr
      exact (Option.some.inj hattr).symm
    · -- the empty attribute of the first row is one more that can be read
      have hgrows := (appendAll_grows (calls.flatMap attributes) new).dictionary
      rw [← appendCalls_eq] at hgrows
      have hnodup : (("", AttrValue.empty) :: (calls.flatMap attributes).dedup).Nodup :=
        nodup_cons.2 ⟨mt mem_dedup.1 (empty_notMem calls), nodup_dedup _⟩
      refine length_le_of_read (d := (appendCalls calls new).2.dictionary) hnodup fun kv hkv => ?_
      rcases mem_cons.1 hkv with rfl | hkv
      · exact ⟨0, hgrows.attr _ _ (by decide +kernel)⟩
      · exact ⟨_, hrows kv (mem_dedup.1 hkv)⟩
  · rintro ⟨hinj, hcount⟩
    have hend := leads_new.appendAll (List.Subset.refl _) hcount
    rw [← appendCalls_eq] at hend
    refine ⟨?_, _, hindices⟩
    rw [hindices, forall₂_map_left_iff, forall₂_same]
    intro kv hkv
    obtain ⟨i, hi⟩ := lookup_appendAll_of_mem new hkv
    rw [← appendCalls_eq] at hi
    obtain ⟨kv', hkv', hcompound, hattr⟩ := hend.row _ i hi
    rw [hi, Option.getD_some, hattr, hinj kv' hkv' kv hkv hcompound]

/-- Two labels with the compound `l.a_b_c`: the second gets the row of the first. -/
theorem appendCalls_not_exact : ¬ExactIndices
    [.appendOptionalString "l.a_b" "c", .appendOptionalString "l.a" "b_c"] new := by
  intro h
  have hsecond := h.rows.get (i := 1) (by decide +kernel) (by decide +kernel)
  revert hsecond
  decide +kernel

end Builder

end EbpfProfiler.Reporter
