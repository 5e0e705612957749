import EbpfProfiler.Lib.Comp
import EbpfProfiler.Lib.Table
import Mathlib.Data.List.Nodup

/-!
# Sets that keep the order of insertion

A new element gets the number of elements so far as its 32-bit index.
-/

namespace EbpfProfiler.Lib

open List AList Option

variable {β : Type}

/-- A signed 32-bit index. -/
abbrev Index := BitVec 32

def getAt {α : Type} (table : List α) (i : Index) : Option α :=
  if i.toInt < 0 then none else table[i.toNat]?

section GetAt

variable {α : Type} {table : List α} {i : ℕ}

lemma getAt_ofNat (h : i < 2 ^ 31) : getAt table (BitVec.ofNat 32 i) = table[i]? := by
  have htoNat : (BitVec.ofNat 32 i).toNat = i := by
    rw [BitVec.toNat_ofNat, Nat.mod_eq_of_lt (by omega)]
  have htoInt : ¬(BitVec.ofNat 32 i).toInt < 0 := by
    rw [BitVec.toInt_eq_toNat_cond]
    omega
  rw [getAt, if_neg htoInt, htoNat]

lemma getAt_mono {table' : List α} (h : table <+: table') {idx : Index} {a : α}
    (ha : getAt table idx = some a) : getAt table' idx = some a := by
  unfold getAt at *
  split at ha
  · cases ha
  · next hneg =>
    rw [if_neg hneg]
    obtain ⟨rest, rfl⟩ := h
    obtain ⟨hlt, heq⟩ := List.getElem?_eq_some_iff.1 ha
    rw [getElem?_append_left hlt, ha]

lemma getAt_map (f : α → β) (idx : Index) : getAt (table.map f) idx = (getAt table idx).map f := by
  unfold getAt
  split
  · rfl
  · rw [getElem?_map]

lemma exists_cons_of_isPrefix {a : α} {l l' : List α} (h : ∃ rest, l = a :: rest)
    (hpre : l <+: l') : ∃ rest, l' = a :: rest := by
  obtain ⟨rest, rfl⟩ := h
  obtain ⟨more, rfl⟩ := hpre
  exact ⟨rest ++ more, cons_append⟩

end GetAt

/-- An ordered set: the index of an element is its place in the order of insertion. -/
structure OrderedSet (α : Type) [DecidableEq α] where
  table : Table α Index
  ordered : ∀ a, table.lookup a =
    if a ∈ table.keys.reverse then some (BitVec.ofNat 32 (table.keys.reverse.idxOf a)) else none

namespace OrderedSet

variable {α : Type} [DecidableEq α]

/-- The elements in the order of insertion. -/
def elems (s : OrderedSet α) : List α := s.table.keys.reverse

lemma lookup_eq (s : OrderedSet α) (a : α) : s.table.lookup a =
    if a ∈ s.elems then some (BitVec.ofNat 32 (s.elems.idxOf a)) else none := s.ordered a

def empty : OrderedSet α := ⟨∅, fun _ => rfl⟩

lemma nodup_elems (s : OrderedSet α) : s.elems.Nodup := nodup_reverse.2 s.table.keys_nodup

variable {s : OrderedSet α} {a : α}

lemma keys_insert_of_notMem (h : s.table.lookup a = none) (i : Index) :
    (s.table.insert a i).keys.reverse = s.elems ++ [a] := by
  have hmem : a ∉ s.table.keys := lookup_eq_none.1 h
  rw [keys_insert, erase_of_not_mem hmem, reverse_cons, elems]

lemma lookup_insert_idxOf {t : Table α Index} {l : List α} {f : ℕ → Index}
    (h : ∀ a, t.lookup a = if a ∈ l then some (f (l.idxOf a)) else none) (ha : a ∉ l) (b : α) :
    (t.insert a (f l.length)).lookup b =
      if b ∈ l ++ [a] then some (f ((l ++ [a]).idxOf b)) else none := by
  by_cases hb : b = a
  · subst hb
    rw [lookup_insert, if_pos (mem_append_right _ (mem_singleton.2 rfl)), idxOf_append_of_notMem ha,
      idxOf_cons_self, add_zero]
  · rw [lookup_insert_ne hb, h b]
    by_cases hbl : b ∈ l
    · rw [if_pos hbl, if_pos (mem_append_left _ hbl), idxOf_append_of_mem hbl]
    · rw [if_neg hbl, if_neg fun hm => (mem_append.1 hm).elim hbl (hb ∘ mem_singleton.1)]

lemma ordered_insert (h : s.table.lookup a = none) (b : α) :
    (s.table.insert a (BitVec.ofNat 32 s.table.keys.length)).lookup b =
      if b ∈ (s.table.insert a (BitVec.ofNat 32 s.table.keys.length)).keys.reverse then
        some (BitVec.ofNat 32
          ((s.table.insert a (BitVec.ofNat 32 s.table.keys.length)).keys.reverse.idxOf b))
      else none := by
  have hmem : a ∉ s.elems := fun hm => lookup_eq_none.1 h (mem_reverse.1 hm)
  rw [keys_insert_of_notMem h, ← length_reverse]
  exact lookup_insert_idxOf s.ordered hmem b

def push (s : OrderedSet α) (a : α) (h : s.table.lookup a = none) : OrderedSet α :=
  ⟨s.table.insert a (BitVec.ofNat 32 s.table.keys.length), ordered_insert h⟩

/-- `AddWithCheck`: the index, whether the element was there, and the set. -/
def addWithCheck (s : OrderedSet α) (a : α) : Index × Bool × OrderedSet α :=
  match h : s.table.lookup a with
  | some idx => (idx, true, s)
  | none => (BitVec.ofNat 32 s.table.keys.length, false, s.push a h)

def add (s : OrderedSet α) (a : α) : Index × OrderedSet α :=
  ((s.addWithCheck a).1, (s.addWithCheck a).2.2)

lemma addWithCheck_of_mem (h : a ∈ s.elems) :
    s.addWithCheck a = (BitVec.ofNat 32 (s.elems.idxOf a), true, s) := by
  have hlookup : s.table.lookup a = some (BitVec.ofNat 32 (s.elems.idxOf a)) := by
    rw [s.ordered a]
    exact if_pos h
  unfold addWithCheck
  split
  · next idx hidx =>
    rw [hlookup] at hidx
    rw [some.inj hidx]
  · next hnone =>
    rw [hlookup] at hnone
    cases hnone

lemma addWithCheck_of_notMem (h : a ∉ s.elems) : ∃ t : OrderedSet α, t.elems = s.elems ++ [a] ∧
      s.addWithCheck a = (BitVec.ofNat 32 s.elems.length, false, t) := by
  have hlookup : s.table.lookup a = none := by
    rw [s.ordered a]
    exact if_neg h
  refine ⟨s.push a hlookup, keys_insert_of_notMem hlookup _, ?_⟩
  unfold addWithCheck
  split
  · next idx hidx =>
    rw [hlookup] at hidx
    cases hidx
  · rw [elems, length_reverse]

section
variable (s : OrderedSet α) (a : α)

lemma addWithCheck_cases : (a ∈ s.elems ∧ s.addWithCheck a = ((s.add a).1, true, s)) ∨
      a ∉ s.elems ∧ ∃ t : OrderedSet α, t.elems = s.elems ++ [a] ∧
        s.addWithCheck a = ((s.add a).1, false, t) := by
  by_cases h : a ∈ s.elems
  · left
    rw [add, addWithCheck_of_mem h]
    exact ⟨h, rfl⟩
  · right
    obtain ⟨t, ht, heq⟩ := addWithCheck_of_notMem h
    rw [add, heq]
    exact ⟨h, t, ht, rfl⟩

lemma isPrefix_add : s.elems <+: (s.add a).2.elems := by
  rcases s.addWithCheck_cases a with ⟨-, heq⟩ | ⟨-, t, ht, heq⟩
  · exact ⟨[], by rw [append_nil, add, heq]⟩
  · exact ⟨[a], by rw [add, heq, ht]⟩

lemma length_add_le : (s.add a).2.elems.length ≤ s.elems.length + 1 := by
  rcases s.addWithCheck_cases a with ⟨-, heq⟩ | ⟨-, t, ht, heq⟩
  · rw [add, heq]
    exact Nat.le_succ _
  · rw [add, heq, ht, length_append, length_singleton]

end

lemma mem_of_mem_add {x : α} (h : x ∈ (s.add a).2.elems) : x ∈ s.elems ∨ x = a := by
  by_cases ha : a ∈ s.elems
  · rw [add, addWithCheck_of_mem ha] at h
    exact .inl h
  · obtain ⟨t, ht, heq⟩ := addWithCheck_of_notMem ha
    rw [add, heq] at h
    rw [ht, mem_append, mem_singleton] at h
    exact h

lemma getAt_add_of_mem (h : a ∈ s.elems)
    (hlen : s.elems.length ≤ 2 ^ 31) : getAt s.elems (s.add a).1 = some a := by
  have hlt := idxOf_lt_length_of_mem h
  rw [add, addWithCheck_of_mem h, getAt_ofNat (lt_of_lt_of_le hlt hlen), getElem?_eq_getElem hlt,
    getElem_idxOf]

lemma getAt_add_of_notMem {t : OrderedSet α} (h : a ∉ s.elems) (ht : t.elems = s.elems ++ [a])
    (hlen : t.elems.length ≤ 2 ^ 31) : getAt t.elems (s.add a).1 = some a := by
  obtain ⟨_, -, heq⟩ := addWithCheck_of_notMem h
  rw [ht, length_append, length_singleton] at hlen
  rw [add, heq, getAt_ofNat (by omega), ht, getElem?_append_right (Nat.le_refl _), Nat.sub_self]
  rfl

lemma getAt_add (hlen : (s.add a).2.elems.length ≤ 2 ^ 31) :
    getAt (s.add a).2.elems (s.add a).1 = some a := by
  rcases s.addWithCheck_cases a with ⟨hmem, heq⟩ | ⟨hnew, t, ht, heq⟩
  · have hset : (s.add a).2 = s := by rw [add, heq]
    rw [hset] at hlen ⊢
    exact getAt_add_of_mem hmem hlen
  · have hset : (s.add a).2 = t := by rw [add, heq]
    rw [hset] at hlen ⊢
    exact getAt_add_of_notMem hnew ht hlen

/-! ## Writing the table -/

/-- One write of `fill`. -/
def fillStep {β : Type} (f : α → β) (ret : List β) (e : Sigma fun _ : α => Index) :
    Except Fault (List β) :=
  if 0 ≤ e.2.toInt ∧ e.2.toNat < ret.length then .ok (ret.set e.2.toNat (f e.1))
  else .error (.panic "index out of range")

/-- A loop over the map that writes each element at its index. -/
def fill {β : Type} (zero : β) (f : α → β) (s : OrderedSet α) : Except Fault (List β) :=
  s.table.entries.foldlM (fillStep f) (List.replicate s.table.keys.length zero)

section
variable (hs : s.elems.length ≤ 2 ^ 31)
include hs

lemma index_of_entry {e : Sigma fun _ : α => Index} (he : e ∈ s.table.entries) :
    0 ≤ e.2.toInt ∧ e.2.toNat = s.elems.idxOf e.1 ∧ e.1 ∈ s.elems := by
  have hlookup : s.table.lookup e.1 = some e.2 := (Table.mem_entries_iff).1 he
  rw [s.lookup_eq] at hlookup
  by_cases hmem : e.1 ∈ s.elems
  · rw [if_pos hmem] at hlookup
    have hlt := idxOf_lt_length_of_mem hmem
    have htoNat : e.2.toNat = s.elems.idxOf e.1 := by
      rw [← some.inj hlookup]
      exact Nat.mod_eq_of_lt (by omega)
    refine ⟨?_, htoNat, hmem⟩
    rw [BitVec.toInt_eq_toNat_cond]
    omega
  · rw [if_neg hmem] at hlookup
    cases hlookup

lemma foldlM_fillStep (f : α → β) (es : List (Sigma fun _ : α => Index))
    (hes : ∀ e ∈ es, e ∈ s.table.entries) (ret : List β) (hlen : ret.length = s.elems.length) :
    ∃ ret', es.foldlM (fillStep f) ret = .ok ret' ∧ ret'.length = s.elems.length ∧
      ∀ a ∈ s.elems, (ret[s.elems.idxOf a]? = some (f a) ∨ a ∈ es.map Sigma.fst) →
        ret'[s.elems.idxOf a]? = some (f a) := by
  induction es generalizing ret with
  | nil =>
    refine ⟨ret, rfl, hlen, ?_⟩
    rintro a - (h | h)
    · exact h
    · cases h
  | cons e es ih =>
    obtain ⟨hnonneg, hidx, hmem⟩ := index_of_entry hs (hes e (mem_cons_self))
    have hlt := idxOf_lt_length_of_mem hmem
    have hstep : fillStep f ret e = .ok (ret.set (s.elems.idxOf e.1) (f e.1)) := by
      unfold fillStep
      rw [if_pos ⟨hnonneg, by omega⟩, hidx]
    obtain ⟨ret', heq, hlen', hwritten⟩ := ih (fun e' he' => hes e' (mem_cons_of_mem _ he'))
      (ret.set (s.elems.idxOf e.1) (f e.1)) (by rw [length_set, hlen])
    refine ⟨ret', ?_, hlen', ?_⟩
    · rw [foldlM_cons, hstep]
      exact heq
    · intro a ha hcase
      apply hwritten a ha
      by_cases hae : a = e.1
      · left
        rw [hae, getElem?_set_self (by omega)]
      · have hne : s.elems.idxOf e.1 ≠ s.elems.idxOf a := by
          intro hidx'
          exact hae ((idxOf_inj ha).1 hidx'.symm)
        rw [getElem?_set_ne hne]
        rcases hcase with h | h
        · exact .inl h
        · right
          rw [map_cons, mem_cons] at h
          exact h.resolve_left hae

lemma fill_eq (zero : β) (f : α → β) : s.fill zero f = .ok (s.elems.map f) := by
  have hlen : (replicate s.table.keys.length zero).length = s.elems.length := by
    rw [length_replicate, elems, length_reverse]
  obtain ⟨ret, heq, hret, hwritten⟩ := foldlM_fillStep hs f s.table.entries (fun _ he => he) _ hlen
  unfold fill
  rw [heq]
  congr 1
  apply ext_getElem?
  intro i
  by_cases hi : i < s.elems.length
  · have hmem : s.elems[i] ∈ s.elems := getElem_mem hi
    have hidx : s.elems.idxOf s.elems[i] = i := s.nodup_elems.idxOf_getElem i hi
    have hkey : s.elems[i] ∈ s.table.entries.map Sigma.fst := mem_reverse.1 hmem
    have := hwritten _ hmem (.inr hkey)
    rw [hidx] at this
    rw [this, getElem?_map, getElem?_eq_getElem hi]
    rfl
  · rw [getElem?_eq_none (by omega), getElem?_eq_none (by rw [length_map]; omega)]

end

end OrderedSet

/-! ## Rows in step with a set -/

section Rows

variable {α β : Type} {shows : α → β → Prop} {as : List α} {bs : List β}

lemma exists_of_mem_right (h : List.Forall₂ shows as bs) {b : β} (hb : b ∈ bs) :
    ∃ a ∈ as, shows a b := by
  induction h with
  | nil => exact absurd hb not_mem_nil
  | @cons a' b' as bs hab _ ih =>
    rcases mem_cons.1 hb with rfl | hb
    · exact ⟨a', mem_cons_self, hab⟩
    · exact (ih hb).imp fun a ha => ⟨mem_cons_of_mem _ ha.1, ha.2⟩

lemma exists_of_mem_left (h : List.Forall₂ shows as bs) {a : α} (ha : a ∈ as) :
    ∃ b ∈ bs, shows a b := exists_of_mem_right h.flip ha

lemma forall₂_zip {γ : Type} (hrel : List.Forall₂ shows as bs) (f : α → γ) :
    List.Forall₂ (fun a p => shows a p.1 ∧ f a = p.2) as (bs.zip (as.map f)) := by
  induction hrel with
  | nil => exact .nil
  | cons hab _ ih => exact .cons ⟨hab, rfl⟩ ih

lemma nodup_of_forall₂ (h : List.Forall₂ shows as bs) (hnodup : as.Nodup)
    (hinj : ∀ a a' b, shows a b → shows a' b → a = a') : bs.Nodup := by
  induction h with
  | nil => exact nodup_nil
  | cons hab hrel ih =>
    rw [nodup_cons] at hnodup
    refine nodup_cons.2 ⟨fun hmem => ?_, ih hnodup.2⟩
    obtain ⟨a, ha, hshows⟩ := exists_of_mem_right hrel hmem
    exact hnodup.1 (hinj _ _ _ hshows hab ▸ ha)

end Rows

/-- A table filled along with a set: both start empty, and each row shows its element. -/
def Lockstep {α β : Type} [DecidableEq α] (shows : α → β → Prop) (zero : α) (zeroRow : β)
    (s : OrderedSet α) (rows : List β) : Prop :=
  ∃ as bs, s.elems = zero :: as ∧ rows = zeroRow :: bs ∧ List.Forall₂ shows as bs

namespace Lockstep

variable {α β : Type} [DecidableEq α] {shows shows' : α → β → Prop} {zero : α} {zeroRow : β}
  {s : OrderedSet α} {rows : List β}

section
variable (h : Lockstep shows zero zeroRow s rows)
include h

lemma mono (himp : ∀ a b, shows a b → shows' a b) : Lockstep shows' zero zeroRow s rows := by
  obtain ⟨as, bs, has, hbs, hrel⟩ := h
  exact ⟨as, bs, has, hbs, hrel.imp himp⟩

lemma length_eq : s.elems.length = rows.length := by
  obtain ⟨as, bs, has, hbs, hrel⟩ := h
  rw [has, hbs, length_cons, length_cons, hrel.length_eq]

lemma zero_mem : zero ∈ s.elems := by
  obtain ⟨as, bs, has, -, -⟩ := h
  rw [has]
  exact mem_cons_self

lemma append {t : OrderedSet α} {a : α} {b : β} (ht : t.elems = s.elems ++ [a]) (hab : shows a b) :
    Lockstep shows zero zeroRow t (rows ++ [b]) := by
  obtain ⟨as, bs, has, hbs, hrel⟩ := h
  refine ⟨as ++ [a], bs ++ [b], ?_, ?_, ?_⟩
  · rw [ht, has, cons_append]
  · rw [hbs, cons_append]
  · exact rel_append hrel (List.Forall₂.cons hab List.Forall₂.nil)

lemma exists_of_mem {b : β} (hb : b ∈ rows) : b = zeroRow ∨ ∃ a, shows a b := by
  obtain ⟨as, bs, has, rfl, hrel⟩ := h
  refine (mem_cons.1 hb).imp_right fun hmem => ?_
  obtain ⟨a, -, ha⟩ := exists_of_mem_right hrel hmem
  exact ⟨a, ha⟩

lemma getAt_row {i : Index} {a : α} (hi : getAt s.elems i = some a) (ha : a ≠ zero) :
    i ≠ 0 ∧ ∃ b, getAt rows i = some b ∧ shows a b := by
  obtain ⟨as, bs, has, hbs, hrel⟩ := h
  unfold getAt at *
  split at hi
  · cases hi
  · next hneg =>
    rw [if_neg hneg, hbs]
    rw [has] at hi
    have hne : i ≠ 0 := by
      rintro rfl
      exact ha (Option.some.inj hi).symm
    have hpos : i.toNat ≠ 0 := fun h0 => hne (BitVec.eq_of_toNat_eq h0)
    obtain ⟨k, hk⟩ := Nat.exists_eq_succ_of_ne_zero hpos
    rw [hk, getElem?_cons_succ] at hi ⊢
    obtain ⟨hka, rfl⟩ := List.getElem?_eq_some_iff.1 hi
    have hkb : k < bs.length := hrel.length_eq ▸ hka
    exact ⟨hne, bs[k], getElem?_eq_getElem hkb, hrel.get hka hkb⟩

lemma getAt_zero {i : Index}
    (hi : getAt s.elems i = some zero) : i = 0 ∧ getAt rows i = some zeroRow := by
  obtain ⟨as, bs, has, hbs, -⟩ := h
  have hnodup := s.nodup_elems
  rw [has, nodup_cons] at hnodup
  have hi0 : i = 0 := by
    unfold getAt at hi
    split at hi
    · cases hi
    · apply BitVec.eq_of_toNat_eq
      rw [has] at hi
      cases htoNat : i.toNat with
      | zero => rfl
      | succ k =>
        rw [htoNat, getElem?_cons_succ] at hi
        exact absurd (mem_of_getElem? hi) hnodup.1
  refine ⟨hi0, ?_⟩
  rw [hi0, hbs]
  rfl

/-- Rows that determine what they show are stored once. -/
lemma nodup (hzero : ∀ a, ¬shows a zeroRow)
    (hinj : ∀ a a' b, shows a b → shows a' b → a = a') : rows.Nodup := by
  obtain ⟨as, bs, has, rfl, hrel⟩ := h
  have hnodup := s.nodup_elems
  rw [has, nodup_cons] at hnodup
  refine nodup_cons.2 ⟨fun hmem => ?_, nodup_of_forall₂ hrel hnodup.2 hinj⟩
  obtain ⟨a, -, ha⟩ := exists_of_mem_right hrel hmem
  exact hzero a ha

lemma nodup_zip {γ : Type} (f : α → γ) (hzero : ∀ a, shows a zeroRow → f a ≠ f zero)
    (hinj : ∀ a a' b, shows a b → shows a' b → f a = f a' → a = a') :
    (rows.zip (s.elems.map f)).Nodup := by
  obtain ⟨as, bs, has, rfl, hrel⟩ := h
  have hnodup := s.nodup_elems
  rw [has, nodup_cons] at hnodup
  rw [has]
  refine nodup_cons.2 ⟨fun hmem => ?_, ?_⟩
  · obtain ⟨a, -, ha, hfa⟩ := exists_of_mem_right (forall₂_zip hrel f) hmem
    exact hzero a ha hfa
  · refine nodup_of_forall₂ (forall₂_zip hrel f) hnodup.2 fun a a' b hs hs' => ?_
    exact hinj a a' b.1 hs.1 hs'.1 (hs.2.trans hs'.2.symm)

end

end Lockstep

/-! ## Reading a table that grows -/

/-- Whatever the first read delivers, the second delivers too. -/
def Below {α : Type} (x y : Option α) : Prop := ∀ a, x = some a → y = some a

namespace Below

variable {α β : Type}

lemma rfl {x : Option α} : Below x x := fun _ h => h

variable {f g : α → Option β}

lemma bind {x y : Option α} (h : Below x y) (hfg : ∀ a, Below (f a) (g a)) :
    Below (x.bind f) (y.bind g) := by
  intro b hb
  obtain ⟨a, ha, hfa⟩ := bind_eq_some_iff.1 hb
  exact bind_eq_some_iff.2 ⟨a, h a ha, hfg a b hfa⟩

lemma mapM (hfg : ∀ a, Below (f a) (g a)) (l : List α) : Below (l.mapM f) (l.mapM g) := by
  induction l with
  | nil => exact Below.rfl
  | cons a l ih =>
    rw [mapM_cons, mapM_cons]
    exact (hfg a).bind fun b => ih.bind fun bs => Below.rfl

lemma mapM_eq_some {as : List α} {bs : List β}
    (h : List.Forall₂ (fun a b => f a = some b) as bs) : as.mapM f = some bs := by
  induction h with
  | nil => exact Eq.refl _
  | cons hab _ ih =>
    rw [mapM_cons, hab, ih]
    exact Eq.refl _

lemma exists_of_mapM {as : List α} {bs : List β} (h : as.mapM f = some bs) :
    ∀ a ∈ as, ∃ b, f a = some b := by
  induction as generalizing bs with
  | nil => exact fun a ha => absurd ha not_mem_nil
  | cons a as ih =>
    rw [mapM_cons] at h
    obtain ⟨b, hb, hrest⟩ := bind_eq_some_iff.1 h
    obtain ⟨others, hothers, -⟩ := bind_eq_some_iff.1 hrest
    intro a' ha'
    rcases mem_cons.1 ha' with rfl | ha'
    · exact ⟨b, hb⟩
    · exact ih hothers a' ha'

lemma getAt {table table' : List α} (h : table <+: table') (i : Index) :
    Below (Lib.getAt table i) (Lib.getAt table' i) := fun _ ha => getAt_mono h ha

end Below

end EbpfProfiler.Lib
