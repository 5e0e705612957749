import EbpfProfiler.RetPads.Extract
import EbpfProfiler.SymbConv.Dwarf

/-!
# Inline chains of return pads

Inlined ranges belong to the tree of the last piece of their subroutine only.
-/

namespace EbpfProfiler.RetPads

open Lib List
open SymbFile (U32 U64 Range ReturnPad ReturnPadEntry LineTableEntry)
open SymbConv (vaRange Arch)

/-! ## Subroutines, trees and calls -/

/-- A range at depth zero. -/
abbrev Root := { rng : Range // rng.depth = 0 }

/-- A range that is inlined into another one. -/
abbrev Inlined := { rng : Range // rng.depth ≠ 0 }

/-- What the DWARF extractor emits for a subroutine. -/
structure Subroutine where
  pieces : List Root
  last : Root
  children : List Inlined

/-- A tree, as `process_tree` is given it. -/
structure Tree where
  root : Root
  below : List Inlined

def Tree.ranges (t : Tree) : List Range := t.root.val :: t.below.map (·.val)

/-- The pieces at depth zero. -/
def Subroutine.roots (sub : Subroutine) : List Root := sub.pieces ++ [sub.last]

def Subroutine.ranges (sub : Subroutine) : List Range :=
  sub.roots.map (·.val) ++ sub.children.map (·.val)

/-- The trees that a subroutine is taken apart into. -/
def Subroutine.trees (sub : Subroutine) : List Tree :=
  sub.pieces.map (⟨·, []⟩) ++ [⟨sub.last, sub.children⟩]

/-- An outermost node with those below it, as `collect_subroutine_tree` builds them. -/
structure Nested {ε : Type} (top : SymbConv.Node ε) : Prop where
  depth_eq : top.info.depth = 0
  below : ∀ node ∈ SymbConv.Node.dfsAll top.children, 0 < node.info.depth.toNat ∧
    node.info.depth.toNat ≤ 256
  named : ∀ node ∈ top.dfs, node.Named

section
variable {ε : Type} {visitor : List Range → Range → Except ε Unit} {demangle : String → String}

lemma ranges_of_nested {g : SymbConv.Node ε → List Range} {top : SymbConv.Node ε} (h : Nested top)
    (hg : ∀ node ∈ top.dfs, ∃ pieces last,
      g node = (if node.anyChildHasLines then pieces ++ [last] else []) ∧
      (∀ piece ∈ pieces, piece.depth = node.info.depth.setWidth 32) ∧
      last.depth = node.info.depth.setWidth 32) :
    top.dfs.flatMap g = [] ∨ ∃ sub : Subroutine, top.dfs.flatMap g = sub.ranges := by
  by_cases hlines : top.anyChildHasLines
  · right
    obtain ⟨pieces, last, hpieces, hdepth, hlast⟩ := hg top top.mem_dfs_self
    rw [if_pos hlines] at hpieces
    rw [h.depth_eq] at hdepth hlast
    have hbelow : ∀ rng ∈ (SymbConv.Node.dfsAll top.children).flatMap g, rng.depth ≠ 0 := by
      intro rng hrng
      obtain ⟨node, hnode, hmem⟩ := mem_flatMap.mp hrng
      obtain ⟨low, final, heq, hlow, hfinal⟩ :=
        hg node (by rw [SymbConv.Node.dfs_eq]; exact mem_cons_of_mem top hnode)
      have hrange := h.below node hnode
      have hne : node.info.depth.setWidth 32 ≠ 0 := by
        intro hzero
        have hnat := congrArg BitVec.toNat hzero
        rw [BitVec.toNat_setWidth] at hnat
        change _ = 0 at hnat
        omega
      rw [heq] at hmem
      split at hmem
      · rcases mem_append.mp hmem with hmem | hmem
        · rwa [hlow rng hmem]
        · rwa [mem_singleton.mp hmem, hfinal]
      · exact absurd hmem not_mem_nil
    rw [SymbConv.Node.dfs_eq, flatMap_cons, hpieces]
    generalize (SymbConv.Node.dfsAll top.children).flatMap g = below at hbelow
    lift pieces to List Root using hdepth
    lift below to List Inlined using hbelow
    refine ⟨⟨pieces, ⟨last, hlast⟩, below⟩, ?_⟩
    rw [Subroutine.ranges, Subroutine.roots, map_append]
    rfl
  · left
    rw [flatMap_eq_nil_iff]
    intro node hnode
    obtain ⟨pieces, last, heq, -⟩ := hg node hnode
    rw [heq, if_neg fun hnode' => hlines (SymbConv.Node.anyChildHasLines_of_mem hnode hnode')]

/-- Nodes with names are emitted as subroutines. -/
lemma emits_processSubroutine (hvisitor : ∀ out rng, visitor out rng = .ok ())
    {tops : List (SymbConv.Node ε)} (h : ∀ top ∈ tops, Nested top) :
    ∃ subs : List Subroutine, Emits (SymbConv.processSubroutine visitor demangle tops)
      (subs.flatMap Subroutine.ranges) () := by
  -- what a node hands over does not depend on what was handed over before
  let g := fun node => emitted (SymbConv.processNode visitor demangle node)
  have hg : ∀ top ∈ tops, ∀ node ∈ top.dfs, ∃ pieces last,
      Emits (SymbConv.processNode visitor demangle node) (g node) () ∧
      g node = (if node.anyChildHasLines then pieces ++ [last] else []) ∧
      (∀ piece ∈ pieces, piece.depth = node.info.depth.setWidth 32) ∧
      last.depth = node.info.depth.setWidth 32 := by
    intro top htop node hnode
    obtain ⟨pieces, last, hemits, hdepth⟩ :=
      SymbConv.emits_processNode hvisitor demangle ((h top htop).named node hnode)
    have heq : g node = _ := hemits.emitted_eq
    exact ⟨pieces, last, heq ▸ hemits, heq, hdepth⟩
  have hsubs : ∃ subs : List Subroutine, (tops.flatMap SymbConv.Node.dfs).flatMap g =
      subs.flatMap Subroutine.ranges := by
    induction tops with
    | nil => exact ⟨[], rfl⟩
    | cons top tops ih =>
      obtain ⟨subs, hsubs⟩ := ih (fun t ht => h t (mem_cons_of_mem top ht))
        fun t ht => hg t (mem_cons_of_mem top ht)
      rw [flatMap_cons, flatMap_append, hsubs]
      rcases ranges_of_nested (h top mem_cons_self) fun node hnode => by
          obtain ⟨pieces, last, -, hrest⟩ := hg top mem_cons_self node hnode
          exact ⟨pieces, last, hrest⟩ with hnil | ⟨sub, hsub⟩
      · exact ⟨subs, by rw [hnil, nil_append]⟩
      · exact ⟨sub :: subs, by rw [hsub, flatMap_cons]⟩
  obtain ⟨subs, hsubs⟩ := hsubs
  refine ⟨subs, ?_⟩
  rw [← hsubs, ← SymbConv.Node.dfsAll_eq]
  apply Emits.forM
  intro node hnode
  rw [SymbConv.Node.dfsAll_eq] at hnode
  obtain ⟨top, htop, hmem⟩ := mem_flatMap.mp hnode
  obtain ⟨pieces, last, hemits, -⟩ := hg top htop node hmem
  exact hemits

end

section
variable (mem : MemoryMap) (decoder : InstrDecoder)

def insnsOf (rng : Range) : List InstrInfo :=
  match codeOf mem rng with
  | none => []
  | some code => (decodeAll decoder rng.elfVa code).1

def Decodes (rng : Range) : Prop :=
  ∃ code, codeOf mem rng = some code ∧ (decodeAll decoder rng.elfVa code).2 = none

/-- The calls in the root of a tree. -/
def Tree.calls (t : Tree) : List InstrInfo := (insnsOf mem decoder t.root.val).filter (·.isCall)

/-- A call instruction in a subroutine. -/
structure Site where
  sub : Subroutine
  tree : Tree
  call : InstrInfo

def Subroutine.sites (sub : Subroutine) : List Site :=
  sub.trees.flatMap fun tree => (tree.calls mem decoder).map fun call => ⟨sub, tree, call⟩

def sites (subs : List Subroutine) : List Site := subs.flatMap (Subroutine.sites mem decoder)

end

variable {subs : List Subroutine} {s : Site} {t : Tree} {va : U64}

/-! ## Inline chains -/

def traceEntry (va : U64) (cur : Range) : Option Range → ReturnPadEntry
  | some next => ⟨cur.func, next.callFile, next.callLine⟩
  | none => ⟨cur.func, cur.file, lineNumberForVa cur va⟩

/-- The entries for a chain of ranges by increasing depth. -/
def traceEntries (va : U64) (chain : List Range) : List ReturnPadEntry :=
  List.zipWith (traceEntry va) chain (chain.tail.map some ++ [none])

/-- The depths are those of a chain without holes. -/
def NoHole (chain : List Range) : Prop := chain.map (·.depth.toNat) = List.range chain.length

instance : DecidablePred NoHole := fun chain =>
  inferInstanceAs (Decidable (chain.map (·.depth.toNat) = List.range chain.length))

def Consecutive (chain : List Range) : Prop :=
  chain.IsChain fun cur next => cur.depth + 1 = next.depth

instance : DecidablePred Consecutive := fun chain =>
  inferInstanceAs (Decidable (chain.IsChain fun cur next => cur.depth + 1 = next.depth))

lemma length_traceEntries (va : U64) (chain : List Range) :
    (traceEntries va chain).length = chain.length := by
  rw [traceEntries]
  cases chain with
  | nil => rfl
  | cons rng chain => simp

lemma inlineEntries_eq (va : U64) (chain : List Range) :
    inlineEntries va chain = if Consecutive chain then some (traceEntries va chain) else none := by
  induction chain with
  | nil => rfl
  | cons cur rest ih =>
    cases rest with
    | nil =>
      rfl
    | cons next rest =>
      have hsplit : Consecutive (cur :: next :: rest) ↔
          cur.depth + 1 = next.depth ∧ Consecutive (next :: rest) := isChain_cons_cons
      rw [inlineEntries, ih]
      by_cases hdepth : cur.depth + 1 = next.depth
      · by_cases htail : Consecutive (next :: rest)
        · rw [if_neg (not_not_intro hdepth), if_pos htail, if_pos (hsplit.mpr ⟨hdepth, htail⟩)]
          rfl
        · rw [if_neg (not_not_intro hdepth), if_neg htail, if_neg fun h => htail (hsplit.mp h).2]
          rfl
      · rw [if_pos hdepth, if_neg fun h => hdepth (hsplit.mp h).1]

lemma NoHole.consecutive {chain : List Range} (h : NoHole chain) : Consecutive chain := by
  rw [Consecutive, isChain_iff_getElem]
  intro i hi
  have hdepth : ∀ j (hj : j < chain.length), (chain[j].depth).toNat = j := by
    intro j hj
    have hget := congrArg (·[j]?) h
    simpa [hj] using hget
  apply BitVec.eq_of_toNat_eq
  have hnext := hdepth (i + 1) hi
  have hcur := hdepth i (by omega)
  rw [BitVec.toNat_add, hcur, hnext]
  show (i + 1) % 2 ^ 32 = i + 1
  omega

/-! ## What is emitted for a tree -/

/-- A call gets a return pad from its tree. -/
def Site.Traced (s : Site) : Prop :=
  matchesAt s.tree.ranges s.call.addr ≠ [] ∧ Consecutive (matchesAt s.tree.ranges s.call.addr)

instance : DecidablePred Site.Traced := fun s =>
  inferInstanceAs (Decidable (matchesAt s.tree.ranges s.call.addr ≠ [] ∧
    Consecutive (matchesAt s.tree.ranges s.call.addr)))

/-- The return pad of a call, from the ranges of its tree. -/
def Site.pad (s : Site) : ReturnPad :=
  ⟨s.call.stop - 1, traceEntries s.call.addr (matchesAt s.tree.ranges s.call.addr)⟩

def Site.wholePad (s : Site) : ReturnPad :=
  ⟨s.call.stop - 1, traceEntries s.call.addr (matchesAt s.sub.ranges s.call.addr)⟩

def padsOf (ss : List Site) : List ReturnPad := (ss.filter (·.Traced)).map Site.pad

section
variable {mem : MemoryMap} {decoder : InstrDecoder} {visitor : List ReturnPad → ReturnPad →
  Except Error Unit}

lemma collectCalls_below (below : List Inlined) :
    collectCalls mem decoder (below.map (·.val)) = .ok [] := by
  induction below with
  | nil => rfl
  | cons rng below ih => rw [map_cons, collectCalls, if_pos rng.property, ih]

lemma collectCalls_ranges (h : Decodes mem decoder t.root.val) :
    collectCalls mem decoder t.ranges = .ok (t.calls mem decoder) := by
  obtain ⟨code, hcode, herr⟩ := h
  have hinsns : insnsOf mem decoder t.root.val = (decodeAll decoder t.root.val.elfVa code).1 := by
    rw [insnsOf, hcode]
  rw [Tree.ranges, collectCalls, if_neg (not_not_intro t.root.property), hcode, Tree.calls, hinsns]
  dsimp only
  generalize decodeAll decoder t.root.val.elfVa code = decoded at herr
  obtain ⟨insns, err⟩ := decoded
  subst herr
  show (collectCalls mem decoder (t.below.map (·.val))).map _ = _
  rw [collectCalls_below]
  show Except.ok (insns.filter (·.isCall) ++ []) = _
  rw [append_nil]

lemma emits_emitPad (hvisitor : ∀ out pad, visitor out pad = .ok ()) (s : Site) :
    Emits (emitPad visitor s.tree.ranges s.call) (padsOf [s]) () := by
  have hentries :
      ∀ {entries}, traceEntries s.call.addr (matchesAt s.tree.ranges s.call.addr) = entries →
      (entries = [] ↔ matchesAt s.tree.ranges s.call.addr = []) := by
    intro entries h
    rw [← length_eq_zero_iff, ← length_eq_zero_iff, ← h, length_traceEntries]
  rw [emitPad, inlineEntries_eq]
  by_cases hconsecutive : Consecutive (matchesAt s.tree.ranges s.call.addr)
  · rw [if_pos hconsecutive]
    split
    · rename_i h
      cases h
    · rename_i h
      have hnil := (hentries (Option.some.inj h)).mp rfl
      have htraced : ¬s.Traced := fun ht => ht.1 hnil
      rw [padsOf, filter_cons_of_neg (by simpa using htraced)]
      exact emits_pure ()
    · rename_i entries hne h
      have hpad : Site.pad s = ⟨s.call.stop - 1, entries⟩ := by rw [Site.pad, Option.some.inj h]
      have htraced : s.Traced :=
        ⟨fun hnil => hne ((hentries (Option.some.inj h)).mpr hnil), hconsecutive⟩
      rw [padsOf, filter_cons_of_pos (by simpa using htraced)]
      show Emits _ [s.pad] ()
      rw [hpad]
      exact emits_visit hvisitor _
  · have htraced : ¬s.Traced := fun ht => hconsecutive ht.2
    rw [if_neg hconsecutive, padsOf, filter_cons_of_neg (by simpa using htraced)]
    exact emits_pure ()

variable (mem decoder) in
def treePads (sub : Subroutine) (t : Tree) : List ReturnPad :=
  (goStackStart mem decoder t.root.val).toList ++
    padsOf ((t.calls mem decoder).map fun call => ⟨sub, t, call⟩)

lemma padsOf_flatMap {α : Type} (f : α → List Site) (xs : List α) :
    padsOf (xs.flatMap f) = xs.flatMap fun x => padsOf (f x) := by
  rw [padsOf, filter_flatMap, map_flatMap]
  rfl

lemma emits_processTree (hvisitor : ∀ out pad, visitor out pad = .ok ()) (sub : Subroutine)
    (h : Decodes mem decoder t.root.val) :
    Emits (processTree mem decoder visitor t.ranges) (treePads mem decoder sub t) () := by
  have hcalls : Emits ((t.calls mem decoder).forM (emitPad visitor t.ranges))
      (padsOf ((t.calls mem decoder).map fun call => ⟨sub, t, call⟩)) () := by
    have hloop := Emits.forM fun call (_ : call ∈ t.calls mem decoder) =>
      emits_emitPad hvisitor ⟨sub, t, call⟩
    rwa [← padsOf_flatMap (fun call => [(⟨sub, t, call⟩ : Site)]), ← map_eq_flatMap] at hloop
  have hrest : Emits (ofResult (collectCalls mem decoder t.ranges) >>= fun calls =>
      calls.forM (emitPad visitor t.ranges)) _ () :=
      (emits_ofResult (collectCalls_ranges h)).bind hcalls
  exact (emits_visitOption hvisitor _).seq hrest

/-! ## What is emitted for all ranges -/

lemma treeLoop_below (below : List Inlined) (rest : List (Except Error Range))
    (treeBuf : List Range) :
    treeLoop mem decoder visitor (below.map (fun rng => .ok rng.val) ++ rest) treeBuf =
      treeLoop mem decoder visitor rest (treeBuf ++ below.map (·.val)) := by
  induction below generalizing treeBuf with
  | nil => rw [map_nil, map_nil, nil_append, append_nil]
  | cons rng below ih =>
    rw [map_cons, cons_append, treeLoop, if_neg fun h => rng.property h.1, ih, append_assoc]
    rfl

lemma Tree.ranges_ne_nil (t : Tree) : t.ranges ≠ [] := cons_ne_nil _ _

lemma items_cons (t : Subroutine × Tree) (trees : List (Subroutine × Tree)) :
    ((t :: trees).flatMap fun t => t.2.ranges).map .ok =
      .ok t.2.root.val :: (t.2.below.map (fun rng => .ok rng.val) ++
        (trees.flatMap fun t => t.2.ranges).map (.ok : Range → Except Error Range)) := by
  simp [Tree.ranges]

lemma emits_treeLoop (hvisitor : ∀ out pad, visitor out pad = .ok ())
    (trees : List (Subroutine × Tree)) (first : Subroutine × Tree)
    (h : ∀ t ∈ first :: trees, Decodes mem decoder t.2.root.val) :
    Emits
      (treeLoop mem decoder visitor ((trees.flatMap fun t => t.2.ranges).map .ok) first.2.ranges)
      ((first :: trees).flatMap fun t => treePads mem decoder t.1 t.2) () := by
  have hfirst := emits_processTree hvisitor first.1 (h first mem_cons_self)
  induction trees generalizing first with
  | nil =>
    rw [flatMap_singleton]
    exact hfirst
  | cons t trees ih =>
    have hnext : ∀ u ∈ t :: trees, Decodes mem decoder u.2.root.val :=
      fun u hu => h u (mem_cons_of_mem first hu)
    rw [items_cons, treeLoop, if_pos ⟨t.2.root.property, first.2.ranges_ne_nil⟩, treeLoop_below]
    exact hfirst.seq (ih t hnext (emits_processTree hvisitor t.1 (hnext t mem_cons_self)))

def allTrees (subs : List Subroutine) : List (Subroutine × Tree) :=
  subs.flatMap fun sub => sub.trees.map (sub, ·)

lemma Subroutine.ranges_eq (sub : Subroutine) : sub.ranges = sub.trees.flatMap Tree.ranges := by
  have hpieces : sub.pieces.flatMap (fun rng => Tree.ranges ⟨rng, []⟩) = sub.pieces.map (·.val) :=
    map_eq_flatMap.symm
  rw [Subroutine.ranges, Subroutine.roots, Subroutine.trees, flatMap_append, flatMap_map, hpieces,
    map_append, append_assoc, flatMap_singleton]
  rfl

lemma flatMap_allTrees (subs : List Subroutine) :
    (allTrees subs).flatMap (fun t => t.2.ranges) = subs.flatMap Subroutine.ranges := by
  rw [allTrees, flatMap_assoc]
  congr 1
  funext sub
  rw [flatMap_map, Subroutine.ranges_eq]

lemma mem_allTrees {t : Subroutine × Tree} : t ∈ allTrees subs ↔ t.1 ∈ subs ∧ t.2 ∈ t.1.trees := by
  rw [allTrees, mem_flatMap]
  constructor
  · rintro ⟨sub, hsub, ht⟩
    obtain ⟨tree, htree, rfl⟩ := mem_map.mp ht
    exact ⟨hsub, htree⟩
  · intro h
    exact ⟨t.1, h.1, mem_map_of_mem h.2⟩

lemma Subroutine.roots_eq (sub : Subroutine) : sub.roots = sub.trees.map Tree.root := by
  rw [Subroutine.trees, map_append, map_map]
  show _ = sub.pieces.map id ++ _
  rw [map_id]
  rfl

lemma emits_extractRetpads {amd64 : InstrDecoder} {executable : Executable}
    (hmem : executable.memoryMap = .ok mem)
    (hdecoder : decoderFor amd64 executable.arch = .ok decoder)
    (hvisitor : ∀ out pad, visitor out pad = .ok ())
    (h : ∀ sub ∈ subs, ∀ root ∈ sub.roots, Decodes mem decoder root.val) :
    Emits (extractRetpads amd64 executable ((subs.flatMap Subroutine.ranges).map .ok) visitor)
      ((allTrees subs).flatMap fun t => treePads mem decoder t.1 t.2) () := by
  have hdecodes : ∀ t ∈ allTrees subs, Decodes mem decoder t.2.root.val := by
    intro t ht
    have hmem := mem_allTrees.mp ht
    apply h t.1 hmem.1
    rw [Subroutine.roots_eq]
    exact mem_map_of_mem hmem.2
  have hloop : Emits (treeLoop mem decoder visitor ((subs.flatMap Subroutine.ranges).map .ok) [])
      ((allTrees subs).flatMap fun t => treePads mem decoder t.1 t.2) () := by
    rw [← flatMap_allTrees]
    generalize allTrees subs = trees at hdecodes
    cases trees with
    | nil => exact emits_pure ()
    | cons t trees =>
      rw [items_cons, treeLoop, if_neg fun h => h.2 rfl, treeLoop_below]
      exact emits_treeLoop hvisitor trees t hdecodes
  exact (emits_ofResult hmem).bind ((emits_ofResult hdecoder).bind hloop)

/-! ## The return pads at one address -/

variable (mem decoder) in
lemma pads_perm (subs : List Subroutine) :
    ((allTrees subs).flatMap fun t => treePads mem decoder t.1 t.2).Perm
      ((allTrees subs).flatMap (fun t => (goStackStart mem decoder t.2.root.val).toList) ++
        padsOf (sites mem decoder subs)) := by
  have hsites : padsOf (sites mem decoder subs) = (allTrees subs).flatMap fun t =>
      padsOf ((t.2.calls mem decoder).map fun call => ⟨t.1, t.2, call⟩) := by
    rw [← padsOf_flatMap, allTrees, flatMap_assoc, sites]
    congr 2
    funext sub
    rw [flatMap_map]
    rfl
  rw [hsites]
  exact (flatMap_append_perm _ _ _).symm

lemma goStackStart_elfVa {rng : Range} (h : Decodes mem decoder rng) (va : U64) :
    (∃ pad, goStackStart mem decoder rng = some pad ∧ pad.elfVa = va - 1) ↔
      rng.func = "runtime.goexit" ∧
      (insnsOf mem decoder rng).head?.map InstrInfo.stop = some va := by
  obtain ⟨code, hcode, herr⟩ := h
  rw [goStackStart, insnsOf, hcode]
  by_cases hfunc : rng.func = "runtime.goexit"
  · dsimp only
    rw [head?_decodeAll herr]
    cases hfirst : decoder.decode rng.elfVa code with
    | error err => simp [Except.toOption]
    | ok insn => simp [Except.toOption, InstrInfo.stop, decoder.addr_eq hfirst, hfunc]
  · simp [hfunc]

lemma padsOf_filter (ss : List Site) (va : U64) :
    (padsOf ss).filter (fun pad => pad.elfVa = va - 1) =
      (ss.filter fun s => s.call.stop = va ∧ s.Traced).map Site.pad := by
  rw [padsOf, filter_map]
  simp [Site.pad]

lemma goStackStart_filter_eq_nil (va : U64)
    (h : ∀ sub ∈ subs, ∀ root ∈ sub.roots, Decodes mem decoder root.val) :
    ((allTrees subs).flatMap fun t => (goStackStart mem decoder t.2.root.val).toList).filter
        (fun pad => pad.elfVa = va - 1) = [] ↔
      ∀ sub ∈ subs, ∀ root ∈ sub.roots, root.val.func = "runtime.goexit" →
        (insnsOf mem decoder root.val).head?.map InstrInfo.stop ≠ some va := by
  simp only [filter_eq_nil_iff, mem_flatMap, mem_allTrees, Option.mem_toList, decide_eq_true_eq]
  constructor
  · intro hnone sub hsub root hroot hfunc hva
    obtain ⟨pad, hpad, helf⟩ := (goStackStart_elfVa (h sub hsub root hroot) va).mpr ⟨hfunc, hva⟩
    rw [Subroutine.roots_eq] at hroot
    obtain ⟨t, ht, rfl⟩ := mem_map.mp hroot
    exact hnone pad ⟨(sub, t), ⟨hsub, ht⟩, hpad⟩ helf
  · rintro hnone pad ⟨⟨sub, t⟩, ⟨hsub, ht⟩, hpad⟩ helf
    have hroot : t.root ∈ sub.roots := by
      rw [Subroutine.roots_eq]
      exact mem_map_of_mem ht
    obtain ⟨hfunc, hva⟩ := (goStackStart_elfVa (h sub hsub _ hroot) va).mp ⟨pad, hpad, helf⟩
    exact hnone sub hsub _ hroot hfunc hva

end

/-! ## The tree and the subroutine of a call -/

lemma matchesAt_perm (tree : List Range) (va : U64) : (matchesAt tree va).Perm
    (queryPoint tree va) :=
  perm_insertionSort _ _

lemma queryPoint_append (xs ys : List Range) (va : U64) :
    queryPoint (xs ++ ys) va = queryPoint xs va ++ queryPoint ys va := filter_append xs ys

lemma matchesAt_singleton {rng : Range} (h : Holds va rng) : matchesAt [rng] va = [rng] := by
  rw [matchesAt, queryPoint, filter_cons_of_pos (by simpa using h)]
  rfl

lemma queryPoint_roots {sub : Subroutine} {root : Root} (hroot : root ∈ sub.roots)
    (hholds : Holds va root.val) (hchain : NoHole (matchesAt sub.ranges va)) :
    queryPoint (sub.roots.map (·.val)) va = [root.val] := by
  have hzero : (queryPoint sub.ranges va).countP (·.depth.toNat = 0) ≤ 1 := by
    rw [← (matchesAt_perm _ _).countP_eq]
    have hcount := nodup_iff_count_le_one.mp (nodup_range (n := (matchesAt sub.ranges va).length)) 0
    rw [← hchain, count, countP_map] at hcount
    congr 1
  have hlength : (queryPoint (sub.roots.map (·.val)) va).length ≤ 1 := by
    refine le_trans ?_ hzero
    rw [Subroutine.ranges, queryPoint_append, countP_append]
    refine le_trans (le_of_eq ?_) (Nat.le_add_right _ _)
    symm
    apply countP_eq_length.mpr
    intro rng hrng
    obtain ⟨piece, -, rfl⟩ := mem_map.mp (mem_of_mem_filter hrng)
    simp [piece.property]
  have hmem : root.val ∈ queryPoint (sub.roots.map (·.val)) va :=
    mem_filter.mpr ⟨mem_map_of_mem hroot, by simpa using hholds⟩
  obtain ⟨rng, hrng⟩ := length_eq_one_iff.mp
    (le_antisymm hlength (length_pos_of_mem hmem))
  rw [hrng] at hmem ⊢
  rw [mem_singleton.mp hmem]

/-- The ranges behind the last piece are in its tree only. -/
lemma site_cases {sub : Subroutine} (ht : t ∈ sub.trees) (hholds : Holds va t.root.val)
    (hchain : NoHole (matchesAt sub.ranges va)) :
    (t.root = sub.last ∨ ∀ child ∈ sub.children, ¬Holds va child.val) ∧
        matchesAt t.ranges va = matchesAt sub.ranges va ∨
      ¬(t.root = sub.last ∨ ∀ child ∈ sub.children, ¬Holds va child.val) ∧
        matchesAt t.ranges va = [t.root.val] ∧ 1 < (matchesAt sub.ranges va).length := by
  have hroot : t.root ∈ sub.roots := by
    rw [Subroutine.roots_eq]
    exact mem_map_of_mem ht
  have hroots := queryPoint_roots hroot hholds hchain
  have hsub :
      queryPoint sub.ranges va = t.root.val :: queryPoint (sub.children.map (·.val)) va := by
    rw [Subroutine.ranges, queryPoint_append, hroots]
    rfl
  rw [Subroutine.trees, mem_append, mem_map, mem_singleton] at ht
  rcases ht with ⟨piece, hpiece, rfl⟩ | rfl
  · -- the tree of a piece in front of the last one has no other range
    have hne : piece ≠ sub.last := by
      rintro rfl
      rw [Subroutine.roots, map_append, queryPoint_append] at hroots
      have hfront : sub.last.val ∈ queryPoint (sub.pieces.map (·.val)) va :=
        mem_filter.mpr ⟨mem_map_of_mem hpiece, by simpa using hholds⟩
      have hlast : sub.last.val ∈ queryPoint ([sub.last].map (·.val)) va :=
        mem_filter.mpr ⟨mem_cons_self, by simpa using hholds⟩
      have hlength := congrArg length hroots
      have hpos := length_pos_of_mem hfront
      have hpos' := length_pos_of_mem hlast
      rw [length_append, length_singleton] at hlength
      omega
    have htree : matchesAt (Tree.ranges ⟨piece, []⟩) va = [piece.val] := matchesAt_singleton hholds
    by_cases hchildren : ∀ child ∈ sub.children, ¬Holds va child.val
    · refine Or.inl ⟨Or.inr hchildren, ?_⟩
      have hnone : queryPoint (sub.children.map (·.val)) va = [] := by
        rw [queryPoint, filter_eq_nil_iff]
        intro rng hrng
        obtain ⟨child, hchild, rfl⟩ := mem_map.mp hrng
        simpa using hchildren child hchild
      rw [htree, matchesAt, hsub, hnone]
      rfl
    · refine Or.inr ⟨fun h => h.elim hne hchildren, htree, ?_⟩
      push Not at hchildren
      obtain ⟨child, hchild, hva⟩ := hchildren
      have hmem : child.val ∈ queryPoint (sub.children.map (·.val)) va :=
        mem_filter.mpr ⟨mem_map_of_mem hchild, by simpa using hva⟩
      rw [(matchesAt_perm _ _).length_eq, hsub, length_cons]
      have hpos := length_pos_of_mem hmem
      omega
  · refine Or.inl ⟨Or.inl rfl, ?_⟩
    have htree : queryPoint (Tree.ranges ⟨sub.last, sub.children⟩) va =
        queryPoint sub.ranges va := by
      rw [hsub, Tree.ranges, queryPoint, filter_cons_of_pos (by simpa using hholds)]
      rfl
    rw [matchesAt, matchesAt, htree]

section
variable {mem : MemoryMap} {decoder : InstrDecoder} {visitor : List ReturnPad → ReturnPad →
  Except Error Unit}

section
variable (ht : s.tree ∈ s.sub.trees) (hholds : Holds s.call.addr s.tree.root.val)
  (hchain : NoHole (matchesAt s.sub.ranges s.call.addr))
include ht hholds hchain

lemma traced_of_noHole : s.Traced := by
  have hne : matchesAt s.tree.ranges s.call.addr ≠ [] := by
    have hmem : s.tree.root.val ∈ matchesAt s.tree.ranges s.call.addr := by
      rw [(matchesAt_perm _ _).mem_iff]
      exact mem_filter.mpr ⟨mem_cons_self, by simpa using hholds⟩
    exact ne_nil_of_mem hmem
  rcases site_cases ht hholds hchain with ⟨-, heq⟩ | ⟨-, heq, -⟩
  · exact ⟨hne, heq ▸ hchain.consecutive⟩
  · exact ⟨hne, heq ▸ isChain_singleton _⟩

lemma pad_eq_wholePad_iff : s.pad = s.wholePad ↔
      (s.tree.root = s.sub.last ∨ ∀ child ∈ s.sub.children, ¬Holds s.call.addr child.val) := by
  rcases site_cases ht hholds hchain with ⟨hcond, heq⟩ | ⟨hcond, heq, hlength⟩
  · rw [Site.pad, heq]
    exact iff_of_true rfl hcond
  · refine iff_of_false ?_ hcond
    intro h
    have hlen := congrArg (fun pad : ReturnPad => pad.entries.length) h
    simp only [Site.pad, Site.wholePad, length_traceEntries, heq, length_singleton] at hlen
    omega

end

lemma eq_singleton_iff {α β : Type} {f : α → β} {l others : List β} {xs : List α} {x : α} {y : β}
    (h : l.Perm (others ++ xs.map f)) (hx : x ∈ xs) :
    l = [y] ↔ f x = y ∧ xs.length = 1 ∧ others = [] := by
  constructor
  · rintro rfl
    have heq := perm_singleton.mp h.symm
    have hlength := congrArg length heq
    have hpos := length_pos_of_mem hx
    rw [length_append, length_map, length_singleton] at hlength
    have hothers : others = [] := length_eq_zero_iff.mp (by omega)
    have hmem : f x ∈ [y] := heq ▸ mem_append_right _ (mem_map_of_mem hx)
    exact ⟨mem_singleton.mp hmem, by omega, hothers⟩
  · rintro ⟨rfl, hlength, rfl⟩
    obtain ⟨z, rfl⟩ := length_eq_one_iff.mp hlength
    rw [mem_singleton.mp hx]
    exact perm_singleton.mp h

lemma mem_sites (h : s ∈ sites mem decoder subs) : s.tree ∈ s.sub.trees := by
  simp only [sites, Subroutine.sites, mem_flatMap, mem_map] at h
  obtain ⟨sub, -, tree, htree, call, -, rfl⟩ := h
  exact htree

/-- A call in a subroutine whose inline chain has no hole has one return pad with the whole chain
exactly if it is in the last piece or nothing is inlined at it, no other call with a return pad
returns there, and the address is not the one added for `runtime.goexit`. -/
theorem extractRetpads_whole_iff {amd64 : InstrDecoder} {executable : Executable}
    (hmem : executable.memoryMap = .ok mem)
    (hdecoder : decoderFor amd64 executable.arch = .ok decoder)
    (hvisitor : ∀ out pad, visitor out pad = .ok ()) {subs : List Subroutine}
    (hdecodes : ∀ sub ∈ subs, ∀ root ∈ sub.roots, Decodes mem decoder root.val) {site : Site}
    (hsite : site ∈ sites mem decoder subs) (hinside : Holds site.call.addr site.tree.root.val)
    (hchain : NoHole (matchesAt site.sub.ranges site.call.addr)) :
    (emitted (extractRetpads amd64 executable
      ((subs.flatMap Subroutine.ranges).map .ok) visitor)).filter
        (fun pad => pad.elfVa = site.call.stop - 1) = [site.wholePad] ↔
      (site.tree.root = site.sub.last ∨
          ∀ child ∈ site.sub.children, ¬Holds site.call.addr child.val) ∧
        ((sites mem decoder subs).filter fun s => s.call.stop = site.call.stop ∧
          s.Traced).length = 1 ∧
        ∀ sub ∈ subs, ∀ root ∈ sub.roots, root.val.func = "runtime.goexit" →
          (insnsOf mem decoder root.val).head?.map InstrInfo.stop ≠ some site.call.stop := by
  have ht := mem_sites hsite
  have htraced := traced_of_noHole ht hinside hchain
  have hpads :=
    (pads_perm mem decoder subs).filter fun pad => decide (pad.elfVa = site.call.stop - 1)
  rw [(emits_extractRetpads hmem hdecoder hvisitor hdecodes).emitted_eq,
    ← pad_eq_wholePad_iff ht hinside hchain, ← goStackStart_filter_eq_nil _ hdecodes]
  rw [filter_append, padsOf_filter] at hpads
  apply eq_singleton_iff hpads
  exact mem_filter.mpr ⟨hsite, by simpa using htraced⟩

end

/-! ## A subroutine with lines from two files

`f` has a call to what `g` calls at `0x1004` and one to what `h` calls at `0x100c`.
Its lines come from `a.c` first and from `m.h` from `0x1008` on. -/

/-- `nop`, `bl`, `nop`, `bl`. -/
def splitMem : MemoryMap :=
  [⟨0x1000, 0x10, [0x1f, 0x20, 0x03, 0xd5, 0x00, 0x00, 0x00, 0x94, 0x1f, 0x20, 0x03, 0xd5, 0x00,
    0x00, 0x00, 0x94]⟩]

def splitExecutable : Executable := ⟨.ok splitMem, some .aarch64⟩

def splitNodes : List (SymbConv.Node Error) :=
  [.mk 0x1000 0x1010 ⟨.ok (some "f"), .ok none, none, 0⟩ [⟨0x1000, "a.c", 1⟩, ⟨0x1008, "m.h", 7⟩]
    [.mk 0x1004 0x1008 ⟨.ok (some "g"), .ok (some "a.c"), some 2, 1⟩ [⟨0x1004, "g.h", 20⟩] [],
      .mk 0x100c 0x1010 ⟨.ok (some "h"), .ok (some "m.h"), some 8, 1⟩ [⟨0x100c, "h.h", 30⟩] []]]

def splitSub : Subroutine where
  pieces := [⟨⟨0x1000, 8, "f", some "a.c", none, none, 0, [⟨0, 1⟩]⟩, rfl⟩]
  last := ⟨⟨0x1008, 8, "f", some "m.h", none, none, 0, [⟨0, 7⟩]⟩, rfl⟩
  children := [⟨⟨0x1004, 4, "g", some "g.h", some "a.c", some 2, 1, [⟨0, 20⟩]⟩, by decide⟩,
    ⟨⟨0x100c, 4, "h", some "h.h", some "m.h", some 8, 1, [⟨0, 30⟩]⟩, by decide⟩]

def acceptAll {β : Type} (_ : List β) (_ : β) : Except Error Unit := .ok ()

def frontSite : Site := ⟨splitSub, ⟨splitSub.pieces.head (by decide), []⟩, ⟨0x1004, true, 4⟩⟩

def lastSite : Site := ⟨splitSub, ⟨splitSub.last, splitSub.children⟩, ⟨0x100c, true, 4⟩⟩

lemma splitSub_emitted :
    emitted (SymbConv.processSubroutine acceptAll id splitNodes) = splitSub.ranges := by
  decide +kernel

lemma decodes_splitSub : ∀ sub ∈ [splitSub], ∀ root ∈ sub.roots,
    Decodes splitMem aarch64InstrDecoder root.val := by
  intro sub hsub root hroot
  rw [mem_singleton.mp hsub] at hroot
  rcases mem_append.mp hroot with hroot | hroot
  all_goals
    rw [mem_singleton.mp hroot]
    exact ⟨_, rfl, rfl⟩

theorem extractRetpads_whole_last :
    (emitted (extractRetpads aarch64InstrDecoder splitExecutable
        (([splitSub].flatMap Subroutine.ranges).map .ok) acceptAll)).filter
      (fun pad => pad.elfVa = lastSite.call.stop - 1) = [lastSite.wholePad] := by
  have hsite : lastSite ∈ sites splitMem aarch64InstrDecoder [splitSub] := by
    exact mem_cons_of_mem _ mem_cons_self
  apply (extractRetpads_whole_iff rfl rfl (fun _ _ => rfl) decodes_splitSub hsite (by decide)
    (by decide)).mpr
  refine ⟨Or.inl rfl, ?_, ?_⟩ <;> decide

/-- The call in the first piece gets a return pad without `g`, which is inlined there. -/
theorem extractRetpads_front_piece :
    emitted (SymbConv.processSubroutine acceptAll id splitNodes) = splitSub.ranges ∧
      (∀ root ∈ splitSub.roots, Decodes splitMem aarch64InstrDecoder root.val) ∧
      frontSite ∈ sites splitMem aarch64InstrDecoder [splitSub] ∧
      Holds frontSite.call.addr frontSite.tree.root.val ∧
      NoHole (matchesAt frontSite.sub.ranges frontSite.call.addr) ∧
      (emitted (extractRetpads aarch64InstrDecoder splitExecutable
        (splitSub.ranges.map .ok) acceptAll)).filter
        (fun pad => pad.elfVa = frontSite.call.stop - 1) = [⟨0x1007, [⟨"f", some "a.c", some 1⟩]⟩] ∧
      frontSite.wholePad = ⟨0x1007, [⟨"f", some "a.c", some 2⟩, ⟨"g", some "g.h", some 20⟩]⟩ := by
  refine ⟨splitSub_emitted, decodes_splitSub splitSub mem_cons_self,
    ?_, by decide, by decide, ?_, ?_⟩
  · exact mem_cons_self
  · decide +kernel
  · decide +kernel

end EbpfProfiler.RetPads
