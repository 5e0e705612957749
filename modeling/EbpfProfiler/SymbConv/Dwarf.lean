import EbpfProfiler.Lib.Emit
import EbpfProfiler.SymbFile.Proto

/-!
# Ranges from DWARF data

The second half of `process_subroutine` (`symbconv/dwarf/mod.rs`).
-/

namespace EbpfProfiler.SymbConv

open Lib List
open SymbFile (U32 U64 Range LineTableEntry)

/-- `IntermediateLineTableEntry`: where a line starts. Where it ends is not used here. -/
structure IntermediateLine where
  start : U64
  file : String
  line : U64

/-- `SubprogramInfo`, with the results of looking up name and call file. -/
structure SubprogramInfo (ε : Type) where
  name : Except ε (Option String)
  callFile : Except ε (Option String)
  callLine : Option U64
  depth : U64

/-- A node of the range tree. The synthetic root is not one of them. -/
inductive Node (ε : Type)
  | mk (start stop : U64) (info : SubprogramInfo ε) (lineTable : List IntermediateLine)
      (children : List (Node ε))

section
variable {ε : Type}

namespace Node

def start : Node ε → U64
  | mk start _ _ _ _ => start

def stop : Node ε → U64
  | mk _ stop _ _ _ => stop

def info : Node ε → SubprogramInfo ε
  | mk _ _ info _ _ => info

def lineTable : Node ε → List IntermediateLine
  | mk _ _ _ lineTable _ => lineTable

def children : Node ε → List (Node ε)
  | mk _ _ _ _ children => children

mutual

/-- `iter_dfs`. -/
def dfs : Node ε → List (Node ε)
  | mk start stop info lineTable children =>
      mk start stop info lineTable children :: dfsAll children

/-- `iter_dfs` for the nodes below a synthetic root. -/
def dfsAll : List (Node ε) → List (Node ε)
  | [] => []
  | node :: nodes => dfs node ++ dfsAll nodes

end

lemma dfs_eq (node : Node ε) : node.dfs = node :: dfsAll node.children := by
  cases node
  rfl

lemma dfsAll_eq (nodes : List (Node ε)) : dfsAll nodes = nodes.flatMap dfs := by
  induction nodes with
  | nil => rfl
  | cons node nodes ih => rw [dfsAll, ih, flatMap_cons]

lemma mem_dfs_self (node : Node ε) : node ∈ node.dfs := by
  rw [dfs_eq]
  exact mem_cons_self

mutual

lemma mem_dfs_of_mem {top node low : Node ε} (hnode : node ∈ top.dfs) (hlow : low ∈ node.dfs) :
    low ∈ top.dfs :=
  match top with
  | mk start stop info lineTable children => by
    rw [dfs, mem_cons] at hnode
    rcases hnode with rfl | hnode
    · exact hlow
    · exact mem_cons_of_mem _ (mem_dfsAll_of_mem hnode hlow)

lemma mem_dfsAll_of_mem {nodes : List (Node ε)} {node low : Node ε} (hnode : node ∈ dfsAll nodes)
    (hlow : low ∈ node.dfs) : low ∈ dfsAll nodes :=
  match nodes with
  | [] => absurd hnode (not_mem_nil)
  | top :: nodes => by
    rw [dfsAll, mem_append] at hnode ⊢
    rcases hnode with hnode | hnode
    · exact Or.inl (mem_dfs_of_mem hnode hlow)
    · exact Or.inr (mem_dfsAll_of_mem hnode hlow)

end

/-- `any_child_has_lines`: the node or one below it has line info. -/
def anyChildHasLines (node : Node ε) : Bool := node.dfs.any fun n => !n.lineTable.isEmpty

end Node

lemma Node.anyChildHasLines_of_mem {top node : Node ε} (hnode : node ∈ top.dfs)
    (h : node.anyChildHasLines = true) : top.anyChildHasLines = true := by
  obtain ⟨low, hlow, hlines⟩ := any_eq_true.mp h
  exact any_eq_true.mpr ⟨low, Node.mem_dfs_of_mem hnode hlow, hlines⟩

/-- A row at the end of the line table. -/
def pushLine (record : Range) (row : IntermediateLine) : Range :=
  { record with lineTable := record.lineTable ++
      [⟨(row.start - record.elfVa).setWidth 32, row.line.setWidth 32⟩] }

variable (visitor : List Range → Range → Except ε Unit)

/-- The loop over the line table, which gives the last record. -/
def splitLoop (stop : U64) : Range → List IntermediateLine → Emit ε Range Range
  | record, [] => pure record
  | record, row :: rows =>
    match record.file with
    | some prevFile =>
      if prevFile ≠ row.file then do
        -- the file changed: the record is split
        visit visitor { record with length := (row.start - record.elfVa).setWidth 32 }
        splitLoop stop (pushLine { record with
          elfVa := row.start
          length := (stop - row.start).setWidth 32
          lineTable := []
          file := some row.file } row) rows
      else splitLoop stop (pushLine record row) rows
    | none => splitLoop stop (pushLine { record with file := some row.file } row) rows

/-- The body of the loop of `process_subroutine` over the nodes. -/
def processNode (demangle : String → String) (node : Node ε) : Emit ε Range Unit := do
  match ← ofResult node.info.name with
  | none => pure ()
  | some name =>
    let callFile ← ofResult node.info.callFile
    let record ← splitLoop visitor node.stop
      ⟨node.start, (node.stop - node.start).setWidth 32, demangle name, none, callFile,
        node.info.callLine.map (·.setWidth 32), node.info.depth.setWidth 32, []⟩ node.lineTable
    if node.anyChildHasLines then visit visitor record else pure ()

/-- `process_subroutine` for the nodes below the synthetic root. -/
def processSubroutine (demangle : String → String) (nodes : List (Node ε)) : Emit ε Range Unit :=
  (Node.dfsAll nodes).forM (processNode visitor demangle)

end

/-! ## What is emitted for a node -/

section
variable {ε : Type} {visitor : List Range → Range → Except ε Unit}

/-- All records of a node have its depth. Without lines there is no split. -/
lemma emits_splitLoop (hvisitor : ∀ out rng, visitor out rng = .ok ()) (stop : U64) (record : Range)
    (rows : List IntermediateLine) :
    ∃ pieces last, Emits (splitLoop visitor stop record rows) pieces last ∧
      (∀ piece ∈ pieces, piece.depth = record.depth) ∧ last.depth = record.depth ∧
      (rows = [] → pieces = []) := by
  induction rows generalizing record with
  | nil => exact ⟨[], record, emits_pure record, by simp, rfl, fun _ => rfl⟩
  | cons row rows ih =>
    rw [splitLoop]
    cases hfile : record.file with
    | none =>
      obtain ⟨pieces, last, hemits, hpieces, hlast, -⟩ :=
        ih (pushLine { record with file := some row.file } row)
      exact ⟨pieces, last, hemits, hpieces, hlast, by simp⟩
    | some prevFile =>
      dsimp only
      split
      · obtain ⟨pieces, last, hemits, hpieces, hlast, -⟩ := ih (pushLine { record with
          elfVa := row.start
          length := (stop - row.start).setWidth 32
          lineTable := []
          file := some row.file } row)
        refine ⟨_ :: pieces, last, (emits_visit hvisitor _).seq hemits, ?_, hlast, by simp⟩
        exact forall_mem_cons.mpr ⟨rfl, hpieces⟩
      · obtain ⟨pieces, last, hemits, hpieces, hlast, -⟩ := ih (pushLine record row)
        exact ⟨pieces, last, hemits, hpieces, hlast, by simp⟩

/-- The name and the call file of a node are found. -/
def Node.Named (node : Node ε) : Prop :=
  (∃ name, node.info.name = .ok (some name)) ∧ ∃ callFile, node.info.callFile = .ok callFile

lemma emits_processNode (hvisitor : ∀ out rng, visitor out rng = .ok ())
    (demangle : String → String) {node : Node ε}
    (hnamed : node.Named) : ∃ pieces last, Emits (processNode visitor demangle node)
        (if node.anyChildHasLines then pieces ++ [last] else []) () ∧
      (∀ piece ∈ pieces, piece.depth = node.info.depth.setWidth 32) ∧
      last.depth = node.info.depth.setWidth 32 := by
  obtain ⟨⟨name, hname⟩, callFile, hcallFile⟩ := hnamed
  obtain ⟨pieces, last, hemits, hpieces, hlast, hnil⟩ := emits_splitLoop hvisitor node.stop
    ⟨node.start, (node.stop - node.start).setWidth 32, demangle name, none, callFile,
      node.info.callLine.map (·.setWidth 32), node.info.depth.setWidth 32, []⟩ node.lineTable
  refine ⟨pieces, last, ?_, hpieces, hlast⟩
  have hend : Emits (if node.anyChildHasLines then visit visitor last else pure ())
      (if node.anyChildHasLines then [last] else []) () := by
    split
    · exact emits_visit hvisitor last
    · exact emits_pure ()
  have hout : (if node.anyChildHasLines then pieces ++ [last] else []) =
      pieces ++ if node.anyChildHasLines then [last] else [] := by
    split
    · rfl
    · rename_i hlines
      have hrows : node.lineTable = [] := by
        rw [Node.anyChildHasLines, Node.dfs_eq, any_cons, Bool.or_eq_true, not_or] at hlines
        simpa using hlines.1
      rw [hnil hrows]
      rfl
  rw [hout]
  exact (emits_ofResult hname).bind ((emits_ofResult hcallFile).bind (hemits.bind hend))

end

end EbpfProfiler.SymbConv
