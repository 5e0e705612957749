import EbpfProfiler.Lib.Iter
import EbpfProfiler.Lib.LastLe
import EbpfProfiler.SymbConv.CovMap

/-!
# Line tables

`LineIter` (`symblib/src/dwarf.rs`) turns the rows of a line program into ranges.
-/

namespace EbpfProfiler.Dwarf

open List Lib
open SymbConv (VaRange)

/-- A row of the line program. -/
structure LineRow where
  address : ℕ
  fileIndex : ℕ
  line : Option ℕ
  endSequence : Bool

/-- `LineTableEntry`, with the id and the other fields of its source file. -/
structure LineTableEntry (F : Type) where
  rng : VaRange
  fileId : ℕ
  file : F
  line : Option ℕ

/-- `LineIter`. Between the sequences there is no entry. -/
structure LineIter (F : Type) where
  rows : List LineRow
  state : Option (LineTableEntry F)

variable {ε F : Type} (readFile : ℕ → Except ε F)

def fromRow (row : LineRow) : Except ε (LineTableEntry F) := do
  let file ← readFile row.fileIndex
  return ⟨⟨row.address, row.address⟩, row.fileIndex, file, row.line⟩

/-- The loop of `next`. -/
def nextLoop : List LineRow → Option (LineTableEntry F) → Except ε
    (Option (LineTableEntry F) × LineIter F)
  | [], state => .ok (state, ⟨[], none⟩)
  | row :: rows, none =>
    if row.endSequence then nextLoop rows none
    else do
      let entry ← fromRow readFile row
      nextLoop rows (some entry)
  | row :: rows, some entry =>
    if row.endSequence then .ok (some { entry with rng.stop := row.address }, ⟨rows, none⟩)
    else if row.address < entry.rng.stop then do
      let new ← fromRow readFile row
      return (some { entry with rng.stop := (entry.rng.start + 1) % 2 ^ 64 }, ⟨rows, some new⟩)
    else
      let active := { entry with rng.stop := row.address }
      if active.fileId = row.fileIndex ∧ active.line = row.line then nextLoop rows (some active)
      else do
        let new ← fromRow readFile row
        return (some active, ⟨rows, some new⟩)

def LineIter.next (s : LineIter F) : Except ε (Option (LineTableEntry F) × LineIter F) :=
  nextLoop readFile s.rows s.state

/-! ## Sequences -/

/-- The rows of a sequence and the one that closes it. -/
structure LineSequence where
  rows : List LineRow
  stop : LineRow
  ongoing : ∀ row ∈ rows, row.endSequence = false
  ends : stop.endSequence = true
  sorted : (rows ++ [stop]).Pairwise fun a b => a.address ≤ b.address

def LineSequence.all (s : LineSequence) : List LineRow := s.rows ++ [s.stop]

/-- The row in force at an address. -/
def rowAt (rows : List LineRow) (va : ℕ) : Option LineRow :=
  (lastLe (rows.map fun row => (row.address, row)) va).map (·.2)

variable {readFile} (file : ℕ → F)

/-- What a row says from its address on. -/
def entryOf (row : LineRow) : LineTableEntry F :=
  ⟨⟨row.address, row.address⟩, row.fileIndex, file row.fileIndex, row.line⟩

/-- The entries for the rest of a sequence. -/
def cut (stop : ℕ) : LineTableEntry F → List LineRow → List (LineTableEntry F)
  | entry, [] => [{ entry with rng.stop := stop }]
  | entry, row :: rows =>
    if entry.fileId = row.fileIndex ∧ entry.line = row.line then
      cut stop { entry with rng.stop := row.address } rows
    else { entry with rng.stop := row.address } :: cut stop (entryOf file row) rows

def LineSequence.entries (s : LineSequence) : List (LineTableEntry F) :=
  match s.rows with
  | [] => []
  | row :: rows => cut file s.stop.address (entryOf file row) rows

variable {file} {rows more : List LineRow} {stop : LineRow} {entry : LineTableEntry F} {va : ℕ}
  {xs : List (LineTableEntry F)}

lemma fromRow_eq {row : LineRow} (h : readFile row.fileIndex = .ok (file row.fileIndex)) :
    fromRow readFile row = .ok (entryOf file row) := by
  rw [fromRow, h]
  rfl

lemma yields_cut (hfile : ∀ row ∈ rows, readFile row.fileIndex = .ok (file row.fileIndex))
    (hongoing : ∀ row ∈ rows, row.endSequence = false) (hends : stop.endSequence = true)
    (hsorted : rows.Pairwise fun a b => a.address ≤ b.address)
    (hstop : ∀ row ∈ rows, entry.rng.stop ≤ row.address)
    (h : Yields (LineIter.next readFile) ⟨more, none⟩ xs) :
    Yields (LineIter.next readFile) ⟨rows ++ stop :: more, some entry⟩
      (cut file stop.address entry rows ++ xs) := by
  induction rows generalizing entry with
  | nil => exact .more (if_pos hends) h
  | cons row rows ih =>
    rw [forall_mem_cons] at hfile hongoing hstop
    rw [pairwise_cons] at hsorted
    have hstep : LineIter.next readFile ⟨row :: rows ++ stop :: more, some entry⟩ =
        if entry.fileId = row.fileIndex ∧ entry.line = row.line then
          LineIter.next readFile ⟨rows ++ stop :: more, some { entry with rng.stop := row.address }⟩
        else .ok (some { entry with rng.stop := row.address },
          ⟨rows ++ stop :: more, some (entryOf file row)⟩) := by
      rw [LineIter.next]
      dsimp only [cons_append]
      rw [nextLoop, hongoing.1, if_neg (by simp), if_neg (by omega), fromRow_eq hfile.1]
      rfl
    rw [cut]
    split
    · rename_i hsame
      rw [if_pos hsame] at hstep
      exact (ih hfile.2 hongoing.2 hsorted.2 hsorted.1).congr hstep
    · rename_i hdiff
      rw [if_neg hdiff] at hstep
      exact .more hstep (ih hfile.2 hongoing.2 hsorted.2 hsorted.1)

lemma yields_entries (s : LineSequence)
    (hfile : ∀ row ∈ s.rows, readFile row.fileIndex = .ok (file row.fileIndex))
    (h : Yields (LineIter.next readFile) ⟨more, none⟩ xs) :
    Yields (LineIter.next readFile) ⟨s.all ++ more, none⟩ (s.entries file ++ xs) := by
  obtain ⟨rows, stop, hongoing, hends, hsorted⟩ := s
  rw [pairwise_append] at hsorted
  cases rows with
  | nil => exact h.congr (if_pos hends)
  | cons row rows =>
    rw [forall_mem_cons] at hfile hongoing
    rw [pairwise_cons] at hsorted
    rw [LineSequence.all, append_assoc]
    refine (yields_cut hfile.2 hongoing.2 hends hsorted.1.2 hsorted.1.1 h).congr ?_
    rw [LineIter.next]
    dsimp only [cons_append]
    rw [nextLoop, hongoing.1, if_neg (by simp), fromRow_eq hfile.1]
    rfl

lemma start_le_of_mem_cut {stop : ℕ} {e : LineTableEntry F} (h : e ∈ cut file stop entry rows)
    (hstart : ∀ row ∈ rows, entry.rng.start ≤ row.address)
    (hsorted : rows.Pairwise fun a b => a.address ≤ b.address) : entry.rng.start ≤ e.rng.start := by
  induction rows generalizing entry with
  | nil =>
    obtain rfl := mem_singleton.mp h
    exact le_rfl
  | cons row rows ih =>
    rw [forall_mem_cons] at hstart
    rw [pairwise_cons] at hsorted
    rw [cut] at h
    split at h
    · apply ih h hstart.2 hsorted.2
    · rcases mem_cons.mp h with rfl | h
      · exact le_rfl
      · exact hstart.1.trans (ih h hsorted.1 hsorted.2)

/-- The entry says what the row says. -/
def Says (file : ℕ → F) (entry : LineTableEntry F) (row : LineRow) : Prop :=
  entry.fileId = row.fileIndex ∧ entry.file = file row.fileIndex ∧ entry.line = row.line

/-- A row above the address does not count. -/
lemma rowAt_cons_of_lt {row row' : LineRow} (h : va < row'.address) :
    rowAt (row :: row' :: rows) va = rowAt (row :: rows) va := by
  rw [rowAt, map_cons, map_cons, lastLe_cons, lastLe_cons_of_lt h]
  rfl

/-- Of two rows at or below the address, the first does not count. -/
lemma rowAt_cons_cons {row row' : LineRow} (h : row'.address ≤ va) :
    rowAt (row :: row' :: rows) va = rowAt (row' :: rows) va := by
  rw [rowAt, map_cons, lastLe_cons, rowAt, map_cons, lastLe_cons_of_le h, Option.or_assoc]
  rfl

/-- One entry covers the address, and it says what the row in force says. -/
lemma filter_cut {row : LineRow} {stop : ℕ} (hmeans : Says file entry row) (hrow : row.address ≤ va)
    (hva : entry.rng.start ≤ va) (hstop : va < stop)
    (hstart : ∀ row ∈ rows, entry.rng.start ≤ row.address)
    (hsorted : rows.Pairwise fun a b => a.address ≤ b.address) :
    ∃ e row', (cut file stop entry rows).filter (·.rng.Contains va) = [e] ∧
      rowAt (row :: rows) va = some row' ∧ Says file e row' := by
  induction rows generalizing entry row with
  | nil =>
    refine ⟨{ entry with rng.stop := stop }, row, ?_, ?_, hmeans⟩
    · simp [cut, VaRange.Contains, hva, hstop]
    · simp [rowAt, lastLe, hrow]
  | cons next rows ih =>
    rw [forall_mem_cons] at hstart
    rw [pairwise_cons] at hsorted
    rw [cut]
    by_cases hnext : next.address ≤ va
    · rw [rowAt_cons_cons hnext]
      split
      · rename_i hsame
        refine ih ?_ hnext hva hstart.2 hsorted.2
        exact ⟨hsame.1, hmeans.2.1.trans (by rw [← hmeans.1, hsame.1]), hsame.2⟩
      · rw [filter_cons_of_neg (by simpa [VaRange.Contains, hva] using hnext)]
        exact ih ⟨rfl, rfl, rfl⟩ hnext hnext hsorted.1 hsorted.2
    · split
      · rw [rowAt_cons_of_lt (by omega)]
        exact ih hmeans hrow hva hstart.2 hsorted.2
      · -- the entries that follow start behind the address, and so do their rows
        have hlater : ∀ row ∈ next :: rows, va < row.address :=
          forall_mem_cons.mpr ⟨by omega, fun row hmem => by have := hsorted.1 row hmem; omega⟩
        refine ⟨{ entry with rng.stop := next.address }, row, ?_, ?_, hmeans⟩
        · rw [filter_cons_of_pos (by simpa [VaRange.Contains, hva] using hnext),
            filter_eq_nil_iff.mpr]
          intro e he hcontains
          have := start_le_of_mem_cut he hsorted.1 hsorted.2
          exact hnext (this.trans (of_decide_eq_true hcontains).1)
        · rw [rowAt, map_cons, ← nil_append (_ :: _),
            lastLe_append_cons hrow (by simpa using hlater)]
          rfl

/-- Each address of a sequence lies in one entry, which has the file and line of its last row. -/
theorem lineIter_covers (readFile : ℕ → Except ε F) (file : ℕ → F) (seqs : List LineSequence)
    (hfile : ∀ s ∈ seqs, ∀ row ∈ s.rows, readFile row.fileIndex = .ok (file row.fileIndex)) :
    ∃ parts : List (List (LineTableEntry F)),
      Yields (LineIter.next readFile) ⟨seqs.flatMap (·.all), none⟩ parts.flatten ∧
      Forall₂ (fun s part => Yields (LineIter.next readFile) ⟨s.all, none⟩ part ∧
        ∀ first ∈ s.rows.head?, ∀ va, first.address ≤ va → va < s.stop.address →
          ∃ e row, part.filter (·.rng.Contains va) = [e] ∧ rowAt s.rows va = some row ∧
            Says file e row) seqs parts := by
  have hend : Yields (LineIter.next readFile) ⟨[], none⟩ [] := .done rfl
  refine ⟨seqs.map (·.entries file), ?_,
    forall₂_map_right_iff.mpr (forall₂_same.mpr fun s hs => ⟨?_, ?_⟩)⟩
  · induction seqs with
    | nil => exact hend
    | cons s seqs ih =>
      rw [forall_mem_cons] at hfile
      exact yields_entries s hfile.1 (ih hfile.2)
  · have halone := yields_entries s (hfile s hs) hend
    rwa [append_nil, append_nil] at halone
  · obtain ⟨rows, stop, hongoing, hends, hsorted⟩ := s
    intro first hfirst va hva hstop
    cases rows with
    | nil => cases hfirst
    | cons row rows =>
      obtain rfl : row = first := by simpa using hfirst
      rw [pairwise_append, pairwise_cons] at hsorted
      exact filter_cut ⟨rfl, rfl, rfl⟩ hva hva hstop hsorted.1.1 hsorted.1.2

/-- Two rows at one address, then a gap in the lines. -/
def sampleSequence : LineSequence where
  rows := [⟨16, 1, some 3, false⟩, ⟨16, 1, some 4, false⟩, ⟨24, 1, none, false⟩]
  stop := ⟨32, 1, none, true⟩
  ongoing := by decide
  ends := rfl
  sorted := by decide

theorem lineIter_covers_sample : ∃ part : List (LineTableEntry Unit),
    Yields (LineIter.next (ε := Unit) fun _ => .ok ()) ⟨sampleSequence.all, none⟩ part ∧
      ∃ e row, part.filter (·.rng.Contains 20) = [e] ∧ rowAt sampleSequence.rows 20 = some row ∧
        Says (fun _ => ()) e row := by
  obtain ⟨parts, -, h⟩ :=
    lineIter_covers (ε := Unit) (fun _ => .ok ()) (fun _ => ()) [sampleSequence]
    (fun _ _ _ _ => rfl)
  obtain ⟨part, -, ⟨hyields, hcovers⟩, -, rfl⟩ := forall₂_cons_left_iff.mp h
  exact ⟨part, hyields, hcovers _ rfl 20 (by decide) (by decide)⟩

end EbpfProfiler.Dwarf
