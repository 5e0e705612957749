import EbpfProfiler.Interpreter.RemoteMemory
import EbpfProfiler.Lib.Lru

/-!
# Character lists of BEAM

`readErlangString` (`beam.go`) caches its result under the term at which its loop stopped.
-/

namespace EbpfProfiler.Interpreter.Beam

open Lib Lru
open Wire (Word)

def etpNil : Word := 0x3B

section
variable (uint64 : Word → Word) (etpPtrMask : Word)

/-- The loop of `readErlangString`: the characters, and the term at which it stops. -/
def readChars : ℕ → Word → List Byte × Word
  | 0, eterm => ([], eterm)
  | left + 1, eterm =>
    if eterm ≠ etpNil then
      let charAddr := eterm &&& etpPtrMask
      let rest := readChars left (uint64 (charAddr + 8))
      ((uint64 charAddr >>> 4).setWidth 8 :: rest.1, rest.2)
    else ([], eterm)

/-- A list of cells that the empty list ends. -/
inductive CharList : Word → List Byte → Prop
  | nil : CharList etpNil []
  | cons {eterm : Word} {chars : List Byte} (h : eterm ≠ etpNil)
      (rest : CharList (uint64 ((eterm &&& etpPtrMask) + 8)) chars) :
      CharList eterm ((uint64 (eterm &&& etpPtrMask) >>> 4).setWidth 8 :: chars)

/-- A call on a list of characters. -/
structure StringCall where
  eterm : Word
  maxLength : ℕ
  chars : List Byte
  isList : CharList uint64 etpPtrMask eterm chars

end

def dots : List Byte := [46, 46, 46]

variable {uint64 : Word → Word} {etpPtrMask eterm : Word} {chars w : List Byte} {n : ℕ}

def readErlangString (call : StringCall uint64 etpPtrMask) (stringCache : Lru Word (List Byte)) :
    List Byte × Lru Word (List Byte) :=
  match stringCache.get call.eterm with
  | (some value, stringCache) => (value, stringCache)
  | (none, stringCache) =>
    let (result, eterm) := readChars uint64 etpPtrMask call.maxLength call.eterm
    let value := if call.maxLength < result.length then result ++ dots else result
    (value, stringCache.add eterm value)

/-- What a call should return. -/
def StringCall.text (call : StringCall uint64 etpPtrMask) : List Byte :=
  if call.maxLength < call.chars.length then call.chars.take call.maxLength ++ dots else call.chars

section
variable (h : CharList uint64 etpPtrMask eterm chars)
include h

lemma readChars_fst (n : ℕ) : (readChars uint64 etpPtrMask n eterm).1 = chars.take n := by
  induction n generalizing eterm chars with
  | zero => rfl
  | succ n ih =>
    cases h with
    | nil => rfl
    | cons hne rest =>
      rw [readChars, if_pos hne]
      exact congrArg _ (ih rest)

lemma readChars_snd (hn : chars.length ≤ n) : (readChars uint64 etpPtrMask n eterm).2 = etpNil := by
  induction n generalizing eterm chars with
  | zero =>
    cases h with
    | nil => rfl
    | cons hne rest => cases hn
  | succ n ih =>
    cases h with
    | nil => rfl
    | cons hne rest =>
      rw [readChars, if_pos hne]
      exact ih rest (Nat.le_of_succ_le_succ hn)

lemma CharList.eq_nil_iff : eterm = etpNil ↔ chars = [] := by
  cases h with
  | nil => simp
  | cons hne rest => simp [hne]

end

/-- The only entry is `w`, for the empty list; it may be missing while it is empty. -/
def Last (w : List Byte) (c : Lru Word (List Byte)) : Prop :=
  c.capacity = 1024 ∧ (c.entries = [(etpNil, w)] ∨ c.entries = [] ∧ w = [])

/-- **Step lemma.** Without a hit the text is read; the empty list gives `w`. -/
lemma readErlangString_step (call : StringCall uint64 etpPtrMask) {c : Lru Word (List Byte)}
    (hc : Last w c) : (readErlangString call c).1 =
        (if call.chars = [] then w else call.chars.take call.maxLength) ∧
      (call.chars.length ≤ call.maxLength →
        Last (if call.chars = [] then w else call.chars) (readErlangString call c).2) := by
  have hnil := call.isList.eq_nil_iff
  have hfst := readChars_fst call.isList call.maxLength
  have hsnd := readChars_snd call.isList (n := call.maxLength)
  have hshort : ¬call.maxLength < (call.chars.take call.maxLength).length := by simp
  obtain ⟨hcapacity, hentries⟩ := hc
  by_cases hchars : call.chars = []
  · rw [if_pos hchars, if_pos hchars, readErlangString, hnil.2 hchars]
    rcases hentries with hentries | ⟨hentries, rfl⟩
    · have hlookup : c.lookup etpNil = some w := by simp [lookup, hentries]
      rw [get_of_some hlookup]
      exact ⟨rfl, fun _ => ⟨hcapacity, .inl (by simp [touch, others, hentries])⟩⟩
    · have hlookup : c.lookup etpNil = none := by simp [lookup, hentries]
      rw [get_of_none hlookup]
      rw [hnil.2 hchars, hchars] at hfst
      rw [hnil.2 hchars, hchars] at hsnd
      simp [hfst, hsnd, Last, Lru.add, others, hentries, hcapacity]
  · rw [if_neg hchars, if_neg hchars, readErlangString]
    have hlookup : c.lookup call.eterm = none := by
      have hne : etpNil ≠ call.eterm := fun heq => hchars (hnil.1 heq.symm)
      rcases hentries with hentries | ⟨hentries, -⟩ <;> simp [lookup, hentries, hne]
    rw [get_of_none hlookup]
    dsimp only
    rw [hfst, if_neg hshort]
    refine ⟨rfl, fun hle => ⟨hcapacity, .inl ?_⟩⟩
    rw [hsnd hle, List.take_of_length_le hle]
    rcases hentries with hentries | ⟨hentries, -⟩ <;> simp [Lru.add, others, hentries, hcapacity]

/-- **Run lemma.** -/
lemma answers_readErlangString_iff (calls : List (StringCall uint64 etpPtrMask))
    {c : Lru Word (List Byte)} (hc : Last w c) :
    answers readErlangString calls c = calls.map StringCall.text ↔
      (∀ call ∈ calls, call.chars.length ≤ call.maxLength) ∧
        (w ≠ [] → ∀ call ∈ calls, call.chars ≠ []) ∧
        calls.Pairwise fun call next => next.chars = [] → call.chars = [] := by
  induction calls generalizing w c with
  | nil => simp [answers]
  | cons call calls ih =>
    obtain ⟨hanswer, hnext⟩ := readErlangString_step call hc
    rw [answers, List.map_cons, List.cons.injEq, hanswer, StringCall.text]
    by_cases hle : call.chars.length ≤ call.maxLength
    · rw [ih (hnext hle), if_neg (not_lt.2 hle)]
      by_cases hchars : call.chars = []
      · simp [hchars]
        tauto
      · simp [hchars, hle]
        tauto
    · -- the dots are missing
      rw [if_pos (not_le.1 hle)]
      have hchars : call.chars ≠ [] := by
        rintro heq
        simp [heq] at hle
      simp [hchars, hle, dots]

/-- Every call returns its text just when no list is over the limit and no empty list comes after
another. -/
theorem readErlangString_iff (calls : List (StringCall uint64 etpPtrMask)) :
    answers readErlangString calls (empty 1024) = calls.map StringCall.text ↔
      (∀ call ∈ calls, call.chars.length ≤ call.maxLength) ∧
        calls.Pairwise fun call next => next.chars = [] → call.chars = [] := by
  have hrun := answers_readErlangString_iff (w := []) calls
    (c := empty 1024) ⟨rfl, .inr ⟨rfl, rfl⟩⟩
  simpa using hrun

/-- A memory with the list of one character at `0x1001`. -/
def oneCell (a : Word) : Word := if a = 0x1000 then 0x61f else etpNil

lemma charList_oneCell : CharList oneCell (~~~3) 0x1001 [0x61] :=
  CharList.cons (by decide) CharList.nil

/-- The empty list, read after `a`, is `a`. -/
theorem readErlangString_empty_list :
    answers readErlangString [⟨0x1001, 256, _, charList_oneCell⟩, ⟨etpNil, 256, _, .nil⟩]
        (empty 1024) = [[0x61], [0x61]] ∧
      ¬(answers readErlangString [⟨0x1001, 256, _, charList_oneCell⟩, ⟨etpNil, 256, _, .nil⟩]
        (empty 1024) = [⟨0x1001, 256, _, charList_oneCell⟩, ⟨etpNil, 256, _, .nil⟩].map
          StringCall.text) := by
  decide +kernel

end EbpfProfiler.Interpreter.Beam
