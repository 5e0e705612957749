import EbpfProfiler.SymbConv.Multi

/-!
# What the multi extractor passes on

`Run.Good` is the invariant: the marked buckets are those of the accepted functions.
-/

namespace EbpfProfiler.SymbConv

open Option Nat
open List
open SymbFile (Range)

variable {e : Entry} {log : List Entry} {rng : Range} {s : Shared} {a b : VaRange} {scale : ℕ}

/-! ## Sound entries -/

/-- A function, not an inline record. -/
def Entry.IsRoot (e : Entry) : Prop := e.range.depth = 0

/-- A function that was passed on. -/
def Entry.AcceptedRoot (e : Entry) : Prop := e.accepted = true ∧ e.IsRoot

def Inside (segments : List VaRange) (rng : VaRange) : Prop :=
  ∃ seg ∈ segments, seg.start ≤ rng.start ∧ rng.stop ≤ seg.stop

/-- No address is in both ranges. -/
def Apart (a b : VaRange) : Prop := ∀ va, ¬ (a.Contains va ∧ b.Contains va)

/-- The ranges have a bucket of a segment in common. -/
def SharesBucket (scale : ℕ) (segments : List VaRange) (a b : VaRange) : Prop :=
  ∃ seg ∈ segments, ∃ bucket, Touches scale seg a bucket ∧ Touches scale seg b bucket

/-- The last function that was accepted from an extractor. -/
def lastRoot (idx : ℕ) (log : List Entry) : Option Entry :=
  log.find? fun e => e.extractor = idx && (e.accepted && e.range.depth = 0)

/-- What holds of a range that was produced after the ranges `before`. -/
structure Sound (scale : ℕ) (segments : List VaRange) (before : List Entry) (e : Entry) : Prop where
  disjoint : ∀ e' ∈ before, e.AcceptedRoot → e'.AcceptedRoot → Inside segments (vaRange e.range) →
    Inside segments (vaRange e'.range) → Apart (vaRange e.range) (vaRange e'.range)
  rejected : e.accepted = false → e.IsRoot → ∃ e' ∈ before, e'.AcceptedRoot ∧
    SharesBucket scale segments (vaRange e.range) (vaRange e'.range)
  inline : e.accepted = true → ¬ e.IsRoot → ∃ root, lastRoot e.extractor before = some root ∧
    (vaRange root.range).start ≤ (vaRange e.range).start ∧
    (vaRange e.range).stop ≤ (vaRange root.range).stop
  order : ∀ e' ∈ before, e'.extractor ≤ e.extractor

/-- Every entry of a log, the last one first, is sound. -/
def SoundLog (scale : ℕ) (segments : List VaRange) : List Entry → Prop
  | [] => True
  | e :: before => Sound scale segments before e ∧ SoundLog scale segments before

/-! ## What is produced -/

/-- What the visitor has been given. -/
def passedOn (log : List Entry) : List Range := ((log.filter (·.accepted)).map (·.range)).reverse

/-- Extractor `idx` produces the ranges `new` and ends with `result`, as the visitor answers for
accepted ranges and without an error at others. -/
inductive Produces {V E S : Type} (visitor : List Range → Range → Except V Unit) (idx : ℕ) :
    Extraction V E S → (before new : List Entry) → Except E (Option S) → Prop
  | finish (result : Except E (Option S)) (before : List Entry) :
      Produces visitor idx (.finish result) before [] result
  | accept {rng : Range} {next : Except V Unit → Extraction V E S} {before new : List Entry}
      {result : Except E (Option S)}
      (h : Produces visitor idx (next (visitor (passedOn before) rng))
        (⟨idx, rng, true⟩ :: before) new result) :
      Produces visitor idx (.produce rng next) before (⟨idx, rng, true⟩ :: new) result
  | reject {rng : Range} {next : Except V Unit → Extraction V E S} {before new : List Entry}
      {result : Except E (Option S)}
      (h : Produces visitor idx (next (.ok ())) (⟨idx, rng, false⟩ :: before) new result) :
      Produces visitor idx (.produce rng next) before (⟨idx, rng, false⟩ :: new) result

/-! ## The invariant -/

/-- The coverage map, the visitor and the log agree. -/
structure Shared.Good (scale : ℕ) (segments : List VaRange) (s : Shared) : Prop where
  maps : MapsFor scale segments s.covMap
  covered : ∀ i b, Covered s.covMap i b ↔
    ∃ e ∈ s.log, e.AcceptedRoot ∧ Assigned scale segments (vaRange e.range) i b
  sound : SoundLog scale segments s.log
  passed : s.passed = passedOn s.log

/-- The number of ranges of an extractor. -/
def produced (idx : ℕ) (log : List Entry) : ℕ := log.countP fun e => e.extractor = idx

/-- The number of ranges of an extractor that were passed on. -/
def accepted (idx : ℕ) (log : List Entry) : ℕ := log.countP fun e => e.extractor = idx && e.accepted

/-- The invariant of `run_extractor`. -/
structure Run.Good (scale : ℕ) (segments : List VaRange) (idx : ℕ) (s : Run) : Prop where
  shared : s.toShared.Good scale segments
  order : ∀ e ∈ s.log, e.extractor ≤ idx
  inline : ∀ r ∈ s.acceptInlineFor, ∃ root, lastRoot idx s.log = some root ∧ r = vaRange root.range
  produced : s.rangesProduced = produced idx s.log
  accepted : s.rangesAccepted = accepted idx s.log
  total : s.rangesAccepted + s.rangesRejected = s.rangesProduced

section
variable {scale : ℕ} {segments : List VaRange} {idx : ℕ}

lemma Assigned.touches {rng : VaRange} {i b : ℕ} (h : Assigned scale segments rng i b) :
    ∃ seg, segments[i]? = some seg ∧ Touches scale seg rng b := by
  obtain ⟨seg, hi, -, htouches⟩ := h
  exact ⟨seg, hi, htouches⟩

lemma Inside.assigned (scale : ℕ) {rng : VaRange} (h : Inside segments rng) {va : ℕ}
    (hva : rng.Contains va) : ∃ i seg, segments[i]? = some seg ∧ seg.Contains va ∧
      Assigned scale segments rng i ((va - seg.start) / scale) := by
  obtain ⟨seg, hmem, hstart, hstop⟩ := h
  obtain ⟨i, hi⟩ := mem_iff_getElem?.mp hmem
  obtain ⟨hlow, hhigh⟩ := hva
  have hcontains : seg.Contains va := ⟨by omega, by omega⟩
  exact ⟨i, seg, hi, hcontains, seg, hi, ⟨hstart, by omega⟩, va, ⟨hlow, hhigh⟩, hcontains, rfl⟩

lemma apart_of_not_assigned (hordered : Ordered segments) (ha : Inside segments a)
    (hb : Inside segments b)
    (h : ∀ i bucket, Assigned scale segments a i bucket → ¬ Assigned scale segments b i bucket) :
    Apart a b := by
  rintro va ⟨hva, hvb⟩
  obtain ⟨i, seg, hi, hseg, hassigned⟩ := ha.assigned scale hva
  obtain ⟨j, seg', hj, hseg', hassigned'⟩ := hb.assigned scale hvb
  obtain rfl := hordered.index_unique hi hseg hj hseg'
  rw [hi] at hj
  cases hj
  exact h i _ hassigned hassigned'

/-! ## The log grows -/

lemma lastRoot_cons_self (hidx : e.extractor = idx) (h : e.AcceptedRoot) (log : List Entry) :
    lastRoot idx (e :: log) = some e := by
  obtain ⟨haccepted, hroot⟩ := h
  exact find?_cons_of_pos (by simp [hidx, haccepted, show e.range.depth = 0 from hroot])

lemma lastRoot_cons_of_not (h : ¬ e.AcceptedRoot) (log : List Entry) :
    lastRoot idx (e :: log) = lastRoot idx log := by
  apply find?_cons_of_neg
  simp only [Bool.and_eq_true, decide_eq_true_eq, not_and]
  intro _ haccepted hroot
  exact h ⟨haccepted, hroot⟩

section
variable {s s' : Run} (h : s.Good scale segments idx) (hidx : e.extractor = idx)
  (hsound : Sound scale segments s.log e) (hlog : s'.log = e :: s.log)
  (hpassed : s'.passed = if e.accepted then s.passed ++ [e.range] else s.passed)
  (hproduced : s'.rangesProduced = s.rangesProduced + 1)
  (haccepted : s'.rangesAccepted = s.rangesAccepted + if e.accepted then 1 else 0)
  (htotal : s'.rangesAccepted + s'.rangesRejected = s'.rangesProduced)
include h hidx hsound hlog hpassed hproduced haccepted htotal

lemma Run.Good.push (hmaps : MapsFor scale segments s'.covMap)
    (hcovered : ∀ i b, Covered s'.covMap i b ↔
      (e.AcceptedRoot ∧ Assigned scale segments (vaRange e.range) i b) ∨ Covered s.covMap i b)
    (hinline : ∀ r ∈ s'.acceptInlineFor,
      ∃ root, lastRoot idx (e :: s.log) = some root ∧ r = vaRange root.range) :
    s'.Good scale segments idx := by
  refine ⟨⟨hmaps, fun i b => ?_, ?_, ?_⟩, ?_, ?_, ?_, ?_, htotal⟩
  · rw [hcovered, h.shared.covered, hlog]
    simp only [mem_cons, exists_eq_or_imp]
  · rw [hlog]
    exact ⟨hsound, h.shared.sound⟩
  · rw [hpassed, hlog, h.shared.passed, passedOn, passedOn, filter_cons]
    split <;> simp
  · rw [hlog, forall_mem_cons]
    exact ⟨le_of_eq hidx, h.order⟩
  · rw [hlog]
    exact hinline
  · rw [hproduced, h.produced, hlog, SymbConv.produced, SymbConv.produced,
      countP_cons_of_pos (by simpa using hidx)]
  · rw [haccepted, h.accepted, hlog, SymbConv.accepted, SymbConv.accepted, countP_cons]
    simp [hidx]

/-- Only functions that are passed on change the coverage map. -/
lemma Run.Good.push_same (hroot : ¬ e.AcceptedRoot) (hmaps : s'.covMap = s.covMap)
    (hinline : s'.acceptInlineFor = none ∨ s'.acceptInlineFor = s.acceptInlineFor) :
    s'.Good scale segments idx := by
  apply h.push hidx hsound hlog hpassed hproduced haccepted htotal (hmaps ▸ h.shared.maps)
  · rw [hmaps]
    simp [hroot]
  · intro r hr
    rw [lastRoot_cons_of_not hroot]
    rcases hinline with hnone | hsame
    · rw [hnone] at hr
      cases hr
    · exact h.inline r (hsame ▸ hr)

end

/-! ## One range -/

lemma Shared.Good.sound_accepted (h : s.Good scale segments) (hordered : Ordered segments)
    (horder : ∀ e ∈ s.log, e.extractor ≤ idx) (hroot : rng.depth = 0)
    (hfree : ¬ ∃ i b, Covered s.covMap i b ∧ Assigned scale segments (vaRange rng) i b) :
    Sound scale segments s.log ⟨idx, rng, true⟩ := by
  refine ⟨fun e' he' _ haccepted hinside hinside' => ?_, fun hfalse => Bool.noConfusion hfalse,
    fun _ hinline => absurd hroot hinline, horder⟩
  apply apart_of_not_assigned hordered hinside hinside'
  intro i b hassigned hassigned'
  exact hfree ⟨i, b, (h.covered i b).mpr ⟨e', he', haccepted, hassigned'⟩, hassigned⟩

lemma Shared.Good.sound_rejected (h : s.Good scale segments)
    (horder : ∀ e ∈ s.log, e.extractor ≤ idx)
    (hcovered : ∃ i b, Covered s.covMap i b ∧ Assigned scale segments (vaRange rng) i b) :
    Sound scale segments s.log ⟨idx, rng, false⟩ := by
  refine ⟨fun _ _ haccepted => absurd haccepted.1 Bool.false_ne_true, fun _ _ => ?_,
    fun htrue => absurd htrue Bool.false_ne_true, horder⟩
  obtain ⟨i, b, hmarked, hassigned⟩ := hcovered
  obtain ⟨e', he', haccepted, hassigned'⟩ := (h.covered i b).mp hmarked
  obtain ⟨seg, hi, htouches⟩ := hassigned.touches
  obtain ⟨seg', hi', htouches'⟩ := hassigned'.touches
  rw [hi] at hi'
  cases hi'
  exact ⟨e', he', haccepted, seg, mem_of_getElem? hi, b, htouches, htouches'⟩

lemma sound_inline (horder : ∀ e ∈ log, e.extractor ≤ idx) (hinline : rng.depth ≠ 0)
    (accepted : Bool) (hroot : accepted = true → ∃ root, lastRoot idx log = some root ∧
      (vaRange root.range).start ≤ (vaRange rng).start ∧
      (vaRange rng).stop ≤ (vaRange root.range).stop) :
    Sound scale segments log ⟨idx, rng, accepted⟩ :=
  ⟨fun _ _ haccepted => absurd haccepted.2 hinline, fun _ hroot => absurd hroot hinline,
    fun haccepted _ => hroot haccepted, horder⟩

lemma rangeOverlap_eq_right (h : rangeOverlap a b = some b) :
    a.start ≤ b.start ∧ b.stop ≤ a.stop := by
  unfold rangeOverlap at h
  dsimp only at h
  split at h
  · have heq := some.inj h
    have hstart := congrArg VaRange.start heq
    have hstop := congrArg VaRange.stop heq
    dsimp only at hstart hstop
    omega
  · cases h

/-- One range: it is logged, and the visitor is asked if it is accepted. -/
lemma onRange_spec {V : Type} (visitor : List Range → Range → Except V Unit)
    (hordered : Ordered segments) {s : Run} (h : s.Good scale segments idx) (rng : Range) :
    ∃ s' accepted, onRange visitor idx s rng =
        some (s', if accepted then visitor (passedOn s.log) rng else .ok ()) ∧
      s'.Good scale segments idx ∧ s'.log = ⟨idx, rng, accepted⟩ :: s.log := by
  rw [← h.shared.passed]
  have htotal := h.total
  have hrejected : s.rangesAccepted + (s.rangesRejected + 1) = s.rangesProduced + 1 := by omega
  have haccept : s.rangesAccepted + 1 + s.rangesRejected = s.rangesProduced + 1 := by omega
  unfold onRange
  dsimp only
  split
  · next hroot =>
    obtain ⟨covered, hcovered, hiff⟩ :=
      h.shared.maps.rangePartiallyCovered_spec hordered (vaRange rng)
    rw [hcovered]
    cases covered with
    | true =>
      refine ⟨_, false, rfl, ?_, rfl⟩
      exact h.push_same rfl (h.shared.sound_rejected h.order (hiff.mp rfl)) rfl rfl
        rfl rfl hrejected (fun haccepted => absurd haccepted.1 Bool.false_ne_true) rfl (.inl rfl)
    | false =>
      have hfree := mt hiff.mpr Bool.false_ne_true
      obtain ⟨maps', hadd, hmaps, hmarked⟩ := h.shared.maps.addRange_spec hordered (vaRange rng)
      rw [hadd]
      have haccepted : Entry.AcceptedRoot ⟨idx, rng, true⟩ := ⟨rfl, hroot⟩
      refine ⟨_, true, rfl, ?_, rfl⟩
      apply h.push rfl (h.shared.sound_accepted hordered h.order hroot hfree) rfl rfl
        rfl rfl haccept hmaps
      · intro i b
        rw [hmarked]
        simp [haccepted]
      · intro r hr
        cases hr
        exact ⟨_, lastRoot_cons_self rfl haccepted _, rfl⟩
  · next hinline =>
    have hnot : ∀ accepted, ¬ Entry.AcceptedRoot ⟨idx, rng, accepted⟩ :=
      fun _ haccepted => hinline haccepted.2
    have hsound : Sound scale segments s.log ⟨idx, rng, false⟩ :=
      sound_inline h.order hinline false fun hfalse => absurd hfalse Bool.false_ne_true
    split
    · next acceptRange hrange =>
      split
      · refine ⟨_, false, rfl, ?_, rfl⟩
        exact h.push_same rfl hsound rfl rfl rfl rfl hrejected (hnot false) rfl (.inr rfl)
      · next hoverlap =>
        refine ⟨_, true, rfl, ?_, rfl⟩
        obtain ⟨root, hlast, rfl⟩ := h.inline acceptRange hrange
        have hnested := rangeOverlap_eq_right (not_not.mp hoverlap)
        exact h.push_same rfl
          (sound_inline h.order hinline true fun _ => ⟨root, hlast, hnested.1, hnested.2⟩)
          rfl rfl rfl rfl haccept (hnot true) rfl (.inr rfl)
    · refine ⟨_, false, rfl, ?_, rfl⟩
      exact h.push_same rfl hsound rfl rfl rfl rfl hrejected (hnot false) rfl (.inr rfl)

/-! ## All ranges -/

variable {V E S : Type} (visitor : List Range → Range → Except V Unit)

/-- A whole extractor: what it adds to the log is what it produces. -/
lemma runExtraction_spec (hordered : Ordered segments) (extractor : Extraction V E S) {s : Run}
    (h : s.Good scale segments idx) :
    ∃ s' result new, runExtraction visitor idx extractor s = some (s', result) ∧
      s'.Good scale segments idx ∧ s'.log = new ++ s.log ∧ (∀ e ∈ new, e.extractor = idx) ∧
      Produces visitor idx extractor s.log new.reverse result := by
  induction extractor generalizing s with
  | finish result =>
    exact ⟨s, result, [], rfl, h, rfl, forall_mem_nil _, .finish result s.log⟩
  | produce rng next ih =>
    obtain ⟨s₁, accepted, honRange, hgood₁, hlog₁⟩ := onRange_spec visitor hordered h rng
    obtain ⟨s₂, result, new, hrest, hgood₂, hlog₂, hnew, hproduces⟩ := ih _ hgood₁
    refine ⟨s₂, result, new ++ [⟨idx, rng, accepted⟩], ?_, hgood₂, ?_, ?_, ?_⟩
    · rw [runExtraction, honRange, bind_some, hrest]
    · rw [hlog₂, hlog₁, append_assoc, singleton_append]
    · rw [forall_mem_append]
      exact ⟨hnew, by simp⟩
    · rw [reverse_append, reverse_singleton, singleton_append]
      rw [hlog₁] at hproduces
      cases accepted with
      | true => exact .accept hproduces
      | false => exact .reject hproduces

/-- In a log without ranges of an extractor there is nothing to count. -/
lemma none_own (h : ∀ e ∈ log, e.extractor ≠ idx) :
    log.filter (·.extractor = idx) = [] ∧ produced idx log = 0 ∧ accepted idx log = 0 := by
  refine ⟨?_, ?_, ?_⟩
  · rw [filter_eq_nil_iff]
    simpa using h
  · rw [produced, countP_eq_zero]
    simpa using h
  · rw [accepted, countP_eq_zero]
    intro e he
    simp [h e he]

lemma Shared.Good.start (h : s.Good scale segments) (horder : ∀ e ∈ s.log, e.extractor < idx) :
    Run.Good scale segments idx ⟨s, 0, 0, 0, 0, none⟩ := by
  obtain ⟨-, hproduced, haccepted⟩ := none_own fun e he => Nat.ne_of_lt (horder e he)
  exact ⟨h, fun e he => Nat.le_of_lt (horder e he), fun r hr => (nomatch hr), hproduced.symm,
    haccepted.symm, rfl⟩

/-- The statistics of extractor `idx`: name, result, and its accepted and rejected ranges of the
log. -/
structure Accounts (idx : ℕ) (extractor : String × Extraction V E S) (log : List Entry)
    (stats : PerExtractorStats E S) : Prop where
  name : stats.name = extractor.1
  produces : Produces visitor idx extractor.2 (log.filter (·.extractor < idx))
    (log.filter (·.extractor = idx)).reverse (stats.error.elim (.ok stats.stats) .error)
  produced : stats.rangesProduced = produced idx log
  accepted : stats.rangesAccepted = accepted idx log
  total : stats.rangesAccepted + stats.rangesRejected = stats.rangesProduced

/-- The log after an extractor, by the numbers in it. -/
lemma filter_log {new : List Entry} (hnew : ∀ e ∈ new, e.extractor = idx)
    (hlog : ∀ e ∈ log, e.extractor < idx) :
    (new ++ log).filter (·.extractor < idx) = log ∧
    (new ++ log).filter (·.extractor = idx) = new := by
  have hnone : new.filter (·.extractor < idx) = [] := by
    rw [filter_eq_nil_iff]
    intro e he
    simp [hnew e he]
  have hnone' : log.filter (·.extractor = idx) = [] :=
    (none_own fun e he => Nat.ne_of_lt (hlog e he)).1
  have hall : log.filter (·.extractor < idx) = log := by
    rw [filter_eq_self]
    simpa using hlog
  have hall' : new.filter (·.extractor = idx) = new := by
    rw [filter_eq_self]
    simpa using hnew
  rw [filter_append, filter_append, hnone, hnone', hall, hall']
  exact ⟨nil_append log, append_nil new⟩

lemma runExtractor_spec (hordered : Ordered segments) (extractor : String × Extraction V E S)
    (h : s.Good scale segments) (horder : ∀ e ∈ s.log, e.extractor < idx) :
    ∃ s' stats new, runExtractor visitor idx s extractor.1 extractor.2 = some (s', stats) ∧
      s'.Good scale segments ∧ s'.log = new ++ s.log ∧ (∀ e ∈ new, e.extractor = idx) ∧
      Accounts visitor idx extractor s'.log stats := by
  obtain ⟨s', result, new, hrun, hgood, hlog, hnew, hproduces⟩ :=
    runExtraction_spec visitor hordered extractor.2 (h.start horder)
  obtain ⟨hbefore, hown⟩ := filter_log hnew horder
  have hlog' : s'.log = new ++ s.log := hlog
  refine ⟨s'.toShared, _, new, by rw [runExtractor, hrun]; rfl, hgood.shared, hlog, hnew, rfl, ?_,
    hgood.produced, hgood.accepted, hgood.total⟩
  rw [hlog', hbefore, hown]
  cases result with
  | ok stats => exact hproduces
  | error e => exact hproduces

lemma Accounts.append {extractor : String × Extraction V E S} {new : List Entry}
    {stats : PerExtractorStats E S} (h : Accounts visitor idx extractor log stats)
    (hnew : ∀ e ∈ new, idx < e.extractor) : Accounts visitor idx extractor (new ++ log) stats := by
  have hbefore : new.filter (·.extractor < idx) = [] := by
    rw [filter_eq_nil_iff]
    intro e he
    simpa using Nat.le_of_lt (hnew e he)
  obtain ⟨hown, hproduced, haccepted⟩ := none_own fun e he => Nat.ne_of_gt (hnew e he)
  rw [SymbConv.produced] at hproduced
  rw [SymbConv.accepted] at haccepted
  refine ⟨h.name, ?_, ?_, ?_, h.total⟩
  · rw [filter_append, filter_append, hbefore, hown]
    exact h.produces
  · rw [h.produced, SymbConv.produced, SymbConv.produced, countP_append, hproduced, Nat.zero_add]
  · rw [h.accepted, SymbConv.accepted, SymbConv.accepted, countP_append, haccepted, Nat.zero_add]

lemma runAll_spec (hordered : Ordered segments) (inner : List (String × Extraction V E S))
    (h : s.Good scale segments) (horder : ∀ e ∈ s.log, e.extractor < idx) :
    ∃ s' perExtractor new, runAll visitor idx inner s = some (s', perExtractor) ∧
      s'.Good scale segments ∧ s'.log = new ++ s.log ∧
      (∀ e ∈ new, idx ≤ e.extractor ∧ e.extractor < idx + inner.length) ∧
      perExtractor.length = inner.length ∧
      ∀ k extractor stats, inner[k]? = some extractor → perExtractor[k]? = some stats →
        Accounts visitor (idx + k) extractor s'.log stats := by
  induction inner generalizing idx s with
  | nil =>
    exact ⟨s, [], [], rfl, h, rfl, forall_mem_nil _, rfl, fun k extractor stats hk => by cases hk⟩
  | cons first inner ih =>
    obtain ⟨s₁, stats₁, new₁, hrun₁, hgood₁, hlog₁, hnew₁, hstats₁⟩ :=
      runExtractor_spec visitor hordered first h horder
    have horder₁ : ∀ e ∈ s₁.log, e.extractor < idx + 1 := by
      rw [hlog₁, forall_mem_append]
      exact ⟨fun e he => by rw [hnew₁ e he]; omega, fun e he => lt_succ_of_lt (horder e he)⟩
    obtain ⟨s₂, rest, new₂, hrun₂, hgood₂, hlog₂, hnew₂, hlen, hstats₂⟩ := ih hgood₁ horder₁
    refine ⟨s₂, stats₁ :: rest, new₂ ++ new₁, ?_, hgood₂, ?_, ?_, ?_, ?_⟩
    · rw [runAll, hrun₁, bind_some, hrun₂, map_some]
    · rw [hlog₂, hlog₁, append_assoc]
    · rw [forall_mem_append]
      refine ⟨fun e he => ?_, fun e he => ?_⟩
      · have hbounds := hnew₂ e he
        rw [length_cons]
        omega
      · rw [hnew₁ e he, length_cons]
        omega
    · rw [length_cons, length_cons, hlen]
    · intro k extractor stats hextractor hk
      cases k with
      | zero =>
        cases hextractor
        cases hk
        rw [hlog₂]
        exact hstats₁.append visitor fun e he => (hnew₂ e he).1
      | succ k =>
        have hstats := hstats₂ k extractor stats hextractor hk
        rwa [add_right_comm] at hstats

end

/-! ## Segments -/

lemma rangeOverlap_of_le (h : a.stop ≤ b.start) : rangeOverlap a b = none := by
  unfold rangeOverlap
  dsimp only
  rw [if_neg (by omega)]

/-- A map for each segment, with nothing marked. -/
lemma addSegments_spec (hscale : 0 < scale) (hsmall : scale * 8 < 2 ^ 64) {done rest : List VaRange}
    {maps : List CovMap} (hordered : Ordered (done ++ rest)) (hmaps : MapsFor scale done maps)
    (hempty : ∀ m ∈ maps, ∀ b, ¬ Lib.Bitmap.Marked m.bitVec b) :
    ∃ maps', rest.foldlM (fun maps sec => addSegment maps (.withScale scale sec)) maps = .ok maps' ∧
      MapsFor scale (done ++ rest) maps' ∧ ∀ m ∈ maps', ∀ b, ¬ Lib.Bitmap.Marked m.bitVec b := by
  induction rest generalizing done maps with
  | nil => exact ⟨maps, rfl, by rwa [append_nil], hempty⟩
  | cons seg rest ih =>
    have hfree : maps.findSome? (fun m => rangeOverlap m.range (CovMap.withScale scale seg).range) =
        none := by
      rw [findSome?_eq_none_iff]
      intro m hm
      apply rangeOverlap_of_le
      have hdone : m.range ∈ done := hmaps.range ▸ mem_map_of_mem hm
      exact (pairwise_append.mp hordered.apart).2.2 m.range hdone seg mem_cons_self
    have hadd : addSegment maps (.withScale scale seg) = .ok (maps ++ [.withScale scale seg]) := by
      rw [addSegment, hfree]
    have hmaps' : MapsFor scale (done ++ [seg]) (maps ++ [.withScale scale seg]) := by
      refine ⟨?_, ?_, ?_⟩
      · rw [map_append, hmaps.range]
        rfl
      · rw [forall_mem_append]
        exact ⟨hmaps.scale, by simp [CovMap.withScale]⟩
      · rw [forall_mem_append]
        exact ⟨hmaps.wf, by simpa using CovMap.withScale_wf hscale hsmall seg⟩
    have hempty' : ∀ m ∈ maps ++ [.withScale scale seg], ∀ b, ¬ Lib.Bitmap.Marked m.bitVec b := by
      rw [forall_mem_append]
      exact ⟨hempty, by simpa [CovMap.withScale] using Lib.Bitmap.not_marked_replicate _⟩
    rw [append_cons] at hordered ⊢
    obtain ⟨maps', hrest, hresult⟩ := ih hordered hmaps' hempty'
    refine ⟨maps', ?_, hresult⟩
    rw [foldlM_cons, hadd]
    exact hrest

lemma covMapScale_pos (arch : Option Arch) : 0 < covMapScale arch ∧
    covMapScale arch * 8 < 2 ^ 64 := by
  cases arch with
  | none => decide
  | some arch => cases arch <;> decide

/-- Code sections of nonempty, disjoint executable segments are in order. -/
lemma codeSections_ordered {segments : List Segment}
    (hne : ∀ s ∈ segments, s.executable = true → s.vaRange.start < s.vaRange.stop)
    (hapart : segments.Pairwise fun a b => a.executable = true → b.executable = true →
      Apart a.vaRange b.vaRange) : Ordered (codeSections segments) := by
  have hperm : (memoryMap segments).Perm segments := mergeSort_perm _ _
  have hsorted : (memoryMap segments).Pairwise fun a b => a.virtAddr ≤ b.virtAddr := by
    have hmerge : (memoryMap segments).Pairwise fun a b =>
        decide (a.virtAddr ≤ b.virtAddr) = true := by
      apply pairwise_mergeSort
      · simp only [decide_eq_true_eq] at *
        omega
      · simp only [Bool.or_eq_true, decide_eq_true_eq]
        omega
    simpa using hmerge
  have hapart' : (memoryMap segments).Pairwise fun a b => a.executable = true →
      b.executable = true → Apart a.vaRange b.vaRange := by
    apply hperm.symm.pairwise hapart
    intro a b h hb ha va hva
    exact h ha hb va hva.symm
  constructor
  · intro r hr
    obtain ⟨s, hs, rfl⟩ := mem_map.mp hr
    obtain ⟨hs, hexec⟩ := mem_filter.mp hs
    exact hne s (hperm.mem_iff.mp hs) hexec
  · rw [codeSections, pairwise_map, pairwise_filter]
    apply (hsorted.and hapart').imp_of_mem
    rintro a b ha hb ⟨hle, hab⟩ hexec hexec'
    have hlt' := hne b (hperm.mem_iff.mp hb) hexec'
    -- otherwise the first address of the second one is in both
    by_contra hstop
    exact hab hexec hexec' b.vaRange.start ⟨⟨hle, Nat.lt_of_not_le hstop⟩, Nat.le_refl _, hlt'⟩

/-! ## The result -/

section
variable {segments : List VaRange} (h : SoundLog scale segments log)
include h

lemma SoundLog.of_suffix {before : List Entry} (hsuffix : e :: before <:+ log) :
    Sound scale segments before e := by
  induction log with
  | nil => cases suffix_nil.mp hsuffix
  | cons e' log ih =>
    rcases suffix_cons_iff.mp hsuffix with heq | hsuffix
    · cases heq
      exact h.1
    · exact ih h.2 hsuffix

lemma SoundLog.pairwise :
    log.Pairwise fun e e' => e.AcceptedRoot → e'.AcceptedRoot → Inside segments (vaRange e.range) →
      Inside segments (vaRange e'.range) → Apart (vaRange e.range) (vaRange e'.range) := by
  induction log with
  | nil => exact .nil
  | cons e log ih => exact .cons h.1.disjoint (ih h.2)

end

/-- For executable segments that are not empty and apart, and any extractors and visitor: the log is
what the extractors produce, of which the visitor is given the accepted ranges; accepted functions
are apart; one is rejected only for a bucket it shares with an accepted one; inline records lie
inside the last accepted function; and the statistics count the ranges. -/
theorem extract_spec {V E S : Type} (arch : Option Arch) {segments : List Segment}
    (hne : ∀ s ∈ segments, s.executable = true → s.vaRange.start < s.vaRange.stop)
    (hapart : segments.Pairwise fun a b => a.executable = true → b.executable = true →
      Apart a.vaRange b.vaRange)
    (inner : List (String × Extraction V E S)) (visitor : List Range → Range → Except V Unit) :
    ∃ out, extract arch segments inner visitor = some out ∧
      out.shared.passed = passedOn out.shared.log ∧
      (out.shared.log.Pairwise fun e e' => e.AcceptedRoot → e'.AcceptedRoot →
        Inside (codeSections segments) (vaRange e.range) →
        Inside (codeSections segments) (vaRange e'.range) →
        Apart (vaRange e.range) (vaRange e'.range)) ∧
      (∀ e before, e :: before <:+ out.shared.log → e.accepted = false → e.IsRoot →
        ∃ e' ∈ before, e'.AcceptedRoot ∧ e'.extractor ≤ e.extractor ∧
          SharesBucket (covMapScale arch) (codeSections segments) (vaRange e.range)
            (vaRange e'.range)) ∧
      (∀ e before, e :: before <:+ out.shared.log → e.accepted = true → ¬ e.IsRoot →
        ∃ root, lastRoot e.extractor before = some root ∧
          (vaRange root.range).start ≤ (vaRange e.range).start ∧
          (vaRange e.range).stop ≤ (vaRange root.range).stop) ∧
      out.result = summarize out.perExtractor ∧ out.perExtractor.length = inner.length ∧
      (∀ e ∈ out.shared.log, e.extractor < inner.length) ∧
      ∀ k extractor stats, inner[k]? = some extractor → out.perExtractor[k]? = some stats →
        Accounts visitor k extractor out.shared.log stats := by
  have hordered := codeSections_ordered hne hapart
  obtain ⟨hpos, hsmall⟩ := covMapScale_pos arch
  have hnone : MapsFor (covMapScale arch) [] [] := ⟨rfl, forall_mem_nil _, forall_mem_nil _⟩
  have hordered' : Ordered ([] ++ codeSections segments) := hordered
  obtain ⟨maps, hfold, hmaps, hempty⟩ :=
    addSegments_spec hpos hsmall hordered' hnone (forall_mem_nil _)
  have hgood : Shared.Good (covMapScale arch) (codeSections segments) ⟨maps, [], []⟩ := by
    refine ⟨hmaps, fun i b => ?_, trivial, rfl⟩
    constructor
    · rintro ⟨m, hm, hb⟩
      exact absurd hb (hempty m (mem_of_getElem? hm) b)
    · rintro ⟨e, he, -⟩
      cases he
  have horder : ∀ e ∈ ([] : List Entry), e.extractor < 0 := forall_mem_nil _
  obtain ⟨s, perExtractor, new, hrun, hshared, hlog, hnew, hlen, hstats⟩ :=
    runAll_spec visitor hordered inner hgood horder
  refine ⟨⟨s, perExtractor, summarize perExtractor⟩, ?_, hshared.passed,
    hshared.sound.pairwise, ?_, ?_, rfl, hlen, ?_, fun k extractor stats hextractor hk => ?_⟩
  · rw [extract, hfold]
    dsimp only
    rw [hrun, map_some]
  · intro e before hsuffix hrejected hroot
    have hsound := hshared.sound.of_suffix hsuffix
    obtain ⟨e', he', haccepted, hshares⟩ := hsound.rejected hrejected hroot
    exact ⟨e', he', haccepted, hsound.order e' he', hshares⟩
  · intro e before hsuffix haccepted hinline
    exact (hshared.sound.of_suffix hsuffix).inline haccepted hinline
  · intro e he
    rw [show s.log = new from hlog.trans (append_nil new)] at he
    have hbounds := hnew e he
    omega
  · have hstats' := hstats k extractor stats hextractor hk
    rwa [zero_add] at hstats'

/-- A file with two code segments. -/
def twoSegments : List Segment := [⟨0x2000, 0x10, true⟩, ⟨0x1000, 0x100, true⟩]

/-- A function or an inline record. -/
def sampleRange (elfVa : BitVec 64) (depth : BitVec 32) : Range :=
  ⟨elfVa, 0x20, "f", none, none, none, depth, []⟩

def producing : List Range → Extraction Unit Unit Unit
  | [] => .finish (.ok none)
  | rng :: rest => .produce rng fun _ => producing rest

def twoExtractors : List (String × Extraction Unit Unit Unit) :=
  [("dwarf", producing [sampleRange 0x1000 0, sampleRange 0x1000 1]),
    ("sym", producing [sampleRange 0x1010 0, sampleRange 0x1020 0])]

lemma codeSections_twoSegments :
    codeSections twoSegments = [⟨0x1000, 0x1100⟩, ⟨0x2000, 0x2010⟩] := by
  simp [codeSections, memoryMap, twoSegments, mergeSort, Segment.vaRange,
    MergeSort.Internal.splitInTwo]

/-- The second extractor only adds the function that the first does not have. -/
def twoExtractorsLog : List Entry :=
  [⟨1, sampleRange 0x1020 0, true⟩, ⟨1, sampleRange 0x1010 0, false⟩,
    ⟨0, sampleRange 0x1000 1, true⟩, ⟨0, sampleRange 0x1000 0, true⟩]

theorem extract_spec_twoExtractors : ∃ out stats,
    extract (some .aarch64) twoSegments twoExtractors (fun _ _ => .ok ()) = some out ∧
      out.shared.log = twoExtractorsLog ∧
      (∃ e' ∈ twoExtractorsLog, e'.AcceptedRoot ∧ SharesBucket 4 (codeSections twoSegments)
        (vaRange (sampleRange 0x1010 0)) (vaRange e'.range)) ∧
      out.perExtractor[1]? = some stats ∧ stats.rangesProduced = 2 ∧ stats.rangesAccepted = 1 ∧
      stats.rangesRejected = 1 := by
  have hne : ∀ s ∈ twoSegments, s.executable = true → s.vaRange.start < s.vaRange.stop := by decide
  have hapart : twoSegments.Pairwise fun a b => a.executable = true → b.executable = true →
      Apart a.vaRange b.vaRange := by
    rw [twoSegments, pairwise_pair]
    rintro - - va ⟨⟨hlow, -⟩, -, hhigh⟩
    have hlow' : 0x2000 ≤ va := hlow
    have hhigh' : va < 0x1100 := hhigh
    omega
  obtain ⟨out, hextract, -, -, hrejected, -, -, hlen, -, hstats⟩ :=
    extract_spec (some .aarch64) hne hapart twoExtractors fun _ _ => .ok ()
  have heval : (extract (some .aarch64) twoSegments twoExtractors fun _ _ => .ok ()).map
      (fun out => out.shared.log) = some twoExtractorsLog := by
    rw [extract, codeSections_twoSegments]
    decide +kernel
  have hlog : out.shared.log = twoExtractorsLog := by
    rw [hextract] at heval
    exact some.inj heval
  obtain ⟨e', he', haccepted, -, hshares⟩ := hrejected ⟨1, sampleRange 0x1010 0, false⟩
    (twoExtractorsLog.drop 2) (by rw [hlog]; exact suffix_cons _ _) rfl rfl
  have hcounts := hstats 1 _ _ rfl (getElem?_eq_getElem (hlen ▸ by decide))
  have hproduced := hcounts.produced
  have haccepted' := hcounts.accepted
  have htotal := hcounts.total
  rw [hlog] at hproduced haccepted'
  have htwo : produced 1 twoExtractorsLog = 2 := by decide
  have hone : accepted 1 twoExtractorsLog = 1 := by decide
  refine ⟨out, _, hextract, hlog, ⟨e', mem_of_mem_drop he', haccepted, hshares⟩,
    getElem?_eq_getElem (hlen ▸ by decide), ?_, ?_, ?_⟩
  all_goals omega

end EbpfProfiler.SymbConv
