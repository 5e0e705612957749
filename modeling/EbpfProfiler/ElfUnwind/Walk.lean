import EbpfProfiler.ElfUnwind.Progress

/-!
# The walk over the entries of a section

Every entry takes bytes of the section, and ends unless its instructions run out.
-/

namespace EbpfProfiler.ElfUnwind

open Lib StackDeltas Comp

/-! ## Entries -/

variable {ee : ElfExtractor} {r : Reader} {cie : CieInfo} {s s' : Extraction} {c d : Cursor} {n : ℕ}

section Reader

variable {α : Type} {x : Comp Cursor α}

lemma exec_onReader_ok {a : α} :
    (onReader x).exec s = (.ok a, s') ↔ ∃ d, x.exec s.reader = (.ok a, d) ∧ s' = s.setReader d :=
  exec_zoom_ok

@[simp] lemma hangs_onReader : (onReader x).Hangs s ↔ x.Hangs s.reader := hangs_zoom _ _ x s

lemma halts_onReader (hx : x.Halts) : (onReader x).Halts := fun s h => hx s.reader
  (hangs_onReader.mp h)

end Reader

/-- The state before the first instruction of an entry. -/
def State.first (cie : CieInfo) : State := ⟨0, cie.initialState, []⟩

/-- A CIE of `length` bytes at `c`, with instructions from `d` on. -/
def CieAt (r : Reader) (length : ℕ) (c : Cursor) (cie : CieInfo) (d : Cursor) : Prop :=
  ∃ c₁, (Comp.startSection length).exec c = (.ok (), c₁) ∧ (parseCIEHeader r).exec c₁ = (.ok cie, d)

lemma parseCIE_hangs_iff {length : ℕ} : (parseCIE r length).Hangs c ↔
    ∃ cie d, CieAt r length c cie d ∧ RunsOut r cie withinRow (.first cie) d := by
  simp only [parseCIE, withSection, (halts_startSection length).hangs_bind,
    hangs_deferring halts_endSection, (reads_parseCIEHeader r).halts.hangs_bind, hangs_bind,
    step_hangs_iff, halts_pure _ _, and_false, exists_false, or_false]
  constructor
  · rintro ⟨_, c₁, hstart, cie, d, hheader, hout⟩
    exact ⟨cie, d, ⟨c₁, hstart, hheader⟩, hout⟩
  · rintro ⟨cie, d, ⟨c₁, hstart, hheader⟩, hout⟩
    exact ⟨(), c₁, hstart, cie, d, hheader, hout⟩

lemma forward_parseCIE (r : Reader) (length : ℕ) : (parseCIE r length).Forward := by
  apply Comp.Forward.withSection
  intro c cie e h
  obtain ⟨cie₀, d, hheader, h⟩ := exec_bind_ok.mp h
  obtain ⟨st, d', hstep, h⟩ := exec_bind_ok.mp h
  cases h
  exact ((reads_parseCIEHeader r).forward c cie₀ d hheader).trans (stepLoop_forward hstep).1

/-- The reader of `processCIE`. -/
def Reader.small (r : Reader) : Reader := { r with bufSize := 1024 }

/-- The CIE at a position, and its instructions. -/
def CieFrom (r : Reader) (pos : ℕ) (c : Cursor) (cie : CieInfo) (d : Cursor) : Prop :=
  ∃ length marker c₁, (parseLengthAndMarker r.small).exec (r.seekCIE pos c) =
      (.ok (some (length, marker)), c₁) ∧ marker.slt 0 = true ∧ CieAt r.small length c₁ cie d

lemma processCIE_hangs_iff {pos : ℕ} : (processCIE r pos).Hangs c ↔
    ∃ cie d, CieFrom r pos c cie d ∧ RunsOut r.small cie withinRow (.first cie) d := by
  have haside (read : Comp Cursor CieInfo) :
      Comp.Hangs (fun c => ((read.exec (r.seekCIE pos c)).1, c)) c ↔
        read.Hangs (r.seekCIE pos c) := by
    unfold Comp.Hangs exec
    rcases hread : read (r.seekCIE pos c) with ⟨v, d⟩
    simp [hread]
  refine (haside _).trans ?_
  refine ((reads_parseLengthAndMarker r.small).halts.hangs_bind _ _).trans ?_
  constructor
  · rintro ⟨entry, c₁, hentry, h⟩
    cases entry with
    | none => exact absurd h (halts_error _ c₁)
    | some entry =>
      dsimp only at h
      split at h
      · exact absurd h (halts_error _ c₁)
      · next hmarker =>
        obtain ⟨cie, d, hcie, hout⟩ := parseCIE_hangs_iff.mp h
        exact ⟨cie, d, ⟨_, _, c₁, hentry, not_not.mp hmarker, hcie⟩, hout⟩
  · rintro ⟨cie, d, ⟨length, marker, c₁, hentry, hmarker, hcie⟩, hout⟩
    refine ⟨some (length, marker), c₁, hentry, ?_⟩
    dsimp only
    rw [if_neg (not_not_intro hmarker), parseCIE_hangs_iff]
    exact ⟨cie, d, hcie, hout⟩

lemma processCIE_reader {pos : ℕ} (h : (processCIE r pos).exec c = (.ok cie, d)) : d = c := by
  exact (Prod.mk.inj h).2.symm

/-- The range of the FDE of `n` bytes at `c`; its instructions start at `d`. -/
def FdeAt (r : Reader) (n : ℕ) (c : Cursor) (cie : CieInfo) (ipStart ipLen : Word) (d : Cursor) :
    Prop :=
  ∃ c₁, (Comp.startSection n).exec c = (.ok (), c₁) ∧
    (fdeHeader r cie).exec c₁ = (.ok (ipStart, ipLen), d)

/-- The FDE is kept and not that of a signal handler, so it is executed. -/
def RunsInstructions (ee : ElfExtractor) (filter : ExtractionFilter) (cie : CieInfo)
    (ipStart ipLen : Word) : Prop :=
  (filter.fdeHook ipStart ipLen).1 = true ∧
    (cie.isSignalHandler || isSignalTrampoline ee.file ipStart ipLen) = false

lemma fdeDeltas_hangs_iff {ipStart ipLen : Word} : (fdeDeltas ee r cie ipStart ipLen).Hangs d ↔
      (cie.isSignalHandler || isSignalTrampoline ee.file ipStart ipLen) = false ∧
        RunsOut r cie (withinFde ee.allowGenericRegs) (.first cie) d := by
  unfold fdeDeltas
  cases (cie.isSignalHandler || isSignalTrampoline ee.file ipStart ipLen) with
  | true => exact iff_of_false (halts_pure _ d) (by simp)
  | false =>
    rw [and_iff_right rfl]
    exact fdeRows_hangs_iff le_rfl []

lemma fdeBody_hangs_iff : (fdeBody ee r cie).Hangs s ↔ ∃ ipStart ipLen d,
      (fdeHeader r cie).exec s.reader = (.ok (ipStart, ipLen), d) ∧
      RunsInstructions ee s.filter cie ipStart ipLen ∧
      RunsOut r cie (withinFde ee.allowGenericRegs) (.first cie) d := by
  rw [fdeBody, (halts_onReader (reads_fdeHeader r cie).halts).hangs_bind]
  simp only [exec_onReader_ok, hangs_get_bind, RunsInstructions]
  constructor
  · rintro ⟨⟨ipStart, ipLen⟩, _, ⟨d, hread, rfl⟩, h⟩
    refine ⟨ipStart, ipLen, d, hread, ?_⟩
    split at h
    · next hkeep =>
      rw [hangs_set_bind] at h
      simp only [hangs_bind, hangs_onReader, fdeDeltas_hangs_iff, halts_get _, halts_set _ _,
        and_false, exists_false, or_false] at h
      exact ⟨⟨hkeep, h.1⟩, h.2⟩
    · exact absurd h (halts_pure _ _)
  · rintro ⟨ipStart, ipLen, d, hread, ⟨hkeep, hsignal⟩, hout⟩
    refine ⟨(ipStart, ipLen), _, ⟨d, hread, rfl⟩, ?_⟩
    split
    · rw [hangs_set_bind, hangs_bind, hangs_onReader, fdeDeltas_hangs_iff]
      exact .inl ⟨hsignal, hout⟩
    · next hskip => exact absurd hkeep hskip

lemma parseFDE_hangs_iff : (parseFDE ee r n cie).Hangs s ↔
    ∃ ipStart ipLen d, FdeAt r n s.reader cie ipStart ipLen d ∧
      RunsInstructions ee s.filter cie ipStart ipLen ∧
      RunsOut r cie (withinFde ee.allowGenericRegs) (.first cie) d := by
  simp only [parseFDE, (halts_onReader (halts_startSection n)).hangs_bind, exec_onReader_ok,
    hangs_deferring (halts_onReader halts_endSection), fdeBody_hangs_iff]
  constructor
  · rintro ⟨_, _, ⟨c₁, hsection, rfl⟩, ipStart, ipLen, d, hheader, hruns⟩
    exact ⟨ipStart, ipLen, d, ⟨c₁, hsection, hheader⟩, hruns⟩
  · rintro ⟨ipStart, ipLen, d, ⟨c₁, hsection, hheader⟩, hruns⟩
    exact ⟨(), _, ⟨c₁, hsection, rfl⟩, ipStart, ipLen, d, hheader, hruns⟩

lemma forward_fdeRows {allow : Bool} (fuel : ℕ) (st : State)
    (deltas : List StackDelta) : (fdeRows r cie allow fuel st deltas).Forward := by
  induction fuel generalizing st deltas with
  | zero => exact (reads_pure _).forward
  | succ fuel ih =>
    intro c ds e h
    rw [fdeRows, exec_get_bind] at h
    split at h
    · exact (reads_pure _).forward c ds e h
    · obtain ⟨next, d, hstep, h⟩ := exec_bind_ok.mp h
      refine (stepLoop_forward hstep).1.trans ?_
      split at h
      · cases h
      · exact ih _ _ d ds e h

lemma forward_fdeDeltas {ipStart ipLen : Word} : (fdeDeltas ee r cie ipStart ipLen).Forward := by
  unfold fdeDeltas
  split
  · exact (reads_pure _).forward
  · intro c ds e h
    exact forward_fdeRows _ _ _ c ds e h

lemma parseFDE_ok (h : (parseFDE ee r n cie).exec s = (.ok (), s')) :
    ∃ ipStart ipLen d, FdeAt r n s.reader cie ipStart ipLen d ∧ s.reader.Before s'.reader ∧
      (((s.filter.fdeHook ipStart ipLen).1 = true ∧ ∃ deltas e,
          (fdeDeltas ee r cie ipStart ipLen).exec d = (.ok deltas, e) ∧ s'.intervals =
            s.intervals.add ⟨ipStart.toNat, (ipStart + ipLen).toNat, deltas⟩) ∨
        ((s.filter.fdeHook ipStart ipLen).1 = false ∧ s'.intervals = s.intervals)) := by
  obtain ⟨_, s₁, hstart, h⟩ := exec_bind_ok.mp h
  obtain ⟨c₁, hsection, rfl⟩ := exec_onReader_ok.mp hstart
  obtain ⟨s₂, hbody, hend⟩ := exec_deferring_ok h
  obtain ⟨e, hendSection, rfl⟩ := exec_onReader_ok.mp hend
  obtain ⟨⟨ipStart, ipLen⟩, s₃, hheader, hbody⟩ := exec_bind_ok.mp hbody
  obtain ⟨d, hread, rfl⟩ := exec_onReader_ok.mp hheader
  have hd : c₁.Before d := (reads_fdeHeader r cie).forward _ _ _ hread
  rw [exec_get_bind] at hbody
  dsimp only [Extraction.setReader] at hbody
  refine ⟨ipStart, ipLen, d, ⟨c₁, hsection, hread⟩, ?_⟩
  cases hkeep : (s.filter.fdeHook ipStart ipLen).1 with
  | true =>
    rw [if_pos hkeep] at hbody
    obtain ⟨_, s₄, hset, hbody⟩ := exec_bind_ok.mp hbody
    cases hset
    obtain ⟨deltas, s₅, hdeltas, hbody⟩ := exec_bind_ok.mp hbody
    obtain ⟨c₃, hrows, rfl⟩ := exec_onReader_ok.mp hdeltas
    cases hbody
    have hbefore := (exec_endSection_ok hsection (hd.trans (forward_fdeDeltas _ _ _ hrows))
      hendSection).1
    exact ⟨hbefore, .inl ⟨rfl, deltas, c₃, hrows, rfl⟩⟩
  | false =>
    rw [if_neg (by rw [hkeep]; decide)] at hbody
    cases hbody
    exact ⟨(exec_endSection_ok hsection hd hendSection).1, .inr ⟨rfl, rfl⟩⟩

/-! ## The walk -/

/-- The walk goes over one entry, and on to the next. -/
def Entry (ee : ElfExtractor) (r : Reader) (t u : Extraction) : Prop :=
  t.reader.remaining ≠ 0 ∧ (walkEntry ee r).exec t = (.ok true, u)

/-- The states of the walk in front of an entry. -/
def Heads (ee : ElfExtractor) (r : Reader) : Extraction → Extraction → Prop :=
  Relation.ReflTransGen (Entry ee r)

/-- The entry executes the instructions of a CIE from `d` on. -/
inductive ExecutesCie (r : Reader) (t : Extraction) : Reader → CieInfo → Cursor → Prop
  | own {n : ℕ} {ciePos : Word} {c d : Cursor} {cie : CieInfo}
      (hentry : (parseLengthAndMarker r).exec t.reader = (.ok (some (n, ciePos)), c))
      (hcie : ciePos.slt 0 = true) (h : CieAt r n c cie d) : ExecutesCie r t r cie d
  | ofFde {n : ℕ} {ciePos : Word} {c d : Cursor} {cie : CieInfo}
      (hentry : (parseLengthAndMarker r).exec t.reader = (.ok (some (n, ciePos)), c))
      (hfde : ciePos.slt 0 = false) (h : CieFrom r ciePos.toNat c cie d) :
        ExecutesCie r t r.small cie d

/-- The entry executes the instructions of an FDE from `d` on. -/
inductive ExecutesFde (ee : ElfExtractor) (r : Reader) (t : Extraction) : CieInfo → Cursor → Prop
  | mk {n : ℕ} {ciePos ipStart ipLen : Word} {c d : Cursor} {cie : CieInfo}
      (hentry : (parseLengthAndMarker r).exec t.reader = (.ok (some (n, ciePos)), c))
      (hfde : ciePos.slt 0 = false) (hcie : (processCIE r ciePos.toNat).exec c = (.ok cie, c))
      (h : FdeAt r n c cie ipStart ipLen d)
      (hruns : RunsInstructions ee t.filter cie ipStart ipLen) :
      ExecutesFde ee r t cie d

section Entry

variable {t u : Extraction} {ciePos : Word}

lemma halts_parseEntry (context : String) :
    (Comp.wrapError context (onReader (parseLengthAndMarker r))).Halts := fun s h =>
  halts_onReader (reads_parseLengthAndMarker r).halts s ((hangs_wrapError _ _ s).mp h)

lemma walkEntry_hangs_cases : (walkEntry ee r).Hangs t ↔ ∃ n ciePos c,
    (parseLengthAndMarker r).exec t.reader = (.ok (some (n, ciePos)), c) ∧
      ((ciePos.slt 0 = true ∧ (parseCIE r n).Hangs c) ∨
        (ciePos.slt 0 = false ∧ ((processCIE r ciePos.toNat).Hangs c ∨
          ∃ cie, (processCIE r ciePos.toNat).exec c = (.ok cie, c) ∧
            (parseFDE ee r n cie).Hangs (t.setReader c)))) := by
  rw [walkEntry, hangs_get_bind, (halts_parseEntry _).hangs_bind]
  simp only [exec_wrapError_ok_iff, exec_onReader_ok]
  constructor
  · rintro ⟨entry, _, ⟨c, hread, rfl⟩, h⟩
    cases entry with
    | none => exact absurd h (halts_pure _ _)
    | some entry =>
      refine ⟨entry.1, entry.2, c, hread, ?_⟩
      dsimp only at h
      split at h
      · next hcie =>
        simp only [hangs_bind, hangs_wrapError, hangs_onReader, halts_pure _ _, and_false,
          exists_false, or_false] at h
        exact .inl ⟨hcie, h⟩
      · next hcie =>
        simp only [hangs_bind, hangs_wrapError, hangs_onReader, exec_wrapError_ok_iff,
          exec_onReader_ok, halts_pure _ _, and_false, exists_false, or_false] at h
        refine .inr ⟨Bool.eq_false_of_not_eq_true hcie, h.imp_right ?_⟩
        rintro ⟨cie, _, ⟨d, hprocess, rfl⟩, h⟩
        obtain rfl := processCIE_reader hprocess
        exact ⟨cie, hprocess, h⟩
  · rintro ⟨n, ciePos, c, hread, hcases⟩
    refine ⟨some (n, ciePos), _, ⟨c, hread, rfl⟩, ?_⟩
    dsimp only
    rcases hcases with ⟨hcie, h⟩ | ⟨hfde, h⟩
    · rw [if_pos hcie, hangs_bind, hangs_wrapError, hangs_onReader]
      exact .inl h
    · rw [if_neg (by rw [hfde]; decide), hangs_bind, hangs_wrapError, hangs_onReader]
      refine h.imp_right ?_
      rintro ⟨cie, hprocess, h⟩
      refine ⟨cie, _, exec_wrapError_ok_iff.mpr (exec_onReader_ok.mpr ⟨c, hprocess, rfl⟩), ?_⟩
      rw [hangs_bind, hangs_wrapError]
      exact .inl h

/-- **Step lemma.** An entry does not end exactly if its instructions run out. -/
lemma walkEntry_hangs_iff : (walkEntry ee r).Hangs t ↔
    (∃ r' cie d, ExecutesCie r t r' cie d ∧ RunsOut r' cie withinRow (.first cie) d) ∨
      ∃ cie d, ExecutesFde ee r t cie d ∧
        RunsOut r cie (withinFde ee.allowGenericRegs) (.first cie) d := by
  rw [walkEntry_hangs_cases]
  constructor
  · rintro ⟨n, ciePos, c, hentry, ⟨hcie, h⟩ | ⟨hfde, h | ⟨cie, hread, h⟩⟩⟩
    · obtain ⟨cie, d, hat, hout⟩ := parseCIE_hangs_iff.mp h
      exact .inl ⟨r, cie, d, .own hentry hcie hat, hout⟩
    · obtain ⟨cie, d, hfrom, hout⟩ := processCIE_hangs_iff.mp h
      exact .inl ⟨r.small, cie, d, .ofFde hentry hfde hfrom, hout⟩
    · obtain ⟨ipStart, ipLen, d, hat, hruns, hout⟩ := parseFDE_hangs_iff.mp h
      exact .inr ⟨cie, d, .mk hentry hfde hread hat hruns, hout⟩
  · rintro (⟨r', cie, d, hexec, hout⟩ | ⟨cie, d, hexec, hout⟩)
    · cases hexec with
      | own hentry hcie hat =>
        exact ⟨_, _, _, hentry, .inl ⟨hcie, parseCIE_hangs_iff.mpr ⟨cie, d, hat, hout⟩⟩⟩
      | ofFde hentry hfde hfrom =>
        exact ⟨_, _, _, hentry, .inr ⟨hfde, .inl (processCIE_hangs_iff.mpr ⟨cie, d, hfrom, hout⟩)⟩⟩
    · cases hexec with
      | mk hentry hfde hread hat hruns =>
        exact ⟨_, _, _, hentry, .inr ⟨hfde, .inr ⟨cie, hread,
          parseFDE_hangs_iff.mpr ⟨_, _, d, hat, hruns, hout⟩⟩⟩⟩

/-- What an entry does: it is the end marker, a CIE or an FDE. -/
lemma walkEntry_ok {more : Bool} (h : (walkEntry ee r).exec t = (.ok more, u)) :
    (more = false ∧ ∃ c, (parseLengthAndMarker r).exec t.reader = (.ok none, c) ∧
      u = t.setReader c) ∨ (more = true ∧ ∃ n ciePos c,
    (parseLengthAndMarker r).exec t.reader = (.ok (some (n, ciePos)), c) ∧
      ((ciePos.slt 0 = true ∧ ∃ cie d, (parseCIE r n).exec c = (.ok cie, d) ∧ u = t.setReader d) ∨
        (ciePos.slt 0 = false ∧ ∃ cie, (processCIE r ciePos.toNat).exec c = (.ok cie, c) ∧
          (parseFDE ee r n cie).exec (t.setReader c) = (.ok (), u)))) := by
  rw [walkEntry, exec_get_bind] at h
  obtain ⟨entry, t₁, hentry, h⟩ := exec_bind_ok.mp h
  obtain ⟨c, hread, rfl⟩ := exec_onReader_ok.mp (exec_wrapError_ok_iff.mp hentry)
  cases entry with
  | none =>
    cases h
    exact .inl ⟨rfl, c, hread, rfl⟩
  | some entry =>
    dsimp only at h
    right
    split at h
    · next hcie =>
      obtain ⟨cie, t₂, hparse, h⟩ := exec_bind_ok.mp h
      obtain ⟨d, hcieRead, rfl⟩ := exec_onReader_ok.mp (exec_wrapError_ok_iff.mp hparse)
      cases h
      exact ⟨rfl, _, _, c, hread, .inl ⟨hcie, cie, d, hcieRead, rfl⟩⟩
    · next hcie =>
      obtain ⟨cie, t₂, hprocess, h⟩ := exec_bind_ok.mp h
      obtain ⟨d, hcieRead, rfl⟩ := exec_onReader_ok.mp (exec_wrapError_ok_iff.mp hprocess)
      obtain rfl := processCIE_reader hcieRead
      obtain ⟨_, t₃, hfde, h⟩ := exec_bind_ok.mp h
      cases h
      exact ⟨rfl, _, _, d, hread, .inr ⟨Bool.eq_false_of_not_eq_true hcie, cie, hcieRead,
        exec_wrapError_ok_iff.mp hfde⟩⟩

/-- **Step lemma.** An entry that is not the last one takes bytes of the section. -/
lemma walkEntry_progress (h : (walkEntry ee r).exec t = (.ok true, u)) :
    t.reader.Before u.reader ∧ t.reader.pos < u.reader.pos := by
  obtain ⟨hmore, -⟩ | ⟨-, n, ciePos, c, hentry, hcases⟩ := walkEntry_ok h
  · cases hmore
  obtain ⟨hbefore, hlt⟩ := parseLengthAndMarker_progress hentry
  have hrest : c.Before u.reader := by
    rcases hcases with ⟨-, cie, d, hcie, rfl⟩ | ⟨-, cie, -, hfde⟩
    · exact forward_parseCIE r n c cie d hcie
    · obtain ⟨-, -, -, -, hrest, -⟩ := parseFDE_ok hfde
      exact hrest
  exact ⟨hbefore.trans hrest, lt_of_lt_of_le hlt hrest.pos⟩

lemma Entry.remaining_lt (h : Entry ee r t u) : u.reader.remaining < t.reader.remaining := by
  obtain ⟨hbefore, hlt⟩ := walkEntry_progress h.2
  exact hbefore.remaining_add h.1 hlt

/-! The first round of the loop of `walkFDEs`, by how it ends. -/

lemma exec_walkLoop_end (fuel : ℕ) (hrem : t.reader.remaining = 0) :
    (walkLoop ee r fuel).exec t = (.ok (), t) := by
  cases fuel with
  | zero => rfl
  | succ fuel =>
    rw [walkLoop, exec_get_bind, if_pos hrem]
    rfl

lemma exec_walkLoop_next (fuel : ℕ) (h : Entry ee r t u) :
    (walkLoop ee r (fuel + 1)).exec t = (walkLoop ee r fuel).exec u := by
  rw [walkLoop, exec_get_bind, if_neg h.1, exec_bind_of_ok h.2, if_pos rfl]

lemma exec_walkLoop_last (fuel : ℕ) (hrem : t.reader.remaining ≠ 0)
    (h : (walkEntry ee r).exec t = (.ok false, u)) :
    (walkLoop ee r (fuel + 1)).exec t = (.ok (), u) := by
  rw [walkLoop, exec_get_bind, if_neg hrem, exec_bind_of_ok h]
  rfl

lemma exec_walkLoop_fault (fuel : ℕ) (hrem : t.reader.remaining ≠ 0) {f : Fault}
    (h : (walkEntry ee r).exec t = (.error f, u)) :
    (walkLoop ee r (fuel + 1)).exec t = (.error f, u) := by
  rw [walkLoop, exec_get_bind, if_neg hrem, exec_bind_of_error h]

/-- **Run lemma.** The loop ends at the section's end, the end marker or an entry with an error. -/
lemma walkLoop_cases {fuel : ℕ} (hfuel : t.reader.remaining ≤ fuel) : ∃ last, Heads ee r t last ∧
    ((last.reader.remaining = 0 ∧ (walkLoop ee r fuel).exec t = (.ok (), last)) ∨
      (last.reader.remaining ≠ 0 ∧ ∃ u, (walkEntry ee r).exec last = (.ok false, u) ∧
        (walkLoop ee r fuel).exec t = (.ok (), u)) ∨
      (last.reader.remaining ≠ 0 ∧ ∃ f u, (walkEntry ee r).exec last = (.error f, u) ∧
        (walkLoop ee r fuel).exec t = (.error f, u))) := by
  induction fuel generalizing t with
  | zero =>
    have hrem : t.reader.remaining = 0 := by omega
    exact ⟨t, .refl, .inl ⟨hrem, exec_walkLoop_end 0 hrem⟩⟩
  | succ fuel ih =>
    by_cases hrem : t.reader.remaining = 0
    · exact ⟨t, .refl, .inl ⟨hrem, exec_walkLoop_end _ hrem⟩⟩
    rcases hentry : (walkEntry ee r).exec t with ⟨v, u⟩
    cases v with
    | error f =>
      exact ⟨t, .refl, .inr (.inr ⟨hrem, f, u, hentry, exec_walkLoop_fault fuel hrem hentry⟩)⟩
    | ok more =>
      cases more with
      | false =>
        exact ⟨t, .refl, .inr (.inl ⟨hrem, u, hentry, exec_walkLoop_last fuel hrem hentry⟩)⟩
      | true =>
        have hnext : Entry ee r t u := ⟨hrem, hentry⟩
        have hless := hnext.remaining_lt
        rw [exec_walkLoop_next fuel hnext]
        obtain ⟨last, hheads, hcases⟩ := ih (t := u) (by omega)
        exact ⟨last, .head hnext hheads, hcases⟩

/-- The walk from `t` and from a state that it comes to end in the same way. -/
lemma walkLoop_of_heads {fuel : ℕ} (hfuel : t.reader.remaining ≤ fuel) (hheads : Heads ee r t u) :
    ∃ fuel', u.reader.remaining ≤ fuel' ∧
      (walkLoop ee r fuel).exec t = (walkLoop ee r fuel').exec u := by
  induction hheads using Relation.ReflTransGen.head_induction_on generalizing fuel with
  | refl => exact ⟨fuel, hfuel, rfl⟩
  | head hnext _ ih =>
    have hless := hnext.remaining_lt
    cases fuel with
    | zero => omega
    | succ fuel =>
      obtain ⟨fuel', hle, heq⟩ := ih (show _ ≤ fuel by omega)
      exact ⟨fuel', hle, by rw [exec_walkLoop_next fuel hnext, heq]⟩

lemma walkLoop_fuel {m n : ℕ} (hm : t.reader.remaining ≤ m) (hn : t.reader.remaining ≤ n) :
    (walkLoop ee r m).exec t = (walkLoop ee r n).exec t := by
  obtain ⟨last, hheads, hcases⟩ := walkLoop_cases hm
  obtain ⟨fuel, hfuel, heq⟩ := walkLoop_of_heads hn hheads
  rw [heq]
  rcases hcases with ⟨hrem, hexec⟩ | ⟨hrem, u, hentry, hexec⟩ | ⟨hrem, f, u, hentry, hexec⟩
  · rw [hexec, exec_walkLoop_end fuel hrem]
  · cases fuel with
    | zero => omega
    | succ fuel => rw [hexec, exec_walkLoop_last fuel hrem hentry]
  · cases fuel with
    | zero => omega
    | succ fuel => rw [hexec, exec_walkLoop_fault fuel hrem hentry]

/-- **Run lemma.** The walk does not end exactly if it comes to such an entry. -/
lemma walkLoop_hangs_iff {fuel : ℕ} (hfuel : t.reader.remaining ≤ fuel) :
    (walkLoop ee r fuel).Hangs t ↔
      ∃ u, Heads ee r t u ∧ u.reader.remaining ≠ 0 ∧ (walkEntry ee r).Hangs u := by
  constructor
  · rintro ⟨v, hhang⟩
    obtain ⟨last, hheads, ⟨-, hexec⟩ | ⟨-, u, -, hexec⟩ | ⟨hrem, f, u, hentry, hexec⟩⟩ :=
      walkLoop_cases hfuel
    · rw [hexec] at hhang
      cases hhang
    · rw [hexec] at hhang
      cases hhang
    · rw [hexec] at hhang
      cases hhang
      exact ⟨last, hheads, hrem, _, hentry⟩
  · rintro ⟨u, hheads, hrem, v, hentry⟩
    obtain ⟨fuel', hle, heq⟩ := walkLoop_of_heads hfuel hheads
    cases fuel' with
    | zero => omega
    | succ fuel' => exact ⟨v, by rw [heq, exec_walkLoop_fault fuel' hrem hentry]⟩

end Entry

end EbpfProfiler.ElfUnwind
