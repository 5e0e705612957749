import EbpfProfiler.ProcessContext.Reader

/-!
# Process contexts are read coherently

All bytes of a read that succeeds are of one publication (`ReadFrom.fromPublication`), and later
reads are not older.
-/

namespace EbpfProfiler.ProcessContext

open Lib List

/-! ## A successful run of `readOnce` -/

section
variable {Ctx Attrs Thread Env : Type} {dec : Decoder Ctx Attrs Thread Env}
  {mem : ℕ → Mem} {t u : ℕ} {addr : Address} {last : U64} {info : Info Attrs Thread} {used : Used}

/-- What a successful read has read. -/
structure ReadFrom (dec : Decoder Ctx Attrs Thread Env) (mem : ℕ → Mem) (addr : Address)
    (last : U64) (s u : ℕ) (w : U64) (info : Info Attrs Thread) (used : Used) : Prop where
  le : s ≤ u
  ne : w ≠ 0
  new : last.toNat < w.toNat
  before : (mem s).Holds (timestampAddr addr) (timestampBytes w)
  after : (mem u).Holds (timestampAddr addr) (timestampBytes w)
  headerLength : used.header.length = headerSize
  header : Seen mem s u addr used.header
  payloadSize : (Header.ofBytes used.header).payloadSize ≤ maxPayloadSize
  payloadLength : used.payload.length = (Header.ofBytes used.header).payloadSize
  payload : Seen mem s u (Header.ofBytes used.header).payloadPtr used.payload
  result : ∃ ctx, dec.unmarshal used.payload = some ctx ∧
  info = ⟨dec.resourceAttrs ctx, dec.threadCtx ctx,
    (Header.ofBytes used.header).monotonicPublishedAtNs, true⟩

lemma Seen.mono {t' u' : ℕ} {bs : List Byte} (h : Seen mem t u addr bs) (ht : t' ≤ t)
    (hu : u ≤ u') :
    Seen mem t' u' addr bs := by
  intro i hi
  obtain ⟨s, hts, hsu, hbyte⟩ := h i hi
  exact ⟨s, ht.trans hts, hsu.trans hu, hbyte⟩

lemma exec_readOnce (h : Exec mem t (readOnce dec addr last) u (.ok (info, used))) :
    ∃ s w, t ≤ s ∧ ReadFrom dec mem addr last s u w info used := by
  obtain ⟨s, first, hfirst, h⟩ := exec_bind h
  have hbefore := exec_readTimestamp hfirst
  cases first with
  | none => cases (exec_done h).2
  | some w =>
    refine ⟨s, w, hfirst.le, ?_⟩
    replace h : Exec mem s (if w = 0 then _ else _) u _ := h
    split at h
    · cases (exec_done h).2
    · next hne =>
      split at h
      · cases (exec_done h).2
      · next hnew =>
        obtain ⟨s₁, header, hheader, h⟩ := exec_bind h
        cases header with
        | error fault => cases (exec_done h).2
        | ok header =>
          obtain ⟨s₂, payload, hpayload, h⟩ := exec_bind h
          obtain ⟨s₃, second, hsecond, h⟩ := exec_bind h
          have hafter := exec_readTimestamp hsecond
          cases second with
          | none => cases (exec_done h).2
          | some w' =>
            replace h : Exec mem s₃ (if w ≠ w' then _ else _) u _ := h
            split at h
            · cases (exec_done h).2
            · next heq =>
              have hww : w = w' := not_not.mp heq
              cases payload with
              | error fault => cases (exec_done h).2
              | ok payload =>
                obtain ⟨rfl, hr⟩ := exec_done h
                cases hr
                obtain ⟨hlen, hseen, hsize⟩ := exec_readHeader hheader
                obtain ⟨hlen', hseen', hunmarshal⟩ := exec_readPayload hpayload
                have h₁ := hheader.le
                have h₂ := hpayload.le
                have h₃ := hsecond.le
                exact {
                  le := by omega
                  ne := hne
                  new := by omega
                  before := hbefore w rfl
                  after := hafter w (by rw [hww]; rfl)
                  headerLength := hlen
                  header := hseen.mono le_rfl (by omega)
                  payloadSize := hsize
                  payloadLength := hlen'
                  payload := hseen'.mono h₁ h₃
                  result := ⟨payload.2, hunmarshal, rfl⟩ }

end

/-! ## Coherence -/

/-- The bytes of a context and its timestamp are those of a publication. -/
structure FromPublication {Ctx Attrs Thread Env : Type} (dec : Decoder Ctx Attrs Thread Env)
    (base : Address) (p : Publication) (info : Info Attrs Thread) (used : Used) : Prop where
  headerLength : used.header.length = headerSize
  header : p.mem.Holds base used.header
  payloadLength : used.payload.length = (Header.ofBytes used.header).payloadSize
  payload : p.mem.Holds (Header.ofBytes used.header).payloadPtr used.payload
  decoded : ∃ ctx, dec.unmarshal used.payload = some ctx ∧
    info = ⟨dec.resourceAttrs ctx, dec.threadCtx ctx, p.timestamp, true⟩

section
variable {base : Address} {run : ℕ → Publisher}

lemma IsRun.stamp_eq (hrun : IsRun base run) {n : ℕ} {w : U64}
    (h : (run n).mem.Holds (timestampAddr base) (timestampBytes w)) : (run n).stamp = w := by
  apply timestampBytes_injective
  apply (hrun.good n).stamp.unique h
  rw [length_timestampBytes, length_timestampBytes]

lemma IsRun.shows_last (hrun : IsRun base run) {n : ℕ} (hne : (run n).stamp ≠ 0) :
    ∃ p ∈ (run n).published, p.timestamp = (run n).stamp ∧ Keeps base p.mem (run n).mem := by
  have hidle : (run n).updating = false := by
    cases hupdating : (run n).updating with
    | false => rfl
    | true =>
      rw [Publisher.stamp, if_pos hupdating] at hne
      exact absurd rfl hne
  obtain ⟨p, rest, hpublished, hkeeps⟩ := (hrun.good n).keeps hidle
  refine ⟨p, ?_, ?_, hkeeps⟩
  · rw [hpublished]
    exact mem_cons_self
  · rw [Publisher.stamp, hidle, Publisher.last, hpublished]
    rfl

lemma Seen.holds {t u : ℕ} {a : Address} {bs : List Byte} {m : Mem}
    (h : Seen (fun n => (run n).mem) t u a bs) (hsame : ∀ n, t ≤ n → n ≤ u → ∀ i < bs.length,
      (run n).mem (a + BitVec.ofNat 64 i) = m (a + BitVec.ofNat 64 i)) : m.Holds a bs := by
  intro i hi
  obtain ⟨n, htn, hnu, hbyte⟩ := h i hi
  rw [← hsame n htn hnu i hi]
  exact hbyte

lemma monotonicPublishedAtNs_eq {m : Mem} {bs : List Byte} {w : U64} (hlen : bs.length = headerSize)
    (hheader : m.Holds base bs) (hstamp : m.Holds (timestampAddr base) (timestampBytes w)) :
    (Header.ofBytes bs).monotonicPublishedAtNs = w := by
  have hslice : slice bs 16 24 = timestampBytes w := by
    apply ext_getElem?
    intro i
    by_cases hi : i < 8
    · have hbyte := hstamp i (by exact hi)
      rw [← hbyte, timestampAddr_add, hheader (16 + i) (by rw [hlen]; unfold headerSize; omega),
        slice, getElem?_take_of_lt (by omega), getElem?_drop]
    · have hlength : (slice bs 16 24).length ≤ 8 := by
        rw [slice, length_take]
        omega
      rw [getElem?_eq_none (by omega), getElem?_eq_none (by rw [length_timestampBytes]; omega)]
  show BitVec.ofNat 64 (leNat (slice bs 16 24)) = w
  rw [hslice, leNat_timestampBytes, BitVec.ofNat_toNat, BitVec.setWidth_eq]

variable {Ctx Attrs Thread Env : Type} {dec : Decoder Ctx Attrs Thread Env}
  {last : U64} {s u : ℕ} {w : U64} {info : Info Attrs Thread} {used : Used}

lemma ReadFrom.fromPublication (hrun : IsRun base run)
    (h : ReadFrom dec (fun n => (run n).mem) base last s u w info used) :
    (run s).stamp = w ∧ ∃ p ∈ (run u).published, FromPublication dec base p info used ∧
    p.timestamp = w := by
  have hs := hrun.stamp_eq h.before
  have hu := hrun.stamp_eq h.after
  have hne : (run s).stamp ≠ 0 := hs ▸ h.ne
  obtain ⟨p, hp, hstamp, hkeeps⟩ := hrun.shows_last hne
  -- no update between the two timestamps
  have hall : ∀ n, s ≤ n → n ≤ u → Keeps base p.mem (run n).mem := by
    intro n hsn hnu
    have heq : (run s).stamp.toNat = (run u).stamp.toNat := by rw [hs, hu]
    have hpos : (run s).stamp.toNat ≠ 0 := fun hzero => hne (BitVec.eq_of_toNat_eq hzero)
    exact hkeeps.trans (hrun.seqlock.keeps_of_stamp_eq h.le heq hpos hsn hnu)
  have hheader : p.mem.Holds base used.header := by
    apply h.header.holds
    intro n hsn hnu i hi
    exact (hall n hsn hnu).header _ (within_add (h.headerLength ▸ hi) (by decide))
  have hpayload : p.mem.Holds (Header.ofBytes used.header).payloadPtr used.payload := by
    apply h.payload.holds
    intro n hsn hnu i hi
    apply (hall n hsn hnu).payload
    refine ⟨used.header, h.headerLength, hheader, within_add (h.payloadLength ▸ hi) ?_⟩
    exact h.payloadSize.trans (by decide)
  have htimestamp : (Header.ofBytes used.header).monotonicPublishedAtNs = w :=
    monotonicPublishedAtNs_eq h.headerLength (hkeeps.holds_header h.headerLength hheader) h.before
  refine ⟨hs, p, (hrun.published_suffix h.le).subset hp,
    ⟨h.headerLength, hheader, h.payloadLength, hpayload, ?_⟩, hstamp.trans hs⟩
  obtain ⟨ctx, hunmarshal, hinfo⟩ := h.result
  rw [htimestamp, ← hs, ← hstamp] at hinfo
  exact ⟨ctx, hunmarshal, hinfo⟩

/-! ## Successive calls -/

lemma exec_readLoop {mem : ℕ → Mem} {t attempts : ℕ}
    (h : Exec mem t (readLoop dec base last attempts) u (.ok info)) :
    ∃ s u' w used, t ≤ s ∧ u' ≤ u ∧ ReadFrom dec mem base last s u' w info used := by
  induction attempts generalizing t with
  | zero =>
    obtain ⟨-, hr⟩ := exec_done h
    cases hr
  | succ attempts ih =>
    obtain ⟨t₁, outcome, hfirst, h⟩ := exec_bind h
    cases outcome with
    | ok res =>
      obtain ⟨rfl, hr⟩ := exec_done h
      cases hr
      obtain ⟨s, w, hts, hread⟩ := exec_readOnce hfirst
      exact ⟨s, u, w, res.2, hts, le_rfl, hread⟩
    | error e =>
      cases e with
      | concurrentUpdate =>
        obtain ⟨s, u', w, used, hts, hu, hread⟩ := ih h
        exact ⟨s, u', w, used, hfirst.le.trans hts, hu, hread⟩
      | noUpdate | invalidContext fault => cases (exec_done h).2

/-- `Resolve` returns the old context, one without stamp, or one with a stamp of the call's time. -/
lemma exec_resolve (hrun : IsRun base run) {t : ℕ} {mappingAddr : Address} {old : Info Attrs Thread}
    {env : Env} (hmapping : mappingAddr = 0 ∨ mappingAddr = base)
    (h : Exec (fun n => (run n).mem) t (resolve dec mappingAddr old env) u info) :
    info = old ∨ info.publishedAtNs = 0 ∨
      ∃ s, t ≤ s ∧ s ≤ u ∧ (run s).stamp ≠ 0 ∧ info.publishedAtNs = (run s).stamp := by
  unfold resolve at h
  split at h
  · split at h
    · exact .inl (exec_done h).2
    · rw [(exec_done h).2]
      exact .inr (.inl rfl)
  · next hne =>
    obtain rfl : mappingAddr = base := hmapping.resolve_left hne
    obtain ⟨t₁, outcome, hread, h⟩ := exec_bind h
    cases outcome with
    | ok res =>
      obtain ⟨rfl, rfl⟩ := exec_done h
      obtain ⟨s, u', w, used, hts, hu, hfrom⟩ := exec_readLoop hread
      obtain ⟨hstamp, p, -, hpub, hp⟩ := hfrom.fromPublication hrun
      obtain ⟨ctx, -, hinfo⟩ := hpub.decoded
      refine .inr (.inr ⟨s, hts, hfrom.le.trans hu, hstamp ▸ hfrom.ne, ?_⟩)
      rw [hinfo, hp, hstamp]
    | error e =>
      cases e with
      | noUpdate => exact .inl (exec_done h).2
      | concurrentUpdate =>
        replace h : Exec _ t₁ (if old.valid = true then _ else _) u info := h
        split at h
        · exact .inl (exec_done h).2
        · rw [(exec_done h).2]
          exact .inr (.inl rfl)
      | invalidContext fault =>
        rw [(exec_done h).2]
        exact .inr (.inl rfl)

/-- Timestamps of contexts from memory do not go down. -/
def NotBefore (later earlier : Info Attrs Thread) : Prop :=
  later.publishedAtNs ≠ 0 → earlier.publishedAtNs.toNat ≤ later.publishedAtNs.toNat

/-- What holds after every call. -/
structure Session.Good [Inhabited Attrs] (run : ℕ → Publisher) (t : ℕ) (stored : Info Attrs Thread)
    (returned : List (Info Attrs Thread)) : Prop where
  seen : ∀ r ∈ returned, r.publishedAtNs.toNat ≤ (run t).last.toNat
  storedSeen : stored.publishedAtNs.toNat ≤ (run t).last.toNat
  stored : ∀ r ∈ returned, NotBefore stored r
  order : returned.Pairwise NotBefore

lemma Session.good [Inhabited Attrs] (hrun : IsRun base run) {t : ℕ} {stored : Info Attrs Thread}
    {returned : List (Info Attrs Thread)}
    (h : Session dec (fun n => (run n).mem) base t stored returned) :
      Good run t stored returned := by
  induction h with
  | start t => exact ⟨forall_mem_nil _, Nat.zero_le _, forall_mem_nil _, .nil⟩
  | @call t t' u stored old info returned mappingAddr env hsession ht hmapping hold hexec ih =>
    have hmono : (run t).last.toNat ≤ (run u).last.toNat :=
      hrun.seqlock.last_mono (ht.trans hexec.le)
    -- whatever is returned is not before the earlier ones, and not after the last publication
    have hnew : (∀ r ∈ returned, NotBefore info r) ∧
        info.publishedAtNs.toNat ≤ (run u).last.toNat := by
      rcases exec_resolve hrun hmapping hexec with rfl | hzero | ⟨s, hts, hsu, hne, hstamp⟩
      · rcases hold with rfl | rfl
        · exact ⟨ih.stored, ih.storedSeen.trans hmono⟩
        · exact ⟨fun r _ hne => absurd rfl hne, Nat.zero_le _⟩
      · exact ⟨fun r _ hne => absurd hzero hne, by rw [hzero]; exact Nat.zero_le _⟩
      · have hpos : (run s).stamp.toNat ≠ 0 := fun hzero => hne (BitVec.eq_of_toNat_eq hzero)
        have hlast := hrun.seqlock.stamp_eq s hpos
        rw [hstamp]
        refine ⟨fun r hr _ => ?_, hrun.seqlock.stamp_le_last hsu⟩
        rw [hstamp]
        calc r.publishedAtNs.toNat ≤ (run t).last.toNat := ih.seen r hr
          _ ≤ (run s).last.toNat := hrun.seqlock.last_mono (ht.trans hts)
          _ = (run s).stamp.toNat := hlast.symm
    refine ⟨?_, hnew.2, ?_, .cons hnew.1 ih.order⟩
    · intro r hr
      rcases mem_cons.mp hr with rfl | hr
      · exact hnew.2
      · exact (ih.seen r hr).trans hmono
    · intro r hr
      rcases mem_cons.mp hr with rfl | hr
      · exact fun _ => le_rfl
      · exact hnew.1 r hr

/-! ## The result -/

/-- For every publisher that follows the protocol, a context has header and payload of one
publication and its timestamp, and the timestamps of successive calls never go down. -/
theorem processContext_coherent [Inhabited Attrs] (dec : Decoder Ctx Attrs Thread Env)
    (hrun : IsRun base run) :
    (∀ t last u info used,
      Exec (fun n => (run n).mem) t (readOnce dec base last) u (.ok (info, used)) →
        ∃ p ∈ (run u).published, FromPublication dec base p info used) ∧
    ∀ t stored returned, Session dec (fun n => (run n).mem) base t stored returned →
      returned.Pairwise NotBefore := by
  constructor
  · intro t last u info used h
    obtain ⟨s, w, -, hread⟩ := exec_readOnce h
    obtain ⟨-, p, hp, hfrom, -⟩ := hread.fromPublication hrun
    exact ⟨p, hp, hfrom⟩
  · intro t stored returned h
    exact (Session.good hrun h).order

/-! ## Freshness -/

variable {t : ℕ}

/-- A timestamp is only replaced by zero. -/
lemma Publisher.Step.stamp_eq {s s' : Publisher} (hstep : Step base s s') (h : s.stamp ≠ 0)
    (h' : s'.stamp ≠ 0) : s.stamp = s'.stamp := by
  cases hstep with
  | clear | write => exact absurd rfl h'
  | publish w hupdating => exact absurd (if_pos hupdating) h
  | other | stay => rfl

lemma IsRun.stamp_of_idle (hrun : IsRun base run) (hidle : ∀ n, t ≤ n → n ≤ u → (run n).stamp ≠ 0)
    (htu : t ≤ u) : (run t).stamp = (run u).stamp := by
  induction u, htu using Nat.le_induction with
  | base => rfl
  | succ u htu ih =>
    rw [ih fun n htn hnu => hidle n htn (by omega)]
    exact (hrun.step u).stamp_eq (hidle u htu (by omega)) (hidle (u + 1) (by omega) le_rfl)

lemma exec_readOnce_idle {r : Except ReadError (Info Attrs Thread × Used)} (hrun : IsRun base run)
    (hw : w ≠ 0) (hstamp : ∀ n, t ≤ n → n ≤ u → (run n).stamp = w)
    (h : Exec (fun n => (run n).mem) t (readOnce dec base last) u r) :
    (∃ fault, r = .error (.invalidContext fault)) ∨
      (r = .error .noUpdate ∧ w.toNat ≤ last.toNat) ∨ ∃ res, r = .ok res := by
  obtain ⟨s, first, hfirst, h⟩ := exec_bind h
  cases first with
  | none => exact .inl ⟨_, (exec_done h).2⟩
  | some w₁ =>
    have hbefore := hrun.stamp_eq (exec_readTimestamp hfirst w₁ rfl)
    obtain rfl : w = w₁ := by rw [← hbefore, hstamp s hfirst.le h.le]
    replace h : Exec _ s (if w = 0 then _ else _) u _ := h
    rw [if_neg hw] at h
    split at h
    · next hold => exact .inr (.inl ⟨(exec_done h).2, hold⟩)
    · obtain ⟨s₁, header, hheader, h⟩ := exec_bind h
      cases header with
      | error fault => exact .inl ⟨fault, (exec_done h).2⟩
      | ok header =>
        obtain ⟨s₂, payload, hpayload, h⟩ := exec_bind h
        obtain ⟨s₃, second, hsecond, h⟩ := exec_bind h
        cases second with
        | none => exact .inl ⟨_, (exec_done h).2⟩
        | some w₂ =>
          have hafter := hrun.stamp_eq (exec_readTimestamp hsecond w₂ rfl)
          have hle := ((hfirst.le.trans hheader.le).trans hpayload.le).trans hsecond.le
          obtain rfl : w = w₂ := by rw [← hafter, hstamp s₃ hle h.le]
          replace h : Exec _ s₃ (if w ≠ w then _ else _) u _ := h
          rw [if_neg (not_not.mpr rfl)] at h
          cases payload with
          | error fault => exact .inl ⟨fault, (exec_done h).2⟩
          | ok payload => exact .inr (.inr ⟨_, (exec_done h).2⟩)

/-- **Freshness.** Without an update `read` returns the last publication, unless it is not newer or
cannot be read. -/
theorem read_fresh (hrun : IsRun base run) {maxAttempts : ℕ}
    {r : Except ReadError (Info Attrs Thread)} (hidle : ∀ n, t ≤ n → n ≤ u → (run n).stamp ≠ 0)
    (h : Exec (fun n => (run n).mem) t (read dec base last maxAttempts) u r) :
    (∃ fault, r = .error (.invalidContext fault)) ∨
      (r = .error .noUpdate ∧ (run u).last.toNat ≤ last.toNat) ∨
      ∃ info, r = .ok info ∧ info.publishedAtNs = (run u).last := by
  have hne := hidle u h.le le_rfl
  have hlast : (run u).stamp = (run u).last :=
    BitVec.eq_of_toNat_eq (hrun.seqlock.stamp_eq u fun hzero => hne (BitVec.eq_of_toNat_eq hzero))
  rw [hlast] at hne
  obtain ⟨k, hk⟩ : ∃ k, (if maxAttempts = 0 then defaultMaxAttempts else maxAttempts) = k + 1 :=
    Nat.exists_eq_succ_of_ne_zero (by split <;> simp_all [defaultMaxAttempts])
  rw [read, hk] at h
  -- the first attempt decides: it does not find a concurrent update
  obtain ⟨s, outcome, hfirst, h⟩ := exec_bind h
  have hstamp : ∀ n, t ≤ n → n ≤ s → (run n).stamp = (run u).last :=
    fun n htn hns => hlast ▸
      hrun.stamp_of_idle (fun k hnk => hidle k (htn.trans hnk)) (hns.trans h.le)
  rcases exec_readOnce_idle hrun hne hstamp hfirst with ⟨fault, rfl⟩ | ⟨rfl, hold⟩ | ⟨res, rfl⟩
  · exact .inl ⟨fault, (exec_done h).2⟩
  · exact .inr (.inl ⟨(exec_done h).2, hold⟩)
  · obtain ⟨s₁, w, hts, hread⟩ := exec_readOnce hfirst
    obtain ⟨hw, p, -, hfrom, hp⟩ := hread.fromPublication hrun
    obtain ⟨ctx, -, hinfo⟩ := hfrom.decoded
    refine .inr (.inr ⟨res.1, (exec_done h).2, ?_⟩)
    rw [hinfo, hp, ← hw, hstamp s₁ hts hread.le]

end

/-- The header of a context with one byte of payload at `0x2000`. -/
def demoHeader (t : U64) : List Byte :=
  signatureOTELCTX ++ leBytes 4 2 ++ leBytes 4 1 ++ timestampBytes t ++ leBytes 8 0x2000

/-- A process that has prepared this context. -/
def demoStart : Publisher :=
  ⟨Mem.store (Mem.store (fun _ => none) 0x1000 (demoHeader 0)) 0x2000 [0x2a], [], true⟩

/-- The memory when the context is published with timestamp 7. -/
def demoMem : Mem := demoStart.mem.store (timestampAddr 0x1000) (timestampBytes 7)

def demoRun : ℕ → Publisher
  | 0 => demoStart
  | _ + 1 => ⟨demoMem, [⟨7, demoMem⟩], false⟩

def demoDecoder : Decoder (List Byte) (List Byte) Unit Unit :=
  ⟨some, id, fun _ => none, fun _ => []⟩

lemma demoRun_isRun : IsRun 0x1000 demoRun := by
  refine ⟨⟨by decide +kernel, rfl, rfl⟩, fun n => ?_⟩
  cases n with
  | zero => exact .publish _ 7 rfl (by decide) (forall_mem_nil _)
  | succ n => exact .stay _

lemma seen_of_holds {mem : ℕ → Mem} {t : ℕ} {a : Address} {bs : List Byte}
    (h : (mem t).Holds a bs) :
    Seen mem t t a bs :=
  fun i hi => ⟨t, le_rfl, le_rfl, h i hi⟩

lemma demoRun_exec : Exec (fun n => (demoRun n).mem) 0 (readOnce demoDecoder 0x1000 0) 1
    (.ok (⟨[0x2a], none, 7, true⟩, ⟨demoHeader 7, [0x2a]⟩)) := by
  have hstamp : ∀ w ∈ some (7 : U64), demoMem.Holds (timestampAddr 0x1000) (timestampBytes w) := by
    intro w hw
    cases hw
    decide +kernel
  refine .word (some 7) (Nat.zero_le 1) hstamp ?_
  refine .block (some (demoHeader 7)) le_rfl ?_ ?_
  · intro bs hbs
    cases hbs
    exact ⟨by decide +kernel, seen_of_holds (by decide +kernel)⟩
  refine .block (some [0x2a]) le_rfl ?_ ?_
  · intro bs hbs
    cases hbs
    exact ⟨by decide +kernel, seen_of_holds (by decide +kernel)⟩
  exact .word (some 7) le_rfl hstamp (.done _ _)

theorem processContext_coherent_demo :
    ∃ p ∈ (demoRun 1).published, FromPublication demoDecoder 0x1000 p ⟨[0x2a], none, 7, true⟩
      ⟨demoHeader 7, [0x2a]⟩ :=
  (processContext_coherent demoDecoder demoRun_isRun).1 0 0 1 _ _ demoRun_exec

theorem read_fresh_demo : (demoRun 1).last.toNat ≤ 7 := by
  have hexec : Exec (fun n => (demoRun n).mem) 1 (read demoDecoder 0x1000 7 0) 1
      (.error .noUpdate) := by
    refine .word (some 7) le_rfl ?_ (.done _ _)
    intro w hw
    cases hw
    decide +kernel
  have hidle : ∀ n, 1 ≤ n → n ≤ 1 → (demoRun n).stamp ≠ 0 := by
    intro n h₁ h₂
    obtain rfl : n = 1 := by omega
    decide
  rcases read_fresh demoRun_isRun hidle hexec with ⟨_, h⟩ | ⟨-, h⟩ | ⟨_, h, -⟩
  · cases h
  · exact h
  · cases h

end EbpfProfiler.ProcessContext
