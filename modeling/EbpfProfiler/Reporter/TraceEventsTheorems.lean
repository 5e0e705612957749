import EbpfProfiler.Reporter.HashedBytes
import EbpfProfiler.Reporter.TraceEvents

/-!
# Which traces share an entry of the events tree

The nested maps are read as one map, of which a call changes the entry of its own key.
-/

namespace EbpfProfiler.Reporter

open List TraceEventsTree Function Option
open Lib (Comp)

/-! ## The tree as one map -/

/-- The path to an entry of the tree. -/
structure EntryKey (E : Type) where
  resource : ResourceKey
  type : Option ℕ
  sample : SampleKey E
  deriving DecidableEq

section Entries

variable {E : Type}

/-- The entry at the end of a path. -/
def entry (tree : TraceEventsTree E) (k : EntryKey E) : Option TraceEvents :=
  k.type.bind fun ty => ((tree k.resource).bind fun rtp => rtp.events ty).bind fun samples =>
    samples k.sample

@[simp] lemma entry_empty (k : EntryKey E) : entry empty k = none := by
  rw [entry]
  cases k.type <;> rfl

lemma samples_eq_entry (tree : TraceEventsTree E) (c : Call) (ty : ℕ) (sk : SampleKey E) :
    (((resourceNode tree c).events ty).getD fun _ => none) sk =
      entry tree ⟨c.resourceKey, some ty, sk⟩ := by
  rw [entry, resourceNode]
  cases htree : tree c.resourceKey with
  | none => simp
  | some rtp => cases hty : rtp.events ty <;> simp [hty]

lemma entry_putEvents [DecidableEq E] (tree : TraceEventsTree E) (c : Call) (ty : ℕ)
    (samples : SampleKey E → Option TraceEvents) (k : EntryKey E) :
    entry (putEvents tree c ty samples) k =
      if k.resource = c.resourceKey ∧ k.type = some ty then samples k.sample else entry tree k := by
  obtain ⟨resource, type, sample⟩ := k
  cases type with
  | none => simp [entry]
  | some ty' =>
    by_cases hr : resource = c.resourceKey
    · subst hr
      by_cases ht : ty' = ty
      · subst ht
        simp [entry, putEvents]
      · -- another profile type of the same resource keeps its samples
        have hold := samples_eq_entry tree c ty' sample
        rw [if_neg (by simpa using ht), ← hold]
        simp only [entry, putEvents, bind_some, update_self, update_of_ne ht]
        cases (resourceNode tree c).events ty' <;> rfl
    · simp [entry, putEvents, hr]

end Entries

/-! ## One call -/

section Report

variable {E : Type} [DecidableEq E]
variable (xxh3 : List (BitVec 8) → BitVec 128) (labelHash : String × String → BitVec 64)
variable (extraMeta : Option (Trace → EventMeta → Option E))

/-- The path under which a call is filed. -/
def Call.key (c : Call) : EntryKey E where
  resource := c.resourceKey
  type := c.info.profileType.map (·.id)
  sample := c.sampleKey xxh3 labelHash extraMeta

/-- The entry after a call: the old one with one more event, or a new one. -/
def Call.addTo (c : Call) (values : List ℤ) : Option TraceEvents → TraceEvents
  | some events =>
    { events with timestamps := events.timestamps ++ [c.info.timestamp], values := values }
  | none =>
    { frames := c.trace.frames, labels := c.trace.customLabels,
      timestamps := [c.info.timestamp], values := values }

/-- `AppendValues` appends a number of values that does not depend on the old ones. -/
def Call.Appends (c : Call) : Prop :=
  ∀ ty, c.info.profileType = some ty → ∀ dst, (ty.appendValues dst c.info.toEventMeta).length =
    dst.length + (ty.appendValues [] c.info.toEventMeta).length

/-- The call has a profile type, and one value for each of its sample types. -/
def Call.Accepted (c : Call) : Prop :=
  ∃ ty, c.info.profileType = some ty ∧
    (ty.appendValues [] c.info.toEventMeta).length = ty.sampleTypes

lemma appendEventValues_ok_iff {ty : TypeMetadata} {c : Call} (hc : c.Appends)
    (hty : c.info.profileType = some ty) (dst : List ℤ) :
    (∃ values, appendEventValues ty dst c.info.toEventMeta = .ok values) ↔ c.Accepted := by
  have hlen := hc ty hty dst
  have haccepted : c.Accepted ↔
      (ty.appendValues [] c.info.toEventMeta).length = ty.sampleTypes := by
    rw [Call.Accepted, hty]
    simp
  rw [haccepted]
  unfold appendEventValues
  dsimp only
  split
  · exact iff_of_false (by simp) (by omega)
  · exact iff_of_true ⟨_, rfl⟩ (by omega)

/-- **Step lemma.** A failed call changes no entry, another one that of its key. -/
lemma reportTraceEvent_cases (c : Call) (tree : TraceEventsTree E) :
    (∃ e tree', (reportTraceEvent xxh3 labelHash extraMeta c).exec tree =
        (.error e, tree') ∧ (c.Appends → ¬c.Accepted) ∧ ∀ k, entry tree' k = entry tree k) ∨
    (∃ tree' values, (reportTraceEvent xxh3 labelHash extraMeta c).exec tree =
        (.ok (), tree') ∧ (c.Appends → c.Accepted) ∧ ∀ k, entry tree' k =
          if k = c.key xxh3 labelHash extraMeta then
            some (c.addTo values (entry tree k))
          else entry tree k) := by
  unfold reportTraceEvent
  cases hty : c.info.profileType with
  | none =>
    refine Or.inl ⟨_, tree, rfl, ?_, fun _ => rfl⟩
    rintro - ⟨ty, hty', -⟩
    rw [hty] at hty'
    cases hty'
  | some ty =>
    set sk := c.sampleKey xxh3 labelHash extraMeta with hsk
    set samples := (((resourceNode tree c).events ty.id).getD fun _ => none) with hsamples
    have hkey : c.key xxh3 labelHash extraMeta = ⟨c.resourceKey, some ty.id, sk⟩ := by
      rw [Call.key, hty]
      rfl
    have hold : ∀ sk, samples sk = entry tree ⟨c.resourceKey, some ty.id, sk⟩ := fun sk =>
      samples_eq_entry tree c ty.id sk
    -- the node made for the call holds what was there before
    have hkeep : ∀ k, entry (putEvents tree c ty.id samples) k = entry tree k := by
      intro k
      rw [entry_putEvents]
      split
      · next h =>
        obtain ⟨resource, type, sample⟩ := k
        obtain ⟨rfl, rfl⟩ := h
        exact hold sample
      · rfl
    have hput : ∀ e k, entry (putEvents tree c ty.id (update samples sk (some e))) k =
        if k = c.key xxh3 labelHash extraMeta then some e else entry tree k := by
      intro e k
      rw [entry_putEvents, hkey]
      obtain ⟨resource, type, sample⟩ := k
      by_cases hrt : resource = c.resourceKey ∧ type = some ty.id
      · obtain ⟨rfl, rfl⟩ := hrt
        rw [if_pos ⟨rfl, rfl⟩]
        by_cases hs : sample = sk
        · subst hs
          rw [update_self, if_pos rfl]
        · rw [update_of_ne hs, if_neg (by simpa using hs)]
          exact hold sample
      · rw [if_neg hrt, if_neg]
        rintro heq
        simp only [EntryKey.mk.injEq] at heq
        exact hrt ⟨heq.1, heq.2.1⟩
    dsimp only
    rw [Comp.exec_get_bind]
    rw [← hsamples]
    have hfound : samples sk = entry tree (c.key xxh3 labelHash extraMeta) := by
      rw [hkey]
      exact hold sk
    cases hs : samples sk
    all_goals
      rw [hs] at hfound
      dsimp only
      split
      · next err herr =>
        refine Or.inl ⟨_, _, rfl, fun hc haccepted => ?_, hkeep⟩
        obtain ⟨values, hvalues⟩ := (appendEventValues_ok_iff hc hty _).mpr haccepted
        rw [herr] at hvalues
        cases hvalues
      · next values hvalues =>
        refine Or.inr ⟨_, values, rfl,
          fun hc => (appendEventValues_ok_iff hc hty _).mp ⟨values, hvalues⟩, fun k => ?_⟩
        rw [hput]
        split
        · next h => rw [h, ← hfound, Call.addTo]
        · rfl

/-! ## All calls -/

def filedUnder (filed : List Call) (k : EntryKey E) : List Call :=
  filed.filter fun c => c.key xxh3 labelHash extraMeta = k

/-- The entry of a path has the frames and labels of its first call and all timestamps. -/
def Represents (tree : TraceEventsTree E) (filed : List Call) : Prop :=
  ∀ k, (entry tree k).map (fun e => (e.frames, e.labels, e.timestamps)) =
    match filedUnder xxh3 labelHash extraMeta filed k with
    | [] => none
    | c :: cs => some (c.trace.frames, c.trace.customLabels, (c :: cs).map (·.info.timestamp))

lemma represents_empty :
    Represents xxh3 labelHash extraMeta empty [] := by
  intro k
  rw [entry_empty]
  rfl

variable {xxh3 labelHash extraMeta}

lemma Represents.concat {tree tree' : TraceEventsTree E} {filed : List Call}
    (h : Represents xxh3 labelHash extraMeta tree filed) {c : Call} {values : List ℤ}
    (hentry : ∀ k, entry tree' k = if k = c.key xxh3 labelHash extraMeta then
      some (c.addTo values (entry tree k)) else entry tree k) :
    Represents xxh3 labelHash extraMeta tree' (filed ++ [c]) := by
  intro k
  have hk := h k
  rw [hentry, filedUnder, filter_append]
  rw [filedUnder] at hk
  by_cases hkey : k = c.key xxh3 labelHash extraMeta
  · rw [if_pos hkey, filter_singleton, decide_eq_true hkey.symm]
    cases hfiled : filed.filter fun c => c.key xxh3 labelHash extraMeta = k with
    | nil =>
      rw [hfiled, map_eq_none_iff] at hk
      rw [hk]
      rfl
    | cons c₀ cs =>
      rw [hfiled, map_eq_some_iff] at hk
      obtain ⟨e, he, heq⟩ := hk
      simp only [Prod.mk.injEq] at heq
      obtain ⟨hf, hl, hts⟩ := heq
      rw [he]
      simp [Call.addTo, hf, hl, hts]
  · rw [if_neg hkey, filter_singleton, decide_eq_false (Ne.symm hkey), hk]
    simp

/-- **Run lemma.** After any sequence of calls the tree holds the filed ones. -/
lemma reportAll_represents (cs : List Call) {tree : TraceEventsTree E} {pre : List Call}
    (h : Represents xxh3 labelHash extraMeta tree pre) :
    Represents xxh3 labelHash extraMeta (reportAll xxh3 labelHash extraMeta cs tree).1
      (pre ++ (reportAll xxh3 labelHash extraMeta cs tree).2) := by
  induction cs generalizing tree pre with
  | nil => simpa [reportAll] using h
  | cons c cs ih =>
    rcases reportTraceEvent_cases xxh3 labelHash extraMeta c tree with
      ⟨e, tree', hexec, -, hentry⟩ | ⟨tree', values, hexec, -, hentry⟩
    · rw [reportAll, hexec]
      refine ih fun k => ?_
      rw [hentry]
      exact h k
    · rw [reportAll, hexec]
      have := ih (h.concat hentry)
      simpa using this

variable (xxh3 labelHash extraMeta)

/-- The calls that are filed. -/
lemma mem_filed_iff {cs : List Call} (hcs : ∀ c ∈ cs, c.Appends) (tree : TraceEventsTree E)
    {c : Call} :
    c ∈ (reportAll xxh3 labelHash extraMeta cs tree).2 ↔ c ∈ cs ∧ c.Accepted := by
  induction cs generalizing tree with
  | nil => simp [reportAll]
  | cons c₀ cs ih =>
    obtain ⟨hc₀, hcs⟩ := forall_mem_cons.mp hcs
    rcases reportTraceEvent_cases xxh3 labelHash extraMeta c₀ tree with
      ⟨e, tree', hexec, hnot, -⟩ | ⟨tree', values, hexec, haccepted, -⟩
    · rw [reportAll, hexec, ih hcs, mem_cons, or_and_right, iff_or_self]
      rintro ⟨rfl, hc⟩
      exact absurd hc (hnot hc₀)
    · rw [reportAll, hexec, mem_cons, mem_cons, ih hcs, or_and_right]
      refine or_congr_left (iff_self_and.mpr ?_)
      rintro rfl
      exact haccepted hc₀

/-- The path of a call without its trace. -/
def Call.metaKey (c : Call) : EntryKey E :=
  let k := c.key xxh3 labelHash extraMeta
  { k with sample := { k.sample with hash := 0 } }

/-- No entry has traces with different content, and each has the content of its traces. -/
structure Separated (tree : TraceEventsTree E) (filed : List Call) : Prop where
  apart : ∀ c ∈ filed, ∀ c' ∈ filed,
    c.metaKey xxh3 labelHash extraMeta = c'.metaKey xxh3 labelHash extraMeta →
    ¬ c.trace.SameContent c'.trace →
    c.key xxh3 labelHash extraMeta ≠ c'.key xxh3 labelHash extraMeta
  content : ∀ k e, entry tree k = some e →
    e.timestamps = (filedUnder xxh3 labelHash extraMeta filed k).map (·.info.timestamp) ∧
    ∀ c ∈ filedUnder xxh3 labelHash extraMeta filed k,
      e.frames = c.trace.frames ∧ e.labels = c.trace.customLabels

/-- Calls with the same meta data and hashed bytes have the same content. -/
def HashedApart (filed : List Call) : Prop :=
  ∀ c ∈ filed, ∀ c' ∈ filed,
    c.metaKey xxh3 labelHash extraMeta = c'.metaKey xxh3 labelHash extraMeta →
    c.trace.hashInput labelHash = c'.trace.hashInput labelHash → c.trace.SameContent c'.trace

variable {xxh3 labelHash extraMeta}

omit [DecidableEq E] in
lemma key_eq_iff {c c' : Call} :
    c.key xxh3 labelHash extraMeta = c'.key xxh3 labelHash extraMeta ↔
      c.metaKey xxh3 labelHash extraMeta = c'.metaKey xxh3 labelHash extraMeta ∧
        c.trace.hash xxh3 labelHash = c'.trace.hash xxh3 labelHash := by
  simp only [Call.metaKey, Call.key, Call.sampleKey, EntryKey.mk.injEq, SampleKey.mk.injEq]
  tauto

/-- **Every filed event is counted once**, with its timestamp under its path. -/
theorem reportAll_holds_filed (cs : List Call) :
    Represents xxh3 labelHash extraMeta (reportAll xxh3 labelHash extraMeta cs empty).1
      (reportAll xxh3 labelHash extraMeta cs empty).2 := by
  simpa using reportAll_represents cs (represents_empty xxh3 labelHash extraMeta)

/-- Traces are kept apart if meta data and hashed bytes determine their content. -/
lemma separated_iff_hashedApart {tree : TraceEventsTree E} {filed : List Call}
    (hrep : Represents xxh3 labelHash extraMeta tree filed)
    (hfresh : ∀ c ∈ filed, c.trace.Fresh xxh3 labelHash)
    (hinj : Set.InjOn xxh3 {bytes | ∃ c ∈ filed, c.trace.hashInput labelHash = bytes}) :
    Separated xxh3 labelHash extraMeta tree filed ↔ HashedApart xxh3 labelHash extraMeta filed := by
  have hhash : ∀ c ∈ filed, ∀ c' ∈ filed,
      c.trace.hash xxh3 labelHash = c'.trace.hash xxh3 labelHash ↔
        c.trace.hashInput labelHash = c'.trace.hashInput labelHash := by
    intro c hc c' hc'
    rw [(hfresh c hc).hash_eq, (hfresh c' hc').hash_eq]
    exact hinj.eq_iff ⟨c, hc, rfl⟩ ⟨c', hc', rfl⟩
  constructor
  · intro hsep c hc c' hc' hmeta hbytes
    by_contra hdiff
    exact hsep.apart c hc c' hc' hmeta hdiff
      (key_eq_iff.mpr ⟨hmeta, (hhash c hc c' hc').mpr hbytes⟩)
  · intro happart
    have hcontent : ∀ c ∈ filed, ∀ c' ∈ filed,
        c.key xxh3 labelHash extraMeta = c'.key xxh3 labelHash extraMeta →
        c.trace.SameContent c'.trace := by
      intro c hc c' hc' hkey
      obtain ⟨hmeta, hh⟩ := key_eq_iff.mp hkey
      exact happart c hc c' hc' hmeta ((hhash c hc c' hc').mp hh)
    refine ⟨fun c hc c' hc' _ hdiff hkey => hdiff (hcontent c hc c' hc' hkey), ?_⟩
    intro k e he
    have hk := hrep k
    rw [he] at hk
    cases hunder : filedUnder xxh3 labelHash extraMeta filed k with
    | nil =>
      rw [hunder] at hk
      cases hk
    | cons c₀ cs₀ =>
      rw [hunder] at hk
      simp only [map_some, some.injEq, Prod.mk.injEq] at hk
      obtain ⟨hf, hl, hts⟩ := hk
      have hmem : ∀ c ∈ c₀ :: cs₀, c ∈ filed ∧ c.key xxh3 labelHash extraMeta = k := by
        intro c hc
        rw [← hunder, filedUnder, mem_filter, decide_eq_true_eq] at hc
        exact hc
      obtain ⟨hc₀, hk₀⟩ := hmem c₀ (mem_cons_self ..)
      refine ⟨hts, fun c hc => ?_⟩
      obtain ⟨hcf, hck⟩ := hmem c hc
      obtain ⟨h1, h2⟩ := hcontent c₀ hc₀ c hcf (hk₀.trans hck.symm)
      exact ⟨hf.trans h1, hl.trans h2⟩

variable (xxh3 labelHash extraMeta) in
/-- Related accepted calls with the same meta data have traces of the same content. -/
def SameWhere (cs : List Call) (related : Trace → Trace → Prop) : Prop :=
  ∀ c ∈ cs, ∀ c' ∈ cs, c.Accepted → c'.Accepted →
    c.metaKey xxh3 labelHash extraMeta = c'.metaKey xxh3 labelHash extraMeta →
    related c.trace c'.trace → c.trace.SameContent c'.trace

/-- Frames at the same addresses of the same files, and labels that alias. -/
def Trace.SameSites (labelHash : String × String → BitVec 64) (t t' : Trace) : Prop :=
  t.sites = t'.sites ∧ t.customLabels.Alias labelHash t'.customLabels

/-- **Which traces are kept apart.** If the trace hash does not collide, it is exactly those for
which any two that are accepted with the same meta data have the same content when their frames have
the same addresses and files and their labels alias, or one straddles the other. If no file ID is
another one shifted by a few bytes, only the first matters. -/
theorem reportAll_separated_iff (cs : List Call) (happends : ∀ c ∈ cs, c.Appends)
    (hfresh : ∀ c ∈ cs, c.trace.Fresh xxh3 labelHash)
    (hinj : Set.InjOn xxh3 {bytes | ∃ c ∈ cs, c.trace.hashInput labelHash = bytes}) :
    (Separated xxh3 labelHash extraMeta (reportAll xxh3 labelHash extraMeta cs empty).1
        (reportAll xxh3 labelHash extraMeta cs empty).2 ↔
      SameWhere xxh3 labelHash extraMeta cs (fun t t' => t.SameSites labelHash t' ∨
        Straddles labelHash t.sites t.customLabels t'.sites t'.customLabels)) ∧
    ((∀ c ∈ cs, ∀ c' ∈ cs, ∀ site ∈ c.trace.sites, ∀ site' ∈ c'.trace.sites,
        ¬Shifted site.1 site'.1) →
      (Separated xxh3 labelHash extraMeta (reportAll xxh3 labelHash extraMeta cs empty).1
          (reportAll xxh3 labelHash extraMeta cs empty).2 ↔
        SameWhere xxh3 labelHash extraMeta cs (Trace.SameSites labelHash))) := by
  have hrep := reportAll_represents cs (represents_empty xxh3 labelHash extraMeta)
  have hmem := @mem_filed_iff E _ xxh3 labelHash extraMeta cs happends empty
  rw [nil_append] at hrep
  have hseparated := separated_iff_hashedApart hrep (fun c hc => hfresh c (hmem.mp hc).1)
    (hinj.mono (by rintro _ ⟨c, hc, rfl⟩; exact ⟨c, (hmem.mp hc).1, rfl⟩))
  have hfirst : HashedApart xxh3 labelHash extraMeta
      (reportAll xxh3 labelHash extraMeta cs empty).2 ↔
        SameWhere xxh3 labelHash extraMeta cs (fun t t' => t.SameSites labelHash t' ∨
          Straddles labelHash t.sites t.customLabels t'.sites t'.customLabels) := by
    simp only [HashedApart, hmem, hashInput_eq_bytes, bytes_eq_iff]
    constructor
    · intro h c hc c' hc' hacc hacc' hmeta hrelated
      exact h c ⟨hc, hacc⟩ c' ⟨hc', hacc'⟩ hmeta (hrelated.imp_right .inl)
    · rintro h c ⟨hc, hacc⟩ c' ⟨hc', hacc'⟩ hmeta (hsites | hover | hover)
      · exact h c hc c' hc' hacc hacc' hmeta (.inl hsites)
      · exact h c hc c' hc' hacc hacc' hmeta (.inr hover)
      · have hsame := h c' hc' c hc hacc' hacc hmeta.symm (.inr hover)
        exact ⟨hsame.1.symm, hsame.2.symm⟩
  refine ⟨hseparated.trans hfirst, fun hshift => (hseparated.trans hfirst).trans ?_⟩
  constructor
  · intro h c hc c' hc' hacc hacc' hmeta hsites
    exact h c hc c' hc' hacc hacc' hmeta (.inl hsites)
  · rintro h c hc c' hc' hacc hacc' hmeta (hsites | hover)
    · exact h c hc c' hc' hacc hacc' hmeta hsites
    · obtain ⟨site, hsite, site', hsite', hshifted⟩ := hover.shifted
      exact absurd hshifted (hshift c hc c' hc' site hsite site' hsite')

end Report

/-! ## Two short runs -/

/-- XXH3-128 of the byte strings that the runs below hash. -/
def xxh3Sample (bytes : List (BitVec 8)) : BitVec 128 :=
  if bytes = fileIDBytes 0x00112233445566778899aabbccddeeff ++ [0x10] then
    0x56560c2520531dda542b88b6f4e16134
  else if bytes = fileIDBytes 0x00112233445566778899aabbccddeeff ++ [0x20] then
    0x34163e64c5d38d47262552e7b219a65b
  else if bytes = List.replicate 17 0 then
    0xa3d7e4cef35b1f44c2915ca0df7ad4c1
  else 0

/-- No `SampleAttrProducer` is configured. -/
def noExtraMeta : Option (Trace → EventMeta → Option Unit) := none

/-- The origin of the runs: one value for each event. -/
def samplingType : TypeMetadata := ⟨1, 1, fun dst _ => dst ++ [1]⟩

/-- A call for thread 7 of process 7. -/
def sampleCall (frames : List Frame) (timestamp : ℕ) : Call where
  trace := { customLabels := .empty, frames := frames }
  info := {
    comm := "app", executablePath := "/app", containerID := "", timestamp := timestamp,
    cpu := 0, pid := 7, tid := 7, profileType := some samplingType }

def nativeFrame (address : BitVec 64) : Frame where
  mapping := some ⟨⟨0x00112233445566778899aabbccddeeff, "app", "", ""⟩, 0, 0x1000, 0⟩
  addressOrLineno := address
  type := 3

/-- A Python frame of `pythonInstance.Symbolize`: no mapping, no address. -/
def pythonFrame (functionName : String) (line : BitVec 64) : Frame where
  functionName := functionName
  sourceFile := "app.py"
  sourceLine := line
  type := 1

/-- Two native traces that differ in an address. -/
def nativeCalls : List Call :=
  [sampleCall [nativeFrame 0x10] 100, sampleCall [nativeFrame 0x20] 200]

/-- Two Python traces that differ in function and line. -/
def pythonCalls : List Call :=
  [sampleCall [pythonFrame "parse" 10] 100, sampleCall [pythonFrame "render" 99] 200]

lemma mem_nativeCalls {c : Call} (hc : c ∈ nativeCalls) :
    c = sampleCall [nativeFrame 0x10] 100 ∨ c = sampleCall [nativeFrame 0x20] 200 := by
  simpa [nativeCalls] using hc

/-- The two native traces are kept apart. -/
theorem reportAll_separated_nativeCalls :
    Separated xxh3Sample (fun _ => 0) noExtraMeta
      (reportAll xxh3Sample (fun _ => 0) noExtraMeta nativeCalls empty).1
      (reportAll xxh3Sample (fun _ => 0) noExtraMeta nativeCalls empty).2 := by
  have happends : ∀ c ∈ nativeCalls, c.Appends := by
    intro c hc ty hty dst
    have hty' : some samplingType = some ty := by
      rcases mem_nativeCalls hc with rfl | rfl <;> exact hty
    cases hty'
    simp [samplingType]
  have hfresh : ∀ c ∈ nativeCalls, c.trace.Fresh xxh3Sample fun _ => 0 := by
    intro c hc
    rcases mem_nativeCalls hc with rfl | rfl <;> exact .inl rfl
  have hinj : Set.InjOn xxh3Sample
      {bytes | ∃ c ∈ nativeCalls, c.trace.hashInput (fun _ => 0) = bytes} := by
    have hdec : ∀ c ∈ nativeCalls, ∀ c' ∈ nativeCalls,
        xxh3Sample (c.trace.hashInput fun _ => 0) = xxh3Sample (c'.trace.hashInput fun _ => 0) →
        c.trace.hashInput (fun _ => 0) = c'.trace.hashInput fun _ => 0 := by
      decide +kernel
    rintro _ ⟨c, hc, rfl⟩ _ ⟨c', hc', rfl⟩ heq
    exact hdec c hc c' hc' heq
  have hfile : ∀ c ∈ nativeCalls, ∀ site ∈ c.trace.sites,
      site.1 = 0x00112233445566778899aabbccddeeff := by
    intro c hc site hsite
    rcases mem_nativeCalls hc with rfl | rfl <;> exact mem_singleton.mp hsite ▸ rfl
  have hshift : ∀ c ∈ nativeCalls, ∀ c' ∈ nativeCalls, ∀ site ∈ c.trace.sites,
      ∀ site' ∈ c'.trace.sites, ¬Shifted site.1 site'.1 := by
    intro c hc c' hc' site hsite site' hsite'
    rw [hfile c hc site hsite, hfile c' hc' site' hsite']
    decide +kernel
  refine ((reportAll_separated_iff nativeCalls happends hfresh hinj).2 hshift).mpr ?_
  rintro c hc c' hc' - - - ⟨hsites, -⟩
  -- the addresses differ, unless it is the same call
  rcases mem_nativeCalls hc with rfl | rfl <;> rcases mem_nativeCalls hc' with rfl | rfl
  · exact ⟨rfl, rfl⟩
  · exact absurd hsites (by decide +kernel)
  · exact absurd hsites (by decide +kernel)
  · exact ⟨rfl, rfl⟩

/-- The two Python traces share one entry, which has the frames of the first. -/
theorem reportAll_merges_pythonCalls :
    (∀ c ∈ pythonCalls, c.trace.Fresh xxh3Sample fun _ => 0) ∧
    Set.InjOn xxh3Sample {bytes | ∃ c ∈ pythonCalls, c.trace.hashInput (fun _ => 0) = bytes} ∧
    ¬ Separated xxh3Sample (fun _ => 0) noExtraMeta
      (reportAll xxh3Sample (fun _ => 0) noExtraMeta pythonCalls empty).1
      (reportAll xxh3Sample (fun _ => 0) noExtraMeta pythonCalls empty).2 := by
  have hbytes : ∀ c ∈ pythonCalls, c.trace.hashInput (fun _ => 0) = replicate 17 0 := by
    decide +kernel
  refine ⟨?_, ?_, ?_⟩
  · intro c hc
    left
    simp only [pythonCalls, mem_cons, not_mem_nil, or_false] at hc
    rcases hc with rfl | rfl <;> rfl
  · rintro _ ⟨c, hc, rfl⟩ _ ⟨c', hc', rfl⟩ -
    rw [hbytes c hc, hbytes c' hc']
  · intro hsep
    have hkey : (sampleCall [pythonFrame "parse" 10] 100).key xxh3Sample (fun _ => 0) noExtraMeta =
        (sampleCall [pythonFrame "render" 99] 200).key xxh3Sample (fun _ => 0) noExtraMeta := by
      decide +kernel
    refine hsep.apart _ (mem_cons_self ..) _ (mem_cons_of_mem _ (mem_cons_self ..))
      (key_eq_iff.mp hkey).1 ?_ hkey
    rintro ⟨hframes, -⟩
    exact absurd hframes (by decide)

end EbpfProfiler.Reporter
