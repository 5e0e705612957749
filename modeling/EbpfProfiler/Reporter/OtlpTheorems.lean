import EbpfProfiler.Reporter.OtlpSteps

/-!
# The dictionary encodes the samples

Indices lead to frames and links, first rows are empty, and equal rows are stored once.
-/

namespace EbpfProfiler.Reporter

open Lib List OrderedSet Builder

variable {b : Builder} {d d' : Dictionary} {i : Index} {views : List FrameView} {is : List Index}
  {entries : List SampleEntry} {key : String}

namespace Builder

variable {frames : Set Frame}

/-! ## Stacks and links -/

lemma addStack_grows (is : List Index) (b : Builder) : b.Grows (b.addStack is).2 := by
  unfold addStack
  rcases b.stackSet.addWithCheck_cases ⟨hashLocationIndices is⟩ with ⟨-, heq⟩ | ⟨-, set, -, heq⟩
  · rw [heq]
    exact ⟨Dictionary.Grows.rfl, prefix_append _ _⟩
  · rw [heq]
    exact ⟨{ Dictionary.Grows.rfl with stackRows := prefix_append _ _ }, prefix_append _ _⟩

lemma Good.stack_read (hgood : Good frames d b) (htable : d.stackTable = b.stackTable)
    (hhashes : NoCollision b.hashed) (hmem : is ∈ b.hashed)
    (hi : getAt b.stackSet.elems i = some ⟨hashLocationIndices is⟩)
    (hviews : is.mapM d.location = some views) : d.stack i = some views := by
  have hne : (⟨hashLocationIndices is⟩ : StackInfo) ≠ {} := by
    intro heq
    exact (hhashes is hmem).1 (congrArg StackInfo.locationIndicesHash heq)
  obtain ⟨-, row, hrow, hshows⟩ := hgood.stackRows.getAt_row hi hne
  have heq : is = row := (hhashes is hmem).2 row hshows.mem hshows.hash
  subst heq
  show (getAt d.stackTable i >>= fun is => _) = _
  rw [htable, hrow]
  exact hviews

lemma inside_of_mapM_location (h : is.mapM d.location = some views) :
    ∀ i ∈ is, Inside d.locationTable i := by
  intro i hi
  obtain ⟨view, hview⟩ := Below.exists_of_mapM h i hi
  obtain ⟨row, hrow, -⟩ := Option.bind_eq_some_iff.1 hview
  exact ⟨row, hrow⟩

lemma inside_of_attributes {kvs : List (String × AttrValue)} (h : d.attributes is = some kvs) :
    ∀ i ∈ is, Inside d.attributeTable i := by
  intro i hi
  obtain ⟨kv, hkv⟩ := Below.exists_of_mapM h i hi
  obtain ⟨row, hrow, -⟩ := Option.bind_eq_some_iff.1 hkv
  exact ⟨row, hrow⟩

lemma inside_of_lines {rows : List LineRow} {views : List LineView}
    (h : rows.mapM d.line = some views) :
    ∀ row ∈ rows, Inside d.functionTable row.functionIndex := by
  intro row hrow
  obtain ⟨view, hview⟩ := Below.exists_of_mapM h row hrow
  obtain ⟨f, hf, -⟩ := Option.bind_eq_some_iff.1 hview
  obtain ⟨entry, hentry, -⟩ := Option.bind_eq_some_iff.1 hf
  exact ⟨entry, hentry⟩

lemma addStack_step (hne : is ≠ []) (hviews : is.mapM b.dictionary.location = some views) :
    Step frames b (b.addStack is).2 fun d => d.stack (b.addStack is).1 = some views := by
  have hgrows := addStack_grows is b
  refine ⟨hgrows, fun hgood hok => ?_⟩
  have hviews' := Below.mapM hgrows.dictionary.location is _ hviews
  have hmono := hgood.mono hgrows.dictionary
  have hmem : is ∈ b.hashed ++ [is] := mem_append_right _ (mem_singleton.2 rfl)
  have hrows : Lockstep (StackShows (b.addStack is).2.dictionary (b.hashed ++ [is])) {} []
      b.stackSet b.stackTable :=
    hmono.stackRows.mono fun _ _ hs => hs.mono Dictionary.Grows.rfl (prefix_append _ _)
  unfold addStack at *
  rcases b.stackSet.addWithCheck_cases ⟨hashLocationIndices is⟩ with
    ⟨hold, heq⟩ | ⟨hnew, set, hset, heq⟩
  · rw [heq] at hok hviews' hmono hrows ⊢
    have hgood' : Good frames _ { b with hashed := b.hashed ++ [is] } :=
      { hmono with stackRows := hrows }
    refine ⟨hgood', hgood'.stack_read rfl hok.hashes hmem ?_ hviews'⟩
    exact getAt_add_of_mem hold (hrows.length_eq.trans_le hok.fits.stackRows)
  · rw [heq] at hok hviews' hmono hrows ⊢
    have hlock := hrows.append hset ⟨rfl, hmem, hne, inside_of_mapM_location hviews'⟩
    have hgood' : Good frames _ { b with
        stackSet := set, stackTable := b.stackTable ++ [is], hashed := b.hashed ++ [is] } :=
      { hmono with stackRows := hlock }
    refine ⟨hgood', hgood'.stack_read rfl hok.hashes hmem ?_ hviews'⟩
    exact getAt_add_of_notMem hnew hset (hlock.length_eq.trans_le hok.fits.stackRows)

lemma Good.link_read (hgood : Good frames d b) (htable : d.linkTable = b.linkTable)
    {info : LinkInfo} (hi : getAt b.linkSet.elems i = some info) (hne : info ≠ {}) :
    d.link i = some (some ⟨info.traceID, info.spanID⟩) ∧ Inside d.linkTable i := by
  obtain ⟨hi0, row, hrow, hshows⟩ := hgood.links.getAt_row hi hne
  rw [← htable] at hrow
  refine ⟨?_, row, hrow⟩
  rw [Dictionary.link, if_neg hi0, hrow, hshows.row_eq]
  rfl

section
variable (traceID : BitVec 128) (spanID : BitVec 64) (b : Builder)

lemma addLink_grows : b.Grows (b.addLink traceID spanID).2 := by
  unfold addLink
  split
  · rcases b.linkSet.addWithCheck_cases ⟨traceID, spanID⟩ with ⟨-, heq⟩ | ⟨-, set, -, heq⟩
    · rw [heq]
      exact Grows.rfl
    · rw [heq]
      exact ⟨{ Dictionary.Grows.rfl with links := prefix_append _ _ }, prefix_rfl⟩
  · exact Grows.rfl

lemma addLink_step : Step frames b (b.addLink traceID spanID).2 fun d =>
      d.link (b.addLink traceID spanID).1 = some (linkOf traceID spanID) ∧
        Inside d.linkTable (b.addLink traceID spanID).1 := by
  have hgrows := addLink_grows traceID spanID b
  refine ⟨hgrows, fun hgood hok => ?_⟩
  unfold addLink linkOf at *
  by_cases h : spanID ≠ 0 ∧ traceID ≠ 0
  · have hne : (⟨traceID, spanID⟩ : LinkInfo) ≠ {} := fun heq =>
      h.1 (congrArg LinkInfo.spanID heq)
    rw [if_pos h] at hok hgrows ⊢
    rw [if_pos h]
    rcases b.linkSet.addWithCheck_cases ⟨traceID, spanID⟩ with ⟨hold, heq⟩ | ⟨hnew, set, hset, heq⟩
    · rw [heq] at hok ⊢
      refine ⟨hgood, hgood.link_read rfl ?_ hne⟩
      exact getAt_add_of_mem hold (hgood.links.length_eq.trans_le hok.fits.links)
    · rw [heq] at hok hgrows ⊢
      have hlock := hgood.links.append hset ⟨rfl, hne⟩
      have hgood' : Good frames _ { b with
          linkSet := set, linkTable := b.linkTable ++ [⟨traceID, spanID⟩] } :=
        { hgood.mono hgrows.dictionary with links := hlock }
      refine ⟨hgood', hgood'.link_read rfl ?_ hne⟩
      exact getAt_add_of_notMem hnew hset (hlock.length_eq.trans_le hok.fits.links)
  · rw [if_neg h] at hok ⊢
    rw [if_neg h]
    refine ⟨hgood, rfl, ?_⟩
    obtain ⟨_, rows, -, hrows, -⟩ := hgood.links
    exact ⟨{}, by rw [show b.dictionary.linkTable = _ from hrows]; rfl⟩

end

/-! ## Samples -/

/-- The sample leads to its entry, and its indices are inside. -/
structure SampleShows (d : Dictionary) (s : Sample) (entry : SampleEntry) : Prop where
  view : d.sample s = some entry.view
  stackInside : Inside d.stackTable s.stackIndex
  linkInside : Inside d.linkTable s.linkIndex
  attributesInside : ∀ i ∈ s.attributeIndices, Inside d.attributeTable i

lemma SampleShows.mono {s : Sample} {entry : SampleEntry} (h : SampleShows d s entry)
    (hgrows : d.Grows d') : SampleShows d' s entry :=
  ⟨hgrows.sample _ _ h.view, h.stackInside.mono hgrows.stackRows, h.linkInside.mono hgrows.links,
    fun i hi => (h.attributesInside i hi).mono hgrows.attributes⟩

lemma Step.append_inside {b₁ b₂ : Builder} {is js : List Index}
    (h : Step frames b b₁ fun d => ∀ i ∈ is, Inside d.attributeTable i)
    (h' : Step frames b₁ b₂ fun d => ∀ i ∈ js, Inside d.attributeTable i) :
    Step frames b b₂ fun d => ∀ i ∈ is ++ js, Inside d.attributeTable i := by
  refine h.trans h'.grows (fun _ => h') fun d d' hgrows h h' i hi => ?_
  rcases mem_append.1 hi with hi | hi
  · exact (h i hi).mono hgrows.attributes
  · exact h' i hi

lemma appendInt_inside (hkey : key ∈ numberKeys) (value : ℤ) (b : Builder) :
    Step frames b (b.appendInt key value).2
      fun d => ∀ i ∈ (b.appendInt key value).1, Inside d.attributeTable i :=
  (appendAny_step (Written.number hkey value) b).imp fun _ h _ hi =>
    mem_singleton.1 hi ▸ h.inside

lemma sampleAttributes_step (entry : SampleEntry) (b : Builder) :
    Step frames b (b.sampleAttributes entry).2
      fun d => ∀ i ∈ (b.sampleAttributes entry).1, Inside d.attributeTable i := by
  have hlabels : ∀ pair ∈ entry.labels.map fun l => ("process.context.label." ++ l.1, l.2),
      ∀ text, Written pair.1 (.str text) := by
    intro pair hpair text
    obtain ⟨l, -, rfl⟩ := mem_map.1 hpair
    exact Written.label l.1 text
  have hname : "thread.name" ∈ textKeys := by decide
  apply Step.append_inside
  · apply Step.append_inside
    · apply Step.append_inside
      · exact (appendStrings_step hlabels b).imp fun _ h => h.inside
      · exact (appendOptionalString_step (fun text => Written.text hname text) _ _).imp
          fun _ h => h.inside
    · exact appendInt_inside (by decide) entry.tid _
  · exact appendInt_inside (by decide) entry.cpu _

lemma inside_of_stack (h : d.stack i = some views) : Inside d.stackTable i := by
  obtain ⟨row, hrow, -⟩ := Option.bind_eq_some_iff.1 h
  exact ⟨row, hrow⟩

/-- The entries of a tree that can be encoded. -/
def Proper (frames : Set Frame) (entry : SampleEntry) : Prop :=
  entry.frames ≠ [] ∧ ∀ f ∈ entry.frames, f ∈ frames ∧ f.type ≠ 0

lemma addFrames_ne_nil {trace : List Frame} (h : trace ≠ []) (b : Builder) :
    (addFrames trace b).1 ≠ [] := by
  cases trace with
  | nil => exact absurd rfl h
  | cons frame trace => exact cons_ne_nil _ _

lemma addSample_step (type : ProfileType) {entry : SampleEntry} (hentry : Proper frames entry)
    (b : Builder) : Step frames b (b.addSample type entry).2
      fun d => SampleShows d (b.addSample type entry).1 entry := by
  let link := b.addLink entry.traceID entry.spanID
  let trace := addFrames entry.frames link.2
  let stack := trace.2.addStack trace.1
  let attrs := stack.2.sampleAttributes entry
  have htrace : Step frames b trace.2 fun d =>
      (d.link link.1 = some (linkOf entry.traceID entry.spanID) ∧ Inside d.linkTable link.1) ∧
        trace.1.mapM d.location = some (entry.frames.map Frame.view) :=
    (addLink_step entry.traceID entry.spanID b).trans
      (addFrames_step hentry.2 link.2).grows (fun _ => addFrames_step hentry.2 link.2)
      fun d d' hgrows h h' => ⟨⟨hgrows.link _ _ h.1, h.2.mono hgrows.links⟩, h'⟩
  have hstack : Step frames b stack.2 fun d =>
      (d.link link.1 = some (linkOf entry.traceID entry.spanID) ∧ Inside d.linkTable link.1) ∧
        d.stack stack.1 = some (entry.frames.map Frame.view) :=
    htrace.trans (addStack_grows trace.1 trace.2)
      (fun h => addStack_step (addFrames_ne_nil hentry.1 link.2) h.2)
      fun d d' hgrows h h' => ⟨⟨hgrows.link _ _ h.1.1, h.1.2.mono hgrows.links⟩, h'⟩
  have hattrs : Step frames stack.2 attrs.2 _ := sampleAttributes_step entry stack.2
  refine hstack.trans hattrs.grows (fun _ => hattrs) fun d d' hgrows h h' => ?_
  have hviews := hgrows.stack _ _ h.2
  refine ⟨?_, inside_of_stack hviews, h.1.2.mono hgrows.links, h'⟩
  show (d'.stack stack.1 >>= fun frames => _) = _
  rw [hviews]
  show (d'.link link.1 >>= fun link => _) = _
  rw [hgrows.link _ _ h.1.1]
  rfl

lemma addSamples_step (type : ProfileType) (hentries : ∀ e ∈ entries, Proper frames e)
    (b : Builder) : Step frames b (addSamples type entries b).2
      fun d => List.Forall₂ (SampleShows d) (addSamples type entries b).1 entries := by
  induction entries generalizing b with
  | nil => exact Step.rfl fun _ => List.Forall₂.nil
  | cons entry entries ih =>
    have hrest := ih (fun e he => hentries e (mem_cons_of_mem _ he)) (b.addSample type entry).2
    exact (addSample_step type (hentries entry mem_cons_self) b).trans hrest.grows
      (fun _ => hrest) fun d d' hgrows h h' => List.Forall₂.cons (h.mono hgrows) h'

/-! ## Profiles -/

def ValueType.Inside (d : Dictionary) (v : ValueType) : Prop :=
  Reporter.Inside d.stringTable v.typeStrindex ∧ Reporter.Inside d.stringTable v.unitStrindex

lemma ValueType.Inside.mono {v : ValueType} (h : ValueType.Inside d v) (hgrows : d.Grows d') :
    ValueType.Inside d' v :=
  ⟨h.1.mono hgrows.strings, h.2.mono hgrows.strings⟩

/-- The profile shows its entries. -/
structure ProfileShows (d : Dictionary) (p : Profile) (entries : List SampleEntry) : Prop where
  periodType : ValueType.Inside d p.info.periodType
  sampleType : ValueType.Inside d p.info.sampleType
  samples : List.Forall₂ (SampleShows d) p.samples entries

lemma ProfileShows.mono {p : Profile} (h : ProfileShows d p entries) (hgrows : d.Grows d') :
    ProfileShows d' p entries :=
  ⟨h.periodType.mono hgrows, h.sampleType.mono hgrows, h.samples.imp fun _ _ hs => hs.mono hgrows⟩

lemma addValueType_step (type unit : String) (b : Builder) :
    Step frames b (b.addValueType type unit).2
      fun d => ValueType.Inside d (b.addValueType type unit).1 :=
  (addString_step type b).trans (addString_grows _ _) (fun _ => addString_step unit _)
    fun _ _ hgrows h h' => ⟨⟨type, hgrows.string _ _ h⟩, ⟨unit, h'⟩⟩

lemma Good.zero_inside (h : Good frames b.dictionary b) : Inside b.dictionary.stringTable 0 := by
  obtain ⟨rest, hrest⟩ := h.strings
  refine ⟨"", ?_⟩
  rw [show b.dictionary.stringTable = _ from hrest]
  rfl

def MetaInside (info : ProfileMeta) (d : Dictionary) : Prop :=
  ValueType.Inside d info.periodType ∧ ValueType.Inside d info.sampleType

lemma initProfileMeta_step (sampleType : SampleType) (b : Builder) :
    Step frames b (b.initProfileMeta sampleType).2
      (MetaInside (b.initProfileMeta sampleType).1) := by
  unfold initProfileMeta
  cases sampleType.period with
  | some period =>
    have htype : Step frames _ _ _ := addValueType_step sampleType.type sampleType.unit
      (b.addValueType period.type period.unit).2
    exact (addValueType_step period.type period.unit b).trans htype.grows (fun _ => htype)
      fun _ _ hgrows h h' => ⟨h.mono hgrows, h'⟩
  | none =>
    have htype : Step frames b _ _ := addValueType_step sampleType.type sampleType.unit b
    refine ⟨htype.grows, fun hgood hok => ?_⟩
    obtain ⟨hgood', hinside⟩ := htype.good hgood hok
    exact ⟨hgood', ⟨hgood'.zero_inside, hgood'.zero_inside⟩, hinside⟩

lemma forall₂_copies {samples : List Sample} (h : List.Forall₂ (SampleShows d) samples entries)
    (values : SampleEntry → List ℤ) (report : Bool) :
    List.Forall₂ (SampleShows d) ((samples.zip entries).map fun e =>
      if report then { e.1 with values := values e.2 } else e.1) entries := by
  induction h with
  | nil => exact List.Forall₂.nil
  | @cons s entry samples entries hs _ ih =>
    refine List.Forall₂.cons ?_ ih
    cases report with
    | true => exact ⟨hs.view, hs.stackInside, hs.linkInside, hs.attributesInside⟩
    | false => exact hs

lemma addCopies_grows (type : ProfileType) (entries : List SampleEntry) (samples : List Sample)
    (i : ℕ) (types : List SampleType) (b : Builder) :
    b.Grows (addCopies type entries samples i types b).2 := by
  induction types generalizing i b with
  | nil => exact Grows.rfl
  | cons sampleType types ih =>
    have hmeta : Step ∅ b _ _ := initProfileMeta_step sampleType b
    exact hmeta.grows.trans (ih (i + 1) _)

lemma addCopies_step (type : ProfileType) {samples : List Sample} (i : ℕ) (types : List SampleType)
    (hsamples : List.Forall₂ (SampleShows b.dictionary) samples entries) :
    Step frames b (addCopies type entries samples i types b).2 fun d =>
      List.Forall₂ (ProfileShows d) (addCopies type entries samples i types b).1
        (types.map fun _ => entries) := by
  induction types generalizing i b with
  | nil => exact Step.rfl fun _ => List.Forall₂.nil
  | cons sampleType types ih =>
    have hmeta : Step frames b _ _ := initProfileMeta_step sampleType b
    have hsamples' : List.Forall₂ (SampleShows (b.initProfileMeta sampleType).2.dictionary)
        samples entries := hsamples.imp fun _ _ hs => hs.mono hmeta.grows.dictionary
    have hrest := ih (i + 1) hsamples'
    refine ⟨hmeta.grows.trans hrest.grows, fun hgood hok => ?_⟩
    obtain ⟨hgood', hinside⟩ := hmeta.good hgood (hrest.grows.ok hok)
    obtain ⟨hgood'', hprofiles⟩ := hrest.good hgood' hok
    have hgrows := hrest.grows.dictionary
    refine ⟨hgood'', List.Forall₂.cons ⟨hinside.1.mono hgrows, hinside.2.mono hgrows, ?_⟩ hprofiles⟩
    exact forall₂_copies (hsamples'.imp fun _ _ hs => hs.mono hgrows)
      (fun e => sampleValues e.values i type.sampleTypes.length) type.reportValues

end Builder

/-- The entries of a type for each of its sample types, and no empty profile. -/
def profilesOf (type : ProfileType) (entries : List SampleEntry) : List (List SampleEntry) :=
  if entries.isEmpty then [] else List.replicate type.sampleTypes.length entries

def SamplesTree.profiles (tree : SamplesTree) : List (List (List SampleEntry)) :=
  (tree.filter fun types => !types.isEmpty).map fun types => types.flatMap fun t =>
    profilesOf t.1 t.2

namespace Builder

lemma addProfiles_step (type : ProfileType) (hentries : ∀ e ∈ entries, Proper frames e)
    (b : Builder) : Step frames b (b.addProfiles type entries).2 fun d =>
      List.Forall₂ (ProfileShows d) (b.addProfiles type entries).1 (profilesOf type entries) := by
  unfold addProfiles
  cases entries with
  | nil => exact Step.rfl fun _ => List.Forall₂.nil
  | cons entry entries =>
    cases htypes : type.sampleTypes with
    | nil =>
      rw [profilesOf, htypes]
      exact Step.rfl fun _ => List.Forall₂.nil
    | cons sampleType types =>
      have hexpected : profilesOf type (entry :: entries) =
          (entry :: entries) :: types.map fun _ => entry :: entries := by
        rw [profilesOf, htypes, map_const']
        rfl
      rw [hexpected]
      let info := b.initProfileMeta sampleType
      let samples := addSamples type (entry :: entries) info.2
      have hmeta : Step frames b info.2 (MetaInside info.1) := initProfileMeta_step sampleType b
      have hsamples : Step frames info.2 samples.2 fun d =>
          List.Forall₂ (SampleShows d) samples.1 (entry :: entries) :=
        addSamples_step type hentries info.2
      have hfirst : Step frames b samples.2 fun d => MetaInside info.1 d ∧
          List.Forall₂ (SampleShows d) samples.1 (entry :: entries) :=
        hmeta.trans hsamples.grows (fun _ => hsamples)
          fun _ _ hgrows h h' => ⟨⟨h.1.mono hgrows, h.2.mono hgrows⟩, h'⟩
      refine hfirst.trans (addCopies_grows type _ samples.1 1 types samples.2)
        (fun h => addCopies_step type 1 types h.2) fun d d' hgrows h h' => ?_
      exact List.Forall₂.cons ⟨h.1.1.mono hgrows, h.1.2.mono hgrows,
        h.2.imp fun _ _ hs => hs.mono hgrows⟩ h'

lemma addTypes_step {types : List (ProfileType × List SampleEntry)}
    (htypes : ∀ t ∈ types, ∀ e ∈ t.2, Proper frames e) (b : Builder) :
    Step frames b (addTypes types b).2 fun d =>
      List.Forall₂ (ProfileShows d) (addTypes types b).1
        (types.flatMap fun t => profilesOf t.1 t.2) := by
  induction types generalizing b with
  | nil => exact Step.rfl fun _ => List.Forall₂.nil
  | cons t types ih =>
    have hfirst : Step frames b _ _ := addProfiles_step t.1 (htypes t mem_cons_self) b
    have hrest := ih (fun t' ht' => htypes t' (mem_cons_of_mem _ ht')) (b.addProfiles t.1 t.2).2
    refine hfirst.trans hrest.grows (fun _ => hrest) fun d d' hgrows h h' => ?_
    exact rel_append (h.imp fun _ _ hp => hp.mono hgrows) h'

/-- The run over the tree. -/
lemma addResources_step {tree : SamplesTree}
    (htree : ∀ types ∈ tree, ∀ t ∈ types, ∀ e ∈ t.2, Proper frames e) (b : Builder) :
    Step frames b (addResources tree b).2 fun d =>
      List.Forall₂ (List.Forall₂ (ProfileShows d)) (addResources tree b).1
        (SamplesTree.profiles tree) := by
  induction tree generalizing b with
  | nil => exact Step.rfl fun _ => List.Forall₂.nil
  | cons types tree ih =>
    have hrest := ih fun types' h => htree types' (mem_cons_of_mem _ h)
    cases types with
    | nil => exact hrest b
    | cons t types =>
      have hfirst : Step frames b _ _ := addTypes_step (htree (t :: types) mem_cons_self) b
      refine hfirst.trans (hrest _).grows (fun _ => hrest _) fun d d' hgrows h h' => ?_
      exact List.Forall₂.cons (h.imp fun _ _ hp => hp.mono hgrows) h'

lemma new_good : Good frames new.dictionary new where
  strings := ⟨[], rfl⟩
  functions := ⟨[], rfl⟩
  functionStrings f hf := by
    rw [mem_singleton.1 hf]
    exact ⟨⟨"", rfl⟩, ⟨"", rfl⟩⟩
  mappings := ⟨[], [], rfl, rfl, List.Forall₂.nil⟩
  locations := ⟨[], [], rfl, rfl, List.Forall₂.nil⟩
  stackRows := ⟨[], [], rfl, rfl, List.Forall₂.nil⟩
  links := ⟨[], [], rfl, rfl, List.Forall₂.nil⟩
  attributes := ⟨[], ⟨[], rfl, List.Forall₂.nil⟩, fun _ h => absurd h not_mem_nil,
    nodup_nil, fun _ => rfl⟩

end Builder

/-! ## Rows determine what they show -/

lemma eq_of_hexDigits {k n m : ℕ} (hn : n < 16 ^ k) (hm : m < 16 ^ k)
    (h : ∀ j < k, n / 16 ^ j % 16 = m / 16 ^ j % 16) : n = m := by
  induction k generalizing n m with
  | zero => omega
  | succ k ih =>
    have hlow := h 0 (Nat.succ_pos k)
    have hhigh : n / 16 = m / 16 := by
      refine ih (by omega) (by omega) fun j hj => ?_
      have := h (j + 1) (by omega)
      rwa [Nat.pow_succ, mul_comm, ← Nat.div_div_eq_div_mul, ← Nat.div_div_eq_div_mul] at this
    omega

lemma hexDigit_inj : ∀ a < 16, ∀ b < 16, hexDigit a = hexDigit b → a = b := by
  decide

lemma fileIDString_inj {a b : BitVec 128} (h : fileIDString a = fileIDString b) : a = b := by
  have hlists := String.ofList_inj.1 h
  apply BitVec.eq_of_toNat_eq
  have hbound : (2 : ℕ) ^ 128 = 16 ^ 32 := by decide
  refine eq_of_hexDigits (k := 32) (hbound ▸ a.isLt) (hbound ▸ b.isLt) fun j hj => ?_
  have hchar := (map_inj_left.1 hlists) (31 - j) (mem_range.2 (by omega))
  rw [show 31 - (31 - j) = j by omega] at hchar
  exact hexDigit_inj _ (Nat.mod_lt _ (by decide)) _ (Nat.mod_lt _ (by decide)) hchar

lemma fileIDString_ne_empty (id : BitVec 128) : fileIDString id ≠ "" := by
  intro h
  have hlists := String.ofList_inj.1 (h.trans (String.ofList_nil).symm)
  simp at hlists

def attrText (key : String) (attrs : List (String × AttrValue)) : String :=
  ((attrs.find? fun kv => kv.1 = key).map fun kv => kv.2.text).getD ""

lemma attrText_stringAttributes_of_notMem {pairs : List (String × String)}
    (h : key ∉ pairs.map Prod.fst) : attrText key (stringAttributes pairs) = "" := by
  have hnone : (stringAttributes pairs).find? (fun kv => kv.1 = key) = none := by
    rw [find?_eq_none]
    intro kv hkv hkey
    obtain ⟨pair, hpair, rfl⟩ := mem_map.1 hkv
    exact h (of_decide_eq_true hkey ▸ mem_map_of_mem (mem_of_mem_filter hpair))
  rw [attrText, hnone]
  rfl

lemma attrText_stringAttributes {pairs : List (String × String)} {value : String}
    (hnodup : (pairs.map Prod.fst).Nodup) (hmem : (key, value) ∈ pairs) :
    attrText key (stringAttributes pairs) = value := by
  induction pairs with
  | nil => exact absurd hmem not_mem_nil
  | cons pair pairs ih =>
    rw [map_cons, nodup_cons] at hnodup
    rcases mem_cons.1 hmem with rfl | hmem
    · by_cases hvalue : value = ""
      · rw [stringAttributes, filter_cons_of_neg (by simp [hvalue]), hvalue]
        exact attrText_stringAttributes_of_notMem hnodup.1
      · rw [stringAttributes, filter_cons_of_pos (by simp [hvalue]), attrText, map_cons,
          find?_cons_of_pos (by simp)]
        rfl
    · have hne : pair.1 ≠ key := fun heq => hnodup.1 (heq ▸ mem_map_of_mem hmem)
      refine Eq.trans ?_ (ih hnodup.2 hmem)
      by_cases hvalue : pair.2 = ""
      · rw [stringAttributes, filter_cons_of_neg (by simp [hvalue])]
        rfl
      · rw [stringAttributes, filter_cons_of_pos (by simp [hvalue]), attrText, map_cons,
          find?_cons_of_neg (by simp [hne])]
        rfl

lemma attrText_mapping {file : FrameMappingFileData} {value : String}
    (hmem : (key, value) ∈ mappingAttributes file) :
    attrText key (stringAttributes (mappingAttributes file)) = value :=
  attrText_stringAttributes (by simp [mappingAttributes]) hmem

lemma FrameMappingData.view_inj {m m' : FrameMappingData} (h : m.view = m'.view) : m = m' := by
  have hattrs : stringAttributes (mappingAttributes m.file) =
      stringAttributes (mappingAttributes m'.file) := congrArg MappingView.attributes h
  have htext {key value value' : String} (h : (key, value) ∈ mappingAttributes m.file)
      (h' : (key, value') ∈ mappingAttributes m'.file) : value = value' := by
    rw [← attrText_mapping h, hattrs, attrText_mapping h']
  have hgnu : m.file.gnuBuildID = m'.file.gnuBuildID :=
    htext (mem_cons_self) (mem_cons_self)
  have hgo : m.file.goBuildID = m'.file.goBuildID :=
    htext (mem_cons_of_mem _ mem_cons_self) (mem_cons_of_mem _ mem_cons_self)
  have hid : m.file.fileID = m'.file.fileID :=
    fileIDString_inj (htext (mem_of_getLast? rfl) (mem_of_getLast? rfl))
  have hname : m.file.fileName = m'.file.fileName := congrArg MappingView.fileName h
  have hstart : m.start = m'.start := congrArg MappingView.start h
  have hend : m.end = m'.end := congrArg MappingView.limit h
  have hoffset : m.fileOffset = m'.fileOffset := congrArg MappingView.fileOffset h
  obtain ⟨⟨_, _, _, _⟩, _, _, _⟩ := m
  simp_all

namespace Builder

variable {frames : Set Frame}

lemma MappingShows.inj {a a' : Option FrameMappingData} {row : MappingRow}
    (h : MappingShows d a row) (h' : MappingShows d a' row) : a = a' := by
  obtain ⟨m, rfl, hm⟩ := h
  obtain ⟨m', rfl, hm'⟩ := h'
  rw [FrameMappingData.view_inj (Option.some.inj (hm.symm.trans hm'))]

lemma MappingShows.ne_zero {a : Option FrameMappingData} : ¬MappingShows d a {} := by
  rintro ⟨m, -, hm⟩
  obtain ⟨name, -, hrest⟩ := Option.bind_eq_some_iff.1 hm
  have hattrs : [] = stringAttributes (mappingAttributes m.file) :=
    congrArg MappingView.attributes (Option.some.inj hrest)
  have hid : attrText "process.executable.build_id.htlhash" [] = fileIDString m.file.fileID := by
    rw [hattrs]
    exact attrText_mapping (mem_of_getLast? rfl)
  exact fileIDString_ne_empty _ hid.symm

lemma LocationShows.inj {a a' : LocationInfo} {row : LocationRow} (h : LocationShows frames d a row)
    (h' : LocationShows frames d a' row) (htype : a.frameType = a'.frameType) : a = a' := by
  obtain ⟨f, -, hf⟩ := h.origin
  obtain ⟨f', -, hf'⟩ := h'.origin
  have haddress := h.address.symm.trans h'.address
  have hmapping := h.mappingIndex.symm.trans h'.mappingIndex
  have hlines := h.lines.symm.trans h'.lines
  have hplain := hf.noLine
  have hplain' := hf'.noLine
  obtain ⟨_, _, _, line, _, _, _⟩ := a
  obtain ⟨_, _, _, line', _, _, _⟩ := a'
  cases line <;> cases line' <;> simp_all [LocationInfo.lines]

lemma LocationShows.ne_zero {a : LocationInfo} : ¬LocationShows frames d a {} := by
  intro h
  have hattrs : some [] = some (typeAttributes a.frameType) := h.attributes
  cases hattrs

lemma StackShows.inj {hashed : List (List Index)} {a a' : StackInfo} {row : List Index}
    (h : StackShows d hashed a row) (h' : StackShows d hashed a' row) : a = a' := by
  have hhash := h.hash.trans h'.hash.symm
  exact congrArg StackInfo.mk hhash

lemma LinkShows.inj {a a' : LinkInfo} {row : LinkRow} (h : LinkShows a row)
    (h' : LinkShows a' row) : a = a' := by
  have heq := h.row_eq.symm.trans h'.row_eq
  obtain ⟨_, _⟩ := a
  simp_all

lemma LinkShows.ne_zero_row {a : LinkInfo} : ¬LinkShows a {} := by
  intro h
  have heq := h.row_eq
  exact h.ne_zero (by simp_all)

end Builder

/-! ## The result -/

/-- Every index in the tables is inside its table. -/
structure Dictionary.Closed (d : Dictionary) : Prop where
  functions : ∀ f ∈ d.functionTable,
    Inside d.stringTable f.nameStrindex ∧ Inside d.stringTable f.filenameStrindex
  mappings : ∀ m ∈ d.mappingTable,
    Inside d.stringTable m.filenameStrindex ∧ ∀ i ∈ m.attributeIndices, Inside d.attributeTable i
  locations : ∀ l ∈ d.locationTable, Inside d.mappingTable l.mappingIndex ∧
    (∀ line ∈ l.lines, Inside d.functionTable line.functionIndex) ∧
    ∀ i ∈ l.attributeIndices, Inside d.attributeTable i
  stackRows : ∀ is ∈ d.stackTable, ∀ i ∈ is, Inside d.locationTable i
  attributes : ∀ a ∈ d.attributeTable, Inside d.stringTable a.keyStrindex

/-- The first row of each table is empty. -/
structure Dictionary.EmptyFirst (d : Dictionary) : Prop where
  strings : d.stringTable.head? = some ""
  functions : d.functionTable.head? = some {}
  mappings : d.mappingTable.head? = some {}
  locations : d.locationTable.head? = some {}
  stackRows : d.stackTable.head? = some []
  links : d.linkTable.head? = some {}
  attributes : d.attributeTable.head? = some {}

/-- No row is stored twice; of locations, no row with the same frame type. -/
structure Dictionary.StoredOnce (d : Dictionary) (types : List (BitVec 8)) : Prop where
  strings : d.stringTable.Nodup
  functions : d.functionTable.Nodup
  mappings : d.mappingTable.Nodup
  locations : types.length = d.locationTable.length ∧ (d.locationTable.zip types).Nodup
  stackRows : d.stackTable.Nodup
  links : d.linkTable.Nodup
  attributes : d.attributeTable.Nodup

/-- Every index of a profile is inside its table. -/
structure Profile.Closed (d : Dictionary) (p : Profile) : Prop where
  periodType : Inside d.stringTable p.info.periodType.typeStrindex ∧
    Inside d.stringTable p.info.periodType.unitStrindex
  sampleType : Inside d.stringTable p.info.sampleType.typeStrindex ∧
    Inside d.stringTable p.info.sampleType.unitStrindex
  samples : ∀ s ∈ p.samples, Inside d.stackTable s.stackIndex ∧ Inside d.linkTable s.linkIndex ∧
    ∀ i ∈ s.attributeIndices, Inside d.attributeTable i

def SamplesTree.frames (tree : SamplesTree) : Set Frame :=
  { f | ∃ types ∈ tree, ∃ t ∈ types, ∃ e ∈ t.2, f ∈ e.frames }

/-- The profiles encode the samples; `types` are those of the locations. -/
structure Faithful (tree : SamplesTree) (p : Profiles) (types : List (BitVec 8)) : Prop where
  samples : List.Forall₂ (List.Forall₂ fun profile entries =>
    List.Forall₂ (fun s entry => p.dictionary.sample s = some (SampleEntry.view entry))
      profile.samples entries) p.resources (SamplesTree.profiles tree)
  profilesClosed : ∀ resource ∈ p.resources, ∀ profile ∈ resource, profile.Closed p.dictionary
  closed : p.dictionary.Closed
  emptyFirst : p.dictionary.EmptyFirst
  storedOnce : p.dictionary.StoredOnce types
  /-- A location other than the first is that of a frame with its type. -/
  locationTypes : ∀ row type, (row, type) ∈ (p.dictionary.locationTable.zip types).tail →
    ∃ f ∈ SamplesTree.frames tree, f.type = type ∧ p.dictionary.locationRow row = some f.view

namespace Builder

variable {frames : Set Frame}

lemma Good.closed (h : Good frames b.dictionary b) : b.dictionary.Closed := by
  constructor
  case functions =>
    intro f hf
    obtain ⟨info, hinfo, rfl⟩ := mem_map.1 hf
    exact h.functionStrings info hinfo
  case mappings =>
    intro row hrow
    rcases h.mappings.exists_of_mem hrow with rfl | ⟨a, m, -, hview⟩
    · exact ⟨h.zero_inside, fun i hi => absurd hi not_mem_nil⟩
    · obtain ⟨name, hname, hrest⟩ := Option.bind_eq_some_iff.1 hview
      obtain ⟨attrs, hattrs, -⟩ := Option.bind_eq_some_iff.1 hrest
      exact ⟨⟨name, hname⟩, inside_of_attributes hattrs⟩
  case locations =>
    intro row hrow
    rcases h.locations.exists_of_mem hrow with rfl | ⟨info, hshows⟩
    · obtain ⟨_, rows, -, hrows, -⟩ := h.mappings
      have hzero : getAt b.dictionary.mappingTable 0 = some {} := by
        rw [show b.dictionary.mappingTable = _ from hrows]
        rfl
      exact ⟨⟨{}, hzero⟩, fun i hi => absurd hi not_mem_nil, fun i hi => absurd hi not_mem_nil⟩
    · obtain ⟨f, -, hf⟩ := hshows.origin
      refine ⟨?_, ?_, inside_of_attributes hshows.attributes⟩
      · rw [hshows.mappingIndex]
        exact hf.mappingInside
      · rw [hshows.lines]
        exact inside_of_lines hf.lines
  case stackRows =>
    intro row hrow
    rcases h.stackRows.exists_of_mem hrow with rfl | ⟨info, hshows⟩
    · exact fun i hi => absurd hi not_mem_nil
    · exact hshows.inside
  case attributes =>
    intro row hrow
    obtain ⟨kvs, hkvs⟩ := h.attributes
    obtain ⟨rows, htable, hrows⟩ := hkvs.rows
    rw [show b.dictionary.attributeTable = _ from htable] at hrow
    rcases mem_cons.1 hrow with rfl | hrow
    · exact h.zero_inside
    · obtain ⟨kv, -, hkey, -⟩ := exists_of_mem_right hrows hrow
      exact ⟨kv.1, hkey⟩

lemma Good.emptyFirst (h : Good frames b.dictionary b) : b.dictionary.EmptyFirst := by
  obtain ⟨_, hstrings⟩ := h.strings
  obtain ⟨_, hfunctions⟩ := h.functions
  obtain ⟨_, _, -, hmappings, -⟩ := h.mappings
  obtain ⟨_, _, -, hlocations, -⟩ := h.locations
  obtain ⟨_, _, -, hstackRows, -⟩ := h.stackRows
  obtain ⟨_, _, -, hlinks, -⟩ := h.links
  obtain ⟨_, hkvs⟩ := h.attributes
  obtain ⟨_, hattributes, -⟩ := hkvs.rows
  unfold dictionary
  constructor <;> dsimp only
  case strings => rw [hstrings, head?_cons]
  case functions => rw [hfunctions, map_cons, head?_cons]
  case mappings => rw [hmappings, head?_cons]
  case locations => rw [hlocations, head?_cons]
  case stackRows => rw [hstackRows, head?_cons]
  case links => rw [hlinks, head?_cons]
  case attributes => rw [hattributes, head?_cons]

def locationTypes (b : Builder) : List (BitVec 8) := b.locationSet.elems.map LocationInfo.frameType

lemma AttributesShown.nodup_table {table : List AttributeRow} {indices : Table String Index}
    {kvs : List (String × AttrValue)} (h : AttributesShown d table indices kvs) : table.Nodup := by
  obtain ⟨rows, rfl, hrows⟩ := h.rows
  refine nodup_cons.2 ⟨fun hmem => ?_, ?_⟩
  · obtain ⟨kv, hkv, -, hvalue⟩ := exists_of_mem_right hrows hmem
    exact (h.written kv hkv).ne_empty hvalue.symm
  · refine nodup_of_forall₂ hrows (List.Nodup.of_map _ h.nodup) fun kv kv' row hs hs' => ?_
    have hkey : kv.1 = kv'.1 := Option.some.inj (hs.1.symm.trans hs'.1)
    have hvalue : kv.2 = kv'.2 := hs.2.symm.trans hs'.2
    exact Prod.ext hkey hvalue

lemma Good.storedOnce (h : Good frames b.dictionary b) :
    b.dictionary.StoredOnce b.locationTypes := by
  constructor
  case strings => exact b.stringSet.nodup_elems
  case functions =>
    refine b.funcSet.nodup_elems.map fun f f' heq => ?_
    have hname : f.nameIdx = f'.nameIdx := congrArg FunctionRow.nameStrindex heq
    have hfile : f.fileNameIdx = f'.fileNameIdx := congrArg FunctionRow.filenameStrindex heq
    exact FuncInfo.mk.injEq .. ▸ ⟨hname, hfile⟩
  case mappings =>
    exact h.mappings.nodup (fun _ => MappingShows.ne_zero) fun _ _ _ hs hs' => hs.inj hs'
  case locations =>
    refine ⟨?_, ?_⟩
    · rw [locationTypes, length_map]
      exact h.locations.length_eq
    · exact h.locations.nodup_zip LocationInfo.frameType
        (fun _ hs => absurd hs LocationShows.ne_zero) fun _ _ _ hs hs' htype => hs.inj hs' htype
  case stackRows =>
    exact h.stackRows.nodup (fun _ hs => hs.nonempty rfl) fun _ _ _ hs hs' => hs.inj hs'
  case links =>
    exact h.links.nodup (fun _ => LinkShows.ne_zero_row) fun _ _ _ hs hs' => hs.inj hs'
  case attributes =>
    obtain ⟨kvs, hkvs⟩ := h.attributes
    exact hkvs.nodup_table

lemma Good.locationTypes_shown (h : Good frames b.dictionary b) {row : LocationRow}
    {type : BitVec 8} (hmem : (row, type) ∈ (b.locationTable.zip b.locationTypes).tail) :
    ∃ f ∈ frames, f.type = type ∧ b.dictionary.locationRow row = some f.view := by
  obtain ⟨infos, rows, hinfos, hrows, hrel⟩ := h.locations
  rw [locationTypes, hinfos, hrows] at hmem
  obtain ⟨info, -, hshows, htype⟩ :=
    exists_of_mem_right (forall₂_zip hrel LocationInfo.frameType) hmem
  obtain ⟨f, hf, hinfo⟩ := hshows.origin
  refine ⟨f, hf, hinfo.type.symm.trans htype, hshows.locationRow_eq hinfo⟩

lemma generate_eq {tree : SamplesTree} (hok : (addResources tree new).2.Ok) :
    generate tree = .ok ⟨(addResources tree new).1, (addResources tree new).2.dictionary⟩ := by
  have hfunctions : (addResources tree new).2.funcSet.elems.length ≤ 2 ^ 31 := by
    have := hok.fits.functions
    rwa [dictionary, length_map] at this
  have hstrings : (addResources tree new).2.stringSet.elems.length ≤ 2 ^ 31 := hok.fits.strings
  unfold generate
  dsimp only
  rw [fill_eq hfunctions, fill_eq hstrings, map_id]
  rfl

end Builder

/-- For every map order, the profiles encode the tree, if its tables fit and no hashes collide. -/
theorem generate_faithful (tree : SamplesTree)
    (htree : ∀ types ∈ tree, ∀ t ∈ types, ∀ e ∈ t.2, e.frames ≠ [] ∧ ∀ f ∈ e.frames, f.type ≠ 0)
    (hok : (addResources tree new).2.Ok) :
    ∃ p types, generate tree = .ok p ∧ Faithful tree p types := by
  have hproper : ∀ types ∈ tree, ∀ t ∈ types, ∀ e ∈ t.2,
      Builder.Proper (SamplesTree.frames tree) e := by
    intro types htypes t ht e he
    obtain ⟨hne, hnonzero⟩ := htree types htypes t ht e he
    exact ⟨hne, fun f hf => ⟨⟨types, htypes, t, ht, e, he, hf⟩, hnonzero f hf⟩⟩
  obtain ⟨hgood, hresources⟩ :=
    (addResources_step hproper new).good new_good hok
  refine ⟨_, _, generate_eq hok, ?_, ?_, hgood.closed, hgood.emptyFirst, hgood.storedOnce,
    fun row type => hgood.locationTypes_shown⟩
  · exact hresources.imp fun _ _ hr => hr.imp fun _ _ hp => hp.samples.imp fun _ _ hs => hs.view
  · intro resource hresource profile hprofile
    obtain ⟨_, -, hprofiles⟩ := exists_of_mem_left hresources hresource
    obtain ⟨_, -, hp⟩ := exists_of_mem_left hprofiles hprofile
    refine ⟨hp.periodType, hp.sampleType, fun s hs => ?_⟩
    obtain ⟨_, -, hshows⟩ := exists_of_mem_left hp.samples hs
    exact ⟨hshows.stackInside, hshows.linkInside, hshows.attributesInside⟩

def phpFrame (type : BitVec 8) : Frame :=
  { functionName := "f", sourceFile := "a.php", type := type }

def phpTree : SamplesTree :=
  [[(⟨[⟨"samples", "count", some ⟨"cpu", "nanoseconds", 50⟩⟩], false⟩,
    [⟨"php", 7, 1, 5, 9, [("k", "v")], [phpFrame 0x2, phpFrame 0x9], [1], []⟩])]]

theorem generate_faithful_phpTree : ∃ p types, generate phpTree = .ok p ∧
    Faithful phpTree p types :=
  generate_faithful phpTree (by decide +kernel)
    ⟨⟨by decide +kernel, by decide +kernel, by decide +kernel, by decide +kernel, by decide +kernel,
      by decide +kernel, by decide +kernel⟩, by unfold NoCollision; decide +kernel⟩

/-- Frames that differ in their types only are one in the dictionary, but stored twice. -/
theorem generate_phpTree_twice :
    (phpFrame 0x2).type ≠ (phpFrame 0x9).type ∧ (phpFrame 0x2).view = (phpFrame 0x9).view ∧
      (generate phpTree).toOption.bind (fun p => p.dictionary.locationTable[1]?) =
        (generate phpTree).toOption.bind (fun p => p.dictionary.locationTable[2]?) ∧
      ((generate phpTree).toOption.bind fun p => p.dictionary.locationTable[2]?).isSome := by
  decide +kernel

end EbpfProfiler.Reporter
