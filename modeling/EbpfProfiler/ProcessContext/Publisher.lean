import EbpfProfiler.Lib.Bytes
import EbpfProfiler.Lib.Seqlock

/-!
# The publisher of a process context

An update stores a zero timestamp, rewrites header and payload in any order, and stores a new
timestamp; every run is a sequence lock (`IsRun.seqlock`).
-/

namespace EbpfProfiler.ProcessContext

open Lib List Function

abbrev U64 := BitVec 64

abbrev Address := BitVec 64

/-! ## Memory -/

/-- The memory of a process; `none` where nothing is mapped. -/
abbrev Mem := Address → Option Byte

/-- The address is one of the `n` from `a` on. -/
def Within (a : Address) (n : ℕ) (x : Address) : Prop := (x - a).toNat < n

/-- The bytes `bs` stand at `a`. -/
def Mem.Holds (m : Mem) (a : Address) (bs : List Byte) : Prop :=
  ∀ i < bs.length, m (a + BitVec.ofNat 64 i) = bs[i]?

instance (m : Mem) (a : Address) (bs : List Byte) : Decidable (m.Holds a bs) :=
  inferInstanceAs (Decidable (∀ i < bs.length, m (a + BitVec.ofNat 64 i) = bs[i]?))

def Mem.store (m : Mem) (a : Address) (bs : List Byte) : Mem :=
  fun x => if (x - a).toNat < bs.length then bs[(x - a).toNat]? else m x

variable {a : Address} {bs : List Byte} {m m' : Mem} {t : U64} {i : ℕ}

lemma toNat_add_sub {n : ℕ} (hi : i < n) (hn : n ≤ 2 ^ 64) :
    (a + BitVec.ofNat 64 i - a).toNat = i := by
  rw [add_comm, BitVec.add_sub_cancel, BitVec.toNat_ofNat, Nat.mod_eq_of_lt (by omega)]

lemma within_add {n : ℕ} (hi : i < n) (hn : n ≤ 2 ^ 64) : Within a n (a + BitVec.ofNat 64 i) := by
  rw [Within, toNat_add_sub hi hn]
  exact hi

lemma Mem.holds_store (m : Mem) (a : Address) (hlen : bs.length ≤ 2 ^ 64) :
    (m.store a bs).Holds a bs := by
  intro i hi
  rw [Mem.store, toNat_add_sub hi hlen, if_pos hi]

lemma Mem.Holds.congr (h : m.Holds a bs)
    (hsame : ∀ i < bs.length, m' (a + BitVec.ofNat 64 i) = m (a + BitVec.ofNat 64 i)) :
    m'.Holds a bs := by
  intro i hi
  rw [hsame i hi, h i hi]

lemma Mem.Holds.unique {bs' : List Byte} (h : m.Holds a bs) (h' : m.Holds a bs')
    (hlen : bs.length = bs'.length) : bs = bs' := by
  apply ext_getElem?
  intro i
  by_cases hi : i < bs.length
  · rw [← h i hi, ← h' i (by omega)]
  · rw [getElem?_eq_none (by omega), getElem?_eq_none (by omega)]

/-! ## The header -/

/-- The header of a context. -/
structure Header where
  signature : List Byte
  version : ℕ
  payloadSize : ℕ
  monotonicPublishedAtNs : U64
  payloadPtr : Address

def headerSize : ℕ := 32

/-- The header that some bytes stand for. -/
def Header.ofBytes (bs : List Byte) : Header where
  signature := slice bs 0 8
  version := leNat (slice bs 8 12)
  payloadSize := leNat (slice bs 12 16)
  monotonicPublishedAtNs := BitVec.ofNat 64 (leNat (slice bs 16 24))
  payloadPtr := BitVec.ofNat 64 (leNat (slice bs 24 32))

/-- The address of the timestamp of the header at `base`. -/
def timestampAddr (base : Address) : Address := base + 16

def timestampBytes (t : U64) : List Byte := leBytes 8 t.toNat

lemma leNat_timestampBytes (t : U64) : leNat (timestampBytes t) = t.toNat := by
  rw [timestampBytes, leNat_leBytes]
  exact Nat.mod_eq_of_lt t.isLt

lemma timestampBytes_injective {t' : U64} (h : timestampBytes t = timestampBytes t') : t = t' := by
  have hnat := congrArg leNat h
  rw [leNat_timestampBytes, leNat_timestampBytes] at hnat
  exact BitVec.eq_of_toNat_eq hnat

def InPayload (base : Address) (m : Mem) (a : Address) : Prop :=
  ∃ bs, bs.length = headerSize ∧ m.Holds base bs ∧
    Within (Header.ofBytes bs).payloadPtr (Header.ofBytes bs).payloadSize a

/-! ## Updates -/

/-- A timestamp and its memory. -/
structure Publication where
  timestamp : U64
  mem : Mem

/-- A process that publishes its context. -/
structure Publisher where
  mem : Mem
  /-- The completed publications, the last one first. -/
  published : List Publication
  updating : Bool

/-- One store of the process. -/
inductive Publisher.Step (base : Address) : Publisher → Publisher → Prop where
  /-- An update begins. -/
  | clear (s : Publisher) :
      Step base s ⟨s.mem.store (timestampAddr base) (timestampBytes 0), s.published, true⟩
  /-- During an update everything but the timestamp may be changed. -/
  | write (s : Publisher) (a : Address) (v : Option Byte) (hupdating : s.updating = true)
      (ha : ¬ Within (timestampAddr base) 8 a) :
      Step base s ⟨update s.mem a v, s.published, true⟩
  /-- The update ends with a new timestamp. -/
  | publish (s : Publisher) (t : U64) (hupdating : s.updating = true) (hpos : t ≠ 0)
      (hnew : ∀ p ∈ s.published, p.timestamp.toNat < t.toNat) :
      Step base s ⟨s.mem.store (timestampAddr base) (timestampBytes t),
        ⟨t, s.mem.store (timestampAddr base) (timestampBytes t)⟩ :: s.published, false⟩
  /-- A store that has nothing to do with the context. -/
  | other (s : Publisher) (a : Address) (v : Option Byte) (hheader : ¬ Within base headerSize a)
      (hpayload : ¬ InPayload base s.mem a) :
      Step base s ⟨update s.mem a v, s.published, s.updating⟩
  | stay (s : Publisher) : Step base s s

def Publisher.Fresh (base : Address) (s : Publisher) : Prop :=
  s.mem.Holds (timestampAddr base) (timestampBytes 0) ∧ s.published = [] ∧ s.updating = true

/-- A run from a fresh publisher. -/
structure IsRun (base : Address) (run : ℕ → Publisher) : Prop where
  start : (run 0).Fresh base
  step : ∀ n, Publisher.Step base (run n) (run (n + 1))

variable {s s' : Publisher}

/-! ## The stamp of a publisher -/

def Publisher.last (s : Publisher) : U64 := (s.published.head?.map (·.timestamp)).getD 0

/-- The timestamp in memory. -/
def Publisher.stamp (s : Publisher) : U64 := if s.updating then 0 else s.last

/-- The header and its payload are the same. -/
structure Keeps (base : Address) (m m' : Mem) : Prop where
  header : ∀ a, Within base headerSize a → m' a = m a
  payload : ∀ a, InPayload base m a → m' a = m a

section
variable {base : Address}

lemma Keeps.refl (m : Mem) : Keeps base m m := ⟨fun _ _ => rfl, fun _ _ => rfl⟩

lemma Keeps.holds_header (h : Keeps base m m') (hlen : bs.length = headerSize)
    (hbs : m.Holds base bs) : m'.Holds base bs := by
  apply hbs.congr
  intro i hi
  exact h.header _ (within_add (hlen ▸ hi) (by decide))

lemma Keeps.trans {m'' : Mem} (h : Keeps base m m') (h' : Keeps base m' m'') :
    Keeps base m m'' := by
  constructor
  · intro a ha
    rw [h'.header a ha, h.header a ha]
  · intro a ha
    obtain ⟨bs, hlen, hbs, hwithin⟩ := ha
    rw [h'.payload a ⟨bs, hlen, h.holds_header hlen hbs, hwithin⟩,
      h.payload a ⟨bs, hlen, hbs, hwithin⟩]

lemma Keeps.update (v : Option Byte) (hheader : ¬ Within base headerSize a)
    (hpayload : ¬ InPayload base m a) : Keeps base m (update m a v) := by
  constructor
  · intro x hx
    apply update_of_ne
    rintro rfl
    exact hheader hx
  · intro x hx
    apply update_of_ne
    rintro rfl
    exact hpayload hx

lemma timestampAddr_add (base : Address) (i : ℕ) :
    timestampAddr base + BitVec.ofNat 64 i = base + BitVec.ofNat 64 (16 + i) := by
  rw [timestampAddr, add_assoc, BitVec.ofNat_add]
  rfl

lemma within_header_of_timestamp (h : Within (timestampAddr base) 8 a) :
    Within base headerSize a := by
  unfold Within timestampAddr headerSize at *
  bv_omega

/-! ## The invariant -/

/-- What holds of every state of a run. -/
structure Publisher.Good (base : Address) (s : Publisher) : Prop where
  stamp : s.mem.Holds (timestampAddr base) (timestampBytes s.stamp)
  keeps : s.updating = false → ∃ p rest, s.published = p :: rest ∧ Keeps base p.mem s.mem

lemma length_timestampBytes (t : U64) : (timestampBytes t).length = 8 := length_leBytes 8 _

lemma Publisher.Fresh.good (h : s.Fresh base) : s.Good base := by
  obtain ⟨hstamp, -, hupdating⟩ := h
  constructor
  · rw [Publisher.stamp, if_pos hupdating]
    exact hstamp
  · intro hidle
    rw [hupdating] at hidle
    cases hidle

lemma Mem.Holds.update_timestamp (h : m.Holds (timestampAddr base) (timestampBytes t))
    (ha : ¬ Within (timestampAddr base) 8 a) (v : Option Byte) :
    Mem.Holds (update m a v) (timestampAddr base) (timestampBytes t) := by
  apply h.congr
  intro i hi
  apply update_of_ne
  intro heq
  exact ha (heq ▸ within_add hi (by decide))

lemma Publisher.Step.good (hstep : Step base s s') (h : s.Good base) : s'.Good base := by
  have hsize : ∀ t, (timestampBytes t).length ≤ 2 ^ 64 := by
    intro t
    rw [length_timestampBytes]
    decide
  cases hstep with
  | clear => exact ⟨Mem.holds_store _ _ (hsize 0), fun hidle => by cases hidle⟩
  | write a v hupdating ha =>
    refine ⟨?_, fun hidle => by cases hidle⟩
    have hstamp := h.stamp
    rw [Publisher.stamp, if_pos hupdating] at hstamp
    exact hstamp.update_timestamp ha v
  | publish t hupdating hpos hnew =>
    exact ⟨Mem.holds_store _ _ (hsize t), fun _ => ⟨_, _, rfl, Keeps.refl _⟩⟩
  | other a v hheader hpayload =>
    have ha : ¬ Within (timestampAddr base) 8 a := fun h => hheader (within_header_of_timestamp h)
    refine ⟨h.stamp.update_timestamp ha v, fun hidle => ?_⟩
    obtain ⟨p, rest, hpublished, hkeeps⟩ := h.keeps hidle
    exact ⟨p, rest, hpublished, hkeeps.trans (.update v hheader hpayload)⟩
  | stay => exact h

lemma IsRun.good {run : ℕ → Publisher} (hrun : IsRun base run) (n : ℕ) : (run n).Good base := by
  induction n with
  | zero => exact hrun.start.good
  | succ n ih => exact (hrun.step n).good ih

/-! ## Runs are sequence locks -/

lemma Publisher.last_lt (hpos : t ≠ 0) (hnew : ∀ p ∈ s.published, p.timestamp.toNat < t.toNat) :
    s.last.toNat < t.toNat := by
  unfold Publisher.last
  cases hpublished : s.published with
  | nil =>
    have ht : t.toNat ≠ 0 := fun h => hpos (BitVec.eq_of_toNat_eq h)
    exact Nat.pos_of_ne_zero ht
  | cons p rest =>
    apply hnew
    rw [hpublished]
    exact mem_cons_self

lemma Publisher.Step.stamp (hstep : Step base s s') :
    s'.stamp = 0 ∨ (s'.stamp = s.stamp ∧ Keeps base s.mem s'.mem) ∨
    s.last.toNat < s'.stamp.toNat := by
  cases hstep with
  | clear | write => exact .inl rfl
  | publish t hupdating hpos hnew => exact .inr (.inr (last_lt hpos hnew))
  | other a v hheader hpayload => exact .inr (.inl ⟨rfl, .update v hheader hpayload⟩)
  | stay => exact .inr (.inl ⟨rfl, .refl _⟩)

lemma Publisher.Step.published (hstep : Step base s s') :
    s.published <:+ s'.published ∧ s.last.toNat ≤ s'.last.toNat := by
  cases hstep with
  | publish t hupdating hpos hnew => exact ⟨suffix_cons _ _, le_of_lt (last_lt hpos hnew)⟩
  | clear | write | other | stay => exact ⟨suffix_refl _, le_rfl⟩

variable {run : ℕ → Publisher}

lemma IsRun.published_suffix (hrun : IsRun base run) {j : ℕ} (hij : i ≤ j) :
    (run i).published <:+ (run j).published := by
  induction j, hij using Nat.le_induction with
  | base => exact suffix_refl _
  | succ j hij ih => exact ih.trans (hrun.step j).published.1

lemma IsRun.seqlock (hrun : IsRun base run) :
    Seqlock (fun s : Publisher => s.stamp.toNat) (fun s => s.last.toNat)
      (fun s s' => Keeps base s.mem s'.mem) run where
  refl := fun s => .refl s.mem
  trans := fun h h' => h.trans h'
  step := by
    intro n
    rcases (hrun.step n).stamp with hzero | ⟨hsame, hkeeps⟩ | hnew
    · exact .inl (by rw [hzero]; rfl)
    · exact .inr (.inl ⟨by rw [hsame], hkeeps⟩)
    · exact .inr (.inr hnew)
  last_le := fun n => (hrun.step n).published.2
  stamp_eq := by
    intro n hne
    unfold Publisher.stamp at hne ⊢
    split at hne
    · exact absurd rfl hne
    · next hidle => rw [if_neg hidle]

end

end EbpfProfiler.ProcessContext
