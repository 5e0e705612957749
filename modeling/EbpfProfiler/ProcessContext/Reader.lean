import EbpfProfiler.ProcessContext.Publisher

/-!
# Reading a process context

`readOnce`, `read` and `Resolve` (`processcontext.go`) as trees of reads, each byte of which is read
at a time of its own.
-/

namespace EbpfProfiler.ProcessContext

open Lib

/-! ## Reads of a running process -/

/-- A computation that reads the memory of another process. A read may fail. -/
inductive Prog (α : Type) where
  | done (a : α)
  | word (addr : Address) (next : Option U64 → Prog α)
  | block (addr : Address) (n : ℕ) (next : Option (List Byte) → Prog α)

namespace Prog

variable {α β : Type}

def bind : Prog α → (α → Prog β) → Prog β
  | done a, f => f a
  | word addr next, f => word addr fun v => (next v).bind f
  | block addr n next, f => block addr n fun v => (next v).bind f

instance : Monad Prog where
  pure := done
  bind := bind

end Prog

/-- Each of the bytes `bs` stood at its place behind `a` at some time from `t` to `u`. -/
def Seen (mem : ℕ → Mem) (t u : ℕ) (a : Address) (bs : List Byte) : Prop :=
  ∀ i < bs.length, ∃ s, t ≤ s ∧ s ≤ u ∧ mem s (a + BitVec.ofNat 64 i) = bs[i]?

/-- A run of a computation from time `t` to time `u` with its result. -/
inductive Exec {α : Type} (mem : ℕ → Mem) : ℕ → Prog α → ℕ → α → Prop where
  | done (t : ℕ) (a : α) : Exec mem t (.done a) t a
  | word {t t' u : ℕ} {addr : Address} {next : Option U64 → Prog α}
      {r : α} (v : Option U64) (ht : t ≤ t')
      (hv : ∀ w ∈ v, (mem t').Holds addr (timestampBytes w)) (h : Exec mem t' (next v) u r) :
      Exec mem t (.word addr next) u r
  | block {t t' u n : ℕ} {addr : Address} {next : Option (List Byte) → Prog α} {r : α}
      (v : Option (List Byte)) (ht : t ≤ t') (hv : ∀ bs ∈ v, bs.length = n ∧ Seen mem t t' addr bs)
      (h : Exec mem t' (next v) u r) : Exec mem t (.block addr n next) u r

/-! ## Contexts -/

/-- What is computed from the bytes of a payload and from environment variables. -/
structure Decoder (Ctx Attrs Thread Env : Type) where
  /-- `proto.Unmarshal`. -/
  unmarshal : List Byte → Option Ctx
  /-- `newAttributeSet` of the converted resource attributes. -/
  resourceAttrs : Ctx → Attrs
  /-- `readThreadContextInfo`; with an error there is none. -/
  threadCtx : Ctx → Option Thread
  /-- `attributesFromEnvVars`. -/
  attributesFromEnvVars : Env → Attrs

/-- What a read returns. -/
structure Info (Attrs Thread : Type) where
  resourceAttrs : Attrs
  threadCtx : Option Thread
  publishedAtNs : U64
  valid : Bool

instance {Attrs Thread : Type} [Inhabited Attrs] : Inhabited (Info Attrs Thread) :=
  ⟨default, none, 0, false⟩

/-- The bytes that a context was read from. -/
structure Used where
  header : List Byte
  payload : List Byte

/-! ## Errors -/

/-- What is wrong with a context. -/
inductive Fault where
  | timestamp
  | header
  | signature (got : List Byte)
  | version (got : ℕ)
  | payloadSize (got : ℕ)
  | payload
  | unmarshal

/-- Why a read returns nothing. -/
inductive ReadError where
  | invalidContext (fault : Fault)
  | concurrentUpdate
  | noUpdate

/-! ## The reader -/

def signatureOTELCTX : List Byte := [0x4f, 0x54, 0x45, 0x4c, 0x5f, 0x43, 0x54, 0x58]

def supportedVersion : ℕ := 2

def maxPayloadSize : ℕ := 65536

def defaultMaxAttempts : ℕ := 3

def readTimestamp (headerAddr : Address) : Prog (Option U64) :=
  .word (timestampAddr headerAddr) .done

/-- The checks of `readHeader`. -/
def checkHeader (hdr : Header) : Option Fault :=
  if hdr.signature ≠ signatureOTELCTX then some (.signature hdr.signature)
  else if hdr.version ≠ supportedVersion then some (.version hdr.version)
  else if hdr.payloadSize = 0 ∨
    maxPayloadSize < hdr.payloadSize then some (.payloadSize hdr.payloadSize)
  else none

/-- `readHeader`; the result is the header as bytes. -/
def readHeader (headerAddr : Address) : Prog (Except Fault (List Byte)) :=
  .block headerAddr headerSize fun
    | none => .done (.error .header)
    | some bs =>
      match checkHeader (Header.ofBytes bs) with
      | some fault => .done (.error fault)
      | none => .done (.ok bs)

section
variable {Ctx Attrs Thread Env : Type} (dec : Decoder Ctx Attrs Thread Env)

/-- `readPayload`; the result has the bytes beside the context. -/
def readPayload (hdr : Header) : Prog (Except Fault (List Byte × Ctx)) :=
  .block hdr.payloadPtr hdr.payloadSize fun
    | none => .done (.error .payload)
    | some bs =>
      match dec.unmarshal bs with
      | none => .done (.error .unmarshal)
      | some ctx => .done (.ok (bs, ctx))

/-- `readOnce`; the result has the bytes beside the context. -/
def readOnce (mappingAddr : Address) (lastPublishedAtNs : U64) :
    Prog (Except ReadError (Info Attrs Thread × Used)) := do
  match ← readTimestamp mappingAddr with
  | none => return .error (.invalidContext .timestamp)
  | some monotonicPublishedAtNs =>
    if monotonicPublishedAtNs = 0 then return .error .concurrentUpdate
    else if monotonicPublishedAtNs.toNat ≤ lastPublishedAtNs.toNat then return .error .noUpdate
    else
      match ← readHeader mappingAddr with
      | .error fault => return .error (.invalidContext fault)
      | .ok header =>
        let hdr := Header.ofBytes header
        -- an error of the payload counts only once the timestamp was found unchanged
        let ctx ← readPayload dec hdr
        match ← readTimestamp mappingAddr with
        | none => return .error (.invalidContext .timestamp)
        | some monotonicPublishedAtNs2 =>
          if monotonicPublishedAtNs ≠ monotonicPublishedAtNs2 then return .error .concurrentUpdate
          else
            match ctx with
            | .error fault => return .error (.invalidContext fault)
            | .ok (payload, ctx) =>
              return .ok (⟨dec.resourceAttrs ctx, dec.threadCtx ctx,
                hdr.monotonicPublishedAtNs, true⟩, ⟨header, payload⟩)

/-- The loop of `read`. -/
def readLoop (addr : Address) (lastPublishedAtNs : U64) :
    ℕ → Prog (Except ReadError (Info Attrs Thread))
  | 0 => return .error .concurrentUpdate
  | attempts + 1 => do
    match ← readOnce dec addr lastPublishedAtNs with
    | .ok res => return .ok res.1
    | .error .concurrentUpdate => readLoop addr lastPublishedAtNs attempts
    | .error e => return .error e

def read (addr : Address) (lastPublishedAtNs : U64) (maxAttempts : ℕ) :
    Prog (Except ReadError (Info Attrs Thread)) :=
  readLoop dec addr lastPublishedAtNs (if maxAttempts = 0 then defaultMaxAttempts else maxAttempts)

def fromEnv (env : Env) : Info Attrs Thread := ⟨dec.attributesFromEnvVars env, none, 0, true⟩

def resolve (mappingAddr : Address) (old : Info Attrs Thread) (env : Env) :
    Prog (Info Attrs Thread) :=
  if mappingAddr = 0 then
    if old.valid ∧ old.publishedAtNs = 0 then return old else return fromEnv dec env
  else do
    match ← read dec mappingAddr old.publishedAtNs 0 with
    | .ok info => return info
    | .error .noUpdate => return old
    | .error .concurrentUpdate => if old.valid then return old else return fromEnv dec env
    | .error (.invalidContext _) => return fromEnv dec env

/-- Successive calls of `Resolve`: the time, the stored context, and those returned. After an exec,
the zero context is handed on. -/
inductive Session [Inhabited Attrs] (mem : ℕ → Mem) (base : Address) :
    ℕ → Info Attrs Thread → List (Info Attrs Thread) → Prop where
  | start (t : ℕ) : Session mem base t default []
  | call {t t' u : ℕ} {stored old info : Info Attrs Thread} {returned : List (Info Attrs Thread)}
      (mappingAddr : Address) (env : Env) (h : Session mem base t stored returned) (ht : t ≤ t')
      (hmapping : mappingAddr = 0 ∨ mappingAddr = base) (hold : old = stored ∨ old = default)
      (hexec : Exec mem t' (resolve dec mappingAddr old env) u info) :
      Session mem base u info (info :: returned)

end

/-! ## Runs of the parts -/

section
variable {α β : Type} {mem : ℕ → Mem} {t u : ℕ}

lemma exec_done {a r : α} (h : Exec mem t (.done a) u r) : u = t ∧ r = a := by
  cases h
  exact ⟨rfl, rfl⟩

lemma exec_bind {p : Prog α} {f : α → Prog β} {r : β} (h : Exec mem t (p >>= f) u r) :
    ∃ v a, Exec mem t p v a ∧ Exec mem v (f a) u r := by
  induction p generalizing t with
  | done a => exact ⟨t, a, .done t a, h⟩
  | word addr next ih =>
    cases h with
    | word v ht hv h =>
      obtain ⟨s, a, hfirst, hsecond⟩ := ih v h
      exact ⟨s, a, .word v ht hv hfirst, hsecond⟩
  | block addr n next ih =>
    cases h with
    | block v ht hv h =>
      obtain ⟨s, a, hfirst, hsecond⟩ := ih v h
      exact ⟨s, a, .block v ht hv hfirst, hsecond⟩

lemma Exec.le {p : Prog α} {r : α} (h : Exec mem t p u r) : t ≤ u := by
  induction h with
  | done => exact le_rfl
  | word v ht hv h ih => exact ht.trans ih
  | block v ht hv h ih => exact ht.trans ih

lemma exec_readTimestamp {addr : Address} {v : Option U64}
    (h : Exec mem t (readTimestamp addr) u v) :
    ∀ w ∈ v, (mem u).Holds (timestampAddr addr) (timestampBytes w) := by
  cases h with
  | word v ht hv h =>
    obtain ⟨rfl, rfl⟩ := exec_done h
    exact hv

lemma exec_readHeader {addr : Address} {bs : List Byte}
    (h : Exec mem t (readHeader addr) u (.ok bs)) :
    bs.length = headerSize ∧ Seen mem t u addr bs ∧ (Header.ofBytes bs).payloadSize ≤
      maxPayloadSize := by
  cases h with
  | block v ht hv h =>
    cases v with
    | none =>
      obtain ⟨-, hr⟩ := exec_done h
      cases hr
    | some bs' =>
      obtain ⟨hlen, hseen⟩ := hv bs' rfl
      cases hcheck : checkHeader (Header.ofBytes bs') with
      | some fault =>
        simp only [hcheck] at h
        obtain ⟨-, hr⟩ := exec_done h
        cases hr
      | none =>
        simp only [hcheck] at h
        obtain ⟨rfl, hr⟩ := exec_done h
        cases hr
        refine ⟨hlen, hseen, ?_⟩
        unfold checkHeader at hcheck
        split at hcheck
        · cases hcheck
        · split at hcheck
          · cases hcheck
          · split at hcheck
            · cases hcheck
            · omega

lemma exec_readPayload {Ctx Attrs Thread Env : Type} {dec : Decoder Ctx Attrs Thread Env}
    {hdr : Header} {bs : List Byte} {ctx : Ctx}
    (h : Exec mem t (readPayload dec hdr) u (.ok (bs, ctx))) :
    bs.length = hdr.payloadSize ∧ Seen mem t u hdr.payloadPtr bs ∧ dec.unmarshal bs = some ctx := by
  cases h with
  | block v ht hv h =>
    cases v with
    | none =>
      obtain ⟨-, hr⟩ := exec_done h
      cases hr
    | some bs' =>
      obtain ⟨hlen, hseen⟩ := hv bs' rfl
      cases hunmarshal : dec.unmarshal bs' with
      | none =>
        simp only [hunmarshal] at h
        obtain ⟨-, hr⟩ := exec_done h
        cases hr
      | some ctx' =>
        simp only [hunmarshal] at h
        obtain ⟨rfl, hr⟩ := exec_done h
        cases hr
        exact ⟨hlen, hseen, hunmarshal⟩

end

end EbpfProfiler.ProcessContext
