import EbpfProfiler.Lib.Bytes

/-!
# Rate limits of PID events

`pid_event_ratelimit` and `report_pid` (`support/ebpf/tracemgmt.h`) with the token of a PID.
-/

namespace EbpfProfiler.PidEvents

open Lib

abbrev Word := BitVec 64

/-- The kinds of events. -/
inductive RatelimitAction
  | reset
  | default
  | fast
  | priority
  deriving DecidableEq

def defaultMaxAttempts : Byte := 8

def fastMaxAttempts : Byte := 4

def fastTimerFlag : Byte := 0x10

def prioritySentFlag : Byte := 0x20

/-- The bits of the timestamp that a token keeps. -/
def timeMask : Word := ~~~0x3f

/-- `limit_window_ts`. -/
def limitWindow (attempt : Byte) : Word := (100 * 1000000 : Word) <<< attempt.toNat

/-- What a new token is made of, besides its time. -/
structure Fields where
  attempt : Byte
  fastTimer : Byte
  prioritySent : Byte
  deriving DecidableEq

/-- `pid_event_ratelimit` for a PID with a token; no value if the event is inhibited. -/
def ageToken (token ts : Word) (action : RatelimitAction) (fastTimer : Byte) : Option Fields :=
  let diffTs := ts - (token &&& timeMask)
  let attempt := (token &&& 0xf).setWidth 8
  let fastTimer := fastTimer ||| (token &&& fastTimerFlag.setWidth 64).setWidth 8
  let prioritySent := (token &&& prioritySentFlag.setWidth 64).setWidth 8
  let limitWindowTs := limitWindow attempt
  let priorityEvent := action = .priority ∧ prioritySent = 0
  if diffTs < limitWindowTs then
    if priorityEvent then some ⟨attempt, fastTimer, prioritySent⟩ else none
  else if diffTs < limitWindowTs + 5000 * 1000000 then
    if attempt < (if fastTimer ≠ 0 then fastMaxAttempts else defaultMaxAttempts) then
      some ⟨attempt + 1, fastTimer, prioritySent⟩
    else some ⟨attempt, fastTimer, prioritySent⟩
  else some ⟨0, fastTimer, 0⟩

def makeToken (ts : Word) (action : RatelimitAction) (fields : Fields) : Word :=
  let prioritySent := if action = .priority then prioritySentFlag else fields.prioritySent
  (ts &&& timeMask) ||| prioritySent.setWidth 64 ||| fields.fastTimer.setWidth 64 |||
    fields.attempt.setWidth 64

/-- `pid_event_ratelimit`: the inhibition and the token then, by the success of the map update. -/
def pidEventRatelimit (entry : Option Word) (ts : Word) (action : RatelimitAction)
    (updated : Bool) : Bool × Option Word :=
  if action = .reset then (false, entry)
  else
    let fastTimer := if action = .fast then fastTimerFlag else 0
    let fields :=
      entry.elim (some ⟨0, fastTimer, 0⟩) fun token => ageToken token ts action fastTimer
    match fields with
    | none => (true, entry)
    | some fields => if updated then (false, some (makeToken ts action fields)) else (true, entry)

/-- The maps, and how often user space was triggered. -/
structure PidMaps where
  reportedPids : BitVec 32 → Option Word
  pidEvents : Word → Bool
  triggers : ℕ

/-- `report_pid`, with the success of its map updates. -/
def reportPid (maps : PidMaps) (pidTgid ts : Word) (action : RatelimitAction)
    (tokenUpdated eventUpdated : Bool) : Bool × PidMaps :=
  let pid := (pidTgid >>> 32).setWidth 32
  let (inhibited, entry) := pidEventRatelimit (maps.reportedPids pid) ts action tokenUpdated
  let maps := { maps with reportedPids := Function.update maps.reportedPids pid entry }
  if inhibited ∧ action ≠ .priority then (false, maps)
  else if ¬eventUpdated then (false, maps)
  else
    let maps := { maps with pidEvents := Function.update maps.pidEvents pidTgid true }
    let maps := if action = .reset then
        { maps with reportedPids := Function.update maps.reportedPids pid none }
      else maps
    if inhibited then (false, maps) else (true, { maps with triggers := maps.triggers + 1 })

/-! ## Runs for one PID -/

/-- An event and its time. -/
structure Call where
  ts : Word
  action : RatelimitAction
  deriving DecidableEq

/-- A delivered event, with the number of attempts that its token has. -/
structure Delivered where
  ts : ℕ
  action : RatelimitAction
  attempt : ℕ
  deriving DecidableEq

/-- The token of a PID, and its delivered events, the last one first. -/
structure Monitor where
  entry : Option Word
  delivered : List Delivered
  deriving DecidableEq

namespace Monitor

def inhibits (m : Monitor) (c : Call) : Bool := (pidEventRatelimit m.entry c.ts c.action true).1

def call (m : Monitor) (c : Call) : Monitor :=
  let (inhibited, entry) := pidEventRatelimit m.entry c.ts c.action true
  if inhibited then { m with entry := entry }
  else
    { entry := entry
      delivered := ⟨c.ts.toNat, c.action, (entry.elim 0 (· &&& 0xf)).toNat⟩ :: m.delivered }

/-- A run of calls, from a PID without a token. -/
def run (calls : List Call) : Monitor := calls.foldl call ⟨none, []⟩

end Monitor

/-- The window after a delivered event, in nanoseconds. -/
def Delivered.window (d : Delivered) : ℕ := 100000000 * 2 ^ d.attempt

def Delivered.since (d : Delivered) (t : ℕ) : ℕ := t - 64 * (d.ts / 64)

/-- Nothing was delivered for the window and five seconds. -/
def Delivered.Silent (d : Delivered) (t : ℕ) : Prop := d.window + 5000000000 ≤ d.since t

instance (d : Delivered) (t : ℕ) : Decidable (d.Silent t) := inferInstanceAs (Decidable (_ ≤ _))

def burst (t : ℕ) : List Delivered → List Delivered
  | [] => []
  | d :: ds => if d.Silent t then [] else d :: burst d.ts ds

/-- A priority event is the first one of its burst. -/
def FirstPriority (m : Monitor) (c : Call) : Prop :=
  c.action = .priority ∧ ∀ d ∈ burst c.ts.toNat m.delivered, d.action ≠ .priority

/-- The priority events since the last silence that came in an open window. -/
def openPriorities (t : ℕ) : List Delivered → ℕ
  | [] => 0
  | d :: ds =>
    if d.Silent t then 0
    else openPriorities d.ts ds +
      if d.action = .priority ∧ ∃ e ∈ ds.head?, e.since d.ts < e.window then 1 else 0

/-- Calls without a reset, one after the other. -/
structure Orderly (calls : List Call) : Prop where
  noReset : ∀ c ∈ calls, c.action ≠ .reset
  sorted : calls.Pairwise fun c c' => c.ts.toNat ≤ c'.ts.toNat

/-- The first `FAST` event comes in a window of fast timer mode or after a silence. -/
def FastInTime (m : Monitor) (c : Call) : Prop :=
  c.action = .fast → (∀ d ∈ m.delivered, d.action ≠ .fast) →
    ∀ d ∈ m.delivered.head?, d.attempt ≤ 4 ∨ d.since c.ts.toNat < d.window ∨ d.Silent c.ts.toNat

/-- A call is inhibited only for 25.6 s after an event, and 1.6 s from the first `FAST` one on;
events, the first priority event of a burst apart, are 100 ms apart, up to 64 ns. -/
structure WindowsBounded (m : Monitor) (c : Call) : Prop where
  longest : m.inhibits c = true → ∃ d ∈ m.delivered, c.ts.toNat < d.ts + 25600000000
  longestFast : m.inhibits c = true → (∃ d ∈ m.delivered, d.action = .fast) →
    ∃ d ∈ m.delivered, c.ts.toNat < d.ts + 1600000000
  shortest : m.inhibits c = false → ¬FirstPriority m c →
    ∀ d ∈ m.delivered, d.ts + 100000000 ≤ c.ts.toNat + 64

end EbpfProfiler.PidEvents
