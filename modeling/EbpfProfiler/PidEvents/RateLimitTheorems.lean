import EbpfProfiler.PidEvents.RateLimit
import Mathlib.Data.List.Induction

/-!
# Windows of PID events

`Stored` says what a token stands for, `Tracks` that it stands for the last delivered event.
-/

namespace EbpfProfiler.PidEvents

open Lib List BitVec

/-! ## Tokens -/

/-- The token of a delivered event: at most eight attempts, and two flags. -/
structure Stored where
  ts : Word
  attempt : Fin 9
  fast : Bool
  sent : Bool

namespace Stored

/-- The lowest six bits. -/
def low (attempt : Fin 9) (fast sent : Bool) : Word :=
  (if sent then 0x20 else 0) ||| (if fast then 0x10 else 0) ||| BitVec.ofNat 64 attempt.val

def token (s : Stored) : Word := (s.ts &&& timeMask) ||| low s.attempt s.fast s.sent

/-- The window that the token sets, in nanoseconds. -/
def window (s : Stored) : ℕ := 100000000 * 2 ^ s.attempt.val

def since (s : Stored) (ts : Word) : ℕ := ts.toNat - 64 * (s.ts.toNat / 64)

end Stored

variable {c : Call} {m : Monitor} {prev : Option Stored} {action : RatelimitAction} {ts : Word}

open Stored

lemma low_and (attempt : Fin 9) (fast sent : Bool) :
    low attempt fast sent &&& timeMask = 0#64 ∧
      (low attempt fast sent &&& 0xf).setWidth 8 = BitVec.ofNat 8 attempt.val ∧
      (low attempt fast sent &&& fastTimerFlag.setWidth 64).setWidth 8 =
        (if fast then fastTimerFlag else 0) ∧
      (low attempt fast sent &&& prioritySentFlag.setWidth 64).setWidth 8 =
        (if sent then prioritySentFlag else 0) := by
  revert attempt fast sent
  decide

lemma token_and_of_disjoint (s : Stored) {mask : Word} (hmask : timeMask &&& mask = 0#64) :
    s.token &&& mask = low s.attempt s.fast s.sent &&& mask := by
  rw [token, BitVec.and_comm, and_or_distrib_left, BitVec.and_comm mask (_ &&& _), BitVec.and_assoc,
    hmask, and_zero, zero_or, BitVec.and_comm]

lemma token_fields (s : Stored) : (s.token &&& 0xf).setWidth 8 = BitVec.ofNat 8 s.attempt.val ∧
      (s.token &&& fastTimerFlag.setWidth 64).setWidth 8 = (if s.fast then fastTimerFlag else 0) ∧
      (s.token &&& prioritySentFlag.setWidth 64).setWidth 8 =
        (if s.sent then prioritySentFlag else 0) := by
  rw [token_and_of_disjoint s (by decide), token_and_of_disjoint s (by decide),
    token_and_of_disjoint s (by decide)]
  exact (low_and _ _ _).2

lemma token_and_timeMask (s : Stored) : s.token &&& timeMask = s.ts &&& timeMask := by
  rw [token, BitVec.and_comm, and_or_distrib_left, BitVec.and_comm timeMask (_ &&& _),
    BitVec.and_assoc, BitVec.and_self, BitVec.and_comm timeMask (low _ _ _), (low_and _ _ _).1,
    or_zero]

lemma toNat_and_timeMask (x : Word) : (x &&& timeMask).toNat = 64 * (x.toNat / 64) := by
  have hlow : (x &&& 0x3f).toNat = x.toNat % 64 := by
    exact Nat.and_two_pow_sub_one_eq_mod x.toNat 6
  have hdisjoint : (x &&& timeMask) &&& (x &&& 0x3f) = 0#64 := by
    have hmask : timeMask &&& 0x3f = 0#64 := by decide
    rw [BitVec.and_assoc, ← BitVec.and_assoc timeMask, BitVec.and_comm timeMask x,
      BitVec.and_assoc x, hmask, and_zero, and_zero]
  have hsum : (x &&& timeMask) + (x &&& 0x3f) = x := by
    have hall : timeMask ||| 0x3f = BitVec.allOnes 64 := by decide
    rw [add_eq_or_of_and_eq_zero _ _ hdisjoint, ← and_or_distrib_left, hall, and_allOnes]
  have hnat := congrArg BitVec.toNat hsum
  rw [toNat_add] at hnat
  omega

lemma toNat_sub_token (s : Stored) (hle : s.ts.toNat ≤ ts.toNat) :
    (ts - (s.token &&& timeMask)).toNat = s.since ts := by
  have hmask := toNat_and_timeMask s.ts
  rw [token_and_timeMask, toNat_sub_of_le (by rw [le_def]; omega), hmask]
  rfl

lemma toNat_limitWindow (attempt : Fin 9) :
    (limitWindow (BitVec.ofNat 8 attempt.val)).toNat = 100000000 * 2 ^ attempt.val ∧
      (limitWindow (BitVec.ofNat 8 attempt.val) + 5000 * 1000000).toNat =
        100000000 * 2 ^ attempt.val + 5000000000 := by
  revert attempt
  decide

/-! ## One call -/

def maxAttempts (fast : Bool) : ℕ := if fast then 4 else 8

def grow (attempt : Fin 9) (fast : Bool) : Fin 9 :=
  if h : attempt.val < maxAttempts fast then
    ⟨attempt.val + 1, by unfold maxAttempts at h; split at h <;> omega⟩
  else attempt

/-- What a call stores, if it is delivered. -/
def next (prev : Option Stored) (ts : Word) (action : RatelimitAction) : Option Stored :=
  let isFast := decide (action = .fast)
  let isPriority := decide (action = .priority)
  match prev with
  | none => some ⟨ts, 0, isFast, isPriority⟩
  | some s =>
    let fast := isFast || s.fast
    if s.since ts < s.window then
      if isPriority ∧ s.sent = false then some ⟨ts, s.attempt, fast, true⟩ else none
    else if s.since ts < s.window + 5000000000 then
      some ⟨ts, grow s.attempt fast, fast, isPriority || s.sent⟩
    else some ⟨ts, 0, fast, isPriority⟩

lemma or_flag (isFast fast : Bool) :
    ((if isFast then fastTimerFlag else 0) ||| (if fast then fastTimerFlag else 0) : Byte) =
      if isFast || fast then fastTimerFlag else 0 := by
  revert isFast fast
  decide

lemma attempt_lt_iff (attempt : Fin 9) (fast : Bool) :
    (BitVec.ofNat 8 attempt.val < if (if fast then fastTimerFlag else 0 : Byte) ≠ 0
      then fastMaxAttempts else defaultMaxAttempts) ↔ attempt.val < maxAttempts fast := by
  revert attempt fast
  decide

def fieldsOf (attempt : Fin 9) (fast sent : Bool) : Fields :=
  ⟨BitVec.ofNat 8 attempt.val, if fast then fastTimerFlag else 0,
    if sent then prioritySentFlag else 0⟩

lemma makeToken_fieldsOf (ts : Word) (action : RatelimitAction) (attempt : Fin 9)
    (fast sent : Bool) : makeToken ts action (fieldsOf attempt fast sent) =
      token ⟨ts, attempt, fast, decide (action = .priority) || sent⟩ := by
  have hlow : ((if action = .priority then prioritySentFlag
      else if sent then prioritySentFlag else 0 : Byte).setWidth 64 |||
        (if fast then fastTimerFlag else 0 : Byte).setWidth 64 |||
        (BitVec.ofNat 8 attempt.val).setWidth 64) =
      low attempt fast (decide (action = .priority) || sent) := by
    by_cases hpriority : action = .priority
    · rw [if_pos hpriority, decide_eq_true hpriority]
      revert attempt fast sent
      decide
    · rw [if_neg hpriority, decide_eq_false hpriority]
      revert attempt fast sent
      decide
  unfold makeToken fieldsOf token
  rw [BitVec.or_assoc, BitVec.or_assoc, ← BitVec.or_assoc (BitVec.setWidth 64 _), hlow]

/-- The aging of a token: it stays for the first priority event, grows, or starts again. -/
lemma ageToken_token (s : Stored) (hle : s.ts.toNat ≤ ts.toNat) (action : RatelimitAction) :
    ageToken s.token ts action (if action = .fast then fastTimerFlag else 0) =
      if s.since ts < s.window then
        if action = .priority ∧ s.sent = false then
          some (fieldsOf s.attempt (decide (action = .fast) || s.fast) s.sent)
        else none
      else if s.since ts < s.window + 5000000000 then
        some (fieldsOf (grow s.attempt (decide (action = .fast) || s.fast))
          (decide (action = .fast) || s.fast) s.sent)
      else some (fieldsOf 0 (decide (action = .fast) || s.fast) false) := by
  obtain ⟨hattempt, hfast, hsent⟩ := token_fields s
  have hflag : ((if action = .fast then fastTimerFlag else 0) |||
      (if s.fast then fastTimerFlag else 0) : Byte) =
      if decide (action = .fast) || s.fast then fastTimerFlag else 0 := by
    rw [← or_flag]
    simp
  have hzero : ((if s.sent then prioritySentFlag else 0 : Byte) = 0) ↔ s.sent = false := by
    cases s.sent <;> decide
  obtain ⟨hwindow, hsilence⟩ := toNat_limitWindow s.attempt
  have hopen : ts - (s.token &&& timeMask) < limitWindow (BitVec.ofNat 8 s.attempt.val) ↔
      s.since ts < s.window := by
    rw [lt_def, toNat_sub_token s hle, hwindow]
    rfl
  have hrecent : ts - (s.token &&& timeMask) <
      limitWindow (BitVec.ofNat 8 s.attempt.val) + 5000 * 1000000 ↔
      s.since ts < s.window + 5000000000 := by
    rw [lt_def, toNat_sub_token s hle, hsilence]
    rfl
  have hgrow : (if s.attempt.val < maxAttempts (decide (action = .fast) || s.fast) then
        some (Fields.mk (BitVec.ofNat 8 s.attempt.val + 1)
          (if decide (action = .fast) || s.fast then fastTimerFlag else 0)
          (if s.sent then prioritySentFlag else 0))
      else some (fieldsOf s.attempt (decide (action = .fast) || s.fast) s.sent)) =
      some (fieldsOf (grow s.attempt (decide (action = .fast) || s.fast))
        (decide (action = .fast) || s.fast) s.sent) := by
    unfold grow
    by_cases hmax : s.attempt.val < maxAttempts (decide (action = .fast) || s.fast)
    · rw [if_pos hmax, dif_pos hmax, fieldsOf, ofNat_add]
      rfl
    · rw [if_neg hmax, dif_neg hmax]
  rw [← hgrow]
  unfold ageToken
  rw [hattempt, hfast, hsent, hflag]
  simp only [hopen, hrecent, hzero, attempt_lt_iff]
  rfl

/-- A call in terms of what tokens stand for. -/
lemma pidEventRatelimit_stored (prev : Option Stored) (hle : ∀ s ∈ prev, s.ts.toNat ≤ ts.toNat)
    (hreset : action ≠ .reset) : pidEventRatelimit (prev.map token) ts action true =
      (next prev ts action).elim (true, prev.map token) fun s => (false, some s.token) := by
  unfold pidEventRatelimit next
  rw [if_neg hreset]
  cases prev with
  | none =>
    have hfields : (⟨0, if action = .fast then fastTimerFlag else 0, 0⟩ : Fields) =
        fieldsOf 0 (decide (action = .fast)) false := by
      simp [fieldsOf]
    show (false, some (makeToken ts action ⟨0, if action = .fast then fastTimerFlag else 0, 0⟩)) = _
    rw [hfields, makeToken_fieldsOf, Bool.or_false]
    rfl
  | some s =>
    dsimp only [Option.map_some, Option.elim_some]
    rw [ageToken_token s (hle s rfl)]
    by_cases hopen : s.since ts < s.window
    · rw [if_pos hopen, if_pos hopen]
      by_cases hfirst : action = .priority ∧ s.sent = false
      · rw [if_pos hfirst, if_pos (by simpa using hfirst)]
        dsimp only
        rw [makeToken_fieldsOf, decide_eq_true hfirst.1]
        rfl
      · rw [if_neg hfirst, if_neg (by simpa using hfirst)]
        rfl
    · rw [if_neg hopen, if_neg hopen]
      by_cases hrecent : s.since ts < s.window + 5000000000
      · rw [if_pos hrecent, if_pos hrecent]
        dsimp only
        rw [makeToken_fieldsOf]
        rfl
      · rw [if_neg hrecent, if_neg hrecent]
        dsimp only
        rw [makeToken_fieldsOf, Bool.or_false]
        rfl

/-! ## Runs -/

/-- The token stands for the last delivered event, its flags for those before. -/
def Tracks (m : Monitor) : Option Stored → Prop
  | none => m.entry = none ∧ m.delivered = []
  | some s => m.entry = some s.token ∧ ∃ action ds,
      m.delivered = ⟨s.ts.toNat, action, s.attempt.val⟩ :: ds ∧
      (∀ d ∈ ds, d.ts ≤ s.ts.toNat) ∧
      (s.fast = true ↔ ∃ d ∈ m.delivered, d.action = .fast) ∧
      (s.sent = true ↔ action = .priority ∨ ∃ d ∈ burst s.ts.toNat ds, d.action = .priority)

lemma Tracks.entry (h : Tracks m prev) : m.entry = prev.map token := by
  cases prev with
  | none => exact h.1
  | some s => exact h.1

lemma Tracks.inhibits (h : Tracks m prev) (hle : ∀ s ∈ prev, s.ts.toNat ≤ c.ts.toNat)
    (hreset : c.action ≠ .reset) : m.inhibits c = (next prev c.ts c.action).isNone := by
  unfold Monitor.inhibits
  rw [h.entry, pidEventRatelimit_stored prev hle hreset]
  cases next prev c.ts c.action <;> rfl

lemma toNat_token_and (s : Stored) : (s.token &&& 0xf).toNat = s.attempt.val := by
  rw [token_and_of_disjoint s (by decide)]
  obtain ⟨ts, attempt, fast, sent⟩ := s
  dsimp only
  revert attempt fast sent
  decide

lemma Tracks.call (h : Tracks m prev) (hle : ∀ s ∈ prev, s.ts.toNat ≤ c.ts.toNat)
    (hreset : c.action ≠ .reset) : m.call c = (next prev c.ts c.action).elim m fun s =>
      { entry := some s.token
        delivered := ⟨c.ts.toNat, c.action, s.attempt.val⟩ :: m.delivered } := by
  unfold Monitor.call
  rw [h.entry, pidEventRatelimit_stored prev hle hreset]
  cases next prev c.ts c.action with
  | none =>
    show ({ m with entry := prev.map token } : Monitor) = m
    rw [← h.entry]
  | some s =>
    show ({ entry := some s.token, delivered := ⟨c.ts.toNat, c.action, (s.token &&& 0xf).toNat⟩ ::
      m.delivered } : Monitor) = _
    rw [toNat_token_and]
    rfl

lemma next_spec {s s' : Stored} (h : next (some s) ts action = some s') :
    s'.ts = ts ∧ s'.fast = (decide (action = .fast) || s.fast) ∧
      ((s.since ts < s.window ∧ action = .priority ∧ s.sent = false ∧ s'.attempt = s.attempt ∧
          s'.sent = true) ∨
        (s.window ≤ s.since ts ∧ s.since ts < s.window + 5000000000 ∧
          s'.attempt = grow s.attempt s'.fast ∧
          s'.sent = (decide (action = .priority) || s.sent)) ∨
        (s.window + 5000000000 ≤ s.since ts ∧ s'.attempt = 0 ∧
          s'.sent = decide (action = .priority))) := by
  unfold next at h
  dsimp only at h
  by_cases hopen : s.since ts < s.window
  · rw [if_pos hopen] at h
    by_cases hfirst : decide (action = .priority) = true ∧ s.sent = false
    · rw [if_pos hfirst] at h
      cases h
      exact ⟨rfl, rfl, .inl ⟨hopen, of_decide_eq_true hfirst.1, hfirst.2, rfl, rfl⟩⟩
    · rw [if_neg hfirst] at h
      cases h
  · rw [if_neg hopen] at h
    by_cases hrecent : s.since ts < s.window + 5000000000
    · rw [if_pos hrecent] at h
      cases h
      exact ⟨rfl, rfl, .inr (.inl ⟨not_lt.1 hopen, hrecent, rfl, rfl⟩)⟩
    · rw [if_neg hrecent] at h
      cases h
      exact ⟨rfl, rfl, .inr (.inr ⟨not_lt.1 hrecent, rfl, rfl⟩)⟩

lemma next_eq_none (h : next prev ts action = none) :
    ∃ s, prev = some s ∧ s.since ts < s.window ∧ ¬(action = .priority ∧ s.sent = false) := by
  cases prev with
  | none => cases h
  | some s =>
    unfold next at h
    dsimp only at h
    by_cases hopen : s.since ts < s.window
    · rw [if_pos hopen] at h
      refine ⟨s, rfl, hopen, fun hfirst => ?_⟩
      rw [if_pos (by simpa using hfirst)] at h
      cases h
    · rw [if_neg hopen] at h
      split at h <;> cases h

lemma tracks_call (h : Tracks m prev) (hle : ∀ s ∈ prev, s.ts.toNat ≤ c.ts.toNat)
    (hreset : c.action ≠ .reset) : Tracks (m.call c) ((next prev c.ts c.action).or prev) := by
  rw [h.call hle hreset]
  cases hnext : next prev c.ts c.action with
  | none => exact h
  | some s' =>
    cases prev with
    | none =>
      cases hnext
      refine ⟨rfl, c.action, [], ?_, nofun, ?_, ?_⟩
      · rw [h.2]
        rfl
      · rw [h.2]
        simp
      · simp [burst]
    | some s =>
      obtain ⟨hentry, action, ds, hdelivered, hsorted, hfast, hsent⟩ := h
      obtain ⟨hts, hfast', hcases⟩ := next_spec hnext
      have hles := hle s rfl
      refine ⟨rfl, c.action, m.delivered, ?_, ?_, ?_, ?_⟩
      · rw [hts]
        rfl
      · intro d hd
        rw [hdelivered, mem_cons] at hd
        rw [hts]
        rcases hd with rfl | hd
        · exact hles
        · exact le_trans (hsorted d hd) hles
      · show s'.fast = true ↔ ∃ d ∈ _ :: m.delivered, d.action = .fast
        rw [hfast', Bool.or_eq_true, decide_eq_true_eq, hfast, exists_mem_cons_iff]
      · -- the burst goes on until a silence
        have hwindow : (⟨s.ts.toNat, action, s.attempt.val⟩ : Delivered).Silent c.ts.toNat ↔
            s.window + 5000000000 ≤ s.since c.ts := Iff.rfl
        rw [hts, hdelivered, burst]
        rcases hcases with ⟨hopen, hpriority, -, -, hs'⟩ | ⟨hclosed, hrecent, -, hs'⟩ |
          ⟨hsilent, -, hs'⟩
        · exact iff_of_true hs' (.inl hpriority)
        · rw [if_neg (by rw [hwindow]; omega), hs', Bool.or_eq_true, decide_eq_true_eq, hsent,
            exists_mem_cons_iff]
        · rw [if_pos (hwindow.2 hsilent), hs']
          simp

lemma Orderly.of_append {before after : List Call} (h : Orderly (before ++ c :: after)) :
    Orderly before ∧ c.action ≠ .reset ∧ ∀ c' ∈ before, c'.ts.toNat ≤ c.ts.toNat := by
  obtain ⟨hbefore, -, hle⟩ := pairwise_append.1 h.sorted
  refine ⟨⟨fun c' hc' => h.noReset c' (by simp [hc']), hbefore⟩, h.noReset c (by simp), ?_⟩
  intro c' hc'
  exact hle c' hc' c (by simp)

lemma run_append_singleton (calls : List Call) (c : Call) :
    Monitor.run (calls ++ [c]) = (Monitor.run calls).call c := by
  unfold Monitor.run
  rw [foldl_append]
  rfl

lemma grow_fast_le : ∀ attempt : Fin 9, attempt.val ≤ 4 → (grow attempt true).val ≤ 4 := by
  decide

lemma attempt_le_of_fast (h : Tracks m prev) (hfour : ∀ s ∈ prev, s.fast = true → s.attempt.val ≤ 4)
    (hintime : FastInTime m c) {s' : Stored} (hnext : next prev c.ts c.action = some s')
    (hfast : s'.fast = true) : s'.attempt.val ≤ 4 := by
  cases prev with
  | none =>
    cases hnext
    exact Nat.zero_le 4
  | some s =>
    obtain ⟨-, action, ds, hdelivered, -, hflag, -⟩ := h
    obtain ⟨-, hfast', hcases⟩ := next_spec hnext
    -- in front of the first fast event the window is small, or closed by a silence
    have hsmall : s.attempt.val ≤ 4 ∨ s.since c.ts < s.window ∨
        s.window + 5000000000 ≤ s.since c.ts := by
      by_cases hs : s.fast = true
      · exact .inl (hfour s rfl hs)
      · have haction : c.action = .fast := by
          rw [hfast', Bool.or_eq_true, decide_eq_true_eq] at hfast
          exact hfast.resolve_right hs
        refine hintime haction (fun d hd hd' => hs (hflag.2 ⟨d, hd, hd'⟩))
          ⟨s.ts.toNat, action, s.attempt.val⟩ ?_
        rw [hdelivered]
        rfl
    rcases hcases with ⟨hopen, hpriority, -, hattempt, -⟩ | ⟨hclosed, hrecent, hattempt, -⟩ |
      ⟨-, hattempt, -⟩
    · -- a priority event does not start fast timer mode
      have hs : s.fast = true := by
        rw [hfast', hpriority] at hfast
        exact hfast
      rw [hattempt]
      exact hfour s rfl hs
    · have hle : s.attempt.val ≤ 4 := by omega
      rw [hattempt, hfast]
      exact grow_fast_le s.attempt hle
    · rw [hattempt]
      exact Nat.zero_le 4

lemma tracks_run {calls : List Call} (horderly : Orderly calls) :
    ∃ prev, Tracks (Monitor.run calls) prev ∧ (∀ s ∈ prev, ∃ c ∈ calls, c.ts = s.ts) ∧
      ((∀ before c after, calls = before ++ c :: after → FastInTime (Monitor.run before) c) →
        ∀ s ∈ prev, s.fast = true → s.attempt.val ≤ 4) := by
  induction calls using reverseRecOn with
  | nil => exact ⟨none, ⟨rfl, rfl⟩, nofun, nofun⟩
  | append_singleton calls c ih =>
    obtain ⟨hcalls, hreset, hle⟩ := horderly.of_append
    obtain ⟨prev, htracks, htimes, hfour⟩ := ih hcalls
    have hprev : ∀ s ∈ prev, s.ts.toNat ≤ c.ts.toNat := by
      intro s hs
      obtain ⟨c', hc', hts⟩ := htimes s hs
      rw [← hts]
      exact hle c' hc'
    refine ⟨(next prev c.ts c.action).or prev, ?_, ?_, ?_⟩
    · rw [run_append_singleton]
      exact tracks_call htracks hprev hreset
    · intro s hs
      cases hnext : next prev c.ts c.action with
      | none =>
        rw [hnext] at hs
        obtain ⟨c', hc', hts⟩ := htimes s hs
        exact ⟨c', by simp [hc'], hts⟩
      | some s' =>
        rw [hnext] at hs
        cases hs
        refine ⟨c, by simp, ?_⟩
        cases prev with
        | none =>
          cases hnext
          rfl
        | some s₀ => exact (next_spec hnext).1.symm
    · intro hintime s hs hfast
      have hfour' := hfour fun before c' after hsplit =>
        hintime before c' (after ++ [c]) (by rw [hsplit]; simp)
      cases hnext : next prev c.ts c.action with
      | none =>
        rw [hnext] at hs
        exact hfour' s hs hfast
      | some s' =>
        rw [hnext] at hs
        cases hs
        exact attempt_le_of_fast htracks hfour' (hintime calls c [] rfl) hnext hfast

lemma tracks_before {before after : List Call} (horderly : Orderly (before ++ c :: after)) :
    ∃ prev, Tracks (Monitor.run before) prev ∧ (∀ s ∈ prev, s.ts.toNat ≤ c.ts.toNat) ∧
      ((∀ first c' rest, before = first ++ c' :: rest → FastInTime (Monitor.run first) c') →
        ∀ s ∈ prev, s.fast = true → s.attempt.val ≤ 4) := by
  obtain ⟨hbefore, -, hle⟩ := horderly.of_append
  obtain ⟨prev, htracks, htimes, hfour⟩ := tracks_run hbefore
  refine ⟨prev, htracks, fun s hs => ?_, hfour⟩
  obtain ⟨c', hc', hts⟩ := htimes s hs
  rw [← hts]
  exact hle c' hc'

/-- The first priority event of a burst is the only one that the flag lets through. -/
lemma Tracks.firstPriority {s : Stored} (h : Tracks m (some s)) (hpriority : c.action = .priority)
    (hsent : s.sent = false) : FirstPriority m c := by
  obtain ⟨-, action, ds, hdelivered, -, -, hflag⟩ := h
  rw [hsent] at hflag
  obtain ⟨haction, hburst⟩ := not_or.1 fun hor => Bool.false_ne_true (hflag.2 hor)
  refine ⟨hpriority, fun d hd => ?_⟩
  rw [hdelivered, burst] at hd
  split at hd
  · cases hd
  · rcases mem_cons.1 hd with rfl | hd
    · exact haction
    · exact fun hd' => hburst ⟨d, hd, hd'⟩

/-- In every run with fast timer mode in time, every call meets the bounds. -/
theorem windowsBounded_of_fastInTime (calls : List Call) (horderly : Orderly calls)
    (hintime : ∀ before c after, calls = before ++ c :: after → FastInTime (Monitor.run before) c)
    (before : List Call) (c : Call) (after : List Call) (hsplit : calls = before ++ c :: after) :
    WindowsBounded (Monitor.run before) c := by
  subst hsplit
  obtain ⟨-, hreset, -⟩ := horderly.of_append
  obtain ⟨prev, htracks, hprev, hfour⟩ := tracks_before horderly
  have hfour' := hfour fun before' c' after' hsplit =>
    hintime before' c' (after' ++ c :: after) (by rw [hsplit]; simp)
  have hinhibits := htracks.inhibits hprev hreset
  -- an inhibited call comes in the window of the last delivered event
  have hwindow {n : ℕ} (hattempt : ∀ s, prev = some s → s.attempt.val ≤ n)
      (hinhibited : (Monitor.run before).inhibits c = true) :
      ∃ d ∈ (Monitor.run before).delivered, c.ts.toNat < d.ts + 2 ^ n * 100000000 := by
    rw [hinhibits, Option.isNone_iff_eq_none] at hinhibited
    obtain ⟨s, rfl, hopen, -⟩ := next_eq_none hinhibited
    obtain ⟨-, action, ds, hdelivered, -⟩ := htracks
    refine ⟨_, by rw [hdelivered]; exact mem_cons_self, ?_⟩
    have hpow : 2 ^ s.attempt.val ≤ 2 ^ n := Nat.pow_le_pow_right (by decide) (hattempt s rfl)
    unfold window since at hopen
    show c.ts.toNat < s.ts.toNat + 2 ^ n * 100000000
    omega
  constructor
  · exact hwindow (n := 8) fun s _ => by omega
  · intro hinhibited hfast
    refine hwindow (n := 4) (fun s hs => ?_) hinhibited
    subst hs
    obtain ⟨-, action, ds, -, -, hflag, -⟩ := htracks
    exact hfour' s rfl (hflag.2 hfast)
  · intro hdelivers hfirst d hd
    rw [hinhibits] at hdelivers
    obtain ⟨s', hnext⟩ : ∃ s', next prev c.ts c.action = some s' := by
      cases hnext : next prev c.ts c.action with
      | none =>
        rw [hnext] at hdelivers
        cases hdelivers
      | some s' => exact ⟨s', rfl⟩
    cases prev with
    | none =>
      rw [htracks.2] at hd
      cases hd
    | some s =>
      obtain ⟨-, -, hcases⟩ := next_spec hnext
      have hclosed : s.window ≤ s.since c.ts := by
        rcases hcases with ⟨-, hpriority, hsent, -⟩ | ⟨hclosed, -⟩ | ⟨hsilent, -⟩
        · exact absurd (htracks.firstPriority hpriority hsent) hfirst
        · exact hclosed
        · omega
      have hpow : 1 ≤ 2 ^ s.attempt.val := Nat.one_le_two_pow
      unfold window since at hclosed
      have hlast : d.ts ≤ s.ts.toNat := by
        obtain ⟨-, action, ds, hdelivered, hsorted, -⟩ := htracks
        rw [hdelivered, mem_cons] at hd
        rcases hd with rfl | hd
        · exact Nat.le_refl _
        · exact hsorted d hd
      omega

/-- A fast event, and a call in its window. -/
theorem windowsBounded_fast :
    WindowsBounded (Monitor.run [⟨1000000000, .fast⟩]) ⟨1050000000, .default⟩ := by
  refine windowsBounded_of_fastInTime [⟨1000000000, .fast⟩, ⟨1050000000, .default⟩]
    ⟨by decide, by decide⟩ ?_ _ _ [] rfl
  intro before c after hsplit haction _ d hd
  cases before with
  | nil => cases hd
  | cons first before =>
    -- the second call is not a fast one
    cases before with
    | nil =>
      cases hsplit
      cases haction
    | cons second before => cases before <;> cases hsplit

/-- Nine default events and a fast one: two seconds later the window is still 25.6 s. -/
theorem fast_window_stays :
    let calls : List Call := [⟨0, .default⟩, ⟨200000000, .default⟩, ⟨600000000, .default⟩,
      ⟨1400000000, .default⟩, ⟨3000000000, .default⟩, ⟨6200000000, .default⟩,
      ⟨12600000000, .default⟩, ⟨19600000000, .default⟩, ⟨32600000000, .default⟩,
      ⟨58600000000, .fast⟩]
    ¬WindowsBounded (Monitor.run calls) ⟨60600000000, .default⟩ := by
  intro calls hbounded
  obtain ⟨d, hd, hlt⟩ := hbounded.longestFast (by decide +kernel) (by decide +kernel)
  revert d
  decide +kernel

/-! ## Priority events -/

/-- Each event comes behind the window in front, or is its burst's first priority event. -/
def WellSpaced : List Delivered → Prop
  | [] => True
  | d :: ds => (∀ e ∈ ds.head?, e.window ≤ e.since d.ts ∨
      d.action = .priority ∧ ∀ x ∈ burst d.ts ds, x.action ≠ .priority) ∧ WellSpaced ds

lemma wellSpaced_run {calls : List Call} (horderly : Orderly calls) :
    WellSpaced (Monitor.run calls).delivered := by
  induction calls using reverseRecOn with
  | nil => exact trivial
  | append_singleton calls c ih =>
    obtain ⟨hcalls, hreset, -⟩ := horderly.of_append
    obtain ⟨prev, htracks, hprev, -⟩ := tracks_before horderly
    rw [run_append_singleton, htracks.call hprev hreset]
    cases hnext : next prev c.ts c.action with
    | none => exact ih hcalls
    | some s' =>
      refine ⟨fun e he => ?_, ih hcalls⟩
      cases prev with
      | none =>
        rw [htracks.2] at he
        cases he
      | some s =>
        obtain ⟨-, action, ds, hdelivered, -⟩ := id htracks
        rw [hdelivered] at he
        cases he
        obtain ⟨-, -, hcases⟩ := next_spec hnext
        rcases hcases with ⟨-, hpriority, hsent, -⟩ | ⟨hclosed, -⟩ | ⟨hsilent, -⟩
        · exact .inr (htracks.firstPriority hpriority hsent)
        · exact .inl hclosed
        · exact .inl (le_trans (Nat.le_add_right _ _) hsilent)

lemma openPriorities_eq_zero {ds : List Delivered} {t : ℕ}
    (h : ∀ x ∈ burst t ds, x.action ≠ .priority) : openPriorities t ds = 0 := by
  induction ds generalizing t with
  | nil => rfl
  | cons d ds ih =>
    rw [openPriorities]
    rw [burst] at h
    by_cases hsilent : d.Silent t
    · rw [if_pos hsilent]
    · rw [if_neg hsilent] at h ⊢
      rw [ih fun x hx => h x (mem_cons_of_mem d hx), if_neg fun hand => h d mem_cons_self hand.1]

lemma openPriorities_le_one {ds : List Delivered} (h : WellSpaced ds) (t : ℕ) :
    openPriorities t ds ≤ 1 := by
  induction ds generalizing t with
  | nil => exact Nat.zero_le 1
  | cons d ds ih =>
    obtain ⟨hspaced, hrest⟩ := h
    rw [openPriorities]
    split
    · exact Nat.zero_le 1
    · by_cases hopen : d.action = .priority ∧ ∃ e ∈ ds.head?, e.since d.ts < e.window
      · -- it is the first priority event of the burst
        obtain ⟨-, e, he, hlt⟩ := id hopen
        rcases hspaced e he with hclosed | ⟨-, hfirst⟩
        · omega
        · rw [openPriorities_eq_zero hfirst, if_pos hopen]
      · rw [if_neg hopen]
        exact ih hrest d.ts

lemma WellSpaced.of_append {newer : List Delivered} {d e : Delivered} {older : List Delivered}
    (h : WellSpaced (newer ++ d :: e :: older)) :
    e.window ≤ e.since d.ts ∨ d.action = .priority ∧ e.since d.ts < e.window := by
  induction newer with
  | nil =>
    rcases lt_or_ge (e.since d.ts) e.window with hlt | hge
    · rcases h.1 e rfl with hclosed | ⟨hpriority, -⟩
      · exact .inl hclosed
      · exact .inr ⟨hpriority, hlt⟩
    · exact .inl hge
  | cons x newer ih => exact ih h.2

/-- In every run, at most one priority event since the last silence came in an open window, every
other event behind the window in front; and priority events are recorded. -/
theorem priority_events_limited (calls : List Call) (horderly : Orderly calls) :
    (∀ t, openPriorities t (Monitor.run calls).delivered ≤ 1) ∧
      (∀ newer d e older, (Monitor.run calls).delivered = newer ++ d :: e :: older →
        e.ts + e.window ≤ d.ts + 64 ∨ d.action = .priority ∧ e.since d.ts < e.window) ∧
      ∀ (maps : PidMaps) (pidTgid ts : Word) (tokenUpdated : Bool),
        (reportPid maps pidTgid ts .priority tokenUpdated true).2.pidEvents pidTgid = true := by
  have hspaced := wellSpaced_run horderly
  refine ⟨openPriorities_le_one hspaced, fun newer d e older hsplit => ?_, ?_⟩
  · rw [hsplit] at hspaced
    rcases hspaced.of_append with hclosed | hopen
    · have hpos : 0 < e.window := Nat.mul_pos (by decide) (Nat.two_pow_pos _)
      unfold Delivered.since at hclosed
      exact .inl (by omega)
    · exact .inr hopen
  · intro maps pidTgid ts tokenUpdated
    by_cases hinhibited : (pidEventRatelimit (maps.reportedPids ((pidTgid >>> 32).setWidth 32)) ts
        .priority tokenUpdated).1 = true
    · simp [reportPid, hinhibited]
    · simp [reportPid, hinhibited]

/-- Two priority events in one window; the second one is not delivered. -/
theorem priority_events_limited_twice :
    openPriorities 1070000000 (Monitor.run [⟨1000000000, .default⟩, ⟨1020000000, .priority⟩,
      ⟨1040000000, .priority⟩]).delivered ≤ 1 :=
  (priority_events_limited [⟨1000000000, .default⟩, ⟨1020000000, .priority⟩,
    ⟨1040000000, .priority⟩] ⟨by decide, by decide⟩).1 1070000000

end EbpfProfiler.PidEvents
