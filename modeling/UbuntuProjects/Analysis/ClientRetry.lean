import Mathlib.Data.Nat.Log
import UbuntuProjects.Model.Client

/-!
# The attempts of `connect_retry`

`time` doubles from one attempt to the next. From 2^63 seconds on it is shifted out of
its 64 bits before it passes `seconds` and stays 0 from then on.
-/

set_option autoImplicit false

namespace UbuntuProjects.Client

variable {connect : ℕ → Bool} {seconds : UInt64}

/-- The bound of the loop: `seconds`, or 1 for 0.
SRCLINE: client.c:15 -/
def bound (seconds : UInt64) : ℕ := max seconds.toNat 1

/-- How often `connect` is to be called. -/
def attemptsFor (seconds : UInt64) : ℕ := Nat.log 2 (bound seconds) + 1

/-- The call of `connect_retry` returns `r`. -/
def Returns (connect : ℕ → Bool) (seconds : UInt64) (r : Retry) : Prop :=
  ∃ fuel, connect_retry fuel connect seconds = some r

/-- INTERNAL: the bound as the loop computes it. -/
theorem toNat_bound (seconds : UInt64) :
    (if seconds = 0 then 1 else seconds).toNat = bound seconds := by
  unfold bound
  split
  · next h =>
    subst h
    rfl
  · next h =>
    have hpos : seconds.toNat ≠ 0 := fun h0 => h (UInt64.toNat_inj.mp h0)
    omega

/-- INTERNAL: one turn of the loop with a failing `connect`. -/
theorem retryLoop_fails {time : UInt64} {attempts : ℕ} (fuel slept : ℕ)
    (hle : time ≤ seconds) (hfail : connect (attempts + 1) = false) :
    retryLoop connect seconds (fuel + 1) time attempts slept =
      retryLoop connect seconds fuel (time <<< 1) (attempts + 1)
        (if time ≤ seconds / 2 then slept + sleep time else slept) := by
  rw [retryLoop, if_pos hle, hfail, if_neg Bool.false_ne_true]

/-- INTERNAL: a power of two that fits into `time`. -/
theorem toNat_pow {k : ℕ} (h : 2 ^ k < 2 ^ 64) : (UInt64.ofNat (2 ^ k)).toNat = 2 ^ k := by
  rw [UInt64.toNat_ofNat']
  exact Nat.mod_eq_of_lt h

/-- INTERNAL: `time` is doubled from turn to turn. -/
theorem pow_shiftLeft {k : ℕ} (h : 2 ^ k < 2 ^ 64) :
    UInt64.ofNat (2 ^ k) <<< 1 = UInt64.ofNat (2 ^ (k + 1)) := by
  apply UInt64.toNat_inj.mp
  rw [UInt64.toNat_shiftLeft, toNat_pow h, UInt64.toNat_ofNat', pow_succ, Nat.shiftLeft_eq]
  rfl

/-- INTERNAL: after `k` failing attempts `time` is the `k`-th power of two, as far as it
fits, and the seconds slept are fewer than it and than `seconds`. -/
theorem retryLoop_run (k : ℕ) (hpos : 0 < seconds.toNat)
    (hle : ∀ i < k, 2 ^ i ≤ seconds.toNat)
    (hfail : ∀ i, 0 < i → i ≤ k → connect i = false) :
    ∃ slept, slept + 1 ≤ 2 ^ k ∧ slept + 1 ≤ seconds.toNat ∧
      ∀ fuel, retryLoop connect seconds (fuel + k) 1 0 0 =
        retryLoop connect seconds fuel (UInt64.ofNat (2 ^ k)) k slept := by
  induction k with
  | zero => exact ⟨0, by simp, by omega, fun fuel => rfl⟩
  | succ k ih =>
    obtain ⟨slept, hpow, hsec, hrun⟩ :=
      ih (fun i hi => hle i (by omega)) (fun i h0 hi => hfail i h0 (by omega))
    have hfits : 2 ^ k < 2 ^ 64 := (hle k (by omega)).trans_lt seconds.toNat_lt
    have htime := toNat_pow hfits
    have hguard : UInt64.ofNat (2 ^ k) ≤ seconds := by
      rw [UInt64.le_iff_toNat_le, htime]
      exact hle k (by omega)
    have hstep := fun fuel => retryLoop_fails fuel slept hguard
      (hfail (k + 1) (by omega) le_rfl)
    have hsleep : sleep (UInt64.ofNat (2 ^ k)) ≤ 2 ^ k := by
      unfold sleep
      rw [UInt64.toNat_toUInt32, htime]
      exact Nat.mod_le _ _
    refine ⟨if UInt64.ofNat (2 ^ k) ≤ seconds / 2 then
      slept + sleep (UInt64.ofNat (2 ^ k)) else slept, ?_, ?_, ?_⟩
    · rw [pow_succ]
      split <;> omega
    · split
      · next hhalf =>
        rw [UInt64.le_iff_toNat_le, UInt64.toNat_div, htime] at hhalf
        have htwo : (2 : UInt64).toNat = 2 := rfl
        rw [htwo] at hhalf
        omega
      · exact hsec
    · intro fuel
      rw [← pow_shiftLeft hfits, ← hstep, ← hrun, Nat.add_right_comm, Nat.add_assoc]

/-- INTERNAL: the powers of two that the loop reaches are within the bound. -/
theorem pow_le_bound {i : ℕ} (hi : i < attemptsFor seconds) : 2 ^ i ≤ bound seconds := by
  have hpos : bound seconds ≠ 0 := by
    unfold bound
    omega
  unfold attemptsFor at hi
  exact Nat.pow_le_of_le_log hpos (by omega)

/-- INTERNAL: the run of `connect_retry` up to its attempt `k + 1`. -/
theorem connect_retry_run (seconds : UInt64) (connect : ℕ → Bool) (k : ℕ)
    (hk : k ≤ attemptsFor seconds) (hfail : ∀ i, 0 < i → i ≤ k → connect i = false) :
    ∃ slept, slept ≤ bound seconds - 1 ∧ ∀ fuel,
      connect_retry (fuel + k) connect seconds =
        retryLoop connect (if seconds = 0 then 1 else seconds) fuel (UInt64.ofNat (2 ^ k)) k
          slept := by
  have hpos : 0 < bound seconds := by
    unfold bound
    omega
  have hrun := @retryLoop_run connect (if seconds = 0 then 1 else seconds) k
  rw [toNat_bound] at hrun
  obtain ⟨slept, -, hsec, hrun⟩ := hrun hpos (fun i hi => pow_le_bound (hi.trans_le hk)) hfail
  exact ⟨slept, by omega, hrun⟩

/-- **The attempt that succeeds.** The first successful attempt within the number meant
for them ends the loop. -/
theorem connect_retry_succeeds {k : ℕ} (hpos : 0 < k) (hk : k ≤ attemptsFor seconds)
    (hfail : ∀ i, 0 < i → i < k → connect i = false) (hconnect : connect k = true) :
    ∃ r, Returns connect seconds r ∧ r.code = 0 ∧ r.attempts = k := by
  obtain ⟨slept, -, hrun⟩ := connect_retry_run seconds connect (k - 1) (by omega)
    fun i h0 hi => hfail i h0 (by omega)
  have hle : 2 ^ (k - 1) ≤ bound seconds := pow_le_bound (by omega)
  have htime : (UInt64.ofNat (2 ^ (k - 1))).toNat = 2 ^ (k - 1) := by
    apply toNat_pow
    apply hle.trans_lt
    rw [← toNat_bound]
    exact UInt64.toNat_lt _
  have hguard : UInt64.ofNat (2 ^ (k - 1)) ≤ if seconds = 0 then 1 else seconds := by
    rw [UInt64.le_iff_toNat_le, htime, toNat_bound]
    exact hle
  have hlast : connect (k - 1 + 1) = true := by
    rw [Nat.sub_add_cancel hpos]
    exact hconnect
  refine ⟨⟨0, k, slept⟩, ⟨1 + (k - 1), ?_⟩, rfl, rfl⟩
  rw [hrun, retryLoop, if_pos hguard, hlast, if_pos rfl, Nat.sub_add_cancel hpos]

/-- **The attempts that fail.** Below 2^63 seconds the loop ends behind the last one. -/
theorem connect_retry_fails (hlt : seconds.toNat < 2 ^ 63)
    (hfail : ∀ i, 0 < i → i ≤ attemptsFor seconds → connect i = false) :
    ∃ r, Returns connect seconds r ∧ r.code = -1 ∧ r.attempts = attemptsFor seconds ∧
      r.slept ≤ bound seconds - 1 := by
  obtain ⟨slept, hslept, hrun⟩ := connect_retry_run seconds connect _ le_rfl hfail
  have hbound : bound seconds < 2 ^ 63 := by
    unfold bound
    omega
  have hlast : 2 ^ Nat.log 2 (bound seconds) ≤ bound seconds :=
    pow_le_bound (Nat.lt_succ_self _)
  have hnext : bound seconds < 2 ^ attemptsFor seconds :=
    Nat.lt_pow_succ_log_self (by decide) _
  have htime : (UInt64.ofNat (2 ^ attemptsFor seconds)).toNat = 2 ^ attemptsFor seconds := by
    apply toNat_pow
    unfold attemptsFor
    rw [pow_succ]
    omega
  have hguard : ¬UInt64.ofNat (2 ^ attemptsFor seconds) ≤
      if seconds = 0 then 1 else seconds := by
    rw [UInt64.le_iff_toNat_le, htime, toNat_bound]
    omega
  refine ⟨⟨-1, attemptsFor seconds, slept⟩, ⟨1 + attemptsFor seconds, ?_⟩, rfl, rfl, hslept⟩
  rw [hrun, retryLoop, if_neg hguard]

/-! ## Where the loop does not end -/

/-- INTERNAL: with more fuel the loop has the same result. -/
theorem retryLoop_succ (fuel : ℕ) (time : UInt64) (attempts slept : ℕ) (r : Retry)
    (h : retryLoop connect seconds fuel time attempts slept = some r) :
    retryLoop connect seconds (fuel + 1) time attempts slept = some r := by
  induction fuel generalizing time attempts slept with
  | zero => exact absurd h (by simp [retryLoop])
  | succ fuel ih =>
    rw [retryLoop] at h ⊢
    split at h
    · next hle =>
      rw [if_pos hle]
      split at h
      · next hconnect =>
        rw [if_pos hconnect]
        exact h
      · next hconnect =>
        rw [if_neg hconnect]
        exact ih _ _ _ h
    · next hle =>
      rw [if_neg hle]
      exact h

/-- INTERNAL: the same for any more fuel. -/
theorem retryLoop_mono {fuel fuel' : ℕ} (hle : fuel ≤ fuel') {time : UInt64}
    {attempts slept : ℕ} {r : Retry}
    (h : retryLoop connect seconds fuel time attempts slept = some r) :
    retryLoop connect seconds fuel' time attempts slept = some r := by
  induction fuel', hle using Nat.le_induction with
  | base => exact h
  | succ fuel' _ ih => exact retryLoop_succ _ _ _ _ _ ih

/-- INTERNAL: once `time` is 0 it stays 0. -/
theorem retryLoop_zero (hfail : ∀ i, 0 < i → connect i = false) (fuel attempts slept : ℕ) :
    retryLoop connect seconds fuel 0 attempts slept = none := by
  induction fuel generalizing attempts slept with
  | zero => rfl
  | succ fuel ih =>
    have hguard : (0 : UInt64) ≤ seconds := UInt64.zero_le
    have hshift : (0 : UInt64) <<< 1 = 0 := by decide
    rw [retryLoop_fails fuel slept hguard (hfail _ (Nat.succ_pos _)), hshift]
    exact ih _ _

/-- **The loop without end.** From 2^63 seconds on a `connect` that always fails is called
for ever. -/
theorem connect_retry_diverges (hge : 2 ^ 63 ≤ seconds.toNat)
    (hfail : ∀ i, 0 < i → connect i = false) (fuel : ℕ) :
    connect_retry fuel connect seconds = none := by
  have hbound : bound seconds = seconds.toNat := by
    unfold bound
    omega
  have hlog : Nat.log 2 (bound seconds) = 63 := by
    have hlt := seconds.toNat_lt
    rw [Nat.log_eq_iff (.inl (by decide)), hbound]
    omega
  have hattempts : attemptsFor seconds = 64 := by
    unfold attemptsFor
    rw [hlog]
  have hzero : UInt64.ofNat (2 ^ 64) = 0 := by decide
  obtain ⟨slept, -, hrun⟩ := connect_retry_run seconds connect 64 (by omega)
    fun i h0 _ => hfail i h0
  cases h : connect_retry fuel connect seconds with
  | none => rfl
  | some r =>
    have hmore := retryLoop_mono (Nat.le_add_right fuel 64) h
    have hnone : connect_retry (fuel + 64) connect seconds = none := by
      rw [hrun, hzero]
      exact retryLoop_zero hfail _ _ _
    exact absurd (hmore.symm.trans hnone) (by simp)

/-- **Termination of `connect_retry`.** It makes the attempts it is meant to make, sleeps no
longer than it may and returns what they say exactly for fewer than 2^63 seconds.
SRCLINE: client.c:13-23 -/
theorem connect_retry_spec_iff (seconds : UInt64) :
    ((∀ connect : ℕ → Bool, (∀ k, 0 < k → connect k = false) →
        ∃ r, Returns connect seconds r ∧ r.code = -1 ∧
          r.attempts = Nat.log 2 (max seconds.toNat 1) + 1 ∧
          r.slept ≤ max seconds.toNat 1 - 1) ∧
      (∀ (connect : ℕ → Bool) (k : ℕ), 0 < k →
        k ≤ Nat.log 2 (max seconds.toNat 1) + 1 →
        (∀ i, 0 < i → i < k → connect i = false) → connect k = true →
        ∃ r, Returns connect seconds r ∧ r.code = 0 ∧ r.attempts = k)) ↔
      seconds.toNat < 2 ^ 63 := by
  constructor
  · rintro ⟨hall, -⟩
    by_contra hge
    obtain ⟨r, ⟨fuel, hr⟩, -⟩ := hall (fun _ => false) fun _ _ => rfl
    rw [connect_retry_diverges (by omega) fun _ _ => rfl] at hr
    exact absurd hr (by simp)
  · intro hlt
    constructor
    · intro connect hfail
      exact connect_retry_fails hlt fun i h0 _ => hfail i h0
    · intro connect k hpos hk hfail hconnect
      exact connect_retry_succeeds hpos hk hfail hconnect

/-- With 2^63 seconds a failing `connect` keeps the loop going. -/
theorem connect_retry_wraps :
    ¬∀ (seconds : UInt64) (connect : ℕ → Bool), (∀ k, 0 < k → connect k = false) →
      ∃ r, Returns connect seconds r ∧ r.code = -1 ∧
        r.attempts = Nat.log 2 (max seconds.toNat 1) + 1 ∧
        r.slept ≤ max seconds.toNat 1 - 1 := by
  intro hall
  obtain ⟨r, ⟨fuel, hr⟩, -⟩ := hall (UInt64.ofNat (2 ^ 63)) (fun _ => false) fun _ _ => rfl
  rw [connect_retry_diverges (by decide) fun _ _ => rfl] at hr
  exact absurd hr (by simp)

end UbuntuProjects.Client
