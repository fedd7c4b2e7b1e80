import Mathlib.Algebra.Order.Floor.Ring
import Mathlib.Data.Rat.Floor
import Mathlib.Tactic.Linarith
import Qml.Processing.Settling

namespace Qml
open Lib

namespace RetryStrategy
variable {strategy : RetryStrategy} {attempt : UInt32} {draw : ℚ} {delay maxDelay : Duration}
  {x y : ℚ} {n : Int}

/-- The strategy comes to this delay when its draw, if it makes one, is the one given. -/
def Gives (strategy : RetryStrategy) (attempt : UInt32) (draw : ℚ) (delay : Duration) : Prop :=
  ∀ envs s, (envs 0).random = draw →
    (strategy.calculateDelay attempt).alone (fun env s _ call => call.perform env s) envs s =
      some (some delay, s)

/-- Every draw leads to a delay between zero and the maximum. -/
def CappedAt (strategy : RetryStrategy) (maxDelay : Duration) (attempt : UInt32) : Prop :=
  ∀ draw, 0 ≤ draw → draw < 1 → ∃ delay,
    strategy.Gives attempt draw delay ∧ 0 ≤ delay ∧ delay ≤ maxDelay

/-- What the maximum promises for all the attempts of a strategy. -/
structure RespectsCap (strategy : RetryStrategy) (maxDelay : Duration) (jitter : Bool) : Prop where
  capped : ∀ attempt, 1 ≤ attempt → attempt ≤ strategy.maxAttempts →
    strategy.CappedAt maxDelay attempt
  grows : jitter = false → ∀ a b, 1 ≤ a → a ≤ b → b ≤ strategy.maxAttempts →
    ∀ draw draw' delay delay', strategy.Gives a draw delay → strategy.Gives b draw' delay' →
      delay ≤ delay'

section
variable {envs : Nat → Env} {s : MemoryStorage} {result result' : Option Duration} {c : Prop}
  [Decidable c] {message : String} {p : Prog Call (Option Duration)}

theorem alone_pure : (Prog.pure result' : Prog Call (Option Duration)).alone
    (fun env s _ call => call.perform env s) envs s = some (result, s) ↔ result' = result := by
  rw [Prog.alone, Option.some.injEq, Prod.mk.injEq, and_iff_left rfl]

theorem alone_random {k : ℚ → Prog Call (Option Duration)} : (Prog.call Call.random k).alone
    (fun env s _ call => call.perform env s) envs s =
      (k (envs 0).random).alone (fun env s _ call => call.perform env s)
        (fun n => envs (n + 1)) s := rfl

/-- A check that unwinds the task lets the rest run only when it passes. -/
theorem alone_refused : (if c then Call.unwind message else p).alone
    (fun env s _ call => call.perform env s) envs s = some (result, s) ↔
      ¬ c ∧ p.alone (fun env s _ call => call.perform env s) envs s = some (result, s) := by
  by_cases hc : c
  · rw [if_pos hc]
    exact iff_of_false (fun h => by cases h) fun h => h.1 hc
  · rw [if_neg hc, and_iff_right hc]

theorem alone_calculateDelay (hle : attempt ≤ strategy.maxAttempts) :
    (strategy.calculateDelay attempt).alone (fun env s _ call => call.perform env s) envs s =
        some (result, s) ↔
      strategy.SpansFit attempt (envs 0).random ∧
        strategy.delayAt attempt (envs 0).random = result := by
  have hwithin : ¬ attempt > strategy.maxAttempts := UInt32.not_lt.mpr hle
  cases strategy with
  | none => exact alone_pure.trans (and_iff_right trivial).symm
  | fixed interval maxAttempts => exact alone_pure.trans (and_iff_right trivial).symm
  | exponentialBackoff initialDelay multiplier maxDelay maxAttempts jitter =>
    change ¬ attempt > maxAttempts at hwithin
    simp only [calculateDelay, SpansFit, delayAt, if_neg hwithin, Option.some.injEq, forall_eq']
    cases jitter with
    | true =>
      simp only [if_true, Prog.ask_bind, Prog.monad_pure, Prog.pure_bind]
      rw [alone_random, ← ite_not, alone_refused, not_not, alone_pure]
    | false =>
      simp only [Bool.false_eq_true, if_false, Prog.monad_pure, Prog.pure_bind]
      rw [← ite_not, alone_refused, not_not, alone_pure]
  | linearBackoff initialDelay increment maxDelay maxAttempts =>
    change ¬ attempt > maxAttempts at hwithin
    simp only [calculateDelay, SpansFit, delayAt, if_neg hwithin, Prog.monad_pure]
    rw [alone_refused, alone_refused, alone_refused, alone_pure, not_lt]
    simp only [Bool.not_eq_true', Bool.not_eq_false, and_assoc]

end

theorem gives_iff (hle : attempt ≤ strategy.maxAttempts) :
    strategy.Gives attempt draw delay ↔
      strategy.SpansFit attempt draw ∧ strategy.delayAt attempt draw = some delay := by
  constructor
  · intro h
    let env : Env := { Env.at 0 .elapsed with random := draw }
    have hrun := h (fun _ => env) (.empty Option.none) rfl
    rw [alone_calculateDelay hle] at hrun
    exact hrun
  · rintro h envs s rfl
    exact (alone_calculateDelay hle).mpr h

theorem one_le (h : attempt ≠ 0) : 1 ≤ attempt := by
  rw [UInt32.le_iff_toNat_le]
  exact Nat.pos_of_ne_zero fun hzero => h (UInt32.toNat_inj.mp hzero)

theorem one_not_le_zero {p : Prop} (h : (1 : UInt32) ≤ 0) : p := absurd h (by decide)

theorem scale_eq (multiplier : ℚ) (k : Nat) : scale multiplier k x = x * multiplier ^ k := by
  induction k generalizing x with
  | zero => rw [scale, pow_zero, mul_one]
  | succ k ih => rw [scale, ih, pow_succ', mul_assoc]

theorem toInt64_nonneg : 0 ≤ toInt64 x ↔ -1 < x := by
  rw [toInt64]
  split
  · have hfloor : 0 ≤ x.floor := Rat.le_floor_iff.mpr (by simpa using ‹0 ≤ x›)
    exact iff_of_true (by omega) (by linarith)
  · have hceil : -1 < x.ceil ↔ -1 < x := by
      simpa using Rat.lt_ceil_iff (x := x) (y := -1)
    rw [← hceil]
    omega

/-- The cast stays below an integer when the number stays below the next, or when
the integer ends the range. -/
theorem toInt64_le (hn : 0 ≤ n) : toInt64 x ≤ n ↔ 9223372036854775807 ≤ n ∨ x < n + 1 := by
  rw [toInt64]
  split
  · have hfloor : x.floor < n + 1 ↔ x < n + 1 := by
      rw [Rat.floor_lt_iff, Int.cast_add, Int.cast_one]
    rw [← hfloor]
    omega
  · have hceil : x.ceil ≤ 0 := Rat.ceil_le_iff.mpr (by
      rw [Int.cast_zero]
      linarith)
    have hcast : (0 : ℚ) ≤ n := by exact_mod_cast hn
    exact iff_of_true (by omega) (.inr (by linarith))

theorem toInt64_mono (hx : 0 ≤ x) (h : x ≤ y) : toInt64 x ≤ toInt64 y := by
  have hfloor : x.floor ≤ y.floor := Rat.le_floor_iff.mpr ((Rat.floor_le x).trans h)
  rw [toInt64, toInt64, if_pos hx, if_pos (hx.trans h)]
  omega

theorem milliseconds_le (hmax : 0 ≤ maxDelay) :
    Duration.milliseconds n ≤ maxDelay ↔ n ≤ Duration.numMilliseconds maxDelay := by
  simp only [Duration, Duration.milliseconds, Duration.numMilliseconds] at *
  rw [Int.tdiv_eq_ediv_of_nonneg hmax]
  omega

theorem numMilliseconds_nonneg (hmax : 0 ≤ maxDelay) : 0 ≤ Duration.numMilliseconds maxDelay :=
  (milliseconds_le hmax).mp (by rwa [Duration.milliseconds, zero_mul])

/-- The exponential delay in milliseconds, before it is cast. -/
def exponential (initialDelay : Duration) (multiplier : ℚ) (maxDelay : Duration) (jitter : Bool)
    (attempt : UInt32) (draw : ℚ) : ℚ :=
  let delay := min (Duration.numMilliseconds initialDelay * multiplier ^ (attempt.toNat - 1))
    (Duration.numMilliseconds maxDelay : ℚ)
  if jitter then delay + delay * (1 / 4) * (draw * 2 - 1) else delay

section
variable {initialDelay : Duration} {multiplier : ℚ} {maxAttempts : UInt32} {jitter : Bool}

theorem gives_exponential (hle : attempt ≤ maxAttempts) :
    (exponentialBackoff initialDelay multiplier maxDelay maxAttempts jitter).Gives attempt draw
        delay ↔
      Duration.inRange delay = true ∧ delay = Duration.milliseconds (toInt64
        (exponential initialDelay multiplier maxDelay jitter attempt draw)) := by
  have hwithin : ¬ attempt > maxAttempts := UInt32.not_lt.mpr hle
  rw [gives_iff (by exact hle)]
  simp only [SpansFit, delayAt, if_neg hwithin, Option.some.injEq, forall_eq', scale_eq,
    exponential]
  constructor
  · rintro ⟨hrange, rfl⟩
    exact ⟨hrange, rfl⟩
  · rintro ⟨hrange, rfl⟩
    exact ⟨hrange, rfl⟩

/-- A draw keeps the delay between zero and the maximum when the number that is cast
is less than a millisecond outside. -/
theorem capped_exponential (hle : attempt ≤ maxAttempts) :
    (∃ delay, (exponentialBackoff initialDelay multiplier maxDelay maxAttempts jitter).Gives
        attempt draw delay ∧ 0 ≤ delay ∧ delay ≤ maxDelay) ↔
      0 ≤ maxDelay ∧ -1 < exponential initialDelay multiplier maxDelay jitter attempt draw ∧
      (Duration.max ≤ maxDelay ∨ exponential initialDelay multiplier maxDelay jitter attempt draw <
        Duration.numMilliseconds maxDelay + 1) := by
  simp only [gives_exponential hle]
  generalize exponential initialDelay multiplier maxDelay jitter attempt draw = x
  have hsign : 0 ≤ Duration.milliseconds (toInt64 x) ↔ -1 < x := by
    rw [← toInt64_nonneg]
    simp only [Duration, Duration.milliseconds]
    omega
  have hcap : 0 ≤ maxDelay → (Duration.milliseconds (toInt64 x) ≤ maxDelay ↔
      Duration.max ≤ maxDelay ∨ x < Duration.numMilliseconds maxDelay + 1) := by
    intro hmax
    rw [milliseconds_le hmax, toInt64_le (numMilliseconds_nonneg hmax), Duration.max,
      milliseconds_le hmax]
  constructor
  · rintro ⟨_, ⟨-, rfl⟩, hpos, hle⟩
    have hmax := hpos.trans hle
    exact ⟨hmax, hsign.mp hpos, (hcap hmax).mp hle⟩
  · rintro ⟨hmax, hpos, hle⟩
    refine ⟨_, ⟨?_, rfl⟩, hsign.mpr hpos, (hcap hmax).mpr hle⟩
    have hbig : toInt64 x ≤ 9223372036854775807 := by
      rw [toInt64]
      omega
    rw [← hsign] at hpos
    simp only [Duration.inRange, Bool.and_eq_true, decide_eq_true_eq]
    simp only [Duration, Duration.max, Duration.milliseconds] at *
    omega

/-- The number that is cast, for a capped delay. -/
def jittered (jitter : Bool) (d draw : ℚ) : ℚ :=
  if jitter then 5 / 4 * d - d * (1 - draw) / 2 else d

theorem exponential_eq : exponential initialDelay multiplier maxDelay jitter attempt draw =
    jittered jitter (min (Duration.numMilliseconds initialDelay * multiplier ^ (attempt.toNat - 1))
      (Duration.numMilliseconds maxDelay : ℚ)) draw := by
  cases jitter with
  | true =>
    simp only [exponential, jittered, if_true]
    ring
  | false => rfl

section
variable {d m u : ℚ}

theorem jittered_nonneg (hd : 0 ≤ d) (hdraw : 0 ≤ draw) : 0 ≤ jittered jitter d draw := by
  cases jitter with
  | true =>
    have := mul_nonneg hd hdraw
    simp only [jittered, if_true]
    linarith
  | false => exact hd

/-- A draw in the upper half enlarges the delay, whatever its sign. -/
theorem jittered_neg (hd : d ≤ -1) : jittered jitter d (3 / 4) ≤ -1 := by
  cases jitter with
  | true =>
    simp only [jittered, if_true]
    linarith
  | false => exact hd

/-- All draws stay below the next millisecond when five quarters of the delay do not pass it. -/
theorem jittered_lt (hd : 0 ≤ d) (hdm : d ≤ m) :
    (∀ draw, 0 ≤ draw → draw < 1 → jittered true d draw < m + 1) ↔ 5 * d ≤ 4 * (m + 1) := by
  simp only [jittered, if_true]
  constructor
  · intro h
    by_contra hover
    rw [not_le] at hover
    have hpos : 0 < d := by linarith
    -- the draw that brings the delay exactly there
    have hdiv : d * ((m + 1) / d) = m + 1 := mul_div_cancel₀ _ hpos.ne'
    have hlow : 1 < (m + 1) / d := by
      rw [one_lt_div hpos]
      linarith
    have hhigh : (m + 1) / d < 5 / 4 := by
      rw [div_lt_iff₀ hpos]
      linarith
    have := h (2 * ((m + 1) / d) - 3 / 2) (by linarith) (by linarith)
    linarith
  · intro h draw _ hdraw
    rcases hd.eq_or_lt with rfl | hpos
    · linarith
    · have := mul_pos hpos (sub_pos.mpr hdraw)
      linarith

theorem room_iff : 5 * min u m ≤ 4 * (m + 1) ↔ m ≤ 4 ∨ 5 * u ≤ 4 * (m + 1) := by
  rcases min_cases u m with ⟨hmin, hle⟩ | ⟨hmin, hlt⟩
  · rw [hmin]
    refine ⟨.inr, fun h => h.elim (fun hfour => ?_) id⟩
    linarith
  · rw [hmin]
    refine ⟨fun h => .inl (by linarith), fun h => h.elim (fun hfour => ?_) fun hroom => ?_⟩
    · linarith
    · linarith

end

/-- The uncapped delay of an attempt leaves room for the jitter, which is added after the cap. -/
def ExponentialFits (initialDelay : Duration) (multiplier : ℚ) (maxDelay : Duration)
    (jitter : Bool) (attempt : UInt32) : Prop :=
  0 ≤ Duration.numMilliseconds initialDelay ∧ 0 ≤ maxDelay ∧ (jitter = true →
    Duration.max ≤ maxDelay ∨ (Duration.numMilliseconds maxDelay : ℚ) ≤ 4 ∨
      5 * (Duration.numMilliseconds initialDelay * multiplier ^ (attempt.toNat - 1)) ≤
        4 * (Duration.numMilliseconds maxDelay + 1 : ℚ))

theorem cappedAt_exponential (hmul : 1 ≤ multiplier) (hle : attempt ≤ maxAttempts) :
    (exponentialBackoff initialDelay multiplier maxDelay maxAttempts jitter).CappedAt maxDelay
        attempt ↔ ExponentialFits initialDelay multiplier maxDelay jitter attempt := by
  have hpow : 1 ≤ multiplier ^ (attempt.toNat - 1) := one_le_pow₀ hmul
  simp only [CappedAt, capped_exponential hle, ExponentialFits, exponential_eq, ← room_iff]
  generalize hu : Duration.numMilliseconds initialDelay * multiplier ^ (attempt.toNat - 1) = u
  constructor
  · intro h
    obtain ⟨hmax, hsign, -⟩ := h (3 / 4) (by norm_num) (by norm_num)
    have hm : (0 : ℚ) ≤ Duration.numMilliseconds maxDelay := by
      exact_mod_cast numMilliseconds_nonneg hmax
    have hinitial : 0 ≤ Duration.numMilliseconds initialDelay := by
      by_contra hneg
      have hbelow : (Duration.numMilliseconds initialDelay : ℚ) ≤ -1 := by
        exact_mod_cast Int.le_sub_one_of_lt (not_le.mp hneg)
      have hu' : u ≤ -1 := by
        rw [← hu]
        exact (mul_le_of_one_le_right (by linarith) hpow).trans hbelow
      have hgiven : jittered jitter (min u (Duration.numMilliseconds maxDelay : ℚ)) (3 / 4) ≤ -1 :=
        jittered_neg ((min_le_left u _).trans hu')
      linarith
    refine ⟨hinitial, hmax, fun hjitter => ?_⟩
    subst hjitter
    by_cases hbig : Duration.max ≤ maxDelay
    · exact .inl hbig
    · have hu0 : 0 ≤ u := by
        rw [← hu]
        exact mul_nonneg (by exact_mod_cast hinitial) (by linarith)
      refine .inr ((jittered_lt (le_min hu0 hm) (min_le_right _ _)).mp fun draw hdraw hdraw' => ?_)
      exact (h draw hdraw hdraw').2.2.resolve_left hbig
  · rintro ⟨hinitial, hmax, hroom⟩ draw hdraw hdraw'
    have hm : (0 : ℚ) ≤ Duration.numMilliseconds maxDelay := by
      exact_mod_cast numMilliseconds_nonneg hmax
    have hu0 : 0 ≤ u := by
      rw [← hu]
      exact mul_nonneg (by exact_mod_cast hinitial) (by linarith)
    have hleast : 0 ≤ min u (Duration.numMilliseconds maxDelay : ℚ) := le_min hu0 hm
    have hmost : min u (Duration.numMilliseconds maxDelay : ℚ) ≤ _ := min_le_right _ _
    refine ⟨hmax, ?_, ?_⟩
    · have hgiven : 0 ≤ jittered jitter (min u (Duration.numMilliseconds maxDelay : ℚ)) draw :=
        jittered_nonneg hleast hdraw
      linarith
    · cases jitter with
      | true =>
        exact (hroom rfl).imp_right fun h => (jittered_lt hleast hmost).mpr h draw hdraw hdraw'
      | false =>
        simp only [jittered, Bool.false_eq_true, if_false]
        exact .inr (by linarith)

theorem uncapped_mono {earlier : UInt32} (hmul : 1 ≤ multiplier)
    (hinitial : 0 ≤ Duration.numMilliseconds initialDelay) (hle : earlier ≤ attempt) :
    Duration.numMilliseconds initialDelay * multiplier ^ (earlier.toNat - 1) ≤
      Duration.numMilliseconds initialDelay * multiplier ^ (attempt.toNat - 1) := by
  have hsteps : earlier.toNat - 1 ≤ attempt.toNat - 1 :=
    Nat.sub_le_sub_right (UInt32.le_iff_toNat_le.mp hle) 1
  exact mul_le_mul_of_nonneg_left (pow_le_pow_right₀ hmul hsteps) (by exact_mod_cast hinitial)

/-- An attempt that leaves room leaves room for the earlier ones. -/
theorem ExponentialFits.earlier {earlier : UInt32} (hmul : 1 ≤ multiplier)
    (h : ExponentialFits initialDelay multiplier maxDelay jitter attempt)
    (hle : earlier ≤ attempt) :
    ExponentialFits initialDelay multiplier maxDelay jitter earlier := by
  obtain ⟨hinitial, hmax, hroom⟩ := h
  refine ⟨hinitial, hmax, fun hjitter => (hroom hjitter).imp_right fun h => h.imp_right fun h => ?_⟩
  linarith [uncapped_mono hmul hinitial hle]

theorem exponential_mono {earlier : UInt32} {draw' : ℚ} (hmul : 1 ≤ multiplier)
    (hinitial : 0 ≤ Duration.numMilliseconds initialDelay) (hmax : 0 ≤ maxDelay)
    (hle : earlier ≤ attempt) :
    Duration.milliseconds (toInt64
        (exponential initialDelay multiplier maxDelay false earlier draw)) ≤
      Duration.milliseconds (toInt64
        (exponential initialDelay multiplier maxDelay false attempt draw')) := by
  have hcast : (0 : ℚ) ≤ Duration.numMilliseconds initialDelay := by exact_mod_cast hinitial
  have hpos : 0 ≤ exponential initialDelay multiplier maxDelay false earlier draw :=
    le_min (mul_nonneg hcast (pow_nonneg (by linarith) _))
      (by exact_mod_cast numMilliseconds_nonneg hmax)
  have hgrows : exponential initialDelay multiplier maxDelay false earlier draw ≤
      exponential initialDelay multiplier maxDelay false attempt draw' :=
    min_le_min_right _ (uncapped_mono hmul hinitial hle)
  exact Int.mul_le_mul_of_nonneg_right (toInt64_mono hpos hgrows) (by decide)

theorem respectsCap_exponential (hmul : 1 ≤ multiplier) :
    (exponentialBackoff initialDelay multiplier maxDelay maxAttempts jitter).RespectsCap maxDelay
        jitter ↔
      maxAttempts = 0 ∨
        ExponentialFits initialDelay multiplier maxDelay jitter maxAttempts := by
  constructor
  · intro h
    rcases eq_or_ne maxAttempts 0 with hzero | hsome
    · exact .inl hzero
    · have hle := UInt32.le_refl maxAttempts
      exact .inr ((cappedAt_exponential hmul hle).mp (h.capped maxAttempts (one_le hsome) hle))
  · intro h
    refine ⟨fun a ha ha' => ?_, ?_⟩
    · rcases h with rfl | h
      · exact one_not_le_zero (UInt32.le_trans ha ha')
      · exact (cappedAt_exponential hmul ha').mpr (h.earlier hmul ha')
    · rintro rfl a b ha hab hb draw draw' delay delay' hgives hgives'
      obtain ⟨-, rfl⟩ := (gives_exponential (UInt32.le_trans hab hb)).mp hgives
      obtain ⟨-, rfl⟩ := (gives_exponential hb).mp hgives'
      rcases h with rfl | ⟨hinitial, hmax, -⟩
      · exact one_not_le_zero (UInt32.le_trans (UInt32.le_trans ha hab) hb)
      · exact exponential_mono hmul hinitial hmax hab

end

section
variable {initialDelay increment : Duration} {maxAttempts : UInt32}

/-- What the cast of an attempt makes of it. -/
theorem toInt32_attempt (attempt : UInt32) : attempt.toInt32.toInt =
    if attempt.toNat < 2147483648 then (attempt.toNat : Int) else attempt.toNat - 4294967296 := by
  have hvalue : attempt.toInt32.toInt = (attempt.toNat : Int).bmod (2 ^ 32) :=
    BitVec.toInt_eq_toNat_bmod _
  have hlt := attempt.toNat_lt
  rw [hvalue, Int.bmod_def]
  split <;> split <;> omega

theorem gives_linear (hle : attempt ≤ maxAttempts) :
    (linearBackoff initialDelay increment maxDelay maxAttempts).Gives attempt draw delay ↔
      -2147483648 ≤ attempt.toInt32.toInt - 1 ∧
      secondsFit (increment * (attempt.toInt32.toInt - 1)) = true ∧
      Duration.inRange (initialDelay + increment * (attempt.toInt32.toInt - 1)) = true ∧
      min (initialDelay + increment * (attempt.toInt32.toInt - 1)) maxDelay = delay := by
  have hwithin : ¬ attempt > maxAttempts := UInt32.not_lt.mpr hle
  rw [gives_iff (by exact hle)]
  simp only [SpansFit, delayAt, if_neg hwithin, Option.some.injEq, and_assoc]

/-- The attempt survives its cast and the span fits, or the cast made it negative and
what is subtracted is still covered. -/
def LinearFits (initialDelay increment : Duration) (attempt : UInt32) : Prop :=
  attempt.toNat < 2147483648 ∧
      initialDelay + increment * ((attempt.toNat : Int) - 1) ≤ Duration.max ∨
    2147483648 < attempt.toNat ∧ increment * (4294967297 - (attempt.toNat : Int)) ≤ initialDelay

theorem cappedAt_linear (hinitial : 0 ≤ initialDelay) (hincrement : 0 ≤ increment)
    (hmax : 0 ≤ maxDelay) (hrange : Duration.inRange initialDelay = true) (hone : 1 ≤ attempt)
    (hle : attempt ≤ maxAttempts) :
    (linearBackoff initialDelay increment maxDelay maxAttempts).CappedAt maxDelay attempt ↔
      LinearFits initialDelay increment attempt := by
  have hpos : 1 ≤ attempt.toNat := UInt32.le_iff_toNat_le.mp hone
  have hlt := attempt.toNat_lt
  have hdraws : (linearBackoff initialDelay increment maxDelay maxAttempts).CappedAt maxDelay
      attempt ↔ -2147483648 ≤ attempt.toInt32.toInt - 1 ∧
        secondsFit (increment * (attempt.toInt32.toInt - 1)) = true ∧
        Duration.inRange (initialDelay + increment * (attempt.toInt32.toInt - 1)) = true ∧
        0 ≤ initialDelay + increment * (attempt.toInt32.toInt - 1) := by
    simp only [CappedAt, gives_linear hle]
    constructor
    · intro h
      obtain ⟨_, ⟨hsteps, hspan, hsum, rfl⟩, hsign, -⟩ := h 0 (le_refl _) zero_lt_one
      exact ⟨hsteps, hspan, hsum, hsign.trans (min_le_left _ _)⟩
    · rintro ⟨hsteps, hspan, hsum, hsign⟩ draw - -
      exact ⟨_, ⟨hsteps, hspan, hsum, rfl⟩, le_min hsign hmax, min_le_right _ _⟩
  rw [hdraws, toInt32_attempt, LinearFits]
  clear hdraws
  simp only [Duration.inRange, secondsFit, Bool.and_eq_true, decide_eq_true_eq] at hrange ⊢
  simp only [Duration, Duration.max, Duration.milliseconds] at *
  split
  · have hsteps : (0 : Int) ≤ attempt.toNat - 1 := by omega
    have hspan := mul_nonneg hincrement hsteps
    omega
  · have hsteps : (0 : Int) ≤ 4294967297 - attempt.toNat := by omega
    have hspan := mul_nonneg hincrement hsteps
    have hback : (attempt.toNat : Int) - 4294967296 - 1 = -(4294967297 - attempt.toNat) := by omega
    rw [hback, mul_neg]
    omega

theorem LinearFits.earlier {earlier : UInt32} (hincrement : 0 ≤ increment)
    (hsmall : attempt.toNat < 2147483648)
    (h : initialDelay + increment * ((attempt.toNat : Int) - 1) ≤ Duration.max)
    (hle : earlier ≤ attempt) : LinearFits initialDelay increment earlier := by
  have hsteps : earlier.toNat ≤ attempt.toNat := UInt32.le_iff_toNat_le.mp hle
  have hspan := mul_le_mul_of_nonneg_left
    (by omega : (earlier.toNat : Int) - 1 ≤ (attempt.toNat : Int) - 1) hincrement
  have hsum : initialDelay + increment * ((earlier.toNat : Int) - 1) ≤
      initialDelay + increment * ((attempt.toNat : Int) - 1) := Int.add_le_add_left hspan _
  exact .inl ⟨by omega, hsum.trans h⟩

theorem respectsCap_linear (hinitial : 0 ≤ initialDelay) (hincrement : 0 ≤ increment)
    (hmax : 0 ≤ maxDelay) (hrange : Duration.inRange initialDelay = true) :
    (linearBackoff initialDelay increment maxDelay maxAttempts).RespectsCap maxDelay false ↔
      maxAttempts = 0 ∨ maxAttempts.toNat < 2147483648 ∧
        initialDelay + increment * ((maxAttempts.toNat : Int) - 1) ≤ Duration.max := by
  have hat (a : UInt32) (hone : 1 ≤ a) (hle : a ≤ maxAttempts) :
      (linearBackoff initialDelay increment maxDelay maxAttempts).CappedAt maxDelay a ↔
        LinearFits initialDelay increment a :=
    cappedAt_linear hinitial hincrement hmax hrange hone hle
  constructor
  · intro h
    rcases eq_or_ne maxAttempts 0 with hzero | hsome
    · exact .inl hzero
    · refine .inr ?_
      by_cases hsmall : maxAttempts.toNat < 2147483648
      · have hlast := (hat maxAttempts (one_le hsome) (UInt32.le_refl _)).mp
          (h.capped _ (one_le hsome) (UInt32.le_refl _))
        rcases hlast with hlast | ⟨hlarge, -⟩
        · exact hlast
        · omega
      · -- the cast of this attempt is the least number there is, and one is taken from it
        have hle : (2147483648 : UInt32) ≤ maxAttempts := by
          rw [UInt32.le_iff_toNat_le]
          exact not_lt.mp hsmall
        rcases (hat 2147483648 (by decide) hle).mp (h.capped _ (by decide) hle) with
          ⟨hlarge, -⟩ | ⟨hlarge, -⟩
        · exact absurd hlarge (by decide)
        · exact absurd hlarge (by decide)
  · intro h
    refine ⟨fun a ha ha' => ?_, fun _ a b ha hab hb draw draw' delay delay' hgives hgives' => ?_⟩
    · rcases h with rfl | ⟨hsmall, hfits⟩
      · exact one_not_le_zero (UInt32.le_trans ha ha')
      · exact (hat a ha ha').mpr (.earlier hincrement hsmall hfits ha')
    · rcases h with rfl | ⟨hsmall, hfits⟩
      · exact one_not_le_zero (UInt32.le_trans (UInt32.le_trans ha hab) hb)
      · have hle : a.toNat ≤ b.toNat := UInt32.le_iff_toNat_le.mp hab
        have hle' : b.toNat ≤ maxAttempts.toNat := UInt32.le_iff_toNat_le.mp hb
        obtain ⟨-, -, -, rfl⟩ := (gives_linear (UInt32.le_trans hab hb)).mp hgives
        obtain ⟨-, -, -, rfl⟩ := (gives_linear hb).mp hgives'
        rw [toInt32_attempt, toInt32_attempt, if_pos (by omega), if_pos (by omega)]
        exact min_le_min_right _ (Int.add_le_add_left
          (mul_le_mul_of_nonneg_left (by omega) hincrement) _)

end

/-- The maximum is respected, at one attempt or at all of them, when jitter has room below it
and a linear delay fits its types. -/
theorem backoff_cap_iff (initialDelay maxDelay : Duration) (maxAttempts : UInt32) :
    (∀ multiplier jitter, 1 ≤ multiplier →
      ((exponentialBackoff initialDelay multiplier maxDelay maxAttempts jitter).RespectsCap
          maxDelay jitter ↔
        maxAttempts = 0 ∨
          ExponentialFits initialDelay multiplier maxDelay jitter maxAttempts) ∧
      ∀ attempt, 1 ≤ attempt → attempt ≤ maxAttempts →
        ((exponentialBackoff initialDelay multiplier maxDelay maxAttempts jitter).CappedAt
            maxDelay attempt ↔
          ExponentialFits initialDelay multiplier maxDelay jitter attempt)) ∧
    ∀ increment, Duration.inRange initialDelay = true →
      0 ≤ initialDelay → 0 ≤ increment → 0 ≤ maxDelay →
      ((linearBackoff initialDelay increment maxDelay maxAttempts).RespectsCap maxDelay false ↔
        maxAttempts = 0 ∨ maxAttempts.toNat < 2147483648 ∧
          initialDelay + increment * ((maxAttempts.toNat : Int) - 1) ≤ Duration.max) ∧
      ∀ attempt, 1 ≤ attempt → attempt ≤ maxAttempts →
        ((linearBackoff initialDelay increment maxDelay maxAttempts).CappedAt maxDelay attempt ↔
          LinearFits initialDelay increment attempt) :=
  ⟨fun _ _ hmul => ⟨respectsCap_exponential hmul, fun _ _ hle => cappedAt_exponential hmul hle⟩,
    fun _ hrange hinitial hincrement hmax =>
      ⟨respectsCap_linear hinitial hincrement hmax hrange,
        fun _ hone hle => cappedAt_linear hinitial hincrement hmax hrange hone hle⟩⟩

/-- The default keeps to its fifteen minutes: no attempt comes near them. -/
theorem backoff_cap_iff_default : default.RespectsCap (Duration.minutes 15) true := by
  refine ((backoff_cap_iff _ _ _).1 2 _ (by norm_num)).1.mpr (.inr ⟨by decide, by decide, ?_⟩)
  exact fun _ => .inr (.inr (by decide +kernel))

/-- Jitter lifts a delay over its maximum, and the cast of the attempt 2^31 cannot be lowered. -/
theorem jitter_exceeds_maximum :
    (exponentialBackoff (Duration.seconds 1) 2 (Duration.seconds 1) 1 true).Gives 1 (3 / 4)
        (Duration.milliseconds 1125) ∧
      Duration.seconds 1 < Duration.milliseconds 1125 ∧
    ¬ (linearBackoff 0 0 0 2147483648).CappedAt 0 2147483648 := by
  refine ⟨(gives_exponential (by decide)).mpr (by decide +kernel), by decide, ?_⟩
  rw [cappedAt_linear (by decide) (by decide) (by decide) (by decide) (by decide) (by decide)]
  rintro (⟨hlarge, -⟩ | ⟨hlarge, -⟩)
  · exact absurd hlarge (by decide)
  · exact absurd hlarge (by decide)

end RetryStrategy
end Qml
