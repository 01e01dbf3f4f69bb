import Varsten.Savings.Billing

/-!
# The cap of the fee

`compute_fee` in whole cents, on decimals of any length. A quarter of the savings is rounded to
cents like the fee itself, so the cap lies above a quarter wherever that quarter rounds up.
-/

namespace Varsten.Savings.FeeCap

open Python.Decimals
open Python.Precision
open Savings.Billing

/-! ## The fee in cents -/

def centsOf (x : ℚ) : ℤ := roundHalfUp (x * 100)

section Cents

variable (verified percent floor : ℚ)

def savedCents : ℤ := max (centsOf verified) 0

def saved : ℚ := savedCents verified / 100

def shareCents : ℤ := centsOf (mul (saved verified) (effectiveGainSharePercent percent))

def liftedCents : ℤ :=
  if 0 < floor then max (shareCents verified percent) (centsOf floor)
  else shareCents verified percent

def capCents : ℤ := centsOf (mul (saved verified) maxGainSharePercent)

def feeCents : ℤ := min (liftedCents verified percent floor) (capCents verified)

end Cents

section Values

variable {verified percent floor : ℚ}

theorem centsOf_mono {x y : ℚ} (h : x ≤ y) : centsOf x ≤ centsOf y :=
  roundHalfUp_mono (by linarith)

theorem centsOf_nonneg {x : ℚ} (h : 0 ≤ x) : 0 ≤ centsOf x := roundHalfUp_nonneg (by linarith)

theorem savedCents_nonneg : 0 ≤ savedCents verified := le_max_right _ _

theorem savedCents_mono {v w : ℚ} (h : v ≤ w) : savedCents v ≤ savedCents w :=
  max_le_max_right 0 (centsOf_mono h)

theorem savedCents_of_nonpos (h : verified ≤ 0) : savedCents verified = 0 := by
  have hround : centsOf verified ≤ centsOf 0 := centsOf_mono h
  rw [centsOf, centsOf, zero_mul, roundHalfUp_zero] at hround
  exact max_eq_right hround

theorem savedCents_lt (h : |centsOf verified| < 10 ^ prec) : savedCents verified < 10 ^ prec :=
  max_lt ((le_abs_self _).trans_lt h) (by positivity)

theorem saved_nonneg : 0 ≤ saved verified :=
  div_nonneg (Int.cast_nonneg savedCents_nonneg) (by norm_num)

theorem saved_mono {v w : ℚ} (h : v ≤ w) : saved v ≤ saved w :=
  div_le_div_of_nonneg_right (Int.cast_le.2 (savedCents_mono h)) (by norm_num)

theorem effective_nonneg : 0 ≤ effectiveGainSharePercent percent := le_max_left _ _

theorem effective_mono {p q : ℚ} (h : p ≤ q) :
    effectiveGainSharePercent p ≤ effectiveGainSharePercent q :=
  max_le_max_left 0 (min_le_min_right _ h)

theorem effective_le : effectiveGainSharePercent percent ≤ maxGainSharePercent :=
  max_le (by norm_num [maxGainSharePercent]) (min_le_right _ _)

theorem money?_eq (x : ℚ) :
    money? x = if |centsOf x| < 10 ^ prec then some ((centsOf x : ℚ) / 100) else none := by
  rw [money?, Python.Precision.quantize, Python.Decimals.quantize, centsOf]
  push_cast
  rfl

theorem money?_of_lt {x : ℚ} (h : |centsOf x| < 10 ^ prec) :
    money? x = some ((centsOf x : ℚ) / 100) := by
  rw [money?_eq, if_pos h]

theorem capCents_lt (h : |centsOf verified| < 10 ^ prec) : capCents verified < 10 ^ prec := by
  have hsaved : saved verified ≤ 10 ^ 26 := by
    have hlt : (savedCents verified : ℚ) ≤ ((10 ^ prec : ℤ) : ℚ) :=
      Int.cast_le.2 (savedCents_lt h).le
    rw [prec] at hlt
    rw [saved, div_le_iff₀ (by norm_num)]
    push_cast at hlt
    linarith
  have hmul : mul (saved verified) maxGainSharePercent ≤ mul (10 ^ 26) maxGainSharePercent :=
    mul_mono saved_nonneg (by norm_num [maxGainSharePercent]) hsaved le_rfl
  have hcap : centsOf (mul (10 ^ 26) maxGainSharePercent) < 10 ^ prec := by decide +kernel
  exact (centsOf_mono hmul).trans_lt hcap

theorem shareCents_nonneg : 0 ≤ shareCents verified percent :=
  centsOf_nonneg (Python.Precision.mul_nonneg saved_nonneg effective_nonneg)

theorem capCents_nonneg : 0 ≤ capCents verified :=
  centsOf_nonneg (Python.Precision.mul_nonneg saved_nonneg (by norm_num [maxGainSharePercent]))

theorem shareCents_le_capCents : shareCents verified percent ≤ capCents verified :=
  centsOf_mono (mul_mono saved_nonneg effective_nonneg le_rfl effective_le)

theorem liftedCents_nonneg : 0 ≤ liftedCents verified percent floor := by
  rw [liftedCents]
  split_ifs
  · exact shareCents_nonneg.trans (le_max_left _ _)
  · exact shareCents_nonneg

theorem feeCents_nonneg : 0 ≤ feeCents verified percent floor :=
  le_min liftedCents_nonneg capCents_nonneg

theorem feeCents_lt (h : |centsOf verified| < 10 ^ prec) :
    feeCents verified percent floor < 10 ^ prec := (min_le_right _ _).trans_lt (capCents_lt h)

def bill (verified percent floor : ℚ) : Billable where
  verifiedSavingsUsd := saved verified
  gainSharePercent := effectiveGainSharePercent percent
  monthlyFeeFloorUsd := centsOf floor / 100
  feeUsd := feeCents verified percent floor / 100
  netSavingsUsd := saved verified - feeCents verified percent floor / 100

theorem gross_eq : max ((centsOf verified : ℚ) / 100) 0 = saved verified := by
  rw [saved, savedCents]
  push_cast
  rw [← max_div_div_right (by norm_num), zero_div]

theorem fee_eq : min ((liftedCents verified percent floor : ℚ) / 100) (capCents verified / 100) =
    feeCents verified percent floor / 100 := by
  rw [feeCents]
  push_cast
  rw [min_div_div_right (by norm_num)]

theorem lifted_eq (h : |centsOf floor| < 10 ^ prec) :
    liftFee floor (shareCents verified percent / 100) =
      some ((liftedCents verified percent floor : ℚ) / 100) := by
  rw [liftFee, money?_of_lt h, liftedCents]
  split_ifs
  · push_cast
    rw [Option.map_some, max_div_div_right (by norm_num)]
  · rfl

theorem net_eq (h : |centsOf verified| < 10 ^ prec) :
    context (saved verified - feeCents verified percent floor / 100) =
      saved verified - feeCents verified percent floor / 100 := by
  have hcents : (saved verified - feeCents verified percent floor / 100) * 10 ^ 2 =
      ((savedCents verified - feeCents verified percent floor : ℤ) : ℚ) := by
    rw [saved]
    push_cast
    ring
  have hfee : 0 ≤ feeCents verified percent floor := feeCents_nonneg
  have hfee' : feeCents verified percent floor < 10 ^ prec := feeCents_lt h
  have hsaved : 0 ≤ savedCents verified := savedCents_nonneg
  have hsaved' := savedCents_lt h
  refine context_of_whole ⟨_, hcents⟩ ?_
  have habs : |savedCents verified - feeCents verified percent floor| < 10 ^ prec := by
    rw [abs_lt]
    constructor <;> omega
  calc |saved verified - feeCents verified percent floor / 100| * 10 ^ 2
      = |((savedCents verified - feeCents verified percent floor : ℤ) : ℚ)| := by
        rw [← hcents, abs_mul, abs_of_nonneg (by norm_num : (0 : ℚ) ≤ 10 ^ 2)]
    _ < 10 ^ prec := by exact_mod_cast habs

theorem computeFee_eq : computeFee verified percent floor =
    if |centsOf verified| < 10 ^ prec ∧ |centsOf floor| < 10 ^ prec then
      some (bill verified percent floor) else none := by
  unfold computeFee
  by_cases hverified : |centsOf verified| < 10 ^ prec
  · have hcap : |capCents verified| < 10 ^ prec := by
      rw [abs_of_nonneg capCents_nonneg]
      exact capCents_lt hverified
    have hshare : |shareCents verified percent| < 10 ^ prec := by
      rw [abs_of_nonneg shareCents_nonneg]
      exact shareCents_le_capCents.trans_lt (capCents_lt hverified)
    have hmoney := money?_of_lt hverified
    have hmoneyShare : money? (mul (saved verified) (effectiveGainSharePercent percent)) =
        some ((shareCents verified percent : ℚ) / 100) := money?_of_lt hshare
    have hmoneyCap : money? (mul (saved verified) maxGainSharePercent) =
        some ((capCents verified : ℚ) / 100) := money?_of_lt hcap
    simp only [hmoney, Option.bind_eq_bind, Option.bind_some, gross_eq, hmoneyShare, hmoneyCap]
    by_cases hfloor : |centsOf floor| < 10 ^ prec
    · rw [lifted_eq hfloor, Option.bind_some, money?_of_lt hfloor, Option.bind_some, fee_eq,
        net_eq hverified, if_pos ⟨hverified, hfloor⟩]
      rfl
    · have hnone : money? floor = none := by rw [money?_eq, if_neg hfloor]
      rw [if_neg fun h => hfloor h.2, hnone]
      cases liftFee floor (shareCents verified percent / 100) <;> rfl
  · rw [if_neg fun h => hverified h.1, money?_eq, if_neg hverified]
    rfl

end Values

/-! ## A quarter of the cents -/

section Quarter

variable {n m : ℤ} {x : ℚ}

theorem floor_div (n : ℤ) (d : ℕ) : ⌊(n : ℚ) / d⌋ = n / d := Rat.floor_intCast_div_natCast n d

theorem roundHalfEven_half (n : ℤ) : roundHalfEven ((n : ℚ) / 2) =
    if n % 2 = 0 then n / 2 else if n / 2 % 2 = 0 then n / 2 else n / 2 + 1 := by
  have hfloor : ⌊(n : ℚ) / 2⌋ = n / 2 := floor_div n 2
  have hn : (n : ℚ) = 2 * (n / 2 : ℤ) + (n % 2 : ℤ) := by
    exact_mod_cast (Int.mul_ediv_add_emod n 2).symm
  have hrest : (n : ℚ) / 2 - (n / 2 : ℤ) = (n % 2 : ℤ) / 2 := by
    linarith
  unfold roundHalfEven
  dsimp only
  rw [hfloor, hrest]
  rcases Int.emod_two_eq_zero_or_one n with h | h
  · rw [h]
    norm_num
  · rw [h]
    norm_num

theorem roundHalfEven_quarter (n : ℤ) : roundHalfEven ((n : ℚ) / 4) =
    if n % 4 < 2 then n / 4 else if n % 4 = 3 then n / 4 + 1
      else if n / 4 % 2 = 0 then n / 4 else n / 4 + 1 := by
  have hfloor : ⌊(n : ℚ) / 4⌋ = n / 4 := floor_div n 4
  have hn : (n : ℚ) = 4 * (n / 4 : ℤ) + (n % 4 : ℤ) := by
    exact_mod_cast (Int.mul_ediv_add_emod n 4).symm
  have hrest : (n : ℚ) / 4 - (n / 4 : ℤ) = (n % 4 : ℤ) / 4 := by
    linarith
  unfold roundHalfEven
  dsimp only
  rw [hfloor, hrest]
  have hcases : n % 4 = 0 ∨ n % 4 = 1 ∨ n % 4 = 2 ∨ n % 4 = 3 := by omega
  rcases hcases with h | h | h | h <;> rw [h] <;> norm_num

theorem context_eq_of_log {k : ℤ} (hlo : (10 : ℚ) ^ k ≤ x) (hhi : x < 10 ^ (k + 1)) :
    context x = roundHalfEven (x / 10 ^ (k + 1 - prec)) * 10 ^ (k + 1 - prec) := by
  have hpos : 0 < x := lt_of_lt_of_le (zpow_pos (by norm_num) k) hlo
  have hlog : Int.log 10 |x| = k := by
    rw [abs_of_pos hpos]
    have hge : k ≤ Int.log 10 x :=
      (Int.zpow_le_iff_le_log (b := 10) (by norm_num) hpos).1 (by exact_mod_cast hlo)
    have hlt : Int.log 10 x < k + 1 :=
      (Int.lt_zpow_iff_log_lt (b := 10) (by norm_num) hpos).1 (by exact_mod_cast hhi)
    omega
  rw [context, hlog]

/-- A quarter of the savings that is less than half a cent above whole cents: the product loses
digits from `4 * 10 ^ 27` cents on, and then half a cent goes to the even neighbour. -/
def QuarterBelow (n : ℤ) : Prop := n % 4 < 2 ∨ 4 * 10 ^ 27 ≤ n ∧ n % 8 = 2

theorem cents_quarter_le_iff (hn : 0 ≤ n) (hlt : n < 10 ^ prec) :
    centsOf (mul ((n : ℚ) / 100) maxGainSharePercent) ≤ n / 4 ↔ QuarterBelow n := by
  have hq : (n : ℚ) / 100 * maxGainSharePercent = n / 400 := by
    rw [maxGainSharePercent]
    ring
  have hm : 0 ≤ n / 4 := Int.ediv_nonneg hn (by norm_num)
  have hn' : (0 : ℚ) ≤ n := Int.cast_nonneg hn
  rw [prec] at hlt
  rw [centsOf, mul, hq, roundHalfUp_le_iff hm, QuarterBelow]
  rcases lt_or_ge n (4 * 10 ^ 26) with hsmall | hlarge
  -- All digits of the product fit.
  · have hcast : (n : ℚ) < 4 * 10 ^ 26 := by exact_mod_cast hsmall
    have hwhole : Whole 4 ((n : ℚ) / 400) := ⟨25 * n, by push_cast; ring⟩
    have hexact : context ((n : ℚ) / 400) = n / 400 := by
      refine context_of_whole hwhole ?_
      rw [abs_of_nonneg (by positivity), prec]
      linarith
    rw [hexact]
    have hiff : (n : ℚ) / 400 * 100 < (n / 4 : ℤ) + 1 / 2 ↔ n < 4 * (n / 4) + 2 := by
      rw [← Int.cast_lt (R := ℚ)]
      push_cast
      constructor <;> intro h <;> linarith
    rw [hiff]
    omega
  · rcases lt_or_ge n (4 * 10 ^ 27) with hmiddle | htop
    -- The last digit of the product is a tenth of a cent.
    · have hcast : (n : ℚ) < 4 * 10 ^ 27 := by exact_mod_cast hmiddle
      have hcast' : (4 * 10 ^ 26 : ℚ) ≤ n := by exact_mod_cast hlarge
      have hlog := @context_eq_of_log ((n : ℚ) / 400) 24 (by norm_num; linarith)
        (by norm_num; linarith)
      have hscaled : (n : ℚ) / 400 / 10 ^ ((24 : ℤ) + 1 - prec) = ((5 * n : ℤ) : ℚ) / 2 := by
        norm_num [prec]
        ring
      rw [hlog, hscaled, roundHalfEven_half]
      generalize hr : (if 5 * n % 2 = 0 then 5 * n / 2
        else if 5 * n / 2 % 2 = 0 then 5 * n / 2 else 5 * n / 2 + 1) = r
      have hiff : (r : ℚ) * 10 ^ ((24 : ℤ) + 1 - prec) * 100 < (n / 4 : ℤ) + 1 / 2 ↔
          r < 10 * (n / 4) + 5 := by
        rw [← Int.cast_lt (R := ℚ)]
        norm_num [prec]
        constructor <;> intro h <;> linarith
      rw [hiff, ← hr]
      split_ifs <;> omega
    -- The last digit of the product is a cent.
    · have hcast : (n : ℚ) < 10 ^ 28 := by exact_mod_cast hlt
      have hcast' : (4 * 10 ^ 27 : ℚ) ≤ n := by exact_mod_cast htop
      have hlog := @context_eq_of_log ((n : ℚ) / 400) 25 (by norm_num; linarith)
        (by norm_num; linarith)
      have hscaled : (n : ℚ) / 400 / 10 ^ ((25 : ℤ) + 1 - prec) = (n : ℚ) / 4 := by
        norm_num [prec]
        ring
      rw [hlog, hscaled, roundHalfEven_quarter]
      generalize hr : (if n % 4 < 2 then n / 4 else if n % 4 = 3 then n / 4 + 1
        else if n / 4 % 2 = 0 then n / 4 else n / 4 + 1) = r
      have hiff : (r : ℚ) * 10 ^ ((25 : ℤ) + 1 - prec) * 100 < (n / 4 : ℤ) + 1 / 2 ↔
          r ≤ n / 4 := by
        rw [← Int.lt_add_one_iff, ← Int.cast_lt (R := ℚ)]
        norm_num [prec]
        constructor
        · intro h
          have hint : r < n / 4 + 1 := by
            by_contra hge
            have hge' : ((n / 4 + 1 : ℤ) : ℚ) ≤ r := Int.cast_le.2 (not_lt.1 hge)
            push_cast at hge'
            linarith
          exact_mod_cast hint
        · intro h
          have hint : r ≤ n / 4 := Int.lt_add_one_iff.1 (by exact_mod_cast h)
          have hint' : (r : ℚ) ≤ (n / 4 : ℤ) := Int.cast_le.2 hint
          linarith
      rw [hiff, ← hr]
      split_ifs <;> omega

end Quarter

/-! ## The promises of a bill -/

section Fee

variable {verified percent floor : ℚ}

theorem shareCents_mono {v w p q : ℚ} (hv : v ≤ w) (hp : p ≤ q) :
    shareCents v p ≤ shareCents w q :=
  centsOf_mono (mul_mono saved_nonneg effective_nonneg (saved_mono hv) (effective_mono hp))

theorem liftedCents_mono {v w p q f g : ℚ} (hv : v ≤ w) (hp : p ≤ q) (hf : f ≤ g) :
    liftedCents v p f ≤ liftedCents w q g := by
  have hshare := shareCents_mono hv hp
  rw [liftedCents, liftedCents]
  split_ifs with hpos hpos'
  · exact max_le_max hshare (centsOf_mono hf)
  · exact absurd (hpos.trans_le hf) hpos'
  · exact hshare.trans (le_max_left _ _)
  · exact hshare

theorem feeCents_mono {v w p q f g : ℚ} (hv : v ≤ w) (hp : p ≤ q) (hf : f ≤ g) :
    feeCents v p f ≤ feeCents w q g :=
  min_le_min (liftedCents_mono hv hp hf) (centsOf_mono (mul_mono saved_nonneg
    (by norm_num [maxGainSharePercent]) (saved_mono hv) le_rfl))

theorem fee_mono {v w p q f g : ℚ} (hv : v ≤ w) (hp : p ≤ q) (hf : f ≤ g) :
    (bill v p f).feeUsd ≤ (bill w q g).feeUsd :=
  div_le_div_of_nonneg_right (Int.cast_le.2 (feeCents_mono hv hp hf)) (by norm_num)

theorem feeCents_of_nonpos (h : verified ≤ 0) : feeCents verified percent floor = 0 := by
  have hsaved : saved verified = 0 := by rw [saved, savedCents_of_nonpos h, Int.cast_zero, zero_div]
  have hcap : capCents verified = 0 := by
    rw [capCents, hsaved, mul, zero_mul, centsOf, context_eq_rounded, Python.Rounding.rounded_zero,
      zero_mul, roundHalfUp_zero]
  exact le_antisymm (hcap ▸ min_le_right _ _) feeCents_nonneg

theorem computeFee_eq_some {b : Billable} (h : computeFee verified percent floor = some b) :
    b = bill verified percent floor := by
  rw [computeFee_eq] at h
  split_ifs at h
  exact (Option.some.inj h).symm

/-- What the bill of a verified saving promises. -/
structure Keeps (verified percent floor : ℚ) (b : Billable) : Prop where
  nonneg : 0 ≤ b.feeUsd
  capped : b.feeUsd ≤ maxGainSharePercent * b.verifiedSavingsUsd
  splits : b.feeUsd + b.netSavingsUsd = b.verifiedSavingsUsd
  free : verified ≤ 0 → b.feeUsd = 0
  mono_savings : ∀ v, verified ≤ v → ∀ b' ∈ computeFee v percent floor, b.feeUsd ≤ b'.feeUsd
  mono_percent : ∀ p, percent ≤ p → ∀ b' ∈ computeFee verified p floor, b.feeUsd ≤ b'.feeUsd
  mono_floor : ∀ f, floor ≤ f → ∀ b' ∈ computeFee verified percent f, b.feeUsd ≤ b'.feeUsd

/-- A bill is made and keeps what it promises. -/
def Promises (verified percent floor : ℚ) : Prop :=
  ∃ b, computeFee verified percent floor = some b ∧ Keeps verified percent floor b

/-- A quarter of the savings does not round up, or neither the rate nor the floor comes to the cent
it rounds up to. -/
def BelowCap (verified percent floor : ℚ) : Prop :=
  QuarterBelow (savedCents verified) ∨
    mul (saved verified) (effectiveGainSharePercent percent) * 100 <
        (savedCents verified / 4 : ℤ) + 1 / 2 ∧
      floor * 100 < (savedCents verified / 4 : ℤ) + 1 / 2

theorem liftedCents_le_iff {m : ℤ} (hm : 0 ≤ m) : liftedCents verified percent floor ≤ m ↔
    mul (saved verified) (effectiveGainSharePercent percent) * 100 < m + 1 / 2 ∧
      floor * 100 < m + 1 / 2 := by
  rw [liftedCents]
  split_ifs with hfloor
  · rw [max_le_iff, shareCents, centsOf, centsOf, roundHalfUp_le_iff hm, roundHalfUp_le_iff hm]
  · have hm' : (0 : ℚ) ≤ m := Int.cast_nonneg hm
    rw [shareCents, centsOf, roundHalfUp_le_iff hm]
    exact (and_iff_left (by linarith)).symm

theorem feeCents_le_iff (h : |centsOf verified| < 10 ^ prec) :
    feeCents verified percent floor ≤ savedCents verified / 4 ↔
      BelowCap verified percent floor := by
  have hsaved : 0 ≤ savedCents verified := savedCents_nonneg
  rw [BelowCap, ← liftedCents_le_iff (Int.ediv_nonneg hsaved (by norm_num)),
    ← cents_quarter_le_iff hsaved (savedCents_lt h), feeCents, min_le_iff, or_comm]
  rfl

theorem capped_iff (h : |centsOf verified| < 10 ^ prec) :
    (bill verified percent floor).feeUsd ≤
        maxGainSharePercent * (bill verified percent floor).verifiedSavingsUsd ↔
      BelowCap verified percent floor := by
  rw [← feeCents_le_iff h, Int.le_ediv_iff_mul_le (by norm_num), ← Int.cast_le (R := ℚ)]
  push_cast
  rw [bill, saved, maxGainSharePercent]
  dsimp only
  constructor <;> intro h <;> linarith

theorem keeps_iff (h : |centsOf verified| < 10 ^ prec) :
    Keeps verified percent floor (bill verified percent floor) ↔
      BelowCap verified percent floor := by
  refine ⟨fun hkeeps => (capped_iff h).1 hkeeps.capped, fun hbelow =>
    ⟨?_, (capped_iff h).2 hbelow, ?_, ?_, ?_, ?_, ?_⟩⟩
  · exact div_nonneg (Int.cast_nonneg feeCents_nonneg) (by norm_num)
  · simp only [bill]
    ring
  · intro hnone
    rw [bill, feeCents_of_nonpos hnone, Int.cast_zero, zero_div]
  · rintro v hv b hb
    rw [computeFee_eq_some hb]
    exact fee_mono hv le_rfl le_rfl
  · rintro p hp b hb
    rw [computeFee_eq_some hb]
    exact fee_mono le_rfl hp le_rfl
  · rintro f hf b hb
    rw [computeFee_eq_some hb]
    exact fee_mono le_rfl le_rfl hf

end Fee

/-- A bill is made and keeps its promises exactly where savings and floor are in range and no fee
comes to a cap that was rounded up. -/
theorem promises_iff (verified percent floor : ℚ) :
    Promises verified percent floor ↔
      (|centsOf verified| < 10 ^ prec ∧ |centsOf floor| < 10 ^ prec) ∧
        BelowCap verified percent floor := by
  unfold Promises
  rw [computeFee_eq]
  split_ifs with hrange
  · simp only [Option.some.injEq, exists_eq_left', hrange, and_self, true_and]
    exact keeps_iff hrange.1
  · simp [hrange]

/-- Two cents of savings cost one cent at a quarter. -/
theorem two_cents_overcharged : ¬ Promises (2 / 100) (25 / 100) 0 := by
  rintro ⟨b, hb, hkeeps⟩
  obtain rfl := computeFee_eq_some hb
  have hcapped := hkeeps.capped
  revert hcapped
  decide +kernel

end Varsten.Savings.FeeCap
