import NioApps.Spec.Commands

/-! The size column of FLS. The sum in front of the last division does not fit 32 bits
for some sizes above 1 GiB, and only there: for every other size the text is that of the
computation with integers, and the quantity shown grows with the size. -/

namespace NioApps.Commands

/-- The quantity shown, in tenths of a byte. -/
def Shown.amount : Shown → ℕ
  | .bytes size => 10 * size
  | .decimal whole tenths unit => (10 * whole + tenths) * 1024 ^ unit
  | .rounded whole unit => 10 * whole * 1024 ^ unit

/-- `rem * 10 + divisor / 2` does not fit 32 bits. -/
def Overflows (n : ℕ) : Prop := 2 ^ 30 ≤ n ∧ 375809639 ≤ n % 2 ^ 30 ∧ n % 2 ^ 30 ≤ 429496729

instance (n : ℕ) : Decidable (Overflows n) := inferInstanceAs (Decidable (_ ∧ _ ∧ _))

/-! ### The number and its unit -/

def unitOf (n : ℕ) : ℕ := if n < 1000 then 0 else if n < 1024000 then 1 else if n < 1048576000 then 2 else 3

/-- The tenths of a remainder in the largest unit. -/
def giTenths (rem : ℕ) : ℕ :=
  if rem ≤ 429496729 then (rem * 10 + 1073741824 / 2) / 1073741824
  else ((rem + 5) / 10 * 10 + 107374182 / 2) / 107374182

/-- The number to one decimal, in tenths of the unit. -/
def tenthsOf (n : ℕ) : ℕ :=
  if n < 1000 then 10 * n
  else if n < 1024000 then (n * 10 + 512) / 1024
  else if n < 1048576000 then (n * 10 + 524288) / 1048576
  else 10 * (n / 1073741824) + giTenths (n % 1073741824)

def shownOf (tenths unit : ℕ) : Shown :=
  if tenths / 10 < 10 ∧ tenths % 10 ≠ 0 then .decimal (tenths / 10) (tenths % 10) unit else .rounded (tenths / 10) unit

/-- The text in closed form. -/
def sizeOf (n : ℕ) : Shown := if n < 1000 then .bytes n else shownOf (tenthsOf n) (unitOf n)

theorem giTenths_le {rem : ℕ} (h : rem < 1073741824) : giTenths rem ≤ 10 := by
  rw [giTenths]
  split_ifs <;> omega

theorem giTenths_mono {r s : ℕ} (h : r ≤ s) : giTenths r ≤ giTenths s := by
  rw [giTenths, giTenths]
  split_ifs <;> omega

/-! ### The loops -/

/-- Types with at least 32 and 16 bits. -/
structure Arith.Wide (A : Arith) : Prop where
  long : ∀ n < 2 ^ 32, A.long n = n
  int : ∀ n < 2 ^ 16, A.int n = n

theorem unbounded_wide : unbounded.Wide := ⟨fun _ _ => rfl, fun _ _ => rfl⟩

theorem unbounded_sum (a b : ℕ) : unbounded.long (unbounded.long a + b) = a + b := rfl

theorem Target.wide (t : Target) : t.arith.Wide := by
  constructor <;> intro n hn <;> refine Nat.mod_eq_of_lt ?_ <;> cases t <;> simp only [Target.long, Target.int] <;> omega

section Wide

variable {A : Arith} (hA : A.Wide) {n : ℕ}
include hA

theorem unitLoop_next {u : ℕ} (h : n / 1024 ^ u ≥ 1000) (hu : u < 3) :
    unitLoop A n u (1024 ^ u) = unitLoop A n (u + 1) (1024 ^ (u + 1)) := by
  have hlong : A.long (1024 ^ u * 1024) = 1024 ^ (u + 1) := by
    rw [← Nat.pow_succ]
    refine hA.long _ ?_
    calc 1024 ^ (u + 1) ≤ 1024 ^ 3 := Nat.pow_le_pow_right (by omega) hu
      _ < 2 ^ 32 := by omega
  rw [unitLoop, if_pos ⟨h, hu⟩, hlong]

omit hA in
theorem unitLoop_stop {u d : ℕ} (h : ¬(n / d ≥ 1000 ∧ u < 3)) : unitLoop A n u d = (u, d) := by
  rw [unitLoop, if_neg h]

theorem unitLoop_eq : unitLoop A n 0 1 = (unitOf n, 1024 ^ unitOf n) := by
  change unitLoop A n 0 (1024 ^ 0) = _
  rw [unitOf]
  by_cases h0 : n < 1000
  · rw [if_pos h0, unitLoop_stop (by omega)]
  rw [if_neg h0, unitLoop_next hA (by omega) (by omega)]
  by_cases h1 : n < 1024000
  · rw [if_pos h1, unitLoop_stop (by omega)]
  rw [if_neg h1, unitLoop_next hA (by omega) (by omega)]
  by_cases h2 : n < 1048576000
  · rw [if_pos h2, unitLoop_stop (by omega)]
  rw [if_neg h2, unitLoop_next hA (by omega) (by omega), unitLoop_stop (by omega)]

omit hA in
theorem rescale_small {rem d : ℕ} (h : rem ≤ 429496729) : rescale A rem d = (rem, d) := by
  rw [rescale, if_neg (by omega)]

/-- One round is enough. -/
theorem rescale_large {rem : ℕ} (h : 429496729 < rem) (hrem : rem < 1073741824) :
    rescale A rem 1073741824 = ((rem + 5) / 10, 107374182) := by
  rw [rescale, if_pos (by omega), hA.long _ (by omega), hA.long _ (by omega), rescale_small (by omega)]

/-- The last part of `format_size`, when the sum fits. -/
theorem sizeShown_unit {q rem d : ℕ} (h0 : unitOf n ≠ 0) (hq : 1024 ^ unitOf n = q) (hwhole : n / q < 1000)
    (hloop : rescale A (n % q) q = (rem, d))
    (hsum : A.long (A.long (rem * 10) + d / 2) = rem * 10 + d / 2) (hle : (rem * 10 + d / 2) / d ≤ 10) :
    sizeShown A n = shownOf (10 * (n / q) + (rem * 10 + d / 2) / d) (unitOf n) := by
  rw [sizeShown, unitLoop_eq hA, hq]
  dsimp only
  rw [if_neg h0, hloop]
  dsimp only
  rw [hsum]
  generalize n / q = whole at hwhole ⊢
  generalize (rem * 10 + d / 2) / d = tenths at hle ⊢
  rw [hA.int whole (by omega), hA.int tenths (by omega), hA.int (whole + 1) (by omega), shownOf]
  by_cases h10 : tenths ≥ 10
  · have hdiv : (10 * whole + tenths) / 10 = whole + 1 := by omega
    have hmod : (10 * whole + tenths) % 10 = 0 := by omega
    rw [if_pos h10, hdiv, hmod]
  · have hdiv : (10 * whole + tenths) / 10 = whole := by omega
    have hmod : (10 * whole + tenths) % 10 = tenths := by omega
    rw [if_neg h10, hdiv, hmod]

theorem sizeShown_eq (hn : n < 2 ^ 32) (hfit : ¬Overflows n ∨ A = unbounded) : sizeShown A n = sizeOf n := by
  have hsum {a b : ℕ} (hab : a + b < 2 ^ 32) : A.long (A.long a + b) = a + b := by
    rw [hA.long a (by omega), hA.long _ hab]
  rw [sizeOf, tenthsOf]
  by_cases h0 : n < 1000
  · have hunit : unitOf n = 0 := by rw [unitOf, if_pos h0]
    rw [if_pos h0, sizeShown, unitLoop_eq hA, hunit]
    dsimp only
    rw [if_pos rfl]
  rw [if_neg h0, if_neg h0]
  by_cases h1 : n < 1024000
  · have hunit : unitOf n = 1 := by rw [unitOf, if_neg h0, if_pos h1]
    have hshown := sizeShown_unit hA (n := n) (q := 1024) (by omega) (by rw [hunit, pow_one]) (by omega)
      (rescale_small (by omega)) (hsum (by omega)) (by omega)
    rw [if_pos h1, hshown]
    congr 1
    omega
  rw [if_neg h1]
  by_cases h2 : n < 1048576000
  · have hunit : unitOf n = 2 := by rw [unitOf, if_neg h0, if_neg h1, if_pos h2]
    have hshown := sizeShown_unit hA (n := n) (q := 1048576) (by omega) (by rw [hunit]; norm_num) (by omega)
      (rescale_small (by omega)) (hsum (by omega)) (by omega)
    rw [if_pos h2, hshown]
    congr 1
    omega
  have hunit : unitOf n = 3 := by rw [unitOf, if_neg h0, if_neg h1, if_neg h2]
  have hq : 1024 ^ unitOf n = 1073741824 := by rw [hunit]; norm_num
  rw [if_neg h2, giTenths]
  by_cases hr : n % 1073741824 ≤ 429496729
  · have hfits : A.long (A.long (n % 1073741824 * 10) + 1073741824 / 2) = n % 1073741824 * 10 + 1073741824 / 2 := by
      rcases hfit with hfit | rfl
      · rw [Overflows] at hfit
        exact hsum (by omega)
      · exact unbounded_sum _ _
    rw [if_pos hr, sizeShown_unit hA (by omega) hq (by omega) (rescale_small hr) hfits (by omega)]
  · rw [if_neg hr, sizeShown_unit hA (by omega) hq (by omega) (rescale_large hA (by omega) (by omega)) (hsum (by omega)) (by omega)]

end Wide

/-! ### The sizes that overflow -/

theorem sizeShown_overflows {t : Target} (ht : t.long = 32) {n : ℕ} (hn : n < 2 ^ 32) (h : Overflows n) :
    sizeShown t.arith n = .rounded (n / 2 ^ 30) 3 := by
  obtain ⟨hge, hlow, hhigh⟩ := h
  have hunit : unitOf n = 3 := by rw [unitOf, if_neg (by omega), if_neg (by omega), if_neg (by omega)]
  have hq : 1024 ^ unitOf n = 1073741824 := by rw [hunit]; norm_num
  have hlong (m : ℕ) : t.arith.long m = m % 2 ^ 32 := by
    change m % 2 ^ t.long = _
    rw [ht]
  have hfirst : n % 1073741824 * 10 % 2 ^ 32 = n % 1073741824 * 10 := Nat.mod_eq_of_lt (by omega)
  have hsum : (n % 1073741824 * 10 + 1073741824 / 2) % 2 ^ 32 = n % 1073741824 * 10 + 1073741824 / 2 - 2 ^ 32 := by omega
  have hzero : (n % 1073741824 * 10 + 1073741824 / 2 - 2 ^ 32) / 1073741824 = 0 := by omega
  rw [sizeShown, unitLoop_eq t.wide, hq]
  dsimp only
  rw [if_neg (by omega), rescale_small (show n % 1073741824 ≤ 429496729 from hhigh)]
  dsimp only
  rw [hlong, hlong, hfirst, hsum, hzero, t.wide.int (n / 1073741824) (by omega), t.wide.int 0 (by omega), hunit, if_neg (show ¬0 ≥ 10 by omega)]
  exact if_neg fun h => h.2 rfl

/-! ### The quantity shown -/

theorem shownOf_amount (tenths unit : ℕ) :
    (shownOf tenths unit).amount = (if tenths < 100 then tenths else tenths / 10 * 10) * 1024 ^ unit := by
  rw [shownOf]
  by_cases h : tenths / 10 < 10 ∧ tenths % 10 ≠ 0
  · have hall : 10 * (tenths / 10) + tenths % 10 = tenths := by omega
    rw [if_pos h, if_pos (by omega), Shown.amount, hall]
  · have hround : 10 * (tenths / 10) = if tenths < 100 then tenths else tenths / 10 * 10 := by
      split_ifs <;> omega
    rw [if_neg h, Shown.amount, hround]

theorem shownOf_mono {s t : ℕ} (h : s ≤ t) (unit : ℕ) : (shownOf s unit).amount ≤ (shownOf t unit).amount := by
  rw [shownOf_amount, shownOf_amount]
  refine Nat.mul_le_mul_right _ ?_
  split_ifs <;> omega

theorem tenthsOf_mono {m n : ℕ} (h : m ≤ n) (hunit : unitOf m = unitOf n) : tenthsOf m ≤ tenthsOf n := by
  rw [unitOf, unitOf] at hunit
  rw [tenthsOf, tenthsOf]
  have hlast : 10 * (m / 1073741824) + giTenths (m % 1073741824) ≤ 10 * (n / 1073741824) + giTenths (n % 1073741824) := by
    rcases Nat.lt_or_ge (m / 1073741824) (n / 1073741824) with hlt | hge
    · have := giTenths_le (Nat.mod_lt m (by omega : 1073741824 > 0))
      omega
    · have := giTenths_mono (show m % 1073741824 ≤ n % 1073741824 by omega)
      omega
  split_ifs at hunit ⊢ <;> omega

/-- The least and the largest number of each unit. -/
theorem tenthsOf_bounds {n : ℕ} (h : unitOf n ≠ 0) : 10 ≤ tenthsOf n ∧ (unitOf n < 3 → tenthsOf n ≤ 10000) := by
  rw [unitOf] at h ⊢
  rw [tenthsOf]
  have hgi : 1048576000 ≤ n → n < 1073741824 → giTenths (n % 1073741824) = 10 := by
    intro hge hlt
    rw [Nat.mod_eq_of_lt hlt, giTenths, if_neg (by omega)]
    omega
  split_ifs at h ⊢ <;> omega

theorem sizeOf_mono {m n : ℕ} (h : m ≤ n) : (sizeOf m).amount ≤ (sizeOf n).amount := by
  have hunit : unitOf m ≤ unitOf n := by
    rw [unitOf, unitOf]
    split_ifs <;> omega
  have hzero (k : ℕ) : k < 1000 ↔ unitOf k = 0 := by
    rw [unitOf]
    split_ifs <;> simp <;> omega
  rw [sizeOf, sizeOf]
  by_cases hn : n < 1000
  · rw [if_pos hn, if_pos (by omega)]
    exact Nat.mul_le_mul_left 10 h
  have hn0 : unitOf n ≠ 0 := fun h0 => hn ((hzero n).2 h0)
  obtain ⟨hlow, -⟩ := tenthsOf_bounds hn0
  rw [if_neg hn]
  by_cases hm : m < 1000
  · rw [if_pos hm]
    calc 10 * m ≤ 10 * 1024 ^ 1 := by omega
      _ ≤ 10 * 1024 ^ unitOf n := Nat.mul_le_mul_left 10 (Nat.pow_le_pow_right (by omega) (by omega))
      _ = (shownOf 10 (unitOf n)).amount := by rw [shownOf_amount]; rfl
      _ ≤ _ := shownOf_mono hlow _
  rw [if_neg hm]
  rcases Nat.eq_or_lt_of_le hunit with heq | hlt
  · rw [← heq]
    exact shownOf_mono (tenthsOf_mono h heq) _
  · have hm0 : unitOf m ≠ 0 := fun h0 => hm ((hzero m).2 h0)
    have hn3 : unitOf n ≤ 3 := by
      rw [unitOf]
      split_ifs <;> omega
    obtain ⟨-, hhigh⟩ := tenthsOf_bounds hm0
    calc (shownOf (tenthsOf m) (unitOf m)).amount ≤ (shownOf 10000 (unitOf m)).amount := shownOf_mono (hhigh (by omega)) _
      _ = 10000 * 1024 ^ unitOf m := by rw [shownOf_amount]; rfl
      _ ≤ 10 * 1024 ^ (unitOf m + 1) := by rw [Nat.pow_succ]; omega
      _ ≤ 10 * 1024 ^ unitOf n := Nat.mul_le_mul_left 10 (Nat.pow_le_pow_right (by omega) hlt)
      _ = (shownOf 10 (unitOf n)).amount := by rw [shownOf_amount]; rfl
      _ ≤ _ := shownOf_mono hlow _

/-- From 1 GiB on, for a remainder that needs no second loop. -/
theorem sizeOf_gi {n : ℕ} (hn : n < 2 ^ 32) (hge : 2 ^ 30 ≤ n) (hr : n % 2 ^ 30 ≤ 429496729) :
    sizeOf n = shownOf (10 * (n / 2 ^ 30) + (n % 2 ^ 30 * 10 + 2 ^ 30 / 2) / 2 ^ 30) 3 := by
  have hpow : (2 : ℕ) ^ 30 = 1073741824 := by norm_num
  rw [hpow] at hge hr ⊢
  have hgi : giTenths (n % 1073741824) = (n % 1073741824 * 10 + 1073741824 / 2) / 1073741824 := by
    rw [giTenths, if_pos hr]
  rw [sizeOf, if_neg (by omega), tenthsOf, if_neg (by omega), if_neg (by omega), if_neg (by omega), hgi, unitOf,
    if_neg (by omega), if_neg (by omega), if_neg (by omega)]

/-! ### The formatting -/

/-- On the targets with a `long` of 32 bits, the text of a size is that of the computation
with integers, and no smaller size shows more, exactly when the sum fits. -/
theorem size_text {t : Target} (ht : t.long = 32) (size : BitVec 32) :
    (formatSize t.arith size = formatSize unbounded size ↔ ¬Overflows size.toNat) ∧
      ((∀ m ≤ size.toNat, (sizeShown t.arith m).amount ≤ (sizeShown t.arith size.toNat).amount) ↔
        ¬Overflows size.toNat) := by
  have hn := size.isLt
  rw [formatSize, formatSize]
  generalize size.toNat = n at hn ⊢
  have hexact {m : ℕ} (hm : m < 2 ^ 32) (hfit : ¬Overflows m) : sizeShown t.arith m = sizeOf m :=
    sizeShown_eq t.wide hm (.inl hfit)
  have hunbounded : sizeShown unbounded n = sizeOf n := sizeShown_eq unbounded_wide hn (.inr rfl)
  -- one more tenth than in the sizes that overflow
  have hbelow {m k : ℕ} (hm : m < 2 ^ 32) (hge : 2 ^ 30 ≤ m) (hr : m % 2 ^ 30 ≤ 429496729)
      (hk : (m % 2 ^ 30 * 10 + 2 ^ 30 / 2) / 2 ^ 30 = k) : (sizeOf m).amount = (10 * (m / 2 ^ 30) + k) * 1024 ^ 3 := by
    rw [sizeOf_gi hm hge hr, shownOf_amount, hk, if_pos (by omega)]
  refine ⟨⟨fun heq ho => ?_, fun h => ?_⟩, fun hall ho => ?_, fun h m hm => ?_⟩
  · obtain ⟨hge, hlow, hhigh⟩ := ho
    have hfour : (n % 2 ^ 30 * 10 + 2 ^ 30 / 2) / 2 ^ 30 = 4 := by omega
    rw [sizeShown_overflows ht hn ⟨hge, hlow, hhigh⟩, hunbounded, sizeOf_gi hn hge hhigh, hfour] at heq
    have hwhole : n / 2 ^ 30 = 1 ∨ n / 2 ^ 30 = 2 ∨ n / 2 ^ 30 = 3 := by omega
    rcases hwhole with h | h | h <;> rw [h] at heq <;> revert heq <;> decide
  · rw [hexact hn h, hunbounded]
  · obtain ⟨hge, hlow, hhigh⟩ := ho
    have hm := hall (n / 2 ^ 30 * 2 ^ 30 + 375809638) (by omega)
    rw [sizeShown_overflows ht hn ⟨hge, hlow, hhigh⟩, hexact (by omega) (by rw [Overflows]; omega),
      hbelow (k := 3) (by omega) (by omega) (by omega) (by omega), Shown.amount] at hm
    have hdiv : (n / 2 ^ 30 * 2 ^ 30 + 375809638) / 2 ^ 30 = n / 2 ^ 30 := by omega
    rw [hdiv] at hm
    omega
  · rw [hexact hn h]
    refine le_trans ?_ (sizeOf_mono hm)
    by_cases ho : Overflows m
    · obtain ⟨hge, hlow, hhigh⟩ := ho
      rw [sizeShown_overflows ht (by omega) ⟨hge, hlow, hhigh⟩, hbelow (k := 4) (by omega) hge hhigh (by omega), Shown.amount]
      omega
    · rw [hexact (by omega) ho]

/-- 1.5 GiB, on MS-DOS. -/
theorem size_text_msdos : formatSize Target.msdos.arith 1610612736 = formatSize unbounded 1610612736 :=
  (size_text (t := .msdos) rfl 1610612736).1.2 (by decide)

/-- 1 GiB and 400 million bytes shows less than 25 million bytes below it. -/
theorem sum_wraps : formatSize Target.msdos.arith 1473741824 = "    1G".toList ∧
    formatSize unbounded 1473741824 = "  1.4G".toList ∧
      (sizeShown Target.msdos.arith 1473741824).amount < (sizeShown Target.msdos.arith 1448741824).amount := by
  have hlarge : sizeShown Target.msdos.arith 1473741824 = .rounded 1 3 := sizeShown_overflows rfl (by norm_num) (by decide)
  have hexact : sizeShown unbounded 1473741824 = sizeOf 1473741824 := sizeShown_eq unbounded_wide (by norm_num) (.inr rfl)
  have hsmall : sizeShown Target.msdos.arith 1448741824 = sizeOf 1448741824 :=
    sizeShown_eq (Target.wide _) (by norm_num) (.inl (by decide))
  refine ⟨(congrArg Shown.text hlarge).trans (by decide), (congrArg Shown.text hexact).trans (by decide), ?_⟩
  rw [hlarge, hsmall]
  decide

end NioApps.Commands
