import Mathlib.Tactic
import Mathlib.Data.List.Range

/-! Bytes, buffers and little-endian numbers. A buffer is a function from
indices; `slice` is the list that a transfer of `n` bytes starting at `i` moves. -/

namespace NioApps

abbrev Byte := BitVec 8

abbrev Word := BitVec 16

/-- The `n` elements of a buffer from index `i` on. -/
def slice {α : Type*} (b : ℕ → α) (i n : ℕ) : List α := (List.range n).map fun j => b (i + j)

section Slice

variable {α : Type*}

@[simp] theorem length_slice (b : ℕ → α) (i n : ℕ) : (slice b i n).length = n := by simp [slice]

@[simp] theorem getElem_slice (b : ℕ → α) (i n j : ℕ) (h : j < (slice b i n).length) :
    (slice b i n)[j] = b (i + j) := by simp [slice]

@[simp] theorem slice_zero (b : ℕ → α) (i : ℕ) : slice b i 0 = [] := rfl

theorem getElem?_slice (b : ℕ → α) (i n j : ℕ) (h : j < n) : (slice b i n)[j]? = some (b (i + j)) := by
  simp [slice, h]

theorem slice_congr {b c : ℕ → α} {i n : ℕ} (h : ∀ j < n, b (i + j) = c (i + j)) :
    slice b i n = slice c i n := by
  apply List.map_congr_left
  intro j hj
  exact h j (List.mem_range.1 hj)

theorem slice_eq_iff {b c : ℕ → α} {i k n : ℕ} :
    slice b i n = slice c k n ↔ ∀ j < n, b (i + j) = c (k + j) := by
  refine ⟨fun h j hj => ?_, fun h => ?_⟩
  · have := congrArg (fun l => l[j]?) h
    simpa [slice, hj] using this
  · apply List.map_congr_left
    intro j hj
    exact h j (List.mem_range.1 hj)

theorem slice_add (b : ℕ → α) (i m n : ℕ) : slice b i (m + n) = slice b i m ++ slice b (i + m) n := by
  simp [slice, List.range_add, Nat.add_assoc]

theorem slice_succ (b : ℕ → α) (i n : ℕ) : slice b i (n + 1) = slice b i n ++ [b (i + n)] := by
  rw [slice_add]
  simp [slice]

theorem slice_cons (b : ℕ → α) (i n : ℕ) : slice b i (n + 1) = b i :: slice b (i + 1) n := by
  rw [Nat.add_comm n 1, slice_add]
  simp [slice]

theorem drop_slice (b : ℕ → α) (i n m : ℕ) (h : m ≤ n) : (slice b i n).drop m = slice b (i + m) (n - m) := by
  obtain ⟨k, rfl⟩ := Nat.exists_eq_add_of_le h
  rw [slice_add, List.drop_left' (length_slice b i m), Nat.add_sub_cancel_left]

theorem take_slice (b : ℕ → α) (i n m : ℕ) (h : m ≤ n) : (slice b i n).take m = slice b i m := by
  obtain ⟨k, rfl⟩ := Nat.exists_eq_add_of_le h
  rw [slice_add, List.take_left' (length_slice b i m)]

theorem slice_eq_append_iff (b : ℕ → α) (i : ℕ) (xs ys : List α) :
    slice b i (xs ++ ys).length = xs ++ ys ↔ slice b i xs.length = xs ∧ slice b (i + xs.length) ys.length = ys := by
  rw [List.length_append, slice_add]
  exact ⟨fun h => List.append_inj h (length_slice _ _ _), fun h => by rw [h.1, h.2]⟩

end Slice

/-- The number a list of bytes denotes, least significant byte first. -/
def le : List Byte → ℕ
  | [] => 0
  | b :: bs => b.toNat + 256 * le bs

@[simp] theorem le_nil : le [] = 0 := rfl

@[simp] theorem le_cons (b : Byte) (bs : List Byte) : le (b :: bs) = b.toNat + 256 * le bs := rfl

theorem le_lt (bs : List Byte) : le bs < 256 ^ bs.length := by
  induction bs with
  | nil => simp
  | cons b bs ih =>
    have := b.isLt
    simp only [le_cons, List.length_cons, pow_succ]
    omega

/-- The last `n` bytes of a number, least significant byte first. -/
def leBytes : ℕ → ℕ → List Byte
  | 0, _ => []
  | n + 1, v => BitVec.ofNat 8 v :: leBytes n (v / 256)

@[simp] theorem length_leBytes (n v : ℕ) : (leBytes n v).length = n := by
  induction n generalizing v with
  | zero => rfl
  | succ n ih => rw [leBytes, List.length_cons, ih]

theorem le_leBytes (n v : ℕ) : le (leBytes n v) = v % 256 ^ n := by
  induction n generalizing v with
  | zero => rw [pow_zero, Nat.mod_one]; rfl
  | succ n ih => rw [leBytes, le_cons, ih, BitVec.toNat_ofNat, pow_succ' 256 n, Nat.mod_mul]

theorem take_leBytes (m n v : ℕ) : (leBytes (m + n) v).take m = leBytes m v := by
  induction m generalizing v with
  | zero => rfl
  | succ m ih => rw [Nat.add_right_comm, leBytes, List.take_succ_cons, ih, leBytes]

/-! ### Words -/

def lo (a : Word) : Byte := a.setWidth 8

def hi (a : Word) : Byte := (a >>> 8).setWidth 8

/-- The high byte of `v`, and the carry out of the sum of the low bytes. -/
def highSum (low : Byte) (v : Word) : Byte :=
  if low.toNat + (lo v).toNat < 256 then hi v else hi v + 1

theorem lo_toNat (a : Word) : (lo a).toNat = a.toNat % 256 := by
  simp [lo, BitVec.toNat_setWidth]

theorem hi_toNat (a : Word) : (hi a).toNat = a.toNat / 256 := by
  have := a.isLt
  simp only [hi, BitVec.toNat_setWidth, BitVec.toNat_ushiftRight, Nat.shiftRight_eq_div_pow]
  omega

theorem lo_add (a b : Word) : lo (a + b) = lo a + lo b := by
  apply BitVec.eq_of_toNat_eq
  simp only [lo_toNat, BitVec.toNat_add]
  omega

/-- The high byte of a sum of words. -/
theorem hi_add (a b : Word) : hi (a + b) = hi a + highSum (lo a) b := by
  have ha := a.isLt
  have hb := b.isLt
  apply BitVec.eq_of_toNat_eq
  simp only [highSum]
  split_ifs with h
  · simp only [lo_toNat] at h
    simp only [hi_toNat, BitVec.toNat_add]
    omega
  · simp only [lo_toNat] at h
    have h1 : (1 : Byte).toNat = 1 := rfl
    simp only [hi_toNat, BitVec.toNat_add, h1]
    omega

/-- The `n` addresses from `s` on, when they do not wrap. -/
theorem sub_lt_iff {a s n : Word} (h : s.toNat + n.toNat ≤ 2 ^ 16) :
    a - s < n ↔ s.toNat ≤ a.toNat ∧ a.toNat < s.toNat + n.toNat := by
  bv_omega

/-- The word stored at `a`. -/
def wordAt (mem : Word → Byte) (a : Word) : Word := BitVec.ofNat 16 (le [mem a, mem (a + 1)])

theorem wordAt_toNat (mem : Word → Byte) (a : Word) : (wordAt mem a).toNat = (mem a).toNat + 256 * (mem (a + 1)).toNat := by
  have := le_lt [mem a, mem (a + 1)]
  rw [wordAt, BitVec.toNat_ofNat, Nat.mod_eq_of_lt (by simpa using this)]
  simp

theorem wordAt_congr {m m' : Word → Byte} {a : Word} (h : m' a = m a) (h' : m' (a + 1) = m (a + 1)) :
    wordAt m' a = wordAt m a := by
  rw [wordAt, wordAt, h, h']

theorem ofNat_lo_hi (v : Word) : BitVec.ofNat 16 (le [lo v, hi v]) = v := by
  have := v.isLt
  apply BitVec.eq_of_toNat_eq
  simp only [le_cons, le_nil, lo_toNat, hi_toNat, BitVec.toNat_ofNat]
  omega

theorem lo_ofNat_le (a b : Byte) : lo (BitVec.ofNat 16 (le [a, b])) = a := by
  have ha := a.isLt
  have hb := b.isLt
  apply BitVec.eq_of_toNat_eq
  simp only [le_cons, le_nil, lo_toNat, BitVec.toNat_ofNat]
  omega

theorem hi_ofNat_le (a b : Byte) : hi (BitVec.ofNat 16 (le [a, b])) = b := by
  have ha := a.isLt
  have hb := b.isLt
  apply BitVec.eq_of_toNat_eq
  simp only [le_cons, le_nil, hi_toNat, BitVec.toNat_ofNat]
  omega

end NioApps
