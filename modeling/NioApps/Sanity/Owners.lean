import NioApps.Sanity.Packets

/-! What the routines do to the owner record and cache half of the slot in X, and
that they leave the other ones alone. -/

namespace NioApps.Resident

/-! ### The cache halves -/

/-- Byte `i` of the cache half of slot `k`. -/
def half (k : Slot) (w : Ram) : ℕ → Byte := fun i => w.caches (k.cache + BitVec.ofNat 8 i)

theorem add_ofNat_inj {b : Byte} {i j : ℕ} (hi : i < 256) (hj : j < 256) :
    b + BitVec.ofNat 8 i = b + BitVec.ofNat 8 j ↔ i = j := by
  refine ⟨fun h => ?_, fun h => by rw [h]⟩
  have h' : BitVec.ofNat 8 i = BitVec.ofNat 8 j := (BitVec.add_right_inj b).1 h
  have := congrArg BitVec.toNat h'
  simp only [BitVec.toNat_ofNat] at this
  omega

theorem add_toNat_eq (b p : Byte) : b + p = b + BitVec.ofNat 8 p.toNat := by
  rw [BitVec.ofNat_toNat, BitVec.setWidth_eq]

/-- The next index, as the 6502 computes it. -/
theorem add_ofNat_succ (b : Byte) (i : ℕ) : b + BitVec.ofNat 8 i + 1 = b + BitVec.ofNat 8 (i + 1) := by
  rw [BitVec.ofNat_add, BitVec.add_assoc]
  rfl

theorem succ_add_ofNat (b : Byte) (i : ℕ) : b + 1 + BitVec.ofNat 8 i = b + BitVec.ofNat 8 (i + 1) := by
  rw [← add_ofNat_succ, BitVec.add_assoc, BitVec.add_comm 1, ← BitVec.add_assoc]

/-- The halves do not overlap. -/
theorem cache_ne {k k' : Slot} (h : k ≠ k') {i j : ℕ} (hi : i < 128) (hj : j < 128) :
    k.cache + BitVec.ofNat 8 i ≠ k'.cache + BitVec.ofNat 8 j := by
  cases k <;> cases k'
  · exact absurd rfl h
  · simp only [Slot.cache]
    bv_omega
  · simp only [Slot.cache]
    bv_omega
  · exact absurd rfl h

/-! ### The copy loops -/

theorem flushCopy_eq (c : Byte → Byte) (n x : ℕ) (y : Byte) (p : ℕ → Byte) :
    flushCopy c n x y p =
      fun i => if 15 + x ≤ i ∧ i < 15 + x + n then c (y + BitVec.ofNat 8 (i - (15 + x))) else p i := by
  induction n generalizing x y p with
  | zero =>
    funext i
    rw [if_neg (by omega)]
    rfl
  | succ n ih =>
    funext i
    simp only [flushCopy, ih]
    by_cases h1 : 15 + (x + 1) ≤ i ∧ i < 15 + (x + 1) + n
    · have hi : i - (15 + x) = i - (15 + (x + 1)) + 1 := by omega
      rw [if_pos h1, if_pos (by omega), hi, succ_add_ofNat]
    · rw [if_neg h1]
      by_cases hi : i = 15 + x
      · subst hi
        rw [Function.update_self, if_pos (by omega), Nat.sub_self]
        simp
      · rw [Function.update_of_ne hi, if_neg (by omega)]

theorem shiftCache_eq (n m j : ℕ) (b : Byte) (c : Byte → Byte) (hm : 0 < m) (hn : m + j + n ≤ 128)
    (i : ℕ) (hi : i < 256) :
    shiftCache n (b + BitVec.ofNat 8 (m + j)) (b + BitVec.ofNat 8 j) c (b + BitVec.ofNat 8 i) =
      if j ≤ i ∧ i < j + n then c (b + BitVec.ofNat 8 (m + i)) else c (b + BitVec.ofNat 8 i) := by
  induction n generalizing j c with
  | zero => rw [if_neg (by omega)]; rfl
  | succ n ih =>
    rw [shiftCache, add_ofNat_succ, add_ofNat_succ, Nat.add_assoc m, ih (j + 1) _ (by omega)]
    by_cases h1 : j + 1 ≤ i ∧ i < j + 1 + n
    · rw [if_pos h1, if_pos (by omega), Function.update_of_ne]
      rw [ne_eq, add_ofNat_inj (by omega) (by omega)]
      omega
    · rw [if_neg h1]
      by_cases hij : i = j
      · subst hij
        rw [Function.update_self, if_pos (by omega)]
      · rw [if_neg (by omega), Function.update_of_ne]
        rw [ne_eq, add_ofNat_inj hi (by omega)]
        exact hij

theorem fillCache_eq (p : ℕ → Byte) (n y j : ℕ) (b : Byte) (c : Byte → Byte) (hn : j + n ≤ 128)
    (i : ℕ) (hi : i < 256) :
    fillCache p n y (b + BitVec.ofNat 8 j) c (b + BitVec.ofNat 8 i) =
      if j ≤ i ∧ i < j + n then p (12 + y + (i - j)) else c (b + BitVec.ofNat 8 i) := by
  induction n generalizing y j c with
  | zero => rw [if_neg (by omega)]; rfl
  | succ n ih =>
    rw [fillCache, add_ofNat_succ, ih (y + 1) (j + 1) _ (by omega)]
    by_cases h1 : j + 1 ≤ i ∧ i < j + 1 + n
    · rw [if_pos h1, if_pos (by omega)]
      congr 1
      omega
    · rw [if_neg h1]
      by_cases hij : i = j
      · subst hij
        rw [Function.update_self, if_pos (by omega), Nat.sub_self, Nat.add_zero]
      · rw [if_neg (by omega), Function.update_of_ne]
        rw [ne_eq, add_ofNat_inj hi (by omega)]
        exact hij

/-- Writes inside the half of slot `k` leave the other half alone. -/
theorem shiftCache_other {k k' : Slot} (h : k' ≠ k) (n m j : ℕ) (c : Byte → Byte) (hn : j + n ≤ 128)
    {i : ℕ} (hi : i < 128) :
    shiftCache n (k.cache + BitVec.ofNat 8 (m + j)) (k.cache + BitVec.ofNat 8 j) c
      (k'.cache + BitVec.ofNat 8 i) = c (k'.cache + BitVec.ofNat 8 i) := by
  induction n generalizing j c with
  | zero => rfl
  | succ n ih =>
    rw [shiftCache, add_ofNat_succ, add_ofNat_succ, Nat.add_assoc m, ih (j + 1) _ (by omega), Function.update_of_ne (cache_ne h hi (by omega))]

theorem fillCache_other {k k' : Slot} (h : k' ≠ k) (p : ℕ → Byte) (n y j : ℕ) (c : Byte → Byte)
    (hn : j + n ≤ 128) {i : ℕ} (hi : i < 128) :
    fillCache p n y (k.cache + BitVec.ofNat 8 j) c (k'.cache + BitVec.ofNat 8 i) =
      c (k'.cache + BitVec.ofNat 8 i) := by
  induction n generalizing y j c with
  | zero => rfl
  | succ n ih =>
    rw [fillCache, add_ofNat_succ, ih (y + 1) (j + 1) _ (by omega), Function.update_of_ne (cache_ne h hi (by omega))]

/-! ### The 32-bit stream offset -/

theorem addOffset_offset (n : Byte) (o : Owner) :
    (addOffset n o).offset = (o.offset + n.toNat) % 2 ^ 32 := by
  have h0 := o.offset0.isLt
  have h1 := o.offset1.isLt
  have h2 := o.offset2.isLt
  have h3 := o.offset3.isLt
  have hn := n.isLt
  have hsum : (n + o.offset0).toNat = (n.toNat + o.offset0.toNat) % 256 := BitVec.toNat_add ..
  have hnext (b : Byte) : (b + 1).toNat = (b.toNat + 1) % 256 := BitVec.toNat_add ..
  have hzero (b : Byte) : b + 1 = 0 ↔ b.toNat = 255 := by bv_omega
  simp only [addOffset, Owner.offset, le_cons, le_nil, ne_eq, hzero]
  split_ifs <;> simp only [hsum, hnext] <;> omega

/-- `add_offset` changes the offset only. -/
theorem addOffset_eq (n : Byte) (o : Owner) :
    ∃ b0 b1 b2 b3, addOffset n o =
      { o with offset0 := b0, offset1 := b1, offset2 := b2, offset3 := b3 } := by
  simp only [addOffset]
  split_ifs
  · exact ⟨_, _, _, _, rfl⟩
  · exact ⟨_, _, _, _, rfl⟩
  · exact ⟨_, _, _, _, rfl⟩
  · exact ⟨_, _, _, _, rfl⟩

section AddOffset

variable (n : Byte) (o : Owner)

@[simp] theorem addOffset_own : (addOffset n o).own = o.own := by
  obtain ⟨_, _, _, _, h⟩ := addOffset_eq n o
  rw [h]

@[simp] theorem addOffset_mode : (addOffset n o).mode = o.mode := by
  obtain ⟨_, _, _, _, h⟩ := addOffset_eq n o
  rw [h]

@[simp] theorem addOffset_handle : (addOffset n o).handle = o.handle := by
  obtain ⟨_, _, _, _, h⟩ := addOffset_eq n o
  rw [h]

@[simp] theorem addOffset_len : (addOffset n o).len = o.len := by
  obtain ⟨_, _, _, _, h⟩ := addOffset_eq n o
  rw [h]

@[simp] theorem addOffset_pos : (addOffset n o).pos = o.pos := by
  obtain ⟨_, _, _, _, h⟩ := addOffset_eq n o
  rw [h]

@[simp] theorem addOffset_eof : (addOffset n o).eof = o.eof := by
  obtain ⟨_, _, _, _, h⟩ := addOffset_eq n o
  rw [h]

@[simp] theorem addOffset_fault : (addOffset n o).fault = o.fault := by
  obtain ⟨_, _, _, _, h⟩ := addOffset_eq n o
  rw [h]

@[simp] theorem addOffset_committed : (addOffset n o).committed = o.committed := by
  obtain ⟨_, _, _, _, h⟩ := addOffset_eq n o
  rw [h]

@[simp] theorem addOffset_reading : (addOffset n o).reading = o.reading := by
  obtain ⟨_, _, _, _, h⟩ := addOffset_eq n o
  rw [h]

end AddOffset

/-! ### Frames of the operations -/

@[simp] theorem setWire_owner (p : Wire) (w : Ram) : (w.setWire p).owner = w.owner := rfl

@[simp] theorem setCount_owner (n : Byte) (w : Ram) : (w.setCount n).owner = w.owner := rfl

@[simp] theorem setCaches_owner (c : Byte → Byte) (w : Ram) : (w.setCaches c).owner = w.owner := rfl

@[simp] theorem setCaller_owner (a x : Byte) (w : Ram) : (w.setCaller a x).owner = w.owner := rfl

@[simp] theorem setOwner_half (o : Owner) (k : Slot) (w : Ram) : half k (w.setOwner o) = half k w := rfl

@[simp] theorem setWire_half (p : Wire) (k : Slot) (w : Ram) : half k (w.setWire p) = half k w := rfl

@[simp] theorem setCount_half (n : Byte) (k : Slot) (w : Ram) : half k (w.setCount n) = half k w := rfl

@[simp] theorem setCaller_half (a x : Byte) (k : Slot) (w : Ram) : half k (w.setCaller a x) = half k w := rfl

/-- The bytes of the cache half of slot `k` that are in use. -/
def cached (k : Slot) (w : Ram) : List Byte := slice (half k w) 0 (w.owners k).len.toNat

@[simp] theorem length_cached (k : Slot) (w : Ram) : (cached k w).length = (w.owners k).len.toNat :=
  length_slice ..

/-- From `w` to `w'` only the record and cache half of the slot in X changed,
and the transport, whose log grew by the exchanges `xs` and the stores `bs`. -/
structure Did (w w' : Ram) (xs : List Exchange) (bs : List Byte) : Prop where
  slot : w'.slot = w.slot
  callerX : w'.callerX = w.callerX
  busy : w'.busy = w.busy
  owners : ∀ k ≠ w.slot, w'.owners k = w.owners k
  half : ∀ k ≠ w.slot, ∀ i < 128, half k w' i = half k w i
  logs : Logs w.wire w'.wire xs bs

theorem Did.refl (w : Ram) : Did w w [] [] := ⟨rfl, rfl, rfl, fun _ _ => rfl, fun _ _ _ _ => rfl, .same rfl⟩

theorem Did.trans {w₁ w₂ w₃ : Ram} {xs ys : List Exchange} {bs cs : List Byte} (h : Did w₁ w₂ xs bs)
    (h' : Did w₂ w₃ ys cs) : Did w₁ w₃ (xs ++ ys) (bs ++ cs) where
  slot := h'.slot.trans h.slot
  callerX := h'.callerX.trans h.callerX
  busy := h'.busy.trans h.busy
  owners k hk := (h'.owners k (by rwa [h.slot])).trans (h.owners k hk)
  half k hk i hi := (h'.half k (by rwa [h.slot]) i hi).trans (h.half k hk i hi)
  logs := h.logs.trans h'.logs

theorem did_setOwner (o : Owner) (w : Ram) : Did w (w.setOwner o) [] [] :=
  ⟨rfl, rfl, rfl, fun _ hk => Function.update_of_ne hk _ _, fun _ _ _ _ => rfl, .same rfl⟩

theorem did_setCount (n : Byte) (w : Ram) : Did w (w.setCount n) [] [] :=
  ⟨rfl, rfl, rfl, fun _ _ => rfl, fun _ _ _ _ => rfl, .same rfl⟩

theorem did_setCaller (a : Byte) (w : Ram) : Did w (w.setCaller a w.callerX) [] [] :=
  ⟨rfl, rfl, rfl, fun _ _ => rfl, fun _ _ _ _ => rfl, .same rfl⟩

theorem did_setWire {w : Ram} {p : Wire} {xs : List Exchange} {bs : List Byte} (h : Logs w.wire p xs bs) :
    Did w (w.setWire p) xs bs := ⟨rfl, rfl, rfl, fun _ _ => rfl, fun _ _ _ _ => rfl, h⟩

theorem did_setCaches {w : Ram} {c : Byte → Byte}
    (h : ∀ k ≠ w.slot, ∀ i < 128, c (k.cache + BitVec.ofNat 8 i) = w.caches (k.cache + BitVec.ofNat 8 i)) :
    Did w (w.setCaches c) [] [] := ⟨rfl, rfl, rfl, fun _ _ => rfl, h, .same rfl⟩

theorem Did.of_nil {w₁ w₂ w₃ : Ram} {xs : List Exchange} {bs : List Byte} (h : Did w₁ w₂ [] [])
    (h' : Did w₂ w₃ xs bs) : Did w₁ w₃ xs bs := h.trans h'

theorem Did.nil {w₁ w₂ w₃ : Ram} {xs : List Exchange} {bs : List Byte} (h : Did w₁ w₂ xs bs)
    (h' : Did w₂ w₃ [] []) : Did w₁ w₃ xs bs := by
  have := h.trans h'
  rwa [List.append_nil, List.append_nil] at this

end NioApps.Resident
