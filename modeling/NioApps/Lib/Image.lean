import NioApps.Lib.Bytes

/-! Images of memory, addressed by the offset from their base, and the edits that
build and relocate one: a byte stored, or a value added to a word or to its low
or high byte. An edit list acts on an image only at its own offsets. -/

namespace NioApps.Image

/-- What is done at an offset. `high` needs the low byte of the word whose high
byte is there. -/
inductive Patch
  | put (b : Byte)
  | low (v : Word)
  | high (low : Byte) (v : Word)
  | word (v : Word)
deriving DecidableEq, Repr

structure Edit where
  offset : Word
  patch : Patch
deriving DecidableEq, Repr

/-- The offsets an edit stores to, in order. -/
def Edit.offsets (e : Edit) : List Word :=
  match e.patch with
  | .word _ => [e.offset, e.offset + 1]
  | _ => [e.offset]

def Edit.apply (f : Word → Byte) (e : Edit) : Word → Byte :=
  match e.patch with
  | .put b => Function.update f e.offset b
  | .low v => Function.update f e.offset (f e.offset + lo v)
  | .high l v => Function.update f e.offset (f e.offset + highSum l v)
  | .word v =>
    let g := Function.update f e.offset (f e.offset + lo v)
    Function.update g (e.offset + 1) (g (e.offset + 1) + highSum (f e.offset) v)

/-- The image after the edits, in order. -/
def run (es : List Edit) (f : Word → Byte) : Word → Byte := es.foldl Edit.apply f

/-- The offsets a list of edits stores to. -/
def offsets (es : List Edit) : List Word := es.flatMap Edit.offsets

/-- All edits lie in the first `n` bytes. -/
def Within (n : Word) (es : List Edit) : Prop := ∀ o ∈ offsets es, o < n

instance (n : Word) (es : List Edit) : Decidable (Within n es) := List.decidableBAll ..

@[simp] theorem run_nil (f : Word → Byte) : run [] f = f := rfl

@[simp] theorem run_cons (e : Edit) (es : List Edit) (f : Word → Byte) : run (e :: es) f = run es (e.apply f) := rfl

theorem run_append (es fs : List Edit) (f : Word → Byte) : run (es ++ fs) f = run fs (run es f) := List.foldl_append

@[simp] theorem offsets_nil : offsets [] = [] := rfl

@[simp] theorem offsets_cons (e : Edit) (es : List Edit) : offsets (e :: es) = e.offsets ++ offsets es := rfl

@[simp] theorem offsets_append (es fs : List Edit) : offsets (es ++ fs) = offsets es ++ offsets fs :=
  List.flatMap_append

@[simp] theorem within_nil (n : Word) : Within n [] := by simp [Within]

theorem within_cons {n : Word} {e : Edit} {es : List Edit} :
    Within n (e :: es) ↔ (∀ o ∈ e.offsets, o < n) ∧ Within n es := by
  simp [Within, or_imp, forall_and]

theorem within_append {n : Word} {es fs : List Edit} : Within n (es ++ fs) ↔ Within n es ∧ Within n fs := by
  simp [Within, or_imp, forall_and]

theorem Edit.offset_mem (e : Edit) : e.offset ∈ e.offsets := by
  unfold Edit.offsets
  split <;> simp

/-- An edit changes nothing elsewhere. -/
theorem Edit.apply_other {e : Edit} {f : Word → Byte} {o : Word} (h : o ∉ e.offsets) : e.apply f o = f o := by
  obtain ⟨offset, patch⟩ := e
  cases patch with
  | word v =>
    have hne : o ≠ offset ∧ o ≠ offset + 1 := by simpa [Edit.offsets] using h
    exact (Function.update_of_ne hne.2 ..).trans (Function.update_of_ne hne.1 ..)
  | put b => exact Function.update_of_ne (fun heq => h (List.mem_singleton.2 heq)) ..
  | low v => exact Function.update_of_ne (fun heq => h (List.mem_singleton.2 heq)) ..
  | high l v => exact Function.update_of_ne (fun heq => h (List.mem_singleton.2 heq)) ..

/-- What an edit does at its offsets depends only on them. -/
theorem Edit.apply_congr {e : Edit} {f g : Word → Byte} (h : ∀ o ∈ e.offsets, f o = g o) {o : Word} (ho : f o = g o) :
    e.apply f o = e.apply g o := by
  have hoff := h e.offset e.offset_mem
  by_cases hmem : o ∈ e.offsets
  · unfold Edit.offsets at h hmem
    unfold Edit.apply
    cases hp : e.patch with
    | word v =>
      rw [hp] at h
      have hnext := h (e.offset + 1) (by simp)
      simp only [Function.update_apply, hoff, hnext, ho]
    | put b => simp only [Function.update_apply, ho]
    | low v => simp only [Function.update_apply, hoff, ho]
    | high l v => simp only [Function.update_apply, hoff, ho]
  · rw [Edit.apply_other hmem, Edit.apply_other hmem, ho]

/-- Edits within the first `n` bytes depend only on those. -/
theorem run_congr {n : Word} {es : List Edit} (hes : Within n es) {f g : Word → Byte} (h : ∀ o < n, f o = g o) :
    ∀ o < n, run es f o = run es g o := by
  induction es generalizing f g with
  | nil => exact h
  | cons e es ih =>
    obtain ⟨he, hes⟩ := within_cons.1 hes
    exact ih hes fun o ho => Edit.apply_congr (fun o' ho' => h o' (he o' ho')) (h o ho)

theorem run_other {es : List Edit} {f : Word → Byte} {o : Word} (h : o ∉ offsets es) : run es f o = f o := by
  induction es generalizing f with
  | nil => rfl
  | cons e es ih =>
    rw [offsets_cons, List.mem_append, not_or] at h
    rw [run_cons, ih h.2, Edit.apply_other h.1]

/-- An edit that shares no offset with the others of its list acts on the original image. -/
theorem run_alone {pre post : List Edit} {e : Edit} {f : Word → Byte} {o : Word} (ho : o ∈ e.offsets)
    (hpre : ∀ o ∈ e.offsets, o ∉ offsets pre) (hpost : o ∉ offsets post) :
    run (pre ++ e :: post) f o = e.apply f o := by
  rw [run_append, run_cons, run_other hpost]
  exact Edit.apply_congr (fun o' ho' => run_other (hpre o' ho')) (run_other (hpre o ho))

/-! ### Bytes in a row -/

theorem ofNat_ne {j k : ℕ} (hj : j < 2 ^ 16) (hk : k < 2 ^ 16) (hne : j ≠ k) : BitVec.ofNat 16 j ≠ BitVec.ofNat 16 k := by
  intro heq
  have h := congrArg BitVec.toNat heq
  rw [BitVec.toNat_ofNat, BitVec.toNat_ofNat, Nat.mod_eq_of_lt hj, Nat.mod_eq_of_lt hk] at h
  exact hne h

/-- Stores of consecutive bytes from offset `k` on. -/
def puts : ℕ → List Byte → List Edit
  | _, [] => []
  | k, b :: bs => ⟨BitVec.ofNat 16 k, .put b⟩ :: puts (k + 1) bs

theorem puts_append (k : ℕ) (bs cs : List Byte) : puts k (bs ++ cs) = puts k bs ++ puts (k + bs.length) cs := by
  induction bs generalizing k with
  | nil => rfl
  | cons b bs ih =>
    rw [List.cons_append, puts, puts, ih, List.length_cons, List.cons_append, Nat.add_right_comm, Nat.add_assoc]

theorem mem_offsets_puts {k : ℕ} {bs : List Byte} {o : Word} :
    o ∈ offsets (puts k bs) ↔ ∃ i < bs.length, o = BitVec.ofNat 16 (k + i) := by
  induction bs generalizing k with
  | nil => simp [puts]
  | cons b bs ih =>
    rw [puts, offsets_cons, List.mem_append, ih, Edit.offsets, List.mem_singleton]
    constructor
    · rintro (rfl | ⟨i, hi, rfl⟩)
      · exact ⟨0, by simp, rfl⟩
      · exact ⟨i + 1, by simpa using hi, by rw [Nat.add_right_comm, Nat.add_assoc]⟩
    · rintro ⟨i, hi, rfl⟩
      cases i with
      | zero => exact .inl rfl
      | succ i => exact .inr ⟨i, by simpa using hi, by rw [Nat.add_right_comm, Nat.add_assoc]⟩

/-- Bytes stored from offset 0 on stay below `n` when they are no more than `n`. -/
theorem within_puts {n : Word} {bs : List Byte} : Within n (puts 0 bs) ↔ bs.length ≤ n.toNat := by
  constructor
  · intro h
    by_contra hlt
    have hn := h n (mem_offsets_puts.2 ⟨n.toNat, by omega, by simp⟩)
    exact absurd hn (by simp)
  · intro h o ho
    obtain ⟨i, hi, rfl⟩ := mem_offsets_puts.1 ho
    rw [BitVec.lt_def, BitVec.toNat_ofNat, Nat.zero_add]
    exact lt_of_le_of_lt (Nat.mod_le _ _) (by omega)

/-- Bytes that fit are all there afterwards. -/
theorem run_puts {bs : List Byte} (h : bs.length ≤ 2 ^ 16) {f : Word → Byte} {i : ℕ} (hi : i < bs.length) :
    run (puts 0 bs) f (BitVec.ofNat 16 i) = bs[i] := by
  have hlen : (bs.take i).length = i := List.length_take_of_le hi.le
  have hputs : puts 0 bs = puts 0 (bs.take i) ++ ⟨BitVec.ofNat 16 i, .put bs[i]⟩ :: puts (i + 1) (bs.drop (i + 1)) := by
    conv_lhs => rw [← List.take_append_drop i bs, List.drop_eq_getElem_cons hi, puts_append, hlen, puts, Nat.zero_add]
  rw [hputs, run_alone (by simp [Edit.offsets])]
  · simp [Edit.apply]
  · intro o ho hmem
    obtain rfl : o = BitVec.ofNat 16 i := by simpa [Edit.offsets] using ho
    obtain ⟨j, hj, heq⟩ := mem_offsets_puts.1 hmem
    exact ofNat_ne (by omega) (by omega) (by omega) heq
  · intro hmem
    obtain ⟨j, hj, heq⟩ := mem_offsets_puts.1 hmem
    rw [List.length_drop] at hj
    exact ofNat_ne (by omega) (by omega) (by omega) heq

end NioApps.Image
