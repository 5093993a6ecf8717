import NioApps.Spec.Module

/-! Which bytes a module stores to, by its sizes and records. The checks of the
loader compare 16-bit sums, and `Bounded` says when these do not let a store out
of the allocation. -/

namespace NioApps.Loader

open Image

/-! ### Records -/

/-- An accepted record of a table of `size` bytes at `segment`. -/
def Accepted (segment size : Word) (e : Edit) : Prop :=
  ∃ off, e.offset = segment + off ∧
    match e.patch with
    | .word _ => off + 1 < size
    | .put _ => False
    | _ => off < size

theorem Plan.mem_andThen {p : Plan} {q : List Byte → Plan} {e : Edit} :
    e ∈ (p.andThen q).edits ↔ e ∈ p.edits ∨ ∃ rest, p.ending = .done rest ∧ e ∈ (q rest).edits := by
  rw [andThen]
  cases p.ending <;> simp

@[simp] theorem Plan.stop_edits (e : Ending) : (Plan.stop e).edits = [] := rfl

@[simp] theorem Plan.stop_ending (e : Ending) : (Plan.stop e).ending = e := rfl

theorem entry_accepted {start segment size off : Word} {bs : List Byte} {e : Edit}
    (h : e ∈ (entry start segment size off bs).edits) : Accepted segment size e := by
  cases bs with
  | nil => simp [entry] at h
  | cons d bs =>
    simp only [entry] at h
    cases hv : relocBase d start with
    | none => simp [hv] at h
    | some v =>
      simp only [hv] at h
      split_ifs at h with hw hin hh hin hl hin
      · obtain rfl := List.mem_singleton.1 h
        exact ⟨off, rfl, hin⟩
      · simp at h
      · cases bs with
        | nil => simp at h
        | cons l bs =>
          obtain rfl := List.mem_singleton.1 h
          exact ⟨off, rfl, hin⟩
      · simp at h
      · obtain rfl := List.mem_singleton.1 h
        exact ⟨off, rfl, hin⟩
      · simp at h
      · simp at h

theorem tableN_accepted {start segment size : Word} {n : ℕ} {off : Word} {bs : List Byte} {e : Edit}
    (h : e ∈ (tableN start segment size n off bs).edits) : Accepted segment size e := by
  induction n generalizing off bs with
  | zero => simp [tableN] at h
  | succ n ih =>
    cases bs with
    | nil => simp [tableN] at h
    | cons a bs =>
      simp only [tableN] at h
      split_ifs at h with h0 hskip
      · simp at h
      · exact ih h
      · rcases Plan.mem_andThen.1 h with h | ⟨rest, -, h⟩
        · exact entry_accepted h
        · exact ih h

/-- Every record belongs to TEXT or to DATA. -/
theorem tables_accepted {start text data : Word} {bs : List Byte} {e : Edit}
    (h : e ∈ (tables start text data bs).edits) : Accepted 0 text e ∨ Accepted text data e := by
  rcases Plan.mem_andThen.1 h with h | ⟨bs₁, -, h⟩
  · simp at h
  · rcases Plan.mem_andThen.1 h with h | ⟨bs₂, -, h⟩
    · exact .inl (tableN_accepted h)
    · rcases Plan.mem_andThen.1 h with h | ⟨bs₃, -, h⟩
      · exact .inr (tableN_accepted h)
      · simp at h

/-! ### Plans at different addresses -/

/-- Two plans that differ only in what they store. -/
structure Plan.Alike (p q : Plan) : Prop where
  offsets : offsets p.edits = offsets q.edits
  ending : p.ending = q.ending

theorem Plan.Alike.refl (p : Plan) : p.Alike p := ⟨rfl, rfl⟩

theorem Plan.Alike.andThen {p q : Plan} {f g : List Byte → Plan} (h : p.Alike q) (hk : ∀ rest, (f rest).Alike (g rest)) :
    (p.andThen f).Alike (q.andThen g) := by
  rw [Plan.andThen, Plan.andThen, ← h.ending]
  cases p.ending with
  | done rest => exact ⟨by simp only [offsets_append, h.offsets, (hk rest).offsets], (hk rest).ending⟩
  | rejected => exact ⟨h.offsets, rfl⟩
  | truncated => exact ⟨h.offsets, rfl⟩

theorem entry_alike (start start' segment size off : Word) (bs : List Byte) :
    (entry start segment size off bs).Alike (entry start' segment size off bs) := by
  cases bs with
  | nil => exact .refl _
  | cons d bs =>
    simp only [entry, relocBase]
    split_ifs <;> first | exact .refl _ | exact ⟨rfl, rfl⟩ | cases bs <;> exact ⟨rfl, rfl⟩

theorem tableN_alike (start start' segment size : Word) (n : ℕ) (off : Word) (bs : List Byte) :
    (tableN start segment size n off bs).Alike (tableN start' segment size n off bs) := by
  induction n generalizing off bs with
  | zero => exact .refl _
  | succ n ih =>
    cases bs with
    | nil => exact .refl _
    | cons a bs =>
      simp only [tableN]
      split_ifs
      · exact .refl _
      · exact ih _ _
      · exact (entry_alike start start' segment size _ bs).andThen fun rest => ih _ rest

/-- Where a module is loaded changes neither where its plan stores nor how it ends. -/
theorem plan_alike (start start' text data init bss : Word) (bs : List Byte) :
    (plan start text data init bss bs).Alike (plan start' text data init bss bs) := by
  refine (Plan.Alike.refl _).andThen fun bs => (Plan.Alike.refl _).andThen fun bs => (Plan.Alike.refl _).andThen fun bs => ?_
  exact (tableN_alike ..).andThen fun bs => (tableN_alike ..).andThen fun bs => .refl _

/-! ### The bounds -/

/-- What a record must not do. When TEXT and DATA together are below 64 KiB, only a
WORD whose second byte is at offset 0 gets past the checks. -/
def RecordOk (text data alloc : Word) (e : Edit) : Prop :=
  if text.toNat + data.toNat < 2 ^ 16 then ∀ v, e.patch = .word v → e.offset ≠ 0xffff
  else ∀ o ∈ e.offsets, o < alloc

theorem recordOk_iff {text data alloc : Word} {e : Edit} (hfit : text.toNat + data.toNat ≤ alloc.toNat)
    (h : Accepted 0 text e ∨ Accepted text data e) : RecordOk text data alloc e ↔ ∀ o ∈ e.offsets, o < alloc := by
  have hlt : text.toNat + data.toNat < 2 ^ 16 := lt_of_le_of_lt hfit alloc.isLt
  have hacc : ∃ segment size, Accepted segment size e ∧ segment.toNat + size.toNat ≤ alloc.toNat := by
    rcases h with h | h
    · have h0 : (0 : Word).toNat = 0 := rfl
      exact ⟨0, text, h, by omega⟩
    · exact ⟨text, data, h, hfit⟩
  obtain ⟨segment, size, ⟨off, hoff, hin⟩, hseg⟩ := hacc
  rw [RecordOk, if_pos hlt, Edit.offsets]
  cases hp : e.patch with
  | put v =>
    rw [hp] at hin
    exact hin.elim
  | low v =>
    rw [hp] at hin
    simp only [List.mem_singleton, forall_eq, hoff]
    refine ⟨fun _ => ?_, fun _ _ h => by cases h⟩
    bv_omega
  | high l v =>
    rw [hp] at hin
    simp only [List.mem_singleton, forall_eq, hoff]
    refine ⟨fun _ => ?_, fun _ _ h => by cases h⟩
    bv_omega
  | word v =>
    rw [hp] at hin
    simp only [List.mem_cons, List.not_mem_nil, or_false, forall_eq_or_imp, forall_eq, hoff]
    constructor
    · intro hne
      have hne' := hne v rfl
      bv_omega
    · intro hlt _ _ heq
      bv_omega

/-- The bytes after the header of a module that stays in its allocation. -/
def Bounded (start text data bss alloc : Word) (bs : List Byte) : Prop :=
  ∀ rest, options 0 bs = .done rest →
    ((text + data).toNat + bss.toNat < 2 ^ 16 ∨ rest.length ≤ alloc.toNat) ∧
      ((text + data).toNat ≤ rest.length →
        ∀ e ∈ (tables start text data (rest.drop (text + data).toNat)).edits, RecordOk text data alloc e)

theorem within_iff_forall {n : Word} {es : List Edit} : Within n es ↔ ∀ e ∈ es, ∀ o ∈ e.offsets, o < n := by
  simp only [Within, offsets, List.mem_flatMap, forall_exists_index, and_imp]
  exact ⟨fun h e he o ho => h o e he ho, fun h o e he ho => h e he o ho⟩

theorem within_tables_iff {start text data bss alloc : Word} {bs : List Byte} (halloc : text + data + bss = alloc)
    (hfit : (text + data).toNat + bss.toNat < 2 ^ 16) :
    Within alloc (tables start text data bs).edits ↔
      ∀ e ∈ (tables start text data bs).edits, RecordOk text data alloc e := by
  rw [within_iff_forall]
  by_cases hlt : text.toNat + data.toNat < 2 ^ 16
  · refine forall₂_congr fun e he => (recordOk_iff ?_ (tables_accepted he)).symm
    bv_omega
  · simp only [RecordOk, if_neg hlt]

/-- `Bounded` is exact. -/
theorem within_plan_iff {start text data bss alloc : Word} {bs : List Byte} (halloc : text + data + bss = alloc) :
    Within alloc (plan start text data (text + data) bss bs).edits ↔ Bounded start text data bss alloc bs := by
  have hsum : alloc.toNat = ((text + data).toNat + bss.toNat) % 2 ^ 16 := by rw [← halloc, BitVec.toNat_add]
  have hbss := bss.isLt
  rw [plan, Bounded, Plan.andThen, Plan.stop_ending]
  cases hopt : options 0 bs with
  | done rest =>
    simp only [Ending.done.injEq, forall_eq', Plan.stop_edits, List.nil_append]
    rw [segments]
    split_ifs with hlen
    · simp only [Plan.andThen, within_puts, Nat.not_le.2 hlen, false_imp_iff, and_true]
      omega
    · have hle := Nat.not_lt.1 hlen
      have htake : (rest.take (text + data).toNat).length = (text + data).toNat := List.length_take_of_le hle
      simp only [Plan.andThen, within_append, within_puts, List.length_append, htake, List.length_replicate, hle,
        true_imp_iff]
      by_cases hfit : (text + data).toNat + bss.toNat < 2 ^ 16
      · rw [within_tables_iff halloc hfit]
        simp only [hfit, true_or, true_and, and_iff_right_iff_imp]
        intro _
        omega
      · refine iff_of_false (fun h => ?_) fun h => ?_
        · omega
        · exact hfit (h.1.resolve_right (by omega))
  | rejected => simp
  | truncated => simp

/-- Neither the sum of the sizes nor the offset after a WORD record's first byte wraps. -/
structure Unwrapped (start text data bss : Word) (bs : List Byte) : Prop where
  sizes : text.toNat + data.toNat + bss.toNat < 2 ^ 16
  records : ∀ rest, options 0 bs = .done rest →
    ∀ e ∈ (tables start text data (rest.drop (text + data).toNat)).edits, ∀ v, e.patch = .word v → e.offset ≠ 0xffff

/-- By running through the records. -/
theorem Unwrapped.of_all {start text data bss : Word} {bs rest : List Byte} (hsizes : text.toNat + data.toNat + bss.toNat < 2 ^ 16)
    (hoptions : options 0 bs = .done rest)
    (hall : (tables start text data (rest.drop (text + data).toNat)).edits.all (fun e => decide (e.offset ≠ 0xffff)) = true) :
    Unwrapped start text data bss bs := by
  refine ⟨hsizes, fun rest' hrest e he _ _ => ?_⟩
  rw [hoptions] at hrest
  cases hrest
  exact of_decide_eq_true (List.all_eq_true.1 hall e he)

theorem Unwrapped.bounded {start text data bss alloc : Word} {bs : List Byte} (h : Unwrapped start text data bss bs) :
    Bounded start text data bss alloc bs := by
  have hsizes := h.sizes
  refine fun rest hrest => ⟨.inl ?_, fun _ e he => ?_⟩
  · rw [BitVec.toNat_add]
    omega
  · rw [RecordOk, if_pos (by omega)]
    exact h.records rest hrest e he

end NioApps.Loader
