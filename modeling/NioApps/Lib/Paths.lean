import Mathlib.Data.List.DropRight
import Mathlib.Data.List.Infix
import Mathlib.Tactic

/-! Paths: a list is cut into pieces at a separator, and a list of pieces is walked from a
directory, with a piece `up` that leads to the directory above. What is looked for between two
separators is a piece that is not the last one (`infix_iff`); a walk with `up` at its end only
stays below the directory it began in exactly when two pieces come before that `up`
(`walk_below_iff`). -/

namespace NioApps.Paths

section Pieces

variable {α : Type} [DecidableEq α] (sep : α)

def pieces (l : List α) : List (List α) :=
  l.foldr (fun c ps => if c = sep then [] :: ps else (c :: ps.headD []) :: ps.tail) [[]]

variable {sep}

@[simp] theorem pieces_nil : pieces sep [] = [[]] := rfl

@[simp] theorem pieces_sep (l : List α) : pieces sep (sep :: l) = [] :: pieces sep l := by
  unfold pieces
  rw [List.foldr_cons, if_pos rfl]

theorem pieces_cons {c : α} (hc : c ≠ sep) (l : List α) :
    pieces sep (c :: l) = (c :: (pieces sep l).headD []) :: (pieces sep l).tail := by
  unfold pieces
  rw [List.foldr_cons, if_neg hc]

theorem pieces_of_notMem {p : List α} (hp : sep ∉ p) : pieces sep p = [p] := by
  induction p with
  | nil => rfl
  | cons c p ih =>
    rw [List.mem_cons, not_or] at hp
    rw [pieces_cons (Ne.symm hp.1), ih hp.2]
    rfl

theorem pieces_append {p : List α} (hp : sep ∉ p) (l : List α) : pieces sep (p ++ sep :: l) = p :: pieces sep l := by
  induction p with
  | nil => exact pieces_sep l
  | cons c p ih =>
    rw [List.mem_cons, not_or] at hp
    rw [List.cons_append, pieces_cons (Ne.symm hp.1), ih hp.2]
    rfl

variable (sep) in
/-- A list is one piece, or its first piece with a separator and the rest behind it. -/
theorem pieces_induction {motive : List α → Prop} (last : ∀ p, sep ∉ p → motive p)
    (piece : ∀ p l, sep ∉ p → motive l → motive (p ++ sep :: l)) (l : List α) : motive l := by
  induction hn : l.length using Nat.strongRecOn generalizing l with
  | ind n ih =>
    by_cases hmem : sep ∈ l
    · obtain ⟨p, rest, rfl, hp⟩ := List.eq_append_cons_of_mem hmem
      refine piece p rest hp (ih rest.length ?_ rest rfl)
      rw [← hn, List.length_append, List.length_cons]
      omega
    · exact last l hmem

theorem pieces_ne_nil (l : List α) : pieces sep l ≠ [] := by
  induction l using pieces_induction sep with
  | last p hp =>
    rw [pieces_of_notMem hp]
    exact List.cons_ne_nil _ _
  | piece p l hp ih =>
    rw [pieces_append hp]
    exact List.cons_ne_nil _ _

/-- Both sides of any separator are cut on their own. -/
theorem pieces_append_sep (l m : List α) : pieces sep (l ++ sep :: m) = pieces sep l ++ pieces sep m := by
  induction l using pieces_induction sep with
  | last p hp => rw [pieces_append hp, pieces_of_notMem hp, List.singleton_append]
  | piece p l hp ih => rw [List.append_assoc, List.cons_append, pieces_append hp, ih, pieces_append hp, List.cons_append]

/-- A piece with a separator on both sides, where one counts as before the list. -/
theorem infix_iff {w : List α} (hw : sep ∉ w) (l : List α) :
    sep :: (w ++ [sep]) <:+: sep :: l ↔ w ∈ (pieces sep l).dropLast := by
  constructor
  · rintro ⟨s, t, hst⟩
    cases s with
    | nil =>
      have hl : l = w ++ sep :: t := by simpa using hst.symm
      rw [hl, pieces_append hw, List.dropLast_cons_of_ne_nil (pieces_ne_nil t)]
      exact List.mem_cons_self
    | cons c s =>
      have hl : l = s ++ sep :: (w ++ sep :: t) := by
        have := (List.cons.inj hst).2
        simpa using this.symm
      rw [hl, pieces_append_sep, pieces_append hw, List.dropLast_append_cons, List.dropLast_cons_of_ne_nil (pieces_ne_nil t)]
      exact List.mem_append_right _ List.mem_cons_self
  · intro hmem
    induction l using pieces_induction sep with
    | last p hp =>
      rw [pieces_of_notMem hp] at hmem
      cases hmem
    | piece p l hp ih =>
      rw [pieces_append hp, List.dropLast_cons_of_ne_nil (pieces_ne_nil l), List.mem_cons] at hmem
      rcases hmem with rfl | hmem
      · exact ⟨[], l, by simp⟩
      · have hrest : sep :: l <:+: sep :: (p ++ sep :: l) := ⟨sep :: p, [], by simp⟩
        exact (ih hmem).trans hrest

variable (sep) in
/-- Without the separators at both ends. -/
def strip (l : List α) : List α := (l.dropWhile (· = sep)).rdropWhile (· = sep)

theorem head?_strip (l : List α) : (strip sep l).head? ≠ some sep := by
  intro heq
  obtain ⟨m, hm⟩ := List.head?_eq_some_iff.1 heq
  have hpre : strip sep l <+: l.dropWhile (· = sep) := List.rdropWhile_prefix _ _
  have hhead : (l.dropWhile (· = sep)).head? = some sep := by
    obtain ⟨t, ht⟩ := hpre
    rw [← ht, hm]
    rfl
  have hnot := List.head?_dropWhile_not (· = sep) l
  rw [hhead] at hnot
  simp at hnot

/-- The pieces that count: not empty, and not the one that means the directory itself. -/
def components (sep : α) (here l : List α) : List (List α) := (pieces sep l).filter fun p => p ≠ [] ∧ p ≠ here

variable {here : List α}

theorem components_dropWhile (l : List α) : components sep here (l.dropWhile (· = sep)) = components sep here l := by
  induction l with
  | nil => rfl
  | cons c l ih =>
    by_cases hc : c = sep
    · subst hc
      rw [List.dropWhile_cons_of_pos (by simp), ih]
      simp [components]
    · rw [List.dropWhile_cons_of_neg (by simpa using hc)]

theorem components_rdropWhile (l : List α) : components sep here (l.rdropWhile (· = sep)) = components sep here l := by
  induction l using List.reverseRecOn with
  | nil => rfl
  | append_singleton l c ih =>
    by_cases hc : c = sep
    · subst hc
      rw [List.rdropWhile_concat_pos _ _ _ (by simp), ih]
      simp [components, pieces_append_sep]
    · rw [List.rdropWhile_concat_neg _ _ _ (by simpa using hc)]

@[simp] theorem components_strip (l : List α) : components sep here (strip sep l) = components sep here l := by
  unfold strip
  rw [components_rdropWhile, components_dropWhile]

/-- What is in front of the last component is in front of the last piece. -/
theorem mem_dropLast_pieces {l w : List α} (hw : w ∈ (components sep here l).dropLast) : w ∈ (pieces sep l).dropLast := by
  unfold components at hw
  rcases List.eq_nil_or_concat (pieces sep l) with heq | ⟨init, last, heq⟩
  · simp [heq] at hw
  · rw [List.concat_eq_append] at heq
    rw [heq, List.filter_append] at hw
    rw [heq, List.dropLast_concat]
    have hinit : w ∈ init.filter fun p => p ≠ [] ∧ p ≠ here := by
      by_cases hlast : last ≠ [] ∧ last ≠ here
      · rw [List.filter_cons_of_pos (by simpa using hlast), List.filter_nil, List.dropLast_concat] at hw
        exact hw
      · rw [List.filter_cons_of_neg (by simpa using hlast), List.filter_nil, List.append_nil] at hw
        exact List.mem_of_mem_dropLast hw
    exact List.mem_of_mem_filter hinit

end Pieces

section Walk

variable {β : Type}

def Below (d x : List β) : Prop := d <+: x ∧ x ≠ d

theorem below_append_iff (d l : List β) : Below d (d ++ l) ↔ l ≠ [] := by
  unfold Below
  have hpre : d <+: d ++ l := List.prefix_append d l
  have heq : d ++ l = d ↔ l = [] := List.append_right_eq_self
  tauto

variable [DecidableEq β] (up : β)

/-- From a directory, piece by piece; above the topmost directory is that directory itself. -/
def walk (d : List β) (l : List β) : List β := l.foldl (fun d c => if c = up then d.dropLast else d ++ [c]) d

variable {up}

theorem walk_append (d l m : List β) : walk up d (l ++ m) = walk up (walk up d l) m := List.foldl_append

theorem walk_of_notMem (d : List β) {l : List β} (hl : up ∉ l) : walk up d l = d ++ l := by
  induction l generalizing d with
  | nil => exact (List.append_nil d).symm
  | cons c l ih =>
    rw [List.mem_cons, not_or] at hl
    have hstep : walk up d (c :: l) = walk up (d ++ [c]) l := by
      unfold walk
      rw [List.foldl_cons, if_neg (Ne.symm hl.1)]
    rw [hstep, ih _ hl.2, List.append_assoc, List.singleton_append]

theorem walk_up (d : List β) {l : List β} (hl : up ∉ l) : walk up d (l ++ [up]) = (d ++ l).dropLast := by
  rw [walk_append, walk_of_notMem d hl]
  unfold walk
  rw [List.foldl_cons, if_pos rfl, List.foldl_nil]

/-- Only the last piece may be `up`. -/
theorem walk_below_iff (d : List β) {l : List β} (hl : up ∉ l.dropLast) :
    Below d (walk up d l) ↔ l ≠ [] ∧ (l.getLast? = some up → 3 ≤ l.length) := by
  rcases List.eq_nil_or_concat l with rfl | ⟨m, c, rfl⟩
  · simp [walk, Below]
  · rw [List.concat_eq_append, List.dropLast_concat] at *
    by_cases hc : c = up
    · subst hc
      rw [walk_up d hl]
      rcases List.eq_nil_or_concat m with rfl | ⟨m, b, rfl⟩
      · have hshort : ¬Below d (d ++ []).dropLast := by
          rintro ⟨hpre, hne⟩
          rw [List.append_nil] at hpre hne
          exact hne (hpre.eq_of_length_le (List.dropLast_prefix d).length_le).symm
        simpa using hshort
      · rw [List.concat_eq_append, List.dropLast_append_of_ne_nil (by simp), List.dropLast_concat, below_append_iff]
        simp [← List.length_pos_iff_ne_nil]
        omega
    · have hfree : up ∉ m ++ [c] := by
        simpa using ⟨hl, Ne.symm hc⟩
      rw [walk_of_notMem d hfree, below_append_iff]
      simp [hc]

end Walk

end NioApps.Paths
