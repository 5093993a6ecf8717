import NioApps.Sanity.Segments
import NioApps.Spec.Encoding

/-! The plan of the bytes of a module: it puts the segments in place and relocates
every site, once, and reads to the last byte. -/

namespace NioApps.Loader

open Image

/-! ### Options -/

theorem options_bytes {os : List (List Byte)} (h : ∀ o ∈ os, 1 ≤ o.length ∧ o.length ≤ 254) (bs : List Byte) :
    options 0 (os.flatMap optionBytes ++ 0 :: bs) = .done bs := by
  induction os with
  | nil => rfl
  | cons o os ih =>
    obtain ⟨hpos, hle⟩ := h o (List.mem_cons_self ..)
    have htoNat : (BitVec.ofNat 8 (o.length + 1)).toNat = o.length + 1 := by
      rw [BitVec.toNat_ofNat]
      omega
    have h0 : BitVec.ofNat 8 (o.length + 1) ≠ 0 := by
      intro h0
      rw [h0] at htoNat
      simp at htoNat
    have h2 : ¬BitVec.ofNat 8 (o.length + 1) < 2 := by
      have h2 : (2 : Byte).toNat = 2 := rfl
      rw [BitVec.lt_def, htoNat]
      omega
    have hskip : (BitVec.ofNat 8 (o.length + 1) - 1).toNat = o.length := by
      rw [BitVec.ofNat_add]
      simp
      omega
    rw [List.flatMap_cons, optionBytes, List.cons_append, List.cons_append, options, if_neg h0, if_neg h2, hskip,
      options_skip, List.append_assoc, if_neg (by simp), List.drop_left]
    exact ih fun o ho => h o (List.mem_cons_of_mem _ ho)

/-! ### Relocation tables -/

def Site.edit (start : Word) (s : Site) : Edit where
  offset := BitVec.ofNat 16 s.offset
  patch :=
    match s.width with
    | .word => .word (s.base start)
    | .low => .low (s.base start)
    | .high low => .high low (s.base start)

theorem skips_table {start segment size off : Word} {q n : ℕ} (hq : q < n) {d : Byte} (h0 : d ≠ 0) (hff : d ≠ 0xff)
    (bs : List Byte) :
    tableN start segment size n off (List.replicate q 0xff ++ d :: bs) =
      (entry start segment size (off + BitVec.ofNat 16 (254 * q) + d.setWidth 16) bs).andThen
        (tableN start segment size (n - (q + 1)) (off + BitVec.ofNat 16 (254 * q) + d.setWidth 16)) := by
  induction q generalizing n off with
  | zero =>
    obtain ⟨n, rfl⟩ := Nat.exists_eq_add_of_lt hq
    rw [List.replicate_zero, List.nil_append, tableN, if_neg h0, if_neg hff]
    simp
  | succ q ih =>
    obtain ⟨n, rfl⟩ := Nat.exists_eq_add_of_lt hq
    have hoff : off + 0xfe + BitVec.ofNat 16 (254 * q) = off + BitVec.ofNat 16 (254 * (q + 1)) := by
      rw [Nat.mul_add, BitVec.ofNat_add]
      bv_omega
    have hstep := @ih (off + 0xfe) (q + 1 + n) (by omega)
    rw [hoff] at hstep
    rw [List.replicate_succ, List.cons_append, tableN, if_neg (by decide), if_pos rfl, hstep]
    congr 2
    omega

theorem delta_table {start segment size off : Word} {k n : ℕ} (hk : 1 ≤ k) (hn : (delta k).length ≤ n) (bs : List Byte) :
    tableN start segment size n off (delta k ++ bs) =
      (entry start segment size (off + BitVec.ofNat 16 k) bs).andThen
        (tableN start segment size (n - (delta k).length) (off + BitVec.ofNat 16 k)) := by
  have hlength : (delta k).length = (k - 1) / 254 + 1 := by simp [delta]
  have hd : (BitVec.ofNat 8 ((k - 1) % 254 + 1)).toNat = (k - 1) % 254 + 1 := by
    rw [BitVec.toNat_ofNat]
    omega
  have h0 : BitVec.ofNat 8 ((k - 1) % 254 + 1) ≠ 0 := by
    intro h0
    rw [h0] at hd
    simp at hd
  have hff : BitVec.ofNat 8 ((k - 1) % 254 + 1) ≠ 0xff := by
    intro hff
    have h255 : (0xff : Byte).toNat = 255 := rfl
    rw [hff] at hd
    omega
  have hoff : off + BitVec.ofNat 16 (254 * ((k - 1) / 254)) + (BitVec.ofNat 8 ((k - 1) % 254 + 1)).setWidth 16 =
      off + BitVec.ofNat 16 k := by
    apply BitVec.eq_of_toNat_eq
    simp only [BitVec.toNat_add, BitVec.toNat_ofNat, BitVec.toNat_setWidth, hd]
    omega
  have hskips := @skips_table start segment size off _ _
    (show (k - 1) / 254 < n by omega) _ h0 hff bs
  rw [hoff] at hskips
  rw [hlength, delta, List.append_assoc]
  exact hskips

theorem descriptor_parts (s : Site) (kind : Byte) (hkind : kind = rtWord ∨ kind = rtHigh ∨ kind = rtLow) :
    (kind + s.segmentByte) &&& 7 = s.segmentByte ∧ (kind + s.segmentByte) &&& 0xe0 = kind := by
  rw [Site.segmentByte]
  rcases hkind with rfl | rfl | rfl <;> cases s.segment <;> decide

theorem relocBase_site (start : Word) (s : Site) (kind : Byte) (hkind : kind = rtWord ∨ kind = rtHigh ∨ kind = rtLow) :
    relocBase (kind + s.segmentByte) start = some (s.base start) := by
  have hparts := (descriptor_parts s kind hkind).1
  obtain ⟨offset, width, segment⟩ := s
  simp only [relocBase, hparts]
  cases segment <;> simp [Site.segmentByte, Site.base, segText, segData, segBss, segZp]

/-- The record of a site that lies in its segment. -/
theorem entry_record {start : Word} {k n : ℕ} {s : Site} (hs : s.offset + s.size ≤ n) (hn : n < 2 ^ 16) (bs : List Byte) :
    entry start (BitVec.ofNat 16 k) (BitVec.ofNat 16 n) (BitVec.ofNat 16 s.offset) (s.record ++ bs) =
      ⟨[(s.shift k).edit start], .done bs⟩ := by
  have hoff : BitVec.ofNat 16 k + BitVec.ofNat 16 s.offset = BitVec.ofNat 16 (k + s.offset) :=
    (BitVec.ofNat_add ..).symm
  have hword := And.intro (relocBase_site start s rtWord (.inl rfl)) (descriptor_parts s rtWord (.inl rfl)).2
  have hhigh := And.intro (relocBase_site start s rtHigh (.inr (.inl rfl))) (descriptor_parts s rtHigh (.inr (.inl rfl))).2
  have hlow := And.intro (relocBase_site start s rtLow (.inr (.inr rfl))) (descriptor_parts s rtLow (.inr (.inr rfl))).2
  obtain ⟨offset, width, segment⟩ := s
  cases width with
  | word =>
    have hin : BitVec.ofNat 16 offset + 1 < BitVec.ofNat 16 n := by
      have h1 : (1 : Word).toNat = 1 := rfl
      simp only [Site.size] at hs
      simp only [BitVec.lt_def, BitVec.toNat_add, BitVec.toNat_ofNat, h1]
      omega
    simp only [Site.record, List.cons_append, List.nil_append, entry, hword, if_true, if_pos hin, hoff]
    rfl
  | low =>
    have hin : BitVec.ofNat 16 offset < BitVec.ofNat 16 n := by
      simp only [Site.size] at hs
      simp only [BitVec.lt_def, BitVec.toNat_ofNat]
      omega
    have h1 : rtLow ≠ rtWord := by decide
    have h2 : rtLow ≠ rtHigh := by decide
    simp only [Site.record, List.cons_append, List.nil_append, entry, hlow, if_neg h1, if_neg h2, if_true, if_pos hin, hoff]
    rfl
  | high low =>
    have hin : BitVec.ofNat 16 offset < BitVec.ofNat 16 n := by
      simp only [Site.size] at hs
      simp only [BitVec.lt_def, BitVec.toNat_ofNat]
      omega
    have h1 : rtHigh ≠ rtWord := by decide
    simp only [Site.record, List.cons_append, List.nil_append, entry, hhigh, if_neg h1, if_true, if_pos hin, hoff]
    rfl

theorem Plan.andThen_done (es : List Edit) (rest : List Byte) (q : List Byte → Plan) :
    (⟨es, .done rest⟩ : Plan).andThen q = ⟨es ++ (q rest).edits, (q rest).ending⟩ := rfl

theorem siteTable_tableN {start : Word} {k n p q fuel : ℕ} {ss : List Site} (hspaced : Spaced n q ss) (hp : p ≤ q)
    (hn : n < 2 ^ 16) (hfuel : (siteTable p ss).length ≤ fuel) (bs : List Byte) :
    tableN start (BitVec.ofNat 16 k) (BitVec.ofNat 16 n) fuel (BitVec.ofNat 16 p - 1) (siteTable p ss ++ bs) =
      ⟨ss.map fun s => (s.shift k).edit start, .done bs⟩ := by
  induction ss generalizing p q fuel with
  | nil =>
    obtain ⟨fuel, rfl⟩ := Nat.exists_eq_add_of_le' hfuel
    rfl
  | cons s ss ih =>
    obtain ⟨hq, hin, hrest⟩ := hspaced
    have hoff : BitVec.ofNat 16 p - 1 + BitVec.ofNat 16 (s.offset + 1 - p) = BitVec.ofNat 16 s.offset := by
      have h1 : (1 : Word).toNat = 1 := rfl
      apply BitVec.eq_of_toNat_eq
      simp only [BitVec.toNat_add, BitVec.toNat_sub, BitVec.toNat_ofNat, h1]
      omega
    have hnext : BitVec.ofNat 16 s.offset = BitVec.ofNat 16 (s.offset + 1) - 1 := by
      rw [BitVec.ofNat_add]
      bv_omega
    have hsize : 1 ≤ s.size := by
      unfold Site.size
      split <;> decide
    simp only [siteTable, List.length_append] at hfuel
    rw [siteTable, List.append_assoc, List.append_assoc, delta_table (by omega) (by omega), hoff, entry_record hin hn,
      Plan.andThen_done, hnext, ih hrest (by omega) (by omega)]
    rfl

theorem siteTable_table {start : Word} {k n : ℕ} {ss : List Site} (hspaced : Spaced n 0 ss) (hn : n < 2 ^ 16)
    (bs : List Byte) :
    table start (BitVec.ofNat 16 k) (BitVec.ofNat 16 n) (siteTable 0 ss ++ bs) =
      ⟨ss.map fun s => (s.shift k).edit start, .done bs⟩ :=
  siteTable_tableN hspaced le_rfl hn (by simp; omega) bs

/-! ### The module -/

theorem segments_bytes {init bss : Word} {bs rest : List Byte} (hinit : init.toNat = bs.length) :
    segments init bss (bs ++ rest) = ⟨puts 0 (bs ++ List.replicate bss.toNat 0), .done rest⟩ := by
  rw [segments, if_neg (by simp [hinit]), hinit, List.take_left, List.drop_left]

namespace Module

/-- The bytes in place before relocation. -/
def placed (m : Module) : List Byte := m.text ++ m.data ++ List.replicate m.bss 0

/-- The edits that load the module. -/
def edits (m : Module) (start : Word) : List Edit := puts 0 m.placed ++ m.sites.map (Site.edit start)

theorem length_placed (m : Module) : m.placed.length = m.size := by
  simp [placed, size, Nat.add_assoc]

theorem getElem_placed (m : Module) {i : ℕ} (hi : i < m.placed.length) : m.placed[i] = m.linked i := by
  rw [linked, List.getD_eq_getElem?_getD, ← Option.some_inj, ← List.getElem?_eq_getElem hi, placed,
    List.getElem?_append]
  split_ifs with h
  · rw [List.getElem?_eq_getElem h, Option.getD_some]
  · have hlen := m.length_placed
    rw [List.getElem?_eq_none (Nat.not_lt.1 h), Option.getD_none, List.getElem?_replicate, if_pos]
    simp only [size, List.length_append] at *
    omega

theorem tables_stream (m : Module) (start : Word) :
    tables start (BitVec.ofNat 16 m.text.length) (BitVec.ofNat 16 m.data.length)
        (0 :: 0 :: (siteTable 0 m.textSites ++ (siteTable 0 m.dataSites ++ [0, 0]))) =
      ⟨m.sites.map (Site.edit start), .done []⟩ := by
  have hfits := m.fits
  have htext := @siteTable_table start 0 _ _ m.text_ok (by omega) (siteTable 0 m.dataSites ++ [0, 0])
  have hdata := @siteTable_table start m.text.length _ _ m.data_ok (by omega) [0, 0]
  have hshift : (fun s : Site => (s.shift 0).edit start) = Site.edit start := by
    funext s
    simp [Site.shift]
  rw [hshift] at htext
  rw [tables]
  change (⟨[], .done (siteTable 0 m.textSites ++ (siteTable 0 m.dataSites ++ [0, 0]))⟩ : Plan).andThen _ = _
  rw [Plan.andThen_done, List.nil_append]
  change (table start (BitVec.ofNat 16 0) _ _).andThen _ = _
  rw [htext, Plan.andThen_done, hdata, Plan.andThen_done, sites, List.map_append, List.map_map]
  simp [noSymbols, Plan.stop, Function.comp_def]

theorem plan_stream (m : Module) (start : Word) :
    plan start (BitVec.ofNat 16 m.text.length) (BitVec.ofNat 16 m.data.length)
        (BitVec.ofNat 16 (m.text.length + m.data.length)) (BitVec.ofNat 16 m.bss) m.stream =
      ⟨m.edits start, .done []⟩ := by
  have hfits := m.fits
  have hinit : (BitVec.ofNat 16 (m.text.length + m.data.length)).toNat = (m.text ++ m.data).length := by
    rw [BitVec.toNat_ofNat, List.length_append, Nat.mod_eq_of_lt (by omega)]
  have hbss : (BitVec.ofNat 16 m.bss).toNat = m.bss := by
    rw [BitVec.toNat_ofNat, Nat.mod_eq_of_lt (by omega)]
  rw [plan, stream, options_bytes m.options_ok, Plan.stop, Plan.andThen_done, segments_bytes hinit, Plan.andThen_done,
    tables_stream, hbss]
  rfl

end Module

/-! ### The image -/

theorem Site.edit_offsets (start : Word) (s : Site) :
    (s.edit start).offsets = (List.range s.size).map fun j => BitVec.ofNat 16 (s.offset + j) := by
  obtain ⟨offset, width, segment⟩ := s
  cases width with
  | word =>
    change [BitVec.ofNat 16 offset, BitVec.ofNat 16 offset + 1] = [BitVec.ofNat 16 offset, BitVec.ofNat 16 (offset + 1)]
    rw [BitVec.ofNat_add]
    rfl
  | low => rfl
  | high low => rfl

theorem Spaced.offset {size k : ℕ} {ss : List Site} (h : Spaced size k ss) {s : Site} (hs : s ∈ ss) :
    k ≤ s.offset ∧ s.offset + s.size ≤ size := by
  induction ss generalizing k with
  | nil => cases hs
  | cons t ss ih =>
    obtain ⟨hk, hsize, hrest⟩ := h
    rcases List.mem_cons.1 hs with rfl | hs
    · exact ⟨hk, hsize⟩
    · obtain ⟨hk', hsize'⟩ := ih hrest hs
      exact ⟨by omega, hsize'⟩

theorem Spaced.mem_offsets {size k : ℕ} {ss : List Site} (h : Spaced size k ss) {start o : Word}
    (ho : o ∈ offsets (ss.map (Site.edit start))) : ∃ i, k ≤ i ∧ i < size ∧ o = BitVec.ofNat 16 i := by
  simp only [offsets, List.mem_flatMap, List.mem_map, exists_exists_and_eq_and, Site.edit_offsets, List.mem_range] at ho
  obtain ⟨s, hs, j, hj, rfl⟩ := ho
  obtain ⟨hk, hsize⟩ := h.offset hs
  exact ⟨s.offset + j, by omega, by omega, rfl⟩

theorem Spaced.within {size : ℕ} {ss : List Site} (h : Spaced size 0 ss) (hsize : size < 2 ^ 16) (start : Word) :
    Within (BitVec.ofNat 16 size) (ss.map (Site.edit start)) := by
  intro o ho
  obtain ⟨i, -, hi, rfl⟩ := h.mem_offsets ho
  rw [BitVec.lt_def, BitVec.toNat_ofNat, BitVec.toNat_ofNat, Nat.mod_eq_of_lt hsize, Nat.mod_eq_of_lt (by omega)]
  exact hi

/-- One site relocated, where the image has its linked bytes. -/
theorem Site.apply_edit {start : Word} {s : Site} {f : Word → Byte} {g : ℕ → Byte}
    (hg : ∀ i, s.offset ≤ i → i < s.offset + s.size → f (BitVec.ofNat 16 i) = g i) {i : ℕ} (hi : s.covers i = true) :
    (s.edit start).apply f (BitVec.ofNat 16 i) = s.byte start g (i - s.offset) := by
  rw [Site.covers, Bool.and_eq_true, decide_eq_true_eq, decide_eq_true_eq] at hi
  obtain ⟨offset, width, segment⟩ := s
  have hfirst := hg offset le_rfl
  cases width with
  | word =>
    have hsecond := hg (offset + 1) (by simp) (by simp [Site.size])
    have hnext : BitVec.ofNat 16 (offset + 1) = BitVec.ofNat 16 offset + 1 := BitVec.ofNat_add ..
    have hne : BitVec.ofNat 16 offset ≠ BitVec.ofNat 16 offset + 1 := by bv_omega
    simp only [Site.size] at hi hfirst
    obtain rfl | rfl : i = offset ∨ i = offset + 1 := by omega
    · simp only [Edit.apply, Site.edit, Site.byte, Site.linked, Nat.sub_self, if_true, lo_add, lo_ofNat_le,
        Function.update_of_ne hne, Function.update_self, hfirst (by omega)]
    · have h1 : offset + 1 - offset ≠ 0 := by omega
      simp only [Edit.apply, Site.edit, Site.byte, Site.linked, if_neg h1, hi_add, lo_ofNat_le, hi_ofNat_le, hnext,
        Function.update_self, Function.update_of_ne hne.symm, hfirst (by omega)]
      rw [← hnext, hsecond]
  | low =>
    simp only [Site.size] at hi hfirst
    obtain rfl : i = offset := by omega
    simp only [Edit.apply, Site.edit, Site.byte, Site.linked, lo_add, lo_ofNat_le, Function.update_self,
      hfirst (by omega)]
  | high low =>
    simp only [Site.size] at hi hfirst
    obtain rfl : i = offset := by omega
    simp only [Edit.apply, Site.edit, Site.byte, Site.linked, hi_add, lo_ofNat_le, hi_ofNat_le, Function.update_self,
      hfirst (by omega)]

theorem Spaced.find?_none {size k i : ℕ} {ss : List Site} (h : Spaced size k ss) (hi : i < k) :
    ss.find? (Site.covers i) = none := by
  rw [List.find?_eq_none]
  intro s hs
  have hk := (h.offset hs).1
  simp only [Site.covers, Bool.and_eq_true, decide_eq_true_eq]
  omega

/-- All sites relocated, in an image with the linked bytes. -/
theorem run_sites {start : Word} {size k : ℕ} {ss : List Site} (h : Spaced size k ss) (hsize : size < 2 ^ 16)
    {f : Word → Byte} {g : ℕ → Byte} (hg : ∀ i, k ≤ i → i < size → f (BitVec.ofNat 16 i) = g i) {i : ℕ} (hk : k ≤ i)
    (hi : i < size) :
    run (ss.map (Site.edit start)) f (BitVec.ofNat 16 i) =
      match ss.find? (Site.covers i) with
      | some s => s.byte start g (i - s.offset)
      | none => g i := by
  induction ss generalizing k f with
  | nil => exact hg i hk hi
  | cons s ss ih =>
    obtain ⟨hoff, hin, hrest⟩ := h
    have hother {i : ℕ} (hi : i < size) (hcov : s.covers i = false) :
        (s.edit start).apply f (BitVec.ofNat 16 i) = f (BitVec.ofNat 16 i) := by
      refine Edit.apply_other fun hmem => ?_
      rw [Site.edit_offsets, List.mem_map] at hmem
      obtain ⟨j, hj, heq⟩ := hmem
      rw [List.mem_range] at hj
      refine ofNat_ne (by omega) (by omega) ?_ heq
      rintro rfl
      simp [Site.covers, hj] at hcov
    rw [List.map_cons, run_cons]
    by_cases hpast : i < s.offset + s.size
    · have hlater : BitVec.ofNat 16 i ∉ offsets (ss.map (Site.edit start)) := by
        intro hmem
        obtain ⟨j, hj, hj', heq⟩ := hrest.mem_offsets hmem
        exact ofNat_ne (by omega) (by omega) (by omega) heq
      rw [run_other hlater, List.find?_cons]
      cases hcov : s.covers i with
      | true => exact Site.apply_edit (fun j hj hj' => hg j (by omega) (by omega)) hcov
      | false =>
        rw [hother hi hcov, hrest.find?_none hpast]
        exact hg i hk hi
    · have hcov (j : ℕ) (hj : s.offset + s.size ≤ j) : s.covers j = false := by
        simp only [Site.covers, Bool.and_eq_false_iff, decide_eq_false_iff_not]
        omega
      rw [List.find?_cons, hcov i (Nat.not_lt.1 hpast)]
      refine ih hrest (fun j hj hj' => ?_) (Nat.not_lt.1 hpast)
      rw [hother hj' (hcov j hj)]
      exact hg j (by omega) hj'

theorem Spaced.shift {n size size' k : ℕ} {ss : List Site} (h : Spaced size k ss) (hsize : n + size ≤ size') :
    Spaced size' (n + k) (ss.map (Site.shift n)) := by
  induction ss generalizing k with
  | nil => trivial
  | cons s ss ih =>
    obtain ⟨hk, hin, hrest⟩ := h
    refine ⟨Nat.add_le_add_left hk n, ?_, ?_⟩
    · change n + s.offset + s.size ≤ size'
      omega
    · change Spaced size' (n + s.offset + s.size) _
      rw [Nat.add_assoc]
      exact ih hrest

theorem Spaced.append {size k n : ℕ} {ss ts : List Site} (h : Spaced n k ss) (hk : k ≤ n) (hn : n ≤ size)
    (h' : Spaced size n ts) : Spaced size k (ss ++ ts) := by
  induction ss generalizing k with
  | nil =>
    cases ts with
    | nil => trivial
    | cons t ts => exact ⟨hk.trans h'.1, h'.2⟩
  | cons s ss ih =>
    obtain ⟨hoff, hin, hrest⟩ := h
    exact ⟨hoff, hin.trans hn, ih hrest hin⟩

namespace Module

theorem spaced_sites (m : Module) : Spaced m.size 0 m.sites := by
  refine m.text_ok.append (Nat.zero_le _) (by simp only [size]; omega) ?_
  exact m.data_ok.shift (by simp only [size]; omega)

theorem within_edits (m : Module) (start : Word) : Within (BitVec.ofNat 16 m.size) (m.edits start) := by
  have hsize : m.size < 2 ^ 16 := m.fits
  refine within_append.2 ⟨within_puts.2 ?_, m.spaced_sites.within hsize start⟩
  rw [length_placed, BitVec.toNat_ofNat, Nat.mod_eq_of_lt hsize]

/-- They leave the relocated image, whatever was there before. -/
theorem run_edits (m : Module) (start : Word) (f : Word → Byte) {i : ℕ} (hi : i < m.size) :
    run (m.edits start) f (BitVec.ofNat 16 i) = m.image start i := by
  have hsize : m.size < 2 ^ 16 := m.fits
  have hlen := m.length_placed
  rw [edits, run_append]
  refine run_sites m.spaced_sites hsize (fun j _ hj => ?_) (Nat.zero_le i) hi
  rw [run_puts (by omega) (by omega), m.getElem_placed]

end Module

end NioApps.Loader
