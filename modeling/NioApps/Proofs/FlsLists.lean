import NioApps.Proofs.SizeText
import NioApps.Proofs.Listing
import NioApps.Proofs.Selected
import NioApps.Spec.Browse

/-! FLS: from a service that lists the directory, one row for each entry, in order, and their
number; and no column leaves its buffer. -/

namespace NioApps.Shell

open Abort Commands Service
open AppStore (ascii)

variable {σ τ : Type} {e : Setup σ τ} {l : Locale}

/-! ### Columns -/

theorem length_padLeft {n : ℕ} {s : List Char} (h : s.length ≤ n) : (padLeft n s).length = n := by
  rw [padLeft, List.length_append, List.length_replicate]
  omega

theorem length_padTo {width n : ℕ} (c : Char) (hwidth : 0 < width) (hn : n < 10 ^ width) : (padTo width c n).length = width := by
  have hle := Nat.toDigits_length 10 n width hwidth hn
  rw [padTo, List.length_append, List.length_replicate]
  omega

/-- Bounds under which the three formats have six characters. -/
def Narrow : Shown → Prop
  | .bytes size => size < 10 ^ 6
  | .decimal whole tenths _ => whole < 10 ^ 3 ∧ tenths < 10
  | .rounded whole _ => whole < 10 ^ 5

theorem Narrow.length {x : Shown} (h : Narrow x) : x.text.length = 6 := by
  cases x with
  | bytes size => exact length_padLeft (Nat.toDigits_length 10 size 6 (by decide) h)
  | decimal whole tenths unit =>
    have htenths : (Nat.toDigits 10 tenths).length ≤ 1 := Nat.toDigits_length 10 tenths 1 (by decide) h.2
    have hpos : (Nat.toDigits 10 tenths).length ≠ 0 := by
      rw [Ne, List.length_eq_zero_iff]
      exact Nat.toDigits_ne_nil
    rw [Shown.text, List.length_append, List.length_append, List.length_cons, List.length_singleton,
      length_padLeft (Nat.toDigits_length 10 whole 3 (by decide) h.1)]
    omega
  | rounded whole unit =>
    rw [Shown.text, List.length_append, length_padLeft (Nat.toDigits_length 10 whole 5 (by decide) h)]
    rfl

theorem div_unit_lt {n : ℕ} (hn : n < 2 ^ 32) : n / 1024 ^ Commands.unitOf n < 1000 := by
  rw [Commands.unitOf]
  split_ifs <;> omega

theorem sizeShown_narrow (t : Target) {n : ℕ} (hn : n < 2 ^ 32) : Narrow (sizeShown t.arith n) := by
  rw [sizeShown, unitLoop_eq t.wide]
  dsimp only
  by_cases h0 : Commands.unitOf n = 0
  · rw [if_pos h0]
    have hlt := div_unit_lt hn
    rw [h0, Nat.pow_zero, Nat.div_one] at hlt
    change n < 10 ^ 6
    omega
  · rw [if_neg h0]
    have hwhole : t.arith.int (n / 1024 ^ Commands.unitOf n) < 1000 := lt_of_le_of_lt (Nat.mod_le _ _) (div_unit_lt hn)
    generalize t.arith.int (n / 1024 ^ Commands.unitOf n) = whole at hwhole ⊢
    -- whatever the second loop leaves, only a tenth below 10 is shown
    rcases rescale t.arith (n % 1024 ^ Commands.unitOf n) (1024 ^ Commands.unitOf n) with ⟨rem, divisor⟩
    dsimp only
    generalize t.arith.int (t.arith.long (t.arith.long (rem * 10) + divisor / 2) / divisor) = tenths
    have hnext : t.arith.int (whole + 1) ≤ whole + 1 := Nat.mod_le _ _
    by_cases htenths : tenths ≥ 10
    · rw [if_pos htenths, if_neg fun h => h.2 rfl]
      change t.arith.int (whole + 1) < 10 ^ 5
      omega
    · rw [if_neg htenths]
      dsimp only
      split_ifs with hshown
      · exact ⟨by omega, by omega⟩
      · change whole < 10 ^ 5
        omega

/-- The values that `localtime` promises. -/
structure Tm.Ranges (tm : Tm) : Prop where
  mday : tm.mday < 100
  mon : 0 ≤ tm.mon ∧ tm.mon ≤ 11
  hour : tm.hour < 100
  min : tm.min < 100

theorem length_month {i : ℕ} (h : i < 12) : (months.getD i "").toList.length = 3 := by
  have hall : ∀ i < 12, (months.getD i "").toList.length = 3 := by decide
  exact hall i h

theorem shownTime_ranges {tm : Tm} (h : tm.Ranges) (hnow : ∀ tm, l.now = some tm → tm.Ranges) : (shownTime e l tm).Ranges := by
  rw [shownTime]
  split_ifs
  · exact h
  · cases hl : l.now with
    | none => exact h
    | some now => exact hnow now hl

theorem formatDate_length {mtime : BitVec 32} (h : ∀ tm, l.localtime mtime = some tm → (shownTime e l tm).Ranges) :
    (formatDate e l mtime).length ≤ 12 := by
  have hunknown : unknownDate.length ≤ 12 := by decide
  rw [formatDate]
  split_ifs with h0
  · exact hunknown
  · cases htm : l.localtime mtime with
    | none => exact hunknown
    | some tm =>
      have hshown := h tm htm
      have hyears : ((tm.year + 1900) % 2 ^ e.target.int).toNat % 10000 < 10 ^ 4 := Nat.mod_lt _ (by decide)
      dsimp only
      generalize shownTime e l tm = shown at hshown ⊢
      have hdayLen : (padTo 2 ' ' shown.mday).length = 2 := length_padTo ' ' (by decide) hshown.mday
      have hhourLen : (padTo 2 '0' shown.hour).length = 2 := length_padTo '0' (by decide) hshown.hour
      have hminLen : (padTo 2 '0' shown.min).length = 2 := length_padTo '0' (by decide) hshown.min
      have hmonth : (months.getD shown.mon.toNat "").toList.length = 3 := by
        obtain ⟨hlow, hhigh⟩ := hshown.mon
        exact length_month (by omega)
      split_ifs with hmon hyear
      · exact hunknown
      · simp only [List.length_append, List.length_cons, List.length_nil, hdayLen, hmonth, hhourLen, hminLen]
        decide
      · simp only [List.length_append, List.length_cons, List.length_nil, hdayLen, hmonth, length_padTo '0' (by decide) hyears]
        decide

theorem columns_fit (e : Setup σ τ) (l : Locale) (x : Listed) (h : ∀ tm, l.localtime x.mtime = some tm → tm.Ranges)
    (hnow : ∀ tm, l.now = some tm → tm.Ranges) :
    (formatSize e.target.arith x.size).length < 7 ∧ (formatDate e l x.mtime).length < 13 := by
  have hsize := (sizeShown_narrow e.target x.size.isLt).length
  exact ⟨by rw [formatSize, hsize]; decide,
    Nat.lt_succ_of_le (formatDate_length fun tm htm => shownTime_ranges (h tm htm) hnow)⟩

/-- A midsummer noon, and a night in winter. -/
def noon : Tm := ⟨21, 5, 126, 12, 0⟩

def night : Tm := ⟨21, 11, 126, 23, 59⟩

/-- 1.9 GiB, from noon, listed at night. -/
theorem columns_fit_noon : (formatSize Target.linux.arith 2040109466).length < 7 ∧
    (formatDate linuxSetup ⟨fun _ => some noon, some night, [], []⟩ 1).length < 13 :=
  columns_fit linuxSetup ⟨fun _ => some noon, some night, [], []⟩ ⟨0, [], 2040109466, 1⟩
    (fun tm h => by cases h; exact ⟨by decide, by decide, by decide, by decide⟩)
    (fun tm h => by cases h; exact ⟨by decide, by decide, by decide, by decide⟩)

/-- The file from noon is dated today. -/
example : formatDate linuxSetup ⟨fun _ => some noon, some night, [], []⟩ 1 = "21 Dec 23:59".toList := by decide

/-! ### Rows -/

/-- The calls of the callback name the entries, in order. -/
theorem course_names {uri : List Byte} {answer : List Request → Reply} {before qs : List Request} {s : ℕ} {es : List Service.Entry}
    {ls : List Listed} (h : Service.Course uri answer before s es qs ls) :
    ls.map (fun x => (x.isDir, x.name)) = es.map fun x => (x.flags &&& 1, x.name) := by
  induction h with
  | last before s es compact page =>
    rw [List.map_map]
    rfl
  | more before s es compact rest qs ls some page tail ih =>
    rw [List.map_append, List.map_append, ih, List.map_map]
    rfl

theorem listDirectory_wp {uri : List Byte} {dir : List Service.Entry} {c : Client} (huri : uri.length ≤ 504)
    (hlists : Lists uri dir c.answer) {n : ℕ} (hn : dir.length < n) :
    wp (listDirectory n uri true) (fun r c' => r = some true ∧ ∃ qs ls, Service.Course uri c.answer c.sent 0 dir qs ls ∧
      c'.sent = c.sent ++ qs ∧ c'.listed = c.listed ++ ls) (fun _ => False) c := by
  obtain ⟨c', qs, ls, hrun, hcourse, hdid⟩ :=
    listPages_course (c := clearLast c) (s := 0) (n := n) huri hlists (by omega) (by omega)
  have hrun' : (listDirectory n uri true).run c = .ok (some true) c' := hrun
  rw [wp_of_ok hrun']
  exact ⟨rfl, qs, ls, hcourse, hdid.sent, hdid.listed⟩

theorem targetSpec_short {path : List Byte} (h : path.length ≤ 255) : targetSpec path = some path := by
  have hlen : (BitVec.ofNat 16 path.length).toNat = path.length := by
    rw [BitVec.toNat_ofNat]
    omega
  have hcap : ¬ BitVec.ofNat 16 path.length ≥ 256 := by
    rw [ge_iff_le, BitVec.le_def, hlen]
    change ¬ 256 ≤ path.length
    omega
  rw [targetSpec, if_neg hcap, hlen, List.take_length]

theorem fls_lists (e : Setup σ τ) (l : Locale) (args : List (List Byte)) (typed path : List Byte)
    (hargs : (flsPath e args typed).2 = some path) (hpath : path.length ≤ 255) (dir : List Service.Entry) (s : Machine σ τ)
    (hlists : Lists path dir s.client.answer) (n : ℕ) (hn : dir.length < n) :
    ∃ s' qs ls, (fls e l n args typed).run s = .ok (some 0) s' ∧ Service.Course path s.client.answer s.client.sent 0 dir qs ls ∧
      s'.client.sent = s.client.sent ++ qs ∧
      ls.map (fun x => (x.isDir, x.name)) = dir.map (fun x => (x.flags &&& 1, x.name)) ∧
      s'.out = s.out ++ (flsPath e args typed).1 ++ ls.flatMap (entryRow e l) ++ countLine e dir.length := by
  have hwp : wp (fls e l n args typed) (fun r s' => r = some 0 ∧ ∃ qs ls, Service.Course path s.client.answer s.client.sent 0 dir qs ls ∧
      s'.client.sent = s.client.sent ++ qs ∧
      s'.out = s.out ++ (flsPath e args typed).1 ++ ls.flatMap (entryRow e l) ++ countLine e ls.length) (fun _ => False) s := by
    rw [fls]
    rcases hasked : flsPath e args typed with ⟨printed, path'⟩
    rw [hasked] at hargs
    rw [wp_bind, wp_print]
    dsimp only at hargs ⊢
    rw [hargs]
    dsimp only
    rw [targetSpec_short hpath]
    dsimp only
    rw [wp_bind, wp_get, wp_bind, wp_service]
    refine (listDirectory_wp (by omega) hlists hn).mono (fun r c h => ?_) fun _ => id
    obtain ⟨rfl, qs, ls, hcourse, hsent, hlisted⟩ := h
    rw [wp_bind, wp_get, wp_bind, wp_print]
    dsimp only
    rw [hlisted, List.drop_left]
    exact ⟨rfl, qs, ls, hcourse, hsent, rfl⟩
  obtain ⟨r, s', hrun, rfl, qs, ls, hcourse, hsent, hout⟩ := hwp.returns
  have hnames := course_names hcourse
  have hcount : ls.length = dir.length := by simpa using congrArg List.length hnames
  exact ⟨s', qs, ls, hrun, hcourse, hsent, hnames, hcount ▸ hout⟩

/-- A clock that knows no time. -/
def stopped : Locale := ⟨fun _ => none, none, [], []⟩

def twoListed : Machine (Byte → Bool × List Byte) Units :=
  { powerOn with client := Client.start linuxSetup.diskErr (twoPages hostUri) }

/-- The prompt of an Atari, and the name of the host typed. -/
theorem fls_lists_two : ∃ s' qs ls, (fls atariSetup stopped 3 [] (hostUri ++ [0x9b])).run twoListed = .ok (some 0) s' ∧
    Service.Course hostUri (twoPages hostUri) [] 0 twoFiles qs ls ∧ s'.client.sent = [] ++ qs ∧
      ls.map (fun x => (x.isDir, x.name)) = twoFiles.map (fun x => (x.flags &&& 1, x.name)) ∧
        s'.out = [] ++ ascii "Path (blank=current): " ++ ls.flatMap (entryRow atariSetup stopped) ++ countLine atariSetup 2 :=
  fls_lists atariSetup stopped [] (hostUri ++ [0x9b]) hostUri rfl (by decide) twoFiles twoListed (twoPages_lists hostUri) 3
    (by decide)

end NioApps.Shell
