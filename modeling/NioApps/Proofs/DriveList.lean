import Mathlib.Data.List.TakeWhile
import NioApps.Proofs.CurrentHost
import NioApps.Proofs.DiskErrors
import NioApps.Proofs.Selected

/-! FDRIVE: from a service that lists the mounted images in pages of its choice, every row
is printed once and in order. -/

namespace NioApps.Shell

open Abort Commands Service
open AppStore (ascii newline)

variable {σ τ : Type} {e : Setup σ τ}

/-- A page with the text `rows`; the bytes 2 to 5, the other flags and what follows the text are free. -/
structure IsRows (r : Reply) (rows : List (List Byte)) (more : Bool) : Prop where
  result : r.result = 0
  status : r.status = statusOk
  fits : r.length.toNat ≤ maxData
  version : r.data 0 = diskVersion
  flagMore : r.data 1 &&& 0x01 ≠ 0 ↔ more = true
  flagText : r.data 1 &&& 0x02 ≠ 0
  count : le (slice r.data 6 2) = rows.length
  textLen : le (slice r.data 8 2) = rows.flatten.length
  short : rows.flatten.length < mountsTextSize.toNat
  length : 10 + rows.flatten.length ≤ r.length.toNat
  text : slice r.data 10 rows.flatten.length = rows.flatten

def rowsFrom (s : ℕ) : DiskCall := .listMounts (BitVec.ofNat 16 s) true mountsTextSize

/-- A service that lists `rows`. -/
def ListsRows (rows : List (List Byte)) (answer : List Request → Reply) : Prop :=
  ∀ (before : List Request) (s : ℕ), s ≤ rows.length → ∃ k, (s < rows.length → 0 < k) ∧ s + k ≤ rows.length ∧
    IsRows (answer (before ++ [(rowsFrom s).request])) ((rows.drop s).take k) (s + k < rows.length)

/-- What a call leaves that brought a page. -/
structure Paged (rows : List (List Byte)) (more : Bool) (c : Client) : Prop where
  text : c.mountText = rows.flatten
  count : c.mountCount = BitVec.ofNat 16 rows.length
  more_iff : c.mountMore ≠ 0 ↔ more = true

theorem mountsResponse_paged {r : Reply} {rows : List (List Byte)} {more : Bool} {c : Client} (hpage : IsRows r rows more)
    (h : Loaded r c) :
    wp (mountsResponse r.length mountsTextSize)
      (fun ok c' => ok = true ∧ Paged rows more c' ∧ c'.sent = c.sent ∧ c'.answer = c.answer) (fun _ => False) c := by
  have hten : 10 ≤ r.length.toNat := (Nat.le_add_right 10 _).trans hpage.length
  have hlong : ¬ r.length < 10 := BitVec.not_lt.2 (BitVec.le_def.2 hten)
  have hfits := hpage.fits
  have hlength := hpage.length
  have hshort := hpage.short
  rw [maxData] at hfits
  have hlen : (BitVec.ofNat 16 rows.flatten.length).toNat = rows.flatten.length := by
    rw [BitVec.toNat_ofNat]
    omega
  rw [wp_congr (mountsResponse_header h.headed mountsTextSize)]
  refine wp_ite (fun hbad => ?_) fun _ => ?_
  · rcases hbad with hlt | hversion | htext
    · exact absurd hlt hlong
    · exact absurd hpage.version hversion
    · exact absurd htext hpage.flagText
  rw [readMounts_lengths h.headed hten, hpage.textLen, hpage.count, readMountsText]
  refine wp_ite (fun hbad => ?_) fun _ => ?_
  · exfalso
    rcases hbad with hgt | hge
    · rw [gt_iff_lt, BitVec.lt_def, BitVec.toNat_add, hlen] at hgt
      change r.length.toNat < (10 + rows.flatten.length) % 2 ^ 16 at hgt
      omega
    · rw [ge_iff_le, BitVec.le_def, hlen] at hge
      omega
  · have hcounted : Loaded r { c with mountCount := BitVec.ofNat 16 rows.length } := h.congr rfl rfl
    have hbehind : (10 : Word).toNat + rows.flatten.length ≤ r.length.toNat := hlength
    rw [hlen, wp_bind, wp_of_ok (hcounted.get hbehind), wp_bind, wp_modify]
    have hone : (1 : Word).toNat + 1 ≤ r.length.toNat := Nat.le_trans (by decide) hten
    have hread : Loaded r { c with mountCount := BitVec.ofNat 16 rows.length, mountText := slice r.data 10 rows.flatten.length } :=
      h.congr rfl rfl
    exact (wp_bind ..).2 ((wp_of_ok (hread.getByte hone)).2 ⟨rfl, ⟨hpage.text, rfl, hpage.flagMore⟩, rfl, rfl⟩)

theorem listMounts_paged (d : DiskErr) {s : ℕ} {rows : List (List Byte)} {more : Bool} {c : Client}
    (hpage : IsRows (c.reply (rowsFrom s).request) rows more) :
    wp (diskListMounts d (BitVec.ofNat 16 s) true mountsTextSize)
      (fun ok c' => ok = true ∧ Paged rows more c' ∧ c'.sent = c.sent ++ [(rowsFrom s).request] ∧ c'.answer = c.answer)
      (fun _ => False) c := by
  rw [diskListMounts, if_neg (by decide)]
  refine mountsRequest_wp (BitVec.ofNat 16 s) true mountsTextSize fun off c₁ h₁ => ?_
  refine h₁.service (by decide) (fun hr => absurd hpage.result hr) fun hr => ?_
  rw [wp_bind, wp_modify, wp_bind, wp_modify]
  refine wp_ite (fun hs => absurd hpage.status hs) fun _ => ?_
  have hload := loaded_called hpage.fits rfl (h₁.reply_eq (rowsFrom s).request)
  refine (mountsResponse_paged hpage ?_).mono (fun ok c' h => ?_) fun _ => id
  · exact hload.congr rfl rfl
  · obtain ⟨hok, hpaged, hsent, hanswer⟩ := h
    exact ⟨hok, hpaged, hsent.trans (h₁.served_sent _), hanswer.trans h₁.answer_eq⟩

theorem cstr_flatten {rows : List (List Byte)} (hnul : ∀ row ∈ rows, 0 ∉ row) : cstr rows.flatten = rows.flatten := by
  rw [cstr, List.takeWhile_eq_self_iff]
  intro b hb
  obtain ⟨row, hrow, hmem⟩ := List.mem_flatten.1 hb
  have hne : b ≠ 0 := fun h0 => hnul row hrow (h0 ▸ hmem)
  simpa using hne

/-- The end of FDRIVE: its exit code, and what it printed last. -/
def driveEnd (e : Setup σ τ) (rows : List (List Byte)) : ℕ × List Byte :=
  if rows = [] then (1, ascii "No FujiNet mounted images found" ++ [newline e.target]) else (0, [])

/-- A page that is read in a program. -/
theorem page_wp {s : Machine σ τ} {k : ℕ} {rows : List (List Byte)} {more : Bool}
    (hpage : IsRows (s.client.reply (rowsFrom k).request) rows more) :
    wp (service (diskListMounts e.diskErr (BitVec.ofNat 16 k) true mountsTextSize))
      (fun ok s' => ok = true ∧ Paged rows more s'.client ∧ s'.client.sent = s.client.sent ++ [(rowsFrom k).request] ∧
        s'.client.answer = s.client.answer ∧ s'.out = s.out)
      (fun _ => False) s := by
  rw [wp_service]
  refine (listMounts_paged e.diskErr hpage).mono (fun ok c h => ?_) fun _ => id
  obtain ⟨hok, hpaged, hsent, hanswer⟩ := h
  exact ⟨hok, hpaged, hsent, hanswer, rfl⟩

/-- The pages from the row number `k` on. -/
theorem fdriveLoop_lists {rows : List (List Byte)} (hnul : ∀ row ∈ rows, 0 ∉ row) (hshort : rows.length < 2 ^ 16)
    {s : Machine σ τ} {k n : ℕ} (hlists : ListsRows rows s.client.answer) (hk : k ≤ rows.length) (hn : rows.length - k < n) :
    wp (fdriveLoop e n (BitVec.ofNat 16 k) k)
      (fun r s' => r = some (driveEnd e rows).1 ∧ s'.out = s.out ++ (rows.drop k).flatten ++ (driveEnd e rows).2 ∧
        ∃ qs, s'.client.sent = s.client.sent ++ qs ∧ qs.length ≤ max 1 (rows.length - k))
      (fun _ => False) s := by
  induction n generalizing s k with
  | zero => omega
  | succ n ih =>
    obtain ⟨j, hpos, hj, hpage⟩ := hlists s.client.sent k hk
    have hlen : ((rows.drop k).take j).length = j := by
      rw [List.length_take, List.length_drop]
      omega
    have hcstr : cstr ((rows.drop k).take j).flatten = ((rows.drop k).take j).flatten :=
      cstr_flatten fun row hrow => hnul row (List.mem_of_mem_drop (List.mem_of_mem_take hrow))
    have hsplit : (rows.drop k).flatten = ((rows.drop k).take j).flatten ++ (rows.drop (k + j)).flatten := by
      rw [← List.drop_drop, ← List.flatten_append, List.take_append_drop]
    have hint := two_pow_int_ge e.target
    rw [fdriveLoop]
    refine wp.seq (page_wp hpage) fun ok s₁ h => ?_
    obtain ⟨rfl, hpaged, hsent, hanswer, hout⟩ := h
    have hcount : (BitVec.ofNat 16 ((rows.drop k).take j).length).toNat = j := by
      rw [hlen, BitVec.toNat_ofNat]
      omega
    have hzero : s₁.client.mountCount ≠ 0 ↔ j ≠ 0 := by
      rw [hpaged.count]
      refine not_congr ⟨fun h0 => ?_, fun h0 => ?_⟩
      · rw [← hcount, h0]
        rfl
      · apply BitVec.eq_of_toNat_eq
        rw [hcount, h0]
        rfl
    have hshown : (k + s₁.client.mountCount.toNat) % 2 ^ e.target.int = k + j := by
      rw [hpaged.count, hcount, Nat.mod_eq_of_lt (by omega)]
    refine wp_ite (fun hfail => absurd hfail (by decide)) fun _ => ?_
    rw [wp_bind, wp_get, wp_bind, wp_print, hpaged.text, hcstr, hshown]
    refine wp_ite (fun hgo => ?_) fun hstop => ?_
    · have hmore := of_decide_eq_true (hpaged.more_iff.1 hgo.1)
      have hj0 : 0 < j := Nat.pos_of_ne_zero (hzero.1 hgo.2)
      rw [hpaged.count, hlen, ← BitVec.ofNat_add]
      refine (ih (hanswer ▸ hlists) hj (by omega)).mono (fun r s' h => ?_) fun _ => id
      obtain ⟨hcode, hout', qs, hsent', hqs⟩ := h
      refine ⟨hcode, ?_, (rowsFrom k).request :: qs, ?_, ?_⟩
      · rw [hout', hsplit]
        dsimp only
        rw [hout]
        simp only [List.append_assoc]
      · rw [hsent']
        dsimp only
        rw [hsent, List.append_assoc]
        rfl
      · rw [List.length_cons]
        omega
    · have hall : k + j = rows.length := by
        by_contra hne
        have hlt : k + j < rows.length := by omega
        have hj0 : j ≠ 0 := by
          rintro rfl
          exact absurd (hpos (by omega)) (lt_irrefl 0)
        exact hstop ⟨hpaged.more_iff.2 (decide_eq_true hlt), hzero.2 hj0⟩
      have hrest : rows.drop (k + j) = [] := List.drop_eq_nil_of_le hall.ge
      rw [hrest, List.flatten_nil, List.append_nil] at hsplit
      have hone : [(rowsFrom k).request].length ≤ max 1 (rows.length - k) := le_max_left _ _
      rw [driveEnd, hsplit, hall]
      refine wp_ite (fun hnone => ?_) fun hsome => ?_
      · rw [if_pos (List.length_eq_zero_iff.1 hnone)]
        exact ⟨rfl, by rw [← hout], _, hsent, hone⟩
      · rw [if_neg fun hnil => hsome (List.length_eq_zero_iff.2 hnil)]
        exact ⟨rfl, by rw [← hout, List.append_nil], _, hsent, hone⟩

theorem fdrive_lists (e : Setup σ τ) (rows : List (List Byte)) (hnul : ∀ row ∈ rows, 0 ∉ row) (hshort : rows.length < 2 ^ 16)
    (s : Machine σ τ) (hlists : ListsRows rows s.client.answer) (n : ℕ) (hn : rows.length < n) :
    ∃ s' qs, (fdrive e n).run s = .ok (some (driveEnd e rows).1) s' ∧ s'.out = s.out ++ rows.flatten ++ (driveEnd e rows).2 ∧
      s'.client.sent = s.client.sent ++ qs ∧ qs.length ≤ max 1 rows.length := by
  obtain ⟨r, s', hrun, rfl, hout, qs, hsent, hqs⟩ :=
    (fdriveLoop_lists (e := e) hnul hshort hlists (Nat.zero_le _) (by omega : rows.length - 0 < n)).returns
  exact ⟨s', qs, hrun, hout, hsent, hqs⟩

/-! ### Two rows in two pages -/

def twoRows : List (List Byte) := [ascii "C: A.IMG\n", ascii "D: B.IMG\n"]

def rowsPage (flags : Byte) (rows : List (List Byte)) : Reply :=
  replyBytes ([1, flags, 0, 0, 0, 0, BitVec.ofNat 8 rows.length, 0, BitVec.ofNat 8 rows.flatten.length, 0] ++ rows.flatten)

def twoRowPages (sent : List Request) : Reply :=
  if sent.getLast? = some (rowsFrom 0).request then rowsPage 0x03 (twoRows.take 1)
  else if sent.getLast? = some (rowsFrom 1).request then rowsPage 0x02 (twoRows.drop 1)
  else rowsPage 0x02 []

theorem twoRowPages_lists : ListsRows twoRows twoRowPages := by
  intro before s hs
  have hlast : ∀ q, (before ++ [q]).getLast? = some q := fun q => List.getLast?_concat
  have h10 : ¬ some (rowsFrom 1).request = some (rowsFrom 0).request := by decide
  have h20 : ¬ some (rowsFrom 2).request = some (rowsFrom 0).request := by decide
  have h21 : ¬ some (rowsFrom 2).request = some (rowsFrom 1).request := by decide
  have hs' : s = 0 ∨ s = 1 ∨ s = 2 := by
    have : s ≤ 2 := hs
    omega
  rcases hs' with rfl | rfl | rfl
  · refine ⟨1, by decide, by decide, ?_⟩
    change IsRows (twoRowPages (before ++ [(rowsFrom 0).request])) (twoRows.take 1) true
    rw [twoRowPages, if_pos (hlast _)]
    constructor <;> decide
  · refine ⟨1, by decide, by decide, ?_⟩
    change IsRows (twoRowPages (before ++ [(rowsFrom 1).request])) (twoRows.drop 1) false
    rw [twoRowPages, hlast, if_neg h10, if_pos rfl]
    constructor <;> decide
  · refine ⟨0, by decide, by decide, ?_⟩
    change IsRows (twoRowPages (before ++ [(rowsFrom 2).request])) [] false
    rw [twoRowPages, hlast, if_neg h20, if_neg h21]
    constructor <;> decide

def twoMounted : Machine (Byte → Bool × List Byte) Units :=
  { powerOn with client := Client.start linuxSetup.diskErr twoRowPages }

theorem fdrive_lists_two : ∃ s' qs, (fdrive linuxSetup 3).run twoMounted = .ok (some 0) s' ∧
    s'.out = twoMounted.out ++ ascii "C: A.IMG\nD: B.IMG\n" ++ [] ∧ s'.client.sent = twoMounted.client.sent ++ qs ∧ qs.length ≤ 2 :=
  fdrive_lists linuxSetup twoRows (by decide) (by decide) twoMounted twoRowPages_lists 3 (by decide)

end NioApps.Shell
