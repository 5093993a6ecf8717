import NioApps.Sanity.Pages

/-! A listing of a directory, page after page. For a URI of at most 504 bytes every entry
is delivered once and in order, from a conforming service, in pages of any size. The
comparison lets through 505 and 506 bytes as well, and there the request leaves its buffer. -/

namespace NioApps.Service

open Abort

section Pages

variable {uri : List Byte} {dir : List Entry}

/-- The pages from the entry number `s` on. -/
theorem listPages_course {c : Client} {s n : ℕ} (huri : uri.length ≤ 504)
    (hlists : Lists uri dir c.answer) (hs : s ≤ dir.length) (hn : dir.length - s < n) :
    ∃ c' qs ls, (listPages uri (BitVec.ofNat 16 uri.length) n (BitVec.ofNat 16 s)).run c = .ok (some true) c' ∧
      Course uri c.answer c.sent s (dir.drop s) qs ls ∧ Did qs ls c c' := by
  induction n generalizing s c with
  | zero => omega
  | succ n ih =>
    obtain ⟨k, compact, hpos, hk, hpage⟩ := hlists c.sent s hs
    have hlen : ((dir.drop s).take k).length = k := by
      rw [List.length_take, List.length_drop]
      omega
    have hsome : (decide (s + k < dir.length)) = true → (dir.drop s).take k ≠ [] := by
      intro hmore hnil
      have hlt := of_decide_eq_true hmore
      rw [hnil] at hlen
      have := hpos (by omega)
      simp at hlen
      omega
    obtain ⟨page, c₁, hrun, hnext, hdid⟩ := (listPage_wp huri hpage hsome).returns
    rw [listPages, run_bind_ok hrun, hnext, nextPage]
    by_cases hmore : s + k < dir.length
    · -- the next page starts behind the entries of this one
      have hsplit : dir.drop s = (dir.drop s).take k ++ dir.drop (s + k) := by
        rw [← List.drop_drop, List.take_append_drop]
      obtain ⟨c₂, qs, ls, hrun₂, hcourse, hdid₂⟩ :=
        ih (c := c₁) (s := s + k) (hdid.answer ▸ hlists) (by omega) (by omega)
      rw [if_pos (decide_eq_true hmore), hlen, ← BitVec.ofNat_add]
      refine ⟨c₂, _ :: qs, (((dir.drop s).take k).map (Entry.delivered compact)) ++ ls, hrun₂, ?_, hdid.trans hdid₂⟩
      rw [decide_eq_true hmore] at hpage hsome
      rw [hdid.answer, hdid.sent, ← hlen] at hcourse
      have hmore' := Course.more c.sent s _ compact _ qs ls (hsome rfl) hpage hcourse
      rwa [hlen, ← hsplit] at hmore'
    · have hall : (dir.drop s).take k = dir.drop s := List.take_of_length_le (by rw [List.length_drop]; omega)
      rw [decide_eq_false hmore, hall] at hpage
      rw [hall] at hdid
      rw [if_neg (by simpa using hmore)]
      exact ⟨c₁, _, _, rfl, Course.last _ _ _ _ hpage, hdid⟩

end Pages

/-- The first request leaves the buffer. -/
theorem listDirectory_overrun {uri : List Byte} (hlarge : 504 < uri.length % 2 ^ 16) (hpass : uri.length % 2 ^ 16 ≤ 506)
    (n : ℕ) (c : Client) :
    ∃ c', (listDirectory (n + 1) uri true).run c = .error () c' ∧ c'.fault = some .request ∧ c'.sent = c.sent := by
  have hover := listPage_overrun hlarge hpass 0 (clearLast c)
  have hrun : (listDirectory (n + 1) uri true).run c =
      (listPages uri (BitVec.ofNat 16 uri.length) (n + 1) 0).run (clearLast c) := rfl
  rw [hrun, listPages]
  cases hpage : (listPage uri (BitVec.ofNat 16 uri.length) 0).run (clearLast c) with
  | ok page c₁ => exact (hover.ok hpage).elim
  | error e c₁ =>
    rw [wp, hpage] at hover
    exact ⟨c₁, run_bind_error hpage, hover.fault, hover.sent⟩

/-- For a conforming service and a URI of at most 506 bytes: the listing returns 1 after one
request per page, and delivers every entry once and in order, exactly when the URI has at
most 504 bytes. -/
theorem directory_listed {uri : List Byte} {dir : List Entry} {c : Client} (huri : uri.length ≤ 506)
    (hlists : Lists uri dir c.answer) :
    (∀ n > dir.length, ∃ c' qs ls, (listDirectory n uri true).run c = .ok (some true) c' ∧
      Course uri c.answer c.sent 0 dir qs ls ∧ c'.sent = c.sent ++ qs ∧ c'.listed = c.listed ++ ls) ↔
        uri.length ≤ 504 := by
  constructor
  · intro h
    by_contra hlarge
    obtain ⟨c', qs, ls, hrun, -⟩ := h (dir.length + 1) (by omega)
    obtain ⟨c₁, hleft, -⟩ := @listDirectory_overrun uri (by omega) (by omega) dir.length c
    cases hleft.symm.trans hrun
  · intro h n hn
    obtain ⟨c', qs, ls, hrun, hcourse, hdid⟩ :=
      listPages_course (c := clearLast c) (s := 0) (n := n) h hlists (by omega) (by omega)
    exact ⟨c', qs, ls, hrun, hcourse, hdid.sent, hdid.listed⟩

/-! ### Two entries in two pages -/

def twoFiles : List Entry :=
  [⟨0x01, [0x64], 4096, 0x0000000265000000, by decide, by decide⟩, ⟨0x00, [0x61, 0x2e, 0x62], 0x100000007, 9, by decide, by decide⟩]

/-- A full page with the first entry, a compact one with the second, and an empty one. -/
def twoPages (uri : List Byte) (sent : List Request) : Reply :=
  if sent.getLast? = some (listing uri 0) then
    replyBytes ([1, 0x01, 0, 0, 0, 0, 1, 0, 19, 0] ++ pageBytes false (twoFiles.take 1))
  else if sent.getLast? = some (listing uri 1) then
    replyBytes ([1, 0x02, 0, 0, 0, 0, 1, 0, 5, 0] ++ pageBytes true (twoFiles.drop 1))
  else replyBytes [1, 0, 0, 0, 0, 0, 0, 0, 0, 0]

theorem listing_inj {uri : List Byte} {s t : Word} (h : listing uri s = listing uri t) : s = t := by
  obtain ⟨hlo, hhi⟩ : lo s = lo t ∧ hi s = hi t := by simpa [listing, listBytes, u16le] using h
  rw [← ofNat_lo_hi s, ← ofNat_lo_hi t, hlo, hhi]

theorem twoPages_lists (uri : List Byte) : Lists uri twoFiles (twoPages uri) := by
  intro before s hs
  have h10 : listing uri 1 ≠ listing uri 0 := fun h => absurd (listing_inj h) (by decide)
  have h20 : listing uri 2 ≠ listing uri 0 := fun h => absurd (listing_inj h) (by decide)
  have h21 : listing uri 2 ≠ listing uri 1 := fun h => absurd (listing_inj h) (by decide)
  have hlast : ∀ q, (before ++ [q]).getLast? = some q := fun q => List.getLast?_concat
  have hs' : s = 0 ∨ s = 1 ∨ s = 2 := by
    have : s ≤ 2 := hs
    omega
  rcases hs' with rfl | rfl | rfl
  · refine ⟨1, false, by decide, by decide, ?_⟩
    change IsPage (twoPages uri (before ++ [listing uri 0])) (twoFiles.take 1) false true
    rw [twoPages, if_pos (hlast _)]
    constructor <;> decide
  · refine ⟨1, true, by decide, by decide, ?_⟩
    change IsPage (twoPages uri (before ++ [listing uri 1])) (twoFiles.drop 1) true false
    rw [twoPages, hlast, if_neg (by simpa using h10), if_pos rfl]
    constructor <;> decide
  · refine ⟨0, false, by decide, by decide, ?_⟩
    change IsPage (twoPages uri (before ++ [listing uri 2])) [] false false
    rw [twoPages, hlast, if_neg (by simpa using h20), if_neg (by simpa using h21)]
    constructor <;> decide

def hostUri : List Byte := [0x41, 0x3a, 0x2f]

/-- The two entries are delivered with two requests. -/
theorem directory_listed_two : ∃ c' qs ls,
    (listDirectory 3 hostUri true).run (.start diskErr (twoPages hostUri)) = .ok (some true) c' ∧
      Course hostUri (twoPages hostUri) [] 0 twoFiles qs ls ∧ c'.sent = [] ++ qs ∧ c'.listed = [] ++ ls :=
  (directory_listed (c := .start diskErr (twoPages hostUri)) (by decide) (twoPages_lists hostUri)).2 (by decide) 3 (by decide)

/-- A URI of 505 bytes passes the comparison, and the last byte of its request is stored behind the buffer. -/
theorem long_uri_overruns : (List.replicate 505 (0x41 : Byte)).length ≤ 506 ∧
    Lists (List.replicate 505 0x41) twoFiles (twoPages (List.replicate 505 0x41)) ∧
      ∀ n, ∃ c', (listDirectory (n + 1) (List.replicate 505 0x41) true).run
        (.start diskErr (twoPages (List.replicate 505 0x41))) = .error () c' ∧ c'.fault = some .request ∧ c'.sent = [] := by
  refine ⟨by rw [List.length_replicate]; omega, twoPages_lists _, fun n => ?_⟩
  exact listDirectory_overrun (by rw [List.length_replicate]; omega) (by rw [List.length_replicate]; omega) n _

end NioApps.Service
