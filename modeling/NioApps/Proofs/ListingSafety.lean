import NioApps.Sanity.Pages

/-! `fnsvc_list_directory` against any responses of at most 512 bytes: the positions of
the entry loop are exact sums, nothing behind the response is read, names fit into
`list_name`, and only complete entries are delivered. -/

namespace NioApps.Service

open Abort

/-! ### Positions -/

theorem AtEntry.le {flags : Byte} {b : ℕ → Byte} {respLen pos : Word} (h : AtEntry flags b respLen pos)
    (hten : 10 ≤ respLen.toNat) : pos.toNat ≤ respLen.toNat := by
  induction h with
  | first => exact hten
  | compact pos _ _ hname _ _ => exact BitVec.le_def.1 (BitVec.not_lt.1 fun h => hname (.inl h))
  | full pos _ _ _ htail _ => exact BitVec.le_def.1 (BitVec.not_lt.1 htail)

/-- A complete entry is followed by the next position. -/
theorem AtEntry.next {flags : Byte} {b : ℕ → Byte} {respLen pos pos' : Word} (h : AtEntry flags b respLen pos)
    (hten : 10 ≤ respLen.toNat) (hresp : respLen.toNat ≤ maxData) (hc : Complete flags b respLen.toNat pos.toNat)
    (hpos : pos'.toNat = pos.toNat + entrySize flags b pos.toNat) : AtEntry flags b respLen pos' := by
  have hat := fields_of_le b hresp (h.le hten)
  obtain ⟨hhead, hwhole, hshort⟩ := hc
  rw [entrySize] at hwhole hpos
  have hheadTest : ¬pos + 2 > respLen := not_gt_of_le (by rw [hat.name]; exact hhead)
  have hnameTest : ¬(pos + 2 + (b (pos + 1).toNat).setWidth 16 > respLen ∨ (b (pos + 1).toNat).toNat ≥ listNameSize) := by
    rw [hat.second, gt_iff, hat.behind]
    rintro (hgt | hge)
    · omega
    · exact absurd hshort (Nat.not_lt.2 hge)
  by_cases hfull : flags &&& 0x02 = 0
  · rw [if_pos hfull] at hwhole hpos
    have hnext : pos' = pos + 2 + (b (pos + 1).toNat).setWidth 16 + 16 := by
      apply BitVec.eq_of_toNat_eq
      rw [hat.second, hat.next, hpos]
      omega
    rw [hnext]
    refine .full pos h hheadTest hnameTest ?_
    rw [hat.second, gt_iff, hat.next]
    omega
  · rw [if_neg hfull] at hwhole hpos
    have hnext : pos' = pos + 2 + (b (pos + 1).toNat).setWidth 16 := by
      apply BitVec.eq_of_toNat_eq
      rw [hat.second, hat.behind, hpos]
      omega
    rw [hnext]
    exact .compact pos h hheadTest hnameTest hfull

/-- After `k` rounds the loop over the entries is at a position of an entry, or it has ended with an error. -/
theorem listEntries_reaches {flags : Byte} {respLen : Word} (hten : 10 ≤ respLen.toNat) (hresp : respLen.toNat ≤ maxData) (k : ℕ)
    {pos : Word} {c : Client} (hend : c.respEnd = respLen.toNat) (h : AtEntry flags c.respBuf respLen pos) :
    (∃ pos' c', AtEntry flags c.respBuf respLen pos' ∧
      ∀ n, (listEntries flags respLen (n + k) pos).run c = (listEntries flags respLen n pos').run c') ∨
    ∀ n, ∃ c', (listEntries flags respLen (n + k) pos).run c = .ok false c' := by
  induction k generalizing pos c with
  | zero => exact .inl ⟨pos, c, h, fun n => rfl⟩
  | succ k ih =>
    have hle := h.le hten
    by_cases hc : Complete flags c.respBuf respLen.toNat pos.toNat
    · obtain ⟨next, hnext⟩ := next_position hresp hc
      have hrun : ∀ n, (listEntries flags respLen (n + (k + 1)) pos).run c = _ :=
        fun n => listEntries_complete (n := n + k) hresp hend hle hc hnext
      rcases ih (c := c.heard _ [entryAt flags c.respBuf pos.toNat]) hend (h.next hten hresp hc hnext) with ⟨pos', c', hat, hrest⟩ | hrest
      · exact .inl ⟨pos', c', hat, fun n => (hrun n).trans (hrest n)⟩
      · right
        intro n
        obtain ⟨c', hfailed⟩ := hrest n
        exact ⟨c', (hrun n).trans hfailed⟩
    · right
      intro n
      obtain ⟨nm, hfailed⟩ := listEntries_incomplete (n := n + k) hresp hend hle hc
      exact ⟨_, hfailed⟩

/-! ### The buffer and the response -/

section Congr

variable {flags : Byte} {b b' : ℕ → Byte} {len : ℕ}

theorem complete_congr (h : ∀ k < len, b k = b' k) {p : ℕ} (hc : Complete flags b len p) :
    Complete flags b' len p ∧ entrySize flags b' p = entrySize flags b p ∧ entryAt flags b' p = entryAt flags b p := by
  obtain ⟨hhead, hwhole, hshort⟩ := hc
  have hname : nameLenAt b' p = nameLenAt b p := by
    rw [nameLenAt, nameLenAt, h (p + 1) (by omega)]
  have hsize : entrySize flags b' p = entrySize flags b p := by rw [entrySize, entrySize, hname]
  have hslice (i n : ℕ) (hi : i + n ≤ len) : slice b' i n = slice b i n :=
    slice_congr fun j hj => (h (i + j) (by omega)).symm
  refine ⟨⟨hhead, hsize ▸ hwhole, hname ▸ hshort⟩, hsize, ?_⟩
  rw [entrySize] at hwhole
  rw [entryAt, entryAt, hname, h p (by omega), hslice _ _ (by omega)]
  split_ifs at hwhole ⊢ with hfull
  · rw [hslice _ _ (by omega), hslice _ _ (by omega)]
  · rfl

theorem scan_congr (h : ∀ k < len, b k = b' k) (n p : ℕ) : scan flags b' len n p = scan flags b len n p := by
  induction n generalizing p with
  | zero => rfl
  | succ n ih =>
    rw [scan, scan]
    by_cases hc : Complete flags b len p
    · obtain ⟨hc', hsize, hentry⟩ := complete_congr h hc
      rw [if_pos hc, if_pos hc', hsize, hentry, ih]
    · have hc' : ¬Complete flags b' len p := fun hc' =>
        hc (complete_congr (fun k hk => (h k hk).symm) hc').1
      rw [if_neg hc, if_neg hc']

end Congr

/-- Every entry delivered is complete. -/
theorem mem_scan {flags : Byte} {b : ℕ → Byte} {len n p : ℕ} {l : Listed} (h : l ∈ (scan flags b len n p).1) :
    ∃ q, Complete flags b len q ∧ l = entryAt flags b q := by
  induction n generalizing p with
  | zero => exact absurd h (by simp [scan])
  | succ n ih =>
    rw [scan] at h
    by_cases hc : Complete flags b len p
    · rw [if_pos hc] at h
      rcases List.mem_cons.1 h with rfl | h
      · exact ⟨p, hc, rfl⟩
      · exact ih h
    · rw [if_neg hc] at h
      exact absurd h (by simp)

theorem entryAt_short {flags : Byte} {b : ℕ → Byte} {len p : ℕ} (h : Complete flags b len p) :
    (entryAt flags b p).name.length ≤ 220 := by
  have hle := (List.takeWhile_prefix (l := slice b (p + 2) (nameLenAt b p)) (· ≠ 0)).length_le
  rw [length_slice] at hle
  exact hle.trans (Nat.le_of_lt_succ h.short)

theorem mem_told {r : Reply} {l : Listed} (h : l ∈ r.told) :
    ∃ p, Complete (r.data 1) r.data r.length.toNat p ∧ l = entryAt (r.data 1) r.data p := by
  rw [Reply.told] at h
  split_ifs at h
  · exact mem_scan h
  · exact absurd h (by simp)

/-! ### A page -/

/-- Since `c` the callbacks `ls` were made, and nothing else that shows. -/
structure Heard (ls : List Listed) (c c' : Client) : Prop where
  sent : c'.sent = c.sent
  answer : c'.answer = c.answer
  listed : c'.listed = c.listed ++ ls
  beyond : c'.beyond = c.beyond
  fault : c'.fault = c.fault

/-- How the round of a page ends. -/
structure PageEnds (r : Reply) (c : Client) (page : Page) (c' : Client) : Prop where
  heard : Heard r.told c c'
  cut : r.Cut → page = .done false ∧ c'.lastError = errEntryBounds

theorem failPage_ends {r : Reply} {c : Client} {E : Client → Prop} (error : Byte) (h : ¬r.Opens) :
    wp (failPage error) (PageEnds r c) E c := by
  have htold : r.told = [] := if_neg h
  exact ⟨⟨rfl, rfl, by rw [htold]; exact (List.append_nil _).symm, rfl, rfl⟩, fun hcut => absurd hcut.1 h⟩

theorem listResponse_ends {r : Reply} {start : Word} {c : Client} (hr : r.result = 0) (hs : r.status = statusOk)
    (hload : Loaded r c) : wp (listResponse r.length start) (PageEnds r c) (fun _ => False) c := by
  rw [wp_congr (listResponse_header hload.headed start)]
  refine wp_ite (fun hlen => failPage_ends _ fun h => ?_) fun hlen => ?_
  · exact absurd h.2.2.1 (Nat.not_le.2 (BitVec.lt_def.1 hlen))
  have hten : 10 ≤ r.length.toNat := BitVec.le_def.1 (BitVec.not_lt.1 hlen)
  refine wp_ite (fun hv => failPage_ends _ fun h => hv h.2.2.2.1) fun hv => ?_
  refine wp_ite (fun hb => failPage_ends _ fun h => h.2.2.2.2 hb) fun hb => ?_
  have hopens : r.Opens := ⟨hr, hs, hten, not_not.1 hv, hb⟩
  have hpos : (10 : Word).toNat ≤ r.length.toNat := hten
  obtain ⟨nm, hrun⟩ := listEntries_scan (r.data 1) hload.fits (le (slice r.data 6 2)) hload.last hpos
  have hscan : scan (r.data 1) c.respBuf r.length.toNat (le (slice r.data 6 2)) (10 : Word).toNat = r.entries :=
    scan_congr (fun k hk => (hload.data k hk).symm) _ _
  rw [hscan] at hrun
  have hheard (c' : Client) (h : Heard r.entries.1 c c') : Heard r.told c c' := by
    rw [Reply.told, if_pos hopens]
    exact h
  rw [readPage, ofNat_le_slice]
  cases hok : r.entries.2 with
  | false =>
    rw [hok, if_neg (by decide)] at hrun
    rw [wp_bind, wp_of_ok hrun, if_neg (by decide)]
    exact ⟨hheard _ ⟨rfl, rfl, rfl, rfl, rfl⟩, fun _ => ⟨rfl, rfl⟩⟩
  | true =>
    have hcut : ¬r.Cut := fun h => absurd (h.2.symm.trans hok) (by decide)
    rw [hok, if_pos rfl] at hrun
    rw [wp_bind, wp_of_ok hrun, if_pos rfl]
    refine wp_ite (fun _ => ?_) fun _ => wp_ite (fun _ => ?_) fun _ => ?_
    · exact ⟨hheard _ ⟨rfl, rfl, rfl, rfl, rfl⟩, fun h => absurd h hcut⟩
    · exact ⟨hheard _ ⟨rfl, rfl, rfl, rfl, rfl⟩, fun h => absurd h hcut⟩
    · exact ⟨hheard _ ⟨rfl, rfl, rfl, rfl, rfl⟩, fun h => absurd h hcut⟩

/-! ### A listing -/

/-- Since `c` the requests `qs` were sent and their replies told, and no access left the
response or `list_name`. -/
structure Listing (qs : List Request) (c c' : Client) : Prop where
  sent : c'.sent = c.sent ++ qs
  answer : c'.answer = c.answer
  listed : c'.listed = c.listed ++ (replies c.answer c.sent qs).flatMap Reply.told
  beyond : c'.beyond = c.beyond
  fault : c'.fault = c.fault ∨ c'.fault = some .request

theorem replies_append (answer : List Request → Reply) (before qs qs' : List Request) :
    replies answer before (qs ++ qs') = replies answer before qs ++ replies answer (before ++ qs) qs' := by
  rw [replies, replies, replies, List.length_append, List.range_add, List.map_append, List.map_map]
  refine congrArg₂ (· ++ ·) (List.map_congr_left fun i hi => ?_) (List.map_congr_left fun i hi => ?_)
  · rw [List.take_append_of_le_length (List.mem_range.1 hi)]
  · rw [Function.comp_apply, Nat.add_assoc, List.take_length_add_append, List.append_assoc]

theorem replies_singleton (answer : List Request → Reply) (before : List Request) (q : Request) :
    replies answer before [q] = [answer (before ++ [q])] := rfl

theorem Listing.none {c c' : Client} (hsent : c'.sent = c.sent) (hans : c'.answer = c.answer)
    (hlisted : c'.listed = c.listed) (hbeyond : c'.beyond = c.beyond)
    (hfault : c'.fault = c.fault ∨ c'.fault = some .request) : Listing [] c c' where
  sent := by rw [hsent, List.append_nil]
  answer := hans
  listed := by rw [hlisted]; exact (List.append_nil _).symm
  beyond := hbeyond
  fault := hfault

theorem Listing.trans {qs qs' : List Request} {c c₁ c₂ : Client} (h : Listing qs c c₁) (h' : Listing qs' c₁ c₂) :
    Listing (qs ++ qs') c c₂ where
  sent := by rw [h'.sent, h.sent, List.append_assoc]
  answer := h'.answer.trans h.answer
  listed := by rw [h'.listed, h.listed, replies_append, List.flatMap_append, List.append_assoc, h.answer, h.sent]
  beyond := h'.beyond.trans h.beyond
  fault := by
    rcases h'.fault with hf | hf
    · rw [hf]
      exact h.fault
    · exact .inr hf

/-- The only access that may leave its buffer is that of the request. -/
theorem Listing.fault_ne {qs : List Request} {c c' : Client} (h : Listing qs c c') (hc : c.fault = .none) {f : Fault}
    (hf : f ≠ .request) : c'.fault ≠ some f := by
  rcases h.fault with heq | heq
  · rw [heq, hc]
    exact Option.some_ne_none f |>.symm
  · rw [heq]
    exact fun h => hf (Option.some.inj h).symm

/-- The page from `start` on was asked for, and came or did not. -/
theorem Heard.asked {uri : List Byte} {start : Word} {c c₁ c' : Client} {off : Word}
    (h₁ : Written c (listBytes uri (BitVec.ofNat 16 uri.length) start) off c₁)
    (h : Heard (c.reply (listing uri start)).told (c₁.served (listing uri start)) c') :
    Listing [listing uri start] c c' where
  sent := h.sent.trans (h₁.served_sent _)
  answer := h.answer.trans h₁.answer_eq
  listed := by
    have hbefore : (c₁.served (listing uri start)).listed = c.listed := by rw [h₁.frame]; rfl
    rw [h.listed, hbefore, replies_singleton, List.flatMap_singleton]
    rfl
  beyond := h.beyond.trans (by rw [h₁.frame]; rfl)
  fault := .inl (h.fault.trans (by rw [h₁.frame]; rfl))

/-- What is known of a page that was asked for. -/
structure Turn (uri : List Byte) (start : Word) (c : Client) (page : Page) (c' : Client) : Prop where
  asked : Listing [listing uri start] c c'
  cut : (c.reply (listing uri start)).Cut → page = .done false ∧ c'.lastError = errEntryBounds

theorem listPage_turn (uri : List Byte) (start : Word) (c : Client) (hcap : ∀ qs, (c.answer qs).length.toNat ≤ maxData) :
    wp (listPage uri (BitVec.ofNat 16 uri.length) start)
      (fun page c' => page = .done false ∧ Listing [] c c' ∨ Turn uri start c page c') (Listing [] c) c := by
  rw [listPage]
  refine wp_ite (fun _ => ?_) fun _ => ?_
  · exact .inl ⟨rfl, .none rfl rfl rfl rfl (.inl rfl)⟩
  refine wp.seq ((listRequest_wp ..).mono (fun _ _ => id) fun s h => ?_) ?_
  · exact .none h.sent h.answer h.listed h.beyond (.inr h.fault)
  intro off c₁ h₁
  refine h₁.service (by decide) (fun hr => ?_) fun hr => ?_
  · -- no response
    have hnot : ¬(c.reply (listing uri start)).Opens := fun h => hr h.1
    exact (failPage_ends (E := fun _ => False) errTransport hnot).mono
      (fun page c' h => .inr ⟨h.heard.asked h₁, h.cut⟩) fun _ => False.elim
  · rw [wp_bind, wp_modify]
    have hload := loaded_called (hcap _) rfl (h₁.reply_eq (listing uri start))
    refine wp.mono (Q := PageEnds (c.reply (listing uri start)) _) (E := fun _ => False)
      (wp_ite (fun hs => failPage_ends _ fun h => hs h.2.1) fun hs => ?_) (fun page c' h => .inr ⟨?_, h.cut⟩)
      fun _ => False.elim
    · exact listResponse_ends hr (not_not.1 hs) (hload.congr rfl rfl)
    · exact Heard.asked h₁ ⟨h.heard.sent, h.heard.answer, h.heard.listed, h.heard.beyond, h.heard.fault⟩

/-- The pages of a run, and how a run ends in which one of them was cut. -/
theorem listPages_listing (uri : List Byte) (n : ℕ) (start : Word) (c : Client)
    (hcap : ∀ qs, (c.answer qs).length.toNat ≤ maxData) :
    ∃ qs, Listing qs c (left ((listPages uri (BitVec.ofNat 16 uri.length) n start).run c)) ∧
      ∀ r ∈ replies c.answer c.sent qs, r.Cut →
        ∃ c', (listPages uri (BitVec.ofNat 16 uri.length) n start).run c = .ok (some false) c' ∧
          c'.lastError = errEntryBounds := by
  induction n generalizing start c with
  | zero => exact ⟨[], .none rfl rfl rfl rfl (.inl rfl), by simp [replies]⟩
  | succ n ih =>
    have hpage := listPage_turn uri start c hcap
    rw [listPages]
    cases hr : (listPage uri (BitVec.ofNat 16 uri.length) start).run c with
    | error e c₁ =>
      rw [wp, hr] at hpage
      rw [run_bind_error hr]
      exact ⟨[], hpage, by simp [replies]⟩
    | ok page c₁ =>
      rw [wp, hr] at hpage
      rw [run_bind_ok hr]
      rcases hpage with ⟨rfl, hnone⟩ | hturn
      · exact ⟨[], hnone, by simp [replies]⟩
      cases page with
      | done ok =>
        refine ⟨[listing uri start], hturn.asked, fun r hmem hcut => ⟨c₁, ?_⟩⟩
        rw [replies_singleton, List.mem_singleton] at hmem
        rw [hmem] at hcut
        obtain ⟨hok, herror⟩ := hturn.cut hcut
        cases hok
        exact ⟨rfl, herror⟩
      | next start' =>
        obtain ⟨qs, hrest, hcutRest⟩ := ih start' c₁ (hturn.asked.answer ▸ hcap)
        refine ⟨[listing uri start] ++ qs, hturn.asked.trans hrest, fun r hmem hcut => ?_⟩
        rw [replies_append, replies_singleton, List.singleton_append, List.mem_cons] at hmem
        rcases hmem with rfl | hmem
        · -- a page that was cut has no successor
          exact absurd (hturn.cut hcut).1 (by simp)
        · refine hcutRest r ?_ hcut
          rwa [hturn.asked.answer, hturn.asked.sent]

/-- Whatever the responses, as long as they fit: each callback gets an entry that lies in
its page and a name of at most 220 bytes, a page that is cut ends the call, and no access
leaves `list_name` or the response. The loop over the entries only reaches positions of
entries, and every 16-bit sum there is exact. -/
theorem listing_safe (n : ℕ) (uri : List Byte) (cb : Bool) (c : Client)
    (hcap : ∀ qs, (c.answer qs).length.toNat ≤ maxData) (hbeyond : c.beyond = false) (hfault : c.fault = none) :
    (∃ qs, (left ((listDirectory n uri cb).run c)).sent = c.sent ++ qs ∧
      (left ((listDirectory n uri cb).run c)).listed = c.listed ++ (replies c.answer c.sent qs).flatMap Reply.told ∧
      (∀ r ∈ replies c.answer c.sent qs, ∀ l ∈ r.told, l.name.length ≤ 220 ∧
        ∃ p, Complete (r.data 1) r.data r.length.toNat p ∧ l = entryAt (r.data 1) r.data p) ∧
      ∀ r ∈ replies c.answer c.sent qs, r.Cut →
        ∃ c', (listDirectory n uri cb).run c = .ok (some false) c' ∧ c'.lastError = errEntryBounds) ∧
    (left ((listDirectory n uri cb).run c)).beyond = false ∧
    (left ((listDirectory n uri cb).run c)).fault ≠ some .response ∧
    (left ((listDirectory n uri cb).run c)).fault ≠ some .name ∧
    (∀ flags (respLen : Word) (s : Client), 10 ≤ respLen.toNat → respLen.toNat ≤ maxData → s.respEnd = respLen.toNat → ∀ k,
      (∃ pos s', AtEntry flags s.respBuf respLen pos ∧
        ∀ m, (listEntries flags respLen (m + k) 10).run s = (listEntries flags respLen m pos).run s') ∨
      ∀ m, ∃ s', (listEntries flags respLen (m + k) 10).run s = .ok false s') ∧
    ∀ flags b (respLen pos : Word), 10 ≤ respLen.toNat → respLen.toNat ≤ maxData → AtEntry flags b respLen pos →
      pos.toNat ≤ respLen.toNat ∧ Fields b respLen pos := by
  have hreached : ∀ flags (respLen : Word) (s : Client), 10 ≤ respLen.toNat → respLen.toNat ≤ maxData →
      s.respEnd = respLen.toNat → ∀ k,
        (∃ pos s', AtEntry flags s.respBuf respLen pos ∧
          ∀ m, (listEntries flags respLen (m + k) 10).run s = (listEntries flags respLen m pos).run s') ∨
        ∀ m, ∃ s', (listEntries flags respLen (m + k) 10).run s = .ok false s' :=
    fun flags respLen s hten hresp hend k => listEntries_reaches hten hresp k hend .first
  have hfields : ∀ flags b (respLen pos : Word), 10 ≤ respLen.toNat → respLen.toNat ≤ maxData →
      AtEntry flags b respLen pos → pos.toNat ≤ respLen.toNat ∧ Fields b respLen pos :=
    fun flags b respLen pos hten hresp hat => ⟨hat.le hten, fields_of_le b hresp (hat.le hten)⟩
  cases cb with
  | false =>
    have hnone : Listing [] c (left ((listDirectory n uri false).run c)) := .none rfl rfl rfl rfl (.inl rfl)
    exact ⟨⟨[], hnone.sent, hnone.listed, by simp [replies], by simp [replies]⟩, hbeyond, hnone.fault_ne hfault (by decide),
      hnone.fault_ne hfault (by decide), hreached, hfields⟩
  | true =>
    have hrun : (listDirectory n uri true).run c =
        (listPages uri (BitVec.ofNat 16 uri.length) n 0).run (clearLast c) := rfl
    obtain ⟨qs, hlisting, hcut⟩ := listPages_listing uri n 0 (clearLast c) hcap
    rw [hrun]
    refine ⟨⟨qs, hlisting.sent, hlisting.listed, fun r _ l hl => ?_, hcut⟩, hlisting.beyond.trans hbeyond, ?_, ?_, hreached, hfields⟩
    · obtain ⟨p, hp, rfl⟩ := mem_told hl
      exact ⟨entryAt_short hp, p, hp, rfl⟩
    · exact hlisting.fault_ne hfault (by decide)
    · exact hlisting.fault_ne hfault (by decide)

/-- A page that announces two entries and ends behind the first. -/
def cutPage : Reply := replyBytes [1, 0x02, 0, 0, 0, 0, 2, 0, 4, 0, 1, 2, 0x61, 0x62]

theorem listing_safe_cut : cutPage.Cut ∧ cutPage.told = [⟨1, [0x61, 0x62], 0, 0⟩] ∧
    (left ((listDirectory 1 [0x41] true).run (.start diskErr fun _ => cutPage))).beyond = false := by
  have hcap : cutPage.length.toNat ≤ maxData := by decide
  exact ⟨⟨by decide, by decide⟩, by decide,
    (listing_safe 1 [0x41] true (.start diskErr fun _ => cutPage) (fun _ => hcap) rfl rfl).2.1⟩

end NioApps.Service
