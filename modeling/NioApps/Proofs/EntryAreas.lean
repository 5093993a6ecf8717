import NioApps.Proofs.Diagnostics

/-! The test whether the entries that a header declares are in the response, in
`fnsvc_list_directory` and `fnsvc_disk_list_mounts`. It is made on the sum reduced to 16
bits, so 65526 and more declared bytes pass it, whatever has arrived. -/

namespace NioApps.Service

open Abort

namespace Reply

variable (r : Reply)

/-- The bytes of entries that the header declares. -/
def entriesLen : ℕ := le (slice r.data 8 2)

/-- More than arrived. -/
def Overdeclares : Prop := r.length.toNat < 10 + r.entriesLen

/-- `fnsvc_list_directory` gets to the test. -/
structure PageHeader : Prop where
  result : r.result = 0
  status : r.status = statusOk
  length : 10 ≤ r.length.toNat
  version : r.data 0 = fileVersion

/-- `fnsvc_disk_list_mounts` gets to the test. -/
structure MountsHeader : Prop where
  result : r.result = 0
  status : r.status = statusOk
  length : 10 ≤ r.length.toNat
  version : r.data 0 = diskVersion
  flag : r.data 1 &&& 0x02 ≠ 0

/-- Both make this test. -/
def EntriesLeave : Prop := 10 + BitVec.ofNat 16 r.entriesLen > r.length

end Reply

theorem entriesLeave_iff (r : Reply) : r.EntriesLeave ↔ r.length.toNat < (10 + r.entriesLen) % 2 ^ 16 := by
  rw [Reply.EntriesLeave, gt_iff_lt, BitVec.lt_def, BitVec.toNat_add, BitVec.toNat_ofNat, Nat.add_mod_mod]
  rfl

theorem entriesLen_lt (r : Reply) : r.entriesLen < 2 ^ 16 := le_slice_lt _ _

/-- The test is right but for the lengths that are reduced. -/
theorem entriesLeave_of_overdeclares {r : Reply} (h : r.Overdeclares) (hlt : r.entriesLen < 65526) : r.EntriesLeave := by
  rw [Reply.Overdeclares] at h
  rw [entriesLeave_iff, Nat.mod_eq_of_lt (by omega)]
  exact h

theorem not_entriesLeave {r : Reply} (hten : 10 ≤ r.length.toNat) (hge : 65526 ≤ r.entriesLen) : ¬r.EntriesLeave := by
  have hlt := entriesLen_lt r
  rw [entriesLeave_iff]
  omega

theorem overdeclares_of_large {r : Reply} (hfits : r.length.toNat ≤ maxData) (hge : 65526 ≤ r.entriesLen) : r.Overdeclares := by
  rw [maxData] at hfits
  unfold Reply.Overdeclares
  omega

/-! ### fnsvc_list_directory -/

theorem Reply.opens_iff (r : Reply) : r.Opens ↔ r.PageHeader ∧ ¬r.EntriesLeave :=
  ⟨fun h => ⟨⟨h.1, h.2.1, h.2.2.1, h.2.2.2.1⟩, h.2.2.2.2⟩, fun h => ⟨h.1.result, h.1.status, h.1.length, h.1.version, h.2⟩⟩

/-- A header that is not accepted ends the call. -/
def Closes (r : Reply) (page : Page) : Prop := ¬r.Opens → page = .done false

theorem listResponse_closes {r : Reply} {c : Client} (h : Headed r c) (hr : r.result = 0) (hs : r.status = statusOk)
    (start : Word) : wp (listResponse r.length start) (fun page _ => Closes r page) (fun _ => True) c := by
  rw [wp_congr (listResponse_header h start)]
  refine wp_ite (fun _ _ => rfl) fun hlen => wp_ite (fun _ _ => rfl) fun hv => wp_ite (fun _ _ => rfl) fun hb => ?_
  have hopens : r.Opens := ⟨hr, hs, BitVec.le_def.1 (BitVec.not_lt.1 hlen), not_not.1 hv, hb⟩
  exact wp_all _ (fun _ _ h => absurd hopens h) fun _ => trivial

theorem listPage_closes (uri : List Byte) (start : Word) (c : Client) :
    wp (listPage uri (BitVec.ofNat 16 uri.length) start) (fun page _ => Closes (c.reply (listing uri start)) page)
      (fun _ => True) c := by
  rw [listPage]
  refine wp_ite (fun _ _ => rfl) fun _ => ?_
  refine wp.seq ((listRequest_wp ..).mono (fun _ _ => id) fun _ _ => trivial) ?_
  intro off c₁ h₁
  refine h₁.service (by decide) (fun _ _ => rfl) fun hr => ?_
  rw [wp_bind, wp_modify]
  have hhead := headed_called rfl (h₁.reply_eq (listing uri start))
  refine wp_ite (fun _ _ => rfl) fun hs => ?_
  refine listResponse_closes ?_ hr (not_not.1 hs) start
  exact hhead.congr rfl rfl

theorem sent_ne {answer : List Request → Reply} {sent qs : List Request} {before after : List Reply} {r : Reply}
    (hrs : replies answer sent qs = before ++ r :: after) : sent ≠ sent ++ qs := by
  intro h
  rw [List.self_eq_append_right.1 h] at hrs
  simp [replies] at hrs

/-- A reply whose header is not accepted is the last one. -/
theorem listPages_closed {uri : List Byte} {n : ℕ} {start : Word} {c : Client}
    (hcap : ∀ qs, (c.answer qs).length.toNat ≤ maxData) {qs : List Request}
    (hsent : (left ((listPages uri (BitVec.ofNat 16 uri.length) n start).run c)).sent = c.sent ++ qs)
    {before after : List Reply} {r : Reply} (hrs : replies c.answer c.sent qs = before ++ r :: after) (hr : ¬r.Opens) :
    after = [] ∧ ∃ c', (listPages uri (BitVec.ofNat 16 uri.length) n start).run c = .ok (some false) c' := by
  induction n generalizing start c qs before with
  | zero => exact absurd hsent (sent_ne hrs)
  | succ n ih =>
    have hpage := listPage_turn uri start c hcap
    have hcloses := listPage_closes uri start c
    rw [listPages] at hsent ⊢
    cases hrun : (listPage uri (BitVec.ofNat 16 uri.length) start).run c with
    | error e c₁ =>
      rw [wp, hrun] at hpage
      rw [run_bind_error hrun] at hsent
      refine absurd ?_ (sent_ne hrs)
      rw [← hsent, left_error, hpage.sent, List.append_nil]
    | ok page c₁ =>
      rw [wp, hrun] at hpage hcloses
      rw [run_bind_ok hrun] at hsent ⊢
      rcases hpage with ⟨rfl, hsame⟩ | hturn
      · refine absurd ?_ (sent_ne hrs)
        have hleft : c₁.sent = c.sent ++ qs := hsent
        rw [← hleft, hsame.sent, List.append_nil]
      cases page with
      | done ok =>
        have hleft : c₁.sent = c.sent ++ qs := hsent
        rw [hturn.asked.sent, List.append_cancel_left_eq] at hleft
        rw [← hleft, replies_singleton] at hrs
        cases before with
        | nil =>
          obtain ⟨rfl, rfl⟩ := List.cons.inj hrs
          cases hcloses hr
          exact ⟨rfl, c₁, rfl⟩
        | cons b before => simp at hrs
      | next start' =>
        have hopens : (c.reply (listing uri start)).Opens := by
          by_contra h
          cases hcloses h
        obtain ⟨qs', hrest, -⟩ := listPages_listing uri n start' c₁ (hturn.asked.answer ▸ hcap)
        have hqs : qs = [listing uri start] ++ qs' := by
          have hleft : c.sent ++ qs = c₁.sent ++ qs' := hsent.symm.trans hrest.sent
          rwa [hturn.asked.sent, List.append_assoc, List.append_cancel_left_eq] at hleft
        rw [hqs, replies_append, replies_singleton] at hrs
        cases before with
        | nil =>
          obtain ⟨rfl, -⟩ := List.cons.inj hrs
          exact absurd hopens hr
        | cons b before =>
          have htail := (List.cons.inj hrs).2
          rw [← hturn.asked.answer, ← hturn.asked.sent] at htail
          exact ih (hturn.asked.answer ▸ hcap) hrest.sent htail

/-- A reply that declares more than arrived is the last one of the call, and nothing of it is delivered. -/
def PageRefused (r : Reply) (before after : List Reply) (c : Client) (run : EStateM.Result Unit Client (Option Bool)) : Prop :=
  r.Overdeclares → after = [] ∧ ∃ c', run = .ok (some false) c' ∧
    c'.listed = c.listed ++ before.flatMap Reply.told ∧ (r.PageHeader → c'.lastError = errEntriesBounds)

theorem pageError_header {r : Reply} (h : r.PageHeader) : r.pageError = errEntriesBounds ↔ r.EntriesLeave := by
  have hlen : ¬r.length < 10 := fun hlt => absurd h.length (Nat.not_le.2 (BitVec.lt_def.1 hlt))
  rw [Reply.pageError, callError_ok h.result h.status, if_neg hlen, if_neg (not_not.2 h.version)]
  by_cases hleave : r.EntriesLeave
  · exact iff_of_true (if_pos hleave) hleave
  · have hpass : ¬10 + BitVec.ofNat 16 (le (slice r.data 8 2)) > r.length := hleave
    rw [if_neg hpass]
    refine iff_of_false ?_ hleave
    split_ifs <;> decide

/-- What a call that failed says is the reason of its last reply. -/
theorem listPages_error {uri : List Byte} {n : ℕ} {start : Word} {c c' : Client} {qs : List Request}
    (hrun : (listPages uri (BitVec.ofNat 16 uri.length) n start).run c = .ok (some false) c')
    (hsent : c'.sent = c.sent ++ qs) {before : List Reply} {r : Reply} (hrs : replies c.answer c.sent qs = before ++ [r]) :
    c'.lastError = r.pageError := by
  by_cases hlen : (BitVec.ofNat 16 uri.length).toNat + 6 > maxData
  · cases n with
    | zero => cases hrun
    | succ n =>
      rw [listPages, run_bind_ok (listPage_tooLarge start c hlen)] at hrun
      cases hrun
      exact absurd hsent (sent_ne hrs)
  · obtain ⟨qs', -, h⟩ := listPages_described n start c hlen hrun
    have hqs : qs' = qs := List.append_cancel_left (h.sent.symm.trans hsent)
    rw [hqs, hrs, pagesError, List.getLast?_concat] at h
    exact h.error

theorem listDirectory_refused {uri : List Byte} {n : ℕ} {c : Client} (hcap : ∀ qs, (c.answer qs).length.toNat ≤ maxData)
    {qs : List Request} (hsent : (left ((listDirectory n uri true).run c)).sent = c.sent ++ qs) {before after : List Reply}
    {r : Reply} (hrs : replies c.answer c.sent qs = before ++ r :: after) :
    PageRefused r before after c ((listDirectory n uri true).run c) ↔ ¬(r.PageHeader ∧ 65526 ≤ r.entriesLen) := by
  have hrun : (listDirectory n uri true).run c = (listPages uri (BitVec.ofNat 16 uri.length) n 0).run (clearLast c) := rfl
  have hfits : r.length.toNat ≤ maxData := by
    have hmem : r ∈ replies c.answer c.sent qs := by simp [hrs]
    obtain ⟨i, -, rfl⟩ := List.mem_map.1 hmem
    exact hcap _
  rw [hrun] at hsent ⊢
  constructor
  · rintro hrefused ⟨hheader, hge⟩
    obtain ⟨hlast, c', hok, -, herror⟩ := hrefused (overdeclares_of_large hfits hge)
    rw [hok] at hsent
    rw [hlast] at hrs
    have hreason := listPages_error (c := clearLast c) hok hsent hrs
    rw [herror hheader] at hreason
    exact not_entriesLeave hheader.length hge ((pageError_header hheader).1 hreason.symm)
  · intro hnot hover
    have hclosed : ¬r.Opens := by
      intro hopens
      obtain ⟨hheader, hpass⟩ := r.opens_iff.1 hopens
      exact hpass (entriesLeave_of_overdeclares hover (by_contra fun hlt => hnot ⟨hheader, by omega⟩))
    obtain ⟨hlast, c', hok⟩ := listPages_closed (c := clearLast c) hcap hsent hrs hclosed
    obtain ⟨qs', hlisting, -⟩ := listPages_listing uri n 0 (clearLast c) hcap
    have hqs : qs' = qs := List.append_cancel_left (hlisting.sent.symm.trans hsent)
    rw [hok] at hsent hlisting
    refine ⟨hlast, c', hok, ?_, fun hheader => ?_⟩
    · have hlisted := hlisting.listed
      rw [hqs] at hlisted
      have hreplies : replies (clearLast c).answer (clearLast c).sent qs = before ++ [r] := by
        rw [← hlast]
        exact hrs
      rw [hreplies, List.flatMap_append, List.flatMap_singleton, Reply.told, if_neg hclosed, List.append_nil] at hlisted
      exact hlisted
    · rw [hlast] at hrs
      rw [listPages_error (c := clearLast c) hok hsent hrs, pageError_header hheader]
      exact by_contra fun hpass => hclosed (r.opens_iff.2 ⟨hheader, hpass⟩)

/-! ### fnsvc_disk_list_mounts -/

/-- The response is refused at the test, or before it. -/
def Reply.Stops (r : Reply) (textCap : Word) : Prop :=
  ¬r.MountsHeader ∨ r.EntriesLeave ∨ BitVec.ofNat 16 r.entriesLen ≥ textCap

/-- A call that is refused copies no text, and says why. -/
structure Refuses (r : Reply) (textCap : Word) (c c' : Client) : Prop where
  stops : r.Stops textCap
  text : c'.mountText = c.mountText
  error : r.MountsHeader → c'.lastError = errEntriesBounds

theorem mountsResponse_stops {r : Reply} {c : Client} (h : Headed r c) (hr : r.result = 0) (hs : r.status = statusOk)
    (textCap : Word) :
    wp (mountsResponse r.length textCap) (fun ok c' => if ok then ¬r.Stops textCap else Refuses r textCap c c')
      (fun _ => ¬r.Stops textCap) c := by
  rw [wp_congr (mountsResponse_header h textCap)]
  refine wp_ite (fun hbad => ?_) fun hhead => ?_
  · have hno : ¬r.MountsHeader := by
      intro hheader
      rcases hbad with hlt | hne | h0
      · exact absurd hheader.length (Nat.not_le.2 (BitVec.lt_def.1 hlt))
      · exact hne hheader.version
      · exact hheader.flag h0
    exact ⟨.inl hno, rfl, fun hheader => absurd hheader hno⟩
  rw [not_or, not_or, not_not] at hhead
  obtain ⟨hlen, hv, hf⟩ := hhead
  have hten : 10 ≤ r.length.toNat := BitVec.le_def.1 (BitVec.not_lt.1 hlen)
  have hheader : r.MountsHeader := ⟨hr, hs, hten, hv, hf⟩
  rw [readMounts_lengths h hten textCap, readMountsText]
  refine wp_ite (fun hstop => ⟨.inr hstop, rfl, fun _ => rfl⟩) fun hpass => ?_
  have hgoes : ¬r.Stops textCap := by
    rintro (hno | hstop)
    · exact hno hheader
    · exact hpass hstop
  -- from here on the call succeeds, or the text leaves the buffer
  rw [wp_bind]
  refine wp_all _ (fun text c₁ => ?_) fun _ => hgoes
  rw [wp_bind, wp_modify, wp_bind, wp_of_ok (getByte_run (by decide) _), wp_bind, wp_modify]
  exact hgoes

theorem diskListMounts_stops (d : DiskErr) {r : Reply} {start textCap : Word} {c : Client} (hcap : 2 ≤ textCap.toNat)
    (hreply : c.reply (DiskCall.listMounts start true textCap).request = r) :
    wp (diskListMounts d start true textCap) (fun ok c' => if ok then ¬r.Stops textCap else Refuses r textCap c c')
      (fun _ => ¬r.Stops textCap) c := by
  have hacc : ¬(true = false ∨ textCap < 2) := by
    rintro (h | h)
    · cases h
    · exact absurd hcap (Nat.not_le.2 (BitVec.lt_def.1 h))
  subst hreply
  rw [diskListMounts, if_neg hacc]
  refine mountsRequest_wp start true textCap fun off c₁ h₁ => ?_
  have htext : c₁.mountText = c.mountText := by rw [h₁.frame]
  refine h₁.service (by decide) (fun hr => ?_) fun hr => ?_
  · exact ⟨.inl fun hheader => hr hheader.result, htext, fun hheader => absurd hheader.result hr⟩
  · rw [wp_bind, wp_modify, wp_bind, wp_modify]
    refine wp_ite (fun hs => ?_) fun hs => ?_
    · exact ⟨.inl fun hheader => hs hheader.status, htext, fun hheader => absurd hheader.status hs⟩
    have hhead := headed_called rfl (h₁.reply_eq (DiskCall.listMounts start true textCap).request)
    refine (mountsResponse_stops ?_ hr (not_not.1 hs) textCap).mono (fun ok c' h => ?_) fun _ => id
    · exact hhead.congr rfl rfl
    · cases ok with
      | true => exact h
      | false => exact ⟨h.stops, h.text.trans htext, h.error⟩

/-- A reply that declares more than arrived ends the call, and no text is copied. -/
def MountsRefused (r : Reply) (c : Client) (run : EStateM.Result Unit Client Bool) : Prop :=
  r.Overdeclares → ∃ c', run = .ok false c' ∧ c'.mountText = c.mountText ∧ (r.MountsHeader → c'.lastError = errEntriesBounds)

theorem diskListMounts_refused (d : DiskErr) {r : Reply} {start textCap : Word} {c : Client} (hcap : 2 ≤ textCap.toNat)
    (hfits : r.length.toNat ≤ maxData) (hreply : c.reply (DiskCall.listMounts start true textCap).request = r) :
    MountsRefused r c ((diskListMounts d start true textCap).run c) ↔
      ¬(r.MountsHeader ∧ 65526 ≤ r.entriesLen ∧ r.entriesLen < textCap.toNat) := by
  have hrun := diskListMounts_stops d hcap hreply
  rw [wp] at hrun
  have hlen : BitVec.ofNat 16 r.entriesLen ≥ textCap ↔ textCap.toNat ≤ r.entriesLen := by
    rw [ge_iff_le, BitVec.le_def, BitVec.toNat_ofNat, Nat.mod_eq_of_lt (entriesLen_lt r)]
  constructor
  · rintro hrefused ⟨hheader, hge, hlt⟩
    obtain ⟨c', hok, -, -⟩ := hrefused (overdeclares_of_large hfits hge)
    rw [hok] at hrun
    rcases hrun.stops with hno | hleave | hlong
    · exact hno hheader
    · exact not_entriesLeave hheader.length hge hleave
    · exact absurd (hlen.1 hlong) (Nat.not_le.2 hlt)
  · intro hnot hover
    have hstops : r.Stops textCap := by
      by_contra hgoes
      rw [Reply.Stops, not_or, not_or, not_not, hlen] at hgoes
      obtain ⟨hheader, hpass, hshort⟩ := hgoes
      exact hpass (entriesLeave_of_overdeclares hover (by_contra fun hge => hnot ⟨hheader, by omega, by omega⟩))
    cases hr : (diskListMounts d start true textCap).run c with
    | error e c' =>
      rw [hr] at hrun
      exact absurd hstops hrun
    | ok ok c' =>
      rw [hr] at hrun
      cases ok with
      | true => exact absurd hstops hrun
      | false => exact ⟨c', rfl, hrun.text, hrun.error⟩

/-! ### Both -/

/-- Every call of `fnsvc_list_directory`, for each reply it received, and every call of
`fnsvc_disk_list_mounts` that sends its request. -/
theorem entry_areas (d : DiskErr) (c : Client) (hcap : ∀ qs, (c.answer qs).length.toNat ≤ maxData) :
    (∀ (n : ℕ) (uri : List Byte) (cb : Bool) (qs : List Request) (before after : List Reply) (r : Reply),
      (left ((listDirectory n uri cb).run c)).sent = c.sent ++ qs → replies c.answer c.sent qs = before ++ r :: after →
        (PageRefused r before after c ((listDirectory n uri cb).run c) ↔ ¬(r.PageHeader ∧ 65526 ≤ r.entriesLen))) ∧
    ∀ (start textCap : Word) (r : Reply), 2 ≤ textCap.toNat →
      c.reply (DiskCall.listMounts start true textCap).request = r →
        (MountsRefused r c ((diskListMounts d start true textCap).run c) ↔
          ¬(r.MountsHeader ∧ 65526 ≤ r.entriesLen ∧ r.entriesLen < textCap.toNat)) := by
  refine ⟨fun n uri cb qs before after r hsent hrs => ?_, fun start textCap r htwo hreply => ?_⟩
  · cases cb with
    | false => exact absurd hsent (sent_ne hrs)
    | true => exact listDirectory_refused hcap hsent hrs
  · refine diskListMounts_refused d htwo ?_ hreply
    rw [← hreply]
    exact hcap _

/-- Ten bytes that declare 65534 more. -/
def hugeArea : Reply := replyBytes [1, 0x02, 0, 0, 0, 0, 0, 0, 0xfe, 0xff]

/-- Ten bytes that declare ten more. -/
def shortArea : Reply := replyBytes [1, 0x02, 0, 0, 0, 0, 0, 0, 10, 0]

/-- The listing succeeds, and the text is copied from behind the buffer. -/
theorem huge_area_passes : hugeArea.length.toNat = 10 ∧ hugeArea.entriesLen = 65534 ∧
    (∃ c', (listDirectory 1 [0x41] true).run (.start diskErr fun _ => hugeArea) = .ok (some true) c') ∧
    ∃ c', (diskListMounts diskErr 0 true 0xffff).run (.start diskErr fun _ => hugeArea) = .error () c' ∧
      c'.fault = some .response := by
  exact ⟨rfl, rfl, ⟨_, rfl⟩, ⟨_, rfl, rfl⟩⟩

theorem entry_areas_short :
    PageRefused shortArea [] [] (.start diskErr fun _ => shortArea)
      ((listDirectory 1 [0x41] true).run (.start diskErr fun _ => shortArea)) ∧
    MountsRefused shortArea (.start diskErr fun _ => shortArea)
      ((diskListMounts diskErr 0 true 256).run (.start diskErr fun _ => shortArea)) := by
  have hcap : shortArea.length.toNat ≤ maxData := by decide
  obtain ⟨hlist, hmounts⟩ := entry_areas diskErr (.start diskErr fun _ => shortArea) fun _ => hcap
  refine ⟨(hlist 1 [0x41] true [listing [0x41] 0] [] [] shortArea rfl rfl).2 ?_, (hmounts 0 256 shortArea ?_ rfl).2 ?_⟩
  · exact fun h => absurd h.2 (by decide)
  · decide
  · exact fun h => absurd h.2.1 (by decide)

end NioApps.Service
