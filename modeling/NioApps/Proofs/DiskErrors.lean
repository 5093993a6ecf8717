import NioApps.Sanity.Requests

/-! What `fnsvc_disk_last_error` reports. The header promises no error after success,
the reason after a failure that NIO explained, and `FN_DISK_ERR_UNREPORTED` otherwise.
A call that rejects its arguments leaves the variable as it was, and `disk_result` has
already cleared it when a response with status OK turns out to be malformed. -/

namespace NioApps.Service

open Abort

namespace DiskCall

/-- The arguments are refused before anything is sent. -/
def Rejected : DiskCall → Prop
  | .mount slot uri _ _ =>
    slot ≥ maxUnits ∨ BitVec.ofNat 16 uri.length = 0 ∨ (BitVec.ofNat 16 uri.length).toNat + 8 > maxData
  | .listMounts _ pointers textCap => pointers = false ∨ textCap < 2
  | .unmount slot => slot ≥ maxUnits
  | .restoreBoot slot => slot ≥ maxUnits

instance : DecidablePred Rejected := fun call => by
  cases call <;> unfold Rejected <;> infer_instance

/-- The request of a call whose arguments are accepted. -/
def request : DiskCall → Request
  | .mount slot uri readonly hint =>
    ⟨deviceDisk, diskMountCommand, mountBytes slot uri (BitVec.ofNat 16 uri.length) readonly hint, 32⟩
  | .listMounts start _ textCap =>
    ⟨deviceDisk, diskListMountsCommand,
      [diskVersion] ++ [0x01] ++ u16le 0 ++ u16le 0 ++ u16le start ++ u16le (textCap - 1), 512⟩
  | .unmount slot => ⟨deviceDisk, diskUnmountCommand, [diskVersion] ++ [slot + 1], 16⟩
  | .restoreBoot slot => ⟨deviceDisk, diskRestoreBootCommand, [diskVersion] ++ [slot + 1], 16⟩

/-- The call takes a response with status OK. -/
def Takes (r : Reply) : DiskCall → Prop
  | .mount .. => True
  | .listMounts _ _ textCap =>
    10 ≤ r.length ∧ r.data 0 = diskVersion ∧ r.data 1 &&& 0x02 ≠ 0 ∧
      ¬(10 + BitVec.ofNat 16 (le [r.data 8, r.data 9]) > r.length ∨ BitVec.ofNat 16 (le [r.data 8, r.data 9]) ≥ textCap)
  | .unmount _ => True
  | .restoreBoot _ => 12 ≤ r.length ∧ r.data 0 = diskVersion

/-- The call succeeds with the reply. -/
def Granted (call : DiskCall) (r : Reply) : Prop := r.result = 0 ∧ r.status = statusOk ∧ call.Takes r

end DiskCall

/-- The reason of a failure that NIO explained. -/
def Reply.reason (r : Reply) : Option Byte :=
  if r.result = 0 ∧ r.status ≠ statusOk ∧ r.length = 2 ∧ r.data 0 = diskVersion then some (r.data 1) else none

/-- What `disk_result` makes of a reply. -/
def Reply.diskError (d : DiskErr) (r : Reply) : Byte :=
  if r.result = 0 ∧ r.status = statusOk then d.none else r.reason.getD d.unreported

namespace Returned

variable (x : Returned)

/-- The reason that NIO sent during the call. -/
def reason : Option Byte := if x.after.sent = x.before.sent then none else (x.after.answer x.after.sent).reason

/-- What the header promises. -/
def Reported (d : DiskErr) : Prop :=
  if x.ok then x.after.diskLastError = d.none
  else x.after.diskLastError = x.reason.getD d.unreported ∧ x.after.diskLastError ≠ d.none

/-- The reply to the request of the call. -/
def reply : Reply := x.before.reply x.call.request

/-- Rejected arguments meet the variable as it has to be left, and no response with status OK is refused. -/
def Allowed (d : DiskErr) : Prop :=
  if x.call.Rejected then x.before.diskLastError = d.unreported
  else x.reply.result = 0 → x.reply.status = statusOk → x.call.Takes x.reply

end Returned

/-! ### The calls -/

/-- Only outputs and the other error variables differ. -/
structure Quiet (c c' : Client) : Prop where
  sent : c'.sent = c.sent
  answer : c'.answer = c.answer
  error : c'.diskLastError = c.diskLastError

/-- A call that was not rejected. -/
structure Called (d : DiskErr) (call : DiskCall) (c : Client) (ok : Bool) (c' : Client) : Prop where
  sent : c'.sent = c.sent ++ [call.request]
  answer : c'.answer = c.answer
  error : c'.diskLastError = (c.reply call.request).diskError d
  result : ok = true ↔ call.Granted (c.reply call.request)

/-- `disk_result` for a call that came back. -/
theorem diskResult_served {d : DiskErr} {q : Request} {c c' : Client} (hq : 2 ≤ q.capacity.toNat)
    (hreply : c'.reply q = c.reply q) (hr : (c.reply q).result = 0) :
    (diskResult d (c.reply q).status (c.reply q).length (c'.served q)).diskLastError = (c.reply q).diskError d := by
  have hbuf : (c'.served q).respBuf = (c.reply q).stored q.capacity c'.respBuf := by rw [← hreply]; rfl
  dsimp only [diskResult]
  rw [hbuf]
  by_cases hs : (c.reply q).status = statusOk
  · rw [if_pos hs, Reply.diskError, if_pos ⟨hr, hs⟩]
  · have hd : (c.reply q).diskError d = (c.reply q).reason.getD d.unreported := by
      rw [Reply.diskError, if_neg (fun h => hs h.2)]
    rw [if_neg hs, hd]
    by_cases hlen : (c.reply q).length = 2
    · have htwo : (c.reply q).length.toNat = 2 := by rw [hlen]; rfl
      rw [Reply.stored_data _ _ (by omega) (by omega), Reply.stored_data _ _ (by omega) (by omega), Reply.reason]
      by_cases hv : (c.reply q).data 0 = diskVersion
      · rw [if_pos ⟨hlen, hv⟩, if_pos ⟨hr, hs, hlen, hv⟩]
        rfl
      · rw [if_neg (fun h => hv h.2), if_neg (fun h => hv h.2.2.2)]
        rfl
    · rw [if_neg (fun h => hlen h.1), Reply.reason, if_neg (fun h => hlen h.2.2.1)]
      rfl

/-- A call that failed. -/
theorem Called.failed {d : DiskErr} {call : DiskCall} {c c' : Client} (hr : (c.reply call.request).result ≠ 0)
    (hsent : c'.sent = c.sent ++ [call.request]) (hans : c'.answer = c.answer) (herr : c'.diskLastError = d.unreported) :
    Called d call c false c' where
  sent := hsent
  answer := hans
  error := by rw [herr, Reply.diskError, if_neg (fun h => hr h.1), Reply.reason, if_neg (fun h => hr h.1)]; rfl
  result := by simpa [DiskCall.Granted] using fun h => absurd h hr

section Response

variable {d : DiskErr} {call : DiskCall} {c c₁ : Client}

/-- A call that came back, for which the status decides. -/
theorem Called.of_status (hr : (c.reply call.request).result = 0) (hsent : c₁.sent = c.sent ++ [call.request])
    (hans : c₁.answer = c.answer) (herr : c₁.diskLastError = (c.reply call.request).diskError d)
    (htakes : call.Takes (c.reply call.request)) :
    Called d call c (decide ((c.reply call.request).status = statusOk)) c₁ where
  sent := hsent
  answer := hans
  error := herr
  result := by simp [DiskCall.Granted, hr, htakes]

/-- A call that came back, for which the response decides when the status is OK. -/
theorem Called.of_response {response : Svc Bool} (call : DiskCall) (hr : (c.reply call.request).result = 0)
    (hsent : c₁.sent = c.sent ++ [call.request]) (hans : c₁.answer = c.answer)
    (herr : c₁.diskLastError = (c.reply call.request).diskError d)
    (hresp : wp response (fun ok c' => (ok = true ↔ call.Takes (c.reply call.request)) ∧ Quiet c₁ c')
      (fun _ => True) c₁) :
    wp (if (c.reply call.request).status ≠ statusOk then fail errStatus else response) (Called d call c)
      (fun _ => True) c₁ := by
  refine wp_ite (fun hs => ?_) fun hs => ?_
  · exact ⟨hsent, hans, herr, by simpa [DiskCall.Granted] using fun _ h => absurd h hs⟩
  · refine hresp.mono (fun ok c' h => ?_) fun _ => id
    obtain ⟨hok, hq⟩ := h
    exact ⟨by rw [hq.sent, hsent], by rw [hq.answer, hans], by rw [hq.error, herr],
      by rw [hok]; simp [DiskCall.Granted, hr, not_not.1 hs]⟩

end Response

instance : IsPreorder Client Quiet where
  refl _ := ⟨rfl, rfl, rfl⟩
  trans _ _ _ h h' := ⟨h'.sent.trans h.sent, h'.answer.trans h.answer, h'.error.trans h.error⟩

theorem quiet_readable : Readable Quiet where
  beyond _ := ⟨rfl, rfl, rfl⟩
  name _ _ := ⟨rfl, rfl, rfl⟩
  fault _ _ _ := ⟨rfl, rfl, rfl⟩

/-- A refused response. -/
theorem refused {error : Byte} {c c₁ : Client} {P : Prop} {E : Client → Prop} (h : Quiet c c₁) (hP : ¬P) :
    wp (fail error) (fun ok c' => (ok = true ↔ P) ∧ Quiet c c') E c₁ := by
  rw [wp_of_ok (fail_run error c₁)]
  exact ⟨by simp [hP], h.sent, h.answer, h.error⟩

/-- The request of a listing of the mounts is written. -/
theorem mountsRequest_wp {α : Type} {f : Word → Svc α} {Q : α → Client → Prop} {E : Client → Prop} {c : Client} (start : Word)
    (pointers : Bool) (textCap : Word)
    (hf : ∀ off c', Written c (DiskCall.listMounts start pointers textCap).request.bytes off c' → wp (f off) Q E c') :
    wp (do
      let off ← put 0 [diskVersion]
      let off ← put off [0x01]
      let off ← put off (u16le 0)
      let off ← put off (u16le 0)
      let off ← put off (u16le start)
      let off ← put off (u16le (textCap - 1))
      f off) Q E c := by
  have hfits {bs : List Byte} (h : bs.length ≤ 10) : bs.length ≤ maxData := h.trans (by decide)
  refine (Written.nil c).nextFit (hfits (by simp)) fun off c₁ h₁ => h₁.nextFit (hfits (by simp)) fun off c₂ h₂ => ?_
  refine h₂.nextFit (hfits (by simp [u16le])) fun off c₃ h₃ => h₃.nextFit (hfits (by simp [u16le])) fun off c₄ h₄ => ?_
  exact h₄.nextFit (hfits (by simp [u16le])) fun off c₅ h₅ => h₅.nextFit (hfits (by simp [u16le])) fun off c₆ h₆ => hf off c₆ h₆

/-- A request that only names a slot is written. -/
theorem slotRequest_wp {α : Type} {f : Word → Svc α} {Q : α → Client → Prop} {c : Client} (slot : Byte)
    (hf : ∀ off c', Written c ([diskVersion] ++ [slot + 1]) off c' → wp (f off) Q (fun _ => True) c') :
    wp (do
      let off ← put 0 [diskVersion]
      let off ← put off [slot + 1]
      f off) Q (fun _ => True) c :=
  (Written.nil c).next fun _ _ h₁ => h₁.next hf

theorem diskMount_wp (d : DiskErr) (slot : Byte) (uri : List Byte) (readonly : Byte) (hint : Word) (c : Client)
    (hacc : ¬(DiskCall.mount slot uri readonly hint).Rejected) :
    wp (diskMount d slot uri readonly hint) (Called d (.mount slot uri readonly hint) c) (fun _ => True) c := by
  rw [DiskCall.Rejected] at hacc
  rw [diskMount, if_neg hacc]
  refine wp.seq ((mountRequest_wp ..).mono (fun _ _ => id) fun _ _ => trivial) ?_
  intro off c₁ h₁
  refine h₁.service (by decide) (fun hr => ?_) fun hr => ?_
  · exact Called.failed hr (h₁.served_sent _) h₁.answer_eq rfl
  · exact Called.of_status hr (h₁.served_sent _) h₁.answer_eq
      (diskResult_served (by simp) (h₁.reply_eq _) hr) trivial

theorem diskUnmount_wp (d : DiskErr) (slot : Byte) (c : Client) (hacc : ¬(DiskCall.unmount slot).Rejected) :
    wp (diskUnmount d slot) (Called d (.unmount slot) c) (fun _ => True) c := by
  rw [DiskCall.Rejected] at hacc
  rw [diskUnmount, if_neg hacc]
  refine slotRequest_wp slot fun off c₁ h₁ => ?_
  refine h₁.service (by decide) (fun hr => ?_) fun hr => ?_
  · exact Called.failed hr (h₁.served_sent _) h₁.answer_eq rfl
  · exact Called.of_status hr (h₁.served_sent _) h₁.answer_eq
      (diskResult_served (by simp) (h₁.reply_eq _) hr) trivial

theorem restoreResponse_wp (r : Reply) (slot : Byte) (b : ℕ → Byte) (c : Client) (hbuf : c.respBuf = r.stored 16 b)
    (hend : c.respEnd = r.length.toNat) :
    wp (restoreResponse r.length) (fun ok c' => (ok = true ↔ (DiskCall.restoreBoot slot).Takes r) ∧ Quiet c c')
      (fun _ => True) c := by
  rw [restoreResponse]
  refine wp_ite (fun hlen => ?_) fun hlen => ?_
  · exact refused (refl_of Quiet c) fun h => absurd h.1 (BitVec.not_le.2 hlen)
  have hle := BitVec.not_lt.1 hlen
  have hlen' : 12 ≤ r.length.toNat := BitVec.le_def.1 hle
  have hdata : c.respBuf 0 = r.data 0 := by rw [hbuf, r.stored_data b (by omega) (by decide)]
  rw [wp_bind, wp_of_ok (getByte_within (Nat.le_trans (by decide) (hend ▸ hlen')) (by decide))]
  refine wp_ite (fun hv => ?_) fun hv => ?_
  · exact refused (refl_of Quiet c) fun h => hv (hdata.trans h.2)
  · exact ⟨iff_of_true rfl ⟨hle, hdata.symm.trans (not_not.1 hv)⟩, refl_of Quiet c⟩

theorem diskRestoreBoot_wp (d : DiskErr) (slot : Byte) (c : Client) (hacc : ¬(DiskCall.restoreBoot slot).Rejected) :
    wp (diskRestoreBoot d slot) (Called d (.restoreBoot slot) c) (fun _ => True) c := by
  rw [DiskCall.Rejected] at hacc
  rw [diskRestoreBoot, if_neg hacc, wp_bind, wp_modify]
  refine slotRequest_wp slot fun off c₁ h₁ => ?_
  refine h₁.service (by decide) (fun hr => ?_) fun hr => ?_
  · exact Called.failed hr (h₁.served_sent _) h₁.answer_eq rfl
  · rw [wp_bind, wp_modify, wp_bind, wp_modify]
    refine Called.of_response (c := c) (.restoreBoot slot) hr (h₁.served_sent _) h₁.answer_eq ?_ ?_
    · exact diskResult_served (by simp) (h₁.reply_eq _) hr
    · exact restoreResponse_wp _ slot _ _ (congrArg (fun r => Reply.stored r 16 _) (h₁.reply_eq _))
        (congrArg (fun r => r.length.toNat) (h₁.reply_eq _))

theorem mountsResponse_wp (r : Reply) (start textCap : Word) (pointers : Bool) (c : Client) (h : Headed r c) :
    wp (mountsResponse r.length textCap)
      (fun ok c' => (ok = true ↔ (DiskCall.listMounts start pointers textCap).Takes r) ∧ Quiet c c')
      (fun _ => True) c := by
  rw [wp_congr (mountsResponse_header h textCap)]
  refine wp_ite (fun hbad => refused (refl_of Quiet c) ?_) fun hhead => ?_
  · rintro ⟨hle, hv, hf, -⟩
    rcases hbad with hlt | hne | h0
    · exact absurd hle (BitVec.not_le.2 hlt)
    · exact hne hv
    · exact hf h0
  rw [not_or, not_or, not_not] at hhead
  obtain ⟨hlen, hv, hf⟩ := hhead
  have hten : 10 ≤ r.length.toNat := BitVec.le_def.1 (BitVec.not_lt.1 hlen)
  have htwo : slice r.data 8 2 = [r.data 8, r.data 9] := rfl
  rw [readMounts_lengths h hten textCap, htwo, readMountsText]
  refine wp_ite (fun he => ?_) fun he => ?_
  · exact refused ⟨rfl, rfl, rfl⟩ fun h => h.2.2.2 he
  · have htakes : (DiskCall.listMounts start pointers textCap).Takes r := ⟨BitVec.not_lt.1 hlen, hv, hf, he⟩
    by_cases hget : (10 : Word).toNat + (BitVec.ofNat 16 (le [r.data 8, r.data 9])).toNat ≤ maxData
    · rw [wp_bind, wp_of_ok (get_run hget _), wp_bind, wp_modify]
      have htext := quiet_readable.look (10 : Word).toNat (BitVec.ofNat 16 (le [r.data 8, r.data 9])).toNat
        { c with mountCount := BitVec.ofNat 16 (le (slice r.data 6 2)) }
      generalize look (10 : Word).toNat _ _ = c₁ at htext ⊢
      rw [wp_bind, wp_of_ok (getByte_run (by decide) _), wp_bind, wp_modify]
      have hmore (v : Client) : Quiet v (look (1 : Word).toNat 1 v) := quiet_readable.look ..
      exact ⟨iff_of_true rfl htakes, (hmore _).sent.trans htext.sent, (hmore _).answer.trans htext.answer,
        (hmore _).error.trans htext.error⟩
    · -- the text is longer than the buffer it comes from
      rw [wp_bind, wp, get_outside hget]
      trivial

theorem diskListMounts_wp (d : DiskErr) (start textCap : Word) (pointers : Bool) (c : Client)
    (hacc : ¬(DiskCall.listMounts start pointers textCap).Rejected) :
    wp (diskListMounts d start pointers textCap) (Called d (.listMounts start pointers textCap) c) (fun _ => True) c := by
  rw [DiskCall.Rejected] at hacc
  rw [diskListMounts, if_neg hacc]
  refine mountsRequest_wp start pointers textCap fun off c₁ h₁ => ?_
  refine h₁.service (by decide) (fun hr => ?_) fun hr => ?_
  · exact Called.failed hr (h₁.served_sent _) h₁.answer_eq rfl
  · rw [wp_bind, wp_modify, wp_bind, wp_modify]
    refine Called.of_response (c := c) (.listMounts start pointers textCap) hr (h₁.served_sent _) h₁.answer_eq ?_ ?_
    · exact diskResult_served (by simp) (h₁.reply_eq _) hr
    · have hhead := headed_called rfl (h₁.reply_eq (DiskCall.listMounts start pointers textCap).request)
      exact mountsResponse_wp _ start textCap pointers _ (hhead.congr rfl rfl)

/-! ### Runs of calls -/

/-- A call whose arguments are accepted, if it comes back. -/
theorem exec_called (d : DiskErr) (call : DiskCall) (c : Client) (hacc : ¬call.Rejected) :
    wp (call.exec d) (Called d call c) (fun _ => True) c := by
  cases call with
  | mount slot uri readonly hint => exact diskMount_wp d slot uri readonly hint c hacc
  | listMounts start pointers textCap => exact diskListMounts_wp d start textCap pointers c hacc
  | unmount slot => exact diskUnmount_wp d slot c hacc
  | restoreBoot slot => exact diskRestoreBoot_wp d slot c hacc

theorem exec_rejected (d : DiskErr) (call : DiskCall) (c : Client) (hrej : call.Rejected) :
    (call.exec d).run c = .ok false c := by
  cases call with
  | mount slot uri readonly hint =>
    rw [DiskCall.Rejected] at hrej
    rw [DiskCall.exec, diskMount, if_pos hrej]
    rfl
  | listMounts start pointers textCap =>
    rw [DiskCall.Rejected] at hrej
    rw [DiskCall.exec, diskListMounts, if_pos hrej]
    rfl
  | unmount slot =>
    rw [DiskCall.Rejected] at hrej
    rw [DiskCall.exec, diskUnmount, if_pos hrej]
    rfl
  | restoreBoot slot =>
    rw [DiskCall.Rejected] at hrej
    rw [DiskCall.exec, diskRestoreBoot, if_pos hrej]
    rfl

/-- NIO explains no failure with the code for none. -/
def Explains (d : DiskErr) (answer : List Request → Reply) : Prop := ∀ sent, (answer sent).reason ≠ some d.none

theorem reason_ne_none {d : DiskErr} {answer : List Request → Reply} (hd : Explains d answer) (sent : List Request) :
    (answer sent).reason.getD d.unreported ≠ d.none := by
  cases hr : (answer sent).reason with
  | none => exact d.distinct
  | some e => exact fun he => hd sent (hr.trans (congrArg some he))

variable {d : DiskErr} {x : Returned}

theorem reported_rejected (hx : (x.call.exec d).run x.before = .ok x.ok x.after) (hrej : x.call.Rejected) :
    x.Reported d ↔ x.Allowed d := by
  obtain ⟨hok, hafter⟩ : false = x.ok ∧ x.before = x.after := by
    simpa using (exec_rejected d x.call x.before hrej).symm.trans hx
  rw [Returned.Reported, Returned.Allowed, if_pos hrej, Returned.reason, ← hafter, if_pos rfl, ← hok]
  constructor
  · intro h
    exact h.1
  · intro h
    exact ⟨h, by rw [h]; exact d.distinct⟩

theorem reported_called (hx : Called d x.call x.before x.ok x.after) (hd : Explains d x.before.answer)
    (hacc : ¬x.call.Rejected) : x.Reported d ↔ x.Allowed d := by
  have hreason : x.reason = x.reply.reason := by
    rw [Returned.reason, hx.sent, if_neg (by simp), hx.answer]
    rfl
  have herr : x.after.diskLastError = x.reply.diskError d := hx.error
  have hres : x.ok = true ↔ x.reply.result = 0 ∧ x.reply.status = statusOk ∧ x.call.Takes x.reply := hx.result
  rw [Returned.Reported, Returned.Allowed, if_neg hacc, hreason, herr, Reply.diskError]
  by_cases hs : x.reply.result = 0 ∧ x.reply.status = statusOk
  · -- the variable is already clear: the response has to be taken
    rw [if_pos hs]
    constructor
    · intro h _ _
      by_contra ht
      rw [if_neg (fun hok => ht (hres.1 hok).2.2)] at h
      exact h.2 rfl
    · intro h
      rw [if_pos (hres.2 ⟨hs.1, hs.2, h hs.1 hs.2⟩)]
  · rw [if_neg hs, if_neg (fun hok => hs ⟨(hres.1 hok).1, (hres.1 hok).2.1⟩)]
    exact iff_of_true ⟨rfl, reason_ne_none hd _⟩ fun hr hst => absurd ⟨hr, hst⟩ hs

/-- The other side stays the same over a call. -/
theorem exec_answer {call : DiskCall} {c c' : Client} {ok : Bool} (h : (call.exec d).run c = .ok ok c') :
    c'.answer = c.answer := by
  by_cases hrej : call.Rejected
  · obtain ⟨-, hc⟩ : false = ok ∧ c = c' := by simpa using (exec_rejected d call c hrej).symm.trans h
    rw [hc]
  · exact ((exec_called d call c hrej).ok h).answer

/-- A call of a program runs from where the call before came back. -/
theorem returns_run {calls : List DiskCall} {c : Client} (hx : x ∈ returns d calls c) :
    (x.call.exec d).run x.before = .ok x.ok x.after ∧ x.before.answer = c.answer := by
  induction calls generalizing c with
  | nil => cases hx
  | cons call calls ih =>
    rw [returns] at hx
    cases hr : (call.exec d).run c with
    | error e c' =>
      rw [hr] at hx
      cases hx
    | ok ok c' =>
      rw [hr] at hx
      rcases List.mem_cons.1 hx with rfl | hx
      · exact ⟨hr, rfl⟩
      · obtain ⟨hrun, hans⟩ := ih hx
        exact ⟨hrun, hans.trans (exec_answer hr)⟩

/-- `fnsvc_disk_last_error` after every call of every program: as promised exactly when
no rejected call found a stale value, and no response with status OK was refused. -/
theorem disk_error_reported (d : DiskErr) (calls : List DiskCall) (c : Client) (hd : Explains d c.answer) :
    ∀ x ∈ returns d calls c, x.Reported d ↔ x.Allowed d := by
  intro x hx
  obtain ⟨hrun, hans⟩ := returns_run hx
  by_cases hrej : x.call.Rejected
  · exact reported_rejected hrun hrej
  · exact reported_called ((exec_called d x.call x.before hrej).ok hrun) (hans ▸ hd) hrej

/-! ### Three failures -/

/-- NIO refuses the first request with the reason 13, and answers the others with status OK and two bytes. -/
def refuseFirst (sent : List Request) : Reply :=
  if sent.length = 1 then ⟨0, 4, 2, fun k => if k = 0 then diskVersion else 13⟩ else ⟨0, statusOk, 2, fun _ => diskVersion⟩

def started : Client := .start diskErr refuseFirst

/-- A mount, an unmount of a slot that does not exist, and a restore with a short response. -/
def threeCalls : List DiskCall := [.mount 0 [0x41] 0 0, .unmount 9, .restoreBoot 0]

theorem refuseFirst_explains : Explains diskErr refuseFirst := by
  intro sent
  rw [refuseFirst]
  split_ifs with h <;> decide

/-- The second failure repeats the reason of the first, and the third reports none. -/
theorem stale_and_cleared : started.diskLastError = diskErr.none ∧ Explains diskErr started.answer ∧
    (returns diskErr threeCalls started).map (fun x => (x.ok, x.after.diskLastError)) =
      [(false, 13), (false, 13), (false, diskErr.none)] ∧
    ∃ x ∈ returns diskErr threeCalls started, ¬x.Reported diskErr := by
  have hmap : (returns diskErr threeCalls started).map (fun x => (x.ok, x.after.diskLastError)) =
      [(false, 13), (false, 13), (false, diskErr.none)] := by decide +kernel
  refine ⟨rfl, refuseFirst_explains, hmap, ?_⟩
  obtain ⟨x, hx, he⟩ := List.mem_map.1 (hmap ▸ (by simp : (false, diskErr.none) ∈ [(false, 13), (false, 13), (false, diskErr.none)]))
  obtain ⟨hok, herr⟩ := Prod.mk.inj he
  refine ⟨x, hx, fun h => ?_⟩
  rw [Returned.Reported, if_neg (by simp [hok])] at h
  exact h.2 herr

theorem disk_error_reported_three : (returns diskErr threeCalls started).length = 3 ∧
    ∀ x ∈ returns diskErr threeCalls started, x.Reported diskErr ↔ x.Allowed diskErr :=
  ⟨by decide +kernel, disk_error_reported diskErr threeCalls started refuseFirst_explains⟩

end NioApps.Service
