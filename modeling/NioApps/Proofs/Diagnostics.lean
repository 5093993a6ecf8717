import NioApps.Spec.Diagnostics
import NioApps.Proofs.DiskErrors
import NioApps.Proofs.ListingSafety
import NioApps.Proofs.ResolvedPath

/-! What the diagnostics of the service client say after a call. `fnsvc_list_directory`,
`fnsvc_resolve_path` and `fnsvc_disk_restore_boot` clear them before their request;
`fnsvc_disk_list_mounts` does not, and a call that is refused before it gets there leaves
them as they were. -/

namespace NioApps.Service

open Abort

/-! ### A response is judged -/

/-- Nothing is sent, and the diagnostics stay. -/
structure Calm (c c' : Client) : Prop where
  sent : c'.sent = c.sent
  answer : c'.answer = c.answer
  error : c'.lastError = c.lastError
  status : c'.lastStatus = c.lastStatus
  length : c'.lastResponseLen = c.lastResponseLen

instance : IsPreorder Client Calm where
  refl _ := ⟨rfl, rfl, rfl, rfl, rfl⟩
  trans _ _ _ h h' := ⟨h'.sent.trans h.sent, h'.answer.trans h.answer, h'.error.trans h.error,
    h'.status.trans h.status, h'.length.trans h.length⟩

theorem calm_readable : Readable Calm where
  beyond _ := ⟨rfl, rfl, rfl, rfl, rfl⟩
  name _ _ := ⟨rfl, rfl, rfl, rfl, rfl⟩
  fault _ _ _ := ⟨rfl, rfl, rfl, rfl, rfl⟩

/-- A round of the paging loop that does not fail. -/
def Page.good : Page → Bool
  | .done ok => ok
  | .next _ => true

/-- A result that is not good has left the error `e`; everything else is as it was. -/
structure Judged {α : Type} (good : α → Bool) (e : Byte) (c : Client) (a : α) (c' : Client) : Prop where
  sent : c'.sent = c.sent
  answer : c'.answer = c.answer
  error : c'.lastError = if good a then c.lastError else e
  status : c'.lastStatus = c.lastStatus
  length : c'.lastResponseLen = c.lastResponseLen

/-- From any state, `m` fails only with the error `e`. -/
def Verdict {α : Type} (good : α → Bool) (e : Byte) (m : Svc α) : Prop :=
  ∀ c, wp m (Judged good e c) (fun _ => True) c

section Verdict

variable {α β : Type} {good : α → Bool} {e : Byte} {c c₁ c' : Client} {a : α}

theorem Judged.of_calm (h : Calm c c₁) (h' : Judged good e c₁ a c') : Judged good e c a c' where
  sent := h'.sent.trans h.sent
  answer := h'.answer.trans h.answer
  error := by rw [h'.error, h.error]
  status := h'.status.trans h.status
  length := h'.length.trans h.length

theorem Verdict.bind {m : Svc β} {f : β → Svc α} (hm : Keeps Calm m) (hf : ∀ b, Verdict good e (f b)) :
    Verdict good e (m >>= f) := by
  intro c
  refine wp.seq (Q := fun _ => Calm c) ?_ fun b c₁ h₁ => ?_
  · have hcalm := hm c
    rw [wp]
    cases hr : m.run c with
    | ok b c₁ =>
      rw [hr] at hcalm
      exact hcalm
    | error _ _ => trivial
  · exact (hf b c₁).mono (fun _ _ => .of_calm h₁) fun _ => id

theorem Verdict.ite {p : Prop} [Decidable p] {m n : Svc α} (hm : p → Verdict good e m) (hn : ¬p → Verdict good e n) :
    Verdict good e (if p then m else n) := by
  split_ifs with h
  · exact hm h
  · exact hn h

theorem Verdict.pure (h : good a = true) : Verdict good e (pure a) := fun _ => ⟨rfl, rfl, by rw [h]; rfl, rfl, rfl⟩

theorem fail_verdict (e : Byte) : Verdict id e (fail e) := fun _ => ⟨rfl, rfl, rfl, rfl, rfl⟩

theorem failPage_verdict (e : Byte) : Verdict Page.good e (failPage e) := fun _ => ⟨rfl, rfl, rfl, rfl, rfl⟩

end Verdict

theorem listEntries_verdict (flags : Byte) (respLen : Word) (n : ℕ) (pos : Word) :
    Verdict id errEntryBounds (listEntries flags respLen n pos) := by
  induction n generalizing pos with
  | zero => exact Verdict.pure rfl
  | succ n ih =>
    rw [listEntries]
    refine Verdict.ite (fun _ => fail_verdict _) fun _ => ?_
    refine Verdict.bind (calm_readable.getByte _) fun eflags => Verdict.bind (calm_readable.getByte _) fun nameLen => ?_
    refine Verdict.ite (fun _ => fail_verdict _) fun _ => Verdict.bind (calm_readable.get _ _) fun name => ?_
    refine Verdict.bind (calm_readable.copyName name) fun _ => ?_
    refine Verdict.ite (fun _ => Verdict.ite (fun _ => fail_verdict _) fun _ => ?_) fun _ => ?_
    · refine Verdict.bind (calm_readable.getU32 _) fun size => Verdict.bind (calm_readable.getU32 _) fun mtime => ?_
      exact Verdict.bind (Keeps.modify fun c => ⟨rfl, rfl, rfl, rfl, rfl⟩) fun _ => ih _
    · exact Verdict.bind (Keeps.modify fun c => ⟨rfl, rfl, rfl, rfl, rfl⟩) fun _ => ih _

/-- The reply `r` came back with status OK, and its response is judged. -/
theorem callError_ok {r : Reply} {rest : Byte} (hr : r.result = 0) (hs : r.status = statusOk) : r.callError rest = rest := by
  rw [Reply.callError, if_neg (fun h => h hr), if_neg (fun h => h hs)]

theorem listResponse_judged {r : Reply} {c : Client} (h : Headed r c) (hr : r.result = 0) (hs : r.status = statusOk)
    (start : Word) : wp (listResponse r.length start) (Judged Page.good r.pageError c) (fun _ => True) c := by
  rw [Reply.pageError, callError_ok hr hs, wp_congr (listResponse_header h start)]
  by_cases hlen : r.length < 10
  · rw [if_pos hlen, if_pos hlen]
    exact failPage_verdict _ c
  rw [if_neg hlen, if_neg hlen]
  by_cases hv : r.data 0 ≠ fileVersion
  · rw [if_pos hv, if_pos hv]
    exact failPage_verdict _ c
  rw [if_neg hv, if_neg hv]
  by_cases hb : 10 + BitVec.ofNat 16 (le (slice r.data 8 2)) > r.length
  · rw [if_pos hb, if_pos hb]
    exact failPage_verdict _ c
  rw [if_neg hb, if_neg hb, readPage]
  have hcount : (BitVec.ofNat 16 (le (slice r.data 6 2))).toNat = le (slice r.data 6 2) := ofNat_le_slice _ _
  by_cases hnone : le (slice r.data 6 2) = 0
  · -- a page without entries
    rw [if_neg (not_not.2 hnone), hcount, hnone, listEntries, wp_bind, wp_pure, if_pos rfl]
    refine wp_ite (fun _ => ?_) fun _ => wp_ite (fun _ => ?_) fun _ => ?_
    · exact ⟨rfl, rfl, rfl, rfl, rfl⟩
    · exact failPage_verdict _ c
    · exact ⟨rfl, rfl, rfl, rfl, rfl⟩
  · rw [if_pos hnone]
    have hsome : BitVec.ofNat 16 (le (slice r.data 6 2)) ≠ 0 := fun h0 =>
      hnone (hcount.symm.trans (congrArg BitVec.toNat h0))
    refine wp.seq (listEntries_verdict _ _ _ _ c) fun ok c₁ h₁ => ?_
    refine wp_ite (fun hok => ?_) fun hok => ?_
    · have herr : c₁.lastError = c.lastError := by rw [h₁.error, if_pos (show id ok = true from hok)]
      refine wp_ite (fun _ => ?_) fun _ => wp_ite (fun h => absurd h hsome) fun _ => ?_
      · exact ⟨h₁.sent, h₁.answer, herr, h₁.status, h₁.length⟩
      · exact ⟨h₁.sent, h₁.answer, herr, h₁.status, h₁.length⟩
    · have herr : c₁.lastError = errEntryBounds := by rw [h₁.error, if_neg (show ¬id ok = true from hok)]
      exact ⟨h₁.sent, h₁.answer, herr, h₁.status, h₁.length⟩

theorem resolveResponse_judged {r : Reply} {c : Client} (h : Headed r c) (hr : r.result = 0) (hs : r.status = statusOk)
    (resolvedCap : Word) (display : Bool) (displayCap : Word) (flagsOut : Bool) :
    wp (resolveResponse r.length resolvedCap display displayCap flagsOut) (Judged id r.resolveError c) (fun _ => True) c := by
  rw [Reply.resolveError, callError_ok hr hs, resolveResponse]
  refine wp_ite (fun hlen => ?_) fun hlen => ?_
  · rw [if_pos (.inl hlen)]
    exact fail_verdict _ c
  have h0 : (0 : Word).toNat + 1 ≤ r.length.toNat :=
    Nat.le_trans (by decide) (BitVec.le_def.1 (BitVec.not_lt.1 hlen))
  rw [wp_bind, wp_of_ok (h.getByte h0 (by decide))]
  refine wp_ite (fun hv => ?_) fun hv => ?_
  · have hv' : r.data 0 ≠ fileVersion := hv
    rw [if_pos (.inr hv')]
    exact fail_verdict _ c
  have hv' : ¬r.data 0 ≠ fileVersion := hv
  rw [if_neg (not_or.2 ⟨hlen, hv'⟩)]
  refine Verdict.bind (calm_readable.getByte _) (fun flags => Verdict.bind (calm_readable.getU16 _) fun len => ?_) c
  refine Verdict.ite (fun _ => fail_verdict _) fun _ => Verdict.bind (calm_readable.get _ _) fun uri => ?_
  refine Verdict.bind (Keeps.modify fun c => ⟨rfl, rfl, rfl, rfl, rfl⟩) fun _ => Verdict.bind (calm_readable.getU16 _) fun rest => ?_
  have hend : Verdict id errShortResponse (do
      if flagsOut then modify fun c => { c with resolvedFlags := flags }
      return true) :=
    Verdict.ite (fun _ => Verdict.bind (Keeps.modify fun c => ⟨rfl, rfl, rfl, rfl, rfl⟩) fun _ => Verdict.pure rfl)
      fun _ => Verdict.pure rfl
  refine Verdict.ite (fun _ => fail_verdict _) fun _ => Verdict.ite (fun _ => ?_) fun _ => hend
  exact Verdict.bind (calm_readable.get _ _) fun path => Verdict.bind (Keeps.modify fun c => ⟨rfl, rfl, rfl, rfl, rfl⟩) fun _ => hend

theorem mountsResponse_judged {r : Reply} {c : Client} (h : Headed r c) (hr : r.result = 0) (hs : r.status = statusOk)
    (textCap : Word) : wp (mountsResponse r.length textCap) (Judged id r.mountsError c) (fun _ => True) c := by
  rw [Reply.mountsError, callError_ok hr hs, wp_congr (mountsResponse_header h textCap)]
  by_cases hhead : r.length < 10 ∨ r.data 0 ≠ diskVersion ∨ r.data 1 &&& 0x02 = 0
  · rw [if_pos hhead, if_pos hhead]
    exact fail_verdict _ c
  rw [if_neg hhead, if_neg hhead, readMounts]
  refine Verdict.bind (calm_readable.getU16 _) (fun count => ?_) c
  refine Verdict.bind (Keeps.modify fun c => ⟨rfl, rfl, rfl, rfl, rfl⟩) fun _ => Verdict.bind (calm_readable.getU16 _) fun len => ?_
  refine Verdict.ite (fun _ => fail_verdict _) fun _ => Verdict.bind (calm_readable.get _ _) fun text => ?_
  refine Verdict.bind (Keeps.modify fun c => ⟨rfl, rfl, rfl, rfl, rfl⟩) fun _ => Verdict.bind (calm_readable.getByte _) fun more => ?_
  exact Verdict.bind (Keeps.modify fun c => ⟨rfl, rfl, rfl, rfl, rfl⟩) fun _ => Verdict.pure rfl

theorem restoreResponse_judged {r : Reply} {c : Client} (hr : r.result = 0) (hs : r.status = statusOk) :
    wp (restoreResponse r.length) (Judged id r.restoreError c) (fun _ => True) c := by
  rw [Reply.restoreError, callError_ok hr hs, restoreResponse]
  refine wp_ite (fun hlen => ?_) fun hlen => ?_
  · rw [if_pos hlen]
    exact fail_verdict _ c
  rw [if_neg hlen]
  exact Verdict.bind (calm_readable.getByte _) (fun version => Verdict.ite (fun _ => fail_verdict _) fun _ => Verdict.pure rfl) c

/-! ### A call -/

/-- Since `c` the requests `qs` were sent, and a result that is not good has left the error `e`. -/
structure Described {α : Type} (good : α → Bool) (e : Byte) (qs : List Request) (c : Client) (a : α) (c' : Client) : Prop where
  sent : c'.sent = c.sent ++ qs
  answer : c'.answer = c.answer
  error : c'.lastError = if good a then c.lastError else e
  seen : (c'.lastStatus, c'.lastResponseLen) = lastSeen (c.lastStatus, c.lastResponseLen) (replies c.answer c.sent qs)

theorem callError_failed {r : Reply} (hr : r.result ≠ 0) (rest : Byte) : r.callError rest = errTransport := if_pos hr

theorem callError_status {r : Reply} (hr : r.result = 0) (hs : r.status ≠ statusOk) (rest : Byte) :
    r.callError rest = errStatus := by
  rw [Reply.callError, if_neg (not_not.2 hr), if_pos hs]

theorem lastSeen_failed {r : Reply} (hr : r.result ≠ 0) (seen : Byte × Word) : lastSeen seen [r] = seen := if_neg hr

theorem lastSeen_back {r : Reply} (hr : r.result = 0) (seen : Byte × Word) : lastSeen seen [r] = (r.status, r.length) :=
  if_pos hr

section Described

variable {α : Type} {good : α → Bool} {a : α} {q : Request} {c c₁ : Client} {rest : Byte}

/-- The request got no response. -/
theorem Described.failed (ha : good a = false) (hr : (c.reply q).result ≠ 0) (hsent : c₁.sent = c.sent ++ [q])
    (hans : c₁.answer = c.answer) (hseen : (c₁.lastStatus, c₁.lastResponseLen) = (c.lastStatus, c.lastResponseLen)) :
    Described good ((c.reply q).callError rest) [q] c a { c₁ with lastError := errTransport } where
  sent := hsent
  answer := hans
  error := by rw [ha, callError_failed hr]; rfl
  seen := by rw [replies_singleton]; exact hseen.trans (lastSeen_failed hr _).symm

/-- The response is in, and is judged. -/
theorem Described.back {refuse response : Svc α} (hr : (c.reply q).result = 0) (hsent : c₁.sent = c.sent ++ [q])
    (hans : c₁.answer = c.answer) (herr : c₁.lastError = c.lastError)
    (hseen : (c₁.lastStatus, c₁.lastResponseLen) = ((c.reply q).status, (c.reply q).length))
    (hrefuse : Verdict good errStatus refuse)
    (hresp : (c.reply q).status = statusOk → wp response (Judged good ((c.reply q).callError rest) c₁) (fun _ => True) c₁) :
    wp (if (c.reply q).status ≠ statusOk then refuse else response)
      (Described good ((c.reply q).callError rest) [q] c) (fun _ => True) c₁ := by
  have hjudged : wp (if (c.reply q).status ≠ statusOk then refuse else response)
      (Judged good ((c.reply q).callError rest) c₁) (fun _ => True) c₁ := by
    refine wp_ite (fun hs => ?_) fun hs => hresp (not_not.1 hs)
    rw [callError_status hr hs]
    exact hrefuse c₁
  refine hjudged.mono (fun a c' h => ?_) fun _ => id
  refine ⟨h.sent.trans hsent, h.answer.trans hans, by rw [h.error, herr], ?_⟩
  rw [h.status, h.length, hseen, replies_singleton]
  exact (lastSeen_back hr _).symm

end Described

theorem resolvePath_described {baseUri : List Byte} {arg : Option (List Byte)} {resolvedCap : Word} (display : Bool)
    (displayCap : Word) (flagsOut : Bool) (c : Client) (hcap : resolvedCap ≠ 0)
    (hsum : ¬(BitVec.ofNat 16 baseUri.length + BitVec.ofNat 16 (arg.getD []).length + 5).toNat > maxData) :
    wp (resolvePath (some baseUri) arg true resolvedCap display displayCap flagsOut)
      (Described id (c.reply (resolving baseUri (arg.getD []))).resolveError [resolving baseUri (arg.getD [])] (clearLast c))
      (fun _ => True) c := by
  have hacc : ¬(true = false ∨ resolvedCap = 0) := by simpa using hcap
  rw [resolvePath, if_neg hacc]
  generalize arg.getD [] = a at hsum ⊢
  rw [if_neg hsum, wp_bind, wp_modify]
  refine wp.seq ((resolveRequest_wp ..).mono (fun _ _ => id) fun _ _ => trivial) ?_
  intro off c₁ h₁
  refine h₁.service (by decide) (fun hr => ?_) fun hr => ?_
  · exact Described.failed rfl hr (h₁.served_sent _) h₁.answer_eq (by rw [h₁.frame]; rfl)
  · rw [wp_bind, wp_modify]
    refine Described.back hr (h₁.served_sent _) h₁.answer_eq (by rw [h₁.frame]; rfl) rfl (fail_verdict _) fun hs => ?_
    have hhead := headed_called rfl (h₁.reply_eq (resolving baseUri a))
    refine resolveResponse_judged ?_ hr hs resolvedCap display displayCap flagsOut
    exact hhead.congr rfl rfl

theorem diskListMounts_described {d : DiskErr} {start textCap : Word} {pointers : Bool} {q : Request}
    (hq : q = (DiskCall.listMounts start pointers textCap).request) (c : Client)
    (hacc : ¬(pointers = false ∨ textCap < 2)) :
    wp (diskListMounts d start pointers textCap) (Described id (c.reply q).mountsError [q] c) (fun _ => True) c := by
  rw [hq, diskListMounts, if_neg hacc]
  refine mountsRequest_wp start pointers textCap fun off c₁ h₁ => ?_
  refine h₁.service (by decide) (fun hr => ?_) fun hr => ?_
  · exact Described.failed rfl hr (h₁.served_sent _) h₁.answer_eq (by rw [h₁.frame]; rfl)
  · rw [wp_bind, wp_modify, wp_bind, wp_modify]
    refine Described.back hr (h₁.served_sent _) h₁.answer_eq (by rw [h₁.frame]; rfl) rfl (fail_verdict _) fun hs => ?_
    have hhead := headed_called rfl (h₁.reply_eq (DiskCall.listMounts start pointers textCap).request)
    refine mountsResponse_judged ?_ hr hs textCap
    exact hhead.congr rfl rfl

theorem diskRestoreBoot_described {d : DiskErr} {slot : Byte} {q : Request} (hq : q = (DiskCall.restoreBoot slot).request)
    (c : Client) (hacc : ¬slot ≥ maxUnits) :
    wp (diskRestoreBoot d slot) (Described id (c.reply q).restoreError [q] (clearLast c)) (fun _ => True) c := by
  rw [hq, diskRestoreBoot, if_neg hacc, wp_bind, wp_modify]
  refine slotRequest_wp slot fun off c₁ h₁ => ?_
  refine h₁.service (by decide) (fun hr => ?_) fun hr => ?_
  · exact Described.failed rfl hr (h₁.served_sent _) h₁.answer_eq (by rw [h₁.frame]; rfl)
  · rw [wp_bind, wp_modify, wp_bind, wp_modify]
    refine Described.back hr (h₁.served_sent _) h₁.answer_eq (by rw [h₁.frame]; rfl) rfl (fail_verdict _) fun hs => ?_
    exact restoreResponse_judged hr hs

/-! ### A listing -/

theorem listPage_described (uri : List Byte) (start : Word) (c : Client)
    (hlen : ¬(BitVec.ofNat 16 uri.length).toNat + 6 > maxData) :
    wp (listPage uri (BitVec.ofNat 16 uri.length) start)
      (Described Page.good (c.reply (listing uri start)).pageError [listing uri start] c) (fun _ => True) c := by
  rw [listPage, if_neg hlen]
  refine wp.seq ((listRequest_wp ..).mono (fun _ _ => id) fun _ _ => trivial) ?_
  intro off c₁ h₁
  refine h₁.service (by decide) (fun hr => ?_) fun hr => ?_
  · exact Described.failed rfl hr (h₁.served_sent _) h₁.answer_eq (by rw [h₁.frame]; rfl)
  · rw [wp_bind, wp_modify]
    refine Described.back hr (h₁.served_sent _) h₁.answer_eq (by rw [h₁.frame]; rfl) rfl (failPage_verdict _) fun hs => ?_
    have hhead := headed_called rfl (h₁.reply_eq (listing uri start))
    refine listResponse_judged ?_ hr hs start
    exact hhead.congr rfl rfl

theorem listPage_tooLarge {uri : List Byte} (start : Word) (c : Client)
    (hlen : (BitVec.ofNat 16 uri.length).toNat + 6 > maxData) :
    (listPage uri (BitVec.ofNat 16 uri.length) start).run c = .ok (.done false) { c with lastError := errRequestTooLarge } := by
  rw [listPage, if_pos hlen]
  rfl

theorem pagesError_cons {r : Reply} {rs : List Reply} (h : rs ≠ []) : pagesError (r :: rs) = pagesError rs := by
  rw [pagesError, pagesError, List.getLast?_cons_of_ne_nil h]

theorem replies_eq_nil {answer : List Request → Reply} {before qs : List Request} : replies answer before qs = [] ↔ qs = [] := by
  rw [replies, List.map_eq_nil_iff, List.range_eq_nil, List.length_eq_zero_iff]

theorem lastSeen_cons (seen : Byte × Word) (r : Reply) (rs : List Reply) :
    lastSeen seen (r :: rs) = lastSeen (lastSeen seen [r]) rs := rfl

/-- The rounds of a listing that came back: the last reply is the one that decides. -/
theorem listPages_described {uri : List Byte} (n : ℕ) (start : Word) (c : Client)
    (hlen : ¬(BitVec.ofNat 16 uri.length).toNat + 6 > maxData) {ok : Bool} {c' : Client}
    (hrun : (listPages uri (BitVec.ofNat 16 uri.length) n start).run c = .ok (some ok) c') :
    ∃ qs, qs ≠ [] ∧ Described id (pagesError (replies c.answer c.sent qs)) qs c ok c' := by
  induction n generalizing start c with
  | zero => cases hrun
  | succ n ih =>
    rw [listPages] at hrun
    have hpage := listPage_described uri start c hlen
    cases hr : (listPage uri (BitVec.ofNat 16 uri.length) start).run c with
    | error e c₁ =>
      rw [run_bind_error hr] at hrun
      cases hrun
    | ok page c₁ =>
      rw [run_bind_ok hr] at hrun
      have h := hpage.ok hr
      cases page with
      | done b =>
        cases hrun
        exact ⟨[listing uri start], by simp, h.sent, h.answer, h.error, h.seen⟩
      | next start' =>
        obtain ⟨qs, hqs, hrest⟩ := ih start' c₁ hrun
        have hreplies : replies c.answer c.sent ([listing uri start] ++ qs) =
            c.reply (listing uri start) :: replies c₁.answer c₁.sent qs := by
          rw [replies_append, replies_singleton, h.answer, h.sent]
          rfl
        have herr : c₁.lastError = c.lastError := h.error
        refine ⟨[listing uri start] ++ qs, by simp, ?_⟩
        rw [hreplies, pagesError_cons (fun h => hqs (replies_eq_nil.1 h))]
        refine ⟨?_, hrest.answer.trans h.answer, herr ▸ hrest.error, ?_⟩
        · rw [hrest.sent, h.sent, List.append_assoc]
        · rw [hreplies, lastSeen_cons, hrest.seen, h.seen]
          rfl

/-! ### The calls of a program -/

theorem callError_ne {r : Reply} {rest : Byte} (h : rest ≠ errNone) : r.callError rest ≠ errNone := by
  rw [Reply.callError]
  split_ifs
  · decide
  · decide
  · exact h

theorem pageError_ne (r : Reply) : r.pageError ≠ errNone := by
  refine callError_ne ?_
  split_ifs <;> decide

theorem resolveError_ne (r : Reply) : r.resolveError ≠ errNone := by
  refine callError_ne ?_
  split_ifs <;> decide

theorem mountsError_ne (r : Reply) : r.mountsError ≠ errNone := by
  refine callError_ne ?_
  split_ifs <;> decide

theorem restoreError_ne (r : Reply) : r.restoreError ≠ errNone := by
  refine callError_ne ?_
  split_ifs <;> decide

theorem last_ne {f : Reply → Byte} {e : Byte} (hf : ∀ r, f r ≠ errNone) (he : e ≠ errNone) (rs : List Reply) :
    (rs.getLast?.map f).getD e ≠ errNone := by
  cases rs.getLast? with
  | none => exact he
  | some r => exact hf r

theorem reason_ne (call : ServiceCall) (rs : List Reply) : call.reason rs ≠ errNone := by
  cases call with
  | listDirectory rounds uri cb =>
    rw [ServiceCall.reason]
    split_ifs
    · decide
    · exact last_ne pageError_ne (by decide) rs
  | resolvePath baseUri arg resolved resolvedCap display displayCap flagsOut =>
    rw [ServiceCall.reason]
    split_ifs
    · decide
    · exact last_ne resolveError_ne (by decide) rs
  | listMounts start pointers textCap => exact last_ne mountsError_ne (by decide) rs
  | restoreBoot slot => exact last_ne restoreError_ne (by decide) rs

/-- The diagnostics are those of a call without a response. -/
def Client.Unheard (c : Client) : Prop := c.lastStatus = 0 ∧ c.lastResponseLen = 0

/-- A call that is refused before it clears the diagnostics finds none that it does not set,
and so does a listing of the mounts, which never clears them. -/
def Answered.Allowed (x : Answered) : Prop :=
  match x.call with
  | .listDirectory _ _ cb => cb = false → x.before.Unheard
  | .resolvePath baseUri arg resolved resolvedCap _ _ _ =>
    baseUri = none ∨ resolved = false ∨ resolvedCap = 0 ∨
      (BitVec.ofNat 16 (baseUri.getD []).length + BitVec.ofNat 16 (arg.getD []).length + 5).toNat > maxData →
        x.before.Unheard
  | .listMounts start pointers textCap =>
    if pointers = false ∨ textCap < 2 then x.before.lastError = errInvalidArg ∧ x.before.Unheard
    else
      let r := x.before.reply (DiskCall.listMounts start pointers textCap).request
      (r.result ≠ 0 → x.before.Unheard) ∧
        (r.result = 0 → r.status = statusOk → (DiskCall.listMounts start pointers textCap).Takes r →
          x.before.lastError = errNone)
  | .restoreBoot slot => slot ≥ maxUnits → x.before.lastError = errInvalidArg ∧ x.before.Unheard

section Reported

variable {d : DiskErr} {x : Answered}

/-- A call is reported when what it started from is. -/
theorem reported_described {qs : List Request} {e : Byte} (c : Client) (hsent : c.sent = x.before.sent)
    (hans : c.answer = x.before.answer) (h : Described id e qs c x.ok x.after)
    (he : x.call.reason (replies x.before.answer x.before.sent qs) = e) :
    x.Reported ↔ if x.ok then c.lastError = errNone
      else lastSeen (c.lastStatus, c.lastResponseLen) (replies x.before.answer x.before.sent qs) =
        lastSeen (0, 0) (replies x.before.answer x.before.sent qs) := by
  have hreplies : x.replies = replies x.before.answer x.before.sent qs := by
    rw [Answered.replies, h.sent, hsent, List.drop_left]
  have hseen := h.seen
  rw [hans, hsent] at hseen
  rw [Answered.Reported, hreplies, he, h.error, hseen]
  cases x.ok with
  | true => exact Iff.rfl
  | false => exact ⟨fun h => h.2.2, fun h => ⟨rfl, he ▸ reason_ne _ _, h⟩⟩

theorem reported_cleared {qs : List Request} {e : Byte} (h : Described id e qs (clearLast x.before) x.ok x.after)
    (he : x.call.reason (replies x.before.answer x.before.sent qs) = e) : x.Reported := by
  rw [reported_described (clearLast x.before) rfl rfl h he]
  cases x.ok <;> rfl

/-- A call that sent nothing and only says why. -/
theorem reported_refused {e : Byte} (hok : x.ok = false) (hafter : x.after = { x.before with lastError := e })
    (he : x.call.reason [] = e) : x.Reported ↔ x.before.Unheard := by
  have hd : Described id e [] x.before x.ok x.after := by
    rw [hok, hafter]
    exact ⟨(List.append_nil _).symm, rfl, rfl, rfl⟩
  rw [reported_described x.before rfl rfl hd he, hok]
  exact Prod.mk_inj

/-- A call that leaves everything as it was. -/
theorem reported_silent (hok : x.ok = false) (hafter : x.after = x.before) (he : x.call.reason [] = errInvalidArg) :
    x.Reported ↔ x.before.lastError = errInvalidArg ∧ x.before.Unheard := by
  have hreplies : x.replies = [] := by
    rw [Answered.replies, hafter, List.drop_length]
    rfl
  rw [Answered.Reported, hok, if_neg (by decide), hreplies, he, hafter]
  constructor
  · rintro ⟨h, -, hseen⟩
    exact ⟨h, Prod.mk_inj.1 hseen⟩
  · rintro ⟨h, hseen⟩
    exact ⟨h, by rw [h]; decide, Prod.mk_inj.2 hseen⟩

end Reported

theorem run_of_some {m : Svc Bool} {c c' : Client} {ok : Bool}
    (h : (do return some (← m) : Svc (Option Bool)).run c = .ok (some ok) c') : m.run c = .ok ok c' := by
  cases hr : m.run c with
  | error e c₁ =>
    rw [run_bind_error hr] at h
    cases h
  | ok b c₁ =>
    rw [run_bind_ok hr] at h
    cases h
    rfl

theorem listDirectory_reported {rounds : ℕ} {uri : List Byte} {cb ok : Bool} {c c' : Client}
    (hrun : (listDirectory rounds uri cb).run c = .ok (some ok) c') :
    Answered.Reported ⟨.listDirectory rounds uri cb, c, ok, c'⟩ ↔ Answered.Allowed ⟨.listDirectory rounds uri cb, c, ok, c'⟩ := by
  cases cb with
  | false =>
    have hfail : (.ok (some false) { c with lastError := errInvalidArg } : EStateM.Result Unit Client (Option Bool)) =
        .ok (some ok) c' := hrun
    cases hfail
    exact (reported_refused rfl rfl rfl).trans ⟨fun h _ => h, fun h => h rfl⟩
  | true =>
    have hpages : (listPages uri (BitVec.ofNat 16 uri.length) rounds 0).run (clearLast c) = .ok (some ok) c' := hrun
    refine iff_of_true ?_ fun h => absurd h (by decide)
    by_cases hlen : (BitVec.ofNat 16 uri.length).toNat + 6 > maxData
    · cases rounds with
      | zero => cases hpages
      | succ n =>
        rw [listPages, run_bind_ok (listPage_tooLarge 0 (clearLast c) hlen)] at hpages
        cases hpages
        have h : Described id errRequestTooLarge [] (clearLast c) false { clearLast c with lastError := errRequestTooLarge } :=
          ⟨(List.append_nil _).symm, rfl, rfl, rfl⟩
        exact reported_cleared h rfl
    · obtain ⟨qs, -, h⟩ := listPages_described rounds 0 (clearLast c) hlen hpages
      exact reported_cleared h rfl

theorem resolvePath_reported {baseUri arg : Option (List Byte)} {resolved display flagsOut ok : Bool}
    {resolvedCap displayCap : Word} {c c' : Client}
    (hrun : (resolvePath baseUri arg resolved resolvedCap display displayCap flagsOut).run c = .ok ok c') :
    Answered.Reported ⟨.resolvePath baseUri arg resolved resolvedCap display displayCap flagsOut, c, ok, c'⟩ ↔
      Answered.Allowed ⟨.resolvePath baseUri arg resolved resolvedCap display displayCap flagsOut, c, ok, c'⟩ := by
  cases baseUri with
  | none =>
    have hfail : (.ok false { c with lastError := errInvalidArg } : EStateM.Result Unit Client Bool) = .ok ok c' := hrun
    cases hfail
    exact (reported_refused rfl rfl rfl).trans ⟨fun h _ => h, fun h => h (.inl rfl)⟩
  | some baseUri =>
    by_cases hargs : resolved = false ∨ resolvedCap = 0
    · rw [resolvePath, if_pos hargs] at hrun
      cases hrun
      have hreason : ServiceCall.reason (.resolvePath (some baseUri) arg resolved resolvedCap display displayCap flagsOut) [] =
          errInvalidArg := if_pos (.inr hargs)
      exact (reported_refused rfl rfl hreason).trans ⟨fun h _ => h, fun h => h (.inr (hargs.imp_right .inl))⟩
    have hreason (rs : List Reply) :
        ServiceCall.reason (.resolvePath (some baseUri) arg resolved resolvedCap display displayCap flagsOut) rs =
          (rs.getLast?.map Reply.resolveError).getD errRequestTooLarge := if_neg (by simpa using hargs)
    obtain ⟨hres, hcap⟩ := not_or.1 hargs
    rw [Bool.not_eq_false] at hres
    cases hres
    by_cases hsum : (BitVec.ofNat 16 baseUri.length + BitVec.ofNat 16 (arg.getD []).length + 5).toNat > maxData
    · have hlarge := hsum
      rw [resolvePath, if_neg hargs] at hrun
      generalize arg.getD [] = a at hlarge hrun
      rw [if_pos hlarge] at hrun
      cases hrun
      exact (reported_refused rfl rfl (hreason [])).trans ⟨fun h _ => h, fun h => h (.inr (.inr (.inr hsum)))⟩
    · refine iff_of_true ?_ ?_
      · exact reported_cleared ((resolvePath_described display displayCap flagsOut c hcap hsum).ok hrun) (hreason _)
      · rintro (h | h | h | h)
        · cases h
        · cases h
        · exact absurd h hcap
        · exact absurd h hsum

theorem listMounts_reported {d : DiskErr} {start textCap : Word} {pointers ok : Bool} {c c' : Client}
    (hrun : (diskListMounts d start pointers textCap).run c = .ok ok c') :
    Answered.Reported ⟨.listMounts start pointers textCap, c, ok, c'⟩ ↔
      Answered.Allowed ⟨.listMounts start pointers textCap, c, ok, c'⟩ := by
  by_cases hacc : pointers = false ∨ textCap < 2
  · have hallowed : Answered.Allowed ⟨.listMounts start pointers textCap, c, ok, c'⟩ ↔
        c.lastError = errInvalidArg ∧ c.Unheard := by
      rw [Answered.Allowed]
      simp only [if_pos hacc]
    rw [diskListMounts, if_pos hacc] at hrun
    cases hrun
    exact (reported_silent rfl rfl rfl).trans hallowed.symm
  · have hallowed : Answered.Allowed ⟨.listMounts start pointers textCap, c, ok, c'⟩ ↔
        ((c.reply (DiskCall.listMounts start pointers textCap).request).result ≠ 0 → c.Unheard) ∧
          ((c.reply (DiskCall.listMounts start pointers textCap).request).result = 0 →
            (c.reply (DiskCall.listMounts start pointers textCap).request).status = statusOk →
            (DiskCall.listMounts start pointers textCap).Takes (c.reply (DiskCall.listMounts start pointers textCap).request) →
              c.lastError = errNone) := by
      rw [Answered.Allowed]
      simp only [if_neg hacc]
    have hd := (diskListMounts_described (d := d) rfl c hacc).ok hrun
    have hcalled := ((diskListMounts_wp d start textCap pointers c hacc).ok hrun).result
    rw [hallowed, reported_described (x := ⟨.listMounts start pointers textCap, c, ok, c'⟩) c rfl rfl hd rfl,
      replies_singleton]
    generalize DiskCall.listMounts start pointers textCap = call at hcalled ⊢
    change _ ↔ (c.answer (c.sent ++ [call.request])).result = 0 ∧ _ at hcalled
    cases ok with
    | true =>
      obtain ⟨hr, hs, ht⟩ := hcalled.1 rfl
      exact ⟨fun h => ⟨fun hne => absurd hr hne, fun _ _ _ => h⟩, fun h => h.2 hr hs ht⟩
    | false =>
      by_cases hr : (c.reply call.request).result = 0
      · refine iff_of_true ((lastSeen_back hr _).trans (lastSeen_back hr _).symm) ⟨fun hne => absurd hr hne, fun _ hs ht => ?_⟩
        exact absurd (hcalled.2 ⟨hr, hs, ht⟩) (by decide)
      · have hseen : lastSeen (c.lastStatus, c.lastResponseLen) [c.reply call.request] =
            lastSeen (0, 0) [c.reply call.request] ↔ c.Unheard := by
          rw [lastSeen_failed hr, lastSeen_failed hr]
          exact Prod.mk_inj
        exact hseen.trans ⟨fun h => ⟨fun _ => h, fun h0 => absurd h0 hr⟩, fun h => h.1 hr⟩

theorem restoreBoot_reported {d : DiskErr} {slot : Byte} {ok : Bool} {c c' : Client}
    (hrun : (diskRestoreBoot d slot).run c = .ok ok c') :
    Answered.Reported ⟨.restoreBoot slot, c, ok, c'⟩ ↔ Answered.Allowed ⟨.restoreBoot slot, c, ok, c'⟩ := by
  by_cases hacc : slot ≥ maxUnits
  · rw [diskRestoreBoot, if_pos hacc] at hrun
    cases hrun
    exact (reported_silent rfl rfl rfl).trans ⟨fun h _ => h, fun h => h hacc⟩
  · refine iff_of_true ?_ fun h => absurd h hacc
    exact reported_cleared ((diskRestoreBoot_described (d := d) rfl c hacc).ok hrun) rfl

/-- A call of a program runs from where the call before came back. -/
theorem answers_run {d : DiskErr} {calls : List ServiceCall} {c : Client} {x : Answered} (hx : x ∈ answers d calls c) :
    (x.call.exec d).run x.before = .ok (some x.ok) x.after := by
  induction calls generalizing c with
  | nil => cases hx
  | cons call calls ih =>
    rw [answers] at hx
    cases hr : (call.exec d).run c with
    | error e c' =>
      rw [hr] at hx
      cases hx
    | ok res c' =>
      rw [hr] at hx
      cases res with
      | none => cases hx
      | some ok =>
        rcases List.mem_cons.1 hx with rfl | hx
        · exact hr
        · exact ih hx

/-- After every call of every program that came back, the diagnostics describe it exactly
when no value of an earlier call was in the way. -/
theorem diagnostics_reported (d : DiskErr) (calls : List ServiceCall) (c : Client) :
    ∀ x ∈ answers d calls c, x.Reported ↔ x.Allowed := by
  rintro ⟨call, before, ok, after⟩ hx
  have hrun := answers_run hx
  cases call with
  | listDirectory rounds uri cb => exact listDirectory_reported hrun
  | resolvePath baseUri arg resolved resolvedCap display displayCap flagsOut =>
    exact resolvePath_reported (run_of_some hrun)
  | listMounts start pointers textCap => exact listMounts_reported (run_of_some hrun)
  | restoreBoot slot => exact restoreBoot_reported (run_of_some hrun)

/-! ### Three calls -/

/-- The first request is refused, the second gets no response, and the third gets a listing of no mounts. -/
def recovering (sent : List Request) : Reply :=
  if sent.length = 1 then ⟨0, 5, 2, fun _ => 0⟩
  else if sent.length = 2 then ⟨1, 0, 0, fun _ => 0⟩
  else replyBytes [diskVersion, 2, 0, 0, 0, 0, 0, 0, 0, 0]

def threeServiceCalls : List ServiceCall := [.restoreBoot 0, .listMounts 0 true 256, .listMounts 0 true 256]

/-- The second failure shows the status of the first, and the success shows the error of the second. -/
theorem stale_diagnostics : (Client.start diskErr recovering).lastError = errNone ∧
    (Client.start diskErr recovering).Unheard ∧
    (answers diskErr threeServiceCalls (.start diskErr recovering)).map
      (fun x => (x.ok, x.after.lastError, x.after.lastStatus, x.after.lastResponseLen)) =
        [(false, errStatus, 5, 2), (false, errTransport, 5, 2), (true, errTransport, 0, 10)] ∧
    ∃ x ∈ answers diskErr threeServiceCalls (.start diskErr recovering), ¬x.Reported := by
  have hmap : (answers diskErr threeServiceCalls (.start diskErr recovering)).map
      (fun x => (x.ok, x.after.lastError, x.after.lastStatus, x.after.lastResponseLen)) =
        [(false, errStatus, 5, 2), (false, errTransport, 5, 2), (true, errTransport, 0, 10)] := by decide +kernel
  refine ⟨rfl, ⟨rfl, rfl⟩, hmap, ?_⟩
  have hmem : (true, errTransport, 0, 10) ∈ (answers diskErr threeServiceCalls (.start diskErr recovering)).map
      (fun x => (x.ok, x.after.lastError, x.after.lastStatus, x.after.lastResponseLen)) := by
    rw [hmap]
    simp
  obtain ⟨x, hx, he⟩ := List.mem_map.1 hmem
  obtain ⟨hok, herr, -⟩ := Prod.mk.inj he |>.imp_right Prod.mk.inj
  refine ⟨x, hx, fun h => ?_⟩
  rw [Answered.Reported, if_pos hok] at h
  exact absurd (herr.symm.trans h) (by decide)

theorem diagnostics_reported_three : (answers diskErr threeServiceCalls (.start diskErr recovering)).length = 3 ∧
    ∀ x ∈ answers diskErr threeServiceCalls (.start diskErr recovering), x.Reported ↔ x.Allowed :=
  ⟨by decide +kernel, diagnostics_reported diskErr threeServiceCalls (.start diskErr recovering)⟩

end NioApps.Service
