import Mathlib.Data.List.TakeWhile
import NioApps.Proofs.CurrentHost
import NioApps.Proofs.ShellCalls
import NioApps.Spec.HostView

/-! The four calls of FHOST, with whatever the host device answers. -/

namespace NioApps.Service

open Abort

/-- A call with the request that was written. -/
theorem Written.call {α : Type} {c c' : Client} {bs : List Byte} {off : Word} (h : Written c bs off c') {device command : Byte}
    {capacity : Word} (hcap : capacity.toNat ≤ maxData) {f : Option (Byte × Word) → Svc α} {Q : α → Client → Prop}
    {E : Client → Prop} (hf : wp (f (c.reply ⟨device, command, bs, capacity⟩).header) Q E (c'.called ⟨device, command, bs, capacity⟩)) :
    wp (nioCall device command off capacity >>= f) Q E c' := by
  have hbytes : slice c'.reqBuf 0 off.toNat = bs := by rw [h.off_eq, h.bytes]
  rw [wp_bind, wp_of_ok (nioCall_run (by rw [h.off_eq]; exact h.fits) hcap c'), hbytes, h.reply_eq]
  exact hf

end NioApps.Service

namespace NioApps.Shell

open Abort Commands Service
open AppStore (ascii newline)

/-! ### The calls -/

/-- What a call of the host device leaves. -/
structure HostCalled (q : Request) (c c' : Client) : Prop where
  sent : c'.sent = c.sent ++ [q]
  answer : c'.answer = c.answer
  error : c'.lastDosError = (c.reply q).result

theorem HostCalled.of_written {q : Request} {c c₁ : Client} {bs : List Byte} {off : Word} (h : Written c bs off c₁) :
    HostCalled q c (c₁.called q) where
  sent := h.served_sent q
  answer := h.answer_eq
  error := congrArg Reply.result (h.reply_eq q)

/-- The end of a call that only asks whether it was granted. -/
def grantedTail : Option (Byte × Word) → Svc Bool
  | none => return false
  | some (status, respLen) =>
    if status = 0 ∧ respLen ≥ 1 then do return (← getByte 0) = hostVersion else return false

theorem granted_wp {q : Request} {c c₁ : Client} {bs : List Byte} {off : Word} (h : Written c bs off c₁)
    (hfits : (c.reply q).length.toNat ≤ maxData) (hq : q.capacity = 512) :
    wp (grantedTail (c.reply q).header) (fun ok c' => (ok = true ↔ Granted (c.reply q)) ∧ HostCalled q c c') (fun _ => False)
      (c₁.called q) := by
  have hcalled : HostCalled q c (c₁.called q) := .of_written h
  have hload : Loaded (c.reply q) (c₁.called q) := loaded_called hfits hq (h.reply_eq q)
  rw [Reply.header]
  by_cases hr : (c.reply q).result = 0
  · rw [if_pos hr, grantedTail]
    refine wp_ite (fun hok => ?_) fun hbad => ?_
    · have hone : (0 : Word).toNat + 1 ≤ (c.reply q).length.toNat := BitVec.le_def.1 hok.2
      rw [wp_bind, wp_of_ok (hload.getByte hone)]
      refine ⟨?_, hcalled⟩
      rw [decide_eq_true_iff]
      exact ⟨fun hv => ⟨hr, hok.1, hone, hv⟩, fun hg => hg.2.2.2⟩
    · refine ⟨iff_of_false (by decide) fun hg => hbad ⟨hg.2.1, ?_⟩, hcalled⟩
      exact BitVec.le_def.2 hg.2.2.1
  · rw [if_neg hr, grantedTail]
    exact ⟨iff_of_false (by decide) fun hg => hr hg.1, hcalled⟩

theorem hostIndexCommand_wp {c : Client} (command index : Byte)
    (hfits : (c.reply (hostRequest command [index])).length.toNat ≤ maxData) :
    wp (hostIndexCommand command index)
      (fun ok c' => (ok = true ↔ Granted (c.reply (hostRequest command [index]))) ∧ HostCalled (hostRequest command [index]) c c')
      (fun _ => False) c := by
  rw [hostIndexCommand]
  refine (Written.nil c).nextFit (by decide) fun off c₁ h₁ => h₁.nextFit (by simp [maxData]) fun off c₂ h₂ => ?_
  exact h₂.call (by decide) (granted_wp h₂ hfits rfl)

theorem hostSetCurrent_wp {c : Client} {uri : List Byte} (huri : uri.length ≤ 509)
    (hfits : (c.reply (setRequest uri)).length.toNat ≤ maxData) :
    wp (hostSetCurrent uri) (fun ok c' => (ok = true ↔ Granted (c.reply (setRequest uri))) ∧ HostCalled (setRequest uri) c c')
      (fun _ => False) c := by
  have hlen : (BitVec.ofNat 16 uri.length).toNat = uri.length := by
    rw [BitVec.toNat_ofNat]
    omega
  rw [hostSetCurrent]
  refine (Written.nil c).nextFit (by decide) fun off c₁ h₁ => h₁.nextFit (by simp [u16le, maxData]) fun off c₂ h₂ => ?_
  have hoff : off.toNat = 3 := h₂.off_eq
  refine wp_ite (fun hlarge => ?_) fun _ => ?_
  · rw [hoff, hlen, maxData] at hlarge
    omega
  · rw [hlen, List.take_length]
    refine h₂.nextFit ?_ fun off c₃ h₃ => ?_
    · rw [List.length_append, maxData]
      change 3 + uri.length ≤ 512
      omega
    · exact h₃.call (by decide) (granted_wp h₃ hfits rfl)

/-- A URI that does not fit is refused before anything is sent. -/
theorem hostSetCurrent_long {c : Client} {uri : List Byte} (hlong : 509 < uri.length) (hlt : uri.length < 2 ^ 16) :
    wp (hostSetCurrent uri) (fun ok c' => ok = false ∧ c'.sent = c.sent ∧ c'.answer = c.answer) (fun _ => False) c := by
  have hlen : (BitVec.ofNat 16 uri.length).toNat = uri.length := by
    rw [BitVec.toNat_ofNat]
    omega
  rw [hostSetCurrent]
  refine (Written.nil c).nextFit (by decide) fun off c₁ h₁ => h₁.nextFit (by simp [u16le, maxData]) fun off c₂ h₂ => ?_
  have hoff : off.toNat = 3 := h₂.off_eq
  refine wp_ite (fun _ => ⟨rfl, by rw [h₂.frame], by rw [h₂.frame]⟩) fun hfits => ?_
  rw [hoff, hlen, maxData] at hfits
  omega

/-! ### What is read -/

theorem cstr_eq {bs : List Byte} (h : 0 ∉ bs) : cstr bs = bs := by
  rw [cstr, List.takeWhile_eq_self_iff]
  intro b hb
  have hne : b ≠ 0 := fun h0 => h (h0 ▸ hb)
  simpa using hne

theorem hostResponse_current {t : Target} {r : Reply} {v : HostView} {c : Client} (hcur : IsCurrent r v) (h : Loaded r c) :
    (hostResponse t r.length 512 512).run c = .ok true { c with currentHost := v.host, currentPath := v.path } := by
  have hmax : r.length.toNat ≤ 512 := h.fits
  have hlength := hcur.length
  have hhost : (BitVec.ofNat 16 v.host.length).toNat = v.host.length := by
    rw [BitVec.toNat_ofNat]
    omega
  have hpath : (BitVec.ofNat 16 v.path.length).toNat = v.path.length := by
    rw [BitVec.toNat_ofNat]
    omega
  have hshort : ¬ r.length < 5 := BitVec.not_lt.2 (BitVec.le_def.2 (by change 5 ≤ r.length.toNat; omega))
  have h0 : (0 : Word).toNat + 1 ≤ r.length.toNat := by change 1 ≤ r.length.toNat; omega
  have h1 : (1 : Word).toNat + 2 ≤ r.length.toNat := by change 3 ≤ r.length.toNat; omega
  have h3 : (3 : Word).toNat + 2 ≤ r.length.toNat := by change 5 ≤ r.length.toNat; omega
  have hversion : ¬ r.data (0 : Word).toNat ≠ hostVersion := not_not.2 hcur.version
  have hhostRead : le (slice r.data (1 : Word).toNat 2) = v.host.length := hcur.hostLen
  have hpathRead : le (slice r.data (3 : Word).toNat 2) = v.path.length := hcur.pathLen
  have hwhole : ¬ (5 : Word) + BitVec.ofNat 16 v.host.length + BitVec.ofNat 16 v.path.length > r.length := by
    rw [gt_iff_lt, BitVec.lt_def, BitVec.toNat_add, BitVec.toNat_add, hhost, hpath]
    change ¬ r.length.toNat < ((5 + v.host.length) % 2 ^ 16 + v.path.length) % 2 ^ 16
    omega
  rw [hostResponse_eq, if_neg hshort, run_bind_ok (h.getByte h0), if_neg hversion, run_bind_ok (h.getU16 h1),
    run_bind_ok (h.getU16 h3), hhostRead, hpathRead, if_neg hwhole, hostTail]
  have hkeep : ∀ n < 512, ¬ BitVec.ofNat 16 n ≥ (512 : Word) := by
    intro n hn
    rw [ge_iff_le, BitVec.le_def, BitVec.toNat_ofNat]
    change ¬ 512 ≤ n % 2 ^ 16
    omega
  rw [if_neg (hkeep v.host.length (by omega)), if_neg (hkeep v.path.length (by omega)), hhost]
  have hhostIn : (5 : Word).toNat + v.host.length ≤ r.length.toNat := by change 5 + _ ≤ _; omega
  have hindex : (5 + v.host.length) % 2 ^ t.int = 5 + v.host.length :=
    Nat.mod_eq_of_lt (lt_of_lt_of_le (by omega) (two_pow_int_ge t))
  have hgot : slice r.data (5 : Word).toNat v.host.length = v.host := hcur.host
  have hstored : Loaded r { c with currentHost := v.host } := h.congr rfl rfl
  rw [run_bind_ok (h.get hhostIn), hgot, hindex]
  change (do
    let path ← getAt (5 + v.host.length) (BitVec.ofNat 16 v.path.length).toNat
    modify fun c => { c with currentPath := path }
    return true : Svc Bool).run { c with currentHost := v.host } = _
  rw [hpath, run_bind_ok (hstored.getAt hlength), hcur.path]
  rfl

/-- `host_get_current` from the call on. -/
def currentTail (t : Target) : Option (Byte × Word) → Svc Bool
  | none => return false
  | some (status, respLen) => if status ≠ 0 then return false else hostResponse t respLen 512 512

/-- What `host_get_current` returned: the current host, or no success and whether the call came back. -/
structure ReadsCurrent (v : HostView) (c : Client) (ok : Bool) (c' : Client) : Prop where
  called : HostCalled getRequest c c'
  result : ok = true ↔ (c.reply getRequest).result = 0 ∧ (c.reply getRequest).status = 0
  read : ok = true → cstr c'.currentHost = v.host ∧ cstr c'.currentPath = v.path

theorem currentTail_wp {t : Target} {v : HostView} {c c₁ : Client} (hcalled : HostCalled getRequest c c₁)
    (hload : Loaded (c.reply getRequest) c₁)
    (hcur : (c.reply getRequest).result = 0 → (c.reply getRequest).status = 0 → IsCurrent (c.reply getRequest) v) :
    wp (currentTail t (c.reply getRequest).header) (ReadsCurrent v c) (fun _ => False) c₁ := by
  rw [Reply.header]
  by_cases hr : (c.reply getRequest).result = 0
  · rw [if_pos hr, currentTail]
    refine wp_ite (fun hs => ?_) fun hs => ?_
    · exact ⟨hcalled, iff_of_false (by decide) fun h => hs h.2, fun h => absurd h Bool.false_ne_true⟩
    · have hs := not_not.1 hs
      have hcur := hcur hr hs
      rw [wp_of_ok (hostResponse_current hcur hload)]
      exact ⟨⟨hcalled.sent, hcalled.answer, hcalled.error⟩, iff_of_true rfl ⟨hr, hs⟩,
        fun _ => ⟨cstr_eq hcur.plain.1, cstr_eq hcur.plain.2⟩⟩
  · rw [if_neg hr, currentTail]
    exact ⟨hcalled, iff_of_false (by decide) fun h => hr h.1, fun h => absurd h Bool.false_ne_true⟩

theorem hostGetCurrent_wp {t : Target} {v : HostView} {c : Client} (hfits : (c.reply getRequest).length.toNat ≤ maxData)
    (hcur : (c.reply getRequest).result = 0 → (c.reply getRequest).status = 0 → IsCurrent (c.reply getRequest) v) :
    wp (hostGetCurrent t 512 512) (ReadsCurrent v c) (fun _ => False) c := by
  rw [hostGetCurrent, if_neg (by decide), wp_bind, wp_modify]
  refine (Written.nil _).nextFit (by decide) fun off c₁ h₁ => ?_
  have h := HostCalled.of_written (q := getRequest) h₁
  have hcalled : HostCalled getRequest c (c₁.called getRequest) := ⟨h.sent, h.answer, h.error⟩
  have hload : Loaded (c.reply getRequest) (c₁.called getRequest) := loaded_called hfits rfl (h₁.reply_eq getRequest)
  exact h₁.call (by decide) (currentTail_wp hcalled hload hcur)

/-! ### The history -/

theorem historyResponse_text {r : Reply} {text : List Byte} {c : Client} (htext : IsHistory r text) (h : Loaded r c) :
    (historyResponse r.length 512).run c = .ok (some text) c := by
  have hmax : r.length.toNat ≤ 512 := h.fits
  have hlength := htext.length
  have hlen : (BitVec.ofNat 16 text.length).toNat = text.length := by
    rw [BitVec.toNat_ofNat]
    omega
  have hshort : ¬ r.length < 6 := BitVec.not_lt.2 (BitVec.le_def.2 (by change 6 ≤ r.length.toNat; omega))
  have h0 : (0 : Word).toNat + 1 ≤ r.length.toNat := by change 1 ≤ r.length.toNat; omega
  have h4 : (4 : Word).toNat + 2 ≤ r.length.toNat := by change 6 ≤ r.length.toNat; omega
  have hversion : ¬ r.data (0 : Word).toNat ≠ hostVersion := not_not.2 htext.version
  have htextRead : le (slice r.data (4 : Word).toNat 2) = text.length := htext.textLen
  have hkeep : ¬ BitVec.ofNat 16 text.length ≥ (512 : Word) := by
    rw [ge_iff_le, BitVec.le_def, hlen]
    change ¬ 512 ≤ text.length
    omega
  have hwhole : ¬ (6 : Word) + BitVec.ofNat 16 text.length > r.length := by
    rw [gt_iff_lt, BitVec.lt_def, BitVec.toNat_add, hlen]
    change ¬ r.length.toNat < (6 + text.length) % 2 ^ 16
    omega
  have hin : (6 : Word).toNat + text.length ≤ r.length.toNat := hlength
  have hgot : slice r.data (6 : Word).toNat text.length = text := htext.bytes
  rw [historyResponse, if_neg hshort, run_bind_ok (h.getByte h0), if_neg hversion, run_bind_ok (h.getU16 h4), htextRead]
  dsimp only
  rw [if_neg hkeep, if_neg hwhole, hlen, run_bind_ok (h.get hin), hgot]
  rfl

/-- `host_list_history` from the call on. -/
def historyTail : Option (Byte × Word) → Svc (Option (List Byte))
  | none => return none
  | some (status, respLen) => if status ≠ 0 then return none else historyResponse respLen 512

/-- What `host_list_history` returned. -/
structure ReadsHistory (text : List Byte) (c : Client) (o : Option (List Byte)) (c' : Client) : Prop where
  called : HostCalled historyRequest c c'
  result : o = if (c.reply historyRequest).result = 0 ∧ (c.reply historyRequest).status = 0 then some text else none
  plain : o = some text → 0 ∉ text

theorem historyTail_wp {text : List Byte} {c c₁ : Client} (hcalled : HostCalled historyRequest c c₁)
    (hload : Loaded (c.reply historyRequest) c₁)
    (htext : (c.reply historyRequest).result = 0 → (c.reply historyRequest).status = 0 → IsHistory (c.reply historyRequest) text) :
    wp (historyTail (c.reply historyRequest).header) (ReadsHistory text c) (fun _ => False) c₁ := by
  rw [Reply.header]
  by_cases hr : (c.reply historyRequest).result = 0
  · rw [if_pos hr, historyTail]
    refine wp_ite (fun hs => ⟨hcalled, (if_neg fun h => hs h.2).symm, fun h => absurd h.symm (Option.some_ne_none text)⟩) fun hs => ?_
    have hs := not_not.1 hs
    have htext := htext hr hs
    rw [wp_of_ok (historyResponse_text htext hload)]
    exact ⟨hcalled, (if_pos ⟨hr, hs⟩).symm, fun _ => htext.plain⟩
  · rw [if_neg hr, historyTail]
    exact ⟨hcalled, (if_neg fun h => hr h.1).symm, fun h => absurd h.symm (Option.some_ne_none text)⟩

theorem hostListHistory_wp {text : List Byte} {c : Client} (hfits : (c.reply historyRequest).length.toNat ≤ maxData)
    (htext : (c.reply historyRequest).result = 0 → (c.reply historyRequest).status = 0 → IsHistory (c.reply historyRequest) text) :
    wp (hostListHistory 512) (ReadsHistory text c) (fun _ => False) c := by
  rw [hostListHistory, if_neg (by decide)]
  refine (Written.nil c).nextFit (by decide) fun off c₁ h₁ => h₁.nextFit (by decide) fun off c₂ h₂ => ?_
  refine h₂.nextFit (by decide) fun off c₃ h₃ => ?_
  exact h₃.call (by decide) (historyTail_wp (.of_written h₃) (loaded_called hfits rfl (h₃.reply_eq historyRequest)) htext)

end NioApps.Shell
