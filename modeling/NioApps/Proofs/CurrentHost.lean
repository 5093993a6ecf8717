import NioApps.Sanity.Requests

/-! Responses that `host_get_current` of FHOST decodes. Its bound is the sum of both
lengths, cut to 16 bits; where it wraps and is passed, the path is not in the response. -/

namespace NioApps.Service

open Abort Commands

namespace Reply

variable (r : Reply)

def hostLen : ℕ := le (slice r.data 1 2)

def pathLen : ℕ := le (slice r.data 3 2)

/-- The host and the path lie in the response. -/
structure NamesHost : Prop where
  long : 5 ≤ r.length.toNat
  version : r.data 0 = hostVersion
  whole : 5 + r.hostLen + r.pathLen ≤ r.length.toNat

end Reply

/-- A call returned 1 exactly for a response with both strings, stored these, and read
nothing behind the response. -/
def HostDecodes (r : Reply) (hostCap pathCap : Word) (res : EStateM.Result Unit Client Bool) : Prop :=
  ∃ ok c', res = .ok ok c' ∧ c'.beyond = false ∧ (ok = true ↔ r.NamesHost) ∧
    (ok = true → c'.currentHost = slice r.data 5 (min r.hostLen (hostCap.toNat - 1)) ∧
      c'.currentPath = slice r.data (5 + r.hostLen) (min r.pathLen (pathCap.toNat - 1)))

section Response

variable {t : Target} {r : Reply} {c : Client} {hostCap pathCap : Word}

theorem hostDecodes_refused (hbeyond : c.beyond = false) (hr : ¬r.NamesHost) :
    HostDecodes r hostCap pathCap ((pure false : Svc Bool).run c) :=
  ⟨false, c, rfl, hbeyond, by simpa using hr, by simp⟩

/-- `host_get_current` from its first copy on. -/
def hostTail (t : Target) (hostLen pathLen hostCap pathCap : Word) : Svc Bool := do
  let copyLen := if hostLen ≥ hostCap then hostCap - 1 else hostLen
  let host ← get 5 copyLen.toNat
  modify fun c => { c with currentHost := host }
  let copyLen := if pathLen ≥ pathCap then pathCap - 1 else pathLen
  let path ← getAt ((5 + hostLen.toNat) % 2 ^ t.int) copyLen.toNat
  modify fun c => { c with currentPath := path }
  return true

theorem hostResponse_eq (t : Target) (respLen hostCap pathCap : Word) : hostResponse t respLen hostCap pathCap = (do
    if respLen < 5 then return false
    else if (← getByte 0) ≠ hostVersion then return false
    else
      let hostLen ← getU16 1
      let pathLen ← getU16 3
      if 5 + hostLen + pathLen > respLen then return false else hostTail t hostLen pathLen hostCap pathCap) := rfl

/-- Whatever the bound lets through, the call says that it succeeded. -/
theorem hostTail_true (hostLen pathLen : Word) :
    wp (hostTail t hostLen pathLen hostCap pathCap) (fun ok _ => ok = true) (fun _ => True) c := by
  rw [hostTail]
  refine wp.seq (Q := fun _ _ => True) ?_ fun host c₁ _ => ?_
  · exact wp_left.2 trivial
  · rw [wp_bind, wp_modify]
    refine wp.seq (Q := fun _ _ => True) ?_ fun path c₂ _ => ?_
    · exact wp_left.2 trivial
    · exact rfl

theorem two_pow_int_ge (t : Target) : 2 ^ 16 ≤ 2 ^ t.int := by
  cases t <;> decide

theorem hostTail_within (h : Loaded r c) (hhost : hostCap ≠ 0) (hpath : pathCap ≠ 0)
    (hfits : 5 + r.hostLen + r.pathLen ≤ r.length.toNat) :
    wp (hostTail t (BitVec.ofNat 16 r.hostLen) (BitVec.ofNat 16 r.pathLen) hostCap pathCap)
      (fun ok c' => ok = true ∧ c'.beyond = c.beyond ∧
        c'.currentHost = slice r.data 5 (min r.hostLen (hostCap.toNat - 1)) ∧
        c'.currentPath = slice r.data (5 + r.hostLen) (min r.pathLen (pathCap.toNat - 1)))
      (fun _ => False) c := by
  have hmax : r.length.toNat ≤ 512 := h.fits
  have hhostLen : (BitVec.ofNat 16 r.hostLen).toNat = r.hostLen := ofNat_le_slice _ _
  have hpathLen : (BitVec.ofNat 16 r.pathLen).toNat = r.pathLen := ofNat_le_slice _ _
  have hclip := clip_toNat hhost (BitVec.ofNat 16 r.hostLen)
  have hclip' := clip_toNat hpath (BitVec.ofNat 16 r.pathLen)
  have h5 : (5 : Word).toNat = 5 := rfl
  rw [hhostLen] at hclip
  rw [hpathLen] at hclip'
  have hindex : (5 + r.hostLen) % 2 ^ t.int = 5 + r.hostLen := by
    refine Nat.mod_eq_of_lt (Nat.lt_of_lt_of_le ?_ (two_pow_int_ge t))
    omega
  rw [hostTail, wp_bind, wp_of_ok (h.get (by rw [h5, hclip]; omega)), hclip, h5, wp_bind, wp_modify, hhostLen, hindex]
  dsimp only
  rw [hclip']
  have hstored : Loaded r { c with currentHost := slice r.data 5 (min r.hostLen (hostCap.toNat - 1)) } :=
    h.congr rfl rfl
  rw [wp_bind, wp_of_ok (hstored.getAt (by omega)), wp_bind, wp_modify]
  exact ⟨rfl, rfl, rfl, rfl⟩

theorem hostResponse_decodes (t : Target) (h : Loaded r c) (hbeyond : c.beyond = false) (hhost : hostCap ≠ 0)
    (hpath : pathCap ≠ 0) :
    HostDecodes r hostCap pathCap ((hostResponse t r.length hostCap pathCap).run c) ↔
      (5 ≤ r.length.toNat → r.data 0 = hostVersion → 2 ^ 16 ≤ 5 + r.hostLen + r.pathLen →
        r.length.toNat < (5 + r.hostLen + r.pathLen) % 2 ^ 16) := by
  rw [hostResponse_eq]
  by_cases hshort : r.length < 5
  · rw [if_pos hshort]
    have hlt : r.length.toNat < 5 := BitVec.lt_def.1 hshort
    exact iff_of_true (hostDecodes_refused hbeyond fun hr => absurd hr.long (Nat.not_le.2 hlt))
      fun hle => absurd hle (Nat.not_le.2 hlt)
  have hlong : 5 ≤ r.length.toNat := BitVec.le_def.1 (BitVec.not_lt.1 hshort)
  have h0 : (0 : Word).toNat + 1 ≤ r.length.toNat := Nat.le_trans (by decide) hlong
  have h1 : (1 : Word).toNat + 2 ≤ r.length.toNat := Nat.le_trans (by decide) hlong
  have h3 : (3 : Word).toNat + 2 ≤ r.length.toNat := Nat.le_trans (by decide) hlong
  rw [if_neg hshort, run_bind_ok (h.getByte h0)]
  by_cases hv : r.data (0 : Word).toNat ≠ hostVersion
  · rw [if_pos hv]
    exact iff_of_true (hostDecodes_refused hbeyond fun hr => hv hr.version) fun _ hv' => absurd hv' hv
  have hv' : r.data 0 = hostVersion := not_not.1 hv
  have hhostRead : le (slice r.data (1 : Word).toNat 2) = r.hostLen := rfl
  have hpathRead : le (slice r.data (3 : Word).toNat 2) = r.pathLen := rfl
  have hmax : r.length.toNat ≤ 512 := h.fits
  have hsum : ((5 : Word) + BitVec.ofNat 16 r.hostLen + BitVec.ofNat 16 r.pathLen).toNat =
      (5 + r.hostLen + r.pathLen) % 2 ^ 16 := by
    have hhostLen : (BitVec.ofNat 16 r.hostLen).toNat = r.hostLen := ofNat_le_slice _ _
    have hpathLen : (BitVec.ofNat 16 r.pathLen).toNat = r.pathLen := ofNat_le_slice _ _
    have h5 : (5 : Word).toNat = 5 := rfl
    rw [BitVec.toNat_add, BitVec.toNat_add, h5, hhostLen, hpathLen]
    omega
  rw [if_neg hv, run_bind_ok (h.getU16 h1), run_bind_ok (h.getU16 h3), hhostRead, hpathRead]
  by_cases hgt : (5 : Word) + BitVec.ofNat 16 r.hostLen + BitVec.ofNat 16 r.pathLen > r.length
  · rw [if_pos hgt]
    have hgt' : r.length.toNat < (5 + r.hostLen + r.pathLen) % 2 ^ 16 := hsum ▸ BitVec.lt_def.1 hgt
    refine iff_of_true (hostDecodes_refused hbeyond fun hr => ?_) fun _ _ _ => hgt'
    have := hr.whole
    omega
  · rw [if_neg hgt]
    have hle : (5 + r.hostLen + r.pathLen) % 2 ^ 16 ≤ r.length.toNat := hsum ▸ BitVec.le_def.1 (BitVec.not_lt.1 hgt)
    by_cases hwrap : 2 ^ 16 ≤ 5 + r.hostLen + r.pathLen
    · refine iff_of_false ?_ fun hcaught => absurd (hcaught hlong hv' hwrap) (Nat.not_lt.2 hle)
      rintro ⟨ok, c', hrun, -, hok, -⟩
      have := (hok.1 ((hostTail_true _ _).ok hrun)).whole
      omega
    · refine iff_of_true ?_ fun _ _ hw => absurd hw hwrap
      have hfits : 5 + r.hostLen + r.pathLen ≤ r.length.toNat := by omega
      obtain ⟨ok, c', hrun, hok, hb, hstrings⟩ := (hostTail_within (t := t) h hhost hpath hfits).returns
      exact ⟨ok, c', hrun, hb.trans hbeyond, iff_of_true hok ⟨hlong, hv', hfits⟩, fun _ => hstrings⟩

end Response

/-! ### The call -/

/-- The request of `host_get_current`. -/
def askingHost : Request := ⟨deviceHost, hostGetCurrentCommand, [hostVersion], 512⟩

/-- For every response with status OK: the call decodes it as the two lengths say exactly
when their sum does not wrap to one that is passed. -/
theorem current_host (t : Target) (hostCap pathCap : Word) (c : Client) (r : Reply) (hhost : hostCap ≠ 0)
    (hpath : pathCap ≠ 0) (hbeyond : c.beyond = false) (hr : c.reply askingHost = r) (hresult : r.result = 0)
    (hstatus : r.status = 0) (hlen : r.length.toNat ≤ maxData) :
    HostDecodes r hostCap pathCap ((hostGetCurrent t hostCap pathCap).run c) ↔
      (5 ≤ r.length.toNat → r.data 0 = hostVersion → 2 ^ 16 ≤ 5 + r.hostLen + r.pathLen →
        r.length.toNat < (5 + r.hostLen + r.pathLen) % 2 ^ 16) := by
  refine (wp_result (P := fun res => HostDecodes r hostCap pathCap res ↔ _)).1 ?_
  rw [hostGetCurrent]
  refine wp_ite (fun hcaps => ?_) fun _ => ?_
  · rcases hcaps with h | h
    · exact absurd h hhost
    · exact absurd h hpath
  rw [wp_bind, wp_modify]
  refine wp.seq ((Written.nil _).fit (by simp [maxData])) ?_
  intro off c₁ h₁
  have hbytes : slice c₁.reqBuf 0 off.toNat = [hostVersion] := by
    rw [h₁.off_eq, h₁.bytes]
    rfl
  have hreply : c₁.reply askingHost = r := (h₁.reply_eq askingHost).trans hr
  have hq : (⟨deviceHost, hostGetCurrentCommand, [hostVersion], 512⟩ : Request) = askingHost := rfl
  rw [wp_bind, wp_of_ok (nioCall_run (by rw [h₁.off_eq]; exact h₁.fits) (by decide) c₁), hbytes, hq, hreply, Reply.header,
    if_pos hresult]
  refine wp_ite (fun hs => absurd hstatus hs) fun _ => ?_
  refine (wp_result (P := fun res => HostDecodes r hostCap pathCap res ↔ _)).2 ?_
  exact hostResponse_decodes t (loaded_called hlen rfl hreply) (h₁.beyond_eq.trans hbeyond) hhost hpath

/-- The host `h:` and the path `/p`. -/
def shortHost : Reply := replyBytes [1, 2, 0, 2, 0, 0x68, 0x3a, 0x2f, 0x70]

theorem current_host_short : HostDecodes shortHost 512 512
    ((hostGetCurrent .atari 512 512).run (.start diskErr fun _ => shortHost)) :=
  (current_host .atari 512 512 (.start diskErr fun _ => shortHost) shortHost (by decide) (by decide) rfl rfl rfl rfl
    (by decide)).2 fun _ _ hwrap => absurd hwrap (by decide)

/-- Two lengths whose sum is 65536 with the five bytes before: the call returns 1, with a
path from behind the buffer. -/
def hugeHost : Reply := replyBytes [1, 0xf0, 0xff, 0x0b, 0]

theorem huge_host_passes : ¬HostDecodes hugeHost 512 512
    ((hostGetCurrent .linux 512 512).run (.start diskErr fun _ => hugeHost)) := by
  intro h
  have hcaught := (current_host .linux 512 512 (.start diskErr fun _ => hugeHost) hugeHost (by decide) (by decide) rfl rfl rfl
    rfl (by decide)).1 h (by decide) rfl (by decide)
  exact absurd hcaught (by decide)

end NioApps.Service
