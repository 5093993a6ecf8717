import NioApps.Sanity.Requests

/-! Responses that `fnsvc_resolve_path` decodes. Each bound is a sum cut to 16 bits, so a
length near 65535 can pass: then a URI or a display path is taken from behind the response. -/

namespace NioApps.Service

open Abort

namespace Reply

variable (r : Reply)

/-- The two lengths of a resolved path. -/
def uriLen : ℕ := le (slice r.data 4 2)

def displayLen : ℕ := le (slice r.data (6 + r.uriLen) 2)

/-- Both strings lie in the response. -/
structure Resolved : Prop where
  long : 8 ≤ r.length.toNat
  version : r.data 0 = fileVersion
  uri : 6 + r.uriLen + 2 ≤ r.length.toNat
  display : 8 + r.uriLen + r.displayLen ≤ r.length.toNat

/-- A bound that wraps is not passed. When the first one wraps it always is, and the bytes
that are taken for the display length have to make up for it. -/
structure WrapsCaught (resolvedCap : Word) : Prop where
  display : 8 + r.uriLen ≤ r.length.toNat → 2 ^ 16 ≤ 8 + r.uriLen + r.displayLen →
    r.length.toNat < 8 + r.uriLen + r.displayLen - 2 ^ 16
  uri : 2 ^ 16 ≤ 8 + r.uriLen → 2 ^ 16 ≤ 6 + r.uriLen ∧ 6 + min r.uriLen (resolvedCap.toNat - 1) ≤ r.length.toNat ∧
    r.length.toNat < (8 + r.uriLen - 2 ^ 16 + le (slice r.data (6 + r.uriLen - 2 ^ 16) 2)) % 2 ^ 16

end Reply

/-- A call returned 1 exactly for a response with both strings, stored these, and read
nothing behind the response. -/
def Decodes (r : Reply) (resolvedCap : Word) (display : Bool) (displayCap : Word) (res : EStateM.Result Unit Client Bool) :
    Prop :=
  ∃ ok c', res = .ok ok c' ∧ c'.beyond = false ∧ (ok = true ↔ r.Resolved) ∧
    (ok = true → c'.resolvedUri = slice r.data 6 (min r.uriLen (resolvedCap.toNat - 1)) ∧
      (display = true → displayCap ≠ 0 →
        c'.displayPath = slice r.data (8 + r.uriLen) (min r.displayLen (displayCap.toNat - 1))))

/-! ### The display path -/

/-- `fnsvc_resolve_path` from its last bound on. -/
def displayTail (off len : Word) (display : Bool) (displayCap : Word) (flags : Byte) (flagsOut : Bool) : Svc Bool := do
  if display = true ∧ displayCap > 0 then
    let copyLen := if len ≥ displayCap then displayCap - 1 else len
    let path ← get off copyLen.toNat
    modify fun c => { c with displayPath := path }
  if flagsOut then modify fun c => { c with resolvedFlags := flags }
  return true

/-- `fnsvc_resolve_path` from the URI on. -/
def uriTail (respLen len resolvedCap : Word) (display : Bool) (displayCap : Word) (flags : Byte) (flagsOut : Bool) :
    Svc Bool := do
  let copyLen := if len ≥ resolvedCap then resolvedCap - 1 else len
  let uri ← get 6 copyLen.toNat
  modify fun c => { c with resolvedUri := uri }
  let rest ← getU16 (6 + len)
  if 6 + len + 2 + rest > respLen then fail errShortResponse
  else displayTail (6 + len + 2) rest display displayCap flags flagsOut

theorem resolveResponse_eq (respLen resolvedCap : Word) (display : Bool) (displayCap : Word) (flagsOut : Bool) :
    resolveResponse respLen resolvedCap display displayCap flagsOut = (do
      if respLen < 8 then fail errBadVersion
      else if (← getByte 0) ≠ fileVersion then fail errBadVersion
      else
        let flags ← getByte 1
        let len ← getU16 4
        if 6 + len + 2 > respLen then fail errShortResponse
        else uriTail respLen len resolvedCap display displayCap flags flagsOut) := rfl

section Tail

variable {r : Reply} {c : Client} (off len displayCap : Word) (display flagsOut : Bool) (flags : Byte)

/-- Whatever the bounds let through, the call says that it succeeded. -/
theorem displayTail_true : wp (displayTail off len display displayCap flags flagsOut) (fun ok _ => ok = true)
    (fun _ => True) c := by
  rw [displayTail]
  refine wp_ite (fun _ => ?_) fun _ => wp_ite (fun _ => rfl) fun _ => rfl
  by_cases hget : off.toNat + (if len ≥ displayCap then displayCap - 1 else len).toNat ≤ maxData
  · rw [wp_bind, wp_of_ok (get_run hget c), wp_bind, wp_modify]
    exact wp_ite (fun _ => rfl) fun _ => rfl
  · rw [wp_bind, wp, get_outside hget]
    trivial

theorem displayTail_within (h : Loaded r c) (hoff : off.toNat + len.toNat ≤ r.length.toNat) :
    wp (displayTail off len display displayCap flags flagsOut)
      (fun ok c' => ok = true ∧ c'.beyond = c.beyond ∧ c'.resolvedUri = c.resolvedUri ∧
        (display = true → displayCap ≠ 0 → c'.displayPath = slice r.data off.toNat (min len.toNat (displayCap.toNat - 1))))
      (fun _ => False) c := by
  rw [displayTail]
  refine wp_ite (fun hd => ?_) fun hd => ?_
  · have hcap : displayCap ≠ 0 := (BitVec.pos_iff_ne_zero _).1 hd.2
    have hclip := clip_toNat hcap len
    have hget : off.toNat + (if len ≥ displayCap then displayCap - 1 else len).toNat ≤ r.length.toNat := by omega
    rw [wp_bind, wp_of_ok (h.get hget), wp_bind, wp_modify, hclip]
    exact wp_ite (fun _ => ⟨rfl, rfl, rfl, fun _ _ => rfl⟩) fun _ => ⟨rfl, rfl, rfl, fun _ _ => rfl⟩
  · have hnone : display = true → displayCap ≠ 0 → False := fun hdis hcap =>
      hd ⟨hdis, (BitVec.pos_iff_ne_zero _).2 hcap⟩
    refine wp_ite (fun _ => ⟨rfl, rfl, rfl, ?_⟩) fun _ => ⟨rfl, rfl, rfl, ?_⟩
    · exact fun hdis hcap => (hnone hdis hcap).elim
    · exact fun hdis hcap => (hnone hdis hcap).elim

end Tail

/-! ### Reads behind the response -/

/-- A read behind the response is not forgotten. -/
def Sticky (c c' : Client) : Prop := c.beyond = true → c'.beyond = true

instance : IsPreorder Client Sticky where
  refl _ := id
  trans _ _ _ h h' := h' ∘ h

theorem sticky_readable : Readable Sticky where
  beyond _ _ := rfl
  name _ _ := id
  fault _ _ _ := id

theorem displayTail_sticky (off len : Word) (display : Bool) (displayCap : Word) (flags : Byte) (flagsOut : Bool) :
    Keeps Sticky (displayTail off len display displayCap flags flagsOut) := by
  have hend : Keeps Sticky (do
      if flagsOut then modify fun c => { c with resolvedFlags := flags }
      return true : Svc Bool) :=
    Keeps.ite (fun _ => (Keeps.modify fun _ => id).bind fun _ => Keeps.pure _) fun _ => Keeps.pure _
  exact Keeps.ite (fun _ => (sticky_readable.get _ _).bind fun _ => (Keeps.modify fun _ => id).bind fun _ => hend) fun _ => hend

/-- More than the response holds is asked for. -/
theorem get_beyond {off : Word} {n : ℕ} {c : Client} {α : Type} {f : List Byte → Svc α} (hn : n ≠ 0)
    (h : c.respEnd < off.toNat + n) (hf : ∀ bs, Keeps Sticky (f bs)) :
    wp (get off n >>= f) (fun _ c' => c'.beyond = true) (fun _ => True) c := by
  rw [wp_bind]
  by_cases hget : off.toNat + n ≤ maxData
  · have hlook : (look off.toNat n c).beyond = true := by
      rw [look, if_neg (by omega)]
    rw [wp_of_ok (get_run hget c)]
    exact (wp_left.2 (hf _ _ hlook)).mono (fun _ _ => id) fun _ _ => trivial
  · rw [wp, get_outside hget]
    trivial

/-! ### The bounds -/

section Bounds

variable {r : Reply} {c : Client} {resolvedCap displayCap : Word} {display flagsOut : Bool} {flags : Byte}

theorem decodes_fail (error : Byte) (hbeyond : c.beyond = false) :
    Decodes r resolvedCap display displayCap ((fail error).run c) ↔ ¬r.Resolved := by
  rw [fail_run]
  constructor
  · rintro ⟨ok, c', h, -, hok, -⟩
    cases h
    exact fun hr => absurd (hok.2 hr) (by decide)
  · exact fun hr => ⟨false, _, rfl, hbeyond, by simpa using hr, by simp⟩

theorem not_decodes_of_true {m : Svc Bool} (h : wp m (fun ok _ => ok = true) (fun _ => True) c) (hr : ¬r.Resolved) :
    ¬Decodes r resolvedCap display displayCap (m.run c) := by
  rintro ⟨ok, c', hrun, -, hok, -⟩
  exact hr (hok.1 (h.ok hrun))

theorem not_decodes_of_beyond {m : Svc Bool} (h : wp m (fun _ c' => c'.beyond = true) (fun _ => True) c) :
    ¬Decodes r resolvedCap display displayCap (m.run c) := by
  rintro ⟨ok, c', hrun, hbeyond, -⟩
  exact absurd ((h.ok hrun).symm.trans hbeyond) (by decide)

variable (displayCap display flagsOut flags) in
/-- The bytes taken for the display length are in the response. -/
theorem uriTail_run (h : Loaded r c) (hcap : resolvedCap ≠ 0)
    (hcopy : 6 + min r.uriLen (resolvedCap.toNat - 1) ≤ r.length.toNat)
    (hoff : ((6 : Word) + BitVec.ofNat 16 r.uriLen).toNat + 2 ≤ r.length.toNat) :
    ∃ c₁, Loaded r c₁ ∧ c₁.beyond = c.beyond ∧
      c₁.resolvedUri = slice r.data 6 (min r.uriLen (resolvedCap.toNat - 1)) ∧
      (uriTail r.length (BitVec.ofNat 16 r.uriLen) resolvedCap display displayCap flags flagsOut).run c =
        (if 6 + BitVec.ofNat 16 r.uriLen + 2 +
            BitVec.ofNat 16 (le (slice r.data ((6 : Word) + BitVec.ofNat 16 r.uriLen).toNat 2)) > r.length then
          fail errShortResponse
        else displayTail (6 + BitVec.ofNat 16 r.uriLen + 2)
          (BitVec.ofNat 16 (le (slice r.data ((6 : Word) + BitVec.ofNat 16 r.uriLen).toNat 2))) display displayCap flags
          flagsOut).run c₁ := by
  have hlen : (BitVec.ofNat 16 r.uriLen).toNat = r.uriLen := ofNat_le_slice _ _
  have hclip := clip_toNat hcap (BitVec.ofNat 16 r.uriLen)
  have h6 : (6 : Word).toNat = 6 := rfl
  rw [hlen] at hclip
  have hstored : Loaded r { c with resolvedUri := slice r.data 6 (min r.uriLen (resolvedCap.toNat - 1)) } :=
    h.congr rfl rfl
  refine ⟨_, hstored, rfl, rfl, ?_⟩
  rw [uriTail, run_bind_ok (h.get (by rw [h6, hclip]; exact hcopy)), hclip, h6]
  exact run_bind_ok (hstored.getU16 hoff)

theorem toNat_add_eq (a b : Word) : (a + b).toNat = (a.toNat + b.toNat) % 2 ^ 16 := BitVec.toNat_add a b

/-- The URI is in the response: only the second bound can wrap. -/
theorem uriTail_fits (h : Loaded r c) (hbeyond : c.beyond = false) (hcap : resolvedCap ≠ 0)
    (hlong : 8 ≤ r.length.toNat) (hv : r.data 0 = fileVersion) (hfits : 8 + r.uriLen ≤ r.length.toNat) :
    Decodes r resolvedCap display displayCap
        ((uriTail r.length (BitVec.ofNat 16 r.uriLen) resolvedCap display displayCap flags flagsOut).run c) ↔
      (2 ^ 16 ≤ 8 + r.uriLen + r.displayLen → r.length.toNat < 8 + r.uriLen + r.displayLen - 2 ^ 16) := by
  have hmax : r.length.toNat ≤ 512 := h.fits
  have hlt : r.displayLen < 2 ^ 16 := le_slice_lt _ _
  have h6 : (6 : Word).toNat = 6 := rfl
  have h2 : (2 : Word).toNat = 2 := rfl
  have hlen : (BitVec.ofNat 16 r.uriLen).toNat = r.uriLen := ofNat_le_slice _ _
  have hoff : ((6 : Word) + BitVec.ofNat 16 r.uriLen).toNat = 6 + r.uriLen := by
    rw [toNat_add_eq, h6, hlen]
    omega
  have hoff' : ((6 : Word) + BitVec.ofNat 16 r.uriLen + 2).toNat = 8 + r.uriLen := by
    rw [toNat_add_eq, hoff, h2]
    omega
  obtain ⟨c₁, h₁, hb₁, huri₁, hrun₁⟩ := uriTail_run displayCap display flagsOut flags h hcap (by omega)
    (by rw [hoff]; omega)
  rw [hrun₁, hoff]
  rw [hbeyond] at hb₁
  have hdisplay : (BitVec.ofNat 16 (le (slice r.data (6 + r.uriLen) 2))).toNat = r.displayLen := ofNat_le_slice _ _
  have hsum : ((6 : Word) + BitVec.ofNat 16 r.uriLen + 2 + BitVec.ofNat 16 (le (slice r.data (6 + r.uriLen) 2))).toNat =
      (8 + r.uriLen + r.displayLen) % 2 ^ 16 := by
    rw [toNat_add_eq, hoff', hdisplay]
  by_cases hgt : (6 : Word) + BitVec.ofNat 16 r.uriLen + 2 + BitVec.ofNat 16 (le (slice r.data (6 + r.uriLen) 2)) > r.length
  · rw [if_pos hgt]
    refine (decodes_fail errShortResponse hb₁).trans ?_
    have hgt' : r.length.toNat < (8 + r.uriLen + r.displayLen) % 2 ^ 16 := hsum ▸ BitVec.lt_def.1 hgt
    exact iff_of_true (fun hr => by have := hr.display; omega) fun _ => by omega
  · rw [if_neg hgt]
    have hle : (8 + r.uriLen + r.displayLen) % 2 ^ 16 ≤ r.length.toNat := hsum ▸ BitVec.le_def.1 (BitVec.not_lt.1 hgt)
    by_cases hwrap : 2 ^ 16 ≤ 8 + r.uriLen + r.displayLen
    · have hnot : ¬r.Resolved := fun hr => by have := hr.display; omega
      exact iff_of_false (not_decodes_of_true (displayTail_true ..) hnot) fun hcaught => by have := hcaught hwrap; omega
    · refine iff_of_true ?_ fun hw => absurd hw hwrap
      have hroom : ((6 : Word) + BitVec.ofNat 16 r.uriLen + 2).toNat +
          (BitVec.ofNat 16 (le (slice r.data (6 + r.uriLen) 2))).toNat ≤ r.length.toNat := by
        rw [hoff', hdisplay]
        omega
      obtain ⟨ok, c', hrun, hok, hb, huri, hpath⟩ := (displayTail_within _ _ displayCap display flagsOut flags h₁ hroom).returns
      have hr : r.Resolved := ⟨hlong, hv, by omega, by omega⟩
      rw [hoff', hdisplay] at hpath
      exact ⟨ok, c', hrun, hb.trans hb₁, iff_of_true hok hr, fun _ => ⟨huri.trans huri₁, hpath⟩⟩

/-- The first bound wraps, and is passed. -/
theorem uriTail_wraps (h : Loaded r c) (hbeyond : c.beyond = false) (hcap : resolvedCap ≠ 0)
    (hlong : 8 ≤ r.length.toNat) (hwrap : 2 ^ 16 ≤ 8 + r.uriLen) :
    Decodes r resolvedCap display displayCap
        ((uriTail r.length (BitVec.ofNat 16 r.uriLen) resolvedCap display displayCap flags flagsOut).run c) ↔
      2 ^ 16 ≤ 6 + r.uriLen ∧ 6 + min r.uriLen (resolvedCap.toNat - 1) ≤ r.length.toNat ∧
        r.length.toNat < (8 + r.uriLen - 2 ^ 16 + le (slice r.data (6 + r.uriLen - 2 ^ 16) 2)) % 2 ^ 16 := by
  have hmax : r.length.toNat ≤ 512 := h.fits
  have hlt : r.uriLen < 2 ^ 16 := le_slice_lt _ _
  have hlen : (BitVec.ofNat 16 r.uriLen).toNat = r.uriLen := ofNat_le_slice _ _
  have h6 : (6 : Word).toNat = 6 := rfl
  have h2 : (2 : Word).toNat = 2 := rfl
  have hoff : ((6 : Word) + BitVec.ofNat 16 r.uriLen).toNat = (6 + r.uriLen) % 2 ^ 16 := by
    rw [toNat_add_eq, h6, hlen]
  have hnot : ¬r.Resolved := fun hr => by have := hr.uri; omega
  have hclip := clip_toNat hcap (BitVec.ofNat 16 r.uriLen)
  rw [hlen] at hclip
  by_cases hcopy : 6 + min r.uriLen (resolvedCap.toNat - 1) ≤ r.length.toNat
  · by_cases hsecond : 2 ^ 16 ≤ 6 + r.uriLen
    · -- the display length comes from the first bytes of the response
      have hoff₁ : (6 + r.uriLen) % 2 ^ 16 = 6 + r.uriLen - 2 ^ 16 := by omega
      have hoff₂ : ((6 : Word) + BitVec.ofNat 16 r.uriLen + 2).toNat = 8 + r.uriLen - 2 ^ 16 := by
        rw [toNat_add_eq, hoff, h2]
        omega
      obtain ⟨c₁, h₁, hb₁, huri₁, hrun₁⟩ := uriTail_run displayCap display flagsOut flags h hcap hcopy
        (by rw [hoff]; omega)
      rw [hrun₁, hoff, hoff₁]
      rw [hbeyond] at hb₁
      have hsum : ((6 : Word) + BitVec.ofNat 16 r.uriLen + 2 +
          BitVec.ofNat 16 (le (slice r.data (6 + r.uriLen - 2 ^ 16) 2))).toNat =
            (8 + r.uriLen - 2 ^ 16 + le (slice r.data (6 + r.uriLen - 2 ^ 16) 2)) % 2 ^ 16 := by
        rw [toNat_add_eq, hoff₂, ofNat_le_slice]
      by_cases hgt : (6 : Word) + BitVec.ofNat 16 r.uriLen + 2 +
          BitVec.ofNat 16 (le (slice r.data (6 + r.uriLen - 2 ^ 16) 2)) > r.length
      · rw [if_pos hgt]
        refine (decodes_fail errShortResponse hb₁).trans ?_
        exact iff_of_true hnot ⟨hsecond, hcopy, hsum ▸ BitVec.lt_def.1 hgt⟩
      · rw [if_neg hgt]
        have hle := hsum ▸ BitVec.le_def.1 (BitVec.not_lt.1 hgt)
        exact iff_of_false (not_decodes_of_true (displayTail_true ..) hnot) fun hcaught => absurd hcaught.2.2 (Nat.not_lt.2 hle)
    · -- the display length would be at 65534 or 65535
      refine iff_of_false ?_ fun hcaught => hsecond hcaught.1
      refine not_decodes_of_beyond ?_
      rw [uriTail, wp_bind, wp_of_ok (h.get (by rw [h6, hclip]; exact hcopy)), wp_bind, wp_modify]
      refine wp_bind.2 ?_
      rw [getU16, wp_bind, wp, get_outside (by rw [hoff, maxData]; omega)]
      trivial
  · refine iff_of_false (not_decodes_of_beyond ?_) fun hcaught => hcopy hcaught.2.1
    refine get_beyond (by rw [hclip]; omega) (by rw [h.last, hclip, h6]; omega) fun uri => ?_
    refine (Keeps.modify fun _ => id).bind fun _ => ((sticky_readable.get _ 2).bind fun _ => Keeps.pure _).bind fun rest => ?_
    exact Keeps.ite (fun _ _ => id) fun _ => displayTail_sticky _ _ _ _ _ _

variable (displayCap display flagsOut) in
theorem resolveResponse_decodes (h : Loaded r c) (hbeyond : c.beyond = false) (hcap : resolvedCap ≠ 0) :
    Decodes r resolvedCap display displayCap
        ((resolveResponse r.length resolvedCap display displayCap flagsOut).run c) ↔
      (8 ≤ r.length.toNat → r.data 0 = fileVersion → r.WrapsCaught resolvedCap) := by
  rw [resolveResponse_eq]
  by_cases hshort : r.length < 8
  · rw [if_pos hshort]
    refine (decodes_fail errBadVersion hbeyond).trans ?_
    have hlt : r.length.toNat < 8 := BitVec.lt_def.1 hshort
    exact iff_of_true (fun hr => absurd hr.long (Nat.not_le.2 hlt)) fun hle => absurd hle (Nat.not_le.2 hlt)
  have hlong : 8 ≤ r.length.toNat := BitVec.le_def.1 (BitVec.not_lt.1 hshort)
  have h0 : (0 : Word).toNat + 1 ≤ r.length.toNat := Nat.le_trans (by decide) hlong
  have h1 : (1 : Word).toNat + 1 ≤ r.length.toNat := Nat.le_trans (by decide) hlong
  have h4 : (4 : Word).toNat + 2 ≤ r.length.toNat := Nat.le_trans (by decide) hlong
  rw [if_neg hshort, run_bind_ok (h.getByte h0)]
  by_cases hv : r.data (0 : Word).toNat ≠ fileVersion
  · rw [if_pos hv]
    refine (decodes_fail errBadVersion hbeyond).trans ?_
    exact iff_of_true (fun hr => hv hr.version) fun _ hv' => absurd hv' hv
  rw [if_neg hv, run_bind_ok (h.getByte h1), run_bind_ok (h.getU16 h4)]
  have hv' : r.data 0 = fileVersion := not_not.1 hv
  have hread : le (slice r.data (4 : Word).toNat 2) = r.uriLen := rfl
  have hmax : r.length.toNat ≤ 512 := h.fits
  have hlt : r.uriLen < 2 ^ 16 := le_slice_lt _ _
  have hlen : (BitVec.ofNat 16 r.uriLen).toNat = r.uriLen := ofNat_le_slice _ _
  have h6 : (6 : Word).toNat = 6 := rfl
  have h2 : (2 : Word).toNat = 2 := rfl
  have hsum : ((6 : Word) + BitVec.ofNat 16 r.uriLen + 2).toNat = (8 + r.uriLen) % 2 ^ 16 := by
    rw [toNat_add_eq, toNat_add_eq, h6, h2, hlen]
    omega
  rw [hread]
  by_cases hgt : (6 : Word) + BitVec.ofNat 16 r.uriLen + 2 > r.length
  · rw [if_pos hgt]
    refine (decodes_fail errShortResponse hbeyond).trans ?_
    have hgt' : r.length.toNat < (8 + r.uriLen) % 2 ^ 16 := hsum ▸ BitVec.lt_def.1 hgt
    refine iff_of_true (fun hr => ?_) fun _ _ => ⟨fun hle => ?_, fun hw => ?_⟩
    · have := hr.uri
      omega
    · omega
    · omega
  · rw [if_neg hgt]
    have hle : (8 + r.uriLen) % 2 ^ 16 ≤ r.length.toNat := hsum ▸ BitVec.le_def.1 (BitVec.not_lt.1 hgt)
    by_cases hwrap : 2 ^ 16 ≤ 8 + r.uriLen
    · refine (uriTail_wraps h hbeyond hcap hlong hwrap).trans ?_
      refine ⟨fun hw _ _ => ⟨fun hfits => ?_, fun _ => hw⟩, fun hall => (hall hlong hv').uri hwrap⟩
      omega
    · refine (uriTail_fits h hbeyond hcap hlong hv' (by omega)).trans ?_
      refine ⟨fun hd _ _ => ⟨fun _ => hd, fun hw => absurd hw hwrap⟩, fun hall => (hall hlong hv').display ?_⟩
      omega

end Bounds

/-! ### The call -/

/-- The request of `fnsvc_resolve_path`. -/
def resolving (baseUri arg : List Byte) : Request :=
  ⟨deviceFile, fileResolvePath,
    resolveBytes baseUri arg (BitVec.ofNat 16 baseUri.length) (BitVec.ofNat 16 arg.length), 512⟩

/-- For every response with status OK: the call decodes it as the two lengths say exactly
when no bound that wraps is passed. -/
theorem path_resolved (baseUri : List Byte) (arg : Option (List Byte)) (resolvedCap : Word) (display : Bool)
    (displayCap : Word) (flagsOut : Bool) (c : Client) (r : Reply) (hcap : resolvedCap ≠ 0) (hbeyond : c.beyond = false)
    (hfits : (resolving baseUri (arg.getD [])).bytes.length ≤ maxData)
    (hr : c.reply (resolving baseUri (arg.getD [])) = r) (hresult : r.result = 0) (hstatus : r.status = statusOk)
    (hlen : r.length.toNat ≤ maxData) :
    Decodes r resolvedCap display displayCap
        ((resolvePath (some baseUri) arg true resolvedCap display displayCap flagsOut).run c) ↔
      (8 ≤ r.length.toNat → r.data 0 = fileVersion → r.WrapsCaught resolvedCap) := by
  have hacc : ¬(true = false ∨ resolvedCap = 0) := by simpa using hcap
  rw [resolvePath, if_neg hacc]
  generalize arg.getD [] = a at hfits hr ⊢
  have hsum : ¬(BitVec.ofNat 16 baseUri.length + BitVec.ofNat 16 a.length + 5).toNat > maxData := by
    have hshort : (resolving baseUri a).bytes.length = _ := length_resolveBytes baseUri a
    rw [hshort, maxData] at hfits
    rw [resolve_sum, maxData]
    omega
  rw [if_neg hsum]
  refine (wp_result (P := fun res => Decodes r resolvedCap display displayCap res ↔ _)).1 ?_
  rw [wp_bind, wp_modify]
  refine wp.seq ((resolveRequest_wp ..).mono (fun _ _ => id) fun s h => absurd h.large (Nat.not_lt.2 hfits)) ?_
  intro off c₁ h₁
  have hreply : (clearLast c).reply (resolving baseUri a) = r := hr
  refine h₁.service (by decide) (fun h => ?_) fun _ => ?_
  · exact absurd ((congrArg Reply.result hreply).trans hresult) h
  · have hq : (⟨deviceFile, fileResolvePath,
        resolveBytes baseUri a (BitVec.ofNat 16 baseUri.length) (BitVec.ofNat 16 a.length), 512⟩ : Request) =
          resolving baseUri a := rfl
    rw [hq, hreply, wp_bind, wp_modify, if_neg (not_not.2 hstatus)]
    have hcalled := loaded_called hlen rfl ((h₁.reply_eq (resolving baseUri a)).trans hreply)
    have hloaded : Loaded r (keepLast r.status r.length (c₁.served (resolving baseUri a))) :=
      hcalled.congr rfl rfl
    have hb : (keepLast r.status r.length (c₁.served (resolving baseUri a))).beyond = false := h₁.beyond_eq.trans hbeyond
    refine (wp_result (P := fun res => Decodes r resolvedCap display displayCap res ↔ _)).2 ?_
    exact resolveResponse_decodes displayCap display flagsOut hloaded hb hcap

/-- The URI `A:` and the display path `/`. -/
def driveRoot : Reply := replyBytes [1, 0, 0, 0, 2, 0, 0x41, 0x3a, 1, 0, 0x2f]

theorem path_resolved_root : Decodes driveRoot 256 true 40
    ((resolvePath (some [0x41]) none true 256 true 40 false).run (.start diskErr fun _ => driveRoot)) :=
  (path_resolved [0x41] none 256 true 40 false (.start diskErr fun _ => driveRoot) driveRoot (by decide) rfl (by decide)
    rfl rfl rfl (by decide)).2 fun _ _ => ⟨by decide, by decide⟩

/-- A URI of 65530 bytes in a response of eight: the call returns 1, with bytes from behind the response. -/
def hugeUri : Reply := replyBytes [1, 0, 0, 0, 0xfa, 0xff, 0, 0]

theorem huge_uri_passes : ¬Decodes hugeUri 256 true 40
    ((resolvePath (some [0x41]) none true 256 true 40 false).run (.start diskErr fun _ => hugeUri)) := by
  intro h
  have hcaught := (path_resolved [0x41] none 256 true 40 false (.start diskErr fun _ => hugeUri) hugeUri (by decide) rfl
    (by decide) rfl rfl rfl (by decide)).1 h (by decide) rfl
  exact absurd (hcaught.uri (by decide)) (by decide)

end NioApps.Service
