import NioApps.Sanity.Prompt
import NioApps.Sanity.Sessions

/-! The request body of an output owner is sent exactly once. The record and
cache of the owner simulate the sender of `NioApps.Lib.Upload`: what `Sim` calls
pending is what the cache holds, and the 32-bit OFFSET counts the acknowledged
bytes. -/

namespace NioApps.Resident

open Upload

/-- If `x` is a WRITE, its count field is the length of its data. -/
def Counted (x : Exchange) : Prop := frameCommand x.1 = 3 → frameCount x.1 = (frameData x.1).length

theorem IsWrite.counted {o : Owner} {d f : List Byte} (h : IsWrite o d f) (r : Option (List Byte)) : Counted (f, r) :=
  fun _ => by rw [h.count, h.data]

/-- `s'` comes after `s` with the same body, the exchanges `xs` sent in between. -/
structure Sends (s s' : Sender Byte) (xs : List Exchange) : Prop where
  steps : Sender.Steps s s'
  body : s'.body = s.body
  sent : s'.sent = s.sent ++ xs.map packetOf
  counted : ∀ x ∈ xs, Counted x

theorem Sends.refl (s : Sender Byte) : Sends s s [] := ⟨.refl, rfl, (List.append_nil _).symm, by simp⟩

theorem Sends.faulted {s : Sender Byte} (h : s.phase = .active) : Sends s { s with phase := .faulted } [] :=
  ⟨.single (.fault h), rfl, (List.append_nil _).symm, by simp⟩

theorem Sends.trans {s₁ s₂ s₃ : Sender Byte} {xs ys : List Exchange} (h : Sends s₁ s₂ xs) (h' : Sends s₂ s₃ ys) :
    Sends s₁ s₃ (xs ++ ys) :=
  ⟨h.steps.trans h'.steps, h'.body.trans h.body, by rw [h'.sent, h.sent, List.map_append, List.append_assoc],
    fun x hx => (List.mem_append.1 hx).elim (h.counted x) (h'.counted x)⟩

/-- The cached bytes are the pending ones, and OFFSET is the number acknowledged. -/
structure Active (s : Sender Byte) (o : Owner) (d : List Byte) : Prop where
  phase : s.phase = .active
  pending : s.pending = d
  offset : o.offset = s.acked % 2 ^ 32

/-- A WRITE of what is pending is the sender's next packet. -/
theorem Active.packetOf {s : Sender Byte} {o : Owner} {d f : List Byte} (hs : Active s o d) (hinv : s.Inv)
    (hb : s.body.length < 2 ^ 32) (hwrite : IsWrite o d f) (r : Option (List Byte)) :
    packetOf (f, r) = ⟨s.acked, s.pending, writeAck (f, r)⟩ := by
  have hoffset : frameOffset f = s.acked := by
    rw [hwrite.offset, hs.offset, Nat.mod_eq_of_lt (hinv.le.trans_lt hb)]
  simp only [Resident.packetOf, hoffset, hwrite.data, hs.pending]

theorem Active.lost {s : Sender Byte} {o : Owner} {d f : List Byte} {r : Option (List Byte)} (hs : Active s o d)
    (hinv : s.Inv) (hb : s.body.length < 2 ^ 32) (hwrite : IsWrite o d f) (hack : writeAck (f, r) = none) :
    ∃ s', Sends s s' [(f, r)] ∧ s'.phase = .faulted := by
  refine ⟨_, ⟨.single (.lose hs.phase), rfl, ?_, by simpa using hwrite.counted r⟩, rfl⟩
  rw [List.map_singleton, hs.packetOf hinv hb hwrite, hack]
  rfl

theorem ackPart_offset (n : Byte) (o : Owner) : (o.ackPart n).offset = (o.offset + n.toNat) % 2 ^ 32 :=
  addOffset_offset n { o with pos := 0 }

/-- A packet acknowledged in part, or in full. -/
theorem Active.acked {s : Sender Byte} {o o' : Owner} {d f : List Byte} {r : Option (List Byte)} {n : ℕ}
    (hs : Active s o d) (hinv : s.Inv) (hb : s.body.length < 2 ^ 32) (hwrite : IsWrite o d f)
    (hack : writeAck (f, r) = some n) (hpos : 0 < n) (hle : n ≤ d.length)
    (hoffset : o'.offset = (o.offset + n) % 2 ^ 32) :
    ∃ s', Sends s s' [(f, r)] ∧ Active s' o' (d.drop n) := by
  refine ⟨_, ⟨.single (.ack n hs.phase hpos (by rw [hs.pending]; exact hle)), rfl, ?_,
    by simpa using hwrite.counted r⟩, hs.phase, ?_, ?_⟩
  · rw [List.map_singleton, hs.packetOf hinv hb hwrite, hack]
    rfl
  · rw [← hs.pending, Sender.pending, Sender.pending, List.drop_drop]
  · rw [hoffset, hs.offset]
    exact Nat.mod_add_mod ..

/-- `flush` of a non-empty cache. -/
theorem Flush.sends {o o' : Owner} {d d' : List Byte} {xs : List Exchange} {a : Byte} (h : Flush o d xs a o' d')
    (hlen : d.length = o.len.toNat) (hne : d ≠ []) {s : Sender Byte} (hinv : s.Inv) (hs : Active s o d)
    (hb : s.body.length < 2 ^ 32) :
    ∃ s', Sends s s' xs ∧ (a = 1 → Active s' o' d') ∧ (a ≠ 1 → s'.phase = .faulted) := by
  induction h generalizing s with
  | blocked => exact ⟨_, .faulted hs.phase, by simp, fun _ => rfl⟩
  | lost hwrite hack =>
    obtain ⟨s', hsends, hphase⟩ := hs.lost hinv hb hwrite hack
    exact ⟨s', hsends, by simp, fun _ => hphase⟩
  | @full o d f r hwrite hack =>
    have hall : o.ackAll.offset = (o.offset + d.length) % 2 ^ 32 := by
      rw [hlen]
      exact addOffset_offset o.len { o with pos := 0 }
    obtain ⟨s', hsends, hactive⟩ := hs.acked hinv hb hwrite hack (List.length_pos_iff.2 hne) le_rfl hall
    rw [List.drop_length] at hactive
    exact ⟨s', hsends, fun _ => hactive, by simp⟩
  | @part o o' d d' f r xs a n hwrite hack hpos hlt hrest ih =>
    obtain ⟨s₁, hsends, hactive⟩ := hs.acked hinv hb hwrite hack hpos hlt.le (ackPart_offset n o)
    have hlen' : (d.drop n.toNat).length = (o.ackPart n).len.toNat := by
      rw [List.length_drop, hlen]
      simp only [Owner.ackPart]
      bv_omega
    have hne' : d.drop n.toNat ≠ [] := by
      rw [ne_eq, List.drop_eq_nil_iff]
      omega
    obtain ⟨s', hsends', hok, hfailed⟩ :=
      ih hlen' hne' (hinv.steps hsends.steps) hactive (by rw [hsends.body]; exact hb)
    exact ⟨s', hsends.trans hsends', hok, hfailed⟩

/-- `flush` of an empty cache: the zero-length WRITE. -/
theorem Flush.commits {o o' : Owner} {d' : List Byte} {xs : List Exchange} {a : Byte} (h : Flush o [] xs a o' d')
    {s : Sender Byte} (hinv : s.Inv) (hs : Active s o []) (hb : s.body.length < 2 ^ 32) :
    ∃ s', Sends s s' xs ∧ (a = 1 → s'.phase = .committed) ∧ (a ≠ 1 → s'.phase = .faulted) := by
  cases h with
  | blocked => exact ⟨_, .faulted hs.phase, by simp, fun _ => rfl⟩
  | lost hwrite hack =>
    obtain ⟨s', hsends, hphase⟩ := hs.lost hinv hb hwrite hack
    exact ⟨s', hsends, by simp, fun _ => hphase⟩
  | @full _ _ _ r hwrite hack =>
    refine ⟨_, ⟨.single (.commit hs.phase hs.pending), rfl, ?_, by simpa using hwrite.counted r⟩, fun _ => rfl,
      by simp⟩
    rw [List.map_singleton, hs.packetOf hinv hb hwrite, hack]
    rfl
  | part n hwrite hack hpos hlt => exact absurd hlt (Nat.not_lt_zero _)

/-! ### The operations -/

/-- The record and cached bytes of an output owner stand for the sender `s`. -/
structure Sim (s : Sender Byte) (o : Owner) (d : List Byte) : Prop where
  mode : o.mode ≠ 4
  inv : s.Inv
  active : s.phase = .active → o.fault = 0 ∧ o.committed = 0 ∧ Active s o d
  faulted : s.phase = .faulted → o.fault ≠ 0
  committed : s.phase = .committed → o.fault = 0 ∧ o.committed ≠ 0

theorem Sim.isFaulted {s : Sender Byte} {o : Owner} {d : List Byte} (h : Sim s o d) (hfault : o.fault ≠ 0) :
    s.phase = .faulted := by
  cases hp : s.phase with
  | active => exact absurd (h.active hp).1 hfault
  | faulted => rfl
  | committed => exact absurd (h.committed hp).1 hfault

theorem Sim.isCommitted {s : Sender Byte} {o : Owner} {d : List Byte} (h : Sim s o d) (hfault : o.fault = 0)
    (hdone : o.committed ≠ 0) : s.phase = .committed := by
  cases hp : s.phase with
  | active => exact absurd (h.active hp).2.1 hdone
  | faulted => exact absurd hfault (h.faulted hp)
  | committed => rfl

theorem Sim.isActive {s : Sender Byte} {o : Owner} {d : List Byte} (h : Sim s o d) (hfault : o.fault = 0)
    (hopen : o.committed = 0) : Active s o d := by
  cases hp : s.phase with
  | active => exact (h.active hp).2.2
  | faulted => exact absurd hfault (h.faulted hp)
  | committed => exact absurd hopen (h.committed hp).2

/-- After the commit only the flags of the record matter. -/
theorem Sim.of_flags {s : Sender Byte} {o o' : Owner} {d d' : List Byte} (h : Sim s o d) (hp : s.phase ≠ .active)
    (hmode : o'.mode = o.mode) (hfault : o'.fault = o.fault) (hcommitted : o'.committed = o.committed) :
    Sim s o' d' where
  mode := hmode ▸ h.mode
  inv := h.inv
  active ha := absurd ha hp
  faulted := by
    rw [hfault]
    exact h.faulted
  committed := by
    rw [hfault, hcommitted]
    exact h.committed

theorem Sends.sim_faulted {s s' : Sender Byte} {xs : List Exchange} {o' : Owner} {d' : List Byte}
    (h : Sends s s' xs) (hinv : s.Inv) (hp : s'.phase = .faulted) (hmode : o'.mode ≠ 4) (hfault : o'.fault ≠ 0) :
    Sim s' o' d' :=
  ⟨hmode, hinv.steps h.steps, by simp [hp], fun _ => hfault, by simp [hp]⟩

theorem Sends.sim_committed {s s' : Sender Byte} {xs : List Exchange} {o' : Owner} {d' : List Byte}
    (h : Sends s s' xs) (hinv : s.Inv) (hp : s'.phase = .committed) (hmode : o'.mode ≠ 4)
    (hdone : o'.fault = 0 ∧ o'.committed ≠ 0) : Sim s' o' d' :=
  ⟨hmode, hinv.steps h.steps, by simp [hp], by simp [hp], fun _ => hdone⟩

theorem Finish.sends {o o' : Owner} {d d' : List Byte} {xs : List Exchange} {a : Byte} (h : Finish o d xs a o' d')
    (hlen : d.length = o.len.toNat) {s : Sender Byte} (hs : Sim s o d) (hb : s.body.length < 2 ^ 32) :
    ∃ s', Sends s s' xs ∧ Sim s' o' d' ∧ (a = 1 → s'.phase = .committed) ∧ (a ≠ 1 → s'.phase = .faulted) := by
  have hresult := h.result hlen
  have hmode : o'.mode ≠ 4 := hresult.mode ▸ hs.mode
  -- the sender's last phase decides which record `Sim` allows
  have hend (s' : Sender Byte) (hsends : Sends s s' xs) (hok : a = 1 → s'.phase = .committed)
      (hfailed : a ≠ 1 → s'.phase = .faulted) : Sim s' o' d' := by
    by_cases ha : a = 1
    · exact hsends.sim_committed hs.inv (hok ha) hmode (hresult.ok ha)
    · exact hsends.sim_faulted hs.inv (hfailed ha) hmode (hresult.failed ha).2.1
  cases h with
  | fault hfault =>
    have hp := hs.isFaulted hfault
    exact ⟨s, .refl s, hs, by simp, fun _ => hp⟩
  | done hfault hdone =>
    have hp := hs.isCommitted hfault hdone
    exact ⟨s, .refl s, hs, fun _ => hp, by simp⟩
  | commit hfault hopen hcommit =>
    obtain ⟨s', hsends, hok, hfailed⟩ := hcommit.commits hs.inv (hs.isActive hfault hopen) hb
    exact ⟨s', hsends, hend s' hsends hok hfailed, hok, hfailed⟩
  | failed hfault hopen hne hflush ha =>
    obtain ⟨s', hsends, -, hfailed⟩ := hflush.sends hlen hne hs.inv (hs.isActive hfault hopen) hb
    have hok : a = 1 → s'.phase = .committed := fun h => absurd h ha
    exact ⟨s', hsends, hend s' hsends hok hfailed, hok, hfailed⟩
  | last hfault hopen hne hflush hcommit =>
    obtain ⟨s₁, hsends, hactive, -⟩ := hflush.sends hlen hne hs.inv (hs.isActive hfault hopen) hb
    obtain ⟨s', hsends', hok, hfailed⟩ := hcommit.commits (hs.inv.steps hsends.steps) (hactive rfl)
      (by rw [hsends.body]; exact hb)
    have hboth := hsends.trans hsends'
    exact ⟨s', hboth, hend s' hboth hok hfailed, hok, hfailed⟩

/-- What a call of the owner adds: the stored bytes to the body, the WRITE
packets to those sent, and while nothing failed, the byte of a PUT to `puts`. -/
structure Uploads (s s' : Sender Byte) (xs : List Exchange) (bs puts : List Byte) : Prop where
  body : s'.body = s.body ++ bs
  sent : s'.sent = s.sent ++ writePackets xs
  counted : ∀ x ∈ xs, Counted x
  puts : s'.phase ≠ .faulted → s.phase ≠ .faulted ∧ bs = puts

theorem writePackets_append (xs ys : List Exchange) :
    writePackets (xs ++ ys) = writePackets xs ++ writePackets ys := by
  simp [writePackets]

theorem writePackets_write {xs : List Exchange} (h : ∀ x ∈ xs, frameCommand x.1 = 3) :
    writePackets xs = xs.map packetOf := by
  rw [writePackets, List.filter_eq_self.2 (by simpa using h)]

theorem writePackets_other {xs : List Exchange} {a : Byte} (ha : a ≠ 3) (h : ∀ x ∈ xs, frameCommand x.1 = a) :
    writePackets xs = [] := by
  have hne (x : Exchange) (hx : x ∈ xs) : ¬decide (frameCommand x.1 = 3) = true := by
    rw [h x hx, decide_eq_true_eq]
    exact ha
  rw [writePackets, List.filter_eq_nil_iff.2 hne, List.map_nil]

/-- An operation that stores nothing and is not a PUT that returned 1. -/
theorem Sends.uploads {s s' : Sender Byte} {xs ys : List Exchange} {a : Byte} (h : Sends s s' xs)
    (hwrite : ∀ x ∈ xs, frameCommand x.1 = 3) (ha : a ≠ 3) (hother : ∀ x ∈ ys, frameCommand x.1 = a) :
    Uploads s s' (xs ++ ys) [] [] where
  body := by rw [h.body, List.append_nil]
  sent := by rw [h.sent, writePackets_append, writePackets_write hwrite, writePackets_other ha hother, List.append_nil]
  counted x hx := (List.mem_append.1 hx).elim (h.counted x) fun hy h3 => absurd ((hother x hy).symm.trans h3) ha
  puts hp := by
    refine ⟨fun hfault => ?_, rfl⟩
    rw [h.steps.eq_of_not_active (by simp [hfault])] at hp
    exact hp hfault

theorem Uploads.refl (s : Sender Byte) : Uploads s s [] [] [] :=
  (Sends.refl s).uploads (a := 0) (by simp) (by decide) (List.forall_mem_nil _)

/-- PUT stores its byte, and returns 1 unless a WRITE failed or none may follow. -/
theorem Put.uploads {b : Byte} {o o' : Owner} {d d' : List Byte} {xs : List Exchange} {bs : List Byte} {y : Byte}
    (h : Put b o d xs bs y o' d') (hlen : d.length = o.len.toNat) {s : Sender Byte} (hs : Sim s o d)
    (hb : (s.body ++ bs).length < 2 ^ 32) :
    ∃ s', Uploads s s' xs bs (if y = 1 then [b] else []) ∧ Sim s' o' d' := by
  have hstore (hp : s.phase = .active) (hpending : s.pending = d) :
      Sender.Step s { s with body := s.body ++ [b] } ∧
        ({ s with body := s.body ++ [b] } : Sender Byte).pending = d ++ [b] := by
    refine ⟨.store b hp, ?_⟩
    rw [← hpending, Sender.pending, Sender.pending, List.drop_append_of_le_length hs.inv.le]
  cases h with
  | unsupported hmode => exact absurd hmode hs.mode
  | refused => exact ⟨s, .refl s, hs⟩
  | stored hmode hfault hopen =>
    have hactive := hs.isActive hfault hopen
    obtain ⟨hstep, hpending⟩ := hstore hactive.phase hactive.pending
    refine ⟨{ s with body := s.body ++ [b] }, ⟨rfl, (List.append_nil _).symm, by simp,
      fun _ => ⟨by simp [hactive.phase], rfl⟩⟩, hmode, hs.inv.step hstep, fun _ => ⟨hfault, hopen, hactive.phase, hpending, hactive.offset⟩, ?_, ?_⟩
    · simp [hactive.phase]
    · simp [hactive.phase]
  | flushed hmode hfault hopen hfull hflush =>
    have hactive := hs.isActive hfault hopen
    obtain ⟨hstep, hpending⟩ := hstore hactive.phase hactive.pending
    have hlen' : (d ++ [b]).length = o.stored.len.toNat := by
      rw [List.length_append, hlen, stored_len (by omega)]
      rfl
    have hinv := hs.inv.step hstep
    obtain ⟨s', hsends, hok, hfailed⟩ := hflush.sends (s := { s with body := s.body ++ [b] }) hlen' (by simp) hinv
      ⟨hactive.phase, hpending, hactive.offset⟩ hb
    have hresult := hflush.result hlen'
    have hmode' : o'.mode ≠ 4 := hresult.mode ▸ hmode
    refine ⟨s', ⟨hsends.body, ?_, hsends.counted, fun hp => ⟨by simp [hactive.phase], ?_⟩⟩, ?_⟩
    · rw [hsends.sent, writePackets_write hflush.command]
    · rw [if_pos (by_contra fun ha => hp (hfailed ha))]
    · by_cases ha : y = 1
      · have hactive' := hok ha
        have hfault' : o'.fault = 0 := (hresult.ok ha).1.trans hfault
        exact ⟨hmode', hinv.steps hsends.steps, fun _ => ⟨hfault', hresult.committed.trans hopen, hactive'⟩,
          by simp [hactive'.phase], by simp [hactive'.phase]⟩
      · exact hsends.sim_faulted hinv (hfailed ha) hmode' (by rw [(hresult.failed ha).2]; decide)

theorem Get.uploads {o o' : Owner} {d d' : List Byte} {xs : List Exchange} {y : Byte} {got : Option Byte}
    (h : Get o d xs y got o' d') (hok : OwnerOk o) (hlen : d.length = o.len.toNat) {s : Sender Byte} (hs : Sim s o d)
    (hb : s.body.length < 2 ^ 32) : ∃ s', Uploads s s' xs [] [] ∧ Sim s' o' d' := by
  cases h with
  | unsupported => exact ⟨s, .refl s, hs⟩
  | read hphase hread =>
    have hreading : o.reading ≠ 0 := (hphase.resolve_left hs.mode).2
    have hp : s.phase ≠ .active := fun hp => hok.reading hreading (hs.active hp).2.1
    obtain ⟨hm, hf, hc, -⟩ := hread.flags
    exact ⟨s, (Sends.refl s).uploads (by simp) (by decide) hread.command, hs.of_flags hp hm hf hc⟩
  | refused hmode hfirst hfinish ha =>
    obtain ⟨s', hsends, hsim, -⟩ := hfinish.sends hlen hs hb
    have huploads := hsends.uploads (a := 0) hfinish.command (by decide) (List.forall_mem_nil _)
    rw [List.append_nil] at huploads
    exact ⟨s', huploads, hsim⟩
  | started hmode hfirst hfinish hread =>
    obtain ⟨s', hsends, hsim, hdone, -⟩ := hfinish.sends hlen hs hb
    obtain ⟨hm, hf, hc, -⟩ := hread.flags
    exact ⟨s', hsends.uploads hfinish.command (by decide) hread.command,
      hsim.of_flags (by simp [hdone rfl]) hm hf hc⟩

/-- STATUS and CLOSE, with the requests `ys` that follow the settling. -/
theorem Settle.uploads {o o' : Owner} {d d' : List Byte} {xs ys : List Exchange} {a b : Byte}
    (h : Settle o d xs a o' d') (hlen : d.length = o.len.toNat) {s : Sender Byte} (hs : Sim s o d)
    (hb : s.body.length < 2 ^ 32) (hne : b ≠ 3) (hother : ∀ x ∈ ys, frameCommand x.1 = b) :
    ∃ s', Uploads s s' (xs ++ ys) [] [] ∧ Sim s' o' d' ∧ s'.phase ≠ .active ∧ (a = 1 → s'.phase = .committed) := by
  cases h with
  | read hmode => exact absurd hmode hs.mode
  | write hmode hfinish =>
    obtain ⟨s', hsends, hsim, hdone, hfailed⟩ := hfinish.sends hlen hs hb
    have hp : s'.phase ≠ .active := by
      by_cases ha : a = 1
      · simp [hdone ha]
      · simp [hfailed ha]
    exact ⟨s', hsends.uploads hfinish.command hne hother, hsim, hp, hdone⟩

theorem Status.uploads {o o' : Owner} {d d' : List Byte} {xs : List Exchange} {y : Byte} (h : Status o d xs y o' d')
    (hlen : d.length = o.len.toNat) {s : Sender Byte} (hs : Sim s o d) (hb : s.body.length < 2 ^ 32) :
    ∃ s', Uploads s s' xs [] [] ∧ Sim s' o' d' := by
  cases h with
  | refused hsettle ha =>
    obtain ⟨s', huploads, hsim, -⟩ := hsettle.uploads (b := 0) hlen hs hb (by decide) (List.forall_mem_nil _)
    rw [List.append_nil] at huploads
    exact ⟨s', huploads, hsim⟩
  | info hsettle hcommand hy =>
    obtain ⟨s', huploads, hsim, -⟩ := hsettle.uploads hlen hs hb (by decide) hcommand
    exact ⟨s', huploads, hsim⟩

theorem Close.uploads {o o' : Owner} {d d' : List Byte} {xs : List Exchange} {y : Byte} (h : Close o d xs y o' d')
    (hlen : d.length = o.len.toNat) {s : Sender Byte} (hs : Sim s o d) (hb : s.body.length < 2 ^ 32) :
    ∃ s', Uploads s s' xs [] [] ∧ Sim s' o' d' ∧ (y = 1 → s'.phase = .committed) := by
  obtain ⟨hsettle, hcommand, hy⟩ := h
  obtain ⟨s', huploads, hsim, hp, hdone⟩ := hsettle.uploads hlen hs hb (by decide) hcommand
  refine ⟨s', huploads, hsim.of_flags hp rfl rfl rfl, fun hone => hdone ?_⟩
  rcases hy with hy | hy
  · exact absurd (hone.symm.trans hy) (by decide)
  · exact hy.symm.trans hone

/-- The byte of a PUT that returned 1. -/
def putByte (c : Call) (y : Byte) : List Byte := if c.op = .put ∧ y = 1 then [c.a] else []

theorem putByte_other {c : Call} {y : Byte} (h : c.op ≠ .put) : putByte c y = [] := if_neg fun h' => h h'.1

theorem OwnerCall.uploads {c : Call} {o o' : Owner} {d d' : List Byte} {xs : List Exchange} {bs : List Byte}
    {y a : Byte} (h : OwnerCall c o d xs bs y a o' d') (hok : OwnerOk o) (hlen : d.length = o.len.toNat)
    {s : Sender Byte} (hs : Sim s o d) (hb : (s.body ++ bs).length < 2 ^ 32) :
    ∃ s', Uploads s s' xs bs (putByte c y) ∧ Sim s' o' d' ∧ (c.op = .close → y = 1 → s'.phase = .committed) := by
  have hb' : s.body.length < 2 ^ 32 := by
    rw [List.length_append] at hb
    omega
  cases h with
  | twice hop =>
    rw [putByte_other (by simp [hop])]
    exact ⟨s, .refl s, hs, by simp [hop]⟩
  | put hop h =>
    obtain ⟨s', huploads, hsim⟩ := h.uploads hlen hs hb
    rw [putByte]
    simp only [hop, true_and]
    exact ⟨s', huploads, hsim, by simp⟩
  | get hop h =>
    obtain ⟨s', huploads, hsim⟩ := h.uploads hok hlen hs hb'
    rw [putByte_other (by simp [hop])]
    exact ⟨s', huploads, hsim, by simp [hop]⟩
  | status hop h =>
    obtain ⟨s', huploads, hsim⟩ := h.uploads hlen hs hb'
    rw [putByte_other (by simp [hop])]
    exact ⟨s', huploads, hsim, by simp [hop]⟩
  | close hop h =>
    obtain ⟨s', huploads, hsim, hdone⟩ := h.uploads hlen hs hb'
    rw [putByte_other (by simp [hop])]
    exact ⟨s', huploads, hsim, fun _ => hdone⟩

/-! ### Whole lifetimes -/

/-- The sender `s` after the calls `ds` of the owner. -/
structure Uploaded (s : Sender Byte) (ds : List Done) : Prop where
  body : s.body = body ds
  sent : s.sent = writes ds
  counted : ∀ x ∈ exchanges (events ds), Counted x
  puts : s.phase ≠ .faulted → Resident.body ds = putBytes ds

theorem body_snoc (ds : List Done) (e : Done) : body (ds ++ [e]) = body ds ++ stores e.events := by
  rw [body, events_snoc, stores_append, body]

theorem writes_snoc (ds : List Done) (e : Done) :
    writes (ds ++ [e]) = writes ds ++ writePackets (exchanges e.events) := by
  rw [writes, events_snoc, exchanges_append, writePackets_append, writes]

theorem putBytes_snoc (ds : List Done) (e : Done) : putBytes (ds ++ [e]) = putBytes ds ++ putByte e.call e.y := by
  rw [putBytes, List.filter_append, List.map_append, putBytes, putByte]
  congr 1
  by_cases h : e.call.op = .put ∧ e.y = 1
  · rw [if_pos h, List.filter_cons_of_pos (by simpa using h)]
    rfl
  · rw [if_neg h, List.filter_cons_of_neg (by simpa using h)]
    rfl

theorem Uploaded.snoc {s s' : Sender Byte} {ds : List Done} {e : Done} (h : Uploaded s ds)
    (h' : Uploads s s' (exchanges e.events) (stores e.events) (putByte e.call e.y)) : Uploaded s' (ds ++ [e]) where
  body := by rw [h'.body, h.body, body_snoc]
  sent := by rw [h'.sent, h.sent, writes_snoc]
  counted x hx := by
    rw [events_snoc, exchanges_append] at hx
    exact (List.mem_append.1 hx).elim (h.counted x) (h'.counted x)
  puts hp := by
    obtain ⟨hp', hbs⟩ := h'.puts hp
    rw [body_snoc, putBytes_snoc, h.puts hp', hbs]

theorem sim_start {own mode : Byte} {handle : Byte × Byte} (h : mode ≠ 4) :
    Sim Sender.start (openedOwner own mode handle) [] :=
  ⟨h, Sender.inv_start, fun _ => ⟨rfl, rfl, rfl, rfl, rfl⟩, by simp [Sender.start], by simp [Sender.start]⟩

theorem OwnerRun.uploaded {o o' : Owner} {d d' : List Byte} {ds : List Done} (h : OwnerRun o d ds o' d')
    (hs : Sim Sender.start o d) (hb : (body ds).length < 2 ^ 32) : ∃ s, Uploaded s ds ∧ Sim s o' d' := by
  induction h with
  | nil => exact ⟨Sender.start, ⟨rfl, rfl, by simp [events], fun _ => rfl⟩, hs⟩
  | snoc h hok hd hop hcall hframes ih =>
    rw [body_snoc] at hb
    obtain ⟨s, huploaded, hsim⟩ := ih hs (by rw [List.length_append] at hb; omega)
    obtain ⟨s', huploads, hsim', -⟩ := hcall.uploads hok hd hsim (by rw [huploaded.body]; exact hb)
    exact ⟨s', huploaded.snoc huploads, hsim'⟩

theorem OwnerRun.last_op {o o' : Owner} {d d' : List Byte} {ds : List Done} (h : OwnerRun o d ds o' d')
    {pre : List Done} {e : Done} (heq : ds = pre ++ [e]) : e.call.op ≠ .close := by
  cases h with
  | nil => exact absurd heq (by simp)
  | snoc _ _ _ hop =>
    obtain ⟨-, he⟩ := List.append_inj' heq rfl
    cases he
    exact hop

theorem Lifetime.uploaded {o o' : Owner} {d d' : List Byte} {ds : List Done} (h : Lifetime o d ds o' d')
    (hs : Sim Sender.start o d) (hb : (body ds).length < 2 ^ 32) :
    ∃ s, Uploaded s ds ∧ s.Inv ∧
      (∀ pre e, ds = pre ++ [e] → e.call.op = .close → e.y = 1 → s.phase = .committed) := by
  cases h with
  | live hrun =>
    obtain ⟨s, huploaded, hsim⟩ := hrun.uploaded hs hb
    exact ⟨s, huploaded, hsim.inv, fun pre e heq hop _ => absurd hop (hrun.last_op heq)⟩
  | closed hrun hok hd hop hcall hframes =>
    rw [body_snoc] at hb
    obtain ⟨s, huploaded, hsim⟩ := hrun.uploaded hs (by rw [List.length_append] at hb; omega)
    obtain ⟨s', huploads, hsim', hdone⟩ := hcall.uploads hok hd hsim (by rw [huploaded.body]; exact hb)
    refine ⟨s', huploaded.snoc huploads, hsim'.inv, fun pre e heq hop hy => ?_⟩
    obtain ⟨-, he⟩ := List.append_inj' heq rfl
    cases he
    exact hdone hop hy

/-- The request body of an output owner is sent exactly once. For every run of
calls with any SIO results, and the owner that `o` opens in mode 8 or 12 until it
is closed: the WRITE packets sent for it are those of its exchanges and carry the
body that its PUTs stored exactly once, and when CLOSE returns 1 the last of them
is the acknowledged commit and the body is what was accepted by PUT. -/
theorem request_body_once {before : List Call} {o : Call} (hopen : Opens before o)
    (hmode : o.mode = 8 ∨ o.mode = 12) {calls : List Call}
    (hlife : ∀ c ∈ calls.dropLast, c.x = o.x → c.op ≠ .close)
    (hbody : (body (lifetime before o calls)).length < 2 ^ 32) :
    let ds := lifetime before o calls
    wFrames (events ds) = (exchanges (events ds)).map Prod.fst ∧
    (∀ x ∈ exchanges (events ds), frameCommand x.1 = 3 → frameCount x.1 = (frameData x.1).length) ∧
    ExactlyOnce (body ds) (writes ds) ∧
    ∀ pre e, ds = pre ++ [e] → e.call.op = .close → e.y = 1 →
      (∃ sent, writes ds = sent ++ [⟨(body ds).length, [], some 0⟩]) ∧ body ds = putBytes ds := by
  intro ds
  obtain ⟨handle, o', d', hlifetime⟩ := hopen.lifetime hlife
  have h4 : o.mode ≠ 4 := by
    rcases hmode with h | h <;> rw [h] <;> decide
  obtain ⟨s, huploaded, hinv, hclosed⟩ := hlifetime.uploaded (sim_start h4) hbody
  refine ⟨hlifetime.frames, huploaded.counted, ?_, fun pre e heq hop hy => ?_⟩
  · have := hinv.once
    rwa [huploaded.body, huploaded.sent] at this
  · have hp := hclosed pre e heq hop hy
    obtain ⟨sent, hsent⟩ := hinv.committed hp
    rw [huploaded.sent, huploaded.body] at hsent
    exact ⟨⟨sent, hsent⟩, huploaded.puts (by simp [hp])⟩

/-- A PUT, and a CLOSE that sends its byte and commits. -/
def putClose : List Call :=
  [channelCall .put 8 0x41 [], channelCall .close 8 0 [rwReply 3 0 1 [], rwReply 3 0 0 [], replyBytes 4 []]]

theorem request_body_once_put_close :
    let ds := lifetime [] (channelOpen 8) putClose
    (∃ sent, writes ds = sent ++ [⟨(body ds).length, [], some 0⟩]) ∧ body ds = putBytes ds := by
  have hopen : Opens [] (channelOpen 8) := ⟨rfl, by decide +kernel⟩
  have hlife : ∀ c ∈ putClose.dropLast, c.x = (channelOpen 8).x → c.op ≠ .close := by decide +kernel
  have hne : lifetime [] (channelOpen 8) putClose ≠ [] := by decide +kernel
  obtain ⟨-, -, -, hclose⟩ := request_body_once hopen (.inl (by decide)) hlife (by decide +kernel)
  exact hclose _ _ (List.dropLast_append_getLast hne).symm (by decide +kernel +revert) (by decide +kernel +revert)

end NioApps.Resident
