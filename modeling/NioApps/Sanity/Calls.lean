import NioApps.Sanity.Reading

/-! What one CIO call does: STATUS, CLOSE and OPEN, the dispatch to the record
the caller owns, and the table invariant that every call keeps. -/

namespace NioApps.Resident

/-! ### STATUS and CLOSE -/

/-- Nothing but the transport, the pointer and the returned byte changed. -/
structure SameTable (w w' : Ram) : Prop where
  owners : w'.owners = w.owners
  caches : w'.caches = w.caches
  slot : w'.slot = w.slot
  callerX : w'.callerX = w.callerX
  busy : w'.busy = w.busy

theorem SameTable.setWire (w : Ram) (p : Wire) : SameTable w (w.setWire p) := ⟨rfl, rfl, rfl, rfl, rfl⟩

theorem SameTable.did {w w' : Ram} {xs : List Exchange} (h : SameTable w w') (hlogs : Logs w.wire w'.wire xs []) :
    Did w w' xs [] :=
  ⟨h.slot, h.callerX, h.busy, fun k _ => by rw [h.owners], fun k _ i _ => by rw [half, half, h.caches], hlogs⟩

/-- `session_packet` and `exchange` with nothing between them: one request with
command `a`, or none. -/
structure Asked (a : Byte) (w w' : Ram) (xs : List Exchange) : Prop where
  same : SameTable w w'
  logs : Logs w.wire w'.wire xs []
  command : ∀ x ∈ xs, frameCommand x.1 = a

theorem sessionPacket_asked (a : Byte) (w : Ram) : Asked a w (sessionPacket a w).2 [] := by
  obtain ⟨p, hp, hlogs, -⟩ := sessionPacket_spec a w
  rw [hp]
  exact ⟨.setWire w p, hlogs, by simp⟩

theorem transfer_asked {a : Byte} {w : Ram} (hc : (sessionPacket a w).1 = false) :
    ∃ xs, Asked a w (transfer (sessionPacket a w).2).2 xs := by
  obtain ⟨p, hp, hlogs, hbuilt⟩ := sessionPacket_spec a w
  obtain ⟨q, hq, hqlogs, -⟩ := transfer_spec (w.setWire p)
  rw [hp, hq]
  refine ⟨_, ⟨rfl, rfl, rfl, rfl, rfl⟩, hlogs.trans hqlogs, fun x hx => ?_⟩
  have hlen : p.requestLen = 9 := (hbuilt hc).len
  rw [List.nil_append] at hx
  rw [List.mem_singleton.1 hx]
  change frameCommand (frameOf p) = a
  rw [frameCommand, frameOf_getD p (by decide) (by decide) (by rw [hlen]; decide), (hbuilt hc).command]

/-- What STATUS answers when its exchange succeeds. -/
def Owner.info (o : Owner) : Byte :=
  if o.mode = 8 then 1 else if o.eof = 0 then 1 else if o.pos < o.len then 1 else 0x88

theorem statusInfo_spec (w : Ram) :
    ∃ xs, Asked 5 w (statusInfo w).2 xs ∧ ((statusInfo w).1 = 0x90 ∨ (statusInfo w).1 = w.owner.info) := by
  simp only [statusInfo]
  cases hc : (sessionPacket 5 w).1
  · obtain ⟨xs, h⟩ := transfer_asked hc
    have howner : (transfer (sessionPacket 5 w).2).2.owner = w.owner := owner_of_owners h.same.slot h.same.owners
    refine ⟨xs, ?_⟩
    cases ht : (transfer (sessionPacket 5 w).2).1
    · simp only [Bool.false_eq_true, if_false, howner, Owner.info]
      split_ifs <;> exact ⟨h, .inr rfl⟩
    · exact ⟨h, .inl rfl⟩
  · exact ⟨[], sessionPacket_asked 5 w, .inl rfl⟩

theorem closeSession_spec (r : Byte) (w : Ram) :
    ∃ xs, Asked 4 w (closeSession r w).2 xs ∧ ((closeSession r w).1 = 0x90 ∨ (closeSession r w).1 = r) := by
  simp only [closeSession]
  cases hc : (sessionPacket 4 w).1
  · obtain ⟨xs, h⟩ := transfer_asked hc
    refine ⟨xs, ?_⟩
    simp only [Bool.false_eq_true, if_false]
    split_ifs
    · exact ⟨h, .inl rfl⟩
    · exact ⟨h, .inr rfl⟩
  · exact ⟨[], sessionPacket_asked 4 w, .inl rfl⟩

/-- STATUS and CLOSE begin by finishing the body of an output owner. -/
inductive Settle (o : Owner) (d : List Byte) : List Exchange → Byte → Owner → List Byte → Prop
  | read (h : o.mode = 4) : Settle o d [] 1 o d
  | write {xs : List Exchange} {a : Byte} {o' : Owner} {d' : List Byte} (h : o.mode ≠ 4)
      (hfinish : Finish o d xs a o' d') : Settle o d xs a o' d'

/-- STATUS: the exchanges, the result, and the record and cached bytes it leaves. -/
inductive Status (o : Owner) (d : List Byte) : List Exchange → Byte → Owner → List Byte → Prop
  | refused {xs : List Exchange} {a : Byte} {o' : Owner} {d' : List Byte} (h : Settle o d xs a o' d')
      (ha : a ≠ 1) : Status o d xs a o' d'
  | info {xs ys : List Exchange} {y : Byte} {o' : Owner} {d' : List Byte} (h : Settle o d xs 1 o' d')
      (hcommand : ∀ x ∈ ys, frameCommand x.1 = 5) (hy : y = 0x90 ∨ y = o'.info) : Status o d (xs ++ ys) y o' d'

/-- CLOSE, with the record as it was before `@release`. -/
inductive Close (o : Owner) (d : List Byte) : List Exchange → Byte → Owner → List Byte → Prop
  | close {xs ys : List Exchange} {a y : Byte} {o' : Owner} {d' : List Byte} (h : Settle o d xs a o' d')
      (hcommand : ∀ x ∈ ys, frameCommand x.1 = 4) (hy : y = 0x90 ∨ y = a) :
      Close o d (xs ++ ys) y { o' with own := 0xff } d'

theorem finishWrite_settle {w : Ram} (hlen : w.owner.len.toNat ≤ 128) (h : w.owner.mode ≠ 4) :
    ∃ xs, Settle w.owner (cached w.slot w) xs (finishWrite w).1 (finishWrite w).2.owner
        (cached w.slot (finishWrite w).2) ∧
      Did w (finishWrite w).2 xs [] := by
  obtain ⟨xs, hfinish, hdid⟩ := finishWrite_spec hlen
  exact ⟨xs, .write h hfinish, hdid⟩

/-- `@info` after the body is settled. -/
theorem statusInfo_settled {w w₁ : Ram} {xs : List Exchange} {a : Byte}
    (h : Settle w.owner (cached w.slot w) xs a w₁.owner (cached w.slot w₁)) (hdid : Did w w₁ xs []) (ha : a = 1) :
    ∃ xs, Status w.owner (cached w.slot w) xs (statusInfo w₁).1 (statusInfo w₁).2.owner
        (cached w.slot (statusInfo w₁).2) ∧
      Did w (statusInfo w₁).2 xs [] := by
  obtain ⟨ys, hasked, hy⟩ := statusInfo_spec w₁
  refine ⟨xs ++ ys, ?_, hdid.trans (hasked.same.did hasked.logs)⟩
  rw [owner_of_owners hasked.same.slot hasked.same.owners, cached_of_same hasked.same.owners hasked.same.caches]
  exact .info (ha ▸ h) hasked.command hy

theorem doStatus_spec {w : Ram} (hlen : w.owner.len.toNat ≤ 128) :
    ∃ xs, Status w.owner (cached w.slot w) xs (doStatus w).1 (doStatus w).2.owner (cached w.slot (doStatus w).2) ∧
      Did w (doStatus w).2 xs [] := by
  by_cases h4 : w.owner.mode = 4
  · simp only [doStatus, if_pos h4]
    exact statusInfo_settled (.read h4) (.refl w) rfl
  · obtain ⟨xs, hsettle, hdid⟩ := finishWrite_settle hlen h4
    simp only [doStatus, if_neg h4]
    by_cases ha : (finishWrite w).1 = 1
    · rw [if_neg (not_not.2 ha)]
      exact statusInfo_settled hsettle hdid ha
    · rw [if_pos ha]
      exact ⟨xs, .refused hsettle ha, hdid⟩

theorem release_closed {w w₁ : Ram} {xs : List Exchange} {a : Byte}
    (h : Settle w.owner (cached w.slot w) xs a w₁.owner (cached w.slot w₁)) (hdid : Did w w₁ xs []) :
    ∃ xs, Close w.owner (cached w.slot w) xs (closeSession a w₁).1 (release (closeSession a w₁).2).owner
        (cached w.slot (release (closeSession a w₁).2)) ∧
      Did w (release (closeSession a w₁).2) xs [] := by
  obtain ⟨ys, hasked, hy⟩ := closeSession_spec a w₁
  have howner := owner_of_owners hasked.same.slot hasked.same.owners
  have hrelease : (release (closeSession a w₁).2).owner = { w₁.owner with own := 0xff } :=
    (Ram.setOwner_owner ..).trans (by rw [howner])
  have hcached : cached w.slot (release (closeSession a w₁).2) = cached w.slot w₁ := by
    have hslot : (closeSession a w₁).2.slot = w.slot := hasked.same.slot.trans hdid.slot
    rw [← hslot, release, cached_setOwner, hslot]
    rw [← cached_of_same hasked.same.owners hasked.same.caches, cached, ← hslot]
    rfl
  refine ⟨xs ++ ys, ?_, hdid.trans ((hasked.same.did hasked.logs).nil (did_setOwner _ _))⟩
  rw [hrelease, hcached]
  exact .close h hasked.command hy

theorem doClose_spec {w : Ram} (hlen : w.owner.len.toNat ≤ 128) :
    ∃ xs, Close w.owner (cached w.slot w) xs (doClose w).1 (doClose w).2.owner (cached w.slot (doClose w).2) ∧
      Did w (doClose w).2 xs [] := by
  by_cases h4 : w.owner.mode = 4
  · simp only [doClose, if_pos h4]
    exact release_closed (.read h4) (.refl w)
  · obtain ⟨xs, hsettle, hdid⟩ := finishWrite_settle hlen h4
    simp only [doClose, if_neg h4]
    exact release_closed hsettle hdid

/-! ### OPEN -/

theorem SameTable.trans {w₁ w₂ w₃ : Ram} (h : SameTable w₁ w₂) (h' : SameTable w₂ w₃) : SameTable w₁ w₃ :=
  ⟨h'.owners.trans h.owners, h'.caches.trans h.caches, h'.slot.trans h.slot, h'.callerX.trans h.callerX,
    h'.busy.trans h.busy⟩

/-- OPEN in a free slot: nothing changed, or a new record in the slot in X. -/
inductive OpenDone (openMode : Byte) (w : Ram) : Byte × Ram → Prop
  | failed {y : Byte} {w' : Ram} (hy : y ≠ 1) (h : SameTable w w') : OpenDone openMode w (y, w')
  | opened {w₁ : Ram} (handle : Byte × Byte) (h : SameTable w w₁) :
      OpenDone openMode w (1, w₁.setOwner (openedOwner w.callerX openMode handle))

theorem openExchange_done (openMode : Byte) (w : Ram) : OpenDone openMode w (openExchange openMode w) := by
  obtain ⟨p, hp, -, -⟩ := transfer_spec w
  have hsame : SameTable w (w.setWire p) := .setWire w p
  simp only [openExchange, hp]
  split_ifs
  · exact .failed (by decide) hsame
  · exact .failed (by decide) hsame
  · exact .failed (by decide) hsame
  · exact .opened _ hsame

theorem OpenDone.of_same {openMode : Byte} {w w₁ : Ram} {r : Byte × Ram} (h : SameTable w w₁)
    (hdone : OpenDone openMode w₁ r) : OpenDone openMode w r := by
  cases hdone with
  | failed hy h' => exact .failed hy (h.trans h')
  | opened handle h' =>
    rw [h.callerX]
    exact .opened handle (h.trans h')

theorem openNamed_done (mem : Word → Byte) (openMode : Byte) (w : Ram) :
    OpenDone openMode w (openNamed mem openMode w) := by
  have hptr (p : Wire) (zp : Byte × Byte) : SameTable w ((w.setWire p).setPtr zp) := ⟨rfl, rfl, rfl, rfl, rfl⟩
  have hpacket (p q : Wire) (zp : Byte × Byte) : SameTable w (((w.setWire p).setPtr zp).setWire q) :=
    ⟨rfl, rfl, rfl, rfl, rfl⟩
  simp only [openNamed]
  split_ifs
  · exact .failed (by decide) (.setWire w _)
  · exact .failed (by decide) (hptr _ _)
  · exact .failed (by decide) (hptr _ _)
  · exact .failed (by decide) (hptr _ _)
  · exact .failed (by decide) (hptr _ _)
  · split
    · exact .failed (by decide) (hpacket _ _ _)
    · exact .failed (by decide) (hpacket _ _ _)
    · exact (openExchange_done _ _).of_same (hpacket _ _ _)

/-! ### The gateway -/

theorem perform_free {c : Call} {w : Ram} {r : Byte × Ram} (h : w.busy = 0)
    (hr : dispatch c.mem c.op (entered c w) = r) :
    perform c w = (⟨c, r.2.callerA, r.1, c.zp, r.2.wire.log⟩, (r.2.setPtr c.zp).setBusy (r.2.busy - 1)) := by
  subst hr
  have hbusy : ((w.setPtr c.zp).setWire { w.wire with results := c.results, log := [] }).busy = 0 := h
  simp only [perform, gateway, hbusy, ne_eq, not_true_eq_false, if_false, entered, h]
  rfl

theorem perform_busy {c : Call} {w : Ram} (h : w.busy ≠ 0) :
    perform c w = (⟨c, c.a, 0x92, c.zp, []⟩, (w.setPtr c.zp).setWire { w.wire with results := c.results, log := [] }) := by
  have hbusy : ((w.setPtr c.zp).setWire { w.wire with results := c.results, log := [] }).busy ≠ 0 := h
  simp only [perform, gateway, if_pos hbusy]
  rfl

/-- A call on the record its caller owns: the exchanges, the bytes stored, Y and
A on return, and the record and cached bytes it leaves. -/
inductive OwnerCall (c : Call) (o : Owner) (d : List Byte) :
    List Exchange → List Byte → Byte → Byte → Owner → List Byte → Prop
  | twice {a : Byte} (hop : c.op = .openIocb) : OwnerCall c o d [] [] 0x81 a o d
  | put {xs : List Exchange} {bs d' : List Byte} {y a : Byte} {o' : Owner} (hop : c.op = .put)
      (h : Put c.a o d xs bs y o' d') : OwnerCall c o d xs bs y a o' d'
  | get {xs : List Exchange} {d' : List Byte} {got : Option Byte} {y a : Byte} {o' : Owner} (hop : c.op = .get)
      (h : Get o d xs y got o' d') (ha : ∀ b, got = some b → a = b) : OwnerCall c o d xs [] y a o' d'
  | status {xs : List Exchange} {d' : List Byte} {y a : Byte} {o' : Owner} (hop : c.op = .status)
      (h : Status o d xs y o' d') : OwnerCall c o d xs [] y a o' d'
  | close {xs : List Exchange} {d' : List Byte} {y a : Byte} {o' : Owner} (hop : c.op = .close)
      (h : Close o d xs y o' d') : OwnerCall c o d xs [] y a o' d'

theorem OwnerCall.open_result {c : Call} {o o' : Owner} {d d' : List Byte} {xs : List Exchange} {bs : List Byte}
    {y a : Byte} (h : OwnerCall c o d xs bs y a o' d') (hop : c.op = .openIocb) : y = 0x81 ∧ o' = o := by
  cases h with
  | twice => exact ⟨rfl, rfl⟩
  | put hne | get hne | status hne | close hne => exact absurd (hop.symm.trans hne) (by decide)

/-- Records and caches as they were. -/
def Unchanged (w w' : Ram) : Prop := w'.owners = w.owners ∧ w'.caches = w.caches

/-- Every way a call can end. -/
inductive Performed (c : Call) (w : Ram) (d : Done) (w' : Ram) : Prop
  | invalid (hx : c.x &&& 0x8f ≠ 0) (hy : d.y = 0x86) (hevents : d.events = []) (h : Unchanged w w')
  | unopened (hop : c.op ≠ .openIocb) (hfree : ∀ k, (w.owners k).own ≠ c.x) (hy : d.y = 0x85)
      (hevents : d.events = []) (h : Unchanged w w')
  | failed (hop : c.op = .openIocb) (hfree : ∀ k, (w.owners k).own ≠ c.x) (hy : d.y ≠ 1) (h : Unchanged w w')
  | opened (hop : c.op = .openIocb) (hx : c.x &&& 0x8f = 0) (hfree : ∀ k, (w.owners k).own ≠ c.x) (k : Slot)
      (hk : (w.owners k).own.msb = true) (handle : Byte × Byte)
      (hmode : c.mem (0x034a + c.x.setWidth 16) = 4 ∨ c.mem (0x034a + c.x.setWidth 16) = 8 ∨
        c.mem (0x034a + c.x.setWidth 16) = 12)
      (hy : d.y = 1)
      (howners : w'.owners =
        Function.update w.owners k (openedOwner c.x (c.mem (0x034a + c.x.setWidth 16)) handle))
      (hcaches : w'.caches = w.caches)
  | ran (hx : c.x &&& 0x8f = 0) (k : Slot) (hk : (w.owners k).own = c.x)
      (h : OwnerCall c (w.owners k) (cached k w) (exchanges d.events) (stores d.events) d.y d.a (w'.owners k)
        (cached k w'))
      (hframes : wFrames d.events = (exchanges d.events).map Prod.fst)
      (hother : ∀ j ≠ k, w'.owners j = w.owners j)
      (hhalf : ∀ j ≠ k, ∀ i < 128, half j w' i = half j w i)

theorem Performed.congr {c : Call} {w w₁ w' w₁' : Ram} {d d₁ : Done} (h : Performed c w₁ d₁ w₁')
    (ho : w₁.owners = w.owners) (hc : w₁.caches = w.caches) (ho' : w₁'.owners = w'.owners)
    (hc' : w₁'.caches = w'.caches) (hy : d₁.y = d.y) (ha : d₁.a = d.a) (he : d₁.events = d.events) :
    Performed c w d w' := by
  have hun (h : Unchanged w₁ w₁') : Unchanged w w' := by
    rwa [Unchanged, ho, hc, ho', hc'] at h
  have hhalf' (k : Slot) : half k w₁ = half k w ∧ half k w₁' = half k w' := by
    constructor <;> funext i
    · rw [half, half, hc]
    · rw [half, half, hc']
  cases h with
  | invalid hx hy' hevents h => exact .invalid hx (hy ▸ hy') (he ▸ hevents) (hun h)
  | unopened hop hfree hy' hevents h => exact .unopened hop (ho ▸ hfree) (hy ▸ hy') (he ▸ hevents) (hun h)
  | failed hop hfree hy' h => exact .failed hop (ho ▸ hfree) (hy ▸ hy') (hun h)
  | opened hop hx hfree k hk handle hmode hy' howners hcaches =>
    exact .opened hop hx (ho ▸ hfree) k (ho ▸ hk) handle hmode (hy ▸ hy') (by rw [← ho', howners, ho])
      (by rw [← hc', hcaches, hc])
  | ran hx k hk h hframes hother hhalf =>
    have hd : cached k w = cached k w₁ := cached_of_same ho.symm hc.symm k
    have hd' : cached k w' = cached k w₁' := cached_of_same ho'.symm hc'.symm k
    refine .ran hx k (ho ▸ hk) ?_ (he ▸ hframes) (by rw [← ho, ← ho']; exact hother) fun j hj i hi => ?_
    · rw [hd, hd', ← ho, ← ho', ← he, ← hy, ← ha]
      exact h
    · rw [← (hhalf' j).1, ← (hhalf' j).2]
      exact hhalf j hj i hi

/-- A live record. READING is only set once COMMITTED is; until then, and
without a FAULT, an output owner has room for one more byte. -/
structure OwnerOk (o : Owner) : Prop where
  mode : o.mode = 4 ∨ o.mode = 8 ∨ o.mode = 12
  pos : o.pos.toNat ≤ o.len.toNat
  len : o.len.toNat ≤ 128
  output : o.mode ≠ 4 → o.fault = 0 → o.committed = 0 → o.len.toNat ≤ 127
  reading : o.reading ≠ 0 → o.committed ≠ 0

theorem findOwner_some {w : Ram} {k : Slot} (h : findOwner w = some k) : (w.owners k).own = w.callerX := by
  simp only [findOwner] at h
  split_ifs at h with h16 h0
  · cases h
    exact h16
  · cases h
    exact h0

theorem findOwner_none {w : Ram} (h : findOwner w = none) (k : Slot) : (w.owners k).own ≠ w.callerX := by
  simp only [findOwner] at h
  split_ifs at h with h16 h0
  cases k
  · exact h0
  · exact h16

theorem invalid_of_ff {x : Byte} (hx : x &&& 0x8f = 0) : x ≠ 0xff := by
  rintro rfl
  exact absurd hx (by decide)

/-- OPEN in the free slot `k`. -/
theorem performed_openDone {c : Call} {w : Ram} {k : Slot} {r : Byte × Ram} {zp : Byte × Byte}
    (hx : w.callerX = c.x) (hop : c.op = .openIocb) (hvalid : c.x &&& 0x8f = 0)
    (hfree : ∀ k, (w.owners k).own ≠ c.x)
    (hmode : c.mem (0x034a + c.x.setWidth 16) = 4 ∨ c.mem (0x034a + c.x.setWidth 16) = 8 ∨
      c.mem (0x034a + c.x.setWidth 16) = 12)
    (hk : (w.owners k).own.msb = true) (h : OpenDone (c.mem (0x034a + c.x.setWidth 16)) (w.setSlot k) r) :
    Performed c w ⟨c, r.2.callerA, r.1, zp, r.2.wire.log⟩ r.2 ∧ r.2.busy = w.busy := by
  cases h with
  | failed hy hsame => exact ⟨.failed hop hfree hy ⟨hsame.owners, hsame.caches⟩, hsame.busy⟩
  | @opened w₁ handle hsame =>
    have hslot : w₁.slot = k := hsame.slot
    have howners : w₁.owners = w.owners := hsame.owners
    refine ⟨.opened hop hvalid hfree k hk handle hmode rfl ?_ hsame.caches, hsame.busy⟩
    change Function.update w₁.owners w₁.slot _ = _
    rw [howners, hslot, Ram.setSlot_callerX, hx]

theorem doOpen_performed {c : Call} {w : Ram} {zp : Byte × Byte} (hx : w.callerX = c.x) (hop : c.op = .openIocb)
    (hvalid : c.x &&& 0x8f = 0) (hfree : ∀ k, (w.owners k).own ≠ c.x) :
    Performed c w ⟨c, (doOpen c.mem w).2.callerA, (doOpen c.mem w).1, zp, (doOpen c.mem w).2.wire.log⟩
        (doOpen c.mem w).2 ∧
      (doOpen c.mem w).2.busy = w.busy := by
  simp only [doOpen, hx]
  split_ifs with hmode h16 h0
  · exact ⟨.failed hop hfree (show (0x92 : Byte) ≠ 1 by decide) ⟨rfl, rfl⟩, rfl⟩
  · exact performed_openDone hx hop hvalid hfree (by tauto) h16 (openNamed_done _ _ _)
  · exact performed_openDone hx hop hvalid hfree (by tauto) h0 (openNamed_done _ _ _)
  · exact ⟨.failed hop hfree (show (0xa1 : Byte) ≠ 1 by decide) ⟨rfl, rfl⟩, rfl⟩

/-- A call on the record in the slot in X, from what its operation does there. -/
theorem performed_ran {c : Call} {w : Ram} {k : Slot} {r : Byte × Ram} {zp : Byte × Byte} {xs : List Exchange}
    {bs : List Byte} (hx : c.x &&& 0x8f = 0) (hk : (w.owners k).own = c.x) (hlog : w.wire.log = [])
    (hdid : Did (w.setSlot k) r.2 xs bs)
    (h : OwnerCall c (w.owners k) (cached k w) xs bs r.1 r.2.callerA r.2.owner (cached k r.2)) :
    Performed c w ⟨c, r.2.callerA, r.1, zp, r.2.wire.log⟩ r.2 ∧ r.2.busy = w.busy := by
  obtain ⟨es, hes, hframes, rfl, rfl⟩ := hdid.logs
  have hlog' : r.2.wire.log = es := by
    rw [hes]
    exact congrArg (· ++ es) hlog
  have hslot : r.2.slot = k := hdid.slot
  rw [Ram.owner, hslot] at h
  rw [← hlog'] at h hframes
  exact ⟨.ran hx k hk h hframes hdid.owners hdid.half, hdid.busy⟩

theorem dispatch_performed {c : Call} {w : Ram} {z : Byte × Byte} (hx : w.callerX = c.x) (ha : w.callerA = c.a)
    (hlog : w.wire.log = []) (hok : ∀ k, (w.owners k).own ≠ 0xff → OwnerOk (w.owners k)) :
    Performed c w ⟨c, (dispatch c.mem c.op w).2.callerA, (dispatch c.mem c.op w).1, z,
        (dispatch c.mem c.op w).2.wire.log⟩ (dispatch c.mem c.op w).2 ∧
      (dispatch c.mem c.op w).2.busy = w.busy := by
  unfold dispatch
  split_ifs with hvalid
  · exact ⟨.invalid (hx ▸ hvalid) rfl hlog ⟨rfl, rfl⟩, rfl⟩
  · rw [hx, not_not] at hvalid
    cases hfind : findOwner w with
    | none =>
      have hfree : ∀ k, (w.owners k).own ≠ c.x := fun k => hx ▸ findOwner_none hfind k
      cases hop : c.op with
      | openIocb => exact doOpen_performed hx hop hvalid hfree
      | _ => exact ⟨.unopened (by rw [hop]; decide) hfree rfl hlog ⟨rfl, rfl⟩, rfl⟩
    | some k =>
      have hk : (w.owners k).own = c.x := (findOwner_some hfind).trans hx
      have howner := hok k (by rw [hk]; exact invalid_of_ff hvalid)
      cases hop : c.op with
      | openIocb => exact performed_ran (r := (0x81, w.setSlot k)) hvalid hk hlog (.refl _) (.twice hop)
      | close =>
        obtain ⟨xs, h, hdid⟩ := doClose_spec (w := w.setSlot k) howner.len
        exact performed_ran hvalid hk hlog hdid (.close hop h)
      | get =>
        obtain ⟨xs, got, h⟩ := doGet_spec (w := w.setSlot k) howner.len
        exact performed_ran hvalid hk hlog h.did (.get hop h.get h.callerA)
      | put =>
        obtain ⟨xs, bs, h, hdid⟩ := doPut_spec (w := w.setSlot k) howner.output
        rw [Ram.setSlot_callerA, ha] at h
        exact performed_ran hvalid hk hlog hdid (.put hop h)
      | status =>
        obtain ⟨xs, h, hdid⟩ := doStatus_spec (w := w.setSlot k) howner.len
        exact performed_ran hvalid hk hlog hdid (.status hop h)

/-! ### The table -/

section Records

variable {o o' : Owner} {d d' : List Byte} {xs : List Exchange} {a y : Byte}

theorem Put.ok {b : Byte} {bs : List Byte} (h : Put b o d xs bs y o' d') (hd : d.length = o.len.toNat)
    (hok : OwnerOk o) : OwnerOk o' ∧ o'.own = o.own := by
  cases h with
  | unsupported | refused => exact ⟨hok, rfl⟩
  | stored hmode hfault hopen hlen =>
    have hnext := stored_len (o := o) (by omega)
    have hpos : o.stored.pos.toNat = o.len.toNat := rfl
    exact ⟨⟨hok.mode, by omega, by omega, fun _ _ _ => by omega, hok.reading⟩, rfl⟩
  | flushed hmode hfault hopen hlen hflush =>
    have hnext : o.stored.len.toNat = 128 := by rw [stored_len (by omega), hlen]
    have hpos : o.stored.pos.toNat = o.len.toNat := rfl
    have h := hflush.result (by rw [List.length_append, hd, hnext, hlen]; rfl)
    refine ⟨⟨h.mode ▸ hok.mode, h.pos (by omega), h.len.trans (by omega), fun _ hf _ => ?_, ?_⟩, h.own⟩
    · by_cases hy : y = 1
      · rw [← h.cached, (h.ok hy).2]
        exact Nat.zero_le _
      · rw [(h.failed hy).2] at hf
        exact absurd hf (by decide)
    · rw [h.reading, h.committed]
      exact hok.reading

theorem Finish.ok (h : Finish o d xs a o' d') (hd : d.length = o.len.toNat) (hok : OwnerOk o) :
    OwnerOk o' ∧ o'.own = o.own ∧ (a = 1 → o'.committed ≠ 0) := by
  have h := h.result hd
  refine ⟨⟨h.mode ▸ hok.mode, h.pos hok.pos, h.len.trans hok.len, fun _ hf hc => ?_, fun hr => ?_⟩, h.own,
    fun ha => (h.ok ha).2⟩
  · by_cases ha : a = 1
    · exact absurd hc (h.ok ha).2
    · exact absurd hf (h.failed ha).2.1
  · by_cases ha : a = 1
    · exact (h.ok ha).2
    · rw [(h.failed ha).2.2]
      exact hok.reading (h.reading ▸ hr)

/-- A reading owner may hold up to 128 bytes. -/
theorem OwnerOk.refill (hok : OwnerOk o) (hphase : o.mode = 4 ∨ o.committed ≠ 0) (hmode : o'.mode = o.mode)
    (hcommitted : o'.committed = o.committed) (hreading : o'.reading = o.reading)
    (hpos : o'.pos.toNat ≤ o'.len.toNat) (hlen : o'.len.toNat ≤ 128) : OwnerOk o' where
  mode := hmode ▸ hok.mode
  pos := hpos
  len := hlen
  output hm _ hc := by
    rw [hmode] at hm
    rw [hcommitted] at hc
    tauto
  reading := by
    rw [hreading, hcommitted]
    exact hok.reading

theorem Read.ok {got : Option Byte} (h : Read o d xs y got o' d') (hok : OwnerOk o)
    (hphase : o.mode = 4 ∨ o.committed ≠ 0) : OwnerOk o' ∧ o'.own = o.own := by
  cases h with
  | cached hpos =>
    have hnext : o.taken.pos.toNat ≤ o.len.toNat := by
      simp only [Owner.taken]
      bv_omega
    exact ⟨hok.refill hphase rfl rfl rfl hnext hok.len, rfl⟩
  | atEof | blocked | rejected => exact ⟨hok, rfl⟩
  | empty => exact ⟨hok.refill hphase (by simp) (by simp) (by simp) (by simp) (by simp), by simp⟩
  | refilled hpos hopen hread hdata hn hle =>
    refine ⟨hok.refill hphase (by simp [Owner.taken]) (by simp [Owner.taken]) (by simp [Owner.taken]) ?_
      (by simpa [Owner.taken] using hle), by simp [Owner.taken]⟩
    simp only [Owner.taken, Owner.publish_pos, Owner.publish_len, hn]
    exact Nat.succ_le_succ (Nat.zero_le _)

theorem Get.ok {got : Option Byte} (h : Get o d xs y got o' d') (hd : d.length = o.len.toNat) (hok : OwnerOk o) :
    OwnerOk o' ∧ o'.own = o.own := by
  cases h with
  | unsupported => exact ⟨hok, rfl⟩
  | read hphase hread => exact hread.ok hok (hphase.imp_right fun h => hok.reading h.2)
  | refused hmode hfirst hfinish ha => exact ⟨(hfinish.ok hd hok).1, (hfinish.ok hd hok).2.1⟩
  | @started _ _ _ _ o₁ _ _ _ hmode hfirst hfinish hread =>
    obtain ⟨hok₁, hown, hdone⟩ := hfinish.ok hd hok
    have hstart : OwnerOk o₁.startReading :=
      ⟨hok₁.mode, le_rfl, Nat.zero_le _, fun _ _ _ => Nat.zero_le _, fun _ => hdone rfl⟩
    obtain ⟨hok', hown'⟩ := hread.ok hstart (.inr (hdone rfl))
    exact ⟨hok', hown'.trans hown⟩

theorem Settle.ok (h : Settle o d xs a o' d') (hd : d.length = o.len.toNat) (hok : OwnerOk o) :
    OwnerOk o' ∧ o'.own = o.own := by
  cases h with
  | read => exact ⟨hok, rfl⟩
  | write hmode hfinish => exact ⟨(hfinish.ok hd hok).1, (hfinish.ok hd hok).2.1⟩

/-- Every operation keeps a live record in order, and all but CLOSE its owner. -/
theorem OwnerCall.ok {c : Call} {bs : List Byte} (h : OwnerCall c o d xs bs y a o' d')
    (hd : d.length = o.len.toNat) (hok : OwnerOk o) :
    OwnerOk o' ∧ o'.own = if c.op = .close then 0xff else o.own := by
  cases h with
  | twice hop => simpa [hop] using hok
  | put hop h => simpa [hop] using h.ok hd hok
  | get hop h => simpa [hop] using h.ok hd hok
  | status hop h =>
    cases h with
    | refused hsettle => simpa [hop] using hsettle.ok hd hok
    | info hsettle => simpa [hop] using hsettle.ok hd hok
  | close hop h =>
    obtain ⟨hsettle, _, _⟩ := h
    obtain ⟨hok', -⟩ := hsettle.ok hd hok
    exact ⟨⟨hok'.mode, hok'.pos, hok'.len, hok'.output, hok'.reading⟩, by simp [hop]⟩

end Records

/-- The invariant of the owner table between calls. -/
structure TableOk (w : Ram) : Prop where
  busy : w.busy = 0
  index : ∀ k, (w.owners k).own = 0xff ∨ (w.owners k).own &&& 0x8f = 0
  distinct : ∀ j k, (w.owners j).own = (w.owners k).own → (w.owners j).own ≠ 0xff → j = k
  live : ∀ k, (w.owners k).own ≠ 0xff → OwnerOk (w.owners k)

theorem init_tableOk : TableOk init where
  busy := rfl
  index _ := .inl rfl
  distinct _ _ _ h := absurd rfl h
  live _ h := absurd rfl h

/-- A call is `dispatch` and what `gateway` restores after it. -/
theorem perform_entered {c : Call} {w : Ram} (h : w.busy = 0) :
    (perform c w).1.y = (dispatch c.mem c.op (entered c w)).1 ∧
      (perform c w).1.events = (dispatch c.mem c.op (entered c w)).2.wire.log ∧
      (perform c w).2.owners = (dispatch c.mem c.op (entered c w)).2.owners ∧
      (perform c w).2.caches = (dispatch c.mem c.op (entered c w)).2.caches := by
  have hbusy : ((w.setPtr c.zp).setWire { w.wire with results := c.results, log := [] }).busy = 0 := h
  simp only [perform, gateway, hbusy, ne_eq, not_true_eq_false, if_false, entered, h]
  exact ⟨trivial, rfl, rfl, rfl⟩

theorem perform_spec (c : Call) {w : Ram} (h : TableOk w) :
    Performed c w (perform c w).1 (perform c w).2 ∧ (perform c w).2.busy = 0 := by
  have hbusy : ((w.setPtr c.zp).setWire { w.wire with results := c.results, log := [] }).busy = 0 := h.busy
  obtain ⟨hperf, hkeep⟩ := dispatch_performed (c := c) (w := entered c w) (z := c.zp) rfl rfl rfl h.live
  have hb : (entered c w).busy = 1 := congrArg (· + 1) h.busy
  have hent : (((w.setPtr c.zp).setWire { w.wire with results := c.results, log := [] }).setBusy (0 + 1)).setCaller
      c.a c.x = entered c w := by rw [entered, h.busy]
  simp only [perform, gateway, hbusy, ne_eq, not_true_eq_false, if_false, hent]
  refine ⟨hperf.congr rfl rfl rfl rfl rfl rfl rfl, ?_⟩
  rw [Ram.setBusy_busy, hkeep, hb]
  rfl

theorem TableOk.same {w w' : Ram} (h : TableOk w) (howners : w'.owners = w.owners) (hbusy : w'.busy = 0) :
    TableOk w' where
  busy := hbusy
  index := by rw [howners]; exact h.index
  distinct := by rw [howners]; exact h.distinct
  live := by rw [howners]; exact h.live

/-- One record was replaced by a valid one with an index no other record has, or a free one. -/
theorem TableOk.update {w w' : Ram} (h : TableOk w) (k : Slot) (hother : ∀ j ≠ k, w'.owners j = w.owners j)
    (hbusy : w'.busy = 0) (hown : (w'.owners k).own = 0xff ∨
      (w'.owners k).own &&& 0x8f = 0 ∧ ∀ j ≠ k, (w.owners j).own ≠ (w'.owners k).own)
    (hok : (w'.owners k).own ≠ 0xff → OwnerOk (w'.owners k)) : TableOk w' where
  busy := hbusy
  index j := by
    by_cases hj : j = k
    · rw [hj]
      exact hown.imp_right And.left
    · rw [hother j hj]
      exact h.index j
  distinct i j heq hne := by
    by_cases hi : i = k <;> by_cases hj : j = k
    · rw [hi, hj]
    · rw [hi, hother j hj] at heq
      rw [hi] at hne
      exact absurd heq.symm ((hown.resolve_left hne).2 j hj)
    · rw [hj, hother i hi] at heq
      rw [hother i hi, heq] at hne
      exact absurd heq ((hown.resolve_left hne).2 i hi)
    · rw [hother i hi, hother j hj] at heq
      rw [hother i hi] at hne
      exact h.distinct i j heq hne
  live j hj := by
    by_cases hjk : j = k
    · rw [hjk] at hj ⊢
      exact hok hj
    · rw [hother j hjk] at hj ⊢
      exact h.live j hj

theorem openedOwner_ok {own mode : Byte} {handle : Byte × Byte} (h : mode = 4 ∨ mode = 8 ∨ mode = 12) :
    OwnerOk (openedOwner own mode handle) :=
  ⟨h, le_rfl, Nat.zero_le _, fun _ _ _ => Nat.zero_le _, fun h => absurd rfl h⟩

theorem Performed.tableOk {c : Call} {w w' : Ram} {d : Done} (hperf : Performed c w d w') (h : TableOk w)
    (hbusy : w'.busy = 0) : TableOk w' := by
  cases hperf with
  | invalid _ _ _ hsame | unopened _ _ _ _ hsame | failed _ _ _ hsame =>
    exact h.same hsame.1 hbusy
  | opened hop hx hfree k hk handle hmode hy howners hcaches =>
    have hnew : w'.owners k = openedOwner c.x (c.mem (0x034a + c.x.setWidth 16)) handle := by
      rw [howners, Function.update_self]
    refine h.update k (fun j hj => by rw [howners, Function.update_of_ne hj]) hbusy (.inr ?_) fun _ => ?_
    · rw [hnew]
      exact ⟨hx, fun j _ => hfree j⟩
    · rw [hnew]
      exact openedOwner_ok hmode
  | ran hx k hk hcall hframes hother hhalf =>
    have hlive : (w.owners k).own ≠ 0xff := by
      rw [hk]
      exact invalid_of_ff hx
    obtain ⟨hok, hown⟩ := hcall.ok (length_cached k w) (h.live k hlive)
    refine h.update k hother hbusy ?_ fun _ => hok
    rw [hown]
    split_ifs
    · exact .inl rfl
    · exact .inr ⟨hk ▸ hx, fun j hj heq => hj (h.distinct j k heq (heq ▸ hlive))⟩

theorem after_tableOk (calls : List Call) : TableOk (after calls) := by
  refine handler.final_invariant (fun c w h => ?_) init_tableOk calls
  obtain ⟨hperf, hbusy⟩ := perform_spec c h
  exact hperf.tableOk h hbusy

end NioApps.Resident
