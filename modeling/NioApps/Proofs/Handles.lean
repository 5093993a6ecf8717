import NioApps.Proofs.OpenName
import NioApps.Proofs.ReadStream

/-! The handles in the records and in the requests: a record keeps the one it was opened
with, CLOSE sends it, and OPEN sends the name it was given or nothing at all, whatever was
outstanding before. -/

namespace NioApps.Resident

/-! ### The record -/

section Records

variable {o o' : Owner} {d d' : List Byte} {xs : List Exchange} {a y : Byte}

theorem Flush.handle (h : Flush o d xs a o' d') : o'.handle = o.handle := by
  induction h with
  | blocked | lost => rfl
  | full => simp [Owner.ackAll]
  | part n hwrite hack hpos hlt hrest ih => rw [ih]; simp [Owner.ackPart]

@[simp] theorem Owner.commit_handle (a : Byte) (o : Owner) : (o.commit a).handle = o.handle := by
  unfold Owner.commit
  split_ifs <;> rfl

@[simp] theorem Owner.publish_handle (e : Bool) (n : Byte) (o : Owner) : (o.publish e n).handle = o.handle := by
  simp [Owner.publish]

theorem Finish.handle (h : Finish o d xs a o' d') : o'.handle = o.handle := by
  cases h with
  | fault | done => rfl
  | commit _ _ hcommit => rw [Owner.commit_handle, hcommit.handle]
  | failed _ _ _ hflush => exact hflush.handle
  | last _ _ _ hflush hcommit => rw [Owner.commit_handle, hcommit.handle, hflush.handle]

theorem Settle.handle (h : Settle o d xs a o' d') : o'.handle = o.handle := by
  cases h with
  | read => rfl
  | write _ hfinish => exact hfinish.handle

theorem Put.handle {b : Byte} {bs : List Byte} (h : Put b o d xs bs y o' d') : o'.handle = o.handle := by
  cases h with
  | unsupported | refused | stored => rfl
  | flushed _ _ _ _ hflush => exact hflush.handle

theorem Read.handle {got : Option Byte} (h : Read o d xs y got o' d') : o'.handle = o.handle := by
  cases h with
  | cached | atEof | blocked | rejected => rfl
  | empty => exact Owner.publish_handle ..
  | refilled => exact Owner.publish_handle ..

theorem Get.handle {got : Option Byte} (h : Get o d xs y got o' d') : o'.handle = o.handle := by
  cases h with
  | unsupported => rfl
  | read _ hread => exact hread.handle
  | refused _ _ hfinish => exact hfinish.handle
  | started _ _ hfinish hread => exact hread.handle.trans hfinish.handle

theorem OwnerCall.handle {c : Call} {bs : List Byte} (h : OwnerCall c o d xs bs y a o' d') : o'.handle = o.handle := by
  cases h with
  | twice => rfl
  | put _ h => exact h.handle
  | get _ h => exact h.handle
  | status _ h =>
    cases h with
    | refused h | info h => exact h.handle
  | close _ h =>
    obtain ⟨h, -, -⟩ := h
    exact h.handle

end Records

/-! ### CLOSE -/

theorem closeSession_handle (r : Byte) (w : Ram) :
    ∃ ys, Logs w.wire (closeSession r w).2.wire ys [] ∧ ∀ x ∈ ys, frameHandle x.1 = w.owner.handle := by
  obtain ⟨p, hp, hlogs, hbuilt⟩ := sessionPacket_spec 4 w
  simp only [closeSession, hp]
  cases hc : (sessionPacket 4 w).1
  · obtain ⟨q, hq, hqlogs, -⟩ := transfer_spec (w.setWire p)
    have hlen : p.requestLen.toNat = 9 := congrArg BitVec.toNat (hbuilt hc).len
    have hframe : frameHandle (frameOf p) = w.owner.handle := by
      rw [← (hbuilt hc).handle, frameHandle, frameOf_getD p (by decide) (by decide) (by omega),
        frameOf_getD p (by decide) (by decide) (by omega)]
    have hboth := hlogs.trans hqlogs
    rw [List.nil_append] at hboth
    refine ⟨[(frameOf p, if (transfer (w.setWire p)).1 then none else some (replyOf q))], ?_, fun x hx => ?_⟩
    · simp only [Bool.false_eq_true, if_false, hq]
      split_ifs at hboth ⊢ <;> exact hboth
    · rw [List.mem_singleton.1 hx]
      exact hframe
  · exact ⟨[], hlogs, by simp⟩

theorem doClose_handle {w : Ram} (hlen : w.owner.len.toNat ≤ 128) :
    ∃ xs, Logs w.wire (doClose w).2.wire xs [] ∧ ∀ x ∈ xs, frameCommand x.1 = 4 → frameHandle x.1 = w.owner.handle := by
  by_cases h4 : w.owner.mode = 4
  · obtain ⟨ys, hlogs, hys⟩ := closeSession_handle 1 w
    simp only [doClose, if_pos h4]
    exact ⟨ys, hlogs, fun x hx _ => hys x hx⟩
  · obtain ⟨xs, hfinish, hdid⟩ := finishWrite_spec hlen
    obtain ⟨ys, hlogs, hys⟩ := closeSession_handle (finishWrite w).1 (finishWrite w).2
    simp only [doClose, if_neg h4]
    refine ⟨xs ++ ys, hdid.logs.trans hlogs, fun x hx hcommand => ?_⟩
    rcases List.mem_append.1 hx with hx | hx
    · exact absurd (hcommand.symm.trans (hfinish.command x hx)) (by decide)
    · rw [hys x hx, hfinish.handle]

/-- The CLOSE request of an owner is for its own session. -/
theorem perform_close_handle {c : Call} {w : Ram} (h : TableOk w) {k : Slot} (hlive : (w.owners k).own ≠ 0xff)
    (hk : (w.owners k).own = c.x) (hop : c.op = .close) {x : Exchange} (hx : x ∈ exchanges (perform c w).1.events)
    (hcommand : frameCommand x.1 = 4) : frameHandle x.1 = (w.owners k).handle := by
  have hfind : findOwner (entered c w) = some k :=
    findOwner_eq hk fun j hj => (h.distinct k j (hk.trans hj.symm) hlive).symm
  have hindex := (h.index k).resolve_left hlive
  have hvalid : ¬(entered c w).callerX &&& 0x8f ≠ 0 := not_not.2 (by rwa [hk] at hindex)
  have hdispatch : dispatch c.mem c.op (entered c w) = doClose ((entered c w).setSlot k) := by
    unfold dispatch
    rw [if_neg hvalid, hfind, hop]
  obtain ⟨-, hevents, -, -⟩ := perform_entered (c := c) h.busy
  rw [hdispatch] at hevents
  obtain ⟨xs, ⟨es, hlog, -, rfl, -⟩, hxs⟩ := doClose_handle (w := (entered c w).setSlot k) (h.live k hlive).len
  have hes : (perform c w).1.events = es := hevents.trans hlog
  exact hxs x (hes ▸ hx) hcommand

/-! ### OPEN -/

theorem setCommand_self {a : Byte} {p : Wire} (h : p.command = a) : p.setCommand a = p := by
  subst h
  rfl

/-- A drained transport is as good as one with nothing outstanding. -/
theorem beginPacket_drained {a : Byte} {p : Wire} (h : (beginPacket a p).1 = false) :
    ∃ p', p'.outstanding = 0 ∧ beginPacket a p' = beginPacket a p ∧ Logs p p' [] [] := by
  by_cases ho : p.outstanding = 0
  · exact ⟨p, ho, rfl, .same rfl⟩
  · have hcommand : (receive (p.setCommand a)).2.command = a := (receive_cases (p.setCommand a)).same.command
    have hlogs : Logs p (receive (p.setCommand a)).2 [] [] := (receive_logs _).of_log rfl
    have hclear := ((beginPacket_moves a p).2 h).1
    have hpacket : beginPacket a p = (false, clearPacket (receive (p.setCommand a)).2) := by
      simp only [beginPacket, Wire.setCommand_outstanding, if_neg ho] at h ⊢
      split_ifs at h ⊢ <;> rfl
    rw [hpacket] at hclear
    have hout : (receive (p.setCommand a)).2.outstanding = 0 := hclear
    refine ⟨(receive (p.setCommand a)).2, hout, ?_, hlogs⟩
    rw [beginPacket_idle hout, setCommand_self hcommand, hpacket]

theorem openNamed_congr {mem : Word → Byte} {mode : Byte} {w : Ram} {p : Wire}
    (h : beginPacket 1 p = beginPacket 1 w.wire) : openNamed mem mode (w.setWire p) = openNamed mem mode w := by
  unfold openNamed
  rw [Ram.setWire_wire, h]
  rfl

/-- OPEN sends nothing, or the name. -/
structure Opened (c : Call) (k : Slot) (w w' : Ram) (uri : List Byte) (reply : Option (List Byte)) : Prop where
  names : Names c uri
  logs : Logs w.wire w'.wire [(openFrame c.mode uri, reply)] []
  owners : w'.owners = grant c k w.owners reply

/-- OPEN in the free slot `k`, with anything outstanding. -/
theorem openNamed_sends {c : Call} {w : Ram} {k : Slot} (hx : w.callerX = c.x)
    (hmode : c.mode = 4 ∨ c.mode = 8 ∨ c.mode = 12) :
    Logs w.wire (openNamed c.mem c.mode (w.setSlot k)).2.wire [] [] ∧
        (openNamed c.mem c.mode (w.setSlot k)).2.owners = w.owners ∨
      ∃ uri reply, Opened c k w (openNamed c.mem c.mode (w.setSlot k)).2 uri reply := by
  cases hc : (beginPacket 1 w.wire).1
  · obtain ⟨p, ho, hp, hlogs⟩ := beginPacket_drained hc
    have hsame : openNamed c.mem c.mode ((w.setSlot k).setWire p) = openNamed c.mem c.mode (w.setSlot k) :=
      openNamed_congr (w := w.setSlot k) hp
    rw [← hsame]
    by_cases hname : ∃ uri, IsName (indirect c.mem c.buffer) c.buffer uri
    · obtain ⟨uri, hname⟩ := hname
      right
      rw [openNamed_name (w := (w.setSlot k).setWire p) hx ho hname]
      obtain ⟨reply, hsent, howners⟩ := openExchange_spec (c := c)
        (w := (((w.setSlot k).setWire p).setPtr c.buffer).setWire (openWire c.mode uri p)) hx
      rw [Ram.setWire_wire, frameOf_openWire c.mode hname.short] at hsent
      have hlog : (openWire c.mode uri p).log = p.log := by
        rw [openWire, openRequest]
        split_ifs <;> rfl
      exact ⟨uri, reply, ⟨hmode, hname⟩, hlogs.trans (hsent.of_log hlog), howners⟩
    · left
      obtain ⟨hlog, howners⟩ := openNamed_other (w := (w.setSlot k).setWire p) hx ho fun uri h => hname ⟨uri, h⟩
      exact ⟨hlogs.quiet (.same hlog), howners⟩
  · left
    have hlogs : Logs w.wire (beginPacket 1 w.wire).2 [] [] := beginPacket_logs 1 w.wire
    have hfailed : openNamed c.mem c.mode (w.setSlot k) = ioError ((w.setSlot k).setWire (beginPacket 1 w.wire).2) := by
      unfold openNamed
      rw [Ram.setSlot_wire]
      exact if_pos hc
    rw [hfailed]
    exact ⟨hlogs, rfl⟩

theorem doOpen_sends {c : Call} {w : Ram} (hx : w.callerX = c.x) :
    Logs w.wire (doOpen c.mem w).2.wire [] [] ∧ (doOpen c.mem w).2.owners = w.owners ∨
      ∃ k uri reply, (w.owners k).own.msb = true ∧ Opened c k w (doOpen c.mem w).2 uri reply := by
  by_cases hmode : c.mode = 4 ∨ c.mode = 8 ∨ c.mode = 12
  · by_cases hfree : ∃ k, (w.owners k).own.msb = true
    · rw [doOpen_eq hx hfree hmode]
      have hslot : (w.owners (freeSlot w.owners)).own.msb = true := by
        unfold freeSlot
        split_ifs with h16
        · exact h16
        · obtain ⟨k, hk⟩ := hfree
          cases k with
          | x0 => exact hk
          | x16 => exact absurd hk h16
      refine (openNamed_sends hx hmode).imp_right fun h => ?_
      obtain ⟨uri, reply, h⟩ := h
      exact ⟨_, uri, reply, hslot, h⟩
    · left
      have h16 : ¬(w.owners .x16).own.msb = true := fun h => hfree ⟨_, h⟩
      have h0 : ¬(w.owners .x0).own.msb = true := fun h => hfree ⟨_, h⟩
      simp only [doOpen, if_neg h16, if_neg h0]
      split_ifs <;> exact ⟨.same rfl, rfl⟩
  · left
    have hno : c.mode ≠ 4 ∧ c.mode ≠ 8 ∧ c.mode ≠ 12 := by tauto
    have hrun : doOpen c.mem w = unsupported w := by
      rw [doOpen, hx]
      exact if_pos hno
    rw [hrun]
    exact ⟨.same rfl, rfl⟩

/-- The exchanges of an OPEN by an IOCB that owns no record. -/
theorem perform_opens {c : Call} {w : Ram} (h : TableOk w) (hop : c.op = .openIocb) (hfree : ∀ k, (w.owners k).own ≠ c.x) :
    exchanges (perform c w).1.events = [] ∧ (perform c w).2.owners = w.owners ∨
      ∃ k uri reply, (w.owners k).own.msb = true ∧ Names c uri ∧
        exchanges (perform c w).1.events = [(openFrame c.mode uri, reply)] ∧
          (perform c w).2.owners = grant c k w.owners reply := by
  obtain ⟨-, hevents, howners, -⟩ := perform_entered (c := c) h.busy
  have hfind : findOwner (entered c w) = none := by
    rw [findOwner]
    exact (if_neg (hfree .x16)).trans (if_neg (hfree .x0))
  rw [hevents, howners]
  unfold dispatch
  rw [hfind, hop]
  split_ifs with hvalid
  · exact .inl ⟨rfl, rfl⟩
  · have hsends := doOpen_sends (c := c) (w := entered c w) rfl
    refine hsends.imp (fun hquiet => ?_) fun hopened => ?_
    · obtain ⟨⟨es, hlog, -, hxs, -⟩, hsame⟩ := hquiet
      have hes : (doOpen c.mem (entered c w)).2.wire.log = es := hlog
      rw [hes]
      exact ⟨hxs, hsame⟩
    · obtain ⟨k, uri, reply, hk, hnames, ⟨es, hlog, -, hxs, -⟩, hgrant⟩ := hopened
      have hes : (doOpen c.mem (entered c w)).2.wire.log = es := hlog
      rw [hes]
      exact ⟨k, uri, reply, hk, hnames, hxs, hgrant⟩

end NioApps.Resident
