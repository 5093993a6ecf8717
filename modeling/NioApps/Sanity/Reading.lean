import NioApps.Sanity.Writing

/-! What GET sends and what it leaves behind, in terms of the owner's record
and the list of its cached bytes. `Read` has one constructor for each way
`do_get` can end from `@read` on. -/

namespace NioApps.Resident

/-- `f` is a READ for `o`. -/
structure IsRead (o : Owner) (f : List Byte) : Prop extends IsRequest 2 o f where
  count : frameCount f = 128

/-- The record once a response with EOF flag `e` and `n` data bytes is published. -/
def Owner.publish (e : Bool) (n : Byte) (o : Owner) : Owner :=
  { addOffset n { o with eof := if e then 1 else 0, len := n } with pos := 0 }

section Publish

variable (e : Bool) (n : Byte) (o : Owner)

@[simp] theorem Owner.publish_own : (o.publish e n).own = o.own := by simp [Owner.publish]

@[simp] theorem Owner.publish_mode : (o.publish e n).mode = o.mode := by simp [Owner.publish]

@[simp] theorem Owner.publish_len : (o.publish e n).len = n := by simp [Owner.publish]

@[simp] theorem Owner.publish_pos : (o.publish e n).pos = 0 := rfl

@[simp] theorem Owner.publish_eof : (o.publish e n).eof = if e then 1 else 0 := by simp [Owner.publish]

@[simp] theorem Owner.publish_fault : (o.publish e n).fault = o.fault := by simp [Owner.publish]

@[simp] theorem Owner.publish_committed : (o.publish e n).committed = o.committed := by simp [Owner.publish]

@[simp] theorem Owner.publish_reading : (o.publish e n).reading = o.reading := by simp [Owner.publish]

end Publish

/-- The record after a byte was taken from the cache. -/
def Owner.taken (o : Owner) : Owner := { o with pos := o.pos + 1 }

/-- GET from `@read` on: the exchanges, the result, the byte returned, and the
record and cached bytes it leaves. -/
inductive Read (o : Owner) (d : List Byte) :
    List Exchange → Byte → Option Byte → Owner → List Byte → Prop
  | cached (h : o.pos < o.len) : Read o d [] 1 (some (d.getD o.pos.toNat 0)) o.taken d
  | atEof (h : ¬o.pos < o.len) (heof : o.eof ≠ 0) : Read o d [] 0x88 none o d
  | blocked (h : ¬o.pos < o.len) (hopen : o.eof = 0) : Read o d [] 0x90 none o d
  | rejected {f : List Byte} {r : Option (List Byte)} (h : ¬o.pos < o.len) (hopen : o.eof = 0)
      (hread : IsRead o f) (hdata : readData (f, r) = none) : Read o d [(f, r)] 0x90 none o d
  | empty {f : List Byte} {r : Option (List Byte)} {e : Bool} (h : ¬o.pos < o.len) (hopen : o.eof = 0)
      (hread : IsRead o f) (hdata : readData (f, r) = some (e, [])) :
      Read o d [(f, r)] 0x88 none (o.publish e 0) []
  | refilled {f : List Byte} {r : Option (List Byte)} {e : Bool} {n b : Byte} {bs : List Byte}
      (h : ¬o.pos < o.len) (hopen : o.eof = 0) (hread : IsRead o f) (hdata : readData (f, r) = some (e, b :: bs))
      (hn : n.toNat = bs.length + 1) (hle : n.toNat ≤ 128) :
      Read o d [(f, r)] 1 (some b) (o.publish e n).taken (b :: bs)

/-! ### One READ -/

theorem readRequest_isRead {w : Ram} {p : Wire} (h : SessionBuilt 2 w.owner p) :
    IsRead w.owner (frameOf (readRequest (w.setWire p)).wire) := by
  have hsame : ∀ i < 13, (readRequest (w.setWire p)).wire.packet i = p.packet i := fun i hi => by
    simp [readRequest, Function.update_of_ne (show i ≠ 13 by omega)]
  have hlen : (readRequest (w.setWire p)).wire.requestLen = 15 := rfl
  have h13 : (readRequest (w.setWire p)).wire.packet 13 = 128 := by simp [readRequest]
  have h14 : (readRequest (w.setWire p)).wire.packet 14 = 0 := by
    rw [← h.count.2]
    simp [readRequest]
  generalize (readRequest (w.setWire p)).wire = q at *
  refine ⟨h.isRequest hsame (by rw [hlen]; decide), ?_⟩
  rw [frameCount, frameOf_take (by decide) (by rw [hlen]; decide)]
  change le [q.packet 13, q.packet 14] = 128
  rw [h13, h14]
  rfl

/-- `readData` reads a valid response as `do_get` does. -/
theorem readData_eq {f : List Byte} {o : Owner} {w : Wire} {n : Byte} (hread : IsRead o f) (hacc : Accepted w)
    (hn : rwCount o.handle (replyOf w) = some n) :
    readData (f, some (replyOf w)) =
      if n.toNat ≤ w.payloadLen.toNat - 12 then
        some (decide (w.packet (1 + w.payload.toNat) &&& 1 ≠ 0), slice w.packet (12 + w.payload.toNat) n.toNat)
      else none := by
  have hlen : 12 ≤ w.payloadLen.toNat := by
    rw [← hacc.length_payload]
    simp only [rwCount] at hn
    split_ifs at hn with h
    exact h.1
  simp only [readData, hread.handle, hn, hacc.length_payload, hacc.payload_getD (show 1 < _ by omega)]
  refine if_ctx_congr Iff.rfl (fun h => ?_) fun _ => rfl
  rw [hacc.payloadOf, drop_slice _ _ _ _ hlen, take_slice _ _ _ _ h, Nat.add_comm w.payload.toNat]

theorem rwCount_le {handle : Byte × Byte} {r : List Byte} {n : Byte} (h : rwCount handle r = some n) :
    n.toNat ≤ 128 := by
  simp only [rwCount] at h
  split_ifs at h with hok
  cases h
  have := hok.2.2.2
  bv_omega

/-! ### The cache -/

theorem getCached_spec {w : Ram} (hpos : w.owner.pos < w.owner.len) :
    (getCached w).1 = 1 ∧ (getCached w).2.callerA = (cached w.slot w).getD w.owner.pos.toNat 0 ∧
      (getCached w).2.owner = w.owner.taken ∧ cached w.slot (getCached w).2 = cached w.slot w ∧
      Did w (getCached w).2 [] [] := by
  refine ⟨rfl, ?_, Ram.setOwner_owner .., ?_, (did_setCaller _ w).nil (did_setOwner _ _)⟩
  · have hlt : w.owner.pos.toNat < (w.owners w.slot).len.toNat := hpos
    rw [cached, List.getD_eq_getElem?_getD, getElem?_slice _ _ _ _ hlt, Nat.zero_add]
    change w.caches (w.slot.cache + w.owner.pos) = half w.slot w w.owner.pos.toNat
    rw [add_toNat_eq]
    rfl
  · exact (cached_setOwner w.owner.taken (w.setCaller _ _)).trans rfl

theorem publishRead_eq (w : Ram) :
    publishRead w =
      (w.setOwner (w.owner.publish (w.wire.packet (1 + w.wire.payload.toNat) &&& 1 ≠ 0) w.count)).setCaches
        (fillCache w.wire.packet w.count.toNat w.wire.payload.toNat (w.slot.cache + 0) w.caches) := by
  have hflag (b : Byte) : (b &&& 1) = if decide (b &&& 1 ≠ 0) = true then 1 else 0 := by
    revert b
    decide
  simp only [publishRead, Owner.publish, cacheIndex, Ram.setOwner_owner, ← hflag]
  rfl

theorem publishRead_spec {w : Ram} (hn : w.count.toNat ≤ 128) :
    (publishRead w).owner =
        w.owner.publish (w.wire.packet (1 + w.wire.payload.toNat) &&& 1 ≠ 0) w.count ∧
      cached w.slot (publishRead w) = slice w.wire.packet (12 + w.wire.payload.toNat) w.count.toNat ∧
      Did w (publishRead w) [] [] := by
  rw [publishRead_eq]
  have hlen : (w.owner.publish (w.wire.packet (1 + w.wire.payload.toNat) &&& 1 ≠ 0) w.count).len = w.count := by
    simp [Owner.publish]
  generalize w.owner.publish (w.wire.packet (1 + w.wire.payload.toNat) &&& 1 ≠ 0) w.count = o at *
  have hlen' : ((w.setOwner o).owners w.slot).len = w.count :=
    (congrArg Owner.len (Ram.setOwner_owner o w)).trans hlen
  have hzero : w.slot.cache + 0 = w.slot.cache + BitVec.ofNat 8 0 := rfl
  refine ⟨Ram.setOwner_owner o w, ?_, ?_⟩
  · rw [cached, Ram.setCaches_owners, hlen']
    refine slice_eq_iff.2 fun j hj => ?_
    rw [Nat.zero_add, half, hzero]
    refine (fillCache_eq _ _ _ 0 _ _ (by omega) j (by omega)).trans ?_
    rw [if_pos (by omega), Nat.sub_zero]
  · refine (did_setOwner o w).of_nil (did_setCaches fun k hk i hi => ?_)
    rw [hzero]
    exact fillCache_other hk _ _ _ 0 _ (by omega) hi

/-! ### `do_get` -/

/-- The result of GET from `@read` on. A failure leaves every record and cache byte. -/
structure ReadDone (w : Ram) (r : Byte × Ram) (xs : List Exchange) (got : Option Byte) : Prop where
  read : Read w.owner (cached w.slot w) xs r.1 got r.2.owner (cached w.slot r.2)
  callerA : ∀ b, got = some b → r.2.callerA = b
  did : Did w r.2 xs []
  failed : r.1 = 0x90 → r.2.owners = w.owners ∧ r.2.caches = w.caches

theorem owner_of_owners {w w' : Ram} (hslot : w'.slot = w.slot) (howners : w'.owners = w.owners) :
    w'.owner = w.owner := by
  rw [Ram.owner, Ram.owner, hslot, howners]

theorem cached_of_same {w w' : Ram} (howners : w'.owners = w.owners) (hcaches : w'.caches = w.caches) (k : Slot) :
    cached k w' = cached k w := by
  rw [cached, cached, howners]
  exact slice_congr fun j _ => by rw [half, half, hcaches]

theorem ReadDone.ioError {w w' : Ram} {xs : List Exchange} (hdid : Did w w' xs [])
    (howners : w'.owners = w.owners) (hcaches : w'.caches = w.caches)
    (h : Read w.owner (cached w.slot w) xs 0x90 none w.owner (cached w.slot w)) :
    ReadDone w (ioError w') xs none where
  read := by
    simp only [Resident.ioError]
    rw [owner_of_owners hdid.slot howners, cached_of_same howners hcaches]
    exact h
  callerA := by simp
  did := hdid
  failed _ := ⟨howners, hcaches⟩

/-- The state once a READ was sent and a valid response with count `n` came back. -/
theorem readDone_accepted {w v : Ram} {f : List Byte} (hstop : ¬w.owner.pos < w.owner.len)
    (hopen : w.owner.eof = 0) (hread : IsRead w.owner f) (hacc : Accepted v.wire)
    (hdid : Did w v [(f, some (replyOf v.wire))] []) (howners : v.owners = w.owners)
    (hcaches : v.caches = w.caches)
    (hn : rwCount w.owner.handle (replyOf v.wire) = some v.count) :
    ∃ got, ReadDone w
      (if v.wire.payloadLen - 12 < v.count then ioError v
      else if (publishRead v).count = 0 then eof (publishRead v) else getCached (publishRead v))
      [(f, some (replyOf v.wire))] got := by
  have hdata := readData_eq hread hacc hn
  have hle := rwCount_le hn
  have hcount : (publishRead v).count = v.count := rfl
  have howner := owner_of_owners hdid.slot howners
  obtain ⟨hpo, hpc, hpd⟩ := publishRead_spec hle
  rw [howner] at hpo
  have hlen : 12 ≤ v.wire.payloadLen.toNat := by
    rw [← hacc.length_payload]
    simp only [rwCount] at hn
    split_ifs at hn with h
    exact h.1
  rw [hcount]
  split_ifs with hshort hzero
  · refine ⟨none, .ioError hdid howners hcaches (.rejected hstop hopen hread ?_)⟩
    rw [hdata, if_neg (by bv_omega)]
  · have hempty : cached v.slot (publishRead v) = [] := by rw [hpc, hzero]; rfl
    have hdata' := hdata.trans (if_pos (by rw [hzero]; exact Nat.zero_le _))
    rw [hzero] at hpo hdata'
    refine ⟨none, ?_, by simp, hdid.nil hpd, fun h => absurd h (by simp [eof])⟩
    simp only [eof]
    rw [hpo, ← hdid.slot, hempty]
    exact .empty hstop hopen hread hdata'
  · have hpos : (publishRead v).owner.pos < (publishRead v).owner.len := by
      rw [hpo]
      simp only [Owner.publish, addOffset_len]
      bv_omega
    obtain ⟨m, hm⟩ : ∃ m, v.count.toNat = m + 1 := Nat.exists_eq_succ_of_ne_zero (by bv_omega)
    have hdata' := hdata.trans (if_pos (by bv_omega))
    rw [hm, slice_cons] at hpc hdata'
    obtain ⟨hy, ha, ho, hc, hd⟩ := getCached_spec hpos
    have hfirst : (publishRead v).owner.pos = 0 := by
      rw [hpo]
      rfl
    rw [hpd.slot, hpc] at ha hc
    rw [hfirst] at ha
    refine ⟨some _, ?_, fun b hb => ha.trans (Option.some.inj hb), hdid.nil (hpd.nil hd), fun h => absurd (hy.symm.trans h) (by decide)⟩
    rw [hy, ho, hpo, ← hdid.slot, hc]
    exact .refilled hstop hopen hread hdata' (by rw [length_slice, hm]) hle

theorem getRefill_spec {w : Ram} (hstop : ¬w.owner.pos < w.owner.len) (hopen : w.owner.eof = 0) :
    ∃ xs got, ReadDone w (getRefill w) xs got := by
  obtain ⟨p, hp, hlogs, hbuilt⟩ := sessionPacket_spec 2 w
  simp only [getRefill]
  rw [hp]
  cases hc : (sessionPacket 2 w).1
  · have hread := readRequest_isRead (hbuilt hc)
    have hdid : Did w (readRequest (w.setWire p)) [] [] :=
      (did_setWire hlogs).nil (did_setWire (w := w.setWire p) (.same rfl))
    have howners : (readRequest (w.setWire p)).owners = w.owners := rfl
    have hcaches : (readRequest (w.setWire p)).caches = w.caches := rfl
    have howner : (readRequest (w.setWire p)).owner = w.owner := rfl
    generalize readRequest (w.setWire p) = w₀ at *
    obtain ⟨q, hq, hqlogs, hacc⟩ := transfer_spec w₀
    rw [hq]
    have hdid' := hdid.of_nil (did_setWire hqlogs)
    cases hc' : (transfer w₀).1
    · simp only [hc', Bool.false_eq_true, if_false] at hdid' ⊢
      rw [checkRw_eq (w := w₀.setWire q) (hacc hc')]
      cases hcount : rwCount (w₀.setWire q).owner.handle (replyOf (w₀.setWire q).wire) with
      | none =>
        rw [setWire_owner, howner] at hcount
        refine ⟨_, none, .ioError hdid' howners hcaches (.rejected hstop hopen hread ?_)⟩
        have hcount' : rwCount w.owner.handle (replyOf q) = none := hcount
        simp only [readData, hread.handle, hcount']
      | some n =>
        rw [setWire_owner, howner] at hcount
        obtain ⟨got, h⟩ := readDone_accepted (v := (w₀.setWire q).setCount n) hstop hopen hread (hacc hc')
          (hdid'.nil (did_setCount _ _)) howners hcaches hcount
        exact ⟨_, got, h⟩
    · simp only [hc', if_true] at hdid' ⊢
      exact ⟨_, none, .ioError hdid' howners hcaches (.rejected hstop hopen hread rfl)⟩
  · exact ⟨[], none, .ioError (did_setWire hlogs) rfl rfl (.blocked hstop hopen)⟩

theorem getRead_spec (w : Ram) : ∃ xs got, ReadDone w (getRead w) xs got := by
  unfold getRead
  split_ifs with hpos heof
  · obtain ⟨hy, ha, ho, hc, hd⟩ := getCached_spec hpos
    refine ⟨[], some _, ?_, fun b hb => ha.trans (Option.some.inj hb), hd, fun h => absurd (hy.symm.trans h) (by decide)⟩
    rw [hy, ho, hc]
    exact .cached hpos
  · exact ⟨[], none, .atEof hpos heof, by simp, .refl w, fun h => absurd h (by simp [eof])⟩
  · exact getRefill_spec hpos (not_not.1 heof)

/-- The record at the switch from writing to reading. -/
def Owner.startReading (o : Owner) : Owner :=
  { o with
    offset0 := 0, offset1 := 0, offset2 := 0, offset3 := 0, len := 0, pos := 0, eof := 0,
    reading := o.reading + 1 }

/-- GET: the exchanges, the result, the byte returned, and the record and cached bytes it leaves. -/
inductive Get (o : Owner) (d : List Byte) :
    List Exchange → Byte → Option Byte → Owner → List Byte → Prop
  | unsupported (h : o.mode ≠ 4) (hmode : o.mode ≠ 12) : Get o d [] 0x92 none o d
  | read {xs : List Exchange} {y : Byte} {got : Option Byte} {o' : Owner} {d' : List Byte}
      (h : o.mode = 4 ∨ o.mode = 12 ∧ o.reading ≠ 0) (hread : Read o d xs y got o' d') : Get o d xs y got o' d'
  | refused {xs : List Exchange} {a : Byte} {o' : Owner} {d' : List Byte} (h : o.mode = 12) (hfirst : o.reading = 0)
      (hfinish : Finish o d xs a o' d') (ha : a ≠ 1) : Get o d xs 0x90 none o' d'
  | started {xs ys : List Exchange} {y : Byte} {got : Option Byte} {o₁ o' : Owner} {d₁ d' : List Byte}
      (h : o.mode = 12) (hfirst : o.reading = 0) (hfinish : Finish o d xs 1 o₁ d₁)
      (hread : Read o₁.startReading [] ys y got o' d') : Get o d (xs ++ ys) y got o' d'

theorem Read.command {o o' : Owner} {d d' : List Byte} {xs : List Exchange} {y : Byte} {got : Option Byte}
    (h : Read o d xs y got o' d') : ∀ x ∈ xs, frameCommand x.1 = 2 := by
  intro x hx
  cases h with
  | cached | atEof | blocked => simp at hx
  | rejected _ _ hread _ => rw [List.mem_singleton.1 hx, hread.command]
  | empty _ _ hread _ => rw [List.mem_singleton.1 hx, hread.command]
  | refilled _ _ hread _ _ _ => rw [List.mem_singleton.1 hx, hread.command]

/-- Reading leaves the mode and the flags of the record. -/
theorem Read.flags {o o' : Owner} {d d' : List Byte} {xs : List Exchange} {y : Byte} {got : Option Byte}
    (h : Read o d xs y got o' d') :
    o'.mode = o.mode ∧ o'.fault = o.fault ∧ o'.committed = o.committed ∧ o'.reading = o.reading := by
  cases h with
  | cached | atEof | blocked | rejected => exact ⟨rfl, rfl, rfl, rfl⟩
  | empty => exact ⟨by simp, by simp, by simp, by simp⟩
  | refilled => exact ⟨by simp [Owner.taken], by simp [Owner.taken], by simp [Owner.taken], by simp [Owner.taken]⟩

/-- A READ whose response is not accepted ends GET with `$90`. -/
theorem Read.rejected_result {o o' : Owner} {d d' : List Byte} {xs : List Exchange} {y : Byte} {got : Option Byte}
    (h : Read o d xs y got o' d') {x : Exchange} (hx : x ∈ xs) (hdata : readData x = none) : y = 0x90 := by
  cases h with
  | cached | atEof | blocked => simp at hx
  | rejected => rfl
  | empty _ _ _ h => rw [List.mem_singleton.1 hx, h] at hdata; simp at hdata
  | refilled _ _ _ h _ _ => rw [List.mem_singleton.1 hx, h] at hdata; simp at hdata

/-- The result of GET. Once a READ is rejected, the records and caches are as
they were when it was built, which is where `getEnter` left them. -/
structure GetDone (w : Ram) (r : Byte × Ram) (xs : List Exchange) (got : Option Byte) : Prop where
  get : Get w.owner (cached w.slot w) xs r.1 got r.2.owner (cached w.slot r.2)
  callerA : ∀ b, got = some b → r.2.callerA = b
  did : Did w r.2 xs []
  rejected : ∀ x ∈ xs, frameCommand x.1 = 2 → readData x = none →
    r.1 = 0x90 ∧ r.2.owners = (getEnter w).2.owners ∧ r.2.caches = (getEnter w).2.caches

theorem ReadDone.getDone {w : Ram} {r : Byte × Ram} {xs : List Exchange} {got : Option Byte}
    (h : ReadDone w r xs got) (hmode : w.owner.mode = 4 ∨ w.owner.mode = 12 ∧ w.owner.reading ≠ 0)
    (henter : getEnter w = (none, w)) : GetDone w r xs got where
  get := .read hmode h.read
  callerA := h.callerA
  did := h.did
  rejected x hx _ hdata := by
    have hy := h.read.rejected_result hx hdata
    rw [henter]
    exact ⟨hy, h.failed hy⟩

theorem startReading_spec (w : Ram) :
    (startReading w).owner = w.owner.startReading ∧ cached w.slot (startReading w) = [] ∧
      Did w (startReading w) [] [] :=
  ⟨Ram.setOwner_owner .., (cached_setOwner w.owner.startReading w).trans rfl, did_setOwner _ w⟩

/-- The first GET of an update owner. -/
theorem doGet_first {w : Ram} (hlen : w.owner.len.toNat ≤ 128) (hmode : w.owner.mode = 12)
    (hfirst : w.owner.reading = 0) : ∃ xs got, GetDone w (doGet w) xs got := by
  have h4 : w.owner.mode ≠ 4 := by
    rw [hmode]
    decide
  obtain ⟨xs, hfinish, hdid⟩ := finishWrite_spec hlen
  by_cases ha : (finishWrite w).1 = 1
  · have henter : getEnter w = (none, startReading (finishWrite w).2) := by
      rw [getEnter, if_neg h4, if_neg (not_not.2 hmode), if_neg (not_not.2 hfirst)]
      simp only [ha, ne_eq, not_true_eq_false, if_false]
    obtain ⟨hso, hsc, hsd⟩ := startReading_spec (finishWrite w).2
    obtain ⟨ys, got, hread⟩ := getRead_spec (startReading (finishWrite w).2)
    rw [ha] at hfinish
    have hr := hread.read
    rw [hso, hsd.slot, hdid.slot] at hr
    rw [hdid.slot] at hsc
    rw [hsc] at hr
    simp only [doGet, henter]
    refine ⟨xs ++ ys, got, .started hmode hfirst hfinish hr, hread.callerA,
      hdid.trans (hsd.of_nil hread.did), fun x hx hcommand hdata => ?_⟩
    rcases List.mem_append.1 hx with hx | hx
    · exact absurd (hcommand.symm.trans (hfinish.command x hx)) (by decide)
    · have hy := hr.rejected_result hx hdata
      rw [henter]
      exact ⟨hy, hread.failed hy⟩
  · have henter : getEnter w = (some 0x90, (finishWrite w).2) := by
      rw [getEnter, if_neg h4, if_neg (not_not.2 hmode), if_neg (not_not.2 hfirst)]
      simp only [ha, ne_eq, not_false_eq_true, if_true]
    simp only [doGet, henter]
    refine ⟨xs, none, .refused hmode hfirst hfinish ha, by simp, hdid, fun x hx hcommand _ => ?_⟩
    exact absurd (hcommand.symm.trans (hfinish.command x hx)) (by decide)

theorem doGet_spec {w : Ram} (hlen : w.owner.len.toNat ≤ 128) : ∃ xs got, GetDone w (doGet w) xs got := by
  by_cases h4 : w.owner.mode = 4
  · have henter : getEnter w = (none, w) := if_pos h4
    obtain ⟨xs, got, h⟩ := getRead_spec w
    simp only [doGet, henter]
    exact ⟨xs, got, h.getDone (.inl h4) henter⟩
  by_cases h12 : w.owner.mode = 12
  · by_cases hfirst : w.owner.reading = 0
    · exact doGet_first hlen h12 hfirst
    · have henter : getEnter w = (none, w) := by
        rw [getEnter, if_neg h4, if_neg (not_not.2 h12), if_pos hfirst]
      obtain ⟨xs, got, h⟩ := getRead_spec w
      simp only [doGet, henter]
      exact ⟨xs, got, h.getDone (.inr ⟨h12, hfirst⟩) henter⟩
  · have henter : getEnter w = (some 0x92, w) := by rw [getEnter, if_neg h4, if_pos h12]
    simp only [doGet, henter]
    exact ⟨[], none, .unsupported h4 h12, by simp, .refl w, by simp⟩

end NioApps.Resident
