import NioApps.Sanity.Owners

/-! What the writing operations send and what they leave behind, in terms of
the owner's record and the list of its cached bytes. `Flush` has one constructor
for each way a packet of `flush` can end. -/

namespace NioApps.Resident

/-- `f` is a request with command `a` that carries the handle and offset of `o`. -/
structure IsRequest (a : Byte) (o : Owner) (f : List Byte) : Prop where
  command : frameCommand f = a
  handle : frameHandle f = o.handle
  offset : frameOffset f = o.offset

/-- `f` is a WRITE of `d` for `o`. -/
structure IsWrite (o : Owner) (d f : List Byte) : Prop extends IsRequest 3 o f where
  count : frameCount f = d.length
  data : frameData f = d

theorem frameOf_take {q : Wire} {i n : ℕ} (h : 4 < i) (hn : i + n ≤ q.requestLen.toNat) :
    ((frameOf q).drop i).take n = slice q.packet i n := by
  rw [frameOf_drop q h (by omega), take_slice _ _ _ _ (by omega)]

/-- A request whose first 13 bytes `session_packet` left. -/
theorem SessionBuilt.isRequest {a : Byte} {o : Owner} {p q : Wire} (h : SessionBuilt a o p)
    (hq : ∀ i < 13, q.packet i = p.packet i) (hlen : 13 ≤ q.requestLen.toNat) : IsRequest a o (frameOf q) where
  command := by
    rw [frameCommand, frameOf_getD q (by decide) (by decide) (by omega), hq 1 (by decide), h.command]
  handle := by
    rw [frameHandle, frameOf_getD q (by decide) (by decide) (by omega),
      frameOf_getD q (by decide) (by decide) (by omega), hq 7 (by decide), hq 8 (by decide), h.handle]
  offset := by
    rw [frameOffset, frameOf_take (by decide) (by omega), ← h.offset]
    exact congrArg le (slice_congr fun j hj => hq _ (by omega))

/-! ### One WRITE -/

/-- The request buffer of a WRITE. -/
theorem writeRequest_eq (w : Ram) (p : Wire) :
    ∃ q, writeRequest (w.setWire p) = (w.setOwner { w.owner with pos := 0 }).setWire q ∧ q.log = p.log ∧
      q.requestLen = w.owner.len + 15 ∧
      ∀ i, q.packet i =
        if 15 ≤ i ∧ i < 15 + w.owner.len.toNat then half w.slot w (i - 15)
        else if i = 13 then w.owner.len else p.packet i := by
  refine ⟨((p.poke 13 w.owner.len).setRequestLen (w.owner.len + 15)).setPacket _, rfl, rfl, rfl, fun i => ?_⟩
  simp [flushCopy_eq, half, Function.update_apply, cacheIndex]

theorem writeRequest_isWrite {w : Ram} {p q : Wire} (h : SessionBuilt 3 w.owner p)
    (hlen : w.owner.len.toNat ≤ 128) (hreq : q.requestLen = w.owner.len + 15)
    (hq : ∀ i, q.packet i =
      if 15 ≤ i ∧ i < 15 + w.owner.len.toNat then half w.slot w (i - 15)
      else if i = 13 then w.owner.len else p.packet i) :
    IsWrite w.owner (cached w.slot w) (frameOf q) := by
  have hn : q.requestLen.toNat = w.owner.len.toNat + 15 := by
    rw [hreq]
    bv_omega
  have hsame (i : ℕ) (hi : i < 13) : q.packet i = p.packet i := by
    rw [hq, if_neg (by omega), if_neg (by omega)]
  refine ⟨h.isRequest hsame (by omega), ?_, ?_⟩
  · have h13 : q.packet 13 = w.owner.len := by rw [hq, if_neg (by omega), if_pos rfl]
    have h14 : q.packet 14 = 0 := by rw [hq, if_neg (by omega), if_neg (by omega), h.count.2]
    rw [frameCount, frameOf_take (by decide) (by omega), length_cached]
    change le [q.packet 13, q.packet 14] = w.owner.len.toNat
    rw [h13, h14]
    simp
  · rw [frameData, frameOf_drop q (by decide) (by omega), hn, Nat.add_sub_cancel, cached]
    exact slice_eq_iff.2 fun j hj => by
      rw [hq, if_pos ⟨by omega, by simpa using hj⟩, Nat.add_sub_cancel_left, Nat.zero_add]

theorem IsWrite.writeAck_eq {o : Owner} {d f : List Byte} (h : IsWrite o d f) (r : Option (List Byte)) :
    writeAck (f, r) = (r.bind (rwCount o.handle)).bind fun k =>
      if k.toNat ≤ d.length ∧ (k ≠ 0 ∨ d.length = 0) then some k.toNat else none := by
  simp only [writeAck, h.handle, h.count]
  cases r.bind (rwCount o.handle) <;> rfl

/-! ### `flush` -/

/-- The record after a full acknowledgement, and after one of `n` bytes. -/
def Owner.ackAll (o : Owner) : Owner := { addOffset o.len { o with pos := 0 } with len := 0 }

def Owner.ackPart (n : Byte) (o : Owner) : Owner := { addOffset n { o with pos := 0 } with len := o.len - n }

/-- `flush` from a record and its cached bytes: the exchanges, the result, and
the record and cached bytes it leaves. -/
inductive Flush : Owner → List Byte → List Exchange → Byte → Owner → List Byte → Prop
  | blocked (o : Owner) (d : List Byte) : Flush o d [] 0x90 { o with fault := 1 } d
  | lost {o : Owner} {d f : List Byte} {r : Option (List Byte)} (h : IsWrite o d f)
      (hack : writeAck (f, r) = none) : Flush o d [(f, r)] 0x90 { o with pos := 0, fault := 1 } d
  | full {o : Owner} {d f : List Byte} {r : Option (List Byte)} (h : IsWrite o d f)
      (hack : writeAck (f, r) = some d.length) : Flush o d [(f, r)] 1 o.ackAll []
  | part {o o' : Owner} {d d' f : List Byte} {r : Option (List Byte)} {xs : List Exchange} {a : Byte}
      (n : Byte) (h : IsWrite o d f) (hack : writeAck (f, r) = some n.toNat) (hpos : 0 < n.toNat)
      (hlt : n.toNat < d.length) (hrest : Flush (o.ackPart n) (d.drop n.toNat) xs a o' d') :
      Flush o d ((f, r) :: xs) a o' d'

/-- The routine leaves the result and state of a `Flush` from `w`. -/
def Flushed (w : Ram) (r : Byte × Ram) : Prop :=
  ∃ xs, Flush w.owner (cached w.slot w) xs r.1 r.2.owner (cached w.slot r.2) ∧ Did w r.2 xs []

theorem cached_setOwner (o : Owner) (w : Ram) :
    cached w.slot (w.setOwner o) = slice (half w.slot w) 0 o.len.toNat := by
  simp [cached]

theorem keepSuffix_eq (w : Ram) :
    keepSuffix w = (w.setOwner { addOffset w.count w.owner with len := w.owner.len - w.count }).setCaches
      (shiftCache (w.owner.len - w.count).toNat (w.slot.cache + w.count) w.slot.cache w.caches) := by
  simp only [keepSuffix, Ram.setOwner_owner, addOffset_len]
  rfl

/-- `@partial`: the suffix moves to the front of the cache. -/
theorem keepSuffix_spec {w : Ram} (hpos : 0 < w.count.toNat) (hlt : w.count.toNat < w.owner.len.toNat)
    (hlen : w.owner.len.toNat ≤ 128) :
    (keepSuffix w).owner = { addOffset w.count w.owner with len := w.owner.len - w.count } ∧
      cached w.slot (keepSuffix w) = (cached w.slot w).drop w.count.toNat ∧ Did w (keepSuffix w) [] [] := by
  have hsub : (w.owner.len - w.count).toNat = w.owner.len.toNat - w.count.toNat := by bv_omega
  have hy : w.slot.cache + w.count = w.slot.cache + BitVec.ofNat 8 (w.count.toNat + 0) := add_toNat_eq ..
  have hy0 : w.slot.cache = w.slot.cache + BitVec.ofNat 8 0 := (BitVec.add_zero _).symm
  rw [keepSuffix_eq, hsub]
  have ho : ({ addOffset w.count w.owner with len := w.owner.len - w.count } : Owner).len =
    w.owner.len - w.count := rfl
  generalize ({ addOffset w.count w.owner with len := w.owner.len - w.count } : Owner) = o at ho ⊢
  refine ⟨Ram.setOwner_owner o w, ?_, ?_⟩
  · have howner : ((w.setOwner o).owners w.slot).len.toNat = w.owner.len.toNat - w.count.toNat := by
      rw [← hsub, ← ho]
      exact congrArg (fun o => o.len.toNat) (Ram.setOwner_owner o w)
    rw [cached, Ram.setCaches_owners, howner, cached, drop_slice _ _ _ _ (by exact hlt.le), Nat.zero_add]
    refine slice_eq_iff.2 fun j hj => ?_
    have hshift := shiftCache_eq (w.owner.len.toNat - w.count.toNat) w.count.toNat 0 w.slot.cache w.caches hpos
      (by omega) (0 + j) (by omega)
    rw [← hy, ← hy0, if_pos (by omega), Nat.zero_add] at hshift
    rw [half, Nat.zero_add]
    exact hshift
  · refine (did_setOwner _ w).of_nil (did_setCaches fun k hk i hi => ?_)
    have hother := shiftCache_other (k := w.slot) hk (w.owner.len.toNat - w.count.toNat) w.count.toNat 0 w.caches
      (by omega) hi
    rwa [← hy, BitVec.add_zero] at hother

/-- `write_error` keeps the cached bytes. -/
theorem Flushed.error {w w₁ : Ram} {xs : List Exchange} (hdid : Did w w₁ xs [])
    (h : Flush w.owner (cached w.slot w) xs 0x90 { w₁.owner with fault := 1 } (cached w.slot w₁)) :
    Flushed w (writeError w₁) := by
  have howner : (writeError w₁).2.owner = { w₁.owner with fault := 1 } := Ram.setOwner_owner ..
  have hcached : cached w.slot (writeError w₁).2 = cached w.slot w₁ := by
    rw [← hdid.slot]
    exact (cached_setOwner _ w₁).trans rfl
  refine ⟨xs, ?_, hdid.nil (did_setOwner _ _)⟩
  rw [howner, hcached]
  exact h

/-- The state after a WRITE was sent and its reply read; `c` is the carry flag. -/
structure WriteSent (w : Ram) (f : List Byte) (r : Option (List Byte)) (c : Bool) (w₁ : Ram) : Prop where
  write : IsWrite w.owner (cached w.slot w) f
  did : Did w w₁ [(f, r)] []
  owner : w₁.owner = { w.owner with pos := 0 }
  cached : cached w.slot w₁ = cached w.slot w
  failed : c = true → r = none
  accepted : c = false → r = some (replyOf w₁.wire) ∧ Accepted w₁.wire

theorem transfer_writeSent {w : Ram} (hlen : w.owner.len.toNat ≤ 128) (hc : (sessionPacket 3 w).1 = false) :
    ∃ f r, WriteSent w f r (transfer (writeRequest (sessionPacket 3 w).2)).1
      (transfer (writeRequest (sessionPacket 3 w).2)).2 := by
  obtain ⟨p, hp, hlogs, hbuilt⟩ := sessionPacket_spec 3 w
  obtain ⟨q, hq, hqlog, hreq, hpacket⟩ := writeRequest_eq w p
  have hlogs' : Logs w.wire q [] [] := hlogs.quiet (.same hqlog)
  have hwrite := writeRequest_isWrite (hbuilt hc) hlen hreq hpacket
  rw [hp, hq]
  have howner : ((w.setOwner { w.owner with pos := 0 }).setWire q).owner = { w.owner with pos := 0 } :=
    (setWire_owner ..).trans (Ram.setOwner_owner ..)
  have hcached : cached w.slot ((w.setOwner { w.owner with pos := 0 }).setWire q) = cached w.slot w :=
    (cached_setOwner _ w).trans rfl
  have hdid : Did w ((w.setOwner { w.owner with pos := 0 }).setWire q) [] [] :=
    (did_setOwner _ w).of_nil (did_setWire (w := w.setOwner _) hlogs')
  have hframe : frameOf ((w.setOwner { w.owner with pos := 0 }).setWire q).wire = frameOf q := rfl
  generalize (w.setOwner { w.owner with pos := 0 }).setWire q = w₀ at *
  obtain ⟨p', ht, htl, hacc⟩ := transfer_spec w₀
  rw [← hframe] at hwrite
  rw [ht]
  exact ⟨_, _, hwrite, hdid.of_nil (did_setWire htl), howner, hcached, fun h => if_pos h,
    fun h => ⟨if_neg (by simp [h]), hacc h⟩⟩

/-- `flush` once a valid count has been read: an error, one more packet, or the end. -/
theorem flushed_acked {n : ℕ} {w v : Ram} {f : List Byte} {r : Option (List Byte)}
    (ih : ∀ w : Ram, w.owner.len.toNat < n → w.owner.len.toNat ≤ 128 → Flushed w (flushLoop n w))
    (hwrite : IsWrite w.owner (cached w.slot w) f) (hdid : Did w v [(f, r)] [])
    (howner : v.owner = { w.owner with pos := 0 }) (hcached : cached w.slot v = cached w.slot w)
    (hack : writeAck (f, r) =
      if v.count.toNat ≤ w.owner.len.toNat ∧ (v.count ≠ 0 ∨ w.owner.len.toNat = 0) then some v.count.toNat
      else none)
    (hn : w.owner.len.toNat ≤ n) (hlen : w.owner.len.toNat ≤ 128) :
    Flushed w
      (if v.count < v.owner.len then
        if v.count = 0 then writeError v else flushLoop n (keepSuffix v)
      else if v.count ≠ v.owner.len then writeError v
      else success (v.setOwner { addOffset v.count v.owner with len := 0 })) := by
  have hlost (ha : writeAck (f, r) = none) : Flushed w (writeError v) := by
    refine .error hdid ?_
    rw [hcached, howner]
    exact .lost hwrite ha
  have hlen₁ : v.owner.len = w.owner.len := by rw [howner]
  split_ifs with hlt hzero hne
  · exact hlost (by rw [hack, if_neg (by bv_omega)])
  · -- a short acknowledgement: the suffix is flushed from a shorter cache
    have hpos : 0 < v.count.toNat := by bv_omega
    have hlt' : v.count.toNat < w.owner.len.toNat := by bv_omega
    obtain ⟨hko, hkc, hkd⟩ := keepSuffix_spec hpos hlt (by rw [hlen₁]; exact hlen)
    rw [hdid.slot] at hkc
    have hklen : (keepSuffix v).owner.len.toNat = w.owner.len.toNat - v.count.toNat := by
      rw [hko, hlen₁]
      bv_omega
    obtain ⟨xs, hflush, hdid'⟩ := ih (keepSuffix v) (by omega) (by omega)
    refine ⟨(f, r) :: xs, .part v.count hwrite ?_ hpos ?_ ?_, hdid.trans (hkd.of_nil hdid')⟩
    · rw [hack, if_pos ⟨by omega, .inl (by bv_omega)⟩]
    · rw [length_cached]
      exact hlt'
    · rw [hkd.slot, hdid.slot, hkc, hcached, hko, howner] at hflush
      exact hflush
  · exact hlost (by rw [hack, if_neg (by bv_omega)])
  · have heq : v.count = w.owner.len := by bv_omega
    have hdone : cached w.slot (v.setOwner { addOffset v.count v.owner with len := 0 }) = [] := by
      rw [← hdid.slot, cached_setOwner]
      rfl
    have hall : (v.setOwner { addOffset v.count v.owner with len := 0 }).owner = w.owner.ackAll := by
      rw [Ram.setOwner_owner, howner, heq]
      rfl
    have hack' : writeAck (f, r) = some (cached w.slot w).length := by
      rw [hack, heq, if_pos ⟨le_rfl, by bv_omega⟩, length_cached]
      rfl
    refine ⟨[(f, r)], ?_, hdid.nil (did_setOwner _ _)⟩
    simp only [success]
    rw [hall, hdone]
    exact .full hwrite hack'

theorem flushLoop_spec (n : ℕ) (w : Ram) (hn : w.owner.len.toNat < n) (hlen : w.owner.len.toNat ≤ 128) :
    Flushed w (flushLoop n w) := by
  induction n generalizing w with
  | zero => omega
  | succ n ih =>
    simp only [flushLoop]
    cases hc : (sessionPacket 3 w).1
    · -- the request is built and sent
      obtain ⟨f, r, hsent⟩ := transfer_writeSent hlen hc
      generalize (transfer (writeRequest (sessionPacket 3 w).2)).1 = c,
        (transfer (writeRequest (sessionPacket 3 w).2)).2 = w₁ at hsent ⊢
      have hack := hsent.write.writeAck_eq r
      have hlost (ha : writeAck (f, r) = none) : Flushed w (writeError w₁) := by
        refine .error hsent.did ?_
        rw [hsent.cached, hsent.owner]
        exact .lost hsent.write ha
      cases c
      · obtain ⟨rfl, hacc⟩ := hsent.accepted rfl
        rw [checkRw_eq hacc, hsent.owner]
        rw [Option.bind_some] at hack
        cases hcount : rwCount w.owner.handle (replyOf w₁.wire) with
        | none => exact hlost (by rw [hack, hcount]; rfl)
        | some k =>
          rw [hcount, Option.bind_some, length_cached] at hack
          exact flushed_acked (v := w₁.setCount k) ih hsent.write (hsent.did.nil (did_setCount _ _)) hsent.owner
            hsent.cached hack (by omega) hlen
      · exact hlost (by rw [hack, hsent.failed rfl]; rfl)
    · obtain ⟨p, hp, hlogs, -⟩ := sessionPacket_spec 3 w
      rw [if_pos rfl, hp]
      exact .error (did_setWire hlogs) (.blocked _ _)

theorem flush_spec {w : Ram} (hlen : w.owner.len.toNat ≤ 128) : Flushed w (flush w) :=
  flushLoop_spec _ w (Nat.lt_succ_self _) hlen

/-- What `flush` does to the record. -/
structure FlushResult (o : Owner) (a : Byte) (o' : Owner) (d' : List Byte) : Prop where
  own : o'.own = o.own
  mode : o'.mode = o.mode
  committed : o'.committed = o.committed
  reading : o'.reading = o.reading
  eof : o'.eof = o.eof
  cached : d'.length = o'.len.toNat
  len : o'.len.toNat ≤ o.len.toNat
  pos : o.pos.toNat ≤ o.len.toNat → o'.pos.toNat ≤ o'.len.toNat
  ok : a = 1 → o'.fault = o.fault ∧ d' = []
  failed : a ≠ 1 → a = 0x90 ∧ o'.fault = 1

theorem Flush.result {o o' : Owner} {d d' : List Byte} {xs : List Exchange} {a : Byte}
    (h : Flush o d xs a o' d') (hd : d.length = o.len.toNat) : FlushResult o a o' d' := by
  induction h with
  | blocked o d => exact ⟨rfl, rfl, rfl, rfl, rfl, hd, le_rfl, id, by simp, by simp⟩
  | lost hwrite hack => exact ⟨rfl, rfl, rfl, rfl, rfl, hd, le_rfl, fun _ => Nat.zero_le _, by simp, by simp⟩
  | full hwrite hack =>
    exact ⟨by simp [Owner.ackAll], by simp [Owner.ackAll], by simp [Owner.ackAll], by simp [Owner.ackAll],
      by simp [Owner.ackAll], rfl, Nat.zero_le _, by simp [Owner.ackAll], by simp [Owner.ackAll], by simp⟩
  | @part o o' d d' f r xs a n hwrite hack hpos hlt hrest ih =>
    have hlen : (o.ackPart n).len.toNat = o.len.toNat - n.toNat := by
      simp only [Owner.ackPart]
      bv_omega
    have h := ih (by rw [List.length_drop, hlen, hd])
    exact ⟨h.own.trans (by simp [Owner.ackPart]), h.mode.trans (by simp [Owner.ackPart]),
      h.committed.trans (by simp [Owner.ackPart]), h.reading.trans (by simp [Owner.ackPart]),
      h.eof.trans (by simp [Owner.ackPart]), h.cached, by have := h.len; omega,
      fun _ => h.pos (by simp [Owner.ackPart]), fun ha => ⟨(h.ok ha).1.trans (by simp [Owner.ackPart]), (h.ok ha).2⟩,
      h.failed⟩

theorem Flush.command {o o' : Owner} {d d' : List Byte} {xs : List Exchange} {a : Byte}
    (h : Flush o d xs a o' d') : ∀ x ∈ xs, frameCommand x.1 = 3 := by
  induction h with
  | blocked => simp
  | lost hwrite hack => simp [hwrite.command]
  | full hwrite hack => simp [hwrite.command]
  | part n hwrite hack hpos hlt hrest ih => simpa [hwrite.command] using ih

/-! ### `finish_write` -/

/-- The record after `inc owners+COMMITTED,x`, reached when `flush` returned 1. -/
def Owner.commit (a : Byte) (o : Owner) : Owner :=
  if a = 1 then { o with committed := o.committed + 1 } else o

/-- `finish_write`: `commit` and `last` end with the zero-length WRITE, `last`
after a `flush` of what was cached. -/
inductive Finish : Owner → List Byte → List Exchange → Byte → Owner → List Byte → Prop
  | fault {o : Owner} {d : List Byte} (h : o.fault ≠ 0) : Finish o d [] 0x90 o d
  | done {o : Owner} {d : List Byte} (h : o.fault = 0) (hdone : o.committed ≠ 0) : Finish o d [] 1 o d
  | commit {o o' : Owner} {d' : List Byte} {ys : List Exchange} {a : Byte} (h : o.fault = 0)
      (hopen : o.committed = 0) (hcommit : Flush o [] ys a o' d') : Finish o [] ys a (o'.commit a) d'
  | failed {o o' : Owner} {d d' : List Byte} {xs : List Exchange} {a : Byte} (h : o.fault = 0)
      (hopen : o.committed = 0) (hne : d ≠ []) (hflush : Flush o d xs a o' d') (ha : a ≠ 1) :
      Finish o d xs a o' d'
  | last {o o₁ o' : Owner} {d d' : List Byte} {xs ys : List Exchange} {a : Byte} (h : o.fault = 0)
      (hopen : o.committed = 0) (hne : d ≠ []) (hflush : Flush o d xs 1 o₁ [])
      (hcommit : Flush o₁ [] ys a o' d') : Finish o d (xs ++ ys) a (o'.commit a) d'

theorem cached_eq_nil {k : Slot} {w : Ram} : cached k w = [] ↔ (w.owners k).len = 0 := by
  rw [← List.length_eq_zero_iff, length_cached, BitVec.toNat_eq]
  rfl

/-- `@commit` adds the commit flag to what `flush` does. -/
theorem commit_spec {w : Ram} (hlen : w.owner.len.toNat ≤ 128) :
    ∃ ys o' d', Flush w.owner (cached w.slot w) ys (commit w).1 o' d' ∧
      (commit w).2.owner = o'.commit (commit w).1 ∧ cached w.slot (commit w).2 = d' ∧ Did w (commit w).2 ys [] := by
  obtain ⟨ys, hflush, hdid⟩ := flush_spec hlen
  by_cases ha : (flush w).1 = 1
  · simp only [commit, ha, ne_eq, not_true_eq_false, if_false] at hflush ⊢
    refine ⟨ys, _, _, hflush, (Ram.setOwner_owner ..).trans (by simp [Owner.commit]), ?_,
      hdid.nil (did_setOwner _ _)⟩
    rw [← hdid.slot]
    exact (cached_setOwner _ _).trans rfl
  · simp only [commit, ha, ne_eq, not_false_eq_true, if_true]
    exact ⟨ys, _, _, hflush, by rw [Owner.commit, if_neg ha], rfl, hdid⟩

theorem finishWrite_spec {w : Ram} (hlen : w.owner.len.toNat ≤ 128) :
    ∃ xs, Finish w.owner (cached w.slot w) xs (finishWrite w).1 (finishWrite w).2.owner
        (cached w.slot (finishWrite w).2) ∧
      Did w (finishWrite w).2 xs [] := by
  unfold finishWrite
  split_ifs with hfault hcommitted hnil
  · exact ⟨[], .fault hfault, .refl w⟩
  · exact ⟨[], .done (not_not.1 hfault) hcommitted, .refl w⟩
  · obtain ⟨ys, o', d', hflush, howner, hcached, hdid⟩ := commit_spec hlen
    rw [cached_eq_nil.2 hnil] at hflush ⊢
    rw [howner, hcached]
    exact ⟨ys, .commit (not_not.1 hfault) (not_not.1 hcommitted) hflush, hdid⟩
  · obtain ⟨xs, hflush, hdid⟩ := flush_spec hlen
    have hne : cached w.slot w ≠ [] := fun h => hnil (cached_eq_nil.1 h)
    have hres := hflush.result (length_cached ..)
    by_cases ha : (flush w).1 = 1
    · simp only [ha, ne_eq, not_true_eq_false, if_false]
      have hlen' : (flush w).2.owner.len.toNat ≤ 128 := hres.len.trans hlen
      obtain ⟨ys, o', d', hcommit, howner, hcached, hdid'⟩ := commit_spec hlen'
      rw [hdid.slot] at hcommit hcached
      rw [ha, (hres.ok ha).2] at hflush
      rw [(hres.ok ha).2] at hcommit
      rw [howner, hcached]
      exact ⟨xs ++ ys, .last (not_not.1 hfault) (not_not.1 hcommitted) hne hflush hcommit, hdid.trans hdid'⟩
    · simp only [ha, ne_eq, not_false_eq_true, if_true]
      exact ⟨xs, .failed (not_not.1 hfault) (not_not.1 hcommitted) hne hflush ha, hdid⟩

theorem Finish.command {o o' : Owner} {d d' : List Byte} {xs : List Exchange} {a : Byte}
    (h : Finish o d xs a o' d') : ∀ x ∈ xs, frameCommand x.1 = 3 := by
  cases h with
  | fault | done => simp
  | commit _ _ hcommit => exact hcommit.command
  | failed _ _ _ hflush _ => exact hflush.command
  | last _ _ _ hflush hcommit =>
    intro x hx
    rcases List.mem_append.1 hx with hx | hx
    · exact hflush.command x hx
    · exact hcommit.command x hx

/-- What `finish_write` does to the record. -/
structure FinishResult (o : Owner) (a : Byte) (o' : Owner) (d' : List Byte) : Prop where
  own : o'.own = o.own
  mode : o'.mode = o.mode
  reading : o'.reading = o.reading
  eof : o'.eof = o.eof
  cached : d'.length = o'.len.toNat
  len : o'.len.toNat ≤ o.len.toNat
  pos : o.pos.toNat ≤ o.len.toNat → o'.pos.toNat ≤ o'.len.toNat
  ok : a = 1 → o'.fault = 0 ∧ o'.committed ≠ 0
  failed : a ≠ 1 → a = 0x90 ∧ o'.fault ≠ 0 ∧ o'.committed = o.committed

theorem FlushResult.commit {o o' : Owner} {d' : List Byte} {a : Byte} (h : FlushResult o a o' d')
    (hfault : o.fault = 0) (hopen : o.committed = 0) : FinishResult o a (o'.commit a) d' := by
  by_cases ha : a = 1
  · rw [Owner.commit, if_pos ha]
    refine ⟨h.own, h.mode, h.reading, h.eof, h.cached, h.len, h.pos, fun _ => ⟨(h.ok ha).1.trans hfault, ?_⟩,
      fun hne => absurd ha hne⟩
    change o'.committed + 1 ≠ 0
    rw [h.committed, hopen]
    decide
  · rw [Owner.commit, if_neg ha]
    exact ⟨h.own, h.mode, h.reading, h.eof, h.cached, h.len, h.pos, fun hok => absurd hok ha,
      fun _ => ⟨(h.failed ha).1, by rw [(h.failed ha).2]; decide, h.committed⟩⟩

theorem Finish.result {o o' : Owner} {d d' : List Byte} {xs : List Exchange} {a : Byte}
    (h : Finish o d xs a o' d') (hd : d.length = o.len.toNat) : FinishResult o a o' d' := by
  cases h with
  | fault hfault => exact ⟨rfl, rfl, rfl, rfl, hd, le_rfl, id, by simp, fun _ => ⟨rfl, hfault, rfl⟩⟩
  | done hfault hdone => exact ⟨rfl, rfl, rfl, rfl, hd, le_rfl, id, fun _ => ⟨hfault, hdone⟩, by simp⟩
  | commit hfault hopen hcommit => exact (hcommit.result hd).commit hfault hopen
  | failed hfault hopen hne hflush ha =>
    have h := hflush.result hd
    exact ⟨h.own, h.mode, h.reading, h.eof, h.cached, h.len, h.pos, fun hok => absurd hok ha,
      fun _ => ⟨(h.failed ha).1, by rw [(h.failed ha).2]; decide, h.committed⟩⟩
  | last hfault hopen hne hflush hcommit =>
    have h := hflush.result hd
    have h' := (hcommit.result h.cached).commit ((h.ok rfl).1.trans hfault) (h.committed.trans hopen)
    exact ⟨h'.own.trans h.own, h'.mode.trans h.mode, h'.reading.trans h.reading, h'.eof.trans h.eof, h'.cached,
      h'.len.trans h.len, fun hpos => h'.pos (h.pos hpos), h'.ok,
      fun ha => ⟨(h'.failed ha).1, (h'.failed ha).2.1, (h'.failed ha).2.2.trans h.committed⟩⟩

/-! ### `do_put` -/

/-- The record and cached bytes with one more byte stored. -/
def Owner.stored (o : Owner) : Owner := { o with pos := o.len, len := o.len + 1 }

theorem stored_len {o : Owner} (h : o.len.toNat ≤ 127) : o.stored.len.toNat = o.len.toNat + 1 := by
  simp only [Owner.stored]
  bv_omega

/-- `do_put` of the byte `b`: the exchanges, the bytes stored, the result, and
the record and cached bytes it leaves. -/
inductive Put (b : Byte) :
    Owner → List Byte → List Exchange → List Byte → Byte → Owner → List Byte → Prop
  | unsupported {o : Owner} {d : List Byte} (h : o.mode = 4) : Put b o d [] [] 0x92 o d
  | refused {o : Owner} {d : List Byte} (h : o.mode ≠ 4) (hshut : ¬(o.fault = 0 ∧ o.committed = 0)) :
      Put b o d [] [] 0x90 o d
  | stored {o : Owner} {d : List Byte} (h : o.mode ≠ 4) (hfault : o.fault = 0) (hopen : o.committed = 0)
      (hlen : o.len.toNat < 127) : Put b o d [] [b] 1 o.stored (d ++ [b])
  | flushed {o o' : Owner} {d d' : List Byte} {xs : List Exchange} {a : Byte} (h : o.mode ≠ 4)
      (hfault : o.fault = 0) (hopen : o.committed = 0) (hlen : o.len.toNat = 127)
      (hflush : Flush o.stored (d ++ [b]) xs a o' d') : Put b o d xs [b] a o' d'

/-- The state of `do_put` once the byte is in the cache. -/
def storeByte (w : Ram) : Ram :=
  (((w.setOwner { w.owner with pos := w.owner.len }).setCaches
    (Function.update w.caches (w.slot.cache + w.owner.len) w.callerA)).setWire
      (w.wire.record (.store w.callerA))).setOwner w.owner.stored

theorem doPut_eq (w : Ram) :
    doPut w =
      if w.owner.mode = 4 then unsupported w
      else if w.owner.fault ||| w.owner.committed ≠ 0 then ioError w
      else if (storeByte w).owner.len ≠ 128 then success (storeByte w) else flush (storeByte w) := by
  simp only [doPut, storeByte, cacheIndex, setWire_owner, setCaches_owner, Ram.setOwner_owner]
  rfl

theorem storeByte_spec {w : Ram} (hlen : w.owner.len.toNat ≤ 127) :
    (storeByte w).owner = w.owner.stored ∧
      cached w.slot (storeByte w) = cached w.slot w ++ [w.callerA] ∧
      Did w (storeByte w) [] [w.callerA] := by
  have hstored := stored_len hlen
  have hidx : w.slot.cache + w.owner.len = w.slot.cache + BitVec.ofNat 8 w.owner.len.toNat := add_toNat_eq ..
  refine ⟨Ram.setOwner_owner .., ?_, ?_⟩
  · have hhalf (i : ℕ) (hi : i < 256) : half w.slot (storeByte w) i =
        if i = w.owner.len.toNat then w.callerA else half w.slot w i := by
      change Function.update w.caches _ _ _ = _
      rw [Function.update_apply, hidx]
      exact if_congr (add_ofNat_inj hi (by omega)) rfl rfl
    have howner : ((storeByte w).owners w.slot).len = w.owner.stored.len :=
      congrArg Owner.len (Ram.setOwner_owner w.owner.stored _)
    rw [cached, howner, hstored, slice_succ, Nat.zero_add, hhalf _ (by omega), if_pos rfl]
    refine congrArg (· ++ [w.callerA]) (slice_congr fun j hj => ?_)
    rw [hhalf _ (by omega), if_neg (by omega)]
  · have hlogs : Logs w.wire (w.wire.record (.store w.callerA)) [] [w.callerA] :=
      ⟨_, rfl, rfl, rfl, rfl⟩
    have hother : ∀ k ≠ w.slot, ∀ i < 128,
        Function.update w.caches (w.slot.cache + w.owner.len) w.callerA (k.cache + BitVec.ofNat 8 i) =
          w.caches (k.cache + BitVec.ofNat 8 i) := by
      intro k hk i hi
      rw [hidx, Function.update_of_ne (cache_ne hk hi (by omega))]
    unfold storeByte
    generalize w.owner.stored = o
    generalize ({ w.owner with pos := w.owner.len } : Owner) = o₁
    refine (did_setOwner o₁ w).of_nil (Did.of_nil (did_setCaches (w := w.setOwner o₁) hother) ?_)
    exact (did_setWire (w := (w.setOwner o₁).setCaches _) hlogs).nil (did_setOwner o _)

/-- The call stays within the record and cache half of the slot in X. -/
theorem doPut_spec {w : Ram} (hlen : w.owner.mode ≠ 4 → w.owner.fault = 0 → w.owner.committed = 0 →
      w.owner.len.toNat ≤ 127) :
    ∃ xs bs, Put w.callerA w.owner (cached w.slot w) xs bs (doPut w).1 (doPut w).2.owner
        (cached w.slot (doPut w).2) ∧
      Did w (doPut w).2 xs bs := by
  have hor : w.owner.fault ||| w.owner.committed ≠ 0 ↔ ¬(w.owner.fault = 0 ∧ w.owner.committed = 0) :=
    not_congr BitVec.or_eq_zero_iff
  rw [doPut_eq]
  split_ifs with hmode hshut hfull
  · exact ⟨[], [], .unsupported hmode, .refl w⟩
  · exact ⟨[], [], .refused hmode (hor.1 hshut), .refl w⟩
  all_goals
    obtain ⟨hfault, hopen⟩ := not_not.1 (mt hor.2 hshut)
    have hlen' := hlen hmode hfault hopen
    obtain ⟨howner, hcached, hdid⟩ := storeByte_spec hlen'
    rw [howner] at hfull
    simp only [Owner.stored] at hfull
  · refine ⟨[], [w.callerA], ?_, hdid⟩
    simp only [success]
    rw [howner, hcached]
    exact .stored hmode hfault hopen (by bv_omega)
  · have hnext : (storeByte w).owner.len.toNat ≤ 128 := by
      rw [howner, stored_len hlen']
      omega
    obtain ⟨xs, hflush, hdid'⟩ := flush_spec hnext
    rw [howner, hdid.slot, hcached] at hflush
    exact ⟨xs, [w.callerA], .flushed hmode hfault hopen (by bv_omega) hflush, hdid.trans hdid'⟩

end NioApps.Resident
