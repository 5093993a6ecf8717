import NioApps.Sanity.Requests
import Mathlib.Data.List.TakeWhile

/-! One page of a listing, read from the response buffer: every entry is delivered as it
was encoded, and the page says whether there are more. -/

namespace NioApps.Service

open Abort

theorem ofNat_le_leBytes {v : BitVec 64} (b : ℕ → Byte) (i : ℕ) (h : slice b i (leBytes 8 v.toNat).length = leBytes 8 v.toNat) :
    BitVec.ofNat 32 (le (slice b i 4)) = v.setWidth 32 := by
  rw [length_leBytes] at h
  rw [← take_slice b i 8 4 (by decide), h, take_leBytes 4 4, le_leBytes]
  apply BitVec.eq_of_toNat_eq
  rw [BitVec.toNat_ofNat, BitVec.toNat_setWidth]
  exact Nat.mod_mod_of_dvd _ (dvd_refl _)

/-- The bytes of an entry, field by field. -/
structure Entry.At (e : Entry) (compact : Bool) (b : ℕ → Byte) (i : ℕ) : Prop where
  flags : b i = e.flags
  nameLen : b (i + 1) = BitVec.ofNat 8 e.name.length
  name : slice b (i + 2) e.name.length = e.name
  size : compact = false → BitVec.ofNat 32 (le (slice b (i + 2 + e.name.length) 4)) = e.size.setWidth 32
  mtime : compact = false → BitVec.ofNat 32 (le (slice b (i + 2 + e.name.length + 8) 4)) = e.mtime.setWidth 32

theorem Entry.at_of_slice {e : Entry} {compact : Bool} {b : ℕ → Byte} {i : ℕ}
    (h : slice b i (e.bytes compact).length = e.bytes compact) : e.At compact b i := by
  rw [Entry.bytes, slice_eq_append_iff, slice_eq_append_iff] at h
  obtain ⟨hhead, hname, htail⟩ := h
  have h2 : [e.flags, BitVec.ofNat 8 e.name.length].length = 2 := rfl
  rw [h2] at hhead hname htail
  have hpair : [b i, b (i + 1)] = [e.flags, BitVec.ofNat 8 e.name.length] := hhead
  obtain ⟨hflags, hlen⟩ := List.cons.inj hpair
  refine ⟨hflags, (List.cons.inj hlen).1, hname, ?_, ?_⟩
  · rintro rfl
    rw [if_neg (by decide), slice_eq_append_iff] at htail
    exact ofNat_le_leBytes b _ htail.1
  · rintro rfl
    rw [if_neg (by decide), slice_eq_append_iff, length_leBytes] at htail
    exact ofNat_le_leBytes b _ htail.2

theorem Entry.length_bytes (e : Entry) (compact : Bool) :
    (e.bytes compact).length = 2 + e.name.length + if compact then 0 else 16 := by
  cases compact <;> simp [Entry.bytes] <;> omega

/-- The name ends where the callback sees its NUL. -/
theorem Entry.takeWhile_name (e : Entry) : e.name.takeWhile (· ≠ 0) = e.name := by
  rw [List.takeWhile_eq_self_iff]
  intro x hx
  simpa using fun h : x = 0 => e.plain (h ▸ hx)

/-! ### One entry of any response -/

/-- The client after some callbacks, with `nm` in `list_name`. -/
def Client.heard (nm : ℕ → Byte) (ls : List Listed) (c : Client) : Client :=
  { c with listName := nm, listed := c.listed ++ ls }

/-- The client after an entry that is not complete. -/
def Client.refused (nm : ℕ → Byte) (c : Client) : Client :=
  { c with listName := nm, lastError := errEntryBounds }

/-- `list_name` after the copy of a name. -/
def named (name : List Byte) (c : Client) : ℕ → Byte := store 0 (name ++ [0]) c.listName

theorem takeWhile_named {name : List Byte} (h : name.length < listNameSize) (c : Client) :
    (slice (named name c) 0 listNameSize).takeWhile (· ≠ 0) = name.takeWhile (· ≠ 0) := by
  obtain ⟨k, hk⟩ := Nat.exists_eq_add_of_lt h
  have hsplit : slice (named name c) 0 listNameSize = (name ++ [0]) ++ slice (named name c) (name.length + 1) k := by
    have hlen : listNameSize = (name ++ [0]).length + k := by
      rw [hk, List.length_append, List.length_singleton]
      omega
    rw [hlen, slice_add, named, slice_store, List.length_append, List.length_singleton, Nat.zero_add]
  rw [hsplit, List.append_assoc, List.takeWhile_append]
  split_ifs with hall
  · rw [(List.takeWhile_prefix _).eq_of_length hall]
    exact List.append_nil _
  · rfl

theorem not_gt_of_le {a b : Word} (h : a.toNat ≤ b.toNat) : ¬a > b := BitVec.not_lt.2 (BitVec.le_def.2 h)

theorem callback_run (eflags : Byte) (name : List Byte) (h : name.length < listNameSize) (size mtime : BitVec 32)
    (c : Client) :
    (modify (callback eflags size mtime) : Svc PUnit).run { c with listName := named name c } =
      .ok ⟨⟩ (c.heard (named name c) [⟨eflags &&& 1, name.takeWhile (· ≠ 0), size, mtime⟩]) := by
  have hcall : callback eflags size mtime { c with listName := named name c } =
      c.heard (named name c) [⟨eflags &&& 1, name.takeWhile (· ≠ 0), size, mtime⟩] := by
    rw [callback, takeWhile_named h, Client.heard]
  exact congrArg (EStateM.Result.ok PUnit.unit) hcall

section Step

variable {flags : Byte} {respLen pos : Word} {n : ℕ} {c : Client}

/-- The positions of the fields, which the 16-bit sums do not miss. -/
structure Fields (b : ℕ → Byte) (respLen pos : Word) : Prop where
  second : (pos + 1).toNat = pos.toNat + 1
  name : (pos + 2).toNat = pos.toNat + 2
  behind : (pos + 2 + (b (pos.toNat + 1)).setWidth 16).toNat = pos.toNat + 2 + nameLenAt b pos.toNat
  mtime : (pos + 2 + (b (pos.toNat + 1)).setWidth 16 + 8).toNat = pos.toNat + 2 + nameLenAt b pos.toNat + 8
  next : (pos + 2 + (b (pos.toNat + 1)).setWidth 16 + 16).toNat = pos.toNat + 2 + nameLenAt b pos.toNat + 16

theorem fields_of_le (b : ℕ → Byte) (hresp : respLen.toNat ≤ maxData) (hpos : pos.toNat ≤ respLen.toNat) :
    Fields b respLen pos := by
  have hname : ((b (pos.toNat + 1)).setWidth 16).toNat = nameLenAt b pos.toNat := by
    rw [BitVec.toNat_setWidth, nameLenAt]
    exact Nat.mod_eq_of_lt (Nat.lt_trans (b (pos.toNat + 1)).isLt (by decide))
  have hlt : nameLenAt b pos.toNat < 256 := (b (pos.toNat + 1)).isLt
  have hadd (v w : Word) (h : v.toNat + w.toNat < 2 ^ 16) : (v + w).toNat = v.toNat + w.toNat := by
    rw [BitVec.toNat_add, Nat.mod_eq_of_lt h]
  have h1 : (1 : Word).toNat = 1 := rfl
  have h2 : (2 : Word).toNat = 2 := rfl
  have h8 : (8 : Word).toNat = 8 := rfl
  have h16 : (16 : Word).toNat = 16 := rfl
  rw [maxData] at hresp
  have hpos2 : (pos + 2).toNat = pos.toNat + 2 := hadd pos 2 (by omega)
  have hbehind : (pos + 2 + (b (pos.toNat + 1)).setWidth 16).toNat = pos.toNat + 2 + nameLenAt b pos.toNat := by
    rw [hadd _ _ (by omega), hpos2, hname]
  exact ⟨hadd pos 1 (by omega), hpos2, hbehind, by rw [hadd _ _ (by omega), hbehind, h8],
    by rw [hadd _ _ (by omega), hbehind, h16]⟩

theorem gt_iff (a b : Word) : a > b ↔ b.toNat < a.toNat := BitVec.lt_def

/-- The position behind a complete entry is a 16-bit one. -/
theorem next_position {b : ℕ → Byte} (hresp : respLen.toNat ≤ maxData) (h : Complete flags b respLen.toNat pos.toNat) :
    ∃ next : Word, next.toNat = pos.toNat + entrySize flags b pos.toNat := by
  refine ⟨BitVec.ofNat 16 (pos.toNat + entrySize flags b pos.toNat), ?_⟩
  rw [BitVec.toNat_ofNat]
  apply Nat.mod_eq_of_lt
  have hwhole := h.whole
  rw [maxData] at hresp
  omega

/-- An entry that is complete is delivered, and the position moves behind it. -/
theorem listEntries_complete (hresp : respLen.toNat ≤ maxData) (hend : c.respEnd = respLen.toNat)
    (hpos : pos.toNat ≤ respLen.toNat) (h : Complete flags c.respBuf respLen.toNat pos.toNat) {next : Word}
    (hnext : next.toNat = pos.toNat + entrySize flags c.respBuf pos.toNat) :
    (listEntries flags respLen (n + 1) pos).run c =
      (listEntries flags respLen n next).run
        (c.heard (named (slice c.respBuf (pos.toNat + 2) (nameLenAt c.respBuf pos.toNat)) c) [entryAt flags c.respBuf pos.toNat]) := by
  have hat := fields_of_le c.respBuf hresp hpos
  obtain ⟨hhead, hwhole, hshort⟩ := h
  have hlen : nameLenAt c.respBuf pos.toNat = (c.respBuf (pos.toNat + 1)).toNat := rfl
  have hname : pos.toNat + 2 + nameLenAt c.respBuf pos.toNat ≤ respLen.toNat := by
    rw [entrySize] at hwhole
    omega
  rw [listEntries, if_neg (not_gt_of_le (by rw [hat.name]; exact hhead)),
    run_bind_ok (getByte_within (by omega) (by omega)),
    run_bind_ok (getByte_within (by rw [hat.second]; omega) (by rw [hat.second]; omega))]
  dsimp only
  rw [hat.second]
  have hbounds : ¬(pos + 2 + (c.respBuf (pos.toNat + 1)).setWidth 16 > respLen ∨
      (c.respBuf (pos.toNat + 1)).toNat ≥ listNameSize) := by
    rintro (hgt | hge)
    · rw [gt_iff, hat.behind] at hgt
      omega
    · omega
  rw [if_neg hbounds, run_bind_ok (get_within (by rw [hat.name]; omega) (by rw [hat.name]; omega)),
    run_bind_ok (copyName_run (by rw [length_slice]; exact hshort) c), hat.name]
  have hcall (size mtime : BitVec 32) := callback_run (c.respBuf pos.toNat)
    (slice c.respBuf (pos.toNat + 2) (nameLenAt c.respBuf pos.toNat)) (by rw [length_slice]; exact hshort) size mtime c
  by_cases hfull : flags &&& 0x02 = 0
  · rw [entrySize, if_pos hfull] at hwhole
    rw [if_pos hfull, if_neg (not_gt_of_le (by rw [hat.next]; omega)),
      run_bind_ok (getU32_within (by rw [hat.behind]; exact hend ▸ (by omega)) (by rw [hat.behind]; omega)),
      run_bind_ok (getU32_within (by rw [hat.mtime]; exact hend ▸ (by omega)) (by rw [hat.mtime]; omega)),
      hat.behind, hat.mtime]
    have hword : next = pos + 2 + (c.respBuf (pos.toNat + 1)).setWidth 16 + 16 := by
      apply BitVec.eq_of_toNat_eq
      rw [hnext, hat.next, entrySize, if_pos hfull]
      omega
    refine (run_bind_ok (hcall _ _)).trans ?_
    rw [hword, entryAt, if_pos hfull, if_pos hfull]
  · rw [if_neg hfull]
    have hword : next = pos + 2 + (c.respBuf (pos.toNat + 1)).setWidth 16 := by
      apply BitVec.eq_of_toNat_eq
      rw [hnext, hat.behind, entrySize, if_neg hfull]
      omega
    refine (run_bind_ok (hcall 0 0)).trans ?_
    rw [hword, entryAt, if_neg hfull, if_neg hfull]

/-- An entry that is not complete ends the page, and no entry is delivered. -/
theorem listEntries_incomplete (hresp : respLen.toNat ≤ maxData) (hend : c.respEnd = respLen.toNat)
    (hpos : pos.toNat ≤ respLen.toNat) (h : ¬Complete flags c.respBuf respLen.toNat pos.toNat) :
    ∃ nm, (listEntries flags respLen (n + 1) pos).run c = .ok false (c.refused nm) := by
  have hat := fields_of_le c.respBuf hresp hpos
  have hlen : nameLenAt c.respBuf pos.toNat = (c.respBuf (pos.toNat + 1)).toNat := rfl
  rw [listEntries]
  by_cases hhead : pos + 2 > respLen
  · rw [if_pos hhead]
    exact ⟨c.listName, rfl⟩
  rw [if_neg hhead]
  rw [gt_iff, hat.name] at hhead
  rw [run_bind_ok (getByte_within (by omega) (by omega)),
    run_bind_ok (getByte_within (by rw [hat.second]; omega) (by rw [hat.second]; omega))]
  dsimp only
  rw [hat.second]
  by_cases hbounds : pos + 2 + (c.respBuf (pos.toNat + 1)).setWidth 16 > respLen ∨
      (c.respBuf (pos.toNat + 1)).toNat ≥ listNameSize
  · rw [if_pos hbounds]
    exact ⟨c.listName, rfl⟩
  rw [if_neg hbounds]
  rw [gt_iff, hat.behind, not_or, ge_iff_le, not_le] at hbounds
  obtain ⟨hname, hshort⟩ := hbounds
  rw [run_bind_ok (get_within (by rw [hat.name]; omega) (by rw [hat.name]; omega)),
    run_bind_ok (copyName_run (by rw [length_slice]; exact hshort) c)]
  by_cases hfull : flags &&& 0x02 = 0
  · have htail : pos + 2 + (c.respBuf (pos.toNat + 1)).setWidth 16 + 16 > respLen := by
      rw [gt_iff, hat.next]
      by_contra hle
      exact h ⟨by omega, by rw [entrySize, if_pos hfull]; omega, hshort⟩
    rw [if_pos hfull, if_pos htail]
    exact ⟨_, rfl⟩
  · -- without the sizes there is nothing more to check
    exact absurd ⟨by omega, by rw [entrySize, if_neg hfull]; omega, hshort⟩ h

end Step

/-- The loop over the entries delivers what `scan` finds. -/
theorem listEntries_scan (flags : Byte) {respLen : Word} (hresp : respLen.toNat ≤ maxData) (n : ℕ) {pos : Word} {c : Client}
    (hend : c.respEnd = respLen.toNat) (hpos : pos.toNat ≤ respLen.toNat) :
    ∃ nm, (listEntries flags respLen n pos).run c =
      if (scan flags c.respBuf respLen.toNat n pos.toNat).2 = true then
        .ok true (c.heard nm (scan flags c.respBuf respLen.toNat n pos.toNat).1)
      else .ok false ((c.heard nm (scan flags c.respBuf respLen.toNat n pos.toNat).1).refused nm) := by
  induction n generalizing pos c with
  | zero =>
    refine ⟨c.listName, ?_⟩
    rw [scan, if_pos rfl, Client.heard, List.append_nil]
    rfl
  | succ n ih =>
    by_cases hc : Complete flags c.respBuf respLen.toNat pos.toNat
    · obtain ⟨next, hnext⟩ := next_position hresp hc
      have hle : next.toNat ≤ respLen.toNat := hnext ▸ hc.whole
      obtain ⟨nm', hrest⟩ := ih (c := c.heard _ [entryAt flags c.respBuf pos.toNat]) hend hle
      refine ⟨nm', ?_⟩
      rw [listEntries_complete hresp hend hpos hc hnext, hrest, hnext, scan, if_pos hc]
      simp only [Client.heard, List.append_assoc, List.singleton_append]
    · obtain ⟨nm, hrun⟩ := listEntries_incomplete (n := n) hresp hend hpos hc
      refine ⟨nm, ?_⟩
      rw [hrun, scan, if_neg hc, if_neg (by decide), Client.heard, List.append_nil]
      rfl

/-! ### The entries of a directory -/

theorem Entry.At.complete {e : Entry} {compact : Bool} {flags : Byte} {b : ℕ → Byte} {len p : ℕ}
    (h : e.At compact b p) (hflags : flags &&& 0x02 ≠ 0 ↔ compact = true) (hlen : p + (e.bytes compact).length ≤ len) :
    Complete flags b len p ∧ entrySize flags b p = (e.bytes compact).length ∧ entryAt flags b p = e.delivered compact := by
  have hshort := e.short
  have hname : nameLenAt b p = e.name.length := by
    rw [nameLenAt, h.nameLen, BitVec.toNat_ofNat]
    omega
  have hsize : entrySize flags b p = (e.bytes compact).length := by
    rw [entrySize, hname, Entry.length_bytes]
    cases compact with
    | true => rw [if_neg (hflags.2 rfl), if_pos rfl]
    | false => rw [if_pos (by simpa using hflags), if_neg (by decide)]
  refine ⟨⟨?_, by rw [hsize]; exact hlen, by rw [hname, listNameSize]; omega⟩, hsize, ?_⟩
  · rw [Entry.length_bytes] at hlen
    omega
  · rw [entryAt, hname, h.flags, h.name, e.takeWhile_name, Entry.delivered]
    cases compact with
    | true => rw [if_neg (hflags.2 rfl), if_neg (hflags.2 rfl)]; rfl
    | false =>
      have hfull : flags &&& 0x02 = 0 := by simpa using hflags
      rw [if_pos hfull, if_pos hfull, h.size rfl, h.mtime rfl]
      rfl

/-- All the entries of a page. -/
theorem scan_page {compact : Bool} {flags : Byte} {b : ℕ → Byte} {len p : ℕ} {es : List Entry}
    (hflags : flags &&& 0x02 ≠ 0 ↔ compact = true)
    (hbytes : slice b p (pageBytes compact es).length = pageBytes compact es)
    (hlen : p + (pageBytes compact es).length ≤ len) :
    scan flags b len es.length p = (es.map (Entry.delivered compact), true) := by
  induction es generalizing p with
  | nil => rfl
  | cons e es ih =>
    have hcons : pageBytes compact (e :: es) = e.bytes compact ++ pageBytes compact es := List.flatMap_cons
    rw [hcons, slice_eq_append_iff] at hbytes
    rw [hcons, List.length_append] at hlen
    have hfirst : p + (e.bytes compact).length ≤ len := by omega
    obtain ⟨hcomplete, hsize, hentry⟩ := (Entry.at_of_slice hbytes.1).complete hflags hfirst
    rw [List.length_cons, scan, if_pos hcomplete, hsize, ih hbytes.2 (by omega), hentry]
    rfl

/-! ### A page -/

/-- How the round of a page ends. -/
def nextPage (start : Word) (es : List Entry) (more : Bool) : Page :=
  if more then .next (start + BitVec.ofNat 16 es.length) else .done true

theorem listResponse_run {r : Reply} {es : List Entry} {compact more : Bool} {start : Word} {c : Client}
    (hpage : IsPage r es compact more) (hsome : more = true → es ≠ []) (hload : Loaded r c) :
    ∃ nm, (listResponse r.length start).run c =
      .ok (nextPage start es more) (c.heard nm (es.map (Entry.delivered compact))) := by
  have hlen := hpage.length
  have hfits := hpage.fits
  have h10 : (10 : Word).toNat = 10 := rfl
  have hsmall : es.length < 2 ^ 16 := by
    have hlt := le_lt (slice r.data 6 2)
    rw [length_slice, hpage.count] at hlt
    exact hlt
  have hentries : (10 + BitVec.ofNat 16 (le (slice r.data 8 2))).toNat = 10 + (pageBytes compact es).length := by
    rw [hpage.entriesLen, BitVec.toNat_add, BitVec.toNat_ofNat, h10]
    rw [maxData] at hfits
    omega
  have hscan : scan (r.data 1) c.respBuf r.length.toNat es.length (10 : Word).toNat =
      (es.map (Entry.delivered compact), true) := by
    rw [h10]
    exact scan_page hpage.flagCompact ((hload.slice hlen).trans hpage.entries) hlen
  obtain ⟨nm, hrun⟩ := listEntries_scan (r.data 1) hfits es.length hload.last (by rw [h10]; omega)
  rw [hscan, if_pos rfl] at hrun
  refine ⟨nm, ?_⟩
  rw [listResponse_header hload.headed, if_neg (BitVec.not_lt.2 (BitVec.le_def.2 (by omega))), if_neg (not_not.2 hpage.version),
    if_neg (not_gt_of_le (by rw [hentries]; exact hlen)), hpage.count, readPage, BitVec.toNat_ofNat,
    Nat.mod_eq_of_lt hsmall, run_bind_ok hrun, if_pos rfl]
  cases more with
  | true =>
    have hne : BitVec.ofNat 16 es.length ≠ 0 := by
      intro h
      have h0 : (BitVec.ofNat 16 es.length).toNat = 0 := congrArg BitVec.toNat h
      rw [BitVec.toNat_ofNat, Nat.mod_eq_of_lt hsmall] at h0
      exact hsome rfl (List.length_eq_zero_iff.1 h0)
    rw [if_neg (hpage.flagMore.2 rfl), if_neg hne]
    rfl
  | false =>
    have hlast : r.data 1 &&& 0x01 = 0 := by simpa using hpage.flagMore
    rw [if_pos hlast]
    rfl

/-- What a listing did: the requests it sent and the callbacks it made. -/
structure Did (qs : List Request) (ls : List Listed) (c c' : Client) : Prop where
  sent : c'.sent = c.sent ++ qs
  listed : c'.listed = c.listed ++ ls
  answer : c'.answer = c.answer

theorem Did.trans {qs qs' : List Request} {ls ls' : List Listed} {c c₁ c₂ : Client} (h : Did qs ls c c₁)
    (h' : Did qs' ls' c₁ c₂) : Did (qs ++ qs') (ls ++ ls') c c₂ where
  sent := by rw [h'.sent, h.sent, List.append_assoc]
  listed := by rw [h'.listed, h.listed, List.append_assoc]
  answer := h'.answer.trans h.answer

theorem listPage_wp {uri : List Byte} {start : Word} {es : List Entry} {compact more : Bool} {c : Client}
    (huri : uri.length ≤ 504) (hpage : IsPage (c.reply (listing uri start)) es compact more)
    (hsome : more = true → es ≠ []) :
    wp (listPage uri (BitVec.ofNat 16 uri.length) start)
      (fun page c' => page = nextPage start es more ∧ Did [listing uri start] (es.map (Entry.delivered compact)) c c')
      (fun _ => False) c := by
  have hlen : (BitVec.ofNat 16 uri.length).toNat = uri.length := by
    rw [BitVec.toNat_ofNat]
    omega
  rw [listPage, if_neg (by rw [hlen, maxData]; omega)]
  refine wp.seq ((listRequest_wp ..).mono (fun _ _ => id) fun s h => ?_) ?_
  · have hlarge := h.large
    rw [length_listBytes, maxData] at hlarge
    omega
  intro off c₁ h₁
  refine h₁.service (by decide) (fun hr => absurd hpage.result hr) fun _ => ?_
  rw [wp_bind, wp_modify]
  refine wp_ite (fun hs => absurd hpage.status hs) fun _ => ?_
  let c₂ := keepLast (c.reply (listing uri start)).status (c.reply (listing uri start)).length
    (c₁.served (listing uri start))
  have hload : Loaded (c.reply (listing uri start)) c₂ :=
    (loaded_called hpage.fits rfl (h₁.reply_eq (listing uri start))).congr rfl rfl
  have hlisted : c₁.listed = c.listed := by rw [h₁.frame]
  obtain ⟨nm, hrun⟩ := listResponse_run hpage hsome hload
  exact (wp_of_ok hrun).2 ⟨rfl, h₁.served_sent _, congrArg (· ++ _) hlisted, h₁.answer_eq⟩

end NioApps.Service
