import NioApps.Sanity.Prompt
import NioApps.Sanity.Calls
import NioApps.Spec.Sessions
import Mathlib.Data.List.GetD

/-! OPEN accepts exactly the names `N1:` with a string of 1 to 128 bytes behind it, and
sends the string as it is. It leaves both records alone unless the response grants a
handle. -/

namespace NioApps.Resident

/-! ### The name -/

/-- The bytes of the buffer from `y` on are `uri`, followed by a terminator. -/
structure Text (read : ℕ → Byte) (y : ℕ) (uri : List Byte) : Prop where
  bytes : slice read y uri.length = uri
  plain : ∀ b ∈ uri, ¬(b = 0 ∨ b = 0x9b)
  ended : read (y + uri.length) = 0 ∨ read (y + uri.length) = 0x9b

/-- `N1:` and 1 to 128 bytes of text at a buffer address that is not 0. -/
structure IsName (read : ℕ → Byte) (ptr : Byte × Byte) (uri : List Byte) : Prop where
  pointer : ptr ≠ (0, 0)
  device : slice read 0 3 = [0x4e, 0x31, 0x3a]
  text : Text read 3 uri
  nonempty : 1 ≤ uri.length
  short : uri.length ≤ 128

/-- The packet with `uri` stored from index `x` on. -/
def placed (x : ℕ) (uri : List Byte) (p : ℕ → Byte) : ℕ → Byte := fun i =>
  if x ≤ i ∧ i < x + uri.length then uri.getD (i - x) 0 else p i

theorem placed_nil (x : ℕ) (p : ℕ → Byte) : placed x [] p = p := by
  funext i
  exact if_neg (by simp)

theorem placed_cons (x : ℕ) (a : Byte) (uri : List Byte) (p : ℕ → Byte) :
    placed (x + 1) uri (Function.update p x a) = placed x (a :: uri) p := by
  funext i
  rw [placed, placed, Function.update_apply]
  rcases Nat.lt_trichotomy i x with hlt | rfl | hgt
  · rw [if_neg (by omega), if_neg (by omega), if_neg (by omega)]
  · rw [if_neg (by omega), if_pos rfl, if_pos ⟨le_rfl, by simp⟩, Nat.sub_self]
    rfl
  · obtain ⟨k, rfl⟩ := Nat.exists_eq_add_of_lt hgt
    have hsub : x + k + 1 - x = k + 1 := by omega
    have hsub' : x + k + 1 - (x + 1) = k := by omega
    rw [if_neg (by omega : ¬x + k + 1 = x), hsub, hsub', List.getD_cons_succ, List.length_cons]
    exact if_congr (by omega) rfl rfl

theorem Text.cons {read : ℕ → Byte} {y : ℕ} {a : Byte} {uri : List Byte} :
    Text read y (a :: uri) ↔ (read y = a ∧ ¬(a = 0 ∨ a = 0x9b)) ∧ Text read (y + 1) uri := by
  have hslice : slice read y (a :: uri).length = read y :: slice read (y + 1) uri.length := slice_cons ..
  have hend : y + (a :: uri).length = y + 1 + uri.length := by
    rw [List.length_cons]
    omega
  constructor
  · rintro ⟨hbytes, hplain, hended⟩
    rw [hslice, List.cons.injEq] at hbytes
    rw [hend] at hended
    obtain ⟨ha, hs⟩ := List.forall_mem_cons.1 hplain
    exact ⟨⟨hbytes.1, ha⟩, hbytes.2, hs, hended⟩
  · rintro ⟨⟨ha, hplain⟩, hbytes, hs, hended⟩
    refine ⟨by rw [hslice, ha, hbytes], List.forall_mem_cons.2 ⟨hplain, hs⟩, ?_⟩
    rwa [hend]

/-- A text that fits is scanned to its end. -/
theorem uriLoop_text {mem : Word → Byte} {ptr : Byte × Byte} {n y x : ℕ} {p : ℕ → Byte} {uri : List Byte}
    (h : Text (indirect mem ptr) (y + 1) uri) (hn : uri.length ≤ n) :
    uriLoop mem ptr n y x p = (some (x + uri.length), placed (11 + x) uri p) := by
  induction uri generalizing n y x p with
  | nil =>
    have hended : indirect mem ptr (y + 1) = 0 ∨ indirect mem ptr (y + 1) = 0x9b := h.ended
    unfold uriLoop
    rw [if_pos hended, placed_nil]
    rfl
  | cons a uri ih =>
    obtain ⟨n, rfl⟩ := Nat.exists_eq_add_of_le' (show 1 ≤ n by rw [List.length_cons] at hn; omega)
    obtain ⟨⟨ha, hplain⟩, hrest⟩ := Text.cons.1 h
    rw [uriLoop, ha, if_neg hplain, ih hrest (by rw [List.length_cons] at hn; omega), Nat.add_assoc, ← placed_cons, List.length_cons]
    congr 2
    omega

/-- What a scan that ends before its limit has found. -/
theorem uriLoop_found {mem : Word → Byte} {ptr : Byte × Byte} {n y x k : ℕ} {p : ℕ → Byte}
    (h : (uriLoop mem ptr n y x p).1 = some k) :
    ∃ uri, Text (indirect mem ptr) (y + 1) uri ∧ uri.length ≤ n ∧ k = x + uri.length := by
  induction n generalizing y x p with
  | zero =>
    rw [uriLoop] at h
    split_ifs at h with hend
    exact ⟨[], ⟨rfl, by simp, hend⟩, le_rfl, (Option.some.inj h).symm⟩
  | succ n ih =>
    rw [uriLoop] at h
    split_ifs at h with hend
    · exact ⟨[], ⟨rfl, by simp, hend⟩, by simp, (Option.some.inj h).symm⟩
    · obtain ⟨uri, htext, hlen, hk⟩ := ih h
      refine ⟨indirect mem ptr (y + 1) :: uri, Text.cons.2 ⟨⟨rfl, hend⟩, htext⟩, ?_, ?_⟩
      · rw [List.length_cons]
        omega
      · rw [List.length_cons]
        omega

/-! ### The request -/

def openMethod (mode : Byte) : Byte := if mode = 4 then 1 else if mode = 8 then 3 else 2

/-- The flag for a body of unknown length. -/
def openFlags (mode : Byte) : Byte := if mode = 4 then 0 else 4

/-- Descriptor 0, version 1, and the fields of OPEN with zeros behind the URI. -/
def openBody (mode : Byte) (uri : List Byte) : List Byte :=
  [0, 1, openMethod mode, openFlags mode, BitVec.ofNat 8 uri.length, 0] ++ (uri ++ List.replicate 8 0)

/-- A packet for device `$FD`, with its checksum in byte 4. -/
def sealed (command : Byte) (body : List Byte) : List Byte :=
  let header (sum : Byte) : List Byte := [0xfd, command, BitVec.ofNat 8 (body.length + 5), 0, sum]
  header (checksumLoop (fun i => (header 0 ++ body).getD i 0) (body.length + 5) 0 0) ++ body

def openFrame (mode : Byte) (uri : List Byte) : List Byte := sealed 1 (openBody mode uri)

/-- The transport with the request in the packet buffer. -/
def openWire (mode : Byte) (uri : List Byte) (p : Wire) : Wire :=
  openRequest mode uri.length ((clearPacket (p.setCommand 1)).setPacket (placed 11 uri (clearPacket (p.setCommand 1)).packet))

@[simp] theorem length_openBody (mode : Byte) (uri : List Byte) : (openBody mode uri).length = uri.length + 14 := by
  simp [openBody]

theorem openWire_requestLen (mode : Byte) {uri : List Byte} (h : uri.length ≤ 128) (p : Wire) :
    (openWire mode uri p).requestLen.toNat = uri.length + 19 := by
  have hlen : (openWire mode uri p).requestLen = BitVec.ofNat 8 uri.length + 19 := by
    rw [openWire, openRequest]
    split_ifs <;> rfl
  have h19 : (19 : Byte).toNat = 19 := rfl
  rw [hlen, BitVec.toNat_add, BitVec.toNat_ofNat]
  omega

/-- The packet between the header and the URI. -/
theorem openWire_fields (mode : Byte) (uri : List Byte) (p : Wire) :
    (openWire mode uri p).packet 7 = openMethod mode ∧ (openWire mode uri p).packet 8 = openFlags mode ∧
      (openWire mode uri p).packet 9 = BitVec.ofNat 8 uri.length := by
  rw [openWire, openRequest, openMethod, openFlags]
  split_ifs <;> exact ⟨rfl, rfl, rfl⟩

theorem openWire_other (mode : Byte) (uri : List Byte) (p : Wire) {i : ℕ} (h7 : i ≠ 7) (h8 : i ≠ 8) (h9 : i ≠ 9) :
    (openWire mode uri p).packet i = placed 11 uri (clearPacket (p.setCommand 1)).packet i := by
  rw [openWire, openRequest]
  split_ifs <;>
    simp only [Wire.poke_packet, Wire.setRequestLen_packet, Wire.setPacket_packet, Function.update_of_ne h7,
      Function.update_of_ne h8, Function.update_of_ne h9]

/-- The bytes of the request, but for the length and the checksum. -/
theorem openWire_getD (mode : Byte) {uri : List Byte} (h : uri.length ≤ 128) (p : Wire) {i : ℕ} (hi : i < uri.length + 19)
    (h2 : i ≠ 2) (h4 : i ≠ 4) (len sum : Byte) :
    ([0xfd, 1, len, 0, sum] ++ openBody mode uri).getD i 0 = (openWire mode uri p).packet i := by
  obtain ⟨hmethod, hflags, hlen⟩ := openWire_fields mode uri p
  rcases Nat.lt_or_ge i 11 with hlt | hge
  · by_cases hfield : i = 7 ∨ i = 8 ∨ i = 9
    · rcases hfield with rfl | rfl | rfl
      · exact hmethod.symm
      · exact hflags.symm
      · exact hlen.symm
    · rw [openWire_other mode uri p (by omega) (by omega) (by omega), placed, if_neg (by omega)]
      interval_cases i <;> first | rfl | omega
  · obtain ⟨j, rfl⟩ := Nat.exists_eq_add_of_le' hge
    have hbody : ([0xfd, 1, len, 0, sum] ++ openBody mode uri).getD (j + 11) 0 = (uri ++ List.replicate 8 0).getD j 0 := rfl
    rw [hbody, openWire_other mode uri p (by omega) (by omega) (by omega), placed]
    split_ifs with hj
    · rw [List.getD_append _ _ _ _ (by omega), Nat.add_sub_cancel]
    · have hzero : (clearPacket (p.setCommand 1)).packet (j + 11) = 0 :=
        (clearPacket_blank (a := 1) (w := p.setCommand 1) rfl).zero _ (by rw [packetMax]; omega) (by omega) (by omega) (by omega)
      rw [hzero, List.getD_append_right _ _ _ _ (by omega), List.getD_replicate]
      omega

/-- What `exchange` sends. -/
theorem frameOf_openWire (mode : Byte) {uri : List Byte} (h : uri.length ≤ 128) (p : Wire) :
    frameOf (openWire mode uri p) = openFrame mode uri := by
  have hreq := openWire_requestLen mode h p
  have hlen : (openWire mode uri p).requestLen = BitVec.ofNat 8 (uri.length + 19) := by
    apply BitVec.eq_of_toNat_eq
    rw [hreq, BitVec.toNat_ofNat, Nat.mod_eq_of_lt (by omega)]
  have hsum : (sealRequest (openWire mode uri p)).packet 4 =
      checksumLoop (fun i => ([0xfd, 1, BitVec.ofNat 8 (uri.length + 19), 0, 0] ++ openBody mode uri).getD i 0)
        (uri.length + 19) 0 0 := by
    have hne : (openWire mode uri p).requestLen ≠ 0 := fun h0 => by
      rw [h0] at hreq
      simp at hreq
    have hloop : (sealRequest (openWire mode uri p)).packet 4 =
        checksumLoop (Function.update (openWire mode uri p).packet 2 (openWire mode uri p).requestLen)
          (if (openWire mode uri p).requestLen = 0 then 256 else (openWire mode uri p).requestLen.toNat) 0 0 := rfl
    rw [hloop, if_neg hne, hreq]
    refine checksumLoop_congr fun i _ hi h4 => ?_
    rcases eq_or_ne i 2 with rfl | h2
    · rw [Function.update_self, hlen]
      rfl
    · rw [Function.update_of_ne h2, openWire_getD mode h p (by omega) h2 h4]
  refine List.ext_getElem (by rw [frameOf_length, hreq]; simp [openFrame, sealed]) fun i hi hi' => ?_
  rw [frameOf_length, hreq] at hi
  have hframe : openFrame mode uri = [0xfd, 1, BitVec.ofNat 8 (uri.length + 19), 0,
      (sealRequest (openWire mode uri p)).packet 4] ++ openBody mode uri := by
    rw [hsum, openFrame, sealed, length_openBody]
  rw [← List.getD_eq_getElem _ 0, ← List.getD_eq_getElem _ 0, hframe]
  by_cases h24 : i ≠ 2 ∧ i ≠ 4
  · rw [frameOf_getD _ h24.1 h24.2 (by omega), openWire_getD mode h p hi h24.1 h24.2]
  · rw [frameOf, List.getD_eq_getElem?_getD, getElem?_slice _ _ _ _ (by simp [sealRequest, Wire.len, hreq]; omega)]
    rcases (show i = 2 ∨ i = 4 by omega) with rfl | rfl
    · exact hlen
    · rfl

/-! ### OPEN -/

/-- The handle in a response that `do_open` takes. -/
def granted (r : List Byte) : Option (Byte × Byte) :=
  let handle := ((payloadOf r).getD 4 0, (payloadOf r).getD 5 0)
  if 7 ≤ (payloadOf r).length ∧ handle ≠ (0xff, 0xff) then some handle else none

/-- The records after an exchange: a new one in the slot `k` when a handle was granted. -/
def grant (c : Call) (k : Slot) (owners : Slot → Owner) (reply : Option (List Byte)) : Slot → Owner :=
  match reply.bind granted with
  | some handle => Function.update owners k (openedOwner c.x c.mode handle)
  | none => owners

theorem both_ff (h l : Byte) : l &&& h = 0xff ↔ (h, l) = (0xff, 0xff) := by
  change l &&& h = BitVec.allOnes 8 ↔ (h, l) = (BitVec.allOnes 8, BitVec.allOnes 8)
  rw [BitVec.and_eq_allOnes_iff, Prod.mk.injEq, and_comm]

theorem grant_none {c : Call} {k : Slot} {owners : Slot → Owner} {r : List Byte} (h : granted r = none) :
    grant c k owners (some r) = owners := by
  rw [grant, Option.bind_some, h]

theorem grant_some {c : Call} {k : Slot} {owners : Slot → Owner} {r : List Byte} (handle : Byte × Byte)
    (h : granted r = some handle) :
    grant c k owners (some r) = Function.update owners k (openedOwner c.x c.mode handle) := by
  rw [grant, Option.bind_some, h]

/-- `do_open` from its `exchange` on. -/
theorem openExchange_spec {c : Call} {w : Ram} (hx : w.callerX = c.x) :
    ∃ reply, Logs w.wire (openExchange c.mode w).2.wire [(frameOf w.wire, reply)] [] ∧
      (openExchange c.mode w).2.owners = grant c w.slot w.owners reply := by
  obtain ⟨p, hp, hlogs, hacc⟩ := transfer_spec w
  refine ⟨if (transfer w).1 then none else some (replyOf p), ?_, ?_⟩
  · have hwire : (openExchange c.mode w).2.wire = p := by
      simp only [openExchange, hp]
      split_ifs <;> rfl
    rw [hwire]
    exact hlogs
  simp only [openExchange, hp]
  cases hc : (transfer w).1 with
  | true => rfl
  | false =>
    have hlen := (hacc hc).length_payload
    have h7 : p.payloadLen < 7 ↔ ¬7 ≤ p.payloadLen.toNat := by bv_omega
    simp only [Bool.false_eq_true, if_false, Ram.setWire_wire, h7, both_ff]
    by_cases hshort : 7 ≤ p.payloadLen.toNat
    · have hlow := (hacc hc).payload_getD (i := 4) (by omega)
      have hhigh := (hacc hc).payload_getD (i := 5) (by omega)
      rw [if_neg (not_not.2 hshort)]
      split_ifs with hff
      · rw [grant_none]
        · rfl
        · rw [granted, hlow, hhigh]
          exact if_neg fun h => h.2 hff
      · rw [grant_some (p.packet (4 + p.payload.toNat), p.packet (5 + p.payload.toNat))]
        · rw [← hx]
          rfl
        · rw [granted, hlow, hhigh, hlen]
          exact if_pos ⟨hshort, hff⟩
    · rw [if_pos hshort, grant_none]
      · rfl
      · rw [granted, hlen]
        exact if_neg fun h => hshort h.1

/-- The buffer address in the caller's IOCB. -/
def Call.buffer (c : Call) : Byte × Byte := (c.mem (0x0344 + c.x.setWidth 16), c.mem (0x0345 + c.x.setWidth 16))

/-- The call opens a name for input, output or update. -/
structure Names (c : Call) (uri : List Byte) : Prop where
  mode : c.mode = 4 ∨ c.mode = 8 ∨ c.mode = 12
  name : IsName (indirect c.mem c.buffer) c.buffer uri

/-- The name as it is in the memory of the caller. -/
structure HasName (c : Call) (uri : List Byte) : Prop where
  mode : c.mode = 4 ∨ c.mode = 8 ∨ c.mode = 12
  name : IsName (fun i => c.mem (effective c.buffer i)) c.buffer uri

/-- No byte of a name with `n` bytes of text, nor its terminator, is at `$82/$83`. -/
def Apart (c : Call) (n : ℕ) : Prop := ∀ i < n + 4, effective c.buffer i ≠ 0x82 ∧ effective c.buffer i ≠ 0x83

theorem indirect_apart {c : Call} {n i : ℕ} (h : Apart c n) (hi : i < n + 4) :
    indirect c.mem c.buffer i = c.mem (effective c.buffer i) := by
  rw [indirect, if_neg (h i hi).1, if_neg (h i hi).2]

theorem Text.congr {f g : ℕ → Byte} {y : ℕ} {uri : List Byte} (h : ∀ i ≤ y + uri.length, f i = g i) :
    Text f y uri ↔ Text g y uri := by
  have hslice : slice f y uri.length = slice g y uri.length := slice_congr fun j hj => h (y + j) (by omega)
  have hend : f (y + uri.length) = g (y + uri.length) := h _ le_rfl
  constructor
  · rintro ⟨hbytes, hplain, hended⟩
    exact ⟨hslice ▸ hbytes, hplain, hend ▸ hended⟩
  · rintro ⟨hbytes, hplain, hended⟩
    exact ⟨hslice ▸ hbytes, hplain, hend ▸ hended⟩

theorem IsName.congr {f g : ℕ → Byte} {ptr : Byte × Byte} {uri : List Byte} (h : ∀ i < uri.length + 4, f i = g i) :
    IsName f ptr uri ↔ IsName g ptr uri := by
  have hdevice : slice f 0 3 = slice g 0 3 := slice_congr fun j hj => h (0 + j) (by omega)
  have htext : Text f 3 uri ↔ Text g 3 uri := Text.congr fun i hi => h i (by omega)
  constructor
  · rintro ⟨hptr, hdev, ht, hne, hle⟩
    exact ⟨hptr, hdevice ▸ hdev, htext.1 ht, hne, hle⟩
  · rintro ⟨hptr, hdev, ht, hne, hle⟩
    exact ⟨hptr, hdevice ▸ hdev, htext.2 ht, hne, hle⟩

/-- Elsewhere the handler reads the name as the caller left it. -/
theorem names_iff {c : Call} {uri : List Byte} (h : Apart c uri.length) : Names c uri ↔ HasName c uri := by
  have hname : IsName (indirect c.mem c.buffer) c.buffer uri ↔ IsName (fun i => c.mem (effective c.buffer i)) c.buffer uri :=
    IsName.congr fun i hi => indirect_apart h hi
  exact ⟨fun hn => ⟨hn.mode, hname.1 hn.name⟩, fun hn => ⟨hn.mode, hname.2 hn.name⟩⟩

theorem beginPacket_idle {a : Byte} {p : Wire} (h : p.outstanding = 0) :
    beginPacket a p = (false, clearPacket (p.setCommand a)) := if_pos h

theorem pointer_eq_zero (ptr : Byte × Byte) : ptr.1 ||| ptr.2 = 0 ↔ ptr = (0, 0) := by
  obtain ⟨l, h⟩ := ptr
  exact BitVec.or_eq_zero_iff.trans Prod.mk_inj.symm

theorem device_iff {f : ℕ → Byte} : slice f 0 3 = [0x4e, 0x31, 0x3a] ↔ f 0 = 0x4e ∧ f 1 = 0x31 ∧ f 2 = 0x3a := by
  have hslice : slice f 0 3 = [f 0, f 1, f 2] := rfl
  rw [hslice]
  simp

/-- What `openNamed` does with the result of `uriLoop`. -/
def afterLoop (openMode : Byte) (w : Ram) : Option ℕ × (ℕ → Byte) → Byte × Ram
  | (none, packet) => badName (w.setWire (w.wire.setPacket packet))
  | (some 0, packet) => badName (w.setWire (w.wire.setPacket packet))
  | (some n, packet) => openExchange openMode (w.setWire (openRequest openMode n (w.wire.setPacket packet)))

theorem openNamed_eq {c : Call} {w : Ram} (hx : w.callerX = c.x) (ho : w.wire.outstanding = 0) :
    let w' := (w.setWire (clearPacket (w.wire.setCommand 1))).setPtr c.buffer
    openNamed c.mem c.mode w =
      if c.buffer.1 ||| c.buffer.2 = 0 then badName w'
      else if indirect c.mem c.buffer 0 ≠ 0x4e then badName w'
      else if indirect c.mem c.buffer 1 ≠ 0x31 then badName w'
      else if indirect c.mem c.buffer 2 ≠ 0x3a then badName w'
      else afterLoop c.mode w' (uriLoop c.mem c.buffer 128 2 0 (clearPacket (w.wire.setCommand 1)).packet) := by
  simp only [openNamed, beginPacket_idle ho, Bool.false_eq_true, if_false, Ram.setWire_callerX, hx, Ram.setPtr_ptr,
    Ram.setPtr_wire, Ram.setWire_wire]
  rfl

/-- A name is sent. -/
theorem openNamed_name {c : Call} {w : Ram} {uri : List Byte} (hx : w.callerX = c.x) (ho : w.wire.outstanding = 0)
    (h : IsName (indirect c.mem c.buffer) c.buffer uri) :
    openNamed c.mem c.mode w = openExchange c.mode ((w.setPtr c.buffer).setWire (openWire c.mode uri w.wire)) := by
  obtain ⟨h0, h1, h2⟩ := device_iff.1 h.device
  obtain ⟨n, hn⟩ := Nat.exists_eq_add_of_le' h.nonempty
  have hloop := uriLoop_text (p := (clearPacket (w.wire.setCommand 1)).packet) (x := 0) h.text h.short
  rw [Nat.zero_add, hn] at hloop
  have hptr : ¬c.buffer.1 ||| c.buffer.2 = 0 := fun hz => h.pointer ((pointer_eq_zero _).1 hz)
  rw [openNamed_eq hx ho, if_neg hptr, if_neg (not_not.2 h0), if_neg (not_not.2 h1), if_neg (not_not.2 h2), hloop, openWire, hn]
  rfl

/-- Nothing is sent when there is no name. -/
theorem openNamed_other {c : Call} {w : Ram} (hx : w.callerX = c.x) (ho : w.wire.outstanding = 0)
    (h : ∀ uri, ¬IsName (indirect c.mem c.buffer) c.buffer uri) :
    (openNamed c.mem c.mode w).2.wire.log = w.wire.log ∧ (openNamed c.mem c.mode w).2.owners = w.owners := by
  rw [openNamed_eq hx ho]
  split_ifs with hptr h0 h1 h2
  · exact ⟨rfl, rfl⟩
  · exact ⟨rfl, rfl⟩
  · exact ⟨rfl, rfl⟩
  · exact ⟨rfl, rfl⟩
  · have hfound (n : ℕ) := @uriLoop_found c.mem c.buffer 128 2 0 (n + 1) (clearPacket (w.wire.setCommand 1)).packet
    generalize uriLoop c.mem c.buffer 128 2 0 (clearPacket (w.wire.setCommand 1)).packet = r at hfound ⊢
    obtain ⟨_ | _ | n, packet⟩ := r
    · exact ⟨rfl, rfl⟩
    · exact ⟨rfl, rfl⟩
    · obtain ⟨uri, htext, hlen, hn⟩ := hfound n rfl
      refine absurd ⟨fun hz => hptr ((pointer_eq_zero _).2 hz), device_iff.2 ⟨not_not.1 h0, not_not.1 h1, not_not.1 h2⟩, htext, ?_, hlen⟩
        (h uri)
      omega

/-- The slot that OPEN takes. -/
def freeSlot (owners : Slot → Owner) : Slot := if (owners .x16).own.msb then .x16 else .x0

theorem doOpen_eq {c : Call} {w : Ram} (hx : w.callerX = c.x) (hfree : ∃ k, (w.owners k).own.msb = true)
    (hmode : c.mode = 4 ∨ c.mode = 8 ∨ c.mode = 12) :
    doOpen c.mem w = openNamed c.mem c.mode (w.setSlot (freeSlot w.owners)) := by
  have hno : ¬(c.mode ≠ 4 ∧ c.mode ≠ 8 ∧ c.mode ≠ 12) := by tauto
  rw [doOpen, hx, freeSlot]
  refine (if_neg hno).trans ?_
  by_cases h16 : (w.owners .x16).own.msb = true
  · rw [if_pos h16, if_pos h16]
    rfl
  · have h0 : (w.owners .x0).own.msb = true := by
      obtain ⟨k, hk⟩ := hfree
      cases k with
      | x0 => exact hk
      | x16 => exact absurd hk h16
    rw [if_neg h16, if_neg h16, if_pos h0]
    rfl

/-- `do_open` with a free slot and nothing outstanding. -/
theorem doOpen_names {c : Call} {w : Ram} {uri : List Byte} (hx : w.callerX = c.x) (ho : w.wire.outstanding = 0)
    (hfree : ∃ k, (w.owners k).own.msb = true) (h : Names c uri) :
    ∃ reply, Logs w.wire (doOpen c.mem w).2.wire [(openFrame c.mode uri, reply)] [] ∧
      (doOpen c.mem w).2.owners = grant c (freeSlot w.owners) w.owners reply := by
  rw [doOpen_eq hx hfree h.mode, openNamed_name (w := w.setSlot (freeSlot w.owners)) hx ho h.name]
  have hspec := openExchange_spec (c := c)
    (w := ((w.setSlot (freeSlot w.owners)).setPtr c.buffer).setWire (openWire c.mode uri (w.setSlot (freeSlot w.owners)).wire)) hx
  obtain ⟨reply, hlogs, howners⟩ := hspec
  rw [Ram.setWire_wire, frameOf_openWire c.mode h.name.short] at hlogs
  have hlog : (openWire c.mode uri (w.setSlot (freeSlot w.owners)).wire).log = w.wire.log := by
    rw [openWire, openRequest]
    split_ifs <;> rfl
  exact ⟨reply, hlogs.of_log hlog, howners⟩

theorem doOpen_other {c : Call} {w : Ram} (hx : w.callerX = c.x) (ho : w.wire.outstanding = 0)
    (hfree : ∃ k, (w.owners k).own.msb = true) (h : ∀ uri, ¬Names c uri) :
    (doOpen c.mem w).2.wire.log = w.wire.log ∧ (doOpen c.mem w).2.owners = w.owners := by
  by_cases hmode : c.mode = 4 ∨ c.mode = 8 ∨ c.mode = 12
  · rw [doOpen_eq hx hfree hmode]
    exact @openNamed_other c (w.setSlot (freeSlot w.owners)) hx ho fun uri hname => h uri ⟨hmode, hname⟩
  · have hno : c.mode ≠ 4 ∧ c.mode ≠ 8 ∧ c.mode ≠ 12 := by tauto
    have hrun : doOpen c.mem w = unsupported w := by
      rw [doOpen, hx]
      exact if_pos hno
    rw [hrun]
    exact ⟨rfl, rfl⟩

/-- An OPEN by an IOCB that owns no record, between two calls, with a free record and no
transaction outstanding. -/
structure MayOpen (c : Call) (w : Ram) : Prop where
  op : c.op = .openIocb
  iocb : c.x &&& 0x8f = 0
  other : ∀ k, (w.owners k).own ≠ c.x
  free : ∃ k, (w.owners k).own.msb = true
  outstanding : w.wire.outstanding = 0
  idle : w.busy = 0

theorem perform_open {c : Call} {w : Ram} (h : MayOpen c w) :
    (perform c w).1.events = (doOpen c.mem (entered c w)).2.wire.log ∧
      (perform c w).2.owners = (doOpen c.mem (entered c w)).2.owners := by
  have hfind : findOwner (entered c w) = none := by
    rw [findOwner]
    exact (if_neg (h.other .x16)).trans (if_neg (h.other .x0))
  have hdispatch : dispatch c.mem c.op (entered c w) = doOpen c.mem (entered c w) := by
    unfold dispatch
    rw [hfind, h.op]
    exact if_neg (not_not.2 h.iocb)
  rw [perform_free h.idle hdispatch]
  exact ⟨rfl, rfl⟩

theorem grant_own {c : Call} {k : Slot} {owners : Slot → Owner} {reply : Option (List Byte)}
    (hother : ∀ j, (owners j).own ≠ c.x) :
    (∃ j, (grant c k owners reply j).own = c.x) ↔ ∃ r handle, reply = some r ∧ granted r = some handle := by
  rw [grant]
  constructor
  · rintro ⟨j, hj⟩
    cases hr : reply with
    | none =>
      rw [hr] at hj
      exact absurd hj (hother j)
    | some r =>
      cases hg : granted r with
      | none =>
        rw [hr, Option.bind_some, hg] at hj
        exact absurd hj (hother j)
      | some handle => exact ⟨r, handle, rfl, hg⟩
  · rintro ⟨r, handle, rfl, hg⟩
    refine ⟨k, ?_⟩
    rw [Option.bind_some, hg]
    dsimp only
    rw [Function.update_self]
    rfl

/-- OPEN sends exactly the names it is to accept, as it reads them with its pointer at
`$82/$83`, and creates a record exactly when the response grants a handle. -/
theorem open_name {c : Call} {w : Ram} (h : MayOpen c w) :
    (∀ uri, Names c uri → ∃ reply, wFrames (perform c w).1.events = [openFrame c.mode uri] ∧
      exchanges (perform c w).1.events = [(openFrame c.mode uri, reply)] ∧
        (perform c w).2.owners = grant c (freeSlot w.owners) w.owners reply) ∧
    ((∀ uri, ¬Names c uri) → wFrames (perform c w).1.events = [] ∧ exchanges (perform c w).1.events = [] ∧
      (perform c w).2.owners = w.owners) ∧
    ((∃ k, ((perform c w).2.owners k).own = c.x) ↔
      ∃ frame r handle, (frame, some r) ∈ exchanges (perform c w).1.events ∧ granted r = some handle) ∧
    ∀ uri, Apart c uri.length → (Names c uri ↔ HasName c uri) := by
  obtain ⟨hevents, howners⟩ := perform_open h
  rw [hevents, howners]
  have hnames (uri : List Byte) (hn : Names c uri) := @doOpen_names c (entered c w) uri rfl h.outstanding h.free hn
  have hother (hn : ∀ uri, ¬Names c uri) := @doOpen_other c (entered c w) rfl h.outstanding h.free hn
  have hsent (uri : List Byte) (hn : Names c uri) : ∃ reply,
      wFrames (doOpen c.mem (entered c w)).2.wire.log = [openFrame c.mode uri] ∧
        exchanges (doOpen c.mem (entered c w)).2.wire.log = [(openFrame c.mode uri, reply)] ∧
          (doOpen c.mem (entered c w)).2.owners = grant c (freeSlot w.owners) w.owners reply := by
    obtain ⟨reply, ⟨es, hes, hframes, hexchanges, -⟩, hgrant⟩ := hnames uri hn
    have hlog : (doOpen c.mem (entered c w)).2.wire.log = es := hes
    rw [hlog]
    exact ⟨reply, hframes, hexchanges, hgrant⟩
  refine ⟨hsent, fun hn => ?_, ?_, fun uri => names_iff⟩
  · obtain ⟨hlog, hown⟩ := hother hn
    rw [hlog, hown]
    exact ⟨rfl, rfl, rfl⟩
  · by_cases hn : ∃ uri, Names c uri
    · obtain ⟨uri, hn⟩ := hn
      obtain ⟨reply, -, hexchanges, hgrant⟩ := hsent uri hn
      rw [hgrant, hexchanges, grant_own h.other]
      simp only [List.mem_singleton, Prod.mk.injEq]
      constructor
      · rintro ⟨r, handle, rfl, hg⟩
        exact ⟨_, r, handle, ⟨rfl, rfl⟩, hg⟩
      · rintro ⟨frame, r, handle, ⟨-, hr⟩, hg⟩
        exact ⟨r, handle, hr.symm, hg⟩
    · obtain ⟨hlog, hown⟩ := hother fun uri hu => hn ⟨uri, hu⟩
      rw [hlog, hown]
      constructor
      · rintro ⟨k, hk⟩
        exact absurd hk (h.other k)
      · rintro ⟨frame, r, handle, hmem, -⟩
        cases hmem

theorem mayOpen_channel : MayOpen (channelOpen 4) init := by
  refine ⟨rfl, by decide, fun k => ?_, ⟨.x0, by decide⟩, rfl, rfl⟩
  cases k <;> decide

theorem names_channel : Names (channelOpen 4) [0x61] :=
  ⟨.inl (by decide), by decide, by decide, ⟨by decide, by decide, by decide⟩, by decide, by decide⟩

/-- `N1:a` is opened for input, and answered with the handle 5. -/
theorem open_name_channel : (∃ reply, wFrames (perform (channelOpen 4) init).1.events = [openFrame 4 [0x61]] ∧
      exchanges (perform (channelOpen 4) init).1.events = [(openFrame 4 [0x61], reply)] ∧
        (perform (channelOpen 4) init).2.owners = grant (channelOpen 4) .x16 init.owners reply) ∧
    ∃ frame r handle, (frame, some r) ∈ exchanges (perform (channelOpen 4) init).1.events ∧ granted r = some handle := by
  obtain ⟨hsent, -, hcreated, -⟩ := open_name mayOpen_channel
  exact ⟨hsent _ names_channel, hcreated.1 ⟨.x16, by decide +kernel⟩⟩

/-- The name `N1:a` at `$0080`, where the handler puts its pointer over it. -/
def pageZeroOpen : Call where
  op := .openIocb
  a := 0
  x := 0x10
  zp := (0x3a, 0x61)
  mem := fun a =>
    if a = 0x035a then 4
    else if a = 0x0354 then 0x80
    else if 0x0080 ≤ a ∧ a < 0x0084 then [0x4e, 0x31, 0x3a, 0x61].getD (a - 0x0080).toNat 0
    else 0
  results := prompt [replyBytes 1 [1, 0, 0, 0, 5, 0, 0]]

theorem page_zero_refused : MayOpen pageZeroOpen init ∧ HasName pageZeroOpen [0x61] ∧
    wFrames (perform pageZeroOpen init).1.events = [] ∧ (perform pageZeroOpen init).1.y = 0xa5 := by
  refine ⟨⟨rfl, by decide, fun k => ?_, ⟨.x0, by decide⟩, rfl, rfl⟩, ?_, by decide +kernel, by decide +kernel⟩
  · cases k <;> decide
  · exact ⟨.inl (by decide), by decide, by decide, ⟨by decide, by decide, by decide⟩, by decide, by decide⟩

end NioApps.Resident
