import NioApps.Spec.Directory

/-! Single steps of the service client: bytes put into the request buffer, bytes read
back from the response buffer, and a call with its reply. -/

namespace NioApps.Service

open Abort

/-- Codes and a response for the runs on fixed inputs. -/
def diskErr : DiskErr := ⟨0, 0xff, by decide⟩

def replyBytes (bs : List Byte) : Reply := ⟨0, statusOk, BitVec.ofNat 16 bs.length, fun k => bs.getD k 0⟩

/-! ### Stored bytes -/

theorem slice_store_before {off i n : ℕ} (bs : List Byte) (b : ℕ → Byte) (h : i + n ≤ off) :
    slice (store off bs b) i n = slice b i n := by
  apply slice_congr
  intro j hj
  rw [store, if_neg (by omega)]

theorem slice_store (off : ℕ) (bs : List Byte) (b : ℕ → Byte) : slice (store off bs b) off bs.length = bs := by
  apply List.ext_getElem (length_slice _ _ _)
  intro j h h'
  rw [getElem_slice, store, if_pos ⟨by omega, by omega⟩, Nat.add_sub_cancel_left]
  exact (List.getElem_eq_getD 0).symm

/-- Bytes stored behind the first `off` bytes. -/
theorem slice_store_append {off : ℕ} (bs : List Byte) (b : ℕ → Byte) :
    slice (store off bs b) 0 (off + bs.length) = slice b 0 off ++ bs := by
  rw [slice_add, Nat.zero_add, slice_store, slice_store_before bs b (by omega)]

/-! ### The request buffer -/

theorem put_run {off : Word} {bs : List Byte} (h : off.toNat + bs.length ≤ maxData) (c : Client) :
    (put off bs).run c = .ok (off + BitVec.ofNat 16 bs.length) { c with reqBuf := store off.toNat bs c.reqBuf } := by
  rw [put, if_pos h]
  rfl

theorem put_outside {off : Word} {bs : List Byte} (h : ¬off.toNat + bs.length ≤ maxData) (c : Client) :
    (put off bs).run c = .error () { c with fault := some .request } := by
  rw [put, if_neg h]
  rfl

/-- Since `c` only the request buffer was written, up to `off`, and it begins with `bs`. -/
structure Written (c : Client) (bs : List Byte) (off : Word) (c' : Client) : Prop where
  off_eq : off.toNat = bs.length
  fits : bs.length ≤ maxData
  bytes : slice c'.reqBuf 0 bs.length = bs
  frame : c' = { c with reqBuf := c'.reqBuf }

theorem Written.nil (c : Client) : Written c [] 0 c where
  off_eq := rfl
  fits := by decide
  bytes := rfl
  frame := rfl

/-- A write of a request of `total` bytes that left the buffer, before anything was sent. -/
structure Overrun (c : Client) (total : ℕ) (c' : Client) : Prop where
  large : maxData < total
  fault : c'.fault = some .request
  sent : c'.sent = c.sent
  answer : c'.answer = c.answer
  listed : c'.listed = c.listed
  beyond : c'.beyond = c.beyond

theorem Written.put {c c' : Client} {bs xs : List Byte} {off : Word} {total : ℕ} (h : Written c bs off c')
    (htotal : (bs ++ xs).length ≤ total) : wp (put off xs) (Written c (bs ++ xs)) (Overrun c total) c' := by
  have hoff := h.off_eq
  rw [List.length_append] at htotal
  by_cases hput : off.toNat + xs.length ≤ maxData
  · have hlen : bs.length + xs.length ≤ 512 := by rw [← hoff]; exact hput
    rw [wp_of_ok (put_run hput c')]
    exact {
      off_eq := by
        rw [BitVec.toNat_add, BitVec.toNat_ofNat, hoff, List.length_append]
        omega
      fits := by rw [List.length_append]; exact hlen
      bytes := by rw [List.length_append, hoff, slice_store_append, h.bytes]
      frame := by rw [h.frame] }
  · rw [wp, put_outside hput]
    exact ⟨by omega, rfl, by rw [h.frame], by rw [h.frame], by rw [h.frame], by rw [h.frame]⟩

/-- A write that stays inside the buffer. -/
theorem Written.fit {c c' : Client} {bs xs : List Byte} {off : Word} {E : Client → Prop} (h : Written c bs off c')
    (hfits : (bs ++ xs).length ≤ maxData) : wp (Service.put off xs) (Written c (bs ++ xs)) E c' :=
  (h.put le_rfl).mono (fun _ _ => id) fun _ ho => absurd ho.large (Nat.not_lt.2 hfits)

/-- A write with a continuation, for runs that may leave the buffer. -/
theorem Written.next {α : Type} {c c' : Client} {bs xs : List Byte} {off : Word} {f : Word → Svc α} {Q : α → Client → Prop}
    (h : Written c bs off c') (hf : ∀ off' c'', Written c (bs ++ xs) off' c'' → wp (f off') Q (fun _ => True) c'') :
    wp (Service.put off xs >>= f) Q (fun _ => True) c' :=
  wp.seq ((h.put le_rfl).mono (fun _ _ => id) fun _ _ => trivial) hf

theorem Written.nextFit {α : Type} {c c' : Client} {bs xs : List Byte} {off : Word} {f : Word → Svc α} {Q : α → Client → Prop}
    {E : Client → Prop} (h : Written c bs off c') (hfits : (bs ++ xs).length ≤ maxData)
    (hf : ∀ off' c'', Written c (bs ++ xs) off' c'' → wp (f off') Q E c'') : wp (Service.put off xs >>= f) Q E c' :=
  wp.seq (h.fit hfits) hf

/-! ### Requests -/

theorem listRequest_wp (uri : List Byte) (uriLen start : Word) (c : Client) :
    wp (listRequest uri uriLen start) (Written c (listBytes uri uriLen start))
      (Overrun c (listBytes uri uriLen start).length) c := by
  refine wp.seq ((Written.nil c).put (by simp [listBytes])) ?_
  intro off c₁ h₁
  refine wp.seq (h₁.put (by simp [listBytes])) ?_
  intro off c₂ h₂
  refine wp.seq (h₂.put (by simp [listBytes])) ?_
  intro off c₃ h₃
  refine wp.seq (h₃.put (by simp [listBytes])) ?_
  intro off c₄ h₄
  refine wp.seq (h₄.put (by simp [listBytes])) ?_
  intro off c₅ h₅
  exact h₅.put (by simp [listBytes])

theorem length_listBytes (uri : List Byte) (start : Word) :
    (listBytes uri (BitVec.ofNat 16 uri.length) start).length = uri.length % 2 ^ 16 + 8 := by
  simp only [listBytes, u16le, List.length_append, List.length_cons, List.length_nil, List.length_take, BitVec.toNat_ofNat]
  omega

/-- The comparison counts six bytes beside the URI, and the request has eight. -/
theorem listPage_overrun {uri : List Byte} (hlarge : 504 < uri.length % 2 ^ 16) (hpass : uri.length % 2 ^ 16 ≤ 506)
    (start : Word) (c : Client) :
    wp (listPage uri (BitVec.ofNat 16 uri.length) start) (fun _ _ => False) (Overrun c (uri.length % 2 ^ 16 + 8)) c := by
  rw [listPage, if_neg (by rw [BitVec.toNat_ofNat, maxData]; omega), ← length_listBytes uri start]
  refine wp.seq (listRequest_wp ..) fun off c₁ h₁ => ?_
  have hfits := h₁.fits
  rw [length_listBytes, maxData] at hfits
  omega

def resolveBytes (baseUri arg : List Byte) (baseLen argLen : Word) : List Byte :=
  [fileVersion] ++ u16le baseLen ++ baseUri.take baseLen.toNat ++ u16le argLen ++ arg.take argLen.toNat

theorem length_resolveBytes (baseUri arg : List Byte) :
    (resolveBytes baseUri arg (BitVec.ofNat 16 baseUri.length) (BitVec.ofNat 16 arg.length)).length =
      baseUri.length % 2 ^ 16 + arg.length % 2 ^ 16 + 5 := by
  simp only [resolveBytes, u16le, List.length_append, List.length_cons, List.length_nil, List.length_take,
    BitVec.toNat_ofNat]
  omega

/-- The sum that is compared with the size of the buffer. -/
theorem resolve_sum (baseUri arg : List Byte) :
    (BitVec.ofNat 16 baseUri.length + BitVec.ofNat 16 arg.length + 5).toNat =
      (baseUri.length + arg.length + 5) % 2 ^ 16 := by
  have h5 : (5 : Word).toNat = 5 := rfl
  rw [BitVec.toNat_add, BitVec.toNat_add, BitVec.toNat_ofNat, BitVec.toNat_ofNat]
  omega

theorem resolveRequest_wp (baseUri arg : List Byte) (baseLen argLen : Word) (c : Client) :
    wp (resolveRequest baseUri arg baseLen argLen) (Written c (resolveBytes baseUri arg baseLen argLen))
      (Overrun c (resolveBytes baseUri arg baseLen argLen).length) c := by
  refine wp.seq ((Written.nil c).put (by simp [resolveBytes])) ?_
  intro off c₁ h₁
  refine wp.seq (h₁.put (by simp [resolveBytes])) ?_
  intro off c₂ h₂
  refine wp.seq (h₂.put (by simp [resolveBytes])) ?_
  intro off c₃ h₃
  refine wp.seq (h₃.put (by simp [resolveBytes])) ?_
  intro off c₄ h₄
  refine wp_ite (fun _ => h₄.put (by simp [resolveBytes])) fun harg => ?_
  have hnil : arg.take argLen.toNat = [] := by
    rw [not_not.1 harg]
    rfl
  rw [resolveBytes, hnil, List.append_nil]
  exact h₄

def mountBytes (slot : Byte) (uri : List Byte) (uriLen : Word) (readonly : Byte) (hint : Word) : List Byte :=
  [diskVersion] ++ [slot + 1] ++ [if readonly ≠ 0 then 0x01 else 0x00] ++ [0x00] ++ u16le hint ++ u16le uriLen ++
    uri.take uriLen.toNat

theorem mountRequest_wp (slot : Byte) (uri : List Byte) (uriLen : Word) (readonly : Byte) (hint : Word) (c : Client) :
    wp (mountRequest slot uri uriLen readonly hint) (Written c (mountBytes slot uri uriLen readonly hint))
      (Overrun c (mountBytes slot uri uriLen readonly hint).length) c := by
  refine wp.seq ((Written.nil c).put (by simp [mountBytes])) ?_
  intro off c₁ h₁
  refine wp.seq (h₁.put (by simp [mountBytes])) ?_
  intro off c₂ h₂
  refine wp.seq (h₂.put (by simp [mountBytes])) ?_
  intro off c₃ h₃
  refine wp.seq (h₃.put (by simp [mountBytes])) ?_
  intro off c₄ h₄
  refine wp.seq (h₄.put (by simp [mountBytes])) ?_
  intro off c₅ h₅
  refine wp.seq (h₅.put (by simp [mountBytes])) ?_
  intro off c₆ h₆
  exact h₆.put (by simp [mountBytes])

/-! ### The response buffer -/

/-- A read of bytes that belong to the response. -/
theorem look_within {off n : ℕ} {c : Client} (h : n = 0 ∨ off + n ≤ c.respEnd) : look off n c = c := if_pos h

theorem getAt_run {off n : ℕ} (h : off + n ≤ maxData) (c : Client) :
    (getAt off n).run c = .ok (slice (look off n c).respBuf off n) (look off n c) := by
  rw [getAt, if_pos h]
  rfl

theorem getAt_outside {off n : ℕ} (h : ¬off + n ≤ maxData) (c : Client) :
    (getAt off n).run c = .error () { c with fault := some .response } := by
  rw [getAt, if_neg h]
  rfl

theorem look_respBuf (off n : ℕ) (c : Client) : (look off n c).respBuf = c.respBuf := by
  unfold look
  split_ifs <;> rfl

theorem get_run {off : Word} {n : ℕ} (h : off.toNat + n ≤ maxData) (c : Client) :
    (get off n).run c = .ok (slice c.respBuf off.toNat n) (look off.toNat n c) := by
  rw [get, getAt_run h, look_respBuf]

theorem get_outside {off : Word} {n : ℕ} (h : ¬off.toNat + n ≤ maxData) (c : Client) :
    (get off n).run c = .error () { c with fault := some .response } := getAt_outside h c

theorem getByte_run {off : Word} (h : off.toNat + 1 ≤ maxData) (c : Client) :
    (getByte off).run c = .ok (c.respBuf off.toNat) (look off.toNat 1 c) := by
  rw [getByte, run_bind_ok (get_run h c)]
  rfl

theorem getU16_run {off : Word} (h : off.toNat + 2 ≤ maxData) (c : Client) :
    (getU16 off).run c = .ok (BitVec.ofNat 16 (le (slice c.respBuf off.toNat 2))) (look off.toNat 2 c) := by
  rw [getU16, run_bind_ok (get_run h c)]
  rfl

theorem getU32_run {off : Word} (h : off.toNat + 4 ≤ maxData) (c : Client) :
    (getU32 off).run c = .ok (BitVec.ofNat 32 (le (slice c.respBuf off.toNat 4))) (look off.toNat 4 c) := by
  rw [getU32, run_bind_ok (get_run h c)]
  rfl

section Within

variable {off : Word} {c : Client}

theorem get_within {n : ℕ} (h : off.toNat + n ≤ c.respEnd) (hcap : off.toNat + n ≤ maxData) :
    (get off n).run c = .ok (slice c.respBuf off.toNat n) c := by
  rw [get_run hcap, look_within (.inr h)]

theorem getByte_within (h : off.toNat + 1 ≤ c.respEnd) (hcap : off.toNat + 1 ≤ maxData) :
    (getByte off).run c = .ok (c.respBuf off.toNat) c := by
  rw [getByte_run hcap, look_within (.inr h)]

theorem getU16_within (h : off.toNat + 2 ≤ c.respEnd) (hcap : off.toNat + 2 ≤ maxData) :
    (getU16 off).run c = .ok (BitVec.ofNat 16 (le (slice c.respBuf off.toNat 2))) c := by
  rw [getU16_run hcap, look_within (.inr h)]

theorem getU32_within (h : off.toNat + 4 ≤ c.respEnd) (hcap : off.toNat + 4 ≤ maxData) :
    (getU32 off).run c = .ok (BitVec.ofNat 32 (le (slice c.respBuf off.toNat 4))) c := by
  rw [getU32_run hcap, look_within (.inr h)]

end Within

/-! ### Calls -/

/-- The reply to the next request `q`. -/
def Client.reply (q : Request) (c : Client) : Reply := c.answer (c.sent ++ [q])

/-- What the caller is told: the status and the length, unless the call failed. -/
def Reply.header (r : Reply) : Option (Byte × Word) := if r.result = 0 then some (r.status, r.length) else none

/-- The response buffer with a reply in it. -/
def Reply.stored (r : Reply) (capacity : Word) (b : ℕ → Byte) : ℕ → Byte := fun k =>
  if k < min r.length.toNat capacity.toNat then r.data k else b k

/-- The response buffer as the reply left it. -/
theorem Reply.stored_data (r : Reply) {capacity : Word} {k : ℕ} (b : ℕ → Byte) (h : k < r.length.toNat)
    (hcap : k < capacity.toNat) : r.stored capacity b k = r.data k := by
  rw [Reply.stored, if_pos (by omega)]

/-- The client after `fnctl_nio_call` with the request `q`. -/
def Client.called (q : Request) (c : Client) : Client :=
  { c with
    sent := c.sent ++ [q]
    respBuf := (c.reply q).stored q.capacity c.respBuf
    respEnd := (c.reply q).length.toNat
    lastDosError := (c.reply q).result }

/-- The client after `service_call` with the request `q`. -/
def Client.served (q : Request) (c : Client) : Client := { c.called q with lastRawError := (c.reply q).result }

theorem nioCall_run {device command : Byte} {len capacity : Word} (hlen : len.toNat ≤ maxData)
    (hcap : capacity.toNat ≤ maxData) (c : Client) :
    (nioCall device command len capacity).run c =
      .ok (c.reply ⟨device, command, slice c.reqBuf 0 len.toNat, capacity⟩).header
        (c.called ⟨device, command, slice c.reqBuf 0 len.toNat, capacity⟩) := by
  have hget : (MonadState.get : Svc Client).run c = .ok c c := rfl
  rw [nioCall, if_neg (by omega), run_bind_ok hget]
  dsimp only
  rw [EStateM.run_bind]
  by_cases hr : (c.reply ⟨device, command, slice c.reqBuf 0 len.toNat, capacity⟩).result = 0
  · rw [Reply.header, if_pos hr]
    exact congrFun (if_neg (fun h => h hr)) _
  · rw [Reply.header, if_neg hr]
    exact congrFun (if_pos hr) _

theorem serviceCall_run {device command : Byte} {len capacity : Word} (hlen : len.toNat ≤ maxData)
    (hcap : capacity.toNat ≤ maxData) (c : Client) :
    (serviceCall device command len capacity).run c =
      .ok (c.reply ⟨device, command, slice c.reqBuf 0 len.toNat, capacity⟩).header
        (c.served ⟨device, command, slice c.reqBuf 0 len.toNat, capacity⟩) := by
  rw [serviceCall, run_bind_ok (nioCall_run hlen hcap c)]
  by_cases hr : (c.reply ⟨device, command, slice c.reqBuf 0 len.toNat, capacity⟩).result = 0
  · rw [Reply.header, if_pos hr, Client.served, hr]
    rfl
  · rw [Reply.header, if_neg hr]
    rfl

theorem Written.reply_eq {c c' : Client} {bs : List Byte} {off : Word} (h : Written c bs off c') (q : Request) :
    c'.reply q = c.reply q := by
  rw [h.frame]
  rfl

theorem Written.served_sent {c c' : Client} {bs : List Byte} {off : Word} (h : Written c bs off c') (q : Request) :
    (c'.served q).sent = c.sent ++ [q] := by
  rw [h.frame]
  rfl

theorem Written.answer_eq {c c' : Client} {bs : List Byte} {off : Word} (h : Written c bs off c') :
    c'.answer = c.answer := by rw [h.frame]

theorem Written.beyond_eq {c c' : Client} {bs : List Byte} {off : Word} (h : Written c bs off c') :
    c'.beyond = c.beyond := by rw [h.frame]

/-- A service call with the request that was written: it failed, or it came back. -/
theorem Written.service {α : Type} {c c' : Client} {bs : List Byte} {off : Word} (h : Written c bs off c')
    {device command : Byte} {capacity : Word} {f : Option (Byte × Word) → Svc α} {Q : α → Client → Prop}
    {E : Client → Prop} (hcap : capacity.toNat ≤ maxData)
    (hfailed : (c.reply ⟨device, command, bs, capacity⟩).result ≠ 0 →
      wp (f none) Q E (c'.served ⟨device, command, bs, capacity⟩))
    (hback : (c.reply ⟨device, command, bs, capacity⟩).result = 0 →
      wp (f (some ((c.reply ⟨device, command, bs, capacity⟩).status, (c.reply ⟨device, command, bs, capacity⟩).length)))
        Q E (c'.served ⟨device, command, bs, capacity⟩)) :
    wp (serviceCall device command off capacity >>= f) Q E c' := by
  have hbytes : slice c'.reqBuf 0 off.toNat = bs := by rw [h.off_eq, h.bytes]
  rw [wp_bind, wp_of_ok (serviceCall_run (by rw [h.off_eq]; exact h.fits) hcap c'), hbytes, h.reply_eq]
  by_cases hr : (c.reply ⟨device, command, bs, capacity⟩).result = 0
  · rw [Reply.header, if_pos hr]
    exact hback hr
  · rw [Reply.header, if_neg hr]
    exact hfailed hr

/-- The response `r` is in the buffer, as far as it fits. -/
structure Headed (r : Reply) (c : Client) : Prop where
  data : ∀ k < r.length.toNat, k < 512 → c.respBuf k = r.data k
  last : c.respEnd = r.length.toNat

section Headed

variable {r : Reply} {c : Client}

theorem headed_called {c' : Client} {q : Request} (hq : q.capacity = 512) (hr : c'.reply q = r) : Headed r (c'.called q) where
  data k hk hlt := by
    have hbuf : (c'.called q).respBuf = r.stored q.capacity c'.respBuf := by rw [← hr]; rfl
    rw [hbuf, r.stored_data _ hk (by rw [hq]; exact hlt)]
  last := congrArg (fun r => r.length.toNat) hr

theorem Headed.congr {c' : Client} (h : Headed r c) (hbuf : c'.respBuf = c.respBuf) (hend : c'.respEnd = c.respEnd) :
    Headed r c' where
  data := hbuf ▸ h.data
  last := hend.trans h.last

theorem Headed.getByte (h : Headed r c) {off : Word} (hoff : off.toNat + 1 ≤ r.length.toNat) (hcap : off.toNat + 1 ≤ maxData) :
    (Service.getByte off).run c = .ok (r.data off.toNat) c := by
  rw [getByte_within (h.last ▸ hoff) hcap, h.data _ hoff hcap]

theorem Headed.getU16 (h : Headed r c) {off : Word} (hoff : off.toNat + 2 ≤ r.length.toNat) (hcap : off.toNat + 2 ≤ maxData) :
    (Service.getU16 off).run c = .ok (BitVec.ofNat 16 (le (slice r.data off.toNat 2))) c := by
  rw [maxData] at hcap
  rw [getU16_within (h.last ▸ hoff) hcap]
  exact congrArg (fun bs => EStateM.Result.ok (BitVec.ofNat 16 (le bs)) c)
    (slice_congr fun j hj => h.data _ (by omega) (by omega))

end Headed

/-- The response `r` is in the buffer. -/
structure Loaded (r : Reply) (c : Client) : Prop where
  fits : r.length.toNat ≤ maxData
  data : ∀ k < r.length.toNat, c.respBuf k = r.data k
  last : c.respEnd = r.length.toNat

section Loaded

variable {r : Reply} {c : Client}

theorem Headed.loaded (h : Headed r c) (hfits : r.length.toNat ≤ maxData) : Loaded r c where
  fits := hfits
  data k hk := h.data k hk (Nat.lt_of_lt_of_le hk hfits)
  last := h.last

theorem loaded_called {c' : Client} {q : Request} (hfits : r.length.toNat ≤ maxData) (hq : q.capacity = 512)
    (hr : c'.reply q = r) : Loaded r (c'.called q) := (headed_called hq hr).loaded hfits

theorem Loaded.congr {c' : Client} (h : Loaded r c) (hbuf : c'.respBuf = c.respBuf) (hend : c'.respEnd = c.respEnd) :
    Loaded r c' where
  fits := h.fits
  data := hbuf ▸ h.data
  last := hend.trans h.last

theorem Loaded.headed (h : Loaded r c) : Headed r c := ⟨fun k hk _ => h.data k hk, h.last⟩

theorem Loaded.slice (h : Loaded r c) {i n : ℕ} (hi : i + n ≤ r.length.toNat) :
    NioApps.slice c.respBuf i n = NioApps.slice r.data i n :=
  slice_congr fun j hj => h.data (i + j) (by omega)

theorem Loaded.getAt (h : Loaded r c) {off n : ℕ} (hoff : off + n ≤ r.length.toNat) :
    (Service.getAt off n).run c = .ok (NioApps.slice r.data off n) c := by
  have hlook : look off n c = c := look_within (.inr (h.last ▸ hoff))
  rw [getAt_run (hoff.trans h.fits), hlook, h.slice hoff]

theorem Loaded.get (h : Loaded r c) {off : Word} {n : ℕ} (hoff : off.toNat + n ≤ r.length.toNat) :
    (Service.get off n).run c = .ok (NioApps.slice r.data off.toNat n) c := h.getAt hoff

theorem Loaded.getByte (h : Loaded r c) {off : Word} (hoff : off.toNat + 1 ≤ r.length.toNat) :
    (Service.getByte off).run c = .ok (r.data off.toNat) c :=
  h.headed.getByte hoff (hoff.trans h.fits)

theorem Loaded.getU16 (h : Loaded r c) {off : Word} (hoff : off.toNat + 2 ≤ r.length.toNat) :
    (Service.getU16 off).run c = .ok (BitVec.ofNat 16 (le (NioApps.slice r.data off.toNat 2))) c :=
  h.headed.getU16 hoff (hoff.trans h.fits)

end Loaded

theorem le_slice_lt (b : ℕ → Byte) (i : ℕ) : le (slice b i 2) < 2 ^ 16 := by
  have hlt := le_lt (slice b i 2)
  rwa [length_slice] at hlt

theorem ofNat_le_slice (b : ℕ → Byte) (i : ℕ) : (BitVec.ofNat 16 (le (slice b i 2))).toNat = le (slice b i 2) := by
  rw [BitVec.toNat_ofNat, Nat.mod_eq_of_lt (le_slice_lt b i)]

/-- A length cut to what a buffer of `cap` bytes can hold beside its NUL. -/
theorem clip_toNat {cap : Word} (h : cap ≠ 0) (len : Word) :
    (if len ≥ cap then cap - 1 else len).toNat = min len.toNat (cap.toNat - 1) := by
  have hpos : 0 < cap.toNat := Nat.pos_of_ne_zero fun h0 => h (BitVec.eq_of_toNat_eq h0)
  split_ifs with hle
  · have hle' : cap.toNat ≤ len.toNat := BitVec.le_def.1 hle
    have hsub : (cap - 1).toNat = cap.toNat - 1 := by bv_omega
    omega
  · have hlt : len.toNat < cap.toNat := BitVec.lt_def.1 (BitVec.not_le.1 hle)
    omega

theorem fail_run (error : Byte) (c : Client) : (fail error).run c = .ok false { c with lastError := error } := rfl

/-! ### The header of a response -/

/-- The round of a page whose header lets its entries be read. -/
def readPage (flags : Byte) (respLen start count : Word) : Svc Page := do
  if ← listEntries flags respLen count.toNat 10 then
    if flags &&& 0x01 = 0 then return .done true
    else if count = 0 then failPage errShortResponse
    else return .next (start + count)
  else return .done false

theorem listResponse_header {r : Reply} {c : Client} (h : Headed r c) (start : Word) :
    (listResponse r.length start).run c =
      (if r.length < 10 then failPage errShortResponse
      else if r.data 0 ≠ fileVersion then failPage errBadVersion
      else if 10 + BitVec.ofNat 16 (le (slice r.data 8 2)) > r.length then failPage errEntriesBounds
      else readPage (r.data 1) r.length start (BitVec.ofNat 16 (le (slice r.data 6 2)))).run c := by
  rw [listResponse]
  by_cases hlen : r.length < 10
  · rw [if_pos hlen, if_pos hlen]
  have hten : 10 ≤ r.length.toNat := BitVec.le_def.1 (BitVec.not_lt.1 hlen)
  have h0 : (0 : Word).toNat + 1 ≤ r.length.toNat := Nat.le_trans (by decide) hten
  have h1 : (1 : Word).toNat + 1 ≤ r.length.toNat := Nat.le_trans (by decide) hten
  have h6 : (6 : Word).toNat + 2 ≤ r.length.toNat := Nat.le_trans (by decide) hten
  have h8 : (8 : Word).toNat + 2 ≤ r.length.toNat := hten
  rw [if_neg hlen, if_neg hlen, run_bind_ok (h.getByte h0 (by decide))]
  by_cases hv : r.data 0 ≠ fileVersion
  · rw [if_pos hv]
    exact congrArg (fun m : Svc Page => m.run c) (if_pos hv)
  rw [if_neg hv]
  refine (congrArg (fun m : Svc Page => m.run c) (if_neg hv)).trans ?_
  rw [run_bind_ok (h.getByte h1 (by decide)), run_bind_ok (h.getU16 h6 (by decide)), run_bind_ok (h.getU16 h8 (by decide))]
  rfl

/-- A listing of the mounts whose header is right. -/
def readMounts (respLen textCap : Word) : Svc Bool := do
  let count ← getU16 6
  modify fun c => { c with mountCount := count }
  let entriesLen ← getU16 8
  if 10 + entriesLen > respLen ∨ entriesLen ≥ textCap then fail errEntriesBounds
  else
    let text ← get 10 entriesLen.toNat
    modify fun c => { c with mountText := text }
    let more ← getByte 1
    modify fun c => { c with mountMore := more &&& 0x01 }
    return true

/-- What `readMounts` does with the declared length. -/
def readMountsText (respLen textCap entriesLen : Word) : Svc Bool := do
  if 10 + entriesLen > respLen ∨ entriesLen ≥ textCap then fail errEntriesBounds
  else
    let text ← get 10 entriesLen.toNat
    modify fun c => { c with mountText := text }
    let more ← getByte 1
    modify fun c => { c with mountMore := more &&& 0x01 }
    return true

theorem readMounts_lengths {r : Reply} {c : Client} (h : Headed r c) (hten : 10 ≤ r.length.toNat) (textCap : Word)
    {Q : Bool → Client → Prop} {E : Client → Prop} :
    wp (readMounts r.length textCap) Q E c ↔
      wp (readMountsText r.length textCap (BitVec.ofNat 16 (le (slice r.data 8 2)))) Q E
        { c with mountCount := BitVec.ofNat 16 (le (slice r.data 6 2)) } := by
  have h6 : (6 : Word).toNat + 2 ≤ r.length.toNat := Nat.le_trans (by decide) hten
  have h8 : (8 : Word).toNat + 2 ≤ r.length.toNat := hten
  have hcounted : Headed r { c with mountCount := BitVec.ofNat 16 (le (slice r.data 6 2)) } := h.congr rfl rfl
  rw [readMounts, wp_bind, wp_of_ok (h.getU16 h6 (by decide)), wp_bind, wp_modify, wp_bind]
  exact wp_of_ok (hcounted.getU16 h8 (by decide))

theorem mountsResponse_header {r : Reply} {c : Client} (h : Headed r c) (textCap : Word) :
    (mountsResponse r.length textCap).run c =
      (if r.length < 10 ∨ r.data 0 ≠ diskVersion ∨ r.data 1 &&& 0x02 = 0 then fail errBadVersion
      else readMounts r.length textCap).run c := by
  rw [mountsResponse]
  by_cases hlen : r.length < 10
  · rw [if_pos hlen, if_pos (.inl hlen)]
  have hten : 10 ≤ r.length.toNat := BitVec.le_def.1 (BitVec.not_lt.1 hlen)
  have h0 : (0 : Word).toNat + 1 ≤ r.length.toNat := Nat.le_trans (by decide) hten
  have h1 : (1 : Word).toNat + 1 ≤ r.length.toNat := Nat.le_trans (by decide) hten
  rw [if_neg hlen, run_bind_ok (h.getByte h0 (by decide))]
  by_cases hv : r.data 0 ≠ diskVersion
  · have hbad : r.length < 10 ∨ r.data 0 ≠ diskVersion ∨ r.data 1 &&& 0x02 = 0 := .inr (.inl hv)
    rw [if_pos hbad]
    exact congrArg (fun m : Svc Bool => m.run c) (if_pos hv)
  refine (congrArg (fun m : Svc Bool => m.run c) (if_neg hv)).trans ?_
  rw [run_bind_ok (h.getByte h1 (by decide))]
  by_cases hf : r.data 1 &&& 0x02 = 0
  · have hbad : r.length < 10 ∨ r.data 0 ≠ diskVersion ∨ r.data 1 &&& 0x02 = 0 := .inr (.inr hf)
    rw [if_pos hbad]
    exact congrArg (fun m : Svc Bool => m.run c) (if_pos hf)
  · have hhead : ¬(r.length < 10 ∨ r.data 0 ≠ diskVersion ∨ r.data 1 &&& 0x02 = 0) := by
      rintro (h | h | h)
      · exact hlen h
      · exact hv h
      · exact hf h
    rw [if_neg hhead]
    exact congrArg (fun m : Svc Bool => m.run c) (if_neg hf)

/-! ### Reading the response -/

theorem copyName_run {name : List Byte} (h : name.length < listNameSize) (c : Client) :
    (copyName name).run c = .ok ⟨⟩ { c with listName := store 0 (name ++ [0]) c.listName } := by
  rw [copyName, if_pos h]
  rfl

theorem copyName_outside {name : List Byte} (h : ¬name.length < listNameSize) (c : Client) :
    (copyName name).run c = .error () { c with fault := some .name } := by
  rw [copyName, if_neg h]
  rfl

/-- A relation that reading the response keeps, wherever the reads go. -/
structure Readable (R : Client → Client → Prop) : Prop where
  beyond : ∀ c, R c { c with beyond := true }
  name : ∀ c b, R c { c with listName := b }
  fault : ∀ c f, f ≠ .request → R c { c with fault := some f }

section Readable

variable {R : Client → Client → Prop}

theorem Readable.copyName (h : Readable R) (name : List Byte) : Keeps R (Service.copyName name) := by
  intro c
  by_cases hname : name.length < listNameSize
  · rw [copyName_run hname c]
    exact h.name c _
  · rw [copyName_outside hname c]
    exact h.fault c _ (by decide)

variable [IsPreorder Client R]

theorem Readable.look (h : Readable R) (off n : ℕ) (c : Client) : R c (Service.look off n c) := by
  unfold Service.look
  split_ifs
  · exact refl_of R c
  · exact h.beyond c

theorem Readable.get (h : Readable R) (off : Word) (n : ℕ) : Keeps R (Service.get off n) := by
  intro c
  by_cases hget : off.toNat + n ≤ maxData
  · rw [get_run hget c]
    exact h.look off.toNat n c
  · rw [get_outside hget c]
    exact h.fault c _ (by decide)

theorem Readable.getByte (h : Readable R) (off : Word) : Keeps R (Service.getByte off) :=
  (h.get off 1).bind fun _ => Keeps.pure _

theorem Readable.getU16 (h : Readable R) (off : Word) : Keeps R (Service.getU16 off) :=
  (h.get off 2).bind fun _ => Keeps.pure _

theorem Readable.getU32 (h : Readable R) (off : Word) : Keeps R (Service.getU32 off) :=
  (h.get off 4).bind fun _ => Keeps.pure _

end Readable

/-- Nothing is sent, and no access leaves the request buffer. -/
structure Reads (c c' : Client) : Prop where
  sent : c'.sent = c.sent
  answer : c'.answer = c.answer
  fault : c'.fault = c.fault ∨ c'.fault ≠ some .request

instance : IsPreorder Client Reads where
  refl _ := ⟨rfl, rfl, .inl rfl⟩
  trans a b c hab hbc := ⟨hbc.sent.trans hab.sent, hbc.answer.trans hab.answer, by
    rcases hbc.fault with h | h
    · rw [h]
      exact hab.fault
    · exact .inr h⟩

theorem Reads.fault_ne {c c' : Client} (h : Reads c c') (hc : c.fault ≠ some .request) : c'.fault ≠ some .request := by
  rcases h.fault with hf | hf
  · rw [hf]
    exact hc
  · exact hf

theorem reads_readable : Readable Reads where
  beyond _ := ⟨rfl, rfl, .inl rfl⟩
  name _ _ := ⟨rfl, rfl, .inl rfl⟩
  fault _ _ hf := ⟨rfl, rfl, .inr fun h => hf (Option.some.inj h)⟩

theorem fail_reads (error : Byte) : Keeps Reads (fail error) := fun _ => ⟨rfl, rfl, .inl rfl⟩

theorem failPage_reads (error : Byte) : Keeps Reads (failPage error) := (fail_reads error).bind fun _ => Keeps.pure _

theorem listEntries_reads (flags : Byte) (respLen : Word) (n : ℕ) (pos : Word) :
    Keeps Reads (listEntries flags respLen n pos) := by
  induction n generalizing pos with
  | zero => exact Keeps.pure _
  | succ n ih =>
    rw [listEntries]
    refine Keeps.ite (fun _ => fail_reads _) fun _ => ?_
    refine (reads_readable.getByte _).bind fun eflags => (reads_readable.getByte _).bind fun nameLen => ?_
    refine Keeps.ite (fun _ => fail_reads _) fun _ => (reads_readable.get _ _).bind fun name => ?_
    refine (reads_readable.copyName _).bind fun _ => ?_
    refine Keeps.ite (fun _ => Keeps.ite (fun _ => fail_reads _) fun _ => ?_) fun _ => ?_
    · refine (reads_readable.getU32 _).bind fun size => (reads_readable.getU32 _).bind fun mtime => ?_
      exact (Keeps.modify fun c => ⟨rfl, rfl, .inl rfl⟩).bind fun _ => ih _
    · exact (Keeps.modify fun c => ⟨rfl, rfl, .inl rfl⟩).bind fun _ => ih _

theorem listResponse_reads (respLen start : Word) : Keeps Reads (listResponse respLen start) := by
  rw [listResponse]
  refine Keeps.ite (fun _ => failPage_reads _) fun _ => (reads_readable.getByte _).bind fun version => ?_
  refine Keeps.ite (fun _ => failPage_reads _) fun _ => (reads_readable.getByte _).bind fun flags => ?_
  refine (reads_readable.getU16 _).bind fun count => (reads_readable.getU16 _).bind fun entriesLen => ?_
  refine Keeps.ite (fun _ => failPage_reads _) fun _ => (listEntries_reads _ _ _ _).bind fun ok => ?_
  refine Keeps.ite (fun _ => ?_) fun _ => Keeps.pure _
  refine Keeps.ite (fun _ => Keeps.pure _) fun _ => ?_
  exact Keeps.ite (fun _ => failPage_reads _) fun _ => Keeps.pure _

theorem resolveResponse_reads (respLen resolvedCap : Word) (display : Bool) (displayCap : Word) (flagsOut : Bool) :
    Keeps Reads (resolveResponse respLen resolvedCap display displayCap flagsOut) := by
  rw [resolveResponse]
  refine Keeps.ite (fun _ => fail_reads _) fun _ => (reads_readable.getByte _).bind fun version => ?_
  refine Keeps.ite (fun _ => fail_reads _) fun _ => (reads_readable.getByte _).bind fun flags => ?_
  refine (reads_readable.getU16 _).bind fun len => Keeps.ite (fun _ => fail_reads _) fun _ => ?_
  refine (reads_readable.get _ _).bind fun uri => (Keeps.modify fun c => ⟨rfl, rfl, .inl rfl⟩).bind fun _ => ?_
  refine (reads_readable.getU16 _).bind fun len => Keeps.ite (fun _ => fail_reads _) fun _ => ?_
  refine Keeps.ite (fun _ => (reads_readable.get _ _).bind fun path => ?_) fun _ => ?_
  · refine (Keeps.modify fun c => ⟨rfl, rfl, .inl rfl⟩).bind fun _ => ?_
    exact Keeps.ite (fun _ => (Keeps.modify fun c => ⟨rfl, rfl, .inl rfl⟩).bind fun _ => Keeps.pure _) fun _ => Keeps.pure _
  · exact Keeps.ite (fun _ => (Keeps.modify fun c => ⟨rfl, rfl, .inl rfl⟩).bind fun _ => Keeps.pure _) fun _ => Keeps.pure _

end NioApps.Service
