import NioApps.Sanity.Requests

/-! The strings in the requests that the four builders send. Lengths are narrowed to 16
bits before they are compared with the size of the buffer: a string of 65536 bytes or
more, or two strings whose lengths add up to that, may pass the comparison. The one of
the listing leaves out two bytes of its own request. -/

namespace NioApps.Service

open Abort

/-! ### Decoding -/

/-- A string with its length in front of it, and the bytes behind it. -/
def takeField : List Byte → Option (List Byte × List Byte)
  | a :: b :: bs => if le [a, b] ≤ bs.length then some (bs.take (le [a, b]), bs.drop (le [a, b])) else none
  | _ => none

def takeFields : ℕ → List Byte → Option (List (List Byte) × List Byte)
  | 0, bs => some ([], bs)
  | n + 1, bs => do
    let (field, bs) ← takeField bs
    let (fields, bs) ← takeFields n bs
    return (field :: fields, bs)

/-- The `n` strings of a request, between `before` and `behind` bytes of other fields. -/
def strings (before n behind : ℕ) (q : Request) : Option (List (List Byte)) := do
  let (fields, bs) ← takeFields n (q.bytes.drop before)
  if before ≤ q.bytes.length ∧ bs.length = behind then return fields else none

/-- A string as far as its 16-bit length says. -/
def narrow (s : List Byte) : List Byte := s.take (BitVec.ofNat 16 s.length).toNat

theorem length_narrow (s : List Byte) : (narrow s).length = (BitVec.ofNat 16 s.length).toNat := by
  rw [narrow, List.length_take, BitVec.toNat_ofNat]
  omega

theorem narrow_eq_iff (s : List Byte) : narrow s = s ↔ s.length < 2 ^ 16 := by
  rw [narrow, List.take_eq_self_iff, BitVec.toNat_ofNat]
  omega

theorem le_u16le (v : Word) : le (u16le v) = v.toNat := by
  have := v.isLt
  rw [u16le, le_cons, le_cons, le_nil, lo_toNat, hi_toNat]
  omega

theorem takeField_narrow (s rest : List Byte) :
    takeField (u16le (BitVec.ofNat 16 s.length) ++ (narrow s ++ rest)) = some (narrow s, rest) := by
  have hle : le [lo (BitVec.ofNat 16 s.length), hi (BitVec.ofNat 16 s.length)] = (narrow s).length := by
    rw [length_narrow]
    exact le_u16le _
  rw [u16le, List.cons_append, List.cons_append, List.nil_append, takeField, hle, if_pos (by simp), List.take_left,
    List.drop_left]

/-! ### Requests that say what the caller said -/

/-- A builder failed before it sent anything, or it stayed in its buffer and the strings
of all its requests are those of the caller. -/
def Exact {α : Type} (decode : Request → Option (List (List Byte))) (given : List (List Byte)) (failed : α → Prop)
    (c : Client) (r : EStateM.Result Unit Client α) : Prop :=
  (∃ a c', r = .ok a c' ∧ failed a ∧ c'.sent = c.sent) ∨
    (left r).fault ≠ some .request ∧
      ∃ qs, qs ≠ [] ∧ (left r).sent = c.sent ++ qs ∧ ∀ q ∈ qs, decode q = some given

section Exact

variable {α : Type} {decode : Request → Option (List (List Byte))} {given : List (List Byte)} {failed : α → Prop}
  {c c' : Client} {P : Prop}

/-- A refusal. -/
theorem exact_rejected {a : α} (ha : failed a) (hsent : c'.sent = c.sent) (hP : P) :
    Exact decode given failed c (.ok a c') ↔ P :=
  iff_of_true (.inl ⟨a, c', rfl, ha, hsent⟩) hP

/-- A request that does not fit. -/
theorem exact_overrun {total : ℕ} (h : Overrun c total c') (hP : ¬P) :
    Exact decode given failed c (.error () c' : EStateM.Result Unit Client α) ↔ P := by
  refine iff_of_false ?_ hP
  rintro (⟨a, c₁, hr, -⟩ | ⟨hf, -⟩)
  · cases hr
  · exact hf h.fault

/-- Requests that were sent. -/
theorem exact_sent {r : EStateM.Result Unit Client α} {qs : List Request} {s : List (List Byte)}
    (hf : (left r).fault ≠ some .request) (hsent : (left r).sent = c.sent ++ qs) (hne : qs ≠ [])
    (hdec : ∀ q ∈ qs, decode q = some s) (hP : s = given ↔ P) : Exact decode given failed c r ↔ P := by
  refine Iff.trans ?_ hP
  constructor
  · rintro (⟨a, c₁, rfl, -, hs⟩ | ⟨-, qs', -, hs, hq⟩)
    · have hnil : qs = [] := by
        rw [left_ok, hs] at hsent
        simpa using hsent
      exact absurd hnil hne
    · have hqs : qs = qs' := by
        rw [hsent] at hs
        exact List.append_cancel_left hs
      obtain ⟨q, hq'⟩ := List.exists_mem_of_ne_nil qs hne
      exact Option.some.inj ((hdec q hq').symm.trans (hq q (hqs ▸ hq')))
  · rintro rfl
    exact .inr ⟨hf, qs, hne, hsent, hdec⟩

/-- A call that was sent, whatever is read of its response. -/
theorem exact_called {m : Svc α} {q : Request} {read : List (List Byte)} (hm : Keeps Reads m)
    (hsent : c'.sent = c.sent ++ [q]) (hf : c'.fault ≠ some .request) (hdec : decode q = some read)
    (hP : read = given ↔ P) :
    wp m (fun a s => Exact decode given failed c (.ok a s) ↔ P) (fun s => Exact decode given failed c (.error () s) ↔ P)
      c' := by
  refine (wp_result (P := fun r => Exact decode given failed c r ↔ P)).2 ?_
  refine exact_sent ((hm c').fault_ne hf) ((hm c').sent.trans hsent) (by simp) ?_ hP
  simpa using hdec

theorem Written.fault_eq {bs : List Byte} {off : Word} (h : Written c bs off c') : c'.fault = c.fault := by rw [h.frame]

/-- A request that was written and is sent. -/
theorem Written.exact {bs : List Byte} {off : Word} (h : Written c bs off c') {device command : Byte} {capacity : Word}
    {f : Option (Byte × Word) → Svc α} {read : List (List Byte)} (hcap : capacity.toNat ≤ maxData)
    (hread : ∀ o, Keeps Reads (f o)) (hc : c.fault ≠ some .request)
    (hdec : decode ⟨device, command, bs, capacity⟩ = some read) (hP : read = given ↔ P) :
    wp (serviceCall device command off capacity >>= f) (fun a s => Exact decode given failed c (.ok a s) ↔ P)
      (fun s => Exact decode given failed c (.error () s) ↔ P) c' := by
  have hf := hc
  rw [← h.fault_eq] at hf
  refine h.service hcap (fun _ => ?_) fun _ => ?_
  · exact exact_called (hread _) (h.served_sent _) hf hdec hP
  · exact exact_called (hread _) (h.served_sent _) hf hdec hP

end Exact

/-! ### The single calls -/

/-- The strings of a request with one string. -/
theorem strings_one {q : Request} {s : List Byte} (pre rest : List Byte)
    (hq : q.bytes = pre ++ (u16le (BitVec.ofNat 16 s.length) ++ (narrow s ++ rest))) :
    strings pre.length 1 rest.length q = some [narrow s] := by
  simp [strings, takeFields, hq, takeField_narrow]

theorem strings_two {q : Request} {s t : List Byte} (pre : List Byte)
    (hq : q.bytes = pre ++ (u16le (BitVec.ofNat 16 s.length) ++ (narrow s ++
      (u16le (BitVec.ofNat 16 t.length) ++ narrow t)))) :
    strings pre.length 2 0 q = some [narrow s, narrow t] := by
  have ht := takeField_narrow t []
  rw [List.append_nil] at ht
  simp [strings, takeFields, hq, takeField_narrow, ht]

theorem narrow_single_iff (s : List Byte) : [narrow s] = [s] ↔ s.length < 2 ^ 16 := by
  rw [List.cons.injEq, narrow_eq_iff]
  simp

theorem mountBytes_strings (slot : Byte) (uri : List Byte) (readonly : Byte) (hint : Word) :
    strings 6 1 0 ⟨deviceDisk, diskMountCommand, mountBytes slot uri (BitVec.ofNat 16 uri.length) readonly hint, 32⟩ =
      some [narrow uri] :=
  strings_one [diskVersion, slot + 1, if readonly ≠ 0 then 0x01 else 0x00, 0x00, lo hint, hi hint] []
    (by simp [mountBytes, u16le, narrow])

theorem mount_exact (d : DiskErr) (slot : Byte) (uri : List Byte) (readonly : Byte) (hint : Word) (c : Client)
    (hc : c.fault ≠ some .request) :
    Exact (strings 6 1 0) [uri] (· = false) c ((diskMount d slot uri readonly hint).run c) ↔
      (slot < maxUnits → uri.length % 2 ^ 16 ≠ 0 → uri.length % 2 ^ 16 ≤ 504 → uri.length < 2 ^ 16) := by
  have hlen : (BitVec.ofNat 16 uri.length).toNat = uri.length % 2 ^ 16 := BitVec.toNat_ofNat ..
  refine (wp_result (P := fun r => Exact (strings 6 1 0) [uri] (· = false) c r ↔ _)).1 ?_
  rw [diskMount]
  refine wp_ite (fun hrej => ?_) fun hacc => ?_
  · refine exact_rejected rfl rfl fun hslot hne hle => ?_
    rcases hrej with h | h | h
    · exact absurd hslot (BitVec.not_lt.2 h)
    · exact absurd (by rw [← hlen, h]; rfl) hne
    · rw [hlen, maxData] at h
      omega
  · have hlarge : ¬uri.length % 2 ^ 16 + 8 > maxData := fun h => hacc (.inr (.inr (hlen ▸ h)))
    have htotal : (mountBytes slot uri (BitVec.ofNat 16 uri.length) readonly hint).length = uri.length % 2 ^ 16 + 8 := by
      rw [← hlen, ← length_narrow, mountBytes]
      simp [u16le, narrow]
    have hiff : [narrow uri] = [uri] ↔
        (slot < maxUnits → uri.length % 2 ^ 16 ≠ 0 → uri.length % 2 ^ 16 ≤ 504 → uri.length < 2 ^ 16) := by
      rw [narrow_single_iff]
      refine ⟨fun h _ _ _ => h, fun h => h ?_ ?_ ?_⟩
      · exact BitVec.not_le.1 fun hs => hacc (.inl hs)
      · exact fun h0 => hacc (.inr (.inl (BitVec.eq_of_toNat_eq (hlen.trans h0))))
      · rw [maxData] at hlarge
        omega
    refine wp.seq ((mountRequest_wp ..).mono (fun _ _ => id) fun s h => absurd h.large (by rw [htotal]; exact hlarge)) ?_
    intro off c₁ h₁
    refine h₁.exact (by decide) (fun o => ?_) hc (mountBytes_strings ..) hiff
    cases o with
    | none => exact (Keeps.modify (f := diskNotCalled d) fun c => ⟨rfl, rfl, .inl rfl⟩).bind fun _ => Keeps.pure _
    | some r => exact (Keeps.modify (f := diskResult d r.1 r.2) fun c => ⟨rfl, rfl, .inl rfl⟩).bind fun _ => Keeps.pure _

theorem hostBytes_strings (value : List Byte) :
    strings 1 1 0 ⟨deviceHost, hostSetCurrentCommand, [] ++ [hostVersion] ++ u16le (BitVec.ofNat 16 value.length) ++ narrow value, 512⟩ =
      some [narrow value] :=
  strings_one [hostVersion] [] (by simp)

/-- What becomes of the response. -/
theorem hostSetCurrent_reads (o : Option (Byte × Word)) :
    Keeps Reads (match o with
      | none => return false
      | some (status, respLen) =>
        if status = 0 ∧ respLen ≥ 1 then do return (← getByte 0) = hostVersion else return false : Svc Bool) := by
  cases o with
  | none => exact Keeps.pure _
  | some r => exact Keeps.ite (fun _ => (reads_readable.getByte _).bind fun _ => Keeps.pure _) fun _ => Keeps.pure _

theorem host_exact (value : List Byte) (c : Client) (hc : c.fault ≠ some .request) :
    Exact (strings 1 1 0) [value] (· = false) c ((hostSetCurrent value).run c) ↔
      (value.length % 2 ^ 16 ≤ 509 → value.length < 2 ^ 16) := by
  have hlen : (BitVec.ofNat 16 value.length).toNat = value.length % 2 ^ 16 := BitVec.toNat_ofNat ..
  refine (wp_result (P := fun r => Exact (strings 1 1 0) [value] (· = false) c r ↔ _)).1 ?_
  rw [hostSetCurrent]
  refine wp.seq ((Written.nil c).fit (by simp [maxData])) ?_
  intro off c₁ h₁
  refine wp.seq (h₁.fit (by simp [u16le, maxData])) ?_
  intro off c₂ h₂
  have hoff : off.toNat = 3 := by
    rw [h₂.off_eq]
    rfl
  refine wp_ite (fun hlarge => ?_) fun hfits => ?_
  · refine exact_rejected rfl (by rw [h₂.frame]) fun h => ?_
    rw [hoff, hlen, maxData] at hlarge
    omega
  · rw [hoff, hlen, maxData] at hfits
    refine wp.seq (h₂.fit ?_) ?_
    · have htake : (value.take (BitVec.ofNat 16 value.length).toNat).length = value.length % 2 ^ 16 := by
        rw [← hlen]
        exact length_narrow value
      rw [List.length_append, htake]
      simp only [u16le, maxData, List.nil_append, List.cons_append, List.length_cons, List.length_nil]
      omega
    intro off c₃ h₃
    have hbytes : slice c₃.reqBuf 0 off.toNat = [] ++ [hostVersion] ++ u16le (BitVec.ofNat 16 value.length) ++ narrow value := by
      rw [h₃.off_eq, h₃.bytes]
      rfl
    have hf := hc
    rw [← h₃.fault_eq] at hf
    rw [wp_bind, wp_of_ok (nioCall_run (by rw [h₃.off_eq]; exact h₃.fits) (by decide) c₃), hbytes]
    refine exact_called (hostSetCurrent_reads _) (by rw [h₃.frame]; rfl) hf (hostBytes_strings value) ?_
    rw [narrow_single_iff]
    exact ⟨fun h _ => h, fun h => h (by omega)⟩

theorem resolveBytes_strings (baseUri arg : List Byte) :
    strings 1 2 0 ⟨deviceFile, fileResolvePath,
      resolveBytes baseUri arg (BitVec.ofNat 16 baseUri.length) (BitVec.ofNat 16 arg.length), 512⟩ =
        some [narrow baseUri, narrow arg] :=
  strings_two [fileVersion] (by simp [resolveBytes, narrow])

/-- A null `arg` is an empty one. -/
theorem resolve_exact (baseUri : List Byte) (arg : Option (List Byte)) (resolvedCap : Word) (display : Bool)
    (displayCap : Word) (flagsOut : Bool) (c : Client) (hc : c.fault ≠ some .request) (hcap : resolvedCap ≠ 0) :
    Exact (strings 1 2 0) [baseUri, arg.getD []] (· = false) c
        ((resolvePath (some baseUri) arg true resolvedCap display displayCap flagsOut).run c) ↔
      ((baseUri.length + (arg.getD []).length + 5) % 2 ^ 16 ≤ 512 → baseUri.length + (arg.getD []).length + 5 < 2 ^ 16) := by
  refine (wp_result (P := fun r => Exact (strings 1 2 0) [baseUri, arg.getD []] (· = false) c r ↔ _)).1 ?_
  have hacc : ¬(true = false ∨ resolvedCap = 0) := by simpa using hcap
  rw [resolvePath, if_neg hacc]
  generalize arg.getD [] = a
  have hsum := resolve_sum baseUri a
  have htotal := length_resolveBytes baseUri a
  refine wp_ite (fun hlarge => ?_) fun hfits => ?_
  · rw [hsum, maxData] at hlarge
    exact exact_rejected rfl rfl fun h => absurd h (by omega)
  · rw [hsum, maxData] at hfits
    rw [wp_bind, wp_modify]
    refine wp.seq ((resolveRequest_wp ..).mono (fun _ _ => id) fun s h => ?_) ?_
    · -- the sum was narrowed
      refine exact_overrun ⟨h.large, h.fault, h.sent, h.answer, h.listed, h.beyond⟩ fun hP => ?_
      have hlarge := h.large
      rw [htotal, maxData] at hlarge
      omega
    intro off c₁ h₁
    have hsmall := h₁.fits
    rw [htotal, maxData] at hsmall
    refine h₁.exact (by decide) (fun o => ?_) hc (resolveBytes_strings ..) ?_
    · cases o with
      | none => exact fail_reads _
      | some r =>
        refine (Keeps.modify (f := keepLast r.1 r.2) fun c => ⟨rfl, rfl, .inl rfl⟩).bind fun _ => ?_
        exact Keeps.ite (fun _ => fail_reads _) fun _ => resolveResponse_reads _ _ _ _ _
    · have hiff : [narrow baseUri, narrow a] = [baseUri, a] ↔ baseUri.length < 2 ^ 16 ∧ a.length < 2 ^ 16 := by
        rw [List.cons.injEq, narrow_eq_iff, narrow_single_iff]
      rw [hiff]
      exact ⟨fun h _ => by omega, fun h => by omega⟩

/-! ### The paging loop -/

theorem listing_strings (uri : List Byte) (start : Word) : strings 1 1 5 (listing uri start) = some [narrow uri] :=
  strings_one (q := listing uri start) (s := uri) [fileVersion]
    [lo start, hi start, lo listMaxPayload, hi listMaxPayload, 0x02] (by simp [listing, listBytes, narrow, u16le])

/-- The pages from `starts` on were asked for. -/
structure Asking (uri : List Byte) (starts : List Word) (c c' : Client) : Prop where
  sent : c'.sent = c.sent ++ starts.map (listing uri)
  fault : c.fault ≠ some .request → c'.fault ≠ some .request

theorem Asking.trans {uri : List Byte} {starts starts' : List Word} {c c₁ c₂ : Client} (h : Asking uri starts c c₁)
    (h' : Asking uri starts' c₁ c₂) : Asking uri (starts ++ starts') c c₂ where
  sent := by rw [h'.sent, h.sent, List.map_append, List.append_assoc]
  fault := fun hc => h'.fault (h.fault hc)

/-- A page of a URI that leaves room for the other eight bytes. -/
theorem listPage_asking {uri : List Byte} (hfits : uri.length % 2 ^ 16 ≤ 504) (start : Word) (c : Client) :
    wp (listPage uri (BitVec.ofNat 16 uri.length) start) (fun _ => Asking uri [start] c) (Asking uri [start] c) c := by
  have hlen : (BitVec.ofNat 16 uri.length).toNat = uri.length % 2 ^ 16 := BitVec.toNat_ofNat ..
  rw [listPage, if_neg (by rw [hlen, maxData]; omega)]
  refine wp.seq ((listRequest_wp ..).mono (fun _ _ => id) fun s h => ?_) ?_
  · have hlarge := h.large
    rw [length_listBytes, maxData] at hlarge
    omega
  intro off c₁ h₁
  have hreads : ∀ m : Svc Page, Keeps Reads m →
      wp m (fun _ => Asking uri [start] c) (Asking uri [start] c) (c₁.served (listing uri start)) := by
    intro m hm
    refine wp_left.2 ⟨(hm _).sent.trans (h₁.served_sent _), fun hc => (hm _).fault_ne ?_⟩
    rw [← h₁.fault_eq] at hc
    exact hc
  refine h₁.service (by decide) (fun _ => hreads _ (failPage_reads _)) fun _ => ?_
  refine hreads _ ((Keeps.modify fun c => ⟨rfl, rfl, .inl rfl⟩).bind fun _ => ?_)
  exact Keeps.ite (fun _ => failPage_reads _) fun _ => listResponse_reads _ _

/-- All the pages that a run asks for. -/
theorem listPages_asking {uri : List Byte} (hfits : uri.length % 2 ^ 16 ≤ 504) (n : ℕ) (start : Word) (c : Client) :
    ∃ starts, (n ≠ 0 → starts ≠ []) ∧
      Asking uri starts c (left ((listPages uri (BitVec.ofNat 16 uri.length) n start).run c)) := by
  induction n generalizing start c with
  | zero => exact ⟨[], by simp, by simp [listPages], id⟩
  | succ n ih =>
    have hpage := listPage_asking hfits start c
    rw [listPages]
    cases hr : (listPage uri (BitVec.ofNat 16 uri.length) start).run c with
    | error e c₁ =>
      rw [wp, hr] at hpage
      rw [run_bind_error hr]
      exact ⟨[start], by simp, hpage⟩
    | ok page c₁ =>
      rw [wp, hr] at hpage
      rw [run_bind_ok hr]
      cases page with
      | done ok => exact ⟨[start], by simp, hpage⟩
      | next start' =>
        obtain ⟨starts, -, h⟩ := ih start' c₁
        exact ⟨[start] ++ starts, by simp, hpage.trans h⟩

theorem list_exact (n : ℕ) (uri : List Byte) (c : Client) (hc : c.fault ≠ some .request) :
    Exact (strings 1 1 5) [uri] (· = some false) c ((listDirectory (n + 1) uri true).run c) ↔
      (uri.length % 2 ^ 16 ≤ 506 → uri.length ≤ 504) := by
  have hlen : (BitVec.ofNat 16 uri.length).toNat = uri.length % 2 ^ 16 := BitVec.toNat_ofNat ..
  have hrun : (listDirectory (n + 1) uri true).run c =
      (listPages uri (BitVec.ofNat 16 uri.length) (n + 1) 0).run (clearLast c) := rfl
  rw [hrun]
  by_cases hfits : uri.length % 2 ^ 16 ≤ 504
  · obtain ⟨starts, hne, h⟩ := listPages_asking hfits (n + 1) 0 (clearLast c)
    refine exact_sent (s := [narrow uri]) (h.fault hc) h.sent (by simpa using hne (by simp)) ?_ ?_
    · intro q hq
      obtain ⟨start, -, rfl⟩ := List.mem_map.1 hq
      exact listing_strings uri start
    · rw [narrow_single_iff]
      exact ⟨fun h _ => by omega, fun h => by omega⟩
  by_cases hpass : uri.length % 2 ^ 16 ≤ 506
  · refine (wp_result (P := fun r => Exact (strings 1 1 5) [uri] (· = some false) c r ↔ _)).1 ?_
    rw [listPages]
    refine wp_bind.2 ((listPage_overrun (by omega) hpass 0 _).mono (fun _ _ => False.elim) fun s h => ?_)
    exact exact_overrun ⟨h.large, h.fault, h.sent, h.answer, h.listed, h.beyond⟩ fun hP => by omega
  · rw [listPages, listPage, if_pos (by rw [hlen, maxData]; omega)]
    exact exact_rejected rfl rfl fun h => absurd h hpass

/-! ### The four builders -/

/-- The four builders refuse or say exactly what the caller said, except for the lengths
that pass a narrowed comparison, and for a listing of a URI of 505 or 506 bytes. -/
theorem requests_exact (d : DiskErr) (c : Client) (hc : c.fault ≠ some .request) :
    (∀ n uri cb, Exact (strings 1 1 5) [uri] (· = some false) c ((listDirectory (n + 1) uri cb).run c) ↔
      (cb = true → uri.length % 2 ^ 16 ≤ 506 → uri.length ≤ 504)) ∧
    (∀ baseUri arg resolved resolvedCap display displayCap flagsOut,
      Exact (strings 1 2 0) [baseUri.getD [], arg.getD []] (· = false) c
          ((resolvePath baseUri arg resolved resolvedCap display displayCap flagsOut).run c) ↔
        (baseUri ≠ none → resolved = true → resolvedCap ≠ 0 →
          ((baseUri.getD []).length + (arg.getD []).length + 5) % 2 ^ 16 ≤ 512 →
            (baseUri.getD []).length + (arg.getD []).length + 5 < 2 ^ 16)) ∧
    (∀ slot uri readonly hint,
      Exact (strings 6 1 0) [uri] (· = false) c ((diskMount d slot uri readonly hint).run c) ↔
        (slot < maxUnits → uri.length % 2 ^ 16 ≠ 0 → uri.length % 2 ^ 16 ≤ 504 → uri.length < 2 ^ 16)) ∧
    (∀ value, Exact (strings 1 1 0) [value] (· = false) c ((hostSetCurrent value).run c) ↔
      (value.length % 2 ^ 16 ≤ 509 → value.length < 2 ^ 16)) := by
  refine ⟨fun n uri cb => ?_, fun baseUri arg resolved resolvedCap display displayCap flagsOut => ?_,
    fun slot uri readonly hint => mount_exact d slot uri readonly hint c hc, fun value => host_exact value c hc⟩
  · cases cb with
    | false => exact exact_rejected rfl rfl (by simp)
    | true => simpa using list_exact n uri c hc
  · cases baseUri with
    | none => exact exact_rejected rfl rfl (by simp)
    | some baseUri =>
      by_cases hrej : resolved = false ∨ resolvedCap = 0
      · rw [resolvePath, if_pos hrej]
        refine exact_rejected rfl rfl fun _ hres hcap => ?_
        rcases hrej with h | h
        · simp [h] at hres
        · exact absurd h hcap
      · obtain ⟨hres, hcap⟩ := not_or.1 hrej
        have hres' : resolved = true := by simpa using hres
        subst hres'
        refine (resolve_exact baseUri arg resolvedCap display displayCap flagsOut c hc hcap).trans ?_
        exact ⟨fun h _ _ _ => h, fun h => h (by simp) rfl hcap⟩

/-- One answer for everything: status OK and an empty version-1 body. -/
def okAnswer (_ : List Request) : Reply := ⟨0, 0, 10, fun k => if k = 0 then 1 else 0⟩

def letters (n : ℕ) : List Byte := List.replicate n 0x41

theorem length_letters (n : ℕ) : (letters n).length = n := List.length_replicate

/-- Lengths that each of the builders gets wrong. -/
theorem requests_inexact :
    (¬Exact (strings 1 1 5) [letters 505] (· = some false) (.start diskErr okAnswer)
      ((listDirectory 1 (letters 505) true).run (.start diskErr okAnswer))) ∧
    (¬Exact (strings 1 2 0) [letters 32768, letters 32763] (· = false) (.start diskErr okAnswer)
      ((resolvePath (some (letters 32768)) (some (letters 32763)) true 256 false 0 false).run (.start diskErr okAnswer))) ∧
    (¬Exact (strings 6 1 0) [letters 65537] (· = false) (.start diskErr okAnswer)
      ((diskMount diskErr 0 (letters 65537) 0 0).run (.start diskErr okAnswer))) ∧
    (¬Exact (strings 1 1 0) [letters 65537] (· = false) (.start diskErr okAnswer)
      ((hostSetCurrent (letters 65537)).run (.start diskErr okAnswer))) := by
  have hstart : (Client.start diskErr okAnswer).fault ≠ some .request := by simp [Client.start]
  refine ⟨fun h => ?_, fun h => ?_, fun h => ?_, fun h => ?_⟩
  · have hlen := (list_exact 0 (letters 505) _ hstart).1 h
    rw [length_letters] at hlen
    omega
  · have hlen := (resolve_exact (letters 32768) (some (letters 32763)) 256 false 0 false _ hstart (by decide)).1 h
    rw [Option.getD_some, length_letters, length_letters] at hlen
    omega
  · have hlen := (mount_exact diskErr 0 (letters 65537) 0 0 _ hstart).1 h (by decide)
    rw [length_letters] at hlen
    omega
  · have hlen := (host_exact (letters 65537) _ hstart).1 h
    rw [length_letters] at hlen
    omega

/-- A mount of a URI of three bytes meets the condition, and so it sends what it was given. -/
theorem requests_exact_mount : Exact (strings 6 1 0) [letters 3] (· = false) (.start diskErr okAnswer)
    ((diskMount diskErr 2 (letters 3) 1 256).run (.start diskErr okAnswer)) :=
  ((requests_exact diskErr (.start diskErr okAnswer) (by simp [Client.start])).2.2.1
    2 (letters 3) 1 256).2 fun _ _ _ => by decide

end NioApps.Service
