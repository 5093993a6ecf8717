import NioApps.Sanity.Prompt
import NioApps.Sanity.Sessions

/-! The read stream of an owner. Its record and cache simulate the reader of
`NioApps.Lib.Chunks`: the cached bytes from POS on are the rest of the last
chunk, OFFSET counts what was accepted, and EOF is the final mark. -/

namespace NioApps.Resident

open Chunks

/-- The owner reads: mode 4, or mode 12 after the switch. -/
def Owner.Reading (o : Owner) : Prop := o.mode = 4 ∨ o.mode = 12 ∧ o.reading ≠ 0

/-- The record and cached bytes of an owner stand for the reader `r`. -/
structure ReadSim (r : Reader Byte) (o : Owner) (d : List Byte) : Prop where
  inv : r.Inv (2 ^ 32)
  rest : o.Reading → r.rest = d.drop o.pos.toNat
  offset : o.Reading → o.offset = (accepted r.requests).length % 2 ^ 32
  final : o.Reading → (o.eof ≠ 0 ↔ r.final = true)
  before : ¬o.Reading → r = Reader.start ∧ o.eof = 0

/-- From `r` to `r'` the READs among `xs` were sent and `bs` delivered. -/
structure Fetches (r r' : Reader Byte) (xs : List Exchange) (bs : List Byte) : Prop where
  requests : r'.requests = r.requests ++ readRequests xs
  delivered : r'.delivered = r.delivered ++ bs

theorem readRequests_append (xs ys : List Exchange) : readRequests (xs ++ ys) = readRequests xs ++ readRequests ys := by
  simp [readRequests]

theorem readRequests_other {xs : List Exchange} {a : Byte} (ha : a ≠ 2) (h : ∀ x ∈ xs, frameCommand x.1 = a) :
    readRequests xs = [] := by
  have hne (x : Exchange) (hx : x ∈ xs) : ¬decide (frameCommand x.1 = 2) = true := by
    rw [h x hx, decide_eq_true_eq]
    exact ha
  rw [readRequests, List.filter_eq_nil_iff.2 hne, List.map_nil]

theorem Fetches.none {r : Reader Byte} {xs : List Exchange} (h : readRequests xs = []) : Fetches r r xs [] :=
  ⟨by rw [h, List.append_nil], (List.append_nil _).symm⟩

theorem ReadSim.stopped {r : Reader Byte} {o : Owner} {d : List Byte} (hs : ReadSim r o d) (hreading : o.Reading)
    (hd : d.length = o.len.toNat) (hstop : ¬o.pos < o.len) : r.rest = [] := by
  rw [hs.rest hreading, List.drop_eq_nil_iff, hd]
  exact BitVec.not_lt.1 hstop

theorem ReadSim.going {r : Reader Byte} {o : Owner} {d : List Byte} (hs : ReadSim r o d) (hreading : o.Reading)
    (hopen : o.eof = 0) : r.final = false := by
  rw [← Bool.not_eq_true, ← hs.final hreading, not_not]
  exact hopen

/-- A READ is the reader's next request. -/
theorem ReadSim.ask {r : Reader Byte} {o : Owner} {d f : List Byte} (hs : ReadSim r o d) (hreading : o.Reading)
    (hread : IsRead o f) (reply : Option (List Byte)) :
    Fetches r (r.ask (2 ^ 32) (readData (f, reply))) [(f, reply)] [] := by
  refine ⟨?_, (List.append_nil _).symm⟩
  have hoffset : frameOffset f = (accepted r.requests).length % 2 ^ 32 := hread.offset.trans (hs.offset hreading)
  simp [Reader.ask, readRequests, requestOf, hread.command, hoffset]

theorem publish_offset (e : Bool) (n : Byte) (o : Owner) : (o.publish e n).offset = (o.offset + n.toNat) % 2 ^ 32 :=
  addOffset_offset n { o with eof := if e then 1 else 0, len := n }

theorem publish_final (e : Bool) (n : Byte) (o : Owner) : (o.publish e n).eof ≠ 0 ↔ e = true := by
  cases e <;> simp

/-- An accepted response is the reader's next chunk. -/
theorem ReadSim.publish {r : Reader Byte} {o : Owner} {d data : List Byte} {e : Bool} {n : Byte}
    (hs : ReadSim r o d) (hreading : o.Reading) (hd : d.length = o.len.toNat) (hstop : ¬o.pos < o.len)
    (hopen : o.eof = 0) (hn : n.toNat = data.length) :
    ReadSim (r.ask (2 ^ 32) (some (e, data))) (o.publish e n) data where
  inv := hs.inv.step (.ask _ (hs.stopped hreading hd hstop) (hs.going hreading hopen))
  rest _ := rfl
  offset _ := by
    rw [publish_offset, hs.offset hreading, Reader.ask, accepted_snoc, List.length_append, hn]
    exact Nat.mod_add_mod ..
  final _ := publish_final e n o
  before hnot := by
    refine absurd ?_ hnot
    simpa [Owner.Reading] using hreading

/-- A response that is not accepted leaves the reader where it was. -/
theorem ReadSim.reject {r : Reader Byte} {o : Owner} {d : List Byte} (hs : ReadSim r o d) (hreading : o.Reading)
    (hd : d.length = o.len.toNat) (hstop : ¬o.pos < o.len) (hopen : o.eof = 0) :
    ReadSim (r.ask (2 ^ 32) none) o d where
  inv := hs.inv.step (.ask _ (hs.stopped hreading hd hstop) (hs.going hreading hopen))
  rest _ := by
    rw [← hs.rest hreading, hs.stopped hreading hd hstop]
    rfl
  offset _ := by
    rw [hs.offset hreading, Reader.ask, accepted_snoc]
    simp [Request.items]
  final _ := by
    rw [hs.final hreading, hs.going hreading hopen]
    simp [Reader.ask]
  before hnot := absurd hreading hnot

/-- The byte at POS is the next of the rest. -/
theorem ReadSim.take {r : Reader Byte} {o : Owner} {d : List Byte} (hs : ReadSim r o d) (hreading : o.Reading)
    (hd : d.length = o.len.toNat) (hpos : o.pos < o.len) :
    ReadSim { r with delivered := r.delivered ++ [d.getD o.pos.toNat 0], rest := d.drop (o.pos.toNat + 1) }
      o.taken d := by
  have hlt : o.pos.toNat < d.length := hd ▸ hpos
  have hnext : o.taken.pos.toNat = o.pos.toNat + 1 := by
    have := o.len.isLt
    simp only [Owner.taken]
    bv_omega
  have hrest : r.rest = d.getD o.pos.toNat 0 :: d.drop (o.pos.toNat + 1) := by
    rw [hs.rest hreading, List.drop_eq_getElem_cons hlt, List.getD_eq_getElem?_getD, List.getElem?_eq_getElem hlt]
    rfl
  exact ⟨hs.inv.step (.take _ _ hrest), fun _ => by rw [hnext], fun _ => hs.offset hreading, fun _ => hs.final hreading,
    fun hnot => absurd hreading hnot⟩

/-- GET from `@read` on. -/
theorem Read.fetches {o o' : Owner} {d d' : List Byte} {xs : List Exchange} {y : Byte} {got : Option Byte}
    (h : Read o d xs y got o' d') (hd : d.length = o.len.toNat) (hreading : o.Reading) {r : Reader Byte}
    (hs : ReadSim r o d) :
    ∃ r', ReadSim r' o' d' ∧ Fetches r r' xs got.toList ∧ (y = 1 ↔ got.isSome = true) := by
  cases h with
  | cached hpos =>
    exact ⟨_, hs.take hreading hd hpos, ⟨(List.append_nil _).symm, rfl⟩, by simp⟩
  | atEof | blocked => exact ⟨r, hs, .none rfl, by simp⟩
  | @rejected f reply hstop hopen hread hdata =>
    have hask := hs.ask hreading hread reply
    rw [hdata] at hask
    exact ⟨_, hs.reject hreading hd hstop hopen, hask, by simp⟩
  | @empty f reply e hstop hopen hread hdata =>
    have hask := hs.ask hreading hread reply
    rw [hdata] at hask
    exact ⟨_, hs.publish hreading hd hstop hopen rfl, hask, by simp⟩
  | @refilled f reply e n b bs hstop hopen hread hdata hn hle =>
    have hask := hs.ask hreading hread reply
    rw [hdata] at hask
    have hpub : ReadSim (r.ask (2 ^ 32) (some (e, b :: bs))) (o.publish e n) (b :: bs) :=
      hs.publish hreading hd hstop hopen hn
    have hreading' : (o.publish e n).Reading := by simpa [Owner.Reading] using hreading
    have htake := hpub.take hreading' (by simp [hn]) (by
      simp only [Owner.publish_pos, Owner.publish_len]
      bv_omega)
    exact ⟨_, htake, ⟨hask.requests, by simp [Reader.ask]⟩, by simp⟩

/-! ### The operations -/

section Operations

variable {r : Reader Byte} {o o' : Owner} {d d' : List Byte} {xs : List Exchange} {a y : Byte}

/-- Before the switch only these three fields matter. -/
theorem ReadSim.of_before (hs : ReadSim r o d) (hnot : ¬o.Reading) (hmode : o'.mode = o.mode)
    (hreading : o'.reading = o.reading) (heof : o'.eof = o.eof) : ReadSim r o' d' := by
  have hnot' : ¬o'.Reading := by
    rw [Owner.Reading, hmode, hreading]
    exact hnot
  exact ⟨hs.inv, fun h => absurd h hnot', fun h => absurd h hnot', fun h => absurd h hnot',
    fun _ => ⟨(hs.before hnot).1, heof.trans (hs.before hnot).2⟩⟩

/-- `finish_write` leaves a reader alone: it has committed, or does not read yet. -/
theorem Finish.readSim (h : Finish o d xs a o' d') (hmode : o.mode ≠ 4) (hok : OwnerOk o)
    (hd : d.length = o.len.toNat) (hs : ReadSim r o d) : ReadSim r o' d' := by
  by_cases hreading : o.Reading
  · have hdone : o.committed ≠ 0 := hok.reading (hreading.resolve_left hmode).2
    cases h with
    | fault | done => exact hs
    | commit _ hopen | failed _ hopen | last _ hopen => exact absurd hopen hdone
  · have hresult := h.result hd
    exact hs.of_before hreading hresult.mode hresult.reading hresult.eof

theorem Put.readSim {b : Byte} {bs : List Byte} (h : Put b o d xs bs y o' d') (hok : OwnerOk o)
    (hd : d.length = o.len.toNat) (hs : ReadSim r o d) : ReadSim r o' d' ∧ readRequests xs = [] := by
  have hnot (hmode : o.mode ≠ 4) (hopen : o.committed = 0) : ¬o.Reading := fun hreading =>
    hok.reading (hreading.resolve_left hmode).2 hopen
  cases h with
  | unsupported | refused => exact ⟨hs, rfl⟩
  | stored hmode hfault hopen => exact ⟨hs.of_before (hnot hmode hopen) rfl rfl rfl, rfl⟩
  | flushed hmode hfault hopen hlen hflush =>
    have hresult := hflush.result (by rw [List.length_append, hd, stored_len (by omega)]; rfl)
    exact ⟨hs.of_before (hnot hmode hopen) hresult.mode hresult.reading hresult.eof,
      readRequests_other (by decide) hflush.command⟩

theorem Settle.readSim (h : Settle o d xs a o' d') (hok : OwnerOk o) (hd : d.length = o.len.toNat)
    (hs : ReadSim r o d) : ReadSim r o' d' ∧ readRequests xs = [] := by
  cases h with
  | read => exact ⟨hs, rfl⟩
  | write hmode hfinish => exact ⟨hfinish.readSim hmode hok hd hs, readRequests_other (by decide) hfinish.command⟩

theorem Status.readSim (h : Status o d xs y o' d') (hok : OwnerOk o) (hd : d.length = o.len.toNat)
    (hs : ReadSim r o d) : ReadSim r o' d' ∧ readRequests xs = [] := by
  cases h with
  | refused hsettle => exact hsettle.readSim hok hd hs
  | info hsettle hcommand =>
    obtain ⟨hs', hxs⟩ := hsettle.readSim hok hd hs
    exact ⟨hs', by rw [readRequests_append, hxs, readRequests_other (by decide) hcommand, List.append_nil]⟩

theorem Close.readSim (h : Close o d xs y o' d') (hok : OwnerOk o) (hd : d.length = o.len.toNat)
    (hs : ReadSim r o d) : ReadSim r o' d' ∧ readRequests xs = [] := by
  obtain ⟨hsettle, hcommand, hy⟩ := h
  obtain ⟨hs', hxs⟩ := hsettle.readSim hok hd hs
  exact ⟨⟨hs'.inv, hs'.rest, hs'.offset, hs'.final, hs'.before⟩,
    by rw [readRequests_append, hxs, readRequests_other (by decide) hcommand, List.append_nil]⟩

theorem Owner.startReading_reading (hmode : o.mode = 12) (hfirst : o.reading = 0) : o.startReading.Reading := by
  refine .inr ⟨hmode, ?_⟩
  change o.reading + 1 ≠ 0
  rw [hfirst]
  decide

/-- The switch of an update owner starts a stream. -/
theorem ReadSim.start (hs : ReadSim r o d) (hmode : o.mode = 12) (hfirst : o.reading = 0)
    (hnow : o'.startReading.Reading) : ReadSim r o'.startReading [] := by
  have hnot : ¬o.Reading := by
    rintro (h | h)
    · exact absurd (hmode.symm.trans h) (by decide)
    · exact h.2 hfirst
  obtain ⟨rfl, -⟩ := hs.before hnot
  exact ⟨hs.inv, fun _ => rfl, fun _ => rfl, fun _ => by simp [Owner.startReading, Reader.start],
    fun h => absurd hnow h⟩

theorem Get.fetches {got : Option Byte} (h : Get o d xs y got o' d') (hok : OwnerOk o) (hd : d.length = o.len.toNat)
    (hs : ReadSim r o d) :
    ∃ r', ReadSim r' o' d' ∧ Fetches r r' xs got.toList ∧ (y = 1 ↔ got.isSome = true) := by
  cases h with
  | unsupported => exact ⟨r, hs, .none rfl, by simp⟩
  | read hreading hread => exact hread.fetches hd hreading hs
  | refused hmode hfirst hfinish ha =>
    have h4 : o.mode ≠ 4 := by
      rw [hmode]
      decide
    exact ⟨r, hfinish.readSim h4 hok hd hs, .none (readRequests_other (by decide) hfinish.command), by simp⟩
  | started hmode hfirst hfinish hread =>
    have hresult := hfinish.result hd
    have hnow := Owner.startReading_reading (hresult.mode.trans hmode) (hresult.reading.trans hfirst)
    obtain ⟨r', hs', hfetch, hy⟩ := hread.fetches rfl hnow (hs.start hmode hfirst hnow)
    refine ⟨r', hs', ⟨?_, hfetch.delivered⟩, hy⟩
    rw [hfetch.requests, readRequests_append, readRequests_other (by decide) hfinish.command, List.nil_append]

/-- The byte of a GET that returned 1. -/
def getByte (c : Call) (y a : Byte) : List Byte := if c.op = .get ∧ y = 1 then [a] else []

theorem getByte_other {c : Call} (h : c.op ≠ .get) : getByte c y a = [] := if_neg fun h' => h h'.1

theorem OwnerCall.fetches {c : Call} {bs : List Byte} (h : OwnerCall c o d xs bs y a o' d') (hok : OwnerOk o)
    (hd : d.length = o.len.toNat) (hs : ReadSim r o d) :
    ∃ r', ReadSim r' o' d' ∧ Fetches r r' xs (getByte c y a) := by
  cases h with
  | twice hop =>
    rw [getByte_other (by simp [hop])]
    exact ⟨r, hs, .none rfl⟩
  | put hop h =>
    rw [getByte_other (by simp [hop])]
    exact ⟨r, (h.readSim hok hd hs).1, .none (h.readSim hok hd hs).2⟩
  | @get xs d' got y a o' hop h ha =>
    obtain ⟨r', hs', hfetch, hy⟩ := h.fetches hok hd hs
    have hbyte : getByte c y a = got.toList := by
      cases got with
      | none => exact if_neg fun h => absurd (hy.1 h.2) (by simp)
      | some b => rw [getByte, if_pos ⟨hop, hy.2 rfl⟩, ha b rfl]; rfl
    rw [hbyte]
    exact ⟨r', hs', hfetch⟩
  | status hop h =>
    rw [getByte_other (by simp [hop])]
    exact ⟨r, (h.readSim hok hd hs).1, .none (h.readSim hok hd hs).2⟩
  | close hop h =>
    rw [getByte_other (by simp [hop])]
    exact ⟨r, (h.readSim hok hd hs).1, .none (h.readSim hok hd hs).2⟩

end Operations

/-! ### Whole lifetimes -/

/-- The reader `r` after the calls `ds` of the owner. -/
structure Fetched (r : Reader Byte) (ds : List Done) : Prop where
  requests : r.requests = reads ds
  delivered : r.delivered = getBytes ds

theorem reads_snoc (ds : List Done) (e : Done) : reads (ds ++ [e]) = reads ds ++ readRequests (exchanges e.events) := by
  rw [reads, events_snoc, exchanges_append, readRequests_append, reads]

theorem getBytes_snoc (ds : List Done) (e : Done) : getBytes (ds ++ [e]) = getBytes ds ++ getByte e.call e.y e.a := by
  rw [getBytes, List.filter_append, List.map_append, getBytes, getByte]
  congr 1
  by_cases h : e.call.op = .get ∧ e.y = 1
  · rw [if_pos h, List.filter_cons_of_pos (by simpa using h)]
    rfl
  · rw [if_neg h, List.filter_cons_of_neg (by simpa using h)]
    rfl

theorem Fetched.snoc {r r' : Reader Byte} {ds : List Done} {e : Done} (h : Fetched r ds)
    (h' : Fetches r r' (exchanges e.events) (getByte e.call e.y e.a)) : Fetched r' (ds ++ [e]) :=
  ⟨by rw [h'.requests, h.requests, reads_snoc], by rw [h'.delivered, h.delivered, getBytes_snoc]⟩

theorem readSim_start (own mode : Byte) (handle : Byte × Byte) :
    ReadSim Reader.start (openedOwner own mode handle) [] :=
  ⟨Reader.inv_start _, fun _ => rfl, fun _ => rfl, fun _ => by simp [openedOwner, Reader.start], fun _ => ⟨rfl, rfl⟩⟩

theorem OwnerRun.fetched {o o' : Owner} {d d' : List Byte} {ds : List Done} (h : OwnerRun o d ds o' d')
    (hs : ReadSim Reader.start o d) : ∃ r, Fetched r ds ∧ ReadSim r o' d' := by
  induction h with
  | nil => exact ⟨Reader.start, ⟨rfl, rfl⟩, hs⟩
  | snoc h hok hd hop hcall hframes ih =>
    obtain ⟨r, hfetched, hsim⟩ := ih hs
    obtain ⟨r', hsim', hfetch⟩ := hcall.fetches hok hd hsim
    exact ⟨r', hfetched.snoc hfetch, hsim'⟩

theorem Lifetime.fetched {o o' : Owner} {d d' : List Byte} {ds : List Done} (h : Lifetime o d ds o' d')
    (hs : ReadSim Reader.start o d) : ∃ r, Fetched r ds ∧ r.Inv (2 ^ 32) := by
  cases h with
  | live hrun =>
    obtain ⟨r, hfetched, hsim⟩ := hrun.fetched hs
    exact ⟨r, hfetched, hsim.inv⟩
  | closed hrun hok hd hop hcall hframes =>
    obtain ⟨r, hfetched, hsim⟩ := hrun.fetched hs
    obtain ⟨r', hsim', hfetch⟩ := hcall.fetches hok hd hsim
    exact ⟨r', hfetched.snoc hfetch, hsim'.inv⟩

/-! ### Rejected responses -/

theorem findOwner_eq {w : Ram} {k : Slot} (hk : (w.owners k).own = w.callerX)
    (hdistinct : ∀ j, (w.owners j).own = w.callerX → j = k) : findOwner w = some k := by
  simp only [findOwner]
  cases k with
  | x0 =>
    have h16 : (w.owners .x16).own ≠ w.callerX := fun h => absurd (hdistinct _ h) (by decide)
    rw [if_neg h16, if_pos hk]
  | x16 => rw [if_pos hk]

/-- GET whose READ is rejected: `$90`, and the records and caches as they were when it was built. -/
theorem perform_get_rejected {c : Call} {w : Ram} (h : TableOk w) {k : Slot} (hlive : (w.owners k).own ≠ 0xff)
    (hk : (w.owners k).own = c.x) (hop : c.op = .get) {x : Exchange}
    (hx : x ∈ exchanges (perform c w).1.events) (hcommand : frameCommand x.1 = 2) (hdata : readData x = none) :
    (perform c w).1.y = 0x90 ∧ (perform c w).2.owners = (atRead c k w).owners ∧
      (perform c w).2.caches = (atRead c k w).caches := by
  have hfind : findOwner (entered c w) = some k :=
    findOwner_eq hk fun j hj => (h.distinct k j (hk.trans hj.symm) hlive).symm
  have hindex := (h.index k).resolve_left hlive
  have hvalid : ¬(entered c w).callerX &&& 0x8f ≠ 0 := not_not.2 (by rwa [hk] at hindex)
  have hdispatch : dispatch c.mem c.op (entered c w) = doGet ((entered c w).setSlot k) := by
    unfold dispatch
    rw [if_neg hvalid, hfind, hop]
  obtain ⟨hy, hevents, howners, hcaches⟩ := perform_entered (c := c) h.busy
  rw [hdispatch] at hy hevents howners hcaches
  obtain ⟨xs, got, hget⟩ := doGet_spec (w := (entered c w).setSlot k) (h.live k hlive).len
  obtain ⟨es, hlog, -, rfl, -⟩ := hget.did.logs
  have hes : (perform c w).1.events = es := hevents.trans hlog
  rw [hy, howners, hcaches]
  exact hget.rejected x (hes ▸ hx) hcommand hdata

/-- The read stream of an owner. For every run of calls with any SIO results, and
the owner that `o` opens until it is closed: its GETs return the accepted data in
order, each READ sent for it carries the number of bytes accepted before it, and a
READ whose response is rejected changes no record and no cache byte. -/
theorem read_stream {before : List Call} {o : Call} (hopen : Opens before o) {calls : List Call}
    (hlife : ∀ c ∈ calls.dropLast, c.x = o.x → c.op ≠ .close) :
    let ds := lifetime before o calls
    wFrames (events ds) = (exchanges (events ds)).map Prod.fst ∧
    getBytes ds <+: accepted (reads ds) ∧
    (∀ pre q post, reads ds = pre ++ q :: post → q.offset = (accepted pre).length % 2 ^ 32) ∧
    ∀ cs c rest, calls = cs ++ c :: rest → c.x = o.x → c.op = .get →
      let w := handler.final (after (before ++ [o])) cs
      ∃ k, (w.owners k).own = o.x ∧
        ∀ x ∈ exchanges (perform c w).1.events, frameCommand x.1 = 2 → readData x = none →
          (perform c w).1.y = 0x90 ∧ (perform c w).2.owners = (atRead c k w).owners ∧
            (perform c w).2.caches = (atRead c k w).caches := by
  intro ds
  obtain ⟨handle, o', d', hlifetime⟩ := hopen.lifetime hlife
  obtain ⟨r, hfetched, hinv⟩ := hlifetime.fetched (readSim_start _ _ _)
  refine ⟨hlifetime.frames, ?_, ?_, fun cs c rest hcalls hx hop => ?_⟩
  · rw [← hfetched.delivered, ← hfetched.requests]
    exact hinv.delivered_prefix
  · rw [← hfetched.requests]
    exact hinv.offset
  · have hcs : ∀ c ∈ cs, c.x = o.x → c.op ≠ .close := fun c' hc' => hlife c' (by
      rw [hcalls, List.dropLast_append_cons]
      exact List.mem_append_left _ hc')
    obtain ⟨k, -, hw, hown, hff, -⟩ := hopen.owner_run cs hcs
    exact ⟨k, hown, fun x hx' => perform_get_rejected hw (hown ▸ hff) (hown.trans hx.symm) hop hx'⟩

/-- Two GETs, of the two bytes of one READ. -/
def twoGets : List Call := [channelCall .get 4 0 [rwReply 2 1 2 [0x68, 0x69]], channelCall .get 4 0 []]

theorem read_stream_two_gets :
    let ds := lifetime [] (channelOpen 4) twoGets
    getBytes ds = [0x68, 0x69] ∧ getBytes ds <+: accepted (reads ds) := by
  have hopen : Opens [] (channelOpen 4) := ⟨rfl, by decide +kernel⟩
  have hlife : ∀ c ∈ twoGets.dropLast, c.x = (channelOpen 4).x → c.op ≠ .close := by decide +kernel
  exact ⟨by decide +kernel, (read_stream hopen hlife).2.1⟩

end NioApps.Resident
