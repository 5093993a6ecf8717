import NioApps.Proofs.ReadStream

/-! When `$88` means the end of the stream. STATUS answers it only at the end;
GET also answers it for a READ response with no data that is not final. -/

namespace NioApps.Resident

open Chunks

/-- The record says that everything was delivered and nothing will follow. -/
def Owner.AtEof (o : Owner) : Prop := o.eof ≠ 0 ∧ ¬o.pos < o.len

/-- A READ response with no data that does not carry the EOF flag. -/
def NothingYet (x : Exchange) : Prop := readData x = some (false, [])

instance : DecidablePred NothingYet := fun x => inferInstanceAs (Decidable (readData x = some (false, [])))

/-- The GETs and STATUSes among the calls `ds` of an owner tell the end of its
stream: GET answers `$88` only when an accepted response carried the EOF flag and
everything accepted was returned, never for a response with no data that is not
final, and it agrees with a STATUS just before or after it. -/
structure EofHonest (ds : List Done) : Prop where
  atEnd : ∀ pre e post, ds = pre ++ e :: post → e.call.op = .get → e.y = 0x88 →
    (∃ q ∈ reads (pre ++ [e]), ∃ data, q.response = some (true, data)) ∧
      getBytes (pre ++ [e]) = accepted (reads (pre ++ [e]))
  nothingYet : ∀ e ∈ ds, e.call.op = .get → (∃ x ∈ exchanges e.events, frameCommand x.1 = 2 ∧ NothingYet x) →
    e.y ≠ 0x88
  getStatus : ∀ pre e e' post, ds = pre ++ e :: e' :: post → e.call.op = .get → e.y = 0x88 →
    e'.call.op = .status → e'.y ≠ 1
  statusGet : ∀ pre e e' post, ds = pre ++ e :: e' :: post → e.call.op = .status → e.y = 0x88 →
    e'.call.op = .get → e'.y = 0x88

section Operations

variable {r : Reader Byte} {o o' : Owner} {d d' : List Byte} {xs : List Exchange} {a y : Byte} {got : Option Byte}

/-! ### GET -/

theorem Read.eofReached (h : Read o d xs y got o' d') (hy : y = 0x88) (hxs : ∀ x ∈ xs, ¬NothingYet x) : o'.AtEof := by
  cases h with
  | cached | blocked | rejected | refilled => exact absurd hy (by decide)
  | atEof hstop heof => exact ⟨heof, hstop⟩
  | @empty f reply e hstop hopen hread hdata =>
    have he : e = true := by
      by_contra hne
      rw [Bool.not_eq_true] at hne
      rw [hne] at hdata
      exact hxs _ (List.mem_singleton_self _) hdata
    exact ⟨(publish_final e 0 o).2 he, by simp⟩

theorem Read.of_atEof (h : Read o d xs y got o' d') (heof : o.AtEof) : y = 0x88 := by
  cases h with
  | cached hpos => exact absurd hpos heof.2
  | atEof | empty => rfl
  | blocked _ hopen | rejected _ hopen | refilled _ hopen => exact absurd hopen heof.1

theorem Get.eofReached (h : Get o d xs y got o' d') (hd : d.length = o.len.toNat) (hy : y = 0x88)
    (hxs : ∀ x ∈ xs, frameCommand x.1 = 2 → ¬NothingYet x) : o'.AtEof ∧ o'.Reading := by
  have hreading {o₁ : Owner} {d₁ : List Byte} {ys : List Exchange} (hread : Read o₁ d₁ ys y got o' d')
      (h : o₁.Reading) : o'.Reading := by
    obtain ⟨hm, -, -, hr⟩ := hread.flags
    rwa [Owner.Reading, hm, hr]
  cases h with
  | unsupported | refused => exact absurd hy (by decide)
  | read hphase hread => exact ⟨hread.eofReached hy fun x hx => hxs x hx (hread.command x hx), hreading hread hphase⟩
  | started hmode hfirst hfinish hread =>
    have hresult := hfinish.result hd
    exact ⟨hread.eofReached hy fun x hx => hxs x (List.mem_append_right _ hx) (hread.command x hx),
      hreading hread (Owner.startReading_reading (hresult.mode.trans hmode) (hresult.reading.trans hfirst))⟩

theorem Get.of_atEof (h : Get o d xs y got o' d') (heof : o.AtEof) (hreading : o.Reading) : y = 0x88 := by
  cases h with
  | unsupported h4 h12 => exact absurd (hreading.imp_right And.left) (by tauto)
  | read hphase hread => exact hread.of_atEof heof
  | refused hmode hfirst | started hmode hfirst =>
    rcases hreading with h4 | ⟨-, hr⟩
    · exact absurd (hmode.symm.trans h4) (by decide)
    · exact absurd hfirst hr

theorem Get.length (h : Get o d xs y got o' d') (hd : d.length = o.len.toNat) : d'.length = o'.len.toNat := by
  have hread {o₁ : Owner} {d₁ : List Byte} {ys : List Exchange} (h : Read o₁ d₁ ys y got o' d')
      (hd : d₁.length = o₁.len.toNat) : d'.length = o'.len.toNat := by
    cases h with
    | cached | atEof | blocked | rejected => exact hd
    | empty => simp
    | refilled _ _ _ _ hn => simp [Owner.taken, hn]
  cases h with
  | unsupported => exact hd
  | read _ h => exact hread h hd
  | refused _ _ hfinish => exact (hfinish.result hd).cached
  | started _ _ _ h => exact hread h rfl

/-- The only exchange of GET that may have no data is its last, and then it answers `$88`. -/
theorem Get.nothingYet (h : Get o d xs y got o' d') {x : Exchange} (hx : x ∈ xs) (hcommand : frameCommand x.1 = 2)
    (hnothing : NothingYet x) : y = 0x88 := by
  have hread {o₁ : Owner} {d₁ : List Byte} {ys : List Exchange} (hread : Read o₁ d₁ ys y got o' d') (hx : x ∈ ys) :
      y = 0x88 := by
    cases hread with
    | cached | atEof | blocked => simp at hx
    | rejected _ _ _ hdata =>
      rw [NothingYet, List.mem_singleton.1 hx, hdata] at hnothing
      simp at hnothing
    | empty => rfl
    | refilled _ _ _ hdata =>
      rw [NothingYet, List.mem_singleton.1 hx, hdata] at hnothing
      simp at hnothing
  cases h with
  | unsupported => simp at hx
  | read hphase h => exact hread h hx
  | refused _ _ hfinish => exact absurd (hcommand.symm.trans (hfinish.command x hx)) (by decide)
  | started _ _ hfinish h =>
    rcases List.mem_append.1 hx with hx | hx
    · exact absurd (hcommand.symm.trans (hfinish.command x hx)) (by decide)
    · exact hread h hx

/-! ### STATUS -/

theorem Owner.info_eq_eof (h : o.info = 0x88) : o.AtEof := by
  simp only [Owner.info] at h
  split_ifs at h with h8 heof hpos
  · exact absurd h (by decide)
  · exact absurd h (by decide)
  · exact absurd h (by decide)
  · exact ⟨heof, hpos⟩

theorem Owner.AtEof.info (h : o.AtEof) (hreading : o.Reading) : o.info = 0x88 := by
  have h8 : o.mode ≠ 8 := by
    rintro h8
    rcases hreading with h | ⟨h, -⟩ <;> exact absurd (h8.symm.trans h) (by decide)
  rw [Owner.info, if_neg h8, if_neg h.1, if_neg h.2]

theorem Status.eofReached (h : Status o d xs y o' d') (hd : d.length = o.len.toNat) (hy : y = 0x88) : o'.AtEof := by
  cases h with
  | refused hsettle ha =>
    cases hsettle with
    | read => exact absurd hy (by decide)
    | write hmode hfinish => exact absurd (((hfinish.result hd).failed ha).1.symm.trans hy) (by decide)
  | info hsettle hcommand hinfo =>
    rcases hinfo with h | h
    · exact absurd (h.symm.trans hy) (by decide)
    · exact Owner.info_eq_eof (h.symm.trans hy)

theorem Status.of_atEof (h : Status o d xs y o' d') (hok : OwnerOk o) (heof : o.AtEof) (hreading : o.Reading) :
    y ≠ 1 := by
  -- a reading owner has committed, so settling changes nothing
  have hsame {xs : List Exchange} {a : Byte} {o' : Owner} {d' : List Byte} (h : Settle o d xs a o' d') : o' = o := by
    cases h with
    | read => rfl
    | write hmode hfinish =>
      have hdone : o.committed ≠ 0 := hok.reading (hreading.resolve_left hmode).2
      cases hfinish with
      | fault | done => rfl
      | commit _ hopen | failed _ hopen | last _ hopen => exact absurd hopen hdone
  cases h with
  | refused hsettle ha => exact ha
  | info hsettle hcommand hinfo =>
    rw [hsame hsettle, heof.info hreading] at hinfo
    rcases hinfo with h | h <;> rw [h] <;> decide

theorem Settle.command (h : Settle o d xs a o' d') : ∀ x ∈ xs, frameCommand x.1 = 3 := by
  cases h with
  | read => simp
  | write hmode hfinish => exact hfinish.command

/-- Only a GET sends a READ. -/
theorem OwnerCall.read_op {c : Call} {bs : List Byte} (h : OwnerCall c o d xs bs y a o' d') {x : Exchange} (hx : x ∈ xs)
    (hcommand : frameCommand x.1 = 2) : ∃ got, c.op = .get ∧ Get o d xs y got o' d' := by
  have hne {b : Byte} (hb : b ≠ 2) {ys : List Exchange} (h : ∀ x ∈ ys, frameCommand x.1 = b) : x ∉ ys :=
    fun hx => hb ((h x hx).symm.trans hcommand)
  cases h with
  | twice => simp at hx
  | get hop h => exact ⟨_, hop, h⟩
  | put hop h =>
    cases h with
    | unsupported | refused | stored => simp at hx
    | flushed _ _ _ _ hflush => exact absurd hx (hne (by decide) hflush.command)
  | status hop h =>
    cases h with
    | refused hsettle => exact absurd hx (hne (by decide) hsettle.command)
    | info hsettle hinfo =>
      rcases List.mem_append.1 hx with hx | hx
      · exact absurd hx (hne (by decide) hsettle.command)
      · exact absurd hx (hne (by decide) hinfo)
  | close hop h =>
    obtain ⟨hsettle, hclose, -⟩ := h
    rcases List.mem_append.1 hx with hx | hx
    · exact absurd hx (hne (by decide) hsettle.command)
    · exact absurd hx (hne (by decide) hclose)

end Operations

/-! ### Whole lifetimes -/

/-- Call `e` of an owner, after its calls `pre`. -/
structure CallAt (o : Owner) (d : List Byte) (pre : List Done) (e : Done) (o₁ o₂ : Owner) (d₁ d₂ : List Byte) :
    Prop where
  run : OwnerRun o d pre o₁ d₁
  ok : OwnerOk o₁
  len : d₁.length = o₁.len.toNat
  call : OwnerCall e.call o₁ d₁ (exchanges e.events) (stores e.events) e.y e.a o₂ d₂

theorem OwnerRun.call_last {o o' : Owner} {d d' : List Byte} {ds pre : List Done} {e : Done}
    (h : OwnerRun o d ds o' d') (heq : ds = pre ++ [e]) : ∃ o₁ d₁, CallAt o d pre e o₁ o' d₁ d' := by
  cases h with
  | nil => exact absurd heq (by simp)
  | snoc hrun hok hd hop hcall =>
    obtain ⟨h1, h2⟩ := List.append_inj' heq rfl
    cases h1
    cases h2
    exact ⟨_, _, hrun, hok, hd, hcall⟩

theorem OwnerRun.take {o o' : Owner} {d d' : List Byte} {ds es : List Done} (h : OwnerRun o d (ds ++ es) o' d') :
    ∃ o₁ d₁, OwnerRun o d ds o₁ d₁ := by
  induction es using List.reverseRecOn generalizing o' d' with
  | nil =>
    rw [List.append_nil] at h
    exact ⟨_, _, h⟩
  | append_singleton es e ih =>
    obtain ⟨o₁, d₁, hat⟩ := h.call_last (List.append_assoc ds es [e]).symm
    exact ih hat.run

/-- Any call of a lifetime. -/
theorem Lifetime.call_at {o o' : Owner} {d d' : List Byte} {pre post : List Done} {e : Done}
    (h : Lifetime o d (pre ++ e :: post) o' d') : ∃ o₁ o₂ d₁ d₂, CallAt o d pre e o₁ o₂ d₁ d₂ := by
  have hrun {post : List Done} {o' : Owner} {d' : List Byte} (h : OwnerRun o d (pre ++ e :: post) o' d') :
      ∃ o₁ o₂ d₁ d₂, CallAt o d pre e o₁ o₂ d₁ d₂ := by
    rw [List.append_cons] at h
    obtain ⟨o₂, d₂, htake⟩ := h.take
    obtain ⟨o₁, d₁, hat⟩ := htake.call_last rfl
    exact ⟨o₁, o₂, d₁, d₂, hat⟩
  generalize hds : pre ++ e :: post = ds at h
  cases h with
  | live h => exact hrun (hds ▸ h)
  | closed h hok hd hop hcall =>
    rcases List.eq_nil_or_concat post with rfl | ⟨post', c, rfl⟩
    · obtain ⟨h1, h2⟩ := List.append_inj' hds rfl
      cases h1
      cases h2
      exact ⟨_, _, _, _, h, hok, hd, hcall⟩
    · rw [List.concat_eq_append, ← List.cons_append, ← List.append_assoc] at hds
      obtain ⟨h1, -⟩ := List.append_inj' hds rfl
      exact hrun (h1 ▸ h)

/-- The READ requests of the owner, by the calls that sent them. -/
theorem mem_reads {ds : List Done} {q : Request Byte} :
    q ∈ reads ds ↔ ∃ e ∈ ds, ∃ x ∈ exchanges e.events, frameCommand x.1 = 2 ∧ requestOf x = q := by
  have hexchanges (x : Exchange) : x ∈ exchanges (events ds) ↔ ∃ e ∈ ds, x ∈ exchanges e.events := by
    simp only [exchanges, events, List.mem_filterMap, List.mem_flatMap]
    constructor
    · rintro ⟨ev, ⟨e, he, hev⟩, hx⟩
      exact ⟨e, he, ev, hev, hx⟩
    · rintro ⟨e, he, ev, hev, hx⟩
      exact ⟨ev, ⟨e, he, hev⟩, hx⟩
  simp only [reads, readRequests, List.mem_map, List.mem_filter, hexchanges, decide_eq_true_eq]
  constructor
  · rintro ⟨x, ⟨⟨e, he, hx⟩, hcommand⟩, rfl⟩
    exact ⟨e, he, x, hx, hcommand, rfl⟩
  · rintro ⟨e, he, x, hx, hcommand, rfl⟩
    exact ⟨x, ⟨⟨e, he, hx⟩, hcommand⟩, rfl⟩

/-- What the reader knows at a call of the owner. -/
theorem CallAt.fetched {own mode : Byte} {handle : Byte × Byte} {pre : List Done} {e : Done} {o₁ o₂ : Owner}
    {d₁ d₂ : List Byte} (h : CallAt (openedOwner own mode handle) [] pre e o₁ o₂ d₁ d₂) :
    ∃ r r', ReadSim r o₁ d₁ ∧ Fetched r' (pre ++ [e]) ∧ ReadSim r' o₂ d₂ := by
  obtain ⟨r, hfetched, hsim⟩ := h.run.fetched (readSim_start own mode handle)
  obtain ⟨r', hsim', hfetch⟩ := h.call.fetches h.ok h.len hsim
  exact ⟨r, r', hsim, hfetched.snoc hfetch, hsim'⟩

/-- At a call, the owner reads if its EOF field is set. -/
theorem ReadSim.reading_of_eof {r : Reader Byte} {o : Owner} {d : List Byte} (h : ReadSim r o d) (heof : o.AtEof) :
    o.Reading := by
  by_contra hnot
  exact heof.1 (h.before hnot).2

theorem OwnerCall.get_of {c : Call} {o o' : Owner} {d d' : List Byte} {xs : List Exchange} {bs : List Byte}
    {y a : Byte} (h : OwnerCall c o d xs bs y a o' d') (hop : c.op = .get) : ∃ got, Get o d xs y got o' d' := by
  cases h with
  | get _ h => exact ⟨_, h⟩
  | twice hne | put hne | status hne | close hne => exact absurd (hop.symm.trans hne) (by decide)

theorem OwnerCall.status_of {c : Call} {o o' : Owner} {d d' : List Byte} {xs : List Exchange} {bs : List Byte}
    {y a : Byte} (h : OwnerCall c o d xs bs y a o' d') (hop : c.op = .status) : Status o d xs y o' d' := by
  cases h with
  | status _ h => exact h
  | twice hne | put hne | get hne | close hne => exact absurd (hop.symm.trans hne) (by decide)

/-- `$88` tells the end of the stream exactly when no accepted READ response of the
owner is without data and not final. -/
theorem Lifetime.eofHonest_iff {own mode : Byte} {handle : Byte × Byte} {o' : Owner} {d' : List Byte} {ds : List Done}
    (h : Lifetime (openedOwner own mode handle) [] ds o' d') :
    EofHonest ds ↔ ∀ q ∈ reads ds, q.response ≠ some (false, []) := by
  constructor
  · intro hhonest q hq hresponse
    obtain ⟨e, he, x, hx, hcommand, rfl⟩ := mem_reads.1 hq
    obtain ⟨pre, post, hds⟩ := List.append_of_mem he
    obtain ⟨o₁, o₂, d₁, d₂, hat⟩ := (hds ▸ h).call_at
    obtain ⟨got, hop, hget⟩ := hat.call.read_op hx hcommand
    exact hhonest.nothingYet e he hop ⟨x, hx, hcommand, hresponse⟩ (hget.nothingYet hx hcommand hresponse)
  · intro hreads
    have hnothing (e : Done) (he : e ∈ ds) : ∀ x ∈ exchanges e.events, frameCommand x.1 = 2 → ¬NothingYet x :=
      fun x hx hcommand => hreads _ (mem_reads.2 ⟨e, he, x, hx, hcommand, rfl⟩)
    -- after a GET that answered `$88` the owner is at the end of its stream
    have hget {pre post : List Done} {e : Done} {o₁ o₂ : Owner} {d₁ d₂ : List Byte}
        (hat : CallAt (openedOwner own mode handle) [] pre e o₁ o₂ d₁ d₂) (hds : ds = pre ++ e :: post)
        (hop : e.call.op = .get) (hy : e.y = 0x88) : o₂.AtEof ∧ o₂.Reading := by
      obtain ⟨got, hget⟩ := hat.call.get_of hop
      exact hget.eofReached hat.len hy (hnothing e (by simp [hds]))
    refine ⟨fun pre e post hds hop hy => ?_, fun e he hop hidle => ?_,
      fun pre e e' post hds hop hy hop' => ?_, fun pre e e' post hds hop hy hop' => ?_⟩
    · obtain ⟨o₁, o₂, d₁, d₂, hat⟩ := (hds ▸ h).call_at
      obtain ⟨heof, hreading⟩ := hget hat hds hop hy
      obtain ⟨-, r', -, hfetched, hsim⟩ := hat.fetched
      obtain ⟨got, hgot⟩ := hat.call.get_of hop
      have htotal := hsim.inv.total
      rw [hsim.stopped hreading (hgot.length hat.len) heof.2, List.append_nil] at htotal
      rw [← hfetched.requests, ← hfetched.delivered]
      exact ⟨hsim.inv.final ((hsim.final hreading).1 heof.1), htotal.symm⟩
    · obtain ⟨x, hx, hcommand, hx'⟩ := hidle
      exact absurd hx' (hnothing e he x hx hcommand)
    · rw [List.append_cons] at hds
      obtain ⟨o₁, o₂, d₁, d₂, hat'⟩ := (hds ▸ h).call_at
      obtain ⟨o₀, d₀, hat⟩ := hat'.run.call_last rfl
      rw [← List.append_cons] at hds
      obtain ⟨heof, hreading⟩ := hget hat hds hop hy
      exact (hat'.call.status_of hop').of_atEof hat'.ok heof hreading
    · rw [List.append_cons] at hds
      obtain ⟨o₁, o₂, d₁, d₂, hat'⟩ := (hds ▸ h).call_at
      obtain ⟨o₀, d₀, hat⟩ := hat'.run.call_last rfl
      have heof := (hat.call.status_of hop).eofReached hat.len hy
      obtain ⟨r, -, hsim, -⟩ := hat'.fetched
      obtain ⟨got, hget⟩ := hat'.call.get_of hop'
      exact hget.of_atEof heof (hsim.reading_of_eof heof)

/-- For every run of calls with any SIO results, and the owner that `o` opens until
it is closed: `$88` tells the end of its stream if and only if no READ response it
accepts has no data and is not final. -/
theorem eof_honest_iff {before : List Call} {o : Call} (hopen : Opens before o) {calls : List Call}
    (hlife : ∀ c ∈ calls.dropLast, c.x = o.x → c.op ≠ .close) :
    EofHonest (lifetime before o calls) ↔ ∀ q ∈ reads (lifetime before o calls), q.response ≠ some (false, []) := by
  obtain ⟨handle, o', d', hlifetime⟩ := hopen.lifetime hlife
  exact hlifetime.eofHonest_iff

theorem eof_honest_iff_two_gets : EofHonest (lifetime [] (channelOpen 4) twoGets) := by
  have hopen : Opens [] (channelOpen 4) := ⟨rfl, by decide +kernel⟩
  have hlife : ∀ c ∈ twoGets.dropLast, c.x = (channelOpen 4).x → c.op ≠ .close := by decide +kernel
  exact (eof_honest_iff hopen hlife).2 (by decide +kernel)

/-- A GET whose READ is answered with no data yet. -/
def idleGet : List Call := [channelCall .get 4 0 [rwReply 2 0 0 []]]

/-- GET answers `$88`, although more may follow. -/
theorem idle_get_not_honest : ¬EofHonest (lifetime [] (channelOpen 4) idleGet) := by
  intro h
  have hne : lifetime [] (channelOpen 4) idleGet ≠ [] := by decide +kernel
  have hx : exchanges ((lifetime [] (channelOpen 4) idleGet).getLast hne).events ≠ [] := by
    decide +kernel +revert
  have hnothing : NothingYet ((exchanges ((lifetime [] (channelOpen 4) idleGet).getLast hne).events).getLast hx) := by
    decide +kernel +revert
  exact h.nothingYet _ (List.getLast_mem hne) (by decide +kernel +revert)
    ⟨_, List.getLast_mem hx, by decide +kernel +revert, hnothing⟩ (by decide +kernel +revert)

end NioApps.Resident
