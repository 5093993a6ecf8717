import Mathlib.Tactic

/-! A host with at most one request outstanding, over a device that holds at
most one transaction and whose completions may be lost. `Host.step` is the
discipline: no request goes out before the last one is known to be over, and an
answer is accepted only when it was fetched for the request in progress. For
every run of it, requests are separated by a resolving event, and every accepted
answer is the device's answer to the request just sent. -/

namespace NioApps.Transaction

inductive Report
  | idle
  | busy
  | ready (size : ℕ)
deriving DecidableEq, Repr

/-- What the host does and sees. `poll none` and `fetch none` failed; `done`
ends a request, with the answer when it is accepted. -/
inductive Ev (Q A : Type*)
  | send (q : Q) (ok : Bool)
  | poll (report : Option Report)
  | fetch (answer : Option A)
  | done (q : Q) (answer : Option A)
deriving DecidableEq

/-- `owing`: an earlier request may still be outstanding. The last three states
are inside a request: its answer is awaited, was fetched, or will not come. -/
inductive Host (Q A : Type*)
  | free
  | owing
  | sent (q : Q)
  | got (q : Q) (a : A)
  | lost (q : Q)

variable {Q A : Type*}

/-- The events that end the uncertainty about an outstanding request. -/
def Ev.Resolves : Ev Q A → Prop
  | .poll (some .idle) => True
  | .fetch (some _) => True
  | _ => False

/-- The host's moves, as a relation. -/
inductive Host.Step : Host Q A → Ev Q A → Host Q A → Prop
  | send (q : Q) (ok : Bool) : Step .free (.send q ok) (.sent q)
  | drainIdle : Step .owing (.poll (some .idle)) .free
  | drainPoll {r : Option Report} (h : r ≠ some .idle) : Step .owing (.poll r) .owing
  | drainFetch (a : A) : Step .owing (.fetch (some a)) .free
  | drainFailed : Step .owing (.fetch none) .owing
  | idle (q : Q) : Step (.sent q) (.poll (some .idle)) (.lost q)
  | poll (q : Q) {r : Option Report} (h : r ≠ some .idle) : Step (.sent q) (.poll r) (.sent q)
  | fetch (q : Q) (a : A) : Step (.sent q) (.fetch (some a)) (.got q a)
  | fetchFailed (q : Q) : Step (.sent q) (.fetch none) (.sent q)
  | giveUp (q : Q) : Step (.sent q) (.done q none) .owing
  | accept (q : Q) (a : A) : Step (.got q a) (.done q (some a)) .free
  | reject (q : Q) (a : A) : Step (.got q a) (.done q none) .free
  | fail (q : Q) : Step (.lost q) (.done q none) .free

/-- A host that makes the moves `es`. -/
inductive Host.Run : Host Q A → List (Ev Q A) → Host Q A → Prop
  | nil (h : Host Q A) : Run h [] h
  | cons {h h₁ h₂ : Host Q A} {e : Ev Q A} {es : List (Ev Q A)} :
      Host.Step h e h₁ → Run h₁ es h₂ → Run h (e :: es) h₂

theorem Host.Run.append {h h₁ h₂ : Host Q A} {es fs : List (Ev Q A)} (hes : Host.Run h es h₁)
    (hfs : Host.Run h₁ fs h₂) : Host.Run h (es ++ fs) h₂ := by
  induction hes with
  | nil => exact hfs
  | cons hs _ ih => exact .cons hs (ih hfs)

theorem Host.Run.single {h h₁ : Host Q A} {e : Ev Q A} (hs : Host.Step h e h₁) : Host.Run h [e] h₁ :=
  .cons hs (.nil _)

theorem Host.Run.of_append {h h₂ : Host Q A} {es fs : List (Ev Q A)} (hr : Host.Run h (es ++ fs) h₂) :
    ∃ h₁, Host.Run h es h₁ ∧ Host.Run h₁ fs h₂ := by
  induction es generalizing h with
  | nil => exact ⟨h, .nil h, hr⟩
  | cons e es ih =>
    obtain _ | ⟨hs, hr⟩ := hr
    obtain ⟨h₁, hes, hfs⟩ := ih hr
    exact ⟨h₁, .cons hs hes, hfs⟩

/-- A request is unresolved in these states. -/
def Host.Unresolved : Host Q A → Prop
  | .owing => True
  | .sent _ => True
  | _ => False

theorem Host.Step.unresolved {h h' : Host Q A} {e : Ev Q A} (hs : Host.Step h e h')
    (hu : h.Unresolved) (he : ¬e.Resolves) : h'.Unresolved := by
  cases hs with
  | send | accept | reject | fail => exact hu.elim
  | drainIdle | drainFetch | idle | fetch => exact absurd trivial he
  | drainPoll | drainFailed | poll | fetchFailed | giveUp => trivial

theorem Host.Run.unresolved {h h' : Host Q A} {es : List (Ev Q A)} (hr : Host.Run h es h')
    (hu : h.Unresolved) (he : ∀ e ∈ es, ¬e.Resolves) : h'.Unresolved := by
  induction hr with
  | nil => exact hu
  | cons hs _ ih =>
    exact ih (hs.unresolved hu (he _ List.mem_cons_self)) fun e h => he e (List.mem_cons_of_mem _ h)

/-- Between two sends of a run there is an event that resolved the first one. -/
theorem Host.Run.send_resolved {h h' : Host Q A} {pre mid post : List (Ev Q A)} {q q' : Q} {ok ok' : Bool}
    (hr : Host.Run h (pre ++ .send q ok :: mid ++ .send q' ok' :: post) h') :
    ∃ e ∈ mid, e.Resolves := by
  by_contra hno
  rw [List.append_assoc] at hr
  obtain ⟨h₁, -, hr⟩ := hr.of_append
  rw [List.cons_append] at hr
  obtain _ | ⟨hsend, hr⟩ := hr
  obtain ⟨h₂, hmid, hr⟩ := hr.of_append
  obtain _ | ⟨hsend', -⟩ := hr
  have hu : h₂.Unresolved := by
    refine hmid.unresolved ?_ fun e he hres => hno ⟨e, he, hres⟩
    cases hsend
    trivial
  cases hsend'
  exact hu

/-! ### The device -/

/-- The transaction the device holds, named by the number of sends before its own. -/
inductive Device
  | idle
  | busy (id : ℕ)
  | ready (id : ℕ)
deriving DecidableEq, Repr

/-- The device with answers of `size` bytes, `resp n` being its answer to the
`n`-th request. Parameter `n` counts the sends so far. A request taken while
idle starts a transaction, which becomes ready at any time; one it does not take
cannot be seen to succeed. About a request sent over a transaction nothing is
said: the device may do anything with it. -/
inductive Device.Step (size : A → ℕ) (resp : ℕ → A) (n : ℕ) : Device → Ev Q A → Device → Prop
  | taken (q : Q) (ok : Bool) : Step size resp n .idle (.send q ok) (.busy n)
  | missed (q : Q) : Step size resp n .idle (.send q false) .idle
  | overrun (q : Q) (ok : Bool) {d d' : Device} (h : d ≠ .idle) : Step size resp n d (.send q ok) d'
  | reportIdle : Step size resp n .idle (.poll (some .idle)) .idle
  | reportBusy (id : ℕ) : Step size resp n (.busy id) (.poll (some .busy)) (.busy id)
  | reportReady (id : ℕ) :
      Step size resp n (.ready id) (.poll (some (.ready (size (resp id))))) (.ready id)
  | pollFailed (d : Device) : Step size resp n d (.poll none) d
  | fetched (id : ℕ) : Step size resp n (.ready id) (.fetch (some (resp id))) .idle
  | fetchLost (id : ℕ) : Step size resp n (.ready id) (.fetch none) .idle
  | fetchFailed (d : Device) : Step size resp n d (.fetch none) d
  | done (d : Device) (q : Q) (a : Option A) : Step size resp n d (.done q a) d

/-- The number of sends among some events. -/
def sends : List (Ev Q A) → ℕ
  | [] => 0
  | .send _ _ :: es => sends es + 1
  | _ :: es => sends es

theorem sends_append (es fs : List (Ev Q A)) : sends (es ++ fs) = sends es + sends fs := by
  induction es with
  | nil => simp [sends]
  | cons e es ih => cases e <;> simp [sends, ih, Nat.add_right_comm]

/-- Events `es` seen from a device that was idle at first and is left in `d`. -/
inductive Device.Run (size : A → ℕ) (resp : ℕ → A) : List (Ev Q A) → Device → Prop
  | nil : Run size resp [] .idle
  | finish {es : List (Ev Q A)} {id : ℕ} : Run size resp es (.busy id) → Run size resp es (.ready id)
  | snoc {es : List (Ev Q A)} {d d' : Device} {e : Ev Q A} :
      Run size resp es d → Device.Step size resp (sends es) d e d' → Run size resp (es ++ [e]) d'

/-- What the host's state says about the device after `n` sends. -/
def Agree (resp : ℕ → A) (n : ℕ) : Host Q A → Device → Prop
  | .free, d => d = .idle
  | .owing, _ => True
  | .sent _, d => 0 < n ∧ (d = .idle ∨ d = .busy (n - 1) ∨ d = .ready (n - 1))
  | .got _ a, d => d = .idle ∧ 0 < n ∧ a = resp (n - 1)
  | .lost _, d => d = .idle

theorem Agree.finish {resp : ℕ → A} {n id : ℕ} {h : Host Q A} (ha : Agree resp n h (.busy id)) :
    Agree resp n h (.ready id) := by
  cases h with
  | free | lost => cases ha
  | got => cases ha.1
  | owing => trivial
  | sent =>
    obtain ⟨hn, h | h | h⟩ := ha
    · cases h
    · cases h
      exact ⟨hn, .inr (.inr rfl)⟩
    · cases h

theorem Agree.step {size : A → ℕ} {resp : ℕ → A} {es : List (Ev Q A)} {h h' : Host Q A} {d d' : Device}
    {e : Ev Q A} (ha : Agree resp (sends es) h d) (hh : Host.Step h e h')
    (hd : Device.Step size resp (sends es) d e d') : Agree resp (sends (es ++ [e])) h' d' := by
  rw [sends_append]
  cases hh with
  | send q ok =>
    have hidle : d = .idle := ha
    refine ⟨Nat.succ_pos _, ?_⟩
    cases hd with
    | taken => exact .inr (.inl rfl)
    | missed => exact .inl rfl
    | overrun _ _ hne => exact absurd hidle hne
  | drainPoll | drainFailed | giveUp => trivial
  | drainIdle | idle =>
    cases hd
    rfl
  | drainFetch =>
    cases hd
    rfl
  | poll q hr =>
    cases hd with
    | reportIdle => exact absurd rfl hr
    | reportBusy | reportReady | pollFailed => exact ha
  | fetch q a =>
    cases hd
    obtain ⟨hn, h | h | h⟩ := ha <;> cases h
    exact ⟨rfl, hn, rfl⟩
  | fetchFailed q =>
    cases hd with
    | fetchLost => exact ⟨ha.1, .inl rfl⟩
    | fetchFailed => exact ha
  | accept | reject =>
    cases hd
    exact ha.1
  | fail =>
    cases hd
    exact ha

/-- Every prefix of a device run is one. -/
theorem Device.Run.of_append {size : A → ℕ} {resp : ℕ → A} {es fs : List (Ev Q A)} {d : Device}
    (hr : Device.Run size resp (es ++ fs) d) : ∃ d', Device.Run size resp es d' := by
  generalize hl : es ++ fs = l at hr
  induction hr generalizing fs with
  | nil =>
    obtain ⟨rfl, rfl⟩ := List.append_eq_nil_iff.1 hl
    exact ⟨_, .nil⟩
  | finish _ ih => exact ih hl
  | @snoc es' d d' e hrun hs ih =>
    rcases List.eq_nil_or_concat fs with rfl | ⟨fs', e', rfl⟩
    · rw [List.append_nil] at hl
      exact ⟨d', hl ▸ .snoc hrun hs⟩
    · rw [List.concat_eq_append, ← List.append_assoc] at hl
      exact ih (List.append_inj_left' hl rfl)

theorem Agree.run {size : A → ℕ} {resp : ℕ → A} {es : List (Ev Q A)} {d : Device}
    (hd : Device.Run size resp es d) {h : Host Q A} (hh : Host.Run .free es h) :
    Agree resp (sends es) h d := by
  induction hd generalizing h with
  | nil =>
    cases hh
    rfl
  | finish _ ih => exact (ih hh).finish
  | snoc _ hs ih =>
    obtain ⟨h₁, hes, hlast⟩ := hh.of_append
    obtain _ | ⟨hstep, hnil⟩ := hlast
    cases hnil
    exact (ih hes).step hstep hs

/-- The request a host is in the middle of. -/
def Host.current : Host Q A → Option Q
  | .sent q | .got q _ | .lost q => some q
  | _ => none

/-- The events of a host that waits for the request it sent. -/
def Ev.Waits : Ev Q A → Prop
  | .poll _ => True
  | .fetch _ => True
  | _ => False

theorem sends_waits {es : List (Ev Q A)} (h : ∀ e ∈ es, e.Waits) : sends es = 0 := by
  induction es with
  | nil => rfl
  | cons e es ih =>
    have htail := ih fun e' h' => h e' (List.mem_cons_of_mem _ h')
    have hhead := h e List.mem_cons_self
    cases e with
    | poll | fetch => exact htail
    | send | done => exact hhead.elim

/-- The request in progress is the last one sent, and the host has only waited since. -/
theorem Host.Run.current_sent {es : List (Ev Q A)} {h : Host Q A} {q : Q}
    (hh : Host.Run .free es h) (hq : h.current = some q) :
    ∃ pre ok mid, es = pre ++ .send q ok :: mid ∧ ∀ e ∈ mid, e.Waits := by
  induction es using List.reverseRecOn generalizing h with
  | nil =>
    cases hh
    cases hq
  | append_singleton es e ih =>
    obtain ⟨h₁, hes, hlast⟩ := hh.of_append
    obtain _ | ⟨hstep, hnil⟩ := hlast
    cases hnil
    by_cases hsend : ∃ ok, e = .send q ok
    · obtain ⟨ok, rfl⟩ := hsend
      exact ⟨es, ok, [], rfl, by simp⟩
    · have hprev : h₁.current = some q ∧ e.Waits := by
        cases hstep with
        | send q' ok => exact absurd ⟨ok, by rw [Option.some.inj hq]⟩ hsend
        | idle | poll | fetch | fetchFailed => exact ⟨hq, trivial⟩
        | drainIdle | drainPoll | drainFetch | drainFailed | giveUp | accept | reject | fail => cases hq
      obtain ⟨pre, ok, mid, rfl, hmid⟩ := ih hes hprev.1
      refine ⟨pre, ok, mid ++ [e], by simp, fun e' he' => ?_⟩
      rcases List.mem_append.1 he' with h' | h'
      · exact hmid e' h'
      · exact List.mem_singleton.1 h' ▸ hprev.2

/-- Response correlation: an accepted answer is the device's answer to the
request this very transaction sent, which is the last one sent. -/
theorem correlated {size : A → ℕ} {resp : ℕ → A} {pre post : List (Ev Q A)} {h : Host Q A} {d : Device}
    {q : Q} {a : A} (hh : Host.Run .free (pre ++ .done q (some a) :: post) h)
    (hd : Device.Run size resp (pre ++ .done q (some a) :: post) d) :
    ∃ before ok mid, pre = before ++ .send q ok :: mid ∧ (∀ e ∈ mid, e.Waits) ∧
      a = resp (sends before) := by
  obtain ⟨h₁, hpre, hlast⟩ := hh.of_append
  obtain ⟨d₁, hdev⟩ := hd.of_append
  have hgot : h₁ = .got q a := by
    obtain _ | ⟨hstep, -⟩ := hlast
    cases hstep
    rfl
  subst hgot
  obtain ⟨before, ok, mid, rfl, hmid⟩ := hpre.current_sent rfl
  obtain ⟨-, -, ha⟩ := Agree.run hdev hpre
  refine ⟨before, ok, mid, rfl, hmid, ?_⟩
  rw [ha, sends_append]
  simp [sends, sends_waits hmid]

end NioApps.Transaction
