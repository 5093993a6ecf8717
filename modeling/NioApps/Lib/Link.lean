import NioApps.Lib.Transaction

/-! A host with at most one request outstanding, and behind its device a service with a
state of its own. The device serves a request when it takes it, and may lose it before or
its answer after that. For every run the service has then been through the exchanges of the
host one after another: answered ones with the answer that it gave, and of the others it took
each once or not at all. -/

namespace NioApps.Transaction

variable {Q A σ : Type*}

/-- The transaction the device holds, with its answer. -/
inductive Link (A : Type*)
  | idle
  | busy (a : A)
  | ready (a : A)

/-- Events seen from a device that was idle at first, before a service that was in `s₀`: the
device and the service after them. About a request sent over a transaction nothing is said. -/
inductive Linked (size : A → ℕ) (serves : σ → Q → A → σ → Prop) (s₀ : σ) : List (Ev Q A) → Link A → σ → Prop
  | nil : Linked size serves s₀ [] .idle s₀
  | finish {es : List (Ev Q A)} {a : A} {s : σ} (h : Linked size serves s₀ es (.busy a) s) : Linked size serves s₀ es (.ready a) s
  | taken {es : List (Ev Q A)} {s s' : σ} {q : Q} {a : A} (ok : Bool) (h : Linked size serves s₀ es .idle s)
      (hserves : serves s q a s') : Linked size serves s₀ (es ++ [.send q ok]) (.busy a) s'
  | missed {es : List (Ev Q A)} {s : σ} (q : Q) (h : Linked size serves s₀ es .idle s) :
      Linked size serves s₀ (es ++ [.send q false]) .idle s
  | overrun {es : List (Ev Q A)} {d d' : Link A} {s s' : σ} (q : Q) (ok : Bool) (h : Linked size serves s₀ es d s)
      (hd : d ≠ .idle) : Linked size serves s₀ (es ++ [.send q ok]) d' s'
  | reportIdle {es : List (Ev Q A)} {s : σ} (h : Linked size serves s₀ es .idle s) :
      Linked size serves s₀ (es ++ [.poll (some .idle)]) .idle s
  | reportBusy {es : List (Ev Q A)} {a : A} {s : σ} (h : Linked size serves s₀ es (.busy a) s) :
      Linked size serves s₀ (es ++ [.poll (some .busy)]) (.busy a) s
  | reportReady {es : List (Ev Q A)} {a : A} {s : σ} (h : Linked size serves s₀ es (.ready a) s) :
      Linked size serves s₀ (es ++ [.poll (some (.ready (size a)))]) (.ready a) s
  | pollFailed {es : List (Ev Q A)} {d : Link A} {s : σ} (h : Linked size serves s₀ es d s) :
      Linked size serves s₀ (es ++ [.poll none]) d s
  | fetched {es : List (Ev Q A)} {a : A} {s : σ} (h : Linked size serves s₀ es (.ready a) s) :
      Linked size serves s₀ (es ++ [.fetch (some a)]) .idle s
  | fetchLost {es : List (Ev Q A)} {a : A} {s : σ} (h : Linked size serves s₀ es (.ready a) s) :
      Linked size serves s₀ (es ++ [.fetch none]) .idle s
  | fetchFailed {es : List (Ev Q A)} {d : Link A} {s : σ} (h : Linked size serves s₀ es d s) :
      Linked size serves s₀ (es ++ [.fetch none]) d s
  | done {es : List (Ev Q A)} {d : Link A} {s : σ} (q : Q) (a : Option A) (h : Linked size serves s₀ es d s) :
      Linked size serves s₀ (es ++ [.done q a]) d s

/-- The requests that ended, each with its answer if one was accepted. -/
def dones : List (Ev Q A) → List (Q × Option A) :=
  List.filterMap fun
    | .done q a => some (q, a)
    | _ => none

/-- One exchange, as the service went through it. -/
inductive Exchanged (serves : σ → Q → A → σ → Prop) : σ → Q × Option A → σ → Prop
  | answered {s s' : σ} {q : Q} {a : A} (h : serves s q a s') : Exchanged serves s (q, some a) s'
  | lost {s s' : σ} {q : Q} (a : A) (h : serves s q a s') : Exchanged serves s (q, none) s'
  | missed (s : σ) (q : Q) : Exchanged serves s (q, none) s

inductive Exchanges (serves : σ → Q → A → σ → Prop) : σ → List (Q × Option A) → σ → Prop
  | nil (s : σ) : Exchanges serves s [] s
  | cons {s s₁ s₂ : σ} {x : Q × Option A} {xs : List (Q × Option A)} (h : Exchanged serves s x s₁)
      (hrest : Exchanges serves s₁ xs s₂) : Exchanges serves s (x :: xs) s₂

variable {serves : σ → Q → A → σ → Prop} {size : A → ℕ} {s₀ s s' : σ}

theorem Exchanges.single {x : Q × Option A} (h : Exchanged serves s x s') : Exchanges serves s [x] s' := .cons h (.nil _)

theorem Exchanges.of_single {x : Q × Option A} (h : Exchanges serves s [x] s') : Exchanged serves s x s' := by
  obtain _ | ⟨hx, hrest⟩ := h
  cases hrest
  exact hx

theorem Exchanges.of_nil (h : Exchanges serves s [] s') : s' = s := by
  cases h
  rfl

theorem Exchanges.append {s₁ s₂ s₃ : σ} {xs ys : List (Q × Option A)} (h : Exchanges serves s₁ xs s₂)
    (h' : Exchanges serves s₂ ys s₃) : Exchanges serves s₁ (xs ++ ys) s₃ := by
  induction h with
  | nil => exact h'
  | cons hx _ ih => exact .cons hx (ih h')

theorem Exchanges.split {s₁ s₃ : σ} {xs ys : List (Q × Option A)} (h : Exchanges serves s₁ (xs ++ ys) s₃) :
    ∃ s₂, Exchanges serves s₁ xs s₂ ∧ Exchanges serves s₂ ys s₃ := by
  induction xs generalizing s₁ with
  | nil => exact ⟨s₁, .nil s₁, h⟩
  | cons x xs ih =>
    obtain _ | ⟨hx, hrest⟩ := h
    obtain ⟨s₂, hxs, hys⟩ := ih hrest
    exact ⟨s₂, .cons hx hxs, hys⟩

/-- What every exchange keeps, a run of them keeps. -/
theorem Exchanges.keeps {P : σ → Prop} {xs : List (Q × Option A)} (h : Exchanges serves s xs s')
    (hstep : ∀ x ∈ xs, ∀ s s', P s → Exchanged serves s x s' → P s') (hs : P s) : P s' := by
  induction h with
  | nil => exact hs
  | cons hx _ ih =>
    exact ih (fun x' hx' => hstep x' (List.mem_cons_of_mem _ hx')) (hstep _ List.mem_cons_self _ _ hs hx)

/-- What the state of the host says about the device and the service; `xs` are the exchanges
before the one it is in. -/
def Tells (serves : σ → Q → A → σ → Prop) (s₀ : σ) (xs : List (Q × Option A)) : Host Q A → Link A → σ → Prop
  | .free, d, s => d = .idle ∧ Exchanges serves s₀ xs s
  | .owing, _, s => Exchanges serves s₀ xs s
  | .sent q, d, s =>
    d = .idle ∧ Exchanges serves s₀ (xs ++ [(q, none)]) s ∨
      ∃ a s₁, (d = .busy a ∨ d = .ready a) ∧ Exchanges serves s₀ xs s₁ ∧ serves s₁ q a s
  | .got q a, d, s => d = .idle ∧ ∃ s₁, Exchanges serves s₀ xs s₁ ∧ serves s₁ q a s
  | .lost q, d, s => d = .idle ∧ Exchanges serves s₀ (xs ++ [(q, none)]) s

/-- Whatever became of the request, its exchange ended without an answer. -/
theorem Tells.unknown {xs : List (Q × Option A)} {q : Q} {d : Link A} (h : Tells serves s₀ xs (.sent q) d s) :
    Exchanges serves s₀ (xs ++ [(q, none)]) s := by
  rcases h with ⟨-, h⟩ | ⟨a, s₁, -, hxs, hserves⟩
  · exact h
  · exact hxs.append (.single (.lost a hserves))

theorem Tells.finish {xs : List (Q × Option A)} {h : Host Q A} {a : A} (ht : Tells serves s₀ xs h (.busy a) s) :
    Tells serves s₀ xs h (.ready a) s := by
  cases h with
  | free | got | lost => cases ht.1
  | owing => exact ht
  | sent q =>
    rcases ht with ⟨hd, -⟩ | ⟨a', s₁, hd | hd, hxs, hserves⟩
    · cases hd
    · cases hd
      exact .inr ⟨a, s₁, .inr rfl, hxs, hserves⟩
    · cases hd

theorem Host.Run.last {es : List (Ev Q A)} {e : Ev Q A} {h h' : Host Q A} (hh : Host.Run h (es ++ [e]) h') :
    ∃ h₁, Host.Run h es h₁ ∧ Host.Step h₁ e h' := by
  obtain ⟨h₁, hes, hlast⟩ := hh.of_append
  obtain _ | ⟨hstep, hnil⟩ := hlast
  cases hnil
  exact ⟨h₁, hes, hstep⟩

theorem dones_send (es : List (Ev Q A)) (q : Q) (ok : Bool) : dones (es ++ [.send q ok]) = dones es := by simp [dones]

theorem dones_poll (es : List (Ev Q A)) (r : Option Report) : dones (es ++ [.poll r]) = dones es := by simp [dones]

theorem dones_fetch (es : List (Ev Q A)) (a : Option A) : dones (es ++ [.fetch a]) = dones es := by simp [dones]

theorem dones_done (es : List (Ev Q A)) (q : Q) (a : Option A) : dones (es ++ [.done q a]) = dones es ++ [(q, a)] := by
  simp [dones]

theorem Tells.run {es : List (Ev Q A)} {d : Link A} (hd : Linked size serves s₀ es d s) {h : Host Q A}
    (hh : Host.Run .free es h) : Tells serves s₀ (dones es) h d s := by
  induction hd generalizing h with
  | nil =>
    cases hh
    exact ⟨rfl, .nil s₀⟩
  | finish _ ih => exact (ih hh).finish
  | taken ok _ hserves ih =>
    obtain ⟨h₁, hes, hstep⟩ := hh.last
    cases hstep
    rw [dones_send]
    exact .inr ⟨_, _, .inl rfl, (ih hes).2, hserves⟩
  | missed q _ ih =>
    obtain ⟨h₁, hes, hstep⟩ := hh.last
    cases hstep
    rw [dones_send]
    exact .inl ⟨rfl, (ih hes).2.append (.single (.missed _ q))⟩
  | overrun q ok _ hne ih =>
    -- the host sends only when the device is idle
    obtain ⟨h₁, hes, hstep⟩ := hh.last
    cases hstep
    exact absurd (ih hes).1 hne
  | reportIdle _ ih =>
    obtain ⟨h₁, hes, hstep⟩ := hh.last
    rw [dones_poll]
    cases hstep with
    | drainIdle => exact ⟨rfl, ih hes⟩
    | drainPoll h => exact absurd rfl h
    | idle q =>
      rcases ih hes with hlost | ⟨a, s₁, hd | hd, -⟩
      · exact hlost
      · cases hd
      · cases hd
    | poll q h => exact absurd rfl h
  | reportBusy _ ih | reportReady _ ih =>
    obtain ⟨h₁, hes, hstep⟩ := hh.last
    rw [dones_poll]
    cases hstep with
    | drainPoll => exact ih hes
    | poll q => exact ih hes
  | pollFailed _ ih =>
    obtain ⟨h₁, hes, hstep⟩ := hh.last
    rw [dones_poll]
    cases hstep with
    | drainPoll => exact ih hes
    | poll q => exact ih hes
  | fetched _ ih =>
    obtain ⟨h₁, hes, hstep⟩ := hh.last
    rw [dones_fetch]
    cases hstep with
    | drainFetch => exact ⟨rfl, ih hes⟩
    | fetch q a =>
      rcases ih hes with ⟨hd, -⟩ | ⟨a', s₁, hd | hd, hxs, hserves⟩
      · cases hd
      · cases hd
      · cases hd
        exact ⟨rfl, s₁, hxs, hserves⟩
  | fetchLost _ ih =>
    obtain ⟨h₁, hes, hstep⟩ := hh.last
    rw [dones_fetch]
    cases hstep with
    | drainFailed => exact ih hes
    | fetchFailed q => exact .inl ⟨rfl, (ih hes).unknown⟩
  | fetchFailed _ ih =>
    obtain ⟨h₁, hes, hstep⟩ := hh.last
    rw [dones_fetch]
    cases hstep with
    | drainFailed => exact ih hes
    | fetchFailed q => exact ih hes
  | done q a _ ih =>
    obtain ⟨h₁, hes, hstep⟩ := hh.last
    rw [dones_done]
    cases hstep with
    | giveUp => exact (ih hes).unknown
    | accept =>
      obtain ⟨hd, s₁, hxs, hserves⟩ := ih hes
      exact ⟨hd, hxs.append (.single (.answered hserves))⟩
    | reject q a =>
      obtain ⟨hd, s₁, hxs, hserves⟩ := ih hes
      exact ⟨hd, hxs.append (.single (.lost a hserves))⟩
    | fail => exact ih hes

end NioApps.Transaction
