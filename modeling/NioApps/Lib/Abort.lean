import Mathlib.Tactic

/-! Programs that may leave all their callers at once, from any depth, with the
state as it is: `EStateM Unit σ`. `Keeps R m` says that every run of `m`, however
it ends, takes a state to one related to it by the preorder `R`; `wp m Q E s` says
that the run of `m` from `s` ends in `Q`, or in `E` when it leaves. -/

namespace NioApps.Abort

variable {σ α β : Type}

/-- The state in which a run ended. -/
def left : EStateM.Result Unit σ α → σ
  | .ok _ s => s
  | .error _ s => s

@[simp] theorem left_ok (a : α) (s : σ) : left (.ok a s : EStateM.Result Unit σ α) = s := rfl

@[simp] theorem left_error (e : Unit) (s : σ) : left (.error e s : EStateM.Result Unit σ α) = s := rfl

/-- Whether a run came to its end. -/
def finished : EStateM.Result Unit σ α → Bool
  | .ok _ _ => true
  | .error _ _ => false

theorem eq_ok_left {r : EStateM.Result Unit σ Unit} (h : finished r = true) : r = .ok () (left r) := by
  cases r with
  | ok a s => rfl
  | error e s => cases h

theorem run_bind_ok {m : EStateM Unit σ α} {f : α → EStateM Unit σ β} {s s' : σ} {a : α} (h : m.run s = .ok a s') :
    (m >>= f).run s = (f a).run s' := by
  rw [EStateM.run_bind, h]

theorem run_bind_error {m : EStateM Unit σ α} {f : α → EStateM Unit σ β} {s s' : σ} (h : m.run s = .error () s') :
    (m >>= f).run s = .error () s' := by
  rw [EStateM.run_bind, h]

theorem ite_bind (c : Prop) [Decidable c] (m n : EStateM Unit σ α) (f : α → EStateM Unit σ β) :
    (if c then m else n) >>= f = if c then m >>= f else n >>= f := by
  split_ifs <;> rfl

/-- Every run of `m` relates the states before and after it by `R`. -/
def Keeps (R : σ → σ → Prop) (m : EStateM Unit σ α) : Prop := ∀ s, R s (left (m.run s))

theorem Keeps.modify {R : σ → σ → Prop} {f : σ → σ} (h : ∀ s, R s (f s)) :
    Keeps R (modify f : EStateM Unit σ PUnit) := h

/-- The continuation of `get` may use what it read. -/
theorem Keeps.get_bind {R : σ → σ → Prop} {f : σ → EStateM Unit σ β} (hf : ∀ s, R s (left ((f s).run s))) :
    Keeps R ((get : EStateM Unit σ σ) >>= f) := hf

theorem Keeps.ite {R : σ → σ → Prop} {c : Prop} [Decidable c] {m n : EStateM Unit σ α} (hm : c → Keeps R m)
    (hn : ¬c → Keeps R n) : Keeps R (if c then m else n) := by
  split_ifs with h
  · exact hm h
  · exact hn h

variable {R : σ → σ → Prop} [IsPreorder σ R]

theorem Keeps.pure (a : α) : Keeps R (pure a : EStateM Unit σ α) := fun s => refl_of R s

theorem Keeps.throw : Keeps R (throw () : EStateM Unit σ α) := fun s => refl_of R s

theorem Keeps.bind {m : EStateM Unit σ α} {f : α → EStateM Unit σ β} (hm : Keeps R m) (hf : ∀ a, Keeps R (f a)) :
    Keeps R (m >>= f) := by
  intro s
  have h := hm s
  rw [EStateM.run_bind]
  cases hr : m.run s with
  | error e s' => simpa [hr] using h
  | ok a s' =>
    rw [hr] at h
    exact trans_of R h (hf a s')

/-! ### Weakest preconditions -/

section Wp

variable {Q Q' : α → σ → Prop} {E E' : σ → Prop} {s : σ}

def wp (m : EStateM Unit σ α) (Q : α → σ → Prop) (E : σ → Prop) (s : σ) : Prop :=
  match m.run s with
  | .ok a s' => Q a s'
  | .error _ s' => E s'

theorem wp_of_ok {m : EStateM Unit σ α} {a : α} {s' : σ} (h : m.run s = .ok a s') : wp m Q E s ↔ Q a s' := by
  rw [wp, h]

theorem wp_congr {m n : EStateM Unit σ α} (h : m.run s = n.run s) : wp m Q E s ↔ wp n Q E s := by
  rw [wp, wp, h]

theorem wp_left {m : EStateM Unit σ α} {P : σ → Prop} : wp m (fun _ => P) P s ↔ P (left (m.run s)) := by
  rw [wp]
  cases m.run s <;> rfl

/-- A property of the whole result. -/
theorem wp_result {m : EStateM Unit σ α} {P : EStateM.Result Unit σ α → Prop} :
    wp m (fun a s' => P (.ok a s')) (fun s' => P (.error () s')) s ↔ P (m.run s) := by
  rw [wp]
  cases m.run s <;> rfl

theorem wp_pure (a : α) : wp (pure a : EStateM Unit σ α) Q E s ↔ Q a s := Iff.rfl

theorem wp_throw : wp (throw () : EStateM Unit σ α) Q E s ↔ E s := Iff.rfl

theorem wp_modify {f : σ → σ} {R : PUnit → σ → Prop} :
    wp (modify f : EStateM Unit σ PUnit) R E s ↔ R ⟨⟩ (f s) := Iff.rfl

theorem wp_get {R : σ → σ → Prop} : wp (get : EStateM Unit σ σ) R E s ↔ R s s := Iff.rfl

theorem wp_bind {m : EStateM Unit σ α} {f : α → EStateM Unit σ β} {R : β → σ → Prop} :
    wp (m >>= f) R E s ↔ wp m (fun a => wp (f a) R E) E s := by
  rw [wp, EStateM.run_bind, wp]
  cases m.run s <;> rfl

theorem wp_ite {c : Prop} [Decidable c] {m n : EStateM Unit σ α} (hm : c → wp m Q E s) (hn : ¬c → wp n Q E s) :
    wp (if c then m else n) Q E s := by
  split_ifs with h
  · exact hm h
  · exact hn h

/-- However the run ends. -/
theorem wp_all (m : EStateM Unit σ α) (hQ : ∀ a s', Q a s') (hE : ∀ s', E s') : wp m Q E s := by
  rw [wp]
  cases m.run s with
  | ok a s' => exact hQ a s'
  | error e s' => exact hE s'

theorem wp.mono {m : EStateM Unit σ α} (h : wp m Q E s) (hQ : ∀ a s', Q a s' → Q' a s') (hE : ∀ s', E s' → E' s') :
    wp m Q' E' s := by
  rw [wp] at h ⊢
  cases hr : m.run s with
  | ok a s' =>
    rw [hr] at h
    exact hQ a s' h
  | error e s' =>
    rw [hr] at h
    exact hE s' h

theorem wp.and {m : EStateM Unit σ α} (h : wp m Q E s) (h' : wp m Q' E' s) :
    wp m (fun a s' => Q a s' ∧ Q' a s') (fun s' => E s' ∧ E' s') s := by
  rw [wp] at h h' ⊢
  cases hr : m.run s with
  | ok a s' =>
    rw [hr] at h h'
    exact ⟨h, h'⟩
  | error e s' =>
    rw [hr] at h h'
    exact ⟨h, h'⟩

theorem wp.seq {m : EStateM Unit σ α} {f : α → EStateM Unit σ β} {R : β → σ → Prop} (hm : wp m Q E s)
    (hf : ∀ a s', Q a s' → wp (f a) R E s') : wp (m >>= f) R E s :=
  wp_bind.2 (hm.mono hf fun _ => id)

theorem wp.ok {m : EStateM Unit σ α} {a : α} {s' : σ} (h : wp m Q E s) (hr : m.run s = .ok a s') : Q a s' :=
  (wp_of_ok hr).1 h

/-- A run that cannot leave. -/
theorem wp.returns {m : EStateM Unit σ α} (h : wp m Q (fun _ => False) s) : ∃ a s', m.run s = .ok a s' ∧ Q a s' := by
  rw [wp] at h
  cases hr : m.run s with
  | ok a s' =>
    rw [hr] at h
    exact ⟨a, s', rfl, h⟩
  | error e s' =>
    rw [hr] at h
    exact h.elim

end Wp

end NioApps.Abort
