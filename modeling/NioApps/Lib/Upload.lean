import Mathlib.Tactic
import Mathlib.Logic.Relation

/-! A sender of a growing body over packets that may be acknowledged in part or
not at all. A packet carries everything that is not acknowledged yet; after one
whose outcome is unknown the sender stops, and an empty packet commits the body.
`Step` is the discipline, `ExactlyOnce` what it guarantees about any run. -/

namespace NioApps.Upload

/-- A packet as sent, with the count acknowledged, if that is known. -/
structure Packet (α : Type*) where
  offset : ℕ
  data : List α
  ack : Option ℕ
deriving DecidableEq, Repr

inductive Phase
  | active
  | faulted
  | committed
deriving DecidableEq, Repr

structure Sender (α : Type*) where
  body : List α
  acked : ℕ
  sent : List (Packet α)
  phase : Phase

variable {α : Type*}

namespace Sender

def start : Sender α := ⟨[], 0, [], .active⟩

/-- What the next packet will carry. -/
def pending (s : Sender α) : List α := s.body.drop s.acked

/-- Add a packet to those sent. -/
def push (s : Sender α) (ack : Option ℕ) : List (Packet α) := s.sent ++ [⟨s.acked, s.pending, ack⟩]

inductive Step : Sender α → Sender α → Prop
  | store {s : Sender α} (a : α) (h : s.phase = .active) : Step s { s with body := s.body ++ [a] }
  | ack {s : Sender α} (n : ℕ) (h : s.phase = .active) (hpos : 0 < n) (hle : n ≤ s.pending.length) :
      Step s { s with acked := s.acked + n, sent := s.push (some n) }
  | lose {s : Sender α} (h : s.phase = .active) : Step s { s with sent := s.push none, phase := .faulted }
  | fault {s : Sender α} (h : s.phase = .active) : Step s { s with phase := .faulted }
  | commit {s : Sender α} (h : s.phase = .active) (hnil : s.pending = []) :
      Step s { s with sent := s.push (some 0), phase := .committed }

abbrev Steps : Sender α → Sender α → Prop := Relation.ReflTransGen Step

end Sender

/-- The bytes acknowledged by the packets `ps`. -/
def ackSum (ps : List (Packet α)) : ℕ := (ps.map fun p => p.ack.getD 0).sum

@[simp] theorem ackSum_append (ps qs : List (Packet α)) : ackSum (ps ++ qs) = ackSum ps + ackSum qs := by
  simp [ackSum]

@[simp] theorem ackSum_singleton (p : Packet α) : ackSum [p] = p.ack.getD 0 := by simp [ackSum]

/-- The guarantee about the packets sent for `body`. Each starts where the
acknowledged part ends and carries the body from there on; none follows one that
was not acknowledged, or an empty one; and an empty one is at the end of the body. -/
structure ExactlyOnce (body : List α) (sent : List (Packet α)) : Prop where
  offset : ∀ pre p post, sent = pre ++ p :: post → p.offset = ackSum pre
  data : ∀ p ∈ sent, p.data <+: body.drop p.offset
  stop : ∀ pre p post, sent = pre ++ p :: post → p.ack = none → post = []
  last : ∀ pre p post, sent = pre ++ p :: post → p.data = [] → post = []
  full : ∀ p ∈ sent, p.data = [] → p.offset = body.length

/-- Splitting a list with one more element at its end. -/
private theorem snoc_eq_append_cons {ps pre post : List (Packet α)} {p q : Packet α}
    (h : ps ++ [q] = pre ++ p :: post) :
    ps = pre ∧ q = p ∧ post = [] ∨ ∃ post', post = post' ++ [q] ∧ ps = pre ++ p :: post' := by
  rcases List.eq_nil_or_concat post with rfl | ⟨post', q', rfl⟩
  · obtain ⟨h1, h2⟩ := List.append_inj' h rfl
    exact .inl ⟨h1, by simpa using h2, rfl⟩
  · rw [List.concat_eq_append, ← List.cons_append, ← List.append_assoc] at h
    obtain ⟨h1, h2⟩ := List.append_inj' h rfl
    cases h2
    exact .inr ⟨post', by simp, h1⟩

/-- One more packet, sent from an unfinished upload. -/
theorem ExactlyOnce.push {body : List α} {sent : List (Packet α)} (h : ExactlyOnce body sent)
    (hopen : ∀ p ∈ sent, p.ack ≠ none ∧ p.data ≠ []) {q : Packet α} (hoffset : q.offset = ackSum sent)
    (hdata : q.data <+: body.drop q.offset) (hfull : q.data = [] → q.offset = body.length) :
    ExactlyOnce body (sent ++ [q]) where
  offset pre p post hsplit := by
    rcases snoc_eq_append_cons hsplit with ⟨rfl, rfl, -⟩ | ⟨post', -, hs⟩
    · exact hoffset
    · exact h.offset pre p post' hs
  data p hp := by
    rcases List.mem_append.1 hp with hp | hp
    · exact h.data p hp
    · rw [List.mem_singleton.1 hp]
      exact hdata
  stop pre p post hsplit hnone := by
    rcases snoc_eq_append_cons hsplit with ⟨-, -, hpost⟩ | ⟨post', -, hs⟩
    · exact hpost
    · exact absurd hnone (hopen p (by simp [hs])).1
  last pre p post hsplit hnil := by
    rcases snoc_eq_append_cons hsplit with ⟨-, -, hpost⟩ | ⟨post', -, hs⟩
    · exact hpost
    · exact absurd hnil (hopen p (by simp [hs])).2
  full p hp hnil := by
    rcases List.mem_append.1 hp with hp | hp
    · exact h.full p hp hnil
    · rw [List.mem_singleton.1 hp] at hnil ⊢
      exact hfull hnil

/-- One more byte, stored in an unfinished upload. -/
theorem ExactlyOnce.store {body : List α} {sent : List (Packet α)} (h : ExactlyOnce body sent)
    (hopen : ∀ p ∈ sent, p.ack ≠ none ∧ p.data ≠ []) (a : α) : ExactlyOnce (body ++ [a]) sent where
  offset := h.offset
  data p hp := by
    obtain ⟨rest, hrest⟩ := h.data p hp
    have hle : p.offset ≤ body.length := by
      by_contra hlt
      rw [List.drop_eq_nil_of_le (by omega)] at hrest
      exact (hopen p hp).2 (List.append_eq_nil_iff.1 hrest).1
    rw [List.drop_append_of_le_length hle]
    exact ⟨rest ++ [a], by rw [← hrest, List.append_assoc]⟩
  stop := h.stop
  last := h.last
  full p hp hnil := absurd hnil (hopen p hp).2

/-- The acknowledged parts of packets that each start where the one before ended. -/
theorem acknowledged {body : List α} {sent : List (Packet α)}
    (hoffset : ∀ pre p post, sent = pre ++ p :: post → p.offset = ackSum pre) (hdata : ∀ p ∈ sent, p.data <+: body.drop p.offset)
    (hle : ∀ p ∈ sent, p.ack.getD 0 ≤ p.data.length) :
    sent.flatMap (fun p => p.data.take (p.ack.getD 0)) = body.take (ackSum sent) := by
  induction sent using List.reverseRecOn with
  | nil => rfl
  | append_singleton ps q ih =>
    have hps : ps.flatMap (fun p => p.data.take (p.ack.getD 0)) = body.take (ackSum ps) := by
      refine ih (fun pre p post h => ?_) (fun p hp => hdata p (by simp [hp])) fun p hp => hle p (by simp [hp])
      exact hoffset pre p (post ++ [q]) (by rw [h, List.append_assoc, List.cons_append])
    have hq : q.data.take (q.ack.getD 0) = (body.drop (ackSum ps)).take (q.ack.getD 0) := by
      obtain ⟨rest, hrest⟩ := hdata q (by simp)
      rw [← hoffset ps q [] rfl, ← hrest, List.take_append_of_le_length (hle q (by simp))]
    rw [List.flatMap_append, List.flatMap_singleton, hps, hq, ackSum_append, ackSum_singleton, List.take_add]

namespace Sender

/-- The invariant of a sender. -/
structure Inv (s : Sender α) : Prop where
  once : ExactlyOnce s.body s.sent
  acked : s.acked = ackSum s.sent
  le : s.acked ≤ s.body.length
  active : s.phase = .active → ∀ p ∈ s.sent, p.ack ≠ none ∧ p.data ≠ []
  committed : s.phase = .committed → ∃ pre, s.sent = pre ++ [⟨s.body.length, [], some 0⟩]

theorem inv_start : Inv (start : Sender α) where
  once := ⟨by simp [start], by simp [start], by simp [start], by simp [start], by simp [start]⟩
  acked := rfl
  le := le_rfl
  active := by simp [start]
  committed h := by simp [start] at h

theorem pending_eq_nil {s : Sender α} (h : s.Inv) (hnil : s.pending = []) : s.acked = s.body.length := by
  have := List.drop_eq_nil_iff.1 hnil
  have := h.le
  omega

/-- The packets after one more send from an active sender. -/
theorem Inv.once_push {s : Sender α} (h : s.Inv) (hact : s.phase = .active) (ack : Option ℕ) :
    ExactlyOnce s.body (s.push ack) :=
  h.once.push (h.active hact) h.acked (List.prefix_refl _) fun hnil => pending_eq_nil h hnil

theorem Inv.step {s s' : Sender α} (h : s.Inv) (hs : Step s s') : s'.Inv := by
  cases hs with
  | store a hact =>
    exact ⟨h.once.store (h.active hact) a, h.acked, by simpa using Nat.le_succ_of_le h.le, h.active,
      fun hc => by simp [hact] at hc⟩
  | ack n hact hpos hle =>
    have hlen : s.acked + n ≤ s.body.length := by
      simp only [pending, List.length_drop] at hle
      omega
    refine ⟨h.once_push hact _, by simp [push, h.acked], hlen, fun _ p hp => ?_, fun hc => by simp [hact] at hc⟩
    rcases List.mem_append.1 hp with hp | hp
    · exact h.active hact p hp
    · rw [List.mem_singleton.1 hp]
      exact ⟨by simp, fun hnil => by simp_all⟩
  | lose hact =>
    exact ⟨h.once_push hact _, by simp [push, h.acked], h.le, fun hc => by simp at hc, fun hc => by simp at hc⟩
  | fault hact => exact ⟨h.once, h.acked, h.le, fun hc => by simp at hc, fun hc => by simp at hc⟩
  | commit hact hnil =>
    refine ⟨h.once_push hact _, by simp [push, h.acked], h.le, fun hc => by simp at hc, fun _ => ?_⟩
    exact ⟨s.sent, by simp [push, hnil, pending_eq_nil h hnil]⟩

theorem Inv.steps {s s' : Sender α} (h : s.Inv) (hs : Steps s s') : s'.Inv := by
  induction hs with
  | refl => exact h
  | tail _ hstep ih => exact ih.step hstep

/-- Nothing more happens once the upload is committed or faulted. -/
theorem Steps.eq_of_not_active {s s' : Sender α} (h : Steps s s') (hp : s.phase ≠ .active) : s' = s := by
  induction h with
  | refl => rfl
  | tail _ hstep ih =>
    subst ih
    cases hstep with
    | store _ h | ack _ h | lose h | fault h | commit h => exact absurd h hp

end Sender

end NioApps.Upload
