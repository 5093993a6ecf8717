import Mathlib.Tactic

/-! A reader of a stream that comes in chunks. It asks for the next chunk only
when it has delivered everything and the last chunk was not marked final; each
request carries the number of items accepted so far, counted modulo `m`. -/

namespace NioApps.Chunks

/-- A request, with the final mark and the items of its response if one was accepted. -/
structure Request (α : Type*) where
  offset : ℕ
  response : Option (Bool × List α)
deriving DecidableEq, Repr

variable {α : Type*}

def Request.items (q : Request α) : List α := (q.response.map Prod.snd).getD []

/-- The items accepted by the requests `qs`, in order. -/
def accepted (qs : List (Request α)) : List α := qs.flatMap Request.items

@[simp] theorem accepted_nil : accepted ([] : List (Request α)) = [] := rfl

theorem accepted_snoc (qs : List (Request α)) (q : Request α) :
    accepted (qs ++ [q]) = accepted qs ++ q.items := by
  simp [accepted]

structure Reader (α : Type*) where
  requests : List (Request α)
  delivered : List α
  rest : List α
  final : Bool

namespace Reader

def start : Reader α := ⟨[], [], [], false⟩

/-- The reader after one more request. -/
def ask (m : ℕ) (response : Option (Bool × List α)) (r : Reader α) : Reader α where
  requests := r.requests ++ [⟨(accepted r.requests).length % m, response⟩]
  delivered := r.delivered
  rest := (response.map Prod.snd).getD []
  final := (response.map Prod.fst).getD false

inductive Step (m : ℕ) : Reader α → Reader α → Prop
  | take {r : Reader α} (a : α) (as : List α) (h : r.rest = a :: as) :
      Step m r { r with delivered := r.delivered ++ [a], rest := as }
  | ask {r : Reader α} (response : Option (Bool × List α)) (hrest : r.rest = []) (hfinal : r.final = false) :
      Step m r (r.ask m response)

/-- Nothing accepted is lost or delivered twice, every request carries the right
offset, and the reader knows of the end when the last response said so. -/
structure Inv (m : ℕ) (r : Reader α) : Prop where
  total : accepted r.requests = r.delivered ++ r.rest
  offset : ∀ pre q post, r.requests = pre ++ q :: post → q.offset = (accepted pre).length % m
  final : r.final = true → ∃ q ∈ r.requests, ∃ items, q.response = some (true, items)
  going : r.final = false → ∀ q ∈ r.requests, ∀ items, q.response ≠ some (true, items)

theorem inv_start (m : ℕ) : (start : Reader α).Inv m :=
  ⟨rfl, by simp [start], by simp [start], by simp [start]⟩

theorem Inv.step {m : ℕ} {r r' : Reader α} (h : r.Inv m) (hs : Step m r r') : r'.Inv m := by
  cases hs with
  | take a as hrest => exact ⟨by rw [h.total, hrest]; simp, h.offset, h.final, h.going⟩
  | ask response hrest hfinal =>
    refine ⟨?_, fun pre q post hsplit => ?_, fun hf => ?_, fun hf q hq items hitems => ?_⟩
    · simp only [ask, accepted_snoc, h.total, hrest, List.append_nil]
      rfl
    · rcases List.eq_nil_or_concat post with rfl | ⟨post', q', rfl⟩
      · obtain ⟨h1, h2⟩ := List.append_inj' hsplit rfl
        cases h2
        rw [h1]
      · rw [List.concat_eq_append, ← List.cons_append, ← List.append_assoc] at hsplit
        exact h.offset pre q post' (List.append_inj' hsplit rfl).1
    · rcases response with _ | ⟨f, items⟩
      · simp [ask] at hf
      · simp only [ask, Option.map_some, Option.getD_some] at hf
        subst hf
        exact ⟨_, List.mem_append_right _ (List.mem_singleton_self _), items, rfl⟩
    · rcases List.mem_append.1 hq with hq | hq
      · exact h.going hfinal q hq items hitems
      · rw [List.mem_singleton.1 hq] at hitems
        subst hitems
        simp [ask] at hf

theorem Inv.delivered_prefix {m : ℕ} {r : Reader α} (h : r.Inv m) : r.delivered <+: accepted r.requests :=
  ⟨r.rest, h.total.symm⟩

end Reader

end NioApps.Chunks
