import Mathlib.Tactic
import Mathlib.Data.List.Flatten

/-! A connection to a server that takes one request at a time and writes its answer in
chunks: what is on its way in each direction, and the chunks that the server has still to
write. `Inv` ties it to the requests that a client sent and to the items that it got:
nothing is lost, doubled or out of order, up to a tail that a lost connection cuts off. -/

namespace NioApps.Pipe

structure Conn (Q α : Type*) where
  up : List Q
  busy : List (List α)
  down : List α
  closed : Bool

variable {Q α : Type*} (chunks : Q → List (List α))

/-- The answers to the requests `qs`, in order. -/
def answers (qs : List Q) : List α := qs.flatMap fun q => (chunks q).flatten

@[simp] theorem answers_nil : answers chunks [] = [] := rfl

@[simp] theorem answers_cons (q : Q) (qs : List Q) :
    answers chunks (q :: qs) = (chunks q).flatten ++ answers chunks qs := List.flatMap_cons

@[simp] theorem answers_append (qs rs : List Q) :
    answers chunks (qs ++ rs) = answers chunks qs ++ answers chunks rs := List.flatMap_append

namespace Conn

def start : Conn Q α := ⟨[], [], [], false⟩

/-- A request goes out; on a closed connection it goes nowhere. -/
def send (q : Q) (c : Conn Q α) : Conn Q α := if c.closed then c else { c with up := c.up ++ [q] }

/-- `k` items are taken off the connection. -/
def receive (k : ℕ) (c : Conn Q α) : Conn Q α := { c with down := c.down.drop k }

/-- What the server has still to deliver. -/
def owed (c : Conn Q α) : List α := c.down ++ (c.busy.flatten ++ answers chunks c.up)

/-- The requests without a complete answer. -/
def outstanding (c : Conn Q α) : ℕ := c.up.length + if c.busy = [] then 0 else 1

/-- What happens on the server's side. A lost connection keeps some of the items that were
on their way. -/
inductive Serve : Conn Q α → Conn Q α → Prop
  | take {c : Conn Q α} (q : Q) (qs : List Q) (hopen : c.closed = false) (hup : c.up = q :: qs)
      (hidle : c.busy = []) : Serve c { c with up := qs, busy := chunks q }
  | write {c : Conn Q α} (chunk : List α) (rest : List (List α)) (hopen : c.closed = false)
      (hbusy : c.busy = chunk :: rest) : Serve c { c with busy := rest, down := c.down ++ chunk }
  | lose {c : Conn Q α} (kept : List α) (h : kept <+: c.down) :
      Serve c { up := [], busy := [], down := kept, closed := true }

/-- A client that sent `sent` and got `got`. -/
structure Inv (sent : List Q) (got : List α) (c : Conn Q α) : Prop where
  part : got ++ c.owed chunks <+: answers chunks sent
  whole : c.closed = false → got ++ c.owed chunks = answers chunks sent

theorem inv_start : (start : Conn Q α).Inv chunks [] [] := by
  constructor <;> simp [start, owed]

variable {chunks} {sent : List Q} {got : List α} {c c' : Conn Q α}

theorem Serve.owed_prefix (h : Serve chunks c c') : c'.owed chunks <+: c.owed chunks := by
  cases h with
  | take q qs hopen hup hidle => simp [owed, hup, hidle]
  | write chunk rest hopen hbusy => simp [owed, hbusy]
  | lose kept hkept =>
    simp only [owed, List.flatten_nil, answers_nil, List.append_nil]
    exact hkept.trans (List.prefix_append _ _)

theorem Serve.owed_eq (h : Serve chunks c c') (hopen : c'.closed = false) : c'.owed chunks = c.owed chunks := by
  cases h with
  | take q qs hc hup hidle => simp [owed, hup, hidle]
  | write chunk rest hc hbusy => simp [owed, hbusy]
  | lose kept hkept => cases hopen

theorem Serve.was_open (h : Serve chunks c c') (hopen : c'.closed = false) : c.closed = false := by
  cases h with
  | take q qs hc hup hidle => exact hc
  | write chunk rest hc hbusy => exact hc
  | lose kept hkept => cases hopen

theorem Inv.serve (h : c.Inv chunks sent got) (hs : Serve chunks c c') : c'.Inv chunks sent got := by
  refine ⟨?_, fun hopen => ?_⟩
  · obtain ⟨t, ht⟩ := hs.owed_prefix
    refine List.IsPrefix.trans ⟨t, ?_⟩ h.part
    rw [List.append_assoc, ht]
  · rw [hs.owed_eq hopen]
    exact h.whole (hs.was_open hopen)

theorem Inv.send (h : c.Inv chunks sent got) (q : Q) : (c.send q).Inv chunks (sent ++ [q]) got := by
  unfold Conn.send
  split_ifs with hc
  · refine ⟨?_, fun hopen => ?_⟩
    · rw [answers_append]
      exact h.part.trans (List.prefix_append _ _)
    · rw [hc] at hopen
      cases hopen
  · have howed : ({ c with up := c.up ++ [q] } : Conn Q α).owed chunks = c.owed chunks ++ (chunks q).flatten := by
      simp [owed]
    have hall := h.whole (by simpa using hc)
    have hnew : got ++ ({ c with up := c.up ++ [q] } : Conn Q α).owed chunks = answers chunks (sent ++ [q]) := by
      rw [howed, ← List.append_assoc, hall, answers_append]
      simp
    exact ⟨by rw [hnew], fun _ => hnew⟩

theorem Inv.receive (h : c.Inv chunks sent got) (k : ℕ) :
    (c.receive k).Inv chunks sent (got ++ c.down.take k) := by
  have hmove : got ++ c.down.take k ++ (c.receive k).owed chunks = got ++ c.owed chunks := by
    simp only [Conn.receive, owed]
    rw [List.append_assoc, ← List.append_assoc (c.down.take k), List.take_append_drop]
  exact ⟨by rw [hmove]; exact h.part, fun hopen => by rw [hmove]; exact h.whole hopen⟩

/-- Everything that arrives belongs to the answers. -/
theorem Inv.arrived (h : c.Inv chunks sent got) (k : ℕ) : got ++ c.down.take k <+: answers chunks sent := by
  refine List.IsPrefix.trans ⟨c.down.drop k ++ (c.busy.flatten ++ answers chunks c.up), ?_⟩ h.part
  rw [List.append_assoc, ← List.append_assoc (c.down.take k), List.take_append_drop]
  rfl

/-- A client that got all the answers is owed nothing. -/
theorem Inv.owed_nil (h : c.Inv chunks sent (answers chunks sent)) : c.owed chunks = [] := by
  have hle := h.part.length_le
  rw [List.length_append] at hle
  exact List.length_eq_zero_iff.1 (by omega)

section Outstanding

theorem Serve.outstanding_le (h : Serve chunks c c') : c'.outstanding ≤ c.outstanding := by
  cases h with
  | take q qs hopen hup hidle =>
    simp only [outstanding, hup, hidle, List.length_cons, if_true]
    split_ifs <;> omega
  | write chunk rest hopen hbusy =>
    simp only [outstanding, hbusy, reduceCtorEq, if_false]
    split_ifs <;> omega
  | lose kept hkept => simp [outstanding]

theorem outstanding_send (q : Q) : (c.send q).outstanding ≤ c.outstanding + 1 := by
  unfold Conn.send
  split_ifs with hc
  · omega
  · simp only [outstanding, List.length_append, List.length_singleton]
    omega

/-- The server's chunks have something in them, and every answer has a chunk. -/
def Solid (chunks : Q → List (List α)) : Prop := ∀ q, chunks q ≠ [] ∧ [] ∉ chunks q

/-- When all is delivered, nothing is outstanding, provided that the server holds no empty chunk. -/
theorem outstanding_of_owed_nil (hsolid : Solid chunks) (hbusy : [] ∉ c.busy) (h : c.owed chunks = []) :
    c.outstanding = 0 := by
  simp only [owed, List.append_eq_nil_iff] at h
  obtain ⟨-, hflat, hup⟩ := h
  have hb : c.busy = [] := by
    by_contra hne
    obtain ⟨chunk, hchunk⟩ := List.exists_mem_of_ne_nil _ hne
    have : chunk = [] := List.flatten_eq_nil_iff.1 hflat chunk hchunk
    rw [this] at hchunk
    exact hbusy hchunk
  have hu : c.up = [] := by
    by_contra hne
    obtain ⟨q, hq⟩ := List.exists_mem_of_ne_nil _ hne
    have hnil : (chunks q).flatten = [] := List.flatMap_eq_nil_iff.1 hup q hq
    obtain ⟨chunk, hchunk⟩ := List.exists_mem_of_ne_nil _ (hsolid q).1
    have : chunk = [] := List.flatten_eq_nil_iff.1 hnil chunk hchunk
    rw [this] at hchunk
    exact (hsolid q).2 hchunk
  simp [outstanding, hb, hu]

theorem Serve.solid (hsolid : Solid chunks) (h : Serve chunks c c') (hc : [] ∉ c.busy) : [] ∉ c'.busy := by
  cases h with
  | take q qs hopen hup hidle => exact (hsolid q).2
  | write chunk rest hopen hbusy =>
    intro hmem
    rw [hbusy] at hc
    exact hc (List.mem_cons_of_mem _ hmem)
  | lose kept hkept => exact List.not_mem_nil

end Outstanding

/-- On an open connection a server that owes something gets to deliver some of it. -/
theorem exists_serve_down (hsolid : Solid chunks) (hbusy : [] ∉ c.busy) (hopen : c.closed = false)
    (howed : c.owed chunks ≠ []) :
    ∃ c', Relation.ReflTransGen (Serve chunks) c c' ∧ c'.closed = false ∧ c'.down ≠ [] ∧ c'.owed chunks = c.owed chunks := by
  by_cases hdown : c.down = []
  · have hwrite : ∀ d : Conn Q α, d.closed = false → [] ∉ d.busy → d.busy ≠ [] →
        ∃ d', Serve chunks d d' ∧ d'.closed = false ∧ d'.down ≠ [] := by
      intro d hd hsd hne
      obtain ⟨chunk, rest, heq⟩ := List.exists_cons_of_ne_nil hne
      refine ⟨_, Serve.write chunk rest hd heq, hd, ?_⟩
      intro hnil
      rw [heq] at hsd
      have hchunk : chunk = [] := (List.append_eq_nil_iff.1 hnil).2
      rw [hchunk] at hsd
      exact hsd List.mem_cons_self
    by_cases hidle : c.busy = []
    · -- the server takes the request first
      obtain ⟨q, qs, hup⟩ : ∃ q qs, c.up = q :: qs := by
        apply List.exists_cons_of_ne_nil
        intro hup
        exact howed (by simp [owed, hdown, hidle, hup])
      have htake : Serve chunks c { c with up := qs, busy := chunks q } := .take q qs hopen hup hidle
      obtain ⟨c', hserve, hc', hd'⟩ := hwrite { c with up := qs, busy := chunks q } hopen (hsolid q).2 (hsolid q).1
      refine ⟨c', (Relation.ReflTransGen.single htake).tail hserve, hc', hd', ?_⟩
      rw [hserve.owed_eq hc', htake.owed_eq hopen]
    · obtain ⟨c', hserve, hc', hd'⟩ := hwrite c hopen hbusy hidle
      exact ⟨c', Relation.ReflTransGen.single hserve, hc', hd', hserve.owed_eq hc'⟩
  · exact ⟨c, Relation.ReflTransGen.refl, hopen, hdown, rfl⟩

end Conn

end NioApps.Pipe
