import NioApps.Spec.AppStore

/-! A value that FAPP PUT stored is what FAPP GET prints, however the service splits it
into writes and, independently, into reads. -/

namespace NioApps.AppStore

open Commands Upload

variable {σ : Type} {t : Target} {lib : Library σ} {content : σ → List Byte → List Byte → Option (List Byte)}
  {ns key value : List Byte}

/-! ### do_put -/

/-- The writes `ws` cover the first `pos` bytes of the value, each byte once. -/
structure Covers (value : List Byte) (pos : ℕ) (ws : List Write) : Prop where
  once : ExactlyOnce value (ws.map Write.packet)
  sum : ackSum (ws.map Write.packet) = pos
  some : ∀ x ∈ ws, 0 < x.taken.toNat ∧ x.taken.toNat ≤ x.data.length

theorem covers_nil (value : List Byte) : Covers value 0 [] where
  once := ⟨by simp, by simp, by simp, by simp, by simp⟩
  sum := rfl
  some := by simp

/-- One more write, of bytes from where the last one ended. -/
theorem Covers.snoc {pos : ℕ} {ws : List Write} (h : Covers value pos ws) {x : Write} (hoffset : x.offset.toNat = pos)
    (hdata : x.data <+: value.drop pos) (hpos : 0 < x.taken.toNat) (hle : x.taken.toNat ≤ x.data.length) :
    Covers value (pos + x.taken.toNat) (ws ++ [x]) where
  once := by
    have hpre : x.packet.data <+: value.drop x.packet.offset := by
      rw [Write.packet, hoffset]
      exact hdata
    rw [List.map_append]
    refine h.once.push (fun p hp => ?_) (hoffset.trans h.sum.symm) hpre fun hnil => ?_
    · obtain ⟨y, hy, rfl⟩ := List.mem_map.1 hp
      obtain ⟨htaken, hlen⟩ := h.some y hy
      exact ⟨by simp [Write.packet], List.ne_nil_of_length_pos (htaken.trans_le hlen)⟩
    · have hnone : x.data = [] := hnil
      rw [hnone, List.length_nil] at hle
      omega
  sum := by
    rw [List.map_append, ackSum_append, h.sum]
    rfl
  some := by
    intro y hy
    rcases List.mem_append.1 hy with hy | hy
    · exact h.some y hy
    · rw [List.mem_singleton.1 hy]
      exact ⟨hpos, hle⟩

/-- What the service took is the part that is covered. -/
theorem Covers.stored {pos : ℕ} {ws : List Write} (h : Covers value pos ws) : ws.flatMap Write.stored = value.take pos := by
  have hle : ∀ p ∈ ws.map Write.packet, p.ack.getD 0 ≤ p.data.length := by
    intro p hp
    obtain ⟨x, hx, rfl⟩ := List.mem_map.1 hp
    exact (h.some x hx).2
  have htaken := acknowledged h.once.offset h.once.data hle
  rw [List.flatMap_map, h.sum] at htaken
  exact htaken

/-- The loop of `do_put` with `pos` bytes written; `before` are the writes before the call. -/
structure Putting (content : σ → List Byte → List Byte → Option (List Byte)) (ns key value : List Byte) (before : List Write)
    (pos : ℕ) (w : Fapp σ) : Prop where
  le : pos ≤ value.length
  content : pos ≠ 0 → content w.service ns key = some (value.take pos)
  writes : ∃ ws, w.writes = before ++ ws ∧ Covers value pos ws

/-- The bytes that are offered next. -/
def offered (value : List Byte) (pos : ℕ) : List Byte := (value.drop pos).take (min (value.length - pos) 256)

theorem length_offered (value : List Byte) (pos : ℕ) : (offered value pos).length = min (value.length - pos) 256 := by
  rw [offered, List.length_take, List.length_drop]
  omega

/-- A write of any part of the chunk. -/
theorem Putting.write (hS : Stores lib content) (hmax : value.length ≤ 65535) {before : List Write} {pos : ℕ} {w : Fapp σ}
    (h : Putting content ns key value before pos w) (hlt : pos < value.length) :
    ∃ (k : Word) (s' : σ), lib.write ns key (BitVec.ofNat 32 pos) (offered value pos) w.service = (.ok k, s') ∧
      0 < k.toNat ∧ pos + k.toNat ≤ value.length ∧
      Putting content ns key value before (pos + k.toNat)
        (({ w with service := s' } : Fapp σ).wrote ⟨BitVec.ofNat 32 pos, offered value pos, k⟩) := by
  have hlen := length_offered value pos
  have hne : offered value pos ≠ [] := List.ne_nil_of_length_pos (by omega)
  have hchunk : (offered value pos).length ≤ chunkSize.toNat := by
    rw [hlen]
    exact Nat.min_le_right _ _
  -- the value so far, with what the service takes of the chunk
  have hwrite : ∃ (k : Word) (s' : σ), lib.write ns key (BitVec.ofNat 32 pos) (offered value pos) w.service = (.ok k, s') ∧
      0 < k.toNat ∧ k.toNat ≤ (offered value pos).length ∧
      content s' ns key = some (value.take pos ++ (offered value pos).take k.toNat) := by
    by_cases h0 : pos = 0
    · subst h0
      exact hS.start w.service ns key _ hne hchunk
    · have hfirst : (value.take pos).length = pos := by
        rw [List.length_take]
        omega
      have happend := hS.append w.service ns key (value.take pos) _ (h.content h0) (by omega) hne hchunk
      rwa [hfirst] at happend
  obtain ⟨k, s', hrun, hpos, hle, hcontent⟩ := hwrite
  obtain ⟨ws, hws, hcovers⟩ := h.writes
  have hpre : offered value pos <+: value.drop pos := List.take_prefix _ _
  have hk : pos + k.toNat ≤ value.length := by omega
  refine ⟨k, s', hrun, hpos, hk, hk, fun _ => ?_, ws ++ [⟨BitVec.ofNat 32 pos, offered value pos, k⟩], ?_, ?_⟩
  · have htake : (offered value pos).take k.toNat = (value.drop pos).take k.toNat := by
      rw [offered, List.take_take]
      congr 1
      omega
    rw [Fapp.wrote, hcontent, htake, ← List.take_add]
  · rw [Fapp.wrote, hws, List.append_assoc]
  · refine hcovers.snoc (x := ⟨BitVec.ofNat 32 pos, offered value pos, k⟩) ?_ hpre hpos hle
    rw [BitVec.toNat_ofNat]
    omega

/-- A round that writes something. -/
theorem putLoop_ok {n : ℕ} {p : List Byte} {left k : Word} {offset : BitVec 32} {w : Fapp σ} {s' : σ} (hleft : left ≠ 0)
    (hrun : lib.write ns key offset (p.take (if left > chunkSize then chunkSize else left).toNat) w.service = (.ok k, s'))
    (hk : k ≠ 0) :
    putLoop t lib ns key (n + 1) p left offset w =
      putLoop t lib ns key n (p.drop k.toNat) (left - k) (offset + k.setWidth 32)
        (({ w with service := s' } : Fapp σ).wrote ⟨offset, p.take (if left > chunkSize then chunkSize else left).toNat, k⟩) := by
  rw [putLoop, if_neg hleft]
  simp only [hrun, if_neg hk]

theorem word_ne_zero {v : Word} (h : 0 < v.toNat) : v ≠ 0 := by
  rintro rfl
  exact absurd h (by decide)

theorem chunk_toNat (left : Word) : (if left > chunkSize then chunkSize else left).toNat = min left.toNat 256 := by
  have h256 : chunkSize.toNat = 256 := rfl
  split_ifs with h
  · rw [gt_iff_lt, BitVec.lt_def, h256] at h
    omega
  · rw [gt_iff_lt, BitVec.lt_def, h256] at h
    omega

/-- The position behind `k` more bytes, in the words of the loop. -/
theorem offset_add (pos : ℕ) (k : Word) : BitVec.ofNat 32 pos + k.setWidth 32 = BitVec.ofNat 32 (pos + k.toNat) := by
  apply BitVec.eq_of_toNat_eq
  rw [BitVec.toNat_add, BitVec.toNat_ofNat, BitVec.toNat_setWidth, BitVec.toNat_ofNat]
  omega

theorem left_sub {len pos : ℕ} {k : Word} (hlen : len ≤ 65535) (hk : pos + k.toNat ≤ len) :
    BitVec.ofNat 16 (len - pos) - k = BitVec.ofNat 16 (len - (pos + k.toNat)) := by
  apply BitVec.eq_of_toNat_eq
  rw [BitVec.toNat_sub, BitVec.toNat_ofNat, BitVec.toNat_ofNat]
  omega

theorem putLoop_run (hS : Stores lib content) (hmax : value.length ≤ 65535) {before : List Write} {n pos : ℕ} {w : Fapp σ}
    (h : Putting content ns key value before pos w) (hn : value.length - pos < n) :
    ∃ w', putLoop t lib ns key n (value.drop pos) (BitVec.ofNat 16 (value.length - pos)) (BitVec.ofNat 32 pos) w =
      some (0, w') ∧ Putting content ns key value before value.length w' := by
  induction n generalizing pos w with
  | zero => omega
  | succ n ih =>
    have hle := h.le
    have hleft : (BitVec.ofNat 16 (value.length - pos)).toNat = value.length - pos := by
      rw [BitVec.toNat_ofNat]
      omega
    by_cases hend : pos = value.length
    · subst hend
      have hzero : BitVec.ofNat 16 (value.length - value.length) = 0 := by
        rw [Nat.sub_self]
        rfl
      rw [hzero, putLoop, if_pos rfl]
      exact ⟨_, rfl, h.le, h.content, h.writes⟩
    · obtain ⟨k, s', hrun, hpos, hk, hnext⟩ := h.write hS hmax (by omega)
      obtain ⟨w', hrest, hdone⟩ := ih hnext (by omega)
      refine ⟨w', ?_, hdone⟩
      have hchunk : (value.drop pos).take (if BitVec.ofNat 16 (value.length - pos) > chunkSize then chunkSize
          else BitVec.ofNat 16 (value.length - pos)).toNat = offered value pos := by
        rw [chunk_toNat, hleft, offered]
      rw [putLoop_ok (word_ne_zero (by omega)) (by rw [hchunk]; exact hrun) (word_ne_zero hpos), hchunk, offset_add,
        left_sub hmax hk, List.drop_drop]
      exact hrest

/-! ### do_get -/

/-- A round that reads something. -/
theorem getLoop_ok {n : ℕ} {offset : BitVec 32} {w : Fapp σ} {rr : ReadReply} {s' : σ}
    (hrun : lib.read ns key offset chunkSize w.service = (.ok rr, s')) (hfound : rr.found = true) (hsome : rr.bytesRead ≠ 0) :
    getLoop t lib ns key (n + 1) offset w =
      if rr.eof = true then
        some (0, (({ w with service := s' } : Fapp σ).print (slice rr.data 0 rr.bytesRead.toNat)).print [newline t])
      else getLoop t lib ns key n (offset + rr.bytesRead.setWidth 32)
        (({ w with service := s' } : Fapp σ).print (slice rr.data 0 rr.bytesRead.toNat)) := by
  rw [getLoop]
  simp only [hrun, hfound, hsome, or_false]
  rfl

theorem getLoop_run (hS : Stores lib content) (hmax : value.length ≤ 65535) {n pos : ℕ} {w : Fapp σ}
    (hcontent : content w.service ns key = some value) (hlt : pos < value.length) (hn : value.length - pos ≤ n) :
    ∃ w', getLoop t lib ns key n (BitVec.ofNat 32 pos) w = some (0, w') ∧
      w'.out = w.out ++ value.drop pos ++ [newline t] := by
  induction n generalizing pos w with
  | zero => omega
  | succ n ih =>
    have hpos : (BitVec.ofNat 32 pos).toNat = pos := by
      rw [BitVec.toNat_ofNat]
      omega
    obtain ⟨rr, s', hrun, hfound, hread, -, hend, hdata, heof, hkept⟩ :=
      hS.read w.service ns key value (BitVec.ofNat 32 pos) hcontent (by omega)
    rw [hpos] at hend hdata heof
    rw [getLoop_ok hrun hfound (word_ne_zero hread), hdata]
    split_ifs with hlast
    · refine ⟨_, rfl, ?_⟩
      have hall : (value.drop pos).take rr.bytesRead.toNat = value.drop pos :=
        List.take_of_length_le (by rw [List.length_drop]; have := heof.1 hlast; omega)
      rw [Fapp.print, Fapp.print, hall]
    · have hmore : pos + rr.bytesRead.toNat < value.length := lt_of_le_of_ne hend fun h => hlast (heof.2 h)
      rw [offset_add]
      obtain ⟨w', hrest, hout⟩ := ih (w := ({ w with service := s' } : Fapp σ).print _) hkept hmore (by omega)
      refine ⟨w', hrest, ?_⟩
      rw [hout, Fapp.print, List.append_assoc w.out, ← List.drop_drop, List.take_append_drop]

/-! ### Both -/

/-- PUT ends with 0 after writes that cover the value once, and GET then prints it. -/
theorem put_get (t : Target) (lib : Library σ) (content : σ → List Byte → List Byte → Option (List Byte))
    (hS : Stores lib content) (ns key value : List Byte) (hsome : value ≠ []) (hmax : value.length ≤ 65535) (w : Fapp σ) (n : ℕ)
    (hn : value.length < n) :
    ∃ w₁, doPut t lib ns key n value w = some (0, w₁) ∧
      (∃ ws, w₁.writes = w.writes ++ ws ∧ Covers value value.length ws ∧ ws.flatMap Write.stored = value) ∧
      ∀ w₂ : Fapp σ, w₂.service = w₁.service →
        ∃ w₃, doGet t lib ns key n w₂ = some (0, w₃) ∧ w₃.out = w₂.out ++ value ++ [newline t] := by
  have hpos : 0 < value.length := List.length_pos_of_ne_nil hsome
  have hleft : BitVec.ofNat 16 value.length ≠ 0 := word_ne_zero (by rw [BitVec.toNat_ofNat]; omega)
  have hstart : Putting content ns key value w.writes 0 w :=
    ⟨Nat.zero_le _, fun h => absurd rfl h, [], (List.append_nil _).symm, covers_nil value⟩
  obtain ⟨w₁, hput, hdone⟩ := putLoop_run (t := t) hS hmax hstart (n := n) (by omega)
  obtain ⟨ws, hws, hcovers⟩ := hdone.writes
  have hstored := hcovers.stored
  rw [List.take_length] at hstored
  refine ⟨w₁, ?_, ⟨ws, hws, hcovers, hstored⟩, fun w₂ hservice => ?_⟩
  · rw [doPut]
    simp only [if_neg hleft]
    exact hput
  · have hcontent := hdone.content (by omega)
    rw [List.take_length, ← hservice] at hcontent
    exact getLoop_run hS hmax hcontent hpos (by omega)

/-! ### A service -/

abbrev Shelf := List Byte → List Byte → Option (List Byte)

/-- A service that takes at most three bytes of a write, and gives at most two to a read. -/
def shelf : Library Shelf where
  write ns key offset data s :=
    let old := if offset = 0 then [] else (s ns key).getD []
    (.ok (BitVec.ofNat 16 (min 3 data.length)), fun ns' key' =>
      if ns' = ns ∧ key' = key then some (old ++ data.take (min 3 data.length)) else s ns' key')
  read ns key offset _ s :=
    match s ns key with
    | none => (.ok ⟨false, false, 0, fun _ => 0⟩, s)
    | some v =>
      let bs := (v.drop offset.toNat).take 2
      (.ok ⟨true, offset.toNat + bs.length = v.length, BitVec.ofNat 16 bs.length, fun i => bs.getD i 0⟩, s)
  errorString _ := []

theorem slice_getD (bs : List Byte) : slice (fun i => bs.getD i 0) 0 bs.length = bs := by
  apply List.ext_getElem (length_slice ..)
  intro i hi hi'
  rw [getElem_slice, Nat.zero_add, List.getD_eq_getElem?_getD, List.getElem?_eq_getElem hi', Option.getD_some]

theorem shelf_takes (data : List Byte) : (BitVec.ofNat 16 (min 3 data.length)).toNat = min 3 data.length := by
  rw [BitVec.toNat_ofNat]
  omega

theorem shelf_stores : Stores shelf id where
  start s ns key data hne _ := by
    have hpos := List.length_pos_of_ne_nil hne
    have hk := shelf_takes data
    refine ⟨_, _, rfl, by omega, by omega, ?_⟩
    rw [hk]
    exact if_pos ⟨rfl, rfl⟩
  append s ns key v data hv hlen hne _ := by
    have hpos := List.length_pos_of_ne_nil hne
    have hk := shelf_takes data
    refine ⟨_, _, rfl, by omega, by omega, ?_⟩
    have hold : (if BitVec.ofNat 32 v.length = 0 then [] else (s ns key).getD []) = v := by
      have hs : s ns key = some v := hv
      split_ifs with h0
      · have hnat := congrArg BitVec.toNat h0
        rw [BitVec.toNat_ofNat, Nat.mod_eq_of_lt hlen] at hnat
        exact (List.length_eq_zero_iff.1 hnat).symm
      · rw [hs]
        rfl
    rw [hk]
    refine (if_pos ⟨rfl, rfl⟩).trans ?_
    rw [hold]
  read s ns key v offset hv hlt := by
    have hs : s ns key = some v := hv
    have hlen : ((v.drop offset.toNat).take 2).length = min 2 (v.length - offset.toNat) := by
      rw [List.length_take, List.length_drop]
    have hk : (BitVec.ofNat 16 ((v.drop offset.toNat).take 2).length).toNat = ((v.drop offset.toNat).take 2).length := by
      rw [BitVec.toNat_ofNat]
      omega
    have h256 : chunkSize.toNat = 256 := rfl
    have hrun : shelf.read ns key offset chunkSize s =
        (.ok ⟨true, offset.toNat + ((v.drop offset.toNat).take 2).length = v.length,
          BitVec.ofNat 16 ((v.drop offset.toNat).take 2).length, fun i => ((v.drop offset.toNat).take 2).getD i 0⟩, s) := by
      simp only [shelf, hs]
    refine ⟨_, s, hrun, rfl, ?_⟩
    dsimp only
    rw [hk]
    refine ⟨by omega, by omega, by omega, ?_, by simp, hs⟩
    rw [slice_getD, hlen, ← List.length_drop, ← List.take_eq_take_min]

def hello : List Byte := [0x48, 0x45, 0x4c, 0x4c, 0x4f]

/-- `FAPP PUT ns key HELLO`, written as `HEL` and `LO` and read as `HE`, `LL` and `O`. -/
theorem put_get_hello : ∃ w₁ w₃, doPut .linux shelf [] [] 6 hello ⟨fun _ _ => none, [], []⟩ = some (0, w₁) ∧
    doGet .linux shelf [] [] 6 w₁ = some (0, w₃) ∧ w₃.out = w₁.out ++ hello ++ [0x0a] := by
  obtain ⟨w₁, hput, -, hget⟩ := put_get .linux shelf id shelf_stores [] [] hello (by decide) (by decide)
    ⟨fun _ _ => none, [], []⟩ 6 (by decide)
  obtain ⟨w₃, hrun, hout⟩ := hget w₁ rfl
  exact ⟨w₁, w₃, hput, hrun, hout⟩

end NioApps.AppStore
