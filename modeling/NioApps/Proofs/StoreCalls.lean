import NioApps.Proofs.PutGet
import NioApps.Spec.KeyValue

/-! The loops of FAPP against a service that keeps a store: what PUT leaves in it, what
GET prints of it, and the pages of LIST. -/

namespace NioApps.AppStore

open Commands

variable {σ : Type} {t : Target} {lib : Calls σ} {abs : σ → Store} {keys : σ → List Byte → List (List Byte)}
  {ns key value : List Byte}

/-! ### do_put -/

/-- `pos` bytes of the value are in the store, which is otherwise `m`. -/
structure Storing (abs : σ → Store) (m : Store) (ns key value : List Byte) (pos : ℕ) (s : σ) : Prop where
  le : pos ≤ value.length
  content : pos ≠ 0 → abs s (ns, key) = some (value.take pos)
  frame : ∀ x, Function.update (abs s) (ns, key) x = Function.update m (ns, key) x

theorem storing_start (s : σ) : Storing abs (abs s) ns key value 0 s :=
  ⟨Nat.zero_le _, fun h => absurd rfl h, fun _ => rfl⟩

theorem Storing.done {m : Store} {s : σ} (h : Storing abs m ns key value value.length s) (hne : value ≠ []) :
    abs s = Function.update m (ns, key) (some value) := by
  have hcontent := h.content (List.length_pos_of_ne_nil hne).ne'
  rw [List.take_length] at hcontent
  rw [← h.frame, ← hcontent, Function.update_eq_self]

/-- A write of any part of the chunk. -/
theorem Storing.write (hS : Serves lib abs keys) (hmax : value.length ≤ 65535) {m : Store} {pos : ℕ} {s : σ}
    (h : Storing abs m ns key value pos s) (hlt : pos < value.length) :
    ∃ (k : Word) (s' : σ), lib.write ns key (BitVec.ofNat 32 pos) (offered value pos) s = (.ok k, s') ∧
      0 < k.toNat ∧ pos + k.toNat ≤ value.length ∧ Storing abs m ns key value (pos + k.toNat) s' := by
  have hlen := length_offered value pos
  have hne : offered value pos ≠ [] := List.ne_nil_of_length_pos (by omega)
  have hchunk : (offered value pos).length ≤ chunkSize.toNat := by
    rw [hlen]
    exact Nat.min_le_right _ _
  have hwrite : ∃ (k : Word) (s' : σ), lib.write ns key (BitVec.ofNat 32 pos) (offered value pos) s = (.ok k, s') ∧
      0 < k.toNat ∧ k.toNat ≤ (offered value pos).length ∧
      abs s' = Function.update (abs s) (ns, key) (some (value.take pos ++ (offered value pos).take k.toNat)) := by
    by_cases h0 : pos = 0
    · subst h0
      obtain ⟨k, s', hrun, hpos, hle, habs⟩ := hS.start s ns key _ hchunk
      exact ⟨k, s', hrun, hpos hne, hle, habs⟩
    · have hfirst : (value.take pos).length = pos := by
        rw [List.length_take]
        omega
      have happend := hS.append s ns key (value.take pos) _ (h.content h0) (by omega) hne hchunk
      rwa [hfirst] at happend
  obtain ⟨k, s', hrun, hpos, hle, habs⟩ := hwrite
  have hk : pos + k.toNat ≤ value.length := by omega
  refine ⟨k, s', hrun, hpos, hk, hk, fun _ => ?_, fun x => ?_⟩
  · have htake : (offered value pos).take k.toNat = (value.drop pos).take k.toNat := by
      rw [offered, List.take_take]
      congr 1
      omega
    rw [habs, Function.update_self, htake, ← List.take_add]
  · rw [habs, Function.update_idem, h.frame]

theorem putLoop_serves (hS : Serves lib abs keys) (hmax : value.length ≤ 65535) (hne : value ≠ []) {m : Store} {n pos : ℕ}
    {w : Fapp σ} (h : Storing abs m ns key value pos w.service) (hn : value.length - pos < n) :
    ∃ w', putLoop t lib.toLibrary ns key n (value.drop pos) (BitVec.ofNat 16 (value.length - pos)) (BitVec.ofNat 32 pos) w =
      some (0, w') ∧ w'.out = w.out ++ line t (ascii "Wrote " ++ decimal value.length ++ ascii " bytes") ∧
        abs w'.service = Function.update m (ns, key) (some value) := by
  induction n generalizing pos w with
  | zero => omega
  | succ n ih =>
    have hle := h.le
    have hleft : (BitVec.ofNat 16 (value.length - pos)).toNat = value.length - pos := by
      rw [BitVec.toNat_ofNat]
      omega
    by_cases hend : pos = value.length
    · subst hend
      have hzero : BitVec.ofNat 16 (value.length - value.length) = 0 := by
        rw [Nat.sub_self]
        rfl
      have hoffset : (BitVec.ofNat 32 value.length).toNat = value.length := by
        rw [BitVec.toNat_ofNat]
        omega
      rw [hzero, putLoop, if_pos rfl, hoffset]
      exact ⟨_, rfl, rfl, h.done hne⟩
    · obtain ⟨k, s', hrun, hpos, hk, hnext⟩ := h.write hS hmax (by omega)
      have hchunk : (value.drop pos).take (if BitVec.ofNat 16 (value.length - pos) > chunkSize then chunkSize
          else BitVec.ofNat 16 (value.length - pos)).toNat = offered value pos := by
        rw [chunk_toNat, hleft, offered]
      obtain ⟨w', hrest, hout, habs⟩ := ih (w := ({ w with service := s' } : Fapp σ).wrote
        ⟨BitVec.ofNat 32 pos, offered value pos, k⟩) hnext (by omega)
      refine ⟨w', ?_, hout, habs⟩
      rw [putLoop_ok (word_ne_zero (by omega)) (by rw [hchunk]; exact hrun) (word_ne_zero hpos), hchunk, offset_add,
        left_sub hmax hk, List.drop_drop]
      exact hrest

theorem doPut_serves (hS : Serves lib abs keys) (hmax : value.length ≤ 65535) {n : ℕ} (hn : value.length < n) (w : Fapp σ) :
    ∃ w', doPut t lib.toLibrary ns key n value w = some (0, w') ∧
      w'.out = w.out ++ line t (ascii "Wrote " ++ decimal value.length ++ ascii " bytes") ∧
        abs w'.service = Function.update (abs w.service) (ns, key) (some value) := by
  by_cases hne : value = []
  · subst hne
    obtain ⟨k, s', hrun, -, -, habs⟩ := hS.start w.service ns key [] (Nat.zero_le _)
    rw [List.take_nil] at habs
    refine ⟨(({ w with service := s' } : Fapp σ).wrote ⟨0, [], k⟩).print (ascii "Wrote 0 bytes" ++ [newline t]), ?_, ?_, habs⟩
    · rw [doPut]
      simp only [hrun]
      rfl
    · rfl
  · have hpos := List.length_pos_of_ne_nil hne
    have hleft : BitVec.ofNat 16 value.length ≠ 0 := word_ne_zero (by rw [BitVec.toNat_ofNat]; omega)
    rw [doPut]
    simp only [if_neg hleft]
    exact putLoop_serves hS hmax hne (storing_start w.service) (by omega)

/-! ### do_get -/

theorem getLoop_serves (hS : Serves lib abs keys) (hmax : value.length ≤ 65535) {n pos : ℕ} {w : Fapp σ}
    (hcontent : abs w.service (ns, key) = some value) (hle : pos ≤ value.length) (hn : value.length - pos < n) :
    ∃ w', getLoop t lib.toLibrary ns key n (BitVec.ofNat 32 pos) w = some (0, w') ∧
      w'.out = w.out ++ line t (value.drop pos) ∧ abs w'.service = abs w.service := by
  induction n generalizing pos w with
  | zero => omega
  | succ n ih =>
    have hpos : (BitVec.ofNat 32 pos).toNat = pos := by
      rw [BitVec.toNat_ofNat]
      omega
    obtain ⟨rr, s', hrun, hfound, hread, hend, hdata, heof, hkept⟩ :=
      hS.read w.service ns key value (BitVec.ofNat 32 pos) hcontent (by omega)
    rw [hpos] at hread hend hdata heof
    by_cases hlast : rr.eof = true
    · have hall : (value.drop pos).take rr.bytesRead.toNat = value.drop pos :=
        List.take_of_length_le (by rw [List.length_drop]; have := heof.1 hlast; omega)
      refine ⟨(({ w with service := s' } : Fapp σ).print (value.drop pos)).print [newline t], ?_, ?_, hkept⟩
      · rw [getLoop]
        simp only [hrun, hfound, hlast, true_or, if_true, reduceCtorEq, if_false, hdata, hall]
      · rw [Fapp.print, Fapp.print, line, List.append_assoc]
    · have hmore : pos + rr.bytesRead.toNat < value.length := lt_of_le_of_ne hend fun h => hlast (heof.2 h)
      rw [getLoop_ok hrun hfound (word_ne_zero (hread (by omega))), hdata, if_neg hlast, offset_add]
      have hcontent' : abs s' (ns, key) = some value := by rw [hkept, hcontent]
      have := hread (by omega)
      obtain ⟨w', hrest, hout, habs⟩ := ih (w := ({ w with service := s' } : Fapp σ).print _) hcontent' hend (by omega)
      refine ⟨w', hrest, ?_, habs.trans hkept⟩
      rw [hout, Fapp.print, line, line, List.append_assoc w.out, ← List.append_assoc (List.take _ _), ← List.drop_drop,
        List.take_append_drop]

/-! ### do_list -/

theorem listKeys_holds {lr : ListReply} {ks : List (List Byte)} {off : Word} (h : Holds lib lr off ks) (total : ℕ)
    (w : Fapp σ) :
    listKeys t lib lr ks.length off total w = (.ok (total + ks.length), w.print (ks.flatMap (line t))) := by
  induction ks generalizing off total w with
  | nil => simp [listKeys, Fapp.print]
  | cons k ks ih =>
    obtain ⟨off', hnext, hrest⟩ := h
    rw [List.length_cons, listKeys]
    simp only [hnext]
    rw [ih hrest]
    simp [Fapp.print, line, Nat.add_comm ks.length 1, Nat.add_assoc]

theorem page_sum {start count : Word} {len : ℕ} (h : start.toNat + count.toNat ≤ len) (hlen : len < 2 ^ 16) :
    (start + count).toNat = start.toNat + count.toNat := by
  rw [BitVec.toNat_add]
  omega

theorem listLoop_serves (hS : Serves lib abs keys) {ks : List (List Byte)} (hshort : ∀ k ∈ ks, k.length < keyNameSize.toNat)
    (hfew : ks.length < 2 ^ 16) {n : ℕ} {start : Word} {w : Fapp σ} (hkeys : keys w.service ns = ks)
    (hstart : start.toNat ≤ ks.length) (hn : ks.length - start.toNat < n) :
    ∃ w', listLoop t lib ns n start start.toNat w = some (0, w') ∧
      w'.out = w.out ++ ((ks.drop start.toNat).flatMap (line t) ++
        line t (decimal ks.length ++ ascii " key" ++ ascii (if ks.length = 1 then "" else "s"))) ∧
      abs w'.service = abs w.service := by
  induction n generalizing start w with
  | zero => omega
  | succ n ih =>
    obtain ⟨lr, s', hrun, hcount, hmore, hsome, hpage, habs, hkeys'⟩ :=
      hS.list w.service ns start (by rw [hkeys]; exact hshort) (by rw [hkeys]; exact hstart)
    rw [hkeys] at hcount hmore hpage
    have hlen : ((ks.drop start.toNat).take lr.keyCount.toNat).length = lr.keyCount.toNat := by
      rw [List.length_take, List.length_drop]
      omega
    have hread := listKeys_holds (t := t) hpage start.toNat { w with service := s' }
    rw [hlen] at hread
    rw [listLoop]
    simp only [hrun, hread]
    by_cases hend : lr.more = false
    · have hall : start.toNat + lr.keyCount.toNat = ks.length := by
        by_contra hne
        have : lr.more = true := hmore.2 (lt_of_le_of_ne hcount hne)
        rw [hend] at this
        cases this
      have htake : (ks.drop start.toNat).take lr.keyCount.toNat = ks.drop start.toNat :=
        List.take_of_length_le (by rw [List.length_drop]; omega)
      have hprinted : ks.length % 2 ^ t.int = ks.length := by
        cases t <;> exact Nat.mod_eq_of_lt (by simp only [Target.int]; omega)
      rw [if_pos hend, hall, htake, hprinted]
      exact ⟨_, rfl, by simp [Fapp.print, line], habs⟩
    · have htrue : lr.more = true := by simpa using hend
      have hpos := hsome htrue
      have hsum := page_sum hcount hfew
      have hstart' : (start + lr.keyCount).toNat ≤ ks.length := by omega
      have hkeys₁ : keys s' ns = ks := by rw [hkeys', hkeys]
      rw [if_neg hend, if_neg (word_ne_zero hpos), ← hsum]
      obtain ⟨w', hrest, hout, habs'⟩ := ih
        (w := ({ w with service := s' } : Fapp σ).print (((ks.drop start.toNat).take lr.keyCount.toNat).flatMap (line t)))
        hkeys₁ hstart' (by omega)
      refine ⟨w', hrest, ?_, habs'.trans habs⟩
      rw [hout, Fapp.print, hsum, ← List.drop_drop, List.append_assoc w.out, ← List.append_assoc (List.flatMap _ _),
        ← List.flatMap_append, List.take_append_drop]

end NioApps.AppStore
