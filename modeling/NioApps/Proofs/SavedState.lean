import NioApps.Spec.HostState

/-! The host state survives a save and a reload on Linux and on the Amiga. The Atari
version stores the URI only, so there the display path is the one that was in the store
before. -/

namespace NioApps.HostState

/-- The state that a program reads at its start is the one that was set. -/
structure Reloads (b : Backend) (store : Store) (uri path : List Byte) : Prop where
  currentUri : ∀ accepts, cstr (getState b (.start store accepts)).1.currentUri = uri
  currentUriLen : ∀ accepts, (getState b (.start store accepts)).1.currentUriLen.toNat = uri.length
  displayPath : ∀ accepts, cstr (getState b (.start store accepts)).1.displayPath = path
  displayPathLen : ∀ accepts, (getState b (.start store accepts)).1.displayPathLen.toNat = path.length

/-- The string that a program finds under a key, for an array of `n + 1` bytes. -/
def stored (store : Store) (key : String) (n : ℕ) : List Byte := cstr (readKey store key (List.replicate (n + 1) 0))

theorem cstr_append {bs : List Byte} (h : ∀ c ∈ bs, c ≠ 0) (a : List Byte) : cstr (bs ++ 0 :: a) = bs := by
  rw [cstr, List.takeWhile_append_of_pos (by simpa using h), List.takeWhile_cons_of_neg (by simp), List.append_nil]

theorem length_cstr_le (a : List Byte) : (cstr a).length ≤ a.length := (List.takeWhile_prefix _).length_le

theorem length_readKey (store : Store) (key : String) (dst : List Byte) :
    (readKey store key dst).length = dst.length := by
  rw [readKey]
  dsimp only
  split_ifs with hcap
  · rfl
  have hfirst : (overwrite [0] dst).length = dst.length := by
    simp [overwrite]
    omega
  cases appstoreRead store key (dst.length - 1) with
  | none => exact hfirst
  | some bs =>
    dsimp only
    rw [overwrite, List.length_append, List.length_drop, hfirst, List.length_append, List.length_take]
    split_ifs <;> simp <;> omega

/-- A value that fits the array is read back. -/
theorem stored_of_some {store : Store} {key : String} {n : ℕ} {v : List Byte} (hv : store (stateNs, key) = some v)
    (hlen : v.length ≤ n) (h0 : ∀ c ∈ v, c ≠ 0) : stored store key n = v := by
  rw [stored, readKey]
  dsimp only
  rw [List.length_replicate, if_neg (by omega), appstoreRead, hv, Option.map_some, Nat.add_sub_cancel, List.take_of_length_le hlen]
  dsimp only
  rw [if_neg (by omega), List.take_length, overwrite, List.append_assoc]
  exact cstr_append h0 _

/-- The state that a program reads at its start. -/
theorem getState_start (b : Backend) (store : Store) (accepts : ℕ → Bool) :
    cstr (getState b (.start store accepts)).1.currentUri = stored store keyUri maxUri ∧
      cstr (getState b (.start store accepts)).1.displayPath = stored store keyPath maxPath ∧
      (getState b (.start store accepts)).1.currentUriLen = BitVec.ofNat 16 (stored store keyUri maxUri).length ∧
      (getState b (.start store accepts)).1.displayPathLen = BitVec.ofNat 16 (stored store keyPath maxPath).length := by
  cases b <;> simp only [getState, loadState, ensureState, Program.start, State.zero, stored, Bool.false_eq_true,
    if_false, and_self]

theorem reloads_iff {b : Backend} {store : Store} {uri path : List Byte} :
    Reloads b store uri path ↔ stored store keyUri maxUri = uri ∧ stored store keyPath maxPath = path := by
  have hlen (key : String) (n : ℕ) (hn : n + 1 < 2 ^ 16) :
      (BitVec.ofNat 16 (stored store key n).length).toNat = (stored store key n).length := by
    have hle := length_cstr_le (readKey store key (List.replicate (n + 1) 0))
    rw [length_readKey, List.length_replicate] at hle
    rw [BitVec.toNat_ofNat, Nat.mod_eq_of_lt]
    exact lt_of_le_of_lt hle hn
  constructor
  · rintro ⟨huri, -, hpath, -⟩
    obtain ⟨hu, hp, -, -⟩ := getState_start b store fun _ => true
    exact ⟨hu.symm.trans (huri _), hp.symm.trans (hpath _)⟩
  · rintro ⟨rfl, rfl⟩
    refine ⟨fun accepts => (getState_start b store accepts).1, fun accepts => ?_,
      fun accepts => (getState_start b store accepts).2.1, fun accepts => ?_⟩
    · rw [(getState_start b store accepts).2.2.1, hlen keyUri maxUri (by decide)]
    · rw [(getState_start b store accepts).2.2.2, hlen keyPath maxPath (by decide)]

theorem writeKey_true {key : String} {value : List Byte} {w : Program} (h : (writeKey key value w).1 = true) :
    w.accepts 0 = true ∧ (writeKey key value w).2.store = Function.update w.store (stateNs, key) (some value) := by
  rw [writeKey] at h ⊢
  dsimp only at h ⊢
  split_ifs at h ⊢ with hok
  · exact ⟨hok, rfl⟩

/-- Both values are in the store. -/
theorem writeBoth_true {uri path : List Byte} {w : Program} (h : (writeBoth uri path w).1 = true) :
    (writeBoth uri path w).2.store (stateNs, keyUri) = some uri ∧
      (writeBoth uri path w).2.store (stateNs, keyPath) = some path := by
  have hkeys : (stateNs, keyUri) ≠ (stateNs, keyPath) := by decide
  rw [writeBoth] at h ⊢
  have hfirst := @writeKey_true keyUri uri w
  generalize writeKey keyUri uri w = r at h hfirst ⊢
  obtain ⟨ok, w₁⟩ := r
  cases ok with
  | false => cases h
  | true =>
    obtain ⟨-, hstore⟩ := hfirst rfl
    dsimp only at h hstore ⊢
    rw [(writeKey_true h).2, hstore]
    exact ⟨by rw [Function.update_of_ne hkeys, Function.update_self], Function.update_self ..⟩

/-- If `fnctl_set_state` succeeds, a later program reads what was set, exactly when the version
is not the Atari's, the write fails, or the store holds the display path already. -/
theorem state_survives (b : Backend) (w : Program) {uri path : List Byte} (huri : uri.length ≤ maxUri)
    (hpath : path.length ≤ maxPath) (huri₀ : ∀ c ∈ uri, c ≠ 0) (hpath₀ : ∀ c ∈ path, c ≠ 0) :
    ((setState b (some uri) (some path) w).1 = true →
        Reloads b (setState b (some uri) (some path) w).2.store uri path) ↔
      (b = .atari → w.accepts 0 = true → stored w.store keyPath maxPath = path) := by
  have hkeys : (stateNs, keyPath) ≠ (stateNs, keyUri) := by decide
  have hboth (v : Program) (h : (writeBoth uri path v).1 = true) : Reloads b (writeBoth uri path v).2.store uri path := by
    obtain ⟨hu, hp⟩ := writeBoth_true h
    exact reloads_iff.2 ⟨stored_of_some hu huri huri₀, stored_of_some hp hpath hpath₀⟩
  have hlen : ¬(uri.length > maxUri ∨ path.length > maxPath) := by omega
  cases b with
  | linux =>
    have hset : setState .linux (some uri) (some path) w = writeBoth uri path w := if_neg hlen
    rw [hset]
    exact iff_of_true (hboth w) (by simp)
  | amiga =>
    have hset : setState .amiga (some uri) (some path) w = writeBoth uri path (keepState uri path (ensureState w)) :=
      if_neg hlen
    rw [hset]
    exact iff_of_true (hboth _) (by simp)
  | atari =>
    have hset : setState .atari (some uri) (some path) w = writeKey keyUri uri w := if_neg hlen
    have hkeep (s : Store) (v : Option (List Byte)) :
        stored (Function.update s (stateNs, keyUri) v) keyPath maxPath = stored s keyPath maxPath := by
      rw [stored, stored, readKey, readKey, appstoreRead, appstoreRead, Function.update_of_ne hkeys]
    rw [hset, reloads_iff]
    by_cases hok : w.accepts 0 = true
    · have hwrite : writeKey keyUri uri w = (true, { w with
          accepts := fun n => w.accepts (n + 1), store := Function.update w.store (stateNs, keyUri) (some uri) }) := if_pos hok
      rw [hwrite]
      dsimp only
      rw [hkeep, stored_of_some (Function.update_self ..) huri huri₀]
      simp [hok]
    · exact iff_of_true (fun h => absurd (writeKey_true h).1 hok) fun _ h => absurd h hok

/-- A store in which writes succeed and no key exists. -/
def fresh : Program := .start (fun _ => none) fun _ => true

/-- `N:/` is set with the display path `/`, on Linux. -/
theorem state_survives_linux : Reloads .linux (setState .linux (some [0x4e, 0x3a, 0x2f]) (some [0x2f]) fresh).2.store
    [0x4e, 0x3a, 0x2f] [0x2f] :=
  (state_survives .linux fresh (by decide) (by decide) (by decide)
    (by decide)).2 (by decide) (by decide)

/-- On the Atari the display path is gone after the same call. -/
theorem path_not_stored : (setState .atari (some [0x4e, 0x3a, 0x2f]) (some [0x2f]) fresh).1 = true ∧
    cstr (getState .atari (.start (setState .atari (some [0x4e, 0x3a, 0x2f]) (some [0x2f]) fresh).2.store
      fun _ => true)).1.displayPath = [] := by
  decide +kernel

end NioApps.HostState
