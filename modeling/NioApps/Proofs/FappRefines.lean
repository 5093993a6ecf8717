import Mathlib.Data.List.AList
import NioApps.Proofs.StoreCalls

/-! FAPP is a front end to a map: any sequence of command lines leaves in the store, and
prints, what the commands do to a map from namespace and key. -/

namespace NioApps.AppStore

open Abort Commands

variable {σ : Type} {t : Target} {lib : Calls σ} {abs : σ → Store} {keys : σ → List Byte → List (List Byte)}

/-- The command `c` has been done: the result `r` of a run from `w`. -/
def Done (t : Target) (abs : σ → Store) (c : Command) (w : Fapp σ) (r : Option (ℕ × Fapp σ)) : Prop :=
  ∃ code w' out, r = some (code, w') ∧ w'.out = w.out ++ out ∧ c.Prints t (abs w.service) code out ∧
    abs w'.service = c.next (abs w.service)

/-- What the library can hold: values and keys that fit, and room for `budget` more keys. -/
structure Fits (abs : σ → Store) (keys : σ → List Byte → List (List Byte)) (budget : ℕ) (s : σ) : Prop where
  values : ∀ p v, abs s p = some v → v.length ≤ 65535
  short : ∀ ns key, abs s (ns, key) ≠ none → key.length < keyNameSize.toNat
  few : ∀ ns, (keys s ns).length + budget < 2 ^ 16

def Command.Fits : Command → Prop
  | .put _ key value => key.length < keyNameSize.toNat ∧ value.length ≤ 65535
  | _ => True

/-! ### One command -/

theorem usage_done (w : Fapp σ) : Done t abs .usage w (some (usage t w)) :=
  ⟨_, _, _, rfl, by simp [Fapp.puts, Fapp.print, line], .usage, rfl⟩

theorem ite_text {p : Prop} [Decidable p] {b : Bool} (h : b = true ↔ ¬p) :
    ascii (if b then "yes" else "no") = ascii (if p then "no" else "yes") := by
  by_cases hp : p
  · have hb : b = false := by simpa [hp] using h
    rw [hb, if_pos hp]
    rfl
  · rw [if_neg hp, h.2 hp]
    rfl

theorem ascii_append (a b : String) : ascii (a ++ b) = ascii a ++ ascii b := by simp [ascii]

theorem doStat_done (hS : Serves lib abs keys) (ns key : List Byte) (w : Fapp σ) :
    Done t abs (.stat ns key) w (some (doStat t lib ns key w)) := by
  obtain ⟨st, s', hrun, hfound, hsize, habs⟩ := hS.stat w.service ns key
  rw [Done, doStat]
  simp only [hrun]
  refine ⟨0, _, _, rfl, ?_, .stat ns key st.mtimeUnix, habs⟩
  simp [Fapp.puts, Fapp.print, line, ascii_append, ite_text hfound, hsize]

theorem doDelete_done (hS : Serves lib abs keys) (ns key : List Byte) (w : Fapp σ) :
    Done t abs (.delete ns key) w (some (doDelete t lib ns key w)) := by
  obtain ⟨deleted, s', hrun, hdeleted, habs⟩ := hS.delete w.service ns key
  rw [Done, doDelete]
  simp only [hrun]
  refine ⟨0, _, _, rfl, ?_, .delete ns key, habs⟩
  simp [Fapp.puts, Fapp.print, line, ascii_append, ite_text hdeleted]

theorem doGet_done (hS : Serves lib abs keys) {budget n : ℕ} {w : Fapp σ} (hfit : Fits abs keys budget w.service)
    (hn : 65536 ≤ n) (ns key : List Byte) : Done t abs (.get ns key) w (doGet t lib.toLibrary ns key n w) := by
  cases hvalue : abs w.service (ns, key) with
  | none =>
    obtain ⟨rr, s', hrun, hfound, habs⟩ := hS.missing w.service ns key hvalue
    obtain ⟨n, rfl⟩ : ∃ m, n = m + 1 := ⟨n - 1, by omega⟩
    refine ⟨1, ({ w with service := s' } : Fapp σ).puts t "Key not found", _, ?_, rfl, .missing ns key hvalue, habs⟩
    rw [doGet, getLoop]
    simp only [hrun, hfound, if_true]
    rfl
  | some value =>
    have hmax := hfit.values _ _ hvalue
    obtain ⟨w', hrun, hout, habs⟩ := getLoop_serves (t := t) hS hmax hvalue (Nat.zero_le _) (n := n) (by omega)
    rw [List.drop_zero] at hout
    exact ⟨0, w', _, hrun, hout, .got ns key value hvalue, habs⟩

theorem doList_done (hS : Serves lib abs keys) {budget n : ℕ} {w : Fapp σ} (hfit : Fits abs keys budget w.service)
    (hn : 65536 ≤ n) (ns : List Byte) : Done t abs (.list ns) w (doList t lib n ns w) := by
  have hfew := hfit.few ns
  have hshort : ∀ k ∈ keys w.service ns, k.length < keyNameSize.toNat := fun k hk =>
    hfit.short ns k ((hS.mem _ _ _).1 hk)
  have hzero : (0 : Word).toNat = 0 := rfl
  obtain ⟨w', hrun, hout, habs⟩ := listLoop_serves (t := t) hS hshort (by omega) rfl (hzero ▸ Nat.zero_le _) (n := n)
    (by omega)
  exact ⟨0, w', _, hrun, hout, .list ns _ (hS.nodup _ _) (hS.mem _ _), habs⟩

theorem doPut_done (hS : Serves lib abs keys) {n : ℕ} (hn : 65536 ≤ n) {ns key value : List Byte}
    (hmax : value.length ≤ 65535) (w : Fapp σ) : Done t abs (.put ns key value) w (doPut t lib.toLibrary ns key n value w) := by
  obtain ⟨w', hrun, hout, habs⟩ := doPut_serves (t := t) hS hmax (n := n) (by omega) w
  exact ⟨0, w', _, hrun, hout, .put ns key value, habs⟩

/-! ### main -/

/-- A question mark begins no command. -/
theorem isCmd_question {cmd word : List Byte} (h : cmd.head? = some 0x3f) (hword : word.head?.map upper ≠ some 0x3f) :
    isCmd cmd word = false := by
  cases cmd with
  | nil => cases h
  | cons a as =>
    obtain rfl : a = 0x3f := by simpa using h
    cases word with
    | nil => rfl
    | cons b bs =>
      have hne : ¬ upper 0x3f = upper b := fun heq => hword (by rw [List.head?_cons, Option.map_some, ← heq]; rfl)
      rw [isCmd, decide_eq_false hne, Bool.false_and]

theorem doCommand_done (hS : Serves lib abs keys) {budget n : ℕ} {w : Fapp σ} (hfit : Fits abs keys budget w.service)
    (hn : 65536 ≤ n) {c : Command} (hc : c.Fits) : Done t abs c w (doCommand t lib n c w) := by
  cases c with
  | list ns => exact doList_done hS hfit hn ns
  | stat ns key => exact doStat_done hS ns key w
  | get ns key => exact doGet_done hS hfit hn ns key
  | put ns key value => exact doPut_done hS hn hc.2 w
  | delete ns key => exact doDelete_done hS ns key w
  | usage => exact usage_done w

/-- What is typed fits its arrays. -/
theorem runInteractive_wp (t : Target) (s : Console.Screen) : wp (runInteractive t) (fun c _ => c.Fits) (fun _ => True) s := by
  have hask : ∀ (prompt : String) {size : ℕ} (s : Console.Screen), 0 < size →
      wp (Console.ask t prompt size) (fun line _ => line.length < size) (fun _ => True) s := fun prompt _ s hsize =>
    (Console.ask_wp t prompt hsize s).mono (fun _ _ => id) fun _ => False.elim
  rw [runInteractive]
  refine wp.seq (hask _ s (by decide)) fun cmd s₁ _ => wp_ite (fun _ => trivial) fun _ => ?_
  refine wp.seq (hask _ s₁ (by decide)) fun ns s₂ _ => wp_ite (fun _ => trivial) fun _ => ?_
  refine wp_ite (fun _ => trivial) fun _ => ?_
  refine wp.seq (hask _ s₂ (by decide)) fun key s₃ hkey => wp_ite (fun _ => trivial) fun _ => ?_
  refine wp_ite (fun _ => trivial) fun _ => wp_ite (fun _ => trivial) fun _ => wp_ite (fun _ => trivial) fun _ => ?_
  refine wp_ite (fun _ => ?_) fun _ => trivial
  refine wp.seq (hask _ s₃ (by decide)) fun value s₄ hvalue => ⟨hkey, ?_⟩
  change value.length < 420 at hvalue
  omega

theorem prompted_fits (t : Target) {args : List (List Byte)} (hargs : (command args).Fits) (typed : List Byte) :
    (prompted t args typed).2.Fits := by
  rw [prompted]
  split_ifs with h
  · cases hasked : (Console.asked (runInteractive t) typed).2 with
    | none => trivial
    | some c => exact Console.asked_wp (runInteractive_wp t) hasked
  · exact hargs

theorem print_nil (w : Fapp σ) : w.print [] = w := by rw [Fapp.print, List.append_nil]

theorem fapp_done (hS : Serves lib abs keys) {budget n : ℕ} {w : Fapp σ} (hfit : Fits abs keys budget w.service)
    (hn : 65536 ≤ n) (args : List (List Byte)) (hargs : (command args).Fits) (typed : List Byte) :
    Done t abs (prompted t args typed).2 (w.print (prompted t args typed).1) (fapp t lib n args typed w) := by
  have hfits := prompted_fits t hargs typed
  by_cases hasks : args = [] ∧ t = .atari
  · rw [prompted, if_pos hasks] at hfits ⊢
    obtain ⟨rfl, ht⟩ := hasks
    rw [fapp, if_pos ht]
    exact doCommand_done (w := w.print (Console.asked (runInteractive t) typed).1) hS hfit hn hfits
  · rw [prompted, if_neg hasks, print_nil]
    rcases args with _ | ⟨cmd, _ | ⟨ns, _ | ⟨key, _ | ⟨value, _ | ⟨x, rest⟩⟩⟩⟩⟩
    · rw [fapp, if_neg fun ht => hasks ⟨rfl, ht⟩]
      exact usage_done w
    · exact usage_done w
    · rw [fapp]
      by_cases hq : cmd.head? = some 0x3f
      · rw [if_pos hq, command, isCmd_question hq (by decide)]
        exact usage_done w
      · rw [if_neg hq, command]
        split_ifs with hlist
        · exact doList_done hS hfit hn ns
        · exact usage_done w
    · rw [fapp]
      by_cases hq : cmd.head? = some 0x3f
      · rw [if_pos hq, command, isCmd_question hq (by decide), isCmd_question hq (by decide), isCmd_question hq (by decide),
          isCmd_question hq (by decide)]
        exact usage_done w
      · rw [if_neg hq, command]
        split_ifs with hstat hget hdel
        · exact doStat_done hS ns key w
        · exact doGet_done hS hfit hn ns key
        · exact doDelete_done hS ns key w
        · exact usage_done w
    · rw [fapp]
      by_cases hq : cmd.head? = some 0x3f
      · rw [if_pos hq, command, isCmd_question hq (by decide)]
        exact usage_done w
      · rw [if_neg hq]
        rw [command] at hargs ⊢
        split_ifs at hargs ⊢ with hput
        · exact doPut_done hS hn hargs.2 w
        · exact usage_done w
    · exact usage_done w

/-! ### Command lines one after another -/

/-- A value in the store was there before, or PUT just stored it. -/
theorem next_eq_some {c : Command} {m : Store} {p : List Byte × List Byte} {v : List Byte} (h : c.next m p = some v) :
    m p = some v ∨ ∃ ns key, c = .put ns key v ∧ p = (ns, key) := by
  cases c with
  | put ns key value =>
    rw [Command.next, Function.update_apply] at h
    split_ifs at h with hp
    · cases h
      exact Or.inr ⟨ns, key, rfl, hp⟩
    · exact Or.inl h
  | delete ns key =>
    rw [Command.next, Function.update_apply] at h
    split_ifs at h with hp
    exact Or.inl h
  | list ns => exact Or.inl h
  | stat ns key => exact Or.inl h
  | get ns key => exact Or.inl h
  | usage => exact Or.inl h

/-- The key that PUT stores. -/
def Command.added : Command → List Byte
  | .put _ key _ => key
  | _ => []

/-- A command adds one key at most. -/
theorem eq_added {c : Command} {m : Store} {ns key : List Byte} (h : c.next m (ns, key) ≠ none) :
    key = c.added ∨ m (ns, key) ≠ none := by
  obtain ⟨v, hv⟩ := Option.ne_none_iff_exists'.1 h
  rcases next_eq_some hv with hold | ⟨ns', key', rfl, hp⟩
  · exact Or.inr (by simp [hold])
  · cases hp
    exact Or.inl rfl

theorem Fits.next (hS : Serves lib abs keys) {budget : ℕ} {s s' : σ} (h : Fits abs keys (budget + 1) s) {c : Command}
    (hc : c.Fits) (habs : abs s' = c.next (abs s)) : Fits abs keys budget s' where
  values p v hv := by
    rw [habs] at hv
    rcases next_eq_some hv with hold | ⟨ns, key, rfl, -⟩
    · exact h.values p v hold
    · exact hc.2
  short ns key hne := by
    rw [habs] at hne
    obtain ⟨v, hv⟩ := Option.ne_none_iff_exists'.1 hne
    rcases next_eq_some hv with hold | ⟨ns', key', rfl, hp⟩
    · exact h.short ns key (by simp [hold])
    · cases hp
      exact hc.1
  few ns := by
    have hsub : keys s' ns ⊆ c.added :: keys s ns := by
      intro key hkey
      rw [hS.mem, habs] at hkey
      rcases eq_added hkey with rfl | hold
      · exact List.mem_cons_self
      · exact List.mem_cons_of_mem _ ((hS.mem _ _ _).2 hold)
    have hle := ((hS.nodup s' ns).subperm hsub).length_le
    have := h.few ns
    rw [List.length_cons] at hle
    omega

theorem fapp_refines (t : Target) (lib : Calls σ) (abs : σ → Store) (keys : σ → List Byte → List (List Byte))
    (hS : Serves lib abs keys) (lines : List (List (List Byte) × List Byte)) (hlines : ∀ line ∈ lines, (command line.1).Fits)
    (w : Fapp σ) (hfit : Fits abs keys lines.length w.service) (n : ℕ) (hn : 65536 ≤ n) :
    ∃ codes w' out, session t lib n lines w = some (codes, w') ∧ w'.out = w.out ++ out ∧
      Prints t (abs w.service) (lines.map fun line => prompted t line.1 line.2) codes out ∧
        abs w'.service = lines.foldl (fun m line => (prompted t line.1 line.2).2.next m) (abs w.service) := by
  induction lines generalizing w with
  | nil => exact ⟨[], w, [], rfl, (List.append_nil _).symm, .nil _, rfl⟩
  | cons line lines ih =>
    obtain ⟨args, typed⟩ := line
    have hargs := hlines (args, typed) List.mem_cons_self
    obtain ⟨code, w₁, out₁, hrun, hout, hprints, habs⟩ := fapp_done (t := t) hS hfit hn args hargs typed
    have hfit₁ := hfit.next hS (prompted_fits t hargs typed) habs
    obtain ⟨codes, w', outs, hrest, houts, hprints', habs'⟩ := ih (fun a ha => hlines a (List.mem_cons_of_mem _ ha)) w₁ hfit₁
    refine ⟨code :: codes, w', (prompted t args typed).1 ++ out₁ ++ outs, ?_, ?_, ?_, ?_⟩
    · rw [session, hrun]
      simp only [hrest, Option.bind_eq_bind, Option.bind_some]
      rfl
    · rw [houts, hout, Fapp.print, List.append_assoc, List.append_assoc, List.append_assoc]
    · exact .cons hprints (habs ▸ hprints')
    · rw [habs', habs]
      rfl

/-! ### A service -/

abbrev Cabinet := AList fun _ : List Byte × List Byte => List Byte

def cabinetKeys (s : Cabinet) (ns : List Byte) : List (List Byte) := (s.keys.filter fun p => p.1 = ns).map Prod.snd

/-- A service that takes at most three bytes of a write, gives at most two to a read, and lists
one key at a time, as its length and its bytes. -/
def cabinet : Calls Cabinet where
  write ns key offset data s :=
    let old := if offset = 0 then [] else (s.lookup (ns, key)).getD []
    (.ok (BitVec.ofNat 16 (min 3 data.length)), s.insert (ns, key) (old ++ data.take (min 3 data.length)))
  read ns key offset _ s :=
    match s.lookup (ns, key) with
    | none => (.ok ⟨false, false, 0, fun _ => 0⟩, s)
    | some v =>
      let bs := (v.drop offset.toNat).take 2
      (.ok ⟨true, offset.toNat + bs.length = v.length, BitVec.ofNat 16 bs.length, fun i => bs.getD i 0⟩, s)
  errorString _ := []
  stat ns key s := (.ok ⟨(s.lookup (ns, key)).isSome, (s.lookup (ns, key)).elim 0 List.length, 0⟩, s)
  delete ns key s := (.ok (s.lookup (ns, key)).isSome, s.erase (ns, key))
  list ns start _ s :=
    let page := ((cabinetKeys s ns).drop start.toNat).take 1
    let data := BitVec.ofNat 8 (page.headD []).length :: page.headD []
    (.ok ⟨start.toNat + page.length < (cabinetKeys s ns).length, BitVec.ofNat 16 page.length,
      BitVec.ofNat 16 data.length, fun i => data.getD i 0⟩, s)
  nextKey data _ off _ :=
    .ok (slice data (off.toNat + 1) (data off.toNat).toNat, off + 1 + (data off.toNat).setWidth 16)

def cabinetStore (s : Cabinet) : Store := fun p => s.lookup p

theorem nodup_cabinetKeys (s : Cabinet) (ns : List Byte) : (cabinetKeys s ns).Nodup := by
  refine List.Nodup.map_on (fun p hp q hq hpq => ?_) (s.keys_nodup.filter _)
  have hp' : p.1 = ns := by simpa using (List.mem_filter.1 hp).2
  have hq' : q.1 = ns := by simpa using (List.mem_filter.1 hq).2
  exact Prod.ext (hp'.trans hq'.symm) hpq

theorem mem_cabinetKeys (s : Cabinet) (ns key : List Byte) : key ∈ cabinetKeys s ns ↔ cabinetStore s (ns, key) ≠ none := by
  rw [cabinetStore, ne_eq, AList.lookup_eq_none, not_not, AList.mem_keys, cabinetKeys, List.mem_map]
  constructor
  · rintro ⟨p, hp, rfl⟩
    obtain ⟨hmem, hns⟩ := List.mem_filter.1 hp
    obtain rfl : p.1 = ns := by simpa using hns
    exact hmem
  · intro hmem
    exact ⟨(ns, key), List.mem_filter.2 ⟨hmem, by simp⟩, rfl⟩

theorem cabinetStore_insert (s : Cabinet) (p : List Byte × List Byte) (v : List Byte) :
    cabinetStore (s.insert p v) = Function.update (cabinetStore s) p (some v) := by
  funext q
  rw [Function.update_apply]
  split_ifs with h
  · subst h
    exact AList.lookup_insert s
  · exact AList.lookup_insert_ne h

theorem cabinetStore_erase (s : Cabinet) (p : List Byte × List Byte) :
    cabinetStore (s.erase p) = Function.update (cabinetStore s) p none := by
  funext q
  rw [Function.update_apply]
  split_ifs with h
  · subst h
    exact AList.lookup_erase q s
  · exact AList.lookup_erase_ne h

theorem isSome_iff_ne_none (o : Option (List Byte)) : o.isSome = true ↔ o ≠ none := by
  cases o <;> simp

theorem cabinet_nextKey {k : List Byte} (hk : k.length < 2 ^ 8) (len cap : Word) :
    cabinet.nextKey (fun i => (BitVec.ofNat 8 k.length :: k).getD i 0) len 0 cap =
      .ok (k, 0 + 1 + (BitVec.ofNat 8 k.length).setWidth 16) := by
  have hlen : (BitVec.ofNat 8 k.length).toNat = k.length := by
    rw [BitVec.toNat_ofNat, Nat.mod_eq_of_lt hk]
  have hkey : slice (fun i => (BitVec.ofNat 8 k.length :: k).getD i 0) 1 k.length = k := by
    apply List.ext_getElem (length_slice ..)
    intro i hi hi'
    rw [getElem_slice, Nat.add_comm, List.getD_eq_getElem?_getD, List.getElem?_cons_succ, List.getElem?_eq_getElem hi',
      Option.getD_some]
  change Except.ok (slice _ 1 (BitVec.ofNat 8 k.length).toNat, _) = _
  rw [hlen, hkey]
  rfl

theorem cabinet_serves : Serves cabinet cabinetStore cabinetKeys where
  nodup := nodup_cabinetKeys
  mem := mem_cabinetKeys
  start s ns key data _ := by
    have hk := shelf_takes data
    refine ⟨_, _, rfl, fun hne => ?_, by omega, ?_⟩
    · have := List.length_pos_of_ne_nil hne
      omega
    · rw [hk]
      exact cabinetStore_insert s _ _
  append s ns key v data hv hlen hne _ := by
    have hpos := List.length_pos_of_ne_nil hne
    have hk := shelf_takes data
    refine ⟨_, _, rfl, by omega, by omega, ?_⟩
    have hold : (if BitVec.ofNat 32 v.length = 0 then [] else (s.lookup (ns, key)).getD []) = v := by
      have hs : s.lookup (ns, key) = some v := hv
      split_ifs with h0
      · have hnat := congrArg BitVec.toNat h0
        rw [BitVec.toNat_ofNat, Nat.mod_eq_of_lt hlen] at hnat
        exact (List.length_eq_zero_iff.1 hnat).symm
      · rw [hs]
        rfl
    rw [hk]
    refine (cabinetStore_insert s _ _).trans ?_
    rw [hold]
  missing s ns key h := by
    have hs : s.lookup (ns, key) = none := h
    exact ⟨⟨false, false, 0, fun _ => 0⟩, s, by simp only [cabinet, hs], rfl, rfl⟩
  read s ns key v offset hv hle := by
    have hs : s.lookup (ns, key) = some v := hv
    have hlen : ((v.drop offset.toNat).take 2).length = min 2 (v.length - offset.toNat) := by
      rw [List.length_take, List.length_drop]
    have hk : (BitVec.ofNat 16 ((v.drop offset.toNat).take 2).length).toNat = ((v.drop offset.toNat).take 2).length := by
      rw [BitVec.toNat_ofNat]
      omega
    have hrun : cabinet.read ns key offset chunkSize s =
        (.ok ⟨true, offset.toNat + ((v.drop offset.toNat).take 2).length = v.length,
          BitVec.ofNat 16 ((v.drop offset.toNat).take 2).length, fun i => ((v.drop offset.toNat).take 2).getD i 0⟩, s) := by
      simp only [cabinet, hs]
    refine ⟨_, s, hrun, rfl, ?_⟩
    dsimp only
    rw [hk]
    refine ⟨fun hlt => by omega, by omega, ?_, by simp, rfl⟩
    rw [slice_getD, hlen, ← List.length_drop, ← List.take_eq_take_min]
  stat s ns key := ⟨_, s, rfl, isSome_iff_ne_none _, rfl, rfl⟩
  delete s ns key := ⟨_, _, rfl, isSome_iff_ne_none _, cabinetStore_erase s _⟩
  list s ns start hshort hstart := by
    have hone : (((cabinetKeys s ns).drop start.toNat).take 1).length = min 1 ((cabinetKeys s ns).length - start.toNat) := by
      rw [List.length_take, List.length_drop]
    have hcount : (BitVec.ofNat 16 (((cabinetKeys s ns).drop start.toNat).take 1).length).toNat =
        (((cabinetKeys s ns).drop start.toNat).take 1).length := by
      rw [BitVec.toNat_ofNat]
      omega
    refine ⟨_, s, rfl, ?_⟩
    dsimp only
    rw [hcount]
    refine ⟨by omega, by simp, fun hmore => ?_, ?_, rfl, rfl⟩
    · have : start.toNat + (((cabinetKeys s ns).drop start.toNat).take 1).length < (cabinetKeys s ns).length := by
        simpa using hmore
      omega
    · cases hrest : (cabinetKeys s ns).drop start.toNat with
      | nil => trivial
      | cons k rest =>
        have hk : k ∈ cabinetKeys s ns := List.mem_of_mem_drop (hrest ▸ List.mem_cons_self)
        have hlt : k.length < 2 ^ 8 := lt_trans (hshort k hk) (by decide)
        exact ⟨_, cabinet_nextKey hlt _ _, trivial⟩

/-- `FAPP PUT a k HELLO`, `FAPP` with GET, `a` and `k` typed, `FAPP DEL a k` and `FAPP GET a k`. -/
def visit : List (List (List Byte) × List Byte) :=
  [([ascii "PUT", ascii "a", ascii "k", hello], []), ([], ascii "get" ++ [0x9b] ++ ascii "a" ++ [0x9b] ++ ascii "k" ++ [0x9b]),
    ([ascii "DEL", ascii "a", ascii "k"], []), ([ascii "GET", ascii "a", ascii "k"], [])]

theorem fapp_refines_visit : ∃ codes w' out, session .atari cabinet 65536 visit ⟨∅, [], []⟩ = some (codes, w') ∧
    w'.out = [] ++ out ∧ Prints .atari (cabinetStore ∅) (visit.map fun line => prompted .atari line.1 line.2) codes out ∧
      cabinetStore w'.service =
        visit.foldl (fun m line => (prompted .atari line.1 line.2).2.next m) (cabinetStore ∅) := by
  have hnone : ∀ p, cabinetStore ∅ p = none := AList.lookup_empty
  refine fapp_refines .atari cabinet cabinetStore cabinetKeys cabinet_serves visit ?_ ⟨∅, [], []⟩ ?_ 65536 le_rfl
  · intro line hline
    simp only [visit, List.mem_cons, List.not_mem_nil, or_false] at hline
    rcases hline with rfl | rfl | rfl | rfl
    · exact ⟨by decide, by decide⟩
    all_goals trivial
  · refine ⟨fun p v hv => ?_, fun ns key hne => absurd (hnone _) hne, fun ns => ?_⟩
    · rw [hnone] at hv
      cases hv
    · change 0 + 4 < 2 ^ 16
      decide

example : (visit.map fun line => (prompted .atari line.1 line.2).2) =
    [.put (ascii "a") (ascii "k") hello, .get (ascii "a") (ascii "k"), .delete (ascii "a") (ascii "k"),
      .get (ascii "a") (ascii "k")] := by
  decide

end NioApps.AppStore
