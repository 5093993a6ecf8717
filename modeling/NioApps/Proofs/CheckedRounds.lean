import NioApps.Sanity.Rounds

/-! HSIONET against any peer: it reports bad data when, and only when, it got something
else than the server's answers, and it counts no round without the whole answer. -/

namespace NioApps.Stress

theorem bad_data_iff {w : Session} (h : w.Reachable) :
    ∃ k, w.client.rounds = BitVec.ofNat 16 k ∧ replies k <+: w.got ∧
      ((∃ i, w.client.stage = .stopped (.badData i)) ↔ ¬ ∃ m, w.got <+: replies m) ∧
      ∀ i, w.client.stage = .stopped (.badData i) →
        w.got.take ((replies k).length + i) <+: replies (k + 1) ∧
          w.got[(replies k).length + i]? ≠ (replies (k + 1))[(replies k).length + i]? := by
  obtain ⟨k, hk⟩ := exists_inv h
  refine ⟨k, hk.rounds, hk.counted, ⟨fun hbad => ?_, fun hdiff => ?_⟩, fun i hstage => ?_⟩
  · obtain ⟨i, hstage⟩ := hbad
    obtain ⟨x, hgot, hi, hx, -, hne⟩ := hk.bad hstage
    rintro ⟨m, hm⟩
    exact not_prefix_of_bad hgot hi hx hne m hm
  · by_contra hgood
    rw [not_exists] at hgood
    exact hdiff ⟨k + 1, hk.got_prefix hgood⟩
  · obtain ⟨x, hgot, hi, hx, hfirst, hne⟩ := hk.bad hstage
    rw [hgot, replies_succ, List.take_append, List.take_of_length_le (by omega), Nat.add_sub_cancel_left, hfirst,
      List.getElem?_append_right (by omega), List.getElem?_append_right (by omega), Nat.add_sub_cancel_left]
    exact ⟨(List.prefix_append_right_inj _).2 (List.take_prefix _ _), hne⟩

/-- A client whose first request was answered with a wrong byte. -/
def wrongByte : Session :=
  ⟨{ Client.start with woff := 1, stage := .stopped (.badData 0) }, [0], [5]⟩

theorem wrongByte_reachable : wrongByte.Reachable := by
  have h1 : Session.Step .start (.wrote .ok 1 0) ⟨{ Client.start with woff := 1, pending := true, stage := .poll }, [0], []⟩ :=
    .step rfl (by decide)
  have h2 : Session.Step ⟨{ Client.start with woff := 1, pending := true, stage := .poll }, [0], []⟩ (.polled false 0 0)
      ⟨{ Client.start with woff := 1, stage := .read }, [0], []⟩ := .step rfl (by decide)
  have h3 : Session.Step ⟨{ Client.start with woff := 1, stage := .read }, [0], []⟩
      (.received .ok [5] ⟨false, false⟩ false) wrongByte := .step rfl (by decide)
  exact ((Relation.ReflTransGen.single ⟨_, h1⟩).tail ⟨_, h2⟩).tail ⟨_, h3⟩

theorem bad_data_iff_wrong_byte : ¬ ∃ m, wrongByte.got <+: replies m := by
  obtain ⟨k, -, -, hiff, -⟩ := bad_data_iff wrongByte_reachable
  exact hiff.1 ⟨0, rfl⟩

end NioApps.Stress
