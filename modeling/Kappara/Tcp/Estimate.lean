import Kappara.Tcp.Output

/-! The round-trip estimator (tcp_update_rtt of uts/os/net/tcp.c). -/

set_option autoImplicit false

namespace Kappara.Tcp

variable {s : Tcb} {sample : Word} {M : Nat}

/-- What tcp_update_rtt computes fits into 32 bits: the signed difference, both weighted sums and the timeout. -/
def Exact (s : Tcb) (sample : Word) : Prop :=
  (s.rttValid = true → sample.toNat < 2 ^ 31 ∧ s.srttTicks.toNat < 2 ^ 31 ∧
    7 * s.srttTicks.toNat + sample.toNat < 2 ^ 32 ∧
    3 * s.rttvarTicks.toNat + ((sample.toNat : Int) - s.srttTicks.toNat).natAbs < 2 ^ 32) ∧
  (tcpUpdateRtt s sample).srttTicks.toNat + 4 * (tcpUpdateRtt s sample).rttvarTicks.toNat < 2 ^ 32

/-- The estimate, if there is one, rests on samples of at most M ticks. -/
def Estimated (M : Nat) (s : Tcb) : Prop := s.rttValid = true → s.srttTicks.toNat ≤ M ∧ s.rttvarTicks.toNat ≤ M

theorem clampRto_toNat (rto : Word) : (clampRto rto).toNat = min 6000 (max 100 rto.toNat) := by
  simp only [clampRto, tcpRtoMin, tcpRtoMax, BitVec.lt_def]
  split_ifs <;> bv_omega

theorem deviation_le {a b : Word} (small : M < 2 ^ 27) (first : a.toNat ≤ M) (second : b.toNat ≤ M) :
    (if (a - b).toInt < 0 then -(a - b) else a - b).toNat ≤ M := by
  have negative := @BitVec.toInt_neg_iff 32 (a - b)
  split <;> bv_omega

theorem weighted_le {j : Nat} {k a b : Word} (weight : k.toNat + 1 = 2 ^ j) (first : a.toNat ≤ M)
    (second : b.toNat ≤ M) : ((k * a + b) >>> j).toNat ≤ M := by
  rw [BitVec.toNat_ushiftRight, Nat.shiftRight_eq_div_pow, ← weight]
  apply Nat.div_le_of_le_mul
  calc (k * a + b).toNat ≤ k.toNat * a.toNat + b.toNat := by
        rw [BitVec.toNat_add, BitVec.toNat_mul]
        exact (Nat.mod_le ..).trans (Nat.add_le_add_right (Nat.mod_le ..) _)
    _ ≤ (k.toNat + 1) * M := by
        rw [Nat.succ_mul]
        exact Nat.add_le_add (Nat.mul_le_mul_left _ first) second

theorem Estimated.update (small : M < 2 ^ 27) (fits : sample.toNat ≤ M) (old : Estimated M s) :
    (tcpUpdateRtt s sample).srttTicks.toNat ≤ M ∧ (tcpUpdateRtt s sample).rttvarTicks.toNat ≤ M := by
  rw [tcpUpdateRtt]
  cases valid : s.rttValid with
  | false => exact ⟨fits, (Nat.div_le_self ..).trans fits⟩
  | true =>
    obtain ⟨srtt, var⟩ := old valid
    exact ⟨weighted_le (by decide) srtt fits, weighted_le (by decide) var (deviation_le small fits srtt)⟩

theorem Estimated.foldl (small : M < 2 ^ 27) {samples : List Word} (fit : ∀ x ∈ samples, x.toNat ≤ M)
    (old : Estimated M s) : Estimated M (samples.foldl tcpUpdateRtt s) := by
  induction samples generalizing s with
  | nil => exact old
  | cons x rest ih =>
    rw [List.forall_mem_cons] at fit
    exact ih fit.2 fun _ => old.update small fit.1

/-- Each sample of a sequence is taken without overflow; the estimate stays within the largest sample seen, and the
timeout within its bounds and above the mean. -/
theorem estimates_bounded (s : Tcb) (none : s.rttValid = false) (seen : List Word) (sample : Word) (M : Nat)
    (small : M < 2 ^ 27) (fit : ∀ x ∈ sample :: seen, x.toNat ≤ M) :
    Exact (seen.foldl tcpUpdateRtt s) sample ∧ ∃ t, tcpUpdateRtt (seen.foldl tcpUpdateRtt s) sample = t ∧
      t.srttTicks.toNat ≤ M ∧ t.rttvarTicks.toNat ≤ M ∧
      100 ≤ t.rtoTicks.toNat ∧ t.rtoTicks.toNat ≤ 6000 ∧ min 6000 t.srttTicks.toNat ≤ t.rtoTicks.toNat := by
  rw [List.forall_mem_cons] at fit
  have before : Estimated M (seen.foldl tcpUpdateRtt s) := .foldl small fit.2 fun valid => absurd valid (by simp [none])
  obtain ⟨srtt, var⟩ := before.update small fit.1
  have rto := clampRto_toNat ((tcpUpdateRtt (seen.foldl tcpUpdateRtt s) sample).srttTicks +
    4 * (tcpUpdateRtt (seen.foldl tcpUpdateRtt s) sample).rttvarTicks)
  refine ⟨⟨fun valid => ?_, by omega⟩, _, rfl, srtt, var, ?_⟩
  · have := before valid
    omega
  · change BitVec.toNat (tcpUpdateRtt _ _).rtoTicks = _ at rto
    bv_omega

/-- Two samples of a fresh block. -/
theorem estimates_bounded_fresh : Exact (tcpUpdateRtt tcpQopen 8#32) 24#32 :=
  (estimates_bounded tcpQopen rfl [8#32] 24#32 24 (by norm_num) (by simp)).1

end Kappara.Tcp
