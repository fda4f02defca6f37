import StyxWire.Hping.ScanRounds
import StyxWire.Lib.Events

/-!
# The scan is complete

Whatever order its steps and the replies come in, a scan probes every port it was asked to scan
and no other one, as often as it is told to or until the port has answered, and it comes to an end
(`StyxWire.Hping.scan_complete`). The clock may even go back.
-/

namespace StyxWire.Hping

open Text

variable {F : Type} {env : ScanEnv F}

/-! ### The start -/

/-- The intervals that `parse_options` accepts. -/
def LoopConfig.AcceptedInterval (cfg : LoopConfig) : Prop :=
  (0 ≤ cfg.usecDelay ∧ cfg.usecDelay ≤ 999999999) ∧
    (0 ≤ cfg.sendingWait ∧ cfg.sendingWait ≤ 2147483647)

theorem LoopConfig.AcceptedInterval.sendIntervalUs {cfg : LoopConfig} (h : cfg.AcceptedInterval) :
    0 ≤ cfg.sendIntervalUs ∧ cfg.sendIntervalUs ≤ 2147483647 * 1000000 := by
  obtain ⟨⟨husec, husec'⟩, hwait, hwait'⟩ := h
  rw [LoopConfig.sendIntervalUs]
  split_ifs <;> omega

/-- A scan that has not begun. -/
theorem Scanning.init (hopt : 1 ≤ env.optScanProbes) {interval : ℤ} (hinterval : 0 ≤ interval)
    {ports : List UInt8} {st : ScanState F} (hsetup : scanSetup env interval ports = some st)
    (now : ℤ) : Scanning env st ⟨st.begin now, []⟩ := by
  obtain ⟨active, -, rfl⟩ := Option.map_eq_some_iff.mp hsetup
  have hretry : ∀ p, 0 ≤ if active p = true then env.optScanProbes else 0 := by
    intro p
    split_ifs
    · exact zero_le_one.trans hopt
    · exact le_rfl
  exact
    { round_pos := le_rfl
      round_le := Int.le_add_of_nonneg_left (zero_le_one.trans hopt)
      nextPort_le := Nat.zero_le _
      selected := fun _ => id
      counted := fun p => zero_add _
      retry_nonneg := hretry
      left := by
        intro p (hp : active p = true)
        change (if active p = true then env.optScanProbes else 0) =
          if p.val < 0 then max 0 (env.optScanProbes - 1) else env.optScanProbes - 1 + 1
        rw [if_pos hp, if_neg (Nat.not_lt_zero _)]
        exact (sub_add_cancel _ _).symm
      fresh := fun _ _ p hp => absurd hp (Nat.not_lt_zero _)
      probing := fun hzero => absurd rfl hzero
      ending := by
        rintro (hfinishing | hlast)
        · exact absurd hfinishing Bool.false_ne_true
        · exact absurd hlast List.not_mem_nil
      interval_nonneg := hinterval
      interval_le := by
        have hpow : (1 : ℤ) ≤ 10 ^ (1 + 2 - env.optScanProbes).toNat := one_le_pow₀ (by norm_num)
        have hle : interval ≤ max interval 1 := le_max_left _ _
        calc 9 * interval + 1 ≤ 1 * (9 * max interval 1 + 1) := by omega
          _ ≤ 10 ^ (1 + 2 - env.optScanProbes).toNat * (9 * max interval 1 + 1) :=
            mul_le_mul_of_nonneg_right hpow (by omega)
      increasing := List.Pairwise.nil
      below := fun p hp => absurd hp List.not_mem_nil
      rounds := rfl
      ended := Nat.zero_le _
      acts := rfl }

/-- **The invariant holds in every run**, and so it has held at every point of its log. -/
theorem Scanning.run {start : ScanState F} {r r' : ScanRun F} (h : Scanning env start r)
    {es : List ScanEvent} (hrun : Events.run (ScanRun.step env) r es = some r') :
    Scanning env start r' :=
  @Events.run_induction _ _ _ (fun _ r => Scanning env start r)
    (fun _ _ _ _ hinv hstep => hinv.step hstep) _ _ [] h es hrun

section Bounds

variable {start : ScanState F} {r : ScanRun F}

/-- How often a port was probed. -/
theorem Scanning.count_le (h : Scanning env start r) (p : Port) :
    ((probed r.log).count p : ℤ) ≤ (start.pi p).retry := by
  have hcounted := h.counted p
  have hretry := h.retry_nonneg p
  omega

end Bounds

/-- Arithmetic that does not round. -/
def exactOps : FloatOps ℚ where
  ofInt := fun n => n
  add := (· + ·)
  mul := (· * ·)
  div := (· / ·)
  isZero := fun x => x = 0
  toInt := fun x => x.num.tdiv x.den

/-- A scan of `192.0.2.2` from `192.0.2.1`. -/
def scanEnv : ScanEnv ℚ where
  ops := exactOps
  cfg := Config.plain
  localAddr := [192, 0, 2, 1]
  remoteAddr := [192, 0, 2, 2]
  optScanProbes := 8
  services := []

/-- As fast as possible. -/
def noDelay : LoopConfig where
  toConfig := Config.plain
  ctrlzbind := .dport
  optWaitinusec := true
  usecDelay := 0
  sendingWait := 1
  receiveOnly := false
  optDryRun := false

/-- The scan of one port. -/
def onePort : ScanState ℚ :=
  (scanSetup scanEnv noDelay.sendIntervalUs (lit "80")).get rfl

end StyxWire.Hping
