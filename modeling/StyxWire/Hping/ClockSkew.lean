import StyxWire.Hping.TcpTimestamp
import StyxWire.Lib.Outcome

/-!
# The estimation of a clock

`print_tcp_timestamp` and `clock_skew`, with the divisions and the places of their four arrays
checked (`StyxWire.Hping.ClockFault`): a cell of an array can be read if it was written, and if it
is there. The arrays grow as long as there is memory.

No place is wrong, in any run, and the divisors are the ones of the model of the output
(`StyxWire.Hping.SkewState.apart_iff`). What can be zero are differences of the readings of
the clock (`StyxWire.Hping.clock_faults`).
-/

namespace StyxWire.Hping

/-! ### Arrays and divisions -/

/-- What must not happen. -/
inductive ClockFault
  /-- A cell is not there, or was not written. -/
  | index
  /-- By zero. -/
  | division
  deriving DecidableEq

/-- The cells of an array; one that was not written has nothing. -/
abbrev Cells := List (Option ℤ)

/-- What is in a cell. -/
def Cells.value (c : Cells) (i : ℕ) : ℤ := (c.getD i none).getD 0

def Cells.read (c : Cells) (i : ℤ) : Except ClockFault ℤ :=
  if 0 ≤ i ∧ (c.getD i.toNat none).isSome then .ok (c.value i.toNat) else .error .index

def Cells.write (c : Cells) (i v : ℤ) : Except ClockFault Cells :=
  if 0 ≤ i ∧ i < c.length then .ok (c.set i.toNat (some v)) else .error .index

/-- `realloc`, and `malloc` if there was nothing. -/
def Cells.realloc (c : Cells) (n : ℕ) : Cells := c.take n ++ List.replicate (n - c.length) none

def quotient (a b : ℤ) : Except ClockFault ℤ :=
  if b = 0 then .error .division else .ok (a.tdiv b)

/-! ### The code -/

/-- The options that are accepted. -/
structure SkewConfig extends FormatConfig where
  window_ge : 30 ≤ csWindow
  window_le : csWindow ≤ 2 ^ 31 - 1
  shift_ge : 1 ≤ csWindowShift
  shift_le : csWindowShift ≤ 2 ^ 31 - 1
  vector_ge : 1 ≤ csVectorLen
  vector_le : csVectorLen ≤ 2 ^ 31 - 1

/-- What `clock_skew` prints about the skew. -/
inductive SkewReport
  /-- The skews of the last windows, their average, and that of the skews of the whole range. -/
  | windows (skews : List ℤ) (average whole : ℤ)
  | early (skew : ℤ)
  | notEnough

/-- The static variables of the two functions, and what was printed about the skew. -/
structure SkewState where
  firstTstamp : ℕ
  firstMstime : ℤ
  /-- Empty before `malloc`, as the next one. -/
  deltavect : Cells
  deltartt : Cells
  deltanum : ℕ
  sample : Cells
  samplelocal : Cells
  samplelen : ℕ
  printed : List SkewReport

/-- At the start of the program. -/
def SkewState.init : SkewState := ⟨0, 0, [], [], 0, [], [], 0, []⟩

/-- The shortest round trip time, as an `unsigned long long`. -/
def minRtt (deltartt : Cells) (n : ℕ) : Except ClockFault ℤ := do
  let first ← deltartt.read 0
  (List.range (n - 1)).foldlM (fun minrtt (j : ℕ) => do
    let rtt ← deltartt.read (j + 1)
    return if rtt % 2 ^ 64 < minrtt then rtt % 2 ^ 64 else minrtt) (first % 2 ^ 64)

/-- The sum of the deltas whose round trip is not too long, and their number. -/
def sumDeltas (deltavect deltartt : Cells) (minrtt : ℤ) (n : ℕ) : Except ClockFault (ℤ × ℕ) :=
  (List.range n).foldlM (fun acc (j : ℕ) => do
    let rtt ← deltartt.read j
    if 10 < minrtt ∧ minrtt / 10 < (rtt - minrtt) % 2 ^ 64 then return acc
    else return (acc.1 + (← deltavect.read j), acc.2 + 1)) (0, 0)

/-- A sample is made of the deltas. -/
def SkewState.takeSample (cfg : SkewConfig) (st : SkewState) (now : ℤ) :
    Except ClockFault SkewState := do
  let minrtt ← minRtt st.deltartt cfg.csVectorLen
  let (sum, validpackets) ← sumDeltas st.deltavect st.deltartt minrtt cfg.csVectorLen
  let st := { st with deltanum := 0 }
  if validpackets = 0 then return st
  else
    let sum ← quotient sum validpackets
    let sample ← (st.sample.realloc (st.samplelen + 1)).write st.samplelen sum
    let samplelocal ← (st.samplelocal.realloc (st.samplelen + 1)).write st.samplelen now
    return { st with sample := sample, samplelocal := samplelocal, samplelen := st.samplelen + 1 }

/-- The skew between two samples, in nanoseconds. -/
def SkewState.pairSkew (st : SkewState) (a b : ℤ) : Except ClockFault ℤ := do
  let localdelta := (← st.samplelocal.read a) - (← st.samplelocal.read b)
  let delta := (← st.sample.read a) - (← st.sample.read b)
  quotient (delta * 1000000) localdelta

/-- The search from the right to the left. Behind the first sample there is none. -/
def SkewState.search (st : SkewState) (last window : ℤ) : ℕ → Except ClockFault ℕ
  | 0 => do
    let localdelta := (← st.samplelocal.read last) - (← st.samplelocal.read 0)
    if localdelta < window then .error .index else return 0
  | i + 1 => do
    let localdelta := (← st.samplelocal.read last) - (← st.samplelocal.read (i + 1))
    if localdelta < window then st.search last window i else return i + 1

/-- Whether there is enough data to compute the skew. -/
def SkewState.enough (cfg : SkewConfig) (st : SkewState) : Except ClockFault Bool :=
  if cfg.csWindowShift < st.samplelen then do
    let localdelta := (← st.samplelocal.read (st.samplelen - 1)) -
      (← st.samplelocal.read (cfg.csWindowShift - 1))
    return decide (int32 (cfg.csWindow * 1000) < localdelta)
  else return false

/-- The skew is computed. -/
def SkewState.computeSkew (cfg : SkewConfig) (st : SkewState) : Except ClockFault SkewReport := do
  let last : ℤ := st.samplelen - 1
  let shift := cfg.csWindowShift
  if ← st.enough cfg then
    let i ← st.search last (int32 (cfg.csWindow * 1000)) (st.samplelen - 2)
    let skews ← (List.range shift).reverse.mapM fun (j : ℕ) => st.pairSkew (last - j) (i - j)
    let average ← quotient skews.sum shift
    let whole ← (List.range shift).mapM fun (j : ℕ) => st.pairSkew (last - j) (shift - 1 - j)
    let averageWhole ← quotient whole.sum shift
    return .windows skews average averageWhole
  else if 1 < st.samplelen then return .early (← st.pairSkew last 0)
  else return .notEnough

/-- `clock_skew`, with the readings of the clock for the delta and for the sample. -/
def SkewState.clockSkew (cfg : SkewConfig) (st : SkewState) (hz : ℤ) (tstamp : ℕ)
    (rttms localms samplems : ℤ) : Except ClockFault SkewState := do
  let tstampms := tstamp * (← quotient 1000 hz) % 2 ^ 32
  let st :=
    if st.deltavect = [] then
      { st with
        deltavect := Cells.realloc [] cfg.csVectorLen
        deltartt := Cells.realloc [] cfg.csVectorLen
        deltanum := 0 }
    else st
  let deltavect ← st.deltavect.write st.deltanum (localms - (tstampms - rttms.tdiv 2))
  let deltartt ← st.deltartt.write st.deltanum rttms
  let st :=
    { st with deltavect := deltavect, deltartt := deltartt, deltanum := st.deltanum + 1 }
  let st ← if st.deltanum = cfg.csVectorLen then st.takeSample cfg samplems else pure st
  let report ← st.computeSkew cfg
  return { st with printed := st.printed ++ [report] }

/-- `hzdiff` and `hz`, once another frequency was looked at. -/
def nearer (tsdiff : ℤ) (best : ℤ × ℤ) (hz : ℤ) : ℤ × ℤ :=
  if best.1 = -1 then (|tsdiff - hz|, hz)
  else if |tsdiff - hz| < best.1 then (|tsdiff - hz|, hz)
  else best

/-- The frequency that is nearest, or 0. -/
def nearestHz (tsdiff : ℤ) : ℤ :=
  if 0 < tsdiff then ([2, 10, 100, 1000].foldl (nearer tsdiff) (-1, 0)).2 else 0

/-- A reply: the segment, its round trip time, and the readings of the clock that are made. -/
structure StampedReply where
  tcp : List UInt8
  rttms : ℤ
  /-- In `print_tcp_timestamp`. -/
  mstime : ℤ
  /-- In `clock_skew`, for the delta and for the sample. -/
  localms : ℤ
  samplems : ℤ

/-- `print_tcp_timestamp`. -/
def SkewState.printTcpTimestamp (cfg : SkewConfig) (st : SkewState) (r : StampedReply) :
    Except ClockFault SkewState :=
  match segmentTimestamp r.tcp with
  | none => return st
  | some tstamp =>
    if st.firstTstamp = 0 then
      return { st with firstTstamp := tstamp, firstMstime := r.mstime % 2 ^ 64 }
    else do
      let mswait := (r.mstime - st.firstMstime) % 2 ^ 64
      let tsdiff := int32 (← quotient ((tstamp - st.firstTstamp) % 2 ^ 32 * 1000) mswait)
      let hz := nearestHz tsdiff
      if 0 < tsdiff then let _sec ← quotient tstamp hz
      if 0 < hz ∧ cfg.optClockSkew then
        st.clockSkew cfg hz tstamp r.rttms r.localms r.samplems
      else return st

/-! ### Cells that were written -/

/-- The first `n` cells were written. -/
def Cells.Written (c : Cells) (n : ℕ) : Prop := ∀ i < n, (c.getD i none).isSome = true

theorem Cells.Written.read {c : Cells} {n : ℕ} (h : c.Written n) {a : ℤ} {i : ℕ} (ha : a = i)
    (hi : i < n) : c.read a = .ok (c.value i) := by
  subst ha
  rw [Cells.read, Int.toNat_natCast, if_pos ⟨Int.natCast_nonneg i, h i hi⟩]

theorem Cells.write_of_lt {c : Cells} {i : ℕ} (hi : i < c.length) (v : ℤ) :
    c.write i v = .ok (c.set i (some v)) := by
  rw [Cells.write, if_pos ⟨Int.natCast_nonneg i, by omega⟩, Int.toNat_natCast]

theorem Cells.Written.set {c : Cells} {n : ℕ} (h : c.Written n) (hn : n < c.length) (v : ℤ) :
    Cells.Written (c.set n (some v)) (n + 1) := by
  intro i hi
  rw [List.getD_eq_getElem?_getD, List.getElem?_set]
  by_cases hin : n = i
  · rw [if_pos hin, if_pos (hin ▸ hn)]
    rfl
  · rw [if_neg hin, ← List.getD_eq_getElem?_getD]
    exact h i (by omega)

/-- What is written behind the end of an array that grew by one cell. -/
theorem Cells.realloc_set (c : Cells) (v : ℤ) :
    (c.realloc (c.length + 1)).set c.length (some v) = c ++ [some v] := by
  rw [Cells.realloc, List.take_of_length_le (Nat.le_succ _), Nat.add_sub_cancel_left,
    List.set_append_right _ _ (Nat.le_refl _), Nat.sub_self]
  rfl

theorem Cells.length_realloc (c : Cells) (n : ℕ) : (c.realloc n).length = n := by
  rw [Cells.realloc, List.length_append, List.length_take, List.length_replicate]
  omega

theorem quotient_of_ne {b : ℤ} (hb : b ≠ 0) (a : ℤ) : quotient a b = .ok (a.tdiv b) := if_neg hb

/-! ### Samples -/

theorem minRtt_ends {deltartt : Cells} {n : ℕ} (h : deltartt.Written n) (hn : 0 < n) :
    Outcome.Ends (fun minrtt => ∃ j < n, minrtt = deltartt.value j % 2 ^ 64) (fun _ => False)
      (minRtt deltartt n) := by
  rw [minRtt, h.read (Nat.cast_zero).symm hn]
  refine Outcome.Ends.foldlM (fun minrtt j hj hmin => ?_) ⟨0, hn, rfl⟩
  have hlt : j + 1 < n := by
    have hj' := List.mem_range.mp hj
    omega
  rw [h.read (Nat.cast_succ j).symm hlt]
  by_cases hless : deltartt.value (j + 1) % 2 ^ 64 < minrtt
  · exact ⟨j + 1, hlt, if_pos hless⟩
  · obtain ⟨k, hk, hmin⟩ := hmin
    exact ⟨k, hk, (if_neg hless).trans hmin⟩

/-- Whether a packet is left out. -/
def skipped (deltartt : Cells) (minrtt : ℤ) (j : ℕ) : Bool :=
  10 < minrtt ∧ minrtt / 10 < (deltartt.value j - minrtt) % 2 ^ 64

theorem snd_foldl_skipped (deltavect deltartt : Cells) (minrtt : ℤ) (js : List ℕ) (acc : ℤ × ℕ) :
    (js.foldl (fun acc j => if skipped deltartt minrtt j then acc
      else (acc.1 + deltavect.value j, acc.2 + 1)) acc).2 =
      acc.2 + js.countP fun j => !skipped deltartt minrtt j := by
  induction js generalizing acc with
  | nil => rfl
  | cons j js ih =>
    rw [List.foldl_cons, ih]
    cases hj : skipped deltartt minrtt j with
    | true => rw [if_pos rfl, List.countP_cons_of_neg (by simp [hj])]
    | false =>
      rw [if_neg Bool.false_ne_true, List.countP_cons_of_pos (by simp [hj])]
      dsimp only
      omega

/-- The packet with the shortest round trip is used. -/
theorem sumDeltas_ends {deltavect deltartt : Cells} {minrtt : ℤ} {n : ℕ}
    (hdelta : deltavect.Written n) (hrtt : deltartt.Written n)
    (hmin : ∃ j < n, minrtt = deltartt.value j % 2 ^ 64) :
    ∃ acc : ℤ × ℕ, sumDeltas deltavect deltartt minrtt n = .ok acc ∧ acc.2 ≠ 0 := by
  have hloop : ∀ acc : ℤ × ℕ, ∀ j ∈ List.range n, (do
      let rtt ← deltartt.read j
      if 10 < minrtt ∧ minrtt / 10 < (rtt - minrtt) % 2 ^ 64 then return acc
      else return (acc.1 + (← deltavect.read j), acc.2 + 1)) =
        Except.ok (ε := ClockFault) (if skipped deltartt minrtt j then acc
          else (acc.1 + deltavect.value j, acc.2 + 1)) := by
    intro acc j hj
    have hlt := List.mem_range.mp hj
    rw [hrtt.read rfl hlt, hdelta.read rfl hlt, skipped]
    simp only [decide_eq_true_eq]
    by_cases hskip : 10 < minrtt ∧ minrtt / 10 < (deltartt.value j - minrtt) % 2 ^ 64
    · rw [if_pos hskip]
      exact if_pos hskip
    · rw [if_neg hskip]
      exact if_neg hskip
  refine ⟨_, Outcome.foldlM_eq_ok hloop (0, 0), ?_⟩
  obtain ⟨j, hj, hmin⟩ := hmin
  have hused : 0 < (List.range n).countP fun j => !skipped deltartt minrtt j := by
    refine List.countP_pos_iff.mpr ⟨j, List.mem_range.mpr hj, ?_⟩
    have hzero : (deltartt.value j - minrtt) % 2 ^ 64 = 0 := by
      rw [hmin]
      omega
    rw [skipped, hzero, Bool.not_eq_true', decide_eq_false_iff_not]
    omega
  rw [snd_foldl_skipped]
  omega

/-- The readings of the clock for the samples. -/
def SkewState.times (st : SkewState) : List ℤ := st.samplelocal.map fun cell => cell.getD 0

/-- The samples were written. -/
structure SkewState.Sampled (st : SkewState) : Prop where
  sample : st.sample.length = st.samplelen
  samplelocal : st.samplelocal.length = st.samplelen
  writtenSample : st.sample.Written st.samplelen
  writtenLocal : st.samplelocal.Written st.samplelen

/-- **What holds between two replies.** -/
structure SkewState.Wf (cfg : SkewConfig) (st : SkewState) : Prop extends st.Sampled where
  deltanum : st.deltanum < cfg.csVectorLen
  vectors : st.deltavect = [] ∧ st.deltanum = 0 ∨
    st.deltavect.length = cfg.csVectorLen ∧ st.deltartt.length = cfg.csVectorLen
  writtenVect : st.deltavect.Written st.deltanum
  writtenRtt : st.deltartt.Written st.deltanum

theorem Cells.Written.append {c : Cells} (h : c.Written c.length) (v : ℤ) :
    Cells.Written (c ++ [some v]) (c.length + 1) := by
  intro i hi
  rcases Nat.lt_or_ge i c.length with hlt | hge
  · rw [List.getD_append _ _ _ _ hlt]
    exact h i hlt
  · obtain rfl : i = c.length := by omega
    rw [List.getD_append_right _ _ _ _ (Nat.le_refl _), Nat.sub_self]
    rfl

theorem SkewState.takeSample_eq {cfg : SkewConfig} {st : SkewState} (h : st.Sampled)
    (hvect : st.deltavect.Written cfg.csVectorLen) (hrtt : st.deltartt.Written cfg.csVectorLen)
    (now : ℤ) : ∃ sum, st.takeSample cfg now = .ok
      { st with
        deltanum := 0
        sample := st.sample ++ [some sum]
        samplelocal := st.samplelocal ++ [some now]
        samplelen := st.samplelen + 1 } := by
  have hends := minRtt_ends hrtt cfg.vector_ge
  rcases hmin : minRtt st.deltartt cfg.csVectorLen with e | minrtt
  · exact (hends.error hmin).elim
  obtain ⟨acc, hsum, hpos⟩ := sumDeltas_ends hvect hrtt (hends.value hmin)
  have hwrite : ∀ c : Cells, c.length = st.samplelen → ∀ v : ℤ,
      (c.realloc (st.samplelen + 1)).write st.samplelen v = .ok (c ++ [some v]) := by
    intro c hc v
    rw [Cells.write_of_lt (by rw [Cells.length_realloc]; omega), ← hc, Cells.realloc_set]
  refine ⟨acc.1.tdiv acc.2, ?_⟩
  have hdivisor : (acc.2 : ℤ) ≠ 0 := Nat.cast_ne_zero.mpr hpos
  simp only [takeSample, hmin, hsum, bind, Except.bind, pure, Except.pure, if_neg hpos,
    quotient_of_ne hdivisor, hwrite _ h.sample, hwrite _ h.samplelocal]

/-! ### Skews -/

theorem SkewState.value_samplelocal (st : SkewState) (i : ℕ) :
    st.samplelocal.value i = st.times.getD i 0 := by
  rw [Cells.value, times, List.getD_eq_getElem?_getD, List.getD_eq_getElem?_getD, List.getElem?_map]
  cases st.samplelocal[i]? with
  | none => rfl
  | some cell => rfl

section Compared

variable (cfg : SkewConfig) (times : List ℤ)

/-- There is enough data: more samples than the shift, and the last of them is far enough from the
first ones. -/
def FarEnough : Prop :=
  cfg.csWindowShift < times.length ∧ int32 (cfg.csWindow * 1000) <
    localdelta times (times.length - 1) (cfg.csWindowShift - 1)

/-- **The samples that are compared**: those of the windows, those of the whole range, or the last
and the first if there is not enough data. -/
inductive Compared : ℕ → ℕ → Prop
  | window {j : ℕ} (h : FarEnough cfg times) (hj : j < cfg.csWindowShift) :
    Compared (times.length - 1 - j)
      (windowStart times (int32 (cfg.csWindow * 1000)) (times.length - 2) - j)
  | whole {j : ℕ} (h : FarEnough cfg times) (hj : j < cfg.csWindowShift) :
    Compared (times.length - 1 - j) (cfg.csWindowShift - 1 - j)
  | early (h : ¬ FarEnough cfg times) (hlen : 1 < times.length) : Compared (times.length - 1) 0

/-- Two samples that are compared were taken at the same reading of the clock. -/
def Clash : Prop := ∃ a b, Compared cfg times a b ∧ times.getD a 0 = times.getD b 0

variable {cfg : SkewConfig} {times : List ℤ}

/-- With a window of samples, two clash in the windows or in the whole range. -/
theorem clash_of_far (hfar : FarEnough cfg times) : Clash cfg times ↔
    (∃ j < cfg.csWindowShift, times.getD (times.length - 1 - j) 0 =
      times.getD (windowStart times (int32 (cfg.csWindow * 1000)) (times.length - 2) - j) 0) ∨
    ∃ j < cfg.csWindowShift, times.getD (times.length - 1 - j) 0 =
      times.getD (cfg.csWindowShift - 1 - j) 0 := by
  constructor
  · rintro ⟨a, b, hpair, heq⟩
    cases hpair with
    | window _ hj => exact Or.inl ⟨_, hj, heq⟩
    | whole _ hj => exact Or.inr ⟨_, hj, heq⟩
    | early hnot _ => exact absurd hfar hnot
  · rintro (⟨j, hj, heq⟩ | ⟨j, hj, heq⟩)
    · exact ⟨_, _, .window hfar hj, heq⟩
    · exact ⟨_, _, .whole hfar hj, heq⟩

/-- With less, the last and the first one do. -/
theorem clash_of_not_far (hfar : ¬ FarEnough cfg times) : Clash cfg times ↔
    1 < times.length ∧ times.getD (times.length - 1) 0 = times.getD 0 0 := by
  constructor
  · rintro ⟨a, b, hpair, heq⟩
    cases hpair with
    | window hnot _ => exact absurd hnot hfar
    | whole hnot _ => exact absurd hnot hfar
    | early _ hlen => exact ⟨hlen, heq⟩
  · rintro ⟨hlen, heq⟩
    exact ⟨_, _, .early hfar hlen, heq⟩

end Compared

section Skews

variable {cfg : SkewConfig} {st : SkewState}

theorem SkewState.Sampled.length_times (h : st.Sampled) : st.times.length = st.samplelen := by
  rw [times, List.length_map, h.samplelocal]

theorem SkewState.Sampled.read (h : st.Sampled) {a : ℤ} {i : ℕ} (ha : a = i)
    (hi : i < st.samplelen) : st.samplelocal.read a = .ok (st.times.getD i 0) := by
  rw [h.writtenLocal.read ha hi, value_samplelocal]

theorem SkewState.Sampled.pairSkew_eq (h : st.Sampled) {a b : ℤ} {i k : ℕ} (ha : a = i)
    (hb : b = k) (hi : i < st.samplelen) (hk : k < st.samplelen) :
    st.pairSkew a b =
      if st.times.getD i 0 = st.times.getD k 0 then .error .division
      else .ok (((st.sample.value i - st.sample.value k) * 1000000).tdiv
        (st.times.getD i 0 - st.times.getD k 0)) := by
  simp only [pairSkew, h.read ha hi, h.read hb hk, h.writtenSample.read ha hi,
    h.writtenSample.read hb hk, bind, Except.bind, quotient, sub_eq_zero]

/-- **The search stops** at a sample that is far enough from the last one, if there is one. -/
theorem SkewState.Sampled.search_eq (h : st.Sampled) {last : ℤ}
    (hlast : last = (st.samplelen - 1 : ℕ)) {window : ℤ} {k i : ℕ} (hi : i < st.samplelen - 1)
    (hk : k ≤ i) (hfar : window ≤ localdelta st.times (st.samplelen - 1) k) :
    st.search last window i = .ok (windowStart st.times window i) ∧
      k ≤ windowStart st.times window i ∧ windowStart st.times window i ≤ i := by
  have hlt : st.samplelen - 1 < st.samplelen := by omega
  induction i with
  | zero =>
    obtain rfl : k = 0 := by omega
    rw [localdelta] at hfar
    refine ⟨?_, Nat.le_refl 0, Nat.le_refl 0⟩
    simp only [search, h.read hlast hlt, h.read (Nat.cast_zero).symm (by omega : 0 < st.samplelen),
      bind, Except.bind, pure, Except.pure, if_neg (not_lt.mpr hfar), windowStart]
  | succ i ih =>
    have hread := h.read (Nat.cast_succ i).symm (by omega : i + 1 < st.samplelen)
    have hdelta : localdelta st.times (st.times.length - 1) (i + 1) =
        st.times.getD (st.samplelen - 1) 0 - st.times.getD (i + 1) 0 := by
      rw [localdelta, h.length_times]
    rw [windowStart, hdelta]
    simp only [search, h.read hlast hlt, hread, bind, Except.bind, pure, Except.pure]
    by_cases hless : st.times.getD (st.samplelen - 1) 0 - st.times.getD (i + 1) 0 < window
    · have hne : k ≠ i + 1 := by
        rintro rfl
        rw [localdelta] at hfar
        omega
      obtain ⟨hsearch, hlow, hhigh⟩ := ih (by omega) (by omega)
      rw [if_pos hless, if_pos hless]
      exact ⟨hsearch, hlow, by omega⟩
    · rw [if_neg hless, if_neg hless]
      exact ⟨rfl, hk, Nat.le_refl _⟩

theorem SkewState.Sampled.enough_eq (h : st.Sampled) :
    ∃ b : Bool, st.enough cfg = .ok b ∧ (b = true ↔ FarEnough cfg st.times) := by
  have hshift := cfg.shift_ge
  rw [enough, FarEnough, h.length_times]
  by_cases hlen : cfg.csWindowShift < st.samplelen
  · have hlast : (st.samplelen : ℤ) - 1 = (st.samplelen - 1 : ℕ) := by omega
    have hfirst : (cfg.csWindowShift : ℤ) - 1 = (cfg.csWindowShift - 1 : ℕ) := by omega
    rw [if_pos hlen, h.read hlast (by omega), h.read hfirst (by omega)]
    refine ⟨_, rfl, ?_⟩
    rw [decide_eq_true_eq, localdelta]
    exact (and_iff_right hlen).symm
  · rw [if_neg hlen]
    exact ⟨false, rfl, iff_of_false Bool.false_ne_true fun h => hlen h.1⟩

/-- The pairs of a window, or of the whole range: the samples at `a - j` and `b - j`. -/
theorem SkewState.Sampled.mapM_pairSkew (h : st.Sampled) {a b : ℤ} {i k : ℕ} (ha : a = i)
    (hb : b = k) (hi : i < st.samplelen) (hk : k < st.samplelen) (js : List ℕ)
    (hjs : ∀ j ∈ js, j ≤ i ∧ j ≤ k) :
    Outcome.Ends (fun _ => ∀ j ∈ js, st.times.getD (i - j) 0 ≠ st.times.getD (k - j) 0)
      (fun e => e = .division ∧
        ∃ j ∈ js, st.times.getD (i - j) 0 = st.times.getD (k - j) 0)
      (js.mapM fun (j : ℕ) => st.pairSkew (a - j) (b - j)) := by
  have hpair : ∀ j ∈ js, st.pairSkew (a - j) (b - j) =
      if st.times.getD (i - j) 0 = st.times.getD (k - j) 0 then .error .division
      else .ok (((st.sample.value (i - j) - st.sample.value (k - j)) * 1000000).tdiv
        (st.times.getD (i - j) 0 - st.times.getD (k - j) 0)) := by
    intro j hj
    obtain ⟨hji, hjk⟩ := hjs j hj
    exact h.pairSkew_eq (by omega) (by omega) (by omega) (by omega)
  rw [Outcome.mapM_eq_ite hpair]
  by_cases hclash : ∃ j ∈ js, st.times.getD (i - j) 0 = st.times.getD (k - j) 0
  · rw [if_pos hclash]
    exact ⟨rfl, hclash⟩
  · rw [if_neg hclash]
    exact fun j hj heq => hclash ⟨j, hj, heq⟩

/-- **The skew is computed unless two samples clash**, and then it divides by zero. -/
theorem SkewState.Sampled.computeSkew_ends (h : st.Sampled) :
    Outcome.Ends (fun _ => ¬ Clash cfg st.times)
      (fun e => e = .division ∧ Clash cfg st.times) (st.computeSkew cfg) := by
  have hshift := cfg.shift_ge
  have hlength := h.length_times
  obtain ⟨b, henough, hb⟩ := @SkewState.Sampled.enough_eq cfg st h
  have hlast : 0 < st.samplelen → (st.samplelen : ℤ) - 1 = (st.samplelen - 1 : ℕ) := by omega
  rw [computeSkew]
  refine Outcome.Ends.bind (P := fun b => b = true ↔ FarEnough cfg st.times) ?_ fun b hb => ?_
  · rw [henough]
    exact hb
  by_cases hfar : FarEnough cfg st.times
  · have hlen := hfar.1
    have hwindow := hfar.2.le
    rw [hlength] at hlen hwindow
    have hdivisor : (cfg.csWindowShift : ℤ) ≠ 0 := by omega
    have hlast' := hlast (by omega)
    obtain ⟨hsearch, hlow, hhigh⟩ := h.search_eq hlast' (i := st.samplelen - 2)
      (by omega) (by omega : cfg.csWindowShift - 1 ≤ st.samplelen - 2) hwindow
    rw [if_pos (hb.mpr hfar), hsearch]
    set w := windowStart st.times (int32 (cfg.csWindow * 1000)) (st.samplelen - 2)
    have hwindows := h.mapM_pairSkew hlast' rfl (by omega) (by omega : w < st.samplelen)
      (List.range cfg.csWindowShift).reverse fun j hj => by
        have hj' := List.mem_range.mp (List.mem_reverse.mp hj)
        omega
    have hwhole := h.mapM_pairSkew hlast'
      (by omega : (cfg.csWindowShift : ℤ) - 1 = (cfg.csWindowShift - 1 : ℕ)) (by omega) (by omega)
      (List.range cfg.csWindowShift) fun j hj => by
        have hj' := List.mem_range.mp hj
        omega
    -- The errors of the two loops are clashes, and without one there is no other pair.
    have hclash := clash_of_far hfar
    rw [hlength] at hclash
    refine Outcome.Ends.bind (hwindows.imp (fun _ hno => hno) fun e he => ?_) fun skews hno => ?_
    · obtain ⟨rfl, j, hj, heq⟩ := he
      rw [List.mem_reverse, List.mem_range] at hj
      exact ⟨rfl, hclash.mpr (Or.inl ⟨j, hj, heq⟩)⟩
    rw [quotient_of_ne hdivisor]
    refine Outcome.Ends.bind (hwhole.imp (fun _ hno => hno) fun e he => ?_) fun whole hno' => ?_
    · obtain ⟨rfl, j, hj, heq⟩ := he
      rw [List.mem_range] at hj
      exact ⟨rfl, hclash.mpr (Or.inr ⟨j, hj, heq⟩)⟩
    rw [quotient_of_ne hdivisor]
    intro hboth
    rcases hclash.mp hboth with ⟨j, hj, heq⟩ | ⟨j, hj, heq⟩
    · exact hno _ (List.mem_reverse.mpr (List.mem_range.mpr hj)) heq
    · exact hno' _ (List.mem_range.mpr hj) heq
  · rw [if_neg (mt hb.mp hfar)]
    have hclash := clash_of_not_far hfar
    rw [hlength] at hclash
    by_cases hsome : 1 < st.samplelen
    · rw [if_pos hsome, h.pairSkew_eq (hlast (by omega)) (Nat.cast_zero).symm (by omega) (by omega)]
      by_cases heq : st.times.getD (st.samplelen - 1) 0 = st.times.getD 0 0
      · rw [if_pos heq]
        exact ⟨rfl, hclash.mpr ⟨hsome, heq⟩⟩
      · rw [if_neg heq]
        exact fun hboth => heq (hclash.mp hboth).2
    · rw [if_neg hsome]
      exact fun hboth => hsome (hclash.mp hboth).1

end Skews

/-! ### Replies -/

/-- What the model of the output has of the static variables. -/
def SkewState.printing (st : SkewState) : Printing where
  oldSrcAddr := []
  firstTstamp := st.firstTstamp
  firstMstime := st.firstMstime
  deltanum := st.deltanum
  samplelocal := st.times

theorem SkewState.wf_init (cfg : SkewConfig) : SkewState.init.Wf cfg where
  sample := rfl
  samplelocal := rfl
  writtenSample := fun _ hi => absurd hi (Nat.not_lt_zero _)
  writtenLocal := fun _ hi => absurd hi (Nat.not_lt_zero _)
  deltanum := cfg.vector_ge
  vectors := Or.inl ⟨rfl, rfl⟩
  writtenVect := fun _ hi => absurd hi (Nat.not_lt_zero _)
  writtenRtt := fun _ hi => absurd hi (Nat.not_lt_zero _)

section Replies

variable {cfg : SkewConfig} {st : SkewState}

/-- The vectors are there when a delta is written. -/
theorem SkewState.Wf.allocate (h : st.Wf cfg) :
    ∃ deltavect deltartt : Cells,
      (if st.deltavect = [] then
        { st with
          deltavect := Cells.realloc [] cfg.csVectorLen
          deltartt := Cells.realloc [] cfg.csVectorLen
          deltanum := 0 }
      else st) = { st with deltavect := deltavect, deltartt := deltartt } ∧
      deltavect.length = cfg.csVectorLen ∧ deltartt.length = cfg.csVectorLen ∧
      deltavect.Written st.deltanum ∧ deltartt.Written st.deltanum := by
  rcases h.vectors with ⟨hnull, hzero⟩ | ⟨hvect, hrtt⟩
  · have hnone : Cells.Written (Cells.realloc [] cfg.csVectorLen) st.deltanum := fun i hi => by
      omega
    refine ⟨_, _, ?_, Cells.length_realloc _ _, Cells.length_realloc _ _, hnone, hnone⟩
    rw [if_pos hnull, hzero]
  · have hne : st.deltavect ≠ [] := by
      intro hnull
      have hpos := cfg.vector_ge
      rw [hnull] at hvect
      exact absurd hvect.symm (Nat.ne_of_gt hpos)
    exact ⟨st.deltavect, st.deltartt, if_neg hne, hvect, hrtt, h.writtenVect, h.writtenRtt⟩

/-- The delta is written, and what is done then. -/
theorem SkewState.Wf.clockSkew_eq (h : st.Wf cfg) {hz : ℤ} (hhz : hz ≠ 0) (tstamp : ℕ)
    (rttms localms samplems : ℤ) :
    ∃ st₁ : SkewState, st.clockSkew cfg hz tstamp rttms localms samplems =
        ((if st₁.deltanum = cfg.csVectorLen then st₁.takeSample cfg samplems else pure st₁) >>=
          fun st => st.computeSkew cfg >>= fun report =>
            pure { st with printed := st.printed ++ [report] }) ∧
      st₁.Sampled ∧ st₁.printing = { st.printing with deltanum := st.deltanum + 1 } ∧
      st₁.deltavect.length = cfg.csVectorLen ∧ st₁.deltartt.length = cfg.csVectorLen ∧
      st₁.deltavect.Written st₁.deltanum ∧ st₁.deltartt.Written st₁.deltanum := by
  obtain ⟨vect, rtts, hst, hvect, hrtt, hwvect, hwrtt⟩ := h.allocate
  have hnum := h.deltanum
  have hnumvect : st.deltanum < vect.length := by omega
  have hnumrtt : st.deltanum < rtts.length := by omega
  set delta := localms - ((tstamp * (1000 : ℤ).tdiv hz) % 2 ^ 32 - rttms.tdiv 2) with hdelta
  refine ⟨{ st with
    deltavect := vect.set st.deltanum (some delta)
    deltartt := rtts.set st.deltanum (some rttms)
    deltanum := st.deltanum + 1 }, ?_, ⟨h.sample, h.samplelocal, h.writtenSample, h.writtenLocal⟩,
    rfl, ?_, ?_, hwvect.set hnumvect delta, hwrtt.set hnumrtt rttms⟩
  · simp only [SkewState.clockSkew, quotient_of_ne hhz, hst, bind, Except.bind, ← hdelta,
      Cells.write_of_lt hnumvect, Cells.write_of_lt hnumrtt]
    split_ifs
    · rfl
    · rfl
  · rw [List.length_set, hvect]
  · rw [List.length_set, hrtt]

/-- **A reply goes into the estimation as in the model of the output**, unless two samples that are
compared clash. -/
theorem SkewState.Wf.clockSkew_ends (h : st.Wf cfg) {hz : ℤ} (hhz : hz ≠ 0) (tstamp : ℕ)
    (rttms localms samplems : ℤ) :
    Outcome.Ends
      (fun st' => (st'.Wf cfg ∧ st'.printing = st.printing.clockSkew cfg.toFormatConfig samplems) ∧
        ¬ Clash cfg (st.printing.clockSkew cfg.toFormatConfig samplems).samplelocal)
      (fun e => e = .division ∧
        Clash cfg (st.printing.clockSkew cfg.toFormatConfig samplems).samplelocal)
      (st.clockSkew cfg hz tstamp rttms localms samplems) := by
  obtain ⟨st₁, hcode, hsampled, hprinting, hvect, hrtt, hwvect, hwrtt⟩ :=
    h.clockSkew_eq hhz tstamp rttms localms samplems
  have hnum : st₁.deltanum = st.deltanum + 1 := congrArg Printing.deltanum hprinting
  have htimes : st₁.times = st.times := congrArg Printing.samplelocal hprinting
  have hvector := cfg.vector_ge
  have hlt := h.deltanum
  rw [hcode]
  -- What is left to do for a state that is the one of the model of the output.
  have hrest : ∀ st₂ : SkewState, st₂.Wf cfg →
      st₂.printing = st.printing.clockSkew cfg.toFormatConfig samplems →
      Outcome.Ends
        (fun st' =>
          (st'.Wf cfg ∧ st'.printing = st.printing.clockSkew cfg.toFormatConfig samplems) ∧
          ¬ Clash cfg (st.printing.clockSkew cfg.toFormatConfig samplems).samplelocal)
        (fun e => e = .division ∧
          Clash cfg (st.printing.clockSkew cfg.toFormatConfig samplems).samplelocal)
        (st₂.computeSkew cfg >>= fun report =>
          pure { st₂ with printed := st₂.printed ++ [report] }) := by
    intro st₂ hwf hsame
    rw [← hsame]
    refine Outcome.Ends.bind (hwf.computeSkew_ends) fun report hno => ?_
    exact ⟨⟨⟨⟨hwf.sample, hwf.samplelocal, hwf.writtenSample, hwf.writtenLocal⟩, hwf.deltanum,
      hwf.vectors, hwf.writtenVect, hwf.writtenRtt⟩, rfl⟩, hno⟩
  by_cases hfull : st₁.deltanum = cfg.csVectorLen
  · rw [if_pos hfull]
    obtain ⟨sum, hsample⟩ := SkewState.takeSample_eq hsampled (hfull ▸ hwvect) (hfull ▸ hwrtt)
      samplems
    rw [hsample]
    have hgrown : ∀ c : Cells, c.length = st₁.samplelen → c.Written st₁.samplelen → ∀ v : ℤ,
        (c ++ [some v]).length = st₁.samplelen + 1 ∧
          Cells.Written (c ++ [some v]) (st₁.samplelen + 1) := by
      intro c hc hwritten v
      rw [← hc] at hwritten ⊢
      exact ⟨List.length_append, hwritten.append v⟩
    have hgrownSample := hgrown _ hsampled.sample hsampled.writtenSample sum
    have hgrownLocal := hgrown _ hsampled.samplelocal hsampled.writtenLocal samplems
    refine hrest _ ⟨⟨hgrownSample.1, hgrownLocal.1, hgrownSample.2, hgrownLocal.2⟩, hvector,
      Or.inr ⟨hvect, hrtt⟩, fun i hi => absurd hi (Nat.not_lt_zero i),
      fun i hi => absurd hi (Nat.not_lt_zero i)⟩ ?_
    have htimes' : (st₁.samplelocal ++ [some samplems]).map (fun cell => cell.getD 0) =
        st.times ++ [samplems] := by
      rw [List.map_append, ← htimes]
      rfl
    have hfirst : st₁.firstTstamp = st.firstTstamp ∧ st₁.firstMstime = st.firstMstime :=
      ⟨Int.natCast_inj.mp (congrArg Printing.firstTstamp hprinting),
        congrArg Printing.firstMstime hprinting⟩
    have hlast : st.printing.deltanum + 1 = cfg.csVectorLen := hnum.symm.trans hfull
    rw [Printing.clockSkew, if_pos hlast]
    simp only [SkewState.printing, SkewState.times, htimes', hfirst]
  · rw [if_neg hfull]
    refine hrest st₁ ⟨hsampled, by omega, Or.inr ⟨hvect, hrtt⟩, hwvect, hwrtt⟩ ?_
    have hmore : ¬ st.printing.deltanum + 1 = cfg.csVectorLen := fun h => hfull (hnum.trans h)
    rw [hprinting, Printing.clockSkew, if_neg hmore]
    rfl

theorem nearer_pos {tsdiff hz : ℤ} {best : ℤ × ℤ} (hz0 : 0 < hz) (h : best.1 = -1 ∨ 0 < best.2) :
    0 < (nearer tsdiff best hz).2 := by
  rw [nearer]
  split_ifs with hfirst
  · exact hz0
  · exact hz0
  · exact h.resolve_left hfirst

theorem nearestHz_of_pos {tsdiff : ℤ} (h : 0 < tsdiff) : 0 < nearestHz tsdiff := by
  rw [nearestHz, if_pos h]
  have h2 := @nearer_pos tsdiff 2 (-1, 0) (by omega) (Or.inl rfl)
  have h10 := @nearer_pos tsdiff 10 _ (by omega) (Or.inr h2)
  have h100 := @nearer_pos tsdiff 100 _ (by omega) (Or.inr h10)
  exact nearer_pos (by omega) (Or.inr h100)

theorem nearestHz_of_not_pos {tsdiff : ℤ} (h : ¬ 0 < tsdiff) : nearestHz tsdiff = 0 := if_neg h

/-- **The readings of the clock are apart**: a timestamp that is not the first one is looked at in
another millisecond than that one, and the samples that are compared, if the skew is computed, were
taken in different ones. -/
def SkewState.Apart (cfg : SkewConfig) (st : SkewState) (r : StampedReply) : Prop :=
  ∀ tstamp, segmentTimestamp r.tcp = some tstamp → st.firstTstamp ≠ 0 →
    st.printing.mswait r.mstime ≠ 0 ∧
    (st.printing.skews cfg.toFormatConfig tstamp r.mstime = true →
      ¬ Clash cfg (st.printing.clockSkew cfg.toFormatConfig r.samplems).samplelocal)

/-- **A reply is taken as in the model of the output**, or it divides by zero and its readings are
not apart. -/
theorem SkewState.Wf.print_ends (h : st.Wf cfg) (r : StampedReply) :
    Outcome.Ends
      (fun st' => (st'.Wf cfg ∧ ∀ t : FormatTurn, t.mstime = r.mstime → t.sampleMs = r.samplems →
        st'.printing = st.printing.tcpTimestamp cfg.toFormatConfig t r.tcp) ∧ st.Apart cfg r)
      (fun e => e = .division ∧ ¬ st.Apart cfg r) (st.printTcpTimestamp cfg r) := by
  rw [SkewState.printTcpTimestamp]
  rcases htcp : segmentTimestamp r.tcp with _ | tstamp
  · refine ⟨⟨h, fun t _ _ => ?_⟩, fun tstamp hsome => ?_⟩
    · rw [Printing.tcpTimestamp, htcp]
    · rw [htcp] at hsome
      cases hsome
  dsimp only
  by_cases hfirst : st.firstTstamp = 0
  · rw [if_pos hfirst]
    refine ⟨⟨⟨⟨h.sample, h.samplelocal, h.writtenSample, h.writtenLocal⟩, h.deltanum, h.vectors,
      h.writtenVect, h.writtenRtt⟩, fun t ht _ => ?_⟩, fun _ _ hno => absurd hfirst hno⟩
    have hzero : st.printing.firstTstamp = 0 := congrArg Nat.cast hfirst
    rw [Printing.tcpTimestamp, htcp]
    dsimp only
    rw [if_pos hzero, ht]
    rfl
  have hnonzero : st.printing.firstTstamp ≠ 0 := Nat.cast_ne_zero.mpr hfirst
  have happart : st.Apart cfg r ↔ st.printing.mswait r.mstime ≠ 0 ∧
      (st.printing.skews cfg.toFormatConfig tstamp r.mstime = true →
        ¬ Clash cfg (st.printing.clockSkew cfg.toFormatConfig r.samplems).samplelocal) := by
    constructor
    · exact fun hall => hall tstamp htcp hfirst
    · intro hone tstamp' htcp' _
      obtain rfl : tstamp = tstamp' := Option.some.inj (htcp.symm.trans htcp')
      exact hone
  rw [if_neg hfirst, happart]
  by_cases hwait : st.printing.mswait r.mstime = 0
  · have hfault : quotient ((tstamp - st.firstTstamp) % 2 ^ 32 * 1000)
        ((r.mstime - st.firstMstime) % 2 ^ 64) = .error .division := if_pos hwait
    rw [hfault]
    exact ⟨rfl, fun hall => hall.1 hwait⟩
  have hdiff : quotient ((tstamp - st.firstTstamp) % 2 ^ 32 * 1000)
      ((r.mstime - st.firstMstime) % 2 ^ 64) = .ok ((tstamp - st.firstTstamp) % 2 ^ 32 * 1000 /
        st.printing.mswait r.mstime) := by
    rw [← Int.tdiv_eq_ediv_of_nonneg (by omega)]
    exact if_neg hwait
  have htsdiff : int32 ((tstamp - st.firstTstamp) % 2 ^ 32 * 1000 /
      st.printing.mswait r.mstime) = st.printing.tsdiff tstamp r.mstime := rfl
  have hskews : st.printing.skews cfg.toFormatConfig tstamp r.mstime = true ↔
      0 < st.printing.tsdiff tstamp r.mstime ∧ cfg.optClockSkew = true := by
    rw [Printing.skews, decide_eq_true_eq]
  have hprinting : ∀ t : FormatTurn, t.mstime = r.mstime → t.sampleMs = r.samplems →
      st.printing.tcpTimestamp cfg.toFormatConfig t r.tcp =
        if st.printing.skews cfg.toFormatConfig tstamp r.mstime = true then
          st.printing.clockSkew cfg.toFormatConfig r.samplems else st.printing := by
    intro t ht hs
    rw [Printing.tcpTimestamp, htcp]
    dsimp only
    rw [if_neg hnonzero, ht, hs]
  rw [hdiff]
  simp only [bind, Except.bind, htsdiff]
  by_cases hpos : 0 < st.printing.tsdiff tstamp r.mstime
  · have hhz := nearestHz_of_pos hpos
    rw [if_pos hpos, quotient_of_ne hhz.ne']
    dsimp only
    by_cases hskew : cfg.optClockSkew = true
    · have hcalled := hskews.mpr ⟨hpos, hskew⟩
      rw [if_pos ⟨hhz, hskew⟩]
      refine (h.clockSkew_ends hhz.ne' tstamp r.rttms r.localms r.samplems).imp ?_ ?_
      · rintro st' ⟨⟨hwf, hsame⟩, hno⟩
        refine ⟨⟨hwf, fun t ht hs => ?_⟩, hwait, fun _ => hno⟩
        rw [hprinting t ht hs, if_pos hcalled, hsame]
      · rintro e ⟨he, hclash⟩
        exact ⟨he, fun hall => hall.2 hcalled hclash⟩
    · have hno : ¬ st.printing.skews cfg.toFormatConfig tstamp r.mstime = true := fun hcalled =>
        hskew (hskews.mp hcalled).2
      rw [if_neg fun hboth => hskew hboth.2]
      refine ⟨⟨h, fun t ht hs => ?_⟩, hwait, fun hcalled => absurd hcalled hno⟩
      rw [hprinting t ht hs, if_neg hno]
  · have hno : ¬ st.printing.skews cfg.toFormatConfig tstamp r.mstime = true := fun hcalled =>
      hpos (hskews.mp hcalled).1
    rw [if_neg hpos, nearestHz_of_not_pos hpos, if_neg fun hboth => absurd hboth.1 (by decide)]
    refine ⟨⟨h, fun t ht hs => ?_⟩, hwait, fun hcalled => absurd hcalled hno⟩
    rw [hprinting t ht hs, if_neg hno]

/-- **Two samples clash exactly if a divisor is zero.** -/
theorem clash_iff {times : List ℤ} :
    Clash cfg times ↔ 0 ∈ skewDivisors cfg.toFormatConfig times := by
  have hzero : ∀ a b, localdelta times a b = 0 ↔ times.getD a 0 = times.getD b 0 := fun a b => by
    rw [localdelta, sub_eq_zero]
  have hlast : times.length - 1 - 1 = times.length - 2 := Nat.sub_sub _ 1 1
  rw [skewDivisors, hlast]
  by_cases hfar : FarEnough cfg times
  · have hcond := hfar
    rw [FarEnough] at hcond
    rw [clash_of_far hfar, if_pos hcond, List.mem_append, List.mem_map, List.mem_map]
    simp only [hzero, List.mem_range]
  · have hcond := hfar
    rw [FarEnough] at hcond
    rw [clash_of_not_far hfar, if_neg hcond]
    by_cases hlen : 1 < times.length
    · rw [if_pos hlen, List.mem_singleton, @eq_comm ℤ 0, hzero]
      exact and_iff_right hlen
    · rw [if_neg hlen]
      exact iff_of_false (fun hboth => hlen hboth.1) List.not_mem_nil

/-- **What is to be apart are the divisors of the model of the output.** -/
theorem SkewState.apart_iff {r : StampedReply} {t : FormatTurn} (hms : t.mstime = r.mstime)
    (hsample : t.sampleMs = r.samplems) :
    st.Apart cfg r ↔ 0 ∉ st.printing.divisors cfg.toFormatConfig t r.tcp := by
  rw [Printing.divisors, Apart, hms, hsample]
  rcases segmentTimestamp r.tcp with _ | tstamp
  · exact iff_of_true (fun _ hno => by cases hno) List.not_mem_nil
  dsimp only
  by_cases hfirst : st.firstTstamp = 0
  · rw [if_pos (show st.printing.firstTstamp = 0 from congrArg Nat.cast hfirst)]
    exact iff_of_true (fun _ _ hno => absurd hfirst hno) List.not_mem_nil
  rw [if_neg (show st.printing.firstTstamp ≠ 0 from Nat.cast_ne_zero.mpr hfirst), List.mem_cons,
    not_or, eq_comm]
  have hdivisors : (0 ∉ if st.printing.skews cfg.toFormatConfig tstamp r.mstime = true then
      skewDivisors cfg.toFormatConfig
        (st.printing.clockSkew cfg.toFormatConfig r.samplems).samplelocal else []) ↔
      (st.printing.skews cfg.toFormatConfig tstamp r.mstime = true →
        ¬ Clash cfg (st.printing.clockSkew cfg.toFormatConfig r.samplems).samplelocal) := by
    by_cases hskews : st.printing.skews cfg.toFormatConfig tstamp r.mstime = true
    · rw [if_pos hskews, ← clash_iff]
      exact ⟨fun h _ => h, fun h => h hskews⟩
    · rw [if_neg hskews]
      exact iff_of_true List.not_mem_nil fun h => absurd h hskews
  rw [hdivisors]
  constructor
  · exact fun h => h tstamp rfl hfirst
  · rintro h _ hsome -
    exact Option.some.inj hsome ▸ h

/-- The readings are apart at every reply, in the state in which it is taken. -/
def AllApart (cfg : SkewConfig) : SkewState → List StampedReply → Prop
  | _, [] => True
  | st, r :: replies =>
    st.Apart cfg r ∧ ∀ st', st.printTcpTimestamp cfg r = .ok st' → AllApart cfg st' replies

/-- **A run goes on as long as the readings are apart**, and ends in a division otherwise. -/
theorem SkewState.Wf.run_ends (h : st.Wf cfg) (replies : List StampedReply) :
    Outcome.Ends (fun st' => st'.Wf cfg ∧ AllApart cfg st replies)
      (fun e => e = .division ∧ ¬ AllApart cfg st replies)
      (replies.foldlM (SkewState.printTcpTimestamp cfg) st) := by
  induction replies generalizing st with
  | nil => exact ⟨h, trivial⟩
  | cons r replies ih =>
    have hends := h.print_ends r
    rw [List.foldlM_cons]
    rcases hstep : st.printTcpTimestamp cfg r with e | st'
    · obtain ⟨he, hnot⟩ := hends.error hstep
      exact ⟨he, fun hall => hnot hall.1⟩
    · obtain ⟨⟨hwf, -⟩, hpart⟩ := hends.value hstep
      have hall : AllApart cfg st (r :: replies) ↔ AllApart cfg st' replies := by
        constructor
        · exact fun hall => hall.2 st' hstep
        · intro hrest
          refine ⟨hpart, fun st'' hst'' => ?_⟩
          rw [hstep, Except.ok.injEq] at hst''
          exact hst'' ▸ hrest
      rw [hall]
      exact ih hwf

end Replies

/-- **When the estimation of a clock is safe**: nothing but a division by zero can go wrong in a
run, and none does exactly if the readings of the clock are apart. -/
theorem clock_faults (cfg : SkewConfig) (replies : List StampedReply) :
    (∀ e, replies.foldlM (SkewState.printTcpTimestamp cfg) .init = .error e → e = .division) ∧
    ((∃ st, replies.foldlM (SkewState.printTcpTimestamp cfg) .init = .ok st) ↔
      AllApart cfg .init replies) := by
  have hends := (SkewState.wf_init cfg).run_ends replies
  refine ⟨fun e he => (hends.error he).1, ?_⟩
  constructor
  · rintro ⟨st, hst⟩
    exact (hends.value hst).2
  · intro hall
    rcases hrun : replies.foldlM (SkewState.printTcpTimestamp cfg) .init with e | st
    · exact absurd hall (hends.error hrun).2
    · exact ⟨st, rfl⟩

/-- A sample for every packet. -/
def everyPacket : SkewConfig where
  toFormatConfig := { tracerouteConfig with
    optTcpTimestamp := true, optClockSkew := true, csVectorLen := 1 }
  window_ge := by decide
  window_le := by decide
  shift_ge := by decide
  shift_le := by decide
  vector_ge := by decide
  vector_le := by decide

/-- A reply with a timestamp below 256, all of whose readings are the same. -/
def stampedReply (tstamp : UInt8) (ms : ℤ) : StampedReply where
  tcp := segmentWith 3 [8, 10, 0, 0, 0, tstamp, 0, 0, 0, 0, 1, 0]
  rttms := 1
  mstime := ms
  localms := ms
  samplems := ms

theorem segmentTimestamp_stampedReply (tstamp : UInt8) (ms : ℤ) :
    segmentTimestamp (stampedReply tstamp ms).tcp = some tstamp.toNat := by
  have hopts : optionBytes (stampedReply tstamp ms).tcp =
      some [8, 10, 0, 0, 0, tstamp, 0, 0, 0, 0, 1, 0] := by
    have hoff : hiAt 12 (stampedReply tstamp ms).tcp = 8 := by
      simp [stampedReply, segmentWith, hiAt, byteAt]
    have hlength : (stampedReply tstamp ms).tcp.length = 32 := rfl
    rw [optionBytes, hoff, hlength, if_pos (by decide)]
    rfl
  have hvalue : ntohlAt 0 [0, 0, 0, tstamp, 0, 0, 0, 0, 1, 0] = tstamp.toNat := by
    simp [ntohlAt, Mem.be32, Mem.be16]
  have hfits : Options.Fits 10 [0, 0, 0, tstamp, 0, 0, 0, 0, 1, 0] := by
    simp [Options.Fits]
  rw [segmentTimestamp_eq, hopts, Option.bind_some,
    tcpTimestamp_option (by decide) (by decide) hfits, if_neg (by decide), if_neg (by decide),
    hvalue]

/-- Two replies in a millisecond, and two samples in one. -/
theorem clock_divides_by_zero :
    [stampedReply 1 5, stampedReply 1 5].foldlM (SkewState.printTcpTimestamp everyPacket) .init =
      .error .division ∧
    [stampedReply 1 0, stampedReply 201 1000, stampedReply 201 1000].foldlM
      (SkewState.printTcpTimestamp everyPacket) .init = .error .division := by
  constructor
  · simp only [List.foldlM_cons, SkewState.printTcpTimestamp, segmentTimestamp_stampedReply]
    rfl
  · simp only [List.foldlM_cons, SkewState.printTcpTimestamp, segmentTimestamp_stampedReply]
    rfl

end StyxWire.Hping
