import Mathlib.Data.List.Pairwise
import Mathlib.Data.List.Perm.Subperm
import StyxWire.Ars.SetterBounds
import StyxWire.Lib.BitFields

/-!
# The order of the fields

The headers have their fields at fixed bits (`StyxWire.headerLayouts`), and several of them share
a byte or a word. A setter assigns to the bits of its field and leaves the others as they are
(`StyxWire.Assigns`), so that the order in which fields are set makes no difference.

One setter does not: the offset of a fragment is masked in the byte order of the host, and takes
the flags that are in its word with it. So flags that are set in front of an offset are lost.
`StyxWire.fieldOrder_iff` is the order of fields for whole descriptions, and says for which values
of the flags and the offset it makes no difference all the same.
-/

namespace StyxWire

open Mem Text Outcome

/-! ### Setters that assign -/

/-- Assign to bits of the layer, and set a flag. -/
def ArsLayer.assigned (l : ArsLayer) (s w : ℕ) (c : ℕ → Bool) (flag : ℕ) : ArsLayer :=
  { l with
    lFlags := l.lFlags ||| flag
    lData := assign s w c l.lData
    size_le := by rw [length_assign]; exact l.size_le
    hdr_le := by rw [length_assign]; exact l.hdr_le }

/-- **The setter assigns to a field**: for a value, always the same bits and the same flag, whatever
the layer is. -/
def Takes (n s w : ℕ) (st : Setter) : Prop :=
  ∀ libc v, ∃ c flag, ∀ l, Room n l → st libc v l = .ok (l.assigned s w c flag)

/-- The setter assigns to a field, or does not accept the value. -/
def Assigns (n s w : ℕ) (st : Setter) : Prop :=
  ∀ libc v, (∃ c flag, ∀ l, Room n l → st libc v l = .ok (l.assigned s w c flag)) ∨
    ∃ e, ∀ l, Room n l → st libc v l = .error e

theorem Takes.assigns {n s w : ℕ} {st : Setter} (h : Takes n s w st) : Assigns n s w st :=
  fun libc v => Or.inl (h libc v)

section Assigns

variable {n off s w : ℕ}

theorem Room.le_length {l : ArsLayer} (h : Room n l) : n ≤ l.lData.length := h.2.trans h.1.le

/-- A write of bytes that assigns. -/
theorem put_eq_assigned {src : List UInt8} {c : ℕ → Bool} {l : ArsLayer}
    (hfit : off + src.length ≤ l.lData.length)
    (h : writeAt l.lData off src = assign s w c l.lData) :
    put off src l = .ok (l.assigned s w c 0) := by
  rw [put, if_pos hfit]
  refine congrArg Except.ok (ArsLayer.ext_data rfl rfl ?_ h)
  exact (Nat.or_zero l.lFlags).symm

theorem put_assigns {src : List UInt8} (hw : 8 * src.length = w) (hfit : off + src.length ≤ n)
    {l : ArsLayer} (hl : Room n l) :
    put off src l = .ok (l.assigned (8 * off) w (fun p => bitAt src (p - 8 * off)) 0) := by
  subst hw
  exact put_eq_assigned (hfit.trans hl.le_length) (writeAt_eq_assign (hfit.trans hl.le_length))

theorem Takes.taking {st : Setter} (h : Takes n s w st) (flag : ℕ) :
    Takes n s w (taking flag st) := by
  intro libc v
  obtain ⟨c, flag', hok⟩ := h libc v
  refine ⟨c, flag' ||| flag, fun l hl => ?_⟩
  rw [StyxWire.taking, hok l hl]
  exact congrArg Except.ok (ArsLayer.ext_data rfl rfl (Nat.or_assoc _ _ _) rfl)

/-- A setter of whole bytes. -/
theorem takes_put (off : ℕ) {src : List UInt8 → List UInt8} (hw : ∀ v, 8 * (src v).length = w)
    (hfit : 8 * off + w ≤ 8 * n) : Takes n (8 * off) w fun _ v => put off (src v) := by
  intro _ v
  have hv := hw v
  exact ⟨fun p => bitAt (src v) (p - 8 * off), 0, fun l hl => put_assigns hv (by omega) hl⟩

theorem takes_setByte (off : ℕ) (h : 8 * off + 8 ≤ 8 * n) : Takes n (8 * off) 8 (setByte off) :=
  takes_put (w := 8) off (fun _ => rfl) h

theorem takes_setNet16 (off : ℕ) (h : 8 * off + 16 ≤ 8 * n) : Takes n (8 * off) 16 (setNet16 off) :=
  takes_put (w := 16) off (fun _ => rfl) h

theorem takes_setNet32 (off : ℕ) (h : 8 * off + 32 ≤ 8 * n) : Takes n (8 * off) 32 (setNet32 off) :=
  takes_put (w := 32) off (fun _ => rfl) h

theorem takes_setSymbol (off : ℕ) (h : 8 * off + 8 ≤ 8 * n) (symbols : List (String × ℕ)) :
    Takes n (8 * off) 8 (setSymbol off symbols) :=
  takes_put (w := 8) off (fun _ => rfl) h

/-- A setter of an address. -/
theorem assigns_resolve {resolve : Libc → List UInt8 → Except ArsErr (List UInt8)} {k : ℕ}
    (hlen : ∀ libc v, Ends (fun a => a.length = k) (· ≠ .oob) (resolve libc v)) (hw : 8 * k = w)
    (h : off + k ≤ n) : Assigns n (8 * off) w fun libc v l => resolve libc v >>= (put off · l) := by
  intro libc v
  have hlen := hlen libc v
  cases ha : resolve libc v with
  | error e =>
    refine Or.inr ⟨e, fun l _ => ?_⟩
    dsimp only
    rw [ha]
    rfl
  | ok a =>
    have hk : a.length = k := hlen.value ha
    refine Or.inl ⟨fun p => bitAt a (p - 8 * off), 0, fun l hl => ?_⟩
    dsimp only
    rw [ha]
    exact put_assigns (hk ▸ hw) (hk ▸ h) hl

theorem assigns_setAddr6 (off : ℕ) (h : off + 16 ≤ n) : Assigns n (8 * off) 128 (setAddr6 off) :=
  assigns_resolve ends_arsResolve6 rfl h

theorem put_setLo (h : off + 1 ≤ n) (x : ℕ) {l : ArsLayer} (hl : Room n l) :
    (rdByte l.lData off >>= fun b => put off [setLo b x] l) =
      .ok (l.assigned (8 * off + 4) 4 (fun p => x.testBit (8 * off + 7 - p)) 0) := by
  have hlt : off < l.lData.length := hl.lt_length h
  rw [rdByte_eq hlt, bind_ok]
  exact put_eq_assigned hlt (writeAt_setLo hlt)

theorem takes_setLow (off : ℕ) (h : off + 1 ≤ n) : Takes n (8 * off + 4) 4 (setLow off) :=
  fun _ v => ⟨fun p => (arsAtou v).testBit (8 * off + 7 - p), 0, fun _ hl =>
    put_setLo h (arsAtou v) hl⟩

theorem takes_setIgrpOpcode (h : 1 ≤ n) : Takes n 4 4 setIgrpOpcode :=
  fun _ _ => ⟨_, 0, fun _ hl => @put_setLo n 0 h _ _ hl⟩

theorem takes_setHigh (off : ℕ) (h : off + 1 ≤ n) : Takes n (8 * off) 4 (setHigh off) := by
  intro _ v
  refine ⟨fun p => (arsAtou v).testBit (8 * off + 3 - p), 0, fun l hl => ?_⟩
  have hlt : off < l.lData.length := hl.lt_length h
  rw [setHigh, rdByte_eq hlt, bind_ok]
  exact put_eq_assigned hlt (writeAt_setHi hlt)

/-! ### The first word of IPv6 -/

theorem testBit_arsIp6Word (v tc fl : ℕ) {i : ℕ} (hi : i < 32) :
    (arsIp6Word v tc fl).testBit i =
      if i < 20 then fl.testBit i else if i < 28 then tc.testBit (i - 20) else
        v.testBit (i - 28) := by
  have hword : arsIp6Word v tc fl =
      2 ^ 20 * (2 ^ 8 * (v % 2 ^ 4) + tc % 2 ^ 8) + fl % 2 ^ 20 := by
    rw [arsIp6Word]
    omega
  have hfl : fl % 2 ^ 20 < 2 ^ 20 := Nat.mod_lt _ (by decide)
  have htc : tc % 2 ^ 8 < 2 ^ 8 := Nat.mod_lt _ (by decide)
  rw [hword, Nat.testBit_two_pow_mul_add _ hfl]
  split_ifs with h20
  · rw [Nat.testBit_mod_two_pow, decide_eq_true h20, Bool.true_and]
  · rw [Nat.testBit_two_pow_mul_add _ htc, if_pos (by omega), Nat.testBit_mod_two_pow,
      decide_eq_true (by omega), Bool.true_and]
  · rw [Nat.testBit_two_pow_mul_add _ htc, if_neg (by omega), Nat.testBit_mod_two_pow,
      decide_eq_true (by omega), Bool.true_and]
    rfl

/-- The bits of the first word. -/
theorem testBit_verTcFl {l : ArsLayer} {i : ℕ} (hi : i < 32) :
    l.verTcFl.testBit i = bitAt l.lData (31 - i) := by
  have hbits := @bitAt_beBytes (31 - i) l.verTcFl 4 (by omega)
  rw [beBytes_four, ArsLayer.verTcFl, putBe32_be32] at hbits
  have hbyte : [l.byte 0, l.byte 1, l.byte 2, l.byte 3].getD ((31 - i) / 8) 0 =
      l.lData.getD ((31 - i) / 8) 0 := by
    obtain h | h | h | h : (31 - i) / 8 = 0 ∨ (31 - i) / 8 = 1 ∨ (31 - i) / 8 = 2 ∨
        (31 - i) / 8 = 3 := by omega
    all_goals
      rw [h]
      rfl
  have hexp : 8 * 4 - 1 - (31 - i) = i := by omega
  rw [ArsLayer.verTcFl, bitAt, ← hbyte]
  rw [bitAt, hexp] at hbits
  exact hbits.symm

/-- A setter of a part of the first word: the bits of the new word are those of the number in the
part, and those of the old word elsewhere. -/
theorem takes_setIp6Word (h : 4 ≤ n) {word : ArsLayer → ℕ → ℕ} (hin : s + w ≤ 32)
    (hword : ∀ l x, ∀ i < 32, (word l x).testBit i =
      if s ≤ 31 - i ∧ 31 - i < s + w then x.testBit (i - (32 - (s + w)))
      else l.verTcFl.testBit i) :
    Takes n s w (setIp6Word word) := by
  refine fun _ v => ⟨fun p => (arsAtou v).testBit (31 - p - (32 - (s + w))), 0,
    fun l hl => ?_⟩
  have hfit : 0 + (putBe32 (word l (arsAtou v))).length ≤ l.lData.length := by
    rw [length_putBe32]
    exact h.trans hl.le_length
  refine put_eq_assigned hfit (eq_assign (length_writeAt _ _ _) fun p hp => ?_)
  rw [bitAt_writeAt hfit, length_putBe32]
  by_cases hp32 : p < 32
  · rw [if_pos (by omega), ← beBytes_four, Nat.mul_zero, Nat.sub_zero, bitAt_beBytes (by omega),
      hword _ _ _ (by omega)]
    have hinv : 31 - (8 * 4 - 1 - p) = p := by omega
    rw [hinv]
    split_ifs
    · rfl
    · rw [testBit_verTcFl (by omega), hinv]
  · rw [if_neg (by omega), if_neg (by omega)]

theorem testBit_ip6Version (l : ArsLayer) {i : ℕ} (hi : 28 ≤ i) (hi' : i < 32) :
    l.ip6Version.testBit (i - 28) = l.verTcFl.testBit i := by
  have h16 : l.ip6Version = l.verTcFl / 2 ^ 28 % 2 ^ 4 := rfl
  rw [h16, Nat.testBit_mod_two_pow, Nat.testBit_div_two_pow, decide_eq_true (by omega),
    Bool.true_and, Nat.sub_add_cancel hi]

theorem testBit_ip6Tclass (l : ArsLayer) {i : ℕ} (hi : 20 ≤ i) (hi' : i < 28) :
    l.ip6Tclass.testBit (i - 20) = l.verTcFl.testBit i := by
  have h256 : l.ip6Tclass = l.verTcFl / 2 ^ 20 % 2 ^ 8 := rfl
  rw [h256, Nat.testBit_mod_two_pow, Nat.testBit_div_two_pow, decide_eq_true (by omega),
    Bool.true_and, Nat.sub_add_cancel hi]

theorem testBit_ip6Flow (l : ArsLayer) {i : ℕ} (hi : i < 20) :
    l.ip6Flow.testBit i = l.verTcFl.testBit i := by
  rw [ArsLayer.ip6Flow, Nat.testBit_mod_two_pow, decide_eq_true hi, Bool.true_and]

/-- The bits of a word that is put together again, with one part of it new. -/
theorem takes_ver : Takes 40 0 4 (setIp6Word fun l v => arsIp6Word v l.ip6Tclass l.ip6Flow) := by
  refine takes_setIp6Word (by omega) (by omega) fun l x i hi => ?_
  rw [testBit_arsIp6Word _ _ _ hi]
  split_ifs with h20
  · omega
  · exact testBit_ip6Flow l h20
  · omega
  · exact testBit_ip6Tclass l (by omega) (by omega)
  · rfl
  · omega

@[inherit_doc takes_ver]
theorem takes_tclass :
    Takes 40 4 8 (setIp6Word fun l v => arsIp6Word l.ip6Version v l.ip6Flow) := by
  refine takes_setIp6Word (by omega) (by omega) fun l x i hi => ?_
  rw [testBit_arsIp6Word _ _ _ hi]
  split_ifs with h20
  · omega
  · exact testBit_ip6Flow l h20
  · rfl
  · omega
  · omega
  · exact testBit_ip6Version l (by omega) hi

@[inherit_doc takes_ver]
theorem takes_flow :
    Takes 40 12 20 (setIp6Word fun l v => arsIp6Word l.ip6Version l.ip6Tclass v) := by
  refine takes_setIp6Word (by omega) (by omega) fun l x i hi => ?_
  rw [testBit_arsIp6Word _ _ _ hi]
  split_ifs with h20
  · rfl
  · omega
  · omega
  · exact testBit_ip6Tclass l (by omega) (by omega)
  · omega
  · exact testBit_ip6Version l (by omega) hi

/-! ### The fragment field -/

/-- The bits that a mask leaves. -/
theorem mask16_eq {op : UInt8 → UInt8 → UInt8} {b : Bool → Bool → Bool}
    (hop : ∀ x y : UInt8, ∀ i, (op x y).toNat.testBit i = b (x.toNat.testBit i) (y.toNat.testBit i))
    {m : List UInt8} (hm : m.length = 2) (h : off + 2 ≤ n) {l : ArsLayer} (hl : Room n l) :
    ∃ src : List UInt8, src.length = 2 ∧ mask16 op off m l = .ok (l.write off src) ∧
      ∀ p, bitAt (l.write off src).lData p = if 8 * off ≤ p ∧ p < 8 * off + 16 then
        b (bitAt l.lData p) (bitAt m (p - 8 * off)) else bitAt l.lData p := by
  have hle : off + 2 ≤ l.lData.length := h.trans hl.le_length
  have hold : ((l.lData.drop off).take 2).length = 2 := by
    rw [List.length_take, List.length_drop]
    omega
  have hsrc : (List.zipWith op ((l.lData.drop off).take 2) m).length = 2 := by
    rw [List.length_zipWith, hold, hm]
    rfl
  refine ⟨_, hsrc, ?_, fun p => ?_⟩
  · rw [mask16, rdBytes_eq hle, bind_ok, put, if_pos (by rw [hsrc]; exact hle)]
  · rw [ArsLayer.write_lData, bitAt_writeAt (by rw [hsrc]; exact hle), hsrc]
    by_cases hin : 8 * off ≤ p ∧ p < 8 * off + 16
    · rw [if_pos (by omega), if_pos hin, bitAt_zipWith hop (by rw [hold, hm]) (by omega),
        bitAt_slice (by omega)]
      congr 2
      omega
    · rw [if_neg (by omega), if_neg hin]

theorem testBit_and (x y : UInt8) (i : ℕ) :
    (x &&& y).toNat.testBit i = (x.toNat.testBit i && y.toNat.testBit i) := by
  rw [UInt8.toNat_and, Nat.testBit_and]

theorem testBit_or (x y : UInt8) (i : ℕ) :
    (x ||| y).toNat.testBit i = (x.toNat.testBit i || y.toNat.testBit i) := by
  rw [UInt8.toNat_or, Nat.testBit_or]

theorem bitAt_putBe16 (x : ℕ) {q : ℕ} (hq : q < 16) : bitAt (putBe16 x) q = x.testBit (15 - q) := by
  rw [← beBytes_two, bitAt_beBytes (by omega)]

/-- A mask that changes one bit. -/
theorem mask16_assigns {op : UInt8 → UInt8 → UInt8} {b : Bool → Bool → Bool}
    (hop : ∀ x y : UInt8, ∀ i, (op x y).toNat.testBit i = b (x.toNat.testBit i) (y.toNat.testBit i))
    {m : List UInt8} (hm : m.length = 2) {k : ℕ} (hk : k < 16) {c : Bool}
    (hmask : ∀ old q, q < 16 → b old (bitAt m q) = if k = 15 - q then c else old) {l : ArsLayer}
    (hl : Room 20 l) : mask16 op 6 m l = .ok (l.assigned (63 - k) 1 (fun _ => c) 0) := by
  obtain ⟨src, -, hok, hsrc⟩ := mask16_eq hop hm (show 6 + 2 ≤ 20 by decide) hl
  rw [hok]
  refine congrArg Except.ok (ArsLayer.ext_data rfl rfl (Nat.or_zero l.lFlags).symm ?_)
  change writeAt l.lData 6 src = assign (63 - k) 1 (fun _ => c) l.lData
  refine eq_assign (length_writeAt _ _ _) fun p _ => (hsrc p).trans ?_
  by_cases hin : 8 * 6 ≤ p ∧ p < 8 * 6 + 16
  · rw [if_pos hin, hmask _ _ (by omega)]
    exact if_congr (by omega) rfl rfl
  · rw [if_neg hin, if_neg (by omega)]

/-- A flag: it is set or cleared, and the other bits of its word stay. -/
theorem setFragBit_eq {k : ℕ} (hk : k < 16) (libc : Libc) (v : List UInt8) {l : ArsLayer}
    (hl : Room 20 l) :
    setFragBit (2 ^ k) libc v l =
      .ok (l.assigned (63 - k) 1 (fun _ => decide (arsAtou v ≠ 0)) 0) := by
  rw [setFragBit]
  split_ifs with hv
  · have hpow : 2 ^ k < 2 ^ 16 := Nat.pow_lt_pow_right (by decide) hk
    refine mask16_assigns testBit_and (length_putBe16 _) hk (fun old q hq => ?_) hl
    have hnot := Nat.testBit_two_pow_sub_succ hpow (15 - q)
    rw [Nat.testBit_two_pow, decide_eq_true (by omega), Bool.true_and] at hnot
    have hmask : 2 ^ 16 - (2 ^ k + 1) = 65535 - 2 ^ k := by omega
    rw [bitAt_putBe16 _ hq, ← hmask, hnot]
    split_ifs with hp
    · simp [hp, hv]
    · simp [hp]
  · refine mask16_assigns testBit_or (length_putBe16 _) hk (fun old q hq => ?_) hl
    rw [bitAt_putBe16 _ hq, Nat.testBit_two_pow]
    split_ifs with hp
    · simp [hp, hv]
    · simp [hp]

/-- The bits that the offset of a fragment leaves behind: those of the offset, or'ed with three of
the old ones. -/
def offsetBits (x : ℕ) (d : List UInt8) : List UInt8 :=
  ofBits d.length fun p => if 48 ≤ p ∧ p < 64 then
    decide (56 ≤ p ∧ p < 59) && bitAt d p || x.testBit (63 - p) else bitAt d p

/-- The layer with the offset of a fragment. -/
def ArsLayer.withOffset (l : ArsLayer) (x : ℕ) : ArsLayer :=
  { l with
    lData := offsetBits x l.lData
    size_le := by rw [offsetBits, length_ofBits]; exact l.size_le
    hdr_le := by rw [offsetBits, length_ofBits]; exact l.hdr_le }

@[simp] theorem length_withOffset (l : ArsLayer) (x : ℕ) :
    (l.withOffset x).lData.length = l.lData.length := by
  simp [ArsLayer.withOffset, offsetBits]

theorem bitAt_withOffset (l : ArsLayer) (x : ℕ) {p : ℕ} (hp : p < 8 * l.lData.length) :
    bitAt (l.withOffset x).lData p = if 48 ≤ p ∧ p < 64 then
      decide (56 ≤ p ∧ p < 59) && bitAt l.lData p || x.testBit (63 - p) else bitAt l.lData p := by
  have hdata : (l.withOffset x).lData = offsetBits x l.lData := rfl
  rw [hdata, offsetBits, bitAt_ofBits hp]

@[simp] theorem length_assigned (l : ArsLayer) (s w : ℕ) (c : ℕ → Bool) (flag : ℕ) :
    (l.assigned s w c flag).lData.length = l.lData.length :=
  length_assign

theorem bitAt_assigned (l : ArsLayer) (s w : ℕ) (c : ℕ → Bool) (flag : ℕ) {p : ℕ}
    (hp : p < 8 * l.lData.length) : bitAt (l.assigned s w c flag).lData p =
      if s ≤ p ∧ p < s + w then c p else bitAt l.lData p :=
  bitAt_assign hp

theorem setFragoff_eq (libc : Libc) (v : List UInt8) {l : ArsLayer} (hl : Room 20 l) :
    setFragoff libc v l = .ok (l.withOffset (arsAtou v / 8)) := by
  obtain ⟨src, hlen, hok, hsrc⟩ := mask16_eq testBit_and (length_putLe16 0xE000)
    (show 6 + 2 ≤ 20 by decide) hl
  obtain ⟨src', hlen', hok', hsrc'⟩ := mask16_eq testBit_or (length_putBe16 (arsAtou v / 8))
    (show 6 + 2 ≤ 20 by decide) (hl.write 6 src)
  have hmask : ∀ q < 16, bitAt (putLe16 0xE000) q = decide (8 ≤ q ∧ q < 11) := by decide
  rw [setFragoff, hok, bind_ok, hok']
  refine congrArg Except.ok (ArsLayer.ext_data rfl rfl rfl (ext_bits (by simp) fun p hp => ?_))
  · have hp' : p < 8 * l.lData.length := by simpa using hp
    rw [hsrc' p, hsrc p, bitAt_withOffset l _ hp']
    by_cases hin : 48 ≤ p ∧ p < 64
    · rw [if_pos hin, if_pos hin, if_pos hin, hmask _ (by omega), ← beBytes_two,
        bitAt_beBytes (by omega), Bool.and_comm]
      congr 2
      · exact decide_eq_decide.mpr (by omega)
      · omega
    · rw [if_neg hin, if_neg hin, if_neg hin]

end Assigns

/-! ### The headers -/

/-- The fields of a header: their names, the first bit, and how many bits they have. -/
abbrev Layout := List (List String × ℕ × ℕ)

/-- An IPv4 header. -/
def ipLayout : Layout :=
  [(["saddr"], 96, 32), (["daddr"], 128, 32), (["ihl"], 4, 4), (["ver"], 0, 4), (["tos"], 8, 8),
    (["totlen"], 16, 16), (["id"], 32, 16), (["fragoff"], 51, 13), (["mf"], 50, 1),
    (["df"], 49, 1), (["rf"], 48, 1), (["ttl"], 64, 8), (["proto"], 72, 8), (["cksum"], 80, 16)]

/-- An IPv6 header. -/
def ip6Layout : Layout :=
  [(["saddr"], 64, 128), (["daddr"], 192, 128), (["ver"], 0, 4), (["tclass"], 4, 8),
    (["flow"], 12, 20), (["plen"], 32, 16), (["nh", "nexthdr"], 48, 8),
    (["hlim", "hoplimit"], 56, 8)]

/-- A TCP header. -/
def tcpLayout : Layout :=
  [(["sport"], 0, 16), (["dport"], 16, 16), (["seq"], 32, 32), (["ack"], 64, 32),
    (["x2"], 100, 4), (["off"], 96, 4), (["flags"], 104, 8), (["win"], 112, 16),
    (["cksum"], 128, 16), (["urp"], 144, 16)]

/-- A UDP header. -/
def udpLayout : Layout :=
  [(["sport"], 0, 16), (["dport"], 16, 16), (["len"], 32, 16), (["cksum"], 48, 16)]

/-- An ICMPv6 header. -/
def icmp6Layout : Layout :=
  [(["type"], 0, 8), (["code"], 8, 8), (["cksum"], 16, 16), (["id"], 32, 16), (["seq"], 48, 16),
    (["unused"], 32, 32)]

/-- An IGRP header. -/
def igrpLayout : Layout :=
  [(["version"], 0, 4), (["opcode"], 4, 4), (["cksum"], 80, 16), (["edition"], 8, 8),
    (["autosys"], 16, 16), (["interior"], 32, 16), (["system"], 48, 16), (["exterior"], 64, 16)]

/-- **The headers**, with the fields where the protocols have them. -/
def headerLayouts : List (String × Layout) :=
  [("ip", ipLayout), ("ip6", ip6Layout), ("tcp", tcpLayout), ("udp", udpLayout),
    ("icmp6", icmp6Layout), ("igrp", igrpLayout)]

/-- The bits of the field that is meant by a name. -/
def fieldSpan (layout : Layout) (name : List UInt8) : Option (ℕ × ℕ) :=
  (layout.find? fun p => p.1.any fun s => strcaseEq name (lit s)).map Prod.snd

/-- Fields that have no bit in common. -/
def SpansApart (a b : ℕ × ℕ) : Prop := a.1 + a.2 ≤ b.1 ∨ b.1 + b.2 ≤ a.1

/-- The settings are of fields of the header, no two of which overlap. -/
structure FieldsApart (layout : Layout) (fs : List DField) : Prop where
  known : ∀ f ∈ fs, ∃ a, fieldSpan layout (lit f.name) = some a
  apart : fs.Pairwise fun f g => ∀ a ∈ fieldSpan layout (lit f.name),
    ∀ b ∈ fieldSpan layout (lit g.name), SpansApart a b

/-- A table of setters and a layout have the same rows. -/
theorem fieldSpan_eq_some {R : List String × Setter → List String × ℕ × ℕ → Prop} {fields : Fields}
    {layout : Layout} (h : List.Forall₂ (fun e p => e.1 = p.1 ∧ R e p) fields layout)
    {name : List UInt8} {a : ℕ × ℕ} (ha : fieldSpan layout name = some a) :
    ∃ e p, R e p ∧ p.2 = a ∧ (∃ s ∈ e.1, strcaseEq name (lit s)) ∧
      ∀ layer libc l v, arsDSet layer fields libc l name v = e.2 libc v l := by
  induction h with
  | nil => cases ha
  | @cons e p fields layout hep _ ih =>
    obtain ⟨hnames, hR⟩ := hep
    cases hmatch : e.1.any fun s => strcaseEq name (lit s) with
    | true =>
      have hrow : fieldSpan (p :: layout) name = some p.2 := by
        simp only [fieldSpan, List.find?_cons, ← hnames, hmatch, Option.map_some]
      refine ⟨e, p, hR, Option.some.inj (hrow.symm.trans ha), List.any_eq_true.mp hmatch,
        fun layer libc l v => ?_⟩
      simp only [arsDSet, List.find?_cons, hmatch]
    | false =>
      have hrow : fieldSpan (p :: layout) name = fieldSpan layout name := by
        simp only [fieldSpan, List.find?_cons, ← hnames, hmatch]
      obtain ⟨e', p', hR', ha', hname, hset⟩ := ih (hrow.symm.trans ha)
      refine ⟨e', p', hR', ha', hname, fun layer libc l v => ?_⟩
      rw [← hset layer libc l v]
      simp only [arsDSet, List.find?_cons, hmatch]

/-- The setters of a header, next to its layout. -/
def Rows (n : ℕ) (R : List String × Setter → List String × ℕ × ℕ → Prop) (k : ArsDKeywordInfo)
    (layout : Layout) : Prop :=
  newSize k = n ∧ ∃ layer fields, k.kiSet = arsDSet layer fields ∧
    List.Forall₂ (fun e p => e.1 = p.1 ∧ R e p) fields layout

/-- A row whose setter assigns. -/
abbrev AssignsRow (n : ℕ) (e : List String × Setter) (p : List String × ℕ × ℕ) : Prop :=
  Assigns n p.2.1 p.2.2 e.2

theorem rows_udp : Rows 8 (AssignsRow 8) ⟨"udp", arsAddUdphdr, arsDSetUdp⟩ udpLayout := by
  refine ⟨rfl, _, _, rfl, ?_⟩
  refine .cons ⟨rfl, (takes_setNet16 0 (by omega)).assigns⟩ ?_
  refine .cons ⟨rfl, (takes_setNet16 2 (by omega)).assigns⟩ ?_
  refine .cons ⟨rfl, ((takes_setNet16 4 (by omega)).taking _).assigns⟩ ?_
  exact .cons ⟨rfl, ((takes_setNet16 6 (by omega)).taking _).assigns⟩ .nil

theorem rows_tcp : Rows 20 (AssignsRow 20) ⟨"tcp", arsAddTcphdr, arsDSetTcp⟩ tcpLayout := by
  refine ⟨rfl, _, _, rfl, ?_⟩
  refine .cons ⟨rfl, (takes_setNet16 0 (by omega)).assigns⟩ ?_
  refine .cons ⟨rfl, (takes_setNet16 2 (by omega)).assigns⟩ ?_
  refine .cons ⟨rfl, (takes_setNet32 4 (by omega)).assigns⟩ ?_
  refine .cons ⟨rfl, (takes_setNet32 8 (by omega)).assigns⟩ ?_
  refine .cons ⟨rfl, (takes_setLow 12 (by omega)).assigns⟩ ?_
  refine .cons ⟨rfl, ((takes_setHigh 12 (by omega)).taking _).assigns⟩ ?_
  refine .cons ⟨rfl, (takes_put (w := 8) 13 (fun _ => rfl) (by omega)).assigns⟩ ?_
  refine .cons ⟨rfl, (takes_setNet16 14 (by omega)).assigns⟩ ?_
  refine .cons ⟨rfl, ((takes_setNet16 16 (by omega)).taking _).assigns⟩ ?_
  exact .cons ⟨rfl, (takes_setNet16 18 (by omega)).assigns⟩ .nil

theorem rows_ip6 : Rows 40 (AssignsRow 40) ⟨"ip6", arsAddIp6hdr, arsDSetIp6⟩ ip6Layout := by
  refine ⟨rfl, _, _, rfl, ?_⟩
  refine .cons ⟨rfl, assigns_setAddr6 8 (by omega)⟩ ?_
  refine .cons ⟨rfl, assigns_setAddr6 24 (by omega)⟩ ?_
  refine .cons ⟨rfl, (takes_ver.taking _).assigns⟩ ?_
  refine .cons ⟨rfl, takes_tclass.assigns⟩ ?_
  refine .cons ⟨rfl, takes_flow.assigns⟩ ?_
  refine .cons ⟨rfl, ((takes_setNet16 4 (by omega)).taking _).assigns⟩ ?_
  refine .cons ⟨rfl, ((takes_setSymbol 6 (by omega) _).taking _).assigns⟩ ?_
  exact .cons ⟨rfl, (takes_setByte 7 (by omega)).assigns⟩ .nil

theorem rows_icmp6 : Rows 8 (AssignsRow 8) ⟨"icmp6", arsAddIcmp6hdr, arsDSetIcmp6⟩ icmp6Layout := by
  refine ⟨rfl, _, _, rfl, ?_⟩
  refine .cons ⟨rfl, (takes_setByte 0 (by omega)).assigns⟩ ?_
  refine .cons ⟨rfl, (takes_setByte 1 (by omega)).assigns⟩ ?_
  refine .cons ⟨rfl, ((takes_setNet16 2 (by omega)).taking _).assigns⟩ ?_
  refine .cons ⟨rfl, (takes_setNet16 4 (by omega)).assigns⟩ ?_
  refine .cons ⟨rfl, (takes_setNet16 6 (by omega)).assigns⟩ ?_
  exact .cons ⟨rfl, (takes_setNet32 4 (by omega)).assigns⟩ .nil

theorem rows_igrp : Rows 12 (AssignsRow 12) ⟨"igrp", arsAddIgrphdr, arsDSetIgrp⟩ igrpLayout := by
  refine ⟨rfl, _, _, rfl, ?_⟩
  refine .cons ⟨rfl, (takes_setHigh 0 (by omega)).assigns⟩ ?_
  refine .cons ⟨rfl, (takes_setIgrpOpcode (by omega)).assigns⟩ ?_
  refine .cons ⟨rfl, ((takes_setNet16 10 (by omega)).taking _).assigns⟩ ?_
  refine .cons ⟨rfl, (takes_setByte 1 (by omega)).assigns⟩ ?_
  refine .cons ⟨rfl, (takes_setNet16 2 (by omega)).assigns⟩ ?_
  refine .cons ⟨rfl, (takes_setNet16 4 (by omega)).assigns⟩ ?_
  refine .cons ⟨rfl, (takes_setNet16 6 (by omega)).assigns⟩ ?_
  exact .cons ⟨rfl, (takes_setNet16 8 (by omega)).assigns⟩ .nil

/-- The flags of a fragment: the names, and the bits of a value of `fragoff` that lie in their
place. -/
def flagBits : List (String × ℕ) := [("mf", 16), ("df", 17), ("rf", 18)]

/-- A row of the setters of IPv4, next to its field. -/
inductive IpRow : List String × Setter → List String × ℕ × ℕ → Prop
  | offset : IpRow (["fragoff"], setFragoff) (["fragoff"], 51, 13)
  | flag (b : String × ℕ) (hb : b ∈ flagBits) :
    IpRow ([b.1], setFragBit (2 ^ (b.2 - 3))) ([b.1], 66 - b.2, 1)
  | addr (name : String) (hname : name = "saddr" ∨ name = "daddr") (off : ℕ) (hoff : 8 ≤ off)
    (hfit : off + 4 ≤ 20) : IpRow ([name], setAddr off) ([name], 8 * off, 32)
  | takes {names : List String} {st : Setter} {s w : ℕ} (h : Takes 20 s w st)
    (hout : s + w ≤ 48 ∨ 64 ≤ s) : IpRow (names, st) (names, s, w)

theorem rows_ip : Rows 20 IpRow ⟨"ip", arsAddIphdr, arsDSetIp⟩ ipLayout := by
  refine ⟨rfl, _, _, rfl, ?_⟩
  refine .cons ⟨rfl, .addr "saddr" (Or.inl rfl) 12 (by omega) (by omega)⟩ ?_
  refine .cons ⟨rfl, .addr "daddr" (Or.inr rfl) 16 (by omega) (by omega)⟩ ?_
  refine .cons ⟨rfl, .takes ((takes_setLow 0 (by omega)).taking _) (by omega)⟩ ?_
  refine .cons ⟨rfl, .takes ((takes_setHigh 0 (by omega)).taking _) (by omega)⟩ ?_
  refine .cons ⟨rfl, .takes (takes_setByte 1 (by omega)) (by omega)⟩ ?_
  refine .cons ⟨rfl, .takes ((takes_setNet16 2 (by omega)).taking _) (by omega)⟩ ?_
  refine .cons ⟨rfl, .takes (takes_setNet16 4 (by omega)) (by omega)⟩ ?_
  refine .cons ⟨rfl, .offset⟩ ?_
  refine .cons ⟨rfl, .flag ("mf", 16) (by decide)⟩ ?_
  refine .cons ⟨rfl, .flag ("df", 17) (by decide)⟩ ?_
  refine .cons ⟨rfl, .flag ("rf", 18) (by decide)⟩ ?_
  refine .cons ⟨rfl, .takes (takes_setByte 8 (by omega)) (by omega)⟩ ?_
  refine .cons ⟨rfl, .takes ((takes_setSymbol 9 (by omega) _).taking _) (by omega)⟩ ?_
  exact .cons ⟨rfl, .takes ((takes_setNet16 10 (by omega)).taking _) (by omega)⟩ .nil

/-! ### Settings that commute -/

section Commute

variable {n : ℕ} {s t : ArsLayer → Except ArsErr ArsLayer} {a b : ℕ × ℕ}

/-- Two settings make the same of a layer in both orders. -/
def Commute (n : ℕ) (s t : ArsLayer → Except ArsErr ArsLayer) : Prop :=
  ∀ l, Room n l → (s l >>= t).toOption = (t l >>= s).toOption

theorem Commute.symm (h : Commute n s t) : Commute n t s := fun l hl => (h l hl).symm

theorem Room.assigned {l : ArsLayer} (h : Room n l) (s w : ℕ) (c : ℕ → Bool) (flag : ℕ) :
    Room n (l.assigned s w c flag) := by
  refine ⟨?_, h.2⟩
  rw [length_assigned]
  exact h.1

theorem Room.withOffset {l : ArsLayer} (h : Room n l) (x : ℕ) : Room n (l.withOffset x) := by
  refine ⟨?_, h.2⟩
  rw [length_withOffset]
  exact h.1

/-- What a setting does to every layer. -/
inductive Effect (n : ℕ) (a : ℕ × ℕ) (s : ArsLayer → Except ArsErr ArsLayer) : Prop
  | assigns (c : ℕ → Bool) (flag : ℕ) (h : ∀ l, Room n l → s l = .ok (l.assigned a.1 a.2 c flag))
  | rejects (e : ArsErr) (h : ∀ l, Room n l → s l = .error e)

theorem Effect.room (h : Effect n a s) {l l' : ArsLayer} (hl : Room n l) (hs : s l = .ok l') :
    Room n l' := by
  cases h with
  | assigns c flag h =>
    rw [h l hl] at hs
    obtain rfl := Except.ok.inj hs
    exact hl.assigned _ _ _ _
  | rejects e h =>
    rw [h l hl] at hs
    cases hs

/-- A setting that is never accepted. -/
theorem commute_rejects {e : ArsErr} (hs : ∀ l, Room n l → s l = .error e)
    (ht : ∀ l l', Room n l → t l = .ok l' → Room n l') : Commute n s t := by
  intro l hl
  rw [hs l hl]
  cases htl : t l with
  | error e' => rfl
  | ok l' =>
    change none = (s l').toOption
    rw [hs l' (ht l l' hl htl)]
    rfl

/-- **Settings of fields that do not overlap commute.** -/
theorem Effect.commute (hs : Effect n a s) (ht : Effect n b t) (hab : SpansApart a b) :
    Commute n s t := by
  cases hs with
  | rejects e h => exact commute_rejects h fun _ _ hl => ht.room hl
  | assigns c flag h =>
    cases ht with
    | rejects e h' =>
      exact (commute_rejects h' fun _ _ hl hs => Effect.room (.assigns c flag h) hl hs).symm
    | assigns c' flag' h' =>
      intro l hl
      rw [h l hl, h' l hl, bind_ok, bind_ok, h' _ (hl.assigned _ _ _ _), h _ (hl.assigned _ _ _ _)]
      refine congrArg (fun l => (Except.ok l : Except ArsErr ArsLayer).toOption) ?_
      refine ArsLayer.ext_data rfl rfl (Nat.or_right_comm _ _ _) ?_
      exact (assign_comm hab).symm

/-- The offset of a fragment, and a field outside of its word. -/
theorem Effect.commute_offset (ht : Effect n b t) (hout : b.1 + b.2 ≤ 48 ∨ 64 ≤ b.1) {x : ℕ}
    (hs : ∀ l, Room n l → s l = .ok (l.withOffset x)) : Commute n s t := by
  have hroom : ∀ l l', Room n l → s l = .ok l' → Room n l' := by
    intro l l' hl hsl
    rw [hs l hl] at hsl
    obtain rfl := Except.ok.inj hsl
    exact hl.withOffset x
  cases ht with
  | rejects e h => exact (commute_rejects h hroom).symm
  | assigns c flag h =>
    intro l hl
    rw [hs l hl, h l hl, bind_ok, bind_ok, h _ (hl.withOffset _), hs _ (hl.assigned _ _ _ _)]
    refine congrArg (fun l => (Except.ok l : Except ArsErr ArsLayer).toOption) ?_
    refine ArsLayer.ext_data rfl rfl rfl (eq_assign (by simp) fun p hp => ?_).symm
    rw [length_withOffset] at hp
    rw [bitAt_withOffset _ _ (by simpa using hp), bitAt_withOffset _ _ hp,
      bitAt_assigned _ _ _ _ _ hp]
    by_cases hin : 48 ≤ p ∧ p < 64
    · have hno : ¬(b.1 ≤ p ∧ p < b.1 + b.2) := by omega
      rw [if_pos hin, if_pos hin, if_neg hno, if_neg hno]
    · rw [if_neg hin, if_neg hin]

/-- **A flag and an offset commute** if the flag is what the offset has in its place. -/
theorem commute_flag_iff {k v : ℕ} (hk : 16 ≤ k) (hk' : k < 19) {c : Bool}
    (hs : ∀ l, Room 20 l → s l = .ok (l.withOffset (v / 8)))
    (ht : ∀ l, Room 20 l → t l = .ok (l.assigned (66 - k) 1 (fun _ => c) 0)) {l : ArsLayer}
    (hl : Room 20 l) : (s l >>= t).toOption = (t l >>= s).toOption ↔ c = v.testBit k := by
  have hlen := hl.le_length
  have hplace : (v / 8).testBit (63 - (66 - k)) = v.testBit k := by
    rw [show 8 = 2 ^ 3 from rfl, Nat.testBit_div_two_pow]
    congr 1
    omega
  rw [hs l hl, ht l hl, bind_ok, bind_ok, ht _ (hl.withOffset _), hs _ (hl.assigned _ _ _ _)]
  constructor
  · intro h
    have hdata := congrArg ArsLayer.lData (Option.some.inj h)
    have hbit : bitAt ((l.withOffset (v / 8)).assigned (66 - k) 1 (fun _ => c) 0).lData (66 - k) =
        bitAt ((l.assigned (66 - k) 1 (fun _ => c) 0).withOffset (v / 8)).lData (66 - k) := by
      rw [hdata]
    rw [bitAt_assigned _ _ _ _ _ (by rw [length_withOffset]; omega), if_pos (by omega),
      bitAt_withOffset _ _ (by rw [length_assigned]; omega), if_pos (by omega), hplace,
      decide_eq_false (by omega), Bool.false_and, Bool.false_or] at hbit
    exact hbit
  · intro hc
    refine congrArg (fun l => (Except.ok l : Except ArsErr ArsLayer).toOption) ?_
    refine ArsLayer.ext_data rfl rfl rfl (ext_bits (by simp) fun p hp => ?_)
    have hp' : p < 8 * l.lData.length := by simpa using hp
    rw [bitAt_assigned _ _ _ _ _ (by rwa [length_withOffset]), bitAt_withOffset _ _ hp',
      bitAt_withOffset _ _ (by rwa [length_assigned]), bitAt_assigned _ _ _ _ _ hp']
    by_cases hin : 66 - k ≤ p ∧ p < 66 - k + 1
    · obtain rfl : p = 66 - k := by omega
      rw [if_pos hin, if_pos (by omega), hplace, decide_eq_false (by omega), Bool.false_and,
        Bool.false_or, hc]
    · rw [if_neg hin, if_neg hin]

end Commute

/-! ### The settings of IPv4 -/

/-- The address of the setting is resolved, if it is one. -/
def Resolved (libc : Libc) (f : DField) : Prop :=
  strcaseEq (lit f.name) (lit "saddr") ∨ strcaseEq (lit f.name) (lit "daddr") →
    ∃ a, arsResolve libc f.value = .ok a

/-- If the first setting is an offset and the second a flag, the flag is the bit of the offset that
lies in its place: `fragoff` is a number of bytes, so that its bits from 16 on are beyond any
fragment. -/
def KeepsFlag (f g : DField) : Prop :=
  strcaseEq (lit f.name) (lit "fragoff") → ∀ b ∈ flagBits, strcaseEq (lit g.name) (lit b.1) →
    (arsAtou g.value ≠ 0 ↔ (arsAtou f.value).testBit b.2)

/-- What a setting of an IPv4 header does. -/
inductive IpSetting (libc : Libc) (f : DField) (a : ℕ × ℕ) : Prop
  | offset (hname : strcaseEq (lit f.name) (lit "fragoff")) (ha : a = (51, 13))
    (h : ∀ l, Room 20 l →
    arsDSetIp libc l (lit f.name) f.value = .ok (l.withOffset (arsAtou f.value / 8)))
  | flag (b : String × ℕ) (hb : b ∈ flagBits) (hname : strcaseEq (lit f.name) (lit b.1))
    (ha : a = (66 - b.2, 1)) (h : ∀ l, Room 20 l →
    arsDSetIp libc l (lit f.name) f.value =
      .ok (l.assigned (66 - b.2) 1 (fun _ => decide (arsAtou f.value ≠ 0)) 0))
  | other (hout : a.1 + a.2 ≤ 48 ∨ 64 ≤ a.1)
    (h : Effect 20 a fun l => arsDSetIp libc l (lit f.name) f.value)
    (hacc : Resolved libc f → ∀ l, Room 20 l →
      ∃ l', arsDSetIp libc l (lit f.name) f.value = .ok l')

section Ip

variable {libc : Libc} {f g : DField} {a b : ℕ × ℕ}

theorem flagBits_range {b : String × ℕ} (hb : b ∈ flagBits) : 16 ≤ b.2 ∧ b.2 < 19 := by
  have hall : ∀ b ∈ flagBits, 16 ≤ b.2 ∧ b.2 < 19 := by decide
  exact hall b hb

theorem ip_setting (libc : Libc) (ha : fieldSpan ipLayout (lit f.name) = some a) :
    IpSetting libc f a := by
  obtain ⟨-, layer, fields, hset, hrows⟩ := rows_ip
  obtain ⟨e, p, hrow, rfl, hname, he⟩ := fieldSpan_eq_some hrows ha
  have hkiset : ∀ l, arsDSetIp libc l (lit f.name) f.value = e.2 libc f.value l := by
    intro l
    have hip : arsDSetIp = arsDSet layer fields := hset
    rw [hip]
    exact he layer libc l f.value
  cases hrow with
  | offset =>
    obtain ⟨s, hs, heq⟩ := hname
    obtain rfl := List.mem_singleton.mp hs
    exact .offset heq rfl fun l hl => (hkiset l).trans (setFragoff_eq libc f.value hl)
  | flag b hb =>
    have hrange := flagBits_range hb
    obtain ⟨s, hs, heq⟩ := hname
    obtain rfl := List.mem_singleton.mp hs
    refine .flag b hb heq rfl fun l hl => (hkiset l).trans ?_
    have hplace : 63 - (b.2 - 3) = 66 - b.2 := by omega
    rw [← hplace]
    exact setFragBit_eq (by omega) libc f.value hl
  | addr name hsd off hoff hfit =>
    have hout : 8 * off + 32 ≤ 48 ∨ 64 ≤ 8 * off := by omega
    obtain ⟨s, hs, heq⟩ := hname
    obtain rfl := List.mem_singleton.mp hs
    have hsaddr : strcaseEq (lit f.name) (lit "saddr") ∨ strcaseEq (lit f.name) (lit "daddr") := by
      rcases hsd with rfl | rfl
      · exact Or.inl heq
      · exact Or.inr heq
    cases haddr : arsResolve libc f.value with
    | error e =>
      refine .other hout (.rejects e fun l _ => (hkiset l).trans ?_) fun hres _ _ => ?_
      · change (arsResolve libc f.value >>= (put off · l)) = _
        rw [haddr]
        rfl
      · obtain ⟨addr, hok⟩ := hres hsaddr
        cases haddr.symm.trans hok
    | ok addr =>
      have hlen : addr.length = 4 := (ends_arsResolve libc f.value).value haddr
      have hput : ∀ l, Room 20 l → arsDSetIp libc l (lit f.name) f.value =
          .ok (l.assigned (8 * off) 32 (fun p => bitAt addr (p - 8 * off)) 0) := by
        intro l hl
        refine (hkiset l).trans ?_
        change (arsResolve libc f.value >>= (put off · l)) = _
        rw [haddr]
        exact put_assigns (by rw [hlen]) (by rw [hlen]; exact hfit) hl
      exact .other hout (.assigns _ 0 hput) fun _ l hl => ⟨_, hput l hl⟩
  | @takes names st s w h hout =>
    obtain ⟨c, flag, hok⟩ := h libc f.value
    refine .other hout (.assigns c flag fun l hl => (hkiset l).trans (hok l hl)) fun _ l hl => ?_
    exact ⟨_, (hkiset l).trans (hok l hl)⟩

theorem IpSetting.room (h : IpSetting libc f a) {l l' : ArsLayer} (hl : Room 20 l)
    (hset : arsDSetIp libc l (lit f.name) f.value = .ok l') : Room 20 l' := by
  cases h with
  | offset hname ha h =>
    obtain rfl := Except.ok.inj ((h l hl).symm.trans hset)
    exact hl.withOffset _
  | flag b hb hname ha h =>
    obtain rfl := Except.ok.inj ((h l hl).symm.trans hset)
    exact hl.assigned _ _ _ _
  | other hout h hacc => exact h.room hl hset

theorem IpSetting.accepted (h : IpSetting libc f a) (hres : Resolved libc f) {l : ArsLayer}
    (hl : Room 20 l) : ∃ l', arsDSetIp libc l (lit f.name) f.value = .ok l' := by
  cases h with
  | offset hname ha h => exact ⟨_, h l hl⟩
  | flag b hb hname ha h => exact ⟨_, h l hl⟩
  | other hout h hacc => exact hacc hres l hl

/-- The field that is meant by a name does not depend on the case of its letters. -/
theorem fieldSpan_congr {layout : Layout} {x y : List UInt8} (h : strcaseEq x y) :
    fieldSpan layout x = fieldSpan layout y := by
  have hmap : x.map toLower = y.map toLower := beq_iff_eq.mp h
  rw [fieldSpan, fieldSpan]
  congr 2
  funext p
  congr 1
  funext s
  rw [strcaseEq, strcaseEq, hmap]

theorem fieldSpan_fragoff (h : strcaseEq (lit f.name) (lit "fragoff")) :
    fieldSpan ipLayout (lit f.name) = some (51, 13) :=
  (fieldSpan_congr h).trans (by decide)

theorem fieldSpan_flag {b : String × ℕ} (hb : b ∈ flagBits)
    (h : strcaseEq (lit g.name) (lit b.1)) :
    fieldSpan ipLayout (lit g.name) = some (66 - b.2, 1) := by
  have hall : ∀ b ∈ flagBits, fieldSpan ipLayout (lit b.1) = some (66 - b.2, 1) := by decide
  exact (fieldSpan_congr h).trans (hall b hb)

/-- **Two settings of an IPv4 header commute** if the flag that one of them may set is what the
offset of the other has in its place. -/
theorem commute_ip (hf : fieldSpan ipLayout (lit f.name) = some a)
    (hg : fieldSpan ipLayout (lit g.name) = some b) (hab : SpansApart a b) (hkeep : KeepsFlag f g)
    (hkeep' : KeepsFlag g f) :
    Commute 20 (fun l => arsDSetIp libc l (lit f.name) f.value)
      fun l => arsDSetIp libc l (lit g.name) g.value := by
  -- an offset, and any other setting
  have key : ∀ {f g : DField} {a b : ℕ × ℕ}, strcaseEq (lit f.name) (lit "fragoff") →
      a = (51, 13) → (∀ l, Room 20 l → arsDSetIp libc l (lit f.name) f.value =
        .ok (l.withOffset (arsAtou f.value / 8))) → IpSetting libc g b → SpansApart a b →
      KeepsFlag f g → Commute 20 (fun l => arsDSetIp libc l (lit f.name) f.value)
        fun l => arsDSetIp libc l (lit g.name) g.value := by
    rintro f g a b hname rfl h hg hab hkeep
    cases hg with
    | offset hname' hb h' =>
      subst hb
      exact absurd hab (by simp [SpansApart])
    | flag c hc hname' hb h' =>
      have hrange := flagBits_range hc
      intro l hl
      refine (commute_flag_iff hrange.1 hrange.2 h h' hl).mpr ?_
      exact Bool.eq_iff_iff.mpr (decide_eq_true_iff.trans (hkeep hname c hc hname'))
    | other hout h' hacc => exact h'.commute_offset hout h
  have hsf := ip_setting libc hf
  have hsg := ip_setting libc hg
  have heffect : ∀ {f : DField} {a : ℕ × ℕ}, IpSetting libc f a →
      (∀ l, Room 20 l → arsDSetIp libc l (lit f.name) f.value =
        .ok (l.withOffset (arsAtou f.value / 8))) ∧ a = (51, 13) ∧
          strcaseEq (lit f.name) (lit "fragoff") ∨
      Effect 20 a fun l => arsDSetIp libc l (lit f.name) f.value := by
    rintro f a (⟨hname, ha, h⟩ | ⟨c, hc, hname, rfl, h⟩ | ⟨hout, h, hacc⟩)
    · exact Or.inl ⟨h, ha, hname⟩
    · exact Or.inr (.assigns _ 0 h)
    · exact Or.inr h
  rcases heffect hsf with ⟨h, ha, hname⟩ | hef
  · exact key hname ha h hsg hab hkeep
  · rcases heffect hsg with ⟨h, hb, hname⟩ | heg
    · exact (key hname hb h hsf hab.symm hkeep').symm
    · exact hef.commute heg hab

end Ip

/-! ### Lists of settings -/

/-- The layers that a description of one layer builds, if it builds any. -/
def builtLayers (libc : Libc) (d : LayerDesc) : Option (List ArsLayer) :=
  (arsDBuild libc arsInit (descText [d])).toOption.map ArsPacket.pLayer

section Lists

variable {libc : Libc} {k : ArsDKeywordInfo} {n : ℕ}

/-- **What a description builds** is the new layer of its keyword with the fields set. -/
theorem builtLayers_eq {d : LayerDesc} (hd : d.Wf) {new : ArsLayer}
    (hk : arsGetKeywordByName (lit d.kw) = some k) (hadd : AddsLayer k.kiAdd new) :
    builtLayers libc d = (setFields libc k d.fields new).toOption.map fun l => [l] := by
  cases hset : setFields libc k d.fields new with
  | ok l =>
    obtain ⟨pkt, hok, hl⟩ := (arsDBuild_single_iff hd hk hadd).mpr hset
    rw [builtLayers, hok]
    exact congrArg some hl
  | error e =>
    have hnone : ∀ pkt, arsDBuild libc arsInit (descText [d]) ≠ .ok pkt := by
      intro pkt hok
      have hds : ∀ g ∈ [d], g.Wf := fun g hg => List.mem_singleton.mp hg ▸ hd
      have hlen : [d].length ≤ arsMaxLayer := by
        rw [List.length_singleton]
        decide
      have hbuilds := (arsDBuild_iff (List.cons_ne_nil d []) hds hlen).mp ⟨pkt, hok, rfl⟩
      generalize pkt.pLayer = ls at hbuilds
      cases hbuilds with
      | cons hl _ =>
        rw [Builds, build_eq hk hadd, hset] at hl
        cases hl
    cases hbuild : arsDBuild libc arsInit (descText [d]) with
    | ok pkt => exact absurd hbuild (hnone pkt)
    | error e' =>
      rw [builtLayers, hbuild]
      rfl

/-- **Settings that commute can be made in any order.** -/
theorem setFields_perm {fs fs' : List DField} (hperm : fs'.Perm fs)
    (hroom : ∀ f ∈ fs, ∀ l l', Room n l → k.kiSet libc l (lit f.name) f.value = .ok l' → Room n l')
    (hcomm : ∀ f ∈ fs, ∀ g ∈ fs, f ≠ g → Commute n
      (fun l => k.kiSet libc l (lit f.name) f.value) fun l => k.kiSet libc l (lit g.name) g.value)
    {l : ArsLayer} (hl : Room n l) :
    (setFields libc k fs' l).toOption = (setFields libc k fs l).toOption := by
  refine (toOption_foldlM_perm hperm.symm (fun l f hf hl l' => hroom f hf l l' hl) ?_ hl).symm
  intro l f hf g hg hl
  rcases eq_or_ne f g with rfl | hne
  · rfl
  · exact hcomm f hf g hg hne l hl

/-- Two of the settings. -/
theorem FieldsApart.spans {layout : Layout} {fs : List DField} (h : FieldsApart layout fs)
    {f g : DField} (hf : f ∈ fs) (hg : g ∈ fs) (hne : f ≠ g) :
    ∃ a b, fieldSpan layout (lit f.name) = some a ∧ fieldSpan layout (lit g.name) = some b ∧
      SpansApart a b := by
  obtain ⟨a, ha⟩ := h.known f hf
  obtain ⟨b, hb⟩ := h.known g hg
  have hsymm : Std.Symm fun f g : DField => ∀ a ∈ fieldSpan layout (lit f.name),
      ∀ b ∈ fieldSpan layout (lit g.name), SpansApart a b :=
    ⟨fun f g hfg b hb a ha => (hfg a ha b hb).symm⟩
  exact ⟨a, b, ha, hb, h.apart.forall hf hg hne a ha b hb⟩

/-- The setting of a header whose setters assign. -/
theorem effect_of_rows {layout : Layout} (h : Rows n (AssignsRow n) k layout) (libc : Libc)
    {f : DField} {a : ℕ × ℕ} (ha : fieldSpan layout (lit f.name) = some a) :
    Effect n a fun l => k.kiSet libc l (lit f.name) f.value := by
  obtain ⟨-, layer, fields, hset, hrows⟩ := h
  obtain ⟨e, p, hrow, rfl, -, he⟩ := fieldSpan_eq_some hrows ha
  have hkiset : ∀ l, k.kiSet libc l (lit f.name) f.value = e.2 libc f.value l := by
    intro l
    rw [hset]
    exact he layer libc l f.value
  rcases hrow libc f.value with ⟨c, flag, hok⟩ | ⟨e', herr⟩
  · exact .assigns c flag fun l hl => (hkiset l).trans (hok l hl)
  · exact .rejects e' fun l hl => (hkiset l).trans (herr l hl)

/-- **A header whose setters assign** takes its fields in any order. -/
theorem perm_of_rows {layout : Layout} (h : Rows n (AssignsRow n) k layout) {fs fs' : List DField}
    (hfs : FieldsApart layout fs) (hperm : fs'.Perm fs) {l : ArsLayer} (hl : Room n l) :
    (setFields libc k fs' l).toOption = (setFields libc k fs l).toOption := by
  refine setFields_perm hperm (fun f hf l l' hl => ?_) (fun f hf g hg hne => ?_) hl
  · obtain ⟨a, ha⟩ := hfs.known f hf
    exact (effect_of_rows h libc ha).room hl
  · obtain ⟨a, b, ha, hb, hab⟩ := hfs.spans hf hg hne
    exact (effect_of_rows h libc ha).commute (effect_of_rows h libc hb) hab

/-- An IPv4 header takes its fields in any order, if no flag is lost. -/
theorem perm_ip {fs fs' : List DField} (hfs : FieldsApart ipLayout fs)
    (hkeep : ∀ f ∈ fs, ∀ g ∈ fs, KeepsFlag f g) (hperm : fs'.Perm fs) {l : ArsLayer}
    (hl : Room 20 l) :
    (setFields libc ⟨"ip", arsAddIphdr, arsDSetIp⟩ fs' l).toOption =
      (setFields libc ⟨"ip", arsAddIphdr, arsDSetIp⟩ fs l).toOption := by
  refine setFields_perm hperm (fun f hf l l' hl => ?_) (fun f hf g hg hne => ?_) hl
  · obtain ⟨a, ha⟩ := hfs.known f hf
    exact (ip_setting libc ha).room hl
  · obtain ⟨a, b, ha, hb, hab⟩ := hfs.spans hf hg hne
    exact commute_ip ha hb hab (hkeep f hf g hg) (hkeep g hg f hf)

/-- Two fields of a list, behind the others. -/
theorem exists_perm_pair {fs : List DField} {f g : DField} (hf : f ∈ fs) (hg : g ∈ fs)
    (hne : f ≠ g) : ∃ rest, (rest ++ [f, g]).Perm fs := by
  have hnodup : [f, g].Nodup := by simpa using hne
  have hsub : [f, g] ⊆ fs := by simpa using ⟨hf, hg⟩
  obtain ⟨gs, hgs, hsublist⟩ := List.subperm_iff.mp (hnodup.subperm hsub)
  obtain ⟨rest, hrest⟩ := hsublist.exists_perm_append
  exact ⟨rest, (List.perm_append_comm.trans hrest.symm).trans hgs⟩

/-- Settings of an IPv4 header are accepted if the addresses in them are. -/
theorem setFields_ip_accepted {fs : List DField}
    (hknown : ∀ f ∈ fs, ∃ a, fieldSpan ipLayout (lit f.name) = some a)
    (hres : ∀ f ∈ fs, Resolved libc f) {l : ArsLayer} (hl : Room 20 l) :
    ∃ l', setFields libc ⟨"ip", arsAddIphdr, arsDSetIp⟩ fs l = .ok l' ∧ Room 20 l' := by
  induction fs generalizing l with
  | nil => exact ⟨l, rfl, hl⟩
  | cons f fs ih =>
    obtain ⟨a, ha⟩ := hknown f List.mem_cons_self
    have hset := ip_setting libc ha
    obtain ⟨l₁, hl₁⟩ := hset.accepted (hres f List.mem_cons_self) hl
    obtain ⟨l', hl', hroom⟩ := ih (fun g hg => hknown g (List.mem_cons_of_mem f hg))
      (fun g hg => hres g (List.mem_cons_of_mem f hg)) (hset.room hl hl₁)
    refine ⟨l', ?_, hroom⟩
    rw [setFields_cons]
    dsimp only
    rw [hl₁]
    exact hl'

/-- An address that is set is resolved. -/
theorem resolved_of_accepted {f : DField} {l l' : ArsLayer}
    (h : arsDSetIp libc l (lit f.name) f.value = .ok l') : Resolved libc f := by
  intro hname
  have hset : ∃ off, arsDSetIp libc l (lit f.name) f.value = setAddr off libc f.value l := by
    by_cases hs : strcaseEq (lit f.name) (lit "saddr")
    · exact ⟨12, by simp [arsDSetIp, arsDSet, hs]⟩
    · exact ⟨16, by simp [arsDSetIp, arsDSet, hs, hname.resolve_left hs]⟩
  obtain ⟨off, hset⟩ := hset
  cases haddr : arsResolve libc f.value with
  | ok a => exact ⟨a, rfl⟩
  | error e =>
    rw [hset, setAddr, haddr] at h
    cases h

@[inherit_doc resolved_of_accepted]
theorem resolved_of_setFields {fs : List DField} {l l' : ArsLayer}
    (h : setFields libc ⟨"ip", arsAddIphdr, arsDSetIp⟩ fs l = .ok l') :
    ∀ f ∈ fs, Resolved libc f := by
  induction fs generalizing l with
  | nil => exact fun f hf => absurd hf List.not_mem_nil
  | cons f fs ih =>
    rw [setFields_cons] at h
    dsimp only at h
    cases hset : arsDSetIp libc l (lit f.name) f.value with
    | error e =>
      rw [hset] at h
      cases h
    | ok l₁ =>
      rw [hset] at h
      exact List.forall_mem_cons.mpr ⟨resolved_of_accepted hset, ih h⟩

/-- **A flag that is lost**: an offset and a flag that make the same of every layer in both orders
agree. -/
theorem keepsFlag_of_comm {f g : DField} {l : ArsLayer} (hl : Room 20 l)
    (h : strcaseEq (lit f.name) (lit "fragoff") → ∀ b ∈ flagBits,
      strcaseEq (lit g.name) (lit b.1) →
      (arsDSetIp libc l (lit f.name) f.value >>= fun l =>
          arsDSetIp libc l (lit g.name) g.value).toOption =
        (arsDSetIp libc l (lit g.name) g.value >>= fun l =>
          arsDSetIp libc l (lit f.name) f.value).toOption) : KeepsFlag f g := by
  intro hf b hb hg
  have hrange := flagBits_range hb
  have hcomm := h hf b hb hg
  cases ip_setting libc (fieldSpan_fragoff hf) with
  | flag c hc hname ha hok => cases congrArg Prod.snd ha
  | other hout _ _ => omega
  | offset hname ha hoff =>
    cases ip_setting libc (fieldSpan_flag hb hg) with
    | offset hname ha hok => cases congrArg Prod.snd ha
    | other hout _ _ => omega
    | flag c hc hname ha hflag =>
      have hbit : b.2 = c.2 := by
        have hplace : 66 - b.2 = 66 - c.2 := congrArg Prod.fst ha
        have hrange' := flagBits_range hc
        omega
      rw [← hbit] at hflag
      have hiff := (commute_flag_iff hrange.1 hrange.2 hoff hflag hl).mp hcomm
      exact decide_eq_true_iff.symm.trans (Bool.eq_iff_iff.mp hiff)

end Lists

/-! ### Whole descriptions -/

/-- What every order of the fields builds. -/
def OrderFree (libc : Libc) (kw : String) (fs : List DField) : Prop :=
  ∀ fs' : List DField, fs'.Perm fs → builtLayers libc ⟨kw, fs'⟩ = builtLayers libc ⟨kw, fs⟩

section Headers

variable {libc : Libc} {kw : String} {layout : Layout} {fs : List DField}

/-- The order of the fields is the order of the settings of a new layer. -/
theorem orderFree_iff {k : ArsDKeywordInfo} {new : ArsLayer} (hkw : IsWord (lit kw))
    (hk : arsGetKeywordByName (lit kw) = some k) (hadd : AddsLayer k.kiAdd new)
    (hwf : ∀ f ∈ fs, f.Wf) : OrderFree libc kw fs ↔ ∀ fs' : List DField, fs'.Perm fs →
      (setFields libc k fs' new).toOption = (setFields libc k fs new).toOption := by
  refine forall_congr' fun fs' => imp_congr_right fun hperm => ?_
  have hwf' : ∀ f ∈ fs', f.Wf := fun f hf => hwf f (hperm.mem_iff.mp hf)
  have hinj : Function.Injective fun l : ArsLayer => [l] := fun _ _ h => List.singleton_injective h
  rw [@builtLayers_eq libc k ⟨kw, fs'⟩ ⟨hkw, hwf'⟩ new hk hadd,
    @builtLayers_eq libc k ⟨kw, fs⟩ ⟨hkw, hwf⟩ new hk hadd]
  exact (Option.map_injective hinj).eq_iff

/-- The headers whose setters assign. -/
theorem orderFree_of_rows {n : ℕ} {k : ArsDKeywordInfo} (h : Rows n (AssignsRow n) k layout)
    (hkw : IsWord (lit kw)) (hk : arsGetKeywordByName (lit kw) = some k)
    (hwf : ∀ f ∈ fs, f.Wf) (hfs : FieldsApart layout fs) : OrderFree libc kw fs := by
  have hmem : k ∈ arsDkinfo := List.mem_of_find?_eq_some hk
  obtain ⟨new, hadd⟩ := exists_addsLayer hmem
  have hroom : Room n new := by
    rw [← h.1]
    exact @room_of_setFields libc k hmem new new hadd [] rfl
  exact (orderFree_iff hkw hk hadd hwf).mpr fun _ hperm => perm_of_rows h hfs hperm hroom

/-- An IPv4 header. -/
theorem orderFree_ip_iff (hwf : ∀ f ∈ fs, f.Wf) (hfs : FieldsApart ipLayout fs) :
    OrderFree libc "ip" fs ↔
      ((∀ f ∈ fs, Resolved libc f) → ∀ f ∈ fs, ∀ g ∈ fs, KeepsFlag f g) := by
  have hk : arsGetKeywordByName (lit "ip") = some ⟨"ip", arsAddIphdr, arsDSetIp⟩ := rfl
  have hmem := List.mem_of_find?_eq_some hk
  obtain ⟨new, hadd⟩ := exists_addsLayer hmem
  have hroom : Room 20 new := @room_of_setFields libc _ hmem new new hadd [] rfl
  rw [orderFree_iff (by decide) hk hadd hwf]
  constructor
  · intro horder hres f hf g hg hname b hb hflag
    have hne : f ≠ g := by
      rintro rfl
      have hspan := (fieldSpan_fragoff hname).symm.trans (fieldSpan_flag hb hflag)
      cases congrArg Prod.snd (Option.some.inj hspan)
    -- the two are set last, in both orders
    obtain ⟨rest, hrest⟩ := exists_perm_pair hf hg hne
    have hmem : ∀ e ∈ rest, e ∈ fs := fun e he => hrest.mem_iff.mp (List.mem_append_left _ he)
    obtain ⟨l, hl, hroom'⟩ := setFields_ip_accepted (fun e he => hfs.known e (hmem e he))
      (fun e he => hres e (hmem e he)) hroom
    have hswap : (rest ++ [g, f]).Perm (rest ++ [f, g]) := (List.Perm.swap f g []).append_left rest
    have heq := (horder _ hrest).trans (horder _ (hswap.trans hrest)).symm
    have hlast : ∀ e e' : DField,
        setFields libc ⟨"ip", arsAddIphdr, arsDSetIp⟩ (rest ++ [e, e']) new =
        arsDSetIp libc l (lit e.name) e.value >>= fun l =>
          arsDSetIp libc l (lit e'.name) e'.value := by
      intro e e'
      rw [setFields_append, hl, bind_ok, setFields_cons]
      refine bind_congr fun l' => ?_
      rw [setFields_cons]
      exact bind_pure _
    rw [hlast, hlast] at heq
    exact keepsFlag_of_comm hroom' (fun _ _ _ _ => heq) hname b hb hflag
  · intro hkeep fs' hperm
    by_cases hres : ∀ f ∈ fs, Resolved libc f
    · exact perm_ip hfs (hkeep hres) hperm hroom
    · -- an address that is not resolved is not accepted anywhere
      have hnone : ∀ gs : List DField, gs.Perm fs →
          (setFields libc ⟨"ip", arsAddIphdr, arsDSetIp⟩ gs new).toOption = none := by
        intro gs hgs
        cases hset : setFields libc ⟨"ip", arsAddIphdr, arsDSetIp⟩ gs new with
        | error e => rfl
        | ok l' =>
          refine absurd (fun f hf => ?_) hres
          exact resolved_of_setFields hset f (hgs.mem_iff.mpr hf)
      rw [hnone fs' hperm, hnone fs (List.Perm.refl fs)]

/-- **The order of the fields does not matter except for the flags of a fragment**: every order of
the fields builds the same layer or none, unless the layer is an IPv4 header whose addresses are
resolved, and one of its flags is not the bit that the offset has in its place. -/
theorem fieldOrder_iff (hkw : (kw, layout) ∈ headerLayouts) (hwf : ∀ f ∈ fs, f.Wf)
    (hfs : FieldsApart layout fs) : OrderFree libc kw fs ↔
      (kw = "ip" → (∀ f ∈ fs, Resolved libc f) → ∀ f ∈ fs, ∀ g ∈ fs, KeepsFlag f g) := by
  simp only [headerLayouts, List.mem_cons, Prod.mk.injEq, List.not_mem_nil, or_false] at hkw
  rcases hkw with ⟨rfl, rfl⟩ | ⟨rfl, rfl⟩ | ⟨rfl, rfl⟩ | ⟨rfl, rfl⟩ | ⟨rfl, rfl⟩ | ⟨rfl, rfl⟩
  · exact (orderFree_ip_iff hwf hfs).trans ⟨fun h _ => h, fun h => h rfl⟩
  · refine iff_of_true (orderFree_of_rows rows_ip6 (by decide) rfl hwf hfs) fun h => ?_
    exact absurd h (by decide)
  · refine iff_of_true (orderFree_of_rows rows_tcp (by decide) rfl hwf hfs) fun h => ?_
    exact absurd h (by decide)
  · refine iff_of_true (orderFree_of_rows rows_udp (by decide) rfl hwf hfs) fun h => ?_
    exact absurd h (by decide)
  · refine iff_of_true (orderFree_of_rows rows_icmp6 (by decide) rfl hwf hfs) fun h => ?_
    exact absurd h (by decide)
  · refine iff_of_true (orderFree_of_rows rows_igrp (by decide) rfl hwf hfs) fun h => ?_
    exact absurd h (by decide)

/-- A flag that is cleared, and an offset. -/
theorem fieldOrder_iff_df :
    OrderFree numericLibc "ip" [⟨"ttl", lit "64"⟩, ⟨"df", lit "0"⟩, ⟨"fragoff", lit "16"⟩] := by
  have hwf : ∀ f ∈ [DField.mk "ttl" (lit "64"), ⟨"df", lit "0"⟩, ⟨"fragoff", lit "16"⟩], f.Wf := by
    simp only [List.mem_cons, List.not_mem_nil, or_false, forall_eq_or_imp, forall_eq]
    exact ⟨⟨by decide, by decide⟩, ⟨by decide, by decide⟩, ⟨by decide, by decide⟩⟩
  have hspan : fieldSpan ipLayout (lit "ttl") = some (64, 8) ∧
      fieldSpan ipLayout (lit "df") = some (49, 1) ∧
      fieldSpan ipLayout (lit "fragoff") = some (51, 13) := by decide
  obtain ⟨httl, hdf, hoff⟩ := hspan
  have hfs : FieldsApart ipLayout
      [DField.mk "ttl" (lit "64"), ⟨"df", lit "0"⟩, ⟨"fragoff", lit "16"⟩] := by
    refine ⟨by simp [httl, hdf, hoff], ?_⟩
    simp [httl, hdf, hoff, SpansApart]
  have hkw : ("ip", ipLayout) ∈ headerLayouts := by simp [headerLayouts]
  refine (fieldOrder_iff hkw hwf hfs).mpr fun _ _ => ?_
  unfold KeepsFlag
  decide

/-- More fragments are lost in front of the offset. -/
theorem mf_lost :
    FieldsApart ipLayout [⟨"mf", lit "1"⟩, ⟨"fragoff", lit "0"⟩] ∧
    ∃ l l', builtLayers numericLibc ⟨"ip", [⟨"mf", lit "1"⟩, ⟨"fragoff", lit "0"⟩]⟩ = some [l] ∧
      builtLayers numericLibc ⟨"ip", [⟨"fragoff", lit "0"⟩, ⟨"mf", lit "1"⟩]⟩ = some [l'] ∧
      l.lData ≠ l'.lData := by
  have hspan : fieldSpan ipLayout (lit "mf") = some (50, 1) ∧
      fieldSpan ipLayout (lit "fragoff") = some (51, 13) := by decide
  refine ⟨⟨by simp [hspan.1, hspan.2], by simp [hspan.1, hspan.2, SpansApart]⟩, ?_⟩
  exact ⟨_, _, rfl, rfl, by decide⟩

end Headers

end StyxWire
