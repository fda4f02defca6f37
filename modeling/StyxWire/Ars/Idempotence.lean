import StyxWire.Ars.AutoFields

/-!
# Compiling twice

`ars_compile` is idempotent (`StyxWire.arsCompile_idem`), whatever the layers and the
flags. Two facts make it so. A compiler run on its own outcome, with the layers around
it as they are, has nothing to change (`StyxWire.arsLiCompiler_idem`). And the layers
around it are the same the second time, as far as it reads them: those on the right were
compiled before it the first time already, and those on its left are compiled the second
time, which a compiler cannot tell (`StyxWire.SameLeft`).

The one thing on the left that does change is the size of a padded option; but only the
last option of a run is padded, and the layer on its right is then no option of that
run.
-/

namespace StyxWire

open Mem ArsLayer

/-! ### One layer -/

theorem setHi_setHi (b : UInt8) (u v : ℕ) : setHi (setHi b u) v = setHi b v := by
  refine eq_of_halves ?_ ?_ <;> simp

theorem setLo_setLo (b : UInt8) (u v : ℕ) : setLo (setLo b u) v = setLo b v := by
  refine eq_of_halves ?_ ?_
  · simp
    omega
  · simp

theorem setHi_setLo (b : UInt8) (u v : ℕ) : setHi (setLo b u) v = setLo (setHi b v) u := by
  refine eq_of_halves ?_ ?_
  · simp
    omega
  · simp

theorem ipByte0_idem (ver hl : Bool) (v h : ℕ) (b : UInt8) :
    ipByte0 ver hl v h (ipByte0 ver hl v h b) = ipByte0 ver hl v h b := by
  cases ver <;> cases hl <;> simp [ipByte0, setHi_setHi, setLo_setLo, setHi_setLo]

/-- A field that was computed once is computed to the same value, and one that was kept
is kept. -/
theorem ite_ite_self {α : Type} (c : Bool) (x y : α) :
    (if c then x else if c then x else y) = if c then x else y := by
  cases c <;> rfl

theorem ipAuto_idem {l : ArsLayer} (hl : l.lType = .ip) (after : List ArsLayer)
    {ck : List UInt8} (hck : ck.length = 2) (ck' : List UInt8) :
    ipAuto (l.writeAll (ipAuto l after ck)) after ck' = ipAuto l after ck' := by
  have hauto := auto_writeAll (span_ipAuto hl after hck)
  set c := l.writeAll (ipAuto l after ck) with hc
  have hflags : c.lFlags = l.lFlags := by rw [hc, writeAll_lFlags]
  have hsize : c.lSize = l.lSize := by rw [hc, writeAll_lSize]
  have htype : c.lType = .ip := by rw [hc, writeAll_lType, hl]
  have hlen : 20 ≤ c.lData.length := hdr_le_of_lType htype
  simp only [auto, htype, ArsType.autoSpans, List.map_cons, List.map_nil, ipAuto,
    List.cons.injEq, Prod.mk.injEq, true_and, and_true, slice_one (show 0 < c.lData.length by omega)]
    at hauto
  obtain ⟨h0, h2, h9, -⟩ := hauto
  simp only [ipAuto, hflags, hsize, h0, h2, h9, ipByte0_idem, ite_ite_self]

theorem ip6Auto_idem {l : ArsLayer} (hl : l.lType = .ip6) (after : List ArsLayer) :
    ip6Auto (l.writeAll (ip6Auto l after)) after = ip6Auto l after := by
  have hauto := auto_writeAll (span_ip6Auto hl after)
  set c := l.writeAll (ip6Auto l after) with hc
  have hflags : c.lFlags = l.lFlags := by rw [hc, writeAll_lFlags]
  have htype : c.lType = .ip6 := by rw [hc, writeAll_lType, hl]
  simp only [auto, htype, ArsType.autoSpans, List.map_cons, List.map_nil, ip6Auto,
    List.cons.injEq, Prod.mk.injEq, true_and, and_true] at hauto
  obtain ⟨h0, h4, h6⟩ := hauto
  have hlen : 40 ≤ c.lData.length := hdr_le_of_lType htype
  have hword : (if arsDonttake l.lFlags arsTakeIp6Version then
      putBe32 (arsIp6Word 6 c.ip6Tclass c.ip6Flow) else c.slice 0 4) = c.slice 0 4 := by
    by_cases hv : arsDonttake l.lFlags arsTakeIp6Version = true
    · rw [if_pos hv] at h0 ⊢
      obtain ⟨-, htc, hfl⟩ := ip6Fields_of_slice (by omega) h0
      simp only [h0, htc, hfl, arsIp6Word, Nat.mod_mod]
    · rw [if_neg hv]
  rw [h0] at hword
  simp only [ip6Auto, hflags, h4, h6, h0, ite_ite_self, hword]

theorem tcpAuto_idem {l : ArsLayer} (hl : l.lType = .tcp) (after : List ArsLayer)
    {ck : List UInt8} (hck : ck.length = 2) (ck' : List UInt8) :
    tcpAuto (l.writeAll (tcpAuto l after ck)) after ck' = tcpAuto l after ck' := by
  have hauto := auto_writeAll (span_tcpAuto hl after hck)
  set c := l.writeAll (tcpAuto l after ck) with hc
  have hflags : c.lFlags = l.lFlags := by rw [hc, writeAll_lFlags]
  have htype : c.lType = .tcp := by rw [hc, writeAll_lType, hl]
  have hlen : 20 ≤ c.lData.length := hdr_le_of_lType htype
  simp only [auto, htype, ArsType.autoSpans, List.map_cons, List.map_nil, tcpAuto,
    List.cons.injEq, Prod.mk.injEq, true_and, and_true,
    slice_one (show 12 < c.lData.length by omega)] at hauto
  obtain ⟨h12, -⟩ := hauto
  simp only [tcpAuto, hflags, h12]
  cases arsDonttake l.lFlags arsTakeTcpHdrlen <;> simp [setHi_setHi]

theorem udpAuto_idem {l : ArsLayer} (hl : l.lType = .udp) (after : List ArsLayer)
    {ck : List UInt8} (hck : ck.length = 2) (ck' : List UInt8) :
    udpAuto (l.writeAll (udpAuto l after ck)) after ck' = udpAuto l after ck' := by
  have hauto := auto_writeAll (span_udpAuto hl after hck)
  set c := l.writeAll (udpAuto l after ck) with hc
  have hflags : c.lFlags = l.lFlags := by rw [hc, writeAll_lFlags]
  have hsize : c.lSize = l.lSize := by rw [hc, writeAll_lSize]
  have htype : c.lType = .udp := by rw [hc, writeAll_lType, hl]
  simp only [auto, htype, ArsType.autoSpans, List.map_cons, List.map_nil, udpAuto,
    List.cons.injEq, Prod.mk.injEq, true_and, and_true] at hauto
  obtain ⟨h4, -⟩ := hauto
  simp only [udpAuto, hflags, hsize, h4, ite_ite_self]

/-- **Idempotence of a compiler that ends with a checksum**, from that of the fields it
fills in before. -/
theorem Fills.idem {t : ArsType} {take off : ℕ}
    {A : ArsLayer → List UInt8 → List (ℕ × List UInt8)} {sumOf : ArsLayer → Except ArsErr ℕ}
    {F : ArsLayer → Except ArsErr ArsLayer} (h : Fills t take off A sumOf F)
    (hidem : ∀ l ck ck', l.lType = t → ck.length = 2 →
      A (l.writeAll (A l ck)) ck' = A l ck')
    {l l' : ArsLayer} (hl : l.lType = t) (hok : F l = .ok l') : F l' = .ok l' := by
  obtain ⟨ck, hck, rfl⟩ := h.exists_eq hl hok
  have htype : (l.writeAll (A l ck)).lType = t := by rw [writeAll_lType, hl]
  have hauto : ∀ ck' : List UInt8, ck'.length = 2 →
      (l.writeAll (A l ck)).writeAll (A (l.writeAll (A l ck)) ck') = l.writeAll (A l ck') := by
    intro ck' hck'
    rw [hidem l ck ck' hl hck,
      writeAll_writeAll_auto (h.span_eq l ck hl hck) (h.span_eq l ck' hl hck')]
  rw [h.eq l hl] at hok
  rw [h.eq _ htype, writeAll_lFlags]
  by_cases htake : arsDonttake l.lFlags take = true
  · rw [if_pos htake] at hok ⊢
    obtain ⟨sum, hsum, hl'⟩ := map_eq_ok.mp hok
    rw [hauto _ rfl, hsum]
    exact congrArg Except.ok ((hauto _ rfl).trans hl')
  · rw [if_neg htake] at hok ⊢
    rw [h.slice_writeAll hl hck, hauto _ hck]

/-- Padding brings the size of the run up to a multiple of four, and is not needed
twice. -/
theorem arsCompilerOpt_idem (type : ArsType) (nop : ℕ) (before : List ArsLayer) (l : ArsLayer)
    (after : List ArsLayer) :
    arsCompilerOpt type nop before (arsCompilerOpt type nop before l after) after =
      arsCompilerOpt type nop before l after := by
  by_cases hhead : after.head?.map ArsLayer.lType = some type
  · simp only [arsCompilerOpt, if_pos hhead]
  · simp only [arsCompilerOpt, if_neg hhead]
    by_cases hpad : (arsRelativeSize (before.takeWhile fun m => m.lType = type) + l.lSize) % 4 ≠ 0
    · rw [if_pos hpad, if_neg]
      simp only [grow, List.length_replicate]
      omega
    · rw [if_neg hpad, if_neg hpad]

/-- **A compiler run on its own outcome has nothing to change.** -/
theorem arsLiCompiler_idem {before : List ArsLayer} {l l' : ArsLayer} {after : List ArsLayer}
    (h : arsLiCompiler before l after = .ok l') : arsLiCompiler before l' after = .ok l' := by
  have htype := arsLiCompiler_lType h
  unfold arsLiCompiler at h ⊢
  rw [htype]
  cases ht : l.lType with
  | ip =>
    rw [ht] at h
    exact (fills_ip after).idem (fun l ck ck' hl hck => ipAuto_idem hl after hck ck') ht h
  | ipopt =>
    rw [ht] at h
    obtain rfl := Except.ok.inj h
    exact congrArg _ (arsCompilerOpt_idem _ _ before l after)
  | tcpopt =>
    rw [ht] at h
    obtain rfl := Except.ok.inj h
    exact congrArg _ (arsCompilerOpt_idem _ _ before l after)
  | icmp =>
    rw [ht] at h
    exact (fills_icmp after).idem (fun _ _ _ _ _ => rfl) ht h
  | igrp =>
    rw [ht] at h
    exact (fills_igrp after).idem (fun _ _ _ _ _ => rfl) ht h
  | udp =>
    rw [ht] at h
    exact (fills_udp before after).idem
      (fun l ck ck' hl hck => udpAuto_idem hl after hck ck') ht h
  | tcp =>
    rw [ht] at h
    exact (fills_tcp before after).idem
      (fun l ck ck' hl hck => tcpAuto_idem hl after hck ck') ht h
  | ip6 =>
    rw [ht] at h
    obtain rfl := Except.ok.inj h
    have htype' : (l.writeAll (ip6Auto l after)).lType = .ip6 := by rw [writeAll_lType, ht]
    dsimp only
    rw [arsCompilerIp6_eq ht, arsCompilerIp6_eq htype', ip6Auto_idem ht,
      writeAll_writeAll_auto (span_ip6Auto ht after) (span_ip6Auto ht after)]
  | icmp6 =>
    rw [ht] at h
    exact (fills_icmp6 before after).idem (fun _ _ _ _ _ => rfl) ht h
  | igrpentry | data => rfl

/-! ### The packet -/

/-- The loop, run again on its outcome with anything on the left that looks the same. -/
theorem arsCompileFrom_idem {before before' ls out : List ArsLayer}
    (hleft : SameLeft (ls.head?.map ArsLayer.lType) before before')
    (h : arsCompileFrom before ls = .ok out) : arsCompileFrom before' out = .ok out := by
  induction ls generalizing before before' out with
  | nil =>
    obtain rfl : [] = out := by simpa [arsCompileFrom] using h
    rfl
  | cons l ls ih =>
    obtain ⟨l', ls', hls, hl, rfl⟩ := arsCompileFrom_cons.mp h
    have hleft' : SameLeft (some l.lType) before before' := hleft
    have hrest : SameLeft (ls.head?.map ArsLayer.lType) (l :: before) (l' :: before') :=
      hleft'.cons (arsLiCompiler_side hl) (fun _ hhead => arsLiCompiler_lSize hl fun _ => hhead)
        (head?_arsCompileFrom hls)
    have hl' : arsLiCompiler before' l' ls' = .ok l' := by
      rw [← arsLiCompiler_congr (by rwa [arsLiCompiler_lType hl]) ls']
      exact arsLiCompiler_idem hl
    exact arsCompileFrom_cons.mpr ⟨l', ls', ih hrest hls, hl', rfl⟩

/-- **Compilation is idempotent**: on a compiled packet `ars_compile` succeeds and changes
nothing, whatever the layers, their sizes and their flags. -/
theorem arsCompile_idem {pkt out : ArsPacket} (h : arsCompile pkt = .ok out) :
    arsCompile out = .ok out := by
  obtain ⟨hls, -⟩ := arsCompile_eq_ok.mp h
  have hnil : SameLeft (pkt.pLayer.head?.map ArsLayer.lType) [] [] := ⟨rfl, fun _ _ _ => rfl⟩
  exact arsCompile_eq_ok.mpr ⟨arsCompileFrom_idem hnil hls, rfl, rfl, rfl, rfl⟩

theorem arsCompile_idem_ipUdp :
    ∃ out, arsCompile ipUdpPacket = .ok out ∧ arsCompile out = .ok out := by
  obtain ⟨out, h⟩ : ∃ out, arsCompile ipUdpPacket = .ok out := ⟨_, rfl⟩
  exact ⟨out, h, arsCompile_idem h⟩

end StyxWire
