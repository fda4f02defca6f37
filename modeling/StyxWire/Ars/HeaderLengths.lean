import StyxWire.Ars.RoundTrip
import StyxWire.Ars.UdpCksum

/-!
# The lengths of headers with options

An IPv4 header and a TCP header say in four bits how long they are, options included, in words
of four bytes. The compiler pads the last option of a run, so that there is a whole number of
words (`StyxWire.runSize_compiled`), and adds it to the five words of the header; what the four
bits do not hold is lost, and nothing fails. So the length is right for forty bytes of options
and wrong for more (`StyxWire.hdrlen_iff`).
-/

namespace StyxWire

open Mem Text ArsLayer

/-- A size that is brought up to a multiple of four. -/
def padded (n : ℕ) : ℕ := (n + 3) / 4 * 4

/-- The options of a type that a list of layers starts with. -/
def optRun (t : ArsType) (ls : List ArsLayer) : List ArsLayer := ls.takeWhile fun m => m.lType = t

theorem optRun_cons {t : ArsType} {l : ArsLayer} (h : l.lType = t) (ls : List ArsLayer) :
    optRun t (l :: ls) = l :: optRun t ls :=
  List.takeWhile_cons_of_pos (decide_eq_true h)

theorem optRun_of_head {t : ArsType} {ls : List ArsLayer}
    (h : ls.head?.map ArsLayer.lType ≠ some t) : optRun t ls = [] := by
  cases ls with
  | nil => rfl
  | cons l ls =>
    refine List.takeWhile_cons_of_neg fun hl => h ?_
    exact congrArg some (of_decide_eq_true hl)

theorem runSize_eq (t : ArsType) (before : List ArsLayer) :
    runSize t before = arsRelativeSize (optRun t before) := rfl

/-- **The last option of a run is padded.** -/
theorem arsCompilerOpt_lSize {t : ArsType} (nop : ℕ) {before after : List ArsLayer} (l : ArsLayer)
    (h : after.head?.map ArsLayer.lType ≠ some t) :
    runSize t before + (arsCompilerOpt t nop before l after).lSize =
      padded (runSize t before + l.lSize) := by
  rw [arsCompilerOpt, if_neg h]
  dsimp only
  rw [← runSize]
  split_ifs with hpad
  · have hgrow : (l.grow (List.replicate (4 - (runSize t before + l.lSize) % 4)
        (UInt8.ofNat nop))).lSize = l.lSize + (4 - (runSize t before + l.lSize) % 4) :=
      congrArg (l.lSize + ·) List.length_replicate
    rw [hgrow, padded]
    omega
  · rw [padded]
    omega

/-- **A run of options is compiled to a whole number of words.** The induction is over the run;
its last option is padded for all of it. -/
theorem runSize_compiled {t : ArsType} (ht : t = .ipopt ∨ t = .tcpopt)
    {before ls out : List ArsLayer} (h : arsCompileFrom before ls = .ok out)
    (hhead : ls.head?.map ArsLayer.lType = some t) :
    runSize t before + arsRelativeSize (optRun t out) =
      padded (runSize t before + arsRelativeSize (optRun t ls)) := by
  induction ls generalizing before out with
  | nil => cases hhead
  | cons l ls ih =>
    obtain ⟨l', ls', hls, hl, rfl⟩ := arsCompileFrom_cons.mp h
    have hlt : l.lType = t := Option.some.inj hhead
    have hlt' : l'.lType = t := (arsLiCompiler_lType hl).trans hlt
    have hheads := head?_arsCompileFrom hls
    rw [optRun_cons hlt, optRun_cons hlt', arsRelativeSize_cons, arsRelativeSize_cons]
    by_cases hnext : ls.head?.map ArsLayer.lType = some t
    · have hsize : l'.lSize = l.lSize := arsLiCompiler_lSize hl fun _ => by rw [hheads, hnext, hlt]
      have hrun := ih hls hnext
      rw [runSize_eq, optRun_cons hlt, arsRelativeSize_cons, ← runSize_eq] at hrun
      rw [hsize, ← Nat.add_assoc, ← Nat.add_assoc, Nat.add_comm (runSize t before), hrun]
    · have hend : ls'.head?.map ArsLayer.lType ≠ some t := by rwa [hheads]
      rw [optRun_of_head hnext, optRun_of_head hend]
      have hcomp : ∃ nop, l' = arsCompilerOpt t nop before l ls' := by
        rw [arsLiCompiler, hlt] at hl
        rcases ht with rfl | rfl
        · exact ⟨_, (Except.ok.inj hl).symm⟩
        · exact ⟨_, (Except.ok.inj hl).symm⟩
      obtain ⟨nop, rfl⟩ := hcomp
      exact arsCompilerOpt_lSize nop l hend

/-- The options behind a header, which is none itself. -/
theorem optRun_compiled {t : ArsType} (ht : t = .ipopt ∨ t = .tcpopt) {hdr : ArsLayer}
    (hhdr : hdr.lType ≠ t) {before after after' : List ArsLayer}
    (h : arsCompileFrom (hdr :: before) after = .ok after') :
    arsRelativeSize (optRun t after') = padded (arsRelativeSize (optRun t after)) := by
  by_cases hhead : after.head?.map ArsLayer.lType = some t
  · have hrun := runSize_compiled ht h hhead
    have hnone : runSize t (hdr :: before) = 0 := by
      have hne : (hdr :: before).head?.map ArsLayer.lType ≠ some t := fun hcon =>
        hhdr (Option.some.inj hcon)
      rw [runSize_eq, optRun_of_head hne]
      rfl
    rwa [hnone, Nat.zero_add, Nat.zero_add] at hrun
  · rw [optRun_of_head hhead, optRun_of_head (by rwa [head?_arsCompileFrom h])]
    rfl

/-! ### The headers -/

/-- The header length that is stored for an IP header. -/
theorem ip_hdrlen {l : ArsLayer} (hl : l.lType = .ip)
    (htake : arsDonttake l.lFlags arsTakeIpHdrlen = true) (after : List ArsLayer) :
    ((arsCompilerIp l after).byte 0).toNat % 16 =
      (5 + arsRelativeSize (optRun .ipopt after) / 4) % 16 := by
  obtain ⟨ck, hck, hok⟩ := (fills_ip after).exists_eq hl rfl
  have hauto := auto_writeAll (span_ipAuto hl after hck)
  rw [← hok] at hauto
  have htype : (arsCompilerIp l after).lType = .ip := by rw [hok, writeAll_lType, hl]
  have hlen : 20 ≤ (arsCompilerIp l after).lData.length := hdr_le_of_lType htype
  simp only [auto, htype, ArsType.autoSpans, List.map_cons, List.map_nil, ipAuto, htake, if_true,
    List.cons.injEq, Prod.mk.injEq, true_and,
    slice_one (show 0 < (arsCompilerIp l after).lData.length by omega)] at hauto
  have hrun : after.takeWhile isIpopt = optRun .ipopt after := rfl
  rw [hauto.1.1, ipByte0, if_pos rfl, toNat_setLo, hrun]
  omega

/-- The header length that is stored for a TCP header. -/
theorem tcp_hdrlen {before after : List ArsLayer} {l l' : ArsLayer} (hl : l.lType = .tcp)
    (htake : arsDonttake l.lFlags arsTakeTcpHdrlen = true)
    (h : arsCompilerTcp before l after = .ok l') :
    (l'.byte 12).toNat / 16 = (5 + arsRelativeSize (optRun .tcpopt after) / 4) % 16 := by
  obtain ⟨ck, hck, hok⟩ := (fills_tcp before after).exists_eq hl h
  have hauto := auto_writeAll (span_tcpAuto hl after hck)
  rw [← hok] at hauto
  have htype : l'.lType = .tcp := by rw [hok, writeAll_lType, hl]
  have hlen : 20 ≤ l'.lData.length := hdr_le_of_lType htype
  simp only [auto, htype, ArsType.autoSpans, List.map_cons, List.map_nil, tcpAuto, htake, if_true,
    List.cons.injEq, Prod.mk.injEq, true_and,
    slice_one (show 12 < l'.lData.length by omega)] at hauto
  have hrun : (after.takeWhile fun m => m.lType = .tcpopt) = optRun .tcpopt after := rfl
  rw [hauto.1.1, toNat_setHi, hrun]
  omega

/-- Four bits hold the length of a header with forty bytes of options. -/
theorem hdrlen_holds_iff (size : ℕ) :
    (5 + padded size / 4) % 16 * 4 = 20 + padded size ↔ size ≤ 40 := by
  rw [padded]
  omega

/-- **The header length that is compiled is the true one** if and only if the options behind
the header are forty bytes at most; it is never an error that they are more. -/
theorem hdrlen_iff {pkt out : ArsPacket} (h : arsCompile pkt = .ok out)
    {hs hs' after after' : List ArsLayer} {l l' : ArsLayer} (hl : pkt.pLayer = hs ++ l :: after)
    (hl' : out.pLayer = hs' ++ l' :: after') (hlen : hs'.length = hs.length) :
    (l.lType = .ip → arsDonttake l.lFlags arsTakeIpHdrlen = true →
      ((l'.byte 0).toNat % 16 * 4 = 20 + arsRelativeSize (optRun .ipopt after') ↔
        arsRelativeSize (optRun .ipopt after) ≤ 40)) ∧
    (l.lType = .tcp → arsDonttake l.lFlags arsTakeTcpHdrlen = true →
      ((l'.byte 12).toNat / 16 * 4 = 20 + arsRelativeSize (optRun .tcpopt after') ↔
        arsRelativeSize (optRun .tcpopt after) ≤ 40)) := by
  have hcomp := (arsCompile_eq_ok.mp h).1
  rw [hl] at hcomp
  obtain ⟨ls, ms, hout, hls, hms⟩ := arsCompileFrom_append hcomp
  obtain ⟨l₁, after₁, hafter, hl₁, rfl⟩ := arsCompileFrom_cons.mp hms
  -- the two ways to cut the compiled packet are the same
  obtain ⟨rfl, hrest⟩ := List.append_inj (hl'.symm.trans hout) (hlen.trans hls.symm)
  obtain ⟨rfl, rfl⟩ := List.cons.inj hrest
  constructor
  · intro htype htake
    have hne : l.lType ≠ .ipopt := by simp [htype]
    rw [arsLiCompiler, htype] at hl₁
    obtain rfl := Except.ok.inj hl₁
    rw [ip_hdrlen htype htake, optRun_compiled (Or.inl rfl) hne hafter]
    exact hdrlen_holds_iff _
  · intro htype htake
    have hne : l.lType ≠ .tcpopt := by simp [htype]
    rw [arsLiCompiler, htype] at hl₁
    rw [tcp_hdrlen htype htake hl₁, optRun_compiled (Or.inr rfl) hne hafter]
    exact hdrlen_holds_iff _

/-- A header with one option, which ends it: the option is padded, and the header has twenty-four
bytes. -/
theorem hdrlen_iff_eol :
    ∃ pkt out l l' eol eol', arsDBuild numericLibc arsInit (lit "ip+ip.eol") = .ok pkt ∧
      arsCompile pkt = .ok out ∧ pkt.pLayer = [l, eol] ∧ out.pLayer = [l', eol'] ∧
      (l'.byte 0).toNat % 16 * 4 = 20 + arsRelativeSize (optRun .ipopt [eol']) := by
  obtain ⟨pkt, out, l, l', eol, eol', hbuild, hcomp, hl, hl', htype, htake, hsize⟩ :
      ∃ pkt out l l' eol eol', arsDBuild numericLibc arsInit (lit "ip+ip.eol") = .ok pkt ∧
        arsCompile pkt = .ok out ∧ pkt.pLayer = [l, eol] ∧ out.pLayer = [l', eol'] ∧
        l.lType = .ip ∧ arsDonttake l.lFlags arsTakeIpHdrlen = true ∧
        arsRelativeSize (optRun .ipopt [eol]) = 1 :=
    ⟨_, _, _, _, _, _, rfl, rfl, rfl, rfl, rfl, rfl, rfl⟩
  have hiff := (@hdrlen_iff _ _ hcomp [] [] _ _ _ _ hl hl' rfl).1 htype htake
  exact ⟨pkt, out, l, l', eol, eol', hbuild, hcomp, hl, hl', hiff.mpr (by omega)⟩

/-- Two routes fill eighty bytes, and the header says that it has thirty-six. -/
theorem hdrlen_wraps :
    ∃ pkt out l rr rr' l' opts, arsDBuild numericLibc arsInit (lit "ip+ip.rr+ip.rr") = .ok pkt ∧
      pkt.pLayer = [l, rr, rr'] ∧ arsDonttake l.lFlags arsTakeIpHdrlen = true ∧
      arsCompile pkt = .ok out ∧ out.pLayer = l' :: opts ∧
      20 + arsRelativeSize (optRun .ipopt opts) = 100 ∧ (l'.byte 0).toNat % 16 * 4 = 36 :=
  ⟨_, _, _, _, _, _, _, rfl, rfl, rfl, rfl, rfl, rfl, rfl⟩

end StyxWire
