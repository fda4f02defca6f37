import StyxWire.Ars.CompiledCksums
import StyxWire.Hping.ProbeLayers
import StyxWire.Hping.ProbeSize

/-!
# The checksums of the probes

A probe whose checksum is wrong is dropped by the other side without an answer, which is what
`--badcksum` is for. The senders get their checksums in three ways: TCP segments, UDP datagrams and
most ICMP messages are compiled by the engine, the errors are summed up by `cksum`, and what is
spoilt is spoilt after the engine has built it, or inside `cksum`.

So the checksum is right without the option, and wrong with it, for TCP, UDP and the errors
(`StyxWire.Hping.Probes.tcp_sum_iff` and those that follow). It is right with the option, too, for
the other ICMP messages. The datagram that an error quotes is a special case: its pseudo header has
the length that stands in the IP header, so the checksum in the UDP header is right if that is
eight.
-/

namespace StyxWire.Hping.Probes

open Mem ArsLayer OnesComplement

/-! ### Spoilt checksums -/

/-- **What `cksum` computes** makes the sum right, or spoils it. -/
theorem cksumAll_right {cfg : ProbeConfig} {buf : List UInt8} {sum : ℕ} (hlen : buf.length ≤ 131072)
    (h : cksumAll cfg buf = .ok sum) :
    sum < 65536 ∧
      ((wordSum buf + sum ≠ 0 ∧ 65535 ∣ wordSum buf + sum) ↔ cfg.optBadcksum = false) := by
  have hlt : wordSum buf < 2 ^ 32 := wordSum_lt_of_length hlen
  obtain ⟨hmod, hzero⟩ := foldCarry_spec hlt
  have hfold := foldCarry_lt (wordSum buf)
  have hnbytes : (Int32.ofNat buf.length).toInt = buf.length := Int32.toInt_ofNat_of_lt (by omega)
  have hloop := cksumLoop_eq buf 0
  rw [Nat.zero_mod, Nat.zero_add, Nat.mod_eq_of_lt hlt] at hloop
  rw [cksumAll, cksum, hnbytes, hloop, Option.map_some] at h
  obtain rfl := Except.ok.inj h
  cases cfg.optBadcksum with
  | false =>
    rw [if_neg Bool.false_ne_true]
    exact ⟨by omega, iff_of_true (by omega) rfl⟩
  | true =>
    rw [if_pos rfl]
    have hxor : foldCarry (wordSum buf) ^^^ 0x5555 < 65536 :=
      Nat.xor_lt_two_pow (n := 16) hfold (by decide)
    have hne : foldCarry (wordSum buf) ^^^ 0x5555 ≠ foldCarry (wordSum buf) := by
      intro hcon
      have hself : foldCarry (wordSum buf) ^^^ (foldCarry (wordSum buf) ^^^ 0x5555) = 0 := by
        rw [hcon, Nat.xor_self]
      rw [← Nat.xor_assoc, Nat.xor_self, Nat.zero_xor] at hself
      exact absurd hself (by decide)
    have hnone : foldCarry (wordSum buf) = 0 → foldCarry (wordSum buf) ^^^ 0x5555 ≠ 65535 := by
      intro hcon
      rw [hcon]
      decide
    have hones : foldCarry (wordSum buf) = 65535 → foldCarry (wordSum buf) ^^^ 0x5555 ≠ 0 := by
      intro hcon
      rw [hcon]
      decide
    exact ⟨by omega, iff_of_false (by omega) (by simp)⟩

/-! ### The layers that are compiled -/

variable {cfg : ProbeConfig} {p : Probe} {segment : List UInt8}

/-- A word, among the words of a block, in front of which there are whole words. -/
theorem wordSum_insert {pre post : List UInt8} (hpre : pre.length % 2 = 0) {n : ℕ}
    (hn : n < 65536) :
    wordSum (pre ++ putLe16 n ++ post) = wordSum (pre ++ putLe16 0 ++ post) + n := by
  have h16 : wordSum (putLe16 n) = n := by
    have hput := le16_putLe16 n
    rw [Nat.mod_eq_of_lt hn] at hput
    simpa [putLe16, wordSum] using hput
  have hword : ∀ k, wordSum (pre ++ putLe16 k ++ post) =
      wordSum pre + (wordSum (putLe16 k) + wordSum post) := by
    intro k
    rw [List.append_assoc, wordSum_append hpre, wordSum_append (by simp)]
  have hzero : wordSum (putLe16 0) = 0 := rfl
  rw [hword, hword, h16, hzero]
  omega

/-- What makes a sum right. -/
theorem onesSum_insert {pre post : List UInt8} (hpre : pre.length % 2 = 0) {n : ℕ}
    (hn : n < 65536) : onesSum (pre ++ putLe16 n ++ post) = 65535 ↔
      wordSum (pre ++ putLe16 0 ++ post) + n ≠ 0 ∧
        65535 ∣ wordSum (pre ++ putLe16 0 ++ post) + n := by
  rw [onesSum_eq_iff, wordSum_insert hpre hn]

/-- The three checksums of an error. -/
structure Quoting (cfg : ProbeConfig) (p : Probe) (check sum checksum : ℕ) : Prop where
  ipOk : cksumAll cfg (quotedIp cfg p 0) = .ok check
  udpOk : cksumAll cfg (quotedPseudohdr cfg p ++ quotedUdp cfg 0) = .ok sum
  messageOk : cksumAll cfg (quotingMessage cfg p check sum 0) = .ok checksum

variable {check sum checksum : ℕ}

/-- **An error** has the right checksum, but for `--badcksum`. -/
theorem Quoting.message (h : Quoting cfg p check sum checksum) :
    onesSum (quotingMessage cfg p check sum checksum) = 65535 ↔ cfg.optBadcksum = false := by
  have hlt := cfg.dataSize.toNat_lt
  obtain ⟨hk, hright⟩ := cksumAll_right (by rw [length_quotingMessage]; omega) h.messageOk
  have hform : ∀ k, quotingMessage cfg p check sum k =
      [UInt8.ofNat cfg.optIcmptype, UInt8.ofNat cfg.optIcmpcode] ++ putLe16 k ++
        ((if cfg.optIcmptype = icmpRedirect then p.icmpGw.1 else [0, 0, 0, 0]) ++
          (quotedIp cfg p check ++ quotedUdp cfg sum ++
            if cfg.dataSize = 0 then [] else probeData cfg p)) := by
    intro k
    simp only [quotingMessage, List.append_assoc]
  rw [hform] at hright ⊢
  rw [onesSum_insert (by simp) hk, hright]

/-- So has the IP header that it quotes. -/
theorem Quoting.ip (h : Quoting cfg p check sum checksum) :
    onesSum (quotedIp cfg p check) = 65535 ↔ cfg.optBadcksum = false := by
  obtain ⟨hk, hright⟩ := cksumAll_right (by rw [length_quotedIp]; omega) h.ipOk
  obtain ⟨pre, hpre, hform⟩ : ∃ pre : List UInt8, pre.length = 10 ∧
      ∀ k, quotedIp cfg p k = pre ++ putLe16 k ++ (p.icmpIpSrc.1 ++ p.icmpIpDst.1) := by
    refine ⟨(quotedIp cfg p 0).take 10, by simp, fun k => ?_⟩
    rw [quotedIp, List.append_assoc _ p.icmpIpSrc.1]
    rfl
  have hpre : pre.length % 2 = 0 := by omega
  rw [hform] at hright ⊢
  rw [onesSum_insert hpre hk, hright]

/-- The total length that the quoted header has. -/
def quotedTotLen (cfg : ProbeConfig) : ℕ :=
  (if cfg.icmpIpTotLen ≠ 0 then cfg.icmpIpTotLen else cfg.icmpIpIhl * 4 + udphdrSize) % 65536

/-- A length, among the words of a pseudo header. -/
theorem wordSum_length (n : ℕ) : wordSum (putBe16 n) % 65535 = 256 * (n % 65536) % 65535 := by
  have hmod := be16_mod (UInt8.ofNat (n / 256)) (UInt8.ofNat n)
  have hput : be16 (UInt8.ofNat (n / 256)) (UInt8.ofNat n) = n % 65536 := be16_putBe16 n
  rw [hput] at hmod
  rw [hmod]
  rfl

/-- The pseudo header that is used has the total length of the quoted header. -/
theorem quotedPseudohdr_eq (cfg : ProbeConfig) (p : Probe) :
    quotedPseudohdr cfg p = p.icmpIpSrc.1 ++ p.icmpIpDst.1 ++ [0, UInt8.ofNat cfg.icmpIpProtocol] ++
      putBe16 (if cfg.icmpIpTotLen ≠ 0 then cfg.icmpIpTotLen else cfg.icmpIpIhl * 4 + udphdrSize) :=
  rfl

/-- **The UDP header that is quoted** has the right checksum if the total length of the quoted
datagram is said to be that of the UDP header. -/
theorem Quoting.udp (h : Quoting cfg p check sum checksum) (hbad : cfg.optBadcksum = false) :
    onesSum (pseudohdr false (p.icmpIpSrc.1 ++ p.icmpIpDst.1) cfg.icmpIpProtocol
      (quotedUdp cfg sum).length ++ quotedUdp cfg sum) = 65535 ↔ quotedTotLen cfg = 8 := by
  have hsrc := p.icmpIpSrc.2
  have hdst := p.icmpIpDst.2
  have hlen : (quotedPseudohdr cfg p ++ quotedUdp cfg 0).length = 20 := by
    simp [quotedPseudohdr, hsrc, hdst]
  obtain ⟨hk, hright⟩ := cksumAll_right (by omega) h.udpOk
  obtain ⟨-, hdvd⟩ := hright.mpr hbad
  have hsplit : ∀ n s, wordSum (p.icmpIpSrc.1 ++ p.icmpIpDst.1 ++
      [0, UInt8.ofNat cfg.icmpIpProtocol] ++ putBe16 n ++ s) =
        wordSum (p.icmpIpSrc.1 ++ p.icmpIpDst.1 ++ [0, UInt8.ofNat cfg.icmpIpProtocol]) +
          (wordSum (putBe16 n) + wordSum s) := by
    intro n s
    have hpre : (p.icmpIpSrc.1 ++ p.icmpIpDst.1 ++
        [0, UInt8.ofNat cfg.icmpIpProtocol]).length % 2 = 0 := by
      simp [hsrc, hdst]
    rw [List.append_assoc _ (putBe16 n), wordSum_append hpre,
      wordSum_append (s := putBe16 n) (by simp)]
  have hudp : wordSum (quotedUdp cfg sum) = wordSum (quotedUdp cfg 0) + sum := by
    have hinsert := @wordSum_insert (putBe16 cfg.icmpIpSrcport ++ putBe16 cfg.icmpIpDstport ++
      putBe16 udphdrSize) [] (by simp) sum hk
    rwa [List.append_nil, List.append_nil] at hinsert
  have height : wordSum (putBe16 8) = 2048 := rfl
  have htot := wordSum_length
    (if cfg.icmpIpTotLen ≠ 0 then cfg.icmpIpTotLen else cfg.icmpIpIhl * 4 + udphdrSize)
  rw [← quotedTotLen] at htot
  have hlt : quotedTotLen cfg < 65536 := Nat.mod_lt _ (by omega)
  rw [quotedPseudohdr_eq, hsplit] at hdvd
  rw [onesSum_eq_iff, pseudohdr, if_neg Bool.false_ne_true, length_quotedUdp, hsplit, hudp, height]
  omega

/-! ### What is sent -/

/-- The protocols of the messages. -/
inductive Transport
  | tcp
  | udp
  | icmp
  | raw
  deriving DecidableEq

/-- The protocol that `send_packet` sends. -/
def packetTransport (cfg : ProbeConfig) : Transport :=
  if cfg.optRawipmode then .raw
  else if cfg.optIcmpmode then .icmp
  else if cfg.optUdpmode then .udp
  else .tcp

/-- The protocol that `hping_run` sends: a scan is one of TCP, whatever else is set. -/
def transport (cfg : ProbeConfig) : Transport :=
  if cfg.optListenmode = false ∧ cfg.optScanmode = true then .tcp else packetTransport cfg

end StyxWire.Hping.Probes
