import StyxWire.Ars.Agreement

/-!
# The checksum of UDP

A zero in the checksum field of a UDP datagram says that there is no checksum, so a checksum
that is zero is sent as the other zero of one's complement. The engine knows neither: the
compiler stores what it computes, and the dissector compares the field with what it computes.
They do what the convention says except where the sum over the pseudo header, the header and
the data is the zero with all its bits set, and the field is a zero
(`StyxWire.udp_cksum_iff`).
-/

namespace StyxWire

open Mem OnesComplement ArsLayer

/-! ### Sums -/

/-- The sum of a UDP datagram and its pseudo header: `0xffff` if the checksum is right. -/
def udpSum (v6 : Bool) (addrs d : List UInt8) : ℕ :=
  onesSum (pseudohdr v6 addrs arsIpprotoUdp d.length ++ d)

/-- The field of a checksum counts as any other word. -/
theorem wordSum_writeAt {d : List UInt8} {i : ℕ} (hi : i + 2 ≤ d.length) (heven : i % 2 = 0) :
    wordSum d = wordSum (writeAt d i [0, 0]) + le16 (d.getD i 0) (d.getD (i + 1) 0) := by
  have hsplit : d = d.take i ++ ([d.getD i 0, d.getD (i + 1) 0] ++ d.drop (i + 2)) := by
    rw [List.getD_eq_getElem _ _ (by omega), List.getD_eq_getElem _ _ (by omega),
      List.cons_append, List.cons_append, List.nil_append, ← List.drop_eq_getElem_cons,
      ← List.drop_eq_getElem_cons, List.take_append_drop]
  have htake : (d.take i).length % 2 = 0 := by rwa [List.length_take_of_le (by omega)]
  rw [writeAt_eq (by simpa using hi), List.append_assoc]
  conv_lhs => rw [hsplit]
  rw [wordSum_append htake, wordSum_append htake, wordSum_append (by simp),
    wordSum_append (by simp)]
  simp only [wordSum, le16, List.length_cons, List.length_nil, Nat.zero_add, Nat.reduceAdd,
    UInt8.toNat_zero]
  omega

/-- The field that makes a sum right. -/
theorem dvd_add_iff {w f : ℕ} (hw : w ≠ 0) (hw32 : w < 2 ^ 32) (hf : f < 65536) :
    65535 ∣ w + f ↔ f = 65535 - foldCarry w ∨ f = 65535 ∧ foldCarry w = 65535 := by
  obtain ⟨hmod, hzero⟩ := foldCarry_spec hw32
  have hlt := foldCarry_lt w
  have hpos : foldCarry w ≠ 0 := fun h => hw (hzero.mp h)
  omega

section Datagram

variable {v6 : Bool} {addrs d : List UInt8}

theorem length_pseudohdr (haddrs : addrs.length ≤ 32) (len : ℕ) :
    (pseudohdr v6 addrs arsIpprotoUdp len).length ≤ 40 := by
  cases v6 <;> simp [pseudohdr] <;> omega

/-- The words of the pseudo header. -/
theorem wordSum_pseudohdr (heven : addrs.length % 2 = 0) (len : ℕ) (s : List UInt8) :
    wordSum (pseudohdr v6 addrs arsIpprotoUdp len ++ s) =
        wordSum (pseudohdr v6 addrs arsIpprotoUdp len) + wordSum s ∧
      wordSum (pseudohdr v6 addrs arsIpprotoUdp len) ≠ 0 := by
  cases v6 with
  | false =>
    have hproto : (addrs ++ [0, UInt8.ofNat arsIpprotoUdp]).length % 2 = 0 := by
      rw [List.length_append]
      exact (Nat.add_mod_right _ _).trans heven
    refine ⟨wordSum_append ?_ s, ?_⟩
    · rw [pseudohdr, if_neg Bool.false_ne_true, List.length_append, length_putBe16]
      omega
    · rw [pseudohdr, if_neg Bool.false_ne_true, wordSum_append hproto, wordSum_append heven]
      simp [wordSum, le16, arsIpprotoUdp]
  | true =>
    have hlen : (addrs ++ putBe32 len).length % 2 = 0 := by
      rw [List.length_append, length_putBe32]
      omega
    refine ⟨wordSum_append ?_ s, ?_⟩
    · rw [pseudohdr, if_pos rfl, List.length_append]
      exact (Nat.add_mod_right _ 2).trans ((Nat.add_mod_right _ 2).trans hlen)
    · rw [pseudohdr, if_pos rfl, wordSum_append hlen]
      simp [wordSum, le16, arsIpprotoUdp]

/-- A datagram fits in a sum of 32 bits. -/
theorem wordSum_datagram_lt (haddrs : addrs.length ≤ 32) (hd : d.length < 65536) (len : ℕ) :
    wordSum (pseudohdr v6 addrs arsIpprotoUdp len ++ d) < 2 ^ 32 := by
  have hle := wordSum_le (pseudohdr v6 addrs arsIpprotoUdp len ++ d)
  have hlen := @length_pseudohdr v6 addrs haddrs len
  rw [List.length_append] at hle
  omega

/-- **The computed checksum is zero** where the sum is right without one. -/
theorem pseudoCksum_eq_zero (haddrs : addrs.length ≤ 32) (heven : addrs.length % 2 = 0)
    (hd : d.length < 65536) :
    pseudoCksum v6 addrs arsIpprotoUdp d = 0 ↔ udpSum v6 addrs d = 65535 := by
  have hlt := @wordSum_datagram_lt v6 addrs d haddrs hd d.length
  obtain ⟨hsum, hne⟩ := @wordSum_pseudohdr v6 addrs heven d.length d
  rw [pseudoCksum, udpSum, onesSum_eq_iff, arsCksum_eq, Nat.mod_eq_of_lt hlt]
  obtain ⟨hmod, hzero⟩ := foldCarry_spec hlt
  have hfold := foldCarry_lt (wordSum (pseudohdr v6 addrs arsIpprotoUdp d.length ++ d))
  omega

/-- One of the zeros is never computed. -/
theorem pseudoCksum_ne (haddrs : addrs.length ≤ 32) (heven : addrs.length % 2 = 0)
    (hd : d.length < 65536) : pseudoCksum v6 addrs arsIpprotoUdp d < 65535 := by
  have hlt := @wordSum_datagram_lt v6 addrs d haddrs hd d.length
  obtain ⟨hsum, hne⟩ := @wordSum_pseudohdr v6 addrs heven d.length d
  obtain ⟨-, hzero⟩ := foldCarry_spec hlt
  have hpos : foldCarry (wordSum (pseudohdr v6 addrs arsIpprotoUdp d.length ++ d)) ≠ 0 :=
    hzero.not.mpr (by omega)
  rw [pseudoCksum, arsCksum_eq, Nat.mod_eq_of_lt hlt]
  omega

/-- **The sum is right** when the field is what is computed, or the other zero. -/
theorem udpSum_eq_iff (haddrs : addrs.length ≤ 32) (heven : addrs.length % 2 = 0)
    (hd : d.length < 65536) (hhdr : 8 ≤ d.length) :
    udpSum v6 addrs d = 65535 ↔
      le16 (d.getD 6 0) (d.getD 7 0) = pseudoCksum v6 addrs arsIpprotoUdp (writeAt d 6 [0, 0]) ∨
        le16 (d.getD 6 0) (d.getD 7 0) = 65535 ∧
          pseudoCksum v6 addrs arsIpprotoUdp (writeAt d 6 [0, 0]) = 0 := by
  have hd' : (writeAt d 6 [0, 0]).length < 65536 := by rwa [length_writeAt]
  have hlt := @wordSum_datagram_lt v6 addrs _ haddrs hd' d.length
  obtain ⟨hsum, hne⟩ := @wordSum_pseudohdr v6 addrs heven d.length d
  obtain ⟨hsum', -⟩ := @wordSum_pseudohdr v6 addrs heven d.length (writeAt d 6 [0, 0])
  have hfield : wordSum d = wordSum (writeAt d 6 [0, 0]) + le16 (d.getD 6 0) (d.getD 7 0) :=
    wordSum_writeAt hhdr rfl
  have hdvd := dvd_add_iff (by omega) hlt (le16_lt (d.getD 6 0) (d.getD 7 0))
  have hfold := foldCarry_lt (wordSum (pseudohdr v6 addrs arsIpprotoUdp d.length ++
    writeAt d 6 [0, 0]))
  rw [udpSum, onesSum_eq_iff, pseudoCksum, length_writeAt, arsCksum_eq, Nat.mod_eq_of_lt hlt]
  rw [show wordSum (pseudohdr v6 addrs arsIpprotoUdp d.length ++ d) =
    wordSum (pseudohdr v6 addrs arsIpprotoUdp d.length ++ writeAt d 6 [0, 0]) +
      le16 (d.getD 6 0) (d.getD 7 0) by omega]
  omega

end Datagram

/-! ### The two sides -/

/-- Data is left as it is. -/
theorem arsCompileFrom_data {data : List ArsLayer} (h : ∀ l ∈ data, l.lType = .data)
    (before : List ArsLayer) : arsCompileFrom before data = .ok data := by
  induction data generalizing before with
  | nil => rfl
  | cons l data ih =>
    have hl := h l List.mem_cons_self
    refine arsCompileFrom_cons.mpr
      ⟨l, data, ih (fun m hm => h m (List.mem_cons_of_mem l hm)) _, ?_, rfl⟩
    rw [arsLiCompiler, hl]

/-- The layers behind some others are compiled first. -/
theorem arsCompileFrom_append {before ls ms out : List ArsLayer}
    (h : arsCompileFrom before (ls ++ ms) = .ok out) :
    ∃ ls' ms', out = ls' ++ ms' ∧ ls'.length = ls.length ∧
      arsCompileFrom (ls.reverse ++ before) ms = .ok ms' := by
  induction ls generalizing before out with
  | nil => exact ⟨[], out, rfl, rfl, h⟩
  | cons l ls ih =>
    obtain ⟨l', rest, hrest, -, rfl⟩ := arsCompileFrom_cons.mp h
    obtain ⟨ls', ms', rfl, hlen, hms⟩ := ih hrest
    refine ⟨l' :: ls', ms', rfl, by simp [hlen], ?_⟩
    rwa [List.reverse_cons, List.append_assoc]

theorem Parent.length {v6 : Bool} {addrs : List UInt8} {before : List ArsLayer}
    (h : Parent v6 addrs before) : addrs.length ≤ 32 ∧ addrs.length % 2 = 0 := by
  cases v6 with
  | false =>
    obtain ⟨l, -, -, htype, rfl⟩ := h
    have hhdr := hdr_le_of_lType htype
    have h20 : ArsType.ip.hdrSize = 20 := rfl
    rw [List.length_take, List.length_drop]
    omega
  | true =>
    obtain ⟨l, -, -, htype, rfl⟩ := h
    have hhdr := hdr_le_of_lType htype
    have h40 : ArsType.ip6.hdrSize = 40 := rfl
    rw [List.length_take, List.length_drop]
    omega

/-- The bytes of a UDP datagram that is compiled, with a zero for the checksum. -/
def udpUnsummed (l : ArsLayer) (data : List ArsLayer) : List UInt8 :=
  (l.writeAll (udpAuto l data [0, 0])).bytes ++ layersBytes data

variable {v6 : Bool} {addrs : List UInt8}

/-- **The compiler stores a zero** where the sum is right without a checksum. -/
theorem udp_compiled {before data : List ArsLayer} {l : ArsLayer} (hp : Parent v6 addrs before)
    (hl : l.lType = .udp) (hsize : l.lSize = 8)
    (htake : arsDonttake l.lFlags arsTakeUdpCksum = true) (hdata : ∀ d ∈ data, d.lType = .data)
    (hfit : 8 + arsRelativeSize data < 65536) {out : List ArsLayer}
    (h : arsCompileFrom before (l :: data) = .ok out) :
    ∃ l', out = l' :: data ∧
      (be16 (l'.byte 6) (l'.byte 7) = 0 ↔ udpSum v6 addrs (udpUnsummed l data) = 65535) := by
  obtain ⟨l', data', hdata', hcomp, rfl⟩ := arsCompileFrom_cons.mp h
  obtain rfl := Except.ok.inj ((arsCompileFrom_data hdata _).symm.trans hdata')
  have hfills := (fills_udp before data).eq l hl
  have hudp : arsLiCompiler before l data = arsCompilerUdp before l data := by
    rw [arsLiCompiler, hl]
  have hsummed : (l.writeAll (udpAuto l data [0, 0])).lType = .udp := by
    rw [writeAll_lType, hl]
  have hproto : arsUdptcpProtocol (l.writeAll (udpAuto l data [0, 0])) = arsIpprotoUdp := by
    rw [arsUdptcpProtocol, hsummed]
    rfl
  rw [if_pos htake, arsUdptcpCksum_of_parent hp, hproto, ← hudp, hcomp] at hfills
  obtain rfl := Except.ok.inj hfills
  have hread := (fills_udp before data).slice_writeAll hl
    (length_putLe16 (pseudoCksum v6 addrs arsIpprotoUdp (udpUnsummed l data)))
  obtain ⟨haddrs, heven⟩ := hp.length
  have hlen : (udpUnsummed l data).length < 65536 := by
    rw [udpUnsummed, List.length_append, length_bytes, writeAll_lSize, hsize, length_layersBytes]
    exact hfit
  refine ⟨_, rfl, ?_⟩
  rw [← pseudoCksum_eq_zero haddrs heven hlen, be16_eq_zero]
  have hsize' := writeAll_lSize l
    (udpAuto l data (putLe16 (pseudoCksum v6 addrs arsIpprotoUdp (udpUnsummed l data))))
  rw [hsize] at hsize'
  have hle := (l.writeAll (udpAuto l data
    (putLe16 (pseudoCksum v6 addrs arsIpprotoUdp (udpUnsummed l data))))).size_le
  rw [slice_two (by omega), putLe16, List.cons.injEq, List.cons.injEq] at hread
  have h16 := le16_putLe16 (pseudoCksum v6 addrs arsIpprotoUdp (udpUnsummed l data))
  rw [Nat.mod_eq_of_lt (pseudoCksum_lt _ _ _ _)] at h16
  rw [← h16]
  exact iff_of_eq (congrArg (· = 0) (congrArg₂ le16 hread.1 hread.2.1))

/-- **The dissector marks a field** that is not what it computes. -/
theorem udp_dissected {pkt : ArsPacket} (hdef : pkt.NoDefault)
    (hp : Parent v6 addrs pkt.pLayer.reverse) {h rest : List UInt8} (hh : h.length = 8)
    {out : SplitOut} (hout : arsSplitUdp pkt (h ++ rest) = .ok out) :
    ∃ l, out.pkt.pLayer = pkt.pLayer ++ [l] ∧ (l.lFlags &&& arsSplitFbadcksum ≠ 0 ↔
      le16 (h.getD 6 0) (h.getD 7 0) ≠
        pseudoCksum v6 addrs arsIpprotoUdp (writeAt (h ++ rest) 6 [0, 0])) := by
  have hroom : pkt.pLayer.length < arsMaxLayer := by
    by_contra hfull
    have hlen : ¬(h ++ rest).length < 8 := by
      rw [List.length_append]
      omega
    rw [arsSplitUdp, rdBytes_eq (by simp), bind_ok, dif_neg hlen, arsTempLayer, arsAddGeneric,
      dif_neg hfull] at hout
    exact absurd hout (by intro h; cases h)
  obtain ⟨pkt', hok, hext⟩ := @handles_udp pkt hdef hroom h rest hh v6 addrs hp
  have hout' : arsSplitUdp pkt (h ++ rest) = .ok _ := hok
  obtain rfl := Except.ok.inj (hout.symm.trans hout')
  refine ⟨_, hext.layers, ?_⟩
  have hflags : ∀ ok : Prop, ∀ [Decidable ok],
      cksumFlags ok &&& arsSplitFbadcksum ≠ 0 ↔ ¬ok := by
    intro ok _
    rw [cksumFlags]
    split_ifs with hok
    · simp [hok]
    · simp [hok, arsSplitFbadcksum]
  exact hflags _

/-- **The convention for the checksum of UDP is kept in these cases and no others.** What is
compiled is not a zero unless the sum is right with a zero for the checksum. The mark for a
wrong checksum is there for the fields that are not zero and do not make the sum right, unless
the field is one of the two zeros: one that says that there is no checksum where the sum is not
right, or the other one where it is. -/
theorem udp_cksum_iff {addrs : List UInt8} :
    (∀ {v6 : Bool} {hs data : List ArsLayer} {l : ArsLayer}
      {pkt pkt' : ArsPacket}, pkt.pLayer = hs ++ l :: data → Parent v6 addrs hs.reverse →
      l.lType = .udp → l.lSize = 8 → arsDonttake l.lFlags arsTakeUdpCksum = true →
      (∀ d ∈ data, d.lType = .data) → 8 + arsRelativeSize data < 65536 →
      arsCompile pkt = .ok pkt' →
      ∃ hs' l', pkt'.pLayer = hs' ++ l' :: data ∧ hs'.length = hs.length ∧
        (be16 (l'.byte 6) (l'.byte 7) ≠ 0 ↔ udpSum v6 addrs (udpUnsummed l data) ≠ 65535)) ∧
    (∀ {pkt : ArsPacket} {h rest : List UInt8} {out : SplitOut},
      pkt.NoDefault → Parent false addrs pkt.pLayer.reverse → h.length = 8 →
      8 + rest.length < 65536 → arsSplitUdp pkt (h ++ rest) = .ok out →
      ∃ l, out.pkt.pLayer = pkt.pLayer ++ [l] ∧
        ((l.lFlags &&& arsSplitFbadcksum ≠ 0 ↔
            be16 (h.getD 6 0) (h.getD 7 0) ≠ 0 ∧ udpSum false addrs (h ++ rest) ≠ 65535) ↔
          (be16 (h.getD 6 0) (h.getD 7 0) = 0 → udpSum false addrs (h ++ rest) = 65535) ∧
          (be16 (h.getD 6 0) (h.getD 7 0) = 65535 → udpSum false addrs (h ++ rest) ≠ 65535))) := by
  refine ⟨?_, ?_⟩
  · rintro v6 hs data l pkt pkt' hlayers hp hl hsize htake hdata hfit hok
    have hfrom := (arsCompile_eq_ok.mp hok).1
    rw [hlayers] at hfrom
    obtain ⟨hs', ms', hout, hlen, hms⟩ := arsCompileFrom_append hfrom
    rw [List.append_nil] at hms
    obtain ⟨l', rfl, hiff⟩ := udp_compiled hp hl hsize htake hdata hfit hms
    exact ⟨hs', l', hout, hlen, not_congr hiff⟩
  · rintro pkt h rest out hdef hp hh hfit hout
    obtain ⟨l, hlayers, hflag⟩ := udp_dissected hdef hp hh hout
    refine ⟨l, hlayers, ?_⟩
    obtain ⟨haddrs, heven⟩ := hp.length
    have hd : (h ++ rest).length < 65536 := by
      rw [List.length_append, hh]
      exact hfit
    have hsum := @udpSum_eq_iff false _ _ haddrs heven hd (by rw [List.length_append, hh]; omega)
    rw [List.getD_append _ _ _ _ (by omega), List.getD_append _ _ _ _ (by omega)] at hsum
    have hzero := be16_eq_zero (h.getD 6 0) (h.getD 7 0)
    have hones : be16 (h.getD 6 0) (h.getD 7 0) = 65535 ↔ le16 (h.getD 6 0) (h.getD 7 0) = 65535 := by
      have h6 := (h.getD 6 0).toNat_lt
      have h7 := (h.getD 7 0).toNat_lt
      simp only [be16, le16]
      omega
    have hne := @pseudoCksum_ne false _ (writeAt (h ++ rest) 6 [0, 0]) haddrs heven
      (by rwa [length_writeAt])
    simp only [ne_eq] at hflag ⊢
    rw [hflag, hsum, hzero, hones]
    generalize le16 (h.getD 6 0) (h.getD 7 0) = f
    generalize pseudoCksum false addrs arsIpprotoUdp (writeAt (h ++ rest) 6 [0, 0]) = c at hne ⊢
    by_cases hfc : f = c
    · -- what is computed is stored, and it is not the zero with all its bits set
      have hmax : f ≠ 65535 := by omega
      simp [hfc, hfc ▸ hmax]
    · simp only [hfc, not_false_eq_true, true_iff, false_or]
      constructor
      · rintro ⟨hf, hother⟩
        exact ⟨fun hcon => absurd hcon hf, fun _ => hother⟩
      · rintro ⟨hf, hother⟩
        refine ⟨fun hcon => ?_, fun hcon => hother hcon.1 hcon⟩
        have := (hf hcon).1
        omega

/-- A packet with an IPv4 header from 10.0.0.1 to 10.0.0.2. -/
def tenPacket : ArsPacket :=
  arsInit.push (.full .ip 0 [0x45, 0, 0, 0, 0, 0, 0, 0, 64, 17, 0, 0, 10, 0, 0, 1, 10, 0, 0, 2]
    (Nat.le_refl 20)) (Nat.succ_pos 255)

/-- The same with a UDP header from port 53, to some port. -/
def domainPacket (hi lo : UInt8) : ArsPacket :=
  tenPacket.push (.full .udp 0 [0, 53, hi, lo, 0, 0, 0, 0] (Nat.le_refl 8)) (by decide)

/-- To port 60326, the checksum is sent as a zero; and a datagram without a checksum is marked
as one with a wrong checksum. -/
theorem udp_zero_cksum :
    (∃ pkt', arsCompile (domainPacket 0xeb 0xa6) = .ok pkt' ∧
      pkt'.pLayer.getLast?.map (fun l => be16 (l.byte 6) (l.byte 7)) = some 0) ∧
    ∃ out, arsSplitUdp tenPacket [0, 53, 0, 80, 0, 8, 0, 0] = .ok out ∧
      out.pkt.pLayer.getLast?.map (fun l => l.lFlags &&& arsSplitFbadcksum) =
        some arsSplitFbadcksum :=
  ⟨⟨_, rfl, rfl⟩, ⟨_, rfl, rfl⟩⟩

/-- To port 80, the checksum is not a zero, and a field of one is marked. -/
theorem udp_cksum_iff_domain :
    (∃ pkt' hs' l', arsCompile (domainPacket 0 80) = .ok pkt' ∧ pkt'.pLayer = hs' ++ [l'] ∧
      be16 (l'.byte 6) (l'.byte 7) ≠ 0) ∧
    ∃ out l, arsSplitUdp tenPacket [0, 53, 0, 80, 0, 8, 0, 1] = .ok out ∧
      out.pkt.pLayer = tenPacket.pLayer ++ [l] ∧ l.lFlags &&& arsSplitFbadcksum ≠ 0 := by
  have hp : Parent false [10, 0, 0, 1, 10, 0, 0, 2] tenPacket.pLayer.reverse :=
    ⟨_, [], rfl, rfl, rfl⟩
  constructor
  · obtain ⟨pkt', hok⟩ : ∃ pkt', arsCompile (domainPacket 0 80) = .ok pkt' := ⟨_, rfl⟩
    obtain ⟨hs', l', hlayers, -, hiff⟩ := udp_cksum_iff.1 (l := .full .udp 0
      [0, 53, 0, 80, 0, 0, 0, 0] (Nat.le_refl 8)) (show (domainPacket 0 80).pLayer =
        tenPacket.pLayer ++ _ :: [] from rfl) hp rfl rfl rfl (by simp) (by decide) hok
    exact ⟨pkt', hs', l', hok, hlayers, hiff.mpr (by decide)⟩
  · obtain ⟨out, hok⟩ : ∃ out, arsSplitUdp tenPacket ([0, 53, 0, 80, 0, 8, 0, 1] ++ []) = .ok out :=
      ⟨_, rfl⟩
    obtain ⟨l, hlayers, hiff⟩ := udp_cksum_iff.2 (fun _ => rfl) hp rfl (by decide) hok
    refine ⟨out, l, hok, hlayers, (hiff.mpr ⟨?_, ?_⟩).mpr ⟨?_, ?_⟩⟩
    all_goals decide

end StyxWire
