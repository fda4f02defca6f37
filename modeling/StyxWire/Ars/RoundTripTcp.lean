import StyxWire.Ars.Reject
import StyxWire.Ars.Tcpopt

/-!
# The round trip of TCP

TCP segments in datagrams of IPv4, described and built again.

* Without options, a segment makes the round trip just if one of its flags is set
  (`StyxWire.tcp_roundTrips_iff`): the printer writes the flags as letters, and nothing at
  all if there are none, where the parser takes the comma for the value.
* With options, it makes it just if every option of the SACK kind has four blocks
  (`StyxWire.tcpopt_roundTrips_iff`): the builder adds an option with room for four
  blocks, and nothing sets its length back.
-/

namespace StyxWire

open Mem Text ArsLayer

/-! ### Segments -/

/-- The datagram of a TCP segment: an IPv4 header without options, a TCP header, its options,
and the payload. -/
structure TcpDatagram (buf ip tcp : List UInt8) (opts : List (List UInt8))
    (payload : List UInt8) : Prop extends
    Ipv4Datagram buf ip (tcp ++ (opts.flatten ++ payload)) where
  ihl : (ip.getD 0 0).toNat % 16 = 5
  protocol : (ip.getD 9 0).toNat = arsIpprotoTcp
  tcp_length : tcp.length = 20
  off : (tcp.getD 12 0).toNat / 16 * 4 = 20 + opts.flatten.length
  wellFormed : ∀ o ∈ opts, WellFormedOpt o

/-- The layer of a TCP header. -/
def tcpLayer (f : ℕ) (tcp : List UInt8) (h : tcp.length = 20) : ArsLayer := full .tcp f tcp (Nat.le_of_eq h.symm)

theorem TcpDatagram.dissects {buf ip tcp : List UInt8} {opts : List (List UInt8)}
    {payload : List UInt8} (h : TcpDatagram buf ip tcp opts payload) :
    DissectsAs ip (tcp ++ (opts.flatten ++ payload)) h.length fun ls =>
      ∃ g, ls = tcpLayer g tcp h.tcp_length ::
        (optLayers .tcpopt rfl opts ++ dataLayers payload) := by
  rintro f pkt hdef hls -
  have h20 := h.tcp_length
  have hoff := h.off
  have hihl := h.ihl
  have hnil := flatten_eq_nil h.wellFormed
  have hroom : pkt.pLayer.length < arsMaxLayer := by
    rw [hls]
    exact (by decide : 1 < 256)
  have hparent : Parent false ((ip.drop 12).take 8) pkt.pLayer.reverse := by
    rw [hls]
    exact @parent_ip (ipLayer f ip h.length) rfl [] fun _ ho => absurd ho List.not_mem_nil
  obtain ⟨pkt', hhandles, haux⟩ := @handles_tcp pkt hdef hroom tcp (opts.flatten ++ payload) h20
    false _ hparent (by omega) (by rw [List.length_append, List.length_append]; omega)
  generalize cksumFlags (le16 (tcp.getD 16 0) (tcp.getD 17 0) = pseudoCksum false
    ((ip.drop 12).take 8) arsIpprotoTcp (writeAt (tcp ++ (opts.flatten ++ payload)) 16 [0, 0])) = g
    at hhandles
  have hext := hhandles.extends_
  refine ⟨_, ⟨g, rfl⟩, ?_⟩
  rw [if_neg (by omega), h.protocol, show arsIpNextState arsIpprotoTcp = .getTcp from rfl]
  refine hhandles.dissects rfl (by omega) ?_
  -- the options, if there are any
  have hstate : (if 5 < (tcp.getD 12 0).toNat / 16 then SplitState.getTcpopt else .getData) =
      if opts = [] then .getData else .getTcpopt := by
    by_cases hopts : opts = []
    · rw [if_pos hopts, if_neg]
      rw [hnil.mpr hopts, List.length_nil] at hoff
      omega
    · have hpos := List.length_pos_of_ne_nil (mt hnil.mp hopts)
      rw [if_neg hopts, if_pos (by omega)]
  have hcount := length_le_length_flatten h.wellFormed
  have hthoff := (tcp.getD 12 0).toNat_lt
  have hmax : arsMaxLayer = 256 := rfl
  rw [hstate]
  refine dissects_tcpopts (hext.noDefault hdef) h.wellFormed ?_ ?_ payload
  · rw [hext.length, hls]
    simp only [List.length_cons, List.length_nil]
    omega
  · rintro hopts
    have hpos := List.length_pos_of_ne_nil (mt hnil.mp hopts)
    rw [haux (by omega)]
    omega

/-- **The layers of a segment.** -/
theorem TcpDatagram.layers_eq {buf ip tcp : List UInt8} {opts : List (List UInt8)}
    {payload : List UInt8} (h : TcpDatagram buf ip tcp opts payload) {fresh pkt : ArsPacket}
    (hfresh : fresh.Fresh) (hsplit : arsSplitPacket buf 0 fresh = .ok pkt) :
    ∃ f g, pkt.pLayer = ipLayer f ip h.length :: tcpLayer g tcp h.tcp_length ::
        (optLayers .tcpopt rfl opts ++ dataLayers payload) ∧
      pkt.NoDefault ∧ pkt.pOptions = fresh.pOptions := by
  have hihl := h.ihl
  have h20 := h.tcp_length
  obtain ⟨f, ls, ⟨g, rfl⟩, hls, hdef, hopt⟩ := h.layers (by omega)
    (by rw [List.length_append]; omega) hfresh hsplit h.dissects
  exact ⟨f, g, hls, hdef, hopt⟩

theorem kept_tcp {l : ArsLayer} (ht : l.lType = .tcp) (hf : l.lFlags = 3) : Kept l := by
  rintro before after
  rw [arsLiCompiler, ht]
  simp only [arsCompilerTcp, hf]
  rfl

/-- A TCP header with a flag is restored. -/
theorem restores_tcpLayer (libc : Libc) {pkt : ArsPacket} (hdef : pkt.NoDefault)
    {tcp : List UInt8} (hlen : tcp.length = 20) (hflags : byteAt 13 tcp ≠ 0) (g : ℕ) :
    Restores libc pkt (tcpLayer g tcp hlen) (tcpLayer 3 tcp hlen) := by
  have hw : Whole .tcp (tcpLayer g tcp hlen) := ⟨rfl, hlen, hlen⟩
  exact restores (prints_tcp libc hdef hw hflags) (builds_tcp libc hw) (kept_tcp rfl rfl) rfl

/-! ### Flags -/

/-- **Without a flag** the description is not accepted. -/
theorem not_roundTrips_of_flags {libc : Libc} {pkt : ArsPacket}
    (hdef : pkt.NoDefault) {ip tcp : List UInt8} (hip : ip.length = 20) (htcp : tcp.length = 20)
    {f g : ℕ} {ls : List ArsLayer} (hls : pkt.pLayer = ipLayer f ip hip :: tcpLayer g tcp htcp :: ls)
    {ds : List LayerDesc} (hds : List.Forall₂ (Writes libc pkt) ls ds) (hflags : byteAt 13 tcp = 0)
    (bytes : List UInt8) : ¬RoundTrips libc pkt bytes := by
  have hwip : Whole .ip (ipLayer f ip hip) := ⟨rfl, hip, hip⟩
  have hwtcp : Whole .tcp (tcpLayer g tcp htcp) := ⟨rfl, htcp, htcp⟩
  have hprints := prints_ip libc hdef hwip
  have hwrites : List.Forall₂ (Writes libc pkt) pkt.pLayer (ipDesc ip :: tcpDesc tcp :: ds) := by
    rw [hls]
    exact .cons hprints.writes (.cons (writes_tcp libc hdef hwtcp) hds)
  obtain ⟨-, hdelim, -, -⟩ := fmtTcpFlags_spec (byteAt_lt 13 tcp)
  have hno : ¬IsWord (fmtTcpFlags (byteAt 13 tcp)) := fun hw =>
    (isWord_fmtTcpFlags (byteAt_lt 13 tcp)).mp hw hflags
  obtain ⟨e, he⟩ := @arsDBuild_of_not_isWord libc [ipDesc ip]
    (List.forall_mem_singleton.mpr hprints.wf) (show 1 < 256 by decide) "tcp" (by decide) _ (tcpDesc_wf_init tcp)
    "flags" (by decide) _ hdelim hno [⟨"win", fmtU (ntohsAt 14 tcp)⟩,
      ⟨"cksum", fmtHex 4 (ntohsAt 16 tcp)⟩, ⟨"urp", fmtU (ntohsAt 18 tcp)⟩] (by
        simp only [List.forall_mem_cons, List.not_mem_nil, false_imp_iff, implies_true, and_true]
        decide) ds
  rw [roundTrips_iff_text (arsRapdLayers_eq hwrites)]
  rintro ⟨built, out, hbuild, -⟩
  exact absurd (hbuild.symm.trans he) (by simp)

/-- **Describe and build, for TCP without options**: a segment is given back just if one of its
flags is set. -/
theorem tcp_roundTrips_iff {libc : Libc} (hlibc : libc.Inverts) {buf ip tcp payload : List UInt8}
    (h : TcpDatagram buf ip tcp [] payload) (hpayload : payload.length ≤ 5999)
    {fresh pkt : ArsPacket} (hfresh : fresh.Fresh)
    (hhex : arsTestOption fresh arsOptRapdHexdata = true)
    (hsplit : arsSplitPacket buf 0 fresh = .ok pkt) :
    RoundTrips libc pkt (ip ++ tcp ++ payload) ↔ byteAt 13 tcp ≠ 0 := by
  obtain ⟨f, g, hls, hdef, hopt⟩ := h.layers_eq hfresh hsplit
  have hhex' : arsTestOption pkt arsOptRapdHexdata = true := by
    rw [arsTestOption, hopt]
    exact hhex
  have hbytes : layersBytes pkt.pLayer = ip ++ tcp ++ payload := by
    have hopts : optLayers .tcpopt rfl [] = [] := rfl
    rw [hls, layersBytes_cons, layersBytes_cons, hopts, List.nil_append, layersBytes_dataLayers,
      List.append_assoc]
    exact congrArg₂ (· ++ ·) List.take_length (congrArg (· ++ payload) List.take_length)
  constructor
  · rintro hround hflags
    exact not_roundTrips_of_flags hdef h.length h.tcp_length hls
      ((prints_dataLayers libc hhex' hpayload).imp fun _ _ hl => hl.writes) hflags _ hround
  · rintro hflags
    have hne : layersBytes pkt.pLayer ≠ [] := by
      refine List.ne_nil_of_length_pos ?_
      rw [hbytes, List.length_append, List.length_append, h.length]
      omega
    rw [← hbytes]
    refine roundTrips_of_restores hne ?_
    rw [hls]
    refine List.forall_mem_cons.mpr ⟨⟨_, restores_ipLayer hlibc hdef h.length f⟩,
      List.forall_mem_cons.mpr ⟨⟨_, restores_tcpLayer libc hdef h.tcp_length hflags g⟩, ?_⟩⟩
    exact exists_restores_dataLayers libc hhex' hpayload

/-- A datagram of a segment with the given flags, and its two headers. -/
def tcpIp : List UInt8 :=
  [0x45, 0, 0, 40, 0, 1, 0x40, 0, 64, 6, 0, 0, 10, 0, 0, 1, 10, 0, 0, 2]

def tcpHeader (flags : UInt8) : List UInt8 :=
  [0x30, 0x39, 0, 80, 0, 0, 0, 1, 0, 0, 0, 0, 0x50, flags, 16, 0, 0, 0, 0, 0]

/-- The packet it is dissected to. -/
def tcpPacket (flags : UInt8) : ArsPacket :=
  { arsSetOption arsInit arsOptRapdHexdata with
    pLayer := [ipLayer 2 tcpIp rfl, tcpLayer 2 (tcpHeader flags) rfl]
    nr_le := (by decide : 2 ≤ 256) }

theorem tcpDatagram (flags : UInt8) :
    TcpDatagram (tcpIp ++ tcpHeader flags) tcpIp (tcpHeader flags) [] [] where
  datagram := rfl
  length := rfl
  version := by decide
  ihl := rfl
  protocol := rfl
  tcp_length := rfl
  off := (by decide : (0x50 : UInt8).toNat / 16 * 4 = 20)
  wellFormed := fun _ ho => absurd ho List.not_mem_nil

set_option maxRecDepth 10000 in
/-- A SYN segment makes the round trip. -/
theorem tcp_roundTrips_syn :
    RoundTrips numericLibc (tcpPacket 2) (tcpIp ++ tcpHeader 2) :=
  (@tcp_roundTrips_iff numericLibc numericLibc_inverts _ _ _ [] (tcpDatagram 2) (Nat.zero_le _)
    (arsSetOption arsInit arsOptRapdHexdata) (tcpPacket 2) ⟨rfl, fun _ => rfl⟩ rfl rfl).mpr
    (by decide)

set_option maxRecDepth 10000 in
/-- A segment without flags, as of a null scan, does not. -/
theorem null_segment_not_roundTrips :
    TcpDatagram (tcpIp ++ tcpHeader 0) tcpIp (tcpHeader 0) [] [] ∧
      arsSplitPacket (tcpIp ++ tcpHeader 0) 0 (arsSetOption arsInit arsOptRapdHexdata) =
        .ok (tcpPacket 0) ∧
      ¬RoundTrips numericLibc (tcpPacket 0) (tcpIp ++ tcpHeader 0) := by
  refine ⟨tcpDatagram 0, rfl, ?_⟩
  exact not_roundTrips_of_flags (fun _ => rfl) rfl rfl rfl (.nil : List.Forall₂ _ [] []) rfl _

/-! ### Options -/

theorem layersBytes_optLayers {t : ArsType} (ht : t.hdrSize = 0) (os : List (List UInt8)) :
    layersBytes (optLayers t ht os) = os.flatten := by
  induction os with
  | nil => rfl
  | cons o os ih =>
    rw [optLayers, List.map_cons, layersBytes_cons, List.flatten_cons]
    exact congrArg₂ (· ++ ·) List.take_length ih

/-- **What the layers built from the description of a segment are compiled to**: themselves, with
the padding of the options. -/
theorem compile_segment {ip tcp : List UInt8} (hip : ip.length = 20) (htcp : tcp.length = 20)
    (os : List (List UInt8)) (payload : List UInt8) :
    ∃ out, arsCompileFrom [] (ipLayer 31 ip hip :: tcpLayer 3 tcp htcp ::
        (optLayers .tcpopt rfl os ++ dataLayers payload)) = .ok out ∧
      layersBytes out = ip ++ (tcp ++ (os.flatten ++
        (List.replicate (padding os.flatten.length) 1 ++ payload))) := by
  have hkip : Kept (ipLayer 31 ip hip) := kept_ip rfl rfl
  have hktcp : Kept (tcpLayer 3 tcp htcp) := kept_tcp rfl rfl
  have hcomp : ∀ (before : List ArsLayer) (l : ArsLayer) (after : List ArsLayer),
      l.lType = .tcpopt → arsLiCompiler before l after =
        .ok (arsCompilerOpt .tcpopt arsTcpoptNop before l after) := by
    rintro before l after hl
    rw [arsLiCompiler, hl]
    rfl
  have htypes : ∀ l ∈ optLayers .tcpopt rfl os, l.lType = .tcpopt := by
    rintro l hl
    obtain ⟨o, -, rfl⟩ := List.mem_map.mp hl
    rfl
  have hrun : runSize .tcpopt [tcpLayer 3 tcp htcp, ipLayer 31 ip hip] = 0 := rfl
  obtain ⟨opts', hok, hbytes⟩ :=
    compile_opts_data hcomp (by decide) htypes (isData_dataLayers payload) hrun
  have hflat := layersBytes_optLayers (t := .tcpopt) rfl os
  replace hbytes := hbytes.trans
    (congrArg (fun x => x ++ List.replicate (padding x.length) (1 : UInt8)) hflat)
  refine ⟨ipLayer 31 ip hip :: tcpLayer 3 tcp htcp :: (opts' ++ dataLayers payload),
    arsCompileFrom_cons.mpr ⟨_, _, arsCompileFrom_cons.mpr ⟨_, _, hok, hktcp _ _, rfl⟩,
      hkip _ _, rfl⟩, ?_⟩
  rw [layersBytes_cons, layersBytes_cons, layersBytes_append, hbytes, layersBytes_dataLayers,
    List.append_assoc]
  exact congrArg₂ (· ++ ·) List.take_length (congrArg (· ++ _) List.take_length)

/-- The options that are built are longer than those described, unless they are the same. -/
theorem rebuilt_options {opts : List (List UInt8)} (hstd : ∀ o ∈ opts, StdTcpopt o) :
    opts.flatten.length ≤ (opts.map rebuiltTcpopt).flatten.length ∧
      ((opts.map rebuiltTcpopt).flatten.length = opts.flatten.length ↔
        ∀ o ∈ opts, byteAt 0 o = arsTcpoptSack → o.length = 34) := by
  induction opts with
  | nil => simp
  | cons o opts ih =>
    obtain ⟨hle, hiff⟩ := ih fun o ho => hstd o (List.mem_cons_of_mem _ ho)
    have ho := hstd o List.mem_cons_self
    have hlen := length_rebuiltTcpopt ho
    have h34 := ho.length_le
    rw [List.map_cons, List.flatten_cons, List.flatten_cons, List.length_append,
      List.length_append, List.forall_mem_cons, ← hiff]
    by_cases hk : byteAt 0 o = arsTcpoptSack
    · rw [if_pos hk] at hlen
      constructor
      · omega
      · simp only [hk, true_implies]
        omega
    · rw [if_neg hk] at hlen
      constructor
      · omega
      · simp only [hk, false_implies, true_and]
        omega

theorem rebuilt_eq_self {opts : List (List UInt8)} (hstd : ∀ o ∈ opts, StdTcpopt o)
    (h : ∀ o ∈ opts, byteAt 0 o = arsTcpoptSack → o.length = 34) :
    opts.map rebuiltTcpopt = opts := by
  refine List.map_congr_left (g := id) ?_ |>.trans (List.map_id _)
  rintro o ho
  by_cases hk : byteAt 0 o = arsTcpoptSack
  · have hlen := h o ho hk
    have htwo := (hstd o ho).take_two hk hlen (by decide)
    rw [rebuiltTcpopt_sack hk, hlen, Nat.sub_self, List.replicate_zero, List.append_nil]
    calc [5, 34] ++ o.drop 2 = o.take 2 ++ o.drop 2 := congrArg (· ++ o.drop 2) htwo.symm
      _ = o := List.take_append_drop 2 o
  · exact rebuiltTcpopt_of_ne hk

/-- A segment with options is given back just if what is built has their length. -/
theorem TcpDatagram.roundTrips_iff_length {libc : Libc} (hlibc : libc.Inverts)
    {buf ip tcp payload : List UInt8} {opts : List (List UInt8)}
    (h : TcpDatagram buf ip tcp opts payload) (hstd : ∀ o ∈ opts, StdTcpopt o)
    (hflags : byteAt 13 tcp ≠ 0) (hpayload : payload.length ≤ 5999)
    {fresh pkt : ArsPacket} (hfresh : fresh.Fresh)
    (hhex : arsTestOption fresh arsOptRapdHexdata = true)
    (hsplit : arsSplitPacket buf 0 fresh = .ok pkt) :
    RoundTrips libc pkt (ip ++ tcp ++ opts.flatten ++ payload) ↔
      (opts.map rebuiltTcpopt).flatten.length = opts.flatten.length := by
  obtain ⟨f, g, hls, hdef, hopt⟩ := h.layers_eq hfresh hsplit
  have hhex' : arsTestOption pkt arsOptRapdHexdata = true := by
    rw [arsTestOption, hopt]
    exact hhex
  have hdescribes : List.Forall₂ (Describes libc pkt) pkt.pLayer
      (ipLayer 31 ip h.length :: tcpLayer 3 tcp h.tcp_length ::
        (optLayers .tcpopt rfl (opts.map rebuiltTcpopt) ++ dataLayers payload)) := by
    have hopts : List.Forall₂ (Describes libc pkt) (optLayers .tcpopt rfl opts)
        (optLayers .tcpopt rfl (opts.map rebuiltTcpopt)) := by
      change List.Forall₂ _ (opts.map tcpoptLayer) ((opts.map rebuiltTcpopt).map tcpoptLayer)
      rw [List.forall₂_map_left_iff, List.forall₂_map_right_iff, List.forall₂_map_right_iff,
        List.forall₂_same]
      exact fun o ho => describes_tcpopt libc pkt (hstd o ho)
    rw [hls]
    exact .cons (restores_ipLayer hlibc hdef h.length f).toDescribes
      (.cons (restores_tcpLayer libc hdef h.tcp_length hflags g).toDescribes
        (List.rel_append hopts (describes_dataLayers libc hhex' hpayload)))
  have hne : ip ++ tcp ++ opts.flatten ++ payload ≠ [] := by
    refine List.ne_nil_of_length_pos ?_
    have := h.length
    simp only [List.length_append]
    omega
  obtain ⟨out, hout, hbytes⟩ :=
    compile_segment h.length h.tcp_length (opts.map rebuiltTcpopt) payload
  obtain ⟨hle, hiff⟩ := rebuilt_options hstd
  rw [roundTrips_of_describes hdescribes (by rw [hls]; exact List.cons_ne_nil _ _) hne]
  constructor
  · rintro ⟨out', hout', hbytes'⟩
    -- the bytes that are built are as many as those described
    obtain rfl : out = out' := Except.ok.inj (hout.symm.trans hout')
    have hlen := congrArg List.length (hbytes.symm.trans hbytes')
    simp only [List.length_append] at hlen
    omega
  · rintro hlen
    have hpad : padding opts.flatten.length = 0 := by
      have hoff := h.off
      rw [padding]
      omega
    refine ⟨out, hout, hbytes.trans ?_⟩
    rw [rebuilt_eq_self hstd (hiff.mp hlen), hpad, List.replicate_zero, List.nil_append]
    simp only [List.append_assoc]

/-- **Describe and build, for TCP with options**: a segment with a flag, all of whose options are
of standard length, is given back just if each of those of the SACK kind has four blocks. -/
theorem tcpopt_roundTrips_iff {libc : Libc} (hlibc : libc.Inverts)
    {buf ip tcp payload : List UInt8} {opts : List (List UInt8)}
    (h : TcpDatagram buf ip tcp opts payload) (hstd : ∀ o ∈ opts, StdTcpopt o)
    (hflags : byteAt 13 tcp ≠ 0) (hpayload : payload.length ≤ 5999)
    {fresh pkt : ArsPacket} (hfresh : fresh.Fresh)
    (hhex : arsTestOption fresh arsOptRapdHexdata = true)
    (hsplit : arsSplitPacket buf 0 fresh = .ok pkt) :
    RoundTrips libc pkt (ip ++ tcp ++ opts.flatten ++ payload) ↔
      ∀ o ∈ opts, byteAt 0 o = arsTcpoptSack → o.length = 34 :=
  (h.roundTrips_iff_length hlibc hstd hflags hpayload hfresh hhex hsplit).trans
    (rebuilt_options hstd).2

/-- An acknowledgement with a SACK option of `k` blocks, all of whose bytes are seven. -/
def sackOptions (k : ℕ) : List (List UInt8) :=
  [[1], [1], [5, UInt8.ofNat (2 + 8 * k)] ++ List.replicate (8 * k) 7]

def sackIp (k : ℕ) : List UInt8 :=
  [0x45, 0, 0, UInt8.ofNat (44 + 8 * k), 0, 1, 0x40, 0, 64, 6, 0, 0, 10, 0, 0, 1, 10, 0, 0, 2]

def sackTcp (k : ℕ) : List UInt8 :=
  [0x30, 0x39, 0, 80, 0, 0, 0, 1, 0, 0, 0, 0, UInt8.ofNat (16 * (6 + 2 * k)), 0x10, 16, 0, 0, 0, 0, 0]

theorem hdrSize_tcpopt : ArsType.tcpopt.hdrSize = 0 := rfl

/-- The packet it is dissected to. -/
def sackPacket (k : ℕ) : ArsPacket :=
  { arsSetOption arsInit arsOptRapdHexdata with
    pLayer := ipLayer 2 (sackIp k) rfl :: tcpLayer 2 (sackTcp k) rfl ::
      optLayers .tcpopt hdrSize_tcpopt (sackOptions k)
    nr_le := (by decide : 5 ≤ 256) }

theorem stdTcpopt_sackOptions {k : ℕ} (hk : k ∈ [1, 4]) : ∀ o ∈ sackOptions k, StdTcpopt o := by
  simp only [List.mem_cons, List.not_mem_nil, or_false] at hk
  rcases hk with rfl | rfl
  · simp only [sackOptions, List.forall_mem_cons, List.not_mem_nil, false_imp_iff, implies_true,
      and_true]
    exact ⟨⟨by decide, by decide⟩, ⟨by decide, by decide⟩, ⟨by decide, by decide⟩⟩
  · simp only [sackOptions, List.forall_mem_cons, List.not_mem_nil, false_imp_iff, implies_true,
      and_true]
    exact ⟨⟨by decide, by decide⟩, ⟨by decide, by decide⟩, ⟨by decide, by decide⟩⟩

theorem sackDatagram {k : ℕ} (hk : k ∈ [1, 4]) :
    TcpDatagram (sackIp k ++ sackTcp k ++ (sackOptions k).flatten) (sackIp k) (sackTcp k)
      (sackOptions k) [] where
  datagram := by
    simp only [List.mem_cons, List.not_mem_nil, or_false] at hk
    rcases hk with rfl | rfl <;> rfl
  length := rfl
  version := (by decide : (0x45 : UInt8).toNat / 16 ≠ 6)
  ihl := (by decide : (0x45 : UInt8).toNat % 16 = 5)
  protocol := rfl
  tcp_length := rfl
  off := by
    simp only [List.mem_cons, List.not_mem_nil, or_false] at hk
    rcases hk with rfl | rfl <;> rfl
  wellFormed := fun o ho => (stdTcpopt_sackOptions hk o ho).wellFormed

set_option maxRecDepth 10000 in
/-- Four blocks are given back. -/
theorem tcpopt_roundTrips_sack :
    RoundTrips numericLibc (sackPacket 4)
      (sackIp 4 ++ sackTcp 4 ++ (sackOptions 4).flatten ++ []) :=
  (@tcpopt_roundTrips_iff numericLibc numericLibc_inverts _ _ _ [] _
    (sackDatagram (k := 4) (by decide)) (stdTcpopt_sackOptions (k := 4) (by decide)) (by decide)
    (Nat.zero_le _) (arsSetOption arsInit arsOptRapdHexdata) (sackPacket 4) ⟨rfl, fun _ => rfl⟩ rfl
    rfl).mpr (by decide)

set_option maxRecDepth 10000 in
/-- One block is not. -/
theorem sack_not_roundTrips :
    TcpDatagram (sackIp 1 ++ sackTcp 1 ++ (sackOptions 1).flatten) (sackIp 1) (sackTcp 1)
        (sackOptions 1) [] ∧ (∀ o ∈ sackOptions 1, StdTcpopt o) ∧ byteAt 13 (sackTcp 1) ≠ 0 ∧
      arsSplitPacket (sackIp 1 ++ sackTcp 1 ++ (sackOptions 1).flatten) 0
        (arsSetOption arsInit arsOptRapdHexdata) = .ok (sackPacket 1) ∧
      ¬RoundTrips numericLibc (sackPacket 1)
        (sackIp 1 ++ sackTcp 1 ++ (sackOptions 1).flatten ++ []) := by
  have h := sackDatagram (k := 1) (by decide)
  have hstd := stdTcpopt_sackOptions (k := 1) (by decide)
  refine ⟨h, hstd, by decide, rfl, fun hround => ?_⟩
  have hlen := (@TcpDatagram.roundTrips_iff_length numericLibc numericLibc_inverts _ _ _ [] _ h hstd
    (by decide) (Nat.zero_le _) (arsSetOption arsInit arsOptRapdHexdata) (sackPacket 1)
    ⟨rfl, fun _ => rfl⟩ rfl rfl).mp hround
  exact absurd hlen (by decide)

end StyxWire
