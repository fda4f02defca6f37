import StyxWire.Ars.Describe

/-!
# The round trip of the base protocols

A packet that was dissected is described, the description is built, compiled and put
together: what comes out are the bytes that were dissected (`StyxWire.base_roundTrips`),
for IPv4 headers without options, IPv6, UDP, ICMPv6 and data, whatever is in the fields.

The description has all the fields of a header that `ars_compile` would fill in, so that
the layers built from it are not changed any more (`StyxWire.Kept`).
-/

namespace StyxWire

open Mem Text ArsLayer

/-! ### The round trip -/

/-- **The round trip** of a packet to the bytes `bytes`: there is one text that
`ars_d_from_ars` writes into every buffer that is large enough for it; `ars_d_build`
accepts the text, and what it builds is compiled and built to the bytes. -/
def RoundTrips (libc : Libc) (pkt : ArsPacket) (bytes : List UInt8) : Prop :=
  ∃ text built out,
    (∀ dest len, text.length < len → arsDFromArs libc dest len pkt = .ok text) ∧
      arsDBuild libc arsInit text = .ok built ∧ arsCompile built = .ok out ∧
        arsBuildPacket out = .ok bytes

/-- The text is that of the layers. -/
theorem roundTrips_iff_text {libc : Libc} {pkt : ArsPacket} {text bytes : List UInt8}
    (htext : arsRapdLayers libc pkt = .ok text) :
    RoundTrips libc pkt bytes ↔ ∃ built out, arsDBuild libc arsInit text = .ok built ∧
      arsCompile built = .ok out ∧ arsBuildPacket out = .ok bytes := by
  have hfrom : ∀ dest len, text.length < len → arsDFromArs libc dest len pkt = .ok text := by
    intro dest len hlen
    rw [arsDFromArs, if_neg (by omega), htext, Except.map, List.take_of_length_le (by omega)]
  constructor
  · rintro ⟨text', built, out, hall, hbuild, hcompile, hbytes⟩
    have h := hall [] (text.length + text'.length + 1) (by omega)
    rw [hfrom [] _ (by omega)] at h
    obtain rfl : text = text' := Except.ok.inj h
    exact ⟨built, out, hbuild, hcompile, hbytes⟩
  · rintro ⟨built, out, hbuild, hcompile, hbytes⟩
    exact ⟨text, built, out, hfrom, hbuild, hcompile, hbytes⟩

theorem arsRapdLayers_eq {libc : Libc} {pkt : ArsPacket} {ds : List LayerDesc}
    (h : List.Forall₂ (Writes libc pkt) pkt.pLayer ds) :
    arsRapdLayers libc pkt = .ok (descText ds) := by
  have hmap : ∀ {ls : List ArsLayer} {ds : List LayerDesc}, List.Forall₂ (Writes libc pkt) ls ds →
      ls.mapM (fun l => arsLiRapd libc l.lType pkt l) =
        .ok (ds.map fun d => d.text ++ lit "+") := by
    rintro ls ds h
    induction h with
    | nil => rfl
    | cons hl _ ih =>
      rw [List.mapM_cons, show arsLiRapd _ _ _ _ = _ from hl, bind_ok, ih]
      rfl
  rw [arsRapdLayers, hmap h]
  rfl

theorem arsBuildPacket_eq_ok {pkt : ArsPacket} {bytes : List UInt8} (hne : bytes ≠ []) :
    arsBuildPacket pkt = .ok bytes ↔ layersBytes pkt.pLayer = bytes := by
  have hlen := length_layersBytes pkt.pLayer
  rw [arsBuildPacket]
  split_ifs with hzero
  · constructor
    · rintro h
      cases h
    · rintro rfl
      rw [hzero] at hlen
      exact absurd (List.length_eq_zero_iff.mp hlen) hne
  · rw [Except.ok.injEq]

/-- **The round trip of a packet whose layers are described by words** is a matter of what the
descriptions mean. -/
theorem roundTrips_iff {libc : Libc} {pkt : ArsPacket} {ds : List LayerDesc}
    (h : List.Forall₂ (Prints libc pkt) pkt.pLayer ds) (hne : pkt.pLayer ≠ [])
    {bytes : List UInt8} (hbytes : bytes ≠ []) :
    RoundTrips libc pkt bytes ↔ ∃ ls out, List.Forall₂ (Builds libc) ds ls ∧
      arsCompileFrom [] ls = .ok out ∧ layersBytes out = bytes := by
  have hds : ds ≠ [] := by
    rintro rfl
    exact hne (List.forall₂_nil_right_iff.mp h)
  have hwf : ∀ d ∈ ds, d.Wf := by
    rintro d hd
    obtain ⟨l, hl⟩ := exists_of_forall₂_of_mem h hd
    exact hl.wf
  have hlen : ds.length ≤ arsMaxLayer := h.length_eq ▸ pkt.nr_le
  rw [roundTrips_iff_text (arsRapdLayers_eq (h.imp fun _ _ hl => hl.writes))]
  constructor
  · rintro ⟨built, out, hbuild, hcompile, hout⟩
    exact ⟨built.pLayer, out.pLayer, (arsDBuild_iff hds hwf hlen).mp ⟨built, hbuild, rfl⟩,
      (arsCompile_eq_ok.mp hcompile).1, (arsBuildPacket_eq_ok hbytes).mp hout⟩
  · rintro ⟨ls, out, hls, hcompile, hout⟩
    obtain ⟨built, hbuild, rfl⟩ := (arsDBuild_iff hds hwf hlen).mpr hls
    refine ⟨built, { built with
      pLayer := out, nr_le := length_arsCompileFrom hcompile ▸ built.nr_le }, hbuild, ?_, ?_⟩
    · exact arsCompile_eq_ok.mpr ⟨hcompile, rfl, rfl, rfl, rfl⟩
    · exact (arsBuildPacket_eq_ok hbytes).mpr hout

/-- The layer `l` is described by `d`, from which `l'` is built. -/
structure Describes (libc : Libc) (pkt : ArsPacket) (l l' : ArsLayer) : Prop where
  exists_desc : ∃ d, Prints libc pkt l d ∧ Builds libc d l'

theorem exists_descs {libc : Libc} {pkt : ArsPacket} {ls ls' : List ArsLayer}
    (h : List.Forall₂ (Describes libc pkt) ls ls') :
    ∃ ds, List.Forall₂ (Prints libc pkt) ls ds ∧ List.Forall₂ (Builds libc) ds ls' := by
  induction h with
  | nil => exact ⟨[], .nil, .nil⟩
  | cons hl _ ih =>
    obtain ⟨d, hprints, hbuilds⟩ := hl.exists_desc
    obtain ⟨ds, hds, hls⟩ := ih
    exact ⟨d :: ds, .cons hprints hds, .cons hbuilds hls⟩

/-- **The round trip of a packet all of whose layers are built again** is a matter of what the
compilers do to them. -/
theorem roundTrips_of_describes {libc : Libc} {pkt : ArsPacket} {ls : List ArsLayer}
    (h : List.Forall₂ (Describes libc pkt) pkt.pLayer ls) (hne : pkt.pLayer ≠ [])
    {bytes : List UInt8} (hbytes : bytes ≠ []) :
    RoundTrips libc pkt bytes ↔ ∃ out, arsCompileFrom [] ls = .ok out ∧ layersBytes out = bytes := by
  obtain ⟨ds, hprints, hbuilds⟩ := exists_descs h
  rw [roundTrips_iff hprints hne hbytes]
  constructor
  · rintro ⟨ls', out, hls', hout⟩
    have hfun : Relator.RightUnique (Builds libc) := fun _ _ _ h h' => Except.ok.inj (h.symm.trans h')
    obtain rfl := List.right_unique_forall₂' hfun hbuilds hls'
    exact ⟨out, hout⟩
  · rintro ⟨out, hout⟩
    exact ⟨ls, out, hbuilds, hout⟩

/-! ### What the compilers leave alone -/

/-- A layer that its compiler leaves alone. -/
def Kept (l : ArsLayer) : Prop := ∀ before after, arsLiCompiler before l after = .ok l

theorem arsCompileFrom_kept {ls : List ArsLayer} (h : ∀ l ∈ ls, Kept l) (before : List ArsLayer) :
    arsCompileFrom before ls = .ok ls := by
  induction ls generalizing before with
  | nil => rfl
  | cons l ls ih =>
    exact arsCompileFrom_cons.mpr ⟨l, ls, ih (fun m hm => h m (List.mem_cons_of_mem _ hm)) _,
      h l List.mem_cons_self before ls, rfl⟩

theorem kept_ip {l : ArsLayer} (ht : l.lType = .ip) (hf : l.lFlags = 31) : Kept l := by
  rintro before after
  rw [arsLiCompiler, ht]
  simp only [arsCompilerIp, hf]
  rfl

theorem kept_ip6 {l : ArsLayer} (ht : l.lType = .ip6) (hf : l.lFlags = 7) : Kept l := by
  rintro before after
  rw [arsLiCompiler, ht]
  simp only [arsCompilerIp6, hf]
  rfl

theorem kept_udp {l : ArsLayer} (ht : l.lType = .udp) (hf : l.lFlags = 3) : Kept l := by
  rintro before after
  rw [arsLiCompiler, ht]
  simp only [arsCompilerUdp, hf]
  rfl

theorem kept_icmp6 {l : ArsLayer} (ht : l.lType = .icmp6) (hf : l.lFlags = 1) : Kept l := by
  rintro before after
  rw [arsLiCompiler, ht]
  simp only [arsCompilerIcmp6, hf]
  rfl

theorem kept_data {l : ArsLayer} (ht : l.lType = .data) : Kept l := by
  rintro before after
  rw [arsLiCompiler, ht]

/-! ### Data -/

/-- The two digits of a byte. -/
theorem exists_hexDigits (b : UInt8) : ∃ c0 c1, padZero 2 (fmtX b.toNat) = [c0, c1] ∧
    hexval c0 = some (b.toNat / 16) ∧ hexval c1 = some (b.toNat % 16) := by
  have hall : ∀ n < 256, (padZero 2 (fmtX n)).length = 2 ∧
      hexval ((padZero 2 (fmtX n)).getD 0 0) = some (n / 16) ∧
        hexval ((padZero 2 (fmtX n)).getD 1 0) = some (n % 16) := by
    decide +kernel
  obtain ⟨hlen, h0, h1⟩ := hall b.toNat b.toNat_lt
  obtain ⟨c0, c1, heq⟩ := List.length_eq_two.mp hlen
  rw [heq] at h0 h1
  exact ⟨c0, c1, heq, h0, h1⟩

theorem hexByte_digits (b : UInt8) : hexByte (b.toNat / 16) (b.toNat % 16) = b := by
  rw [hexByte, Nat.div_add_mod', UInt8.ofNat_toNat]

@[simp] theorem length_hexBytes (bs : List UInt8) : (hexBytes bs).length = 2 * bs.length := by
  induction bs with
  | nil => rfl
  | cons b bs ih =>
    obtain ⟨c0, c1, heq, -, -⟩ := exists_hexDigits b
    rw [hexBytes] at ih ⊢
    rw [List.map_cons, List.flatten_cons, List.length_append, ih, heq, List.length_cons]
    simp only [List.length_cons, List.length_nil]
    omega

theorem digitVal_lt_of_hexval {c : UInt8} {n : ℕ} (h : hexval c = some n) : digitVal c < 16 := by
  rw [hexval] at h
  split_ifs at h with hlt
  exact hlt

theorem mem_hexBytes {bs : List UInt8} {c : UInt8} (hc : c ∈ hexBytes bs) : digitVal c < 16 := by
  rw [hexBytes, List.mem_flatten] at hc
  obtain ⟨s, hs, hc⟩ := hc
  obtain ⟨b, -, rfl⟩ := List.mem_map.mp hs
  obtain ⟨c0, c1, heq, h0, h1⟩ := exists_hexDigits b
  rw [heq] at hc
  simp only [List.mem_cons, List.not_mem_nil, or_false] at hc
  rcases hc with rfl | rfl
  · exact digitVal_lt_of_hexval h0
  · exact digitVal_lt_of_hexval h1

theorem arsDecodeHex_hexBytes (bs : List UInt8) : arsDecodeHex (hexBytes bs) = .ok bs := by
  have hloop : arsDecodeHexLoop (hexBytes bs) = .ok bs := by
    induction bs with
    | nil => rfl
    | cons b bs ih =>
      obtain ⟨c0, c1, heq, h0, h1⟩ := exists_hexDigits b
      rw [hexBytes] at ih ⊢
      rw [List.map_cons, List.flatten_cons, heq, List.cons_append, List.cons_append,
        List.nil_append, arsDecodeHexLoop, h0, h1]
      dsimp only
      rw [ih, hexByte_digits]
      rfl
  rw [arsDecodeHex, length_hexBytes, if_neg (by omega), hloop]

theorem isWord_hexBytes {bs : List UInt8} (hne : bs ≠ []) (hlen : bs.length ≤ 5999) :
    IsWord (hexBytes bs) where
  ne_nil := by
    have hpos := List.length_pos_of_ne_nil hne
    refine List.ne_nil_of_length_pos ?_
    rw [length_hexBytes]
    omega
  delim := fun c hc => isDelim_of_digitVal ((mem_hexBytes hc).trans (by decide))
  length_lt := by
    have hmax : arsMaxTsize = 12000 := rfl
    rw [length_hexBytes]
    omega

/-- The description of data, in hexadecimal. -/
def hexDesc (bs : List UInt8) : LayerDesc := ⟨"data", [⟨"hex", hexBytes bs⟩]⟩

theorem prints_hex (libc : Libc) {pkt : ArsPacket} (hhex : arsTestOption pkt arsOptRapdHexdata = true)
    {l : ArsLayer} (ht : l.lType = .data) (hl : Complete l) (hsize : l.lSize ≤ 5999) :
    Prints libc pkt l (hexDesc l.lData) where
  writes := by
    have hlen := hl.length
    have hbytes : l.bytes = l.lData := by rw [bytes, ← hlen, List.take_length]
    rw [Writes, ht, arsLiRapd, arsRapdData, hbytes, rdBytes_eq (by omega), bind_ok, List.drop_zero, ← hlen,
      List.take_length, if_pos hhex]
    exact congrArg Except.ok (text_field rfl _)
  wf := ⟨(by decide : IsWord (lit "data")), fields_cons (by decide) (isWord_hexBytes
    (List.ne_nil_of_length_pos (by rw [hl.length]; exact hl.pos)) (hl.length ▸ hsize)) fields_nil⟩

/-- A new layer of data. -/
def dataNew : ArsLayer := full .data 0 [] (Nat.le_refl 0)

theorem addsLayer_data : AddsLayer (arsAddData · 0) dataNew := addsLayer_generic (t := .data) _

theorem dataNew_grow (bs : List UInt8) : dataNew.grow bs = full .data 0 bs (Nat.zero_le _) :=
  ext_data rfl (Nat.zero_add _) rfl (by simp [dataNew, grow, full, bytes])

/-- **Data is built from its description.** -/
theorem builds_hex (libc : Libc) {bs : List UInt8} (hne : bs ≠ []) :
    Builds libc (hexDesc bs) (full .data 0 bs (Nat.zero_le _)) := by
  have hk : arsGetKeywordByName (lit "data") = some ⟨"data", (arsAddData · 0), arsDSetData⟩ := rfl
  have hset : setFields libc ⟨"data", (arsAddData · 0), arsDSetData⟩ (hexDesc bs).fields dataNew =
      (arsDecodeHex (hexBytes bs)).map (arsPushData · dataNew) :=
    setFields_single (pushing fun _ v => arsDecodeHex v) (fun _ => rfl) dataNew
  have hpush : arsPushData bs dataNew = full .data 0 bs (Nat.zero_le _) := by
    rw [arsPushData, if_neg hne, dataNew_grow]
  rw [Builds, build_eq hk addsLayer_data, hset, arsDecodeHex_hexBytes, Except.map, hpush]

/-! ### The base protocols -/

/-- A layer of the base protocols, as far as it can be told from the layer. -/
inductive IsBase (l : ArsLayer) : Prop
  /-- An IPv4 header without options. -/
  | ip (ht : l.lType = .ip) (hihl : (l.byte 0).toNat % 16 = 5)
  | ip6 (ht : l.lType = .ip6)
  | udp (ht : l.lType = .udp)
  | icmp6 (ht : l.lType = .icmp6)
  /-- Data, no more than there is room for in a token. -/
  | data (ht : l.lType = .data) (hsize : l.lSize ≤ 5999)

theorem Complete.whole {l : ArsLayer} (hl : Complete l) {t : ArsType} (ht : l.lType = t)
    (hpos : 0 < t.hdrSize) : Whole t l where
  lType := ht
  lSize := by rw [hl.hdr (by rw [ht]; exact hpos), ht]
  length := by rw [hl.length, hl.hdr (by rw [ht]; exact hpos), ht]

theorem Complete.bytes_eq {l : ArsLayer} (hl : Complete l) : l.bytes = l.lData := by
  rw [bytes, ← hl.length, List.take_length]

/-- The layer is described, and what is built from its description is the layer again, in a
form that its compiler leaves alone. -/
structure Restores (libc : Libc) (pkt : ArsPacket) (l l' : ArsLayer) : Prop extends
    Describes libc pkt l l' where
  kept : Kept l'
  bytes : l'.bytes = l.bytes

theorem restores {libc : Libc} {pkt : ArsPacket} {l l' : ArsLayer} {d : LayerDesc}
    (hprints : Prints libc pkt l d) (hbuilds : Builds libc d l') (hkept : Kept l')
    (hbytes : l'.bytes = l.bytes) : Restores libc pkt l l' :=
  ⟨⟨d, hprints, hbuilds⟩, hkept, hbytes⟩

theorem restores_data (libc : Libc) {pkt : ArsPacket}
    (hhex : arsTestOption pkt arsOptRapdHexdata = true) {l : ArsLayer} (ht : l.lType = .data)
    (hl : Complete l) (hsize : l.lSize ≤ 5999) :
    Restores libc pkt l (full .data 0 l.lData (Nat.zero_le _)) := by
  have hne : l.lData ≠ [] := List.ne_nil_of_length_pos (by rw [hl.length]; exact hl.pos)
  refine restores (prints_hex libc hhex ht hl hsize) (builds_hex libc hne) (kept_data rfl) ?_
  rw [hl.bytes_eq]
  exact List.take_length

/-- **Every layer of the base protocols is restored.** -/
theorem exists_restores {libc : Libc} (hlibc : libc.Inverts) {pkt : ArsPacket}
    (hdef : pkt.NoDefault) (hhex : arsTestOption pkt arsOptRapdHexdata = true) {l : ArsLayer}
    (hl : Complete l) (hbase : IsBase l) : ∃ l', Restores libc pkt l l' := by
  cases hbase with
  | ip ht _ =>
    have hw : Whole .ip l := hl.whole ht (by decide)
    exact ⟨_, restores (prints_ip libc hdef hw) (builds_ip hlibc hw) (kept_ip ht rfl) rfl⟩
  | ip6 ht =>
    have hw : Whole .ip6 l := hl.whole ht (by decide)
    exact ⟨_, restores (prints_ip6 hlibc pkt hw) (builds_ip6 hlibc hw) (kept_ip6 ht rfl) rfl⟩
  | udp ht =>
    have hw : Whole .udp l := hl.whole ht (by decide)
    exact ⟨_, restores (prints_udp libc pkt hw) (builds_udp libc hw) (kept_udp ht rfl) rfl⟩
  | icmp6 ht =>
    have hw : Whole .icmp6 l := hl.whole ht (by decide)
    exact ⟨_, restores (prints_icmp6 libc pkt hw) (builds_icmp6 libc hw) (kept_icmp6 ht rfl) rfl⟩
  | data ht hsize => exact ⟨_, restores_data libc hhex ht hl hsize⟩

theorem layersBytes_restores {libc : Libc} {pkt : ArsPacket} {ls ls' : List ArsLayer}
    (h : List.Forall₂ (Restores libc pkt) ls ls') :
    List.Forall₂ (Describes libc pkt) ls ls' ∧ (∀ l ∈ ls', Kept l) ∧
      layersBytes ls' = layersBytes ls := by
  induction h with
  | nil => exact ⟨.nil, fun _ hl => absurd hl List.not_mem_nil, rfl⟩
  | cons hl _ ih =>
    obtain ⟨hdesc, hkept, hbytes⟩ := ih
    refine ⟨.cons hl.toDescribes hdesc, List.forall_mem_cons.mpr ⟨hl.kept, hkept⟩, ?_⟩
    rw [layersBytes_cons, layersBytes_cons, hl.bytes, hbytes]

/-- **A packet whose layers are restored makes the round trip.** -/
theorem roundTrips_of_restores {libc : Libc} {pkt : ArsPacket} (hne : layersBytes pkt.pLayer ≠ [])
    (h : ∀ l ∈ pkt.pLayer, ∃ l', Restores libc pkt l l') :
    RoundTrips libc pkt (layersBytes pkt.pLayer) := by
  obtain ⟨ls', hls'⟩ := exists_forall₂ h
  obtain ⟨hdesc, hkept, hbytes⟩ := layersBytes_restores hls'
  have hlayers : pkt.pLayer ≠ [] := fun hnil => hne (by rw [hnil]; rfl)
  exact (roundTrips_of_describes hdesc hlayers hne).mpr
    ⟨ls', arsCompileFrom_kept hkept [], hbytes⟩

theorem layersBytes_ne_nil {ls : List ArsLayer} (hne : ls ≠ []) (h : ∀ l ∈ ls, Complete l) :
    layersBytes ls ≠ [] := by
  obtain ⟨l, ls, rfl⟩ := List.exists_cons_of_ne_nil hne
  have hpos := (h l List.mem_cons_self).pos
  refine List.ne_nil_of_length_pos ?_
  rw [layersBytes_cons, List.length_append, length_bytes]
  omega

/-- **Describe and build, on the base protocols**: a datagram that is dissected to complete
layers of the base protocols is given back, whatever the fields hold. -/
theorem base_roundTrips {libc : Libc} (hlibc : libc.Inverts) {buf : List UInt8}
    {fresh pkt : ArsPacket} (hfresh : fresh.Fresh)
    (hhex : arsTestOption fresh arsOptRapdHexdata = true)
    (hsplit : arsSplitPacket buf 0 fresh = .ok pkt)
    (htrunc : ∀ l ∈ pkt.pLayer, l.lFlags &&& arsSplitFtrunc = 0)
    (hbase : ∀ l ∈ pkt.pLayer, IsBase l) :
    RoundTrips libc pkt (buf.take (arsDatagramSize buf)) := by
  obtain ⟨hne, hbytes, hcomplete, hdef, hopt⟩ := arsSplitPacket_complete hfresh hsplit htrunc
  have hhex' : arsTestOption pkt arsOptRapdHexdata = true := by
    rw [arsTestOption, hopt]
    exact hhex
  rw [← hbytes]
  exact roundTrips_of_restores (layersBytes_ne_nil hne hcomplete) fun l hl =>
    exists_restores hlibc hdef hhex' (hcomplete l hl) (hbase l hl)

/-! ### A C library

The assumption on the conversions of addresses can be met: addresses of IPv6 without the
short forms, and no names. -/

/-- The groups of an IPv6 address, with a colon in between. -/
def colonHex : List UInt8 → List UInt8
  | x :: y :: s => hexBytes [x, y] ++ if s = [] then [] else ch ':' :: colonHex s
  | _ => []

/-- A C library without names and files. -/
def numericLibc : Libc where
  inetNtop a := if a.length = 16 then some (colonHex a) else none
  inetPton s := (hextobin (s.filter (· ≠ ch ':'))).filter (·.length = 16)
  inetAton s :=
    let fields := strftok (ch '.') s 4
    if fields.length = 4 then some (fields.map fun f => UInt8.ofNat (strtoul f)) else none
  gethostbyname _ := none
  getaddrinfo _ := none
  readFile _ _ := .error (lit "No such file or directory")
  inetPton_length s a h := by
    obtain ⟨-, hlen⟩ := Option.filter_eq_some_iff.mp h
    simpa using hlen
  inetAton_length s a h := by
    dsimp only at h
    split_ifs at h with hlen
    obtain rfl := Option.some.inj h
    rw [List.length_map, hlen]
  gethostbyname_length _ _ h := by cases h
  getaddrinfo_length _ _ h := by cases h
  readFile_length _ _ _ h := by cases h

theorem hextobin_hexBytes (bs : List UInt8) : hextobin (hexBytes bs) = some bs := by
  induction bs with
  | nil => rfl
  | cons b bs ih =>
    obtain ⟨c0, c1, heq, h0, h1⟩ := exists_hexDigits b
    rw [hexBytes] at ih ⊢
    rw [List.map_cons, List.flatten_cons, heq, List.cons_append, List.cons_append,
      List.nil_append, hextobin, h0, h1, ih]
    simp [hexByte_digits]

theorem hexBytes_append (bs cs : List UInt8) : hexBytes (bs ++ cs) = hexBytes bs ++ hexBytes cs := by
  rw [hexBytes, List.map_append, List.flatten_append]
  rfl

theorem colon_notMem_hexBytes (bs : List UInt8) : ∀ c ∈ hexBytes bs, c ≠ ch ':' := by
  rintro c hc rfl
  exact absurd (mem_hexBytes hc) (by decide)

theorem colonHex_spec {n : ℕ} {a : List UInt8} (ha : a.length = 2 * (n + 1)) :
    (colonHex a).filter (· ≠ ch ':') = hexBytes a ∧ colonHex a ≠ [] ∧
      (colonHex a).length < 5 * (n + 1) ∧ ∀ c ∈ colonHex a, digitVal c < 16 ∨ c = ch ':' := by
  induction n generalizing a with
  | zero =>
    obtain ⟨x, y, rfl⟩ := List.length_eq_two.mp ha
    have hx : colonHex [x, y] = hexBytes [x, y] := by
      rw [colonHex, if_pos rfl, List.append_nil]
    have hlen : (hexBytes [x, y]).length = 4 := length_hexBytes _
    rw [hx, List.filter_eq_self.mpr fun c hc => by simpa using colon_notMem_hexBytes _ c hc]
    exact ⟨rfl, List.ne_nil_of_length_pos (by omega), by omega, fun c hc => Or.inl (mem_hexBytes hc)⟩
  | succ n ih =>
    obtain ⟨x, a, rfl⟩ := List.exists_cons_of_ne_nil (List.ne_nil_of_length_pos (show 0 < a.length by omega))
    rw [List.length_cons] at ha
    obtain ⟨y, a, rfl⟩ := List.exists_cons_of_ne_nil
      (List.ne_nil_of_length_pos (show 0 < a.length by omega))
    rw [List.length_cons] at ha
    obtain ⟨hfilter, hne, hlen, hmem⟩ := @ih a (by omega)
    have hnil : a ≠ [] := List.ne_nil_of_length_pos (by omega)
    have hx : colonHex (x :: y :: a) = hexBytes [x, y] ++ ch ':' :: colonHex a := by
      rw [colonHex, if_neg hnil]
    have htwo : (hexBytes [x, y]).length = 4 := length_hexBytes _
    refine ⟨?_, ?_, ?_, ?_⟩
    · rw [hx, List.filter_append, List.filter_cons_of_neg (by simp), hfilter,
        List.filter_eq_self.mpr fun c hc => by simpa using colon_notMem_hexBytes _ c hc]
      exact (hexBytes_append [x, y] a).symm
    · rw [hx]
      exact List.append_ne_nil_of_right_ne_nil _ (List.cons_ne_nil _ _)
    · rw [hx, List.length_append, List.length_cons, htwo]
      omega
    · rw [hx]
      rintro c hc
      rcases List.mem_append.mp hc with hc | hc
      · exact Or.inl (mem_hexBytes hc)
      · rcases List.mem_cons.mp hc with rfl | hc
        · exact Or.inr rfl
        · exact hmem c hc

theorem numericLibc_inverts : numericLibc.Inverts where
  aton a ha := by
    match a, ha with
    | [a0, a1, a2, a3], _ =>
      have hnum : ∀ b : UInt8, fmtU b.toNat ≠ [] ∧ ∀ c ∈ fmtU b.toNat, c ≠ ch '.' := fun b =>
        ⟨fmt_ne_nil 10 _, fun c hc => by
          have hd := digitVal_of_mem_fmt (show 1 < 10 by decide) (by decide) b.toNat c hc
          rintro rfl
          exact absurd hd (by decide)⟩
      have hpieces := @strftok_pieces (ch '.') [fmtU a0.toNat, fmtU a1.toNat, fmtU a2.toNat]
        (fmtU a3.toNat) 4 (by simpa using ⟨hnum a0, hnum a1, hnum a2⟩) (hnum a3)
      have htext : dottedQuad [a0, a1, a2, a3] =
          ([fmtU a0.toNat, fmtU a1.toNat, fmtU a2.toNat].map (· ++ [ch '.'])).flatten ++
            fmtU a3.toNat := by
        simp [dottedQuad, lit]
      have hread : ∀ b : UInt8, UInt8.ofNat (strtoul (fmtU b.toNat)) = b := fun b => by
        have := b.toNat_lt
        rw [strtoul_fmtU (by omega), UInt8.ofNat_toNat]
      rw [htext]
      simp only [numericLibc, hpieces]
      simp [hread]
  pton a ha := by
    obtain ⟨hfilter, hne, hlen, hmem⟩ := @colonHex_spec 7 a ha
    refine ⟨colonHex a, if_pos ha, ?_, hne, by omega, ?_⟩
    · simp only [numericLibc, hfilter, hextobin_hexBytes]
      simp [ha]
    · rintro c hc
      rcases hmem c hc with hd | hd
      · exact Or.inl hd
      · exact Or.inr (Or.inl hd)

/-- A DNS query of two bytes, with wrong checksums. -/
def udpDatagram : List UInt8 :=
  [0x45, 0, 0, 30, 0, 1, 0x40, 0, 64, 17, 0, 0, 10, 0, 0, 1, 10, 0, 0, 2] ++
    [0x30, 0x39, 0, 53, 0, 10, 0, 0] ++ [1, 2]

/-- The packet it is dissected to. -/
def udpPacket : ArsPacket :=
  { arsSetOption arsInit arsOptRapdHexdata with
    pLayer := [full .ip 2 (udpDatagram.take 20) (by decide),
      full .udp 2 ((udpDatagram.drop 20).take 8) (by decide),
      full .data 0 [1, 2] (Nat.zero_le _)]
    nr_le := by decide }

set_option maxRecDepth 10000 in
theorem base_roundTrips_udp : RoundTrips numericLibc udpPacket udpDatagram := by
  have hbase : ∀ l ∈ udpPacket.pLayer, IsBase l := by
    simp only [udpPacket, List.forall_mem_cons, List.not_mem_nil, false_imp_iff, implies_true,
      and_true]
    exact ⟨.ip rfl rfl, .udp rfl, .data rfl (by decide)⟩
  exact @base_roundTrips numericLibc numericLibc_inverts udpDatagram
    (arsSetOption arsInit arsOptRapdHexdata) udpPacket ⟨rfl, fun _ => rfl⟩ rfl rfl (by decide) hbase

end StyxWire
