import StyxWire.Ars.Bounds
import StyxWire.Ars.Fill

/-!
# The headers a description is built to

The printers against the setters: the text of a header (`rapd.c`) is that of a
`StyxWire.LayerDesc`, whose meaning (`apd.c`) is the header again, with the flags of all
the fields that are written. For each type of header there is a description, the theorem
that it is what the printer writes (`StyxWire.prints_udp` and so on), and the theorem on
what it builds (`StyxWire.builds_udp`).
-/

namespace StyxWire

open Mem Text ArsLayer

/-! ### What is written -/

/-- The text of the layer `l` is that of `d`. -/
def Writes (libc : Libc) (pkt : ArsPacket) (l : ArsLayer) (d : LayerDesc) : Prop :=
  arsLiRapd libc l.lType pkt l = .ok (d.text ++ lit "+")

/-- The same, and the names and values of `d` are words. -/
structure Prints (libc : Libc) (pkt : ArsPacket) (l : ArsLayer) (d : LayerDesc) : Prop where
  writes : Writes libc pkt l d
  wf : d.Wf

/-- A header that is there as a whole, and nothing else. -/
structure Whole (t : ArsType) (l : ArsLayer) : Prop where
  lType : l.lType = t
  lSize : l.lSize = t.hdrSize
  length : l.lData.length = t.hdrSize

theorem Whole.rdHdr {t : ArsType} {l : ArsLayer} (hl : Whole t l) : rdHdr l = .ok l.lData := by
  rw [rdHdr_eq, hl.lType, ← hl.length, List.take_length]

theorem LayerDesc.text_plus (kw : String) (fs : List DField) (f : DField) :
    (LayerDesc.mk kw (fs ++ [f])).text ++ lit "+" =
      lit kw ++ lit "(" ++ (fs.map DField.text).flatten ++ (lit f.name ++ lit "=" ++ f.value) ++
        lit ")+" := by
  rw [LayerDesc.text, rtrim_fields, show lit ")+" = lit ")" ++ lit "+" from rfl]
  simp only [List.append_assoc]

/-- A printer that trims the last comma. -/
theorem LayerDesc.rtrim_text {kw : String} {fs : List DField} (hfs : fs ≠ []) :
    adbufRtrim (lit kw ++ lit "(" ++ (fs.map DField.text).flatten) ++ lit ")+" =
      (LayerDesc.mk kw fs).text ++ lit "+" := by
  have hne : (fs.map DField.text).flatten ≠ [] := by
    obtain ⟨f, fs, rfl⟩ := List.exists_cons_of_ne_nil hfs
    rw [List.map_cons, List.flatten_cons, DField.text, field]
    simp [lit]
  rw [LayerDesc.text, adbufRtrim, List.dropLast_append_of_ne_nil hne,
    show lit ")+" = lit ")" ++ lit "+" from rfl]
  simp only [List.append_assoc]
  rfl

/-- A layer without fields. -/
theorem text_noFields {s kw : String} (h : lit s = lit kw ++ lit "()+") :
    lit s = (LayerDesc.mk kw []).text ++ lit "+" := by
  rw [h, LayerDesc.text]
  simp [adbufRtrim, lit]

/-- A layer with one field. -/
theorem text_oneField {s : List UInt8} {kw name : String}
    (h : s = lit kw ++ lit "(" ++ (lit name ++ lit "=")) (v : List UInt8) :
    s ++ v ++ lit ")+" = (LayerDesc.mk kw [⟨name, v⟩]).text ++ lit "+" := by
  refine Eq.trans ?_ (LayerDesc.text_plus kw [] ⟨name, v⟩).symm
  rw [h]
  simp only [List.map_nil, List.flatten_nil, List.append_nil, List.append_assoc]

@[inherit_doc text_oneField]
theorem text_field {s kw name : String}
    (h : lit s = lit kw ++ lit "(" ++ (lit name ++ lit "=")) (v : List UInt8) :
    lit s ++ v ++ lit ")+" = (LayerDesc.mk kw [⟨name, v⟩]).text ++ lit "+" := text_oneField h v

/-- A layer with two fields. -/
theorem text_twoFields {s t : List UInt8} {kw name name' : String}
    (hs : s = lit kw ++ lit "(" ++ (lit name ++ lit "="))
    (ht : t = lit "," ++ (lit name' ++ lit "=")) (v w : List UInt8) :
    s ++ v ++ t ++ w ++ lit ")+" =
      (LayerDesc.mk kw [⟨name, v⟩, ⟨name', w⟩]).text ++ lit "+" := by
  refine Eq.trans ?_ (LayerDesc.text_plus kw [⟨name, v⟩] ⟨name', w⟩).symm
  rw [hs, ht]
  simp only [List.map_singleton, List.flatten_singleton, DField.text, field, List.append_assoc]

theorem fields_nil : ∀ f ∈ ([] : List DField), f.Wf := fun _ hf => absurd hf List.not_mem_nil

theorem fields_cons {name : String} {value : List UInt8} {fs : List DField}
    (hname : IsWord (lit name)) (hvalue : IsWord value) (hfs : ∀ f ∈ fs, f.Wf) :
    ∀ f ∈ (⟨name, value⟩ :: fs : List DField), f.Wf :=
  List.forall_mem_cons.mpr ⟨⟨hname, hvalue⟩, hfs⟩

theorem differs_none (h : List UInt8) (f : List UInt8 → ℕ) : differs h none f = true := rfl

theorem fieldIf_true (name : String) (v : List UInt8) : fieldIf true name v = field name v := rfl

/-! ### UDP -/

/-- The description of a UDP header. -/
def udpDesc (h : List UInt8) : LayerDesc :=
  ⟨"udp", [⟨"sport", fmtU (ntohsAt 0 h)⟩, ⟨"dport", fmtU (ntohsAt 2 h)⟩,
    ⟨"len", fmtU (ntohsAt 4 h)⟩, ⟨"cksum", fmtHex 4 (ntohsAt 6 h)⟩]⟩

theorem prints_udp (libc : Libc) (pkt : ArsPacket) {l : ArsLayer} (hl : Whole .udp l) :
    Prints libc pkt l (udpDesc l.lData) where
  writes := by
    have htext := LayerDesc.text_plus "udp" [⟨"sport", fmtU (ntohsAt 0 l.lData)⟩,
      ⟨"dport", fmtU (ntohsAt 2 l.lData)⟩, ⟨"len", fmtU (ntohsAt 4 l.lData)⟩]
      ⟨"cksum", fmtHex 4 (ntohsAt 6 l.lData)⟩
    rw [Writes, hl.lType, arsLiRapd, arsRapdUdp, hl.rdHdr, bind_ok]
    refine congrArg Except.ok (Eq.trans ?_ htext.symm)
    rw [show lit "udp(" = lit "udp" ++ lit "(" from rfl,
      show lit "cksum=" = lit "cksum" ++ lit "=" from rfl]
    simp only [List.map_cons, List.map_nil, List.flatten_cons, List.flatten_nil, List.append_nil,
      DField.text, List.append_assoc]
  wf := ⟨(by decide : IsWord (lit "udp")),
    fields_cons (by decide) (isWord_fmtU (ntohsAt_lt _ _)) <|
    fields_cons (by decide) (isWord_fmtU (ntohsAt_lt _ _)) <|
    fields_cons (by decide) (isWord_fmtU (ntohsAt_lt _ _)) <|
    fields_cons (by decide) (isWord_fmtHex (by decide) (ntohsAt_lt _ _)) fields_nil⟩

/-- **A UDP header is built from its description.** -/
theorem builds_udp (libc : Libc) {l : ArsLayer} (hl : Whole .udp l) :
    Builds libc (udpDesc l.lData) (l.setFlags 3) := by
  have hk : arsGetKeywordByName (lit "udp") = some ⟨"udp", arsAddUdphdr, arsDSetUdp⟩ := rfl
  have hadd : AddsLayer arsAddUdphdr (full .udp 0 (List.replicate 8 0) (by decide)) :=
    addsLayer_generic _
  have hlen : l.lData.length = 8 := hl.length
  generalize hh : l.lData = h at *
  have hfill : Fill (full .udp 0 (List.replicate 8 0) (by decide)) h
      (setFields libc ⟨"udp", arsAddUdphdr, arsDSetUdp⟩ (udpDesc h).fields) 0 [] 0 8 [] 3 :=
    .cons (setNet16 0) (fun _ => rfl) (fill_net16 (by omega) (arsAtou_fmtU (ntohsAt_lt _ _))) <|
    .cons (setNet16 2) (fun _ => rfl) (fill_net16 (by omega) (arsAtou_fmtU (ntohsAt_lt _ _))) <|
    .cons (taking arsTakeUdpLen (setNet16 4)) (fun _ => rfl)
      (fill_taking _ (fill_net16 (by omega) (arsAtou_fmtU (ntohsAt_lt _ _)))) <|
    .cons (taking arsTakeUdpCksum (setNet16 6)) (fun _ => rfl)
      (fill_taking _ (fill_net16 (by omega) (arsAtou_fmtHex (ntohsAt_lt _ _) 4))) <|
    .nil _
  obtain ⟨l', hok, hl'⟩ := hfill _ (.init hlen.symm rfl (Nat.zero_le _))
  rw [Builds, build_eq (d := udpDesc h) hk hadd, hok,
    hl'.eq_setFlags hlen hl.lType.symm hl.lSize.symm hh]

/-! ### IPv4 -/

/-- The description of an IPv4 header. -/
def ipDesc (h : List UInt8) : LayerDesc :=
  ⟨"ip", [⟨"ihl", fmtHex 1 (loAt 0 h)⟩, ⟨"ver", fmtHex 1 (hiAt 0 h)⟩,
    ⟨"tos", fmtHex 2 (byteAt 1 h)⟩, ⟨"totlen", fmtU (ntohsAt 2 h)⟩, ⟨"id", fmtU (ntohsAt 4 h)⟩,
    ⟨"fragoff", fmtU ((ntohsAt 6 h &&& 0x1FFF) * 8)⟩, ⟨"mf", fmtFrag arsIpMf h⟩,
    ⟨"df", fmtFrag arsIpDf h⟩, ⟨"rf", fmtFrag arsIpRf h⟩, ⟨"ttl", fmtU (byteAt 8 h)⟩,
    ⟨"proto", fmtU (byteAt 9 h)⟩, ⟨"cksum", fmtHex 4 (ntohsAt 10 h)⟩,
    ⟨"saddr", dottedQuad (h.drop 12)⟩, ⟨"daddr", dottedQuad (h.drop 16)⟩]⟩

theorem isWord_fmtFrag (bit : ℕ) (h : List UInt8) : IsWord (fmtFrag bit h) := by
  rw [fmtFrag]
  split_ifs
  · exact isWord_fmtU (by decide)
  · exact isWord_fmtU (by decide)

theorem loAt_lt (i : ℕ) (h : List UInt8) : loAt i h < 4294967296 := by
  rw [loAt]
  omega

theorem hiAt_lt (i : ℕ) (h : List UInt8) : hiAt i h < 4294967296 := by
  have := byteAt_lt i h
  rw [hiAt]
  omega

theorem prints_ip (libc : Libc) {pkt : ArsPacket} (hdef : pkt.NoDefault) {l : ArsLayer}
    (hl : Whole .ip l) : Prints libc pkt l (ipDesc l.lData) where
  writes := by
    have htext := LayerDesc.text_plus "ip" (ipDesc l.lData).fields.dropLast
      ⟨"daddr", dottedQuad (l.lData.drop 16)⟩
    have hip : lit "ip(" = lit "ip" ++ lit "(" := rfl
    have hdaddr : lit "daddr=" = lit "daddr" ++ lit "=" := rfl
    rw [Writes, hl.lType, arsLiRapd, arsRapdIp, hl.rdHdr, bind_ok, rdDefault_eq hdef, bind_ok]
    refine congrArg Except.ok (Eq.trans ?_ htext.symm)
    simp only [ipDesc, List.dropLast_cons_cons, List.dropLast_singleton, List.map_cons,
      List.map_nil, List.flatten_cons, List.flatten_nil, List.append_nil, DField.text,
      List.append_assoc, differs_none, fieldIf_true, hip, hdaddr]
  wf := ⟨(by decide : IsWord (lit "ip")),
    fields_cons (by decide) (isWord_fmtHex (by decide) (loAt_lt _ _)) <|
    fields_cons (by decide) (isWord_fmtHex (by decide) (hiAt_lt _ _)) <|
    fields_cons (by decide) (isWord_fmtHex (by decide) ((byteAt_lt _ _).trans (by decide))) <|
    fields_cons (by decide) (isWord_fmtU (ntohsAt_lt _ _)) <|
    fields_cons (by decide) (isWord_fmtU (ntohsAt_lt _ _)) <|
    fields_cons (by decide) (isWord_fmtU (by
      have := @Nat.and_le_right (ntohsAt 6 l.lData) 0x1FFF
      omega)) <|
    fields_cons (by decide) (isWord_fmtFrag _ _) <|
    fields_cons (by decide) (isWord_fmtFrag _ _) <|
    fields_cons (by decide) (isWord_fmtFrag _ _) <|
    fields_cons (by decide) (isWord_fmtU ((byteAt_lt _ _).trans (by decide))) <|
    fields_cons (by decide) (isWord_fmtU ((byteAt_lt _ _).trans (by decide))) <|
    fields_cons (by decide) (isWord_fmtHex (by decide) (ntohsAt_lt _ _)) <|
    fields_cons (by decide) (isWord_dottedQuad _) <|
    fields_cons (by decide) (isWord_dottedQuad _) fields_nil⟩

theorem strcaseEq_fmtU (n : ℕ) {s : String} {d : UInt8} {t : List UInt8} (hs : lit s = d :: t)
    (hd : 10 ≤ digitVal d) : strcaseEq (fmtU n) (lit s) = false := by
  obtain ⟨c, rest, hcons, hc⟩ := exists_cons_fmt (b := 10) (by decide) (by decide) n
  rw [fmtU, hcons, strcaseEq, beq_eq_false_iff_ne]
  intro heq
  rw [hs, List.map_cons, List.map_cons] at heq
  have hsame := congrArg digitVal (List.cons.inj heq).1
  rw [digitVal_toLower, digitVal_toLower] at hsame
  omega

/-- **An IPv4 header is built from its description.** -/
theorem builds_ip {libc : Libc} (hlibc : libc.Inverts) {l : ArsLayer} (hl : Whole .ip l) :
    Builds libc (ipDesc l.lData) (l.setFlags 31) := by
  have hk : arsGetKeywordByName (lit "ip") = some ⟨"ip", arsAddIphdr, arsDSetIp⟩ := rfl
  have hadd : AddsLayer arsAddIphdr (full .ip 0 (List.replicate 20 0) (by decide)) :=
    addsLayer_generic _
  have hlen : l.lData.length = 20 := hl.length
  generalize hh : l.lData = h at *
  have hbyte : ∀ i, byteAt i h < 4294967296 := fun i => (byteAt_lt i h).trans (by decide)
  have hlow : arsAtou (fmtHex 1 (loAt 0 h)) = (h.getD 0 0).toNat % 16 :=
    arsAtou_fmtHex (loAt_lt _ _) 1
  have hhigh : arsAtou (fmtHex 1 (hiAt 0 h)) = (h.getD 0 0).toNat / 16 :=
    arsAtou_fmtHex (hiAt_lt _ _) 1
  have hslice0 : (h.drop 0).take 1 = [h.getD 0 0] := slice_eq_one (by omega)
  have hslice6 : (h.drop 6).take 2 = [h.getD 6 0, h.getD 7 0] := slice_eq_two (by omega)
  have hproto : ∀ e ∈ ([("icmp", 1), ("udp", 17), ("tcp", 6)] : List (String × ℕ)),
      strcaseEq (fmtU (byteAt 9 h)) (lit e.1) = false := by
    simp only [List.forall_mem_cons, List.not_mem_nil, false_imp_iff, implies_true, and_true]
    exact ⟨strcaseEq_fmtU _ rfl (by decide), strcaseEq_fmtU _ rfl (by decide),
      strcaseEq_fmtU _ rfl (by decide)⟩
  have hfill : Fill (full .ip 0 (List.replicate 20 0) (by decide)) h
      (setFields libc ⟨"ip", arsAddIphdr, arsDSetIp⟩ (ipDesc h).fields) 0 [] 0 20 [] 31 :=
    -- the two halves of the first byte
    .cons (taking arsTakeIpHdrlen (setLow 0)) (fun _ => rfl)
      (fill_taking _ (.start (k := 1) (by omega) rfl (fill_low (by omega)))) <|
    .cons (taking arsTakeIpVersion (setHigh 0)) (fun _ => rfl)
      (fill_taking _ (.done (fill_high (by omega)) (by
        rw [hlow, hhigh, setHi_setLo_zero]
        exact hslice0))) <|
    .cons (setByte 1) (fun _ => rfl) (fill_byte (by omega) (arsAtou_fmtHex (hbyte _) 2)) <|
    .cons (taking arsTakeIpTotlen (setNet16 2)) (fun _ => rfl)
      (fill_taking _ (fill_net16 (by omega) (arsAtou_fmtU (ntohsAt_lt _ _)))) <|
    .cons (setNet16 4) (fun _ => rfl) (fill_net16 (by omega) (arsAtou_fmtU (ntohsAt_lt _ _))) <|
    -- the offset, and the flags one by one
    .cons setFragoff (fun _ => rfl) (fill_fragoff (by omega) rfl rfl rfl) <|
    .cons (setFragBit arsIpMf) (fun _ => rfl) (fill_fragBit (i := 5) (by decide) (by omega) rfl) <|
    .cons (setFragBit arsIpDf) (fun _ => rfl) (fill_fragBit (i := 6) (by decide) (by omega) rfl) <|
    .cons (setFragBit arsIpRf) (fun _ => rfl)
      (.done (fill_fragBit (i := 7) (by decide) (by omega) rfl) (by
        rw [lowBits_eight]
        exact hslice6)) <|
    .cons (setByte 8) (fun _ => rfl) (fill_byte (by omega) (arsAtou_fmtU (hbyte _))) <|
    .cons (taking arsTakeIpProtocol (setSymbol 9 [("icmp", 1), ("udp", 17), ("tcp", 6)]))
      (fun _ => rfl) (fill_taking _ (fill_symbol (by omega) (arsAtou_fmtU (hbyte _)) hproto)) <|
    .cons (taking arsTakeIpCksum (setNet16 10)) (fun _ => rfl)
      (fill_taking _ (fill_net16 (by omega) (arsAtou_fmtHex (ntohsAt_lt _ _) 4))) <|
    .cons (setAddr 12) (fun _ => rfl) (fill_addr hlibc (by omega)) <|
    .cons (setAddr 16) (fun _ => rfl) (fill_addr hlibc (by omega)) <|
    .nil _
  obtain ⟨l', hok, hl'⟩ := hfill _ (.init hlen.symm rfl (Nat.zero_le _))
  rw [Builds, build_eq (d := ipDesc h) hk hadd, hok,
    hl'.eq_setFlags hlen hl.lType.symm hl.lSize.symm hh]

/-! ### TCP -/

/-- The description of a TCP header. -/
def tcpDesc (h : List UInt8) : LayerDesc :=
  ⟨"tcp", [⟨"sport", fmtU (ntohsAt 0 h)⟩, ⟨"dport", fmtU (ntohsAt 2 h)⟩,
    ⟨"seq", fmtU (ntohlAt 4 h)⟩, ⟨"ack", fmtU (ntohlAt 8 h)⟩, ⟨"x2", fmtHex 1 (loAt 12 h)⟩,
    ⟨"off", fmtU (hiAt 12 h)⟩] ++ ⟨"flags", fmtTcpFlags (byteAt 13 h)⟩ ::
    [⟨"win", fmtU (ntohsAt 14 h)⟩, ⟨"cksum", fmtHex 4 (ntohsAt 16 h)⟩,
      ⟨"urp", fmtU (ntohsAt 18 h)⟩]⟩

theorem writes_tcp (libc : Libc) {pkt : ArsPacket} (hdef : pkt.NoDefault) {l : ArsLayer}
    (hl : Whole .tcp l) : Writes libc pkt l (tcpDesc l.lData) := by
  have htext := @LayerDesc.rtrim_text "tcp" (tcpDesc l.lData).fields (by simp [tcpDesc])
  have htcp : lit "tcp(" = lit "tcp" ++ lit "(" := rfl
  rw [Writes, hl.lType, arsLiRapd, arsRapdTcp, hl.rdHdr, bind_ok, rdDefault_eq hdef, bind_ok]
  refine congrArg Except.ok (Eq.trans ?_ htext)
  simp only [tcpDesc, List.cons_append, List.nil_append, List.map_cons, List.map_nil,
    List.flatten_cons, List.flatten_nil, List.append_nil, DField.text, List.append_assoc,
    differs_none, fieldIf_true, htcp]

/-- The flags are written as letters. -/
theorem fmtTcpFlags_spec {n : ℕ} (hn : n < 256) :
    tcpFlagsOf (fmtTcpFlags n) = n ∧ (∀ c ∈ fmtTcpFlags n, isDelim c = false) ∧
      (fmtTcpFlags n).length ≤ 8 ∧ (fmtTcpFlags n = [] ↔ n = 0) := by
  have hback : ∀ n < 256, tcpFlagsOf (fmtTcpFlags n) = n := by
    decide +kernel
  have hletters : ∀ f ∈ arsTcpFlags, isDelim (ch f.2) = false := by
    decide
  refine ⟨hback n hn, fun c hc => ?_, ?_, fun hnil => ?_, ?_⟩
  · obtain ⟨f, hf, rfl⟩ := List.mem_map.mp hc
    exact hletters f (List.mem_of_mem_filter hf)
  · rw [fmtTcpFlags, List.length_map]
    exact List.length_filter_le _ arsTcpFlags
  · rw [← hback n hn, hnil]
    rfl
  · rintro rfl
    rfl

theorem isWord_fmtTcpFlags {n : ℕ} (hn : n < 256) : IsWord (fmtTcpFlags n) ↔ n ≠ 0 := by
  obtain ⟨-, hdelim, hlen, hnil⟩ := fmtTcpFlags_spec hn
  have hmax : arsMaxTsize = 12000 := rfl
  constructor
  · exact fun h => mt hnil.mpr h.ne_nil
  · exact fun h => ⟨mt hnil.mp h, hdelim, by omega⟩

/-- The fields in front of the flags. -/
theorem tcpDesc_wf_init (h : List UInt8) : ∀ f ∈ ([⟨"sport", fmtU (ntohsAt 0 h)⟩,
    ⟨"dport", fmtU (ntohsAt 2 h)⟩, ⟨"seq", fmtU (ntohlAt 4 h)⟩, ⟨"ack", fmtU (ntohlAt 8 h)⟩,
    ⟨"x2", fmtHex 1 (loAt 12 h)⟩, ⟨"off", fmtU (hiAt 12 h)⟩] : List DField), f.Wf :=
  fields_cons (by decide) (isWord_fmtU (ntohsAt_lt _ _)) <|
  fields_cons (by decide) (isWord_fmtU (ntohsAt_lt _ _)) <|
  fields_cons (by decide) (isWord_fmtU (ntohlAt_lt _ _)) <|
  fields_cons (by decide) (isWord_fmtU (ntohlAt_lt _ _)) <|
  fields_cons (by decide) (isWord_fmtHex (by decide) (loAt_lt _ _)) <|
  fields_cons (by decide) (isWord_fmtU (hiAt_lt _ _)) fields_nil

theorem prints_tcp (libc : Libc) {pkt : ArsPacket} (hdef : pkt.NoDefault) {l : ArsLayer}
    (hl : Whole .tcp l) (hflags : byteAt 13 l.lData ≠ 0) :
    Prints libc pkt l (tcpDesc l.lData) where
  writes := writes_tcp libc hdef hl
  wf := ⟨(by decide : IsWord (lit "tcp")), List.forall_mem_append.mpr ⟨tcpDesc_wf_init _,
    fields_cons (by decide) ((isWord_fmtTcpFlags (byteAt_lt _ _)).mpr hflags) <|
    fields_cons (by decide) (isWord_fmtU (ntohsAt_lt _ _)) <|
    fields_cons (by decide) (isWord_fmtHex (by decide) (ntohsAt_lt _ _)) <|
    fields_cons (by decide) (isWord_fmtU (ntohsAt_lt _ _)) fields_nil⟩⟩

/-- **A TCP header is built from its description.** -/
theorem builds_tcp (libc : Libc) {l : ArsLayer} (hl : Whole .tcp l) :
    Builds libc (tcpDesc l.lData) (l.setFlags 3) := by
  have hk : arsGetKeywordByName (lit "tcp") = some ⟨"tcp", arsAddTcphdr, arsDSetTcp⟩ := rfl
  have hadd : AddsLayer arsAddTcphdr (full .tcp 0 (List.replicate 20 0) (by decide)) :=
    addsLayer_generic _
  have hlen : l.lData.length = 20 := hl.length
  generalize hh : l.lData = h at *
  have hlow : arsAtou (fmtHex 1 (loAt 12 h)) = (h.getD 12 0).toNat % 16 :=
    arsAtou_fmtHex (loAt_lt _ _) 1
  have hhigh : arsAtou (fmtU (hiAt 12 h)) = (h.getD 12 0).toNat / 16 :=
    arsAtou_fmtU (hiAt_lt _ _)
  have hslice12 : (h.drop 12).take 1 = [h.getD 12 0] := slice_eq_one (by omega)
  have hflags : (h.drop 13).take 1 = [UInt8.ofNat (tcpFlagsOf (fmtTcpFlags (byteAt 13 h)))] := by
    rw [(fmtTcpFlags_spec (byteAt_lt 13 h)).1, byteAt, UInt8.ofNat_toNat]
    exact slice_eq_one (by omega)
  have hfill : Fill (full .tcp 0 (List.replicate 20 0) (by decide)) h
      (setFields libc ⟨"tcp", arsAddTcphdr, arsDSetTcp⟩ (tcpDesc h).fields) 0 [] 0 20 [] 3 :=
    .cons (setNet16 0) (fun _ => rfl) (fill_net16 (by omega) (arsAtou_fmtU (ntohsAt_lt _ _))) <|
    .cons (setNet16 2) (fun _ => rfl) (fill_net16 (by omega) (arsAtou_fmtU (ntohsAt_lt _ _))) <|
    .cons (setNet32 4) (fun _ => rfl) (fill_net32 (by omega) (arsAtou_fmtU (ntohlAt_lt _ _))) <|
    .cons (setNet32 8) (fun _ => rfl) (fill_net32 (by omega) (arsAtou_fmtU (ntohlAt_lt _ _))) <|
    -- the reserved bits and the offset are two halves of a byte
    .cons (setLow 12) (fun _ => rfl) (.start (k := 1) (by omega) rfl (fill_low (by omega))) <|
    .cons (taking arsTakeTcpHdrlen (setHigh 12)) (fun _ => rfl)
      (fill_taking _ (.done (fill_high (by omega)) (by
        rw [hlow, hhigh, setHi_setLo_zero]
        exact hslice12))) <|
    .cons (fun _ v => put 13 [UInt8.ofNat (tcpFlagsOf v)]) (fun _ => rfl)
      (fill_field (Nat.zero_le _) (by simp; omega) hflags) <|
    .cons (setNet16 14) (fun _ => rfl) (fill_net16 (by omega) (arsAtou_fmtU (ntohsAt_lt _ _))) <|
    .cons (taking arsTakeTcpCksum (setNet16 16)) (fun _ => rfl)
      (fill_taking _ (fill_net16 (by omega) (arsAtou_fmtHex (ntohsAt_lt _ _) 4))) <|
    .cons (setNet16 18) (fun _ => rfl) (fill_net16 (by omega) (arsAtou_fmtU (ntohsAt_lt _ _))) <|
    .nil _
  obtain ⟨l', hok, hl'⟩ := hfill _ (.init hlen.symm rfl (Nat.zero_le _))
  rw [Builds, build_eq (d := tcpDesc h) hk hadd, hok,
    hl'.eq_setFlags hlen hl.lType.symm hl.lSize.symm hh]

/-! ### IPv6 -/

/-- The description of an IPv6 header. -/
def ip6Desc (libc : Libc) (h : List UInt8) : LayerDesc :=
  ⟨"ip6", [⟨"ver", fmtU (ntohlAt 0 h / 2 ^ 28 % 16)⟩, ⟨"tclass", fmtHex 2 (ntohlAt 0 h / 2 ^ 20 % 256)⟩,
    ⟨"flow", fmtU (ntohlAt 0 h % 2 ^ 20)⟩, ⟨"plen", fmtU (ntohsAt 4 h)⟩, ⟨"nh", fmtU (byteAt 6 h)⟩,
    ⟨"hlim", fmtU (byteAt 7 h)⟩, ⟨"saddr", fmtIp6 libc ((h.drop 8).take 16)⟩,
    ⟨"daddr", fmtIp6 libc ((h.drop 24).take 16)⟩]⟩

theorem isWord_fmtIp6 {libc : Libc} (hlibc : libc.Inverts) {a : List UInt8} (ha : a.length = 16) :
    IsWord (fmtIp6 libc a) := by
  obtain ⟨s, hntop, -, hne, hlen, hchars⟩ := hlibc.pton a ha
  rw [fmtIp6, hntop, Option.getD_some]
  have hmax : arsMaxTsize = 12000 := rfl
  refine ⟨hne, ?_, by omega⟩
  rintro c hc
  rcases hchars c hc with hdigit | rfl | rfl
  · exact isDelim_of_digitVal (by omega)
  · decide
  · decide

theorem Whole.rdStruct {t : ArsType} {l : ArsLayer} (hl : Whole t l) :
    rdStruct l t.hdrSize = .ok l.lData := by
  have hlen := hl.length
  have hbytes : l.bytes = l.lData := by
    rw [bytes, hl.lSize, ← hlen, List.take_length]
  rw [StyxWire.rdStruct, hbytes, hl.lSize, Nat.min_self, rdBytes_eq (by omega), bind_ok,
    List.drop_zero, ← hlen, List.take_length, Nat.sub_self, List.replicate_zero, List.append_nil]
  rfl

theorem prints_ip6 {libc : Libc} (hlibc : libc.Inverts) (pkt : ArsPacket) {l : ArsLayer}
    (hl : Whole .ip6 l) : Prints libc pkt l (ip6Desc libc l.lData) where
  writes := by
    have htext := LayerDesc.text_plus "ip6" (ip6Desc libc l.lData).fields.dropLast
      ⟨"daddr", fmtIp6 libc ((l.lData.drop 24).take 16)⟩
    have hip : lit "ip6(" = lit "ip6" ++ lit "(" := rfl
    have hdaddr : lit "daddr=" = lit "daddr" ++ lit "=" := rfl
    have hstruct : rdStruct l 40 = .ok l.lData := hl.rdStruct
    rw [Writes, hl.lType, arsLiRapd, arsRapdIp6, hstruct, bind_ok]
    refine congrArg Except.ok (Eq.trans ?_ htext.symm)
    simp only [ip6Desc, List.dropLast_cons_cons, List.dropLast_singleton, List.map_cons,
      List.map_nil, List.flatten_cons, List.flatten_nil, List.append_nil, DField.text,
      List.append_assoc, hip, hdaddr]
  wf := by
    have hlen : l.lData.length = 40 := hl.length
    refine ⟨(by decide : IsWord (lit "ip6")),
      fields_cons (by decide) (isWord_fmtU (by omega)) <|
      fields_cons (by decide) (isWord_fmtHex (by decide) (by omega)) <|
      fields_cons (by decide) (isWord_fmtU (by omega)) <|
      fields_cons (by decide) (isWord_fmtU (ntohsAt_lt _ _)) <|
      fields_cons (by decide) (isWord_fmtU ((byteAt_lt _ _).trans (by decide))) <|
      fields_cons (by decide) (isWord_fmtU ((byteAt_lt _ _).trans (by decide))) <|
      fields_cons (by decide) (isWord_fmtIp6 hlibc ?_) <|
      fields_cons (by decide) (isWord_fmtIp6 hlibc ?_) fields_nil⟩
    · rw [List.length_take, List.length_drop, hlen]
      rfl
    · rw [List.length_take, List.length_drop, hlen]
      rfl

/-- The three numbers in the first word, while it is being set. -/
theorem Filled.ip6Word {l0 l : ArsLayer} {h : List UInt8} {flags v tc fl : ℕ}
    (hl : Filled l0 h 0 (putBe32 (arsIp6Word v tc fl)) flags l) (hv : v < 16) (htc : tc < 256)
    (hfl : fl < 2 ^ 20) : l.ip6Version = v ∧ l.ip6Tclass = tc ∧ l.ip6Flow = fl := by
  have hword : l.verTcFl = arsIp6Word v tc fl := by
    have hbyte : ∀ i < 4, l.byte i = (putBe32 (arsIp6Word v tc fl)).getD i 0 := fun i hi => by
      rw [← hl.getD_slice hi, Nat.zero_add]
      rfl
    rw [verTcFl, hbyte 0 (by decide), hbyte 1 (by decide), hbyte 2 (by decide),
      hbyte 3 (by decide)]
    refine (be32_putBe32 _).trans (Nat.mod_eq_of_lt ?_)
    rw [arsIp6Word]
    omega
  rw [arsIp6Word] at hword
  rw [ip6Version, ip6Tclass, ip6Flow, hword]
  omega

theorem fill_ip6Word {l0 : ArsLayer} {h val : List UInt8} {flags v tc fl a b c : ℕ}
    {libc : Libc} (word : ArsLayer → ℕ → ℕ) (hlen : 4 ≤ h.length) (hv : v < 16) (htc : tc < 256)
    (hfl : fl < 2 ^ 20)
    (hword : ∀ l : ArsLayer, l.ip6Version = v → l.ip6Tclass = tc → l.ip6Flow = fl →
      word l (arsAtou val) = arsIp6Word a b c) :
    Fill l0 h (setIp6Word word libc val) 0 (putBe32 (arsIp6Word v tc fl)) flags
      0 (putBe32 (arsIp6Word a b c)) flags := by
  rintro l hl
  obtain ⟨h1, h2, h3⟩ := hl.ip6Word hv htc hfl
  rw [setIp6Word, hword l h1 h2 h3]
  refine fill_put ?_ (by simpa using hlen) l hl
  exact Nat.le_refl 4

/-- A new IPv6 header. -/
def ip6New : ArsLayer :=
  ((full .ip6 0 (List.replicate 40 0) (by decide)).write 0 [0x60, 0, 0, 0]).write 7 [64]

theorem addsLayer_ip6 : AddsLayer arsAddIp6hdr ip6New :=
  (addsLayer_generic (t := .ip6) (by decide)).map _
    (fun l => (l.write 0 [0x60, 0, 0, 0]).write 7 [64])
    fun _ _ h => by rw [writeLast_push, writeLast_push]

/-- **An IPv6 header is built from its description.** -/
theorem builds_ip6 {libc : Libc} (hlibc : libc.Inverts) {l : ArsLayer} (hl : Whole .ip6 l) :
    Builds libc (ip6Desc libc l.lData) (l.setFlags 7) := by
  have hk : arsGetKeywordByName (lit "ip6") = some ⟨"ip6", arsAddIp6hdr, arsDSetIp6⟩ := rfl
  have hlen : l.lData.length = 40 := hl.length
  generalize hh : l.lData = h at *
  have hbyte : ∀ i, byteAt i h < 4294967296 := fun i => (byteAt_lt i h).trans (by decide)
  have hn : ntohlAt 0 h < 4294967296 := ntohlAt_lt 0 h
  have hver := @arsAtou_fmtU (ntohlAt 0 h / 2 ^ 28 % 16) (by omega)
  have htc := @arsAtou_fmtHex (ntohlAt 0 h / 2 ^ 20 % 256) (by omega) 2
  have hfl := @arsAtou_fmtU (ntohlAt 0 h % 2 ^ 20) (by omega)
  have hword : putBe32 (arsIp6Word (ntohlAt 0 h / 2 ^ 28 % 16) (ntohlAt 0 h / 2 ^ 20 % 256)
      (ntohlAt 0 h % 2 ^ 20)) = (h.drop 0).take 4 := by
    have heq : arsIp6Word (ntohlAt 0 h / 2 ^ 28 % 16) (ntohlAt 0 h / 2 ^ 20 % 256)
        (ntohlAt 0 h % 2 ^ 20) = ntohlAt 0 h := by
      rw [arsIp6Word]
      omega
    rw [heq, ntohlAt, putBe32_be32]
    exact (slice_eq_four (by omega)).symm
  have hproto : ∀ e ∈ ([("icmp6", 58), ("icmpv6", 58), ("udp", 17), ("tcp", 6), ("none", 59)] :
      List (String × ℕ)), strcaseEq (fmtU (byteAt 6 h)) (lit e.1) = false := by
    simp only [List.forall_mem_cons, List.not_mem_nil, false_imp_iff, implies_true, and_true]
    exact ⟨strcaseEq_fmtU _ rfl (by decide), strcaseEq_fmtU _ rfl (by decide),
      strcaseEq_fmtU _ rfl (by decide), strcaseEq_fmtU _ rfl (by decide),
      strcaseEq_fmtU _ rfl (by decide)⟩
  have hfill : Fill ip6New h
      (setFields libc ⟨"ip6", arsAddIp6hdr, arsDSetIp6⟩ (ip6Desc libc h).fields) 0 [] 0 40 [] 7 :=
    -- the version, the class and the flow label are one word
    .cons (taking arsTakeIp6Version (setIp6Word fun l v => arsIp6Word v l.ip6Tclass l.ip6Flow))
      (fun _ => rfl) (fill_taking _ (.start (k := 4) (m := putBe32 (arsIp6Word 6 0 0)) (by omega) rfl
        (fill_ip6Word (a := ntohlAt 0 h / 2 ^ 28 % 16) (b := 0) (c := 0) _ (by omega)
          (by decide) (by decide) (by decide) fun l _ h2 h3 => by rw [hver, h2, h3]))) <|
    .cons (setIp6Word fun l v => arsIp6Word l.ip6Version v l.ip6Flow) (fun _ => rfl)
      (fill_ip6Word (a := ntohlAt 0 h / 2 ^ 28 % 16) (b := ntohlAt 0 h / 2 ^ 20 % 256) (c := 0)
        _ (by omega) (by omega) (by decide) (by decide) fun l h1 _ h3 => by rw [htc, h1, h3]) <|
    .cons (setIp6Word fun l v => arsIp6Word l.ip6Version l.ip6Tclass v) (fun _ => rfl)
      (.done (fill_ip6Word (a := ntohlAt 0 h / 2 ^ 28 % 16) (b := ntohlAt 0 h / 2 ^ 20 % 256)
        (c := ntohlAt 0 h % 2 ^ 20) _ (by omega) (by omega) (by omega) (by decide)
        fun l h1 h2 _ => by rw [hfl, h1, h2]) hword.symm) <|
    .cons (taking arsTakeIp6Payloadlen (setNet16 4)) (fun _ => rfl)
      (fill_taking _ (fill_net16 (by omega) (arsAtou_fmtU (ntohsAt_lt _ _)))) <|
    .cons (taking arsTakeIp6Nexthdr (setSymbol 6 [("icmp6", 58), ("icmpv6", 58), ("udp", 17),
        ("tcp", 6), ("none", 59)])) (fun _ => rfl)
      (fill_taking _ (fill_symbol (by omega) (arsAtou_fmtU (hbyte _)) hproto)) <|
    .cons (setByte 7) (fun _ => rfl) (fill_byte (by omega) (arsAtou_fmtU (hbyte _))) <|
    .cons (setAddr6 8) (fun _ => rfl) (fill_addr6 hlibc (by omega)) <|
    .cons (setAddr6 24) (fun _ => rfl) (fill_addr6 hlibc (by omega)) <|
    .nil _
  obtain ⟨l', hok, hl'⟩ := hfill _ (.init hlen.symm rfl (Nat.zero_le _))
  rw [Builds, build_eq (d := ip6Desc libc h) hk addsLayer_ip6, hok,
    hl'.eq_setFlags hlen hl.lType.symm hl.lSize.symm hh]

/-! ### ICMPv6 -/

/-- The types of the echo messages. -/
def isEcho6 (h : List UInt8) : Prop := byteAt 0 h = 128 ∨ byteAt 0 h = 129

instance (h : List UInt8) : Decidable (isEcho6 h) := inferInstanceAs (Decidable (_ ∨ _))

/-- The description of an ICMPv6 header. -/
def icmp6Desc (h : List UInt8) : LayerDesc :=
  ⟨"icmp6", [⟨"type", fmtU (byteAt 0 h)⟩, ⟨"code", fmtU (byteAt 1 h)⟩,
    ⟨"cksum", fmtHex 4 (ntohsAt 2 h)⟩] ++
    if isEcho6 h then [⟨"id", fmtU (ntohsAt 4 h)⟩, ⟨"seq", fmtU (ntohsAt 6 h)⟩]
    else [⟨"unused", fmtU (ntohlAt 4 h)⟩]⟩

theorem prints_icmp6 (libc : Libc) (pkt : ArsPacket) {l : ArsLayer} (hl : Whole .icmp6 l) :
    Prints libc pkt l (icmp6Desc l.lData) where
  writes := by
    have htext := @LayerDesc.rtrim_text "icmp6" (icmp6Desc l.lData).fields (by simp [icmp6Desc])
    have hicmp : lit "icmp6(" = lit "icmp6" ++ lit "(" := rfl
    rw [Writes, hl.lType, arsLiRapd, arsRapdIcmp6, hl.rdHdr, bind_ok]
    refine congrArg Except.ok (Eq.trans ?_ htext)
    rw [hicmp]
    by_cases hecho : isEcho6 l.lData
    · simp only [icmp6Desc, if_pos hecho, if_pos (show _ ∨ _ from hecho), DField.text,
        List.cons_append, List.nil_append, List.map_cons, List.map_nil, List.flatten_cons,
        List.flatten_nil, List.append_nil, List.append_assoc]
    · simp only [icmp6Desc, if_neg hecho, if_neg (show ¬(_ ∨ _) from hecho), DField.text,
        List.cons_append, List.nil_append, List.map_cons, List.map_nil, List.flatten_cons,
        List.flatten_nil, List.append_nil, List.append_assoc]
  wf := by
    refine ⟨(by decide : IsWord (lit "icmp6")),
      fields_cons (by decide) (isWord_fmtU ((byteAt_lt _ _).trans (by decide))) <|
      fields_cons (by decide) (isWord_fmtU ((byteAt_lt _ _).trans (by decide))) <|
      fields_cons (by decide) (isWord_fmtHex (by decide) (ntohsAt_lt _ _)) ?_⟩
    split_ifs
    · exact fields_cons (by decide) (isWord_fmtU (ntohsAt_lt _ _)) <|
        fields_cons (by decide) (isWord_fmtU (ntohsAt_lt _ _)) fields_nil
    · exact fields_cons (by decide) (isWord_fmtU (ntohlAt_lt _ _)) fields_nil

/-- A new ICMPv6 header. -/
def icmp6New : ArsLayer := (full .icmp6 0 (List.replicate 8 0) (by decide)).write 0 [128, 0]

theorem addsLayer_icmp6 : AddsLayer arsAddIcmp6hdr icmp6New :=
  (addsLayer_generic (t := .icmp6) (by decide)).map _ (·.write 0 [128, 0])
    fun _ _ h => writeLast_push h _ _

/-- **An ICMPv6 header is built from its description.** -/
theorem builds_icmp6 (libc : Libc) {l : ArsLayer} (hl : Whole .icmp6 l) :
    Builds libc (icmp6Desc l.lData) (l.setFlags 1) := by
  have hk : arsGetKeywordByName (lit "icmp6") = some ⟨"icmp6", arsAddIcmp6hdr, arsDSetIcmp6⟩ := rfl
  have hlen : l.lData.length = 8 := hl.length
  generalize hh : l.lData = h at *
  have hbyte : ∀ i, byteAt i h < 4294967296 := fun i => (byteAt_lt i h).trans (by decide)
  have hfill : Fill icmp6New h
      (setFields libc ⟨"icmp6", arsAddIcmp6hdr, arsDSetIcmp6⟩ (icmp6Desc h).fields) 0 [] 0 8 [] 1 := by
    refine .cons (setByte 0) (fun _ => rfl) (fill_byte (by omega) (arsAtou_fmtU (hbyte _))) <|
      .cons (setByte 1) (fun _ => rfl) (fill_byte (by omega) (arsAtou_fmtU (hbyte _))) <|
      .cons (taking arsTakeIcmp6Cksum (setNet16 2)) (fun _ => rfl)
        (fill_taking _ (fill_net16 (by omega) (arsAtou_fmtHex (ntohsAt_lt _ _) 4))) ?_
    split_ifs
    · exact .cons (setNet16 4) (fun _ => rfl)
          (fill_net16 (by omega) (arsAtou_fmtU (ntohsAt_lt _ _))) <|
        .cons (setNet16 6) (fun _ => rfl) (fill_net16 (by omega) (arsAtou_fmtU (ntohsAt_lt _ _))) <|
        .nil _
    · exact .cons (setNet32 4) (fun _ => rfl)
          (fill_net32 (by omega) (arsAtou_fmtU (ntohlAt_lt _ _))) <| .nil _
  obtain ⟨l', hok, hl'⟩ := hfill _ (.init hlen.symm rfl (Nat.zero_le _))
  rw [Builds, build_eq (d := icmp6Desc h) hk addsLayer_icmp6, hok,
    hl'.eq_setFlags hlen hl.lType.symm hl.lSize.symm hh]

/-! ### ICMP

The checksum is not written, and not for every type is the second word of the header. -/

/-- The fields of the second word. -/
def icmpWord (h : List UInt8) : List DField :=
  if arsIcmpUnused (byteAt 0 h) then [⟨"unused", fmtU (ntohlAt 4 h)⟩]
  else if arsIcmpIdSeq (byteAt 0 h) then
    [⟨"id", fmtU (ntohsAt 4 h)⟩, ⟨"seq", fmtU (ntohsAt 6 h)⟩]
  else if byteAt 0 h = 5 then [⟨"gw", dottedQuad (h.drop 4)⟩]
  else []

/-- The description of an ICMP header. -/
def icmpDesc (h : List UInt8) : LayerDesc :=
  ⟨"icmp", [⟨"type", fmtU (byteAt 0 h)⟩, ⟨"code", fmtU (byteAt 1 h)⟩] ++ icmpWord h⟩

/-- The types whose second word is written. -/
def icmpHasWord (h : List UInt8) : Bool :=
  arsIcmpUnused (byteAt 0 h) || arsIcmpIdSeq (byteAt 0 h) || decide (byteAt 0 h = 5)

/-- The text of the second word. -/
theorem text_icmpWord (h : List UInt8) :
    fieldIf (arsIcmpUnused (byteAt 0 h)) "unused" (fmtU (ntohlAt 4 h)) ++
      fieldIf (arsIcmpIdSeq (byteAt 0 h)) "id" (fmtU (ntohsAt 4 h)) ++
      fieldIf (arsIcmpIdSeq (byteAt 0 h)) "seq" (fmtU (ntohsAt 6 h)) ++
      fieldIf (byteAt 0 h = 5) "gw" (dottedQuad (h.drop 4)) =
      ((icmpWord h).map DField.text).flatten := by
  -- no type is in two of the lists
  have hunused : arsIcmpUnused (byteAt 0 h) = true →
      arsIcmpIdSeq (byteAt 0 h) = false ∧ byteAt 0 h ≠ 5 := by
    simp only [arsIcmpUnused, arsIcmpIdSeq, decide_eq_true_eq, decide_eq_false_iff_not]
    omega
  have hidseq : arsIcmpIdSeq (byteAt 0 h) = true → byteAt 0 h ≠ 5 := by
    simp only [arsIcmpIdSeq, decide_eq_true_eq]
    omega
  rw [icmpWord]
  split_ifs with h1 h2 h3
  · obtain ⟨hid, h5⟩ := hunused h1
    simp [h1, hid, h5, fieldIf, DField.text]
  · have h5 := hidseq h2
    simp [h1, h2, h5, fieldIf, DField.text]
  · rw [Bool.eq_false_iff.mpr h1, Bool.eq_false_iff.mpr h2, decide_eq_true h3]
    simp [fieldIf, DField.text]
  · simp [h1, h2, h3, fieldIf]

theorem prints_icmp (libc : Libc) (pkt : ArsPacket) {l : ArsLayer} (hl : Whole .icmp l) :
    Prints libc pkt l (icmpDesc l.lData) where
  writes := by
    have htext := @LayerDesc.rtrim_text "icmp" (icmpDesc l.lData).fields (by simp [icmpDesc])
    have hicmp : lit "icmp(" = lit "icmp" ++ lit "(" := rfl
    have hword := text_icmpWord l.lData
    rw [Writes, hl.lType, arsLiRapd, arsRapdIcmp, hl.rdHdr, bind_ok]
    refine congrArg Except.ok (Eq.trans ?_ htext)
    rw [icmpDesc, List.map_append, List.flatten_append, ← hword, hicmp]
    simp only [DField.text, List.map_cons, List.map_nil, List.flatten_cons, List.flatten_nil,
      List.append_nil, List.append_assoc]
  wf := by
    refine ⟨(by decide : IsWord (lit "icmp")),
      fields_cons (by decide) (isWord_fmtU ((byteAt_lt _ _).trans (by decide))) <|
      fields_cons (by decide) (isWord_fmtU ((byteAt_lt _ _).trans (by decide))) ?_⟩
    rw [icmpWord]
    split_ifs
    · exact fields_cons (by decide) (isWord_fmtU (ntohlAt_lt _ _)) fields_nil
    · exact fields_cons (by decide) (isWord_fmtU (ntohsAt_lt _ _)) <|
        fields_cons (by decide) (isWord_fmtU (ntohsAt_lt _ _)) fields_nil
    · exact fields_cons (by decide) (isWord_dottedQuad _) fields_nil
    · exact fields_nil

/-- A new ICMP header. -/
def icmpNew : ArsLayer := (full .icmp 0 (List.replicate 8 0) (by decide)).write 0 [8, 0]

theorem addsLayer_icmp : AddsLayer arsAddIcmphdr icmpNew :=
  (addsLayer_generic (t := .icmp) (by decide)).map _ (·.write 0 [8, 0])
    fun _ _ h => writeLast_push h _ _

/-- The header that is built from the description of an ICMP header: without a checksum, and with
the second word if it is written. -/
def icmpBuilt (h : List UInt8) : List UInt8 :=
  h.take 2 ++ [0, 0] ++ if icmpHasWord h then h.drop 4 else [0, 0, 0, 0]

theorem length_icmpBuilt {h : List UInt8} (hlen : h.length = 8) : (icmpBuilt h).length = 8 := by
  rw [icmpBuilt, List.length_append, List.length_append, List.length_take]
  split_ifs
  · simp only [List.length_cons, List.length_nil, List.length_drop]
    omega
  · simp only [List.length_cons, List.length_nil]
    omega

/-- The type and the code. -/
theorem getD_icmpBuilt_front {h : List UInt8} (hlen : h.length = 8) {i : ℕ} (hi : i < 2) :
    (icmpBuilt h).getD i 0 = h.getD i 0 := by
  have htake : (h.take 2).length = 2 := List.length_take_of_le (by omega)
  rw [icmpBuilt, List.append_assoc, getD_append_left _ (by omega), List.getD_eq_getElem?_getD,
    List.getElem?_take_of_lt hi, ← List.getD_eq_getElem?_getD]

/-- What is behind the type and the code. -/
theorem drop_icmpBuilt {h : List UInt8} (hlen : h.length = 8) :
    (icmpBuilt h).drop 2 = [0, 0] ++ if icmpHasWord h then h.drop 4 else [0, 0, 0, 0] := by
  have htake : (h.take 2).length = 2 := List.length_take_of_le (by omega)
  rw [icmpBuilt, List.append_assoc]
  exact (congrArg (List.drop · _) htake.symm).trans List.drop_left

/-- The second word. -/
theorem drop_four_icmpBuilt {h : List UInt8} (hlen : h.length = 8) :
    (icmpBuilt h).drop 4 = if icmpHasWord h then h.drop 4 else [0, 0, 0, 0] := by
  have hdrop := congrArg (List.drop 2) (drop_icmpBuilt hlen)
  rwa [List.drop_drop] at hdrop

theorem getD_icmpBuilt_back {h : List UInt8} (hlen : h.length = 8) (hw : icmpHasWord h = true)
    (i : ℕ) : (icmpBuilt h).getD (4 + i) 0 = h.getD (4 + i) 0 := by
  have hdrop := drop_four_icmpBuilt hlen
  rw [if_pos hw] at hdrop
  rw [List.getD_eq_getElem?_getD, List.getD_eq_getElem?_getD, ← List.getElem?_drop, hdrop,
    List.getElem?_drop]

theorem icmpHasWord_iff {h : List UInt8} : icmpHasWord h = true ↔
    arsIcmpUnused (byteAt 0 h) = true ∨ arsIcmpIdSeq (byteAt 0 h) = true ∨ byteAt 0 h = 5 := by
  rw [icmpHasWord, Bool.or_eq_true, Bool.or_eq_true, decide_eq_true_eq, or_assoc]

/-- The second word is set. -/
theorem fill_icmpWord {libc : Libc} (hlibc : libc.Inverts) {h : List UInt8} (hlen : h.length = 8)
    (hw : icmpHasWord h = true) :
    Fill icmpNew (icmpBuilt h) (setFields libc ⟨"icmp", arsAddIcmphdr, arsDSetIcmp⟩ (icmpWord h))
      4 [] 0 8 [] 0 := by
  have hb := length_icmpBuilt hlen
  have hget := getD_icmpBuilt_back hlen hw
  have hdrop := drop_four_icmpBuilt hlen
  rw [if_pos hw] at hdrop
  rw [icmpWord]
  split_ifs with hunused hidseq h5
  · have hval : arsAtou (fmtU (ntohlAt 4 h)) = ntohlAt 4 (icmpBuilt h) := by
      rw [arsAtou_fmtU (ntohlAt_lt _ _), ntohlAt, ntohlAt, hget 0, hget 1, hget 2, hget 3]
    exact .cons (setNet32 4) (fun _ => rfl) (fill_net32 (by omega) hval) <| .nil _
  · have hid : arsAtou (fmtU (ntohsAt 4 h)) = ntohsAt 4 (icmpBuilt h) := by
      rw [arsAtou_fmtU (ntohsAt_lt _ _), ntohsAt, ntohsAt, hget 0, hget 1]
    have hseq : arsAtou (fmtU (ntohsAt 6 h)) = ntohsAt 6 (icmpBuilt h) := by
      rw [arsAtou_fmtU (ntohsAt_lt _ _), ntohsAt, ntohsAt, hget 2, hget 3]
    exact .cons (setNet16 4) (fun _ => rfl) (fill_net16 (by omega) hid) <|
      .cons (setNet16 6) (fun _ => rfl) (fill_net16 (by omega) hseq) <| .nil _
  · refine .cons (setAddr 4) (fun _ => rfl) ?_ <| .nil _
    rw [← hdrop]
    exact fill_addr hlibc (by omega)
  · exact absurd (icmpHasWord_iff.mp hw) (by tauto)

theorem icmpWord_eq_nil {h : List UInt8} (hw : icmpHasWord h = false) : icmpWord h = [] := by
  have hno := mt icmpHasWord_iff.mpr (Bool.eq_false_iff.mp hw)
  rw [not_or, not_or] at hno
  rw [icmpWord, if_neg hno.1, if_neg hno.2.1, if_neg hno.2.2]

/-- **An ICMP header is built from its description**, as far as it goes. -/
theorem builds_icmp {libc : Libc} (hlibc : libc.Inverts) {h : List UInt8} (hlen : h.length = 8) :
    Builds libc (icmpDesc h) (full .icmp 0 (icmpBuilt h) (length_icmpBuilt hlen).ge) := by
  have hk : arsGetKeywordByName (lit "icmp") = some ⟨"icmp", arsAddIcmphdr, arsDSetIcmp⟩ := rfl
  have hb := length_icmpBuilt hlen
  have hfront : ∀ i < 2, arsAtou (fmtU (byteAt i h)) = byteAt i (icmpBuilt h) := fun i hi => by
    rw [arsAtou_fmtU ((byteAt_lt i h).trans (by decide)), byteAt, byteAt,
      getD_icmpBuilt_front hlen hi]
  have hnew : icmpNew.lData.drop 2 = [0, 0, 0, 0, 0, 0] := rfl
  have hfill : Fill icmpNew (icmpBuilt h) (setFields libc ⟨"icmp", arsAddIcmphdr, arsDSetIcmp⟩
      (icmpDesc h).fields) 0 [] 0 (if icmpHasWord h then 8 else 2) [] 0 := by
    refine .cons (setByte 0) (fun _ => rfl) (fill_byte (by omega) (hfront 0 (by decide))) <|
      .cons (setByte 1) (fun _ => rfl) (fill_byte (by omega) (hfront 1 (by decide))) ?_
    cases hw : icmpHasWord h with
    | false =>
      rw [icmpWord_eq_nil hw]
      exact .nil _
    | true =>
      -- the checksum is left as it is in a new header
      refine .skip (k := 2) (by omega) ?_ (fill_icmpWord hlibc hlen hw)
      rw [drop_icmpBuilt hlen, hnew]
      rfl
  have hsize : icmpNew.lSize = (icmpBuilt h).length := hb.symm
  have hdata : icmpNew.lData.length = (icmpBuilt h).length := hb.symm
  refine builds_of_fill hk addsLayer_icmp hsize hdata (Nat.zero_le _) rfl hfill ?_ hb.ge
  cases hw : icmpHasWord h with
  | false =>
    rw [if_neg Bool.false_ne_true, drop_icmpBuilt hlen, hw, hnew]
    rfl
  | true => exact List.drop_eq_nil_of_le hb.le

end StyxWire
