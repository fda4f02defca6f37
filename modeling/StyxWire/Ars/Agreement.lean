import StyxWire.Ars.AutoFields
import StyxWire.Ars.Dissects

/-!
# What is built is dissected cleanly

The compilers and the dissector agree: a packet with nothing set by hand, once compiled
and built, is dissected without a truncated layer and without a bad checksum
(`StyxWire.compile_dissect_agree`). The packets are those of `StyxWire.Agreeable`: a
network header with its options, an upper-layer header with its options, and data.

## The shape of the proof

Both sides are brought to the bytes. A compiler that computes a checksum stores the sum
of its layer with a zero in the field (`StyxWire.Fills.stored`); a handler compares the
same field with the same sum. What is left is that the two sides sum the same bytes:
the padding a compiler adds to a run of options (`StyxWire.arsCompileFrom_opts`) makes
the header length it stores the one the dissector reads.
-/

namespace StyxWire

open Mem Text ArsLayer

/-! ### The checksum that is stored -/

theorem write_bytes (l : ArsLayer) (off : ℕ) (src : List UInt8) :
    (l.write off src).bytes = writeAt l.bytes off src :=
  take_writeAt l.lData off src l.lSize

theorem bytes_getD {l : ArsLayer} {i : ℕ} (h : i < l.lSize) : l.bytes.getD i 0 = l.byte i := by
  rw [ArsLayer.byte, bytes, List.getD_eq_getElem?_getD, List.getElem?_take_of_lt h,
    List.getD_eq_getElem?_getD]

theorem writeAll_concat (l : ArsLayer) (ws : List (ℕ × List UInt8)) (off : ℕ) (ck : List UInt8) :
    l.writeAll (ws ++ [(off, ck)]) = (l.writeAll ws).write off ck :=
  List.foldl_append

namespace Fills

variable {t : ArsType} {take off : ℕ} {A : ArsLayer → List UInt8 → List (ℕ × List UInt8)}
  {sumOf : ArsLayer → Except ArsErr ℕ} {F : ArsLayer → Except ArsErr ArsLayer}

/-- **The checksum a compiler stores** is the sum of the layer it leaves with a zero in the
field, and of the bytes `tail` it covers besides. -/
theorem stored (h : Fills t take off A sumOf F) {l : ArsLayer} (hl : l.lType = t)
    (hsize : off + 2 ≤ l.lSize) (htake : arsDonttake l.lFlags take = true)
    {f : List UInt8 → ℕ} (hf : ∀ d, f d < 65536) {tail : List UInt8}
    (hsum : ∀ m : ArsLayer, m.lType = t → m.lSize = l.lSize → sumOf m = .ok (f (m.bytes ++ tail))) :
    ∃ ck, ck.length = 2 ∧ F l = .ok (l.writeAll (A l ck)) ∧
      le16 ((l.writeAll (A l ck)).bytes.getD off 0) ((l.writeAll (A l ck)).bytes.getD (off + 1) 0) =
        f (writeAt ((l.writeAll (A l ck)).bytes ++ tail) off [0, 0]) := by
  have hok := h.eq l hl
  rw [if_pos htake, hsum _ (by simpa using hl) (by simp)] at hok
  set m := l.writeAll (A l [0, 0]) with hm
  set s := f (m.bytes ++ tail) with hs
  refine ⟨putLe16 s, rfl, hok, ?_⟩
  -- the layer it leaves, with a zero in the field, is the layer it summed
  obtain ⟨ws, hws⟩ := h.last l
  have hzero : (l.writeAll (A l (putLe16 s))).write off [0, 0] = m := by
    rw [hm, hws, hws, writeAll_concat, writeAll_concat]
    exact write_write (Nat.le_refl 2)
  have hread := h.slice_writeAll hl (length_putLe16 s)
  have hsize' : (l.writeAll (A l (putLe16 s))).lSize = l.lSize := writeAll_lSize _ _
  set l' := l.writeAll (A l (putLe16 s)) with hl'
  have hle := l'.size_le
  rw [slice_two (by omega), putLe16, List.cons.injEq, List.cons.injEq] at hread
  rw [writeAt_append (by simpa [hsize'] using hsize), ← write_bytes, hzero, ← hs,
    bytes_getD (by omega), bytes_getD (by omega), hread.1, hread.2.1]
  have h16 := le16_putLe16 s
  rw [Nat.mod_eq_of_lt (hf _)] at h16
  exact h16

end Fills

/-! ### Runs of options -/

/-- What brings a size up to a multiple of four. -/
def padding (n : ℕ) : ℕ := (4 - n % 4) % 4

theorem arsRelativeSize_append (ls ms : List ArsLayer) :
    arsRelativeSize (ls ++ ms) = arsRelativeSize ls + arsRelativeSize ms := by
  simp [arsRelativeSize]

theorem runSize_cons {t : ArsType} {l : ArsLayer} (hl : l.lType = t) (before : List ArsLayer) :
    runSize t (l :: before) = l.lSize + runSize t before := by
  simp [runSize, hl]

/-- **A run of options is compiled to itself and its padding**, which is in its last layer. -/
theorem arsCompileFrom_opts {t : ArsType} {nop : ℕ}
    (hcomp : ∀ before l after, l.lType = t →
      arsLiCompiler before l after = .ok (arsCompilerOpt t nop before l after))
    {rest rest' : List ArsLayer} (hhead : rest'.head?.map ArsLayer.lType ≠ some t) :
    ∀ {opts : List ArsLayer} {l : ArsLayer} {before : List ArsLayer},
      (∀ o ∈ l :: opts, o.lType = t) →
      arsCompileFrom ((l :: opts).reverse ++ before) rest = .ok rest' →
      ∃ opts', arsCompileFrom before (l :: opts ++ rest) = .ok (opts' ++ rest') ∧ opts' ≠ [] ∧
        (∀ o ∈ opts', o.lType = t) ∧ layersBytes opts' = layersBytes (l :: opts) ++
          List.replicate (padding (runSize t before + arsRelativeSize (l :: opts)))
            (UInt8.ofNat nop) := by
  intro opts
  induction opts with
  | nil =>
    intro l before hall hrest
    have hl := hall l List.mem_cons_self
    have hsize : arsRelativeSize [l] = l.lSize := by simp [arsRelativeSize]
    -- the last option of the run
    refine ⟨[arsCompilerOpt t nop before l rest'], ?_, by simp, ?_, ?_⟩
    · exact arsCompileFrom_cons.mpr ⟨_, _, hrest, hcomp before l rest' hl, rfl⟩
    · rintro o ho
      obtain rfl := List.mem_singleton.mp ho
      have := arsLiCompiler_lType (hcomp before l rest' hl)
      exact this.trans hl
    · rw [layersBytes_cons, layersBytes_cons, layersBytes_nil, List.append_nil, List.append_nil,
        arsCompilerOpt, if_neg hhead, hsize]
      change ArsLayer.bytes (if (runSize t before + l.lSize) % 4 ≠ 0 then
        l.grow (List.replicate (4 - (runSize t before + l.lSize) % 4) _) else l) = _
      split_ifs with hpad
      · rw [grow_bytes, padding, Nat.mod_eq_of_lt (show 4 - _ < 4 by omega)]
      · rw [padding, not_not.mp hpad, Nat.sub_zero, Nat.mod_self, List.replicate_zero,
          List.append_nil]
  | cons m opts ih =>
    intro l before hall hrest
    have hl := hall l List.mem_cons_self
    have hrest' : arsCompileFrom ((m :: opts).reverse ++ l :: before) rest = .ok rest' := by
      simpa using hrest
    obtain ⟨opts', hok, hne, htypes, hbytes⟩ :=
      ih (fun o ho => hall o (List.mem_cons_of_mem _ ho)) hrest'
    obtain ⟨o, os, rfl⟩ := List.exists_cons_of_ne_nil hne
    -- an option that is not the last is left alone
    have hself : arsCompilerOpt t nop before l (o :: os ++ rest') = l := by
      rw [arsCompilerOpt, if_pos]
      simpa using htypes o List.mem_cons_self
    refine ⟨l :: o :: os, ?_, by simp, ?_, ?_⟩
    · exact arsCompileFrom_cons.mpr ⟨_, _, hok, (hcomp before l _ hl).trans (congrArg _ hself), rfl⟩
    · exact List.forall_mem_cons.mpr ⟨hl, htypes⟩
    · rw [layersBytes_cons, hbytes, layersBytes_cons (l := l), List.append_assoc, runSize_cons hl,
        arsRelativeSize_cons l, Nat.add_comm l.lSize, Nat.add_assoc]

/-- The size of a run of options, padding included. -/
def paddedSize (opts : List ArsLayer) : ℕ := arsRelativeSize opts + padding (arsRelativeSize opts)

theorem paddedSize_mod (opts : List ArsLayer) : paddedSize opts % 4 = 0 := by
  unfold paddedSize padding
  omega

/-- **A list of well formed options** of a type, that fits in the header when it is padded. -/
structure IsOptions (t : ArsType) (opts : List ArsLayer) : Prop where
  lType : ∀ o ∈ opts, o.lType = t
  lFlags : ∀ o ∈ opts, o.lFlags = 0
  wellFormed : ∀ o ∈ opts, WellFormedOpt o.bytes
  size : paddedSize opts ≤ 40

theorem length_le_length_flatten {os : List (List UInt8)} (h : ∀ o ∈ os, WellFormedOpt o) :
    os.length ≤ os.flatten.length := by
  induction os with
  | nil => simp
  | cons o os ih =>
    have ho := (h o List.mem_cons_self).pos
    have hos := ih fun o ho => h o (List.mem_cons_of_mem _ ho)
    rw [List.flatten_cons, List.length_append, List.length_cons]
    omega

/-- What a list of options is compiled to: well formed options, those of the padding
included. -/
theorem IsOptions.compile {t : ArsType} {opts : List ArsLayer} (h : IsOptions t opts)
    (hcomp : ∀ before l after, l.lType = t →
      arsLiCompiler before l after = .ok (arsCompilerOpt t 1 before l after))
    {before rest rest' : List ArsLayer} (hrun : runSize t before = 0)
    (hhead : rest'.head?.map ArsLayer.lType ≠ some t)
    (hrest : arsCompileFrom (opts.reverse ++ before) rest = .ok rest') :
    ∃ (opts' : List ArsLayer) (os : List (List UInt8)), arsCompileFrom before (opts ++ rest) = .ok (opts' ++ rest') ∧
      (∀ o ∈ opts', o.lType = t) ∧ layersBytes opts' = os.flatten ∧
      (∀ o ∈ os, WellFormedOpt o) ∧ os.flatten.length = paddedSize opts := by
  cases opts with
  | nil => exact ⟨[], [], hrest, by simp, rfl, by simp, rfl⟩
  | cons l opts =>
    obtain ⟨opts', hok, -, htypes, hbytes⟩ := arsCompileFrom_opts hcomp hhead h.lType hrest
    rw [hrun, Nat.zero_add] at hbytes
    -- the padding is a no-operation for each byte
    have hpad : ∀ n, (List.replicate n [(1 : UInt8)]).flatten = List.replicate n 1 := by
      intro n
      induction n with
      | zero => rfl
      | succ n ih => rw [List.replicate_succ, List.flatten_cons, ih]; rfl
    refine ⟨opts', (l :: opts).map ArsLayer.bytes ++
      List.replicate (padding (arsRelativeSize (l :: opts))) [1], hok, htypes, ?_, ?_, ?_⟩
    · rw [hbytes, List.flatten_append, hpad]
      rfl
    · rintro o ho
      rcases List.mem_append.mp ho with ho | ho
      · obtain ⟨m, hm, rfl⟩ := List.mem_map.mp ho
        exact h.wellFormed m hm
      · rw [List.eq_of_mem_replicate ho]
        decide
    · rw [List.flatten_append, hpad, List.length_append, List.length_replicate]
      exact congrArg (· + _) (length_layersBytes (l :: opts))

/-! ### The packets -/

/-- A header that nobody has cut, with nothing set by hand. -/
structure IsHeader (t : ArsType) (l : ArsLayer) : Prop where
  lType : l.lType = t
  lSize : l.lSize = t.hdrSize
  lFlags : l.lFlags = 0

/-- At most one layer, of data. -/
structure IsPayload (data : List ArsLayer) : Prop where
  length : data.length ≤ 1
  lType : ∀ d ∈ data, d.lType = .data
  lFlags : ∀ d ∈ data, d.lFlags = 0

/-- An upper-layer header and what follows it, in a packet of IPv6 or IPv4; the number is the
size, padding included. -/
inductive Upper : Bool → List ArsLayer → ℕ → Prop
  | tcp {v6 : Bool} {l : ArsLayer} {opts data : List ArsLayer} (hl : IsHeader .tcp l)
      (hopts : IsOptions .tcpopt opts) (hdata : IsPayload data) :
      Upper v6 (l :: (opts ++ data)) (20 + paddedSize opts + arsRelativeSize data)
  | udp {v6 : Bool} {l : ArsLayer} {data : List ArsLayer} (hl : IsHeader .udp l)
      (hdata : IsPayload data) : Upper v6 (l :: data) (8 + arsRelativeSize data)
  /-- Data follows the echo, timestamp and information messages only. -/
  | icmp {l : ArsLayer} {data : List ArsLayer} (hl : IsHeader .icmp l) (hdata : IsPayload data)
      (htype : arsRelativeSize data ≠ 0 → (l.byte 0).toNat ∈ [0, 8, 13, 14, 15, 16]) :
      Upper false (l :: data) (8 + arsRelativeSize data)
  | icmp6 {l : ArsLayer} {data : List ArsLayer} (hl : IsHeader .icmp6 l)
      (hdata : IsPayload data) : Upper true (l :: data) (8 + arsRelativeSize data)

/-- A network header and its options. -/
inductive Network : Bool → List ArsLayer → ℕ → Prop
  | ip {l : ArsLayer} {opts : List ArsLayer} (hl : IsHeader .ip l)
      (hopts : IsOptions .ipopt opts) : Network false (l :: opts) (20 + paddedSize opts)
  | ip6 {l : ArsLayer} (hl : IsHeader .ip6 l) : Network true [l] 40

/-- **The packets**: a network header, an upper layer in it, and at most `ARS_MAX_IP_SIZE`
bytes. -/
structure Agreeable (pkt : ArsPacket) : Prop where
  layers : ∃ v6 net up n m, pkt.pLayer = net ++ up ∧ Network v6 net n ∧ Upper v6 up m ∧
    n + m ≤ 65535

/-! ### The upper layer -/

theorem IsPayload.compile {data : List ArsLayer} (h : IsPayload data) (before : List ArsLayer) :
    arsCompileFrom before data = .ok data := by
  obtain ⟨hlen, htype, -⟩ := h
  match data, hlen with
  | [], _ => rfl
  | [d], _ =>
    refine arsCompileFrom_cons.mpr ⟨d, [], rfl, ?_, rfl⟩
    rw [arsLiCompiler, htype d List.mem_cons_self]

theorem IsPayload.head? {data : List ArsLayer} (h : IsPayload data) {t : ArsType} (ht : t ≠ .data) :
    data.head?.map ArsLayer.lType ≠ some t := by
  cases data with
  | nil => simp
  | cons d data => simpa [h.lType d List.mem_cons_self] using ht.symm

/-- Data is dissected to one layer, if there is any. -/
theorem dissects_payload {st : SplitState} {pkt : ArsPacket} (hdef : pkt.NoDefault)
    (hroom : pkt.pLayer.length < arsMaxLayer) (d : List UInt8) (hst : d ≠ [] → st = .getData) :
    Dissects st pkt d (if d = [] then [] else [full .data 0 d (Nat.zero_le _)]) := by
  split_ifs with h
  · rw [h]
    exact .done st pkt
  · obtain ⟨pkt', hhandles⟩ := handles_data hdef hroom d
    have hdis := @Handles.dissects .getData .done pkt pkt' d [] _ [] (by simpa using hhandles) rfl
      (List.length_pos_of_ne_nil h) (.done _ _)
    rwa [List.append_nil, ← hst h] at hdis

/-- Nothing is wrong with the layers. -/
def Clean (ls : List ArsLayer) : Prop := ∀ l ∈ ls, l.lFlags = 0

theorem clean_payload (d : List UInt8) :
    Clean (if d = [] then [] else [full .data 0 d (Nat.zero_le _)]) := by
  rintro l hl
  split_ifs at hl
  · cases hl
  · rw [List.mem_singleton.mp hl]
    rfl

/-- The state that dissects an upper layer, by the type of its first layer. -/
def upperState (ls : List ArsLayer) : SplitState :=
  match ls.head?.map ArsLayer.lType with
  | some .tcp => .getTcp
  | some .udp => .getUdp
  | some .icmp => .getIcmp
  | some .icmp6 => .getIcmp6
  | _ => .getData

/-- The layers are compiled to `n` bytes, and these are dissected cleanly in any packet in
which the same addresses are found. -/
def UpperAgrees (v6 : Bool) (addrs : List UInt8) (before ls : List ArsLayer) (n : ℕ) : Prop :=
  ∃ ls' out, arsCompileFrom before ls = .ok ls' ∧ arsRelativeSize ls' = n ∧ Clean out ∧
    ∀ pkt : ArsPacket, pkt.NoDefault → Parent v6 addrs pkt.pLayer.reverse →
      pkt.pLayer.length ≤ 41 → Dissects (upperState ls) pkt (layersBytes ls') out

theorem clean_cons_full {t : ArsType} {d : List UInt8} (h : t.hdrSize ≤ d.length) {f : ℕ}
    (hf : f = 0) {ls : List ArsLayer} (hls : Clean ls) : Clean (full t f d h :: ls) := by
  rintro l hl
  rcases List.mem_cons.mp hl with rfl | hl
  · exact hf
  · exact hls l hl

theorem cksumFlags_eq {ok : Prop} [Decidable ok] (h : ok) : cksumFlags ok = 0 := if_pos h

theorem pseudoCksum_lt (v6 : Bool) (addrs : List UInt8) (protocol : ℕ) (d : List UInt8) :
    pseudoCksum v6 addrs protocol d < 65536 :=
  arsCksum_lt _

section Upper

variable {v6 : Bool} {addrs : List UInt8} {before data : List ArsLayer} {l : ArsLayer}

/-- A header that is followed by data only: what the compiler stores is what the handler
compares with. -/
theorem upperAgrees_hdr {t : ArsType} {take off : ℕ}
    {A : ArsLayer → List UInt8 → List (ℕ × List UInt8)} {sumOf : ArsLayer → Except ArsErr ℕ}
    {F : ArsLayer → Except ArsErr ArsLayer} (hfills : Fills t take off A sumOf F)
    (ht : t.hdrSize = 8) (hl : IsHeader t l) (hdata : IsPayload data)
    (hcomp : arsLiCompiler before l data = F l) {f : List UInt8 → ℕ} (hf : ∀ d, f d < 65536)
    (hsum : ∀ m : ArsLayer, m.lType = t → m.lSize = l.lSize →
      sumOf m = .ok (f (m.bytes ++ layersBytes data)))
    (hhandles : ∀ l' : ArsLayer, (∃ ck, ck.length = 2 ∧ l' = l.writeAll (A l ck)) →
      ∀ hh : l'.bytes.length = t.hdrSize,
      le16 (l'.bytes.getD off 0) (l'.bytes.getD (off + 1) 0) =
        f (writeAt (l'.bytes ++ layersBytes data) off [0, 0]) →
      ∀ pkt : ArsPacket, pkt.NoDefault → pkt.pLayer.length < arsMaxLayer →
      Parent v6 addrs pkt.pLayer.reverse →
      ∃ st' pkt', Handles (upperState (l :: data)) pkt (l'.bytes ++ layersBytes data)
        (full t 0 l'.bytes hh.ge) st' pkt' ∧ (layersBytes data ≠ [] → st' = .getData)) :
    UpperAgrees v6 addrs before (l :: data) (8 + arsRelativeSize data) := by
  obtain ⟨ck, hck, hok, hstored⟩ := hfills.stored hl.lType
    (by rw [hl.lSize]; exact hfills.fit) (by rw [hl.lFlags, arsDonttake_zero]) hf hsum
  have hsize : (l.writeAll (A l ck)).lSize = 8 := by rw [writeAll_lSize, hl.lSize, ht]
  generalize hl' : l.writeAll (A l ck) = l' at hok hstored hsize
  have hh : l'.bytes.length = t.hdrSize := by rw [length_bytes, hsize, ht]
  refine ⟨l' :: data, _, ?_, ?_, clean_cons_full hh.ge rfl (clean_payload (layersBytes data)),
    fun pkt hdef hparent hroom => ?_⟩
  · exact arsCompileFrom_cons.mpr ⟨l', data, hdata.compile _, hcomp.trans hok, rfl⟩
  · rw [arsRelativeSize_cons, hsize]
  · have hmax : arsMaxLayer = 256 := rfl
    obtain ⟨st', pkt', hhandle, hst⟩ :=
      hhandles l' ⟨ck, hck, hl'.symm⟩ hh hstored pkt hdef (by omega) hparent
    have hext := hhandle.extends_
    refine hhandle.dissects rfl (by omega) (dissects_payload (hext.noDefault hdef) ?_ _ hst)
    rw [hext.length, List.length_singleton]
    omega

theorem udp_agrees (hl : IsHeader .udp l) (hdata : IsPayload data) (hp : Parent v6 addrs before) :
    UpperAgrees v6 addrs before (l :: data) (8 + arsRelativeSize data) := by
  have hcomp : arsLiCompiler before l data = arsCompilerUdp before l data := by
    rw [arsLiCompiler, hl.lType]
  refine upperAgrees_hdr (fills_udp before data) rfl hl hdata hcomp
    (pseudoCksum_lt v6 addrs arsIpprotoUdp) ?_ ?_
  · rintro m hm -
    rw [arsUdptcpCksum_of_parent hp, arsUdptcpProtocol, hm]
    rfl
  · rintro l' - hh hstored pkt hdef hroom hparent
    obtain ⟨pkt', hhandle⟩ := @handles_udp _ hdef hroom _ (layersBytes data) hh _ _ hparent
    rw [cksumFlags_eq hstored] at hhandle
    have hst : upperState (l :: data) = .getUdp := by
      simp [upperState, hl.lType]
    exact ⟨_, pkt', hst ▸ hhandle, fun _ => rfl⟩

theorem icmp6_agrees (hl : IsHeader .icmp6 l) (hdata : IsPayload data)
    (hp : Parent true addrs before) :
    UpperAgrees true addrs before (l :: data) (8 + arsRelativeSize data) := by
  have hcomp : arsLiCompiler before l data = arsCompilerIcmp6 before l data := by
    rw [arsLiCompiler, hl.lType]
  refine upperAgrees_hdr (fills_icmp6 before data) rfl hl hdata hcomp
    (pseudoCksum_lt true addrs arsIpprotoIcmpv6) ?_ ?_
  · rintro m - -
    exact arsIp6PseudoCksum_of_parent hp _ _
  · rintro l' - hh hstored pkt hdef hroom hparent
    obtain ⟨pkt', hhandle⟩ := @handles_icmp6 _ hdef hroom _ (layersBytes data) hh _ hparent
    rw [cksumFlags_eq hstored] at hhandle
    have hst : upperState (l :: data) = .getIcmp6 := by
      simp [upperState, hl.lType]
    exact ⟨_, pkt', hst ▸ hhandle, fun _ => rfl⟩

theorem icmp_agrees (hl : IsHeader .icmp l) (hdata : IsPayload data)
    (htype : arsRelativeSize data ≠ 0 → (l.byte 0).toNat ∈ [0, 8, 13, 14, 15, 16]) :
    UpperAgrees v6 addrs before (l :: data) (8 + arsRelativeSize data) := by
  have hcomp : arsLiCompiler before l data = .ok (arsCompilerIcmp l data) := by
    rw [arsLiCompiler, hl.lType]
  refine upperAgrees_hdr (fills_icmp data) rfl hl hdata hcomp arsCksum_lt ?_ ?_
  · rintro m - -
    rw [arsMultiCksum_eq]
    rfl
  · rintro l' ⟨ck, hck, rfl⟩ hh hstored pkt hdef hroom -
    obtain ⟨pkt', hhandle⟩ := @handles_icmp _ hdef hroom _ (layersBytes data) hh
    rw [cksumFlags_eq hstored] at hhandle
    have hst : upperState (l :: data) = .getIcmp := by
      simp [upperState, hl.lType]
    refine ⟨_, pkt', hst ▸ hhandle, fun hne => ?_⟩
    -- the type is not an automatic field
    have hbyte : (l.writeAll [(2, ck)]).bytes.getD 0 0 = l.byte 0 := by
      rw [bytes_getD (by rw [writeAll_lSize, hl.lSize]; decide)]
      have hs : (l.writeAll [(2, ck)]).slice 0 1 = l.slice 0 1 :=
        slice_write_of_apart (by omega)
      exact byte_eq_of_slice hs Nat.zero_lt_one
    have hmem := htype fun h0 => hne (by
      rw [← length_layersBytes] at h0
      exact List.length_eq_zero_iff.mp h0)
    rw [hbyte, arsIcmpNextState]
    simp only [List.mem_cons, List.not_mem_nil, or_false] at hmem
    rw [if_pos (by tauto)]

/-- The options of a TCP header, and data. -/
theorem dissects_tcpopts {pkt : ArsPacket} (hdef : pkt.NoDefault) {os : List (List UInt8)}
    (hos : ∀ o ∈ os, WellFormedOpt o) (hroom : pkt.pLayer.length + os.length < arsMaxLayer)
    (haux : os ≠ [] → pkt.aux = os.flatten.length) (d : List UInt8) :
    Dissects (if os = [] then .getData else .getTcpopt) pkt (os.flatten ++ d)
      (optLayers .tcpopt rfl os ++ if d = [] then [] else [full .data 0 d (Nat.zero_le _)]) := by
  refine dissects_area rfl (fun _ _ => rfl) hdef hos hroom.le haux (fun _ _ _ => rfl)
    fun pkt' hext => dissects_payload (hext.noDefault hdef) ?_ d fun _ => rfl
  have hlen : (optLayers .tcpopt rfl os).length = os.length := length_optLayers _ _
  rw [hext.length]
  exact hlen ▸ hroom

theorem clean_append {ls ms : List ArsLayer} (hls : Clean ls) (hms : Clean ms) :
    Clean (ls ++ ms) := by
  rintro l hl
  exact (List.mem_append.mp hl).elim (hls l) (hms l)

theorem clean_optLayers {t : ArsType} (ht : t.hdrSize = 0) (os : List (List UInt8)) :
    Clean (optLayers t ht os) := by
  rintro l hl
  obtain ⟨o, -, rfl⟩ := List.mem_map.mp hl
  rfl

theorem takeWhile_opts {t : ArsType} {opts rest : List ArsLayer} (hopts : ∀ o ∈ opts, o.lType = t)
    (hrest : rest.head?.map ArsLayer.lType ≠ some t) :
    (opts ++ rest).takeWhile (fun m => m.lType = t) = opts := by
  rw [List.takeWhile_append_of_pos (by simpa using hopts)]
  cases rest with
  | nil => simp
  | cons r rest =>
    have hr : r.lType ≠ t := by simpa using hrest
    simp [hr]

theorem tcp_agrees {opts : List ArsLayer} (hl : IsHeader .tcp l) (hopts : IsOptions .tcpopt opts)
    (hdata : IsPayload data) (hp : Parent v6 addrs before) :
    UpperAgrees v6 addrs before (l :: (opts ++ data))
      (20 + paddedSize opts + arsRelativeSize data) := by
  -- the options
  have hrun : runSize .tcpopt (l :: before) = 0 := by
    simp [runSize, hl.lType, arsRelativeSize]
  have hcompOpt : ∀ before l after, l.lType = .tcpopt →
      arsLiCompiler before l after = .ok (arsCompilerOpt .tcpopt 1 before l after) := by
    intro before l after hl
    rw [arsLiCompiler, hl]
    rfl
  obtain ⟨opts', os, hok, htypes, hbytes, hos, hsize⟩ :=
    hopts.compile hcompOpt hrun (hdata.head? (by decide)) (hdata.compile (opts.reverse ++ l :: before))
  have hsize' : arsRelativeSize opts' = paddedSize opts := by
    rw [← length_layersBytes, hbytes, hsize]
  -- the header
  have hsum : ∀ m : ArsLayer, m.lType = .tcp → m.lSize = l.lSize →
      arsUdptcpCksum before m (opts' ++ data) =
        .ok (pseudoCksum v6 addrs arsIpprotoTcp (m.bytes ++ layersBytes (opts' ++ data))) := by
    rintro m hm -
    rw [arsUdptcpCksum_of_parent hp, arsUdptcpProtocol, hm]
    rfl
  obtain ⟨ck, hck, hfill, hstored⟩ := (fills_tcp before (opts' ++ data)).stored hl.lType
    (by rw [hl.lSize]; decide) (by rw [hl.lFlags, arsDonttake_zero])
    (pseudoCksum_lt v6 addrs arsIpprotoTcp) hsum
  have hlSize : (l.writeAll (tcpAuto l (opts' ++ data) ck)).lSize = 20 := by
    rw [writeAll_lSize, hl.lSize]
    rfl
  have hoff := tcpAuto_byte hl.lType hl.lFlags (opts' ++ data) hck
  rw [takeWhile_opts htypes (hdata.head? (show ArsType.tcpopt ≠ .data by decide)), hsize'] at hoff
  generalize l.writeAll (tcpAuto l (opts' ++ data) ck) = l' at hfill hstored hlSize hoff
  have hpad := hopts.size
  have hmod := paddedSize_mod opts
  have hcomp : arsLiCompiler before l (opts' ++ data) = .ok l' := by
    rw [arsLiCompiler, hl.lType]
    exact hfill
  have hh20 : l'.bytes.length = 20 := by rw [length_bytes, hlSize]
  have hh : l'.bytes.length = ArsType.tcp.hdrSize := hh20
  refine ⟨l' :: (opts' ++ data), _, arsCompileFrom_cons.mpr ⟨l', _, hok, hcomp, rfl⟩, ?_,
    clean_cons_full hh.ge rfl
      (clean_append (@clean_optLayers .tcpopt rfl os) (clean_payload (layersBytes data))), ?_⟩
  · rw [arsRelativeSize_cons, arsRelativeSize_append, hlSize, hsize', Nat.add_assoc]
  · rintro pkt hdef hparent hroom
    have hmax : arsMaxLayer = 256 := rfl
    have hlength := length_le_length_flatten hos
    have hthoff : (l'.bytes.getD 12 0).toNat / 16 = 5 + paddedSize opts / 4 := by
      rw [bytes_getD (by omega), hoff, toNat_setHi]
      omega
    have hrest : layersBytes (opts' ++ data) = os.flatten ++ layersBytes data := by
      rw [layersBytes_append, hbytes]
    obtain ⟨pkt', hhandle, haux⟩ := @handles_tcp _ hdef (by omega) _ (layersBytes (opts' ++ data)) hh
      _ _ hparent (by omega) (by rw [List.length_append, hrest, List.length_append]; omega)
    rw [cksumFlags_eq hstored, hthoff] at hhandle
    have hst : upperState (l :: (opts ++ data)) = .getTcp := by
      simp [upperState, hl.lType]
    have hext := hhandle.extends_
    have hnil := flatten_eq_nil hos
    have hstate : (if 5 < 5 + paddedSize opts / 4 then SplitState.getTcpopt else .getData) =
        if os = [] then .getData else .getTcpopt := by
      split_ifs with h5 hos' hos'
      · rw [hos'] at hsize
        simp at hsize
        omega
      · rfl
      · rfl
      · have hpos := List.length_pos_of_ne_nil (mt hnil.mp hos')
        omega
    rw [hstate] at hhandle
    rw [layersBytes_cons]
    -- what follows the header
    have hdis := dissects_tcpopts (hext.noDefault hdef) hos
      (by rw [hext.length, List.length_singleton]; omega)
      (fun hne => by
        have hpos := List.length_pos_of_ne_nil (mt hnil.mp hne)
        rw [haux (by omega), hthoff]
        omega)
      (layersBytes data)
    rw [← hrest] at hdis
    exact hst ▸ hhandle.dissects rfl (by rw [length_bytes]; omega) hdis

/-- **An upper layer is dissected as it was compiled.** -/
theorem Upper.agrees {n : ℕ} {ls : List ArsLayer} (h : Upper v6 ls n)
    (hp : Parent v6 addrs before) : UpperAgrees v6 addrs before ls n := by
  cases h with
  | tcp hl hopts hdata => exact tcp_agrees hl hopts hdata hp
  | udp hl hdata => exact udp_agrees hl hdata hp
  | icmp hl hdata htype => exact icmp_agrees hl hdata htype
  | icmp6 hl hdata => exact icmp6_agrees hl hdata hp

/-- The types that an upper layer starts with. -/
theorem Upper.head? {n : ℕ} {ls : List ArsLayer} (h : Upper v6 ls n) :
    ∃ t, ls.head?.map ArsLayer.lType = some t ∧
      (t = .tcp ∨ t = .udp ∨ t = if v6 then .icmp6 else .icmp) := by
  cases h with
  | tcp hl => exact ⟨.tcp, congrArg some hl.lType, by simp⟩
  | udp hl => exact ⟨.udp, congrArg some hl.lType, by simp⟩
  | icmp hl => exact ⟨.icmp, congrArg some hl.lType, by simp⟩
  | icmp6 hl => exact ⟨.icmp6, congrArg some hl.lType, by simp⟩

theorem exists_cons_of_head? {ls : List ArsLayer} {t : ArsType}
    (h : ls.head?.map ArsLayer.lType = some t) : ∃ l r, ls = l :: r ∧ l.lType = t := by
  cases ls with
  | nil => cases h
  | cons l r => exact ⟨l, r, rfl, Option.some.inj h⟩

/-- The protocol number that is stored leads to the upper layer. -/
theorem Upper.arsIpNextState {n : ℕ} {ls ls' : List ArsLayer} (h : Upper false ls n)
    (htypes : ls'.head?.map ArsLayer.lType = ls.head?.map ArsLayer.lType) :
    ls'.head?.map ArsLayer.lType ≠ some .ipopt ∧
      StyxWire.arsIpNextState (UInt8.ofNat (arsIpProtocol ls')).toNat = upperState ls := by
  obtain ⟨t, ht, hcases⟩ := h.head?
  rw [ht] at htypes
  obtain ⟨m, r, rfl, hm⟩ := exists_cons_of_head? htypes
  rw [htypes, arsIpProtocol, hm, upperState, ht]
  rcases hcases with rfl | rfl | rfl <;> exact ⟨by decide, rfl⟩

/-- The same for the next header field. -/
theorem Upper.arsIp6NextState {n : ℕ} {ls ls' : List ArsLayer} (h : Upper true ls n)
    (htypes : ls'.head?.map ArsLayer.lType = ls.head?.map ArsLayer.lType) :
    StyxWire.arsIp6NextState (UInt8.ofNat (arsIp6Nexthdr ls')).toNat = upperState ls := by
  obtain ⟨t, ht, hcases⟩ := h.head?
  rw [ht] at htypes
  obtain ⟨m, r, rfl, hm⟩ := exists_cons_of_head? htypes
  rw [arsIp6Nexthdr, hm, upperState, ht]
  rcases hcases with rfl | rfl | rfl <;> rfl

end Upper

/-! ### The network layer -/

/-- The layers are compiled to bytes that are dissected cleanly. -/
def Agrees (ls : List ArsLayer) : Prop :=
  ∃ ls', arsCompileFrom [] ls = .ok ls' ∧ arsRelativeSize ls' ≠ 0 ∧
    ∃ res, arsSplitPacket (layersBytes ls') 0 arsInit = .ok res ∧ Clean res.pLayer

theorem splitFirstState_append {h : List UInt8} (hpos : 0 < h.length) (rest : List UInt8) :
    splitFirstState (h ++ rest) 0 = if (h.getD 0 0).toNat / 16 = 6 then .getIp6 else .getIp := by
  cases h with
  | nil => cases hpos
  | cons b h => rfl

theorem arsIpProtocol_append {opts : List ArsLayer} (h : ∀ o ∈ opts, o.lType = .ipopt)
    (ls : List ArsLayer) : arsIpProtocol (opts ++ ls) = arsIpProtocol ls := by
  rw [← arsIpProtocol_dropWhile (opts ++ ls), ← arsIpProtocol_dropWhile ls,
    List.dropWhile_append_of_pos]
  exact fun o ho => decide_eq_true (h o ho)

/-- An IP header and its options, seen from the right. -/
theorem parent_ip {l : ArsLayer} (hl : l.lType = .ip) {opts : List ArsLayer}
    (hopts : ∀ o ∈ opts, o.lType = .ipopt) :
    Parent false ((l.lData.drop 12).take 8) (opts.reverse ++ [l]) := by
  refine ⟨l, [], ?_, hl, rfl⟩
  have hrev : ∀ o ∈ opts.reverse, isIpopt o = true :=
    fun o ho => decide_eq_true (hopts o (List.mem_reverse.mp ho))
  rw [List.dropWhile_append_of_pos hrev, List.dropWhile_cons_of_neg (by simp [isIpopt, hl])]

/-- A datagram whose header gives its length. -/
theorem arsDatagramSize_ip {d : List UInt8} (hst : splitFirstState d 0 = .getIp)
    (hlen : 20 ≤ d.length) (htot : be16 (d.getD 2 0) (d.getD 3 0) = d.length) :
    arsDatagramSize d = d.length := by
  rw [arsDatagramSize, hst, if_neg (by decide), if_neg (by omega), htot]
  omega

theorem arsDatagramSize_ip6 {d : List UInt8} (hst : splitFirstState d 0 = .getIp6)
    (hlen : 40 ≤ d.length) (hplen : be16 (d.getD 4 0) (d.getD 5 0) + 40 = d.length) :
    arsDatagramSize d = d.length := by
  rw [arsDatagramSize, if_pos hst, if_neg (by omega), hplen]
  omega

section Network

variable {l : ArsLayer} {up : List ArsLayer} {m : ℕ}

/-- **A compiled IP header**, field by field. -/
theorem ip_compiled (hl : IsHeader .ip l) {opts : List ArsLayer}
    (htypes : ∀ o ∈ opts, o.lType = .ipopt) (hsize : arsRelativeSize opts ≤ 40)
    (hhead : up.head?.map ArsLayer.lType ≠ some .ipopt) :
    ∃ l' : ArsLayer, arsLiCompiler [] l (opts ++ up) = .ok l' ∧ l'.lSize = 20 ∧
      (l'.bytes.getD 0 0).toNat = 69 + arsRelativeSize opts / 4 ∧
      be16 (l'.bytes.getD 2 0) (l'.bytes.getD 3 0) = (20 + arsRelativeSize (opts ++ up)) % 65536 ∧
      l'.bytes.getD 9 0 = UInt8.ofNat (arsIpProtocol up) ∧
      (l'.bytes.drop 12).take 8 = (l.lData.drop 12).take 8 ∧
      le16 (l'.bytes.getD 10 0) (l'.bytes.getD 11 0) =
        arsCksum (writeAt (l'.bytes ++ layersBytes opts) 10 [0, 0]) := by
  have htake : (opts ++ up).takeWhile isIpopt = opts := takeWhile_opts htypes hhead
  have hsum : ∀ m : ArsLayer, m.lType = .ip → m.lSize = l.lSize →
      (.ok (arsMultiCksum (m.lData.take 20 ::
        ((opts ++ up).takeWhile isIpopt).map ArsLayer.bytes)) : Except ArsErr ℕ) =
        .ok (arsCksum (m.bytes ++ layersBytes opts)) := by
    rintro m - hm
    rw [htake, arsMultiCksum_eq, bytes, hm, hl.lSize]
    rfl
  obtain ⟨ck, hck, hfill, hstored⟩ := (fills_ip (opts ++ up)).stored hl.lType
    (by rw [hl.lSize]; decide) (by rw [hl.lFlags, arsDonttake_zero]) arsCksum_lt hsum
  obtain ⟨hbyte, htot, hproto⟩ :=
    ip_fields hl.lType hl.lFlags (opts ++ up) (Except.ok.inj hfill).symm
  have haddr : (l.writeAll (ipAuto l (opts ++ up) ck)).slice 12 8 = l.slice 12 8 :=
    slice_writeAll_of_apart (span_ipAuto hl.lType _ hck ▸ rfl) (by rw [hl.lType]; decide)
  have hltype : (l.writeAll (ipAuto l (opts ++ up) ck)).lType = .ip := by
    rw [writeAll_lType, hl.lType]
  have hlsize : (l.writeAll (ipAuto l (opts ++ up) ck)).lSize = 20 := by
    rw [writeAll_lSize, hl.lSize]
    rfl
  generalize l.writeAll (ipAuto l (opts ++ up) ck) = l' at *
  have hlen : 20 ≤ l'.lData.length := hdr_le_of_lType hltype
  have hl20 : l.lSize = 20 := hl.lSize
  refine ⟨l', ?_, hlsize, ?_, ?_, ?_, ?_, hstored⟩
  · rw [arsLiCompiler, hl.lType]
    exact hfill
  · rw [htake] at hbyte
    rw [bytes_getD (by omega), hbyte, ipByte0, if_pos rfl, if_pos rfl, toNat_setLo, toNat_setHi]
    omega
  · have h16 := be16_putBe16 (20 + arsRelativeSize (opts ++ up))
    rw [slice_two (by omega), hl20, putBe16, List.cons.injEq, List.cons.injEq] at htot
    rw [bytes_getD (by omega), bytes_getD (by omega), htot.1, htot.2.1, h16]
  · rw [slice_one (by omega), arsIpProtocol_append htypes] at hproto
    rw [bytes_getD (by omega)]
    exact List.singleton_injective hproto
  · rw [bytes, List.drop_take, List.take_take, hlsize]
    exact haddr

theorem ip_agrees {opts : List ArsLayer} (hl : IsHeader .ip l) (hopts : IsOptions .ipopt opts)
    (hup : Upper false up m) (hfit : 20 + paddedSize opts + m ≤ 65535) :
    Agrees (l :: (opts ++ up)) := by
  obtain ⟨up', out, hokUp, hsizeUp, hclean, hdisUp⟩ := hup.agrees (parent_ip hl.lType hopts.lType)
  obtain ⟨hhead, hnext⟩ := hup.arsIpNextState (head?_arsCompileFrom hokUp)
  -- the options
  have hrun : runSize .ipopt [l] = 0 := by
    simp [runSize, hl.lType, arsRelativeSize]
  have hcompOpt : ∀ before l after, l.lType = .ipopt →
      arsLiCompiler before l after = .ok (arsCompilerOpt .ipopt 1 before l after) := by
    intro before l after hl
    rw [arsLiCompiler, hl]
    rfl
  obtain ⟨opts', os, hok, htypes, hbytes, hos, hsize⟩ :=
    hopts.compile hcompOpt hrun hhead hokUp
  have hsize' : arsRelativeSize opts' = paddedSize opts := by
    rw [← length_layersBytes, hbytes, hsize]
  have hpad := hopts.size
  have hmod := paddedSize_mod opts
  -- the header
  obtain ⟨l', hcomp, hl20, hb0, htot, hproto, haddrs, hstored⟩ :=
    ip_compiled hl htypes (hsize'.trans_le hpad) hhead
  have hh20 : l'.bytes.length = 20 := by rw [length_bytes, hl20]
  have hh : l'.bytes.length = ArsType.ip.hdrSize := hh20
  rw [hsize'] at hb0
  rw [arsRelativeSize_append, hsize', hsizeUp, Nat.mod_eq_of_lt (by omega)] at htot
  rw [hbytes] at hstored
  refine ⟨l' :: (opts' ++ up'), arsCompileFrom_cons.mpr ⟨l', _, hok, hcomp, rfl⟩,
    by rw [arsRelativeSize_cons]; omega, ?_⟩
  -- the bytes
  have hb : layersBytes (l' :: (opts' ++ up')) =
      l'.bytes ++ (os.flatten ++ layersBytes up') := by
    rw [layersBytes_cons, layersBytes_append, hbytes]
  rw [hb]
  generalize l'.bytes = h at *
  set rest := os.flatten ++ layersBytes up' with hrest
  have hlenRest : rest.length = paddedSize opts + m := by
    rw [hrest, List.length_append, hsize, length_layersBytes, hsizeUp]
  have hlen : (h ++ rest).length = 20 + paddedSize opts + m := by
    rw [List.length_append, hlenRest, hh20, Nat.add_assoc]
  have hst : splitFirstState (h ++ rest) 0 = .getIp := by
    rw [splitFirstState_append (by omega), if_neg (by omega)]
  have hdatagram : arsDatagramSize (h ++ rest) = (h ++ rest).length := by
    refine arsDatagramSize_ip hst (by omega) ?_
    rw [getD_append_left _ (by omega), getD_append_left _ (by omega), htot, hlen]
    exact (Nat.add_assoc _ _ _).symm
  obtain ⟨pkt', hhandle, haux⟩ := @handles_ip arsInit (fun _ => rfl) (by decide) h rest hh
    (by omega) (by omega)
  have hcover : (h ++ rest).take ((h.getD 0 0).toNat % 16 * 4) = h ++ os.flatten := by
    have hlen' : (h ++ os.flatten).length = (h.getD 0 0).toNat % 16 * 4 := by
      rw [List.length_append, hsize]
      omega
    rw [hrest, ← List.append_assoc, ← hlen', List.take_left]
  rw [hcover, cksumFlags_eq hstored] at hhandle
  have hext := hhandle.extends_
  have hnil := flatten_eq_nil hos
  have hstate : (if 5 < (h.getD 0 0).toNat % 16 then SplitState.getIpopt
      else arsIpNextState (h.getD 9 0).toNat) = if os = [] then upperState up else .getIpopt := by
    rw [hproto, hnext]
    split_ifs with h5 hos' hos'
    · rw [hos'] at hsize
      simp at hsize
      omega
    · rfl
    · rfl
    · have hpos := List.length_pos_of_ne_nil (mt hnil.mp hos')
      omega
  -- the options and the upper layer
  have hcount := length_le_length_flatten hos
  have hmax : arsMaxLayer = 256 := rfl
  have hlenPkt : pkt'.pLayer.length = 1 := hext.length
  have hoptLen : (optLayers .ipopt rfl os).length = os.length := length_optLayers _ _
  have hup' : ∀ pkt'', Extends pkt' (optLayers .ipopt rfl os) pkt'' →
      Dissects (upperState up) pkt'' (layersBytes up') out := by
    rintro pkt'' hext'
    refine hdisUp pkt'' (hext'.noDefault (hext.noDefault fun _ => rfl)) ?_ ?_
    · rw [hext'.layers, hext.layers, ← haddrs, List.reverse_append]
      exact parent_ip rfl fun o ho => by
        obtain ⟨_, -, rfl⟩ := List.mem_map.mp ho
        rfl
    · rw [hext'.length, hlenPkt]
      omega
  have hpos : os ≠ [] → 5 < (h.getD 0 0).toNat % 16 := fun hne => by
    have := List.length_pos_of_ne_nil (mt hnil.mp hne)
    omega
  have hdis := @dissects_area .ipopt rfl .getIpopt (upperState up)
    (fun pkt => arsIpNextState pkt.auxIpproto) (fun _ _ => rfl) (layersBytes up') out os pkt'
    (hext.noDefault fun _ => rfl) hos (by omega)
    (fun hne => by rw [(haux (hpos hne)).1, hsize]; omega)
    (fun pkt'' hne hp => by rw [hp, (haux (hpos hne)).2, hproto, hnext]) hup'
  rw [← hstate] at hdis
  obtain ⟨res, hsplit, hlayers, -, -⟩ := arsSplitPacket_of_handles arsInit_fresh (hst ▸ hhandle)
    rfl (by rw [hdatagram, List.take_length]) hdis
  refine ⟨res, hsplit, ?_⟩
  rw [hlayers]
  exact clean_cons_full _ rfl (clean_append (clean_optLayers _ os) hclean)

/-- **A compiled IPv6 header**, field by field. -/
theorem ip6_compiled (hl : IsHeader .ip6 l) (after : List ArsLayer) :
    ∃ l' : ArsLayer, arsLiCompiler [] l after = .ok l' ∧ l'.lSize = 40 ∧
      (l'.bytes.getD 0 0).toNat / 16 = 6 ∧
      be16 (l'.bytes.getD 4 0) (l'.bytes.getD 5 0) = arsRelativeSize after % 65536 ∧
      l'.bytes.getD 6 0 = UInt8.ofNat (arsIp6Nexthdr after) ∧
      (l'.bytes.drop 8).take 32 = (l.lData.drop 8).take 32 := by
  have hfill := arsCompilerIp6_eq hl.lType after
  have hspan := span_ip6Auto hl.lType after
  have haddr : (l.writeAll (ip6Auto l after)).slice 8 32 = l.slice 8 32 :=
    slice_writeAll_of_apart (hspan ▸ rfl) (by rw [hl.lType]; decide)
  have hltype : (l.writeAll (ip6Auto l after)).lType = .ip6 := by rw [writeAll_lType, hl.lType]
  have hlsize : (l.writeAll (ip6Auto l after)).lSize = 40 := by
    rw [writeAll_lSize, hl.lSize]
    rfl
  have hauto := auto_writeAll hspan
  generalize l.writeAll (ip6Auto l after) = l' at *
  have hlen : 40 ≤ l'.lData.length := hdr_le_of_lType hltype
  simp only [auto, hltype, ArsType.autoSpans, List.map_cons, List.map_nil, ip6Auto, hl.lFlags,
    arsDonttake_zero, if_true, List.cons.injEq, Prod.mk.injEq, true_and, and_true] at hauto
  obtain ⟨hword, hplen, hnext⟩ := hauto
  refine ⟨l', ?_, hlsize, ?_, ?_, ?_, ?_⟩
  · rw [arsLiCompiler, hl.lType]
    exact congrArg _ hfill
  · have hver := (ip6Fields_of_slice (by omega) hword).1
    rw [bytes_getD (by omega)]
    rw [ip6Version, verTcFl, be32, be16, be16] at hver
    have := (l'.byte 1).toNat_lt
    have := (l'.byte 2).toNat_lt
    have := (l'.byte 3).toNat_lt
    have := (l'.byte 0).toNat_lt
    omega
  · have h16 := be16_putBe16 (arsRelativeSize after)
    rw [slice_two (by omega), putBe16, List.cons.injEq, List.cons.injEq] at hplen
    rw [bytes_getD (by omega), bytes_getD (by omega), hplen.1, hplen.2.1, h16]
  · rw [slice_one (by omega)] at hnext
    rw [bytes_getD (by omega)]
    exact List.singleton_injective hnext
  · rw [bytes, List.drop_take, List.take_take, hlsize]
    exact haddr

theorem ip6_agrees (hl : IsHeader .ip6 l) (hup : Upper true up m) (hfit : 40 + m ≤ 65535) :
    Agrees (l :: up) := by
  obtain ⟨up', out, hokUp, hsizeUp, hclean, hdisUp⟩ :=
    hup.agrees ⟨l, [], rfl, hl.lType, rfl⟩
  obtain ⟨l', hcomp, hl40, hb0, hplen, hproto, haddrs⟩ := ip6_compiled hl up'
  have hnext := hup.arsIp6NextState (head?_arsCompileFrom hokUp)
  have hh40 : l'.bytes.length = 40 := by rw [length_bytes, hl40]
  have hh : l'.bytes.length = ArsType.ip6.hdrSize := hh40
  rw [hsizeUp, Nat.mod_eq_of_lt (by omega)] at hplen
  refine ⟨l' :: up', arsCompileFrom_cons.mpr ⟨l', _, hokUp, hcomp, rfl⟩,
    by rw [arsRelativeSize_cons]; omega, ?_⟩
  rw [layersBytes_cons]
  generalize l'.bytes = h at *
  generalize hrest : layersBytes up' = rest at *
  have hlen : (h ++ rest).length = 40 + m := by
    rw [List.length_append, ← hrest, length_layersBytes, hsizeUp, hh40]
  have hst : splitFirstState (h ++ rest) 0 = .getIp6 := by
    rw [splitFirstState_append (by omega), if_pos hb0]
  have hdatagram : arsDatagramSize (h ++ rest) = (h ++ rest).length := by
    refine arsDatagramSize_ip6 hst (by omega) ?_
    rw [getD_append_left _ (by omega), getD_append_left _ (by omega), hplen, hlen, Nat.add_comm]
  obtain ⟨pkt', hhandle⟩ := @handles_ip6 arsInit (fun _ => rfl) (by decide) h rest hh
  have hext := hhandle.extends_
  have hdis := hdisUp pkt' (hext.noDefault fun _ => rfl)
    ⟨full .ip6 0 h hh.ge, [], by rw [hext.layers]; rfl, rfl, haddrs⟩
    (by rw [hext.length, List.length_singleton]; exact (by decide : 0 + 1 ≤ 41))
  rw [← hnext, ← hproto] at hdis
  obtain ⟨res, hsplit, hlayers, -, -⟩ := arsSplitPacket_of_handles arsInit_fresh (hst ▸ hhandle)
    rfl (by rw [hdatagram, List.take_length]) hdis
  refine ⟨res, hsplit, ?_⟩
  rw [hlayers]
  exact clean_cons_full _ rfl hclean

end Network

/-- **The compilers and the dissector agree.** A packet with nothing set by hand – an IP
header and its options, or an IPv6 header; then TCP and its options, UDP, ICMP or
ICMPv6; then data – is compiled and built, and the bytes are dissected with no layer
truncated and no checksum wrong. -/
theorem compile_dissect_agree {pkt : ArsPacket} (h : Agreeable pkt) :
    ∃ out b res, arsCompile pkt = .ok out ∧ arsBuildPacket out = .ok b ∧
      arsSplitPacket b 0 arsInit = .ok res ∧
      ∀ l ∈ res.pLayer, l.lFlags &&& arsSplitFtrunc = 0 ∧ l.lFlags &&& arsSplitFbadcksum = 0 := by
  obtain ⟨v6, net, up, n, m, hlayers, hnet, hup, hfit⟩ := h.layers
  have hagrees : Agrees pkt.pLayer := by
    rw [hlayers]
    cases hnet with
    | ip hl hopts => exact ip_agrees hl hopts hup hfit
    | ip6 hl => exact ip6_agrees hl hup hfit
  obtain ⟨ls, hcomp, hne, res, hsplit, hclean⟩ := hagrees
  have hnr : ls.length ≤ arsMaxLayer := by
    rw [length_arsCompileFrom hcomp]
    exact pkt.nr_le
  refine ⟨{ pkt with pLayer := ls, nr_le := hnr }, layersBytes ls, res,
    arsCompile_eq_ok.mpr ⟨hcomp, rfl, rfl, rfl, rfl⟩, if_neg hne, hsplit, ?_⟩
  rintro l hl
  rw [hclean l hl, Nat.zero_and, Nat.zero_and]
  exact ⟨rfl, rfl⟩

/-- An IP header and a UDP header. -/
theorem compile_dissect_agree_ipUdp :
    ∃ out b res, arsCompile ipUdpPacket = .ok out ∧ arsBuildPacket out = .ok b ∧
      arsSplitPacket b 0 arsInit = .ok res ∧
      ∀ l ∈ res.pLayer, l.lFlags &&& arsSplitFtrunc = 0 ∧
        l.lFlags &&& arsSplitFbadcksum = 0 :=
  compile_dissect_agree
    { layers := ⟨false, _, _, _, _, rfl,
        @Network.ip _ [] ⟨rfl, rfl, rfl⟩
          ⟨by simp, by simp, by simp, by decide⟩,
        @Upper.udp false _ [] ⟨rfl, rfl, rfl⟩ ⟨by simp, by simp, by simp⟩, by decide⟩ }

end StyxWire
