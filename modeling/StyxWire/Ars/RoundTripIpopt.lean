import StyxWire.Ars.Ipopt

/-!
# The round trip of IP options

Datagrams of IPv4 with options and data, described and built again. What comes back are options of
one byte, ends and no-operations, and nothing else (`StyxWire.ipopt_roundTrips_iff`).

The lengths do not settle it, since data that is printed as a string can come back shorter than it
was. What is built from a longer option has the length byte 34 or 35, which has to be that of the
option, and five or six zeros where the option ends. These can only be ends of the option list, as
many as there are, and the first bytes of the data (`StyxWire.payload_of_long`). The data would be
what it is read back as, with something in front (`StyxWire.ne_append_self`).
-/

namespace StyxWire

open Mem Text ArsLayer

/-! ### Datagrams with options -/

/-- The datagram of an IPv4 header with options, and data. -/
structure OptionsDatagram (buf ip : List UInt8) (opts : List (List UInt8))
    (payload : List UInt8) : Prop extends Ipv4Datagram buf ip (opts.flatten ++ payload) where
  opts_ne_nil : opts ≠ []
  ihl : (ip.getD 0 0).toNat % 16 * 4 = 20 + opts.flatten.length
  wellFormed : ∀ o ∈ opts, WellFormedOpt o
  protocol : arsIpNextState (ip.getD 9 0).toNat = .getData

theorem OptionsDatagram.dissects {buf ip : List UInt8} {opts : List (List UInt8)}
    {payload : List UInt8} (h : OptionsDatagram buf ip opts payload) :
    DissectsAs ip (opts.flatten ++ payload) h.length fun ls =>
      ls = opts.map ipoptLayer ++ dataLayers payload := by
  rintro f pkt hdef hls haux
  have hne := h.opts_ne_nil
  have hihl := h.ihl
  have hpos := List.length_pos_of_ne_nil (mt (flatten_eq_nil h.wellFormed).mp hne)
  have hcount := length_le_length_flatten h.wellFormed
  have hbyte := (ip.getD 0 0).toNat_lt
  have hmax : arsMaxLayer = 256 := rfl
  obtain ⟨haux, hproto⟩ := haux (by omega)
  have hroom : pkt.pLayer.length + opts.length < arsMaxLayer := by
    rw [hls, List.length_singleton]
    omega
  -- behind the options the area is used up, and the protocol is looked at again
  have hrest : ∀ pkt', Extends pkt (optLayers .ipopt rfl opts) pkt' →
      Dissects .getData pkt' payload (dataLayers payload) := by
    intro pkt' hext
    have hlen : (optLayers .ipopt rfl opts).length = opts.length := length_optLayers _ _
    refine dissects_payload (hext.noDefault hdef) ?_ payload fun _ => rfl
    rw [hext.length]
    exact hlen ▸ hroom
  have hdis := @dissects_area .ipopt rfl .getIpopt .getData
    (fun pkt => arsIpNextState pkt.auxIpproto) (fun _ _ => rfl) payload (dataLayers payload) opts
    pkt hdef h.wellFormed hroom.le (fun _ => by omega)
    (fun pkt' _ hp => by rw [hp, hproto, h.protocol]) hrest
  rw [if_neg hne] at hdis
  rw [if_pos (by omega)]
  exact ⟨_, rfl, hdis⟩

/-- **The layers of such a datagram.** -/
theorem OptionsDatagram.layers_eq {buf ip : List UInt8} {opts : List (List UInt8)}
    {payload : List UInt8} (h : OptionsDatagram buf ip opts payload) {fresh pkt : ArsPacket}
    (hfresh : fresh.Fresh) (hsplit : arsSplitPacket buf 0 fresh = .ok pkt) :
    ∃ f, pkt.pLayer = ipLayer f ip h.length :: (opts.map ipoptLayer ++ dataLayers payload) ∧
      pkt.NoDefault ∧ pkt.pOptions = fresh.pOptions := by
  have hihl := h.ihl
  obtain ⟨f, ls, rfl, hls, hdef, hopt⟩ := h.layers (by omega)
    (by rw [List.length_append]; omega) hfresh hsplit h.dissects
  exact ⟨f, hls, hdef, hopt⟩

/-! ### What cannot come back -/

/-- Options that are zeros are ends of the option list. -/
theorem opts_of_zeros {os : List (List UInt8)} (hos : ∀ o ∈ os, WellFormedOpt o) {m : ℕ}
    {x p : List UInt8} (hm : os.flatten.length ≤ m)
    (h : List.replicate m 0 ++ x = os.flatten ++ p) : ∀ o ∈ os, o = [0] := by
  induction os generalizing m with
  | nil => exact fun _ ho => absurd ho List.not_mem_nil
  | cons o os ih =>
    have ho := hos o List.mem_cons_self
    have hpos := ho.pos
    rw [List.flatten_cons, List.length_append] at hm
    obtain ⟨m, rfl⟩ : ∃ k, m = k + 1 := ⟨m - 1, by omega⟩
    obtain ⟨b, t, rfl⟩ := List.exists_cons_of_ne_nil ho.1
    rw [List.replicate_succ, List.flatten_cons, List.cons_append, List.cons_append,
      List.cons_append] at h
    obtain ⟨hb, hrest⟩ := List.cons.inj h
    subst hb
    have hone := ho.byteAt_zero.mpr (Or.inl rfl)
    obtain rfl := List.length_eq_zero_iff.mp (Nat.succ.inj hone)
    refine List.forall_mem_cons.mpr ⟨rfl, ?_⟩
    rw [List.length_singleton] at hm
    exact ih (fun o ho => hos o (List.mem_cons_of_mem _ ho)) (m := m) (by omega) hrest

/-- The options of one byte are built again. -/
theorem layersBytes_short {os : List (List UInt8)} {ls : List ArsLayer}
    (h : List.Forall₂ Rebuilt os ls) (hos : ∀ o ∈ os, o.length = 1) :
    layersBytes ls = os.flatten := by
  induction h with
  | nil => rfl
  | cons hl _ ih =>
    obtain ⟨ho, hos⟩ := List.forall_mem_cons.mp hos
    rw [layersBytes_cons, hl.short ho, ih hos, List.flatten_cons]

/-- **An option that is longer than one byte** is not built again: the bytes of what is built come
out right only if the payload begins with the zeros it has too many. -/
theorem payload_of_long {os : List (List UInt8)} {ls : List ArsLayer}
    (h : List.Forall₂ Rebuilt os ls) (hos : ∀ o ∈ os, WellFormedOpt o)
    (hlen : os.flatten.length ≤ 40) (hlong : ¬∀ o ∈ os, o.length = 1) {r p : List UInt8}
    (heq : layersBytes ls ++ r = os.flatten ++ p) : ∃ k, p = List.replicate (k + 1) 0 ++ r := by
  induction h with
  | nil => exact absurd (fun _ ho => absurd ho List.not_mem_nil) hlong
  | @cons o l os ls hl hls ih =>
    obtain ⟨ho, hos⟩ := List.forall_mem_cons.mp hos
    rw [layersBytes_cons, List.flatten_cons, List.append_assoc, List.append_assoc] at heq
    rw [List.flatten_cons, List.length_append] at hlen
    by_cases h1 : o.length = 1
    · -- the option is built again, so it is one of the others
      rw [hl.short h1] at heq
      refine ih hos (by omega) (fun hall => hlong ?_) (List.append_cancel_left heq)
      exact List.forall_mem_cons.mpr ⟨h1, hall⟩
    · obtain ⟨h40, hbyte, hzero⟩ := hl.long h1
      have hpos := ho.pos
      -- the length byte that is built is that of the option
      have hone : byteAt 1 l.bytes = o.length := by
        rw [← ho.byteAt_one (by omega), byteAt, byteAt,
          ← getD_append_left (layersBytes ls ++ r) (by omega), heq, getD_append_left _ (by omega)]
      have htake : l.bytes.take o.length = o := by
        have := congrArg (List.take o.length) heq
        rwa [List.take_append_of_le_length (by omega), List.take_left] at this
      have hrest : List.replicate (40 - o.length) 0 ++ (layersBytes ls ++ r) = os.flatten ++ p := by
        rw [← List.take_append_drop o.length l.bytes, htake, hzero, List.append_assoc] at heq
        exact List.append_cancel_left heq
      have hall := opts_of_zeros hos (by omega) hrest
      have hshort : ∀ o ∈ os, o.length = 1 := fun o ho => by rw [hall o ho, List.length_singleton]
      have hflat : os.flatten = List.replicate os.length 0 := by
        rw [← List.flatten_replicate_singleton, ← List.eq_replicate_of_mem hall]
      rw [layersBytes_short hls hshort, hflat, ← List.append_assoc, List.replicate_append_replicate,
        Nat.add_comm, ← List.replicate_append_replicate, List.append_assoc] at hrest
      refine ⟨39 - o.length, ?_⟩
      rw [← List.append_cancel_left hrest]
      congr 2
      omega

/-- A map that keeps what is in front has no value that is its own, with something in front. -/
theorem ne_append_self {α : Type*} {f : List α → List α} {z : List α} (hz : z ≠ [])
    (hf : ∀ x, f (z ++ x) = z ++ f x) (x : List α) : x ≠ z ++ f x := by
  induction hn : x.length using Nat.strong_induction_on generalizing x with
  | _ n ih =>
    intro heq
    have hlen := congrArg List.length heq
    have hpos := List.length_pos_of_ne_nil hz
    rw [List.length_append] at hlen
    refine ih (f x).length (by omega) (f x) rfl ?_
    calc f x = f (z ++ f x) := congrArg f heq
      _ = z ++ f (f x) := hf (f x)

/-! ### The description of a datagram -/

/-- **The round trip of a packet whose description may not be one**: its values have to be words. -/
theorem roundTrips_iff_of_plain {libc : Libc} {pkt : ArsPacket} {ds : List LayerDesc}
    (h : List.Forall₂ (Writes libc pkt) pkt.pLayer ds) (hplain : ∀ d ∈ ds, d.Plain)
    (hne : pkt.pLayer ≠ []) {bytes : List UInt8} (hbytes : bytes ≠ []) :
    RoundTrips libc pkt bytes ↔ (∀ d ∈ ds, d.Wf) ∧ ∃ ls out, List.Forall₂ (Builds libc) ds ls ∧
      arsCompileFrom [] ls = .ok out ∧ layersBytes out = bytes := by
  have hprints : (∀ d ∈ ds, d.Wf) → List.Forall₂ (Prints libc pkt) pkt.pLayer ds := by
    intro hwf
    have hmem := List.forall₂_iff_zip.mp h
    exact List.forall₂_iff_zip.mpr ⟨hmem.1, fun hab =>
      ⟨hmem.2 hab, hwf _ (List.of_mem_zip hab).2⟩⟩
  constructor
  · intro hround
    have hlen : ds.length ≤ arsMaxLayer := h.length_eq ▸ pkt.nr_le
    obtain ⟨built, out, hbuild, -⟩ := (roundTrips_iff_text (arsRapdLayers_eq h)).mp hround
    have hwf := wf_of_arsDBuild hplain hlen hbuild
    exact ⟨hwf, (roundTrips_iff (hprints hwf) hne hbytes).mp hround⟩
  · rintro ⟨hwf, hbuilds⟩
    exact (roundTrips_iff (hprints hwf) hne hbytes).mpr hbuilds

/-- The descriptions of a payload. -/
def payloadDescs (hex : Bool) (d : List UInt8) : List LayerDesc :=
  if d = [] then [] else [dataDesc hex d]

theorem payloadDescs_wf_iff (hex : Bool) (d : List UInt8) :
    (∀ e ∈ payloadDescs hex d, e.Wf) ↔ (dataText hex d).length < arsMaxTsize := by
  rw [payloadDescs]
  split_ifs with hnil
  · subst hnil
    exact iff_of_true (fun _ he => absurd he List.not_mem_nil) (by cases hex <;> decide)
  · rw [List.forall_mem_singleton]
    exact dataDesc_wf_iff hex hnil

/-- **What is built from the description of a payload.** -/
theorem payload_builds (libc : Libc) (hex : Bool) (d : List UInt8) :
    ∃ ls, List.Forall₂ (Builds libc) (payloadDescs hex d) ls ∧ (∀ l ∈ ls, l.lType = .data) ∧
      layersBytes ls = dataRead hex d := by
  rw [payloadDescs]
  split_ifs with hnil
  · subst hnil
    exact ⟨[], .nil, fun _ hl => absurd hl List.not_mem_nil, by cases hex <;> rfl⟩
  · obtain ⟨l, hl, htype, hbytes⟩ := builds_data libc hex hnil
    refine ⟨[l], .cons hl .nil, List.forall_mem_singleton.mpr htype, ?_⟩
    rw [layersBytes_cons, layersBytes_nil, List.append_nil, hbytes]

theorem payload_writes (libc : Libc) {pkt : ArsPacket} {hex : Bool}
    (hhex : arsTestOption pkt arsOptRapdHexdata = hex) (d : List UInt8) :
    List.Forall₂ (Writes libc pkt) (dataLayers d) (payloadDescs hex d) := by
  rw [dataLayers, payloadDescs]
  split_ifs with hnil
  · exact .nil
  · exact .cons (writes_data libc hhex d) .nil

/-- **What the layers that are built are compiled to.** -/
theorem compile_options {ip : List UInt8} (hip : ip.length = 20) {os ds : List ArsLayer}
    (hos : ∀ l ∈ os, l.lType = .ipopt) (hds : ∀ l ∈ ds, l.lType = .data) :
    ∃ out, arsCompileFrom [] (ipLayer 31 ip hip :: (os ++ ds)) = .ok out ∧
      layersBytes out = ip ++ (layersBytes os ++
        (List.replicate (padding (layersBytes os).length) 1 ++ layersBytes ds)) := by
  have hkip : Kept (ipLayer 31 ip hip) := kept_ip rfl rfl
  have hcomp : ∀ (before : List ArsLayer) (l : ArsLayer) (after : List ArsLayer),
      l.lType = .ipopt → arsLiCompiler before l after =
        .ok (arsCompilerOpt .ipopt arsIpoptNoop before l after) := by
    rintro before l after hl
    rw [arsLiCompiler, hl]
    rfl
  have hrun : runSize .ipopt [ipLayer 31 ip hip] = 0 := rfl
  obtain ⟨os', hok, hbytes⟩ := compile_opts_data hcomp (by decide) hos hds hrun
  refine ⟨ipLayer 31 ip hip :: (os' ++ ds),
    arsCompileFrom_cons.mpr ⟨_, _, hok, hkip _ _, rfl⟩, ?_⟩
  rw [layersBytes_cons, layersBytes_append, hbytes, List.append_assoc]
  exact congrArg (· ++ _) List.take_length

/-- The description of a datagram. -/
def optionsDescs (hex : Bool) (ip : List UInt8) (opts : List (List UInt8)) (payload : List UInt8) :
    List LayerDesc :=
  ipDesc ip :: (opts.map ipoptDesc ++ payloadDescs hex payload)

section Result

variable {libc : Libc} {buf ip payload : List UInt8} {opts : List (List UInt8)}
  {fresh pkt : ArsPacket}

theorem OptionsDatagram.length_le (h : OptionsDatagram buf ip opts payload) :
    opts.flatten.length ≤ 40 ∧ opts.flatten.length % 4 = 0 := by
  have hihl := h.ihl
  omega

theorem OptionsDatagram.opt_length_le (h : OptionsDatagram buf ip opts payload) :
    ∀ o ∈ opts, o.length ≤ 40 := fun _ ho =>
  (List.sublist_flatten_of_mem ho).length_le.trans h.length_le.1

/-- **The text of a datagram is that of its description.** -/
theorem OptionsDatagram.writes (h : OptionsDatagram buf ip opts payload) (hfresh : fresh.Fresh)
    (hsplit : arsSplitPacket buf 0 fresh = .ok pkt) (libc : Libc) :
    List.Forall₂ (Writes libc pkt) pkt.pLayer
        (optionsDescs (arsTestOption fresh arsOptRapdHexdata) ip opts payload) ∧
      pkt.pLayer ≠ [] := by
  obtain ⟨f, hls, hdef, hopt⟩ := h.layers_eq hfresh hsplit
  have hhex : arsTestOption pkt arsOptRapdHexdata = arsTestOption fresh arsOptRapdHexdata := by
    rw [arsTestOption, hopt]
    rfl
  have hw : Whole .ip (ipLayer f ip h.length) := ⟨rfl, h.length, h.length⟩
  have hopts : List.Forall₂ (Writes libc pkt) (opts.map ipoptLayer) (opts.map ipoptDesc) := by
    rw [List.forall₂_map_left_iff, List.forall₂_map_right_iff, List.forall₂_same]
    exact fun o ho => writes_ipopt libc pkt (h.wellFormed o ho) (h.opt_length_le o ho)
  rw [hls]
  exact ⟨.cons (prints_ip libc hdef hw).writes
    (List.rel_append hopts (payload_writes libc hhex payload)), List.cons_ne_nil _ _⟩

theorem optionsDescs_wf_iff (hex : Bool) (ip payload : List UInt8) (opts : List (List UInt8)) :
    (∀ d ∈ optionsDescs hex ip opts payload, d.Wf) ↔
      (ipDesc ip).Wf ∧ (∀ o ∈ opts, (ipoptDesc o).Wf) ∧
        (dataText hex payload).length < arsMaxTsize := by
  rw [optionsDescs, List.forall_mem_cons, List.forall_mem_append, List.forall_mem_map,
    payloadDescs_wf_iff]

/-- **The round trip of a datagram with options**, in terms of its description. -/
theorem OptionsDatagram.roundTrips_iff_builds (h : OptionsDatagram buf ip opts payload)
    (hfresh : fresh.Fresh) (hsplit : arsSplitPacket buf 0 fresh = .ok pkt) {hex : Bool}
    (hhex : arsTestOption fresh arsOptRapdHexdata = hex) :
    RoundTrips libc pkt (ip ++ opts.flatten ++ payload) ↔
      (∀ d ∈ optionsDescs hex ip opts payload, d.Wf) ∧
        ∃ ls out, List.Forall₂ (Builds libc) (optionsDescs hex ip opts payload) ls ∧
          arsCompileFrom [] ls = .ok out ∧ layersBytes out = ip ++ opts.flatten ++ payload := by
  have hplain : ∀ d ∈ optionsDescs hex ip opts payload, d.Plain := by
    refine List.forall_mem_cons.mpr ⟨(ipDesc_wf h.length).plain,
      List.forall_mem_append.mpr ⟨?_, ?_⟩⟩
    · exact List.forall_mem_map.mpr fun o _ => ipoptDesc_plain o
    · rw [payloadDescs]
      split_ifs
      · exact fun _ hd => absurd hd List.not_mem_nil
      · exact List.forall_mem_singleton.mpr (dataDesc_plain hex payload)
  obtain ⟨hwrites, hne⟩ := h.writes hfresh hsplit libc
  rw [hhex] at hwrites
  refine roundTrips_iff_of_plain hwrites hplain hne (List.ne_nil_of_length_pos ?_)
  have := h.length
  simp only [List.length_append]
  omega

/-- **What is built from the description**, and what it is compiled to: what is built from the
options, their padding, and the data as it is read back. -/
theorem OptionsDatagram.built (hlibc : libc.Inverts) (h : OptionsDatagram buf ip opts payload)
    {hex : Bool} (hwf : ∀ o ∈ opts, (ipoptDesc o).Wf) {ls : List ArsLayer}
    (hls : List.Forall₂ (Builds libc) (optionsDescs hex ip opts payload) ls) :
    ∃ lo, List.Forall₂ Rebuilt opts lo ∧ ∃ out, arsCompileFrom [] ls = .ok out ∧
      layersBytes out = ip ++ (layersBytes lo ++
        (List.replicate (padding (layersBytes lo).length) 1 ++ dataRead hex payload)) := by
  have hfun : Relator.RightUnique (Builds libc) := fun _ _ _ h h' => Except.ok.inj (h.symm.trans h')
  obtain ⟨lip, lrest, hlip, hrest, rfl⟩ := List.forall₂_cons_left_iff.mp hls
  obtain rfl : ipLayer 31 ip h.length = lip := hfun (builds_ipLayer hlibc h.length) hlip
  obtain ⟨lo, ld, hlo, hld, rfl⟩ := exists_append_of_forall₂ hrest
  obtain ⟨ld', hbuilds, htype, hread⟩ := payload_builds libc hex payload
  obtain rfl : ld = ld' := List.right_unique_forall₂' hfun hld hbuilds
  have hrebuilt : List.Forall₂ Rebuilt opts lo := by
    rw [List.forall₂_map_left_iff] at hlo
    refine List.forall₂_iff_zip.mpr ⟨hlo.length_eq, fun hab => ?_⟩
    have ho := (List.of_mem_zip hab).1
    exact rebuilt_of_builds (h.wellFormed _ ho) (h.opt_length_le _ ho) (hwf _ ho)
      (List.forall₂_zip hlo hab)
  have htypes : ∀ l ∈ lo, l.lType = .ipopt := by
    intro l hl
    obtain ⟨o, ho⟩ := exists_of_forall₂_of_mem hrebuilt hl
    exact ho.lType
  obtain ⟨out, hcompile, hbytes⟩ := compile_options h.length htypes htype
  exact ⟨lo, hrebuilt, out, hcompile, hread ▸ hbytes⟩

/-- **What comes back are options of one byte**, and data that can be read back. -/
theorem OptionsDatagram.of_roundTrips (hlibc : libc.Inverts)
    (h : OptionsDatagram buf ip opts payload) (hfresh : fresh.Fresh)
    (hsplit : arsSplitPacket buf 0 fresh = .ok pkt) {hex : Bool}
    (hhex : arsTestOption fresh arsOptRapdHexdata = hex)
    (hround : RoundTrips libc pkt (ip ++ opts.flatten ++ payload)) :
    (∀ o ∈ opts, o.length = 1) ∧ Readable hex payload := by
  obtain ⟨hwf, ls, out, hls, hcompile, hbytes⟩ :=
    (h.roundTrips_iff_builds hfresh hsplit hhex).mp hround
  obtain ⟨-, hwfopts, hfits⟩ := (optionsDescs_wf_iff hex ip payload opts).mp hwf
  obtain ⟨lo, hrebuilt, out', hcompile', hbytes'⟩ := h.built hlibc hwfopts hls
  obtain rfl : out' = out := Except.ok.inj (hcompile'.symm.trans hcompile)
  rw [hbytes', List.append_assoc] at hbytes
  have heq := List.append_cancel_left hbytes
  obtain ⟨hle, hmod⟩ := h.length_le
  have hshort : ∀ o ∈ opts, o.length = 1 := by
    by_contra hlong
    obtain ⟨k, hk⟩ := payload_of_long hrebuilt h.wellFormed hle hlong heq
    -- the payload would be what it is read back as, with something in front
    rw [← List.append_assoc] at hk
    refine ne_append_self (f := dataRead hex) ?_ (fun x => dataRead_append hex ?_ x) payload hk
    · exact List.append_ne_nil_of_left_ne_nil (List.cons_ne_nil _ _) _
    · intro b hb
      rcases List.mem_append.mp hb with hb | hb
      · rw [List.eq_of_mem_replicate hb]
        decide
      · rw [List.eq_of_mem_replicate hb]
        decide
  have hpad : padding opts.flatten.length = 0 := by
    rw [padding]
    omega
  rw [layersBytes_short hrebuilt hshort, hpad, List.replicate_zero, List.nil_append] at heq
  exact ⟨hshort, hfits, (dataRead_eq_iff hex payload).mp (List.append_cancel_left heq)⟩

/-- **Options of one byte come back**, with data that can be read back. -/
theorem OptionsDatagram.roundTrips (hlibc : libc.Inverts)
    (h : OptionsDatagram buf ip opts payload) (hfresh : fresh.Fresh)
    (hsplit : arsSplitPacket buf 0 fresh = .ok pkt) {hex : Bool}
    (hhex : arsTestOption fresh arsOptRapdHexdata = hex) (hshort : ∀ o ∈ opts, o.length = 1)
    (hread : Readable hex payload) : RoundTrips libc pkt (ip ++ opts.flatten ++ payload) := by
  obtain ⟨hfits, hback⟩ := hread
  have hopts := fun o ho => builds_short libc (h.wellFormed o ho) (hshort o ho)
  have hwfopts : ∀ o ∈ opts, (ipoptDesc o).Wf := fun o ho => (hopts o ho).1
  obtain ⟨lo, hlo⟩ : ∃ lo, List.Forall₂ (Builds libc) (opts.map ipoptDesc) lo :=
    exists_forall₂ (List.forall_mem_map.mpr fun o ho => (hopts o ho).2)
  obtain ⟨ld, hld, -⟩ := payload_builds libc hex payload
  have hls : List.Forall₂ (Builds libc) (optionsDescs hex ip opts payload)
      (ipLayer 31 ip h.length :: (lo ++ ld)) :=
    .cons (builds_ipLayer hlibc h.length) (List.rel_append hlo hld)
  obtain ⟨lo', hrebuilt, out, hcompile, hbytes⟩ := h.built hlibc hwfopts hls
  have hpad : padding opts.flatten.length = 0 := by
    have hmod := h.length_le.2
    rw [padding]
    omega
  have hwf := (optionsDescs_wf_iff hex ip payload opts).mpr ⟨ipDesc_wf h.length, hwfopts, hfits⟩
  have hout : layersBytes out = ip ++ opts.flatten ++ payload := by
    rw [hbytes, layersBytes_short hrebuilt hshort, hpad, List.replicate_zero, List.nil_append,
      (dataRead_eq_iff hex payload).mpr hback, List.append_assoc]
  rw [h.roundTrips_iff_builds hfresh hsplit hhex]
  exact ⟨hwf, _, out, hls, hcompile, hout⟩

/-- **Describe and build, for IPv4 with options**: a datagram is given back just if all its options
are ends and no-operations, and its data can be read back. -/
theorem ipopt_roundTrips_iff (hlibc : libc.Inverts) (h : OptionsDatagram buf ip opts payload)
    (hfresh : fresh.Fresh) (hsplit : arsSplitPacket buf 0 fresh = .ok pkt) :
    RoundTrips libc pkt (ip ++ opts.flatten ++ payload) ↔
      (∀ o ∈ opts, o.length = 1) ∧ Readable (arsTestOption fresh arsOptRapdHexdata) payload :=
  ⟨h.of_roundTrips hlibc hfresh hsplit rfl, fun ⟨hshort, hread⟩ =>
    h.roundTrips hlibc hfresh hsplit rfl hshort hread⟩

end Result

/-! ### Two datagrams -/

/-- The header of a datagram of the experimental protocol 253, of `words` words and `size` bytes. -/
def optionsIp (words size : ℕ) : List UInt8 :=
  [UInt8.ofNat (64 + words), 0, 0, UInt8.ofNat size, 0, 1, 0x40, 0, 64, 253, 0, 0, 10, 0, 0, 1,
    10, 0, 0, 2]

/-- Options of one byte. -/
def nopOptions : List (List UInt8) := [[1], [1], [1], [0]]

/-- A record route with room for one address, and the end. -/
def routeOptions : List (List UInt8) := [[7, 7, 4, 0, 0, 0, 0], [0]]

/-- The packet that a datagram with such options and the data `hi` is dissected to. -/
def optionsPacket (ip : List UInt8) (hip : ip.length = 20) (opts : List (List UInt8))
    (h : 2 + opts.length ≤ 256) : ArsPacket :=
  { arsInit with
    pLayer := ipLayer 2 ip hip :: (opts.map ipoptLayer ++ dataLayers (lit "hi"))
    auxIpproto := 253
    nr_le := by
      have hmax : arsMaxLayer = 256 := rfl
      have hdata : (dataLayers (lit "hi")).length = 1 := rfl
      rw [List.length_cons, List.length_append, List.length_map, hdata]
      omega }

set_option maxRecDepth 10000 in
/-- No-operations and an end come back. -/
theorem ipopt_roundTrips_nops :
    RoundTrips numericLibc (optionsPacket (optionsIp 6 26) rfl nopOptions (by decide))
      (optionsIp 6 26 ++ nopOptions.flatten ++ lit "hi") :=
  (@ipopt_roundTrips_iff numericLibc (optionsIp 6 26 ++ (nopOptions.flatten ++ lit "hi"))
    (optionsIp 6 26) (lit "hi") nopOptions arsInit _ numericLibc_inverts
    ⟨⟨rfl, rfl, by decide⟩, List.cons_ne_nil _ _, rfl, by decide, rfl⟩ ⟨rfl, fun _ => rfl⟩ rfl).mpr
    ⟨by decide, by decide, by decide⟩

set_option maxRecDepth 10000 in
/-- A record route does not: it is built with room for nine addresses. -/
theorem route_not_roundTrips :
    OptionsDatagram (optionsIp 7 30 ++ (routeOptions.flatten ++ lit "hi")) (optionsIp 7 30)
        routeOptions (lit "hi") ∧
      arsSplitPacket (optionsIp 7 30 ++ (routeOptions.flatten ++ lit "hi")) 0 arsInit =
        .ok (optionsPacket (optionsIp 7 30) rfl routeOptions (by decide)) ∧
      ¬RoundTrips numericLibc (optionsPacket (optionsIp 7 30) rfl routeOptions (by decide))
        (optionsIp 7 30 ++ routeOptions.flatten ++ lit "hi") := by
  have h : OptionsDatagram (optionsIp 7 30 ++ (routeOptions.flatten ++ lit "hi")) (optionsIp 7 30)
      routeOptions (lit "hi") :=
    ⟨⟨rfl, rfl, by decide⟩, List.cons_ne_nil _ _, rfl, by decide, rfl⟩
  refine ⟨h, rfl, fun hround => ?_⟩
  have hshort := (@OptionsDatagram.of_roundTrips _ _ _ _ _ arsInit _ numericLibc_inverts h
    ⟨rfl, fun _ => rfl⟩ rfl _ rfl hround).1
  exact absurd hshort (by decide)

end StyxWire
