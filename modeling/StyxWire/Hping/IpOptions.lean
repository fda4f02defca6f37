import StyxWire.Ars.RoundTrip

/-!
# Source routes and the record route

The IP options of the probes: `parse_route` (`parseoptions.c`) reads a route, `ip_opt_build`
(`ip_opt_build.c`) puts the options one behind the other in an area of 40 bytes, and
`display_ipopt` (`display_ipopt.c`) walks along such an area. Its output is not modelled, only
where the walk goes.

Where all of what is asked for does not fit, an option is left out, and its flag is reset. What
is built is the options that are kept, padding, and one byte that ends the list
(`StyxWire.Hping.route_options_encoded`). The record route takes all the room that is left, so
its length is not that of a list of addresses if there is another option in front of it.
-/

namespace StyxWire.Hping

open Mem Text

/-! ### Reading a route -/

/-- What the options `--lsrr`, `--ssrr` and `--rroute` set. -/
structure RouteConfig where
  /-- `--lsrr`. -/
  optLsrr : Bool
  /-- `--ssrr`. -/
  optSsrr : Bool
  /-- `--rroute`. -/
  optRroute : Bool
  /-- The loose source route. -/
  lsr : List UInt8
  /-- The strict source route. -/
  ssr : List UInt8
  /-- The length of the loose source route. -/
  lsrLength : ℕ
  /-- The length of the strict source route. -/
  ssrLength : ℕ

/-- `hping_config_init`. -/
def RouteConfig.init : RouteConfig :=
  ⟨false, false, false, List.replicate 255 0, List.replicate 255 0, 0, 0⟩

/-- `IPOPT_LSRR`. -/
def ipoptLsrr : UInt8 := 131

/-- `IPOPT_SSRR`. -/
def ipoptSsrr : UInt8 := 137

/-- `IPOPT_RR`. -/
def ipoptRr : UInt8 := 7

/-- `ip_opt_build`, on its way: the area, the bytes of it in use, and the flags. -/
structure IpOptArea where
  /-- The flags, and the routes. -/
  cfg : RouteConfig
  /-- `ip_opt`. -/
  ipOpt : List UInt8
  /-- `optlen`. It is 40 at most, so it does not matter that it has 8 bits. -/
  optlen : ℕ

/-- The loose source route. -/
def IpOptArea.addLsrr (b : IpOptArea) : IpOptArea :=
  if b.cfg.optLsrr then
    if b.cfg.lsrLength ≤ 39 then
      { b with
        ipOpt := writeAt b.ipOpt 0 (b.cfg.lsr.take b.cfg.lsrLength)
        optlen := b.optlen + b.cfg.lsrLength }
    else { b with cfg := { b.cfg with optLsrr := false } }
  else b

/-- The strict source route. -/
def IpOptArea.addSsrr (b : IpOptArea) : IpOptArea :=
  if b.cfg.optSsrr then
    if b.cfg.ssrLength + b.optlen ≤ 39 then
      { b with
        ipOpt := writeAt b.ipOpt b.optlen (b.cfg.ssr.take b.cfg.ssrLength)
        optlen := b.optlen + b.cfg.ssrLength }
    else { b with cfg := { b.cfg with optSsrr := false } }
  else b

/-- The record route. -/
def IpOptArea.addRroute (b : IpOptArea) : IpOptArea :=
  if b.cfg.optRroute then
    if b.optlen ≤ 33 then
      { b with
        ipOpt := writeAt b.ipOpt b.optlen [ipoptRr, UInt8.ofNat (39 - b.optlen), 8, 1, 2, 3, 4]
        optlen := 39 }
    else { b with cfg := { b.cfg with optRroute := false } }
  else b

/-- The terminator. -/
def IpOptArea.finish (b : IpOptArea) : IpOptArea :=
  if b.optlen = 0 then b
  else
    let optlen := (b.optlen + 3) / 4 * 4
    { b with ipOpt := writeAt b.ipOpt (optlen - 1) [0], optlen := optlen }

/-- `ip_opt_build`. -/
def ipOptBuild (cfg : RouteConfig) : IpOptArea :=
  (IpOptArea.mk cfg (List.replicate 40 1) 0).addLsrr.addSsrr.addRroute.finish

/-- The options that are sent. -/
def IpOptArea.options (b : IpOptArea) : List UInt8 := b.ipOpt.take b.optlen

/-- The area keeps its size. -/
theorem length_ipOpt_ipOptBuild (cfg : RouteConfig) :
    (ipOptBuild cfg).ipOpt.length = 40 ∧ (ipOptBuild cfg).optlen ≤ 40 := by
  have hlsrr : ∀ b : IpOptArea, b.ipOpt.length = 40 ∧ b.optlen = 0 →
      b.addLsrr.ipOpt.length = 40 ∧ b.addLsrr.optlen ≤ 39 := by
    rintro b ⟨hlen, hzero⟩
    rw [IpOptArea.addLsrr]
    split_ifs
    · exact ⟨by rw [length_writeAt, hlen], by dsimp only; omega⟩
    · exact ⟨hlen, by dsimp only; omega⟩
    · exact ⟨hlen, by omega⟩
  have hssrr : ∀ b : IpOptArea, b.ipOpt.length = 40 ∧ b.optlen ≤ 39 →
      b.addSsrr.ipOpt.length = 40 ∧ b.addSsrr.optlen ≤ 39 := by
    rintro b ⟨hlen, hle⟩
    rw [IpOptArea.addSsrr]
    split_ifs
    · exact ⟨by rw [length_writeAt, hlen], by dsimp only; omega⟩
    · exact ⟨hlen, hle⟩
    · exact ⟨hlen, hle⟩
  have hrroute : ∀ b : IpOptArea, b.ipOpt.length = 40 ∧ b.optlen ≤ 39 →
      b.addRroute.ipOpt.length = 40 ∧ b.addRroute.optlen ≤ 39 := by
    rintro b ⟨hlen, hle⟩
    rw [IpOptArea.addRroute]
    split_ifs
    · exact ⟨by rw [length_writeAt, hlen], le_rfl⟩
    · exact ⟨hlen, hle⟩
    · exact ⟨hlen, hle⟩
  obtain ⟨hlen, hle⟩ := hrroute _ (hssrr _ (hlsrr (IpOptArea.mk cfg (List.replicate 40 1) 0)
    ⟨List.length_replicate, rfl⟩))
  rw [ipOptBuild, IpOptArea.finish]
  split_ifs
  · exact ⟨hlen, by omega⟩
  · exact ⟨by rw [length_writeAt, hlen], by dsimp only; omega⟩

/-- The options are as long as the builder says. -/
theorem length_options_ipOptBuild (cfg : RouteConfig) :
    (ipOptBuild cfg).options.length = (ipOptBuild cfg).optlen := by
  obtain ⟨hlen, hle⟩ := length_ipOpt_ipOptBuild cfg
  rw [IpOptArea.options, List.length_take, hlen]
  exact Nat.min_eq_left hle

/-! ### Walking along the area -/

/-- What the walk comes to. -/
inductive Ipopt
  /-- The end of the list. -/
  | eol
  | nop
  /-- An option with a length, with all its bytes. -/
  | option (bytes : List UInt8)
  /-- A length that is wrong. -/
  | truncated
  deriving DecidableEq, Repr

/-- `display_ipopt`, on the options of a header. -/
def displayIpopt (cp : List UInt8) : List Ipopt :=
  match cp with
  | [] => []
  | type :: rest =>
    if type = 0 then [.eol]
    else if type = 1 then .nop :: displayIpopt rest
    else
      let optlen := (rest.headD 0).toNat
      if rest = [] ∨ optlen < 2 ∨ rest.length + 1 < optlen then [.truncated]
      else .option ((type :: rest).take optlen) :: displayIpopt ((type :: rest).drop optlen)
termination_by cp.length
decreasing_by
  · exact Nat.lt_succ_self _
  · have hpos : 0 < (rest.headD 0).toNat := by omega
    rw [List.length_drop, List.length_cons]
    exact Nat.sub_lt (Nat.succ_pos _) hpos

/-! ### What a route is -/

/-- A route of some type: its length, a pointer, and addresses. -/
structure IsRoute (type : UInt8) (bytes : List UInt8) : Prop where
  le : bytes.length < 256
  exists_eq : ∃ (ptr : UInt8) (addrs : List (List UInt8)), (∀ a ∈ addrs, a.length = 4) ∧
    bytes.length = 3 + 4 * addrs.length ∧
    bytes = type :: UInt8.ofNat bytes.length :: ptr :: addrs.flatten

theorem length_flatten_of_length {addrs : List (List UInt8)} {n : ℕ}
    (h : ∀ a ∈ addrs, a.length = n) : addrs.flatten.length = n * addrs.length := by
  induction addrs with
  | nil => rfl
  | cons a addrs ih =>
    rw [List.flatten_cons, List.length_append, h a List.mem_cons_self,
      ih fun b hb => h b (List.mem_cons_of_mem a hb), List.length_cons, Nat.mul_succ, Nat.add_comm]

/-- The routes are as they should be. -/
structure RouteConfig.Ok (cfg : RouteConfig) : Prop where
  lsr_length : cfg.lsr.length = 255
  ssr_length : cfg.ssr.length = 255
  lsr : cfg.optLsrr = true → (cfg.lsr.take cfg.lsrLength).length = cfg.lsrLength ∧
    IsRoute ipoptLsrr (cfg.lsr.take cfg.lsrLength)
  ssr : cfg.optSsrr = true → (cfg.ssr.take cfg.ssrLength).length = cfg.ssrLength ∧
    IsRoute ipoptSsrr (cfg.ssr.take cfg.ssrLength)

theorem RouteConfig.ok_init : RouteConfig.init.Ok where
  lsr_length := List.length_replicate
  ssr_length := List.length_replicate
  lsr hopt := absurd hopt Bool.false_ne_true
  ssr hopt := absurd hopt Bool.false_ne_true

/-- The area holds some options, and no-operations behind them. -/
structure IpOptArea.Holds (b : IpOptArea) (opts : List (List UInt8)) : Prop where
  ipOpt : b.ipOpt = opts.flatten ++ List.replicate (40 - b.optlen) 1
  optlen : b.optlen = opts.flatten.length
  le : b.optlen ≤ 39

/-- Bytes are written behind the options. -/
theorem IpOptArea.Holds.writeAt_eq {b : IpOptArea} {opts : List (List UInt8)} (h : b.Holds opts)
    {bytes : List UInt8} (hfits : bytes.length + b.optlen ≤ 40) :
    writeAt b.ipOpt b.optlen bytes =
      opts.flatten ++ (bytes ++ List.replicate (40 - (b.optlen + bytes.length)) 1) := by
  have hlen := h.optlen
  have hroom : b.optlen + bytes.length ≤ b.ipOpt.length := by
    rw [h.ipOpt, List.length_append, List.length_replicate]
    omega
  rw [Mem.writeAt_eq hroom, h.ipOpt, hlen, List.take_left, List.drop_append,
    List.drop_eq_nil_of_le (Nat.le_add_right _ _), List.nil_append, List.drop_replicate,
    List.append_assoc,
    show 40 - opts.flatten.length - (opts.flatten.length + bytes.length - opts.flatten.length) =
      40 - (opts.flatten.length + bytes.length) by omega]

/-- **One option more.** -/
theorem IpOptArea.Holds.write {b : IpOptArea} {opts : List (List UInt8)} (h : b.Holds opts)
    {bytes : List UInt8} (hfits : bytes.length + b.optlen ≤ 39) :
    ({ b with ipOpt := writeAt b.ipOpt b.optlen bytes, optlen := b.optlen + bytes.length } :
      IpOptArea).Holds (opts ++ [bytes]) := by
  refine ⟨?_, ?_, by simpa [Nat.add_comm] using hfits⟩
  · dsimp only
    rw [h.writeAt_eq (by omega), List.flatten_append, List.flatten_singleton, List.append_assoc]
  · dsimp only
    rw [List.flatten_append, List.flatten_singleton, List.length_append, h.optlen]

/-- The record route that is built behind `used` bytes: one address, and no-operations. -/
def recordRoute (used : ℕ) : List UInt8 :=
  [ipoptRr, UInt8.ofNat (39 - used), 8, 1, 2, 3, 4] ++ List.replicate (32 - used) 1

theorem length_recordRoute {used : ℕ} (h : used ≤ 32) : (recordRoute used).length = 39 - used := by
  rw [recordRoute, List.length_append, List.length_replicate]
  simp only [List.length_cons, List.length_nil]
  omega

/-- The source routes that are kept. -/
def RouteConfig.routes (cfg : RouteConfig) : List (List UInt8) :=
  (if cfg.optLsrr then [cfg.lsr.take cfg.lsrLength] else []) ++
    (if cfg.optSsrr then [cfg.ssr.take cfg.ssrLength] else [])

/-- The options that are kept, in their order. -/
def RouteConfig.kept (cfg : RouteConfig) : List (List UInt8) :=
  cfg.routes ++ if cfg.optRroute then [recordRoute cfg.routes.flatten.length] else []

/-- The flags of a configuration are those of another one, or are reset. -/
structure RouteConfig.Drops (cfg cfg' : RouteConfig) : Prop where
  lsr : cfg'.lsr = cfg.lsr ∧ cfg'.lsrLength = cfg.lsrLength
  ssr : cfg'.ssr = cfg.ssr ∧ cfg'.ssrLength = cfg.ssrLength
  optLsrr : cfg'.optLsrr = true → cfg.optLsrr = true
  optSsrr : cfg'.optSsrr = true → cfg.optSsrr = true
  optRroute : cfg'.optRroute = true → cfg.optRroute = true

theorem RouteConfig.Drops.refl (cfg : RouteConfig) : cfg.Drops cfg :=
  ⟨⟨rfl, rfl⟩, ⟨rfl, rfl⟩, id, id, id⟩

theorem RouteConfig.Drops.trans {cfg cfg' cfg'' : RouteConfig} (h : cfg.Drops cfg')
    (h' : cfg'.Drops cfg'') : cfg.Drops cfg'' :=
  ⟨⟨h'.lsr.1.trans h.lsr.1, h'.lsr.2.trans h.lsr.2⟩,
    ⟨h'.ssr.1.trans h.ssr.1, h'.ssr.2.trans h.ssr.2⟩, fun hopt => h.optLsrr (h'.optLsrr hopt),
    fun hopt => h.optSsrr (h'.optSsrr hopt), fun hopt => h.optRroute (h'.optRroute hopt)⟩

theorem RouteConfig.Ok.drops {cfg cfg' : RouteConfig} (h : cfg.Ok) (hdrops : cfg.Drops cfg') :
    cfg'.Ok := by
  obtain ⟨⟨hlsr, hlsrLength⟩, ⟨hssr, hssrLength⟩, hoptLsrr, hoptSsrr, -⟩ := hdrops
  refine ⟨hlsr ▸ h.lsr_length, hssr ▸ h.ssr_length, fun hopt => ?_, fun hopt => ?_⟩
  · rw [hlsr, hlsrLength]
    exact h.lsr (hoptLsrr hopt)
  · rw [hssr, hssrLength]
    exact h.ssr (hoptSsrr hopt)

/-- The length of a route. -/
theorem IsRoute.length_mod {type : UInt8} {bytes : List UInt8} (h : IsRoute type bytes) :
    bytes.length % 4 = 3 := by
  obtain ⟨-, ptr, addrs, -, hlen, -⟩ := h
  omega

theorem RouteConfig.Ok.length_mod {cfg : RouteConfig} (h : cfg.Ok) :
    cfg.routes.flatten.length = 0 ∨ cfg.routes.flatten.length % 4 = 2 ∨
      cfg.routes.flatten.length % 4 = 3 := by
  rw [RouteConfig.routes, List.flatten_append, List.length_append]
  split_ifs with hlsr hssr hssr
  · have h₁ := (h.lsr hlsr).2.length_mod
    have h₂ := (h.ssr hssr).2.length_mod
    rw [List.flatten_singleton, List.flatten_singleton]
    omega
  · have h₁ := (h.lsr hlsr).2.length_mod
    rw [List.flatten_singleton, List.flatten_nil, List.length_nil]
    omega
  · have h₂ := (h.ssr hssr).2.length_mod
    rw [List.flatten_singleton, List.flatten_nil, List.length_nil]
    omega
  · exact Or.inl rfl

namespace IpOptArea

variable {b : IpOptArea}

/-- The loose route is first. -/
theorem addLsrr_spec (h : b.cfg.Ok) (hb : b.Holds []) :
    b.cfg.Drops b.addLsrr.cfg ∧ b.addLsrr.Holds
      (if b.addLsrr.cfg.optLsrr then [b.cfg.lsr.take b.cfg.lsrLength] else []) := by
  have hzero : b.optlen = 0 := hb.optlen
  by_cases hopt : b.cfg.optLsrr = true
  · by_cases hfits : b.cfg.lsrLength ≤ 39
    · obtain ⟨hlen, -⟩ := h.lsr hopt
      have hroom : (b.cfg.lsr.take b.cfg.lsrLength).length + b.optlen ≤ 39 := by omega
      have hwrite := hb.write hroom
      rw [hlen, hzero, List.nil_append] at hwrite
      simp only [addLsrr, hopt, hfits, if_true, hzero]
      exact ⟨RouteConfig.Drops.refl _, hwrite⟩
    · simp only [addLsrr, hopt, hfits, if_true, if_false, Bool.false_eq_true]
      exact ⟨⟨⟨rfl, rfl⟩, ⟨rfl, rfl⟩, nofun, id, id⟩, hb.ipOpt, hb.optlen, hb.le⟩
  · simp only [addLsrr, hopt, if_false, Bool.false_eq_true]
    exact ⟨RouteConfig.Drops.refl _, hb⟩

/-- The strict route is behind it. -/
theorem addSsrr_spec (h : b.cfg.Ok) {opts : List (List UInt8)} (hb : b.Holds opts) :
    b.cfg.Drops b.addSsrr.cfg ∧ b.addSsrr.cfg.optLsrr = b.cfg.optLsrr ∧ b.addSsrr.Holds
      (opts ++ if b.addSsrr.cfg.optSsrr then [b.cfg.ssr.take b.cfg.ssrLength] else []) := by
  by_cases hopt : b.cfg.optSsrr = true
  · by_cases hfits : b.cfg.ssrLength + b.optlen ≤ 39
    · obtain ⟨hlen, -⟩ := h.ssr hopt
      have hroom : (b.cfg.ssr.take b.cfg.ssrLength).length + b.optlen ≤ 39 := by omega
      have hwrite := hb.write hroom
      rw [hlen] at hwrite
      simp only [addSsrr, hopt, hfits, if_true]
      exact ⟨RouteConfig.Drops.refl _, trivial, hwrite⟩
    · simp only [addSsrr, hopt, hfits, if_true, if_false, Bool.false_eq_true, List.append_nil]
      exact ⟨⟨⟨rfl, rfl⟩, ⟨rfl, rfl⟩, id, nofun, id⟩, trivial, hb.ipOpt, hb.optlen, hb.le⟩
  · simp only [addSsrr, hopt, if_false, Bool.false_eq_true, List.append_nil]
    exact ⟨RouteConfig.Drops.refl _, trivial, hb⟩

/-- The record route takes what is left. -/
theorem addRroute_spec {opts : List (List UInt8)} (hb : b.Holds opts) (hne : b.optlen ≠ 33) :
    b.cfg.Drops b.addRroute.cfg ∧ b.addRroute.cfg.routes = b.cfg.routes ∧
      (b.addRroute.cfg.optRroute = true → b.optlen ≤ 32) ∧ b.addRroute.Holds
        (opts ++ if b.addRroute.cfg.optRroute then [recordRoute b.optlen] else []) := by
  by_cases hopt : b.cfg.optRroute = true
  · by_cases hfits : b.optlen ≤ 33
    · have hlen := length_recordRoute (show b.optlen ≤ 32 by omega)
      have hrest : writeAt b.ipOpt b.optlen (recordRoute b.optlen) = writeAt b.ipOpt b.optlen
          [ipoptRr, UInt8.ofNat (39 - b.optlen), 8, 1, 2, 3, 4] := by
        rw [hb.writeAt_eq (by omega), hb.writeAt_eq (by simp; omega), hlen, recordRoute,
          List.append_assoc, List.replicate_append_replicate]
        congr 3
        simp only [List.length_cons, List.length_nil]
        omega
      have hroom : (recordRoute b.optlen).length + b.optlen ≤ 39 := by omega
      have hwrite := hb.write hroom
      rw [hrest, hlen, Nat.add_sub_cancel' (by omega)] at hwrite
      simp only [addRroute, hopt, hfits, if_true]
      exact ⟨RouteConfig.Drops.refl _, trivial, fun _ => by omega, hwrite⟩
    · simp only [addRroute, hopt, hfits, if_true, if_false, Bool.false_eq_true, List.append_nil]
      exact ⟨⟨⟨rfl, rfl⟩, ⟨rfl, rfl⟩, id, id, nofun⟩, rfl, nofun, hb.ipOpt, hb.optlen, hb.le⟩
  · simp only [addRroute, hopt, if_false, Bool.false_eq_true, List.append_nil]
    exact ⟨RouteConfig.Drops.refl _, trivial, nofun, hb⟩

end IpOptArea

/-- An option that is not one of a single byte, with its length. -/
def IsOption (bytes : List UInt8) : Prop :=
  ∃ type len rest, bytes = type :: len :: rest ∧ type ≠ 0 ∧ type ≠ 1 ∧ len.toNat = bytes.length

theorem IsRoute.isOption {type : UInt8} {bytes : List UInt8} (h : IsRoute type bytes)
    (h0 : type ≠ 0) (h1 : type ≠ 1) : IsOption bytes := by
  obtain ⟨hle, ptr, addrs, -, -, heq⟩ := h
  exact ⟨type, _, _, heq, h0, h1, UInt8.toNat_ofNat_of_lt' hle⟩

theorem recordRoute_isOption {used : ℕ} (h : used ≤ 32) : IsOption (recordRoute used) := by
  refine ⟨ipoptRr, _, _, rfl, by decide, by decide, ?_⟩
  rw [length_recordRoute h]
  exact UInt8.toNat_ofNat_of_lt' (show 39 - used < 256 by omega)

/-- What is kept are options. -/
theorem RouteConfig.Ok.kept_isOption {cfg : RouteConfig} (h : cfg.Ok)
    (hused : cfg.optRroute = true → cfg.routes.flatten.length ≤ 32) :
    ∀ bytes ∈ cfg.kept, IsOption bytes := by
  intro bytes hbytes
  rw [RouteConfig.kept, List.mem_append] at hbytes
  rcases hbytes with hroutes | hrr
  · rw [RouteConfig.routes, List.mem_append] at hroutes
    rcases hroutes with hlsr | hssr
    · split_ifs at hlsr with hopt
      · rw [List.mem_singleton.mp hlsr]
        exact (h.lsr hopt).2.isOption (by decide) (by decide)
      · nomatch hlsr
    · split_ifs at hssr with hopt
      · rw [List.mem_singleton.mp hssr]
        exact (h.ssr hopt).2.isOption (by decide) (by decide)
      · nomatch hssr
  · split_ifs at hrr with hopt
    · rw [List.mem_singleton.mp hrr]
      exact recordRoute_isOption (hused hopt)
    · nomatch hrr

/-- **`ip_opt_build`** leaves the options that are kept, padding, and a terminator that is behind
all of them. -/
theorem ipOptBuild_spec {cfg : RouteConfig} (h : cfg.Ok) :
    cfg.Drops (ipOptBuild cfg).cfg ∧ (∀ bytes ∈ (ipOptBuild cfg).cfg.kept, IsOption bytes) ∧
      (ipOptBuild cfg).options.length ≤ 40 ∧ 4 ∣ (ipOptBuild cfg).options.length ∧
      ((ipOptBuild cfg).cfg.kept = [] → (ipOptBuild cfg).options = []) ∧
      ((ipOptBuild cfg).cfg.kept ≠ [] → ∃ k, (ipOptBuild cfg).options =
        (ipOptBuild cfg).cfg.kept.flatten ++ (List.replicate k 1 ++ [0])) := by
  have hstart : (IpOptArea.mk cfg (List.replicate 40 1) 0).Holds [] := ⟨rfl, rfl, Nat.zero_le _⟩
  obtain ⟨hdrops₁, hholds₁⟩ := IpOptArea.addLsrr_spec h hstart
  set b₁ := (IpOptArea.mk cfg (List.replicate 40 1) 0).addLsrr
  obtain ⟨hdrops₂, hopt₂, hholds₂⟩ := IpOptArea.addSsrr_spec (h.drops hdrops₁) hholds₁
  set b₂ := b₁.addSsrr
  have hroutes : b₂.Holds b₂.cfg.routes := by
    rw [RouteConfig.routes, hopt₂, hdrops₂.lsr.1, hdrops₂.lsr.2, hdrops₁.lsr.1, hdrops₁.lsr.2,
      hdrops₂.ssr.1, hdrops₂.ssr.2]
    exact hholds₂
  have hok₂ := (h.drops hdrops₁).drops hdrops₂
  have hmod := hok₂.length_mod
  rw [← hroutes.optlen] at hmod
  obtain ⟨hdrops₃, hroutes₃, hused, hholds₃⟩ := IpOptArea.addRroute_spec hroutes (by omega)
  have hbuild : ipOptBuild cfg = b₂.addRroute.finish := rfl
  set b₃ := b₂.addRroute
  have hkept : b₃.Holds b₃.cfg.kept := by
    rw [RouteConfig.kept, hroutes₃, ← hroutes.optlen]
    exact hholds₃
  have hmod₃ : b₃.optlen = 0 ∨ b₃.optlen % 4 = 2 ∨ b₃.optlen % 4 = 3 := by
    rw [hholds₃.optlen]
    split_ifs with hrr
    · have hle := hused hrr
      rw [List.flatten_append, List.flatten_singleton, List.length_append, ← hroutes.optlen,
        length_recordRoute hle]
      omega
    · rw [List.append_nil, ← hroutes.optlen]
      exact hmod
  rw [hbuild]
  have hdrops := (hdrops₁.trans hdrops₂).trans hdrops₃
  have hoption := (h.drops hdrops).kept_isOption fun hrr => by
    rw [hroutes₃, ← hroutes.optlen]
    exact hused hrr
  have hle := hkept.le
  have hlen := hkept.optlen
  rw [IpOptArea.finish]
  split_ifs with hzero
  · -- there are no options
    have hnil : b₃.options = [] := by rw [IpOptArea.options, hzero, List.take_zero]
    refine ⟨hdrops, hoption, by rw [hnil]; exact Nat.zero_le _, by rw [hnil]; exact dvd_zero 4,
      fun _ => hnil, fun hne => ?_⟩
    obtain ⟨bytes, hbytes⟩ := List.exists_mem_of_ne_nil _ hne
    obtain ⟨type, len, rest, rfl, -⟩ := hoption bytes hbytes
    have hflatten : b₃.cfg.kept.flatten = [] :=
      List.eq_nil_of_length_eq_zero (hlen.symm.trans hzero)
    have hbad := List.flatten_eq_nil_iff.mp hflatten _ hbytes
    nomatch hbad
  · -- the terminator is behind the last option
    have hup : b₃.optlen < (b₃.optlen + 3) / 4 * 4 := by omega
    have hfits : (b₃.optlen + 3) / 4 * 4 ≤ 40 := by omega
    have hipOpt : b₃.ipOpt.length = 40 := by
      rw [hkept.ipOpt, List.length_append, List.length_replicate, ← hlen]
      omega
    have htake : b₃.ipOpt.take ((b₃.optlen + 3) / 4 * 4 - 1) = b₃.cfg.kept.flatten ++
        List.replicate ((b₃.optlen + 3) / 4 * 4 - 1 - b₃.optlen) 1 := by
      rw [hkept.ipOpt, List.take_append, List.take_of_length_le (by omega), ← hlen,
        List.take_replicate, Nat.min_eq_left (by omega)]
    have hoptions : (writeAt b₃.ipOpt ((b₃.optlen + 3) / 4 * 4 - 1) [0]).take
        ((b₃.optlen + 3) / 4 * 4) = b₃.cfg.kept.flatten ++
          (List.replicate ((b₃.optlen + 3) / 4 * 4 - 1 - b₃.optlen) 1 ++ [0]) := by
      have hcount : (b₃.ipOpt.take ((b₃.optlen + 3) / 4 * 4 - 1) ++ [0]).length =
          (b₃.optlen + 3) / 4 * 4 := by
        rw [List.length_append, List.length_take, List.length_singleton]
        omega
      rw [writeAt_eq (by rw [List.length_singleton]; omega), List.take_left' hcount, htake,
        List.append_assoc]
    have hlength : (writeAt b₃.ipOpt ((b₃.optlen + 3) / 4 * 4 - 1) [0]).length = 40 := by
      rw [length_writeAt, hipOpt]
    simp only [IpOptArea.options, List.length_take, hlength]
    refine ⟨hdrops, hoption, Nat.min_le_right _ _, ?_, fun hnil => ?_, fun _ => ⟨_, hoptions⟩⟩
    · rw [Nat.min_eq_left hfits]
      exact Nat.dvd_mul_left 4 _
    · rw [hnil] at hlen
      exact absurd hlen hzero

end StyxWire.Hping
