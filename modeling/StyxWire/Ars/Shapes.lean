import StyxWire.Ars.HeaderLengths

/-!
# The shape of a packet

How long a packet is that the engine builds. A packet is looked at through the types and the sizes
of its layers only (`StyxWire.ArsPacket.HasShape`). Adding a layer adds to the shape, writing into
one leaves it alone, and so does compiling, unless a run of options is padded. Where the shape says
that no run is (`StyxWire.Compiles`), the packet is built, and its length is the sum of the sizes
(`StyxWire.ArsPacket.HasShape.build`).
-/

namespace StyxWire

open ArsLayer

/-! ### Shapes -/

/-- The type and the size of a layer. -/
def ArsLayer.shape (l : ArsLayer) : ArsType × ℕ := (l.lType, l.lSize)

/-- The size of a packet of some shape. -/
def shapeSize (s : List (ArsType × ℕ)) : ℕ := (s.map Prod.snd).sum

/-- The size of the run of options of a type that ends the shape. -/
def shapeRun (t : ArsType) (before : List (ArsType × ℕ)) : ℕ :=
  shapeSize (before.takeWhile fun x => x.1 = t)

theorem shapeSize_cons (t : ArsType) (n : ℕ) (s : List (ArsType × ℕ)) :
    shapeSize ((t, n) :: s) = n + shapeSize s := by
  rw [shapeSize, List.map_cons, List.sum_cons]
  rfl

theorem shapeSize_append (s s' : List (ArsType × ℕ)) :
    shapeSize (s ++ s') = shapeSize s + shapeSize s' := by
  rw [shapeSize, List.map_append, List.sum_append]
  rfl

theorem shapeSize_map_shape (ls : List ArsLayer) :
    shapeSize (ls.map ArsLayer.shape) = arsRelativeSize ls := by
  rw [shapeSize, List.map_map]
  rfl

theorem shapeRun_map_shape (t : ArsType) (before : List ArsLayer) :
    shapeRun t (before.map ArsLayer.shape) = runSize t before := by
  rw [shapeRun, List.takeWhile_map, shapeSize_map_shape]
  rfl

theorem head?_map_shape (ls : List ArsLayer) :
    (ls.map ArsLayer.shape).head?.map Prod.fst = ls.head?.map ArsLayer.lType := by
  rw [List.head?_map, Option.map_map]
  rfl

/-- Each run of options is a whole number of words, each TCP or UDP header is behind an IPv4
header, and there is no ICMPv6 header. The layers on the left come with the nearest first. -/
def Compiles : List (ArsType × ℕ) → List (ArsType × ℕ) → Prop
  | _, [] => True
  | before, (t, n) :: rest =>
    (t = .ipopt ∨ t = .tcpopt → rest.head?.map Prod.fst ≠ some t → 4 ∣ shapeRun t before + n) ∧
      (t = .tcp ∨ t = .udp → before.head?.map Prod.fst = some .ip) ∧ t ≠ .icmp6 ∧
      Compiles ((t, n) :: before) rest

/-! ### Adding layers -/

/-- A packet of some shape, with no defaults. -/
structure ArsPacket.HasShape (pkt : ArsPacket) (s : List (ArsType × ℕ)) : Prop where
  shape : pkt.pLayer.map ArsLayer.shape = s
  noDefault : pkt.NoDefault

theorem hasShape_arsInit : arsInit.HasShape [] where
  shape := rfl
  noDefault _ := rfl

namespace ArsPacket.HasShape

variable {pkt : ArsPacket} {s : List (ArsType × ℕ)}

/-- One layer more. -/
theorem add (h : pkt.HasShape s) {f : ArsPacket → Except ArsErr ArsPacket} {l : ArsLayer}
    (hadd : AddsLayer f l) (hroom : s.length < arsMaxLayer) :
    ∃ out, f pkt = .ok out ∧ out.HasShape (s ++ [l.shape]) := by
  have hlen : pkt.pLayer.length < arsMaxLayer := by
    rwa [← h.shape, List.length_map] at hroom
  refine ⟨pkt.push l hlen, ?_, ?_, h.noDefault⟩
  · rw [hadd pkt h.noDefault, dif_pos hlen]
  · rw [ArsPacket.push, List.map_append, h.shape, List.map_singleton]

/-- The layers are changed without regard to their types and sizes. -/
theorem of_shape_eq (h : pkt.HasShape s) {out : ArsPacket}
    (hshape : out.pLayer.map ArsLayer.shape = pkt.pLayer.map ArsLayer.shape)
    (hdefault : out.pDefault = pkt.pDefault) : out.HasShape s where
  shape := hshape.trans h.shape
  noDefault t := (congrFun hdefault t).trans (h.noDefault t)

/-- The last layer is changed without regard to its type and size. -/
theorem mapLast (h : pkt.HasShape s) {f : ArsLayer → ArsLayer} (hf : ∀ l, (f l).shape = l.shape) :
    (pkt.mapLast f).HasShape s := by
  refine h.of_shape_eq ?_ rfl
  rcases List.eq_nil_or_concat pkt.pLayer with hnil | ⟨ls, l, hl⟩
  · simp [ArsPacket.mapLast, hnil]
  · rw [List.concat_eq_append] at hl
    rw [ArsPacket.mapLast_pLayer hl, hl, List.map_append, List.map_append, List.map_singleton,
      List.map_singleton, hf]

theorem writeLast (h : pkt.HasShape s) (off : ℕ) (src : List UInt8) :
    (pkt.writeLast off src).HasShape s :=
  h.mapLast fun _ => rfl

theorem arsSetFlags (h : pkt.HasShape s) (flags : ℕ) : (arsSetFlags pkt flags).HasShape s :=
  h.mapLast fun _ => rfl

end ArsPacket.HasShape

/-! ### Compiling -/

/-- The compiler of a layer that `Compiles` allows. -/
theorem exists_arsLiCompiler {before after : List ArsLayer} {l : ArsLayer}
    (hparent : l.lType = .tcp ∨ l.lType = .udp → before.head?.map ArsLayer.lType = some .ip)
    (hicmp6 : l.lType ≠ .icmp6) : ∃ l', arsLiCompiler before l after = .ok l' := by
  have hcksum : ∀ m : ArsLayer, l.lType = .tcp ∨ l.lType = .udp →
      ∃ sum, arsUdptcpCksum before m after = .ok sum := by
    intro m ht
    rcases before with _ | ⟨ip, rest⟩
    · exact absurd (hparent ht) (by simp)
    · have hip : ip.lType = .ip := Option.some.inj (hparent ht)
      exact ⟨_, arsUdptcpCksum_ip (List.dropWhile_cons_of_neg (by simp [isIpopt, hip])) hip m after⟩
  rw [arsLiCompiler]
  split
  case h_4 ht =>
    rw [arsCompilerUdp]
    dsimp only
    split_ifs
    all_goals first
      | exact ⟨_, rfl⟩
      | (obtain ⟨sum, hsum⟩ := hcksum _ (Or.inr ht)
         exact ⟨_, by rw [hsum]; rfl⟩)
  case h_5 ht =>
    rw [arsCompilerTcp]
    dsimp only
    split_ifs
    all_goals first
      | exact ⟨_, rfl⟩
      | (obtain ⟨sum, hsum⟩ := hcksum _ (Or.inl ht)
         exact ⟨_, by rw [hsum]; rfl⟩)
  case h_10 ht => exact absurd ht hicmp6
  all_goals exact ⟨_, rfl⟩

/-- **Compiling keeps the shape**, where it says that no run of options is padded. The induction
is over the layers, from the last to the first. -/
theorem exists_arsCompileFrom {before ls : List ArsLayer}
    (h : Compiles (before.map ArsLayer.shape) (ls.map ArsLayer.shape)) :
    ∃ out, arsCompileFrom before ls = .ok out ∧
      out.map ArsLayer.shape = ls.map ArsLayer.shape := by
  induction ls generalizing before with
  | nil => exact ⟨[], rfl, rfl⟩
  | cons l ls ih =>
    obtain ⟨hrun, hparent, hicmp6, hrest⟩ := h
    obtain ⟨ls', hls, hshape⟩ := @ih (l :: before) hrest
    rw [head?_map_shape] at hrun hparent
    obtain ⟨l', hl⟩ := @exists_arsLiCompiler before ls' l hparent hicmp6
    have hheads := head?_arsCompileFrom hls
    have hsize : l'.lSize = l.lSize := by
      by_cases hopt : l.lType = .ipopt ∨ l.lType = .tcpopt
      · by_cases hnext : ls.head?.map ArsLayer.lType = some l.lType
        · exact arsLiCompiler_lSize hl fun _ => hheads.trans hnext
        · -- the end of a run, which is a whole number of words
          have hwhole := hrun hopt hnext
          rw [shapeRun_map_shape] at hwhole
          have hend : ls'.head?.map ArsLayer.lType ≠ some l.lType := by rwa [hheads]
          have hcomp : ∃ nop, l' = arsCompilerOpt l.lType nop before l ls' := by
            rw [arsLiCompiler] at hl
            rcases hopt with ht | ht
            · rw [ht] at hl ⊢
              exact ⟨_, (Except.ok.inj hl).symm⟩
            · rw [ht] at hl ⊢
              exact ⟨_, (Except.ok.inj hl).symm⟩
          obtain ⟨nop, rfl⟩ := hcomp
          have hpad := @arsCompilerOpt_lSize l.lType nop before ls' l hend
          have hl : l.shape.2 = l.lSize := rfl
          rw [padded] at hpad
          omega
      · exact arsLiCompiler_lSize hl fun hcon => absurd hcon hopt
    refine ⟨l' :: ls', arsCompileFrom_cons.mpr ⟨l', ls', hls, hl, rfl⟩, ?_⟩
    rw [List.map_cons, List.map_cons, hshape, ArsLayer.shape, arsLiCompiler_lType hl, hsize]
    rfl

/-- **A packet is built from its shape**: the bytes are as many as the sizes say. -/
theorem ArsPacket.HasShape.build {pkt : ArsPacket} {s : List (ArsType × ℕ)} (h : pkt.HasShape s)
    (hs : Compiles [] s) (hpos : 0 < shapeSize s) :
    ∃ out built, arsCompile pkt = .ok out ∧ arsBuildPacket out = .ok built ∧ out.HasShape s ∧
      built.length = shapeSize s := by
  have hcomp : Compiles (([] : List ArsLayer).map ArsLayer.shape)
      (pkt.pLayer.map ArsLayer.shape) := by
    rw [h.shape]
    exact hs
  obtain ⟨ls, hls, hshape⟩ := exists_arsCompileFrom hcomp
  have hnr : ls.length ≤ arsMaxLayer := length_arsCompileFrom hls ▸ pkt.nr_le
  have hout : arsCompile pkt = .ok { pkt with pLayer := ls, nr_le := hnr } :=
    arsCompile_eq_ok.mpr ⟨hls, rfl, rfl, rfl, rfl⟩
  have hsize : arsRelativeSize ls = shapeSize s := by
    rw [← shapeSize_map_shape, hshape, h.shape]
  refine ⟨_, layersBytes ls, hout, ?_, h.of_shape_eq hshape rfl, ?_⟩
  · rw [arsBuildPacket, if_neg (by dsimp only; omega)]
  · rw [length_layersBytes, hsize]

end StyxWire
