import StyxWire.Ars.Datagram

/-!
# TCP options, described and built

The description of a TCP option of standard length, and the option that is built from it
(`StyxWire.describes_tcpopt`): the same option, but for the SACK kind, which is always
built with room for four blocks (`StyxWire.rebuiltTcpopt`).
-/

namespace StyxWire

open Mem Text ArsLayer

/-! ### The kinds -/

/-- The kinds of TCP options and the lengths they have; SACK has one to four blocks. -/
def tcpoptLens : List (ℕ × ℕ) :=
  [(arsTcpoptEol, 1), (arsTcpoptNop, 1), (arsTcpoptMaxseg, 4), (arsTcpoptWindow, 3),
    (arsTcpoptSackPerm, 2), (arsTcpoptSack, 10), (arsTcpoptSack, 18), (arsTcpoptSack, 26),
    (arsTcpoptSack, 34), (arsTcpoptEchorequest, 6), (arsTcpoptEchoreply, 6),
    (arsTcpoptTimestamp, 10)]

/-- **An option of standard length.** -/
structure StdTcpopt (o : List UInt8) : Prop where
  wellFormed : WellFormedOpt o
  kind : (byteAt 0 o, o.length) ∈ tcpoptLens

/-- The kinds, with their lengths. -/
inductive TcpoptKind (o : List UInt8) : Prop
  | eol (hk : byteAt 0 o = arsTcpoptEol) (hn : o.length = 1)
  | nop (hk : byteAt 0 o = arsTcpoptNop) (hn : o.length = 1)
  | maxseg (hk : byteAt 0 o = arsTcpoptMaxseg) (hn : o.length = 4)
  | window (hk : byteAt 0 o = arsTcpoptWindow) (hn : o.length = 3)
  | sackPerm (hk : byteAt 0 o = arsTcpoptSackPerm) (hn : o.length = 2)
  | sack (k : ℕ) (hk : byteAt 0 o = arsTcpoptSack) (hlt : k < 4) (hn : o.length = 2 + 8 * (k + 1))
  | echorequest (hk : byteAt 0 o = arsTcpoptEchorequest) (hn : o.length = 6)
  | echoreply (hk : byteAt 0 o = arsTcpoptEchoreply) (hn : o.length = 6)
  | timestamp (hk : byteAt 0 o = arsTcpoptTimestamp) (hn : o.length = 10)

/-- **An option is of one of these kinds.** -/
theorem StdTcpopt.kinds {o : List UInt8} (h : StdTcpopt o) : TcpoptKind o := by
  have hkind := h.kind
  simp only [tcpoptLens, List.mem_cons, Prod.mk.injEq, List.not_mem_nil, or_false] at hkind
  rcases hkind with ⟨hk, hn⟩ | ⟨hk, hn⟩ | ⟨hk, hn⟩ | ⟨hk, hn⟩ | ⟨hk, hn⟩ | ⟨hk, hn⟩ | ⟨hk, hn⟩ |
    ⟨hk, hn⟩ | ⟨hk, hn⟩ | ⟨hk, hn⟩ | ⟨hk, hn⟩ | ⟨hk, hn⟩
  · exact .eol hk hn
  · exact .nop hk hn
  · exact .maxseg hk hn
  · exact .window hk hn
  · exact .sackPerm hk hn
  · exact .sack 0 hk (by omega) hn
  · exact .sack 1 hk (by omega) hn
  · exact .sack 2 hk (by omega) hn
  · exact .sack 3 hk (by omega) hn
  · exact .echorequest hk hn
  · exact .echoreply hk hn
  · exact .timestamp hk hn

theorem StdTcpopt.length_le {o : List UInt8} (h : StdTcpopt o) : o.length ≤ 34 := by
  have hall : ∀ e ∈ tcpoptLens, e.2 ≤ 34 := by decide
  exact hall _ h.kind

theorem StdTcpopt.byteAt_one {o : List UInt8} (h : StdTcpopt o) (h2 : 2 ≤ o.length) :
    byteAt 1 o = o.length := by
  obtain ⟨-, hlen⟩ := h.wellFormed
  split_ifs at hlen
  · omega
  · exact hlen.2

/-- The layer of a TCP option. -/
def tcpoptLayer (o : List UInt8) : ArsLayer := full .tcpopt 0 o (ArsType.hdrSize_le rfl _)

/-! ### Reading an option -/

/-- The bytes behind an option that is too short for the structure are zero. -/
theorem getD_append_zeros (o : List UInt8) (n i : ℕ) :
    (o ++ List.replicate n 0).getD i 0 = o.getD i 0 := by
  rw [List.getD_eq_getElem?_getD, List.getD_eq_getElem?_getD, List.getElem?_append]
  split_ifs with hi
  · rfl
  · rw [List.getElem?_eq_none (l := o) (by omega), List.getElem?_replicate]
    split_ifs <;> rfl

theorem byteAt_append_zeros (o : List UInt8) (n i : ℕ) :
    byteAt i (o ++ List.replicate n 0) = byteAt i o :=
  congrArg UInt8.toNat (getD_append_zeros o n i)

theorem ntohsAt_append_zeros (o : List UInt8) (n i : ℕ) :
    ntohsAt i (o ++ List.replicate n 0) = ntohsAt i o := by
  rw [ntohsAt, getD_append_zeros, getD_append_zeros, ntohsAt]

theorem ntohlAt_append_zeros (o : List UInt8) (n i : ℕ) :
    ntohlAt i (o ++ List.replicate n 0) = ntohlAt i o := by
  rw [ntohlAt, getD_append_zeros, getD_append_zeros, getD_append_zeros, getD_append_zeros, ntohlAt]

theorem rdStruct_full {t : ArsType} {o : List UInt8} (ht : t.hdrSize ≤ o.length) {n : ℕ}
    (hn : o.length ≤ n) :
    rdStruct (full t 0 o ht) n = .ok (o ++ List.replicate (n - o.length) 0) := by
  have hbytes : (full t 0 o ht).bytes = o := List.take_length
  rw [rdStruct_eq, hbytes, List.take_of_length_le hn]
  rfl

/-! ### Pieces with a slash in between -/

theorem slashed_concat (ps : List (List UInt8)) (p : List UInt8) :
    slashed (ps ++ [p]) = (ps.map (· ++ [ch '/'])).flatten ++ p := by
  have heq : ((ps ++ [p]).map (· ++ lit "/")).flatten =
      (ps.map (· ++ [ch '/'])).flatten ++ p ++ [ch '/'] := by
    simp [lit]
  rw [slashed, heq, adbufRtrim, List.dropLast_concat]

theorem slashed_ne_nil {ps : List (List UInt8)} (hne : ps ≠ []) (h : ∀ p ∈ ps, p ≠ []) :
    slashed ps ≠ [] := by
  rcases List.eq_nil_or_concat ps with rfl | ⟨qs, q, rfl⟩
  · exact absurd rfl hne
  · rw [List.concat_eq_append] at h ⊢
    rw [slashed_concat]
    exact List.append_ne_nil_of_right_ne_nil _
      (h q (List.mem_append_right _ List.mem_cons_self))

theorem length_slashed_le {ps : List (List UInt8)} {m : ℕ} (h : ∀ p ∈ ps, p.length ≤ m) :
    (slashed ps).length ≤ (m + 1) * ps.length := by
  rw [slashed, adbufRtrim, List.length_dropLast]
  refine (Nat.sub_le _ _).trans ?_
  induction ps with
  | nil => exact Nat.zero_le _
  | cons p ps ih =>
    have hp := h p List.mem_cons_self
    have hps := ih fun q hq => h q (List.mem_cons_of_mem p hq)
    have hone : (lit "/").length = 1 := rfl
    rw [List.map_cons, List.flatten_cons, List.length_append, List.length_append, List.length_cons,
      Nat.mul_succ]
    omega

/-- **The pieces are found again.** -/
theorem strftok_slashed {ps : List (List UInt8)} (h : ∀ p ∈ ps, p ≠ [] ∧ ∀ c ∈ p, c ≠ ch '/')
    {n : ℕ} (hn : ps.length ≤ n) : strftok (ch '/') (slashed ps) n = ps := by
  rcases List.eq_nil_or_concat ps with rfl | ⟨qs, q, rfl⟩
  · rw [slashed, strftok]
    exact List.take_nil
  · rw [List.concat_eq_append] at h hn ⊢
    rw [slashed_concat, strftok_pieces (fun p hp => h p (List.mem_append_left _ hp))
      (h q (List.mem_append_right _ List.mem_cons_self)), List.take_of_length_le hn]

/-! ### The blocks of a SACK option -/

/-- A block as it is written. -/
def sackBlock (o : List UInt8) (i : ℕ) : List UInt8 :=
  fmtU (ntohlAt (2 + 8 * i) o) ++ lit "-" ++ fmtU (ntohlAt (6 + 8 * i) o)

/-- The first `k` blocks. -/
def sackBlocks (o : List UInt8) (k : ℕ) : List UInt8 :=
  slashed ((List.range k).map (sackBlock o))

theorem digit_of_mem_fmtU {n : ℕ} {c : UInt8} (hc : c ∈ fmtU n) : digitVal c < 10 :=
  digitVal_of_mem_fmt (show 1 < 10 by decide) (by decide) n c hc

theorem mem_sackBlock {o : List UInt8} {i : ℕ} {c : UInt8} (hc : c ∈ sackBlock o i) :
    digitVal c < 10 ∨ c = ch '-' := by
  rw [sackBlock, List.mem_append, List.mem_append] at hc
  rcases hc with (hc | hc) | hc
  · exact Or.inl (digit_of_mem_fmtU hc)
  · exact Or.inr (List.mem_singleton.mp hc)
  · exact Or.inl (digit_of_mem_fmtU hc)

theorem slash_notMem_sackBlock (o : List UInt8) (i : ℕ) : ∀ c ∈ sackBlock o i, c ≠ ch '/' := by
  rintro c hc rfl
  rcases mem_sackBlock hc with h | h
  · exact absurd h (by decide)
  · exact absurd h (by decide)

theorem sackBlock_ne_nil (o : List UInt8) (i : ℕ) : sackBlock o i ≠ [] := by
  rw [sackBlock]
  exact List.append_ne_nil_of_right_ne_nil _ (fmt_ne_nil 10 _)

theorem length_sackBlock_le (o : List UInt8) (i : ℕ) : (sackBlock o i).length ≤ 21 := by
  have hnum : ∀ j, (fmtU (ntohlAt j o)).length ≤ 10 := fun j =>
    @length_fmt_le 10 (by decide) _ 9 (by have := ntohlAt_lt j o; omega)
  have h1 := hnum (2 + 8 * i)
  have h2 := hnum (6 + 8 * i)
  have hdash : (lit "-").length = 1 := rfl
  rw [sackBlock, List.length_append, List.length_append]
  omega

theorem sackBlocks_succ (o : List UInt8) (k : ℕ) :
    sackBlocks o (k + 1) =
      (((List.range k).map (sackBlock o)).map (· ++ [ch '/'])).flatten ++ sackBlock o k := by
  rw [sackBlocks, List.range_succ, List.map_append, List.map_singleton, slashed_concat]

theorem isWord_sackBlocks (o : List UInt8) {k : ℕ} (hk : k < 4) :
    IsWord (sackBlocks o (k + 1)) where
  ne_nil := by
    rw [sackBlocks_succ]
    exact List.append_ne_nil_of_right_ne_nil _ (sackBlock_ne_nil o k)
  delim := by
    have hblock : ∀ i, ∀ c ∈ sackBlock o i, isDelim c = false := by
      rintro i c hc
      rcases mem_sackBlock hc with h | rfl
      · exact isDelim_of_digitVal (by omega)
      · decide
    rw [sackBlocks_succ]
    rintro c hc
    rcases List.mem_append.mp hc with hc | hc
    · obtain ⟨s, hs, hc⟩ := List.mem_flatten.mp hc
      obtain ⟨b, hb, rfl⟩ := List.mem_map.mp hs
      obtain ⟨i, -, rfl⟩ := List.mem_map.mp hb
      rcases List.mem_append.mp hc with hc | hc
      · exact hblock i c hc
      · obtain rfl := List.mem_singleton.mp hc
        decide
    · exact hblock k c hc
  length_lt := by
    have hle := @length_slashed_le ((List.range (k + 1)).map (sackBlock o)) 21 fun p hp => by
      obtain ⟨i, -, rfl⟩ := List.mem_map.mp hp
      exact length_sackBlock_le o i
    have hmax : arsMaxTsize = 12000 := rfl
    rw [List.length_map, List.length_range] at hle
    rw [sackBlocks]
    omega

/-- The blocks are found again. -/
theorem strftok_sackBlocks (o : List UInt8) {k : ℕ} (hk : k < 4) :
    strftok (ch '/') (sackBlocks o (k + 1)) tcpoptsackMaxEntries =
      (List.range (k + 1)).map (sackBlock o) := by
  refine strftok_slashed (fun p hp => ?_) ?_
  · obtain ⟨i, -, rfl⟩ := List.mem_map.mp hp
    exact ⟨sackBlock_ne_nil o i, slash_notMem_sackBlock o i⟩
  · rw [List.length_map, List.length_range]
    exact hk

theorem strchr_eq {c : UInt8} {u : List UInt8} (hu : ∀ d ∈ u, d ≠ c) (v : List UInt8) :
    strchr c (u ++ c :: v) = some (u, v) := by
  have htake : (u ++ c :: v).takeWhile (· ≠ c) = u := by
    rw [List.takeWhile_append_of_pos (by simpa using hu), List.takeWhile_cons_of_neg (by simp),
      List.append_nil]
  have hdrop : (u ++ c :: v).dropWhile (· ≠ c) = c :: v := by
    rw [List.dropWhile_append_of_pos (by simpa using hu), List.dropWhile_cons_of_neg (by simp)]
  rw [strchr, if_pos (by simp), htake, hdrop]
  rfl

theorem setSackBlock_of_strchr {l : ArsLayer} {b u v : List UInt8}
    (h : strchr (ch '-') b = some (u, v)) (i : ℕ) : setSackBlock l (b, i) =
      put (2 + 8 * i) (putBe32 (arsAtou u)) l >>= put (6 + 8 * i) (putBe32 (arsAtou v)) := by
  simp only [setSackBlock, h, Nat.mul_comm i 8]

/-- A block is stored. -/
theorem fill_sackBlock {l0 : ArsLayer} {h : List UInt8} {flags i : ℕ}
    (hi : 2 + 8 * (i + 1) ≤ h.length) :
    Fill l0 h (fun l => setSackBlock l (sackBlock h i, i)) (2 + 8 * i) [] flags
      (2 + 8 * (i + 1)) [] flags := by
  have hsplit : strchr (ch '-') (sackBlock h i) =
      some (fmtU (ntohlAt (2 + 8 * i) h), fmtU (ntohlAt (6 + 8 * i) h)) := by
    have hdash : lit "-" = [ch '-'] := rfl
    rw [sackBlock, List.append_assoc, hdash, List.singleton_append]
    refine strchr_eq ?_ _
    rintro d hd rfl
    exact absurd (digit_of_mem_fmtU hd) (by decide)
  rintro l hl
  have hlt : ∀ j, ntohlAt j h < 4294967296 := fun j => ntohlAt_lt j h
  obtain ⟨l1, hok1, hl1⟩ := @fill_net32 l0 h (2 + 8 * i) flags numericLibc
    (fmtU (ntohlAt (2 + 8 * i) h)) (by omega) (arsAtou_fmtU (hlt _)) l hl
  rw [show 2 + 8 * i + 4 = 6 + 8 * i by omega] at hl1
  obtain ⟨l2, hok2, hl2⟩ := @fill_net32 l0 h (6 + 8 * i) flags numericLibc
    (fmtU (ntohlAt (6 + 8 * i) h)) (by omega) (arsAtou_fmtU (hlt _)) l1 hl1
  rw [show 6 + 8 * i + 4 = 2 + 8 * (i + 1) by omega] at hl2
  refine ⟨l2, ?_, hl2⟩
  rw [setNet32] at hok1 hok2
  exact (setSackBlock_of_strchr hsplit i).trans (by rw [hok1, bind_ok, hok2])

/-- **The blocks are stored one after the other.** -/
theorem fill_sackBlocks {l0 : ArsLayer} {h : List UInt8} {flags : ℕ} :
    ∀ {k : ℕ}, 2 + 8 * k ≤ h.length →
      Fill l0 h (fun l => ((List.range k).map fun i => (sackBlock h i, i)).foldlM setSackBlock l)
        2 [] flags (2 + 8 * k) [] flags := by
  intro k
  induction k with
  | zero => exact fun _ l hl => ⟨l, rfl, hl⟩
  | succ k ih =>
    rintro hk l hl
    obtain ⟨l1, hok1, hl1⟩ := ih (by omega) l hl
    obtain ⟨l2, hok2, hl2⟩ := fill_sackBlock hk l1 hl1
    refine ⟨l2, ?_, hl2⟩
    dsimp only at hok1 hok2 ⊢
    rw [List.range_succ, List.map_append, List.foldlM_append, hok1, bind_ok, List.map_singleton,
      List.foldlM_cons, hok2, bind_ok]
    rfl

/-! ### Writing -/

/-- The description of a TCP option; those of the SACK kind have `k + 1` blocks. -/
def tcpoptDesc (o : List UInt8) : LayerDesc :=
  if byteAt 0 o = arsTcpoptEol then ⟨"tcp.eol", []⟩
  else if byteAt 0 o = arsTcpoptNop then ⟨"tcp.nop", []⟩
  else if byteAt 0 o = arsTcpoptMaxseg then ⟨"tcp.mss", [⟨"size", fmtU (ntohsAt 2 o)⟩]⟩
  else if byteAt 0 o = arsTcpoptWindow then ⟨"tcp.wscale", [⟨"shift", fmtU (byteAt 2 o)⟩]⟩
  else if byteAt 0 o = arsTcpoptSackPerm then ⟨"tcp.sackperm", []⟩
  else if byteAt 0 o = arsTcpoptSack then
    ⟨"tcp.sack", [⟨"blocks", sackBlocks o ((o.length - 2) / 8)⟩]⟩
  else if byteAt 0 o = arsTcpoptEchorequest then
    ⟨"tcp.echo", [⟨"info", fmtU (ntohlAt 2 o)⟩]⟩
  else if byteAt 0 o = arsTcpoptEchoreply then
    ⟨"tcp.echoreply", [⟨"info", fmtU (ntohlAt 2 o)⟩]⟩
  else ⟨"tcp.ts", [⟨"val", fmtU (ntohlAt 2 o)⟩, ⟨"ecr", fmtU (ntohlAt 6 o)⟩]⟩

/-- The blocks are read. -/
theorem mapM_sackBytes {s : List UInt8} (hs : s.length = 34) {k : ℕ} (hk : k ≤ 4) :
    (List.range k).mapM (fun i => rdBytes s (2 + 8 * i) 8) =
      .ok ((List.range k).map fun i => (s.drop (2 + 8 * i)).take 8) := by
  generalize hxs : List.range k = xs
  have hlt : ∀ i ∈ xs, i < 4 := by
    rintro i hi
    rw [← hxs, List.mem_range] at hi
    omega
  clear hxs
  induction xs with
  | nil => rfl
  | cons i xs ih =>
    have hi := hlt i List.mem_cons_self
    rw [List.mapM_cons, rdBytes_eq (by omega), bind_ok,
      ih fun j hj => hlt j (List.mem_cons_of_mem _ hj)]
    rfl

/-- What is printed for a block that is read. -/
theorem sackBytes_text (s : List UInt8) (i : ℕ) :
    fmtU (ntohlAt 0 ((s.drop (2 + 8 * i)).take 8)) ++ lit "-" ++
      fmtU (ntohlAt 4 ((s.drop (2 + 8 * i)).take 8)) = sackBlock s i := by
  have hbyte : ∀ j < 8, ((s.drop (2 + 8 * i)).take 8).getD j 0 = s.getD (2 + 8 * i + j) 0 := by
    intro j hj
    rw [List.getD_eq_getElem?_getD, List.getD_eq_getElem?_getD, List.getElem?_take_of_lt hj,
      List.getElem?_drop]
  have h6 : 6 + 8 * i = 2 + 8 * i + 4 := by omega
  rw [sackBlock, h6]
  simp only [ntohlAt]
  rw [hbyte 0 (by decide), hbyte (0 + 1) (by decide), hbyte (0 + 2) (by decide),
    hbyte (0 + 3) (by decide), hbyte 4 (by decide), hbyte (4 + 1) (by decide),
    hbyte (4 + 2) (by decide), hbyte (4 + 3) (by decide)]
  rfl

theorem sackBlock_append_zeros (o : List UInt8) (n i : ℕ) :
    sackBlock (o ++ List.replicate n 0) i = sackBlock o i := by
  rw [sackBlock, ntohlAt_append_zeros, ntohlAt_append_zeros, sackBlock]

/-- **The text of the blocks**, for an option of some length. -/
theorem arsRapdSack_eq {l : ArsLayer} {s : List UInt8} (hs : s.length = 34)
    (hlen : (arsRapdOptlen l s - 2) / 8 ≤ 4) :
    arsRapdSack l s =
      .ok (lit "tcp.sack(blocks=" ++ sackBlocks s ((arsRapdOptlen l s - 2) / 8) ++ lit ")+") := by
  have hblocks := mapM_sackBytes hs hlen
  have htext : ((List.range ((arsRapdOptlen l s - 2) / 8)).map fun i =>
      (s.drop (2 + 8 * i)).take 8).map
        (fun b => fmtU (ntohlAt 0 b) ++ lit "-" ++ fmtU (ntohlAt 4 b)) =
      (List.range ((arsRapdOptlen l s - 2) / 8)).map (sackBlock s) := by
    rw [List.map_map]
    refine List.map_congr_left fun i _ => ?_
    rw [Function.comp_apply]
    exact sackBytes_text s i
  rw [arsRapdSack, Nat.min_eq_left hlen, hblocks, bind_ok, htext]
  rfl

theorem rapd_sack {o : List UInt8} (h : StdTcpopt o) (hkind : byteAt 0 o = arsTcpoptSack) :
    arsRapdSack (tcpoptLayer o) (o ++ List.replicate (34 - o.length) 0) =
      .ok ((tcpoptDesc o).text ++ lit "+") := by
  have hlen := h.length_le
  have hmem := h.kind
  rw [hkind] at hmem
  have hblocks : 10 ≤ o.length ∧ (o.length - 2) / 8 ≤ 4 := by
    have hall : ∀ e ∈ tcpoptLens, e.1 = arsTcpoptSack → 10 ≤ e.2 ∧ (e.2 - 2) / 8 ≤ 4 := by decide
    exact hall _ hmem rfl
  have hsize : (tcpoptLayer o).lSize = o.length := rfl
  have hopt : arsRapdOptlen (tcpoptLayer o) (o ++ List.replicate (34 - o.length) 0) = o.length := by
    rw [arsRapdOptlen, hsize, if_pos (by omega), byteAt_append_zeros, h.byteAt_one (by omega),
      Nat.min_self]
  have hstruct : (o ++ List.replicate (34 - o.length) 0).length = 34 := by
    rw [List.length_append, List.length_replicate]
    omega
  have hdesc : tcpoptDesc o = ⟨"tcp.sack", [⟨"blocks", sackBlocks o ((o.length - 2) / 8)⟩]⟩ := by
    rw [tcpoptDesc, hkind]
    rfl
  have hsame : sackBlocks (o ++ List.replicate (34 - o.length) 0) ((o.length - 2) / 8) =
      sackBlocks o ((o.length - 2) / 8) := by
    exact congrArg slashed (List.map_congr_left fun i _ => sackBlock_append_zeros o _ i)
  have hopen : lit "tcp.sack(blocks=" =
      lit "tcp.sack" ++ lit "(" ++ (lit "blocks" ++ lit "=") := rfl
  rw [arsRapdSack_eq hstruct (by rw [hopt]; exact hblocks.2), hopt, hsame, hdesc,
    text_field hopen]

/-- **The text of an option is that of its description.** -/
theorem writes_tcpopt (libc : Libc) (pkt : ArsPacket) {o : List UInt8} (h : StdTcpopt o) :
    Writes libc pkt (tcpoptLayer o) (tcpoptDesc o) := by
  have hstruct : rdStruct (tcpoptLayer o) 34 = .ok (o ++ List.replicate (34 - o.length) 0) :=
    rdStruct_full _ h.length_le
  have hrun : arsLiRapd libc (tcpoptLayer o).lType pkt (tcpoptLayer o) =
      arsRapdTcpopt pkt (tcpoptLayer o) := rfl
  rw [Writes, hrun, arsRapdTcpopt, hstruct, bind_ok]
  dsimp only
  rw [byteAt_append_zeros]
  simp only [ntohsAt_append_zeros, ntohlAt_append_zeros, byteAt_append_zeros]
  cases h.kinds with
  | eol hk hn =>
    rw [tcpoptDesc, hk]
    exact congrArg Except.ok (text_noFields rfl)
  | nop hk hn =>
    rw [tcpoptDesc, hk]
    exact congrArg Except.ok (text_noFields rfl)
  | maxseg hk hn =>
    rw [tcpoptDesc, hk]
    exact congrArg Except.ok (text_field rfl _)
  | window hk hn =>
    rw [tcpoptDesc, hk]
    exact congrArg Except.ok (text_field rfl _)
  | sackPerm hk hn =>
    rw [tcpoptDesc, hk]
    exact congrArg Except.ok (text_noFields rfl)
  | sack k hk hlt hn =>
    have hsack := rapd_sack h hk
    rw [hk]
    exact hsack
  | echorequest hk hn =>
    rw [tcpoptDesc, hk]
    exact congrArg Except.ok (text_field rfl _)
  | echoreply hk hn =>
    rw [tcpoptDesc, hk]
    exact congrArg Except.ok (text_field rfl _)
  | timestamp hk hn =>
    rw [tcpoptDesc, hk]
    have hopen : lit "tcp.ts(val=" = lit "tcp.ts" ++ lit "(" ++ (lit "val" ++ lit "=") := rfl
    exact congrArg Except.ok (@text_twoFields _ _ "tcp.ts" "val" "ecr" hopen rfl _ _)

theorem tcpoptDesc_wf {o : List UInt8} (h : StdTcpopt o) : (tcpoptDesc o).Wf := by
  cases h.kinds with
  | eol hk hn =>
    rw [tcpoptDesc, hk]
    exact ⟨(by decide : IsWord (lit "tcp.eol")), fields_nil⟩
  | nop hk hn =>
    rw [tcpoptDesc, hk]
    exact ⟨(by decide : IsWord (lit "tcp.nop")), fields_nil⟩
  | maxseg hk hn =>
    rw [tcpoptDesc, hk]
    exact ⟨(by decide : IsWord (lit "tcp.mss")),
      fields_cons (by decide) (isWord_fmtU (ntohsAt_lt _ _)) fields_nil⟩
  | window hk hn =>
    rw [tcpoptDesc, hk]
    exact ⟨(by decide : IsWord (lit "tcp.wscale")),
      fields_cons (by decide) (isWord_fmtU ((byteAt_lt _ _).trans (by decide))) fields_nil⟩
  | sackPerm hk hn =>
    rw [tcpoptDesc, hk]
    exact ⟨(by decide : IsWord (lit "tcp.sackperm")), fields_nil⟩
  | sack k hk hlt hn =>
    have hcount : (o.length - 2) / 8 = k + 1 := by omega
    rw [tcpoptDesc, hk, hcount]
    exact ⟨(by decide : IsWord (lit "tcp.sack")),
      fields_cons (by decide) (isWord_sackBlocks o hlt) fields_nil⟩
  | echorequest hk hn =>
    rw [tcpoptDesc, hk]
    exact ⟨(by decide : IsWord (lit "tcp.echo")),
      fields_cons (by decide) (isWord_fmtU (ntohlAt_lt _ _)) fields_nil⟩
  | echoreply hk hn =>
    rw [tcpoptDesc, hk]
    exact ⟨(by decide : IsWord (lit "tcp.echoreply")),
      fields_cons (by decide) (isWord_fmtU (ntohlAt_lt _ _)) fields_nil⟩
  | timestamp hk hn =>
    rw [tcpoptDesc, hk]
    exact ⟨(by decide : IsWord (lit "tcp.ts")),
      fields_cons (by decide) (isWord_fmtU (ntohlAt_lt _ _)) <|
        fields_cons (by decide) (isWord_fmtU (ntohlAt_lt _ _)) fields_nil⟩

/-! ### Building -/

/-- **What is built** from the description of an option: the option, but for the SACK kind, of
which four blocks are added whatever is described. -/
def rebuiltTcpopt (o : List UInt8) : List UInt8 :=
  if byteAt 0 o = arsTcpoptSack then [5, 34] ++ o.drop 2 ++ List.replicate (34 - o.length) 0 else o

theorem rebuiltTcpopt_of_ne {o : List UInt8} (h : byteAt 0 o ≠ arsTcpoptSack) :
    rebuiltTcpopt o = o := if_neg h

theorem rebuiltTcpopt_sack {o : List UInt8} (h : byteAt 0 o = arsTcpoptSack) :
    rebuiltTcpopt o = [5, 34] ++ o.drop 2 ++ List.replicate (34 - o.length) 0 := if_pos h

theorem length_rebuiltTcpopt {o : List UInt8} (h : StdTcpopt o) :
    (rebuiltTcpopt o).length = if byteAt 0 o = arsTcpoptSack then 34 else o.length := by
  have hlen := h.length_le
  rw [rebuiltTcpopt]
  split_ifs with h5
  · have hmem := h.kind
    have hall : ∀ e ∈ tcpoptLens, e.1 = arsTcpoptSack → 2 ≤ e.2 := by decide
    have h2 := hall _ hmem h5
    rw [List.length_append, List.length_append, List.length_drop, List.length_replicate]
    simp only [List.length_cons, List.length_nil]
    omega
  · rfl

/-- The first two bytes of an option. -/
theorem StdTcpopt.take_two {o : List UInt8} (h : StdTcpopt o) {k n : ℕ} (hk : byteAt 0 o = k)
    (hn : o.length = n) (h2 : 2 ≤ n) : o.take 2 = [UInt8.ofNat k, UInt8.ofNat n] := by
  have htake := @slice_eq_two o 0 (by omega)
  have h1 := h.byteAt_one (by omega)
  rw [hn] at h1
  rw [List.drop_zero] at htake
  rw [htake, ← hk, ← h1, byteAt, byteAt, UInt8.ofNat_toNat, UInt8.ofNat_toNat]

theorem sackBlock_rebuiltTcpopt {o : List UInt8} (h : byteAt 0 o = arsTcpoptSack) (i : ℕ) : sackBlock (rebuiltTcpopt o) i = sackBlock o i := by
  have hget : ∀ j, (rebuiltTcpopt o).getD (2 + j) 0 = o.getD (2 + j) 0 := by
    intro j
    have hskip : ([5, 34] ++ (o.drop 2 ++ List.replicate (34 - o.length) 0)).getD (2 + j) 0 =
        (o.drop 2 ++ List.replicate (34 - o.length) 0).getD j 0 := by
      rw [List.getD_append_right _ _ _ _ (show [(5 : UInt8), 34].length ≤ 2 + j from
        Nat.le_add_right 2 j)]
      exact congrArg (List.getD _ · 0) (Nat.add_sub_cancel_left 2 j)
    rw [rebuiltTcpopt_sack h, List.append_assoc, hskip, getD_append_zeros, List.getD_eq_getElem?_getD,
      List.getD_eq_getElem?_getD, List.getElem?_drop]
  have hword : ∀ j, ntohlAt (2 + j) (rebuiltTcpopt o) = ntohlAt (2 + j) o := by
    intro j
    rw [ntohlAt, ntohlAt]
    simp only [Nat.add_assoc, hget]
  rw [sackBlock, sackBlock, hword, show 6 + 8 * i = 2 + (4 + 8 * i) by omega, hword]

theorem lType_tcpoptNew (kind n : ℕ) : (tcpoptNew kind n).lType = .tcpopt := by
  simp only [tcpoptNew]
  split_ifs
  all_goals rfl

theorem lSize_tcpoptNew (kind n : ℕ) : (tcpoptNew kind n).lSize = n := by
  have hfull : (full .tcpopt 0 (List.replicate n 0) (ArsType.hdrSize_le rfl _)).lSize = n :=
    List.length_replicate
  simp only [tcpoptNew]
  split_ifs
  all_goals simpa only [write_lSize] using hfull

theorem lFlags_tcpoptNew (kind n : ℕ) : (tcpoptNew kind n).lFlags = 0 := by
  simp only [tcpoptNew]
  split_ifs
  all_goals rfl

theorem length_tcpoptNew (kind n : ℕ) : (tcpoptNew kind n).lData.length = n := by
  have hfull : (full .tcpopt 0 (List.replicate n 0) (ArsType.hdrSize_le rfl _)).lData.length = n :=
    List.length_replicate
  simp only [tcpoptNew]
  split_ifs
  all_goals simpa only [write_lData, length_writeAt] using hfull

/-- An option is built by filling a new one of its kind; the first `m` bytes of that one are
right, and those behind the fields. -/
theorem builds_tcpoptKind {libc : Libc} {kw : String} {fs : List DField} (kind : ℕ)
    (s : Libc → ArsLayer → List UInt8 → List UInt8 → Except ArsErr ArsLayer) {n m n' : ℕ}
    {o : List UInt8}
    (hk : arsGetKeywordByName (lit kw) = some ⟨kw, (arsAddTcpopt · kind), s⟩)
    (hkind : arsTcpoptLen kind = some n) (hlen : o.length = n) (hm : m ≤ n)
    (hstart : o.take m = (tcpoptNew kind n).lData.take m)
    (hfill : Fill (tcpoptNew kind n) o (setFields libc ⟨kw, (arsAddTcpopt · kind), s⟩ fs)
      m [] 0 n' [] 0)
    (hend : o.drop n' = (tcpoptNew kind n).lData.drop n') :
    Builds libc ⟨kw, fs⟩ (tcpoptLayer o) := by
  have hflags := lFlags_tcpoptNew kind n
  rw [← hflags] at hfill
  have hbuilds := @builds_of_fill _ o m n' _ libc ⟨kw, fs⟩ _ hk (addsLayer_tcpopt hkind)
    ((lSize_tcpoptNew kind n).trans hlen.symm) ((length_tcpoptNew kind n).trans hlen.symm)
    (hm.trans hlen.ge) hstart hfill hend (by rw [lType_tcpoptNew]; exact Nat.zero_le _)
  simp only [lType_tcpoptNew, hflags] at hbuilds
  exact hbuilds

/-- All that is in the option is in its first bytes and its fields. -/
theorem drop_eq_tcpoptNew {o : List UInt8} {n : ℕ} (h : o.length = n) (kind : ℕ) :
    o.drop n = (tcpoptNew kind n).lData.drop n := by
  rw [List.drop_eq_nil_of_le h.le, List.drop_eq_nil_of_le (length_tcpoptNew kind n).le]

/-- An option of the SACK kind. -/
theorem builds_sack (libc : Libc) {o : List UInt8} (h : StdTcpopt o)
    (hkind : byteAt 0 o = arsTcpoptSack) :
    Builds libc ⟨"tcp.sack", [⟨"blocks", sackBlocks o ((o.length - 2) / 8)⟩]⟩
      (tcpoptLayer (rebuiltTcpopt o)) := by
  have hlen : (rebuiltTcpopt o).length = 34 := by rw [length_rebuiltTcpopt h, if_pos hkind]
  have hblocks : ∃ k < 4, o.length = 2 + 8 * (k + 1) := by
    have hall : ∀ e ∈ tcpoptLens, e.1 = arsTcpoptSack → ∃ k < 4, e.2 = 2 + 8 * (k + 1) := by decide
    exact hall _ h.kind hkind
  obtain ⟨k, hk, ho⟩ := hblocks
  have hcount : (o.length - 2) / 8 = k + 1 := by omega
  have hzip : ∀ n, ((List.range n).map (sackBlock o)).zipIdx =
      (List.range n).map fun i => (sackBlock (rebuiltTcpopt o) i, i) := by
    intro n
    rw [List.zipIdx_eq_zip_range', List.length_map, List.length_range, ← List.range_eq_range',
      List.zip_map_left, List.zip_eq_zipWith, List.zipWith_self, List.map_map]
    refine List.map_congr_left fun i _ => ?_
    rw [sackBlock_rebuiltTcpopt hkind]
    rfl
  have hfill : Fill (tcpoptNew arsTcpoptSack 34) (rebuiltTcpopt o)
      (setFields libc ⟨"tcp.sack", (arsAddTcpopt · arsTcpoptSack), arsDSetTcpoptSack⟩
        [⟨"blocks", sackBlocks o ((o.length - 2) / 8)⟩]) 2 [] 0 (2 + 8 * (k + 1)) [] 0 := by
    refine .cons (fun _ v l => (strftok (ch '/') v tcpoptsackMaxEntries).zipIdx.foldlM setSackBlock l)
      (fun _ => rfl) ?_ (.nil _)
    rw [hcount, strftok_sackBlocks o hk, hzip]
    exact fill_sackBlocks (by omega)
  refine builds_tcpoptKind arsTcpoptSack arsDSetTcpoptSack rfl rfl hlen (m := 2) (by omega) (by rw [rebuiltTcpopt_sack hkind]; rfl)
    hfill ?_
  -- the blocks that are not described
  have hprefix : ([5, 34] ++ o.drop 2).length = 2 + 8 * (k + 1) := by
    rw [List.length_append, List.length_drop]
    simp only [List.length_cons, List.length_nil]
    omega
  rw [rebuiltTcpopt_sack hkind, ← hprefix, List.drop_left, hprefix, ho]
  have hall : ∀ k < 4, List.replicate (34 - (2 + 8 * (k + 1))) (0 : UInt8) =
      (tcpoptNew arsTcpoptSack 34).lData.drop (2 + 8 * (k + 1)) := by decide
  exact hall k hk

/-- **An option is built from its description.** -/
theorem builds_tcpopt (libc : Libc) {o : List UInt8} (h : StdTcpopt o) :
    Builds libc (tcpoptDesc o) (tcpoptLayer (rebuiltTcpopt o)) := by
  have hself : ∀ {k : ℕ}, byteAt 0 o = k → k ≠ arsTcpoptSack → rebuiltTcpopt o = o := by
    rintro k rfl hk
    exact rebuiltTcpopt_of_ne hk
  -- the kinds of one byte
  have hone : ∀ {k : ℕ}, byteAt 0 o = k → o.length = 1 → o = [UInt8.ofNat k] := by
    rintro k rfl h1
    obtain ⟨b, rfl⟩ := List.length_eq_one_iff.mp h1
    exact congrArg (fun c => [c]) (UInt8.ofNat_toNat).symm
  cases h.kinds with
  | eol hk hn =>
    have hdesc : tcpoptDesc o = ⟨"tcp.eol", []⟩ := by
      rw [tcpoptDesc, hk]
      rfl
    rw [hself hk (by decide), hdesc]
    exact builds_tcpoptKind arsTcpoptEol arsDSetTcpoptDumb rfl rfl hn (m := 1)
      (Nat.le_refl 1) (by rw [hone hk hn]; rfl) (.nil _) (drop_eq_tcpoptNew hn _)
  | nop hk hn =>
    have hdesc : tcpoptDesc o = ⟨"tcp.nop", []⟩ := by
      rw [tcpoptDesc, hk]
      rfl
    rw [hself hk (by decide), hdesc]
    exact builds_tcpoptKind arsTcpoptNop arsDSetTcpoptDumb rfl rfl hn (m := 1)
      (Nat.le_refl 1) (by rw [hone hk hn]; rfl) (.nil _) (drop_eq_tcpoptNew hn _)
  | maxseg hk hn =>
    have hdesc : tcpoptDesc o = ⟨"tcp.mss", [⟨"size", fmtU (ntohsAt 2 o)⟩]⟩ := by
      rw [tcpoptDesc, hk]
      rfl
    rw [hself hk (by decide), hdesc]
    exact builds_tcpoptKind arsTcpoptMaxseg arsDSetTcpoptMss rfl rfl hn (m := 2)
      (by decide) (h.take_two hk hn (by decide))
      (.cons (setNet16 2) (fun _ => rfl)
        (fill_net16 (by omega) (arsAtou_fmtU (ntohsAt_lt _ _))) (.nil _))
      (drop_eq_tcpoptNew hn _)
  | window hk hn =>
    have hdesc : tcpoptDesc o = ⟨"tcp.wscale", [⟨"shift", fmtU (byteAt 2 o)⟩]⟩ := by
      rw [tcpoptDesc, hk]
      rfl
    rw [hself hk (by decide), hdesc]
    exact builds_tcpoptKind arsTcpoptWindow arsDSetTcpoptWscale rfl rfl hn (m := 2)
      (by decide) (h.take_two hk hn (by decide))
      (.cons (setByte 2) (fun _ => rfl)
        (fill_byte (by omega) (arsAtou_fmtU ((byteAt_lt _ _).trans (by decide)))) (.nil _))
      (drop_eq_tcpoptNew hn _)
  | sackPerm hk hn =>
    have hdesc : tcpoptDesc o = ⟨"tcp.sackperm", []⟩ := by
      rw [tcpoptDesc, hk]
      rfl
    rw [hself hk (by decide), hdesc]
    exact builds_tcpoptKind arsTcpoptSackPerm arsDSetTcpoptDumb rfl rfl hn (m := 2)
      (Nat.le_refl 2) (h.take_two hk hn (by decide)) (.nil _) (drop_eq_tcpoptNew hn _)
  | sack k hk hlt hn =>
    have hdesc : tcpoptDesc o = ⟨"tcp.sack", [⟨"blocks", sackBlocks o ((o.length - 2) / 8)⟩]⟩ := by
      rw [tcpoptDesc, hk]
      rfl
    rw [hdesc]
    exact builds_sack libc h hk
  | echorequest hk hn =>
    have hdesc : tcpoptDesc o = ⟨"tcp.echo", [⟨"info", fmtU (ntohlAt 2 o)⟩]⟩ := by
      rw [tcpoptDesc, hk]
      rfl
    rw [hself hk (by decide), hdesc]
    exact builds_tcpoptKind arsTcpoptEchorequest arsDSetTcpoptEcho rfl rfl hn (m := 2)
      (by decide) (h.take_two hk hn (by decide))
      (.cons (setNet32 2) (fun _ => rfl)
        (fill_net32 (by omega) (arsAtou_fmtU (ntohlAt_lt _ _))) (.nil _))
      (drop_eq_tcpoptNew hn _)
  | echoreply hk hn =>
    have hdesc : tcpoptDesc o = ⟨"tcp.echoreply", [⟨"info", fmtU (ntohlAt 2 o)⟩]⟩ := by
      rw [tcpoptDesc, hk]
      rfl
    rw [hself hk (by decide), hdesc]
    exact builds_tcpoptKind arsTcpoptEchoreply arsDSetTcpoptEcho rfl rfl hn (m := 2)
      (by decide) (h.take_two hk hn (by decide))
      (.cons (setNet32 2) (fun _ => rfl)
        (fill_net32 (by omega) (arsAtou_fmtU (ntohlAt_lt _ _))) (.nil _))
      (drop_eq_tcpoptNew hn _)
  | timestamp hk hn =>
    have hdesc : tcpoptDesc o = ⟨"tcp.ts", [⟨"val", fmtU (ntohlAt 2 o)⟩, ⟨"ecr", fmtU (ntohlAt 6 o)⟩]⟩ := by
      rw [tcpoptDesc, hk]
      rfl
    rw [hself hk (by decide), hdesc]
    exact builds_tcpoptKind arsTcpoptTimestamp arsDSetTcpoptTs rfl rfl hn (m := 2)
      (by decide) (h.take_two hk hn (by decide))
      (.cons (setNet32 2) (fun _ => rfl)
        (fill_net32 (by omega) (arsAtou_fmtU (ntohlAt_lt _ _))) <|
      .cons (setNet32 6) (fun _ => rfl)
        (fill_net32 (by omega) (arsAtou_fmtU (ntohlAt_lt _ _))) (.nil _))
      (drop_eq_tcpoptNew hn _)

/-- **What is described of an option, and built again.** -/
theorem describes_tcpopt (libc : Libc) (pkt : ArsPacket) {o : List UInt8} (h : StdTcpopt o) :
    Describes libc pkt (tcpoptLayer o) (tcpoptLayer (rebuiltTcpopt o)) :=
  ⟨_, ⟨writes_tcpopt libc pkt h, tcpoptDesc_wf h⟩, builds_tcpopt libc h⟩

end StyxWire
