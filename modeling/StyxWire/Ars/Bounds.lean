import Mathlib.Data.List.TakeWhile
import StyxWire.Ars.Conservation
import StyxWire.Ars.Rapd

/-!
# No read leaves its bytes

Dissecting a buffer and describing the outcome reads nothing outside the bytes a handler
was given, the bytes of a layer, and the header structures: `StyxWire.dissect_describe_bounds`.

The handlers are covered by their specifications (`StyxWire.HandlerSpec`), which leave no
room for `StyxWire.ArsErr.oob`. The printers are covered one by one: none of them can fail,
whatever the layer, as the limits a loop derives from the length byte of an option are
never beyond the layer (`StyxWire.le_of_mem_arsOptPtrs`).
-/

namespace StyxWire

open Mem Text

/-! ### The IP offset -/

theorem arsSeemsIp_ok (ip : List UInt8) : ∃ b, arsSeemsIp ip ip.length = .ok b := by
  rw [arsSeemsIp]
  by_cases hlt : ip.length < 20
  · rw [if_pos hlt]
    exact ⟨_, rfl⟩
  · rw [if_neg hlt, rdBytes_eq (by omega), bind_ok]
    dsimp only
    have h0 : ((ip.drop 0).take 20).getD 0 0 = ip.getD 0 0 := by
      simp [List.getD_eq_getElem?_getD]
    rw [h0]
    split_ifs with h
    · exact arsCheckIpCksum_ok (by omega) h.2.2
    · exact ⟨_, rfl⟩

/-- Looking for the IP header reads nothing outside the buffer. -/
theorem arsGuessIpoffLoop_ne_oob (n : ℕ) (p : List UInt8) :
    arsGuessIpoffLoop n p ≠ .error .oob := by
  induction p with
  | nil => simp [arsGuessIpoffLoop, arsFail]
  | cons b p ih =>
    obtain ⟨c, hc⟩ := arsSeemsIp_ok (b :: p)
    rw [arsGuessIpoffLoop, hc, bind_ok]
    split_ifs
    · simp [arsFail]
    · simp [pure, Except.pure]
    · exact ih

theorem arsGuessIpoff_ne_oob (packet : List UInt8) : arsGuessIpoff packet ≠ .error .oob := by
  have h := arsGuessIpoffLoop_ne_oob packet.length packet
  rw [arsGuessIpoff]
  cases hl : arsGuessIpoffLoop packet.length packet with
  | ok off => simp [Except.map]
  | error e => simpa [Except.map, hl] using h

/-- The offset the dissection starts from is guessed or given; if it is not in the buffer, the
dissection fails. -/
theorem arsSplitPacket_cases (packet : List UInt8) (ipoff : ℤ) (pkt : ArsPacket) :
    (∃ code msg, arsSplitPacket packet ipoff pkt = .error (.ars code msg)) ∨
      ∃ off : ℕ, off ≤ packet.length ∧
        arsSplitPacket packet ipoff pkt = arsSplitPacket packet off pkt := by
  have key : ∀ i : ℤ, i ≠ -1 → (∃ code msg, arsSplitPacket packet i pkt = .error (.ars code msg)) ∨
      ∃ off : ℕ, off ≤ packet.length ∧
        arsSplitPacket packet i pkt = arsSplitPacket packet off pkt := by
    intro i hi
    by_cases hin : i < 0 ∨ packet.length < i.toNat
    · refine Or.inl ⟨.invalid, lit "IP offset larger than the packet", ?_⟩
      rw [arsSplitPacket, if_neg hi]
      exact if_pos hin
    · rw [not_or, Int.not_lt, Nat.not_lt] at hin
      refine Or.inr ⟨i.toNat, hin.2, ?_⟩
      rw [Int.toNat_of_nonneg hin.1]
  by_cases hneg : ipoff = -1
  · subst hneg
    rw [arsSplitPacket, if_pos rfl]
    have hoob := arsGuessIpoff_ne_oob packet
    rcases hg : arsGuessIpoff packet with (⟨code, msg⟩ | _) | off
    · exact Or.inl ⟨.invalid, lit "IP offset autodetection failed", rfl⟩
    · exact absurd hg hoob
    · by_cases hoff : off = -1
      · -- an offset beyond the range of an `int` is taken for a negative one
        refine Or.inl ⟨.invalid, lit "IP offset larger than the packet", ?_⟩
        rw [hoff]
        rfl
      · have h := key off hoff
        rw [arsSplitPacket, if_neg hoff] at h
        exact h
  · exact key ipoff hneg

/-! ### Reads that succeed -/

theorem exists_mapM_ok {α β : Type} {f : α → Except ArsErr β} {as : List α}
    (h : ∀ a ∈ as, ∃ b, f a = .ok b) : ∃ bs, as.mapM f = .ok bs := by
  induction as with
  | nil => exact ⟨[], rfl⟩
  | cons a as ih =>
    obtain ⟨b, hb⟩ := h a List.mem_cons_self
    obtain ⟨bs, hbs⟩ := ih fun a ha => h a (List.mem_cons_of_mem _ ha)
    refine ⟨b :: bs, ?_⟩
    rw [List.mapM_cons, hb, bind_ok, hbs, bind_ok]
    rfl

theorem rdHdr_eq (l : ArsLayer) : rdHdr l = .ok (l.lData.take l.lType.hdrSize) := by
  have h := l.hdr_le
  rw [rdHdr, rdBytes_eq (by omega), List.drop_zero]

theorem rdDefault_eq {pkt : ArsPacket} (h : pkt.NoDefault) (t : ArsType) :
    rdDefault pkt t = .ok none := by
  rw [rdDefault, h t]

theorem length_rdStruct (l : ArsLayer) (n : ℕ) :
    (l.bytes.take n ++ List.replicate (n - l.lSize) 0).length = n := by
  rw [List.length_append, List.length_take, ArsLayer.length_bytes, List.length_replicate]
  omega

theorem rdStruct_eq (l : ArsLayer) (n : ℕ) :
    rdStruct l n = .ok (l.bytes.take n ++ List.replicate (n - l.lSize) 0) := by
  have hlen : l.bytes.length = l.lSize := l.length_bytes
  have htake : (l.bytes.drop 0).take (min l.lSize n) = l.bytes.take n := by
    rw [List.drop_zero, ← hlen, Nat.min_comm, ← List.take_eq_take_min]
  rw [rdStruct, rdBytes_eq (by omega), bind_ok, htake]
  simp only [pure, Except.pure, List.length_take, hlen]
  congr 3
  omega

/-- **The entries a loop visits are inside the option**, and so inside the layer. -/
theorem le_of_mem_arsOptPtrs {start entry optlen ptr : ℕ}
    (h : ptr ∈ arsOptPtrs start entry optlen) : start ≤ ptr ∧ ptr + (entry - 1) ≤ optlen := by
  have hsat := List.mem_takeWhile_imp h
  have hmem := (List.takeWhile_prefix _).subset h
  obtain ⟨i, -, rfl⟩ := List.mem_map.mp hmem
  simp only [decide_eq_true_eq] at hsat
  exact ⟨Nat.le_add_right _ _, hsat.2⟩

theorem arsRapdOptlen_le (l : ArsLayer) (opt : List UInt8) : arsRapdOptlen l opt ≤ l.lSize := by
  unfold arsRapdOptlen
  split_ifs <;> omega

/-- The entries of an option can be read. -/
theorem exists_entries {l : ArsLayer} {opt : List UInt8} {start entry : ℕ} (hstart : 0 < start)
    (hentry : 0 < entry) :
    ∃ xs, (arsOptPtrs start entry (arsRapdOptlen l opt)).mapM
      (fun ptr => rdBytes l.bytes (ptr - 1) entry) = .ok xs := by
  refine exists_mapM_ok fun ptr hptr => ?_
  have hle := arsRapdOptlen_le l opt
  obtain ⟨h1, h2⟩ := le_of_mem_arsOptPtrs hptr
  exact ⟨_, rdBytes_eq (by rw [ArsLayer.length_bytes]; omega)⟩

/-! ### The printers -/

theorem arsRapdUnknown_ok (name : String) (l : ArsLayer) :
    ∃ text, arsRapdUnknown name l = .ok text := by
  rw [arsRapdUnknown, rdBytes_eq (by simp)]
  exact ⟨_, rfl⟩

theorem arsRapdRoute_ok (name : String) (l : ArsLayer) (ipopt : List UInt8) :
    ∃ text, arsRapdRoute name l ipopt = .ok text := by
  obtain ⟨xs, hxs⟩ := @exists_entries l ipopt 4 4 (by omega) (by omega)
  rw [arsRapdRoute, hxs]
  exact ⟨_, rfl⟩

theorem arsRapdTs_ok (l : ArsLayer) (ipopt : List UInt8) :
    ∃ text, arsRapdTs l ipopt = .ok text := by
  -- the entries are of eight bytes or of four, by the flags
  have hentry : 0 < if loAt 3 ipopt = arsIpoptTsTsandaddr ∨ loAt 3 ipopt = arsIpoptTsPrespec
      then 8 else 4 := by
    split_ifs <;> omega
  obtain ⟨xs, hxs⟩ := @exists_entries l ipopt 5 _ (by omega) hentry
  rw [arsRapdTs, hxs]
  exact ⟨_, rfl⟩

theorem arsRapdIpopt_ok (pkt : ArsPacket) (l : ArsLayer) :
    ∃ text, arsRapdIpopt pkt l = .ok text := by
  rw [arsRapdIpopt, rdStruct_eq, bind_ok]
  dsimp only
  split_ifs
  · exact ⟨_, rfl⟩
  · exact ⟨_, rfl⟩
  · exact arsRapdRoute_ok _ _ _
  · exact arsRapdRoute_ok _ _ _
  · exact arsRapdRoute_ok _ _ _
  · exact arsRapdTs_ok _ _
  · exact arsRapdUnknown_ok _ _

/-- **The blocks of a SACK option are inside the structure**: there are at most four. -/
theorem arsRapdSack_ok (l : ArsLayer) {tcpopt : List UInt8} (h : tcpopt.length = 34) :
    ∃ text, arsRapdSack l tcpopt = .ok text := by
  have hblocks : ∀ i ∈ List.range (min ((arsRapdOptlen l tcpopt - 2) / 8) 4),
      ∃ x, rdBytes tcpopt (2 + 8 * i) 8 = .ok x := by
    intro i hi
    rw [List.mem_range] at hi
    exact ⟨_, rdBytes_eq (by omega)⟩
  obtain ⟨xs, hxs⟩ := exists_mapM_ok hblocks
  rw [arsRapdSack, hxs]
  exact ⟨_, rfl⟩

theorem arsRapdTcpopt_ok (pkt : ArsPacket) (l : ArsLayer) :
    ∃ text, arsRapdTcpopt pkt l = .ok text := by
  rw [arsRapdTcpopt, rdStruct_eq, bind_ok]
  dsimp only
  split_ifs
  · exact ⟨_, rfl⟩
  · exact ⟨_, rfl⟩
  · exact ⟨_, rfl⟩
  · exact ⟨_, rfl⟩
  · exact ⟨_, rfl⟩
  · exact arsRapdSack_ok l (length_rdStruct l 34)
  · exact ⟨_, rfl⟩
  · exact ⟨_, rfl⟩
  · exact ⟨_, rfl⟩
  · exact arsRapdUnknown_ok _ _

theorem arsRapdData_ok (pkt : ArsPacket) (l : ArsLayer) :
    ∃ text, arsRapdData pkt l = .ok text := by
  rw [arsRapdData, rdBytes_eq (by simp), bind_ok]
  split_ifs <;> exact ⟨_, rfl⟩

/-- **No printer fails**, on a packet without defaults. -/
theorem arsLiRapd_ok (libc : Libc) {pkt : ArsPacket} (hdef : pkt.NoDefault) (l : ArsLayer) :
    ∃ text, arsLiRapd libc l.lType pkt l = .ok text := by
  cases ht : l.lType with
  | ip =>
    rw [arsLiRapd, arsRapdIp, rdHdr_eq, bind_ok, rdDefault_eq hdef]
    exact ⟨_, rfl⟩
  | ipopt => exact arsRapdIpopt_ok pkt l
  | icmp =>
    rw [arsLiRapd, arsRapdIcmp, rdHdr_eq]
    exact ⟨_, rfl⟩
  | udp =>
    rw [arsLiRapd, arsRapdUdp, rdHdr_eq]
    exact ⟨_, rfl⟩
  | tcp =>
    rw [arsLiRapd, arsRapdTcp, rdHdr_eq, bind_ok, rdDefault_eq hdef]
    exact ⟨_, rfl⟩
  | tcpopt => exact arsRapdTcpopt_ok pkt l
  | igrp =>
    rw [arsLiRapd, arsRapdIgrp, rdHdr_eq]
    exact ⟨_, rfl⟩
  | igrpentry =>
    rw [arsLiRapd, arsRapdIgrpentry, rdHdr_eq]
    exact ⟨_, rfl⟩
  | ip6 =>
    rw [arsLiRapd, arsRapdIp6, rdStruct_eq]
    exact ⟨_, rfl⟩
  | icmp6 =>
    rw [arsLiRapd, arsRapdIcmp6, rdHdr_eq]
    exact ⟨_, rfl⟩
  | data => exact arsRapdData_ok pkt l

/-- The description of a packet without defaults. -/
theorem arsDFromArs_ok (libc : Libc) {pkt : ArsPacket} (hdef : pkt.NoDefault) (dest : List UInt8)
    (len : ℕ) : ∃ text, arsDFromArs libc dest len pkt = .ok text := by
  obtain ⟨texts, htexts⟩ := exists_mapM_ok fun l (_ : l ∈ pkt.pLayer) => arsLiRapd_ok libc hdef l
  rw [arsDFromArs, arsRapdLayers, htexts]
  split_ifs <;> exact ⟨_, rfl⟩

/-! ### The dissection and the description -/

theorem fresh_arsSetOption (opt : ℕ) : (arsSetOption arsInit opt).Fresh := ⟨rfl, fun _ => rfl⟩

/-- **Dissecting a buffer and describing the outcome stays in bounds**, for every buffer, every
offset – also one that is guessed, or outside the buffer – and every option: the read outside
the bytes of a handler, of a layer or of a structure is never reached. The header of every
layer is in the `l_size` bytes of the layer, and these are all its block. -/
theorem dissect_describe_bounds (libc : Libc) (packet : List UInt8) (ipoff : ℤ) (opt : ℕ) :
    arsSplitPacket packet ipoff (arsSetOption arsInit opt) ≠ .error .oob ∧
      ∀ pkt, arsSplitPacket packet ipoff (arsSetOption arsInit opt) = .ok pkt →
        (∀ l ∈ pkt.pLayer, l.lType.hdrSize ≤ l.lSize ∧ l.lData.length = l.lSize) ∧
          ∀ dest len, ∃ text, arsDFromArs libc dest len pkt = .ok text := by
  rcases arsSplitPacket_cases packet ipoff (arsSetOption arsInit opt) with
    ⟨code, msg, herr⟩ | ⟨off, hoff, heq⟩
  · rw [herr]
    exact ⟨by simp, fun pkt h => by cases h⟩
  · have h := splitLoop_inv (fresh_arsSetOption opt) hoff
    rw [heq, arsSplitPacket_eq hoff]
    generalize splitLoop packet off (arsSetOption arsInit opt) = r at h
    rcases he : r.error with _ | e
    · refine ⟨by simp, fun pkt hpkt => ?_⟩
      obtain rfl := Except.ok.inj hpkt
      refine ⟨fun l hl => ?_, fun dest len => arsDFromArs_ok libc h.noDefault dest len⟩
      obtain ⟨c, hc⟩ := exists_of_forall₂_of_mem h.holds.flip hl
      exact ⟨hc.full ▸ l.hdr_le, hc.full⟩
    · obtain ⟨-, -, code, rfl⟩ := h.full e he
      exact ⟨by simp, fun pkt hpkt => by cases hpkt⟩

end StyxWire
