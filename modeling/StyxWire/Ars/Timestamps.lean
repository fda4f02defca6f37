import StyxWire.Ars.Syntax
import StyxWire.Ars.Tcpopt

/-!
# The timestamp option of IPv4

An option of this kind is built from the entries its description lists, timestamps or
timestamps with the address of a gateway, and what is built is as it should be
(`StyxWire.builds_ts`). It is not described as it was built. The length byte the option is
given does not count its last six bytes, so that the printer stops after three entries or after
seven; and a timestamp that has an address is printed as it lies in memory. What comes back are
the entries that are not touched by either (`StyxWire.ts_described_iff`).
-/

namespace StyxWire

open Mem Text ArsLayer

/-! ### Entries -/

/-- The formats of a timestamp option, as its flags name them. -/
inductive TsFormat
  | tsonly
  | tsandaddr
  | prespec

namespace TsFormat

/-- The name of a format. -/
def name : TsFormat → String
  | .tsonly => "tsonly"
  | .tsandaddr => "tsandaddr"
  | .prespec => "prespec"

/-- The flags of a format. -/
def flags : TsFormat → ℕ
  | .tsonly => arsIpoptTsTsonly
  | .tsandaddr => arsIpoptTsTsandaddr
  | .prespec => arsIpoptTsPrespec

/-- The entries have an address. -/
def withAddr : TsFormat → Bool
  | .tsonly => false
  | .tsandaddr | .prespec => true

/-- The size of an entry. -/
def entry (f : TsFormat) : ℕ := if f.withAddr then 8 else 4

/-- How many entries there is room for. -/
def maxEntries (f : TsFormat) : ℕ := if f.withAddr then 4 else 9

/-- How many entries are printed. -/
def printed (f : TsFormat) : ℕ := if f.withAddr then 3 else 7

end TsFormat

/-- A timestamp, and an address, which some formats leave out. -/
structure TsEntry where
  /-- The timestamp. -/
  ts : ℕ
  /-- The address. -/
  gw : List UInt8
  /-- A timestamp has 32 bits. -/
  ts_lt : ts < 4294967296
  /-- An address is four bytes. -/
  gw_len : gw.length = 4

/-- An entry in a description. -/
def TsEntry.text (withAddr : Bool) (e : TsEntry) : List UInt8 :=
  if withAddr then fmtU e.ts ++ lit "@" ++ dottedQuad e.gw else fmtU e.ts

/-- An entry in an option. -/
def TsEntry.bytes (withAddr : Bool) (e : TsEntry) : List UInt8 :=
  if withAddr then e.gw ++ putBe32 e.ts else putBe32 e.ts

/-- The description of a timestamp option. -/
def tsDesc (f : TsFormat) (overflow ptr : ℕ) (es : List TsEntry) : LayerDesc :=
  ⟨"ip.ts", [⟨"flags", lit f.name⟩, ⟨"overflow", fmtU overflow⟩, ⟨"ptr", fmtU ptr⟩,
    ⟨"data", slashed (es.map (TsEntry.text f.withAddr))⟩]⟩

/-- The first four bytes of the option: its kind, its length byte, the pointer, and the nibble
pair. -/
def tsHdr (f : TsFormat) (overflow ptr : ℕ) : List UInt8 :=
  [68, 34, UInt8.ofNat ptr, setHi (setLo 0 f.flags) overflow]

/-- The option. -/
def tsOption (f : TsFormat) (overflow ptr : ℕ) (es : List TsEntry) : List UInt8 :=
  tsHdr f overflow ptr ++ es.flatMap (TsEntry.bytes f.withAddr) ++
    List.replicate (36 - f.entry * es.length) 0

theorem TsEntry.length_bytes (f : TsFormat) (e : TsEntry) :
    (e.bytes f.withAddr).length = f.entry := by
  have hgw := e.gw_len
  cases f <;> simp [TsEntry.bytes, TsFormat.withAddr, TsFormat.entry, hgw]

theorem TsFormat.entry_mul_le (f : TsFormat) {n : ℕ} (h : n ≤ f.maxEntries) :
    f.entry * n ≤ 36 := by
  cases f <;> simp only [TsFormat.maxEntries, TsFormat.entry, TsFormat.withAddr, if_true,
    Bool.false_eq_true, if_false] at h ⊢ <;> omega

theorem length_flatMap_bytes (f : TsFormat) (es : List TsEntry) :
    (es.flatMap (TsEntry.bytes f.withAddr)).length = f.entry * es.length := by
  induction es with
  | nil => rfl
  | cons e es ih =>
    rw [List.flatMap_cons, List.length_append, ih, TsEntry.length_bytes, List.length_cons,
      Nat.mul_succ, Nat.add_comm]

theorem length_tsOption (f : TsFormat) (overflow ptr : ℕ) {es : List TsEntry}
    (h : es.length ≤ f.maxEntries) : (tsOption f overflow ptr es).length = 40 := by
  have hle := f.entry_mul_le h
  rw [tsOption, List.length_append, List.length_append, length_flatMap_bytes,
    List.length_replicate]
  simp only [tsHdr, List.length_cons, List.length_nil]
  omega

/-! ### Words -/

theorem TsEntry.text_ne_nil (withAddr : Bool) (e : TsEntry) : e.text withAddr ≠ [] := by
  rw [TsEntry.text]
  split_ifs
  · exact List.append_ne_nil_of_left_ne_nil
      (List.append_ne_nil_of_left_ne_nil (fmt_ne_nil 10 _) _) _
  · exact fmt_ne_nil 10 _

theorem TsEntry.free_text (withAddr : Bool) (e : TsEntry) : Free (e.text withAddr) := by
  rw [TsEntry.text]
  split_ifs
  · exact ((free_fmtU _).append (free_of_any rfl)).append (free_dottedQuad _)
  · exact free_fmtU _

theorem mem_dottedQuad {x : List UInt8} {c : UInt8} (hc : c ∈ dottedQuad x) :
    digitVal c < 10 ∨ c = ch '.' := by
  have hdot : ∀ d ∈ lit ".", d = ch '.' := fun d hd => List.mem_singleton.mp hd
  simp only [dottedQuad, List.mem_append] at hc
  rcases hc with (((((hc | hc) | hc) | hc) | hc) | hc) | hc
  all_goals first | exact Or.inl (digit_of_mem_fmtU hc) | exact Or.inr (hdot _ hc)

theorem TsEntry.slash_notMem (withAddr : Bool) (e : TsEntry) :
    ∀ c ∈ e.text withAddr, c ≠ ch '/' := by
  rintro c hc rfl
  rw [TsEntry.text] at hc
  split_ifs at hc
  · rw [List.mem_append, List.mem_append] at hc
    rcases hc with (hc | hc) | hc
    · exact absurd (digit_of_mem_fmtU hc) (by decide)
    · exact absurd (List.mem_singleton.mp hc) (by decide)
    · rcases mem_dottedQuad hc with hd | hd
      · exact absurd hd (by decide)
      · exact absurd hd (by decide)
  · exact absurd (digit_of_mem_fmtU hc) (by decide)

theorem length_dottedQuad_le (x : List UInt8) : (dottedQuad x).length ≤ 15 := by
  have hnum : ∀ b : UInt8, (fmtU b.toNat).length ≤ 3 := fun b =>
    @length_fmt_le 10 (by decide) b.toNat 2 (by have := b.toNat_lt; omega)
  have hdot : (lit ".").length = 1 := rfl
  have h0 := hnum (x.getD 0 0)
  have h1 := hnum (x.getD 1 0)
  have h2 := hnum (x.getD 2 0)
  have h3 := hnum (x.getD 3 0)
  simp only [dottedQuad, List.length_append]
  omega

theorem TsEntry.length_text_le (withAddr : Bool) (e : TsEntry) :
    (e.text withAddr).length ≤ 26 := by
  have hts : (fmtU e.ts).length ≤ 10 :=
    @length_fmt_le 10 (by decide) _ 9 (by have := e.ts_lt; omega)
  have hgw := length_dottedQuad_le e.gw
  have hat : (lit "@").length = 1 := rfl
  rw [TsEntry.text]
  split_ifs
  · rw [List.length_append, List.length_append]
    omega
  · omega

theorem tsDesc_wf (f : TsFormat) {overflow ptr : ℕ} (hov : overflow < 16) (hptr : ptr < 256)
    {es : List TsEntry} (hne : es ≠ []) (hmax : es.length ≤ f.maxEntries) :
    (tsDesc f overflow ptr es).Wf := by
  refine ⟨(by decide : IsWord (lit "ip.ts")), fields_cons (by decide) ?_ <|
    fields_cons (by decide) (isWord_fmtU (by omega)) <|
    fields_cons (by decide) (isWord_fmtU (by omega)) <| fields_cons (by decide) ?_ fields_nil⟩
  · cases f <;> decide
  · refine ⟨?_, free_slashed_map (TsEntry.free_text _) es, ?_⟩
    · refine slashed_ne_nil (List.map_eq_nil_iff.not.mpr hne) fun p hp => ?_
      obtain ⟨e, -, rfl⟩ := List.mem_map.mp hp
      exact e.text_ne_nil _
    · have hle := @length_slashed_le (es.map (TsEntry.text f.withAddr)) 26 fun p hp => by
        obtain ⟨e, -, rfl⟩ := List.mem_map.mp hp
        exact e.length_text_le _
      have hnine : f.maxEntries ≤ 9 := by cases f <;> decide
      have hwords : arsMaxTsize = 12000 := rfl
      rw [List.length_map] at hle
      omega

/-! ### Building -/

theorem put_eq {l : ArsLayer} {off : ℕ} {src : List UInt8} (h : off + src.length ≤ l.lData.length) :
    put off src l = .ok (l.write off src) :=
  if_pos h

/-- Bytes are stored behind those there are, where there are zeros. -/
theorem writeAt_zeros {a src : List UInt8} {n off : ℕ} (ha : a.length = off)
    (hn : src.length ≤ n) :
    writeAt (a ++ List.replicate n 0) off src =
      a ++ src ++ List.replicate (n - src.length) 0 := by
  subst ha
  rw [writeAt_eq (by rw [List.length_append, List.length_replicate]; omega), List.take_left,
    List.drop_append, List.drop_eq_nil_of_le (Nat.le_add_right _ _), List.nil_append,
    Nat.add_sub_cancel_left, List.drop_replicate]

/-- The same layer up to the contents of its block. -/
def SameHdr (l l' : ArsLayer) : Prop :=
  l'.lType = l.lType ∧ l'.lSize = l.lSize ∧ l'.lFlags = l.lFlags

/-- **An entry is stored.** -/
theorem setTsEntry_eq {libc : Libc} (hlibc : libc.Inverts) (f : TsFormat) (e : TsEntry) {k : ℕ}
    (hk : k < f.maxEntries) {l : ArsLayer} {a : List UInt8} (ha : a.length = 4 + f.entry * k)
    {n : ℕ} (hn : f.entry ≤ n) (hl : l.lData = a ++ List.replicate n 0) :
    ∃ l', setTsEntry f.flags libc l (e.text f.withAddr, k) = .ok l' ∧ SameHdr l l' ∧
      l'.lData = a ++ e.bytes f.withAddr ++ List.replicate (n - f.entry) 0 := by
  have hlen : l.lData.length = a.length + n := by
    rw [hl, List.length_append, List.length_replicate]
  have hts : arsAtou (fmtU e.ts) = e.ts := arsAtou_fmtU e.ts_lt
  have haddr : f.withAddr = true → ∃ l', setTsEntry f.flags libc l (e.text true, k) = .ok l' ∧
      SameHdr l l' ∧ l'.lData = a ++ e.bytes true ++ List.replicate (n - 8) 0 := by
    intro hwith
    have hentry : f.entry = 8 := if_pos hwith
    have hmax : f.maxEntries = 4 := if_pos hwith
    rw [hentry] at ha hn
    have hflags : f.flags ≠ arsIpoptTsTsonly := by
      cases f with
      | tsonly => exact absurd hwith Bool.false_ne_true
      | tsandaddr => decide
      | prespec => decide
    have hsplit : strchr (ch '@') (e.text true) = some (fmtU e.ts, dottedQuad e.gw) := by
      rw [TsEntry.text, if_pos rfl, List.append_assoc]
      refine strchr_eq ?_ _
      rintro d hd rfl
      exact absurd (digit_of_mem_fmtU hd) (by decide)
    have hresolve : arsResolve libc (dottedQuad e.gw) = .ok e.gw := by
      rw [arsResolve, hlibc.aton e.gw e.gw_len]
    have hgw := e.gw_len
    have hfirst : (l.write (4 + k * 8) e.gw).lData = a ++ e.gw ++ List.replicate (n - 4) 0 := by
      rw [write_lData, hl, writeAt_zeros (by omega) (by omega), hgw]
    refine ⟨(l.write (4 + k * 8) e.gw).write (8 + k * 8) (putBe32 e.ts), ?_, ⟨rfl, rfl, rfl⟩, ?_⟩
    · simp only [setTsEntry, hsplit, if_neg hflags, hresolve, bind_ok]
      rw [if_pos (by omega), put_eq (by omega), bind_ok, hts,
        put_eq (by rw [write_lData, length_writeAt, length_putBe32]; omega)]
    · rw [write_lData, hfirst, writeAt_zeros (by rw [List.length_append]; omega)
        (by rw [length_putBe32]; omega), TsEntry.bytes, if_pos rfl, length_putBe32]
      simp only [List.append_assoc, Nat.sub_sub]
  cases f with
  | tsandaddr => exact haddr rfl
  | prespec => exact haddr rfl
  | tsonly =>
    have hnone : strchr (ch '@') (fmtU e.ts) = none := by
      rw [strchr, if_neg]
      exact fun hmem => absurd (digit_of_mem_fmtU hmem) (by decide)
    have hoff : a.length = 4 + 4 * k := ha
    have hroom : 4 ≤ n := hn
    refine ⟨l.write (4 + k * 4) (putBe32 e.ts), ?_, ⟨rfl, rfl, rfl⟩, ?_⟩
    · have htext : e.text TsFormat.tsonly.withAddr = fmtU e.ts := rfl
      simp only [setTsEntry, htext, hnone, hts]
      rw [if_neg (by decide), put_eq (by rw [length_putBe32]; omega)]
    · rw [write_lData, hl, writeAt_zeros (by omega) (by rw [length_putBe32]; omega),
        length_putBe32]
      rfl

/-- **The entries are stored one after the other.** -/
theorem foldlM_setTsEntry {libc : Libc} (hlibc : libc.Inverts) (f : TsFormat) :
    ∀ (es : List TsEntry) {k : ℕ}, k + es.length ≤ f.maxEntries → ∀ {l : ArsLayer}
      {a : List UInt8}, a.length = 4 + f.entry * k → ∀ {n : ℕ}, f.entry * es.length ≤ n →
      l.lData = a ++ List.replicate n 0 →
      ∃ l', ((es.map (TsEntry.text f.withAddr)).zipIdx k).foldlM (setTsEntry f.flags libc) l =
          .ok l' ∧ SameHdr l l' ∧
        l'.lData = a ++ es.flatMap (TsEntry.bytes f.withAddr) ++
          List.replicate (n - f.entry * es.length) 0 := by
  intro es
  induction es with
  | nil =>
    intro k hk l a ha n hn hl
    refine ⟨l, rfl, ⟨rfl, rfl, rfl⟩, ?_⟩
    rw [hl, List.flatMap_nil, List.append_nil]
    rfl
  | cons e es ih =>
    intro k hk l a ha n hn hl
    rw [List.length_cons] at hk hn
    rw [Nat.mul_succ] at hn
    obtain ⟨l1, hok1, ⟨ht1, hs1, hf1⟩, hl1⟩ := setTsEntry_eq hlibc f e (by omega) ha (by omega) hl
    obtain ⟨l2, hok2, ⟨ht2, hs2, hf2⟩, hl2⟩ := @ih (k + 1) (by omega) l1 _
      (by rw [List.length_append, TsEntry.length_bytes, Nat.mul_succ]; omega) (n - f.entry)
      (by omega) hl1
    refine ⟨l2, ?_, ⟨ht2.trans ht1, hs2.trans hs1, hf2.trans hf1⟩, ?_⟩
    · rw [List.map_cons, List.zipIdx_cons, List.foldlM_cons, hok1, bind_ok, hok2]
    · rw [hl2, List.flatMap_cons, List.length_cons, Nat.mul_succ, Nat.sub_sub,
        Nat.add_comm f.entry, List.append_assoc a]

/-- The nibble pair. -/
theorem toNat_nibbles (f : TsFormat) {overflow : ℕ} (hov : overflow < 16) :
    (setHi (setLo 0 f.flags) overflow).toNat % 16 = f.flags ∧
      (setHi (setLo 0 f.flags) overflow).toNat / 16 = overflow := by
  have hflags : f.flags < 16 := by cases f <;> decide
  rw [toNat_setHi, toNat_setLo, UInt8.toNat_zero]
  omega

/-- A new option of this kind, with its flags set. -/
theorem setTsFlags_new (libc : Libc) (f : TsFormat) :
    setTsFlags libc (lit f.name) (ipoptNew arsIpoptTimestamp 40) =
      .ok ((ipoptNew arsIpoptTimestamp 40).write 3 [setLo 0 f.flags]) := by
  cases f <;> rfl

/-- **The option is built from its description**: its entries are in it, one after the other. -/
theorem builds_ts {libc : Libc} (hlibc : libc.Inverts) (f : TsFormat) {overflow ptr : ℕ}
    (hov : overflow < 16) (hptr : ptr < 256) {es : List TsEntry}
    (hmax : es.length ≤ f.maxEntries) :
    ∃ l, Builds libc (tsDesc f overflow ptr es) l ∧ l.lType = .ipopt ∧ l.lSize = 40 ∧
      l.lData = tsOption f overflow ptr es := by
  have hk : arsGetKeywordByName (lit "ip.ts") =
      some ⟨"ip.ts", (arsAddIpopt · arsIpoptTimestamp), arsDSetIpoptTs⟩ := rfl
  set l1 := (ipoptNew arsIpoptTimestamp 40).write 3 [setLo 0 f.flags] with hl1
  set l2 := l1.write 3 [setHi (setLo 0 f.flags) overflow] with hl2
  set l3 := (l2.write 2 [UInt8.ofNat ptr]).addFlag arsTakeIpoptPtr with hl3
  have hset1 : arsDSetIpoptTs libc (ipoptNew arsIpoptTimestamp 40) (lit "flags") (lit f.name) =
      .ok l1 := setTsFlags_new libc f
  have hset2 : arsDSetIpoptTs libc l1 (lit "overflow") (fmtU overflow) = .ok l2 := by
    have hcall : ∀ v, arsDSetIpoptTs libc l1 (lit "overflow") v =
        .ok (l1.write 3 [setHi (setLo 0 f.flags) (arsAtou v)]) := fun _ => rfl
    rw [hcall, arsAtou_fmtU (by omega)]
  have hset3 : arsDSetIpoptTs libc l2 (lit "ptr") (fmtU ptr) = .ok l3 := by
    have hcall : ∀ v, arsDSetIpoptTs libc l2 (lit "ptr") v =
        .ok ((l2.write 2 [UInt8.ofNat (arsAtou v)]).addFlag arsTakeIpoptPtr) := fun _ => rfl
    rw [hcall, arsAtou_fmtU (by omega)]
  have hdata : l3.lData = tsHdr f overflow ptr ++ List.replicate 36 0 := rfl
  have hwords : ∀ p ∈ es.map (TsEntry.text f.withAddr), p ≠ [] ∧ ∀ c ∈ p, c ≠ ch '/' := by
    intro p hp
    obtain ⟨e, -, rfl⟩ := List.mem_map.mp hp
    exact ⟨e.text_ne_nil _, e.slash_notMem _⟩
  have hnine : f.maxEntries ≤ 9 := by cases f <;> decide
  have hpieces := @strftok_slashed _ hwords ipopttsMaxEntries (by
    rw [List.length_map]
    exact hmax.trans hnine)
  obtain ⟨l4, hok, ⟨htype, hsize, hflags⟩, hl4⟩ := @foldlM_setTsEntry libc hlibc f es 0
    (by rwa [Nat.zero_add]) l3 _ rfl 36 (f.entry_mul_le hmax) hdata
  have hset4 : arsDSetIpoptTs libc l3 (lit "data")
      (slashed (es.map (TsEntry.text f.withAddr))) = .ok l4 := by
    have hnibble : rdByte l3.lData 3 = .ok (setHi (setLo 0 f.flags) overflow) := rfl
    have htake : arsDonttake l4.lFlags arsTakeIpoptPtr = false := by
      have hptrFlag : l3.lFlags = 0 ||| arsTakeIpoptPtr := rfl
      rw [hflags, hptrFlag]
      decide
    have hcall : arsDSetIpoptTs libc l3 (lit "data")
        (slashed (es.map (TsEntry.text f.withAddr))) =
          setTsData libc (slashed (es.map (TsEntry.text f.withAddr))) l3 := rfl
    rw [hcall, setTsData, hnibble, bind_ok]
    dsimp only
    rw [(toNat_nibbles f hov).1, hpieces, hok, bind_ok, htake, if_neg Bool.false_ne_true]
    rfl
  refine ⟨l4, ?_, htype, hsize, hl4⟩
  rw [Builds, build_eq hk (@addsLayer_ipopt arsIpoptTimestamp 40 rfl), tsDesc]
  simp only [setFields_cons, hset1, hset2, hset3, hset4, bind_ok]
  rfl

/-! ### Describing -/

/-- The `i`th of some pieces of one length. -/
theorem slice_flatMap {α β : Type*} {f : α → List β} {w : ℕ} (hf : ∀ a, (f a).length = w)
    (as : List α) (t : List β) {i : ℕ} (hi : i < as.length) :
    ((as.flatMap f ++ t).drop (w * i)).take w = f as[i] := by
  induction as generalizing i with
  | nil => exact absurd hi (Nat.not_lt_zero i)
  | cons a as ih =>
    cases i with
    | zero =>
      rw [List.flatMap_cons, List.append_assoc, Nat.mul_zero, List.drop_zero,
        List.take_left' (hf a)]
      rfl
    | succ i =>
      have hdrop : ((a :: as).flatMap f ++ t).drop (w * (i + 1)) =
          (as.flatMap f ++ t).drop (w * i) := by
        rw [List.flatMap_cons, List.append_assoc, Nat.mul_succ, Nat.add_comm, ← List.drop_drop,
          List.drop_left' (hf a)]
      rw [hdrop, ih (by simpa using hi)]
      rfl

/-- The entries that are printed. -/
def tsPieces (f : TsFormat) (o : List UInt8) : List (List UInt8) :=
  (List.range f.printed).map fun i =>
    fmtTsEntry f.withAddr ((o.drop (4 + f.entry * i)).take f.entry)

/-- The printer reads the entries at the pointers of an option of 40 bytes. -/
theorem mapM_rdEntry {s : List UInt8} {w : ℕ} {ptrs : List ℕ}
    (h : ∀ p ∈ ptrs, p - 1 + w ≤ s.length) :
    ptrs.mapM (fun ptr => rdBytes s (ptr - 1) w) =
      .ok (ptrs.map fun ptr => (s.drop (ptr - 1)).take w) := by
  induction ptrs with
  | nil => rfl
  | cons p ptrs ih =>
    rw [List.mapM_cons, rdBytes_eq (h p List.mem_cons_self), bind_ok,
      ih fun q hq => h q (List.mem_cons_of_mem p hq), bind_ok]
    rfl

/-- **What is printed of the option.** -/
theorem arsRapdIpopt_ts (f : TsFormat) {overflow ptr : ℕ} (hov : overflow < 16)
    (hptr : ptr < 256) {es : List TsEntry} (hmax : es.length ≤ f.maxEntries) {l : ArsLayer}
    (hsize : l.lSize = 40) (hl : l.lData = tsOption f overflow ptr es) (pkt : ArsPacket) :
    arsRapdIpopt pkt l = .ok (lit "ip.ts(ptr=" ++ fmtU ptr ++ lit ",flags=" ++ lit f.name ++
      lit ",overflow=" ++ fmtU overflow ++ lit ",data=" ++
      slashed (tsPieces f (tsOption f overflow ptr es)) ++ lit ")+") := by
  have hlen := length_tsOption f overflow ptr hmax
  set o := tsOption f overflow ptr es with ho
  have hbytes : l.bytes = o := by
    rw [bytes, hsize, hl, List.take_of_length_le hlen.le]
  have hstruct : rdStruct l 40 = .ok o := by
    rw [rdStruct_eq, hbytes, hsize, List.take_of_length_le hlen.le, Nat.sub_self,
      List.replicate_zero, List.append_nil]
  have hkind : byteAt 0 o = arsIpoptTimestamp := rfl
  have hoptlen : arsRapdOptlen l o = 34 := by
    rw [arsRapdOptlen, hsize, if_pos (by decide)]
    rfl
  have hbyte2 : byteAt 2 o = ptr := by
    have hbyte : byteAt 2 o = (UInt8.ofNat ptr).toNat := rfl
    rw [hbyte, UInt8.toNat_ofNat', Nat.mod_eq_of_lt hptr]
  have hnibbles := toNat_nibbles f hov
  have hlo : loAt 3 o = f.flags := hnibbles.1
  have hhi : hiAt 3 o = overflow := hnibbles.2
  have hwith : (f.flags = arsIpoptTsTsandaddr ∨ f.flags = arsIpoptTsPrespec) ↔
      f.withAddr = true := by
    cases f <;> decide
  have hname : fmtTsFlags f.flags = lit f.name := by cases f <;> rfl
  have hptrs : arsOptPtrs 5 f.entry 34 = (List.range f.printed).map fun i => 5 + f.entry * i := by
    cases f <;> decide
  have hread : (arsOptPtrs 5 f.entry 34).mapM (fun ptr => rdBytes l.bytes (ptr - 1) f.entry) =
      .ok ((List.range f.printed).map fun i => (o.drop (4 + f.entry * i)).take f.entry) := by
    rw [mapM_rdEntry, hptrs, List.map_map, hbytes]
    · refine congrArg Except.ok (List.map_congr_left fun i _ => ?_)
      rw [Function.comp_apply, show 5 + f.entry * i - 1 = 4 + f.entry * i by omega]
    · have hall : ∀ p ∈ arsOptPtrs 5 f.entry 34, p - 1 + f.entry ≤ 40 := by
        cases f <;> decide
      intro p hp
      rw [hbytes, hlen]
      exact hall p hp
  have hentry : (if f.withAddr = true then 8 else 4) = f.entry := rfl
  rw [arsRapdIpopt, hstruct, bind_ok]
  dsimp only
  rw [hkind, if_neg (by decide), if_neg (by decide), if_neg (by decide), if_neg (by decide),
    if_neg (by decide), if_pos rfl, arsRapdTs]
  rw [hlo, hhi, hoptlen, hbyte2, hname]
  simp only [hwith, hentry, hread, bind_ok]
  rw [tsPieces, List.map_map, Bool.decide_eq_true]
  rfl

/-- What is printed of an entry is a word. -/
theorem fmtTsEntry_word (withAddr : Bool) (x : List UInt8) :
    fmtTsEntry withAddr x ≠ [] ∧ ∀ c ∈ fmtTsEntry withAddr x, c ≠ ch '/' := by
  rw [fmtTsEntry]
  split_ifs
  · refine ⟨List.append_ne_nil_of_left_ne_nil
      (List.append_ne_nil_of_left_ne_nil (fmt_ne_nil 10 _) _) _, ?_⟩
    rintro c hc rfl
    rw [List.mem_append, List.mem_append] at hc
    rcases hc with (hc | hc) | hc
    · exact absurd (digit_of_mem_fmtU hc) (by decide)
    · exact absurd (List.mem_singleton.mp hc) (by decide)
    · rcases mem_dottedQuad hc with hd | hd
      · exact absurd hd (by decide)
      · exact absurd hd (by decide)
  · refine ⟨fmt_ne_nil 10 _, ?_⟩
    rintro c hc rfl
    exact absurd (digit_of_mem_fmtU hc) (by decide)

/-- Lists of words without slashes are told by their texts. -/
theorem slashed_inj {ps qs : List (List UInt8)} (hps : ∀ p ∈ ps, p ≠ [] ∧ ∀ c ∈ p, c ≠ ch '/')
    (hqs : ∀ q ∈ qs, q ≠ [] ∧ ∀ c ∈ q, c ≠ ch '/') (h : slashed ps = slashed qs) : ps = qs := by
  have hp := strftok_slashed hps (Nat.le_max_left ps.length qs.length)
  rw [h, strftok_slashed hqs (Nat.le_max_right ps.length qs.length)] at hp
  exact hp.symm

theorem fmtU_inj {m n : ℕ} (hm : m < 4294967296) (hn : n < 4294967296) (h : fmtU m = fmtU n) :
    m = n := by
  rw [← arsAtou_fmtU hm, h, arsAtou_fmtU hn]

/-- **An entry is printed as it was described**, but for a timestamp with an address that is
another one with its bytes in the other order. -/
theorem fmtTsEntry_bytes (withAddr : Bool) (e : TsEntry) :
    fmtTsEntry withAddr (e.bytes withAddr) = e.text withAddr ↔
      (withAddr = true → (putBe32 e.ts).reverse = putBe32 e.ts) := by
  have hread := be32_putBe32 e.ts
  rw [Nat.mod_eq_of_lt e.ts_lt] at hread
  cases withAddr with
  | false =>
    refine iff_of_true ?_ fun h => absurd h Bool.false_ne_true
    exact congrArg fmtU hread
  | true =>
    refine Iff.trans ?_ ⟨fun h _ => h, fun h => h rfl⟩
    obtain ⟨a, b, c, d, hgw⟩ : ∃ a b c d, e.gw = [a, b, c, d] := by
      match e.gw, e.gw_len with
      | [a, b, c, d], _ => exact ⟨a, b, c, d, rfl⟩
    have hbytes : e.bytes true = [a, b, c, d] ++ putBe32 e.ts := by
      rw [TsEntry.bytes, if_pos rfl, hgw]
    have htext : e.text true = fmtU e.ts ++ lit "@" ++ dottedQuad [a, b, c, d] := by
      rw [TsEntry.text, if_pos rfl, hgw]
    rw [hbytes, htext]
    generalize hx : putBe32 e.ts = x
    obtain ⟨t0, t1, t2, t3, rfl⟩ : ∃ t0 t1 t2 t3, x = [t0, t1, t2, t3] := by
      rw [← hx]
      exact ⟨_, _, _, _, rfl⟩
    have hts : be32 t0 t1 t2 t3 = e.ts := by
      obtain ⟨rfl, rfl, rfl, rfl, -⟩ : _ ∧ _ ∧ _ ∧ _ ∧ _ := by
        simpa only [putBe32, putBe16, List.cons_append, List.nil_append, List.cons.injEq] using hx
      exact hread
    have hprint : fmtTsEntry true ([a, b, c, d] ++ [t0, t1, t2, t3]) =
        fmtU (be32 t3 t2 t1 t0) ++ lit "@" ++ dottedQuad [a, b, c, d] := rfl
    rw [hprint, List.append_left_inj, List.append_left_inj]
    constructor
    · intro h
      have heq := fmtU_inj (be32_lt _ _ _ _) e.ts_lt h
      have hrev := putBe32_be32 t3 t2 t1 t0
      rw [heq, hx] at hrev
      exact hrev.symm
    · intro h
      obtain ⟨rfl, rfl, -⟩ : t3 = t0 ∧ t2 = t1 ∧ _ := by
        simpa only [List.reverse_cons, List.reverse_nil, List.nil_append, List.cons_append,
          List.cons.injEq] using h
      exact congrArg fmtU hts

/-- **What becomes of a timestamp option**: it is built, and its first entries are printed. -/
theorem ts_described {libc : Libc} (hlibc : libc.Inverts) (f : TsFormat) {overflow ptr : ℕ}
    (hov : overflow < 16) (hptr : ptr < 256) {es : List TsEntry} (hne : es ≠ [])
    (hmax : es.length ≤ f.maxEntries) :
    ∃ out l, arsDBuild libc arsInit (descText [tsDesc f overflow ptr es]) = .ok out ∧
      out.pLayer = [l] ∧
      arsRapdIpopt out l = .ok (lit "ip.ts(ptr=" ++ fmtU ptr ++ lit ",flags=" ++ lit f.name ++
        lit ",overflow=" ++ fmtU overflow ++ lit ",data=" ++
        slashed (tsPieces f (tsOption f overflow ptr es)) ++ lit ")+") := by
  obtain ⟨l, hbuilds, -, hsize, hdata⟩ := @builds_ts libc hlibc f overflow ptr hov hptr es hmax
  have hwf : ∀ d ∈ [tsDesc f overflow ptr es], d.Wf := by
    intro d hd
    obtain rfl := List.mem_singleton.mp hd
    exact tsDesc_wf f hov hptr hne hmax
  obtain ⟨out, hout, hlayers⟩ := (@arsDBuild_iff libc [tsDesc f overflow ptr es]
    (List.cons_ne_nil _ _) hwf (show 1 ≤ 256 by decide)).mpr (.cons hbuilds .nil)
  exact ⟨out, l, hout, hlayers, arsRapdIpopt_ts f hov hptr hmax hsize hdata out⟩

/-- **A timestamp option is described as it was built** in these cases and no others: the
entries are those that are printed, and their timestamps, if they have addresses, read the same
in both orders of their bytes. -/
theorem ts_described_iff {libc : Libc} (hlibc : libc.Inverts) (f : TsFormat) {overflow ptr : ℕ}
    (hov : overflow < 16) (hptr : ptr < 256) {es : List TsEntry} (hne : es ≠ [])
    (hmax : es.length ≤ f.maxEntries) :
    (∃ out l pieces, arsDBuild libc arsInit (descText [tsDesc f overflow ptr es]) = .ok out ∧
      out.pLayer = [l] ∧
      arsRapdIpopt out l = .ok (lit "ip.ts(ptr=" ++ fmtU ptr ++ lit ",flags=" ++ lit f.name ++
        lit ",overflow=" ++ fmtU overflow ++ lit ",data=" ++ slashed pieces ++ lit ")+") ∧
      (∀ p ∈ pieces, p ≠ [] ∧ ∀ c ∈ p, c ≠ ch '/') ∧
      es.map (TsEntry.text f.withAddr) <+: pieces) ↔
    es.length ≤ f.printed ∧
      ∀ e ∈ es, f.withAddr = true → (putBe32 e.ts).reverse = putBe32 e.ts := by
  obtain ⟨out, l, hout, hlayers, hrapd⟩ := ts_described hlibc f hov hptr hne hmax
  have hwords : ∀ p ∈ tsPieces f (tsOption f overflow ptr es), p ≠ [] ∧ ∀ c ∈ p, c ≠ ch '/' := by
    intro p hp
    obtain ⟨i, -, rfl⟩ := List.mem_map.mp hp
    exact fmtTsEntry_word _ _
  -- the list that is printed is the only one that has this text
  have hmiddle : (∃ out l pieces,
      arsDBuild libc arsInit (descText [tsDesc f overflow ptr es]) = .ok out ∧ out.pLayer = [l] ∧
      arsRapdIpopt out l = .ok (lit "ip.ts(ptr=" ++ fmtU ptr ++ lit ",flags=" ++ lit f.name ++
        lit ",overflow=" ++ fmtU overflow ++ lit ",data=" ++ slashed pieces ++ lit ")+") ∧
      (∀ p ∈ pieces, p ≠ [] ∧ ∀ c ∈ p, c ≠ ch '/') ∧
      es.map (TsEntry.text f.withAddr) <+: pieces) ↔
      es.map (TsEntry.text f.withAddr) <+: tsPieces f (tsOption f overflow ptr es) := by
    constructor
    · rintro ⟨out', l', pieces, hout', hlayers', hrapd', hpieces, hstarts⟩
      obtain rfl := Except.ok.inj (hout.symm.trans hout')
      obtain rfl := List.singleton_injective (hlayers.symm.trans hlayers')
      have htext := Except.ok.inj (hrapd.symm.trans hrapd')
      rw [slashed_inj hwords hpieces (List.append_cancel_left (List.append_cancel_right htext))]
      exact hstarts
    · exact fun h => ⟨out, l, _, hout, hlayers, hrapd, hwords, h⟩
  have hentry : ∀ {i : ℕ} (hi : i < es.length),
      ((tsOption f overflow ptr es).drop (4 + f.entry * i)).take f.entry =
        es[i].bytes f.withAddr := by
    intro i hi
    have hdrop : (tsOption f overflow ptr es).drop (4 + f.entry * i) =
        (es.flatMap (TsEntry.bytes f.withAddr) ++
          List.replicate (36 - f.entry * es.length) 0).drop (f.entry * i) := by
      rw [tsOption, List.append_assoc, ← List.drop_drop]
      rfl
    rw [hdrop, slice_flatMap (TsEntry.length_bytes f) es _ hi]
  rw [hmiddle, List.prefix_iff_getElem]
  simp only [List.length_map, tsPieces, List.length_range, List.getElem_map, List.getElem_range]
  constructor
  · rintro ⟨hle, hall⟩
    refine ⟨hle, fun e he => ?_⟩
    obtain ⟨i, hi, rfl⟩ := List.mem_iff_getElem.mp he
    have heq := hall i hi
    rw [hentry hi] at heq
    exact (fmtTsEntry_bytes _ _).mp heq.symm
  · rintro ⟨hle, hall⟩
    refine ⟨hle, fun i hi => ?_⟩
    rw [hentry hi]
    exact ((fmtTsEntry_bytes _ _).mpr (hall _ (List.getElem_mem hi))).symm

/-- Two timestamps with addresses, which read the same in both orders, as milliseconds do that
are zero. -/
def tsZeros : List TsEntry :=
  [⟨0, [192, 0, 2, 1], by decide, rfl⟩, ⟨16777217, [192, 0, 2, 2], by decide, rfl⟩]

/-- They come back. -/
theorem ts_described_iff_zeros :
    ∃ out l pieces, arsDBuild numericLibc arsInit (descText [tsDesc .prespec 3 21 tsZeros]) =
        .ok out ∧ out.pLayer = [l] ∧
      arsRapdIpopt out l = .ok (lit "ip.ts(ptr=" ++ fmtU 21 ++ lit ",flags=" ++ lit "prespec" ++
        lit ",overflow=" ++ fmtU 3 ++ lit ",data=" ++ slashed pieces ++ lit ")+") ∧
      (∀ p ∈ pieces, p ≠ [] ∧ ∀ c ∈ p, c ≠ ch '/') ∧
      tsZeros.map (TsEntry.text true) <+: pieces :=
  (ts_described_iff numericLibc_inverts .prespec (by decide) (by decide) (List.cons_ne_nil _ _)
    (by decide)).mpr ⟨by decide, by decide⟩

/-- The timestamp 16777216 of a gateway is printed with its bytes in the other order; and of
eight timestamps the last one is not printed. -/
theorem ts_described_swapped :
    (∃ out l, arsDBuild numericLibc arsInit
        (descText [tsDesc .tsandaddr 0 5 [⟨16777216, [10, 0, 0, 1], by decide, rfl⟩]]) = .ok out ∧
      out.pLayer = [l] ∧ arsRapdIpopt out l = .ok (lit "ip.ts(ptr=5,flags=tsandaddr,overflow=0," ++
        lit "data=1@10.0.0.1/0@0.0.0.0/0@0.0.0.0)+")) ∧
    ∃ out l, arsDBuild numericLibc arsInit (descText [tsDesc .tsonly 0 5
        (List.replicate 8 ⟨1, [0, 0, 0, 0], by decide, rfl⟩)]) = .ok out ∧
      out.pLayer = [l] ∧ arsRapdIpopt out l =
        .ok (lit "ip.ts(ptr=5,flags=tsonly,overflow=0,data=1/1/1/1/1/1/1)+") := by
  constructor
  · obtain ⟨out, l, hout, hlayers, hrapd⟩ := @ts_described _ numericLibc_inverts .tsandaddr 0 5
      (by decide) (by decide) [⟨16777216, [10, 0, 0, 1], by decide, rfl⟩] (List.cons_ne_nil _ _)
      (by decide)
    have hpieces : tsPieces .tsandaddr (tsOption .tsandaddr 0 5
        [⟨16777216, [10, 0, 0, 1], by decide, rfl⟩]) =
          [lit "1@10.0.0.1", lit "0@0.0.0.0", lit "0@0.0.0.0"] := by decide
    rw [hpieces] at hrapd
    exact ⟨out, l, hout, hlayers, hrapd.trans rfl⟩
  · obtain ⟨out, l, hout, hlayers, hrapd⟩ := @ts_described _ numericLibc_inverts .tsonly 0 5
      (by decide) (by decide) (List.replicate 8 ⟨1, [0, 0, 0, 0], by decide, rfl⟩)
      (List.cons_ne_nil _ _) (by decide)
    have hpieces : tsPieces .tsonly (tsOption .tsonly 0 5
        (List.replicate 8 ⟨1, [0, 0, 0, 0], by decide, rfl⟩)) = List.replicate 7 (lit "1") := by
      decide
    rw [hpieces] at hrapd
    exact ⟨out, l, hout, hlayers, hrapd.trans rfl⟩

end StyxWire
