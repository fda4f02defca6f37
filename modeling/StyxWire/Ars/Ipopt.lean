import StyxWire.Ars.SetterBounds
import StyxWire.Ars.StringData
import StyxWire.Ars.Timestamps

/-!
# IP options, described and built

The description of an IP option, whatever is in it, and what is built from it
(`StyxWire.rebuilt_of_builds`). An option of one byte is built as it was. The kinds the printer
does not know are written with a name that is no keyword, so that nothing is built from them. A
route and a timestamp option are built with room for all the entries there can be, and with a
length byte that is not their length: the bytes of the option that are set are those that its
entries had (`StyxWire.Patched`), and what is behind them is zero.
-/

namespace StyxWire

open Mem Text ArsLayer Outcome

/-! ### Describing an option -/

/-- The layer of an IP option. -/
def ipoptLayer (o : List UInt8) : ArsLayer := full .ipopt 0 o (ArsType.hdrSize_le rfl _)

/-- The entries of an option that are printed. -/
def optEntries (start entry : ℕ) (o : List UInt8) : List (List UInt8) :=
  (arsOptPtrs start entry o.length).map fun ptr => (o.drop (ptr - 1)).take entry

/-- The description of a record route option, or of a source route option. -/
def routeDesc (kw : String) (o : List UInt8) : LayerDesc :=
  ⟨kw, [⟨"ptr", fmtU (byteAt 2 o)⟩, ⟨"data", slashed ((optEntries 4 4 o).map dottedQuad)⟩]⟩

/-- The entries of a timestamp option have addresses. -/
def tsWithAddr (o : List UInt8) : Bool :=
  loAt 3 o = arsIpoptTsTsandaddr ∨ loAt 3 o = arsIpoptTsPrespec

/-- The entries of a timestamp option, as they are printed. -/
def tsEntries (o : List UInt8) : List (List UInt8) :=
  (optEntries 5 (if tsWithAddr o then 8 else 4) o).map (fmtTsEntry (tsWithAddr o))

/-- The description of a timestamp option. -/
def timestampDesc (o : List UInt8) : LayerDesc :=
  ⟨"ip.ts", [⟨"ptr", fmtU (byteAt 2 o)⟩, ⟨"flags", fmtTsFlags (loAt 3 o)⟩,
    ⟨"overflow", fmtU (hiAt 3 o)⟩, ⟨"data", slashed (tsEntries o)⟩]⟩

/-- The description of an IP option. -/
def ipoptDesc (o : List UInt8) : LayerDesc :=
  if byteAt 0 o = arsIpoptEnd then ⟨"ip.eol", []⟩
  else if byteAt 0 o = arsIpoptNoop then ⟨"ip.nop", []⟩
  else if byteAt 0 o = arsIpoptRr then routeDesc "ip.rr" o
  else if byteAt 0 o = arsIpoptLsrr then routeDesc "ip.lsrr" o
  else if byteAt 0 o = arsIpoptSsrr then routeDesc "ip.ssrr" o
  else if byteAt 0 o = arsIpoptTimestamp then timestampDesc o
  else ⟨"ip.unknown", [⟨"hex", hexBytes o⟩]⟩

/-- Fields with names that are words and values in which no character of the syntax is. -/
def FreeFields (fs : List DField) : Prop := ∀ f ∈ fs, IsWord (lit f.name) ∧ Free f.value

theorem freeFields_nil : FreeFields [] := fun _ hf => absurd hf List.not_mem_nil

theorem freeFields_cons {name : String} {value : List UInt8} {fs : List DField}
    (hname : IsWord (lit name)) (hvalue : Free value) (hfs : FreeFields fs) :
    FreeFields (⟨name, value⟩ :: fs) :=
  List.forall_mem_cons.mpr ⟨⟨hname, hvalue⟩, hfs⟩

theorem FreeFields.plain {kw : String} {fs : List DField} (hfs : FreeFields fs)
    (hkw : IsWord (lit kw)) : (LayerDesc.mk kw fs).Plain :=
  ⟨hkw, fun f hf => (hfs f hf).1, fun f hf => (hfs f hf).2⟩

theorem freeFields_route (ptr : ℕ) (xs : List (List UInt8)) :
    FreeFields [⟨"ptr", fmtU ptr⟩, ⟨"data", slashed (xs.map dottedQuad)⟩] :=
  freeFields_cons (by decide) (free_fmtU _) <|
    freeFields_cons (by decide) (free_slashed_map free_dottedQuad _) freeFields_nil

theorem freeFields_timestamp (ptr flags overflow : ℕ) (withAddr : Bool) (xs : List (List UInt8)) :
    FreeFields [⟨"ptr", fmtU ptr⟩, ⟨"flags", fmtTsFlags flags⟩, ⟨"overflow", fmtU overflow⟩,
      ⟨"data", slashed (xs.map (fmtTsEntry withAddr))⟩] :=
  freeFields_cons (by decide) (free_fmtU _) <|
    freeFields_cons (by decide) (free_fmtTsFlags _) <|
    freeFields_cons (by decide) (free_fmtU _) <|
    freeFields_cons (by decide) (free_slashed_map (free_fmtTsEntry _) _) freeFields_nil

theorem routeDesc_plain {kw : String} (hkw : IsWord (lit kw)) (o : List UInt8) :
    (routeDesc kw o).Plain :=
  (freeFields_route _ _).plain hkw

theorem timestampDesc_plain (o : List UInt8) : (timestampDesc o).Plain :=
  (freeFields_timestamp _ _ _ _ _).plain (by decide)

theorem ipoptDesc_plain (o : List UInt8) : (ipoptDesc o).Plain := by
  rw [ipoptDesc]
  split_ifs
  · exact noFields_plain (by decide)
  · exact noFields_plain (by decide)
  · exact routeDesc_plain (by decide) o
  · exact routeDesc_plain (by decide) o
  · exact routeDesc_plain (by decide) o
  · exact timestampDesc_plain o
  · exact oneField_plain (by decide) (by decide) (free_hexBytes o)

theorem WellFormedOpt.byteAt_one {o : List UInt8} (h : WellFormedOpt o) (h2 : 2 ≤ o.length) :
    byteAt 1 o = o.length := by
  obtain ⟨-, hlen⟩ := h
  split_ifs at hlen
  · omega
  · exact hlen.2

/-- The bytes of an option, and zeros behind them. -/
theorem arsRapdOptlen_eq {o : List UInt8} (h : WellFormedOpt o) (n : ℕ) :
    arsRapdOptlen (ipoptLayer o) (o ++ List.replicate n 0) = o.length := by
  have hsize : (ipoptLayer o).lSize = o.length := rfl
  rw [arsRapdOptlen, hsize]
  split_ifs with h2
  · rw [byteAt_append_zeros, h.byteAt_one h2, Nat.min_self]
  · rfl

/-- The entries are read. -/
theorem mapM_optEntries (o : List UInt8) {start entry : ℕ} (hstart : 0 < start)
    (hentry : 0 < entry) :
    (arsOptPtrs start entry o.length).mapM
        (fun ptr => rdBytes (ipoptLayer o).bytes (ptr - 1) entry) =
      .ok (optEntries start entry o) := by
  have hbytes : (ipoptLayer o).bytes = o := List.take_length
  rw [hbytes]
  refine mapM_rdEntry fun ptr hptr => ?_
  obtain ⟨h1, h2⟩ := le_of_mem_arsOptPtrs hptr
  omega

/-- The text of a route whose entries are read. -/
theorem rapd_route_of {name kw : String} (hkw : lit kw = lit "ip." ++ lit name) {l : ArsLayer}
    {opt : List UInt8} {xs : List (List UInt8)}
    (hxs : (arsOptPtrs 4 4 (arsRapdOptlen l opt)).mapM (fun ptr => rdBytes l.bytes (ptr - 1) 4) =
      .ok xs) :
    arsRapdRoute name l opt = .ok ((LayerDesc.mk kw [⟨"ptr", fmtU (byteAt 2 opt)⟩,
      ⟨"data", slashed (xs.map dottedQuad)⟩]).text ++ lit "+") := by
  have hopen : lit "ip." ++ lit name ++ lit "(ptr=" = lit kw ++ lit "(" ++ (lit "ptr" ++ lit "=") := by
    rw [hkw, List.append_assoc _ (lit "(")]
    rfl
  rw [arsRapdRoute, hxs, bind_ok]
  exact congrArg Except.ok (@text_twoFields _ _ kw "ptr" "data" hopen rfl _ _)

/-- **The text of a route.** -/
theorem rapd_route {name kw : String} (hkw : lit kw = lit "ip." ++ lit name) {o : List UInt8}
    (h : WellFormedOpt o) (n : ℕ) :
    arsRapdRoute name (ipoptLayer o) (o ++ List.replicate n 0) =
      .ok ((routeDesc kw o).text ++ lit "+") := by
  have hread := @mapM_optEntries o 4 4 (by decide) (by decide)
  rw [← arsRapdOptlen_eq h n] at hread
  rw [rapd_route_of hkw hread, byteAt_append_zeros, routeDesc]

theorem loAt_append_zeros (o : List UInt8) (n i : ℕ) :
    loAt i (o ++ List.replicate n 0) = loAt i o :=
  congrArg (fun b : UInt8 => b.toNat % 16) (getD_append_zeros o n i)

theorem hiAt_append_zeros (o : List UInt8) (n i : ℕ) :
    hiAt i (o ++ List.replicate n 0) = hiAt i o :=
  congrArg (fun b : UInt8 => b.toNat / 16) (getD_append_zeros o n i)

theorem tsWithAddr_append_zeros (o : List UInt8) (n : ℕ) :
    tsWithAddr (o ++ List.replicate n 0) = tsWithAddr o := by
  rw [tsWithAddr, loAt_append_zeros, tsWithAddr]

/-- The text of a timestamp option whose entries are read. -/
theorem rapd_timestamp_of {l : ArsLayer} {opt : List UInt8} {xs : List (List UInt8)}
    (hxs : (arsOptPtrs 5 (if tsWithAddr opt then 8 else 4) (arsRapdOptlen l opt)).mapM
      (fun ptr => rdBytes l.bytes (ptr - 1) (if tsWithAddr opt then 8 else 4)) = .ok xs) :
    arsRapdTs l opt = .ok ((LayerDesc.mk "ip.ts" [⟨"ptr", fmtU (byteAt 2 opt)⟩,
      ⟨"flags", fmtTsFlags (loAt 3 opt)⟩, ⟨"overflow", fmtU (hiAt 3 opt)⟩,
      ⟨"data", slashed (xs.map (fmtTsEntry (tsWithAddr opt)))⟩]).text ++ lit "+") := by
  have hwith : (loAt 3 opt = arsIpoptTsTsandaddr ∨ loAt 3 opt = arsIpoptTsPrespec) ↔
      tsWithAddr opt = true := decide_eq_true_iff.symm
  have hptr : lit "ip.ts(ptr=" = lit "ip.ts" ++ lit "(" ++ (lit "ptr" ++ lit "=") := rfl
  have hflags : lit ",flags=" = lit "," ++ (lit "flags" ++ lit "=") := rfl
  have hover : lit ",overflow=" = lit "," ++ (lit "overflow" ++ lit "=") := rfl
  have hdata : lit ",data=" = lit "," ++ (lit "data" ++ lit "=") := rfl
  rw [arsRapdTs]
  simp only [hwith, hxs, bind_ok]
  refine congrArg Except.ok (Eq.trans ?_ (LayerDesc.text_plus "ip.ts"
    [⟨"ptr", fmtU (byteAt 2 opt)⟩, ⟨"flags", fmtTsFlags (loAt 3 opt)⟩,
      ⟨"overflow", fmtU (hiAt 3 opt)⟩] ⟨"data", _⟩).symm)
  rw [hptr, hflags, hover, hdata, Bool.decide_eq_true]
  simp only [List.map_cons, List.map_nil, List.flatten_cons, List.flatten_nil, DField.text, field,
    List.append_assoc, List.append_nil]

/-- **The text of a timestamp option.** -/
theorem rapd_timestamp {o : List UInt8} (h : WellFormedOpt o) (n : ℕ) :
    arsRapdTs (ipoptLayer o) (o ++ List.replicate n 0) =
      .ok ((timestampDesc o).text ++ lit "+") := by
  have hread := @mapM_optEntries o 5 (if tsWithAddr o then 8 else 4) (by decide)
    (by split_ifs <;> decide)
  rw [← arsRapdOptlen_eq h n, ← tsWithAddr_append_zeros o n] at hread
  rw [rapd_timestamp_of hread, byteAt_append_zeros, loAt_append_zeros, hiAt_append_zeros,
    tsWithAddr_append_zeros, timestampDesc, tsEntries]

/-- **The text of an option that is not known.** -/
theorem rapd_unknown (name : String) (l : ArsLayer) :
    arsRapdUnknown name l =
      .ok ((LayerDesc.mk name [⟨"hex", hexBytes l.bytes⟩]).text ++ lit "+") := by
  have hopen : lit name ++ lit "(hex=" = lit name ++ lit "(" ++ (lit "hex" ++ lit "=") := by
    rw [List.append_assoc]
    rfl
  have hread : rdBytes l.bytes 0 l.lSize = .ok l.bytes := by
    have hlen := length_bytes l
    rw [rdBytes_eq (by omega), List.drop_zero, ← hlen, List.take_length]
  rw [arsRapdUnknown, hread, bind_ok]
  exact congrArg Except.ok (text_oneField hopen _)

/-- **The text of an option is that of its description.** -/
theorem writes_ipopt (libc : Libc) (pkt : ArsPacket) {o : List UInt8} (h : WellFormedOpt o)
    (hlen : o.length ≤ 40) : Writes libc pkt (ipoptLayer o) (ipoptDesc o) := by
  have hstruct : rdStruct (ipoptLayer o) 40 = .ok (o ++ List.replicate (40 - o.length) 0) :=
    rdStruct_full _ hlen
  have hrun : arsLiRapd libc (ipoptLayer o).lType pkt (ipoptLayer o) =
      arsRapdIpopt pkt (ipoptLayer o) := rfl
  rw [Writes, hrun, arsRapdIpopt, hstruct, bind_ok, ipoptDesc]
  dsimp only
  rw [byteAt_append_zeros]
  split_ifs
  · exact congrArg Except.ok (text_noFields rfl)
  · exact congrArg Except.ok (text_noFields rfl)
  · exact rapd_route rfl h _
  · exact rapd_route rfl h _
  · exact rapd_route rfl h _
  · exact rapd_timestamp h _
  · have hbytes : (ipoptLayer o).bytes = o := List.take_length
    rw [rapd_unknown, hbytes]

/-! ### Building an option -/

/-- The layer `l'` is the layer `l` but for the bytes from the third one on up to byte `n`. -/
structure Patched (n : ℕ) (l l' : ArsLayer) : Prop where
  lType : l'.lType = l.lType
  lSize : l'.lSize = l.lSize
  length : l'.lData.length = l.lData.length
  take_two : l'.lData.take 2 = l.lData.take 2
  drop : l'.lData.drop n = l.lData.drop n

theorem Patched.refl (n : ℕ) (l : ArsLayer) : Patched n l l := ⟨rfl, rfl, rfl, rfl, rfl⟩

theorem Patched.addFlag {n : ℕ} {l l' : ArsLayer} (h : Patched n l l') (flag : ℕ) :
    Patched n l (l'.addFlag flag) := ⟨h.lType, h.lSize, h.length, h.take_two, h.drop⟩

theorem Patched.write {n : ℕ} {l l' : ArsLayer} (h : Patched n l l') {off : ℕ} {src : List UInt8}
    (hoff : 2 ≤ off) (hfit : off + src.length ≤ n) : Patched n l (l'.write off src) where
  lType := h.lType
  lSize := h.lSize
  length := by rw [write_lData, length_writeAt, h.length]
  take_two := by
    rw [write_lData, ← h.take_two]
    exact @drop_take_writeAt _ l'.lData off 0 2 src (Or.inr hoff)
  drop := by
    have hall : ∀ d : List UInt8, d.length = l'.lData.length →
        d.drop n = (d.drop n).take l'.lData.length := fun d hd =>
      (List.take_of_length_le (by rw [List.length_drop]; omega)).symm
    rw [write_lData, ← h.drop, hall _ (length_writeAt _ _ _), hall _ rfl]
    exact drop_take_writeAt (Or.inl hfit)

/-- Whatever comes of it is the layer `l` but for these bytes. -/
abbrev Patches (n : ℕ) (l : ArsLayer) (x : Except ArsErr ArsLayer) : Prop :=
  Ends (Patched n l) (fun _ => True) x

section Setters

variable {n : ℕ} {l l' : ArsLayer}

theorem patches_put (h : Patched n l l') {off : ℕ} {src : List UInt8} (hoff : 2 ≤ off)
    (hfit : off + src.length ≤ n) : Patches n l (put off src l') := by
  rw [put]
  split_ifs
  · exact h.write hoff hfit
  · trivial

theorem ends_rdByte_true (b : List UInt8) (i : ℕ) :
    Ends (fun _ => True) (fun _ => True) (rdByte b i) := by
  cases rdByte b i <;> trivial

theorem patches_setByte (h : Patched n l l') {off : ℕ} (hoff : 2 ≤ off) (hfit : off + 1 ≤ n)
    (libc : Libc) (v : List UInt8) : Patches n l (setByte off libc v l') :=
  patches_put h hoff hfit

theorem patches_setIpoptPtr (h : Patched n l l') (hfit : 3 ≤ n) (libc : Libc) (v : List UInt8) :
    Patches n l (setIpoptPtr libc v l') :=
  Ends.map (patches_setByte h (le_refl 2) hfit libc v) fun _ ha => ha.addFlag _

theorem patches_setHigh (h : Patched n l l') {off : ℕ} (hoff : 2 ≤ off) (hfit : off + 1 ≤ n)
    (libc : Libc) (v : List UInt8) : Patches n l (setHigh off libc v l') :=
  Ends.bind (ends_rdByte_true _ _) fun _ _ => patches_put h hoff hfit

theorem patches_setTsFlags (h : Patched n l l') (hfit : 4 ≤ n) (libc : Libc) (v : List UInt8) :
    Patches n l (setTsFlags libc v l') := by
  refine Ends.bind (ends_rdByte_true _ _) fun b _ => ?_
  have hput : ∀ src : List UInt8, src.length = 1 → Patches n l (put 3 src l') := fun src hsrc =>
    patches_put h (by decide) (by rw [hsrc]; exact hfit)
  dsimp only
  split_ifs
  · exact hput _ rfl
  · exact hput _ rfl
  · exact hput _ rfl
  · exact hput _ rfl
  · trivial

theorem patches_setAddr (h : Patched n l l') {off : ℕ} (hoff : 2 ≤ off) (hfit : off + 4 ≤ n)
    (libc : Libc) (v : List UInt8) : Patches n l (setAddr off libc v l') :=
  Ends.bind ((ends_arsResolve libc v).imp (fun _ ha => ha) fun _ _ => trivial) fun _ ha =>
    patches_put h hoff (by rw [ha]; exact hfit)

/-- Entries are stored where the number of each says. -/
theorem patches_entries {entry : ArsLayer → List UInt8 × ℕ → Except ArsErr ArsLayer}
    {ps : List (List UInt8)}
    (hentry : ∀ l', ∀ e : List UInt8 × ℕ, e.1 ∈ ps → e.2 < ps.length → Patched n l l' →
      Patches n l (entry l' e)) (h : Patched n l l') :
    Patches n l (ps.zipIdx.foldlM entry l') :=
  Ends.foldlM (fun l' e he => hentry l' e (List.fst_mem_of_mem_zipIdx he)
    (List.snd_lt_of_mem_zipIdx he)) h

theorem patches_setRoute (h : Patched n l l') (hfit : 3 ≤ n) (libc : Libc) {v : List UInt8}
    (hv : 3 + 4 * (strftok (ch '/') v ipoptrrMaxEntries).length ≤ n) :
    Patches n l (setRoute libc v l') := by
  refine Ends.bind (patches_entries (fun l' e _ he h => ?_) h) fun l' h' => ?_
  · exact patches_setAddr h (by omega) (by omega) libc e.1
  · split_ifs
    · exact Ends.bind (ends_rdByte_true _ _) fun kind _ => patches_put h' (le_refl 2) hfit
    · exact h'

theorem patches_setTsEntry (h : Patched n l l') (flags : ℕ) (libc : Libc) {e : List UInt8 × ℕ}
    (haddr : ch '@' ∈ e.1 → 12 + 8 * e.2 ≤ n) (hfit : 8 + 4 * e.2 ≤ n) :
    Patches n l (setTsEntry flags libc l' e) := by
  rw [setTsEntry]
  split
  · next ts gw hsplit =>
    have hmem : ch '@' ∈ e.1 := by
      rw [strchr] at hsplit
      split_ifs at hsplit with hmem
      exact hmem
    have hn := haddr hmem
    have hres := (ends_arsResolve libc gw).imp (fun _ ha => ha) fun _ _ => trivial
    split_ifs
    · trivial
    · refine Ends.bind hres fun a ha => ?_
      refine Ends.bind (patches_put h (by omega) (by rw [ha]; omega)) fun l' h' => ?_
      exact patches_put h' (by omega) (by rw [length_putBe32]; omega)
    · exact Ends.bind hres fun _ _ => h
  · split_ifs
    · trivial
    · exact patches_put h (by omega) (by rw [length_putBe32]; omega)

theorem patches_setTsData (h : Patched n l l') (hfit : 3 ≤ n) (libc : Libc) {v : List UInt8}
    (hv : ∀ e : List UInt8 × ℕ, e.1 ∈ strftok (ch '/') v ipopttsMaxEntries →
      e.2 < (strftok (ch '/') v ipopttsMaxEntries).length →
      (ch '@' ∈ e.1 → 12 + 8 * e.2 ≤ n) ∧ 8 + 4 * e.2 ≤ n) :
    Patches n l (setTsData libc v l') := by
  refine Ends.bind (ends_rdByte_true _ _) fun b _ => ?_
  refine Ends.bind (patches_entries (fun l' e hmem he h => ?_) h) fun l' h' => ?_
  · obtain ⟨haddr, hplain⟩ := hv e hmem he
    exact patches_setTsEntry h _ libc haddr hplain
  · split_ifs
    · exact patches_put h' (le_refl 2) hfit
    · exact patches_put h' (le_refl 2) hfit
    · exact h'

/-- A field, and then the fields behind it. -/
theorem Patches.cons {libc : Libc} {k : ArsDKeywordInfo} {name : String} {v : List UInt8}
    {fs : List DField} (s : Setter) (hs : ∀ l, k.kiSet libc l (lit name) v = s libc v l)
    (hfirst : Patches n l (s libc v l'))
    (hrest : ∀ l'', Patched n l l'' → Patches n l (setFields libc k fs l'')) :
    Patches n l (setFields libc k (⟨name, v⟩ :: fs) l') := by
  rw [setFields_cons, hs]
  exact Ends.bind hfirst hrest

end Setters

/-- **The entries of an option are where their numbers say**, up to the pointer 37. -/
theorem arsOptPtrs_bound {start entry n i : ℕ} (hi : i < (arsOptPtrs start entry n).length) :
    start + entry * i ≤ 37 ∧ start + entry * i + (entry - 1) ≤ n := by
  have hpre : arsOptPtrs start entry n <+: (List.range 10).map fun i => start + entry * i :=
    List.takeWhile_prefix _
  have hget : (arsOptPtrs start entry n)[i] = start + entry * i := by
    rw [hpre.getElem hi, List.getElem_map, List.getElem_range]
  have hsat := List.mem_takeWhile_imp (List.getElem_mem hi)
  rw [hget] at hsat
  simpa using hsat

theorem length_optEntries (start entry : ℕ) (o : List UInt8) :
    (optEntries start entry o).length = (arsOptPtrs start entry o.length).length :=
  List.length_map _

/-- The entries that are printed are inside the option, and no more than there is room for. -/
theorem optEntries_bound {start entry : ℕ} (hstart : 4 ≤ start) (hentry : 4 ≤ entry)
    (o : List UInt8) :
    (optEntries start entry o).length ≤ 9 ∧ ∀ i < (optEntries start entry o).length,
      start + entry * i + (entry - 1) ≤ o.length := by
  rw [length_optEntries]
  refine ⟨?_, fun i hi => (arsOptPtrs_bound hi).2⟩
  by_contra hlt
  have hnine := (@arsOptPtrs_bound start entry o.length 9 (by omega)).1
  have hmul : 4 * 9 ≤ entry * 9 := Nat.mul_le_mul_right 9 hentry
  omega

theorem dottedQuad_word (x : List UInt8) : dottedQuad x ≠ [] ∧ ∀ c ∈ dottedQuad x, c ≠ ch '/' := by
  refine ⟨(isWord_dottedQuad x).ne_nil, ?_⟩
  rintro c hc rfl
  rcases mem_dottedQuad hc with hd | hd
  · exact absurd hd (by decide)
  · exact absurd hd (by decide)

/-- The addresses of a route are found again. -/
theorem strftok_route (o : List UInt8) :
    strftok (ch '/') (slashed ((optEntries 4 4 o).map dottedQuad)) ipoptrrMaxEntries =
      (optEntries 4 4 o).map dottedQuad := by
  refine strftok_slashed (fun p hp => ?_) ?_
  · obtain ⟨x, -, rfl⟩ := List.mem_map.mp hp
    exact dottedQuad_word x
  · rw [List.length_map]
    exact (optEntries_bound (le_refl 4) (le_refl 4) o).1

/-- So are the entries of a timestamp option. -/
theorem strftok_tsEntries (o : List UInt8) :
    strftok (ch '/') (slashed (tsEntries o)) ipopttsMaxEntries = tsEntries o := by
  have hentry : 4 ≤ if tsWithAddr o = true then 8 else 4 := by split_ifs <;> decide
  refine strftok_slashed (fun p hp => ?_) ?_
  · obtain ⟨x, -, rfl⟩ := List.mem_map.mp hp
    exact fmtTsEntry_word _ x
  · rw [tsEntries, List.length_map]
    exact (optEntries_bound (by decide) hentry o).1

/-- A list of pieces that is written as something has a piece. -/
theorem length_pos_of_slashed {ps : List (List UInt8)} (h : slashed ps ≠ []) : 0 < ps.length := by
  refine List.length_pos_of_ne_nil ?_
  rintro rfl
  exact h rfl

/-- A new route option. -/
theorem ipoptNew_route {kind : ℕ}
    (hkind : kind = arsIpoptRr ∨ kind = arsIpoptLsrr ∨ kind = arsIpoptSsrr) :
    (ipoptNew kind 40).lType = .ipopt ∧ (ipoptNew kind 40).lSize = 40 ∧
      (ipoptNew kind 40).lData = [UInt8.ofNat kind, 35, 4] ++ List.replicate 37 0 := by
  rcases hkind with rfl | rfl | rfl
  · exact ⟨rfl, rfl, rfl⟩
  · exact ⟨rfl, rfl, rfl⟩
  · exact ⟨rfl, rfl, rfl⟩

/-- **What is built from a route**: a new option, changed in the bytes that the option has. -/
theorem patched_route {libc : Libc} {kw : String} {kind : ℕ} {o : List UInt8} {l : ArsLayer}
    (hk : arsGetKeywordByName (lit kw) = some ⟨kw, (arsAddIpopt · kind), arsDSetIpoptRr⟩)
    (hlen : arsIpoptLen kind = some 40) (hwf : (routeDesc kw o).Wf)
    (hl : Builds libc (routeDesc kw o) l) :
    7 ≤ o.length ∧ Patched o.length (ipoptNew kind 40) l := by
  have hdata : slashed ((optEntries 4 4 o).map dottedQuad) ≠ [] :=
    (hwf.fields ⟨"data", slashed ((optEntries 4 4 o).map dottedQuad)⟩
      (by simp [routeDesc])).value.ne_nil
  have hpos := length_pos_of_slashed hdata
  rw [List.length_map] at hpos
  have hbound := (optEntries_bound (le_refl 4) (le_refl 4) o).2
  have h7 := hbound 0 hpos
  have hlast := hbound ((optEntries 4 4 o).length - 1) (by omega)
  refine ⟨by omega, ?_⟩
  have hset : Patches o.length (ipoptNew kind 40) (setFields libc
      ⟨kw, (arsAddIpopt · kind), arsDSetIpoptRr⟩ (routeDesc kw o).fields (ipoptNew kind 40)) := by
    refine .cons setIpoptPtr (fun _ => rfl)
      (patches_setIpoptPtr (Patched.refl _ _) (by omega) libc _) fun l1 h1 => ?_
    refine .cons setRoute (fun _ => rfl) (patches_setRoute h1 (by omega) libc ?_) fun _ h2 => h2
    rw [strftok_route, List.length_map]
    omega
  rw [Builds, build_eq (d := routeDesc kw o) hk (addsLayer_ipopt hlen)] at hl
  exact hset.value hl

/-- **What is built from a timestamp option.** -/
theorem patched_timestamp {libc : Libc} {o : List UInt8} {l : ArsLayer}
    (hwf : (timestampDesc o).Wf) (hl : Builds libc (timestampDesc o) l) :
    7 ≤ o.length ∧ Patched o.length (ipoptNew arsIpoptTimestamp 40) l := by
  have hk : arsGetKeywordByName (lit "ip.ts") =
      some ⟨"ip.ts", (arsAddIpopt · arsIpoptTimestamp), arsDSetIpoptTs⟩ := rfl
  have hdata : slashed (tsEntries o) ≠ [] :=
    (hwf.fields ⟨"data", slashed (tsEntries o)⟩ (by simp [timestampDesc])).value.ne_nil
  have hpos := length_pos_of_slashed hdata
  have hentry : 4 ≤ if tsWithAddr o = true then 8 else 4 := by split_ifs <;> decide
  have hcount : (tsEntries o).length =
      (optEntries 5 (if tsWithAddr o = true then 8 else 4) o).length :=
    List.length_map _
  have hbound := (@optEntries_bound 5 _ (by decide) hentry o).2
  rw [← hcount] at hbound
  have h7 := hbound 0 hpos
  refine ⟨by omega, ?_⟩
  have hset : Patches o.length (ipoptNew arsIpoptTimestamp 40) (setFields libc
      ⟨"ip.ts", (arsAddIpopt · arsIpoptTimestamp), arsDSetIpoptTs⟩ (timestampDesc o).fields
        (ipoptNew arsIpoptTimestamp 40)) := by
    refine .cons setIpoptPtr (fun _ => rfl)
      (patches_setIpoptPtr (Patched.refl _ _) (by omega) libc _) fun l1 h1 => ?_
    refine .cons setTsFlags (fun _ => rfl) (patches_setTsFlags h1 (by omega) libc _) fun l2 h2 => ?_
    refine .cons (setHigh 3) (fun _ => rfl)
      (patches_setHigh h2 (by decide) (by omega) libc _) fun l3 h3 => ?_
    refine .cons setTsData (fun _ => rfl)
      (patches_setTsData h3 (by omega) libc fun e hmem he => ?_) fun _ h4 => h4
    rw [strftok_tsEntries] at hmem he
    have hfit := hbound e.2 he
    obtain ⟨x, -, hx⟩ := List.mem_map.mp hmem
    cases hwith : tsWithAddr o with
    | true =>
      rw [hwith, if_pos rfl] at hfit
      exact ⟨fun _ => by omega, by omega⟩
    | false =>
      rw [hwith, if_neg Bool.false_ne_true] at hfit
      refine ⟨fun hat => ?_, by omega⟩
      rw [← hx, hwith] at hat
      exact absurd (digit_of_mem_fmtU hat) (by decide)
  rw [Builds, build_eq (d := timestampDesc o) hk (@addsLayer_ipopt arsIpoptTimestamp 40 rfl)] at hl
  exact hset.value hl

/-- **What is built from an option**: the option itself if it is one byte, and else one of 40 bytes
whose length byte is 34 or 35, and which is zero where the option ends. -/
structure Rebuilt (o : List UInt8) (l : ArsLayer) : Prop where
  lType : l.lType = .ipopt
  short : o.length = 1 → l.bytes = o
  long : o.length ≠ 1 → l.bytes.length = 40 ∧ (byteAt 1 l.bytes = 34 ∨ byteAt 1 l.bytes = 35) ∧
    l.bytes.drop o.length = List.replicate (40 - o.length) 0

/-- The bytes of a new option that is changed in some of them. -/
theorem Patched.rebuilt {o a : List UInt8} {new l : ArsLayer} (h : Patched o.length new l)
    (h7 : 7 ≤ o.length) (hlen : o.length ≤ 40) (htype : new.lType = .ipopt) (hsize : new.lSize = 40)
    {k : ℕ} (hnew : new.lData = a ++ List.replicate k 0) (hk : a.length + k = 40)
    (ha : 2 ≤ a.length ∧ a.length ≤ 7) (hone : byteAt 1 a = 34 ∨ byteAt 1 a = 35) :
    Rebuilt o l := by
  have hdata : new.lData.length = 40 := by
    rw [hnew, List.length_append, List.length_replicate, hk]
  have hbytes : l.bytes = l.lData := by
    rw [bytes, h.lSize, hsize, List.take_of_length_le (by rw [h.length, hdata])]
  have hget : ∀ d : List UInt8, byteAt 1 d = byteAt 1 (d.take 2) := by
    intro d
    rw [byteAt, byteAt, List.getD_eq_getElem?_getD, List.getD_eq_getElem?_getD,
      List.getElem?_take_of_lt (by decide)]
  have hbyte : byteAt 1 l.lData = byteAt 1 a := by
    rw [hget, h.take_two, hnew, List.take_append_of_le_length ha.1, ← hget]
  refine ⟨h.lType.trans htype, fun h1 => by omega, fun _ => ?_⟩
  rw [hbytes, hbyte]
  refine ⟨h.length.trans hdata, hone, ?_⟩
  rw [h.drop, hnew, List.drop_append, List.drop_eq_nil_of_le (by omega), List.nil_append,
    List.drop_replicate]
  congr 1
  omega

/-- An option of one byte. -/
theorem WellFormedOpt.byteAt_zero {o : List UInt8} (h : WellFormedOpt o) :
    o.length = 1 ↔ byteAt 0 o = 0 ∨ byteAt 0 o = 1 := by
  obtain ⟨-, hlen⟩ := h
  split_ifs at hlen with hkind
  · exact iff_of_true hlen hkind
  · exact iff_of_false (by omega) hkind

/-- The layer of an option without a length. -/
theorem rebuilt_short {libc : Libc} {kw : String} {kind : ℕ} {o : List UInt8} {l : ArsLayer}
    (hk : arsGetKeywordByName (lit kw) = some ⟨kw, (arsAddIpopt · kind), arsDSetIpoptDumb⟩)
    (hlen : arsIpoptLen kind = some 1) (hnew : (ipoptNew kind 1).lType = .ipopt ∧
      (ipoptNew kind 1).bytes = [UInt8.ofNat kind])
    (hkind : byteAt 0 o = kind) (h1 : o.length = 1) (hl : Builds libc ⟨kw, []⟩ l) :
    Rebuilt o l := by
  rw [Builds, build_eq (d := ⟨kw, []⟩) hk (addsLayer_ipopt hlen)] at hl
  obtain rfl : ipoptNew kind 1 = l := Except.ok.inj hl
  refine ⟨hnew.1, fun _ => ?_, fun h => absurd h1 h⟩
  obtain ⟨b, rfl⟩ := List.length_eq_one_iff.mp h1
  have hb : byteAt 0 [b] = b.toNat := rfl
  rw [hnew.2, ← hkind, hb, UInt8.ofNat_toNat]

/-- **What is built from the description of an option.** -/
theorem rebuilt_of_builds {libc : Libc} {o : List UInt8} {l : ArsLayer} (ho : WellFormedOpt o)
    (hlen : o.length ≤ 40) (hwf : (ipoptDesc o).Wf) (hl : Builds libc (ipoptDesc o) l) :
    Rebuilt o l := by
  have hroute : ∀ {kw : String} {kind : ℕ},
      arsGetKeywordByName (lit kw) = some ⟨kw, (arsAddIpopt · kind), arsDSetIpoptRr⟩ →
      arsIpoptLen kind = some 40 → kind = arsIpoptRr ∨ kind = arsIpoptLsrr ∨ kind = arsIpoptSsrr →
      (routeDesc kw o).Wf → Builds libc (routeDesc kw o) l → Rebuilt o l := by
    intro kw kind hk hn hkind hwf hl
    obtain ⟨h7, hpatched⟩ := patched_route hk hn hwf hl
    obtain ⟨htype, hsize, hnew⟩ := ipoptNew_route hkind
    exact hpatched.rebuilt h7 hlen htype hsize hnew rfl
      ⟨(by decide : 2 ≤ 3), (by decide : 3 ≤ 7)⟩ (Or.inr rfl)
  rw [ipoptDesc] at hwf hl
  split_ifs at hwf hl with hend hnop hrr hlsrr hssrr hts
  · exact rebuilt_short rfl rfl ⟨rfl, rfl⟩ hend (ho.byteAt_zero.mpr (Or.inl hend)) hl
  · exact rebuilt_short rfl rfl ⟨rfl, rfl⟩ hnop (ho.byteAt_zero.mpr (Or.inr hnop)) hl
  · exact hroute rfl rfl (Or.inl rfl) hwf hl
  · exact hroute rfl rfl (Or.inr (Or.inl rfl)) hwf hl
  · exact hroute rfl rfl (Or.inr (Or.inr rfl)) hwf hl
  · obtain ⟨h7, hpatched⟩ := patched_timestamp hwf hl
    exact hpatched.rebuilt (a := [68, 34, 5, 0]) (k := 36) h7 hlen rfl rfl rfl rfl
      ⟨(by decide : 2 ≤ 4), (by decide : 4 ≤ 7)⟩ (Or.inl rfl)
  · -- the name that is printed for the other kinds is no keyword
    have hunknown : arsGetKeywordByName (lit "ip.unknown") = none := rfl
    exact (not_builds (d := ⟨"ip.unknown", [⟨"hex", hexBytes o⟩]⟩) hunknown l hl).elim

/-- **The options of one byte are built again.** -/
theorem builds_short (libc : Libc) {o : List UInt8} (ho : WellFormedOpt o) (h1 : o.length = 1) :
    (ipoptDesc o).Wf ∧ ∃ l, Builds libc (ipoptDesc o) l := by
  have hbuild : ∀ {kw : String} {k : ℕ},
      arsGetKeywordByName (lit kw) = some ⟨kw, (arsAddIpopt · k), arsDSetIpoptDumb⟩ →
      arsIpoptLen k = some 1 → ∃ l, Builds libc ⟨kw, []⟩ l := fun hk hn =>
    ⟨_, build_eq (d := ⟨_, []⟩) hk (addsLayer_ipopt hn)⟩
  rcases ho.byteAt_zero.mp h1 with hk | hk
  · have hdesc : ipoptDesc o = ⟨"ip.eol", []⟩ := by
      rw [ipoptDesc, hk]
      rfl
    rw [hdesc]
    exact ⟨⟨(by decide : IsWord (lit "ip.eol")), fields_nil⟩, hbuild rfl (k := arsIpoptEnd) rfl⟩
  · have hdesc : ipoptDesc o = ⟨"ip.nop", []⟩ := by
      rw [ipoptDesc, hk]
      rfl
    rw [hdesc]
    exact ⟨⟨(by decide : IsWord (lit "ip.nop")), fields_nil⟩, hbuild rfl (k := arsIpoptNoop) rfl⟩

end StyxWire
