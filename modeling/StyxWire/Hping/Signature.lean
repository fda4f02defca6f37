import StyxWire.Hping.Hcmp
import StyxWire.Lib.CString
import StyxWire.Strings.Hex

/-!
# The search for the signature

`memstr` looks for a string in the first bytes of a buffer, and the two functions that call it take
what is behind the string for a header or for data. Their places and lengths are differences, which
are converted to `size_t`; here the functions work on blocks of memory, where a read outside is an
error, and with these conversions.

No difference is negative. The last place to compare at is the length less that of the string, after
it was checked that this is not larger; and a place where the string was found is at most the last
one (`StyxWire.Hping.Signature.Occurs`), so that the bytes behind the string are counted from a
place in the packet. So no read is outside, and the functions are what the other modules take them
for (`StyxWire.Hping.Signature.listenDatagram_eq`, `StyxWire.Hping.Signature.handleHcmp_eq`).
-/

namespace StyxWire.Hping.Signature

open Mem Text StyxWire.Strings

/-! ### The functions -/

/-- A number as a `size_t`. -/
def sizeT (x : ℤ) : ℕ := (x % 2 ^ 64).toNat

/-- Whether `memcmp(p, needle, n)` is zero. All the bytes may be read. -/
def memcmpZero (haystack needle : List UInt8) (p n : ℕ) : Except Outside Bool :=
  match Mem.readAt .outside haystack p n, Mem.readAt .outside needle 0 n with
  | .ok a, .ok b => .ok (decide (a = b))
  | .error e, _ => .error e
  | _, .error e => .error e

/-- The loop of `memstr`, up to the place `last`. -/
def memstrLoop (haystack needle : List UInt8) (needlesize last p : ℕ) : Except Outside (Option ℕ) :=
  if p ≤ last then
    match memcmpZero haystack needle p needlesize with
    | .error e => .error e
    | .ok true => .ok (some p)
    | .ok false => memstrLoop haystack needle needlesize last (p + 1)
  else .ok none
termination_by last + 1 - p

/-- `memstr`. -/
def memstr (haystack needle : List UInt8) (size : ℤ) : Except Outside (Option ℕ) :=
  match Mem.strlen .outside needle with
  | .error e => .error e
  | .ok needlesize =>
    if size < 0 then .ok none
    else
      let hsize := sizeT size
      if hsize < needlesize then .ok none
      else memstrLoop haystack needle needlesize (sizeT ((hsize : ℤ) - needlesize)) 0

/-- `handle_hcmp`. -/
def handleHcmp (cfg : Config) (ctx : Context) (rsign packet : List UInt8) (size : ℤ) :
    Except Outside Context :=
  match memstr packet rsign size, Mem.strlen .outside rsign with
  | .error e, _ => .error e
  | _, .error e => .error e
  | .ok none, _ => .ok ctx
  | .ok (some p), .ok len =>
    let p := p + len
    if size < 0 ∨ sizeT (size - p) < hcmphdrSize then .ok ctx
    else
      match Mem.readAt .outside packet p hcmphdrSize with
      | .error e => .error e
      | .ok hcmp =>
        if byteAt 0 hcmp = hcmpRestart then
          .ok { ctx with srcId := ntohsAt 4 hcmp, filePos := datafillerSeek cfg (ntohsAt 4 hcmp) }
        else .ok ctx

/-- The size that `listen_run` goes by: what was captured, or less if the datagram is shorter. -/
def listenSize (packet : List UInt8) : ℤ :=
  let ipSize := ntohsAt 2 packet
  if (packet.length : ℤ) > ipSize then ipSize else packet.length

/-- The body of the loop of `listen_run`, for a captured datagram without its link layer header. -/
def listenDatagram (t : Transfer) (r : Receiver) (sign packet : List UInt8) :
    Except Outside (Receiver × Option ℕ) :=
  if packet.length < iphdrSize then .ok (r, none)
  else
    let id := ntohsAt 4 packet
    let size := listenSize packet
    match memstr packet sign size, Mem.strlen .outside sign with
    | .error e, _ => .error e
    | _, .error e => .error e
    | .ok none, _ => .ok (r, none)
    | .ok (some p), .ok len =>
      if t.optSafe ∧ id ≠ r.expId then .ok (r, some r.expId)
      else
        let expId := if t.optSafe then (r.expId + 1) % 65536 else r.expId
        let p := p + len
        match Mem.readAt .outside packet p (sizeT (size - p)) with
        | .error e => .error e
        | .ok data => .ok (⟨expId, r.written ++ data⟩, none)

/-! ### The search -/

/-- The whole string is at a place, inside the first `size` bytes. -/
def Occurs (needle haystack : List UInt8) (size : ℤ) (p : ℕ) : Prop :=
  (p : ℤ) + needle.length ≤ size ∧ needle <+: haystack.drop p

theorem sizeT_sub {m n : ℕ} (h : n ≤ m) (hm : m < 2 ^ 64) : sizeT ((m : ℤ) - n) = m - n := by
  rw [sizeT, ← Nat.cast_sub h, Int.emod_eq_of_lt (by omega) (by omega), Int.toNat_natCast]

theorem readAt_eq_of_le {mem : List UInt8} {i n : ℕ} (h : i + n ≤ mem.length) :
    Mem.readAt Outside.outside mem i n = .ok ((mem.drop i).take n) := by
  rw [Mem.readAt, if_pos h]

section Search

variable {haystack needle : List UInt8}

theorem memcmpZero_eq {p : ℕ} (h : p + needle.length ≤ haystack.length) (after : List UInt8) :
    memcmpZero haystack (needle ++ 0 :: after) p needle.length =
      .ok (decide ((haystack.drop p).take needle.length = needle)) := by
  have hneedle : Mem.readAt Outside.outside (needle ++ 0 :: after) 0 needle.length =
      .ok needle := by
    rw [readAt_eq_of_le (by rw [List.length_append]; omega), List.drop_zero, List.take_left]
  rw [memcmpZero, readAt_eq_of_le h, hneedle]

/-- The places are compared one after the other. -/
theorem memstrLoop_eq {last : ℕ} (hlast : last + needle.length ≤ haystack.length)
    (after : List UInt8) {k p : ℕ} (hk : p + k = last + 1) :
    memstrLoop haystack (needle ++ 0 :: after) needle.length last p =
      .ok (Hping.memstrLoop needle k p (haystack.drop p)) := by
  induction k generalizing p with
  | zero => rw [memstrLoop, if_neg (by omega), Hping.memstrLoop]
  | succ k ih =>
    rw [memstrLoop, if_pos (by omega), memcmpZero_eq (by omega), Hping.memstrLoop, List.tail_drop]
    by_cases hfound : (haystack.drop p).take needle.length = needle
    · rw [decide_eq_true hfound, if_pos hfound]
    · rw [decide_eq_false hfound, if_neg hfound]
      exact ih (by omega)

/-- **No byte behind the first `size` ones is read.** -/
theorem memstr_eq (hneedle : 0 ∉ needle) (after : List UInt8) {size : ℤ} (hint : size < 2 ^ 31)
    (hsize : size ≤ haystack.length) :
    memstr haystack (needle ++ 0 :: after) size = .ok (Hping.memstr haystack needle size) := by
  rw [memstr, strlen_append _ hneedle, Hping.memstr]
  dsimp only
  by_cases hneg : size < 0
  · rw [if_pos hneg, if_pos hneg]
  · have hcast : sizeT size = size.toNat := by
      rw [sizeT, Int.emod_eq_of_lt (by omega) (by omega)]
    rw [if_neg hneg, if_neg hneg, hcast]
    by_cases hlong : size.toNat < needle.length
    · rw [if_pos hlong, if_pos hlong]
    · rw [if_neg hlong, if_neg hlong, sizeT_sub (by omega) (by omega),
        memstrLoop_eq (by omega) after (Nat.zero_add _), List.drop_zero]

theorem memstrLoop_find (k p : ℕ) (s : List UInt8) :
    Hping.memstrLoop needle k p s =
      ((List.range k).find? fun i => decide (needle <+: s.drop i)).map (p + ·) := by
  induction k generalizing p s with
  | zero => rfl
  | succ k ih =>
    have hfirst : s.take needle.length = needle ↔ needle <+: s.drop 0 := by
      rw [List.drop_zero, List.prefix_iff_eq_take, eq_comm]
    rw [Hping.memstrLoop, List.range_succ_eq_map, List.find?_cons]
    by_cases hfound : needle <+: s.drop 0
    · rw [if_pos (hfirst.mpr hfound), decide_eq_true hfound]
      rfl
    · have hshift : ∀ i, s.tail.drop i = s.drop (i + 1) := fun i => List.drop_tail
      rw [if_neg fun h => hfound (hfirst.mp h), decide_eq_false hfound, ih, List.find?_map,
        Option.map_map]
      simp only [hshift, Function.comp_def, Nat.succ_eq_add_one, Nat.add_assoc, Nat.add_comm 1]

/-- The first place where the string occurs. -/
def First (needle haystack : List UInt8) (size : ℤ) (p : ℕ) : Prop :=
  Occurs needle haystack size p ∧ ∀ q < p, ¬Occurs needle haystack size q

/-- **What is found is the first place where the string occurs**, if there is one. -/
theorem memstr_first (haystack needle : List UInt8) (size : ℤ) :
    (∀ p, Hping.memstr haystack needle size = some p ↔ First needle haystack size p) ∧
      (Hping.memstr haystack needle size = none ↔ ∀ p, ¬Occurs needle haystack size p) := by
  by_cases hshort : size < 0 ∨ size.toNat < needle.length
  · -- there is no place where it fits
    have hnone : ∀ p, ¬Occurs needle haystack size p := by
      rintro p ⟨hfits, -⟩
      omega
    have hmemstr : Hping.memstr haystack needle size = none := by
      rw [Hping.memstr]
      by_cases hneg : size < 0
      · rw [if_pos hneg]
      · rw [if_neg hneg, if_pos (hshort.resolve_left hneg)]
    rw [hmemstr]
    refine ⟨fun p => ⟨fun h => by simp at h, fun h => absurd h.1 (hnone p)⟩, ?_⟩
    exact ⟨fun _ => hnone, fun _ => rfl⟩
  · rw [not_or] at hshort
    set k := size.toNat - needle.length + 1 with hk
    have hoccurs : ∀ p, Occurs needle haystack size p ↔ p < k ∧ needle <+: haystack.drop p := by
      intro p
      rw [Occurs]
      refine and_congr_left fun _ => ?_
      omega
    have hmemstr : Hping.memstr haystack needle size =
        (List.range k).find? fun i => decide (needle <+: haystack.drop i) := by
      rw [Hping.memstr, if_neg hshort.1, if_neg hshort.2, memstrLoop_find]
      simp only [Nat.zero_add, Option.map_id', ← hk]
    rw [hmemstr]
    refine ⟨fun p => ?_, ?_⟩
    · rw [List.find?_range_eq_some, First, hoccurs, List.mem_range]
      simp only [hoccurs, decide_eq_true_eq, Bool.not_eq_true', decide_eq_false_iff_not, not_and]
      constructor
      · rintro ⟨hat, hp, hfirst⟩
        exact ⟨⟨hp, hat⟩, fun q hq _ => hfirst q hq⟩
      · rintro ⟨⟨hp, hat⟩, hfirst⟩
        exact ⟨hat, hp, fun q hq => hfirst q hq (hq.trans hp)⟩
    · rw [List.find?_range_eq_none]
      simp only [hoccurs, Bool.not_eq_true', decide_eq_false_iff_not, not_and]

end Search

/-- The bytes behind the first `size` ones do not matter. -/
theorem memstr_take (haystack needle : List UInt8) (size : ℤ) :
    Hping.memstr (haystack.take size.toNat) needle size = Hping.memstr haystack needle size := by
  have hoccurs : ∀ p, Occurs needle (haystack.take size.toNat) size p ↔
      Occurs needle haystack size p := by
    intro p
    rw [Occurs, Occurs]
    refine and_congr_right fun hfits => ?_
    rw [List.drop_take, List.prefix_take_iff]
    exact and_iff_left (by omega)
  have hfirst : ∀ p, First needle (haystack.take size.toNat) size p ↔
      First needle haystack size p := by
    intro p
    rw [First, First, hoccurs]
    exact and_congr_right fun _ => forall₂_congr fun q _ => not_congr (hoccurs q)
  refine Option.ext fun p => ?_
  rw [(memstr_first _ needle size).1 p, (memstr_first haystack needle size).1 p, hfirst]

/-! ### The packets -/

theorem listenSize_eq (packet : List UInt8) :
    ∃ n : ℕ, listenSize packet = n ∧ n ≤ packet.length ∧
      n = if ntohsAt 2 packet < packet.length then ntohsAt 2 packet else packet.length := by
  refine ⟨_, ?_, ?_, rfl⟩
  · rw [listenSize]
    split_ifs <;> first | rfl | omega
  · split_ifs <;> omega

/-- **What `listen_run` writes starts in the packet** and ends in it. -/
theorem listenDatagram_eq {t : Transfer} (hsign : 0 ∉ t.sign) (after : List UInt8) (r : Receiver)
    {packet : List UInt8} (hint : packet.length < 2 ^ 31) :
    listenDatagram t r (t.sign ++ 0 :: after) packet = .ok (Hping.listenDatagram t r packet) := by
  obtain ⟨n, hsize, hle, hn⟩ := listenSize_eq packet
  rw [listenDatagram, Hping.listenDatagram]
  by_cases hshort : packet.length < iphdrSize
  · rw [if_pos hshort, if_pos hshort]
  rw [if_neg hshort, if_neg hshort]
  dsimp only
  rw [← hn, hsize, memstr_eq hsign after (by omega) (by omega), strlen_append _ hsign]
  cases hfound : Hping.memstr packet t.sign n with
  | none => rfl
  | some p =>
    obtain ⟨hfits, -⟩ := (((memstr_first packet t.sign n).1 p).mp hfound).1
    have hleft : sizeT ((n : ℤ) - (p + t.sign.length : ℕ)) = n - (p + t.sign.length) :=
      sizeT_sub (by omega) (by omega)
    dsimp only
    rw [hleft, readAt_eq_of_le (by omega)]
    by_cases hsafe : t.optSafe = true
    · by_cases hid : ntohsAt 4 packet = r.expId
      · rw [if_neg fun h => h.2 hid, if_pos hsafe, if_pos hsafe, if_pos hid]
      · rw [if_pos ⟨hsafe, hid⟩, if_pos hsafe, if_neg hid]
    · rw [if_neg fun h => hsafe h.1, if_neg hsafe, if_neg hsafe]

theorem getD_take {l : List UInt8} {i n : ℕ} (h : i < n) : (l.take n).getD i 0 = l.getD i 0 := by
  rw [List.getD_eq_getElem?_getD, List.getElem?_take_of_lt h, List.getD_eq_getElem?_getD]

/-- **The header that `handle_hcmp` copies is in the packet**, or it is not copied. -/
theorem handleHcmp_eq {cfg : Config} (hrsign : 0 ∉ cfg.rsign) (after : List UInt8) (ctx : Context)
    {packet : List UInt8} (hint : packet.length < 2 ^ 31) :
    handleHcmp cfg ctx (cfg.rsign ++ 0 :: after) packet packet.length =
      .ok (Hping.handleHcmp cfg ctx packet) := by
  rw [handleHcmp, Hping.handleHcmp, memstr_eq hrsign after (by omega) (Int.le_refl _),
    strlen_append _ hrsign]
  cases hfound : Hping.memstr packet cfg.rsign packet.length with
  | none => rfl
  | some p =>
    obtain ⟨hfits, -⟩ := (((memstr_first packet cfg.rsign packet.length).1 p).mp hfound).1
    have hleft : sizeT ((packet.length : ℤ) - (p + cfg.rsign.length : ℕ)) =
        packet.length - (p + cfg.rsign.length) := sizeT_sub (by omega) (by omega)
    dsimp only
    rw [hleft, List.length_drop]
    by_cases hshort : packet.length - (p + cfg.rsign.length) < hcmphdrSize
    · rw [if_pos (Or.inr hshort), if_pos hshort]
    · have hneg : ¬(packet.length : ℤ) < 0 := by omega
      have hbyte : ∀ hcmp : List UInt8, byteAt 0 (hcmp.take hcmphdrSize) = byteAt 0 hcmp := by
        intro hcmp
        rw [byteAt, getD_take (by decide), byteAt]
      have hseq : ∀ hcmp : List UInt8, ntohsAt 4 (hcmp.take hcmphdrSize) = ntohsAt 4 hcmp := by
        intro hcmp
        rw [ntohsAt, getD_take (by decide), getD_take (by decide), ntohsAt]
      rw [if_neg (not_or.mpr ⟨hneg, hshort⟩), if_neg hshort, readAt_eq_of_le (by omega)]
      dsimp only
      rw [hbyte, hseq]
      exact (apply_ite Except.ok _ _ _).symm

/-- **The search for a signature**: the call ends, no byte behind the first `size` ones is read, and
what is returned is the first place where the whole string occurs in them, if there is one. So what
is behind the signature starts in the packet: neither `listen_run` nor `handle_hcmp` reads outside
of it. -/
theorem signature_search {needle : List UInt8} (hneedle : 0 ∉ needle) (after : List UInt8)
    {haystack : List UInt8} {size : ℤ} (hint : size < 2 ^ 31) (hsize : size ≤ haystack.length) :
    (∃ found, memstr haystack (needle ++ 0 :: after) size = .ok found ∧
      memstr (haystack.take size.toNat) (needle ++ 0 :: after) size = .ok found ∧
      (∀ p, found = some p ↔ First needle haystack size p) ∧
      (found = none ↔ ∀ p, ¬Occurs needle haystack size p)) ∧
    (∀ (t : Transfer) (r : Receiver) (packet : List UInt8), t.sign = needle →
      packet.length < 2 ^ 31 →
      listenDatagram t r (needle ++ 0 :: after) packet = .ok (Hping.listenDatagram t r packet) ∧
      ∀ p, memstr packet (needle ++ 0 :: after) (listenSize packet) = .ok (some p) →
        ((p + needle.length : ℕ) : ℤ) ≤ listenSize packet ∧ listenSize packet ≤ packet.length) ∧
    ∀ (cfg : Config) (ctx : Context) (packet : List UInt8), cfg.rsign = needle →
      packet.length < 2 ^ 31 →
      handleHcmp cfg ctx (needle ++ 0 :: after) packet packet.length =
        .ok (Hping.handleHcmp cfg ctx packet) ∧
      ∀ p, memstr packet (needle ++ 0 :: after) packet.length = .ok (some p) →
        p + needle.length ≤ packet.length := by
  refine ⟨?_, fun t r packet hsign hlen => ?_, fun cfg ctx packet hsign hlen => ?_⟩
  · have hinside : Hping.memstr (haystack.take size.toNat) needle size =
        Hping.memstr haystack needle size := memstr_take haystack needle size
    have hfew : size ≤ (haystack.take size.toNat).length := by
      rw [List.length_take]
      omega
    refine ⟨_, memstr_eq hneedle after hint hsize, ?_, memstr_first haystack needle size⟩
    rw [memstr_eq hneedle after hint hfew, hinside]
  · obtain ⟨n, hn, hle, -⟩ := listenSize_eq packet
    rw [← hsign] at hneedle ⊢
    refine ⟨listenDatagram_eq hneedle after r hlen, fun p hp => ?_⟩
    rw [hn, memstr_eq hneedle after (by omega) (by omega), Except.ok.injEq] at hp
    obtain ⟨hfits, -⟩ := (((memstr_first packet t.sign n).1 p).mp hp).1
    rw [hn]
    omega
  · rw [← hsign] at hneedle ⊢
    refine ⟨handleHcmp_eq hneedle after ctx hlen, fun p hp => ?_⟩
    rw [memstr_eq hneedle after (by omega) (Int.le_refl _), Except.ok.injEq] at hp
    obtain ⟨hfits, -⟩ := (((memstr_first packet cfg.rsign packet.length).1 p).mp hp).1
    omega

/-- A string that occurs twice, and a header behind it. -/
theorem signature_search_ab :
    memstr (lit "aabab") (lit "ab" ++ [0]) 4 = .ok (some 1) ∧
      handleHcmp { Config.plain with rsign := lit "ab" } (.start 80) (lit "ab" ++ [0])
          (lit "xab" ++ [1, 0, 0, 0, 0, 7, 0, 0]) 11 =
        .ok { Context.start 80 with srcId := 7 } := by
  obtain ⟨⟨found, hrun, -, hfirst, -⟩, -, hhcmp⟩ :=
    @signature_search (lit "ab") (by decide) [] (lit "aabab") 4 (by decide) (by decide)
  constructor
  · rw [hrun, (hfirst 1).mpr ⟨⟨by decide, by decide⟩, by unfold Occurs; decide⟩]
  · exact (hhcmp { Config.plain with rsign := lit "ab" } (.start 80)
      (lit "xab" ++ [1, 0, 0, 0, 0, 7, 0, 0]) rfl (by decide)).1

end StyxWire.Hping.Signature
