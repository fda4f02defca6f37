import StyxWire.Hping.OutputFormat
import StyxWire.Lib.OptionWalk

/-!
# TCP timestamps

What `print_tcp_timestamp` finds in a segment, with each read checked against what was captured
(`StyxWire.Hping.printTcpTimestamp`): it reads nothing beyond, and finds what the model of the
output has (`StyxWire.Hping.printTcpTimestamp_eq`).

That is the timestamp which the options have, if the list of them has an end in front of that of
the header, and no option of the kind of a timestamp with another length
(`StyxWire.Hping.timestampRight_iff`).
-/

namespace StyxWire.Hping

open Options

/-! ### Reads that are checked -/

/-- `memcpy` of some bytes that were captured. -/
def readBytes (tcp : List UInt8) (off n : ℕ) : Option (List UInt8) :=
  if off + n ≤ tcp.length then some ((tcp.drop off).take n) else none

/-- The loop of `print_tcp_timestamp`, with the place of the next option and the length of what is
left; `none` if a byte is read that was not captured. It goes on with 0 behind the last option. -/
def optionLoop (tcp : List UInt8) (opt optlen : ℕ) : Option (Option ℕ) :=
  if hmore : 0 < optlen then
    tcp[opt]?.bind fun kind =>
      if kind = 0 then some none
      else if kind = 1 then optionLoop tcp (opt + 1) (optlen - 1)
      else if optlen < 2 then some none
      else
        tcp[opt + 1]?.bind fun len =>
          if hlen : len.toNat < 2 ∨ optlen < len.toNat then some none
          else if kind ≠ 8 then optionLoop tcp (opt + len.toNat) (optlen - len.toNat)
          else if len ≠ 10 then some none
          else
            (readBytes tcp (opt + 2) 4).bind fun tstamp =>
              (readBytes tcp (opt + 6) 4).bind fun _echo => some (some (ntohlAt 0 tstamp))
  else some (some 0)
  termination_by optlen
  decreasing_by
    · omega
    · omega

/-- `print_tcp_timestamp`, up to the timestamp that it prints. -/
def printTcpTimestamp (tcp : List UInt8) : Option (Option ℕ) :=
  if tcp.length < tcphdrSize then some none
  else
    (readBytes tcp 0 tcphdrSize).bind fun hdr =>
      let tcphdrlen := hiAt 12 hdr * 4
      if tcphdrlen ≤ tcphdrSize ∨ tcp.length < tcphdrlen then some none
      else optionLoop tcp tcphdrSize (tcphdrlen - tcphdrSize)

/-- The next byte of the options, and what is left behind it. -/
theorem take_drop_succ {tcp : List UInt8} {opt n : ℕ} (h : opt + (n + 1) ≤ tcp.length) :
    ∃ b, tcp[opt]? = some b ∧ (tcp.drop opt).take (n + 1) = b :: (tcp.drop (opt + 1)).take n := by
  have hlt : opt < tcp.length := by omega
  exact ⟨tcp[opt], List.getElem?_eq_getElem hlt, by
    rw [List.drop_eq_getElem_cons hlt, List.take_succ_cons]⟩

/-- The four bytes of a timestamp, behind its kind and its length. -/
theorem ntohlAt_take_drop (tcp : List UInt8) {opt n : ℕ} (hn : 5 ≤ n) :
    ntohlAt 1 ((tcp.drop (opt + 1)).take n) = ntohlAt 0 ((tcp.drop (opt + 2)).take 4) := by
  have hbyte : ∀ i < 4, ((tcp.drop (opt + 1)).take n).getD (1 + i) 0 =
      ((tcp.drop (opt + 2)).take 4).getD i 0 := by
    intro i hi
    rw [List.getD_eq_getElem?_getD, List.getD_eq_getElem?_getD, List.getElem?_take_of_lt (by omega),
      List.getElem?_take_of_lt hi, List.getElem?_drop, List.getElem?_drop,
      show opt + 1 + (1 + i) = opt + 2 + i by omega]
  rw [ntohlAt, ntohlAt]
  congr 1
  · exact hbyte 0 (by omega)
  · exact hbyte 1 (by omega)
  · exact hbyte 2 (by omega)
  · exact hbyte 3 (by omega)

/-- **The loop reads what was captured**, as long as the options were. -/
theorem optionLoop_eq (tcp : List UInt8) (opt optlen : ℕ) (h : opt + optlen ≤ tcp.length) :
    optionLoop tcp opt optlen = some (tcpTimestamp ((tcp.drop opt).take optlen)) := by
  induction optlen using Nat.strong_induction_on generalizing opt with
  | _ optlen ih =>
    rw [optionLoop]
    rcases optlen with _ | n
    · rw [dif_neg (Nat.lt_irrefl 0), List.take_zero, tcpTimestamp]
    obtain ⟨kind, hkind, hopts⟩ := take_drop_succ h
    rw [dif_pos n.succ_pos, hkind, Option.bind_some, hopts, tcpTimestamp]
    by_cases hend : kind = 0
    · rw [if_pos hend, if_pos hend]
    rw [if_neg hend, if_neg hend]
    by_cases hpadding : kind = 1
    · rw [if_pos hpadding, if_pos hpadding]
      exact ih n (Nat.lt_succ_self n) (opt + 1) (by omega)
    rw [if_neg hpadding, if_neg hpadding]
    have hlength : ((tcp.drop (opt + 1)).take n).length = n := by
      rw [List.length_take, List.length_drop]
      omega
    rcases n with _ | m
    · rw [if_pos (by omega)]
      exact congrArg some (if_pos (Or.inl rfl)).symm
    obtain ⟨len, hlen, hrest⟩ := take_drop_succ (show opt + 1 + (m + 1) ≤ tcp.length by omega)
    have hbyte : byteAt 0 ((tcp.drop (opt + 1)).take (m + 1)) = len.toNat := by
      rw [hrest]
      rfl
    have hne : (tcp.drop (opt + 1)).take (m + 1) ≠ [] := by
      rw [hrest]
      exact List.cons_ne_nil _ _
    dsimp only
    rw [if_neg (by omega), hlen, Option.bind_some, hbyte, hlength]
    by_cases hfits : len.toNat < 2 ∨ m + 1 + 1 < len.toNat
    · rw [dif_pos hfits, if_pos (Or.inr hfits)]
    rw [dif_neg hfits, if_neg (not_or.mpr ⟨hne, hfits⟩)]
    rw [not_or] at hfits
    by_cases hstamp : kind ≠ 8
    · have hplace : opt + 1 + (len.toNat - 1) = opt + len.toNat := by omega
      have hleft : m + 1 - (len.toNat - 1) = m + 1 + 1 - len.toNat := by omega
      rw [if_pos hstamp, if_pos hstamp, ih (m + 1 + 1 - len.toNat) (by omega) _ (by omega),
        List.drop_take, List.drop_drop, hplace, hleft]
    rw [if_neg hstamp, if_neg hstamp]
    have hten : len ≠ 10 ↔ len.toNat ≠ 10 := not_congr UInt8.toNat_inj.symm
    by_cases hlen10 : len ≠ 10
    · rw [if_pos hlen10, if_pos (hten.mp hlen10)]
    have hlen' : len.toNat = 10 := not_not.mp (mt hten.mpr hlen10)
    rw [if_neg hlen10, if_neg (not_not.mpr hlen'), readBytes, if_pos (by omega), Option.bind_some,
      readBytes, if_pos (by omega), Option.bind_some, ntohlAt_take_drop tcp (by omega)]

/-- **What is found is what the model of the output has.** -/
theorem printTcpTimestamp_eq (tcp : List UInt8) :
    printTcpTimestamp tcp = some (segmentTimestamp tcp) := by
  rw [printTcpTimestamp, segmentTimestamp]
  dsimp only
  by_cases hshort : tcp.length < tcphdrSize
  · rw [if_pos hshort, if_pos (Or.inl hshort)]
  have hdr : hiAt 12 ((tcp.drop 0).take tcphdrSize) = hiAt 12 tcp := by
    rw [List.drop_zero, hiAt, hiAt, byteAt, byteAt, List.getD_eq_getElem?_getD,
      List.getElem?_take_of_lt (by decide), List.getD_eq_getElem?_getD]
  rw [if_neg hshort, readBytes, if_pos (by omega), Option.bind_some, hdr]
  by_cases hoff : hiAt 12 tcp * 4 ≤ tcphdrSize ∨ tcp.length < hiAt 12 tcp * 4
  · rw [if_pos hoff, if_pos (Or.inr hoff)]
  · rw [if_neg hoff, if_neg (not_or.mpr ⟨hshort, hoff⟩)]
    exact optionLoop_eq tcp _ _ (by omega)

/-! ### The timestamp of the options -/

/-- The options of a segment, if it has any and its header was captured. -/
def optionBytes (tcp : List UInt8) : Option (List UInt8) :=
  let tcphdrlen := hiAt 12 tcp * 4
  if tcphdrSize < tcphdrlen ∧ tcphdrlen ≤ tcp.length then
    some ((tcp.drop tcphdrSize).take (tcphdrlen - tcphdrSize))
  else none

/-- **The options have a timestamp**: the walk over whatever is none reaches it. -/
def HasTimestamp (opts : List UInt8) (v : ℕ) : Prop :=
  ∃ rest, Walk (fun kind len => ¬ (kind = 8 ∧ len = 10)) (8 :: 10 :: rest) opts ∧
    Fits 10 rest ∧ v = ntohlAt 0 rest

/-- The walk over the options of other kinds comes to the end of the header. -/
def RunsOut (opts : List UInt8) : Prop := Walk (fun kind _ => kind ≠ 8) [] opts

/-- The walk over the options of other kinds comes to one of the kind of a timestamp with another
length, and a timestamp is behind it. -/
def HidesTimestamp (opts : List UInt8) : Prop :=
  ∃ len rest, Walk (fun kind _ => kind ≠ 8) (8 :: len :: rest) opts ∧ len ≠ 10 ∧ Fits len rest ∧
    ∃ v, HasTimestamp (rest.drop (len.toNat - 2)) v

/-- **The timestamp of a segment is found**: the reads are of captured bytes, what is reported is
the timestamp of its options, and that is what is remembered if there was none. -/
structure TimestampRight (tcp : List UInt8) : Prop where
  reads : printTcpTimestamp tcp ≠ none
  reported : ∀ v, printTcpTimestamp tcp = some (some v) ↔
    ∃ opts, optionBytes tcp = some opts ∧ HasTimestamp opts v
  remembered : ∀ opts v, optionBytes tcp = some opts → HasTimestamp opts v →
    ∀ cfg (p : Printing) t, (p.tcpTimestamp cfg t tcp).firstTstamp =
      if p.firstTstamp = 0 then (v : ℤ) else p.firstTstamp
  kept : (∀ opts v, optionBytes tcp = some opts → ¬ HasTimestamp opts v) →
    ∀ cfg (p : Printing) t, (p.tcpTimestamp cfg t tcp).firstTstamp = p.firstTstamp

theorem tcpTimestamp_option {kind len : UInt8} {rest : List UInt8} (hend : kind ≠ 0)
    (hpadding : kind ≠ 1) (hfits : Fits len rest) :
    tcpTimestamp (kind :: len :: rest) =
      if kind ≠ 8 then tcpTimestamp (rest.drop (len.toNat - 2))
      else if len ≠ 10 then none else some (ntohlAt 0 rest) := by
  have hfits' : ¬ (len :: rest = [] ∨ len.toNat < 2 ∨ (len :: rest).length + 1 < len.toNat) := by
    rw [not_or, List.length_cons]
    exact ⟨List.cons_ne_nil _ _, by have := hfits.1; have := hfits.2; omega⟩
  have hdrop : (len :: rest).drop (len.toNat - 1) = rest.drop (len.toNat - 2) := by
    have hsucc : len.toNat - 1 = (len.toNat - 2) + 1 := by have := hfits.1; omega
    rw [hsucc, List.drop_succ_cons]
  have hten : len ≠ 10 ↔ len.toNat ≠ 10 := not_congr UInt8.toNat_inj.symm
  rw [tcpTimestamp, if_neg hend, if_neg hpadding]
  dsimp only
  rw [show byteAt 0 (len :: rest) = len.toNat from rfl, if_neg hfits', hdrop]
  simp only [← hten]
  rfl

/-- The walk over the options of other kinds is the one of the loop. -/
theorem tcpTimestamp_of_walk {stop opts : List UInt8}
    (h : Walk (fun kind _ => kind ≠ 8) stop opts) : tcpTimestamp opts = tcpTimestamp stop := by
  induction h with
  | here => rfl
  | padding h ih =>
    rw [tcpTimestamp, if_neg (by decide), if_pos rfl, ih]
  | option hend hpadding hpasses hfits h ih =>
    rw [tcpTimestamp_option hend hpadding hfits, if_pos hpasses, ih]

/-- Where the loop has found something: a timestamp, or the end of the header. -/
theorem tcpTimestamp_eq_some {opts : List UInt8} {v : ℕ} (h : tcpTimestamp opts = some v) :
    (RunsOut opts ∧ v = 0) ∨ ∃ rest, Walk (fun kind _ => kind ≠ 8) (8 :: 10 :: rest) opts ∧
      Fits 10 rest ∧ v = ntohlAt 0 rest := by
  induction hn : opts.length using Nat.strong_induction_on generalizing opts with
  | _ n ih =>
    subst hn
    rcases opts with _ | ⟨kind, opts⟩
    · rw [tcpTimestamp, Option.some.injEq] at h
      exact Or.inl ⟨.here, h.symm⟩
    by_cases hend : kind = 0
    · rw [tcpTimestamp, if_pos hend] at h
      cases h
    by_cases hpadding : kind = 1
    · rw [tcpTimestamp, if_neg hend, if_pos hpadding] at h
      rw [hpadding]
      rcases ih _ (Nat.lt_succ_self _) h rfl with ⟨hout, hv⟩ | ⟨rest, hwalk, hrest⟩
      · exact Or.inl ⟨.padding hout, hv⟩
      · exact Or.inr ⟨rest, .padding hwalk, hrest⟩
    rcases opts with _ | ⟨len, rest⟩
    · rw [tcpTimestamp, if_neg hend, if_neg hpadding] at h
      cases h
    by_cases hfits : Fits len rest
    · rw [tcpTimestamp_option hend hpadding hfits] at h
      by_cases hstamp : kind ≠ 8
      · rw [if_pos hstamp] at h
        have hshort : (rest.drop (len.toNat - 2)).length < (kind :: len :: rest).length := by
          rw [List.length_drop, List.length_cons, List.length_cons]
          omega
        rcases ih _ hshort h rfl with ⟨hout, hv⟩ | ⟨stamp, hwalk, hrest⟩
        · exact Or.inl ⟨.option hend hpadding hstamp hfits hout, hv⟩
        · exact Or.inr ⟨stamp, .option hend hpadding hstamp hfits hwalk, hrest⟩
      · rw [if_neg hstamp] at h
        split_ifs at h with hten
        rw [not_not] at hstamp hten
        subst hstamp hten
        exact Or.inr ⟨rest, .here, hfits, (Option.some.inj h).symm⟩
    · have hmal : len :: rest = [] ∨ len.toNat < 2 ∨ (len :: rest).length + 1 < len.toNat := by
        rw [Fits, not_and_or] at hfits
        rw [List.length_cons]
        exact Or.inr (by omega)
      rw [tcpTimestamp, if_neg hend, if_neg hpadding] at h
      dsimp only at h
      rw [show byteAt 0 (len :: rest) = len.toNat from rfl, if_pos hmal] at h
      cases h

/-- The walk of the loop goes as far as the one over whatever is no timestamp, or hides it. -/
theorem HasTimestamp.cases {opts : List UInt8} {v : ℕ} (h : HasTimestamp opts v) :
    tcpTimestamp opts = some v ∨ HidesTimestamp opts := by
  obtain ⟨rest, hwalk, hfits, hv⟩ := h
  rcases @Walk.meets (fun kind _ => kind ≠ 8) _ _ _ hwalk with hsame |
    ⟨kind, len, rest', hmeets, height, hpasses, hfits', -, -, hbehind⟩
  · refine Or.inl ?_
    rw [tcpTimestamp_of_walk hsame, tcpTimestamp_option (by decide) (by decide) hfits, hv]
    rfl
  · rw [not_not] at height
    subst height
    exact Or.inr ⟨len, rest', hmeets, fun hten => hpasses ⟨rfl, hten⟩, hfits', v, rest, hbehind,
      hfits, hv⟩

theorem tcpTimestamp_of_hides {opts : List UInt8} (h : HidesTimestamp opts) :
    tcpTimestamp opts = none := by
  obtain ⟨len, rest, hwalk, hten, hfits, -⟩ := h
  rw [tcpTimestamp_of_walk hwalk, tcpTimestamp_option (by decide) (by decide) hfits,
    if_neg (by decide), if_pos hten]

/-- A timestamp behind an option that hides it is one of the options. -/
theorem HidesTimestamp.has {opts : List UInt8} (h : HidesTimestamp opts) :
    ∃ v, HasTimestamp opts v := by
  obtain ⟨len, rest, hwalk, hten, hfits, v, stamp, hbehind, hstamp⟩ := h
  refine ⟨v, stamp, ?_, hstamp⟩
  have hwalk' : Walk (fun kind len => ¬ (kind = 8 ∧ len = 10)) (8 :: len :: rest) opts :=
    hwalk.mono fun kind len hkind h => hkind h.1
  exact hwalk'.trans (.option (by decide) (by decide) (fun h => hten h.2) hfits hbehind)

theorem not_hasTimestamp_of_runsOut {opts : List UInt8} (h : RunsOut opts) (v : ℕ) :
    ¬ HasTimestamp opts v := by
  rintro ⟨rest, hwalk, -, -⟩
  have hout : Walk (fun kind len => ¬ (kind = 8 ∧ len = 10)) [] opts :=
    Walk.mono (fun kind len hkind h => hkind h.1) h
  rcases hout.linear hwalk with hnil | hstamp
  · cases hnil
  · cases hstamp with
    | option _ _ hpasses _ _ => exact hpasses ⟨rfl, rfl⟩

/-- What the loop finds is the timestamp, unless it comes to the end of the header or does not see
it. -/
theorem tcpTimestamp_iff {opts : List UInt8} :
    (∀ v, tcpTimestamp opts = some v ↔ HasTimestamp opts v) ↔
      ¬ RunsOut opts ∧ ¬ HidesTimestamp opts := by
  constructor
  · intro h
    constructor
    · intro hout
      have hzero : tcpTimestamp opts = some 0 := by
        rw [tcpTimestamp_of_walk hout, tcpTimestamp]
      exact not_hasTimestamp_of_runsOut hout 0 ((h 0).mp hzero)
    · intro hhides
      obtain ⟨v, hv⟩ := hhides.has
      have hsome := (h v).mpr hv
      rw [tcpTimestamp_of_hides hhides] at hsome
      cases hsome
  · rintro ⟨hout, hhides⟩ v
    constructor
    · intro hsome
      rcases tcpTimestamp_eq_some hsome with ⟨hrun, -⟩ | ⟨rest, hwalk, hfits, hv⟩
      · exact absurd hrun hout
      · exact ⟨rest, hwalk.mono fun kind len hkind h => hkind h.1, hfits, hv⟩
    · intro hhas
      exact hhas.cases.resolve_right hhides

/-! ### Segments -/

theorem segmentTimestamp_eq (tcp : List UInt8) :
    segmentTimestamp tcp = (optionBytes tcp).bind tcpTimestamp := by
  have hpos : 0 < tcphdrSize := by decide
  rw [segmentTimestamp, optionBytes]
  split_ifs with hno hopts hopts
  · omega
  · rfl
  · rfl
  · omega

theorem Printing.firstTstamp_tcpTimestamp (cfg : FormatConfig) (p : Printing) (t : FormatTurn)
    (tcp : List UInt8) : (p.tcpTimestamp cfg t tcp).firstTstamp =
      if p.firstTstamp = 0 then ((segmentTimestamp tcp).getD 0 : ℤ) else p.firstTstamp := by
  rw [Printing.tcpTimestamp]
  rcases segmentTimestamp tcp with _ | v
  · dsimp only
    split_ifs with hfirst
    · exact hfirst
    · rfl
  · dsimp only
    rw [Printing.clockSkew]
    split_ifs
    all_goals rfl

/-- **When the timestamp of a segment is found**: its options have an end in front of that of the
header, and no option of the same kind with another length stands before the timestamp. -/
theorem timestampRight_iff (tcp : List UInt8) :
    TimestampRight tcp ↔
      ∀ opts, optionBytes tcp = some opts → ¬ RunsOut opts ∧ ¬ HidesTimestamp opts := by
  constructor
  · intro h opts hopts
    rw [← tcpTimestamp_iff]
    intro v
    have hreported := h.reported v
    rw [printTcpTimestamp_eq, segmentTimestamp_eq, hopts, Option.bind_some,
      Option.some.injEq] at hreported
    rw [hreported]
    constructor
    · rintro ⟨opts', hopts', hv⟩
      exact Option.some.inj hopts' ▸ hv
    · exact fun hv => ⟨opts, rfl, hv⟩
  · intro h
    refine ⟨?_, fun v => ?_, fun opts v hopts hv cfg p t => ?_, fun hno cfg p t => ?_⟩
    · rw [printTcpTimestamp_eq]
      exact Option.some_ne_none _
    · rw [printTcpTimestamp_eq, segmentTimestamp_eq, Option.some.injEq]
      rcases hopts : optionBytes tcp with _ | opts
      · refine iff_of_false (fun hv => ?_) ?_
        · cases hv
        · rintro ⟨opts, hopts', -⟩
          cases hopts'
      · rw [Option.bind_some, tcpTimestamp_iff.mpr (h opts hopts) v]
        constructor
        · exact fun hv => ⟨opts, rfl, hv⟩
        · rintro ⟨opts', hopts', hv⟩
          exact Option.some.inj hopts' ▸ hv
    · have hsome := (tcpTimestamp_iff.mpr (h opts hopts) v).mpr hv
      rw [Printing.firstTstamp_tcpTimestamp, segmentTimestamp_eq, hopts, Option.bind_some, hsome]
      rfl
    · have hnone : segmentTimestamp tcp = none := by
        rw [segmentTimestamp_eq]
        rcases hopts : optionBytes tcp with _ | opts
        · rfl
        · rcases hfound : tcpTimestamp opts with _ | v
          · exact hfound
          · exact absurd ((tcpTimestamp_iff.mpr (h opts hopts) v).mp hfound) (hno opts v hopts)
      rw [Printing.firstTstamp_tcpTimestamp, hnone]
      split_ifs with hfirst
      · exact hfirst.symm
      · rfl

/-- A segment with `4 * words` bytes of options. -/
def segmentWith (words : UInt8) (opts : List UInt8) : List UInt8 :=
  List.replicate 12 0 ++ [(5 + words) * 16] ++ List.replicate 7 0 ++ opts

/-- Four bytes of padding are the timestamp 0; and a timestamp is not seen behind an option of its
kind that has four bytes. -/
theorem timestamp_wrong :
    ¬ TimestampRight (segmentWith 1 [1, 1, 1, 1]) ∧
    ¬ TimestampRight (segmentWith 4 [8, 4, 0, 0, 8, 10, 0, 0, 0, 7, 0, 0, 0, 0, 1, 0]) := by
  constructor
  · intro h
    have hout : RunsOut [1, 1, 1, 1] := .padding (.padding (.padding (.padding .here)))
    have hopts : optionBytes (segmentWith 1 [1, 1, 1, 1]) = some [1, 1, 1, 1] := by decide
    have hfound : printTcpTimestamp (segmentWith 1 [1, 1, 1, 1]) = some (some 0) := by
      rw [printTcpTimestamp_eq, segmentTimestamp_eq, hopts, Option.bind_some,
        tcpTimestamp_of_walk hout, tcpTimestamp]
    obtain ⟨opts, hopts', hv⟩ := (h.reported 0).mp hfound
    rw [hopts, Option.some.injEq] at hopts'
    exact not_hasTimestamp_of_runsOut hout 0 (hopts' ▸ hv)
  · intro h
    have hopts : optionBytes (segmentWith 4 [8, 4, 0, 0, 8, 10, 0, 0, 0, 7, 0, 0, 0, 0, 1, 0]) =
        some [8, 4, 0, 0, 8, 10, 0, 0, 0, 7, 0, 0, 0, 0, 1, 0] := by decide
    have hhides : HidesTimestamp [8, 4, 0, 0, 8, 10, 0, 0, 0, 7, 0, 0, 0, 0, 1, 0] :=
      ⟨4, _, .here, by decide, by decide, 7, [0, 0, 0, 7, 0, 0, 0, 0, 1, 0], .here, by decide, rfl⟩
    obtain ⟨v, hv⟩ := hhides.has
    have hfound := (h.reported v).mpr ⟨_, hopts, hv⟩
    rw [printTcpTimestamp_eq, segmentTimestamp_eq, hopts, Option.bind_some,
      tcpTimestamp_of_hides hhides] at hfound
    cases hfound

end StyxWire.Hping
