import StyxWire.Ars.Reject
import StyxWire.Ars.RoundTrip
import StyxWire.Ars.Syntax

/-!
# Data as a string

Data is printed as a string in which a byte that is not printable, or that has a meaning of its
own in a description, is a backslash and two hexadecimal digits. The backslash itself is
printable and is left as it is, so that data which has one in front of two digits is read back
as something shorter. Everything else comes back
(`StyxWire.arsDecodeString_escapeBytes`), and through the description as well unless there is no
data at all (`StyxWire.data_str_iff`).
-/

namespace StyxWire

open Mem Text ArsLayer

/-! ### Escapes -/

/-- The text opens with two hexadecimal digits. -/
def TwoDigits (s : List UInt8) : Prop :=
  ∃ c0 c1 t, s = c0 :: c1 :: t ∧ digitVal c0 < 16 ∧ digitVal c1 < 16

/-- There is a backslash with two hexadecimal digits behind it. -/
def HasEscape (s : List UInt8) : Prop := ∃ t u, s = t ++ ch '\\' :: u ∧ TwoDigits u

theorem hasEscape_cons {b : UInt8} {s : List UInt8} :
    HasEscape (b :: s) ↔ b = ch '\\' ∧ TwoDigits s ∨ HasEscape s := by
  constructor
  · rintro ⟨t, u, heq, hu⟩
    cases t with
    | nil =>
      obtain ⟨rfl, rfl⟩ := List.cons.inj heq
      exact Or.inl ⟨rfl, hu⟩
    | cons c t =>
      obtain ⟨rfl, rfl⟩ := List.cons.inj heq
      exact Or.inr ⟨t, u, rfl, hu⟩
  · rintro (⟨rfl, hs⟩ | ⟨t, u, rfl, hu⟩)
    · exact ⟨[], s, rfl, hs⟩
    · exact ⟨b :: t, u, rfl, hu⟩

theorem not_hasEscape_nil : ¬HasEscape [] := by
  rintro ⟨t, u, heq, -⟩
  exact absurd heq.symm (List.append_ne_nil_of_right_ne_nil t (List.cons_ne_nil _ u))

instance (s : List UInt8) : Decidable (TwoDigits s) :=
  decidable_of_iff (2 ≤ s.length ∧ digitVal (s.getD 0 0) < 16 ∧ digitVal (s.getD 1 0) < 16) <| by
    rcases s with _ | ⟨c0, _ | ⟨c1, t⟩⟩
    · simp [TwoDigits]
    · simp [TwoDigits]
    · simp [TwoDigits]

instance decidableHasEscape : (s : List UInt8) → Decidable (HasEscape s)
  | [] => isFalse not_hasEscape_nil
  | _ :: s =>
    have := decidableHasEscape s
    decidable_of_iff _ hasEscape_cons.symm

/-- **A character stands for itself** unless it is a backslash in front of two digits. -/
theorem arsDecodeString_cons {c : UInt8} {s : List UInt8} (h : ¬(c = ch '\\' ∧ TwoDigits s)) :
    arsDecodeString (c :: s) = c :: arsDecodeString s := by
  rcases s with _ | ⟨c0, _ | ⟨c1, s⟩⟩
  · rfl
  · rfl
  · rw [arsDecodeString]
    split
    · next x0 x1 hc h0 h1 =>
      exact absurd ⟨beq_iff_eq.mp hc, c0, c1, s, rfl, digitVal_lt_of_hexval h0,
        digitVal_lt_of_hexval h1⟩ h
    · rfl

/-- **A backslash and two digits** are a byte. -/
theorem arsDecodeString_escape {c0 c1 : UInt8} {x0 x1 : ℕ} (h0 : hexval c0 = some x0)
    (h1 : hexval c1 = some x1) (s : List UInt8) :
    arsDecodeString (ch '\\' :: c0 :: c1 :: s) = hexByte x0 x1 :: arsDecodeString s := by
  rw [arsDecodeString, beq_self_eq_true, h0, h1]

theorem hexval_of_digitVal {c : UInt8} (h : digitVal c < 16) : hexval c = some (digitVal c) :=
  if_pos h

/-- A byte is printed as itself, or else as an escape, and then it is no digit and no backslash. -/
theorem escapeByte_cases (b : UInt8) :
    escapeByte b = [b] ∨
      b ≠ ch '\\' ∧ ¬digitVal b < 16 ∧ ∃ c0 c1, escapeByte b = [ch '\\', c0, c1] ∧
        hexval c0 = some (b.toNat / 16) ∧ hexval c1 = some (b.toNat % 16) := by
  have hplain : ∀ n < 256, (digitVal (UInt8.ofNat n) < 16 ∨ UInt8.ofNat n = ch '\\') →
      escapeByte (UInt8.ofNat n) = [UInt8.ofNat n] := by
    decide +kernel
  have hb := hplain b.toNat b.toNat_lt
  rw [UInt8.ofNat_toNat] at hb
  by_cases hself : escapeByte b = [b]
  · exact Or.inl hself
  · refine Or.inr ⟨fun h => hself (hb (Or.inr h)), fun h => hself (hb (Or.inl h)), ?_⟩
    obtain ⟨c0, c1, heq, h0, h1⟩ := exists_hexDigits b
    refine ⟨c0, c1, ?_, h0, h1⟩
    rw [escapeByte] at hself ⊢
    split_ifs at hself ⊢ with hgraph
    · exact absurd rfl hself
    · rw [heq]
      rfl

theorem escapeBytes_cons (b : UInt8) (bs : List UInt8) :
    escapeBytes (b :: bs) = escapeByte b ++ escapeBytes bs := rfl

theorem escapeByte_of_digit {b : UInt8} (h : digitVal b < 16) : escapeByte b = [b] := by
  rcases escapeByte_cases b with hself | ⟨-, hdigit, -⟩
  · exact hself
  · exact absurd h hdigit

/-- What is printed opens with two digits if the data does. -/
theorem twoDigits_escapeBytes {bs : List UInt8} : TwoDigits (escapeBytes bs) ↔ TwoDigits bs := by
  have hopen : ∀ {c : UInt8} {t bs : List UInt8}, escapeBytes bs = c :: t → digitVal c < 16 →
      ∃ bs', bs = c :: bs' ∧ escapeBytes bs' = t := by
    rintro c t (_ | ⟨b, bs⟩) heq hc
    · cases heq
    · rw [escapeBytes_cons] at heq
      rcases escapeByte_cases b with hself | ⟨-, -, c0, c1, hesc, -⟩
      · rw [hself] at heq
        obtain ⟨rfl, rfl⟩ := List.cons.inj heq
        exact ⟨bs, rfl, rfl⟩
      · rw [hesc] at heq
        obtain ⟨rfl, -⟩ := List.cons.inj heq
        exact absurd hc (by decide)
  constructor
  · rintro ⟨c0, c1, t, heq, h0, h1⟩
    obtain ⟨bs', rfl, heq'⟩ := hopen heq h0
    obtain ⟨bs'', rfl, -⟩ := hopen heq' h1
    exact ⟨c0, c1, bs'', rfl, h0, h1⟩
  · rintro ⟨c0, c1, t, rfl, h0, h1⟩
    refine ⟨c0, c1, escapeBytes t, ?_, h0, h1⟩
    rw [escapeBytes_cons, escapeBytes_cons, escapeByte_of_digit h0, escapeByte_of_digit h1]
    rfl

/-- A byte that does not open an escape is read back. -/
theorem arsDecodeString_escapeBytes_cons {b : UInt8} {s : List UInt8}
    (h : ¬(b = ch '\\' ∧ TwoDigits s)) :
    arsDecodeString (escapeBytes (b :: s)) = b :: arsDecodeString (escapeBytes s) := by
  rw [escapeBytes_cons]
  rcases escapeByte_cases b with hself | ⟨-, -, c0, c1, hesc, h0, h1⟩
  · rw [hself, List.singleton_append, arsDecodeString_cons]
    rwa [twoDigits_escapeBytes]
  · rw [hesc, List.cons_append, List.cons_append, List.singleton_append,
      arsDecodeString_escape h0 h1, hexByte_digits]

/-- **Data comes back from its string**, or something shorter does. -/
theorem arsDecodeString_escapeBytes (bs : List UInt8) :
    (¬HasEscape bs → arsDecodeString (escapeBytes bs) = bs) ∧
      (HasEscape bs → (arsDecodeString (escapeBytes bs)).length < bs.length) := by
  -- An escape takes three bytes at once, so the induction is on the length.
  induction hn : bs.length using Nat.strong_induction_on generalizing bs with
  | _ n ih =>
    subst hn
    cases bs with
    | nil => exact ⟨fun _ => rfl, fun h => absurd h not_hasEscape_nil⟩
    | cons b s =>
      have hle : ∀ t : List UInt8, t.length < (b :: s).length →
          (arsDecodeString (escapeBytes t)).length ≤ t.length := by
        intro t ht
        obtain ⟨hfree, hesc⟩ := ih t.length ht t rfl
        by_cases h : HasEscape t
        · exact (hesc h).le
        · rw [hfree h]
      rw [hasEscape_cons]
      by_cases hopen : b = ch '\\' ∧ TwoDigits s
      · obtain ⟨rfl, c0, c1, t, rfl, h0, h1⟩ := hopen
        refine ⟨fun h => absurd (Or.inl ⟨rfl, c0, c1, t, rfl, h0, h1⟩) h, fun _ => ?_⟩
        have htext : escapeBytes (ch '\\' :: c0 :: c1 :: t) =
            ch '\\' :: c0 :: c1 :: escapeBytes t := by
          rw [escapeBytes_cons, escapeBytes_cons, escapeBytes_cons, escapeByte_of_digit h0,
            escapeByte_of_digit h1]
          rfl
        have ht := hle t (by simp only [List.length_cons]; omega)
        rw [htext, arsDecodeString_escape (hexval_of_digitVal h0) (hexval_of_digitVal h1)]
        simp only [List.length_cons]
        omega
      · obtain ⟨hfree, hesc⟩ := ih s.length (Nat.lt_succ_self _) s rfl
        rw [arsDecodeString_escapeBytes_cons hopen]
        refine ⟨fun h => ?_, fun h => ?_⟩
        · rw [hfree (not_or.mp h).2]
        · exact Nat.succ_lt_succ (hesc (h.resolve_left hopen))

/-- What is read back is the data if there is no escape in it, and else it is not. -/
theorem arsDecodeString_escapeBytes_iff (bs : List UInt8) :
    arsDecodeString (escapeBytes bs) = bs ↔ ¬HasEscape bs := by
  obtain ⟨hfree, hesc⟩ := arsDecodeString_escapeBytes bs
  refine ⟨fun heq h => ?_, hfree⟩
  have hlt := hesc h
  rw [heq] at hlt
  exact lt_irrefl _ hlt

/-! ### Through the description -/

/-- The description of data, as a string. -/
def strDesc (bs : List UInt8) : LayerDesc := ⟨"data", [⟨"str", escapeBytes bs⟩]⟩

theorem length_escapeBytes_le (bs : List UInt8) : (escapeBytes bs).length ≤ 3 * bs.length := by
  induction bs with
  | nil => exact Nat.zero_le _
  | cons b bs ih =>
    rw [escapeBytes_cons, List.length_append, List.length_cons]
    rcases escapeByte_cases b with hself | ⟨-, -, c0, c1, hesc, -⟩
    · rw [hself, List.length_singleton]
      omega
    · rw [hesc]
      simp only [List.length_cons, List.length_nil]
      omega

theorem escapeBytes_ne_nil {bs : List UInt8} (hne : bs ≠ []) : escapeBytes bs ≠ [] := by
  obtain ⟨b, bs, rfl⟩ := List.exists_cons_of_ne_nil hne
  rw [escapeBytes_cons]
  rcases escapeByte_cases b with hself | ⟨-, -, c0, c1, hesc, -⟩
  · rw [hself]
    exact List.cons_ne_nil _ _
  · rw [hesc]
    exact List.cons_ne_nil _ _

theorem isWord_escapeBytes {bs : List UInt8} (hne : bs ≠ []) (hlen : bs.length ≤ 3999) :
    IsWord (escapeBytes bs) where
  ne_nil := escapeBytes_ne_nil hne
  delim := free_escapeBytes bs
  length_lt := by
    have hle := length_escapeBytes_le bs
    have hmax : arsMaxTsize = 12000 := rfl
    omega

/-- **A string is built from its description**: what it decodes to. -/
theorem builds_str (libc : Libc) (bs : List UInt8) :
    ∃ l, Builds libc (strDesc bs) l ∧ l.lType = .data ∧
      l.bytes = arsDecodeString (escapeBytes bs) := by
  have hk : arsGetKeywordByName (lit "data") = some ⟨"data", (arsAddData · 0), arsDSetData⟩ := rfl
  have hset : setFields libc ⟨"data", (arsAddData · 0), arsDSetData⟩ (strDesc bs).fields dataNew =
      .ok (arsPushData (arsDecodeString (escapeBytes bs)) dataNew) :=
    setFields_single (pushing fun _ v => .ok (arsDecodeString v)) (fun _ => rfl) dataNew
  refine ⟨_, (build_eq (d := strDesc bs) hk addsLayer_data).trans hset, ?_⟩
  rw [arsPushData]
  split_ifs with hnil
  · rw [hnil]
    exact ⟨rfl, rfl⟩
  · exact ⟨rfl, grow_bytes dataNew _⟩

/-- **Data is read back from the string it is printed as** in these cases and no others: there is
some, and there is no backslash with two hexadecimal digits behind it in it. -/
theorem data_str_iff {libc : Libc} {pkt : ArsPacket} {l : ArsLayer}
    (hhex : arsTestOption pkt arsOptRapdHexdata = false) (hmax : l.lSize ≤ 3999) :
    (∃ text out, arsRapdData pkt l = .ok (text ++ lit "+") ∧
      arsDBuild libc arsInit text = .ok out ∧ out.pLayer.map ArsLayer.bytes = [l.bytes]) ↔
      l.bytes ≠ [] ∧ ¬HasEscape l.bytes := by
  have hprint : arsRapdData pkt l = .ok (descText [strDesc l.bytes] ++ lit "+") := by
    have htext : descText [strDesc l.bytes] = (strDesc l.bytes).text := descText_concat [] _
    have hall : (l.bytes.drop 0).take l.lSize = l.bytes := by
      rw [List.drop_zero, List.take_of_length_le (length_bytes l).le]
    rw [arsRapdData, rdBytes_eq (by simp), bind_ok, hall, hhex, if_neg Bool.false_ne_true, htext]
    exact congrArg Except.ok (text_field rfl _)
  have hread : ∀ {text : List UInt8}, arsRapdData pkt l = .ok (text ++ lit "+") →
      text = descText [strDesc l.bytes] := by
    intro text htext
    exact List.append_cancel_right (Except.ok.inj (htext.symm.trans hprint))
  rcases eq_or_ne l.bytes [] with hnil | hne
  · -- the brace is taken for the value
    refine iff_of_false ?_ fun h => h.1 hnil
    rintro ⟨text, out, htext, hbuild, -⟩
    rw [hread htext, hnil] at hbuild
    have herr : arsDBuild libc arsInit (descText [strDesc []]) =
        arsFail .invalid "Packet description truncated" := rfl
    rw [herr] at hbuild
    cases hbuild
  · have hwf : ∀ d ∈ [strDesc l.bytes], d.Wf := by
      intro d hd
      obtain rfl := List.mem_singleton.mp hd
      refine ⟨(by decide : IsWord (lit "data")), fun f hf => ?_⟩
      obtain rfl := List.mem_singleton.mp hf
      exact ⟨(by decide : IsWord (lit "str")),
        isWord_escapeBytes hne (by rwa [length_bytes])⟩
    obtain ⟨m, hm, -, hbytes⟩ := builds_str libc l.bytes
    have hbuild := @arsDBuild_iff libc [strDesc l.bytes] (List.cons_ne_nil _ _) hwf
      (show 1 ≤ 256 by decide)
    obtain ⟨out, hout, hlayers⟩ := hbuild.mpr (.cons hm .nil)
    rw [and_iff_right hne, ← arsDecodeString_escapeBytes_iff]
    constructor
    · rintro ⟨text, out', htext, hout', heq⟩
      rw [hread htext] at hout'
      obtain rfl := Except.ok.inj (hout.symm.trans hout')
      rw [hlayers, List.map_singleton, hbytes] at heq
      exact List.singleton_injective heq
    · intro heq
      exact ⟨_, out, hprint, hout, by rw [hlayers, List.map_singleton, hbytes, heq]⟩

/-- Bytes of several kinds come back. -/
theorem data_str_iff_mixed :
    ∃ text out, arsRapdData arsInit (dataNew.grow [97, 92, 52, 0, 44, 255]) =
        .ok (text ++ lit "+") ∧
      arsDBuild numericLibc arsInit text = .ok out ∧
        out.pLayer.map ArsLayer.bytes = [[97, 92, 52, 0, 44, 255]] := by
  exact (@data_str_iff numericLibc arsInit (dataNew.grow [97, 92, 52, 0, 44, 255]) rfl
    (by decide)).mpr ⟨List.cons_ne_nil _ _, by decide⟩

/-- A backslash in front of the digits of a capital `A` is printed as it is, and read as the
letter. -/
theorem data_str_backslash :
    arsRapdData arsInit (dataNew.grow (lit "\\41")) = .ok (lit "data(str=\\41)+") ∧
      ∃ out, arsDBuild numericLibc arsInit (lit "data(str=\\41)") = .ok out ∧
        out.pLayer.map ArsLayer.bytes = [lit "A"] :=
  ⟨rfl, _, rfl, rfl⟩

/-! ### Data in either form -/

/-- How data is printed. -/
def dataText (hex : Bool) (d : List UInt8) : List UInt8 := if hex then hexBytes d else escapeBytes d

/-- The description of data. -/
def dataDesc (hex : Bool) (d : List UInt8) : LayerDesc := if hex then hexDesc d else strDesc d

/-- What the description of data is read back as. -/
def dataRead (hex : Bool) (d : List UInt8) : List UInt8 :=
  if hex then d else arsDecodeString (escapeBytes d)

/-- **The text of data is that of its description.** -/
theorem writes_dataLayer (libc : Libc) {pkt : ArsPacket} {hex : Bool}
    (hhex : arsTestOption pkt arsOptRapdHexdata = hex) {l : ArsLayer} (ht : l.lType = .data) :
    Writes libc pkt l (dataDesc hex l.bytes) := by
  have hlen := length_bytes l
  have hread : rdBytes l.bytes 0 l.lSize = .ok l.bytes := by
    rw [rdBytes_eq (by omega), List.drop_zero, ← hlen, List.take_length]
  rw [Writes, ht, arsLiRapd, arsRapdData, hread, bind_ok, hhex, dataDesc]
  split_ifs
  · exact congrArg Except.ok (text_field rfl _)
  · exact congrArg Except.ok (text_field rfl _)

theorem writes_data (libc : Libc) {pkt : ArsPacket} {hex : Bool}
    (hhex : arsTestOption pkt arsOptRapdHexdata = hex) (d : List UInt8) :
    Writes libc pkt (full .data 0 d (Nat.zero_le _)) (dataDesc hex d) := by
  have hbytes : (full .data 0 d (Nat.zero_le _)).bytes = d := List.take_length
  have hwrites := @writes_dataLayer libc pkt hex hhex (full .data 0 d (Nat.zero_le _)) rfl
  rwa [hbytes] at hwrites

theorem dataDesc_plain (hex : Bool) (d : List UInt8) : (dataDesc hex d).Plain := by
  rw [dataDesc]
  split_ifs
  · exact oneField_plain (by decide) (by decide) (free_hexBytes d)
  · exact oneField_plain (by decide) (by decide) (free_escapeBytes d)

theorem dataText_ne_nil (hex : Bool) {d : List UInt8} (hne : d ≠ []) : dataText hex d ≠ [] := by
  have hpos := List.length_pos_of_ne_nil hne
  rw [dataText]
  split_ifs
  · refine List.ne_nil_of_length_pos ?_
    rw [length_hexBytes]
    omega
  · exact escapeBytes_ne_nil hne

/-- The description of data is one if the data fits in a token. -/
theorem dataDesc_wf_iff (hex : Bool) {d : List UInt8} (hne : d ≠ []) :
    (dataDesc hex d).Wf ↔ (dataText hex d).length < arsMaxTsize := by
  have hnil := dataText_ne_nil hex hne
  have hword : (dataDesc hex d).Wf ↔ IsWord (dataText hex d) := by
    cases hex with
    | true =>
      exact ⟨fun h => (h.fields _ List.mem_cons_self).value,
        fun h => ⟨(by decide : IsWord (lit "data")), fields_cons (by decide) h fields_nil⟩⟩
    | false =>
      exact ⟨fun h => (h.fields _ List.mem_cons_self).value,
        fun h => ⟨(by decide : IsWord (lit "data")), fields_cons (by decide) h fields_nil⟩⟩
  rw [hword]
  refine ⟨fun h => h.length_lt, fun h => ⟨hnil, ?_, h⟩⟩
  rw [dataText]
  split_ifs
  · exact free_hexBytes d
  · exact free_escapeBytes d

/-- **Data is built from its description**: what it is read back as. -/
theorem builds_data (libc : Libc) (hex : Bool) {d : List UInt8} (hne : d ≠ []) :
    ∃ l, Builds libc (dataDesc hex d) l ∧ l.lType = .data ∧ l.bytes = dataRead hex d := by
  cases hex with
  | true => exact ⟨_, builds_hex libc hne, rfl, List.take_length⟩
  | false => exact builds_str libc d

/-- Bytes that are no backslash are read back, whatever is behind them. -/
theorem dataRead_append (hex : Bool) {z : List UInt8} (hz : ∀ b ∈ z, b ≠ ch '\\') (x : List UInt8) :
    dataRead hex (z ++ x) = z ++ dataRead hex x := by
  cases hex with
  | true => rfl
  | false =>
    induction z with
    | nil => rfl
    | cons b z ih =>
      obtain ⟨hb, hz⟩ := List.forall_mem_cons.mp hz
      calc arsDecodeString (escapeBytes (b :: (z ++ x)))
          = b :: arsDecodeString (escapeBytes (z ++ x)) :=
            arsDecodeString_escapeBytes_cons fun h => hb h.1
        _ = b :: (z ++ arsDecodeString (escapeBytes x)) := congrArg (b :: ·) (ih hz)

/-- **Data comes back** if it fits in a token, and has no escape in it if it is a string. -/
def Readable (hex : Bool) (d : List UInt8) : Prop :=
  (dataText hex d).length < arsMaxTsize ∧ (hex = true ∨ ¬HasEscape d)

theorem dataRead_eq_iff (hex : Bool) (d : List UInt8) :
    dataRead hex d = d ↔ hex = true ∨ ¬HasEscape d := by
  cases hex with
  | true => exact iff_of_true rfl (Or.inl rfl)
  | false =>
    exact (arsDecodeString_escapeBytes_iff d).trans
      ⟨Or.inr, fun h => h.resolve_left Bool.false_ne_true⟩

end StyxWire
