import Mathlib.Data.List.GetD
import Mathlib.Data.List.TakeWhile
import StyxWire.Lib.Text

/-!
# Templates of destinations

`--rand-dest` takes a template such as `192.168.x.x`. `parse_rand_dest` cuts it with `sscanf`, up to
four characters a part, and reads each part with `strtoul`.

What a template is, is said on its own (`StyxWire.Hping.IsTemplate`). The function takes every
template for one, and strings besides (`StyxWire.Hping.randDest_exact_iff`): `strtoul` skips blanks
and a sign, four digits may be a byte, and what `sscanf` does not convert behind the fourth part is
not looked at.
-/

namespace StyxWire.Hping

open Text

/-! ### The function -/

/-- `%4[^.]`: the part, and what is behind it. -/
def scanSet (s : List UInt8) : Option (List UInt8 × List UInt8) :=
  let part := (s.takeWhile (· ≠ ch '.')).take 4
  if part = [] then none else some (part, s.drop part.length)

/-- A dot of the format. -/
def scanDot : List UInt8 → Option (List UInt8)
  | c :: s => if c = ch '.' then some s else none
  | [] => none

/-- `sscanf(template, "%4[^.].%4[^.].%4[^.].%4[^.]", a, b, c, d)`, if it converts all four. -/
def scanTemplate (s : List UInt8) : Option (List (List UInt8)) := do
  let (a, s) ← scanSet s
  let s ← scanDot s
  let (b, s) ← scanSet s
  let s ← scanDot s
  let (c, s) ← scanSet s
  let s ← scanDot s
  let (d, _) ← scanSet s
  return [a, b, c, d]

/-- `strtoul(s, &end, 10)`, with 64-bit unsigned longs: the number, and the string at `end`. -/
def strtoulEnd (s : List UInt8) : ℕ × List UInt8 :=
  let t := s.dropWhile isSpace
  let u := if t.head? = some (ch '-') ∨ t.head? = some (ch '+') then t.tail else t
  let ds := u.takeWhile isDigit
  if ds = [] then (0, s)
  else
    let v := readNat 10 ds 0
    (if 2 ^ 64 ≤ v then 2 ^ 64 - 1 else if t.head? = some (ch '-') then (2 ^ 64 - v) % 2 ^ 64 else v,
      u.dropWhile isDigit)

section Rand

-- `hp_rand`: the number, and the state of the generator
variable {σ : Type} (hpRand : σ → ℕ × σ)

/-- `rand_dest_octet`; `none` stands for -1. -/
def randDestOctet (s : List UInt8) (g : σ) : Option ℕ × σ :=
  if s = lit "x" then (some ((hpRand g).1 &&& 0xff), (hpRand g).2)
  else if s = [] then (none, g)
  else
    let (v, rest) := strtoulEnd s
    (if rest ≠ [] ∨ 255 < v then none else some v, g)

/-- The loop over the parts. -/
def randDestOctets : List (List UInt8) → σ → Option (List ℕ) × σ
  | [], g => (some [], g)
  | o :: os, g =>
    match randDestOctet hpRand o g with
    | (none, g) => (none, g)
    | (some v, g) => ((randDestOctets os g).1.map (v :: ·), (randDestOctets os g).2)

/-- `parse_rand_dest`: what it returns, `ra`, and the state of the generator. -/
def parseRandDest (template : List UInt8) (ra : List UInt8) (g : σ) : ℤ × List UInt8 × σ :=
  match scanTemplate template with
  | none => (-1, ra, g)
  | some oct =>
    match randDestOctets hpRand oct g with
    | (none, g) => (-1, ra, g)
    | (some v, g) => (0, v.map UInt8.ofNat, g)

end Rand

/-! ### What a template is -/

/-- One to three digits, and a byte. -/
structure Octet (p : List UInt8) (v : ℕ) : Prop where
  ne_nil : p ≠ []
  length_le : p.length ≤ 3
  digits : ∀ c ∈ p, isDigit c
  value : readNat 10 p 0 = v
  le : v ≤ 255

/-- Four parts, with dots between them. -/
structure IsTemplate (s : List UInt8) (parts : List (List UInt8)) : Prop where
  four : parts.length = 4
  text : s = [ch '.'].intercalate parts
  parts : ∀ p ∈ parts, p = lit "x" ∨ ∃ v, Octet p v

/-- What `strtoul` takes for a byte: blanks, a sign and digits. -/
structure Lax (p blanks sign ds : List UInt8) (v : ℕ) : Prop where
  text : p = blanks ++ sign ++ ds
  blanks_space : ∀ c ∈ blanks, isSpace c
  sign_mem : sign = [] ∨ sign = [ch '+'] ∨ sign = [ch '-']
  ne_nil : ds ≠ []
  digits : ∀ c ∈ ds, isDigit c
  value : readNat 10 ds 0 = v
  le : v ≤ 255
  minus : sign = [ch '-'] → v = 0

/-- A part of four characters at most that is taken for a byte, and is none: there is a blank or a
sign, or there are four digits. -/
def Sloppy (p : List UInt8) : Prop :=
  ∃ blanks sign ds v, Lax p blanks sign ds v ∧ p.length ≤ 4 ∧
    (blanks ≠ [] ∨ sign ≠ [] ∨ ds.length = 4)

/-! ### The parts -/

variable {s rest p : List UInt8}

/-- What `%4[^.]` converts. -/
structure Part (p rest : List UInt8) : Prop where
  ne_nil : p ≠ []
  length_le : p.length ≤ 4
  no_dot : ch '.' ∉ p
  maximal : p.length < 4 → rest = [] ∨ ∃ rest', rest = ch '.' :: rest'

theorem scanSet_append (h : Part p rest) : scanSet (p ++ rest) = some (p, rest) := by
  have hall : ∀ c ∈ p, decide (c ≠ ch '.') = true := fun c hc =>
    decide_eq_true fun heq => h.no_dot (heq ▸ hc)
  have hpart : ((p ++ rest).takeWhile (· ≠ ch '.')).take 4 = p := by
    rw [List.takeWhile_append_of_pos hall]
    rcases Nat.lt_or_ge p.length 4 with hlt | hge
    · have hnone : rest.takeWhile (· ≠ ch '.') = [] := by
        rcases h.maximal hlt with rfl | ⟨rest', rfl⟩
        · rfl
        · rw [List.takeWhile_cons_of_neg (by simp)]
      rw [hnone, List.append_nil, List.take_of_length_le hlt.le]
    · have hlen : p.length = 4 := le_antisymm h.length_le hge
      rw [← hlen, List.take_left']
      rfl
  simp only [scanSet, hpart, if_neg h.ne_nil, List.drop_left]

theorem part_of_scanSet (h : scanSet s = some (p, rest)) : s = p ++ rest ∧ Part p rest := by
  obtain ⟨run, tail, hs, hrun, htail⟩ : ∃ run tail, s = run ++ tail ∧
      s.takeWhile (· ≠ ch '.') = run ∧ (tail = [] ∨ ∃ rest', tail = ch '.' :: rest') := by
    refine ⟨_, s.dropWhile (· ≠ ch '.'), (List.takeWhile_append_dropWhile).symm, rfl, ?_⟩
    cases hdrop : s.dropWhile (· ≠ ch '.') with
    | nil => exact Or.inl rfl
    | cons c tail =>
      have hc := List.head?_dropWhile_not (· ≠ ch '.') s
      rw [hdrop] at hc
      simp only [List.head?_cons, ne_eq, decide_not, Bool.not_eq_eq_eq_not, Bool.not_false,
        decide_eq_true_eq] at hc
      exact Or.inr ⟨tail, by rw [hc]⟩
  simp only [scanSet, hrun] at h
  split_ifs at h with hnil
  rw [Option.some.injEq, Prod.mk.injEq] at h
  obtain ⟨rfl, rfl⟩ := h
  have hno : ch '.' ∉ run := fun hmem => by
    have hdot := List.mem_takeWhile_imp (hrun ▸ hmem)
    simp at hdot
  have hlength : (run.take 4).length = min 4 run.length := List.length_take
  have hsplit : s = run.take 4 ++ s.drop (run.take 4).length := by
    rw [hlength, hs, List.drop_append, Nat.min_comm]
    rcases Nat.lt_or_ge run.length 4 with hlt | hge
    · rw [Nat.min_eq_left hlt.le, List.take_of_length_le hlt.le, List.drop_length, Nat.sub_self,
        List.nil_append, List.drop_zero]
    · rw [Nat.min_eq_right hge, Nat.sub_eq_zero_of_le hge, List.drop_zero, ← List.append_assoc,
        List.take_append_drop]
  refine ⟨hsplit, hnil, hlength ▸ Nat.min_le_left _ _, fun hmem => hno (List.mem_of_mem_take hmem),
    fun hlt => ?_⟩
  have hrunlt : run.length < 4 := by omega
  rw [hlength, Nat.min_eq_right hrunlt.le, hs, List.drop_left]
  exact htail

theorem scanDot_eq_some : scanDot s = some rest ↔ s = ch '.' :: rest := by
  cases s with
  | nil => simp [scanDot]
  | cons c s =>
    rw [scanDot]
    split_ifs with hc
    · rw [hc, Option.some.injEq, List.cons.injEq, eq_self_iff_true, true_and]
    · exact ⟨nofun, fun h => absurd (List.cons.inj h).1 hc⟩

theorem part_of_dot (hne : p ≠ []) (hlength : p.length ≤ 4) (hdot : ch '.' ∉ p) :
    Part p (ch '.' :: rest) := ⟨hne, hlength, hdot, fun _ => Or.inr ⟨rest, rfl⟩⟩

/-- Four parts, with dots between them, and what is not converted. -/
structure Scanned (s a b c d rest : List UInt8) : Prop where
  text : s = a ++ ch '.' :: (b ++ ch '.' :: (c ++ ch '.' :: (d ++ rest)))
  heads : ∀ p ∈ [a, b, c], p ≠ [] ∧ p.length ≤ 4 ∧ ch '.' ∉ p
  last : Part d rest

variable {a b c d : List UInt8}

theorem Scanned.eq_some (h : Scanned s a b c d rest) : scanTemplate s = some [a, b, c, d] := by
  obtain ⟨ha, hb, hc⟩ := List.forall_mem_cons.mp h.heads |>.imp id fun h' =>
    (List.forall_mem_cons.mp h').imp id fun h'' => h'' c List.mem_cons_self
  rw [scanTemplate, h.text, scanSet_append (part_of_dot ha.1 ha.2.1 ha.2.2)]
  simp only [Option.bind_eq_bind, Option.bind_some, scanDot_eq_some.mpr rfl]
  rw [scanSet_append (part_of_dot hb.1 hb.2.1 hb.2.2)]
  simp only [Option.bind_some, scanDot_eq_some.mpr rfl]
  rw [scanSet_append (part_of_dot hc.1 hc.2.1 hc.2.2)]
  simp only [Option.bind_some, scanDot_eq_some.mpr rfl]
  rw [scanSet_append h.last]
  rfl

/-- **What `sscanf` converts.** -/
theorem exists_scanned {parts : List (List UInt8)} (h : scanTemplate s = some parts) :
    ∃ a b c d rest, parts = [a, b, c, d] ∧ Scanned s a b c d rest := by
  simp only [scanTemplate, Option.bind_eq_bind, Option.bind_eq_some_iff, Prod.exists,
    scanDot_eq_some, pure, Option.some.injEq] at h
  obtain ⟨a, s₁, ha, s₂, rfl, b, s₃, hb, s₄, rfl, c, s₅, hc, s₆, rfl, d, rest, hd, rfl⟩ := h
  obtain ⟨hsa, hpa⟩ := part_of_scanSet ha
  obtain ⟨hsb, hpb⟩ := part_of_scanSet hb
  obtain ⟨hsc, hpc⟩ := part_of_scanSet hc
  obtain ⟨hsd, hpd⟩ := part_of_scanSet hd
  refine ⟨a, b, c, d, rest, rfl, by rw [hsa, hsb, hsc, hsd], fun p hp => ?_, hpd⟩
  simp only [List.mem_cons, List.not_mem_nil, or_false] at hp
  rcases hp with rfl | rfl | rfl
  · exact ⟨hpa.ne_nil, hpa.length_le, hpa.no_dot⟩
  · exact ⟨hpb.ne_nil, hpb.length_le, hpb.no_dot⟩
  · exact ⟨hpc.ne_nil, hpc.length_le, hpc.no_dot⟩

/-! ### The octets -/

theorem not_isSpace_of_isDigit {x : UInt8} (h : isDigit x) : ¬isSpace x := by
  rw [isSpace_eq_false ((digitVal_lt_of_isDigit h).trans (by decide))]
  exact Bool.false_ne_true

/-- The sign that `strtoul` skips, and what is behind it. -/
theorem exists_sign (t : List UInt8) :
    ∃ sign, (sign = [] ∨ sign = [ch '+'] ∨ sign = [ch '-']) ∧
      t = sign ++ (if t.head? = some (ch '-') ∨ t.head? = some (ch '+') then t.tail else t) ∧
      (t.head? = some (ch '-') ↔ sign = [ch '-']) := by
  cases t with
  | nil => exact ⟨[], Or.inl rfl, rfl, by simp⟩
  | cons x t =>
    have hne : ch '+' ≠ ch '-' := by decide
    simp only [List.head?_cons, Option.some.injEq, List.tail_cons]
    by_cases hminus : x = ch '-'
    · exact ⟨[ch '-'], Or.inr (Or.inr rfl), by simp [hminus], by simp [hminus]⟩
    · by_cases hplus : x = ch '+'
      · exact ⟨[ch '+'], Or.inr (Or.inl rfl), by simp [hplus], by simp [hplus, hne]⟩
      · exact ⟨[], Or.inl rfl, by simp [hminus, hplus], by simp [hminus]⟩

theorem readNat_lt_of_length {ds : List UInt8} (hds : ∀ c ∈ ds, isDigit c)
    (hlength : ds.length ≤ 4) : readNat 10 ds 0 < 10000 := by
  have hlt := readNat_lt_pow (fun c hc => digitVal_lt_of_isDigit (hds c hc)) 0
  have hpow : 10 ^ ds.length ≤ 10 ^ 4 := Nat.pow_le_pow_right (by decide) hlength
  omega

theorem Lax.length_le {blanks sign ds : List UInt8} {v : ℕ} (h : Lax p blanks sign ds v) :
    ds.length ≤ p.length := by
  rw [h.text, List.length_append]
  exact Nat.le_add_left _ _

/-- **What `strtoul` reads to the end**, of a string that is too short to overflow. -/
theorem strtoulEnd_iff {v : ℕ} (hlength : p.length ≤ 4) (hne : p ≠ []) :
    ((strtoulEnd p).2 = [] ∧ (strtoulEnd p).1 = v ∧ v ≤ 255) ↔
      ∃ blanks sign ds, Lax p blanks sign ds v := by
  constructor
  · obtain ⟨sign, hsign, hsplit, hminus⟩ := exists_sign (p.dropWhile isSpace)
    rintro ⟨hrest, hv, hle⟩
    rw [strtoulEnd] at hrest hv
    dsimp only at hrest hv
    generalize (if (p.dropWhile isSpace).head? = some (ch '-') ∨
      (p.dropWhile isSpace).head? = some (ch '+') then (p.dropWhile isSpace).tail
      else p.dropWhile isSpace) = u at hsplit hrest hv
    by_cases hnil : u.takeWhile isDigit = []
    · rw [if_pos hnil] at hrest
      exact absurd hrest hne
    · rw [if_neg hnil] at hrest hv
      dsimp only at hrest hv
      have hu : u.takeWhile isDigit = u := by
        conv_rhs => rw [← List.takeWhile_append_dropWhile (p := isDigit) (l := u), hrest,
          List.append_nil]
      rw [hu] at hv hnil
      have hdigits : ∀ c ∈ u, isDigit c := fun c hc => List.mem_takeWhile_imp (hu.symm ▸ hc)
      have htext : p = p.takeWhile isSpace ++ sign ++ u := by
        rw [List.append_assoc, ← hsplit, List.takeWhile_append_dropWhile]
      have hulen : u.length ≤ 4 := by
        have hlen := congrArg List.length htext
        simp only [List.length_append] at hlen
        omega
      have hlt := readNat_lt_of_length hdigits hulen
      have hbig : ¬2 ^ 64 ≤ readNat 10 u 0 := by omega
      rw [if_neg hbig] at hv
      have hvalue : readNat 10 u 0 = v ∧ (sign = [ch '-'] → v = 0) := by
        split_ifs at hv with hhead
        · omega
        · exact ⟨hv, fun hs => absurd (hminus.mpr hs) hhead⟩
      exact ⟨p.takeWhile isSpace, sign, u, htext, fun c hc => List.mem_takeWhile_imp hc, hsign, hnil,
        hdigits, hvalue.1, hle, hvalue.2⟩
  · rintro ⟨blanks, sign, ds, h⟩
    have hdrop : p.dropWhile isSpace = sign ++ ds := by
      rw [h.text, List.append_assoc, List.dropWhile_append_of_pos h.blanks_space]
      obtain ⟨x, ds, rfl⟩ := List.exists_cons_of_ne_nil h.ne_nil
      rcases h.sign_mem with rfl | rfl | rfl
      · rw [List.nil_append, List.dropWhile_cons,
          if_neg (not_isSpace_of_isDigit (h.digits x List.mem_cons_self))]
      · rfl
      · rfl
    obtain ⟨x, ds', hcons⟩ := List.exists_cons_of_ne_nil h.ne_nil
    have hx := (digitVal_lt_of_isDigit (h.digits x (hcons ▸ List.mem_cons_self)))
    have hxm : x ≠ ch '-' := ne_of_digitVal_lt (hx.trans (by decide))
    have hxp : x ≠ ch '+' := ne_of_digitVal_lt (hx.trans (by decide))
    have htake : ds.takeWhile isDigit = ds := List.takeWhile_eq_self_iff.mpr h.digits
    have hdropd : ds.dropWhile isDigit = [] := List.dropWhile_eq_nil_iff.mpr h.digits
    have hbig : ¬2 ^ 64 ≤ v := by
      have hle := h.le
      omega
    rw [strtoulEnd, hdrop]
    rcases h.sign_mem with rfl | rfl | rfl
    · simp only [List.nil_append, hcons, List.head?_cons, Option.some.injEq, hxm, hxp, or_self,
        if_false]
      rw [← hcons]
      simp only [htake, if_neg h.ne_nil, hdropd, h.value, if_neg hbig]
      exact ⟨trivial, trivial, h.le⟩
    · have hpm : ch '+' ≠ ch '-' := by decide
      simp only [List.singleton_append, List.head?_cons, Option.some.injEq, hpm, or_true, if_true,
        List.tail_cons, htake, if_neg h.ne_nil, hdropd, h.value, if_neg hbig, if_false]
      exact ⟨trivial, trivial, h.le⟩
    · have hzero : readNat 10 ds 0 = 0 := h.value.trans (h.minus rfl)
      simp only [List.singleton_append, List.head?_cons, true_or, if_true, List.tail_cons, htake,
        if_neg h.ne_nil, hdropd, hzero]
      exact ⟨trivial, (h.minus rfl).symm, h.le⟩

/-- What is taken for an octet. -/
def Accepted (p : List UInt8) : Prop := p = lit "x" ∨ ∃ blanks sign ds v, Lax p blanks sign ds v

theorem Octet.lax {v : ℕ} (h : Octet p v) : Lax p [] [] p v :=
  ⟨rfl, fun _ hc => absurd hc List.not_mem_nil, Or.inl rfl, h.ne_nil, h.digits, h.value, h.le,
    fun hnil => absurd hnil (List.cons_ne_nil _ _).symm⟩

theorem Octet.not_sloppy {v : ℕ} (h : Octet p v) : ¬Sloppy p := by
  rintro ⟨blanks, sign, ds, w, hlax, -, hor⟩
  have hmem : ∀ c ∈ blanks ++ sign, isDigit c := fun c hc =>
    h.digits c (hlax.text ▸ List.mem_append_left ds hc)
  have hblanks : blanks = [] := List.eq_nil_iff_forall_not_mem.mpr fun c hc =>
    not_isSpace_of_isDigit (hmem c (List.mem_append_left _ hc)) (hlax.blanks_space c hc)
  have hsign : sign = [] := by
    rcases hlax.sign_mem with hsign | rfl | rfl
    · exact hsign
    · exact absurd (hmem (ch '+') (List.mem_append_right _ List.mem_cons_self)) (by decide)
    · exact absurd (hmem (ch '-') (List.mem_append_right _ List.mem_cons_self)) (by decide)
  have hlength := h.length_le
  rw [hlax.text, hblanks, hsign, List.nil_append, List.nil_append] at hlength
  rcases hor with hor | hor | hor
  · exact hor hblanks
  · exact hor hsign
  · omega

theorem not_sloppy_x : ¬Sloppy (lit "x") := by
  rintro ⟨blanks, sign, ds, w, hlax, -, -⟩
  obtain ⟨c, ds', hcons⟩ := List.exists_cons_of_ne_nil hlax.ne_nil
  have hc : c ∈ lit "x" := by
    rw [hlax.text, hcons]
    exact List.mem_append_right _ List.mem_cons_self
  have hdigit := hlax.digits c (hcons ▸ List.mem_cons_self)
  rw [List.mem_singleton.mp hc] at hdigit
  exact absurd hdigit (by decide)

theorem octet_of_lax {blanks sign ds : List UInt8} {v : ℕ} (h : Lax p blanks sign ds v)
    (hlength : p.length ≤ 4) (hsloppy : ¬Sloppy p) : Octet p v := by
  have hnone : blanks = [] ∧ sign = [] ∧ ds.length ≠ 4 := by
    by_contra hor
    exact hsloppy ⟨blanks, sign, ds, v, h, hlength, by tauto⟩
  have hp : p = ds := by rw [h.text, hnone.1, hnone.2.1, List.nil_append, List.nil_append]
  subst hp
  exact ⟨h.ne_nil, by omega, h.digits, h.value, h.le⟩

section Rand

variable {σ : Type} (hpRand : σ → ℕ × σ) (g : σ)

theorem randDestOctet_isSome (hne : p ≠ []) (hlength : p.length ≤ 4) :
    (randDestOctet hpRand p g).1.isSome ↔ Accepted p := by
  rw [randDestOctet, Accepted, if_neg hne]
  split_ifs with hx
  · exact ⟨fun _ => Or.inl hx, fun _ => rfl⟩
  · dsimp only
    have hiff := fun v => strtoulEnd_iff (v := v) hlength hne
    split_ifs with hbad
    · refine ⟨nofun, fun h => ?_⟩
      obtain ⟨blanks, sign, ds, v, hlax⟩ := h.resolve_left hx
      obtain ⟨hrest, hv, hle⟩ := (hiff v).mpr ⟨blanks, sign, ds, hlax⟩
      rcases hbad with hbad | hbad
      · exact absurd hrest hbad
      · omega
    · rw [not_or, not_not, Nat.not_lt] at hbad
      obtain ⟨blanks, sign, ds, hlax⟩ := (hiff _).mp ⟨hbad.1, rfl, hbad.2⟩
      exact ⟨fun _ => Or.inr ⟨blanks, sign, ds, _, hlax⟩, fun _ => rfl⟩

/-- A byte is what it is read as. -/
theorem randDestOctet_octet {v : ℕ} (h : Octet p v) : randDestOctet hpRand p g = (some v, g) := by
  obtain ⟨hrest, hv, hle⟩ := (strtoulEnd_iff (h.length_le.trans (by decide)) h.ne_nil).mpr
    ⟨[], [], p, h.lax⟩
  have hx : p ≠ lit "x" := by
    rintro rfl
    exact absurd (h.digits (ch 'x') List.mem_cons_self) (by decide)
  rw [randDestOctet, if_neg hx, if_neg h.ne_nil]
  dsimp only
  rw [hrest, hv, if_neg (by simp [hle])]

theorem randDestOctets_isSome {parts : List (List UInt8)}
    (hparts : ∀ p ∈ parts, p ≠ [] ∧ p.length ≤ 4) :
    (randDestOctets hpRand parts g).1.isSome ↔ ∀ p ∈ parts, Accepted p := by
  induction parts generalizing g with
  | nil => simp [randDestOctets]
  | cons p parts ih =>
    obtain ⟨⟨hne, hlength⟩, hrest⟩ := List.forall_mem_cons.mp hparts
    have hone := randDestOctet_isSome hpRand g hne hlength
    rw [randDestOctets, List.forall_mem_cons, ← hone]
    cases hv : randDestOctet hpRand p g with
    | mk v g' =>
      cases v with
      | none => simp
      | some v =>
        simp only [Option.isSome_map, Option.isSome_some, true_and]
        exact ih g' hrest

/-- The numbers are those of the parts. -/
theorem randDestOctets_getD {parts : List (List UInt8)} {vs : List ℕ}
    (h : (randDestOctets hpRand parts g).1 = some vs) {i v : ℕ} (hi : Octet (parts.getD i []) v) :
    vs.getD i 0 = v ∧ i < vs.length := by
  induction parts generalizing g vs i with
  | nil => exact absurd rfl hi.ne_nil
  | cons p parts ih =>
    rw [randDestOctets] at h
    cases hv : randDestOctet hpRand p g with
    | mk w g' =>
      rw [hv] at h
      cases w with
      | none => cases h
      | some w =>
        simp only [Option.map_eq_some_iff] at h
        obtain ⟨ws, hws, rfl⟩ := h
        cases i with
        | zero =>
          rw [List.getD_cons_zero] at hi
          rw [randDestOctet_octet hpRand g hi, Prod.mk.injEq, Option.some.injEq] at hv
          exact ⟨hv.1.symm, Nat.succ_pos _⟩
        | succ i =>
          rw [List.getD_cons_succ] at hi
          obtain ⟨hget, hlt⟩ := ih g' hws hi
          exact ⟨hget, Nat.succ_lt_succ hlt⟩

/-! ### When it is exact -/

/-- Templates are accepted and nothing else; the numbers of a template are the bytes of `ra`, which
is as it was if the string is rejected. -/
structure RandDestExact (s ra : List UInt8) (g : σ) : Prop where
  accepts : (parseRandDest hpRand s ra g).1 = 0 ↔ ∃ parts, IsTemplate s parts
  bytes : ∀ parts, IsTemplate s parts → ∀ i v, Octet (parts.getD i []) v →
    (parseRandDest hpRand s ra g).2.1.getD i 0 = UInt8.ofNat v
  failure : (parseRandDest hpRand s ra g).1 ≠ 0 → (parseRandDest hpRand s ra g).2.1 = ra

end Rand

/-- What it takes of a string: if it is cut into parts that are taken for octets, none of them has a
blank, a sign or four digits, and nothing is behind the fourth one. -/
def RandDestHolds (s : List UInt8) : Prop :=
  ∀ a b c d rest, Scanned s a b c d rest → (∀ p ∈ [a, b, c, d], Accepted p) →
    (∀ p ∈ [a, b, c, d], ¬Sloppy p) ∧ rest = []

theorem Scanned.parts (h : Scanned s a b c d rest) :
    ∀ p ∈ [a, b, c, d], p ≠ [] ∧ p.length ≤ 4 := by
  intro p hp
  have hsplit : [a, b, c, d] = [a, b, c] ++ [d] := rfl
  rw [hsplit, List.mem_append, List.mem_singleton] at hp
  rcases hp with hp | rfl
  · exact ⟨(h.heads p hp).1, (h.heads p hp).2.1⟩
  · exact ⟨h.last.ne_nil, h.last.length_le⟩

/-- The parts of a template are cut as they are written. -/
theorem IsTemplate.scanned {parts : List (List UInt8)} (h : IsTemplate s parts) :
    ∃ a b c d, parts = [a, b, c, d] ∧ Scanned s a b c d [] := by
  obtain ⟨a, b, c, d, rfl⟩ := List.length_eq_four.mp h.four
  have hpart : ∀ p ∈ [a, b, c, d], p ≠ [] ∧ p.length ≤ 4 ∧ ch '.' ∉ p := by
    intro p hp
    rcases h.parts p hp with rfl | ⟨v, hv⟩
    · decide
    · exact ⟨hv.ne_nil, hv.length_le.trans (by decide), fun hdot =>
        absurd (hv.digits _ hdot) (by decide)⟩
  refine ⟨a, b, c, d, rfl, ?_, fun p hp => hpart p (List.mem_append_left [d] hp), ?_⟩
  · rw [h.text]
    simp [List.intercalate]
  · obtain ⟨hne, hlength, hdot⟩ := hpart d (by simp)
    exact ⟨hne, hlength, hdot, fun _ => Or.inl rfl⟩

theorem isTemplate_iff (h : Scanned s a b c d rest) (haccepted : ∀ p ∈ [a, b, c, d], Accepted p) :
    (∃ parts, IsTemplate s parts) ↔ (∀ p ∈ [a, b, c, d], ¬Sloppy p) ∧ rest = [] := by
  constructor
  · rintro ⟨parts, htemplate⟩
    obtain ⟨a', b', c', d', rfl, hscanned⟩ := htemplate.scanned
    have hsame := h.eq_some
    rw [hscanned.eq_some] at hsame
    obtain ⟨rfl, rfl, rfl, rfl⟩ : a' = a ∧ b' = b ∧ c' = c ∧ d' = d := by simpa using hsame
    refine ⟨fun p hp => ?_, ?_⟩
    · rcases htemplate.parts p hp with rfl | ⟨v, hv⟩
      · exact not_sloppy_x
      · exact hv.not_sloppy
    · have htext := h.text
      rw [hscanned.text] at htext
      simpa using htext
  · rintro ⟨hsloppy, rfl⟩
    refine ⟨[a, b, c, d], rfl, ?_, fun p hp => ?_⟩
    · rw [h.text]
      simp [List.intercalate]
    · rcases haccepted p hp with hx | ⟨blanks, sign, ds, v, hlax⟩
      · exact Or.inl hx
      · exact Or.inr ⟨v, octet_of_lax hlax (h.parts p hp).2 (hsloppy p hp)⟩

section Rand

variable {σ : Type} {hpRand : σ → ℕ × σ} {ra : List UInt8} {g : σ}

/-- The strings that are accepted. -/
theorem parseRandDest_eq_zero_iff : (parseRandDest hpRand s ra g).1 = 0 ↔
    ∃ a b c d rest, Scanned s a b c d rest ∧ ∀ p ∈ [a, b, c, d], Accepted p := by
  rw [parseRandDest]
  cases hscan : scanTemplate s with
  | none =>
    refine ⟨nofun, ?_⟩
    rintro ⟨a, b, c, d, rest, h, -⟩
    rw [h.eq_some] at hscan
    cases hscan
  | some parts =>
    obtain ⟨a, b, c, d, rest, rfl, h⟩ := exists_scanned hscan
    have hsome := randDestOctets_isSome hpRand g h.parts
    have hiff : (∃ a b c d rest, Scanned s a b c d rest ∧ ∀ p ∈ [a, b, c, d], Accepted p) ↔
        ∀ p ∈ [a, b, c, d], Accepted p := by
      refine ⟨?_, fun haccepted => ⟨a, b, c, d, rest, h, haccepted⟩⟩
      rintro ⟨a', b', c', d', rest', h', haccepted⟩
      have hsame := h.eq_some
      rw [h'.eq_some, Option.some.injEq] at hsame
      rwa [← hsame]
    rw [hiff, ← hsome]
    cases hoctets : randDestOctets hpRand [a, b, c, d] g with
    | mk vs g' =>
      cases vs with
      | none => simp [hoctets]
      | some vs => simp [hoctets]

/-- **Templates are validated as they should be in these cases and no others.** -/
theorem randDest_exact_iff : RandDestExact hpRand s ra g ↔ RandDestHolds s := by
  constructor
  · intro h a b c d rest hscanned haccepted
    exact (isTemplate_iff hscanned haccepted).mp
      (h.accepts.mp (parseRandDest_eq_zero_iff.mpr ⟨a, b, c, d, rest, hscanned, haccepted⟩))
  · intro h
    have haccepts : (parseRandDest hpRand s ra g).1 = 0 ↔ ∃ parts, IsTemplate s parts := by
      rw [parseRandDest_eq_zero_iff]
      constructor
      · rintro ⟨a, b, c, d, rest, hscanned, haccepted⟩
        exact (isTemplate_iff hscanned haccepted).mpr (h a b c d rest hscanned haccepted)
      · rintro ⟨parts, htemplate⟩
        obtain ⟨a, b, c, d, rfl, hscanned⟩ := htemplate.scanned
        exact ⟨a, b, c, d, [], hscanned, fun p hp => (htemplate.parts p hp).imp id
          fun ⟨v, hv⟩ => ⟨[], [], p, v, hv.lax⟩⟩
    refine ⟨haccepts, fun parts htemplate i v hi => ?_, fun hne => ?_⟩
    · have hzero := haccepts.mpr ⟨parts, htemplate⟩
      obtain ⟨a, b, c, d, rfl, hscanned⟩ := htemplate.scanned
      rw [parseRandDest, hscanned.eq_some] at hzero ⊢
      dsimp only at hzero ⊢
      cases hoctets : randDestOctets hpRand [a, b, c, d] g with
      | mk vs g' =>
        rw [hoctets] at hzero
        cases vs with
        | none => exact absurd (show (-1 : ℤ) = 0 from hzero) (by decide)
        | some vs =>
          obtain ⟨hget, hlt⟩ := randDestOctets_getD hpRand g (congrArg Prod.fst hoctets) hi
          rw [List.getD_eq_getElem _ _ (by rwa [List.length_map]), List.getElem_map,
            ← List.getD_eq_getElem _ 0 hlt, hget]
    · rw [parseRandDest] at hne ⊢
      cases hscan : scanTemplate s with
      | none => rfl
      | some parts =>
        rw [hscan] at hne
        dsimp only at hne ⊢
        cases hoctets : randDestOctets hpRand parts g with
        | mk vs g' =>
          rw [hoctets] at hne
          cases vs with
          | none => rfl
          | some vs => exact absurd rfl hne

end Rand

/-- A sign, four digits, and a fifth part. -/
theorem randDest_inexact :
    ¬RandDestExact (fun g : ℕ => (g, g + 1)) (lit "10.x.x.+4") [0, 0, 0, 0] 0 ∧
      ¬RandDestExact (fun g : ℕ => (g, g + 1)) (lit "10.x.x.0004") [0, 0, 0, 0] 0 ∧
      ¬RandDestExact (fun g : ℕ => (g, g + 1)) (lit "10.x.x.4.5") [0, 0, 0, 0] 0 := by
  refine ⟨fun h => ?_, fun h => ?_, fun h => ?_⟩
  all_goals
    obtain ⟨parts, htemplate⟩ := h.accepts.mp rfl
    obtain ⟨a, b, c, d, rfl, hscanned⟩ := htemplate.scanned
    have hsome := hscanned.eq_some
  · obtain ⟨rfl, rfl, rfl, rfl⟩ : lit "10" = a ∧ lit "x" = b ∧ lit "x" = c ∧ lit "+4" = d := by
      simpa using (show some [lit "10", lit "x", lit "x", lit "+4"] = _ from hsome)
    rcases htemplate.parts (lit "+4") (by simp) with hx | ⟨v, hv⟩
    · exact absurd hx (by decide)
    · exact absurd (hv.digits (ch '+') (by decide)) (by decide)
  · obtain ⟨rfl, rfl, rfl, rfl⟩ : lit "10" = a ∧ lit "x" = b ∧ lit "x" = c ∧ lit "0004" = d := by
      simpa using (show some [lit "10", lit "x", lit "x", lit "0004"] = _ from hsome)
    rcases htemplate.parts (lit "0004") (by simp) with hx | ⟨v, hv⟩
    · exact absurd hx (by decide)
    · exact absurd hv.length_le (by decide)
  · obtain ⟨rfl, rfl, rfl, rfl⟩ : lit "10" = a ∧ lit "x" = b ∧ lit "x" = c ∧ lit "4" = d := by
      simpa using (show some [lit "10", lit "x", lit "x", lit "4"] = _ from hsome)
    exact absurd hscanned.text (by decide)

end StyxWire.Hping
