import Mathlib.Data.List.Pairwise
import Mathlib.Data.List.Perm.Basic
import StyxWire.Lib.Text

/-!
# Looking up an option

`ago_lookup` goes through the list of options once. For a long option it returns at once if the name
is the same, and keeps the first one that the name abbreviates; a second one makes the name
ambiguous, at once as well. So a name that is in the list is not found if two longer ones are in
front of it (`StyxWire.Ago.resolves_iff`), and with two longer ones anywhere, the result depends on
the order of the list (`StyxWire.Ago.lookup_exact_iff`).
-/

namespace StyxWire.Ago

open Text

/-! ### The functions -/

/-- `struct ago_optlist`. A list of them ends in front of the one with `AGO_ENDOFLIST`. -/
structure AgoOptlist where
  aoShort : UInt8
  /-- `none` is the null pointer. -/
  aoLong : Option (List UInt8)
  aoId : ℤ
  aoFlags : ℕ
  deriving DecidableEq, Repr

/-- `AGO_NOARG`. -/
def agoNoarg : ℕ := 1 <<< 0

/-- `AGO_NEEDARG`. -/
def agoNeedarg : ℕ := 1 <<< 1

/-- `AGO_OPTARG`. -/
def agoOptarg : ℕ := 1 <<< 2

/-- `ago_exception_bits`. -/
def agoExceptionBits (i : Fin 3) : ℕ := 1 <<< (3 + i.val)

/-- A flag is set. -/
def AgoOptlist.has (o : AgoOptlist) (flag : ℕ) : Bool := o.aoFlags &&& flag ≠ 0

/-- `ago_exceptions`: what a tester returns, if there is one, and the message. -/
abbrev AgoExceptions := Fin 3 → Option (Bool × List UInt8)

/-- `strinitcmp`, for two strings. -/
def strinitcmp : List UInt8 → List UInt8 → ℕ
  | a :: as, b :: bs => if a = b then strinitcmp as bs else 0
  | _ :: _, [] => 0
  | [], [] => 2
  | [], _ :: _ => 1

/-- `strinitcmp`, where the second string may be a null pointer. -/
def strinitcmpNull (a : List UInt8) (b : Option (List UInt8)) : ℕ := b.elim 0 (strinitcmp a)

/-- The loop over the list for a long option: the option, the flag of an ambiguous abbreviation, and
`ago_optname`. -/
def lookupLong (arg : List UInt8) : List AgoOptlist → Option AgoOptlist → Option (List UInt8) →
    Option AgoOptlist × Bool × Option (List UInt8)
  | [], some last, _ => (some last, false, last.aoLong)
  | [], none, optname => (none, false, optname)
  | o :: list, last, _ =>
    match strinitcmpNull arg o.aoLong with
    | 1 =>
      if last.isSome then (none, true, some arg) else lookupLong arg list (some o) (some arg)
    | 2 => (some o, false, some arg)
    | _ => lookupLong arg list last (some arg)

/-- What `ago_lookup` leaves: what it returns, or the message with which it exits instead of
returning; and the variables that it sets. -/
structure AgoLookup where
  opt : Option AgoOptlist
  exits : Option (List UInt8)
  islong : Bool
  amb : Bool
  agoOptname : Option (List UInt8)
  agoOptchar : UInt8

/-- The message of the first exception that applies. -/
def exceptionMessage (ex : AgoExceptions) (o : AgoOptlist) (optname : Option (List UInt8))
    (optchar : UInt8) : Option (List UInt8) :=
  (List.finRange 3).findSome? fun i =>
    match ex i with
    | some (true, msg) =>
      if o.has (agoExceptionBits i) then
        some (msg ++ match optname with
          | some name => lit " `--" ++ name ++ lit "'\n"
          | none => lit " `-" ++ [optchar] ++ lit "'\n")
      else none
    | _ => none

/-- The exceptions are handled if an option was found. -/
def AgoLookup.handled (ex : AgoExceptions) (r : AgoLookup) : AgoLookup :=
  { r with exits := r.opt.bind fun o => exceptionMessage ex o r.agoOptname r.agoOptchar }

/-- `ago_lookup`. The names are those that are set before. -/
def agoLookup (ex : AgoExceptions) (list : List AgoOptlist) (arg : List UInt8)
    (optname : Option (List UInt8)) (optchar : UInt8) : AgoLookup :=
  match (if arg.head? = some (ch '-') then arg.tail else arg) with
  | [] => ⟨none, none, false, false, optname, optchar⟩
  | c :: rest =>
    if c = ch '-' then
      let (opt, amb, name) := lookupLong rest list none optname
      AgoLookup.handled ex ⟨opt, none, true, amb, name, if list = [] then optchar else 0⟩
    else
      AgoLookup.handled ex ⟨list.find? (·.aoShort = c), none, false, false, none, c⟩

/-! ### Names and abbreviations -/

/-- The name is that of the option. -/
def Names (name : List UInt8) (o : AgoOptlist) : Prop := o.aoLong = some name

instance (name : List UInt8) : DecidablePred (Names name) := fun o =>
  inferInstanceAs (Decidable (o.aoLong = some name))

/-- The name is a proper initial part of that of the option. -/
def Abbreviates (name : List UInt8) (o : AgoOptlist) : Prop :=
  ∃ c rest, o.aoLong = some (name ++ c :: rest)

theorem strinitcmp_eq_two {a b : List UInt8} : strinitcmp a b = 2 ↔ b = a := by
  induction a generalizing b with
  | nil => cases b <;> simp [strinitcmp]
  | cons x a ih =>
    cases b with
    | nil => simp [strinitcmp]
    | cons y b =>
      rw [strinitcmp]
      split_ifs with hxy
      · rw [ih, hxy, List.cons.injEq, eq_self_iff_true, true_and]
      · exact ⟨nofun, fun h => absurd (List.cons.inj h).1.symm hxy⟩

theorem strinitcmp_eq_one {a b : List UInt8} :
    strinitcmp a b = 1 ↔ ∃ c rest, b = a ++ c :: rest := by
  induction a generalizing b with
  | nil => cases b <;> simp [strinitcmp]
  | cons x a ih =>
    cases b with
    | nil => simp [strinitcmp]
    | cons y b =>
      rw [strinitcmp]
      split_ifs with hxy
      · simp only [ih, hxy, List.cons_append, List.cons.injEq, true_and]
      · refine ⟨nofun, ?_⟩
        rintro ⟨c, rest, h⟩
        exact absurd (List.cons.inj h).1.symm hxy

variable {name : List UInt8} {o : AgoOptlist}

theorem strinitcmpNull_eq_two : strinitcmpNull name o.aoLong = 2 ↔ Names name o := by
  rw [strinitcmpNull, Names]
  cases o.aoLong with
  | none => simp
  | some b => rw [Option.elim_some, strinitcmp_eq_two, Option.some.injEq]

theorem strinitcmpNull_eq_one : strinitcmpNull name o.aoLong = 1 ↔ Abbreviates name o := by
  rw [strinitcmpNull, Abbreviates]
  cases o.aoLong with
  | none => simp
  | some b => simp only [Option.elim_some, strinitcmp_eq_one, Option.some.injEq]

instance (name : List UInt8) : DecidablePred (Abbreviates name) := fun _ =>
  decidable_of_iff _ strinitcmpNull_eq_one

theorem Abbreviates.not_names (h : Abbreviates name o) : ¬Names name o := by
  intro hname
  have hone := strinitcmpNull_eq_one.mpr h
  rw [strinitcmpNull_eq_two.mpr hname] at hone
  exact absurd hone (by decide)

/-- The options that a name abbreviates. -/
def abbreviated (name : List UInt8) (list : List AgoOptlist) : List AgoOptlist :=
  list.filter (Abbreviates name ·)

theorem abbreviated_cons (name : List UInt8) (o : AgoOptlist) (list : List AgoOptlist) :
    abbreviated name (o :: list) =
      if Abbreviates name o then o :: abbreviated name list else abbreviated name list := by
  rw [abbreviated, List.filter_cons, abbreviated]
  simp only [decide_eq_true_eq]

/-- The element of a list that has no other. -/
def single : List AgoOptlist → Option AgoOptlist
  | [o] => some o
  | _ => none

theorem single_perm {list list' : List AgoOptlist} (h : list'.Perm list) :
    single list' = single list := by
  match list, h with
  | [], h => rw [List.perm_nil.mp h]
  | [o], h => rw [List.perm_singleton.mp h]
  | o :: o' :: list, h =>
    match list', h.length_eq with
    | _ :: _ :: _, _ => rfl

/-! ### The loop -/

variable {list before after : List AgoOptlist} {last : Option AgoOptlist}
  {optname : Option (List UInt8)} {optchar : UInt8} {ex : AgoExceptions}

/-- One turn. -/
theorem lookupLong_cons (name : List UInt8) (o : AgoOptlist) (list : List AgoOptlist)
    (last : Option AgoOptlist) (optname : Option (List UInt8)) :
    lookupLong name (o :: list) last optname =
      if Abbreviates name o then
        if last.isSome then (none, true, some name) else lookupLong name list (some o) (some name)
      else if Names name o then (some o, false, some name)
      else lookupLong name list last (some name) := by
  rw [lookupLong]
  by_cases habbr : Abbreviates name o
  · rw [if_pos habbr, strinitcmpNull_eq_one.mpr habbr]
    rfl
  · rw [if_neg habbr]
    by_cases hname : Names name o
    · rw [if_pos hname, strinitcmpNull_eq_two.mpr hname]
      rfl
    · rw [if_neg hname]
      split
      · exact absurd (strinitcmpNull_eq_one.mp ‹_›) habbr
      · exact absurd (strinitcmpNull_eq_two.mp ‹_›) hname
      · rfl

/-- **Without the name in the list**, it is what it abbreviates that counts. -/
theorem lookupLong_of_not_names (last : Option AgoOptlist) (optname : Option (List UInt8))
    (hno : ∀ o ∈ list, ¬Names name o) :
    (lookupLong name list last optname).1 = single (last.toList ++ abbreviated name list) ∧
    ((lookupLong name list last optname).2.1 = true ↔
      2 ≤ (last.toList ++ abbreviated name list).length) := by
  induction list generalizing last optname with
  | nil => cases last <;> simp [lookupLong, abbreviated, single]
  | cons o list ih =>
    obtain ⟨ho, hno⟩ := List.forall_mem_cons.mp hno
    rw [lookupLong_cons, abbreviated_cons]
    by_cases habbr : Abbreviates name o
    · rw [if_pos habbr, if_pos habbr]
      cases last with
      | none => exact ih _ _ hno
      | some o' => simp [single]
    · rw [if_neg habbr, if_neg habbr, if_neg ho]
      exact ih _ _ hno

/-- **With the name in the list**, it is what it abbreviates in front of it. -/
theorem lookupLong_of_names (last : Option AgoOptlist) (optname : Option (List UInt8))
    (hno : ∀ o ∈ before, ¬Names name o) (ho : Names name o) :
    ((lookupLong name (before ++ o :: after) last optname).1,
      (lookupLong name (before ++ o :: after) last optname).2.1) =
      if 2 ≤ (last.toList ++ abbreviated name before).length then (none, true)
      else (some o, false) := by
  induction before generalizing last optname with
  | nil =>
    have habbr : ¬Abbreviates name o := fun habbr => habbr.not_names ho
    rw [List.nil_append, lookupLong_cons, if_neg habbr, if_pos ho]
    cases last <;> simp [abbreviated]
  | cons o' before ih =>
    obtain ⟨ho', hno⟩ := List.forall_mem_cons.mp hno
    rw [List.cons_append, lookupLong_cons, abbreviated_cons]
    by_cases habbr : Abbreviates name o'
    · rw [if_pos habbr, if_pos habbr]
      cases last with
      | none => exact ih _ _ hno
      | some o'' => simp
    · rw [if_neg habbr, if_neg habbr, if_neg ho']
      exact ih _ _ hno

/-! ### When it is exact -/

/-- What the function finds, and the flag of an ambiguous abbreviation. -/
def found (ex : AgoExceptions) (list : List AgoOptlist) (name : List UInt8)
    (optname : Option (List UInt8)) (optchar : UInt8) : Option AgoOptlist × Bool :=
  ((agoLookup ex list (lit "--" ++ name) optname optchar).opt,
    (agoLookup ex list (lit "--" ++ name) optname optchar).amb)

theorem found_eq (ex : AgoExceptions) (list : List AgoOptlist) (name : List UInt8)
    (optname : Option (List UInt8)) (optchar : UInt8) :
    found ex list name optname optchar =
      ((lookupLong name list none optname).1, (lookupLong name list none optname).2.1) := rfl

theorem found_append (before : List AgoOptlist) (hno : ∀ o ∈ before, ¬Names name o)
    (ho : Names name o) :
    found ex (before ++ o :: after) name optname optchar =
      if 2 ≤ (abbreviated name before).length then (none, true) else (some o, false) :=
  lookupLong_of_names none optname hno ho

/-- What is to be found: the option with the name; or the only one that the name abbreviates;
or none, and then the name is ambiguous if it begins two names or more. -/
structure Resolves (list : List AgoOptlist) (name : List UInt8) (r : Option AgoOptlist × Bool) :
    Prop where
  names : ∀ o ∈ list, Names name o → r.1 = some o
  abbreviates : (∀ o ∈ list, ¬Names name o) → ∀ o, abbreviated name list = [o] → r.1 = some o
  unknown : (∀ o ∈ list, ¬Names name o) → (abbreviated name list).length ≠ 1 → r.1 = none
  amb : r.1 = none →
    (r.2 = true ↔ 2 ≤ list.countP fun o => Names name o ∨ Abbreviates name o)

/-- The names are pairwise different. -/
def Distinct (list : List AgoOptlist) : Prop :=
  list.Pairwise fun o o' => ∀ name, Names name o → ¬Names name o'

theorem Distinct.eq (h : Distinct list) {o' : AgoOptlist} (ho : o ∈ list) (hname : Names name o)
    (ho' : o' ∈ list) (hname' : Names name o') : o' = o := by
  by_contra hne
  have : Std.Symm fun o o' : AgoOptlist => ∀ name, Names name o → ¬Names name o' :=
    ⟨fun _ _ h name hname' hname => h name hname hname'⟩
  exact h.forall ho' ho hne name hname' hname

/-- The list up to the option with the name. -/
theorem Distinct.split (h : Distinct list) (ho : o ∈ list) (hname : Names name o) :
    ∃ before after, list = before ++ o :: after ∧ (∀ o' ∈ before, ¬Names name o') ∧
      list.takeWhile (¬Names name ·) = before := by
  obtain ⟨before, after, rfl⟩ := List.append_of_mem ho
  have hno : ∀ o' ∈ before, ¬Names name o' := fun o' ho' hname' =>
    (List.pairwise_append.mp h).2.2 o' ho' o List.mem_cons_self name hname' hname
  refine ⟨before, after, rfl, hno, ?_⟩
  rw [List.takeWhile_append_of_pos fun o' ho' => decide_eq_true (hno o' ho'),
    List.takeWhile_cons_of_neg (by simp [hname]), List.append_nil]

/-- Without the name in the list, what is found is right. -/
theorem resolves_of_not_names (hno : ∀ o ∈ list, ¬Names name o) :
    Resolves list name (found ex list name optname optchar) := by
  obtain ⟨hopt, hamb⟩ := lookupLong_of_not_names none optname hno
  rw [Option.toList_none, List.nil_append] at hopt hamb
  rw [found_eq]
  refine ⟨fun o ho hname => absurd hname (hno o ho), fun _ o hone => ?_, fun _ hne => ?_,
    fun _ => ?_⟩
  · rw [hopt, hone]
    rfl
  · rw [hopt]
    match habbr : abbreviated name list with
    | [] => rfl
    | [_] => exact absurd (congrArg List.length habbr) hne
    | _ :: _ :: _ => rfl
  · rw [hamb, abbreviated, ← List.countP_eq_length_filter]
    have hcount : list.countP (fun o => decide (Abbreviates name o)) =
        list.countP fun o => decide (Names name o ∨ Abbreviates name o) :=
      List.countP_congr fun o ho => by simp [hno o ho]
    rw [hcount]

/-- **A name is resolved as it should be in these cases and no others**: if it is in the list, it
abbreviates one option at most in front of it. -/
theorem resolves_iff (h : Distinct list) :
    Resolves list name (found ex list name optname optchar) ↔
      ((∃ o ∈ list, Names name o) →
        (abbreviated name (list.takeWhile (¬Names name ·))).length ≤ 1) := by
  by_cases hnames : ∃ o ∈ list, Names name o
  · obtain ⟨o, ho, hname⟩ := hnames
    obtain ⟨before, after, hlist, hno, htake⟩ := h.split ho hname
    have hfound : found ex list name optname optchar =
        if 2 ≤ (abbreviated name before).length then (none, true) else (some o, false) := by
      rw [hlist, found_append _ hno hname]
    rw [htake]
    constructor
    · intro hresolves _
      by_contra hlt
      have hsome := hresolves.names o ho hname
      rw [hfound, if_pos (by omega)] at hsome
      cases hsome
    · intro hle
      have hone := hle ⟨o, ho, hname⟩
      rw [hfound, if_neg (by omega)]
      exact ⟨fun o' ho' hname' => congrArg some (h.eq ho' hname' ho hname),
        fun hnone => absurd hname (hnone o ho), fun hnone => absurd hname (hnone o ho), nofun⟩
  · have hno : ∀ o ∈ list, ¬Names name o := fun o ho hname => hnames ⟨o, ho, hname⟩
    exact ⟨fun _ hex => absurd hex hnames, fun _ => resolves_of_not_names hno⟩

/-- The name is resolved, and the order of the list does not matter. -/
structure LookupExact (ex : AgoExceptions) (list : List AgoOptlist) (name : List UInt8)
    (optname : Option (List UInt8)) (optchar : UInt8) : Prop where
  resolves : Resolves list name (found ex list name optname optchar)
  order : ∀ list', list'.Perm list →
    found ex list' name optname optchar = found ex list name optname optchar

theorem Distinct.perm {list' : List AgoOptlist} (h : Distinct list) (hperm : list'.Perm list) :
    Distinct list' :=
  (hperm.pairwise_iff fun hne name hname' hname => hne name hname hname').mpr h

theorem abbreviated_takeWhile_le (name : List UInt8) (list : List AgoOptlist) :
    (abbreviated name (list.takeWhile (¬Names name ·))).length ≤ (abbreviated name list).length :=
  ((List.takeWhile_sublist _).filter _).length_le

/-- With at most one longer name, a name in the list is found wherever it is. -/
theorem found_of_names (h : Distinct list) (ho : o ∈ list) (hname : Names name o)
    (hle : (abbreviated name list).length ≤ 1) :
    found ex list name optname optchar = (some o, false) := by
  obtain ⟨before, after, hlist, hno, htake⟩ := h.split ho hname
  have hbefore := abbreviated_takeWhile_le name list
  rw [htake] at hbefore
  rw [hlist, found_append _ hno hname, if_neg (by omega)]

/-- **The lookup is exact in these cases and no others.** -/
theorem lookup_exact_iff (h : Distinct list) :
    LookupExact ex list name optname optchar ↔
      ((∃ o ∈ list, Names name o) → (abbreviated name list).length ≤ 1) := by
  constructor
  · rintro hexact ⟨o, ho, hname⟩
    by_contra hlt
    obtain ⟨before, after, rfl, hno, -⟩ := h.split ho hname
    have hfirst : (o :: (before ++ after)).Perm (before ++ o :: after) := List.perm_middle.symm
    have hlast : ((before ++ after) ++ [o]).Perm (before ++ o :: after) :=
      (List.perm_append_comm).trans hfirst
    -- in front of the others it is found, and behind them it is not
    have hfound : found ex (o :: (before ++ after)) name optname optchar = (some o, false) :=
      (found_append [] (fun _ h => absurd h List.not_mem_nil) hname).trans
        (if_neg (by simp [abbreviated]))
    have hothers : ∀ o' ∈ before ++ after, ¬Names name o' := by
      intro o' ho' hname'
      have hpair := (List.pairwise_cons.mp (h.perm hfirst)).1 o' ho'
      exact hpair name hname hname'
    have habbr : (abbreviated name (before ++ after)).length =
        (abbreviated name (before ++ o :: after)).length := by
      have hnot : ¬Abbreviates name o := fun habbr => habbr.not_names hname
      rw [abbreviated, abbreviated, List.filter_append, List.filter_append,
        List.filter_cons_of_neg (by simpa using hnot)]
    have hnone : found ex ((before ++ after) ++ [o]) name optname optchar = (none, true) :=
      (found_append _ hothers hname).trans (if_pos (by rw [habbr]; omega))
    have heq := (hexact.order _ hfirst).trans (hexact.order _ hlast).symm
    rw [hfound, hnone] at heq
    cases heq
  · intro hle
    refine ⟨(resolves_iff h).mpr fun hex => (abbreviated_takeWhile_le name list).trans (hle hex),
      fun list' hperm => ?_⟩
    have hlength := (hperm.filter (Abbreviates name ·)).length_eq
    by_cases hnames : ∃ o ∈ list, Names name o
    · obtain ⟨o, ho, hname⟩ := hnames
      have hone := hle ⟨o, ho, hname⟩
      rw [found_of_names h ho hname hone, found_of_names (h.perm hperm) (hperm.mem_iff.mpr ho) hname
        (hlength.trans_le hone)]
    · have hno : ∀ o ∈ list, ¬Names name o := fun o ho hname => hnames ⟨o, ho, hname⟩
      have hno' : ∀ o ∈ list', ¬Names name o := fun o ho => hno o (hperm.mem_iff.mp ho)
      obtain ⟨hopt, hamb⟩ := lookupLong_of_not_names none optname hno
      obtain ⟨hopt', hamb'⟩ := lookupLong_of_not_names none optname hno'
      rw [Option.toList_none, List.nil_append] at hopt hamb hopt' hamb'
      rw [found_eq, found_eq, Prod.mk.injEq, Bool.eq_iff_iff, hamb, hamb', hopt, hopt']
      exact ⟨single_perm (hperm.filter _), by rw [abbreviated, abbreviated, hlength]⟩

/-- An option with a long name and nothing else. -/
def long (name : String) : AgoOptlist := ⟨0, some (lit name), 0, 0⟩

/-- A name behind two that are longer is not found. -/
theorem lookup_inexact :
    Distinct [long "faster", long "fastest", long "fast"] ∧
      ¬LookupExact (fun _ => none) [long "faster", long "fastest", long "fast"] (lit "fast") none
        0 := by
  refine ⟨?_, fun h => ?_⟩
  · simp [Distinct, Names, long, lit, ch]
  · have hfound := h.resolves.names (long "fast") (by simp) rfl
    exact absurd (show (none : Option AgoOptlist) = some (long "fast") from hfound) nofun

/-- A name behind one that is longer is found. -/
theorem lookup_exact_two :
    LookupExact (fun _ => none) [long "faster", long "fast"] (lit "fast") none 0 := by
  refine (lookup_exact_iff ?_).mpr fun _ => ?_
  · simp [Distinct, Names, long, lit, ch]
  · decide

end StyxWire.Ago
