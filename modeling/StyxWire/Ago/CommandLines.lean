import StyxWire.Ago.Clusters

/-!
# Command lines

What `antigetopt` makes of the arguments, over all of its calls. Here is a grammar of the command
lines, which says what they mean: an option with its argument or without, a cluster of short
options, an argument that is alone, and `--` (`StyxWire.Ago.Line`). The calls read exactly the
command lines of the grammar up to their end, with these meanings
(`StyxWire.Ago.antigetopt_reads_iff`); what is not in it ends with an error. The calls end in any
case: each of them uses up something of the arguments (`StyxWire.Ago.View.size_lt`).

Three things in the grammar are not as one expects. The argument that was seen last stays where it
is while a cluster is read, and is seen again. An option of a cluster that may have an argument
takes one only if it is the last, and does not care if it starts with `-`. And `--` is dropped at
the beginning of any call, behind the first one, too.
-/

namespace StyxWire.Ago

open Text Outputs

/-- What a call gives: its result, and `ago_optarg`. -/
abbrev Result : Type := AgoRet × Option (List UInt8)

/-! ### The grammar -/

section Grammar

variable (ex : AgoExceptions) (list : List AgoOptlist)

/-- An argument, or what is left of a cluster, starts with the name of an option that may be
used. -/
structure Finds (arg : List UInt8) (opt : AgoOptlist) : Prop where
  opt : (look ex list arg).opt = some opt
  exits : (look ex list arg).exits = none

/-- **The options of a cluster**: what they mean, what was seen last before and behind them, and the
arguments that follow, before and behind them. -/
inductive Cluster : List UInt8 → Option (List UInt8) → List (List UInt8) → List Result →
    Option (List UInt8) → List (List UInt8) → Prop
  | nil (o : Option (List UInt8)) (args : List (List UInt8)) : Cluster [] o args [] o args
  /-- An option without an argument. -/
  | flag {c : UInt8} {cs : List UInt8} {opt : AgoOptlist} {o o' : Option (List UInt8)}
      {args rest : List (List UInt8)} {rs : List Result} (hfinds : Finds ex list (c :: cs) opt)
      (hnone : opt.has agoNoarg = true ∨ opt.has agoNeedarg = false ∧ (cs ≠ [] ∨ args = []))
      (hrest : Cluster cs o args rs o' rest) :
      Cluster (c :: cs) o args ((.id opt.aoId, o) :: rs) o' rest
  /-- The last one, with an argument. -/
  | arg {c : UInt8} {opt : AgoOptlist} {o : Option (List UInt8)} {arg : List UInt8}
      {args : List (List UInt8)} (hfinds : Finds ex list [c] opt)
      (harg : opt.has agoNoarg = false) :
      Cluster [c] o (arg :: args) [(.id opt.aoId, some arg)] (some arg) args

/-- An option that is not a cluster. -/
structure Whole (a : List UInt8) (opt : AgoOptlist) : Prop where
  dash : a.head? = some (ch '-') ∧ a.tail ≠ []
  finds : Finds ex list a opt
  whole : (look ex list a).islong = true ∨ a.drop 2 = []

/-- **One thing on the command line**, behind `--` or before it. -/
inductive Item : Bool → Option (List UInt8) → List (List UInt8) → List Result →
    Option (List UInt8) → List (List UInt8) → Prop
  | alone {e : Bool} {o : Option (List UInt8)} {a : List UInt8} {rest : List (List UInt8)}
      (halone : e = true ∨ ¬(a.head? = some (ch '-') ∧ a.tail ≠ [])) :
      Item e o (a :: rest) [(.alone, some a)] (some a) rest
  | cluster {o o' : Option (List UInt8)} {c : UInt8} {cs : List UInt8} {opt : AgoOptlist}
      {rest rest' : List (List UInt8)} {rs : List Result}
      (hfinds : Finds ex list (cluster (c :: cs)) opt)
      (hshort : (look ex list (cluster (c :: cs))).islong = false) (hne : cs ≠ [])
      (hcluster : Cluster ex list (c :: cs) o rest rs o' rest') :
      Item false o (Ago.cluster (c :: cs) :: rest) rs o' rest'
  | flag {o : Option (List UInt8)} {a : List UInt8} {opt : AgoOptlist} {rest : List (List UInt8)}
      (hwhole : Whole ex list a opt) (hneedarg : opt.has agoNeedarg = false)
      (hoptarg : opt.has agoOptarg = true → takes rest = false) :
      Item false o (a :: rest) [(.id opt.aoId, none)] none rest
  | arg {o : Option (List UInt8)} {a arg : List UInt8} {opt : AgoOptlist}
      {rest : List (List UInt8)} (hwhole : Whole ex list a opt)
      (harg : opt.has agoNeedarg = true ∨ opt.has agoOptarg = true ∧ takes (arg :: rest) = true) :
      Item false o (a :: arg :: rest) [(.id opt.aoId, some arg)] (some arg) rest

/-- **A command line, and what it means.** -/
inductive Line : Bool → Option (List UInt8) → List (List UInt8) → List Result → Prop
  | nil (e : Bool) (o : Option (List UInt8)) : Line e o [] []
  | item {e : Bool} {o o' : Option (List UInt8)} {args rest : List (List UInt8)}
      {rs rs' : List Result} (hhead : args.head? ≠ some (lit "--"))
      (hitem : Item ex list e o args rs o' rest) (hrest : Line e o' rest rs') :
      Line e o args (rs ++ rs')
  | dashesEnd (e : Bool) (o : Option (List UInt8)) : Line e o [lit "--"] []
  | dashes {e : Bool} {o o' : Option (List UInt8)} {args rest : List (List UInt8)}
      {rs rs' : List Result} (hitem : Item ex list true o args rs o' rest)
      (hrest : Line true o' rest rs') : Line e o (lit "--" :: args) (rs ++ rs')

/-- A command line in the middle of which the calls are. -/
def Parses (v : View) (rs : List Result) : Prop :=
  ∃ o rest rs₁ rs₂, Cluster ex list v.chain v.optarg v.rest rs₁ o rest ∧
    Line ex list v.endoptions o rest rs₂ ∧ rs = rs₁ ++ rs₂

end Grammar

/-! ### Calls in a cluster -/

/-- A call that is followed by others. -/
def GoesOn : AgoRet → Prop
  | .id _ | .alone => True
  | _ => False

/-- A call that ends with an error. -/
def Fails : AgoRet → Prop
  | .id _ | .alone | .eof => False
  | _ => True

theorem Fails.not_goesOn {ret : AgoRet} (h : Fails ret) : ¬GoesOn ret ∧ ret ≠ .eof := by
  refine ⟨fun hgoes => ?_, fun heof => ?_⟩
  · cases ret <;> first | exact h | exact hgoes
  · rw [heof] at h
    exact h

variable {ex : AgoExceptions} {list : List AgoOptlist} {v v' : View} {rs : List Result}

theorem parses_of_chain {rest : List (List UInt8)} {e : Bool} {o : Option (List UInt8)} :
    Parses ex list ⟨rest, [], e, o⟩ rs ↔ Line ex list e o rest rs := by
  constructor
  · rintro ⟨o, rest, rs₁, rs₂, hcluster, hline, rfl⟩
    cases hcluster
    exact hline
  · exact fun hline => ⟨_, _, [], rs, .nil _ _, hline, rfl⟩

section Chain

variable {c : UInt8} {cs arg : List UInt8} {opt : AgoOptlist} {rest : List (List UInt8)}
  {e : Bool} {o : Option (List UInt8)}

/-- An option of a cluster. -/
theorem chainStep_of_finds (h : Finds ex list (c :: cs) opt) (v : View) :
    v.chainStep ex list c cs =
      if opt.has agoNoarg = true then (.id opt.aoId, { v with chain := cs })
      else
        match cs, v.rest with
        | [], arg :: rest =>
          (.id opt.aoId, { v with rest := rest, chain := cs, optarg := some arg })
        | cs, _ =>
          if opt.has agoNeedarg then (.reqarg, { v with chain := c :: cs })
          else (.id opt.aoId, { v with chain := cs }) := by
  rw [View.chainStep, h.opt, h.exits]
  dsimp only
  cases opt.has agoNoarg with
  | true => rfl
  | false => rfl

theorem chainStep_flag (hfinds : Finds ex list (c :: cs) opt)
    (hnone : opt.has agoNoarg = true ∨ opt.has agoNeedarg = false ∧ (cs ≠ [] ∨ rest = []))
    (chain : List UInt8) :
    View.chainStep ex list c cs ⟨rest, chain, e, o⟩ = (.id opt.aoId, ⟨rest, cs, e, o⟩) := by
  rw [chainStep_of_finds hfinds]
  by_cases hnoarg : opt.has agoNoarg = true
  · rw [if_pos hnoarg]
  · obtain ⟨hneedarg, hlast⟩ := hnone.resolve_left hnoarg
    have hneedarg' : ¬opt.has agoNeedarg = true := by simp [hneedarg]
    rw [if_neg hnoarg]
    rcases cs with - | ⟨c', cs⟩
    · obtain rfl := hlast.resolve_left (not_not.mpr rfl)
      exact if_neg hneedarg'
    · exact if_neg hneedarg'

theorem chainStep_arg (hfinds : Finds ex list [c] opt) (harg : opt.has agoNoarg = false)
    (chain : List UInt8) :
    View.chainStep ex list c [] ⟨arg :: rest, chain, e, o⟩ =
      (.id opt.aoId, ⟨rest, [], e, some arg⟩) := by
  rw [chainStep_of_finds hfinds, if_neg (by simp [harg])]

theorem chainStep_reqarg (hfinds : Finds ex list (c :: cs) opt)
    (hnoarg : opt.has agoNoarg = false) (hneedarg : opt.has agoNeedarg = true)
    (hnone : cs ≠ [] ∨ rest = []) (chain : List UInt8) :
    View.chainStep ex list c cs ⟨rest, chain, e, o⟩ = (.reqarg, ⟨rest, c :: cs, e, o⟩) := by
  rw [chainStep_of_finds hfinds, if_neg (by simp [hnoarg])]
  rcases cs with - | ⟨c', cs⟩
  · obtain rfl := hnone.resolve_left (not_not.mpr rfl)
    exact if_pos hneedarg
  · exact if_pos hneedarg

/-- **What a call does in a cluster.** -/
inductive ChainCall (ex : AgoExceptions) (list : List AgoOptlist) (c : UInt8) (cs : List UInt8)
    (rest : List (List UInt8)) (e : Bool) (o : Option (List UInt8)) : AgoRet × View → Prop
  | flag {opt : AgoOptlist} (hfinds : Finds ex list (c :: cs) opt)
      (hnone : opt.has agoNoarg = true ∨ opt.has agoNeedarg = false ∧ (cs ≠ [] ∨ rest = [])) :
      ChainCall ex list c cs rest e o (.id opt.aoId, ⟨rest, cs, e, o⟩)
  | arg {opt : AgoOptlist} {arg : List UInt8} {rest' : List (List UInt8)}
      (hfinds : Finds ex list (c :: cs) opt) (harg : opt.has agoNoarg = false) (hlast : cs = [])
      (hrest : rest = arg :: rest') :
      ChainCall ex list c cs rest e o (.id opt.aoId, ⟨rest', [], e, some arg⟩)
  | fails {ret : AgoRet} {v' : View} (hret : Fails ret) : ChainCall ex list c cs rest e o (ret, v')

variable (ex list) in
theorem chainCall (c : UInt8) (cs : List UInt8) (rest : List (List UInt8)) (chain : List UInt8)
    (e : Bool) (o : Option (List UInt8)) :
    ChainCall ex list c cs rest e o (View.chainStep ex list c cs ⟨rest, chain, e, o⟩) := by
  cases hopt : (look ex list (c :: cs)).opt with
  | none =>
    rw [View.chainStep, look_exits _ hopt, hopt]
    exact .fails trivial
  | some opt =>
    cases hexits : (look ex list (c :: cs)).exits with
    | some msg =>
      rw [View.chainStep, hexits]
      exact .fails trivial
    | none =>
      have hfinds : Finds ex list (c :: cs) opt := ⟨hopt, hexits⟩
      by_cases hflag : opt.has agoNoarg = true ∨ opt.has agoNeedarg = false ∧ (cs ≠ [] ∨ rest = [])
      · rw [chainStep_flag hfinds hflag]
        exact .flag hfinds hflag
      · obtain ⟨hnoarg, hneedarg⟩ := not_or.mp hflag
        rw [Bool.not_eq_true] at hnoarg
        by_cases hnone : cs ≠ [] ∨ rest = []
        · have hneedarg' : opt.has agoNeedarg = true :=
            Bool.not_eq_false _ ▸ fun hno => hneedarg ⟨hno, hnone⟩
          rw [chainStep_reqarg hfinds hnoarg hneedarg' hnone]
          exact .fails trivial
        · obtain ⟨hcs, hrest⟩ := not_or.mp hnone
          obtain rfl := not_not.mp hcs
          obtain ⟨arg, rest, rfl⟩ := List.exists_cons_of_ne_nil hrest
          rw [chainStep_arg hfinds hnoarg]
          exact .arg hfinds hnoarg rfl rfl

theorem chainStep_ne_eof (v : View) : (v.chainStep ex list c cs).1 ≠ .eof := by
  obtain ⟨rest, chain, e, o⟩ := v
  have hchain := chainCall ex list c cs rest chain e o
  generalize View.chainStep ex list c cs ⟨rest, chain, e, o⟩ = call at hchain
  cases hchain with
  | flag _ _ => simp
  | arg _ _ _ _ => simp
  | fails hret => exact hret.not_goesOn.2

/-- What the calls make of a command line: a call that goes on, and those that follow. -/
def First (ex : AgoExceptions) (list : List AgoOptlist) (call : AgoRet × View) (rs : List Result) :
    Prop :=
  GoesOn call.1 ∧ ∃ rs', rs = (call.1, call.2.optarg) :: rs' ∧ Parses ex list call.2 rs'

/-- **A cluster is read option by option.** -/
theorem parses_chain_iff (chain : List UInt8) :
    Parses ex list ⟨rest, c :: cs, e, o⟩ rs ↔
      First ex list (View.chainStep ex list c cs ⟨rest, chain, e, o⟩) rs := by
  constructor
  · rintro ⟨o', rest', rs₁, rs₂, hcluster, hline, rfl⟩
    cases hcluster with
    | flag hfinds hnone hcluster =>
      rw [chainStep_flag hfinds hnone]
      exact ⟨trivial, _, rfl, o', rest', _, rs₂, hcluster, hline, rfl⟩
    | arg hfinds harg =>
      rw [chainStep_arg hfinds harg]
      exact ⟨trivial, _, rfl, parses_of_chain.mpr hline⟩
  · intro hfirst
    cases hcall : View.chainStep ex list c cs ⟨rest, chain, e, o⟩ with
    | mk ret v' =>
      have hchain := chainCall ex list c cs rest chain e o
      rw [hcall] at hchain hfirst
      obtain ⟨hgoes, rs', rfl, hparses⟩ := hfirst
      cases hchain with
      | flag hfinds hnone =>
        obtain ⟨o', rest', rs₁, rs₂, hcluster, hline, rfl⟩ := hparses
        exact ⟨o', rest', _, rs₂, .flag hfinds hnone hcluster, hline, rfl⟩
      | arg hfinds harg hlast hrest =>
        subst hlast hrest
        exact ⟨_, _, _, rs', .arg hfinds harg, parses_of_chain.mp hparses, rfl⟩
      | fails hret => exact absurd hgoes hret.not_goesOn.1

end Chain

/-! ### Calls at an argument -/

section Arguments

variable {a arg : List UInt8} {opt : AgoOptlist} {rest : List (List UInt8)} {c : UInt8}
  {cs : List UInt8} {o : Option (List UInt8)}

theorem optionStep_cluster (hfinds : Finds ex list (cluster (c :: cs)) opt)
    (hshort : (look ex list (cluster (c :: cs))).islong = false) (hne : cs ≠ []) (v : View) :
    v.optionStep ex list (cluster (c :: cs)) rest =
      { v with rest := rest }.chainStep ex list c cs := by
  rw [View.optionStep]
  dsimp only
  rw [hfinds.opt, hfinds.exits, hshort]
  dsimp only [cluster, List.tail_cons, List.drop_succ_cons, List.drop_zero]
  exact if_pos (by simpa using hne)

/-- An option that is not a cluster. -/
theorem optionStep_of_whole (hwhole : Whole ex list a opt) (v : View) :
    v.optionStep ex list a rest =
      if opt.has agoNeedarg then
        match rest with
        | [] => (.reqarg, { v with optarg := none })
        | arg :: rest => (.id opt.aoId, { v with rest := rest, optarg := some arg })
      else if opt.has agoOptarg && takes rest then
        match rest with
        | [] => (.reqarg, { v with optarg := none })
        | arg :: rest => (.id opt.aoId, { v with rest := rest, optarg := some arg })
      else (.id opt.aoId, { v with rest := rest, optarg := none }) := by
  rw [View.optionStep]
  dsimp only
  rw [hwhole.finds.opt, hwhole.finds.exits]
  dsimp only
  rw [if_neg (by rcases hwhole.whole with h | h <;> simp [h])]
  cases rest with
  | nil => cases opt.has agoNeedarg <;> cases opt.has agoOptarg <;> rfl
  | cons arg rest =>
    by_cases harg : arg.head? = some (ch '-') <;> cases opt.has agoNeedarg <;>
      cases opt.has agoOptarg <;> simp [takes, harg]

theorem optionStep_flag (hwhole : Whole ex list a opt) (hneedarg : opt.has agoNeedarg = false)
    (hoptarg : opt.has agoOptarg = true → takes rest = false) (v : View) :
    v.optionStep ex list a rest = (.id opt.aoId, { v with rest := rest, optarg := none }) := by
  rw [optionStep_of_whole hwhole, if_neg (by simp [hneedarg]), if_neg]
  rw [Bool.and_eq_true]
  rintro ⟨hopt, htakes⟩
  exact Bool.false_ne_true ((hoptarg hopt).symm.trans htakes)

theorem optionStep_arg (hwhole : Whole ex list a opt)
    (harg : opt.has agoNeedarg = true ∨ opt.has agoOptarg = true ∧ takes (arg :: rest) = true)
    (v : View) :
    v.optionStep ex list a (arg :: rest) =
      (.id opt.aoId, { v with rest := rest, optarg := some arg }) := by
  rw [optionStep_of_whole hwhole]
  by_cases hneedarg : opt.has agoNeedarg = true
  · rw [if_pos hneedarg]
  · obtain ⟨hoptarg, htakes⟩ := harg.resolve_left hneedarg
    rw [if_neg hneedarg, if_pos (by simp [hoptarg, htakes])]

/-- **What a call does with an option.** -/
inductive OptionCall (ex : AgoExceptions) (list : List AgoOptlist) (a : List UInt8)
    (rest : List (List UInt8)) (v : View) : AgoRet × View → Prop
  | cluster {c : UInt8} {cs : List UInt8} {opt : AgoOptlist} (ha : a = Ago.cluster (c :: cs))
      (hfinds : Finds ex list (Ago.cluster (c :: cs)) opt)
      (hshort : (look ex list (Ago.cluster (c :: cs))).islong = false) (hne : cs ≠ []) :
      OptionCall ex list a rest v ({ v with rest := rest }.chainStep ex list c cs)
  | flag {opt : AgoOptlist} (hwhole : Whole ex list a opt) (hneedarg : opt.has agoNeedarg = false)
      (hoptarg : opt.has agoOptarg = true → takes rest = false) :
      OptionCall ex list a rest v (.id opt.aoId, { v with rest := rest, optarg := none })
  | arg {opt : AgoOptlist} {arg : List UInt8} {rest' : List (List UInt8)}
      (hwhole : Whole ex list a opt) (hrest : rest = arg :: rest')
      (harg : opt.has agoNeedarg = true ∨ opt.has agoOptarg = true ∧ takes rest = true) :
      OptionCall ex list a rest v (.id opt.aoId, { v with rest := rest', optarg := some arg })
  | fails {ret : AgoRet} {v' : View} (hret : Fails ret) : OptionCall ex list a rest v (ret, v')

variable (ex list) in
theorem optionCall (hdash : a.head? = some (ch '-') ∧ a.tail ≠ []) (rest : List (List UInt8))
    (v : View) : OptionCall ex list a rest v (v.optionStep ex list a rest) := by
  cases hopt : (look ex list a).opt with
  | none =>
    rw [View.optionStep]
    dsimp only
    rw [look_exits _ hopt, hopt]
    cases (look ex list a).amb with
    | true => exact .fails trivial
    | false => exact .fails trivial
  | some opt =>
    cases hexits : (look ex list a).exits with
    | some msg =>
      rw [View.optionStep]
      dsimp only
      rw [hexits]
      exact .fails trivial
    | none =>
      have hfinds : Finds ex list a opt := ⟨hopt, hexits⟩
      by_cases hcluster : (look ex list a).islong = true ∨ a.drop 2 = []
      · have hwhole : Whole ex list a opt := ⟨hdash, hfinds, hcluster⟩
        by_cases harg : opt.has agoNeedarg = true ∨ opt.has agoOptarg = true ∧ takes rest = true
        · rcases rest with - | ⟨arg, rest⟩
          · -- an argument is needed
            have hneedarg : opt.has agoNeedarg = true :=
              harg.resolve_right fun h => Bool.false_ne_true h.2
            rw [optionStep_of_whole hwhole, if_pos hneedarg]
            exact .fails trivial
          · rw [optionStep_arg hwhole harg]
            exact .arg hwhole rfl harg
        · obtain ⟨hneedarg, hoptarg⟩ := not_or.mp harg
          rw [Bool.not_eq_true] at hneedarg
          have hoptarg' : opt.has agoOptarg = true → takes rest = false := fun hopt =>
            Bool.eq_false_iff.mpr fun htakes => hoptarg ⟨hopt, htakes⟩
          rw [optionStep_flag hwhole hneedarg hoptarg']
          exact .flag hwhole hneedarg hoptarg'
      · obtain ⟨hshort, hne⟩ := not_or.mp hcluster
        rw [Bool.not_eq_true] at hshort
        obtain ⟨d, c, cs, rfl⟩ : ∃ d c cs, a = d :: c :: cs := by
          rcases a with - | ⟨d, - | ⟨c, cs⟩⟩
          · exact absurd rfl hne
          · exact absurd rfl hne
          · exact ⟨d, c, cs, rfl⟩
        obtain rfl : d = ch '-' := Option.some.inj hdash.1
        have hstep : v.optionStep ex list (ch '-' :: c :: cs) rest =
            { v with rest := rest }.chainStep ex list c cs :=
          optionStep_cluster hfinds hshort hne v
        rw [hstep]
        exact .cluster rfl hfinds hshort hne

/-- A call at an argument. -/
def itemStep (ex : AgoExceptions) (list : List AgoOptlist) (a : List UInt8)
    (rest : List (List UInt8)) (v : View) : AgoRet × View :=
  if v.endoptions = false ∧ a.head? = some (ch '-') ∧ a.tail ≠ [] then v.optionStep ex list a rest
  else (.alone, { v with rest := rest, optarg := some a })

theorem itemStep_ne_eof (v : View) : (itemStep ex list a rest v).1 ≠ .eof := by
  rw [itemStep]
  split_ifs with hdash
  · have hoption := optionCall ex list hdash.2 rest v
    generalize v.optionStep ex list a rest = call at hoption
    cases hoption with
    | cluster _ _ _ _ => exact chainStep_ne_eof _
    | flag _ _ _ => simp
    | arg _ _ _ => simp
    | fails hret => exact hret.not_goesOn.2
  · simp

/-- One thing, and the line behind it. -/
def Items (ex : AgoExceptions) (list : List AgoOptlist) (e : Bool) (o : Option (List UInt8))
    (args : List (List UInt8)) (rs : List Result) : Prop :=
  ∃ o' rest rs₁ rs₂, Item ex list e o args rs₁ o' rest ∧ Line ex list e o' rest rs₂ ∧
    rs = rs₁ ++ rs₂

/-- **A call reads the beginning of one thing.** -/
theorem items_iff {e : Bool} :
    Items ex list e o (a :: rest) rs ↔
      First ex list (itemStep ex list a rest ⟨a :: rest, [], e, o⟩) rs := by
  constructor
  · rintro ⟨o', rest', rs₁, rs₂, hitem, hline, rfl⟩
    cases hitem with
    | alone halone =>
      rw [itemStep, if_neg]
      · exact ⟨trivial, rs₂, rfl, parses_of_chain.mpr hline⟩
      · rintro ⟨he, hdash⟩
        exact halone.elim (fun htrue => Bool.false_ne_true (he.symm.trans htrue))
          fun hnot => hnot hdash
    | cluster hfinds hshort hne hcluster =>
      rw [itemStep, if_pos ⟨rfl, rfl, List.cons_ne_nil _ _⟩, optionStep_cluster hfinds hshort hne]
      exact (parses_chain_iff []).mp ⟨o', rest', rs₁, rs₂, hcluster, hline, rfl⟩
    | flag hwhole hneedarg hoptarg =>
      rw [itemStep, if_pos ⟨rfl, hwhole.dash⟩, optionStep_flag hwhole hneedarg hoptarg]
      exact ⟨trivial, rs₂, rfl, parses_of_chain.mpr hline⟩
    | arg hwhole harg =>
      rw [itemStep, if_pos ⟨rfl, hwhole.dash⟩, optionStep_arg hwhole harg]
      exact ⟨trivial, rs₂, rfl, parses_of_chain.mpr hline⟩
  · intro hfirst
    rw [itemStep] at hfirst
    by_cases hdash : e = false ∧ a.head? = some (ch '-') ∧ a.tail ≠ []
    · rw [if_pos hdash] at hfirst
      obtain ⟨rfl, hdash⟩ := hdash
      have hoption := optionCall ex list hdash rest ⟨a :: rest, [], false, o⟩
      generalize View.optionStep ex list a rest ⟨a :: rest, [], false, o⟩ = call at hfirst hoption
      cases hoption with
      | cluster ha hfinds hshort hne =>
        obtain ⟨o', rest', rs₁, rs₂, hcluster, hline, hrs⟩ := (parses_chain_iff []).mpr hfirst
        subst ha
        exact ⟨o', rest', rs₁, rs₂, .cluster hfinds hshort hne hcluster, hline, hrs⟩
      | flag hwhole hneedarg hoptarg =>
        obtain ⟨-, rs', rfl, hparses⟩ := hfirst
        exact ⟨_, _, _, rs', .flag hwhole hneedarg hoptarg, parses_of_chain.mp hparses, rfl⟩
      | arg hwhole hrest harg =>
        obtain ⟨-, rs', rfl, hparses⟩ := hfirst
        subst hrest
        exact ⟨_, _, _, rs', .arg hwhole harg, parses_of_chain.mp hparses, rfl⟩
      | fails hret => exact absurd hfirst.1 hret.not_goesOn.1
    · rw [if_neg hdash] at hfirst
      obtain ⟨-, rs', rfl, hparses⟩ := hfirst
      have halone : e = true ∨ ¬(a.head? = some (ch '-') ∧ a.tail ≠ []) := by
        rcases Bool.eq_false_or_eq_true e with he | he
        · exact Or.inl he
        · exact Or.inr fun h => hdash ⟨he, h⟩
      exact ⟨_, _, _, rs', .alone halone, parses_of_chain.mp hparses, rfl⟩

end Arguments

/-! ### All calls -/

/-- The arguments behind a `--`. -/
def behind (args : List (List UInt8)) : List (List UInt8) :=
  if args.head? = some (lit "--") then args.tail else args

/-- If `--` was seen. -/
def ended (e : Bool) (args : List (List UInt8)) : Bool := e || args.head? = some (lit "--")

theorem argvStep_eq (v : View) :
    v.argvStep ex list =
      match behind v.rest with
      | [] => (.eof, ⟨[], [], ended v.endoptions v.rest, v.optarg⟩)
      | a :: rest =>
        itemStep ex list a rest ⟨a :: rest, [], ended v.endoptions v.rest, v.optarg⟩ := by
  rw [View.argvStep, behind]
  dsimp only
  generalize (if v.rest.head? = some (lit "--") then v.rest.tail else v.rest) = args
  cases args with
  | nil => rfl
  | cons a rest =>
    refine if_congr ?_ rfl rfl
    simp only [ended, Bool.and_eq_true, Bool.not_eq_true', decide_eq_true_eq, and_assoc, ne_eq]

/-- A command line begins with one thing, or it is at its end. -/
theorem line_iff {e : Bool} {o : Option (List UInt8)} {args : List (List UInt8)} :
    Line ex list e o args rs ↔
      behind args = [] ∧ rs = [] ∨
        Items ex list (ended e args) o (behind args) rs := by
  have hdashes (args : List (List UInt8)) :
      behind (lit "--" :: args) = args ∧ ended e (lit "--" :: args) = true := by
    rw [behind, ended, List.head?_cons, if_pos rfl, List.tail_cons, decide_eq_true rfl,
      Bool.or_true]
    exact ⟨rfl, rfl⟩
  have hother (hhead : args.head? ≠ some (lit "--")) : behind args = args ∧ ended e args = e := by
    rw [behind, ended, if_neg hhead, decide_eq_false hhead, Bool.or_false]
    exact ⟨rfl, rfl⟩
  constructor
  · intro hline
    cases hline with
    | nil => exact Or.inl ⟨rfl, rfl⟩
    | item hhead hitem hrest =>
      rw [(hother hhead).1, (hother hhead).2]
      exact Or.inr ⟨_, _, _, _, hitem, hrest, rfl⟩
    | dashesEnd => exact Or.inl ⟨(hdashes []).1, rfl⟩
    | @dashes _ _ _ args _ _ _ hitem hrest =>
      rw [(hdashes args).1, (hdashes args).2]
      exact Or.inr ⟨_, _, _, _, hitem, hrest, rfl⟩
  · by_cases hhead : args.head? = some (lit "--")
    · obtain ⟨args, rfl⟩ : ∃ args', args = lit "--" :: args' := by
        rcases args with - | ⟨a, args⟩
        · simp at hhead
        · exact ⟨args, by rw [Option.some.inj hhead]⟩
      rw [(hdashes args).1, (hdashes args).2]
      rintro (⟨rfl, rfl⟩ | ⟨o', rest, rs₁, rs₂, hitem, hline, rfl⟩)
      · exact .dashesEnd e o
      · exact .dashes hitem hline
    · rw [(hother hhead).1, (hother hhead).2]
      rintro (⟨rfl, rfl⟩ | ⟨o', rest, rs₁, rs₂, hitem, hline, rfl⟩)
      · exact .nil e o
      · exact .item hhead hitem hline

/-- **A call reads the beginning of a command line**, and sees its end. -/
theorem parses_iff :
    Parses ex list v rs ↔
      (v.next ex list).1 = .eof ∧ rs = [] ∨ First ex list (v.next ex list) rs := by
  obtain ⟨rest, chain, e, o⟩ := v
  cases chain with
  | cons c cs =>
    rw [parses_chain_iff (c :: cs), View.next]
    exact ⟨Or.inr, fun h => h.resolve_left fun heof => chainStep_ne_eof _ heof.1⟩
  | nil =>
    rw [parses_of_chain, line_iff, View.next, argvStep_eq]
    dsimp only
    cases behind rest with
    | nil =>
      refine or_congr (and_congr_left fun _ => ⟨fun _ => rfl, fun _ => rfl⟩) ?_
      refine iff_of_false ?_ fun h => h.1
      rintro ⟨o', rest, rs₁, rs₂, hitem, -⟩
      generalize ended e _ = e' at hitem
      cases hitem
    | cons a rest =>
      rw [items_iff]
      exact or_congr (and_congr_left fun _ =>
        iff_of_false (List.cons_ne_nil a rest) (itemStep_ne_eof _)) Iff.rfl

/-- The size of the arguments, with something for each of them. -/
def argsSize (args : List (List UInt8)) : ℕ := (args.map fun a => a.length + 1).sum

theorem argsSize_cons (a : List UInt8) (args : List (List UInt8)) :
    argsSize (a :: args) = a.length + 1 + argsSize args := by
  rw [argsSize, argsSize, List.map_cons, List.sum_cons]

theorem argsSize_behind (args : List (List UInt8)) : argsSize (behind args) ≤ argsSize args := by
  rw [behind]
  split_ifs
  · cases args with
    | nil => exact le_refl _
    | cons a args =>
      rw [List.tail_cons, argsSize_cons]
      omega
  · exact le_refl _

/-- What is left to be read. -/
def View.size (v : View) : ℕ := v.chain.length + argsSize v.rest

theorem chainStep_size {c : UInt8} {cs : List UInt8}
    (hgoes : GoesOn (v.chainStep ex list c cs).1) :
    (v.chainStep ex list c cs).2.size ≤ cs.length + argsSize v.rest := by
  obtain ⟨rest, chain, e, o⟩ := v
  have hchain := chainCall ex list c cs rest chain e o
  generalize View.chainStep ex list c cs ⟨rest, chain, e, o⟩ = call at hchain hgoes
  cases hchain with
  | flag _ _ => exact le_refl _
  | arg _ _ hlast hrest =>
    subst hlast hrest
    simp [View.size, argsSize_cons]
  | fails hret => exact absurd hgoes hret.not_goesOn.1

theorem itemStep_size {a : List UInt8} {rest : List (List UInt8)} (hchain : v.chain = [])
    (hgoes : GoesOn (itemStep ex list a rest v).1) :
    (itemStep ex list a rest v).2.size < argsSize (a :: rest) := by
  rw [argsSize_cons]
  rw [itemStep] at hgoes ⊢
  split_ifs at hgoes ⊢ with hdash
  · have hoption := optionCall ex list hdash.2 rest v
    generalize v.optionStep ex list a rest = call at hoption hgoes
    cases hoption with
    | cluster ha hfinds hshort hne =>
      have hsize := chainStep_size hgoes
      subst ha
      simp only [cluster, List.length_cons]
      dsimp only at hsize
      omega
    | flag _ _ _ =>
      simp only [View.size, hchain, List.length_nil]
      omega
    | arg _ hrest _ =>
      subst hrest
      simp only [View.size, hchain, List.length_nil, argsSize_cons]
      omega
    | fails hret => exact absurd hgoes hret.not_goesOn.1
  · simp only [View.size, hchain, List.length_nil]
    omega

/-- **A call uses something up.** -/
theorem View.size_lt (hgoes : GoesOn (v.next ex list).1) :
    (v.next ex list).2.size < v.size := by
  obtain ⟨rest, chain, e, o⟩ := v
  cases chain with
  | cons c cs =>
    have hbound : (View.next ex list ⟨rest, c :: cs, e, o⟩).2.size ≤ cs.length + argsSize rest :=
      chainStep_size hgoes
    have hsize : View.size ⟨rest, c :: cs, e, o⟩ = cs.length + 1 + argsSize rest := rfl
    omega
  | nil =>
    have hsize : View.size ⟨rest, [], e, o⟩ = argsSize rest := Nat.zero_add _
    rw [View.next, argvStep_eq] at hgoes ⊢
    have hbehind := argsSize_behind rest
    dsimp only at hgoes ⊢
    generalize behind rest = args at hgoes hbehind ⊢
    cases args with
    | nil => exact hgoes.elim
    | cons a args => exact (itemStep_size rfl hgoes).trans_le (hbehind.trans_eq hsize.symm)

/-! ### The outputs -/

section Outputs

variable (ex list)

/-- The results of the calls before the end, and then `AGO_EOF`. -/
def ReadsAs (argv : List (List UInt8)) (st : AgoState) (rs : List Result) : Prop :=
  Reads (call ex list argv) (fun r => GoesOn r.1) (fun r => r.1 = .eof) st rs

theorem parses_iff_reads :
    Parses ex list v rs ↔
      Reads (View.call ex list) (fun r => GoesOn r.1) (fun r => r.1 = .eof) v rs := by
  induction rs generalizing v with
  | nil =>
    rw [parses_iff, reads_nil]
    refine ⟨fun h => ?_, fun heof => Or.inl ⟨heof, rfl⟩⟩
    rcases h with ⟨heof, -⟩ | ⟨-, rs', hrs, -⟩
    · exact heof
    · exact absurd hrs (by simp)
  | cons r rs ih =>
    rw [parses_iff, reads_cons, ← ih]
    constructor
    · rintro (⟨-, hrs⟩ | ⟨hgoes, rs', hrs, hparses⟩)
      · exact absurd hrs (List.cons_ne_nil r rs)
      · obtain ⟨rfl, rfl⟩ := List.cons.inj hrs
        exact ⟨rfl, hgoes, hparses⟩
    · rintro ⟨rfl, hgoes, hparses⟩
      exact Or.inr ⟨hgoes, rs, rfl, hparses⟩

/-- **The calls read exactly the command lines**, with their meanings, and they end. -/
theorem antigetopt_reads_iff (argv : List (List UInt8)) (st : AgoState) :
    (∀ rs, ReadsAs ex list argv (resetState ex list st) rs ↔
      Line ex list false st.agoOptarg argv.tail rs) ∧
    ∃ n ≤ argsSize argv.tail,
      ¬GoesOn (output (call ex list argv) (resetState ex list st) n).1 := by
  have hview : (resetState ex list st).view argv = ⟨argv.tail, [], false, st.agoOptarg⟩ := rfl
  have houtput (n : ℕ) : output (call ex list argv) (resetState ex list st) n =
      output (View.call ex list) ⟨argv.tail, [], false, st.agoOptarg⟩ n := by
    rw [← hview]
    exact (output_view (call_view argv) _ n).2
  constructor
  · intro rs
    rw [← parses_of_chain, parses_iff_reads, ReadsAs]
    exact reads_congr houtput
  · obtain ⟨n, hn, hends⟩ := @exists_not_goes _ _ (View.call ex list)
      (fun r => GoesOn r.1) View.size (fun v hgoes => View.size_lt hgoes)
      ⟨argv.tail, [], false, st.agoOptarg⟩
    refine ⟨n, ?_, (houtput n).symm ▸ hends⟩
    rwa [View.size, List.length_nil, Nat.zero_add] at hn

end Outputs

end StyxWire.Ago
