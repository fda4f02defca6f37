import StyxWire.Ago.Lookup
import StyxWire.Lib.Outputs

/-!
# The option parser

`antigetopt` is called until it returns `AGO_EOF`. Between the calls it keeps where it is in the
arguments, what is left of a cluster of short options, and if `--` was seen; each call may set
`ago_optarg`.

What decides the calls is less than the state of the program (`StyxWire.Ago.View`): the variables
with the name of the last option do not matter, and a cluster that is used up is no cluster. The
function is translated first, and shown to be a step of the views
(`StyxWire.Ago.antigetopt_view`); all that is said of its calls is said of them.
-/

namespace StyxWire.Ago

open Text

/-! ### The function -/

/-- What `antigetopt` returns: the identifier of an option, or a special code, none of which an
option has for its identifier; or it does not return, if `ago_lookup` exits with a message. -/
inductive AgoRet
  | id (n : ℤ)
  | eof
  | alone
  | unknown
  | reqarg
  | reset
  | ambig
  | exit (msg : List UInt8)
  deriving DecidableEq, Repr

/-- The static variables, and the global ones. -/
structure AgoState where
  /-- The arguments from there on; `none` is the null pointer. -/
  saveArgv : Option (List (List UInt8))
  chain : Option (List UInt8)
  endoptions : Bool
  agoOptarg : Option (List UInt8)
  agoOptname : Option (List UInt8)
  agoOptchar : UInt8

variable (ex : AgoExceptions) (list : List AgoOptlist)

/-- `ago_lookup`, and the variables that it sets. -/
def AgoState.lookup (st : AgoState) (arg : List UInt8) : AgoLookup × AgoState :=
  let r := agoLookup ex list arg st.agoOptname st.agoOptchar
  (r, { st with agoOptname := r.agoOptname, agoOptchar := r.agoOptchar })

/-- From `chain_start` on, where `chain` points to `c` and what follows it. -/
def agoChain (c : UInt8) (cs : List UInt8) (argv : List (List UInt8)) (st : AgoState) :
    AgoRet × AgoState :=
  let st := { st with saveArgv := some argv, chain := some (c :: cs) }
  let (r, st) := st.lookup ex list (c :: cs)
  match r.exits, r.opt with
  | some msg, _ => (.exit msg, st)
  | none, none => (.unknown, st)
  | none, some opt =>
    if !opt.has agoNoarg then
      match cs, argv with
      | [], arg :: argv =>
        (.id opt.aoId, { st with saveArgv := some argv, chain := some cs, agoOptarg := some arg })
      | cs, _ =>
        if opt.has agoNeedarg then (.reqarg, st)
        else (.id opt.aoId, { st with chain := some cs })
    else (.id opt.aoId, { st with chain := some cs })

/-- An argument that is an option, and those behind it. -/
def agoOption (a : List UInt8) (argv : List (List UInt8)) (st : AgoState) : AgoRet × AgoState :=
  let (r, st) := st.lookup ex list a
  match r.exits, r.opt with
  | some msg, _ => (.exit msg, st)
  | none, none => (if r.amb then .ambig else .unknown, st)
  | none, some opt =>
    if !r.islong && a.drop 2 ≠ [] then
      match a.tail with
      | c :: cs => agoChain ex list c cs argv st
      | [] => (.unknown, st)
    else
      let st := { st with agoOptarg := none }
      if opt.has agoNeedarg then
        match argv with
        | [] => (.reqarg, st)
        | arg :: argv => (.id opt.aoId, { st with saveArgv := some argv, agoOptarg := some arg })
      else if opt.has agoOptarg then
        match argv with
        | arg :: argv' =>
          if arg.head? ≠ some (ch '-') then
            (.id opt.aoId, { st with saveArgv := some argv', agoOptarg := some arg })
          else (.id opt.aoId, { st with saveArgv := some argv })
        | [] => (.id opt.aoId, { st with saveArgv := some argv })
      else (.id opt.aoId, { st with saveArgv := some argv })

/-- The arguments, when there is no cluster. The loop of the source never goes round. -/
def agoArgv (argv : List (List UInt8)) (st : AgoState) : AgoRet × AgoState :=
  let dashes := argv.head? = some (lit "--")
  let argv := if dashes then argv.tail else argv
  let st := { st with
    saveArgv := some argv, chain := none, endoptions := st.endoptions || dashes }
  match argv with
  | [] => (.eof, st)
  | a :: argv =>
    if !st.endoptions && a.head? = some (ch '-') && a.tail ≠ [] then agoOption ex list a argv st
    else (.alone,
      { st with
        saveArgv := some argv, agoOptarg := some a, agoOptchar := 0, agoOptname := none })

/-- `antigetopt`. The arguments are those with `argv[0]`, and `none` for the null pointer. -/
def antigetopt (argv : Option (List (List UInt8))) (st : AgoState) : AgoRet × AgoState :=
  match argv with
  | none => (.reset, { st with saveArgv := none, chain := none, endoptions := false })
  | some argv =>
    let rest := st.saveArgv.getD argv.tail
    match st.chain with
    | some (c :: cs) => agoChain ex list c cs rest st
    | _ => agoArgv ex list rest st

/-! ### What decides the calls -/

/-- The arguments that are left, the cluster, the flag and `ago_optarg`. -/
structure View where
  rest : List (List UInt8)
  chain : List UInt8
  endoptions : Bool
  optarg : Option (List UInt8)

/-- What a state of the program is, to the calls with these arguments. -/
def AgoState.view (argv : List (List UInt8)) (st : AgoState) : View :=
  ⟨st.saveArgv.getD argv.tail, st.chain.getD [], st.endoptions, st.agoOptarg⟩

/-- What is looked up does not depend on the names before. -/
def look (arg : List UInt8) : AgoLookup := agoLookup ex list arg none 0

theorem agoLookup_look (arg : List UInt8) (optname : Option (List UInt8)) (optchar : UInt8) :
    (agoLookup ex list arg optname optchar).opt = (look ex list arg).opt ∧
      (agoLookup ex list arg optname optchar).exits = (look ex list arg).exits ∧
      (agoLookup ex list arg optname optchar).islong = (look ex list arg).islong ∧
      (agoLookup ex list arg optname optchar).amb = (look ex list arg).amb := by
  rw [look, agoLookup, agoLookup]
  generalize (if arg.head? = some (ch '-') then arg.tail else arg) = s
  cases s with
  | nil => exact ⟨rfl, rfl, rfl, rfl⟩
  | cons c rest =>
    by_cases hc : c = ch '-'
    · simp only [if_pos hc]
      cases list with
      | nil => exact ⟨rfl, rfl, rfl, rfl⟩
      | cons o list =>
        have hsame : lookupLong rest (o :: list) none optname =
            lookupLong rest (o :: list) none none := by rw [lookupLong_cons, lookupLong_cons]
        simp only [hsame, List.cons_ne_nil, if_false]
        exact ⟨trivial, trivial, trivial, trivial⟩
    · simp only [if_neg hc]
      exact ⟨trivial, trivial, trivial, trivial⟩

/-- A cluster, as a step of the views. -/
def View.chainStep (c : UInt8) (cs : List UInt8) (v : View) : AgoRet × View :=
  match (look ex list (c :: cs)).exits, (look ex list (c :: cs)).opt with
  | some msg, _ => (.exit msg, { v with chain := c :: cs })
  | none, none => (.unknown, { v with chain := c :: cs })
  | none, some opt =>
    if !opt.has agoNoarg then
      match cs, v.rest with
      | [], arg :: rest =>
        (.id opt.aoId, { v with rest := rest, chain := cs, optarg := some arg })
      | cs, _ =>
        if opt.has agoNeedarg then (.reqarg, { v with chain := c :: cs })
        else (.id opt.aoId, { v with chain := cs })
    else (.id opt.aoId, { v with chain := cs })

/-- An option, as a step of the views. -/
def View.optionStep (a : List UInt8) (rest : List (List UInt8)) (v : View) : AgoRet × View :=
  let r := look ex list a
  match r.exits, r.opt with
  | some msg, _ => (.exit msg, v)
  | none, none => (if r.amb then .ambig else .unknown, v)
  | none, some opt =>
    if !r.islong && a.drop 2 ≠ [] then
      match a.tail with
      | c :: cs => { v with rest := rest }.chainStep ex list c cs
      | [] => (.unknown, v)
    else
      let v := { v with optarg := none }
      if opt.has agoNeedarg then
        match rest with
        | [] => (.reqarg, v)
        | arg :: rest => (.id opt.aoId, { v with rest := rest, optarg := some arg })
      else if opt.has agoOptarg then
        match rest with
        | arg :: rest' =>
          if arg.head? ≠ some (ch '-') then
            (.id opt.aoId, { v with rest := rest', optarg := some arg })
          else (.id opt.aoId, { v with rest := rest })
        | [] => (.id opt.aoId, { v with rest := rest })
      else (.id opt.aoId, { v with rest := rest })

/-- The arguments, as a step of the views. -/
def View.argvStep (v : View) : AgoRet × View :=
  let dashes := v.rest.head? = some (lit "--")
  let rest := if dashes then v.rest.tail else v.rest
  let v := { v with rest := rest, chain := [], endoptions := v.endoptions || dashes }
  match rest with
  | [] => (.eof, v)
  | a :: rest =>
    if !v.endoptions && a.head? = some (ch '-') && a.tail ≠ [] then v.optionStep ex list a rest
    else (.alone, { v with rest := rest, optarg := some a })

/-- A call, as a step of the views. -/
def View.next (v : View) : AgoRet × View :=
  match v.chain with
  | c :: cs => v.chainStep ex list c cs
  | [] => v.argvStep ex list

theorem agoChain_view (c : UInt8) (cs : List UInt8) (rest argv : List (List UInt8)) (st : AgoState) :
    (agoChain ex list c cs rest st).1 =
        (({ st.view argv with rest := rest } : View).chainStep ex list c cs).1 ∧
      (agoChain ex list c cs rest st).2.view argv =
        (({ st.view argv with rest := rest } : View).chainStep ex list c cs).2 := by
  obtain ⟨hopt, hexits, -, -⟩ :=
    agoLookup_look ex list (c :: cs) st.agoOptname st.agoOptchar
  simp only [agoChain, AgoState.lookup, hopt, hexits, View.chainStep]
  cases (look ex list (c :: cs)).exits with
  | some msg => exact ⟨rfl, rfl⟩
  | none =>
    cases (look ex list (c :: cs)).opt with
    | none => exact ⟨rfl, rfl⟩
    | some opt =>
      dsimp only
      cases opt.has agoNoarg <;> cases opt.has agoNeedarg <;> cases cs <;> cases rest <;>
        exact ⟨rfl, rfl⟩

theorem agoOption_view (a : List UInt8) (rest argv : List (List UInt8)) (st : AgoState) :
    (agoOption ex list a rest st).1 = ((st.view argv).optionStep ex list a rest).1 ∧
      (agoOption ex list a rest st).2.view argv =
        ((st.view argv).optionStep ex list a rest).2 := by
  obtain ⟨hopt, hexits, hislong, hamb⟩ :=
    agoLookup_look ex list a st.agoOptname st.agoOptchar
  simp only [agoOption, AgoState.lookup, hopt, hexits, hislong, hamb, View.optionStep]
  cases (look ex list a).exits with
  | some msg => exact ⟨rfl, rfl⟩
  | none =>
    cases (look ex list a).opt with
    | none => exact ⟨rfl, rfl⟩
    | some opt =>
      dsimp only
      split_ifs
      · cases a.tail with
        | nil => exact ⟨rfl, rfl⟩
        | cons c cs => exact agoChain_view ex list c cs rest argv _
      · cases rest with
        | nil => exact ⟨rfl, rfl⟩
        | cons arg rest => exact ⟨rfl, rfl⟩
      · cases rest with
        | nil => exact ⟨rfl, rfl⟩
        | cons arg rest => dsimp only; split_ifs <;> exact ⟨rfl, rfl⟩
      · exact ⟨rfl, rfl⟩

theorem agoArgv_view (rest argv : List (List UInt8)) (st : AgoState) :
    (agoArgv ex list rest st).1 =
        (({ st.view argv with rest := rest } : View).argvStep ex list).1 ∧
      (agoArgv ex list rest st).2.view argv =
        (({ st.view argv with rest := rest } : View).argvStep ex list).2 := by
  simp only [agoArgv, View.argvStep, AgoState.view]
  generalize (if rest.head? = some (lit "--") then rest.tail else rest) = rest'
  cases rest' with
  | nil => exact ⟨rfl, rfl⟩
  | cons a rest' =>
    dsimp only
    split_ifs
    · exact agoOption_view ex list a rest' argv _
    · exact ⟨rfl, rfl⟩

/-- **A call is a step of the views.** -/
theorem antigetopt_view (argv : List (List UInt8)) (st : AgoState) :
    (antigetopt ex list (some argv) st).1 = ((st.view argv).next ex list).1 ∧
      (antigetopt ex list (some argv) st).2.view argv = ((st.view argv).next ex list).2 := by
  have hchain : (st.view argv).chain = st.chain.getD [] := rfl
  rw [antigetopt, View.next, hchain]
  match st.chain with
  | some (c :: cs) => exact agoChain_view ex list c cs (st.saveArgv.getD argv.tail) argv st
  | some [] => exact agoArgv_view ex list (st.saveArgv.getD argv.tail) argv st
  | none => exact agoArgv_view ex list (st.saveArgv.getD argv.tail) argv st

end StyxWire.Ago
