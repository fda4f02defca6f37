import StyxWire.Ago.Antigetopt

/-!
# Clusters of short options

A cluster `-abc`, when the parser reaches it, gives the same calls as `-a -b -c` under two
conditions, which are exact (`StyxWire.Ago.cluster_same_iff`): `ago_optarg` is null, since only
separate options clear it; and the flags of the last option and the argument behind it are such
that the two places in the source that look for an argument agree.

A character that is no option ends the options, but for a `-`, which `ago_lookup` skips, so that
what is behind it counts twice (`StyxWire.Ago.cluster_stray_iff`).
-/

namespace StyxWire.Ago

open Text Outputs

variable (ex : AgoExceptions) (list : List AgoOptlist)

/-! ### The calls -/

/-- A call: what it returns, `ago_optarg`, and the state. -/
def call (argv : List (List UInt8)) (st : AgoState) :
    (AgoRet × Option (List UInt8)) × AgoState :=
  let r := antigetopt ex list (some argv) st
  ((r.1, r.2.agoOptarg), r.2)

/-- A call, as a step of the views. -/
def View.call (v : View) : (AgoRet × Option (List UInt8)) × View :=
  let r := v.next ex list
  ((r.1, r.2.optarg), r.2)

/-- The state after `antigetopt(0, NULL, NULL)`. -/
def resetState (st : AgoState) : AgoState := (antigetopt ex list none st).2

variable {ex list}

theorem call_view (argv : List (List UInt8)) (st : AgoState) :
    (call ex list argv st).1 = ((st.view argv).call ex list).1 ∧
      (call ex list argv st).2.view argv = ((st.view argv).call ex list).2 := by
  obtain ⟨hret, hview⟩ := antigetopt_view ex list argv st
  refine ⟨?_, hview⟩
  rw [call, View.call, hret, ← hview]
  rfl

/-! ### Characters that are options -/

variable (ex list)

/-- A character that is an option, which no exception applies to. -/
structure Known (c : UInt8) (opt : AgoOptlist) : Prop where
  ne : c ≠ ch '-'
  find : list.find? (·.aoShort = c) = some opt
  exits : (look ex list [ch '-', c]).exits = none

variable {ex list}

/-- An option that takes no argument. -/
structure Plain (opt : AgoOptlist) : Prop where
  needarg : opt.has agoNeedarg = false
  optarg : opt.has agoOptarg = false

variable {c : UInt8} {opt : AgoOptlist} {cs : List UInt8} {post : List (List UInt8)}
  {o : Option (List UInt8)}

/-- Behind the first character, nothing is looked at. -/
theorem look_short (hc : c ≠ ch '-') (cs : List UInt8) :
    look ex list (c :: cs) = look ex list [ch '-', c] ∧
      look ex list (ch '-' :: c :: cs) = look ex list [ch '-', c] := by
  have hhead : ¬(c :: cs).head? = some (ch '-') := fun h => hc (Option.some.inj h)
  have hskip : (ch '-' :: c :: cs).head? = some (ch '-') := rfl
  have hone : [ch '-', c].head? = some (ch '-') := rfl
  rw [look, look, look, agoLookup, agoLookup, agoLookup, if_neg hhead, if_pos hskip, if_pos hone]
  simp only [List.tail_cons, if_neg hc]
  exact ⟨trivial, trivial⟩

theorem look_find (hc : c ≠ ch '-') :
    (look ex list [ch '-', c]).opt = list.find? (·.aoShort = c) := by
  have hone : [ch '-', c].head? = some (ch '-') := rfl
  rw [look, agoLookup, if_pos hone]
  simp only [List.tail_cons, if_neg hc]
  rfl

theorem Known.look_opt (h : Known ex list c opt) : (look ex list [ch '-', c]).opt = some opt :=
  (look_find h.ne).trans h.find

theorem look_islong (hc : c ≠ ch '-') (cs : List UInt8) :
    (look ex list (ch '-' :: c :: cs)).islong = false ∧
      (look ex list (ch '-' :: c :: cs)).amb = false := by
  simp only [look, agoLookup, List.head?_cons, if_true, List.tail_cons, if_neg hc]
  exact ⟨rfl, rfl⟩

theorem look_exits (arg : List UInt8) (h : (look ex list arg).opt = none) :
    (look ex list arg).exits = none := by
  rw [look, agoLookup] at h ⊢
  split at h
  · rfl
  · split_ifs at h ⊢ <;> exact congrArg (Option.bind · _) h

/-- An option of a cluster that takes no argument. -/
theorem chainStep_plain (h : Known ex list c opt) (hplain : Plain opt) (hne : cs ≠ [])
    (v : View) : v.chainStep ex list c cs = (.id opt.aoId, { v with chain := cs }) := by
  obtain ⟨c', cs, rfl⟩ := List.exists_cons_of_ne_nil hne
  rw [View.chainStep, (look_short h.ne _).1, h.look_opt, h.exits]
  simp only [hplain.needarg, Bool.false_eq_true, if_false, ite_self]

/-! ### The last option -/

/-- A cluster of these characters. -/
def cluster (cs : List UInt8) : List UInt8 := ch '-' :: cs

/-- An argument for each character. -/
def separate (cs : List UInt8) : List (List UInt8) := cs.map fun c => cluster [c]

/-- The next argument. -/
theorem next_argument {a : List UInt8} (ha : a ≠ lit "--") :
    View.next ex list ⟨a :: post, [], false, o⟩ =
      if a.head? = some (ch '-') ∧ a.tail ≠ [] then
        View.optionStep ex list a post ⟨a :: post, [], false, o⟩
      else (.alone, ⟨post, [], false, some a⟩) := by
  have hdashes : ¬(a :: post).head? = some (lit "--") := fun h => ha (Option.some.inj h)
  rw [View.next, View.argvStep]
  simp only [decide_eq_false hdashes, if_neg hdashes, Bool.or_false, Bool.not_false, Bool.true_and,
    Bool.and_eq_true, decide_eq_true_eq]

/-- An argument that is an option. -/
theorem next_option (hc : c ≠ ch '-') :
    View.next ex list ⟨cluster (c :: cs) :: post, [], false, o⟩ =
      View.optionStep ex list (cluster (c :: cs)) post
        ⟨cluster (c :: cs) :: post, [], false, o⟩ := by
  have hdashes : cluster (c :: cs) ≠ lit "--" := fun h =>
    hc (List.cons.inj (List.cons.inj h).2).1
  rw [next_argument hdashes, if_pos ⟨rfl, List.cons_ne_nil c cs⟩]

/-- The first character of a cluster is taken as the others are. -/
theorem next_cluster (h : Known ex list c opt) (hne : cs ≠ []) :
    View.next ex list ⟨cluster (c :: cs) :: post, [], false, o⟩ =
      View.next ex list ⟨post, c :: cs, false, o⟩ := by
  obtain ⟨c', cs, rfl⟩ := List.exists_cons_of_ne_nil hne
  rw [next_option h.ne, View.optionStep]
  simp only [cluster, (look_short h.ne _).2, h.exits, h.look_opt, (look_islong h.ne []).1]
  rfl

/-- A separate option. -/
theorem next_separate (h : Known ex list c opt) (post : List (List UInt8))
    (o : Option (List UInt8)) :
    View.next ex list ⟨cluster [c] :: post, [], false, o⟩ =
      if opt.has agoNeedarg then
        match post with
        | [] => (.reqarg, ⟨[cluster [c]], [], false, none⟩)
        | arg :: rest => (.id opt.aoId, ⟨rest, [], false, some arg⟩)
      else if opt.has agoOptarg then
        match post with
        | arg :: rest =>
          if arg.head? ≠ some (ch '-') then (.id opt.aoId, ⟨rest, [], false, some arg⟩)
          else (.id opt.aoId, ⟨post, [], false, none⟩)
        | [] => (.id opt.aoId, ⟨post, [], false, none⟩)
      else (.id opt.aoId, ⟨post, [], false, none⟩) := by
  rw [next_option h.ne, View.optionStep]
  simp only [cluster, h.exits, h.look_opt, List.drop_succ_cons, List.drop_zero, ne_eq,
    not_true, decide_false, Bool.and_false, Bool.false_eq_true, if_false]
  cases post <;> rfl

/-- The last option of a cluster. -/
theorem next_last (h : Known ex list c opt) (post : List (List UInt8))
    (o : Option (List UInt8)) :
    View.next ex list ⟨post, [c], false, o⟩ =
      if opt.has agoNoarg then (.id opt.aoId, ⟨post, [], false, o⟩)
      else
        match post with
        | arg :: rest => (.id opt.aoId, ⟨rest, [], false, some arg⟩)
        | [] =>
          if opt.has agoNeedarg then (.reqarg, ⟨[], [c], false, o⟩)
          else (.id opt.aoId, ⟨[], [], false, o⟩) := by
  have hnext : View.next ex list ⟨post, [c], false, o⟩ =
      View.chainStep ex list c [] ⟨post, [c], false, o⟩ := rfl
  rw [hnext, View.chainStep]
  simp only [(look_short h.ne _).1, h.exits, h.look_opt]
  cases opt.has agoNoarg <;> cases post <;> rfl

/-- The next argument does not look like an option. -/
def takes : List (List UInt8) → Bool
  | arg :: _ => arg.head? ≠ some (ch '-')
  | [] => false

/-- The two places in the source that look for an argument agree. -/
def LastAgrees (opt : AgoOptlist) (post : List (List UInt8)) : Prop :=
  if opt.has agoNoarg then
    ¬opt.has agoNeedarg ∧ ¬(opt.has agoOptarg ∧ takes post)
  else opt.has agoNeedarg ∨ post = [] ∨ opt.has agoOptarg ∧ takes post

/-- An argument is needed, and there is none: this is said forever. -/
theorem reqarg_same (h : Known ex list c opt) (hnoarg : opt.has agoNoarg = false)
    (hneedarg : opt.has agoNeedarg = true) :
    Same (View.call ex list) ⟨[], [c], false, none⟩ ⟨[cluster [c]], [], false, o⟩ := by
  refine same_of_simulates (R := fun s t =>
    s = ⟨[], [c], false, none⟩ ∧ ∃ o, t = ⟨[cluster [c]], [], false, o⟩) ?_ ⟨rfl, o, rfl⟩
  rintro _ _ ⟨rfl, o, rfl⟩
  rw [View.call, View.call, next_last h, next_separate h]
  simp only [hnoarg, hneedarg, if_true, Bool.false_eq_true, if_false]
  exact ⟨trivial, trivial, none, rfl⟩

/-- The last option of a cluster, and the separate one. -/
theorem last_same_iff (h : Known ex list c opt) :
    Same (View.call ex list) ⟨post, [c], false, none⟩ ⟨cluster [c] :: post, [], false, o⟩ ↔
      LastAgrees opt post := by
  have hlast := next_last h post none
  have hsep := next_separate h post o
  by_cases hreqarg : opt.has agoNoarg = false ∧ opt.has agoNeedarg = true ∧ post = []
  · obtain ⟨hnoarg, hneedarg, rfl⟩ := hreqarg
    exact iff_of_true (reqarg_same h hnoarg hneedarg) (by simp [LastAgrees, hnoarg])
  -- the outputs of the first calls, for all flags and both kinds of arguments
  have hcall : ((View.call ex list ⟨post, [c], false, none⟩).1 =
      (View.call ex list ⟨cluster [c] :: post, [], false, o⟩).1 → LastAgrees opt post) ∧
      (LastAgrees opt post → View.call ex list ⟨post, [c], false, none⟩ =
        View.call ex list ⟨cluster [c] :: post, [], false, o⟩) := by
    rw [View.call, View.call, hlast, hsep, LastAgrees]
    clear h hlast hsep
    cases post with
    | nil =>
      revert hreqarg
      cases opt.has agoNoarg <;> cases opt.has agoNeedarg <;> cases opt.has agoOptarg <;>
        simp [takes]
    | cons arg rest =>
      by_cases hdash : arg.head? = some (ch '-') <;> cases opt.has agoNoarg <;>
        cases opt.has agoNeedarg <;> cases opt.has agoOptarg <;> simp [takes, hdash]
  exact ⟨fun hsame => hcall.1 (same_iff.mp hsame).1,
    fun hagrees => same_of_step_eq (hcall.2 hagrees)⟩

/-! ### The whole cluster -/

/-- The characters are options that take no argument. -/
structure PlainAs (ex : AgoExceptions) (list : List AgoOptlist) (opt : UInt8 → AgoOptlist)
    (cs : List UInt8) : Prop where
  known : ∀ c ∈ cs, Known ex list c (opt c)
  plain : ∀ c ∈ cs, Plain (opt c)

theorem PlainAs.of_cons {opt : UInt8 → AgoOptlist} (h : PlainAs ex list opt (c :: cs)) :
    Known ex list c (opt c) ∧ Plain (opt c) ∧ PlainAs ex list opt cs :=
  ⟨h.known c List.mem_cons_self, h.plain c List.mem_cons_self,
    fun c hc => h.known c (List.mem_cons_of_mem _ hc),
    fun c hc => h.plain c (List.mem_cons_of_mem _ hc)⟩

/-- A call at a separate option that takes no argument. -/
theorem next_separate_plain (h : Known ex list c opt) (hplain : Plain opt)
    (post : List (List UInt8)) (o : Option (List UInt8)) :
    View.next ex list ⟨cluster [c] :: post, [], false, o⟩ =
      (.id opt.aoId, ⟨post, [], false, none⟩) := by
  rw [next_separate h, hplain.needarg, hplain.optarg]
  rfl

/-- A call at an option of a cluster that takes no argument. -/
theorem next_chain_plain (h : Known ex list c opt) (hplain : Plain opt) (hne : cs ≠ [])
    (post : List (List UInt8)) (o : Option (List UInt8)) :
    View.next ex list ⟨post, c :: cs, false, o⟩ = (.id opt.aoId, ⟨post, cs, false, o⟩) :=
  chainStep_plain h hplain hne ⟨post, c :: cs, false, o⟩

variable {opt : UInt8 → AgoOptlist} {opt' : AgoOptlist}

/-- What is left of a cluster, where `ago_optarg` is null. -/
theorem chain_same_iff (hcs : PlainAs ex list opt cs) (h : Known ex list c (opt c)) :
    Same (View.call ex list) ⟨post, cs ++ [c], false, none⟩
        ⟨separate (cs ++ [c]) ++ post, [], false, o⟩ ↔ LastAgrees (opt c) post := by
  induction cs generalizing o with
  | nil => exact last_same_iff h
  | cons c' cs ih =>
    obtain ⟨h', hplain, hcs⟩ := hcs.of_cons
    have hchain := next_chain_plain h' hplain
      (List.append_ne_nil_of_right_ne_nil cs (List.cons_ne_nil c [])) post none
    have hsep := next_separate_plain h' hplain (separate (cs ++ [c]) ++ post) o
    rw [same_iff, View.call, View.call, List.cons_append, separate, List.map_cons,
      List.cons_append, hchain, ← separate, hsep]
    exact (and_iff_right rfl).trans (ih hcs)

/-- **A cluster is the same as separate options in these cases and no others**, when it is
reached. -/
theorem cluster_same_iff (hcs : PlainAs ex list opt cs) (hne : cs ≠ [])
    (h : Known ex list c (opt c)) :
    Same (View.call ex list) ⟨cluster (cs ++ [c]) :: post, [], false, o⟩
        ⟨separate (cs ++ [c]) ++ post, [], false, o⟩ ↔ o = none ∧ LastAgrees (opt c) post := by
  obtain ⟨c', cs, rfl⟩ := List.exists_cons_of_ne_nil hne
  obtain ⟨h', hplain, hcs⟩ := hcs.of_cons
  have hne' : cs ++ [c] ≠ [] := List.append_ne_nil_of_right_ne_nil cs (List.cons_ne_nil c [])
  have hchain := (next_cluster h' hne').trans (next_chain_plain h' hplain hne' post o)
  have hsep := next_separate_plain h' hplain (separate (cs ++ [c]) ++ post) o
  rw [same_iff, View.call, View.call, List.cons_append, separate, List.map_cons, List.cons_append,
    hchain, ← separate, hsep]
  constructor
  · rintro ⟨hout, hsame⟩
    obtain rfl : o = none := (Prod.mk.inj hout).2
    exact ⟨rfl, (chain_same_iff hcs h).mp hsame⟩
  · rintro ⟨rfl, hagrees⟩
    exact ⟨rfl, (chain_same_iff hcs h).mpr hagrees⟩

/-- A cluster is done with when its first option is taken. -/
theorem next_cluster_rest (h : Known ex list c opt') (hplain : Plain opt') (hne : cs ≠ []) :
    (View.next ex list ⟨cluster (c :: cs) :: post, [], false, o⟩).2.rest = post := by
  rw [next_cluster h hne, next_chain_plain h hplain hne]

/-! ### Other characters -/

/-- The character is no option of a cluster. -/
def Stray (list : List AgoOptlist) (x : UInt8) : Prop :=
  x = ch '-' ∨ ∀ opt ∈ list, opt.aoShort ≠ x

/-- What is behind a `-` is no option: neither a character nor, behind another `-`, a name. -/
def NoOption (list : List AgoOptlist) : List UInt8 → Prop
  | [] => True
  | c :: cs =>
    if c = ch '-' then (lookupLong cs list none none).1 = none
    else ∀ opt ∈ list, opt.aoShort ≠ c

theorem find_eq_none : list.find? (·.aoShort = c) = none ↔ ∀ opt ∈ list, opt.aoShort ≠ c := by
  simp only [List.find?_eq_none, decide_eq_true_eq, ne_eq]

theorem look_dash (tail : List UInt8) :
    (look ex list (ch '-' :: tail)).opt = none ↔ NoOption list tail := by
  have hhead : (ch '-' :: tail).head? = some (ch '-') := rfl
  rw [look, agoLookup, if_pos hhead, List.tail_cons]
  cases tail with
  | nil => exact iff_of_true rfl trivial
  | cons c cs =>
    rw [NoOption, ← find_eq_none]
    dsimp only
    split_ifs <;> exact Iff.rfl

theorem look_stray (ex : AgoExceptions) {x : UInt8} (hx : Stray list x) (tail : List UInt8) :
    (look ex list (x :: tail)).opt = none ↔ (x = ch '-' → NoOption list tail) := by
  by_cases hdash : x = ch '-'
  · rw [hdash, look_dash]
    exact ⟨fun h _ => h, fun h => h rfl⟩
  · rw [(look_short hdash tail).1, look_find hdash, find_eq_none]
    exact iff_of_true (hx.resolve_left hdash) fun h => absurd h hdash

/-- No option is found: this is said forever. -/
theorem unknown_chain {x : UInt8} {tail : List UInt8}
    (h : (look ex list (x :: tail)).opt = none) :
    View.next ex list ⟨post, x :: tail, false, o⟩ = (.unknown, ⟨post, x :: tail, false, o⟩) := by
  have hnext : View.next ex list ⟨post, x :: tail, false, o⟩ =
      View.chainStep ex list x tail ⟨post, x :: tail, false, o⟩ := rfl
  rw [hnext, View.chainStep, look_exits _ h, h]

/-- An option is found. -/
theorem chainStep_ne_unknown (h : (look ex list (c :: cs)).opt ≠ none) (v : View) :
    (v.chainStep ex list c cs).1 ≠ .unknown := by
  obtain ⟨opt, hopt⟩ := Option.ne_none_iff_exists'.mp h
  rw [View.chainStep, hopt]
  obtain ⟨rest, chain, endoptions, optarg⟩ := v
  cases (look ex list (c :: cs)).exits with
  | some msg => simp
  | none =>
    dsimp only
    cases opt.has agoNoarg <;> cases opt.has agoNeedarg <;> cases cs <;> cases rest <;> simp

/-- A state in which the calls say `AGO_UNKNOWN` stays. -/
theorem output_of_unknown {s : View} (h : View.next ex list s = (.unknown, s)) (n : ℕ) :
    (output (View.call ex list) s n).1 = .unknown := by
  induction n with
  | zero => rw [output, after, Function.iterate_zero_apply, View.call, h]
  | succ n ih =>
    rw [output_succ, View.call, h]
    exact ih

/-- Each option once, and then `AGO_UNKNOWN`, forever. -/
def inTurn (opt : UInt8 → AgoOptlist) (cs : List UInt8) (n : ℕ) : AgoRet :=
  (cs[n]?).elim .unknown fun c => .id (opt c).aoId

/-- What is left of a cluster. -/
theorem chain_stray_iff {x : UInt8} {tail : List UInt8} (hcs : PlainAs ex list opt cs)
    (hx : Stray list x) (post : List (List UInt8)) (o : Option (List UInt8)) :
    (∀ n, (output (View.call ex list) ⟨post, cs ++ x :: tail, false, o⟩ n).1 = inTurn opt cs n) ↔
      (x = ch '-' → NoOption list tail) := by
  induction cs with
  | nil =>
    rw [← look_stray ex hx tail]
    constructor
    · intro hout
      have hfirst : (View.next ex list ⟨post, x :: tail, false, o⟩).1 = .unknown := hout 0
      have hnext : View.next ex list ⟨post, x :: tail, false, o⟩ =
          View.chainStep ex list x tail ⟨post, x :: tail, false, o⟩ := rfl
      exact not_not.mp fun hsome => chainStep_ne_unknown hsome _ (hnext ▸ hfirst)
    · exact fun hnone => output_of_unknown (unknown_chain hnone)
  | cons c cs ih =>
    obtain ⟨h, hplain, hcs⟩ := hcs.of_cons
    have hnext := next_chain_plain h hplain
      (List.append_ne_nil_of_right_ne_nil cs (List.cons_ne_nil x tail)) post o
    rw [← ih hcs, forall_output_iff
      (P := fun n (r : AgoRet × Option (List UInt8)) => r.1 = inTurn opt (c :: cs) n), View.call,
      List.cons_append, hnext]
    exact and_iff_right rfl

/-- The first character of a cluster is no option. -/
theorem unknown_cluster {x : UInt8} {tail : List UInt8} (hx : Stray list x) (hne : x ≠ ch '-') :
    View.next ex list ⟨cluster (x :: tail) :: post, [], false, o⟩ =
      (.unknown, ⟨cluster (x :: tail) :: post, [], false, o⟩) := by
  have hlook : (look ex list (cluster (x :: tail))).opt = none := by
    rw [cluster, (look_short hne tail).2, look_find hne, find_eq_none]
    exact hx.resolve_left hne
  rw [next_option hne, View.optionStep]
  simp only [look_exits _ hlook, hlook]
  rw [cluster, (look_islong hne tail).2]
  rfl

/-- **A character that is no option is one to the calls in these cases and no others**, when its
cluster is reached. -/
theorem cluster_stray_iff {x : UInt8} {tail : List UInt8}
    (hcs : PlainAs ex list opt cs) (hx : Stray list x) (hne : cs = [] → x ≠ ch '-') :
    (∀ n, (output (View.call ex list) ⟨cluster (cs ++ x :: tail) :: post, [], false, o⟩ n).1 =
        inTurn opt cs n) ↔ (x = ch '-' → NoOption list tail) := by
  cases cs with
  | nil =>
    have hx' := hne rfl
    exact iff_of_true (output_of_unknown (unknown_cluster hx hx')) fun h => absurd h hx'
  | cons c cs =>
    have hsame : Same (View.call ex list) ⟨cluster (c :: cs ++ x :: tail) :: post, [], false, o⟩
        ⟨post, c :: cs ++ x :: tail, false, o⟩ :=
      same_of_step_eq (by
        rw [View.call, View.call, List.cons_append, next_cluster (hcs.known c List.mem_cons_self)
          (List.append_ne_nil_of_right_ne_nil cs (List.cons_ne_nil x tail))])
    rw [← chain_stray_iff hcs hx post o]
    exact forall_congr' fun n => by rw [hsame n]

end StyxWire.Ago
