import StyxWire.Ago.Clusters

/-!
# Collapsed options

The runs over two lists of arguments that differ in one cluster go in step up to the cluster
(`StyxWire.Ago.before_cluster`): the relation says that what is left is the same but for the last
arguments, and it holds until these are reached, or taken as the argument of an option. From there
on it is the cluster that decides. Behind a `--`, a second one is skipped again, unless it is next
to the first (`StyxWire.Ago.dashes_alone_iff`).
-/

namespace StyxWire.Ago

open Text Outputs

variable {ex : AgoExceptions} {list : List AgoOptlist} {c : UInt8} {cs : List UInt8}
  {post : List (List UInt8)} {o : Option (List UInt8)} {opt : UInt8 → AgoOptlist}

/-! ### Up to the cluster -/

/-- The last arguments are reached, or there are no options any more. -/
def Past (post : List (List UInt8)) (s : View) : Prop :=
  s.rest.length ≤ post.length ∨ s.endoptions = true

theorem chainStep_later (ex : AgoExceptions) (list : List AgoOptlist) (c : UInt8)
    (cs : List UInt8) (s : View) :
    (s.chainStep ex list c cs).2.rest.length ≤ s.rest.length ∧
      (s.chainStep ex list c cs).2.endoptions = s.endoptions := by
  rw [View.chainStep]
  cases (look ex list (c :: cs)).exits with
  | some msg => exact ⟨le_rfl, rfl⟩
  | none =>
    cases (look ex list (c :: cs)).opt with
    | none => exact ⟨le_rfl, rfl⟩
    | some opt =>
      dsimp only
      obtain ⟨rest, chain, endoptions, optarg⟩ := s
      cases opt.has agoNoarg <;> cases opt.has agoNeedarg <;> cases cs <;> cases rest <;>
        exact ⟨by simp, rfl⟩

theorem optionStep_later (ex : AgoExceptions) (list : List AgoOptlist) (a : List UInt8)
    (rest : List (List UInt8)) (s : View) (hs : s.rest = a :: rest) :
    (s.optionStep ex list a rest).2.rest.length ≤ s.rest.length ∧
      (s.optionStep ex list a rest).2.endoptions = s.endoptions := by
  have hle : rest.length ≤ s.rest.length := by simp [hs]
  rw [View.optionStep]
  cases (look ex list a).exits with
  | some msg => exact ⟨le_rfl, rfl⟩
  | none =>
    cases (look ex list a).opt with
    | none => exact ⟨le_rfl, rfl⟩
    | some opt =>
      dsimp only
      split_ifs
      · cases a.tail with
        | nil => exact ⟨le_rfl, rfl⟩
        | cons c cs =>
          obtain ⟨hlater, hend⟩ :=
            chainStep_later ex list c cs { s with rest := rest }
          exact ⟨hlater.trans hle, hend⟩
      · cases rest with
        | nil => exact ⟨le_rfl, rfl⟩
        | cons arg rest => exact ⟨(Nat.le_succ _).trans hle, rfl⟩
      · cases rest with
        | nil => exact ⟨hle, rfl⟩
        | cons arg rest =>
          dsimp only
          split_ifs
          · exact ⟨(Nat.le_succ _).trans hle, rfl⟩
          · exact ⟨hle, rfl⟩
      · exact ⟨hle, rfl⟩

theorem argvStep_later (ex : AgoExceptions) (list : List AgoOptlist) (s : View) :
    (s.argvStep ex list).2.rest.length ≤ s.rest.length ∧
      (s.argvStep ex list).2.endoptions =
        (s.endoptions || s.rest.head? = some (lit "--")) := by
  have hle : (if s.rest.head? = some (lit "--") then s.rest.tail else s.rest).length ≤
      s.rest.length := by
    split_ifs
    · simp
    · exact le_rfl
  rw [View.argvStep]
  revert hle
  dsimp only
  generalize (if s.rest.head? = some (lit "--") then s.rest.tail else s.rest) = rest
  intro hle
  cases rest with
  | nil => exact ⟨hle, rfl⟩
  | cons a rest =>
    dsimp only
    split_ifs
    · obtain ⟨hlater, hend⟩ := optionStep_later ex list a rest
        { s with
          rest := a :: rest, chain := [],
          endoptions := s.endoptions || s.rest.head? = some (lit "--") } rfl
      exact ⟨hlater.trans hle, hend⟩
    · exact ⟨(Nat.le_succ _).trans hle, rfl⟩

/-- The calls go on. -/
theorem Past.next {s : View} (h : Past post s) : Past post (s.next ex list).2 := by
  have hlater : (s.next ex list).2.rest.length ≤ s.rest.length ∧
      (s.endoptions = true → (s.next ex list).2.endoptions = true) := by
    rw [View.next]
    cases s.chain with
    | nil =>
      obtain ⟨hle, hend⟩ := argvStep_later ex list s
      exact ⟨hle, fun htrue => by rw [hend, htrue, Bool.true_or]⟩
    | cons c cs =>
      obtain ⟨hle, hend⟩ := chainStep_later ex list c cs s
      exact ⟨hle, fun htrue => hend.trans htrue⟩
  exact h.imp hlater.1.trans hlater.2

/-- The same, but for the last arguments. -/
def Ahead (a b : List (List UInt8)) (s t : View) : Prop :=
  ∃ w, s.rest = w ++ a ∧ t = { s with rest := w ++ b }

theorem Ahead.optarg {a b : List (List UInt8)} {s t : View} (h : Ahead a b s t) :
    s.optarg = t.optarg := by
  obtain ⟨w, -, rfl⟩ := h
  rfl

variable {x y : List UInt8} {w b : List (List UInt8)}

theorem chainStep_ahead (c : UInt8) (cs : List UInt8) (s : View) (hs : s.rest = w ++ x :: post) :
    Past post (s.chainStep ex list c cs).2 ∨
      (s.chainStep ex list c cs).1 =
          (({ s with rest := w ++ y :: b } : View).chainStep ex list c cs).1 ∧
        Ahead (x :: post) (y :: b) (s.chainStep ex list c cs).2
          (({ s with rest := w ++ y :: b } : View).chainStep ex list c cs).2 := by
  obtain ⟨rest, chain, endoptions, optarg⟩ := s
  obtain rfl : rest = w ++ x :: post := hs
  rw [View.chainStep, View.chainStep]
  cases (look ex list (c :: cs)).exits with
  | some msg => exact Or.inr ⟨rfl, w, rfl, rfl⟩
  | none =>
    cases (look ex list (c :: cs)).opt with
    | none => exact Or.inr ⟨rfl, w, rfl, rfl⟩
    | some opt =>
      dsimp only
      cases opt.has agoNoarg with
      | true => exact Or.inr ⟨rfl, w, rfl, rfl⟩
      | false =>
        cases cs with
        | cons c' cs => cases opt.has agoNeedarg <;> exact Or.inr ⟨rfl, w, rfl, rfl⟩
        | nil =>
          cases w with
          | nil => exact Or.inl (Or.inl le_rfl)
          | cons arg w => exact Or.inr ⟨rfl, w, rfl, rfl⟩

theorem optionStep_ahead (a : List UInt8) (s : View) (hs : s.rest = a :: (w ++ x :: post))
    (hx : x.head? = some (ch '-')) (hy : y.head? = some (ch '-')) :
    Past post (s.optionStep ex list a (w ++ x :: post)).2 ∨
      (s.optionStep ex list a (w ++ x :: post)).1 =
          (({ s with rest := a :: (w ++ y :: b) } : View).optionStep ex list a (w ++ y :: b)).1 ∧
        Ahead (x :: post) (y :: b) (s.optionStep ex list a (w ++ x :: post)).2
          (({ s with rest := a :: (w ++ y :: b) } : View).optionStep ex list a (w ++ y :: b)).2 := by
  obtain ⟨rest, chain, endoptions, optarg⟩ := s
  obtain rfl : rest = a :: (w ++ x :: post) := hs
  rw [View.optionStep, View.optionStep]
  dsimp only
  cases (look ex list a).exits with
  | some msg => exact Or.inr ⟨rfl, a :: w, rfl, rfl⟩
  | none =>
    cases (look ex list a).opt with
    | none => exact Or.inr ⟨rfl, a :: w, rfl, rfl⟩
    | some opt =>
      dsimp only
      split_ifs
      · cases a.tail with
        | nil => exact Or.inr ⟨rfl, a :: w, rfl, rfl⟩
        | cons c cs =>
          exact chainStep_ahead c cs ⟨w ++ x :: post, chain, endoptions, optarg⟩ rfl
      · cases w with
        | nil => exact Or.inl (Or.inl le_rfl)
        | cons arg w => exact Or.inr ⟨rfl, w, rfl, rfl⟩
      · cases w with
        | nil =>
          simp only [List.nil_append, hx, hy, ne_eq, not_true, if_false]
          exact Or.inr ⟨trivial, [], rfl, rfl⟩
        | cons arg w =>
          dsimp only [List.cons_append]
          split_ifs
          · exact Or.inr ⟨rfl, w, rfl, rfl⟩
          · exact Or.inr ⟨rfl, arg :: w, rfl, rfl⟩
      · exact Or.inr ⟨rfl, w, rfl, rfl⟩

/-- The calls go in step until the last arguments are reached. -/
theorem next_ahead (hx : x.head? = some (ch '-')) (hy : y.head? = some (ch '-'))
    (hpast : ∀ o, Past post (View.next ex list ⟨x :: post, [], false, o⟩).2) {s t : View}
    (h : Ahead (x :: post) (y :: b) s t) :
    Past post (s.next ex list).2 ∨ (s.next ex list).1 = (t.next ex list).1 ∧
      Ahead (x :: post) (y :: b) (s.next ex list).2 (t.next ex list).2 := by
  obtain ⟨w, hs, rfl⟩ := h
  obtain ⟨rest, chain, endoptions, optarg⟩ := s
  obtain rfl : rest = w ++ x :: post := hs
  cases chain with
  | cons c cs => exact chainStep_ahead c cs ⟨w ++ x :: post, c :: cs, endoptions, optarg⟩ rfl
  | nil =>
    cases hend : endoptions with
    | true => exact Or.inl (Past.next (Or.inr rfl))
    | false =>
      cases w with
      | nil => exact Or.inl (hpast optarg)
      | cons a w =>
        by_cases hdashes : a = lit "--"
        · refine Or.inl (Or.inr ?_)
          have hlater := (argvStep_later ex list
            ⟨a :: (w ++ x :: post), [], false, optarg⟩).2
          exact hlater.trans (by simp [hdashes])
        · rw [List.cons_append, List.cons_append, next_argument hdashes, next_argument hdashes]
          split_ifs
          · exact optionStep_ahead a ⟨a :: (w ++ x :: post), [], false, optarg⟩ rfl hx hy
          · exact Or.inr ⟨rfl, w, rfl, rfl⟩

/-! ### Behind `--` -/

/-- A call behind `--`. -/
theorem next_end {rest : List (List UInt8)} :
    View.next ex list ⟨rest, [], true, o⟩ =
      match (if rest.head? = some (lit "--") then rest.tail else rest) with
      | [] => (.eof, ⟨[], [], true, o⟩)
      | a :: rest => (.alone, ⟨rest, [], true, some a⟩) := by
  rw [View.next, View.argvStep]
  dsimp only
  generalize (if rest.head? = some (lit "--") then rest.tail else rest) = rest'
  cases rest' <;> rfl

/-- The call at `--`. -/
theorem next_dashes {args : List (List UInt8)} :
    View.next ex list ⟨lit "--" :: args, [], false, o⟩ =
      match args with
      | [] => (.eof, ⟨[], [], true, o⟩)
      | a :: rest => (.alone, ⟨rest, [], true, some a⟩) := by
  have hdashes : (lit "--" :: args).head? = some (lit "--") := rfl
  rw [View.next, View.argvStep]
  simp only [if_pos hdashes, decide_eq_true hdashes]
  cases args <;> rfl

/-- Behind `--`, each call takes an argument, up to the last. -/
theorem output_end_eof {rest : List (List UInt8)} {n : ℕ} (hn : rest.length ≤ n) :
    (output (View.call ex list) ⟨rest, [], true, o⟩ n).1 = .eof := by
  induction n generalizing rest o with
  | zero =>
    obtain rfl := List.length_eq_zero_iff.mp (Nat.le_zero.mp hn)
    rfl
  | succ n ih =>
    have hle : (if rest.head? = some (lit "--") then rest.tail else rest).length ≤ n + 1 := by
      split_ifs
      · rw [List.length_tail]
        omega
      · exact hn
    rw [output_succ, View.call, next_end]
    revert hle
    generalize (if rest.head? = some (lit "--") then rest.tail else rest) = rest'
    intro hle
    cases rest' with
    | nil => exact ih (Nat.zero_le n)
    | cons a rest' => exact ih (Nat.le_of_succ_le_succ hle)

/-- All arguments are returned. -/
theorem end_alone_iff (ex : AgoExceptions) (list : List AgoOptlist) (rest : List (List UInt8))
    (o : Option (List UInt8)) :
    (∀ n a, rest[n]? = some a →
        output (View.call ex list) ⟨rest, [], true, o⟩ n = (.alone, some a)) ↔
      ∀ a ∈ rest, a ≠ lit "--" := by
  induction rest generalizing o with
  | nil => exact iff_of_true (fun n a h => by simp at h) fun a h => absurd h List.not_mem_nil
  | cons a rest ih =>
    by_cases ha : a = lit "--"
    · -- two arguments are gone at once, so that the last call gets none
      subst ha
      refine iff_of_false (fun hout => ?_) fun h => h _ List.mem_cons_self rfl
      have heof : (output (View.call ex list) ⟨lit "--" :: rest, [], true, o⟩ rest.length).1 =
          .eof := by
        cases rest with
        | nil => rfl
        | cons b rest =>
          rw [List.length_cons, output_succ]
          exact output_end_eof le_rfl
      obtain ⟨b, hb⟩ : ∃ b, (lit "--" :: rest)[rest.length]? = some b :=
        ⟨_, List.getElem?_eq_getElem (Nat.lt_succ_self _)⟩
      rw [hout _ b hb] at heof
      cases heof
    · have hhead : ¬(a :: rest).head? = some (lit "--") := fun h => ha (Option.some.inj h)
      have hnext : View.next ex list ⟨a :: rest, [], true, o⟩ =
          (.alone, ⟨rest, [], true, some a⟩) := by
        rw [next_end, if_neg hhead]
      rw [List.forall_mem_cons, ← ih (o := some a), forall_output_iff
        (P := fun n (r : AgoRet × Option (List UInt8)) =>
        ∀ b, (a :: rest)[n]? = some b → r = (.alone, some b)), View.call, hnext]
      refine and_congr (iff_of_true ?_ ha) Iff.rfl
      rintro b ⟨⟩
      rfl

/-- **The arguments behind `--` are all returned in these cases and no others**, when it is
reached. -/
theorem dashes_alone_iff {args : List (List UInt8)} :
    (∀ n a, args[n]? = some a →
        output (View.call ex list) ⟨lit "--" :: args, [], false, o⟩ n = (.alone, some a)) ↔
      ∀ a ∈ args.tail, a ≠ lit "--" := by
  cases args with
  | nil => exact iff_of_true (fun n a h => by simp at h) fun a h => absurd h List.not_mem_nil
  | cons a rest =>
    rw [List.tail_cons, ← end_alone_iff ex list rest (some a), forall_output_iff
      (P := fun n (r : AgoRet × Option (List UInt8)) =>
        ∀ b, (a :: rest)[n]? = some b → r = (.alone, some b)), View.call,
      next_dashes]
    refine and_iff_right ?_
    rintro b ⟨⟩
    rfl

/-! ### The runs -/

section

variable (ex list) (argv : List (List UInt8)) (st : AgoState)

/-- What the calls after a reset return, and `ago_optarg`. -/
def outputs (n : ℕ) : AgoRet × Option (List UInt8) :=
  output (call ex list argv) (resetState ex list st) n

/-- What is reached after some calls. -/
def reached (n : ℕ) : View := (after (call ex list argv) (resetState ex list st) n).view argv

variable {ex list argv st}

/-- The run, as one of the views. -/
theorem run_view (n : ℕ) :
    reached ex list argv st n =
        after (View.call ex list) ⟨argv.tail, [], false, st.agoOptarg⟩ n ∧
      outputs ex list argv st n =
        output (View.call ex list) ⟨argv.tail, [], false, st.agoOptarg⟩ n :=
  output_view (call_view argv) (resetState ex list st) n

/-- What is said of the outputs from there on. -/
theorem outputs_add (k n : ℕ) :
    outputs ex list argv st (k + n) =
      output (View.call ex list) (reached ex list argv st k) n := by
  rw [(run_view (k + n)).2, (run_view k).1, output_add]

/-- **Up to the cluster** the runs go in step, so that what comes from there on decides. -/
theorem before_cluster {arg0 : List UInt8} {pre : List (List UInt8)} {k : ℕ}
    (hcs : PlainAs ex list opt cs) (hne : cs ≠ [])
    (hreached : reached ex list (arg0 :: (pre ++ cluster (cs ++ [c]) :: post)) st k =
      ⟨cluster (cs ++ [c]) :: post, [], false, o⟩) :
    (∀ n, outputs ex list (arg0 :: (pre ++ cluster (cs ++ [c]) :: post)) st n =
        outputs ex list (arg0 :: (pre ++ (separate (cs ++ [c]) ++ post))) st n) ↔
      Same (View.call ex list) ⟨cluster (cs ++ [c]) :: post, [], false, o⟩
        ⟨separate (cs ++ [c]) ++ post, [], false, o⟩ := by
  obtain ⟨c', cs, rfl⟩ := List.exists_cons_of_ne_nil hne
  obtain ⟨h, hplain, -⟩ := hcs.of_cons
  have hpast : ∀ o, Past post
      (View.next ex list ⟨cluster (c' :: cs ++ [c]) :: post, [], false, o⟩).2 := by
    intro o
    refine Or.inl (le_of_eq (congrArg List.length (next_cluster_rest h hplain ?_)))
    exact List.append_ne_nil_of_right_ne_nil cs (List.cons_ne_nil c [])
  have hnot : ¬Past post ⟨cluster (c' :: cs ++ [c]) :: post, [], false, o⟩ := by
    rintro (hle | hend)
    · exact absurd hle (by simp)
    · cases hend
  rw [(run_view k).1, List.tail_cons] at hreached
  have hstep : ∀ s t, Ahead (cluster (c' :: cs ++ [c]) :: post)
      (separate (c' :: cs ++ [c]) ++ post) s t → Past post (View.call ex list s).2 ∨
        (View.call ex list s).1 = (View.call ex list t).1 ∧
          Ahead (cluster (c' :: cs ++ [c]) :: post) (separate (c' :: cs ++ [c]) ++ post)
            (View.call ex list s).2 (View.call ex list t).2 := by
    intro s t hst
    exact (next_ahead rfl rfl hpast hst).imp_right fun hnext =>
      ⟨Prod.ext hnext.1 hnext.2.optarg, hnext.2⟩
  have hgone : ∀ s, Past post s → Past post (View.call ex list s).2 := fun s hs => hs.next
  have hahead : Ahead (cluster (c' :: cs ++ [c]) :: post) (separate (c' :: cs ++ [c]) ++ post)
      ⟨pre ++ cluster (c' :: cs ++ [c]) :: post, [], false, st.agoOptarg⟩
      ⟨pre ++ (separate (c' :: cs ++ [c]) ++ post), [], false, st.agoOptarg⟩ := ⟨pre, rfl, rfl⟩
  obtain ⟨⟨w, hw, hafter⟩, hiff⟩ := same_iff_after hgone hstep (hreached ▸ hnot) hahead
  rw [hreached] at hw hafter hiff
  obtain rfl : w = [] := List.append_left_eq_self.mp hw.symm
  rw [hafter] at hiff
  refine Iff.trans ?_ hiff
  exact forall_congr' fun n => by rw [(run_view n).2, (run_view n).2]; rfl

end

/-- **Collapsed options mean the same in these cases and no others.** -/
theorem collapsed_exact_iff (ex : AgoExceptions) (list : List AgoOptlist)
    (opt : UInt8 → AgoOptlist) (st : AgoState) (k : ℕ) :
    (∀ arg0 pre post cs c o, PlainAs ex list opt cs → cs ≠ [] → Known ex list c (opt c) →
      reached ex list (arg0 :: (pre ++ cluster (cs ++ [c]) :: post)) st k =
        ⟨cluster (cs ++ [c]) :: post, [], false, o⟩ →
      ((∀ n, outputs ex list (arg0 :: (pre ++ cluster (cs ++ [c]) :: post)) st n =
          outputs ex list (arg0 :: (pre ++ (separate (cs ++ [c]) ++ post))) st n) ↔
        o = none ∧ LastAgrees (opt c) post)) ∧
    (∀ argv post cs x tail o, PlainAs ex list opt cs → Stray list x → (cs = [] → x ≠ ch '-') →
      reached ex list argv st k = ⟨cluster (cs ++ x :: tail) :: post, [], false, o⟩ →
      ((∀ n, (outputs ex list argv st (k + n)).1 = inTurn opt cs n) ↔
        (x = ch '-' → NoOption list tail))) ∧
    ∀ argv args o, reached ex list argv st k = ⟨lit "--" :: args, [], false, o⟩ →
      ((∀ n a, args[n]? = some a → outputs ex list argv st (k + n) = (.alone, some a)) ↔
        ∀ a ∈ args.tail, a ≠ lit "--") := by
  refine ⟨?_, ?_, ?_⟩
  · intro arg0 pre post cs c o hcs hne h hreached
    exact (before_cluster hcs hne hreached).trans (cluster_same_iff hcs hne h)
  · intro argv post cs x tail o hcs hx hne hreached
    simp only [outputs_add, hreached]
    exact cluster_stray_iff hcs hx hne
  · intro argv args o hreached
    simp only [outputs_add, hreached]
    exact dashes_alone_iff

/-- An option without a long name. -/
def short (c : Char) (flags : ℕ) : AgoOptlist := ⟨ch c, none, (ch c).toNat, flags⟩

/-- Two options without an argument, and one with. -/
def shorts : List AgoOptlist := [short 'v' agoNoarg, short 'q' agoNoarg, short 'p' agoNeedarg]

/-- The variables at the start. -/
def init : AgoState := ⟨none, none, false, none, none, 0⟩

/-- Behind an option with its argument, a cluster does not clear `ago_optarg`; an option behind a
`-` is returned twice; and a second `--` is not returned. -/
theorem collapsed_inexact :
    outputs (fun _ => none) shorts [lit "hping", lit "-p", lit "80", lit "-vq"] init 1 ≠
        outputs (fun _ => none) shorts [lit "hping", lit "-p", lit "80", lit "-v", lit "-q"] init 1 ∧
      (outputs (fun _ => none) shorts [lit "hping", lit "-v-q"] init 1).1 ≠ .unknown ∧
      (outputs (fun _ => none) shorts [lit "hping", lit "-v-q"] init 1).1 =
        (outputs (fun _ => none) shorts [lit "hping", lit "-v-q"] init 2).1 ∧
      outputs (fun _ => none) shorts [lit "hping", lit "--", lit "x", lit "--"] init 1 =
        (.eof, some (lit "x")) := by
  decide

/-- Two options without an argument are the same in a cluster; a `-` at its end is no option; and
the arguments behind `--` are returned. -/
theorem collapsed_exact_three :
    (∀ n, outputs (fun _ => none) shorts [lit "hping", lit "-vq"] init n =
        outputs (fun _ => none) shorts [lit "hping", lit "-v", lit "-q"] init n) ∧
      (∀ n, (outputs (fun _ => none) shorts [lit "hping", lit "-v-"] init n).1 =
        inTurn (fun c => ⟨c, none, c.toNat, agoNoarg⟩) [ch 'v'] n) ∧
      outputs (fun _ => none) shorts [lit "hping", lit "--", lit "x", lit "-v"] init 1 =
        (.alone, some (lit "-v")) := by
  obtain ⟨hsame, hstray, halone⟩ := collapsed_exact_iff (fun _ => none) shorts
    (fun c => ⟨c, none, c.toNat, agoNoarg⟩) init 0
  have hplain : PlainAs (fun _ => none) shorts (fun c => ⟨c, none, c.toNat, agoNoarg⟩) [ch 'v'] :=
    ⟨by simp only [List.forall_mem_singleton]; exact ⟨by decide, by decide, by decide⟩,
      by simp only [List.forall_mem_singleton]; exact ⟨by decide, by decide⟩⟩
  refine ⟨?_, fun n => ?_, ?_⟩
  · exact (hsame (lit "hping") [] [] [ch 'v'] (ch 'q') none hplain (by decide)
      ⟨by decide, by decide, by decide⟩ rfl).mpr ⟨rfl, by simp [LastAgrees]; decide⟩
  · have hout := (hstray [lit "hping", lit "-v-"] [] [ch 'v'] (ch '-') [] none hplain (Or.inl rfl)
      (by decide) rfl).mpr (fun _ => trivial) n
    rwa [Nat.zero_add] at hout
  · exact (halone [lit "hping", lit "--", lit "x", lit "-v"] [lit "x", lit "-v"] none rfl).mpr
      (by decide) 1 (lit "-v") rfl

end StyxWire.Ago
