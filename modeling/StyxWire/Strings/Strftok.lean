import StyxWire.Ars.Setters
import StyxWire.Lib.CString
import StyxWire.Lib.Runs
import StyxWire.Strings.Hex

/-!
# The tokenizer

`strftok` goes along a string once. A pointer is written where a token begins, and a NUL where it
ends, and only there the number of the pointers is compared with what there is room for: it is the
flag that keeps a token from beginning when all the pointers are taken, for the call returns as soon
as the last token has ended.

What is left of a call (`StyxWire.Strings.Tokenized`) is stated from outside a token, and proved by
induction on what is left of the string (`StyxWire.Strings.strftokLoop_outside`); a token is read as
a whole (`StyxWire.Strings.strftokLoop_token`). The tokens are the maximal runs of characters that
do not separate. The other modules take the strings at the pointers for the value of a call, which
is what they are (`StyxWire.Strings.strftok_values`).
-/

namespace StyxWire.Strings

open Runs Mem Text

/-! ### The function -/

/-- The loop of `strftok`, which returns the number of the tokens, the memory and `tptrs`. The first
number counts the bytes from `str` on to the end of the memory. -/
def strftokLoop (sep : List UInt8) (nptrs : ℕ) : ℕ → List UInt8 → ℕ → List ℕ × ℕ → Bool →
    Except Outside (ℕ × List UInt8 × List ℕ)
  | 0, _, _, _, _ => .error .outside
  | n + 1, mem, str, out, inside =>
    match mem[str]? with
    | none => .error .outside
    | some c =>
      if c = 0 then .ok (out.2, mem, out.1)
      else if sep.findIdx (· = c) = sep.length then
        if inside then strftokLoop sep nptrs n mem (str + 1) out true
        else
          match Mem.put .outside out str with
          | .ok out => strftokLoop sep nptrs n mem (str + 1) out true
          | .error e => .error e
      else if inside then
        let mem := mem.set str 0
        if out.2 = nptrs then .ok (out.2, mem, out.1)
        else strftokLoop sep nptrs n mem (str + 1) out false
      else strftokLoop sep nptrs n mem (str + 1) out false

/-- `strftok`, where `str` is a place in the memory. -/
def strftok (sep mem : List UInt8) (str : ℕ) (tptrs : List ℕ) (nptrs : ℕ) :
    Except Outside (ℕ × List UInt8 × List ℕ) :=
  match Mem.strlen .outside sep with
  | .ok seplen => strftokLoop (sep.take seplen) nptrs (mem.length - str) mem str (tptrs, 0) false
  | .error e => .error e

/-! ### One step -/

/-- A character of a token. -/
def ordinary (sep : List UInt8) (c : UInt8) : Bool := decide (c ∉ sep)

theorem findIdx_eq_length_iff {sep : List UInt8} {c : UInt8} :
    sep.findIdx (· = c) = sep.length ↔ ordinary sep c = true := by
  rw [List.findIdx_eq_length, ordinary, decide_eq_true_eq]
  constructor
  · intro h hmem
    have := h c hmem
    simp at this
  · intro h x hx
    simpa using fun heq : x = c => h (heq ▸ hx)

section Step

variable {sep : List UInt8} {nptrs n : ℕ} {done rest : List UInt8} {c : UInt8}

theorem getElem?_done (done rest : List UInt8) (c : UInt8) :
    (done ++ c :: rest)[done.length]? = some c := by
  rw [List.getElem?_append_right (Nat.le_refl _), Nat.sub_self, List.getElem?_cons_zero]

/-- The end of the string. -/
theorem strftokLoop_nul (out : List ℕ × ℕ) (inside : Bool) :
    strftokLoop sep nptrs (n + 1) (done ++ 0 :: rest) done.length out inside =
      .ok (out.2, done ++ 0 :: rest, out.1) := by
  rw [strftokLoop, getElem?_done]
  rfl

/-- A token goes on. -/
theorem strftokLoop_inside (hc : c ≠ 0) (hord : ordinary sep c = true) (out : List ℕ × ℕ) :
    strftokLoop sep nptrs (n + 1) (done ++ c :: rest) done.length out true =
      strftokLoop sep nptrs n (done ++ c :: rest) (done.length + 1) out true := by
  rw [strftokLoop, getElem?_done]
  dsimp only
  rw [if_neg hc, if_pos (findIdx_eq_length_iff.mpr hord), if_pos rfl]

/-- A token begins. -/
theorem strftokLoop_begin (hc : c ≠ 0) (hord : ordinary sep c = true) (tdone : List ℕ) (x : ℕ)
    (tfree : List ℕ) :
    strftokLoop sep nptrs (n + 1) (done ++ c :: rest) done.length
        (tdone ++ x :: tfree, tdone.length) false =
      strftokLoop sep nptrs n (done ++ c :: rest) (done.length + 1)
        ((tdone ++ [done.length]) ++ tfree, (tdone ++ [done.length]).length) true := by
  rw [strftokLoop, getElem?_done]
  dsimp only
  rw [if_neg hc, if_pos (findIdx_eq_length_iff.mpr hord), if_neg Bool.false_ne_true, put_append]

/-- A token ends. -/
theorem strftokLoop_end (hc : c ≠ 0) (hsep : ordinary sep c = false) (out : List ℕ × ℕ) :
    strftokLoop sep nptrs (n + 1) (done ++ c :: rest) done.length out true =
      if out.2 = nptrs then .ok (out.2, done ++ 0 :: rest, out.1)
      else strftokLoop sep nptrs n (done ++ 0 :: rest) (done.length + 1) out false := by
  rw [strftokLoop, getElem?_done]
  dsimp only
  rw [if_neg hc, if_neg fun h => by simp [findIdx_eq_length_iff.mp h] at hsep, if_pos rfl,
    List.set_append_right _ _ (Nat.le_refl _), Nat.sub_self, List.set_cons_zero]

/-- Between two tokens. -/
theorem strftokLoop_between (hc : c ≠ 0) (hsep : ordinary sep c = false) (out : List ℕ × ℕ) :
    strftokLoop sep nptrs (n + 1) (done ++ c :: rest) done.length out false =
      strftokLoop sep nptrs n (done ++ c :: rest) (done.length + 1) out false := by
  rw [strftokLoop, getElem?_done]
  dsimp only
  rw [if_neg hc, if_neg fun h => by simp [findIdx_eq_length_iff.mp h] at hsep,
    if_neg Bool.false_ne_true]

/-- A token is read to its end. -/
theorem strftokLoop_word {w : List UInt8} (hw : ∀ c ∈ w, c ≠ 0 ∧ ordinary sep c = true)
    (done rest : List UInt8) (out : List ℕ × ℕ) :
    strftokLoop sep nptrs (n + w.length) (done ++ (w ++ rest)) done.length out true =
      strftokLoop sep nptrs n (done ++ w ++ rest) (done ++ w).length out true := by
  induction w generalizing done with
  | nil => rw [List.append_nil, List.nil_append, List.length_nil, Nat.add_zero]
  | cons c w ih =>
    have hrest := ih (fun x hx => hw x (List.mem_cons_of_mem c hx)) (done ++ [c])
    have hmem : done ++ [c] ++ w = done ++ c :: w := by rw [List.append_assoc]; rfl
    rw [hmem, List.append_assoc done, List.length_append, List.length_singleton] at hrest
    obtain ⟨hc, hord⟩ := hw c List.mem_cons_self
    rw [List.length_cons, ← Nat.add_assoc, List.cons_append, strftokLoop_inside hc hord]
    exact hrest

/-- A token begins, and is read to its end. -/
theorem strftokLoop_token {w : List UInt8} (hw : ∀ c ∈ w, c ≠ 0 ∧ ordinary sep c = true)
    (hne : w ≠ []) (done rest : List UInt8) (tdone : List ℕ) (x : ℕ) (tfree : List ℕ) :
    strftokLoop sep nptrs (n + w.length) (done ++ (w ++ rest)) done.length
        (tdone ++ x :: tfree, tdone.length) false =
      strftokLoop sep nptrs n (done ++ w ++ rest) (done ++ w).length
        ((tdone ++ [done.length]) ++ tfree, (tdone ++ [done.length]).length) true := by
  rw [← strftokLoop_word hw]
  obtain ⟨c, w, rfl⟩ := List.exists_cons_of_ne_nil hne
  obtain ⟨hc, hord⟩ := hw c List.mem_cons_self
  rw [List.length_cons, ← Nat.add_assoc, List.cons_append, strftokLoop_begin hc hord,
    strftokLoop_inside hc hord]

end Step

/-! ### A whole call -/

/-- What a call leaves in the memory between `done` and `rest`, and in the pointers behind `tdone`.
-/
def Tokenized (done rest : List UInt8) (len : ℕ) (tdone tfree : List ℕ)
    (words : List (ℕ × List UInt8)) (r : Except Outside (ℕ × List UInt8 × List ℕ)) : Prop :=
  ∃ mid, mid.length = len ∧
    r = .ok (tdone.length + words.length, done ++ (mid ++ 0 :: rest),
      tdone ++ (words.map Prod.fst ++ tfree.drop words.length)) ∧
    ∀ word ∈ words, StringAt (done ++ (mid ++ 0 :: rest)) word.1 word.2

section Tokenized

variable {done rest : List UInt8} {len : ℕ} {tdone tfree : List ℕ} {words : List (ℕ × List UInt8)}
  {r : Except Outside (ℕ × List UInt8 × List ℕ)}

theorem Tokenized.skip {c : UInt8} (h : Tokenized (done ++ [c]) rest len tdone tfree words r) :
    Tokenized done rest (len + 1) tdone tfree words r := by
  obtain ⟨mid, hmid, hr, hwords⟩ := h
  refine ⟨c :: mid, by rw [List.length_cons, hmid], ?_, ?_⟩
  · rw [hr, List.append_assoc]
    rfl
  · rwa [List.append_assoc] at hwords

/-- One token, behind which there is nothing or no room for another one. -/
theorem Tokenized.single {w mid after : List UInt8} (hw : 0 ∉ w)
    (hmid : mid ++ 0 :: rest = w ++ 0 :: after) (x : ℕ) :
    Tokenized done rest mid.length tdone (x :: tfree) [(done.length, w)]
      (.ok ((tdone ++ [done.length]).length, done ++ w ++ 0 :: after,
        (tdone ++ [done.length]) ++ tfree)) := by
  refine ⟨mid, rfl, ?_, ?_⟩
  · rw [hmid, List.append_assoc, List.append_assoc, List.length_append]
    rfl
  · intro word hword
    rw [List.mem_singleton.mp hword, hmid]
    exact stringAt_append hw done after

/-- A token in front of the others. -/
theorem Tokenized.cons {w : List UInt8} (hw : 0 ∉ w) {x : ℕ}
    (h : Tokenized (done ++ w ++ [0]) rest len (tdone ++ [done.length]) tfree words r) :
    Tokenized done rest (w.length + 1 + len) tdone (x :: tfree) ((done.length, w) :: words) r := by
  obtain ⟨mid, hmid, hr, hwords⟩ := h
  have hmem : done ++ w ++ [0] ++ (mid ++ 0 :: rest) = done ++ ((w ++ 0 :: mid) ++ 0 :: rest) := by
    simp only [List.append_assoc, List.cons_append, List.nil_append]
  rw [hmem] at hr hwords
  refine ⟨w ++ 0 :: mid, ?_, ?_, ?_⟩
  · rw [List.length_append, List.length_cons, hmid]
    omega
  · rw [hr, List.length_append, List.length_singleton, List.append_assoc tdone, Nat.add_assoc,
      Nat.add_comm 1]
    rfl
  · rintro word hword
    rcases List.mem_cons.mp hword with rfl | hword
    · rw [List.append_assoc]
      exact stringAt_append hw done (mid ++ 0 :: rest)
    · exact hwords word hword

end Tokenized

/-- **Outside a token**, what is left of the string is tokenized. -/
theorem strftokLoop_outside {sep s : List UInt8} (hs : 0 ∉ s) {n : ℕ} (hn : s.length < n)
    (done rest : List UInt8) (tdone : List ℕ) {tfree : List ℕ} (hfree : tfree ≠ []) {nptrs : ℕ}
    (hptrs : tdone.length + tfree.length = nptrs) :
    Tokenized done rest s.length tdone tfree
      ((runs (ordinary sep) done.length s).take tfree.length)
      (strftokLoop sep nptrs n (done ++ (s ++ 0 :: rest)) done.length
        (tdone ++ tfree, tdone.length) false) := by
  induction n using Nat.strong_induction_on generalizing s done tdone tfree with
  | h n ih =>
    cases s with
    | nil =>
      obtain ⟨n, rfl⟩ := Nat.exists_eq_add_one.mpr hn
      refine ⟨[], rfl, ?_, ?_⟩
      · rw [List.nil_append, strftokLoop_nul, runs_nil, List.take_nil]
        rfl
      · rw [runs_nil, List.take_nil]
        exact fun word hword => absurd hword List.not_mem_nil
    | cons c s =>
      obtain ⟨n, rfl⟩ := Nat.exists_eq_add_one.mpr (Nat.zero_lt_of_lt hn)
      have hc : c ≠ 0 := fun hzero => hs (hzero ▸ List.mem_cons_self)
      have hs' : 0 ∉ s := fun hmem => hs (List.mem_cons_of_mem c hmem)
      have hn' : s.length < n := Nat.lt_of_succ_lt_succ hn
      cases hord : ordinary sep c with
      | false =>
        have hrest := ih n (Nat.lt_succ_self n) hs' hn' (done ++ [c]) tdone hfree hptrs
        rw [List.append_assoc, List.length_append, List.length_singleton] at hrest
        rw [runs_cons_of_neg hord, List.cons_append, strftokLoop_between hc hord]
        exact Tokenized.skip hrest
      | true =>
        obtain ⟨x, tfree, rfl⟩ := List.exists_cons_of_ne_nil hfree
        -- the token, and what is behind it
        obtain ⟨t, d, rfl, ht, hd, hruns⟩ := exists_runs_cons hord done.length s
        have hword : ∀ y ∈ c :: t, y ≠ 0 ∧ ordinary sep y = true := by
          rintro y hy
          rcases List.mem_cons.mp hy with rfl | hy
          · exact ⟨hc, hord⟩
          · exact ⟨fun hzero => hs' (hzero ▸ List.mem_append_left d hy), ht y hy⟩
        have hwzero : 0 ∉ c :: t := fun hmem => (hword 0 hmem).1 rfl
        obtain ⟨m, hm⟩ : ∃ m, n + 1 = m + 1 + (c :: t).length := by
          rw [List.length_append] at hn'
          refine ⟨n - 1 - t.length, ?_⟩
          rw [List.length_cons]
          omega
        have htake : ∀ later : List (ℕ × List UInt8),
            ((done.length, c :: t) :: later).take (x :: tfree).length =
              (done.length, c :: t) :: later.take tfree.length :=
          fun later => List.take_succ_cons
        rw [hruns, htake, hm, ← List.cons_append, List.append_assoc,
          strftokLoop_token hword (List.cons_ne_nil c t)]
        cases d with
        | nil =>
          rw [List.nil_append, strftokLoop_nul, List.append_nil, runs_nil, List.take_nil]
          exact Tokenized.single hwzero rfl x
        | cons y d =>
          have hy : y ≠ 0 := fun hzero => hs' (hzero ▸ List.mem_append_right t List.mem_cons_self)
          have hysep : ordinary sep y = false := hd y rfl
          have hnext : y :: d ++ 0 :: rest = y :: (d ++ 0 :: rest) := rfl
          rw [hnext, strftokLoop_end hy hysep]
          by_cases hfull : (tdone ++ [done.length]).length = nptrs
          · -- the last pointer is taken
            have hnone : tfree = [] := by
              rw [List.length_append, List.length_singleton] at hfull
              rw [List.length_cons] at hptrs
              exact List.length_eq_zero_iff.mp (by omega)
            have hlen : (c :: t ++ y :: d).length = (c :: t ++ 0 :: d).length := by
              rw [List.length_append, List.length_append]
              rfl
            have hmid : c :: t ++ 0 :: d ++ 0 :: rest = c :: t ++ 0 :: (d ++ 0 :: rest) := by
              rw [List.append_assoc]
              rfl
            rw [if_pos hfull, hnone, List.length_nil, List.take_zero, hlen]
            exact Tokenized.single hwzero hmid x
          · have hmore : tfree ≠ [] := by
              rintro rfl
              exact hfull (by rw [List.length_append]; exact hptrs)
            have hd' : 0 ∉ d := fun hmem =>
              hs' (List.mem_append_right t (List.mem_cons_of_mem y hmem))
            rw [List.length_append, List.length_cons] at hn'
            rw [List.length_cons] at hm hptrs
            have hrest := ih m (by omega) hd' (by omega) (done ++ (c :: t) ++ [0])
              (tdone ++ [done.length]) hmore
              (by rw [List.length_append, List.length_singleton]; omega)
            have hpos : (done ++ (c :: t) ++ [0]).length = (done ++ c :: t).length + 1 :=
              List.length_append
            have hmem : done ++ (c :: t) ++ [0] ++ (d ++ 0 :: rest) =
                done ++ c :: t ++ 0 :: (d ++ 0 :: rest) := List.append_assoc _ [0] _
            have htokens := hrest.cons hwzero (x := x)
            rw [hmem, hpos] at htokens
            have hlen : (c :: t ++ y :: d).length = (c :: t).length + 1 + d.length := by
              rw [List.length_append, List.length_cons (a := y), Nat.add_comm d.length,
                Nat.add_assoc]
            have hplace : (done ++ c :: t).length = done.length + (c :: t).length :=
              List.length_append
            rw [hplace] at htokens
            rw [if_neg hfull, runs_cons_of_neg hysep, hlen, hplace]
            exact htokens

/-- **What a call leaves.** -/
theorem strftok_call {sep s : List UInt8} (hsep : 0 ∉ sep) (hs : 0 ∉ s)
    (behind before after : List UInt8) {tptrs : List ℕ} {n : ℕ} (hn : 1 ≤ n)
    (hptrs : tptrs.length = n) :
    Tokenized before after s.length [] tptrs ((runs (ordinary sep) before.length s).take n)
      (strftok (sep ++ 0 :: behind) (before ++ (s ++ 0 :: after)) before.length tptrs n) := by
  have hfree : tptrs ≠ [] := List.ne_nil_of_length_pos (by omega)
  have hfuel : s.length < (before ++ (s ++ 0 :: after)).length - before.length := by
    rw [List.length_append, Nat.add_sub_cancel_left, List.length_append, List.length_cons]
    omega
  have hroom : ([] : List ℕ).length + tptrs.length = n := by
    rw [List.length_nil, Nat.zero_add, hptrs]
  have hcall := @strftokLoop_outside sep s hs _ hfuel before after [] _ hfree n hroom
  rw [hptrs] at hcall
  rw [strftok, strlen_append _ hsep]
  dsimp only
  rw [List.take_left]
  exact hcall

theorem getElem?_pointers {words : List (ℕ × List UInt8)} {i : ℕ} {word : ℕ × List UInt8}
    (h : words[i]? = some word) (free : List ℕ) :
    (words.map Prod.fst ++ free)[i]? = some word.1 := by
  have hi : i < (words.map Prod.fst).length := by
    rw [List.length_map]
    exact (List.getElem?_eq_some_iff.mp h).1
  rw [List.getElem?_append_left hi, List.getElem?_map, h]
  rfl

/-- **The tokens are the maximal runs of characters that do not separate**, from left to right, as
far as there is room for their pointers: each pointer leads to its run, which ends with a NUL, and
neither the memory outside of the string nor another pointer is written to. -/
theorem strftok_tokens {sep s : List UInt8} (hsep : 0 ∉ sep) (hs : 0 ∉ s)
    (behind before after : List UInt8) {tptrs : List ℕ} {n : ℕ} (hn : 1 ≤ n)
    (hptrs : tptrs.length = n) :
    ∃ words : List (ℕ × List UInt8),
      (∀ word, word ∈ words ↔ IsRun (fun c => decide (c ∉ sep)) before.length s word) ∧
      words.Pairwise (fun word word' => word.1 < word'.1) ∧
      ∃ mid tptrs', mid.length = s.length ∧ tptrs'.length = n ∧
        strftok (sep ++ 0 :: behind) (before ++ (s ++ 0 :: after)) before.length tptrs n =
          .ok (min n words.length, before ++ (mid ++ 0 :: after), tptrs') ∧
        (∀ i word, i < n → words[i]? = some word → tptrs'[i]? = some word.1 ∧
          StringAt (before ++ (mid ++ 0 :: after)) word.1 word.2) ∧
        ∀ i, words.length ≤ i → tptrs'[i]? = tptrs[i]? := by
  obtain ⟨mid, hmid, hr, hwords⟩ := strftok_call hsep hs behind before after hn hptrs
  set words := runs (ordinary sep) before.length s
  have hlen : (words.take n).length = min n words.length := List.length_take
  rw [List.length_nil, Nat.zero_add, List.nil_append, hlen] at hr
  refine ⟨words, fun word => mem_runs_iff, pairwise_runs _ _, mid, _, hmid, ?_, hr, ?_, ?_⟩
  · rw [List.length_append, List.length_map, hlen, List.length_drop, hptrs]
    omega
  · intro i word hi hword
    have htake : (words.take n)[i]? = some word := by rw [List.getElem?_take_of_lt hi, hword]
    exact ⟨getElem?_pointers htake _, hwords word (List.mem_of_getElem? htake)⟩
  · intro i hi
    rw [List.getElem?_append_right (by rw [List.length_map, hlen]; omega), List.length_map, hlen,
      List.getElem?_drop]
    congr 1
    omega

/-- Three tokens between separators, and room for two pointers. -/
theorem strftok_tokens_two :
    ∃ words : List (ℕ × List UInt8),
      (∀ word, word ∈ words ↔ IsRun (fun c => decide (c ∉ lit ", ")) 1 (lit ", 22,,80 x,") word) ∧
      words.Pairwise (fun word word' => word.1 < word'.1) ∧
      ∃ mid tptrs', mid.length = (lit ", 22,,80 x,").length ∧ tptrs'.length = 2 ∧
        strftok (lit ", " ++ [0]) ([7] ++ (lit ", 22,,80 x," ++ 0 :: [8])) 1 [5, 5] 2 =
          .ok (min 2 words.length, [7] ++ (mid ++ 0 :: [8]), tptrs') ∧
        (∀ i word, i < 2 → words[i]? = some word → tptrs'[i]? = some word.1 ∧
          StringAt ([7] ++ (mid ++ 0 :: [8])) word.1 word.2) ∧
        ∀ i, words.length ≤ i → tptrs'[i]? = [5, 5][i]? :=
  @strftok_tokens (lit ", ") (lit ", 22,,80 x,") (by decide) (by decide) [] [7] [8] [5, 5] 2
    (by decide) rfl

example :
    strftok (lit ", " ++ [0]) ([7] ++ (lit ", 22,,80 x," ++ 0 :: [8])) 1 [5, 5] 2 =
      .ok (2, [7] ++ (lit ", 22" ++ 0 :: lit ",80" ++ 0 :: lit "x," ++ [0, 8]), [3, 7]) := by
  decide

/-! ### The values of a call -/

/-- The loop that returns the tokens finds the runs. -/
theorem strftokLoop_runs (sep : UInt8) (s cur : List UInt8) (i : ℕ) :
    StyxWire.strftokLoop sep s cur =
      if cur = [] then (runs (ordinary [sep]) i s).map Prod.snd
      else (cur ++ s.takeWhile (ordinary [sep])) ::
        (runs (ordinary [sep]) i (s.dropWhile (ordinary [sep]))).map Prod.snd := by
  induction s generalizing cur i with
  | nil =>
    rw [StyxWire.strftokLoop, List.takeWhile_nil, List.dropWhile_nil, runs_nil, List.append_nil]
    rfl
  | cons c s ih =>
    rw [StyxWire.strftokLoop]
    by_cases hc : c = sep
    · have hord : ordinary [sep] c = false := by simp [ordinary, hc]
      have hdrop : (c :: s).dropWhile (ordinary [sep]) = c :: s :=
        List.dropWhile_cons_of_neg (by simp [hord])
      have htake : (c :: s).takeWhile (ordinary [sep]) = [] :=
        List.takeWhile_cons_of_neg (by simp [hord])
      rw [if_neg (not_not.mpr hc), ih [] (i + 1), if_pos rfl, hdrop, htake, runs_cons_of_neg hord,
        List.append_nil]
    · have hord : ordinary [sep] c = true := by simp [ordinary, hc]
      have hne : cur ++ [c] ≠ [] := List.append_ne_nil_of_right_ne_nil cur (List.cons_ne_nil c [])
      rw [if_pos hc]
      by_cases hcur : cur = []
      · rw [ih _ (i + 1 + (s.takeWhile (ordinary [sep])).length), if_neg hne, if_pos hcur, hcur,
          runs_cons_of_pos hord]
        rfl
      · rw [ih _ i, if_neg hne, if_neg hcur, List.takeWhile_cons_of_pos hord,
          List.dropWhile_cons_of_pos hord, List.append_assoc]
        rfl

/-- **The strings at the pointers** are those that the other modules take for the value of a call.
-/
theorem strftok_values {sep : UInt8} (hsep : sep ≠ 0) {s : List UInt8} (hs : 0 ∉ s)
    (before after : List UInt8) {tptrs : List ℕ} {n : ℕ} (hn : 1 ≤ n) (hptrs : tptrs.length = n) :
    ∃ (mid : List UInt8) (tptrs' : List ℕ),
      strftok [sep, 0] (before ++ (s ++ 0 :: after)) before.length tptrs n =
        .ok ((StyxWire.strftok sep s n).length, before ++ (mid ++ 0 :: after), tptrs') ∧
      ∀ (i : ℕ) (piece : List UInt8), (StyxWire.strftok sep s n)[i]? = some piece →
        ∃ q, tptrs'[i]? = some q ∧ StringAt (before ++ (mid ++ 0 :: after)) q piece := by
  obtain ⟨mid, -, hr, hwords⟩ := @strftok_call [sep] s (by simpa using hsep.symm) hs []
    before after _ _ hn hptrs
  have hpieces : StyxWire.strftok sep s n =
      ((runs (ordinary [sep]) before.length s).take n).map Prod.snd := by
    rw [StyxWire.strftok, strftokLoop_runs sep s [] before.length, if_pos rfl, List.map_take]
  set words := (runs (ordinary [sep]) before.length s).take n
  rw [List.length_nil, Nat.zero_add, List.nil_append] at hr
  refine ⟨mid, _, by rw [hpieces, List.length_map]; exact hr, ?_⟩
  intro i piece hpiece
  rw [hpieces, List.getElem?_map] at hpiece
  obtain ⟨word, hword, rfl⟩ := Option.map_eq_some_iff.mp hpiece
  exact ⟨word.1, getElem?_pointers hword _, hwords word (List.mem_of_getElem? hword)⟩

end StyxWire.Strings
