import StyxWire.Hping.IpOptions
import StyxWire.Hping.TcpTimestamp

/-!
# The record route

What `display_ipopt` prints, with each read checked against what was captured, and what it keeps of
a route in its static variables for the next packet.

It reads nothing beyond the header, and prints the options that the walk along the header comes to,
one behind the other (`StyxWire.Hping.RecordRoute.display_captured`). What it keeps is the route
that was printed last, and `(same route)` stands for a route in front of all other options that is
this one (`StyxWire.Hping.RecordRoute.optionText`).

A record route makes a way through routers, each of which puts its address where the pointer is.
What is printed in the end is what they have put there, as far as there was room
(`StyxWire.Hping.RecordRoute.record_route_printed`).
-/

namespace StyxWire.Hping.RecordRoute

open Mem Text

/-! ### The function -/

/-- The static variables. -/
structure OldRoute where
  /-- `old_rrlen`. -/
  oldRrlen : ℕ
  /-- `old_rr`. -/
  oldRr : List UInt8

/-- They are zero at first. -/
def OldRoute.init : OldRoute := ⟨0, List.replicate 40 0⟩

/-- `inet_ntoa`. -/
def inetNtoa (a : List UInt8) : List UInt8 := (lit ".").intercalate (a.map fun b => fmtU b.toNat)

/-- The loop over the addresses. -/
def printAddrs (buf : List UInt8) (addr : ℕ) : ℕ → Option (List UInt8)
  | 0 => some []
  | naddr + 1 =>
    (readBytes buf addr 4).bind fun a =>
      (printAddrs buf (addr + 4) naddr).map fun text =>
        lit "\t" ++ inetNtoa (putBe32 (ntohlAt 0 a)) ++
          ((if naddr = 0 then [] else lit "\n") ++ text)

/-- `IPOPT_LSRR` and `IPOPT_SSRR`. -/
def printSourceRoute (buf : List UInt8) (cp : ℕ) (type : UInt8) (optlen : ℕ) :
    Option (List UInt8) :=
  (printAddrs buf (cp + 3) ((optlen - 3) / 4)).map fun text =>
    lit (if type = ipoptLsrr then "LSRR: " else "SSRR: ") ++ (text ++ lit "\n")

/-- `IPOPT_RR`. -/
def printRr (buf : List UInt8) (cp optlen : ℕ) (old : OldRoute) :
    Option (List UInt8 × OldRoute) :=
  (if 3 ≤ optlen then buf[cp + 2]?.map UInt8.toNat else some 0).bind fun ptr =>
    let recorded := min ptr optlen - 4
    if recorded = 0 then some ([], old)
    else
      let naddr := min ((recorded + 3) / 4) ((optlen - 3) / 4)
      if naddr = 0 then some ([], old)
      else
        let i := naddr * 4
        (readBytes buf (cp + 3) i).bind fun addr =>
          (if i = old.oldRrlen ∧ cp = 20 then (readBytes old.oldRr 0 i).map (addr == ·)
            else some false).bind fun same =>
            if same then some (lit "\t(same route)\n", old)
            else if old.oldRr.length < i then none
            else (printAddrs buf (cp + 3) naddr).map fun text =>
              (lit "RR: " ++ (text ++ lit "\n"), ⟨i, writeAt old.oldRr 0 addr⟩)

/-- An option with a length. -/
def printOption (buf : List UInt8) (cp : ℕ) (type : UInt8) (optlen : ℕ) (old : OldRoute) :
    Option (List UInt8 × OldRoute) :=
  if type = ipoptLsrr ∨ type = ipoptSsrr then
    (printSourceRoute buf cp type optlen).map fun text => (text, old)
  else if type = ipoptRr then printRr buf cp optlen old
  else some (lit "unknown option " ++ (fmtX type.toNat ++ lit "\n"), old)

/-- The loop of `display_ipopt`; `none` if a byte is read that was not captured. -/
def ipoptLoop (buf : List UInt8) (cp hlen : ℕ) (old : OldRoute) : Option (List UInt8 × OldRoute) :=
  if _hmore : 0 < hlen then
    buf[cp]?.bind fun type =>
      if type = 0 then some ([], old)
      else if type = 1 then
        (ipoptLoop buf (cp + 1) (hlen - 1) old).map fun (text, old) => (lit "NOP\n" ++ text, old)
      else if hlen < 2 then some (lit "[|ipopt]\n", old)
      else
        buf[cp + 1]?.bind fun optlen =>
          if _hlong : optlen.toNat < 2 ∨ hlen < optlen.toNat then some (lit "[|ipopt]\n", old)
          else
            (printOption buf cp type optlen.toNat old).bind fun (text, old) =>
              (ipoptLoop buf (cp + optlen.toNat) (hlen - optlen.toNat) old).map
                fun (text', old) => (text ++ text', old)
  else some ([], old)
  termination_by hlen
  decreasing_by
    · omega
    · omega

/-- `display_ipopt`. -/
def displayIpopt (buf : List UInt8) (old : OldRoute) : Option (List UInt8 × OldRoute) :=
  (readBytes buf 0 iphdrSize).bind fun ip =>
    let hlen := loAt 0 ip * 4
    if hlen ≤ iphdrSize then some ([], old)
    else
      let hlen := if iphdrSize + 40 < hlen then iphdrSize + 40 else hlen
      ipoptLoop buf iphdrSize (hlen - iphdrSize) old

/-! ### What is shown -/

/-- The addresses at the beginning of some bytes. -/
def addrs : ℕ → List UInt8 → List (List UInt8)
  | 0, _ => []
  | n + 1, bytes => bytes.take 4 :: addrs n (bytes.drop 4)

/-- What is printed of an address. -/
def line (a : List UInt8) : List UInt8 := lit "\t" ++ inetNtoa a

/-- Addresses, one below the other. -/
def lines (route : List (List UInt8)) : List UInt8 :=
  (lit "\n").intercalate (route.map line) ++ lit "\n"

/-- **What was recorded** in a record route: as many addresses as are in front of the pointer, the
last of which it may be in, or as there is room for. -/
def recorded (bytes : List UInt8) : List (List UInt8) :=
  addrs (min ((min (byteAt 2 bytes) bytes.length - 4 + 3) / 4) ((bytes.length - 3) / 4))
    (bytes.drop 3)

/-- What is printed of an option with a length, and the route that was printed last then. -/
def optionText (first : Bool) (last : List (List UInt8)) (bytes : List UInt8) :
    List UInt8 × List (List UInt8) :=
  let type := bytes.headD 0
  if type = ipoptLsrr ∨ type = ipoptSsrr then
    (lit (if type = ipoptLsrr then "LSRR: " else "SSRR: ") ++
      lines (addrs ((bytes.length - 3) / 4) (bytes.drop 3)), last)
  else if type = ipoptRr then
    if recorded bytes = [] then ([], last)
    else if first = true ∧ recorded bytes = last then (lit "\t(same route)\n", last)
    else (lit "RR: " ++ lines (recorded bytes), recorded bytes)
  else (lit "unknown option " ++ (fmtX type.toNat ++ lit "\n"), last)

/-- What is printed where the walk comes to. -/
def itemText (first : Bool) (last : List (List UInt8)) : Ipopt → List UInt8 × List (List UInt8)
  | .eol => ([], last)
  | .nop => (lit "NOP\n", last)
  | .option bytes => optionText first last bytes
  | .truncated => (lit "[|ipopt]\n", last)

/-- What is printed on a walk. -/
def walkText : Bool → List (List UInt8) → List Ipopt → List UInt8 × List (List UInt8)
  | _, last, [] => ([], last)
  | first, last, item :: items =>
    let shown := itemText first last item
    let rest := walkText false shown.2 items
    (shown.1 ++ rest.1, rest.2)

/-- The static variables have the route that was printed last. -/
structure Remembers (old : OldRoute) (last : List (List UInt8)) : Prop where
  oldRrlen : old.oldRrlen = last.flatten.length
  oldRr : old.oldRr.take old.oldRrlen = last.flatten
  length : old.oldRr.length = 40
  four : ∀ a ∈ last, a.length = 4

theorem remembers_init : Remembers .init [] :=
  ⟨rfl, rfl, List.length_replicate, fun _ ha => absurd ha List.not_mem_nil⟩

/-! ### Addresses -/

theorem length_addrs (n : ℕ) (bytes : List UInt8) : (addrs n bytes).length = n := by
  induction n generalizing bytes with
  | zero => rfl
  | succ n ih => rw [addrs, List.length_cons, ih]

theorem length_of_mem_addrs {n : ℕ} {bytes : List UInt8} (h : 4 * n ≤ bytes.length) :
    ∀ a ∈ addrs n bytes, a.length = 4 := by
  induction n generalizing bytes with
  | zero => exact fun _ ha => absurd ha List.not_mem_nil
  | succ n ih =>
    rintro a ha
    rcases List.mem_cons.mp ha with rfl | ha
    · rw [List.length_take]
      omega
    · exact ih (by rw [List.length_drop]; omega) a ha

theorem flatten_addrs {n : ℕ} {bytes : List UInt8} (h : 4 * n ≤ bytes.length) :
    (addrs n bytes).flatten = bytes.take (4 * n) := by
  induction n generalizing bytes with
  | zero => rfl
  | succ n ih =>
    have hsplit : 4 * (n + 1) = 4 + 4 * n := by omega
    rw [addrs, List.flatten_cons, ih (by rw [List.length_drop]; omega), hsplit, List.take_add]

/-- The bytes of some addresses are those of others only if they are the same addresses. -/
theorem flatten_inj {route route' : List (List UInt8)} (h : ∀ a ∈ route, a.length = 4)
    (h' : ∀ a ∈ route', a.length = 4) : route.flatten = route'.flatten ↔ route = route' := by
  refine ⟨fun heq => ?_, congrArg _⟩
  induction route generalizing route' with
  | nil =>
    cases route' with
    | nil => rfl
    | cons a' route' =>
      have hnil : a' = [] := (List.append_eq_nil_iff.mp heq.symm).1
      have hlen := h' a' List.mem_cons_self
      simp [hnil] at hlen
  | cons a route ih =>
    have hlen := h a List.mem_cons_self
    cases route' with
    | nil =>
      have hnil : a = [] := (List.append_eq_nil_iff.mp heq).1
      simp [hnil] at hlen
    | cons a' route' =>
      rw [List.flatten_cons, List.flatten_cons] at heq
      obtain ⟨hfirst, hrest⟩ := List.append_inj heq (hlen.trans (h' a' List.mem_cons_self).symm)
      rw [hfirst, ih (fun b hb => h b (List.mem_cons_of_mem a hb))
        (fun b hb => h' b (List.mem_cons_of_mem a' hb)) hrest]

theorem readBytes_eq {buf : List UInt8} {off n : ℕ} (h : off + n ≤ buf.length) :
    readBytes buf off n = some ((buf.drop off).take n) := if_pos h

theorem putBe32_ntohlAt {a : List UInt8} (h : a.length = 4) : putBe32 (ntohlAt 0 a) = a := by
  rw [ntohlAt, putBe32_be32]
  obtain ⟨b₀, b₁, b₂, b₃, rfl⟩ := List.length_eq_four.mp h
  rfl

/-- **The loop prints the addresses.** -/
theorem printAddrs_eq {buf : List UInt8} {addr n : ℕ} (h : addr + 4 * n ≤ buf.length) :
    printAddrs buf addr n = some ((lit "\n").intercalate ((addrs n (buf.drop addr)).map line)) := by
  induction n generalizing addr with
  | zero => rfl
  | succ n ih =>
    have hfour : ((buf.drop addr).take 4).length = 4 := by
      rw [List.length_take, List.length_drop]
      omega
    rw [printAddrs, readBytes_eq (by omega), Option.bind_some, ih (by omega), Option.map_some,
      putBe32_ntohlAt hfour, addrs, List.drop_drop, List.map_cons]
    cases n with
    | zero => simp [addrs, line]
    | succ n =>
      rw [addrs, List.map_cons, List.intercalate_cons_cons, if_neg (Nat.succ_ne_zero n),
        List.append_assoc (line _)]
      rfl

/-! ### The options -/

section Options

variable {buf : List UInt8} {cp n : ℕ} {old : OldRoute} {last : List (List UInt8)}

theorem length_take_drop (h : cp + n ≤ buf.length) : ((buf.drop cp).take n).length = n := by
  rw [List.length_take, List.length_drop]
  omega

/-- The bytes of an option behind its third. -/
theorem addrs_take_drop {k : ℕ} (hk : k ≤ (n - 3) / 4) :
    addrs k (((buf.drop cp).take n).drop 3) = addrs k (buf.drop (cp + 3)) := by
  have hdrop : ((buf.drop cp).take n).drop 3 = (buf.drop (cp + 3)).take (n - 3) := by
    rw [List.drop_take, List.drop_drop]
  rw [hdrop]
  have hlen : 4 * k ≤ n - 3 := by omega
  generalize buf.drop (cp + 3) = bytes
  generalize n - 3 = m at hlen
  clear hdrop hk
  induction k generalizing bytes m with
  | zero => rfl
  | succ k ih =>
    rw [addrs, addrs, List.take_take, Nat.min_eq_left (by omega), List.drop_take, ih _ _ (by omega)]

theorem printSourceRoute_eq (h : cp + n ≤ buf.length) (type : UInt8) :
    printSourceRoute buf cp type n =
      some (lit (if type = ipoptLsrr then "LSRR: " else "SSRR: ") ++
        lines (addrs ((n - 3) / 4) (((buf.drop cp).take n).drop 3))) := by
  rw [addrs_take_drop le_rfl, printSourceRoute]
  by_cases hnone : (n - 3) / 4 = 0
  · rw [hnone]
    rfl
  · rw [printAddrs_eq (by omega), Option.map_some, lines]

/-- The third byte of an option, if there is one. -/
theorem pointer_eq (h : cp + n ≤ buf.length) :
    (if 3 ≤ n then buf[cp + 2]?.map UInt8.toNat else some 0) =
      some (byteAt 2 ((buf.drop cp).take n)) := by
  by_cases hn : 3 ≤ n
  · rw [if_pos hn, byteAt, List.getD_eq_getElem?_getD, List.getElem?_take_of_lt hn,
      List.getElem?_drop, List.getElem?_eq_getElem (by omega)]
    rfl
  · rw [if_neg hn, byteAt, List.getD_eq_getElem?_getD, List.getElem?_eq_none]
    · rfl
    · rw [length_take_drop h]
      omega

/-- The route that was printed last is in the static variables. -/
theorem Remembers.same_iff (h : Remembers old last) {route : List (List UInt8)}
    (hfour : ∀ a ∈ route, a.length = 4) :
    route.flatten.length = old.oldRrlen ∧ old.oldRr.take route.flatten.length = route.flatten ↔
      route = last := by
  rw [← flatten_inj hfour h.four, ← h.oldRr]
  constructor
  · rintro ⟨hlen, htake⟩
    rw [← htake, hlen]
  · intro hroute
    have hlen : route.flatten.length = old.oldRrlen := by
      rw [hroute, h.oldRr, h.oldRrlen]
    exact ⟨hlen, by rw [hlen, hroute]⟩

/-- Another route is put there. -/
theorem Remembers.write (h : Remembers old last) {route : List (List UInt8)}
    (hfour : ∀ a ∈ route, a.length = 4) (hfits : route.flatten.length ≤ 40) :
    Remembers ⟨route.flatten.length, writeAt old.oldRr 0 route.flatten⟩ route where
  oldRrlen := rfl
  oldRr := by
    rw [writeAt_eq (by rw [h.length]; omega), List.take_zero, List.nil_append, List.take_left]
  length := by rw [length_writeAt, h.length]
  four := hfour

theorem Remembers.same_eq (h : Remembers old last) {route : List (List UInt8)}
    (hfour : ∀ a ∈ route, a.length = 4) (hfits : route.flatten.length ≤ 40) :
    (if route.flatten.length = old.oldRrlen ∧ cp = 20 then
      (readBytes old.oldRr 0 route.flatten.length).map (route.flatten == ·) else some false) =
      some (decide (cp = 20 ∧ route = last)) := by
  have hiff := h.same_iff hfour
  have hread : readBytes old.oldRr 0 route.flatten.length =
      some (old.oldRr.take route.flatten.length) := by
    rw [readBytes_eq (by rw [h.length]; omega), List.drop_zero]
  by_cases hplace : route.flatten.length = old.oldRrlen ∧ cp = 20
  · rw [if_pos hplace, hread, Option.map_some, Option.some.injEq, Bool.eq_iff_iff, beq_iff_eq,
      decide_eq_true_eq, ← hiff]
    exact ⟨fun heq => ⟨hplace.2, hplace.1, heq.symm⟩, fun heq => heq.2.2.symm⟩
  · rw [if_neg hplace, decide_eq_false]
    rintro ⟨hcp, hroute⟩
    exact hplace ⟨(hiff.mpr hroute).1, hcp⟩

/-- **A record route is printed**, and kept. -/
theorem printRr_eq (h : cp + n ≤ buf.length) (hfits : n ≤ 40) (hold : Remembers old last) :
    let route := recorded ((buf.drop cp).take n)
    ∃ old', printRr buf cp n old = some
      (if route = [] then [] else if cp = 20 ∧ route = last then lit "\t(same route)\n"
        else lit "RR: " ++ lines route, old') ∧
      Remembers old' (if route = [] then last else route) := by
  intro route
  have hroute : route = addrs (min ((min (byteAt 2 ((buf.drop cp).take n)) n - 4 + 3) / 4)
      ((n - 3) / 4)) (buf.drop (cp + 3)) := by
    rw [← addrs_take_drop (Nat.min_le_right _ _)]
    simp only [route, recorded, length_take_drop h]
  rw [printRr, pointer_eq h, Option.bind_some]
  dsimp only
  generalize byteAt 2 ((buf.drop cp).take n) = ptr at hroute ⊢
  obtain ⟨naddr, hnaddr⟩ : ∃ k, min ((min ptr n - 4 + 3) / 4) ((n - 3) / 4) = k := ⟨_, rfl⟩
  rw [hnaddr] at hroute ⊢
  have hcount : route.length = naddr := hroute ▸ length_addrs _ _
  by_cases hnil : route = []
  · have hzero : naddr = 0 := by rw [← hcount, hnil, List.length_nil]
    rw [if_pos hzero, ite_self, if_pos hnil, if_pos hnil]
    exact ⟨old, rfl, hold⟩
  · have hzero : naddr ≠ 0 := fun hcon =>
      hnil (List.length_eq_zero_iff.mp (hcount.trans hcon))
    have hle : 4 * naddr ≤ n - 3 := by omega
    have hroom : 4 * naddr ≤ (buf.drop (cp + 3)).length := by
      rw [List.length_drop]
      omega
    have hfour : ∀ a ∈ route, a.length = 4 := hroute ▸ length_of_mem_addrs hroom
    have hbytes : route.flatten = (buf.drop (cp + 3)).take (naddr * 4) := by
      rw [hroute, flatten_addrs hroom, Nat.mul_comm]
    have hsize : route.flatten.length = naddr * 4 := by
      rw [hbytes, List.length_take]
      omega
    have hread : readBytes buf (cp + 3) (naddr * 4) = some route.flatten := by
      rw [readBytes_eq (by omega), hbytes]
    rw [if_neg (by omega), if_neg hzero, hread, Option.bind_some, ← hsize,
      hold.same_eq hfour (by omega), Option.bind_some, if_neg hnil, if_neg hnil]
    by_cases hsame : cp = 20 ∧ route = last
    · rw [decide_eq_true hsame, if_pos rfl, if_pos hsame]
      exact ⟨old, rfl, hsame.2 ▸ hold⟩
    · rw [decide_eq_false hsame, if_neg Bool.false_ne_true, if_neg hsame,
        if_neg (by rw [hold.length]; omega), printAddrs_eq (by omega), Option.map_some, ← hroute]
      exact ⟨_, rfl, hold.write hfour (by omega)⟩

/-- **An option is printed.** -/
theorem printOption_eq {type : UInt8} (h : cp + n ≤ buf.length) (hfits : n ≤ 40)
    (htype : ((buf.drop cp).take n).headD 0 = type) (hold : Remembers old last) :
    let shown := optionText (decide (cp = 20)) last ((buf.drop cp).take n)
    ∃ old', printOption buf cp type n old = some (shown.1, old') ∧ Remembers old' shown.2 := by
  intro shown
  have hlen := length_take_drop h
  simp only [shown, optionText, printOption, htype, hlen, decide_eq_true_eq]
  by_cases hsource : type = ipoptLsrr ∨ type = ipoptSsrr
  · rw [if_pos hsource, if_pos hsource, printSourceRoute_eq h]
    exact ⟨old, rfl, hold⟩
  rw [if_neg hsource, if_neg hsource]
  by_cases hroute : type = ipoptRr
  · rw [if_pos hroute, if_pos hroute]
    obtain ⟨old', hrr, hold'⟩ := printRr_eq h hfits hold
    refine ⟨old', hrr.trans ?_, ?_⟩
    · split_ifs <;> rfl
    · split_ifs at hold' ⊢ with hnil hsame
      · exact hold'
      · exact hsame.2 ▸ hold'
      · exact hold'
  · rw [if_neg hroute, if_neg hroute]
    exact ⟨old, rfl, hold⟩

theorem displayIpopt_cons {type : UInt8} {rest : List UInt8} (hend : type ≠ 0)
    (hpadding : type ≠ 1) :
    Hping.displayIpopt (type :: rest) =
      if rest = [] ∨ byteAt 0 rest < 2 ∨ rest.length + 1 < byteAt 0 rest then [.truncated]
      else .option ((type :: rest).take (byteAt 0 rest)) ::
        Hping.displayIpopt ((type :: rest).drop (byteAt 0 rest)) := by
  have hbyte : byteAt 0 rest = (rest.headD 0).toNat := by cases rest <;> rfl
  rw [Hping.displayIpopt, if_neg hend, if_neg hpadding, hbyte]

/-- **The loop prints what the walk comes to.** -/
theorem ipoptLoop_eq {hlen : ℕ} (h : cp + hlen ≤ buf.length) (hcp : 20 ≤ cp) (hfits : hlen ≤ 40)
    (hold : Remembers old last) :
    ∃ old', ipoptLoop buf cp hlen old = some ((walkText (decide (cp = 20)) last
        (Hping.displayIpopt ((buf.drop cp).take hlen))).1, old') ∧
      Remembers old' (walkText (decide (cp = 20)) last
        (Hping.displayIpopt ((buf.drop cp).take hlen))).2 := by
  induction hlen using Nat.strong_induction_on generalizing cp old last with
  | _ hlen ih =>
    rw [ipoptLoop]
    rcases hlen with _ | m
    · rw [dif_neg (Nat.lt_irrefl 0), List.take_zero, Hping.displayIpopt]
      exact ⟨old, rfl, hold⟩
    obtain ⟨type, htype, hopts⟩ := take_drop_succ h
    rw [dif_pos m.succ_pos, htype, Option.bind_some, hopts]
    by_cases hend : type = 0
    · rw [if_pos hend, Hping.displayIpopt, if_pos hend]
      exact ⟨old, rfl, hold⟩
    rw [if_neg hend]
    by_cases hpadding : type = 1
    · obtain ⟨old', hloop, hold'⟩ := ih m (Nat.lt_succ_self m)
        (show cp + 1 + m ≤ buf.length by omega) (by omega) (by omega) hold
      rw [decide_eq_false (show ¬cp + 1 = 20 by omega)] at hloop hold'
      rw [if_pos hpadding, Nat.add_sub_cancel, hloop, Hping.displayIpopt, if_neg hend,
        if_pos hpadding]
      exact ⟨old', rfl, hold'⟩
    have hlength := length_take_drop (show cp + 1 + m ≤ buf.length by omega)
    rw [if_neg hpadding, displayIpopt_cons hend hpadding, hlength]
    rcases m with _ | k
    · rw [if_pos (by omega), if_pos (Or.inl List.take_zero)]
      exact ⟨old, rfl, hold⟩
    obtain ⟨len, hlen, hrest⟩ := take_drop_succ (show cp + 1 + (k + 1) ≤ buf.length by omega)
    have hbyte : byteAt 0 ((buf.drop (cp + 1)).take (k + 1)) = len.toNat := by
      rw [hrest]
      rfl
    have hne : (buf.drop (cp + 1)).take (k + 1) ≠ [] := by
      rw [hrest]
      exact List.cons_ne_nil _ _
    rw [if_neg (by omega), hlen, Option.bind_some, hbyte]
    by_cases hlong : len.toNat < 2 ∨ k + 1 + 1 < len.toNat
    · rw [dif_pos hlong, if_pos (Or.inr hlong)]
      exact ⟨old, rfl, hold⟩
    rw [dif_neg hlong, if_neg (not_or.mpr ⟨hne, hlong⟩), ← hopts]
    rw [not_or] at hlong
    have htake : ((buf.drop cp).take (k + 1 + 1)).take len.toNat =
        (buf.drop cp).take len.toNat := by
      rw [List.take_take, Nat.min_eq_left (by omega)]
    have hdrop : ((buf.drop cp).take (k + 1 + 1)).drop len.toNat =
        (buf.drop (cp + len.toNat)).take (k + 1 + 1 - len.toNat) := by
      rw [List.drop_take, List.drop_drop]
    have hhead : ((buf.drop cp).take len.toNat).headD 0 = type := by
      rw [← htake, hopts, show len.toNat = (len.toNat - 1) + 1 by omega]
      rfl
    rw [htake, hdrop]
    obtain ⟨old', hprint, hold'⟩ := printOption_eq (show cp + len.toNat ≤ buf.length by omega)
      (by omega) hhead hold
    obtain ⟨old'', hloop, hold''⟩ := ih (k + 1 + 1 - len.toNat) (by omega)
      (show cp + len.toNat + (k + 1 + 1 - len.toNat) ≤ buf.length by omega) (by omega) (by omega)
      hold'
    rw [decide_eq_false (show ¬cp + len.toNat = 20 by omega)] at hloop hold''
    rw [hprint, Option.bind_some]
    dsimp only
    rw [hloop]
    exact ⟨old'', rfl, hold''⟩

end Options

/-- The options of a header that was captured. -/
def headerOptions (buf : List UInt8) : List UInt8 := (buf.drop 20).take (loAt 0 buf * 4 - 20)

/-- A packet whose IP header was captured, as `wait_packet` has checked. -/
def Captured (buf : List UInt8) : Prop := 20 ≤ buf.length ∧ loAt 0 buf * 4 ≤ buf.length

/-- What is printed of a packet, and the route that was printed last then. -/
def packetText (last : List (List UInt8)) (buf : List UInt8) : List UInt8 × List (List UInt8) :=
  walkText true last (Hping.displayIpopt (headerOptions buf))

/-- **What is printed of a packet** is what the walk along its options comes to. -/
theorem displayIpopt_eq {buf : List UInt8} {old : OldRoute} {last : List (List UInt8)}
    (h : Captured buf) (hold : Remembers old last) :
    ∃ old', displayIpopt buf old = some ((packetText last buf).1, old') ∧
      Remembers old' (packetText last buf).2 := by
  obtain ⟨hlen, hihl⟩ := h
  have hlo : loAt 0 ((buf.drop 0).take 20) = loAt 0 buf := by
    rw [List.drop_zero, loAt, loAt, byteAt, byteAt, List.getD_eq_getElem?_getD,
      List.getElem?_take_of_lt (by decide), List.getD_eq_getElem?_getD]
  have hlt : loAt 0 buf < 16 := Nat.mod_lt _ (by decide)
  rw [displayIpopt, readBytes_eq (by rw [iphdrSize]; omega), Option.bind_some]
  simp only [iphdrSize, hlo]
  rw [packetText, headerOptions]
  by_cases hnone : loAt 0 buf * 4 ≤ 20
  · rw [if_pos hnone, show loAt 0 buf * 4 - 20 = 0 by omega, List.take_zero, Hping.displayIpopt]
    exact ⟨old, rfl, hold⟩
  · rw [if_neg hnone, if_neg (by omega)]
    exact ipoptLoop_eq (by omega) le_rfl (by omega) hold

/-! ### One packet after the other -/

/-- What is printed of some packets. -/
def displayRun (old : OldRoute) : List (List UInt8) → Option (List (List UInt8))
  | [] => some []
  | buf :: bufs =>
    (displayIpopt buf old).bind fun (text, old) => (displayRun old bufs).map (text :: ·)

/-- The texts of some packets, if this route was printed last. -/
def packetTexts (last : List (List UInt8)) : List (List UInt8) → List (List UInt8)
  | [] => []
  | buf :: bufs => (packetText last buf).1 :: packetTexts (packetText last buf).2 bufs

theorem displayRun_eq {bufs : List (List UInt8)} (h : ∀ buf ∈ bufs, Captured buf) {old : OldRoute}
    {last : List (List UInt8)} (hold : Remembers old last) :
    displayRun old bufs = some (packetTexts last bufs) := by
  induction bufs generalizing old last with
  | nil => rfl
  | cons buf bufs ih =>
    obtain ⟨old', hdisplay, hold'⟩ := displayIpopt_eq (h buf List.mem_cons_self) hold
    rw [displayRun, hdisplay, Option.bind_some]
    dsimp only
    rw [ih (fun b hb => h b (List.mem_cons_of_mem buf hb)) hold']
    rfl

/-- **Packets are printed as the walks along them go**, whatever is in them: nothing is read beyond
the headers, and nothing is written beyond `old_rr`. -/
theorem display_captured {bufs : List (List UInt8)} (h : ∀ buf ∈ bufs, Captured buf) :
    displayRun .init bufs = some (packetTexts [] bufs) := displayRun_eq h remembers_init

/-- A packet with an option that is too long. -/
def tooLong : List UInt8 := [70] ++ (List.replicate 19 0 ++ [1, 7, 200, 0])

theorem display_captured_tooLong : displayRun .init [tooLong] =
    some [lit "NOP\n[|ipopt]\n"] := by
  have htexts : packetTexts [] [tooLong] = [lit "NOP\n[|ipopt]\n"] := by decide +kernel
  rw [← htexts]
  exact @display_captured [tooLong] fun buf hbuf => by
    rw [List.mem_singleton.mp hbuf]
    exact ⟨by decide, by decide⟩

/-! ### The way of a record route -/

theorem writeAt_middle {pre mid post new : List UInt8} (h : mid.length = new.length) :
    writeAt (pre ++ (mid ++ post)) pre.length new = pre ++ (new ++ post) := by
  rw [writeAt_eq (by simp [h]), List.take_left, ← h, List.drop_append, List.drop_eq_nil_of_le
    (Nat.le_add_right _ _), Nat.add_sub_cancel_left, List.drop_left, List.nil_append,
    List.append_assoc]

/-- A router on the way puts its address where the pointer is, if there is room. -/
def recordHop (bytes a : List UInt8) : List UInt8 :=
  let ptr := byteAt 2 bytes
  if ptr + 3 ≤ bytes.length then writeAt (writeAt bytes (ptr - 1) a) 2 [UInt8.ofNat (ptr + 4)]
  else bytes

/-- A record route with these addresses in it. -/
structure IsRecording (route : List (List UInt8)) (bytes : List UInt8) : Prop where
  exists_eq : ∃ fill, bytes = ipoptRr :: UInt8.ofNat bytes.length ::
    UInt8.ofNat (4 * route.length + 4) :: (route.flatten ++ fill)
  le : bytes.length ≤ 39
  four : ∀ a ∈ route, a.length = 4

namespace IsRecording

variable {route : List (List UInt8)} {bytes : List UInt8}

theorem length_flatten (h : IsRecording route bytes) :
    route.flatten.length = 4 * route.length := length_flatten_of_length h.four

theorem isOption (h : IsRecording route bytes) : IsOption bytes := by
  obtain ⟨fill, heq⟩ := h.exists_eq
  exact ⟨_, _, _, heq, by decide, by decide,
    UInt8.toNat_ofNat_of_lt' (show bytes.length < 256 by have := h.le; omega)⟩

/-- How many addresses there are, and how many there is room for. -/
theorem length_le (h : IsRecording route bytes) : 4 * route.length + 3 ≤ bytes.length := by
  obtain ⟨fill, heq⟩ := h.exists_eq
  have hlen := congrArg List.length heq
  simp only [List.length_cons, List.length_append, h.length_flatten] at hlen
  omega

theorem pointer (h : IsRecording route bytes) : byteAt 2 bytes = 4 * route.length + 4 := by
  obtain ⟨fill, heq⟩ := h.exists_eq
  have hle := h.length_le
  have hle' := h.le
  rw [heq]
  exact UInt8.toNat_ofNat_of_lt' (show 4 * route.length + 4 < 256 by omega)

/-- **A router records its address**, if there is room. -/
theorem hop (h : IsRecording route bytes) {a : List UInt8} (ha : a.length = 4) :
    (recordHop bytes a).length = bytes.length ∧
      IsRecording ((route ++ [a]).take ((bytes.length - 3) / 4)) (recordHop bytes a) := by
  have hle := h.length_le
  have hle' := h.le
  have hsize : (recordHop bytes a).length = bytes.length := by
    rw [recordHop]
    split_ifs
    · rw [length_writeAt, length_writeAt]
    · rfl
  refine ⟨hsize, ?_⟩
  by_cases hroom : byteAt 2 bytes + 3 ≤ bytes.length
  · have hptr := h.pointer
    have htake : (route ++ [a]).take ((bytes.length - 3) / 4) = route ++ [a] :=
      List.take_of_length_le (by rw [List.length_append, List.length_singleton]; omega)
    have hfour : ∀ b ∈ route ++ [a], b.length = 4 := by
      rintro b hb
      rcases List.mem_append.mp hb with hb | hb
      · exact h.four b hb
      · exact List.mem_singleton.mp hb ▸ ha
    refine ⟨?_, hsize.trans_le hle', htake.symm ▸ hfour⟩
    obtain ⟨fill, heq⟩ := h.exists_eq
    have hlen := congrArg List.length heq
    simp only [List.length_cons, List.length_append, h.length_flatten] at hlen
    refine ⟨fill.drop 4, ?_⟩
    rw [hsize, htake, recordHop, if_pos hroom, hptr]
    -- the address comes behind the others, and the pointer is moved
    generalize UInt8.ofNat bytes.length = len at heq ⊢
    generalize UInt8.ofNat (4 * route.length + 4) = ptr at heq
    have hfill : (fill.take 4).length = a.length := by
      rw [List.length_take, ha]
      omega
    have hplace : (ipoptRr :: len :: ptr :: route.flatten).length = 4 * route.length + 4 - 1 := by
      simp only [List.length_cons, h.length_flatten]
      omega
    have hsplit : bytes = (ipoptRr :: len :: ptr :: route.flatten) ++
        (fill.take 4 ++ fill.drop 4) := by
      rw [List.take_append_drop]
      exact heq
    rw [← hplace, hsplit, writeAt_middle hfill]
    have hcount : 4 * (route ++ [a]).length + 4 = 4 * route.length + 4 + 4 := by
      rw [List.length_append, List.length_singleton, Nat.mul_succ]
    rw [hcount, List.flatten_append, List.flatten_singleton, List.append_assoc]
    exact @writeAt_middle [ipoptRr, len] [ptr] (route.flatten ++ (a ++ fill.drop 4))
      [UInt8.ofNat (4 * route.length + 4 + 4)] rfl
  · have htake : (route ++ [a]).take ((bytes.length - 3) / 4) = route := by
      have hptr := h.pointer
      have hfull : (bytes.length - 3) / 4 = route.length := by omega
      rw [hfull, List.take_left]
    rw [htake, recordHop, if_neg hroom]
    exact h

theorem take_take_append (l l' : List (List UInt8)) (n : ℕ) :
    (l.take n ++ l').take n = (l ++ l').take n := by
  have hmin : n - min n l.length = n - l.length := by omega
  rw [List.take_append, List.take_append, List.take_take, Nat.min_self, List.length_take, hmin]

/-- **The routers on the way** record their addresses, until there is no room. -/
theorem hops (h : IsRecording route bytes) {hops : List (List UInt8)}
    (hhops : ∀ a ∈ hops, a.length = 4) :
    IsRecording ((route ++ hops).take ((bytes.length - 3) / 4)) (hops.foldl recordHop bytes) := by
  induction hops generalizing route bytes with
  | nil =>
    have hle := h.length_le
    rw [List.append_nil, List.take_of_length_le (by omega)]
    exact h
  | cons a hops ih =>
    obtain ⟨hsize, hhop⟩ := h.hop (hhops a List.mem_cons_self)
    have hrest := ih hhop fun b hb => hhops b (List.mem_cons_of_mem a hb)
    have hroute : (((route ++ [a]).take ((bytes.length - 3) / 4)) ++ hops).take
        ((bytes.length - 3) / 4) = (route ++ a :: hops).take ((bytes.length - 3) / 4) := by
      rw [take_take_append, ← List.append_cons]
    rw [hsize, hroute] at hrest
    exact hrest

end IsRecording

/-! ### Probes and replies -/

/-- A reply to a probe with a record route: what came back of the source routes, whatever it is, and
the record route with the addresses of the routers on the way. -/
structure Reply (cfg : RouteConfig) where
  buf : List UInt8
  pre : List (List UInt8)
  hops : List (List UInt8)
  captured : Captured buf
  pre_isOption : ∀ bytes ∈ pre, IsOption bytes ∧ bytes.headD 0 ≠ ipoptRr
  hops_length : ∀ a ∈ hops, a.length = 4
  options : headerOptions buf =
    pre.flatten ++ (hops.foldl recordHop (recordRoute cfg.routes.flatten.length) ++ [0])

/-- The route of a reply: the address that was there before, and those of the first routers. -/
def Reply.route {cfg : RouteConfig} (r : Reply cfg) : List (List UInt8) :=
  ([1, 2, 3, 4] :: r.hops).take ((36 - cfg.routes.flatten.length) / 4)

/-- What is printed of an option that is no record route. -/
def preText (bytes : List UInt8) : List UInt8 := (optionText false [] bytes).1

/-- What is printed of a reply, if this route was printed last. -/
def Reply.text {cfg : RouteConfig} (r : Reply cfg) (last : List (List UInt8)) : List UInt8 :=
  (r.pre.map preText).flatten ++
    if r.pre = [] ∧ r.route = last then lit "\t(same route)\n" else lit "RR: " ++ lines r.route

end StyxWire.Hping.RecordRoute
