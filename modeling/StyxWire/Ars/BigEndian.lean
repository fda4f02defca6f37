import StyxWire.Ars.Reject
import StyxWire.Ars.SetterBounds
import StyxWire.Lib.Numerals

/-!
# Numbers in network order

The fields of the description language that are numbers of two, three or four bytes
(`StyxWire.numFields`), with the place that the protocols give them. A numeral of any of the three
kinds is stored with the most significant byte first, but for the fields of two options, which are
stored as they lie in memory (`StyxWire.hostFields`): they come out right if their two bytes are
the same. `StyxWire.bigEndian_iff` is about whole descriptions, and so about the two limits there
are for a numeral: the length of a token, and the largest number that is read.
-/

namespace StyxWire

open Mem Text Outcome

/-! ### The fields -/

/-- A field that is a number: its keyword and its name, the place in the layer – behind all the
bytes there are if there is none – and how many bytes it has. -/
structure NumField where
  kw : String
  name : String
  off : Option ℕ
  width : ℕ
  deriving DecidableEq

/-- **The numbers of the protocols.** -/
def numFields : List NumField :=
  [⟨"ip", "totlen", some 2, 2⟩, ⟨"ip", "id", some 4, 2⟩, ⟨"ip", "cksum", some 10, 2⟩,
    ⟨"ip.sec", "seclev", some 2, 2⟩, ⟨"ip.sec", "comp", some 4, 2⟩, ⟨"ip.sid", "sid", some 2, 2⟩,
    ⟨"udp", "sport", some 0, 2⟩, ⟨"udp", "dport", some 2, 2⟩, ⟨"udp", "len", some 4, 2⟩,
    ⟨"udp", "cksum", some 6, 2⟩,
    ⟨"tcp", "sport", some 0, 2⟩, ⟨"tcp", "dport", some 2, 2⟩, ⟨"tcp", "seq", some 4, 4⟩,
    ⟨"tcp", "ack", some 8, 4⟩, ⟨"tcp", "win", some 14, 2⟩, ⟨"tcp", "cksum", some 16, 2⟩,
    ⟨"tcp", "urp", some 18, 2⟩,
    ⟨"tcp.mss", "size", some 2, 2⟩, ⟨"tcp.echo", "info", some 2, 4⟩,
    ⟨"tcp.echoreq", "info", some 2, 4⟩, ⟨"tcp.echoreply", "info", some 2, 4⟩,
    ⟨"tcp.ts", "val", some 2, 4⟩, ⟨"tcp.ts", "tsval", some 2, 4⟩, ⟨"tcp.ts", "ecr", some 6, 4⟩,
    ⟨"tcp.ts", "tsecr", some 6, 4⟩,
    ⟨"tcp.timestamp", "val", some 2, 4⟩, ⟨"tcp.timestamp", "tsval", some 2, 4⟩,
    ⟨"tcp.timestamp", "ecr", some 6, 4⟩, ⟨"tcp.timestamp", "tsecr", some 6, 4⟩,
    ⟨"icmp", "cksum", some 2, 2⟩, ⟨"icmp", "id", some 4, 2⟩, ⟨"icmp", "seq", some 6, 2⟩,
    ⟨"icmp", "unused", some 4, 4⟩,
    ⟨"ip6", "plen", some 4, 2⟩,
    ⟨"icmp6", "cksum", some 2, 2⟩, ⟨"icmp6", "id", some 4, 2⟩, ⟨"icmp6", "seq", some 6, 2⟩,
    ⟨"icmp6", "unused", some 4, 4⟩,
    ⟨"igrp", "cksum", some 10, 2⟩, ⟨"igrp", "autosys", some 2, 2⟩, ⟨"igrp", "interior", some 4, 2⟩,
    ⟨"igrp", "system", some 6, 2⟩, ⟨"igrp", "exterior", some 8, 2⟩,
    ⟨"igrp.entry", "delay", some 3, 3⟩, ⟨"igrp.entry", "bandwidth", some 6, 3⟩,
    ⟨"igrp.entry", "mtu", some 9, 2⟩,
    ⟨"data", "uint32", none, 4⟩, ⟨"data", "uint24", none, 3⟩, ⟨"data", "uint16", none, 2⟩]

/-- The fields that are stored as they lie in memory. -/
def hostFields : List (String × String) :=
  [("ip.sec", "seclev"), ("ip.sec", "comp"), ("ip.sid", "sid")]

/-- The bytes of a layer with these in place of the field. -/
def NumField.store (f : NumField) (src d : List UInt8) : List UInt8 :=
  f.off.elim (d ++ src) fun off => writeAt d off src

/-- The bytes that are stored for a number. -/
def NumField.stored (f : NumField) (x : ℕ) : List UInt8 :=
  if (f.kw, f.name) ∈ hostFields then putLe16 x else beBytes f.width x

/-! ### The setters -/

/-- The setter stores a number of `w` bytes, `g` of it, at that place of a layer with room for
`n` bytes. -/
def Stores (n : ℕ) (off : Option ℕ) (g : ℕ → List UInt8) (s : Setter) : Prop :=
  ∀ libc v l, Room n l → ∃ l', s libc v l = .ok l' ∧
    l'.bytes = off.elim (l.bytes ++ g (arsAtou v)) fun off => writeAt l.bytes off (g (arsAtou v))

section Setters

variable {n off : ℕ}

theorem Room.bytes {l : ArsLayer} (h : Room n l) : l.bytes = l.lData :=
  List.take_of_length_le h.1.ge

theorem stores_put {g : ℕ → List UInt8} {w : ℕ} (hw : ∀ x, (g x).length = w) (h : off + w ≤ n) :
    Stores n (some off) g fun _ v => put off (g (arsAtou v)) := by
  intro libc v l hl
  have hfit : off + (g (arsAtou v)).length ≤ l.lData.length := by
    rw [hw]
    exact h.trans (hl.2.trans hl.1.le)
  refine ⟨l.write off (g (arsAtou v)), if_pos hfit, ?_⟩
  rw [(hl.write off _).bytes, hl.bytes]
  rfl

theorem Stores.taking {o : Option ℕ} {g : ℕ → List UInt8} {s : Setter} (h : Stores n o g s)
    (flag : ℕ) : Stores n o g (taking flag s) := by
  intro libc v l hl
  obtain ⟨l', hl', hbytes⟩ := h libc v l hl
  exact ⟨l'.addFlag flag, congrArg _ hl', hbytes⟩

theorem stores_setNet16 (h : off + 2 ≤ n) : Stores n (some off) (beBytes 2) (setNet16 off) := by
  rw [beBytes_two]
  exact stores_put (fun _ => rfl) h

theorem stores_setNet24 (h : off + 3 ≤ n) : Stores n (some off) (beBytes 3) (setNet24 off) := by
  rw [beBytes_three]
  exact stores_put (fun _ => rfl) h

theorem stores_setNet32 (h : off + 4 ≤ n) : Stores n (some off) (beBytes 4) (setNet32 off) := by
  rw [beBytes_four]
  exact stores_put (fun _ => rfl) h

theorem stores_setHost16 (h : off + 2 ≤ n) : Stores n (some off) putLe16 (setHost16 off) :=
  stores_put (fun _ => rfl) h

/-- Data is stored behind what is there. -/
theorem stores_pushing {g : ℕ → List UInt8} (hg : ∀ x, g x ≠ []) :
    Stores n none g (pushing fun _ v => .ok (g (arsAtou v))) := by
  intro libc v l hl
  have hpush : arsPushData (g (arsAtou v)) l = l.grow (g (arsAtou v)) := if_neg (hg _)
  exact ⟨l.grow (g (arsAtou v)), congrArg Except.ok hpush, ArsLayer.grow_bytes _ _⟩

theorem stores_pushing32 :
    Stores n none (beBytes 4) (pushing fun _ v => .ok (putBe32 (arsAtou v))) := by
  rw [beBytes_four]
  exact stores_pushing fun _ => List.cons_ne_nil _ _

theorem stores_pushing24 :
    Stores n none (beBytes 3) (pushing fun _ v => .ok ((putBe32 (arsAtou v)).drop 1)) := by
  rw [beBytes_three]
  exact stores_pushing fun _ => List.cons_ne_nil _ _

theorem stores_pushing16 :
    Stores n none (beBytes 2) (pushing fun _ v => .ok (putBe16 (arsAtou v))) := by
  rw [beBytes_two]
  exact stores_pushing fun _ => List.cons_ne_nil _ _

end Setters

/-! ### The table -/

/-- The setter of the field stores a number at its place. -/
structure SetsNumber (f : NumField) (k : ArsDKeywordInfo) (s : Setter) : Prop where
  key : arsGetKeywordByName (lit f.kw) = some k
  set : ∀ libc l v, k.kiSet libc l (lit f.name) v = s libc v l
  fit : ∀ off ∈ f.off, off + f.width ≤ newSize k
  stores : Stores (newSize k) f.off f.stored s

/-- The setter of the field is known. -/
def HasSetter (f : NumField) : Prop := ∃ k s, SetsNumber f k s

section Table

variable {kw name : String} {o : Option ℕ} {w : ℕ} {k : ArsDKeywordInfo} {s : Setter}

theorem HasSetter.of_net (hs : Stores (newSize k) o (beBytes w) s)
    (hkey : arsGetKeywordByName (lit kw) = some k)
    (hset : ∀ libc l v, k.kiSet libc l (lit name) v = s libc v l)
    (hfit : ∀ off ∈ o, off + w ≤ newSize k := by rintro _ ⟨⟩ <;> decide)
    (hnet : (kw, name) ∉ hostFields := by decide) : HasSetter ⟨kw, name, o, w⟩ := by
  have hstored : NumField.stored ⟨kw, name, o, w⟩ = beBytes w := funext fun _ => if_neg hnet
  exact ⟨k, s, hkey, hset, hfit, by rwa [hstored]⟩

theorem HasSetter.of_host (hs : Stores (newSize k) o putLe16 s)
    (hkey : arsGetKeywordByName (lit kw) = some k)
    (hset : ∀ libc l v, k.kiSet libc l (lit name) v = s libc v l)
    (hfit : ∀ off ∈ o, off + 2 ≤ newSize k := by rintro _ ⟨⟩ <;> decide)
    (hhost : (kw, name) ∈ hostFields := by decide) : HasSetter ⟨kw, name, o, 2⟩ := by
  have hstored : NumField.stored ⟨kw, name, o, 2⟩ = putLe16 := funext fun _ => if_pos hhost
  exact ⟨k, s, hkey, hset, hfit, by rwa [hstored]⟩

end Table

/-- **Every number has a setter** that stores it where it should be. -/
theorem hasSetter {f : NumField} (hf : f ∈ numFields) : HasSetter f := by
  simp only [numFields, List.mem_cons, List.not_mem_nil, or_false] at hf
  rcases hf with rfl | rfl | rfl | rfl | rfl | rfl | rfl | rfl | rfl | rfl | rfl | rfl | rfl |
    rfl | rfl | rfl | rfl | rfl | rfl | rfl | rfl | rfl | rfl | rfl | rfl | rfl | rfl | rfl |
    rfl | rfl | rfl | rfl | rfl | rfl | rfl | rfl | rfl | rfl | rfl | rfl | rfl | rfl | rfl |
    rfl | rfl | rfl | rfl | rfl | rfl
  · exact .of_net ((stores_setNet16 (by decide)).taking _) rfl (fun _ _ _ => rfl)
  · exact .of_net (stores_setNet16 (by decide)) rfl (fun _ _ _ => rfl)
  · exact .of_net ((stores_setNet16 (by decide)).taking _) rfl (fun _ _ _ => rfl)
  · exact .of_host (stores_setHost16 (by decide)) rfl (fun _ _ _ => rfl)
  · exact .of_host (stores_setHost16 (by decide)) rfl (fun _ _ _ => rfl)
  · exact .of_host (stores_setHost16 (by decide)) rfl (fun _ _ _ => rfl)
  · exact .of_net (stores_setNet16 (by decide)) rfl (fun _ _ _ => rfl)
  · exact .of_net (stores_setNet16 (by decide)) rfl (fun _ _ _ => rfl)
  · exact .of_net ((stores_setNet16 (by decide)).taking _) rfl (fun _ _ _ => rfl)
  · exact .of_net ((stores_setNet16 (by decide)).taking _) rfl (fun _ _ _ => rfl)
  · exact .of_net (stores_setNet16 (by decide)) rfl (fun _ _ _ => rfl)
  · exact .of_net (stores_setNet16 (by decide)) rfl (fun _ _ _ => rfl)
  · exact .of_net (stores_setNet32 (by decide)) rfl (fun _ _ _ => rfl)
  · exact .of_net (stores_setNet32 (by decide)) rfl (fun _ _ _ => rfl)
  · exact .of_net (stores_setNet16 (by decide)) rfl (fun _ _ _ => rfl)
  · exact .of_net ((stores_setNet16 (by decide)).taking _) rfl (fun _ _ _ => rfl)
  · exact .of_net (stores_setNet16 (by decide)) rfl (fun _ _ _ => rfl)
  · exact .of_net (stores_setNet16 (by decide)) rfl (fun _ _ _ => rfl)
  · exact .of_net (stores_setNet32 (by decide)) rfl (fun _ _ _ => rfl)
  · exact .of_net (stores_setNet32 (by decide)) rfl (fun _ _ _ => rfl)
  · exact .of_net (stores_setNet32 (by decide)) rfl (fun _ _ _ => rfl)
  · exact .of_net (stores_setNet32 (by decide)) rfl (fun _ _ _ => rfl)
  · exact .of_net (stores_setNet32 (by decide)) rfl (fun _ _ _ => rfl)
  · exact .of_net (stores_setNet32 (by decide)) rfl (fun _ _ _ => rfl)
  · exact .of_net (stores_setNet32 (by decide)) rfl (fun _ _ _ => rfl)
  · exact .of_net (stores_setNet32 (by decide)) rfl (fun _ _ _ => rfl)
  · exact .of_net (stores_setNet32 (by decide)) rfl (fun _ _ _ => rfl)
  · exact .of_net (stores_setNet32 (by decide)) rfl (fun _ _ _ => rfl)
  · exact .of_net (stores_setNet32 (by decide)) rfl (fun _ _ _ => rfl)
  · exact .of_net ((stores_setNet16 (by decide)).taking _) rfl (fun _ _ _ => rfl)
  · exact .of_net (stores_setNet16 (by decide)) rfl (fun _ _ _ => rfl)
  · exact .of_net (stores_setNet16 (by decide)) rfl (fun _ _ _ => rfl)
  · exact .of_net (stores_setNet32 (by decide)) rfl (fun _ _ _ => rfl)
  · exact .of_net ((stores_setNet16 (by decide)).taking _) rfl (fun _ _ _ => rfl)
  · exact .of_net ((stores_setNet16 (by decide)).taking _) rfl (fun _ _ _ => rfl)
  · exact .of_net (stores_setNet16 (by decide)) rfl (fun _ _ _ => rfl)
  · exact .of_net (stores_setNet16 (by decide)) rfl (fun _ _ _ => rfl)
  · exact .of_net (stores_setNet32 (by decide)) rfl (fun _ _ _ => rfl)
  · exact .of_net ((stores_setNet16 (by decide)).taking _) rfl (fun _ _ _ => rfl)
  · exact .of_net (stores_setNet16 (by decide)) rfl (fun _ _ _ => rfl)
  · exact .of_net (stores_setNet16 (by decide)) rfl (fun _ _ _ => rfl)
  · exact .of_net (stores_setNet16 (by decide)) rfl (fun _ _ _ => rfl)
  · exact .of_net (stores_setNet16 (by decide)) rfl (fun _ _ _ => rfl)
  · exact .of_net (stores_setNet24 (by decide)) rfl (fun _ _ _ => rfl)
  · exact .of_net (stores_setNet24 (by decide)) rfl (fun _ _ _ => rfl)
  · exact .of_net (stores_setNet16 (by decide)) rfl (fun _ _ _ => rfl)
  · exact .of_net (stores_pushing32) rfl (fun _ _ _ => rfl)
  · exact .of_net (stores_pushing24) rfl (fun _ _ _ => rfl)
  · exact .of_net (stores_pushing16) rfl (fun _ _ _ => rfl)

/-! ### Numbers that are stored -/

variable {libc : Libc}

namespace NumField

variable {f : NumField}

theorem width_of_mem (hf : f ∈ numFields) : f.width = 2 ∨ f.width = 3 ∨ f.width = 4 := by
  have hall : ∀ g ∈ numFields, g.width = 2 ∨ g.width = 3 ∨ g.width = 4 := by decide
  exact hall f hf

theorem width_of_host (hf : f ∈ numFields) (hhost : (f.kw, f.name) ∈ hostFields) :
    f.width = 2 := by
  have hall : ∀ g ∈ numFields, (g.kw, g.name) ∈ hostFields → g.width = 2 := by decide
  exact hall f hf hhost

theorem isWord_of_mem (hf : f ∈ numFields) : IsWord (lit f.kw) ∧ IsWord (lit f.name) := by
  have hall : ∀ g ∈ numFields, IsWord (lit g.kw) ∧ IsWord (lit g.name) := by decide
  exact hall f hf

theorem length_stored (hf : f ∈ numFields) (x : ℕ) : (f.stored x).length = f.width := by
  rw [stored]
  split_ifs with hhost
  · rw [width_of_host hf hhost]
    rfl
  · exact length_beBytes _ _

/-- **The bytes are the right ones** if the number is one that is read, or ends like the largest
one, and if its bytes may be swapped where they are. -/
theorem stored_eq_iff (hf : f ∈ numFields) (v : ℕ) :
    f.stored (min v (2 ^ 64 - 1)) = beBytes f.width v ↔
      (v < 2 ^ 64 ∨ v % 256 ^ f.width = 256 ^ f.width - 1) ∧
        ((f.kw, f.name) ∈ hostFields → v / 256 % 256 = v % 256) := by
  rw [stored]
  split_ifs with hhost
  · rw [width_of_host hf hhost, beBytes_two, putLe16, putBe16, List.cons.injEq, List.cons.injEq,
      ← UInt8.toNat_inj, ← UInt8.toNat_inj]
    simp only [UInt8.toNat_ofNat', hhost, true_imp_iff, and_true]
    have hsplit : v % 256 ^ 2 = v / 256 % 256 * 256 + v % 256 := by omega
    rw [hsplit]
    rcases Nat.lt_or_ge v (2 ^ 64) with hlt | hge
    · rw [Nat.min_eq_left (by omega)]
      omega
    · rw [Nat.min_eq_right (by omega)]
      omega
  · simp only [hhost, false_imp_iff, and_true]
    rw [beBytes_eq_iff]
    obtain hw | hw | hw := width_of_mem hf
    · rw [hw]
      omega
    · rw [hw]
      omega
    · rw [hw]
      omega

/-- A place in the layer holds one number. -/
theorem store_inj {src src' d : List UInt8} (hlen : src.length = src'.length)
    (hfit : ∀ off ∈ f.off, off + src.length ≤ d.length) :
    f.store src d = f.store src' d ↔ src = src' := by
  rw [store, store]
  cases hoff : f.off with
  | none => exact List.append_cancel_left_eq d src src' ▸ Iff.rfl
  | some off =>
    have hle := hfit off hoff
    dsimp only [Option.elim_some]
    rw [writeAt_eq hle, writeAt_eq (hlen ▸ hle), List.append_assoc, List.append_assoc]
    constructor
    · intro h
      exact (List.append_inj (List.append_cancel_left h) hlen).1
    · rintro rfl
      rfl

end NumField

/-- **The bytes of a number are in network order**, and nothing else of the layer is changed, if
and only if the numeral is no longer than a token and its number no larger than those that are
read, or the bytes come out right all the same; and, for the fields that are stored as they lie in
memory, if their two bytes are equal. -/
theorem bigEndian_iff {f : NumField} (hf : f ∈ numFields) {fs : List DField}
    (hfs : ∀ g ∈ fs, g.Wf) {pkt : ArsPacket} {l : ArsLayer}
    (hbuild : arsDBuild libc arsInit (descText [⟨f.kw, fs⟩]) = .ok pkt) (hl : pkt.pLayer = [l])
    {v : ℕ} {t : List UInt8} (ht : Numeral v t) :
    (∃ pkt' l', arsDBuild libc arsInit (descText [⟨f.kw, fs ++ [⟨f.name, t⟩]⟩]) = .ok pkt' ∧
        pkt'.pLayer = [l'] ∧ l'.bytes = f.store (beBytes f.width v) l.bytes) ↔
      t.length < arsMaxTsize ∧
        (v < 2 ^ 64 ∨ v % 256 ^ f.width = 256 ^ f.width - 1) ∧
          ((f.kw, f.name) ∈ hostFields → v / 256 % 256 = v % 256) := by
  obtain ⟨hkw, hname⟩ := NumField.isWord_of_mem hf
  obtain ⟨k, s, hset⟩ := hasSetter hf
  have hk : k ∈ arsDkinfo := List.mem_of_find?_eq_some hset.key
  obtain ⟨new, hadd⟩ := exists_addsLayer hk
  have hfields : setFields libc k fs new = .ok l :=
    (arsDBuild_single_iff (d := ⟨f.kw, fs⟩) ⟨hkw, hfs⟩ hset.key hadd).mp ⟨pkt, hbuild, hl⟩
  have hroom := room_of_setFields hk hadd hfields
  -- what the setter makes of the layer
  obtain ⟨l₁, hl₁, hbytes⟩ := hset.stores libc t l hroom
  have hall : setFields libc k (fs ++ [⟨f.name, t⟩]) new = .ok l₁ := by
    rw [setFields_append, hfields, bind_ok,
      setFields_single s (fun l => hset.set libc l t), hl₁]
  have hbytes_iff : l₁.bytes = f.store (beBytes f.width v) l.bytes ↔
      (v < 2 ^ 64 ∨ v % 256 ^ f.width = 256 ^ f.width - 1) ∧
        ((f.kw, f.name) ∈ hostFields → v / 256 % 256 = v % 256) := by
    have hlen := NumField.length_stored hf (arsAtou t)
    have hinj := @NumField.store_inj f (f.stored (arsAtou t)) (beBytes f.width v) l.bytes
      (by rw [hlen, length_beBytes]) fun off hoff => by
        rw [hlen, ArsLayer.length_bytes]
        exact (hset.fit off hoff).trans hroom.2
    have hnum : arsAtou t = min v (2 ^ 64 - 1) := strtoul_numeral ht
    rw [← NumField.stored_eq_iff hf v, ← hnum, ← hinj, hbytes]
    rfl
  have hdelim : ∀ c ∈ t, isDelim c = false := fun c hc => isDelim_of_digitVal (ht.digitVal_lt c hc)
  by_cases hshort : t.length < arsMaxTsize
  · have hword : IsWord t := by
      obtain ⟨c, s, rfl, -⟩ := ht.exists_cons
      exact ⟨List.cons_ne_nil c s, hdelim, hshort⟩
    have hwf : LayerDesc.Wf ⟨f.kw, fs ++ [⟨f.name, t⟩]⟩ := by
      refine ⟨hkw, fun g hg => ?_⟩
      rcases List.mem_append.mp hg with hg | hg
      · exact hfs g hg
      · rw [List.mem_singleton.mp hg]
        exact ⟨hname, hword⟩
    have hone : ∀ l', (∃ pkt', arsDBuild libc arsInit
        (descText [⟨f.kw, fs ++ [⟨f.name, t⟩]⟩]) = .ok pkt' ∧ pkt'.pLayer = [l']) ↔ l₁ = l' := by
      intro l'
      rw [arsDBuild_single_iff hwf hset.key hadd, hall, Except.ok.injEq]
    rw [← hbytes_iff]
    constructor
    · rintro ⟨pkt', l', hbuild', hl', hbytes'⟩
      obtain rfl := (hone l').mp ⟨pkt', hbuild', hl'⟩
      exact ⟨hshort, hbytes'⟩
    · rintro ⟨-, hbytes'⟩
      obtain ⟨pkt', hbuild', hl'⟩ := (hone l₁).mpr rfl
      exact ⟨pkt', l₁, hbuild', hl', hbytes'⟩
  · refine iff_of_false ?_ fun h => hshort h.1
    rintro ⟨pkt', l', hbuild', -⟩
    obtain ⟨e, he⟩ := @arsDBuild_of_not_isWord libc [] (fun d hd => absurd hd List.not_mem_nil)
      (by decide) f.kw hkw fs hfs f.name hname t hdelim (fun hw => hshort hw.length_lt) []
      (fun g hg => absurd hg List.not_mem_nil) []
    rw [List.nil_append] at he
    cases he.symm.trans hbuild'

/-- A sequence number in hexadecimal, behind a port. -/
theorem bigEndian_iff_seq :
    ∃ pkt l pkt' l', arsDBuild numericLibc arsInit (descText [⟨"tcp", [⟨"sport", lit "80"⟩]⟩]) =
        .ok pkt ∧ pkt.pLayer = [l] ∧
      arsDBuild numericLibc arsInit
        (descText [⟨"tcp", [⟨"sport", lit "80"⟩, ⟨"seq", lit "0x1020304"⟩]⟩]) = .ok pkt' ∧
      pkt'.pLayer = [l'] ∧ l'.bytes = writeAt l.bytes 4 [1, 2, 3, 4] := by
  have hf : ⟨"tcp", "seq", some 4, 4⟩ ∈ numFields := by decide
  have hfs : ∀ g ∈ [DField.mk "sport" (lit "80")], g.Wf := by
    intro g hg
    rw [List.mem_singleton.mp hg]
    exact ⟨by decide, by decide⟩
  have hspells : Spells 16 16909060 (lit "1020304") := .of_all (by decide) (by decide) (by decide)
  have hnum : Numeral 16909060 (lit "0x1020304") := .hex (Or.inl rfl) hspells
  obtain ⟨pkt, l, hbuild, hl⟩ : ∃ pkt l, arsDBuild numericLibc arsInit
      (descText [⟨"tcp", [⟨"sport", lit "80"⟩]⟩]) = .ok pkt ∧ pkt.pLayer = [l] := ⟨_, _, rfl, rfl⟩
  obtain ⟨pkt', l', hbuild', hl', hbytes⟩ := (bigEndian_iff hf hfs hbuild hl hnum).mpr
    ⟨by decide, Or.inl (by decide), fun h => absurd h (by decide)⟩
  exact ⟨pkt, l, pkt', l', hbuild, hl, hbuild', hl', hbytes.trans rfl⟩

/-- The number 1 of a stream identifier is stored as 256. -/
theorem sid_swapped :
    ∃ pkt l pkt' l', arsDBuild numericLibc arsInit (descText [⟨"ip.sid", []⟩]) = .ok pkt ∧
      pkt.pLayer = [l] ∧
      arsDBuild numericLibc arsInit (descText [⟨"ip.sid", [⟨"sid", lit "1"⟩]⟩]) = .ok pkt' ∧
      pkt'.pLayer = [l'] ∧ l'.bytes = writeAt l.bytes 2 [1, 0] ∧
      l'.bytes ≠ writeAt l.bytes 2 (beBytes 2 1) :=
  ⟨_, _, _, _, rfl, rfl, rfl, rfl, rfl, by decide⟩

end StyxWire
