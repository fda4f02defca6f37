import StyxWire.Lib.Inventory
import Mathlib.Data.List.GetD

/-!
# The capture handles of the scripts

The commands `hping recv`, `hping setfilter` and `hping event` open an interface when it is first
named, and keep the handle in a table (`HpingRecvGetHandler`, `script.c`). When the table is full
the last entry makes room. An entry may have a script, which the event loop runs when the
descriptor of the handle is readable.

What a script sees of the table is a list of names with scripts (`StyxWire.Script.Entry`): it keeps
what is there, and loses the last entry when it is full. The table computes this
(`StyxWire.Script.commands_track`), and all the time each handle that is open is in one entry, the
descriptors with a file handler are those of the entries with a script, and point to them, and the
references to scripts are those of the entries.

An entry without a name is free. So a name has to be one, and it has to fit into its field, or it
is not found again.
-/

namespace StyxWire.Script

/-! ### The table -/

/-- `HPING_IFNAME_LEN`. -/
def hpingIfnameLen : ℕ := 24

/-- `recv_handler`. A script is the number of an object. -/
structure RecvHandler where
  /-- Whether `rh_interp` is set. -/
  interp : Bool
  handlerscript : Option ℕ
  ifname : List UInt8
  linkhdrsize : ℤ
  /-- The descriptor of the handle. -/
  pcapfp : Option ℕ

/-- `recv_handlers`, with what the entries have from outside. -/
structure RecvHandlers where
  ra : List RecvHandler
  captures : Inventory ℕ
  /-- The file handlers of the event loop, each with the entry that it is given. -/
  fileHandlers : ℕ → Option ℕ
  /-- How many references to an object there are more than in the beginning. -/
  refs : ℕ → ℤ

/-- An entry after `memset`. -/
def RecvHandler.zero : RecvHandler := ⟨false, none, [], 0, none⟩

namespace RecvHandlers

/-- An entry. -/
def entry (w : RecvHandlers) (i : ℕ) : RecvHandler := w.ra.getD i .zero

/-- `Tcl_DecrRefCount`. -/
def decrRefCount (w : RecvHandlers) : Option ℕ → RecvHandlers
  | some obj => { w with refs := Function.update w.refs obj (w.refs obj - 1) }
  | none => w

/-- `Tcl_IncrRefCount`. -/
def incrRefCount (w : RecvHandlers) (obj : ℕ) : RecvHandlers :=
  { w with refs := Function.update w.refs obj (w.refs obj + 1) }

/-- `Tcl_CreateFileHandler`, or `Tcl_DeleteFileHandler`. -/
def setFileHandler (w : RecvHandlers) (fd : ℕ) (i : Option ℕ) : RecvHandlers :=
  { w with fileHandlers := Function.update w.fileHandlers fd i }

/-- `HpingRecvCloseHandler`. A handle that is not there is a fault. -/
def closeHandler (w : RecvHandlers) (i : ℕ) : RecvHandlers :=
  let s := w.entry i
  match s.pcapfp with
  | none => { w with captures := { w.captures with faults := w.captures.faults + 1 } }
  | some fd =>
    let script := if s.interp then none else s.handlerscript
    let w := if s.interp then (w.setFileHandler fd none).decrRefCount s.handlerscript else w
    { w with
      ra := w.ra.set i ⟨false, script, [], s.linkhdrsize, none⟩
      captures := w.captures.drop fd }

/-- The entry is given to an interface, if it can be opened: `pcap_open_live`, and the size of the
header of the link. -/
def openHandler (w : RecvHandlers) (i : ℕ) (ifname : List UInt8) (opens : Option ℤ) :
    Option ℕ × RecvHandlers :=
  let s := w.entry i
  match opens with
  | none => (none, { w with ra := w.ra.set i { s with pcapfp := none } })
  | some linkhdrsize =>
    let fd := w.captures.least id Function.injective_id
    (some i, { w with
      ra := w.ra.set i { s with
        interp := false
        ifname := ifname.take (hpingIfnameLen - 1)
        linkhdrsize := linkhdrsize
        pcapfp := some fd }
      captures := w.captures.take fd })

/-- Where the search ends. -/
def search (ra : List RecvHandler) (ifname : List UInt8) : ℕ :=
  ra.findIdx fun s => s.ifname = [] ∨ s.ifname = ifname

/-- `HpingRecvGetHandler`. -/
def getHandler (w : RecvHandlers) (ifname : List UInt8) (opens : Option ℤ) :
    Option ℕ × RecvHandlers :=
  let i := search w.ra ifname
  if i < w.ra.length ∧ (w.entry i).ifname ≠ [] then (some i, w)
  else if i = w.ra.length then (w.closeHandler (i - 1)).openHandler (i - 1) ifname opens
  else w.openHandler i ifname opens

end RecvHandlers

/-! ### The commands -/

/-- The commands, with the name of an interface, and whether it can be opened. -/
inductive RecvCommand
  /-- `hping recv` and `hping setfilter`, up to the handle. -/
  | use (ifname : List UInt8) (opens : Option ℤ)
  /-- `hping event ifname`. -/
  | event (ifname : List UInt8) (opens : Option ℤ)
  /-- `hping event ifname script`, with whether the script is empty. -/
  | setEvent (ifname : List UInt8) (opens : Option ℤ) (script : ℕ) (isEmpty : Bool)

def RecvCommand.ifname : RecvCommand → List UInt8
  | .use ifname _ => ifname
  | .event ifname _ => ifname
  | .setEvent ifname _ _ _ => ifname

/-- The script of an entry, of which `HpingEventCmd` says what it is. -/
def RecvHandlers.setScript (w : RecvHandlers) (i script : ℕ) (isEmpty : Bool) : RecvHandlers :=
  let s := w.entry i
  let w := if s.interp then w.decrRefCount s.handlerscript else w
  let s := if s.interp then { s with handlerscript := none } else s
  if ¬isEmpty then
    let w := w.incrRefCount script
    let w := { w with ra := w.ra.set i { s with handlerscript := some script, interp := true } }
    match s.pcapfp with
    | some fd => w.setFileHandler fd (some i)
    | none => w
  else
    let w :=
      if s.interp then
        match s.pcapfp with
        | some fd => w.setFileHandler fd none
        | none => w
      else w
    { w with ra := w.ra.set i { s with interp := false } }

/-- A command, with its result: `none` for an error, else the script if there is one to give
back. -/
def RecvCommand.exec (w : RecvHandlers) : RecvCommand → Option (Option ℕ) × RecvHandlers
  | .use ifname opens =>
    let (i, w) := w.getHandler ifname opens
    (i.map fun _ => none, w)
  | .event ifname opens =>
    let (i, w) := w.getHandler ifname opens
    (i.map fun i => if (w.entry i).interp then (w.entry i).handlerscript else none, w)
  | .setEvent ifname opens script isEmpty =>
    match w.getHandler ifname opens with
    | (none, w) => (none, w)
    | (some i, w) => (some none, w.setScript i script isEmpty)

/-! ### What a script sees -/

/-- An interface that is open, and its script. -/
structure Entry where
  ifname : List UInt8
  script : Option ℕ

/-- An interface is looked for, and opened if it is not there. The last entry makes room. -/
def getEntry (len : ℕ) (c : List Entry) (ifname : List UInt8) (opens : Bool) :
    Option ℕ × List Entry :=
  let i := c.findIdx fun e => e.ifname = ifname
  if i < c.length then (some i, c)
  else
    let c := if c.length = len then c.dropLast else c
    if opens then (some c.length, c ++ [⟨ifname, none⟩]) else (none, c)

/-- What a command does with the entries. -/
def RecvCommand.see (len : ℕ) (es : List Entry) : RecvCommand → Option (Option ℕ) × List Entry
  | .use ifname opens =>
    let (i, es) := getEntry len es ifname opens.isSome
    (i.map fun _ => none, es)
  | .event ifname opens =>
    let (i, es) := getEntry len es ifname opens.isSome
    (i.map fun i => es[i]?.bind (·.script), es)
  | .setEvent ifname opens script isEmpty =>
    match getEntry len es ifname opens.isSome with
    | (none, es) => (none, es)
    | (some i, es) =>
      (some none, es.modify i fun e => { e with script := if isEmpty then none else some script })

/-- The results of commands, one after the other, and what is there behind the last one. -/
def results {σ ω : Type*} (exec : σ → RecvCommand → ω × σ) :
    σ → List RecvCommand → List ω × σ
  | s, [] => ([], s)
  | s, c :: cs =>
    let (out, s) := exec s c
    let (outs, s) := results exec s cs
    (out :: outs, s)

/-! ### The table and what is seen of it -/

/-- An entry that is in use. -/
structure Occupied where
  ifname : List UInt8
  script : Option ℕ
  linkhdrsize : ℤ
  fd : ℕ

def Occupied.handler (o : Occupied) : RecvHandler :=
  ⟨o.script.isSome, o.script, o.ifname, o.linkhdrsize, some o.fd⟩

def Occupied.entry (o : Occupied) : Entry := ⟨o.ifname, o.script⟩

/-- An entry that is not in use. -/
structure RecvHandler.IsFree (s : RecvHandler) : Prop where
  interp : s.interp = false
  handlerscript : s.handlerscript = none
  ifname : s.ifname = []
  pcapfp : s.pcapfp = none

/-- A name that can be stored. -/
def Fits (ifname : List UInt8) : Prop := ifname ≠ [] ∧ ifname.length < hpingIfnameLen

/-- The descriptor has a file handler that is given the entry. -/
def Handled (os : List Occupied) (fd i : ℕ) : Prop :=
  ∃ o, os[i]? = some o ∧ o.fd = fd ∧ o.script.isSome

/-- The entries in use come first, their names are distinct, and what they have from outside is all
there is. -/
structure Tracks (l₀ : Inventory ℕ) (len : ℕ) (os : List Occupied) (w : RecvHandlers) : Prop where
  length : w.ra.length = len
  ra : ∃ free, w.ra = os.map Occupied.handler ++ free ∧ ∀ s ∈ free, s.IsFree
  names : (os.map Occupied.ifname).Nodup
  fits : ∀ o ∈ os, Fits o.ifname
  captures : l₀.Holds w.captures (os.map Occupied.fd : List ℕ)
  fileHandlers : ∀ fd i, w.fileHandlers fd = some i ↔ Handled os fd i
  refs : ∀ x, w.refs x = (os.countP fun o => o.script = some x : ℤ)

variable {l₀ : Inventory ℕ} {len : ℕ} {os os' : List Occupied} {o : Occupied} {w : RecvHandlers}
  {ifname : List UInt8}

theorem Tracks.entry_of_lt (h : Tracks l₀ len os w) {i : ℕ} (hi : i < os.length) :
    w.entry i = os[i].handler := by
  obtain ⟨free, hra, -⟩ := h.ra
  rw [RecvHandlers.entry, hra, List.getD_append _ _ _ _ (by rwa [List.length_map]),
    List.getD_eq_getElem _ _ (by rwa [List.length_map]), List.getElem_map]

theorem Tracks.entry_length (h : Tracks l₀ len os w) (hlen : os.length < len) :
    (w.entry os.length).IsFree := by
  obtain ⟨free, hra, hfree⟩ := h.ra
  have hlength := h.length
  rw [hra, List.length_append, List.length_map] at hlength
  have hpos : 0 < free.length := by omega
  rw [RecvHandlers.entry, hra, List.getD_append_right _ _ _ _ (by rw [List.length_map]),
    List.length_map, Nat.sub_self, List.getD_eq_getElem _ _ hpos]
  exact hfree _ (List.getElem_mem hpos)

/-- **Where the search ends**: at the entry with the name, or behind the entries in use. -/
theorem Tracks.search_eq (h : Tracks l₀ len os w) (ifname : List UInt8) :
    RecvHandlers.search w.ra ifname = os.findIdx fun o => o.ifname = ifname := by
  obtain ⟨free, hra, hfree⟩ := h.ra
  have hfits := h.fits
  rw [hra]
  clear hra h
  induction os with
  | nil =>
    cases free with
    | nil => rfl
    | cons s free =>
      rw [List.map_nil, List.nil_append, RecvHandlers.search, List.findIdx_cons,
        (hfree s List.mem_cons_self).ifname]
      rfl
  | cons o os ih =>
    have hname : o.ifname ≠ [] := (hfits o List.mem_cons_self).1
    rw [RecvHandlers.search] at ih ⊢
    rw [List.map_cons, List.cons_append, List.findIdx_cons, List.findIdx_cons,
      ih fun o' ho' => hfits o' (List.mem_cons_of_mem o ho')]
    simp only [Occupied.handler, hname, false_or]

theorem Tracks.length_le (h : Tracks l₀ len os w) : os.length ≤ len := by
  obtain ⟨free, hra, -⟩ := h.ra
  rw [← h.length, hra, List.length_append, List.length_map]
  exact Nat.le_add_right _ _

/-! ### What the entries have from outside -/

variable {front back : List Occupied} {o' : Occupied} {fd i : ℕ}

theorem handled_self (h : ((front ++ o :: back).map Occupied.fd).Nodup) :
    Handled (front ++ o :: back) o.fd i ↔ i = front.length ∧ o.script.isSome := by
  constructor
  · rintro ⟨o', ho', hfd, hscript⟩
    obtain ⟨hi, hget⟩ := List.getElem?_eq_some_iff.mp ho'
    have hlen : front.length < (front ++ o :: back).length := by simp
    have hmid : (front ++ o :: back)[front.length] = o := by simp
    have hindex : i = front.length := by
      refine (@List.Nodup.getElem_inj_iff _ _ h i (by rwa [List.length_map]) front.length
        (by rwa [List.length_map])).mp ?_
      rw [List.getElem_map, List.getElem_map, hget, hmid, hfd]
    subst hindex
    rw [hmid] at hget
    exact ⟨rfl, hget ▸ hscript⟩
  · rintro ⟨rfl, hscript⟩
    exact ⟨o, by simp, rfl, hscript⟩

theorem handled_other (hfd : fd ≠ o.fd) :
    Handled (front ++ o :: back) fd i ↔
      i ≠ front.length ∧ Handled (front ++ o :: back) fd i := by
  refine ⟨fun h => ⟨?_, h⟩, fun h => h.2⟩
  rintro rfl
  obtain ⟨o', ho', hfd', -⟩ := h
  rw [List.getElem?_append_right le_rfl, Nat.sub_self, List.getElem?_cons_zero,
    Option.some.injEq] at ho'
  exact hfd (ho' ▸ hfd'.symm)

theorem handled_congr (hi : i ≠ front.length) :
    Handled (front ++ o :: back) fd i ↔ Handled (front ++ o' :: back) fd i := by
  have hget : (front ++ o :: back)[i]? = (front ++ o' :: back)[i]? := by
    rcases Nat.lt_or_gt_of_ne hi with hlt | hgt
    · rw [List.getElem?_append_left hlt, List.getElem?_append_left hlt]
    · rw [List.getElem?_append_right hgt.le, List.getElem?_append_right hgt.le]
      obtain ⟨k, hk⟩ : ∃ k, i - front.length = k + 1 := ⟨i - front.length - 1, by omega⟩
      rw [hk, List.getElem?_cons_succ, List.getElem?_cons_succ]
  rw [Handled, hget, Handled]

/-- Without the last entry. -/
theorem handled_append_iff (h : ((os ++ [o]).map Occupied.fd).Nodup) :
    Handled os fd i ↔ fd ≠ o.fd ∧ Handled (os ++ [o]) fd i := by
  constructor
  · rintro ⟨o', ho', hfd, hscript⟩
    have hi : i < os.length := (List.getElem?_eq_some_iff.mp ho').1
    refine ⟨?_, o', by rwa [List.getElem?_append_left hi], hfd, hscript⟩
    rintro rfl
    rw [List.map_append] at h
    refine (List.nodup_append.mp h).2.2 o'.fd (List.mem_map_of_mem (List.mem_of_getElem? ho'))
      o.fd (List.mem_singleton_self _) hfd
  · rintro ⟨hfd, hhandled⟩
    obtain ⟨hi, o', ho', hrest⟩ := (handled_other hfd).mp hhandled
    have hlt : i < os.length := by
      have hbound := (List.getElem?_eq_some_iff.mp ho').1
      rw [List.length_append, List.length_singleton] at hbound
      omega
    rw [List.getElem?_append_left hlt] at ho'
    exact ⟨o', ho', hrest⟩

theorem decrRefCount_refs (w : RecvHandlers) (script : Option ℕ) (x : ℕ) :
    (w.decrRefCount script).refs x = w.refs x - if script = some x then 1 else 0 := by
  cases script with
  | none => simp [RecvHandlers.decrRefCount]
  | some obj =>
    change Function.update w.refs obj (w.refs obj - 1) x = _
    rw [Function.update_apply]
    by_cases hx : x = obj
    · subst hx
      rw [if_pos rfl, if_pos rfl]
    · rw [if_neg hx, if_neg fun h => hx (Option.some.inj h).symm, sub_zero]

theorem countP_middle (front back : List Occupied) (o : Occupied) (x : ℕ) :
    ((front ++ o :: back).countP fun o => o.script = some x : ℤ) =
      ((front.countP fun o => o.script = some x) + back.countP fun o => o.script = some x : ℕ) +
        if o.script = some x then 1 else 0 := by
  rw [List.countP_append, List.countP_cons]
  by_cases hx : o.script = some x
  · simp only [hx, decide_true, if_true]
    omega
  · simp only [hx, decide_false, Bool.false_eq_true, if_false]
    omega

theorem closeHandler_eq (hentry : w.entry i = o.handler) :
    w.closeHandler i =
      ⟨w.ra.set i ⟨false, none, [], o.linkhdrsize, none⟩, w.captures.drop o.fd,
        if o.script.isSome then Function.update w.fileHandlers o.fd none else w.fileHandlers,
        (w.decrRefCount o.script).refs⟩ := by
  obtain ⟨ifname, script, linkhdrsize, fd⟩ := o
  rw [RecvHandlers.closeHandler, hentry]
  cases script <;> rfl

theorem setScript_eq (hentry : w.entry i = o.handler) (script : ℕ) (isEmpty : Bool) :
    w.setScript i script isEmpty =
      ⟨w.ra.set i { o with script := if isEmpty then none else some script }.handler, w.captures,
        if isEmpty then
          if o.script.isSome then Function.update w.fileHandlers o.fd none else w.fileHandlers
        else Function.update w.fileHandlers o.fd (some i),
        if isEmpty then (w.decrRefCount o.script).refs
        else ((w.decrRefCount o.script).incrRefCount script).refs⟩ := by
  obtain ⟨ifname, old, linkhdrsize, fd⟩ := o
  rw [RecvHandlers.setScript, hentry]
  cases old <;> cases isEmpty <;> rfl

theorem Tracks.fds_nodup (h : Tracks l₀ len os w) : (os.map Occupied.fd).Nodup :=
  Multiset.coe_nodup.mp h.captures.nodup

theorem coe_map_fd_append (os : List Occupied) (o : Occupied) :
    ((os ++ [o]).map Occupied.fd : Multiset ℕ) = o.fd ::ₘ (os.map Occupied.fd : List ℕ) := by
  rw [List.map_append, Multiset.cons_coe]
  exact Multiset.coe_eq_coe.mpr (List.perm_append_singleton _ _)

/-- The last entry is closed. -/
theorem Tracks.close (h : Tracks l₀ len (os ++ [o]) w) :
    Tracks l₀ len os (w.closeHandler os.length) := by
  have hentry : w.entry os.length = o.handler := by
    rw [h.entry_of_lt (by rw [List.length_append]; exact Nat.lt_succ_self _)]
    simp
  have hnodup := h.fds_nodup
  rw [closeHandler_eq hentry]
  obtain ⟨free, hra, hfree⟩ := h.ra
  refine ⟨?_, ⟨⟨false, none, [], o.linkhdrsize, none⟩ :: free, ?_, ?_⟩, ?_, ?_, ?_, ?_, ?_⟩
  · exact List.length_set.trans h.length
  · change w.ra.set _ _ = _
    rw [hra, List.map_append, List.append_assoc,
      List.set_append_right _ _ (by rw [List.length_map]), List.length_map, Nat.sub_self]
    rfl
  · rintro s hs
    rcases List.mem_cons.mp hs with rfl | hs
    · exact ⟨rfl, rfl, rfl, rfl⟩
    · exact hfree s hs
  · have hnames := h.names
    rw [List.map_append] at hnames
    exact (List.nodup_append.mp hnames).1
  · exact fun o' ho' => h.fits o' (List.mem_append_left _ ho')
  · have hcaptures := h.captures
    rw [coe_map_fd_append] at hcaptures
    exact hcaptures.drop
  · intro fd i
    rw [handled_append_iff hnodup]
    by_cases hfd : fd = o.fd
    · subst hfd
      refine iff_of_false (fun hhandler => ?_) fun hfalse => hfalse.1 rfl
      dsimp only at hhandler
      split_ifs at hhandler with hscript
      · rw [Function.update_self] at hhandler
        nomatch hhandler
      · exact hscript ((handled_self hnodup).mp ((h.fileHandlers _ _).mp hhandler)).2
    · rw [and_iff_right hfd, ← h.fileHandlers]
      dsimp only
      split_ifs
      · rw [Function.update_of_ne hfd]
      · rfl
  · intro x
    change (w.decrRefCount o.script).refs x = _
    rw [decrRefCount_refs, h.refs, countP_middle, List.countP_nil, Nat.add_zero,
      add_sub_cancel_right]

/-- The table where the entries in use end. -/
theorem Tracks.split (h : Tracks l₀ len os w) (hlen : os.length < len) :
    ∃ free, w.ra = os.map Occupied.handler ++ w.entry os.length :: free ∧ ∀ s ∈ free, s.IsFree := by
  obtain ⟨free, hra, hfree⟩ := h.ra
  have hlength := h.length
  rw [hra, List.length_append, List.length_map] at hlength
  cases free with
  | nil =>
    rw [List.length_nil] at hlength
    omega
  | cons s free =>
    refine ⟨free, ?_, fun s' hs' => hfree s' (List.mem_cons_of_mem s hs')⟩
    rw [RecvHandlers.entry, hra, List.getD_append_right _ _ _ _ (by rw [List.length_map]),
      List.length_map, Nat.sub_self]
    rfl

theorem set_split (w : RecvHandlers) {free : List RecvHandler}
    (hra : w.ra = os.map Occupied.handler ++ w.entry os.length :: free) (s : RecvHandler) :
    w.ra.set os.length s = os.map Occupied.handler ++ s :: free := by
  rw [hra, List.set_append_right _ _ (by rw [List.length_map]), List.length_map, Nat.sub_self]
  rfl

/-- The first entry that is free is given to an interface. -/
theorem Tracks.opened (h : Tracks l₀ len os w) (hlen : os.length < len) (hfits : Fits ifname)
    (hnew : ∀ o ∈ os, o.ifname ≠ ifname) (linkhdrsize : ℤ) :
    (w.openHandler os.length ifname (some linkhdrsize)).1 = some os.length ∧
      ∃ fd, Tracks l₀ len (os ++ [⟨ifname, none, linkhdrsize, fd⟩])
        (w.openHandler os.length ifname (some linkhdrsize)).2 := by
  obtain ⟨free, hra, hfree⟩ := h.split hlen
  have hentry := h.entry_length hlen
  have hnotMem : w.captures.least id Function.injective_id ∉ w.captures.opened :=
    Inventory.least_notMem id _ _
  have hcaptures := h.captures.take hnotMem
  refine ⟨rfl, w.captures.least id Function.injective_id, ?_⟩
  generalize hfd : w.captures.least id Function.injective_id = fd at hcaptures
  have hnodup :
      ((os ++ [(⟨ifname, none, linkhdrsize, fd⟩ : Occupied)]).map Occupied.fd).Nodup := by
    refine Multiset.coe_nodup.mp ?_
    rw [coe_map_fd_append]
    exact hcaptures.nodup
  refine ⟨?_, ⟨free, ?_, hfree⟩, ?_, ?_, ?_, ?_, ?_⟩
  · exact List.length_set.trans h.length
  · refine (set_split w hra _).trans ?_
    rw [List.map_append, List.append_assoc]
    refine congrArg (fun s => os.map Occupied.handler ++ s :: free) ?_
    rw [hentry.handlerscript, hfd, List.take_of_length_le (Nat.le_sub_one_of_lt hfits.2)]
    rfl
  · rw [List.map_append]
    refine List.nodup_append.mpr ⟨h.names, List.nodup_singleton _, ?_⟩
    rintro a ha b hb rfl
    obtain ⟨o, ho, hname⟩ := List.mem_map.mp ha
    exact hnew o ho (hname.trans (List.mem_singleton.mp hb))
  · intro o ho
    rcases List.mem_append.mp ho with ho | ho
    · exact h.fits o ho
    · rw [List.mem_singleton.mp ho]
      exact hfits
  · rw [coe_map_fd_append]
    exact hfd ▸ hcaptures
  · intro fd' i
    refine (h.fileHandlers fd' i).trans ?_
    rw [handled_append_iff hnodup]
    refine and_iff_right_of_imp fun hhandled hfd' => ?_
    subst hfd'
    exact Bool.false_ne_true ((handled_self hnodup).mp hhandled).2
  · intro x
    refine (h.refs x).trans ?_
    rw [List.countP_append]
    rfl

theorem Tracks.fail (h : Tracks l₀ len os w) (hlen : os.length < len) (ifname : List UInt8) :
    (w.openHandler os.length ifname none).1 = none ∧
      Tracks l₀ len os (w.openHandler os.length ifname none).2 := by
  obtain ⟨free, hra, hfree⟩ := h.split hlen
  have hentry := h.entry_length hlen
  refine ⟨rfl, ?_, ⟨_, set_split w hra _, ?_⟩, h.names, h.fits, h.captures, h.fileHandlers, h.refs⟩
  · exact List.length_set.trans h.length
  · rintro s hs
    rcases List.mem_cons.mp hs with rfl | hs
    · exact ⟨hentry.interp, hentry.handlerscript, hentry.ifname, rfl⟩
    · exact hfree s hs

/-- An entry gets another script. -/
theorem Tracks.setScript {front back : List Occupied} (h : Tracks l₀ len (front ++ o :: back) w)
    (script : ℕ) (isEmpty : Bool) :
    Tracks l₀ len
      (front ++ { o with script := if isEmpty then none else some script } :: back)
      (w.setScript front.length script isEmpty) := by
  have hentry : w.entry front.length = o.handler := by
    rw [h.entry_of_lt (by simp)]
    simp
  have hnodup := h.fds_nodup
  rw [setScript_eq hentry]
  obtain ⟨free, hra, hfree⟩ := h.ra
  refine ⟨?_, ⟨free, ?_, hfree⟩, ?_, ?_, ?_, ?_, ?_⟩
  · exact List.length_set.trans h.length
  · change w.ra.set _ _ = _
    rw [hra, List.map_append, List.append_assoc,
      List.set_append_right _ _ (by rw [List.length_map]), List.length_map, Nat.sub_self,
      List.map_append, List.append_assoc]
    rfl
  · have hnames := h.names
    rw [List.map_append] at hnames ⊢
    exact hnames
  · intro o' ho'
    rcases List.mem_append.mp ho' with ho' | ho'
    · exact h.fits o' (List.mem_append_left _ ho')
    rcases List.mem_cons.mp ho' with rfl | ho'
    · exact h.fits o (List.mem_append_right _ List.mem_cons_self)
    · exact h.fits o' (List.mem_append_right _ (List.mem_cons_of_mem _ ho'))
  · have hcaptures := h.captures
    rw [List.map_append] at hcaptures ⊢
    exact hcaptures
  · intro fd i
    have hnodup' : ((front ++ { o with script := if isEmpty then none else some script } ::
        back).map Occupied.fd).Nodup := by
      rw [List.map_append] at hnodup ⊢
      exact hnodup
    by_cases hfd : fd = o.fd
    · subst hfd
      refine Iff.trans ?_ (handled_self hnodup').symm
      cases isEmpty with
      | true =>
        refine iff_of_false (fun hhandler => ?_) (fun hfalse => Bool.false_ne_true hfalse.2)
        dsimp only at hhandler
        rw [if_pos rfl] at hhandler
        split_ifs at hhandler with hscript
        · rw [Function.update_self] at hhandler
          nomatch hhandler
        · exact hscript ((handled_self hnodup).mp ((h.fileHandlers _ _).mp hhandler)).2
      | false =>
        dsimp only
        rw [if_neg Bool.false_ne_true, Function.update_self, Option.some.injEq, eq_comm]
        exact (and_iff_left rfl).symm
    · have hsame : Handled (front ++ { o with script := if isEmpty then none else some script } ::
          back) fd i ↔ Handled (front ++ o :: back) fd i := by
        refine (handled_other ?_).trans ((and_congr_right fun hi => handled_congr hi).trans
          (handled_other hfd).symm)
        exact hfd
      rw [hsame, ← h.fileHandlers]
      dsimp only
      split_ifs
      · rw [Function.update_of_ne hfd]
      · rfl
      · rw [Function.update_of_ne hfd]
  · intro x
    rw [countP_middle]
    have hold := h.refs x
    rw [countP_middle] at hold
    have hdecr := decrRefCount_refs w o.script x
    rw [hold, add_sub_cancel_right] at hdecr
    cases isEmpty with
    | true =>
      dsimp only
      rw [if_pos rfl, if_pos rfl, hdecr, if_neg (Option.some_ne_none x).symm, add_zero]
    | false =>
      dsimp only
      rw [if_neg Bool.false_ne_true, if_neg Bool.false_ne_true]
      change Function.update _ script _ x = _
      rw [Function.update_apply]
      by_cases hx : x = script
      · subst hx
        rw [if_pos rfl, if_pos rfl, hdecr]
      · rw [if_neg hx, if_neg fun heq => hx (Option.some.inj heq).symm, hdecr, add_zero]

/-! ### The commands -/

theorem findIdx_entry (os : List Occupied) (ifname : List UInt8) :
    (os.map Occupied.entry).findIdx (fun e => e.ifname = ifname) =
      os.findIdx fun o => o.ifname = ifname :=
  List.findIdx_map os Occupied.entry _

/-- A new entry, if the interface can be opened. -/
theorem Tracks.openHandler (h : Tracks l₀ len os w) (hlen : os.length < len) (hfits : Fits ifname)
    (hnew : ∀ o ∈ os, o.ifname ≠ ifname) (opens : Option ℤ) :
    ∃ os', Tracks l₀ len os' (w.openHandler os.length ifname opens).2 ∧
      (if opens.isSome then (some (os.map Occupied.entry).length,
        os.map Occupied.entry ++ [⟨ifname, none⟩]) else (none, os.map Occupied.entry)) =
        ((w.openHandler os.length ifname opens).1, os'.map Occupied.entry) ∧
      ∀ i, (w.openHandler os.length ifname opens).1 = some i → i < os'.length := by
  cases opens with
  | none =>
    obtain ⟨hnone, htracks⟩ := h.fail hlen ifname
    refine ⟨os, htracks, by rw [hnone]; rfl, fun i hi => ?_⟩
    rw [hnone] at hi
    nomatch hi
  | some linkhdrsize =>
    obtain ⟨hsome, fd, htracks⟩ := h.opened hlen hfits hnew linkhdrsize
    refine ⟨_, htracks, ?_, fun i hi => ?_⟩
    · rw [hsome, List.map_append, List.length_map]
      rfl
    · rw [hsome, Option.some.injEq] at hi
      subst hi
      rw [List.length_append]
      exact Nat.lt_succ_self _

/-- **`HpingRecvGetHandler`** finds the entry, or makes one. -/
theorem Tracks.getHandler (h : Tracks l₀ len os w) (hlen : 0 < len) (hfits : Fits ifname)
    (opens : Option ℤ) :
    ∃ os', Tracks l₀ len os' (w.getHandler ifname opens).2 ∧
      getEntry len (os.map Occupied.entry) ifname opens.isSome =
        ((w.getHandler ifname opens).1, os'.map Occupied.entry) ∧
      ∀ i, (w.getHandler ifname opens).1 = some i → i < os'.length := by
  have hsearch := h.search_eq ifname
  rw [RecvHandlers.getHandler, getEntry, findIdx_entry, hsearch, h.length, List.length_map]
  rcases Nat.lt_or_ge (os.findIdx fun o => o.ifname = ifname) os.length with hlt | hge
  · -- the entry is there
    have hused : (w.entry (os.findIdx fun o => o.ifname = ifname)).ifname ≠ [] := by
      rw [h.entry_of_lt hlt]
      exact (h.fits _ (List.getElem_mem hlt)).1
    dsimp only
    rw [if_pos hlt, if_pos ⟨Nat.lt_of_lt_of_le hlt h.length_le, hused⟩]
    refine ⟨os, h, rfl, fun i hi => ?_⟩
    rw [Option.some.injEq] at hi
    exact hi ▸ hlt
  · have hall : os.findIdx (fun o => o.ifname = ifname) = os.length :=
      Nat.le_antisymm List.findIdx_le_length hge
    have hnew : ∀ o ∈ os, o.ifname ≠ ifname := by
      simpa using List.findIdx_eq_length.mp hall
    rw [hall]
    dsimp only
    rw [if_neg (Nat.lt_irrefl _)]
    rcases Nat.lt_or_ge os.length len with hroom | hfull
    · have hfree := (h.entry_length hroom).ifname
      rw [if_neg fun hcond => hcond.2 hfree, if_neg hroom.ne, if_neg hroom.ne]
      exact h.openHandler hroom hfits hnew opens
    · -- the last entry makes room
      have hlength : os.length = len := Nat.le_antisymm h.length_le hfull
      rw [if_neg fun hcond => hcond.1.ne hlength, if_pos hlength, if_pos hlength]
      rcases List.eq_nil_or_concat' os with rfl | ⟨rest, o, rfl⟩
      · rw [List.length_nil] at hlength
        omega
      · have hpred : (rest ++ [o]).length - 1 = rest.length := by simp
        have hdrop : ((rest ++ [o]).map Occupied.entry).dropLast = rest.map Occupied.entry := by
          rw [List.map_append, List.map_singleton, List.dropLast_concat]
        rw [hpred, hdrop]
        refine h.close.openHandler ?_ hfits (fun o' ho' => hnew o' (List.mem_append_left _ ho'))
          opens
        rw [List.length_append, List.length_singleton] at hlength
        omega

theorem modify_middle {α : Type*} (f : α → α) (front back : List α) (x : α) :
    (front ++ x :: back).modify front.length f = front ++ f x :: back := by
  induction front with
  | nil => rfl
  | cons y front ih => exact congrArg (y :: ·) ih

/-- **A command** does to the entries what is seen of it. -/
theorem Tracks.exec (h : Tracks l₀ len os w) (hlen : 0 < len) {c : RecvCommand}
    (hfits : Fits c.ifname) :
    ∃ os', Tracks l₀ len os' (c.exec w).2 ∧
      c.see len (os.map Occupied.entry) = ((c.exec w).1, os'.map Occupied.entry) := by
  cases c with
  | use ifname opens =>
    change Fits ifname at hfits
    obtain ⟨os', htracks, hget, -⟩ := h.getHandler hlen hfits opens
    refine ⟨os', htracks, ?_⟩
    rw [RecvCommand.see, hget]
    rfl
  | event ifname opens =>
    change Fits ifname at hfits
    obtain ⟨os', htracks, hget, hlt⟩ := h.getHandler hlen hfits opens
    refine ⟨os', htracks, ?_⟩
    rw [RecvCommand.see, hget, RecvCommand.exec]
    dsimp only
    cases hi : (w.getHandler ifname opens).1 with
    | none => rfl
    | some i =>
      have hlt' := hlt i hi
      have hentry := htracks.entry_of_lt hlt'
      rw [Option.map_some, Option.map_some, hentry, List.getElem?_map,
        List.getElem?_eq_getElem hlt']
      cases hscript : os'[i].script <;> simp [Occupied.handler, Occupied.entry, hscript]
  | setEvent ifname opens script isEmpty =>
    change Fits ifname at hfits
    obtain ⟨os', htracks, hget, hlt⟩ := h.getHandler hlen hfits opens
    rw [RecvCommand.see, hget, RecvCommand.exec]
    obtain ⟨result, w', hresult⟩ : ∃ result w', w.getHandler ifname opens = (result, w') :=
      ⟨_, _, rfl⟩
    rw [hresult] at htracks hlt ⊢
    cases result with
    | none => exact ⟨os', htracks, rfl⟩
    | some i =>
      obtain ⟨front, o, back, rfl, rfl⟩ : ∃ front o back, os' = front ++ o :: back ∧
          front.length = i :=
        ⟨os'.take i, os'.get ⟨i, hlt i rfl⟩, os'.drop (i + 1),
          by rw [List.get_eq_getElem, List.cons_getElem_drop_succ, List.take_append_drop],
          List.length_take_of_le (hlt i rfl).le⟩
      refine ⟨_, htracks.setScript script isEmpty, ?_⟩
      dsimp only
      rw [List.map_append, List.map_cons, List.map_append, List.map_cons,
        ← List.length_map (f := Occupied.entry), modify_middle]
      rfl

theorem Tracks.results (h : Tracks l₀ len os w) (hlen : 0 < len) {cs : List RecvCommand}
    (hfits : ∀ c ∈ cs, Fits c.ifname) :
    ∃ os', Tracks l₀ len os' (Script.results RecvCommand.exec w cs).2 ∧
      Script.results (RecvCommand.see len) (os.map Occupied.entry) cs =
        ((Script.results RecvCommand.exec w cs).1, os'.map Occupied.entry) := by
  induction cs generalizing os w with
  | nil => exact ⟨os, h, rfl⟩
  | cons c cs ih =>
    obtain ⟨os', htracks, hsee⟩ := h.exec hlen (hfits c List.mem_cons_self)
    obtain ⟨os'', htracks', hrest⟩ := ih htracks fun c' hc' => hfits c' (List.mem_cons_of_mem c hc')
    refine ⟨os'', htracks', ?_⟩
    rw [Script.results, hsee]
    dsimp only
    rw [hrest, Script.results]

end StyxWire.Script
