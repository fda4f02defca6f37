import StyxWire.Hping.Loop
import StyxWire.Hping.RecordRoute
import StyxWire.Lib.Inventory
import Mathlib.Tactic.Abel

/-!
# What is opened is closed

`hping_init` resolves addresses, looks for an interface, opens the raw socket and the capture
handle and installs the signal handlers; each of these may fail, and then what was opened up to
there is left to `hping_destroy` (`lifecycle.c`). The state is `StyxWire.Hping.Lifecycle`: the
configuration, of which three strings are allocated by `parse_options`, the fields of the context
that the two functions write, and what the system has given to the process.

What the system and the resolver answer is `StyxWire.Hping.Answers`. The system gives out the first
descriptor that is not open.

In a run of options, initialisations and destructions the slots of the context and of the
configuration always name what is open (`StyxWire.Hping.Lifecycle.Accounts`), provided that
`hping_init` is not called again without a `hping_destroy`. So behind a `hping_destroy` nothing is
left, wherever `hping_init` stopped, and nothing was closed twice
(`StyxWire.Hping.Lifecycle.destroyed`). There is one exception: an empty argument of `--scan` is
allocated as any other one, but is taken for the literal that stands there in the beginning, and
is not freed.
-/

namespace StyxWire.Hping

open Text RecordRoute

/-! ### The state -/

/-- What the system gives to a process. -/
inductive Resource
  | descriptor (n : ℕ)
  | capture (n : ℕ)
  | block (n : ℕ)
  deriving DecidableEq

theorem Resource.descriptor_injective : Function.Injective Resource.descriptor :=
  fun _ _ h => Resource.descriptor.inj h

theorem Resource.capture_injective : Function.Injective Resource.capture :=
  fun _ _ h => Resource.capture.inj h

theorem Resource.block_injective : Function.Injective Resource.block :=
  fun _ _ h => Resource.block.inj h

/-- The signals that are handled. -/
inductive Signo
  | sigint
  | sigterm
  | sigtstp
  deriving DecidableEq

/-- What the process has from the system. -/
structure Os where
  inventory : Inventory Resource
  /-- The signals with `on_signal` for handler. -/
  caught : Signo → Bool

/-- A string of the configuration: a block, or a literal. -/
structure HeapString where
  block : Option ℕ
  text : List UInt8

/-- `cfg`. -/
structure LifecycleConfig where
  optListenmode : Bool
  optSafe : Bool
  optRandDest : Bool
  optSign : Bool
  optDryRun : Bool
  ctrlzbind : Ctrlzbind
  initsport : ℤ
  sign : List UInt8
  targetname : List UInt8
  ifname : List UInt8
  spoofaddr : List UInt8
  icmpIpSrcip : List UInt8
  icmpIpDstip : List UInt8
  icmpGwip : List UInt8
  /-- `none` after an allocation that failed. -/
  optScanports : Option HeapString
  apdSend : Option HeapString
  readfile : Option HeapString

/-- `hping_config_init`. -/
def LifecycleConfig.init : LifecycleConfig where
  optListenmode := false
  optSafe := false
  optRandDest := false
  optSign := false
  optDryRun := false
  ctrlzbind := .dport
  initsport := -1
  sign := []
  targetname := []
  ifname := []
  spoofaddr := []
  icmpIpSrcip := []
  icmpIpDstip := []
  icmpGwip := []
  optScanports := some ⟨none, []⟩
  apdSend := none
  readfile := none

/-- The fields of `ctx`. A descriptor is `none` for -1. -/
structure LifecycleContext where
  stopReason : StopReason
  endDeadlineUs : ℤ
  rsign : List UInt8
  remote : List UInt8
  targetstraddr : List UInt8
  ifstraddr : List UInt8
  hIfMtu : ℤ
  sockraw : Option ℕ
  pcapfp : Option ℕ
  pcapFd : ℤ
  pcapPollMs : ℤ
  linkhdrSize : ℕ
  locale : List UInt8
  icmpIpSrc : List UInt8
  icmpIpDst : List UInt8
  icmpGw : List UInt8
  srcPort : ℤ
  /-- `wake_fd[0]`. -/
  wakeRead : Option ℕ
  /-- `wake_fd[1]`. -/
  wakeWrite : Option ℕ
  signalsInstalled : Bool

/-- `hping_context_init`. -/
def LifecycleContext.init : LifecycleContext where
  stopReason := .none
  endDeadlineUs := -1
  rsign := []
  remote := List.replicate 4 0
  targetstraddr := []
  ifstraddr := []
  hIfMtu := 0
  sockraw := none
  pcapfp := none
  pcapFd := -1
  pcapPollMs := 10
  linkhdrSize := 0
  locale := List.replicate 4 0
  icmpIpSrc := List.replicate 4 0
  icmpIpDst := List.replicate 4 0
  icmpGw := List.replicate 4 0
  srcPort := 0
  wakeRead := none
  wakeWrite := none
  signalsInstalled := false

/-- The configuration, the context and the system. -/
structure Lifecycle where
  cfg : LifecycleConfig
  ctx : LifecycleContext
  os : Os

/-- An entry of `SIOCGIFCONF`, with what the other requests about it give. -/
structure Interface where
  name : List UInt8
  /-- `SIOCGIFFLAGS`: whether it is up. -/
  up : Option Bool
  /-- `SIOCGIFADDR`, when it is looked for. -/
  addr : Option (List UInt8)
  /-- `SIOCGIFADDR`, when it is taken. -/
  addrTaken : Option (List UInt8)
  /-- `SIOCGIFMTU`. -/
  mtu : Option ℤ

/-- What is answered from outside: `none` and `false` are for a call that fails. -/
structure Answers where
  resolve : List UInt8 → Option (List UInt8)
  routeSocket : Bool
  routeBroadcast : Bool
  routeConnect : Bool
  routeName : Option (List UInt8)
  ifSocket : Bool
  gifconf : Option (List Interface)
  rawSocket : Bool
  /-- `pcap_open_offline`. -/
  pcapOffline : Bool
  pcapCreate : Bool
  /-- The options of the handle can be set. -/
  pcapConfigure : Bool
  pcapActivate : ℤ
  pcapSetnonblock : Bool
  pcapSelectableFd : ℤ
  /-- `pcap_get_required_select_timeout`, in milliseconds. -/
  pcapTimeout : Option ℤ
  /-- `pcap_datalink`, as `dltype_to_lhs` gives it. -/
  linkhdrSize : Option ℕ
  rand : ℕ
  pipe : Bool
  /-- `sigaction`, when a handler is installed. -/
  sigaction : Signo → Bool

/-! ### The system -/

/-- `socket`, if it does not fail. -/
def Os.socket (os : Os) (ok : Bool) : Option ℕ × Os :=
  if ok then
    let fd := os.inventory.least .descriptor Resource.descriptor_injective
    (some fd, { os with inventory := os.inventory.take (.descriptor fd) })
  else (none, os)

/-- `close`. -/
def Os.close (os : Os) (fd : ℕ) : Os :=
  { os with inventory := os.inventory.drop (.descriptor fd) }

/-- A capture handle. -/
def Os.openCapture (os : Os) (ok : Bool) : Option ℕ × Os :=
  if ok then
    let p := os.inventory.least .capture Resource.capture_injective
    (some p, { os with inventory := os.inventory.take (.capture p) })
  else (none, os)

/-- `pcap_close`. -/
def Os.closeCapture (os : Os) (p : ℕ) : Os :=
  { os with inventory := os.inventory.drop (.capture p) }

/-- `strdup`. -/
def Os.strdup (os : Os) (text : List UInt8) (ok : Bool) : Option HeapString × Os :=
  if ok then
    let p := os.inventory.least .block Resource.block_injective
    (some ⟨some p, text⟩, { os with inventory := os.inventory.take (.block p) })
  else (none, os)

/-- `free`, which leaves a null pointer alone. -/
def Os.free (os : Os) : Option HeapString → Os
  | some ⟨some p, _⟩ => { os with inventory := os.inventory.drop (.block p) }
  | _ => os

/-! ### The interface -/

/-- `get_output_if`: the address that the route begins with, where 0 is none. -/
def getOutputIf (a : Answers) (os : Os) : Option (List UInt8) × Os :=
  match os.socket a.routeSocket with
  | (none, os) => (none, os)
  | (some sockRt, os) =>
    if ¬a.routeBroadcast then (none, os.close sockRt)
    else if ¬a.routeConnect then (none, os.close sockRt)
    else
      match a.routeName with
      | none => (none, os.close sockRt)
      | some ip => (if ip = List.replicate 4 0 then none else some ip, os.close sockRt)

/-- Whether an interface is the one that is looked for: by the address of the route, or by a part
of its name. -/
def Interface.suits (i : Interface) (ifname : List UInt8) (known : Option (List UInt8)) : Bool :=
  match i.up with
  | some true =>
    match known with
    | some outputIfAddr => i.addr = some outputIfAddr
    | none => ifname = [] ∨ ifname <:+: i.name
  | _ => false

/-- `get_if_name`. -/
def getIfName (a : Answers) (s : Lifecycle) : Bool × Lifecycle :=
  let (known, os) := if s.cfg.ifname = [] then getOutputIf a s.os else (none, s.os)
  match os.socket a.ifSocket with
  | (none, os) => (false, { s with os := os })
  | (some fd, os) =>
    let s := { s with os := os.close fd }
    match a.gifconf with
    | none | some [] => (false, s)
    | some ifs =>
      match ifs.find? fun i => i.suits s.cfg.ifname known with
      | none =>
        (true, { s with
          cfg := { s.cfg with ifname := lit "lo" }
          ctx := { s.ctx with ifstraddr := lit "127.0.0.1", hIfMtu := 1500 } })
      | some i =>
        let s := { s with cfg := { s.cfg with ifname := i.name } }
        match i.addrTaken with
        | none => (false, s)
        | some addr =>
          (true, { s with ctx := { s.ctx with
            ifstraddr := inetNtoa addr, hIfMtu := i.mtu.getD 1500 } })

/-! ### The capture handle -/

/-- `pcap_close`, and no handle. -/
def Lifecycle.dropPcap (s : Lifecycle) : Lifecycle :=
  match s.ctx.pcapfp with
  | some p => { s with ctx := { s.ctx with pcapfp := none }, os := s.os.closeCapture p }
  | none => { s with ctx := { s.ctx with pcapfp := none } }

/-- How long the loop waits for a handle without a descriptor. -/
def pcapPollMs (a : Answers) : ℤ :=
  if a.pcapSelectableFd = -1 then
    match a.pcapTimeout with
    | some ms => if ms < 1 then 1 else if 1000 < ms then 1000 else ms
    | none => 10
  else 10

/-- `open_pcap`. -/
def openPcap (a : Answers) (s : Lifecycle) : Bool × Lifecycle :=
  if s.cfg.readfile.isSome then
    let (p, os) := s.os.openCapture a.pcapOffline
    let s := { s with ctx := { s.ctx with pcapfp := p }, os := os }
    if p.isNone then (false, s)
    else (true, { s with ctx := { s.ctx with pcapFd := -1, pcapPollMs := 0 } })
  else
    let (p, os) := s.os.openCapture a.pcapCreate
    let s := { s with ctx := { s.ctx with pcapfp := p }, os := os }
    if p.isNone then (false, s)
    else if ¬a.pcapConfigure then (false, s.dropPcap)
    else if a.pcapActivate < 0 then (false, s.dropPcap)
    else if ¬a.pcapSetnonblock then (false, s.dropPcap)
    else
      (true, { s with ctx := { s.ctx with
        pcapFd := a.pcapSelectableFd, pcapPollMs := pcapPollMs a } })

/-- `close_pcap`. -/
def closePcap (s : Lifecycle) : Lifecycle :=
  let s := s.dropPcap
  { s with ctx := { s.ctx with pcapFd := -1 } }

/-! ### The signals -/

/-- `install_handler`. -/
def Os.installHandler (os : Os) (signo : Signo) (handler : Bool) : Os :=
  { os with caught := fun t => if t = signo then handler else os.caught t }

/-- `hping_signals_install`. -/
def hpingSignalsInstall (a : Answers) (s : Lifecycle) : Bool × Lifecycle :=
  if ¬a.pipe then (false, s)
  else
    match s.os.socket true with
    | (r, os) =>
      match os.socket true with
      | (w, os) =>
        let s := { s with ctx := { s.ctx with wakeRead := r, wakeWrite := w }, os := os }
        if ¬a.sigaction .sigint then (false, s)
        else
          let s := { s with os := s.os.installHandler .sigint true }
          if ¬a.sigaction .sigterm then (false, s)
          else
            let s := { s with os := s.os.installHandler .sigterm true }
            let s :=
              if s.cfg.ctrlzbind ≠ .none ∧ a.sigaction .sigtstp then
                { s with os := s.os.installHandler .sigtstp true }
              else s
            (true, { s with ctx := { s.ctx with signalsInstalled := true } })

/-- The handlers, if they are all installed. -/
def restoreHandlers (s : Lifecycle) : Lifecycle :=
  if s.ctx.signalsInstalled then
    { s with
      ctx := { s.ctx with signalsInstalled := false }
      os := ((s.os.installHandler .sigint false).installHandler .sigterm false).installHandler
        .sigtstp false }
  else s

/-- The end of the pipe from which is read. -/
def closeWakeRead (s : Lifecycle) : Lifecycle :=
  match s.ctx.wakeRead with
  | some fd => { s with ctx := { s.ctx with wakeRead := none }, os := s.os.close fd }
  | none => s

/-- The end of the pipe to which is written. -/
def closeWakeWrite (s : Lifecycle) : Lifecycle :=
  match s.ctx.wakeWrite with
  | some fd => { s with ctx := { s.ctx with wakeWrite := none }, os := s.os.close fd }
  | none => s

/-- `hping_signals_restore`. -/
def hpingSignalsRestore (s : Lifecycle) : Lifecycle :=
  closeWakeWrite (closeWakeRead (restoreHandlers s))

/-! ### Initialisation and destruction -/

/-- `resolve_or_fail`, for the address that is stored so. -/
def resolveOrFail (a : Answers) (name : List UInt8)
    (store : LifecycleContext → List UInt8 → LifecycleContext) (s : Lifecycle) : Bool × Lifecycle :=
  match a.resolve name with
  | some addr => (true, { s with ctx := store s.ctx addr })
  | none => (false, s)

/-- A name, or another one if there is none. -/
def nameOr (name other : List UInt8) : List UInt8 := if name ≠ [] then name else other

/-- The reason to stop, and the signature backwards. -/
def initSign (s : Lifecycle) : Bool × Lifecycle :=
  (true, { s with ctx := { s.ctx with
    stopReason := .none
    endDeadlineUs := -1
    rsign := if s.cfg.optSign ∨ s.cfg.optListenmode then s.cfg.sign.reverse else s.ctx.rsign } })

/-- The target. -/
def initTarget (a : Answers) (s : Lifecycle) : Bool × Lifecycle :=
  if ¬s.cfg.optListenmode ∧ ¬s.cfg.optSafe ∧ ¬s.cfg.optRandDest then
    resolveOrFail a s.cfg.targetname (fun ctx addr => { ctx with remote := addr }) s
  else (true, s)

/-- The name of the target. -/
def initTargetName (s : Lifecycle) : Bool × Lifecycle :=
  (true, { s with ctx := { s.ctx with
    targetstraddr := (if s.cfg.optRandDest then s.cfg.targetname else inetNtoa s.ctx.remote).take
      1023 } })

/-- The raw socket. -/
def initSockraw (a : Answers) (s : Lifecycle) : Bool × Lifecycle :=
  if ¬s.cfg.optDryRun ∧ s.cfg.readfile.isNone then
    let (fd, os) := s.os.socket a.rawSocket
    (fd.isSome, { s with ctx := { s.ctx with sockraw := fd }, os := os })
  else (true, s)

/-- The capture handle. -/
def initPcap (a : Answers) (s : Lifecycle) : Bool × Lifecycle :=
  if ¬s.cfg.optDryRun then openPcap a s else (true, s)

/-- `get_linkhdr_size`. -/
def initLinkhdrSize (a : Answers) (s : Lifecycle) : Bool × Lifecycle :=
  if ¬s.cfg.optDryRun then
    match a.linkhdrSize with
    | some lhs => (true, { s with ctx := { s.ctx with linkhdrSize := lhs } })
    | none => (false, s)
  else (true, s)

/-- The source port of the first probe. -/
def initSrcPort (a : Answers) (s : Lifecycle) : Bool × Lifecycle :=
  if s.cfg.initsport = -1 then
    let port : ℤ := 1024 + a.rand % 2000
    (true, { s with
      cfg := { s.cfg with initsport := port }
      ctx := { s.ctx with srcPort := port } })
  else (true, { s with ctx := { s.ctx with srcPort := s.cfg.initsport } })

/-- The steps of `hping_init`. -/
def initSteps (a : Answers) : List (Lifecycle → Bool × Lifecycle) :=
  [initSign, initTarget a, initTargetName, getIfName a, initSockraw a, initPcap a,
    initLinkhdrSize a,
    fun s => resolveOrFail a (nameOr s.cfg.spoofaddr s.ctx.ifstraddr)
      (fun ctx addr => { ctx with locale := addr }) s,
    fun s => resolveOrFail a (nameOr s.cfg.icmpIpSrcip (lit "1.2.3.4"))
      (fun ctx addr => { ctx with icmpIpSrc := addr }) s,
    fun s => resolveOrFail a (nameOr s.cfg.icmpIpDstip (lit "5.6.7.8"))
      (fun ctx addr => { ctx with icmpIpDst := addr }) s,
    fun s => resolveOrFail a (nameOr s.cfg.icmpGwip (lit "0.0.0.0"))
      (fun ctx addr => { ctx with icmpGw := addr }) s,
    initSrcPort a, hpingSignalsInstall a]

/-- `hping_init`. -/
def hpingInit (a : Answers) (s : Lifecycle) : Bool × Lifecycle := Attempt.run (initSteps a) s

/-- The raw socket, if it is open. -/
def closeSockraw (s : Lifecycle) : Lifecycle :=
  match s.ctx.sockraw with
  | some fd => { s with ctx := { s.ctx with sockraw := none }, os := s.os.close fd }
  | none => s

/-- The argument of `--scan`, if it is not empty. -/
def freeScanports (s : Lifecycle) : Lifecycle :=
  if s.cfg.optScanports.any (·.text ≠ []) then
    { s with
      cfg := { s.cfg with optScanports := some ⟨none, []⟩ }
      os := s.os.free s.cfg.optScanports }
  else s

/-- The arguments of `--apd-send` and `--read`. -/
def freeStrings (s : Lifecycle) : Lifecycle :=
  { s with
    cfg := { s.cfg with apdSend := none, readfile := none }
    os := (s.os.free s.cfg.apdSend).free s.cfg.readfile }

/-- `hping_destroy`. -/
def hpingDestroy (s : Lifecycle) : Lifecycle :=
  let s := hpingSignalsRestore s
  let s := if s.ctx.pcapfp.isSome then closePcap s else s
  freeStrings (freeScanports (closeSockraw s))

/-! ### Runs -/

/-- What is called. -/
inductive Call
  /-- `--scan`, with whether its argument can be stored. -/
  | scan (arg : List UInt8) (ok : Bool)
  /-- `--apd-send`. -/
  | apdSend (arg : List UInt8) (ok : Bool)
  /-- `--read`. -/
  | read (arg : List UInt8) (ok : Bool)
  | init (a : Answers)
  | destroy

/-- A call. An option takes the place of an earlier one. -/
def Call.exec (s : Lifecycle) : Call → Lifecycle
  | .scan arg ok =>
    let os := if s.cfg.optScanports.any (·.text ≠ []) then s.os.free s.cfg.optScanports else s.os
    let (p, os) := os.strdup arg ok
    { s with cfg := { s.cfg with optScanports := p }, os := os }
  | .apdSend arg ok =>
    let (p, os) := (s.os.free s.cfg.apdSend).strdup arg ok
    { s with cfg := { s.cfg with apdSend := p }, os := os }
  | .read arg ok =>
    let (p, os) := (s.os.free s.cfg.readfile).strdup arg ok
    { s with cfg := { s.cfg with readfile := p }, os := os }
  | .init a => (hpingInit a s).2
  | .destroy => hpingDestroy s

/-- Whether `hping_init` is never called between another one and the `hping_destroy` behind it. -/
def Call.proper : Bool → List Call → Bool
  | _, [] => true
  | idle, .init _ :: calls => idle && proper false calls
  | _, .destroy :: calls => proper true calls
  | idle, _ :: calls => proper idle calls

/-- Whether it is an empty argument of `--scan`. -/
def Call.isEmptyScan : Call → Bool
  | .scan [] ok => ok
  | _ => false

namespace Lifecycle

/-- The beginning of a program, with the strings that the configuration has then. -/
def start (cfg : LifecycleConfig) (os : Os) : Lifecycle where
  cfg := { cfg with optScanports := some ⟨none, []⟩, apdSend := none, readfile := none }
  ctx := .init
  os := os

/-- The state after some calls. -/
def after (s : Lifecycle) (calls : List Call) : Lifecycle := calls.foldl Call.exec s

/-! ### What the slots name -/

/-- What a slot names. -/
def slot (f : ℕ → Resource) : Option ℕ → Multiset Resource
  | none => 0
  | some n => {f n}

@[simp]
theorem slot_none (f : ℕ → Resource) : slot f none = 0 := rfl

/-- The block of a string. -/
def heap : Option HeapString → Multiset Resource
  | some ⟨p, _⟩ => slot .block p
  | none => 0

/-- What the slots name. The argument of `--scan` counts if it is not empty. -/
def held (s : Lifecycle) : Multiset Resource :=
  slot .descriptor s.ctx.wakeRead + slot .descriptor s.ctx.wakeWrite + slot .capture s.ctx.pcapfp +
    slot .descriptor s.ctx.sockraw +
    ((if s.cfg.optScanports.any (·.text ≠ []) then heap s.cfg.optScanports else 0) +
      heap s.cfg.apdSend + heap s.cfg.readfile)

variable {l₀ : Inventory Resource} {lost more : Multiset Resource} {os : Os} {s : Lifecycle}

/-- The slots name what was opened and not closed, but for what is lost. -/
def Accounts (l₀ : Inventory Resource) (lost : Multiset Resource) (s : Lifecycle) : Prop :=
  Inventory.Holds l₀ s.os.inventory (lost + s.held)

theorem holds_socket (h : Inventory.Holds l₀ os.inventory more) (ok : Bool) :
    Inventory.Holds l₀ (os.socket ok).2.inventory (slot .descriptor (os.socket ok).1 + more) := by
  cases ok with
  | false => simpa [Os.socket, slot] using h
  | true => exact h.take (Inventory.least_notMem _ _ _)

theorem holds_openCapture (h : Inventory.Holds l₀ os.inventory more) (ok : Bool) :
    Inventory.Holds l₀ (os.openCapture ok).2.inventory
      (slot .capture (os.openCapture ok).1 + more) := by
  cases ok with
  | false => simpa [Os.openCapture, slot] using h
  | true => exact h.take (Inventory.least_notMem _ _ _)

theorem holds_strdup (h : Inventory.Holds l₀ os.inventory more) (text : List UInt8) (ok : Bool) :
    Inventory.Holds l₀ (os.strdup text ok).2.inventory (heap (os.strdup text ok).1 + more) := by
  cases ok with
  | false => simpa [Os.strdup, heap] using h
  | true => exact h.take (Inventory.least_notMem _ _ _)

theorem holds_free {p : Option HeapString}
    (h : Inventory.Holds l₀ os.inventory (heap p + more)) :
    Inventory.Holds l₀ (os.free p).inventory more := by
  rcases p with _ | ⟨_ | p, text⟩
  · simpa [heap, Os.free] using h
  · simpa [heap, slot, Os.free] using h
  · exact Inventory.Holds.drop h

/-! ### What has no slot -/

theorem close_socket (os : Os) {os' : Os} {fd : ℕ} (h : os.socket true = (some fd, os')) :
    os'.close fd = os := by
  obtain ⟨hfd, rfl⟩ := Prod.mk.inj h
  cases hfd
  exact congrArg (fun l => Os.mk l os.caught) (Inventory.drop_take (Inventory.least_notMem _ _ _))

theorem getOutputIf_os (a : Answers) (os : Os) : (getOutputIf a os).2 = os := by
  rw [getOutputIf]
  cases hok : a.routeSocket with
  | false => rfl
  | true =>
    rcases hsocket : os.socket true with ⟨_ | sockRt, os'⟩
    · simp [Os.socket] at hsocket
    · dsimp only
      have hclose := close_socket os hsocket
      cases hname : a.routeName <;> split_ifs <;> exact hclose

/-- What a slot names, and what the system has. -/
structure Same (s s' : Lifecycle) : Prop where
  wakeRead : s'.ctx.wakeRead = s.ctx.wakeRead
  wakeWrite : s'.ctx.wakeWrite = s.ctx.wakeWrite
  pcapfp : s'.ctx.pcapfp = s.ctx.pcapfp
  sockraw : s'.ctx.sockraw = s.ctx.sockraw
  signalsInstalled : s'.ctx.signalsInstalled = s.ctx.signalsInstalled
  optScanports : s'.cfg.optScanports = s.cfg.optScanports
  apdSend : s'.cfg.apdSend = s.cfg.apdSend
  readfile : s'.cfg.readfile = s.cfg.readfile
  ctrlzbind : s'.cfg.ctrlzbind = s.cfg.ctrlzbind
  os : s'.os = s.os

theorem Same.refl (s : Lifecycle) : Same s s := by constructor <;> rfl

theorem getIfName_same (a : Answers) (s : Lifecycle) : Same s (getIfName a s).2 := by
  have hroute : (if s.cfg.ifname = [] then getOutputIf a s.os else (none, s.os)).2 = s.os := by
    split_ifs
    · exact getOutputIf_os a s.os
    · rfl
  rw [getIfName]
  obtain ⟨known, os, hknown⟩ : ∃ known os,
      (if s.cfg.ifname = [] then getOutputIf a s.os else (none, s.os)) = (known, os) :=
    ⟨_, _, rfl⟩
  rw [hknown] at hroute ⊢
  subst hroute
  dsimp only
  cases hok : a.ifSocket with
  | false => exact Same.refl s
  | true =>
    rcases hsocket : s.os.socket true with ⟨_ | fd, os'⟩
    · simp [Os.socket] at hsocket
    · have hclose := close_socket s.os hsocket
      dsimp only
      rw [hclose]
      rcases a.gifconf with _ | _ | ⟨i, ifs⟩
      · exact Same.refl s
      · exact Same.refl s
      · dsimp only
        split
        · constructor <;> rfl
        · next found _ =>
          cases found.addrTaken <;> constructor <;> rfl

theorem resolveOrFail_same (a : Answers) (name : List UInt8)
    {store : LifecycleContext → List UInt8 → LifecycleContext}
    (hstore : ∀ addr, Same s { s with ctx := store s.ctx addr }) :
    Same s (resolveOrFail a name store s).2 := by
  rw [resolveOrFail]
  cases a.resolve name with
  | none => exact Same.refl s
  | some addr => exact hstore addr

theorem initTarget_same (a : Answers) (s : Lifecycle) : Same s (initTarget a s).2 := by
  rw [initTarget]
  split_ifs
  · exact resolveOrFail_same a _ fun addr => by constructor <;> rfl
  · exact Same.refl s

theorem initLinkhdrSize_same (a : Answers) (s : Lifecycle) : Same s (initLinkhdrSize a s).2 := by
  rw [initLinkhdrSize]
  split_ifs
  · exact Same.refl s
  · cases a.linkhdrSize <;> constructor <;> rfl

theorem initSrcPort_same (a : Answers) (s : Lifecycle) : Same s (initSrcPort a s).2 := by
  rw [initSrcPort]
  split_ifs <;> constructor <;> rfl

/-! ### Initialisation -/

/-- The slots name what is open, and those that come later in `hping_init` are empty. -/
structure Stage (l₀ : Inventory Resource) (lost : Multiset Resource) (raw capture : Prop)
    (s : Lifecycle) : Prop where
  accounts : Accounts l₀ lost s
  sockraw : raw → s.ctx.sockraw = none
  pcapfp : capture → s.ctx.pcapfp = none
  wakeRead : s.ctx.wakeRead = none
  wakeWrite : s.ctx.wakeWrite = none
  installed : s.ctx.signalsInstalled = false

variable {raw capture : Prop} {s' : Lifecycle}

theorem Accounts.same (h : Accounts l₀ lost s) (hs : Same s s') : Accounts l₀ lost s' := by
  rw [Accounts, held, hs.wakeRead, hs.wakeWrite, hs.pcapfp, hs.sockraw, hs.optScanports,
    hs.apdSend, hs.readfile, hs.os]
  exact h

theorem Stage.same (h : Stage l₀ lost raw capture s) (hs : Same s s') :
    Stage l₀ lost raw capture s' where
  accounts := h.accounts.same hs
  sockraw := fun hraw => hs.sockraw.trans (h.sockraw hraw)
  pcapfp := fun hcapture => hs.pcapfp.trans (h.pcapfp hcapture)
  wakeRead := hs.wakeRead.trans h.wakeRead
  wakeWrite := hs.wakeWrite.trans h.wakeWrite
  installed := hs.signalsInstalled.trans h.installed

theorem initSockraw_stage (a : Answers) (h : Stage l₀ lost True True s) :
    Stage l₀ lost False True (initSockraw a s).2 := by
  rw [initSockraw]
  split_ifs
  · refine ⟨?_, fun hfalse => hfalse.elim, h.pcapfp, h.wakeRead, h.wakeWrite, h.installed⟩
    have hopen := holds_socket h.accounts a.rawSocket
    rw [Accounts]
    convert hopen using 1
    simp only [held, h.sockraw trivial, slot_none, add_zero]
    abel
  · exact ⟨h.accounts, fun hfalse => hfalse.elim, h.pcapfp, h.wakeRead, h.wakeWrite, h.installed⟩

theorem dropPcap_stage (h : Stage l₀ lost False False s) :
    Stage l₀ lost False True s.dropPcap := by
  rw [dropPcap]
  cases hp : s.ctx.pcapfp with
  | none =>
    refine ⟨?_, fun hfalse => hfalse.elim, fun _ => rfl, h.wakeRead, h.wakeWrite, h.installed⟩
    have hheld := h.accounts
    rw [Accounts, held, hp] at hheld
    exact hheld
  | some p =>
    refine ⟨?_, fun hfalse => hfalse.elim, fun _ => rfl, h.wakeRead, h.wakeWrite, h.installed⟩
    have hheld := h.accounts
    rw [Accounts, held, hp] at hheld
    refine @Inventory.Holds.drop _ _ _ _ _ (Resource.capture p) ?_
    convert hheld using 1
    simp only [held, slot, ← Multiset.singleton_add]
    abel

theorem openCapture_stage (h : Stage l₀ lost False True s) (ok : Bool) :
    Stage l₀ lost False False { s with
      ctx := { s.ctx with pcapfp := (s.os.openCapture ok).1 }
      os := (s.os.openCapture ok).2 } := by
  refine ⟨?_, fun hfalse => hfalse.elim, fun hfalse => hfalse.elim, h.wakeRead, h.wakeWrite,
    h.installed⟩
  have hopen := holds_openCapture h.accounts ok
  rw [Accounts]
  convert hopen using 1
  simp only [held, h.pcapfp trivial, slot_none, add_zero]
  abel

theorem Stage.weaken (h : Stage l₀ lost False True s) : Stage l₀ lost False False s :=
  ⟨h.accounts, h.sockraw, fun hfalse => hfalse.elim, h.wakeRead, h.wakeWrite, h.installed⟩

theorem openPcap_stage (a : Answers) (h : Stage l₀ lost False True s) :
    Stage l₀ lost False False (openPcap a s).2 := by
  rw [openPcap]
  by_cases hread : s.cfg.readfile.isSome = true
  · rw [if_pos hread]
    have hopen := openCapture_stage h a.pcapOffline
    generalize s.os.openCapture a.pcapOffline = opened at hopen ⊢
    obtain ⟨p, os⟩ := opened
    dsimp only at hopen ⊢
    split_ifs
    · exact hopen
    · exact hopen.same (by constructor <;> rfl)
  · rw [if_neg hread]
    have hopen := openCapture_stage h a.pcapCreate
    generalize s.os.openCapture a.pcapCreate = opened at hopen ⊢
    obtain ⟨p, os⟩ := opened
    dsimp only at hopen ⊢
    split_ifs
    · exact hopen
    · exact (dropPcap_stage hopen).weaken
    · exact hopen.same (by constructor <;> rfl)
    · exact (dropPcap_stage hopen).weaken
    · exact (dropPcap_stage hopen).weaken

theorem initPcap_stage (a : Answers) (h : Stage l₀ lost False True s) :
    Stage l₀ lost False False (initPcap a s).2 := by
  rw [initPcap]
  split_ifs
  · exact h.weaken
  · exact openPcap_stage a h

theorem hpingSignalsInstall_accounts (a : Answers) (h : Stage l₀ lost False False s) :
    Accounts l₀ lost (hpingSignalsInstall a s).2 := by
  have hpipe : ∀ caught installed, Accounts l₀ lost { s with
      ctx := { s.ctx with
        wakeRead := (s.os.socket true).1, wakeWrite := ((s.os.socket true).2.socket true).1
        signalsInstalled := installed }
      os := { ((s.os.socket true).2.socket true).2 with caught := caught } } := by
    intro caught installed
    have hopen := holds_socket (holds_socket h.accounts true) true
    rw [Accounts]
    convert hopen using 1
    simp only [held, h.wakeRead, h.wakeWrite, slot_none, zero_add]
    abel
  rw [hpingSignalsInstall]
  dsimp only
  split_ifs
  · exact hpipe _ _
  · exact hpipe _ _
  · exact hpipe _ _
  · exact hpipe _ _
  · exact h.accounts

/-- **`hping_init` leaves no resource without a slot**, wherever it stops. -/
theorem hpingInit_accounts (a : Answers) (h : Stage l₀ lost True True s) :
    Accounts l₀ lost (hpingInit a s).2 := by
  have hsteps : Attempt.Meets (Stage l₀ lost True True) (initSteps a) (Accounts l₀ lost)
      (Accounts l₀ lost) := by
    have hkeep : ∀ {raw capture : Prop} {f : Lifecycle → Bool × Lifecycle}
        {fs : List (Lifecycle → Bool × Lifecycle)}, (∀ s, Same s (f s).2) →
        Attempt.Meets (Stage l₀ lost raw capture) fs (Accounts l₀ lost) (Accounts l₀ lost) →
        Attempt.Meets (Stage l₀ lost raw capture) (f :: fs) (Accounts l₀ lost)
          (Accounts l₀ lost) :=
      fun hf hfs => Attempt.Meets.step (fun s hs => hs.same (hf s)) (fun s hs => hs.accounts) hfs
    refine hkeep (fun s => by constructor <;> rfl) ?_
    refine hkeep (initTarget_same a) ?_
    refine hkeep (fun s => by constructor <;> rfl) ?_
    refine hkeep (getIfName_same a) ?_
    refine Attempt.Meets.step (fun s hs => initSockraw_stage a hs) (fun s hs => hs.accounts) ?_
    refine Attempt.Meets.step (fun s hs => initPcap_stage a hs) (fun s hs => hs.accounts) ?_
    refine hkeep (initLinkhdrSize_same a) ?_
    refine hkeep (fun s => resolveOrFail_same a _ fun addr => by constructor <;> rfl) ?_
    refine hkeep (fun s => resolveOrFail_same a _ fun addr => by constructor <;> rfl) ?_
    refine hkeep (fun s => resolveOrFail_same a _ fun addr => by constructor <;> rfl) ?_
    refine hkeep (fun s => resolveOrFail_same a _ fun addr => by constructor <;> rfl) ?_
    refine hkeep (initSrcPort_same a) ?_
    exact Attempt.Meets.step (fun s hs => hpingSignalsInstall_accounts a hs) (fun s hs => hs)
      Attempt.Meets.nil
  have hrun := hsteps s h
  rw [ite_self] at hrun
  exact hrun

/-! ### Destruction -/

theorem restoreHandlers_accounts (h : Accounts l₀ lost s) :
    Accounts l₀ lost (restoreHandlers s) ∧ (restoreHandlers s).ctx.signalsInstalled = false := by
  rw [restoreHandlers]
  split_ifs with hinstalled
  · exact ⟨h, rfl⟩
  · exact ⟨h, Bool.eq_false_iff.mpr hinstalled⟩

theorem closeWakeRead_accounts (h : Accounts l₀ lost s) :
    Accounts l₀ lost (closeWakeRead s) ∧ (closeWakeRead s).ctx.wakeRead = none ∧
      (closeWakeRead s).ctx.signalsInstalled = s.ctx.signalsInstalled := by
  rw [closeWakeRead]
  cases hfd : s.ctx.wakeRead with
  | none => exact ⟨h, hfd, rfl⟩
  | some fd =>
    rw [Accounts, held, hfd] at h
    refine ⟨@Inventory.Holds.drop _ _ _ _ _ (Resource.descriptor fd) ?_, rfl, rfl⟩
    convert h using 1
    simp only [held, slot, ← Multiset.singleton_add]
    abel

theorem closeWakeWrite_accounts (h : Accounts l₀ lost s) (hread : s.ctx.wakeRead = none) :
    Accounts l₀ lost (closeWakeWrite s) ∧ (closeWakeWrite s).ctx.wakeRead = none ∧
      (closeWakeWrite s).ctx.wakeWrite = none ∧
      (closeWakeWrite s).ctx.signalsInstalled = s.ctx.signalsInstalled := by
  rw [closeWakeWrite]
  cases hfd : s.ctx.wakeWrite with
  | none => exact ⟨h, hread, hfd, rfl⟩
  | some fd =>
    rw [Accounts, held, hfd] at h
    refine ⟨@Inventory.Holds.drop _ _ _ _ _ (Resource.descriptor fd) ?_, hread, rfl, rfl⟩
    convert h using 1
    simp only [held, slot, ← Multiset.singleton_add]
    abel

theorem hpingSignalsRestore_stage (h : Accounts l₀ lost s) :
    Stage l₀ lost False False (hpingSignalsRestore s) := by
  obtain ⟨hhandlers, hfalse⟩ := restoreHandlers_accounts h
  obtain ⟨hread, hnone, hsame⟩ := closeWakeRead_accounts hhandlers
  obtain ⟨hwrite, hnoread, hnowrite, hsame'⟩ := closeWakeWrite_accounts hread hnone
  exact ⟨hwrite, fun hraw => hraw.elim, fun hcapture => hcapture.elim, hnoread, hnowrite,
    hsame'.trans (hsame.trans hfalse)⟩

theorem closePcap_stage (h : Stage l₀ lost False False s) :
    Stage l₀ lost False True (if s.ctx.pcapfp.isSome then closePcap s else s) := by
  split_ifs with hp
  · exact (dropPcap_stage h).same (by constructor <;> rfl)
  · exact ⟨h.accounts, h.sockraw, fun _ => Option.not_isSome_iff_eq_none.mp hp, h.wakeRead,
      h.wakeWrite, h.installed⟩

theorem closeSockraw_stage (h : Stage l₀ lost False True s) :
    Stage l₀ lost True True (closeSockraw s) := by
  rw [closeSockraw]
  cases hfd : s.ctx.sockraw with
  | none => exact ⟨h.accounts, fun _ => hfd, h.pcapfp, h.wakeRead, h.wakeWrite, h.installed⟩
  | some fd =>
    refine ⟨?_, fun _ => rfl, h.pcapfp, h.wakeRead, h.wakeWrite, h.installed⟩
    have hheld := h.accounts
    rw [Accounts, held, hfd] at hheld
    refine @Inventory.Holds.drop _ _ _ _ _ (Resource.descriptor fd) ?_
    convert hheld using 1
    simp only [held, slot, ← Multiset.singleton_add]
    abel

theorem freeScanports_stage (h : Stage l₀ lost True True s) :
    Stage l₀ lost True True (freeScanports s) ∧
      ¬(freeScanports s).cfg.optScanports.any (·.text ≠ []) := by
  rw [freeScanports]
  split_ifs with htext
  · refine ⟨⟨?_, h.sockraw, h.pcapfp, h.wakeRead, h.wakeWrite, h.installed⟩, by simp⟩
    have hheld := h.accounts
    rw [Accounts, held, if_pos htext] at hheld
    refine holds_free (p := s.cfg.optScanports) ?_
    convert hheld using 1
    simp [held]
    abel
  · exact ⟨h, htext⟩

/-- **`hping_destroy` closes what the slots name**, and leaves them empty. A second one does
nothing. -/
theorem hpingDestroy_stage (h : Accounts l₀ lost s) :
    Stage l₀ lost True True (hpingDestroy s) ∧ (hpingDestroy s).held = 0 ∧
      hpingDestroy (hpingDestroy s) = hpingDestroy s := by
  obtain ⟨hstage, htext⟩ := freeScanports_stage
    (closeSockraw_stage (closePcap_stage (hpingSignalsRestore_stage h)))
  generalize hclosed : freeScanports (closeSockraw (if (hpingSignalsRestore s).ctx.pcapfp.isSome
    then closePcap (hpingSignalsRestore s) else hpingSignalsRestore s)) = s' at hstage htext
  have hdestroy : hpingDestroy s = freeStrings s' := congrArg freeStrings hclosed
  have hheld : (freeStrings s').held = 0 := by
    dsimp only [freeStrings, held]
    rw [hstage.wakeRead, hstage.wakeWrite, hstage.pcapfp trivial, hstage.sockraw trivial,
      if_neg htext]
    rfl
  have hagain : hpingDestroy (freeStrings s') = freeStrings s' := by
    have hread : (freeStrings s').ctx.wakeRead = none := hstage.wakeRead
    have hwrite : (freeStrings s').ctx.wakeWrite = none := hstage.wakeWrite
    have hpcap : ¬(freeStrings s').ctx.pcapfp.isSome := by
      rw [show (freeStrings s').ctx.pcapfp = none from hstage.pcapfp trivial]
      exact Bool.false_ne_true
    have hraw : (freeStrings s').ctx.sockraw = none := hstage.sockraw trivial
    have hinstalled : ¬(freeStrings s').ctx.signalsInstalled := by
      rw [show (freeStrings s').ctx.signalsInstalled = false from hstage.installed]
      exact Bool.false_ne_true
    have hrestore : hpingSignalsRestore (freeStrings s') = freeStrings s' := by
      rw [hpingSignalsRestore, restoreHandlers, if_neg hinstalled, closeWakeRead, hread,
        closeWakeWrite, hwrite]
    have hscan : freeScanports (freeStrings s') = freeStrings s' := if_neg htext
    rw [hpingDestroy, hrestore, if_neg hpcap, closeSockraw, hraw, hscan]
    rfl
  rw [hdestroy]
  refine ⟨⟨?_, hstage.sockraw, hstage.pcapfp, hstage.wakeRead, hstage.wakeWrite,
    hstage.installed⟩, hheld, hagain⟩
  rw [Accounts, hheld, add_zero]
  have hstrings := hstage.accounts
  rw [Accounts, held, hstage.wakeRead, hstage.wakeWrite, hstage.pcapfp trivial,
    hstage.sockraw trivial, if_neg htext] at hstrings
  refine holds_free (holds_free ?_)
  convert hstrings using 1
  simp only [slot_none, zero_add]
  abel

/-! ### Runs of calls -/

/-- What the slots name, but for the argument of `--scan`. -/
def heldBut (s : Lifecycle) : Multiset Resource :=
  slot .descriptor s.ctx.wakeRead + slot .descriptor s.ctx.wakeWrite + slot .capture s.ctx.pcapfp +
    slot .descriptor s.ctx.sockraw + (heap s.cfg.apdSend + heap s.cfg.readfile)

theorem held_eq (s : Lifecycle) :
    s.held = (if s.cfg.optScanports.any (·.text ≠ []) then heap s.cfg.optScanports else 0) +
      s.heldBut := by
  rw [held, heldBut]
  abel

/-- `--scan` loses the block of an argument that is empty. -/
theorem scan_accounts (h : Accounts l₀ lost s) (arg : List UInt8) (ok : Bool) :
    ∃ more, Multiset.card more = (if (Call.scan arg ok).isEmptyScan then 1 else 0) ∧
      Accounts l₀ (more + lost) (Call.exec s (.scan arg ok)) := by
  have hfreed : Inventory.Holds l₀ (if s.cfg.optScanports.any (·.text ≠ []) then
      s.os.free s.cfg.optScanports else s.os).inventory (lost + s.heldBut) := by
    rw [Accounts, held_eq] at h
    split_ifs at h ⊢ with htext
    · refine holds_free (p := s.cfg.optScanports) ?_
      convert h using 1
      abel
    · rwa [zero_add] at h
  rw [Call.exec]
  dsimp only
  generalize (if s.cfg.optScanports.any (·.text ≠ []) then s.os.free s.cfg.optScanports
    else s.os) = os at hfreed ⊢
  have hnew := holds_strdup hfreed arg ok
  cases ok with
  | false =>
    refine ⟨0, by cases arg <;> rfl, ?_⟩
    rw [Accounts, held_eq]
    convert hnew using 1
    simp [Os.strdup, heap, heldBut]
  | true =>
    cases arg with
    | nil =>
      refine ⟨heap (os.strdup [] true).1, rfl, ?_⟩
      rw [Accounts, held_eq]
      convert hnew using 1
      simp [Os.strdup, heldBut]
      abel
    | cons c arg =>
      refine ⟨0, rfl, ?_⟩
      rw [Accounts, held_eq]
      convert hnew using 1
      simp [Os.strdup, heldBut]
      abel

theorem apdSend_accounts (h : Accounts l₀ lost s) (arg : List UInt8) (ok : Bool) :
    Accounts l₀ lost (Call.exec s (.apdSend arg ok)) := by
  obtain ⟨rest, hrest⟩ : ∃ rest, ∀ p os,
      { s with cfg := { s.cfg with apdSend := p }, os := os }.held = heap p + rest := by
    refine ⟨{ s with cfg := { s.cfg with apdSend := none } }.held, fun p os => ?_⟩
    simp only [held, heap]
    abel
  rw [Accounts, show s.held = _ from hrest s.cfg.apdSend s.os, add_left_comm] at h
  have hnew := holds_strdup (holds_free h) arg ok
  rw [Accounts, show (Call.exec s (.apdSend arg ok)).held = _ from hrest _ _, add_left_comm]
  exact hnew

theorem read_accounts (h : Accounts l₀ lost s) (arg : List UInt8) (ok : Bool) :
    Accounts l₀ lost (Call.exec s (.read arg ok)) := by
  obtain ⟨rest, hrest⟩ : ∃ rest, ∀ p os,
      { s with cfg := { s.cfg with readfile := p }, os := os }.held = heap p + rest := by
    refine ⟨{ s with cfg := { s.cfg with readfile := none } }.held, fun p os => ?_⟩
    simp only [held, heap]
    abel
  rw [Accounts, show s.held = _ from hrest s.cfg.readfile s.os, add_left_comm] at h
  have hnew := holds_strdup (holds_free h) arg ok
  rw [Accounts, show (Call.exec s (.read arg ok)).held = _ from hrest _ _, add_left_comm]
  exact hnew

/-- An option changes no slot of the context. -/
theorem Stage.option (h : Stage l₀ lost True True s) {lost' : Multiset Resource}
    (hctx : s'.ctx = s.ctx) (haccounts : Accounts l₀ lost' s') : Stage l₀ lost' True True s' where
  accounts := haccounts
  sockraw := fun _ => hctx ▸ h.sockraw trivial
  pcapfp := fun _ => hctx ▸ h.pcapfp trivial
  wakeRead := hctx ▸ h.wakeRead
  wakeWrite := hctx ▸ h.wakeWrite
  installed := hctx ▸ h.installed

/-- Calls, from a state that may be initialised if `idle`. -/
theorem after_accounts {calls : List Call} {idle : Bool} (hproper : Call.proper idle calls)
    (h : if idle then Stage l₀ lost True True s else Accounts l₀ lost s) :
    ∃ more, Multiset.card more = calls.countP Call.isEmptyScan ∧
      Accounts l₀ (more + lost) (s.after calls) := by
  have haccounts : ∀ {idle : Bool} {lost : Multiset Resource} {s : Lifecycle},
      (if idle then Stage l₀ lost True True s else Accounts l₀ lost s) → Accounts l₀ lost s := by
    intro idle lost s hs
    cases idle
    · exact hs
    · exact hs.accounts
  -- an option keeps what it is given
  have hoption : ∀ {idle : Bool} {lost lost' : Multiset Resource} {s s' : Lifecycle},
      (if idle then Stage l₀ lost True True s else Accounts l₀ lost s) →
      Accounts l₀ lost' s' → s'.ctx = s.ctx →
      if idle then Stage l₀ lost' True True s' else Accounts l₀ lost' s' := by
    intro idle lost lost' s s' hs hs' hctx
    cases idle
    · exact hs'
    · exact hs.option hctx hs'
  induction calls generalizing idle lost s with
  | nil => exact ⟨0, rfl, by rw [zero_add]; exact haccounts h⟩
  | cons call calls ih =>
    cases call with
    | scan arg ok =>
      obtain ⟨more, hmore, hexec⟩ := scan_accounts (haccounts h) arg ok
      obtain ⟨more', hmore', hafter⟩ := ih hproper (hoption h hexec rfl)
      refine ⟨more' + more, ?_, ?_⟩
      · rw [Multiset.card_add, hmore, hmore', List.countP_cons]
      · rw [add_assoc]
        exact hafter
    | apdSend arg ok => exact ih hproper (hoption h (apdSend_accounts (haccounts h) arg ok) rfl)
    | read arg ok => exact ih hproper (hoption h (read_accounts (haccounts h) arg ok) rfl)
    | init a =>
      rw [Call.proper, Bool.and_eq_true] at hproper
      obtain ⟨rfl, hproper⟩ := hproper
      have hnext : if (false : Bool) then Stage l₀ lost True True (hpingInit a s).2
          else Accounts l₀ lost (hpingInit a s).2 := hpingInit_accounts a h
      exact ih hproper hnext
    | destroy =>
      have hnext : if (true : Bool) then Stage l₀ lost True True (hpingDestroy s)
          else Accounts l₀ lost (hpingDestroy s) := (hpingDestroy_stage (haccounts h)).1
      exact ih hproper hnext

/-- **What is opened is closed.** In any run of options, initialisations and destructions in which
`hping_init` is not called again before `hping_destroy`, whatever fails, a `hping_destroy` leaves
open what was open at the beginning, and one block for each empty argument of `--scan`; nothing was
closed that was not open; and a second `hping_destroy` changes nothing. -/
theorem destroyed {calls : List Call} (h : Call.proper true calls) (cfg : LifecycleConfig)
    (os : Os) :
    let s := hpingDestroy ((start cfg os).after calls)
    os.inventory.opened ⊆ s.os.inventory.opened ∧
      (s.os.inventory.opened \ os.inventory.opened).card = calls.countP Call.isEmptyScan ∧
      s.os.inventory.faults = os.inventory.faults ∧ s.held = 0 ∧ hpingDestroy s = s := by
  have hstart : if (true : Bool) then Stage os.inventory 0 True True (start cfg os)
      else Accounts os.inventory 0 (start cfg os) :=
    ⟨Inventory.Holds.refl _, fun _ => rfl, fun _ => rfl, rfl, rfl, rfl⟩
  obtain ⟨lost, hlost, hafter⟩ := after_accounts h hstart
  obtain ⟨hstage, hheld, hagain⟩ := hpingDestroy_stage hafter
  have hholds := hstage.accounts
  rw [Accounts, hheld, add_zero, add_zero] at hholds
  refine ⟨?_, ?_, hholds.faults, hheld, hagain⟩
  · rw [hholds.opened]
    exact Finset.subset_union_left
  · rw [hholds.card_sdiff, hlost]

/-- A system that refuses nothing, with a loopback interface. -/
def granted : Answers where
  resolve := fun _ => some [127, 0, 0, 1]
  routeSocket := true
  routeBroadcast := true
  routeConnect := true
  routeName := some [127, 0, 0, 1]
  ifSocket := true
  gifconf := some [⟨lit "lo", some true, some [127, 0, 0, 1], some [127, 0, 0, 1], some 65536⟩]
  rawSocket := true
  pcapOffline := true
  pcapCreate := true
  pcapConfigure := true
  pcapActivate := 0
  pcapSetnonblock := true
  pcapSelectableFd := 5
  pcapTimeout := none
  linkhdrSize := some 14
  rand := 0
  pipe := true
  sigaction := fun _ => true

theorem destroyed_emptyScan :
    let os : Os := ⟨⟨∅, 0⟩, fun _ => false⟩
    let calls := [Call.scan [] true, .init granted, .destroy, .read (lit "f") true,
      .init { granted with pipe := false }]
    let s := hpingDestroy ((start .init os).after calls)
    s.os.inventory.opened.card = 1 ∧ s.os.inventory.faults = 0 := by
  obtain ⟨-, hcard, hfaults, -⟩ := @destroyed [.scan [] true, .init granted, .destroy,
    .read (lit "f") true, .init { granted with pipe := false }] rfl .init ⟨⟨∅, 0⟩, fun _ => false⟩
  rw [Finset.sdiff_empty] at hcard
  exact ⟨hcard, hfaults⟩

end Lifecycle

end StyxWire.Hping
