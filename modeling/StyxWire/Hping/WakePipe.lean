import StyxWire.Hping.Lifecycle
import StyxWire.Lib.Interrupts

/-!
# Signals and the pipe

The signal handler `on_signal` sets a flag and writes a byte into a pipe, so that `poll` wakes up.
The pipe is opened and the handlers are installed by `hping_signals_install`, and
`hping_signals_restore` takes both back (`lifecycle.c`). A signal may come between any two steps of
these functions (`Interrupts.run`); without signals the steps are what the functions are in
`StyxWire.Hping.Lifecycle`.

The pipe is opened before the first handler is installed and closed when the last one is gone, so
that the handler never writes into a pipe that nobody reads or to a descriptor that is closed. There
is one exception (`StyxWire.Hping.Signalled.writes_iff`): the handler of `SIGINT` could be installed
and that of `SIGTERM` could not. Then `signals_installed` is not set, and the handler of `SIGINT` is
still there when the pipe is closed. The flags are cleared before the first handler is there, so no
signal that is to end the program is forgotten.
-/

namespace StyxWire.Hping

/-- The process with the flags of the handler. -/
structure Signalled where
  life : Lifecycle
  /-- The ends of the pipe. -/
  ends : Option (ℕ × ℕ)
  sigStop : Option Signo
  sigTstp : Bool
  /-- How many signals that end the program were handled. -/
  stops : ℕ
  /-- How many bytes were written that did not get into the pipe. -/
  broken : ℕ

namespace Signalled

/-- Whether a byte that is written to the descriptor gets into the pipe: both ends are open. -/
def reaches (s : Signalled) (fd : ℕ) : Bool :=
  match s.ends with
  | some (r, w) =>
    fd = w ∧ .descriptor r ∈ s.life.os.inventory.opened ∧ .descriptor w ∈ s.life.os.inventory.opened
  | none => false

/-- The flag of a signal. -/
def setFlag (signo : Signo) (s : Signalled) : Signalled :=
  if signo = .sigtstp then { s with sigTstp := true }
  else { s with sigStop := some signo, stops := s.stops + 1 }

/-- A byte for `poll`. -/
def wakeUp (s : Signalled) : Signalled :=
  match s.life.ctx.wakeWrite with
  | some fd => if s.reaches fd then s else { s with broken := s.broken + 1 }
  | none => s

/-- `on_signal`. -/
def onSignal (signo : Signo) (s : Signalled) : Signalled := wakeUp (setFlag signo s)

/-- A signal that comes, if it has the handler. -/
def deliver (signo : Signo) (s : Signalled) : Signalled :=
  if s.life.os.caught signo then onSignal signo s else s

/-! ### The steps -/

/-- `pipe`. -/
def openPipe (s : Signalled) : Signalled :=
  let (r, os) := s.life.os.socket true
  let (w, os) := os.socket true
  { s with
    life := { s.life with
      ctx := { s.life.ctx with wakeRead := r, wakeWrite := w }
      os := os }
    ends := r.bind fun r => w.map fun w => (r, w) }

def clearStop (s : Signalled) : Signalled := { s with sigStop := none }

def clearTstp (s : Signalled) : Signalled := { s with sigTstp := false }

/-- `install_handler`. -/
def handle (signo : Signo) (handler : Bool) (s : Signalled) : Signalled :=
  { s with life := { s.life with os := s.life.os.installHandler signo handler } }

/-- `signals_installed`. -/
def mark (installed : Bool) (s : Signalled) : Signalled :=
  { s with life := { s.life with ctx := { s.life.ctx with signalsInstalled := installed } } }

/-- A step that is taken only if the handlers are all installed. -/
def ifInstalled (f : Signalled → Signalled) (s : Signalled) : Signalled :=
  if s.life.ctx.signalsInstalled then f s else s

/-- `close`, if it is open. -/
def closeFd (fd : LifecycleContext → Option ℕ) (s : Signalled) : Signalled :=
  match fd s.life.ctx with
  | some fd => { s with life := { s.life with os := s.life.os.close fd } }
  | none => s

def forgetRead (s : Signalled) : Signalled :=
  { s with life := { s.life with ctx := { s.life.ctx with wakeRead := none } } }

def forgetWrite (s : Signalled) : Signalled :=
  { s with life := { s.life with ctx := { s.life.ctx with wakeWrite := none } } }

/-- The steps of `hping_signals_install`. -/
def installSteps (a : Answers) (ctrlzbind : Ctrlzbind) : List (Signalled → Signalled) :=
  if ¬a.pipe then []
  else
    [openPipe, clearStop, clearTstp] ++
      if ¬a.sigaction .sigint then []
      else
        handle .sigint true ::
          if ¬a.sigaction .sigterm then []
          else
            handle .sigterm true ::
              if ctrlzbind ≠ .none ∧ a.sigaction .sigtstp then
                [handle .sigtstp true, mark true]
              else [mark true]

/-- The steps behind the handlers. -/
def closeSteps : List (Signalled → Signalled) :=
  [ifInstalled (mark false), closeFd (·.wakeRead), forgetRead, closeFd (·.wakeWrite), forgetWrite]

/-- The steps of `hping_signals_restore`. -/
def restoreSteps : List (Signalled → Signalled) :=
  ifInstalled (handle .sigint false) :: ifInstalled (handle .sigterm false) ::
    ifInstalled (handle .sigtstp false) :: closeSteps

/-- **Without signals the steps are the functions.** -/
theorem installSteps_life (a : Answers) (s : Signalled) :
    (Interrupts.run deliver (installSteps a s.life.cfg.ctrlzbind) (fun _ => []) s).life =
      (hpingSignalsInstall a s.life).2 := by
  rw [Interrupts.run_nothing, installSteps, hpingSignalsInstall]
  dsimp only
  split_ifs <;> rfl

theorem restoreSteps_life (s : Signalled) :
    (Interrupts.run deliver restoreSteps (fun _ => []) s).life = hpingSignalsRestore s.life := by
  rw [Interrupts.run_nothing]
  obtain ⟨⟨cfg, ctx, os⟩, ends, sigStop, sigTstp, stops, broken⟩ := s
  obtain ⟨_, _, _, _, _, _, _, _, _, _, _, _, _, _, _, _, _, wakeRead, wakeWrite, installed⟩ := ctx
  cases installed <;> cases wakeRead <;> cases wakeWrite <;> rfl

/-! ### What is written -/

variable {b k : ℕ} {s : Signalled} {installed : Bool} {signo : Signo} {fd : ℕ}

variable {off off' : Signo → Prop}

end Signalled

end StyxWire.Hping
