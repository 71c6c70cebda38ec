import Miredo.Worker.Run

namespace miredo.supervisor

open miredo miredo.worker

/-- The signals `InitSignals` catches. -/
inductive Sig
  | SIGHUP
  | SIGINT
  | SIGQUIT
  | SIGTERM
  deriving DecidableEq, Repr

/-- Signal numbers, with their Linux values. -/
def Sig.number : Sig → Int
  | .SIGHUP => 1
  | .SIGINT => 2
  | .SIGQUIT => 3
  | .SIGTERM => 15

@[simp] theorem Sig.number_ne_zero (sig : Sig) : sig.number ≠ 0 := by
  cases sig <;> decide

@[simp] theorem Sig.number_inj {sig sig' : Sig} : sig.number = sig'.number ↔ sig = sig' := by
  cases sig <;> cases sig' <;> decide

/-- The two handlers of `miredo.cpp`. -/
inductive Handler
  | exit_handler
  | reload_handler
  deriving DecidableEq, Repr

/-- The handler `InitSignals` installs for a signal. -/
def Sig.handler : Sig → Handler
  | .SIGHUP => .reload_handler
  | _ => .exit_handler

/-- How far a running handler has got: before the test on its flag and on `signalfd[1]`,
    before the `write`, or before the assignment of its flag. -/
inductive HandlerPc
  | check
  | write
  | assign
  deriving DecidableEq, Repr

/-- A handler running on top of a process's main program. -/
structure Frame where
  handler : Handler
  signum : Sig
  pc : HandlerPc
  deriving DecidableEq, Repr

/-- `sa.sa_mask` as `InitSignals` installs it: `sigemptyset`, and no signal added. -/
def sa_mask : List Sig := []

/-- What `waitpid` reports about the worker. -/
inductive WaitStatus
  | exited (code : Nat)
  | signaled (sig : Nat)
  deriving DecidableEq, Repr

/-- The steps of `asyncsafe_close (fd)`: `buf_fd = fd`, then `fd = -1`, then `close`. -/
inductive ClosePc
  | load
  | clear
  | close
  deriving DecidableEq, Repr

/-- Where a process's main program is. The supervisor runs the generation loop of
    `miredo`, from `retval = 1` to the test of `retval == 2`; the worker runs the `case 0`
    branch after `fork`. -/
inductive Pc
  | top
  | pipe
  | clearExit
  | clearReload
  | sigaction (sig : Sig)
  | parseConf
  | fork
  | free
  | waitpid
  | deinit (c : ClosePc)
  | closeRead
  | decide
  | returned
  | child (c : ClosePc)
  | run
  | select
  | exited (st : WaitStatus)
  deriving DecidableEq, Repr

/-- A process. `status` is what `waitpid` stored, which the source keeps in `retval`;
    `heap` lists the blocks allocated and not freed. -/
structure Proc where
  pc : Pc
  signalfd0 : Int
  signalfd1 : Int
  should_exit : Int
  should_reload : Int
  disposition : Sig → Option Handler
  frames : List Frame
  fds : FdTable
  buf_fd : Int
  retval : Int
  status : WaitStatus
  conf : miredo_conf
  heap : List Nat

/-- The supervisor, the worker while it has not been reaped, and the records in each
    bridge pipe, numbered in the order `pipe` created them. -/
structure Sys where
  sup : Proc
  worker : Option Proc
  pipes : Nat → List Int
  nextPipe : Nat

/-- The state at the call of `miredo`: the static `signalfd` is `{0, 0}`, no handler is
    installed, and `fds₀` are the descriptors the process inherited. -/
def Sys.init (fds₀ : FdTable) : Sys where
  sup :=
    { pc := .top, signalfd0 := 0, signalfd1 := 0, should_exit := 0, should_reload := 0,
      disposition := fun _ => none, frames := [], fds := fds₀, buf_fd := 0, retval := 0,
      status := .exited 0, conf := defaultConf, heap := [] }
  worker := none
  pipes := fun _ => []
  nextPipe := 0

/-- `write (fd, &signum, sizeof (signum))`: one record appended to the pipe whose write end
    `fd` is. -/
def write (fds : FdTable) (fd : Int) (v : Int) (pipes : Nat → List Int) : Nat → List Int :=
  match fds fd with
  | some (.pipeWrite k) => Function.update pipes k (pipes k ++ [v])
  | _ => pipes

/-- One step of a handler body shared by `exit_handler` and `reload_handler`, for the flag
    `flag` that `set` assigns: the frame `f` is on top of `rest`. -/
def handlerStep (flag : Proc → Int) (set : Proc → Int → Proc) (p : Proc) (f : Frame)
    (rest : List Frame) (pipes : Nat → List Int) : Proc × (Nat → List Int) :=
  match f.pc with
  | .check =>
    if flag p ≠ 0 ∨ p.signalfd1 = -1 then ({ p with frames := rest }, pipes)
    else ({ p with frames := { f with pc := .write } :: rest }, pipes)
  | .write =>
    ({ p with frames := { f with pc := .assign } :: rest },
      write p.fds p.signalfd1 f.signum.number pipes)
  | .assign => (set { p with frames := rest } f.signum.number, pipes)

/-- `exit_handler (signum)`. -/
def exit_handler : Proc → Frame → List Frame → (Nat → List Int) → Proc × (Nat → List Int) :=
  handlerStep Proc.should_exit fun p v => { p with should_exit := v }

/-- `reload_handler (signum)`. -/
def reload_handler : Proc → Frame → List Frame → (Nat → List Int) → Proc × (Nat → List Int) :=
  handlerStep Proc.should_reload fun p v => { p with should_reload := v }

/-- One step of the innermost running handler of `p`. -/
def Proc.handle (p : Proc) (pipes : Nat → List Int) : Option (Proc × (Nat → List Int)) :=
  match p.frames with
  | [] => none
  | f :: rest =>
    match f.handler with
    | .exit_handler => some (exit_handler p f rest pipes)
    | .reload_handler => some (reload_handler p f rest pipes)

/-- A signal is blocked while a handler runs for it, or for a signal whose mask holds it. -/
def Proc.blocked (p : Proc) (sig : Sig) : Bool :=
  p.frames.any fun f => f.signum = sig ∨ sig ∈ sa_mask

/-- Delivery of `sig`: its handler starts on top of whatever `p` runs. A blocked signal
    stays pending and is delivered later; a signal without a handler is not modelled. -/
def Proc.deliver (p : Proc) (sig : Sig) : Option Proc :=
  match p.disposition sig with
  | none => none
  | some h => if p.blocked sig then none else some { p with frames := ⟨h, sig, .check⟩ :: p.frames }

/-- A record waits in the pipe whose read end is `p`'s `signalfd[0]`. -/
def pending (s : Sys) (p : Proc) : Bool :=
  match p.fds p.signalfd0 with
  | some (.pipeRead k) => !(s.pipes k).isEmpty
  | _ => false

/-- The flag a handler tests and assigns. -/
def Handler.flag : Handler → Proc → Int
  | .exit_handler, p => p.should_exit
  | .reload_handler, p => p.should_reload

/-- The process after a handler assigns its flag. -/
def Handler.set : Handler → Proc → Int → Proc
  | .exit_handler, p, v => { p with should_exit := v }
  | .reload_handler, p, v => { p with should_reload := v }

@[simp] theorem Handler.flag_set_self (h : Handler) (p : Proc) (v : Int) :
    h.flag (h.set p v) = v := by
  cases h <;> rfl

theorem Handler.flag_set_ne {h h' : Handler} (hne : h ≠ h') (p : Proc) (v : Int) :
    h.flag (h'.set p v) = h.flag p := by
  cases h <;> cases h' <;> first | rfl | exact absurd rfl hne

theorem Handler.flag_congr (h : Handler) {p p' : Proc} (he : p'.should_exit = p.should_exit)
    (hr : p'.should_reload = p.should_reload) : h.flag p' = h.flag p := by
  cases h
  exacts [he, hr]

@[simp] theorem Handler.flag_frames (h : Handler) (p : Proc) (fs : List Frame) :
    h.flag { p with frames := fs } = h.flag p := by
  cases h <;> rfl

/-- Both handlers are the shared body on their own flag. -/
theorem Proc.handle_eq (p : Proc) (pipes : Nat → List Int) :
    p.handle pipes = match p.frames with
      | [] => none
      | f :: rest => some (handlerStep f.handler.flag f.handler.set p f rest pipes) := by
  unfold Proc.handle
  rcases p.frames with _ | ⟨f, rest⟩
  · rfl
  · dsimp only
    cases f.handler <;> rfl

/-- What one step of the innermost handler of `p` does: a handler whose flag is set or
    whose `signalfd[1]` is -1 returns at its test; otherwise it goes on to the `write`,
    which appends its signal number to the pipe of `signalfd[1]`, then assigns its flag. -/
theorem Proc.handle_cases {p p' : Proc} {pipes pipes' : Nat → List Int}
    (h : p.handle pipes = some (p', pipes')) :
    ∃ f rest, p.frames = f :: rest ∧
      ((f.pc = .check ∧ (f.handler.flag p ≠ 0 ∨ p.signalfd1 = -1) ∧
          p' = { p with frames := rest } ∧ pipes' = pipes) ∨
        (f.pc = .check ∧ f.handler.flag p = 0 ∧ p.signalfd1 ≠ -1 ∧
          p' = { p with frames := { f with pc := .write } :: rest } ∧ pipes' = pipes) ∨
        (f.pc = .write ∧ p' = { p with frames := { f with pc := .assign } :: rest } ∧
          pipes' = write p.fds p.signalfd1 f.signum.number pipes) ∨
        (f.pc = .assign ∧ p' = f.handler.set { p with frames := rest } f.signum.number ∧
          pipes' = pipes)) := by
  rw [Proc.handle_eq] at h
  rcases hf : p.frames with _ | ⟨f, rest⟩ <;> rw [hf] at h
  · cases h
  refine ⟨f, rest, rfl, ?_⟩
  simp only [Option.some.injEq] at h
  unfold handlerStep at h
  rcases hpc : f.pc <;> simp only [hpc] at h
  · split_ifs at h with hc
    · exact .inl ⟨rfl, hc, (Prod.mk.inj h.symm).1, (Prod.mk.inj h.symm).2⟩
    · push_neg at hc
      exact .inr (.inl ⟨rfl, hc.1, hc.2, (Prod.mk.inj h.symm).1, (Prod.mk.inj h.symm).2⟩)
  · exact .inr (.inr (.inl ⟨rfl, (Prod.mk.inj h.symm).1, (Prod.mk.inj h.symm).2⟩))
  · exact .inr (.inr (.inr ⟨rfl, (Prod.mk.inj h.symm).1, (Prod.mk.inj h.symm).2⟩))

@[simp] theorem Handler.set_frames (h : Handler) (p : Proc) (v : Int) :
    (h.set p v).frames = p.frames := by cases h <;> rfl

@[simp] theorem Handler.set_disposition (h : Handler) (p : Proc) (v : Int) :
    (h.set p v).disposition = p.disposition := by cases h <;> rfl

@[simp] theorem Handler.set_signalfd1 (h : Handler) (p : Proc) (v : Int) :
    (h.set p v).signalfd1 = p.signalfd1 := by cases h <;> rfl

/-- A delivery pushes the installed handler, at its test, on top of the running ones. -/
theorem Proc.deliver_cases {p p' : Proc} {sig : Sig} (h : p.deliver sig = some p') :
    ∃ hd, p.disposition sig = some hd ∧ p.blocked sig = false ∧
      p' = { p with frames := ⟨hd, sig, .check⟩ :: p.frames } := by
  unfold Proc.deliver at h
  rcases hdisp : p.disposition sig with _ | hd <;> rw [hdisp] at h
  · cases h
  · dsimp only at h
    split_ifs at h with hb
    exact ⟨hd, rfl, by simpa using hb, (Option.some.inj h).symm⟩

/-- A handler step changes only the running handlers and the two flags. -/
theorem Proc.handle_frames_flags {p p' : Proc} {pipes pipes' : Nat → List Int}
    (h : p.handle pipes = some (p', pipes')) :
    ∃ fs x y, p' = { p with frames := fs, should_exit := x, should_reload := y } := by
  obtain ⟨f, rest, -, hcase⟩ := Proc.handle_cases h
  rcases hcase with ⟨-, -, rfl, -⟩ | ⟨-, -, -, rfl, -⟩ | ⟨-, rfl, -⟩ | ⟨-, rfl, -⟩
  · exact ⟨_, _, _, rfl⟩
  · exact ⟨_, _, _, rfl⟩
  · exact ⟨_, _, _, rfl⟩
  · cases f.handler
    · exact ⟨_, _, _, rfl⟩
    · exact ⟨_, _, _, rfl⟩

theorem write_prefix (fds : FdTable) (fd v : Int) (pipes : Nat → List Int) (k : Nat) :
    pipes k <+: write fds fd v pipes k := by
  rcases hfd : fds fd with _ | ⟨_ | j | _ | _ | _⟩ <;> simp only [write, hfd] <;>
    try exact List.prefix_refl _
  by_cases hk : k = j
  · subst hk
    simp
  · rw [Function.update_noteq hk]

/-- A handler step only appends to the pipes. -/
theorem Proc.handle_pipes {p p' : Proc} {pipes pipes' : Nat → List Int}
    (h : p.handle pipes = some (p', pipes')) (k : Nat) : pipes k <+: pipes' k := by
  obtain ⟨f, rest, -, hcase⟩ := Proc.handle_cases h
  rcases hcase with ⟨-, -, -, rfl⟩ | ⟨-, -, -, -, rfl⟩ | ⟨-, -, rfl⟩ | ⟨-, -, rfl⟩
  · exact List.prefix_refl _
  · exact List.prefix_refl _
  · exact write_prefix _ _ _ _ k
  · exact List.prefix_refl _

end miredo.supervisor
