import Miredo.Supervisor.Step

namespace miredo.supervisor

open miredo miredo.worker

/-- The handlers of a process: each installed handler is the one `InitSignals` installs,
    each running handler is the one installed for its signal, a handler past its test
    saw `signalfd[1]` open, which nothing changes while it runs, and no signal's handler
    runs twice at once, since a signal is blocked while its handler runs. -/
structure HandlersOk (p : Proc) : Prop where
  disposition : ∀ sig h, p.disposition sig = some h → h = sig.handler
  installed : ∀ f ∈ p.frames, p.disposition f.signum = some f.handler
  open_fd : ∀ f ∈ p.frames, f.pc ≠ .check → p.signalfd1 ≠ -1
  distinct : (p.frames.map Frame.signum).Nodup

variable {p p' : Proc} {pipes pipes' : Nat → List Int}

theorem HandlersOk.handle (hp : HandlersOk p) (h : p.handle pipes = some (p', pipes')) :
    HandlersOk p' := by
  obtain ⟨f, rest, hf, hcase⟩ := Proc.handle_cases h
  have hin : ∀ g ∈ rest, g ∈ p.frames := fun g hg => hf ▸ List.mem_cons_of_mem f hg
  have hfin : f ∈ p.frames := hf ▸ List.mem_cons_self f rest
  have hnd : (f.signum :: rest.map Frame.signum).Nodup := by simpa [hf] using hp.distinct
  rcases hcase with ⟨-, -, rfl, -⟩ | ⟨-, -, hopen, rfl, -⟩ | ⟨hpc, rfl, -⟩ | ⟨-, rfl, -⟩
  · exact ⟨hp.disposition, fun g hg => hp.installed g (hin g hg),
      fun g hg => hp.open_fd g (hin g hg), hnd.of_cons⟩
  · refine ⟨hp.disposition, ?_, ?_, hnd⟩
    · rintro g (_ | ⟨_, hg⟩)
      exacts [hp.installed f hfin, hp.installed g (hin g hg)]
    · rintro g (_ | ⟨_, hg⟩) hpc
      exacts [hopen, hp.open_fd g (hin g hg) hpc]
  · refine ⟨hp.disposition, ?_, ?_, hnd⟩
    · rintro g (_ | ⟨_, hg⟩)
      exacts [hp.installed f hfin, hp.installed g (hin g hg)]
    · rintro g (_ | ⟨_, hg⟩) hpc'
      exacts [hp.open_fd f hfin (by rw [hpc]; decide), hp.open_fd g (hin g hg) hpc']
  · refine ⟨?_, ?_, ?_, ?_⟩
    · simpa using hp.disposition
    · simpa using fun g hg => hp.installed g (hin g hg)
    · simpa using fun g hg => hp.open_fd g (hin g hg)
    · simpa using hnd.of_cons

theorem HandlersOk.deliver (hp : HandlersOk p) {sig : Sig} (h : p.deliver sig = some p') :
    HandlersOk p' := by
  obtain ⟨hd, hdisp, hb, rfl⟩ := Proc.deliver_cases h
  refine ⟨hp.disposition, ?_, ?_, List.nodup_cons.mpr ⟨?_, hp.distinct⟩⟩
  · rintro g (_ | ⟨_, hg⟩)
    exacts [hdisp, hp.installed g hg]
  · rintro g (_ | ⟨_, hg⟩) hpc
    exacts [absurd rfl hpc, hp.open_fd g hg hpc]
  · simpa [Proc.blocked, sa_mask] using hb

/-- A main-program step leaves no handler running and changes no disposition. -/
theorem HandlersOk.main (hp : HandlersOk p) (hf : p'.frames = [])
    (hd : p'.disposition = p.disposition) : HandlersOk p' :=
  ⟨hd ▸ hp.disposition, by simp [hf], by simp [hf], by simp [hf]⟩

/-- `sigaction (sig, &sa, NULL)` with the handler `InitSignals` gives `sig`. -/
theorem HandlersOk.sigaction (hp : HandlersOk p) (hf : p'.frames = []) {sig : Sig}
    (hd : p'.disposition = Function.update p.disposition sig (some sig.handler)) :
    HandlersOk p' := by
  refine ⟨fun sig' h hsig' => ?_, by simp [hf], by simp [hf], by simp [hf]⟩
  rw [hd] at hsig'
  by_cases heq : sig' = sig
  · subst heq
    simpa using hsig'.symm
  · rw [Function.update_noteq heq] at hsig'
    exact hp.disposition sig' h hsig'

/-- The table of a generation: the inherited one with the two ends of pipe `k` opened. -/
def withPipe (fds₀ : FdTable) (r w : Int) (k : Nat) : FdTable :=
  (fds₀.open r (.pipeRead k)).open w (.pipeWrite k)

theorem withPipe_read {fds₀ : FdTable} {r w : Int} (k : Nat) (hne : r ≠ w) :
    withPipe fds₀ r w k r = some (.pipeRead k) := by
  rw [withPipe, FdTable.open_other _ _ hne, FdTable.open_self]

@[simp] theorem withPipe_write (fds₀ : FdTable) (r w : Int) (k : Nat) :
    withPipe fds₀ r w k w = some (.pipeWrite k) :=
  FdTable.open_self _ _ _

theorem withPipe_close_write {fds₀ : FdTable} {r w : Int} (k : Nat) (hne : r ≠ w)
    (hw : fds₀ w = none) : (withPipe fds₀ r w k).close w = fds₀.open r (.pipeRead k) :=
  FdTable.close_open _ (by rw [FdTable.open_other _ _ (Ne.symm hne), hw])

/-- The current bridge pipe: the last one `pipe` created. -/
def Sys.current (s : Sys) : Nat := s.nextPipe - 1

/-- A process's `signalfd[1]` is -1, or the write end of the current pipe whose read end
    is its `signalfd[0]`. -/
def BridgeOk (s : Sys) (p : Proc) : Prop :=
  p.signalfd1 = -1 ∨ (0 < s.nextPipe ∧ p.fds p.signalfd1 = some (.pipeWrite s.current) ∧
    p.fds p.signalfd0 = some (.pipeRead s.current))

/-- The statuses a worker can leave: `exit (0)` once its relay loop has ended, `exit (1)`
    when `miredo_run` failed, or a signal. -/
def WaitStatus.OfWorker (st : WaitStatus) : Prop :=
  st = .exited 0 ∨ st = .exited 1 ∨ ∃ n, st = .signaled n

/-- Where the worker's main program can be, with its `signalfd[1]` there, for the current
    pipe `k`, and the status it left once it has terminated. -/
def WorkerPc (k : Nat) (w : Proc) : Prop :=
  match w.pc with
  | .child .load => w.fds w.signalfd1 = some (.pipeWrite k)
  | .child .clear => w.fds w.signalfd1 = some (.pipeWrite k) ∧ w.buf_fd = w.signalfd1
  | .child .close => w.signalfd1 = -1 ∧ w.buf_fd ≠ w.signalfd0
  | .run => w.signalfd1 = -1
  | .select => w.signalfd1 = -1 ∧ w.retval = 0
  | .exited st => st.OfWorker ∧ (w.signalfd1 = -1 ∨ w.fds w.signalfd1 = some (.pipeWrite k))
  | _ => False

/-- The worker of the current generation, the last of the `nextPipe` pipes: it holds the
    read end of that pipe at `signalfd[0]` for its whole life. -/
structure WorkerShape (nextPipe : Nat) (w : Proc) : Prop where
  started : 0 < nextPipe
  read : w.fds w.signalfd0 = some (.pipeRead (nextPipe - 1))
  pc : WorkerPc (nextPipe - 1) w
  handlers : HandlersOk w

/-- The supervisor inside a generation: the last of the `nextPipe` pipes is open on `r`
    and `w`, two descriptors closed in `fds₀`, and `retval` is 1. -/
structure InGeneration (fds₀ : FdTable) (r w : Int) (nextPipe : Nat) (retval : Int) : Prop where
  nonneg : 0 ≤ w
  ne : r ≠ w
  closed_r : fds₀ r = none
  closed_w : fds₀ w = none
  started : 0 < nextPipe
  retval : retval = 1

/-- The supervisor's table, `signalfd`, heap and worker at each point of the generation
    loop, for the inherited table `fds₀`. -/
def SupShape (fds₀ : FdTable) (s : Sys) : Prop :=
  match s.sup.pc with
  | .top => s.sup.fds = fds₀ ∧ s.sup.heap = [] ∧ s.worker = none ∧
      (s.sup.signalfd1 = -1 ∨ ∀ sig, s.sup.disposition sig = none)
  | .pipe => s.sup.fds = fds₀ ∧ s.sup.heap = [] ∧ s.worker = none ∧
      (s.sup.signalfd1 = -1 ∨ ∀ sig, s.sup.disposition sig = none) ∧ s.sup.retval = 1
  | .clearExit | .clearReload | .sigaction _ | .parseConf | .deinit .load =>
    InGeneration fds₀ s.sup.signalfd0 s.sup.signalfd1 s.nextPipe s.sup.retval ∧
      s.sup.fds = withPipe fds₀ s.sup.signalfd0 s.sup.signalfd1 s.current ∧ s.sup.heap = [] ∧
      s.worker = none
  | .fork =>
    InGeneration fds₀ s.sup.signalfd0 s.sup.signalfd1 s.nextPipe s.sup.retval ∧
      s.sup.fds = withPipe fds₀ s.sup.signalfd0 s.sup.signalfd1 s.current ∧
      s.sup.heap = s.sup.conf.ifname.toList ∧ s.worker = none
  | .free =>
    InGeneration fds₀ s.sup.signalfd0 s.sup.signalfd1 s.nextPipe s.sup.retval ∧
      s.sup.fds = withPipe fds₀ s.sup.signalfd0 s.sup.signalfd1 s.current ∧
      s.sup.heap = s.sup.conf.ifname.toList ∧ ∃ w, s.worker = some w ∧ WorkerShape s.nextPipe w
  | .waitpid =>
    InGeneration fds₀ s.sup.signalfd0 s.sup.signalfd1 s.nextPipe s.sup.retval ∧
      s.sup.fds = withPipe fds₀ s.sup.signalfd0 s.sup.signalfd1 s.current ∧ s.sup.heap = [] ∧
      ∃ w, s.worker = some w ∧ WorkerShape s.nextPipe w
  | .deinit .clear =>
    InGeneration fds₀ s.sup.signalfd0 s.sup.signalfd1 s.nextPipe s.sup.retval ∧
      s.sup.fds = withPipe fds₀ s.sup.signalfd0 s.sup.signalfd1 s.current ∧ s.sup.heap = [] ∧
      s.worker = none ∧ s.sup.buf_fd = s.sup.signalfd1
  | .deinit .close =>
    InGeneration fds₀ s.sup.signalfd0 s.sup.buf_fd s.nextPipe s.sup.retval ∧
      s.sup.fds = withPipe fds₀ s.sup.signalfd0 s.sup.buf_fd s.current ∧ s.sup.heap = [] ∧
      s.worker = none ∧ s.sup.signalfd1 = -1
  | .closeRead =>
    InGeneration fds₀ s.sup.signalfd0 s.sup.buf_fd s.nextPipe s.sup.retval ∧ s.sup.fds = fds₀.open s.sup.signalfd0 (.pipeRead s.current) ∧
      s.sup.heap = [] ∧ s.worker = none ∧ s.sup.signalfd1 = -1
  | .decide => s.sup.fds = fds₀ ∧ s.sup.heap = [] ∧ s.worker = none ∧ s.sup.signalfd1 = -1 ∧
      s.sup.retval = 1
  | .returned => s.worker = none ∧ (s.sup.retval = 0 ∨ s.sup.retval = 1) ∧
      (BridgeOk s s.sup ∨ ∀ sig, s.sup.disposition sig = none)
  | _ => False

/-- What holds in every reachable state. -/
structure Inv (fds₀ : FdTable) (s : Sys) : Prop where
  shape : SupShape fds₀ s
  handlers : HandlersOk s.sup

theorem Inv.of_supMain {e : Endian} {fds₀ : FdTable} {s s' : Sys} {o : Outcome} (hi : Inv fds₀ s)
    (hf : s.sup.frames = []) (h : supMain e s o = some s') : Inv fds₀ s' := by
  have hs := hi.shape
  unfold supMain at h
  dsimp only at h
  split at h <;> rename_i hpc <;> simp only [SupShape, hpc] at hs
  · -- `retval = 1`
    cases h
    exact ⟨⟨hs.1, hs.2.1, hs.2.2.1, hs.2.2.2, rfl⟩, hi.handlers.main hf rfl⟩
  · -- `pipe (signalfd)` succeeds
    rename_i r w
    split_ifs at h with hguard
    obtain ⟨-, hnonneg, hne, hr, hw⟩ := hguard
    cases h
    obtain ⟨hfds, hheap, hworker, -, hretval⟩ := hs
    rw [hfds] at hr hw
    refine ⟨⟨⟨hnonneg, hne, hr, hw, Nat.succ_pos _, hretval⟩, ?_, hheap, hworker⟩,
      hi.handlers.main hf rfl⟩
    simp [hfds, withPipe, Sys.current]
  · -- `pipe (signalfd)` fails
    cases h
    exact ⟨⟨hs.2.2.1, .inr hs.2.2.2.2, hs.2.2.2.1.imp_left Or.inl⟩, hi.handlers.main hf rfl⟩
  · -- `should_exit = 0`
    cases h
    exact ⟨⟨hs.1, hs.2⟩, hi.handlers.main hf rfl⟩
  · -- `should_reload = 0`
    cases h
    exact ⟨⟨hs.1, hs.2⟩, hi.handlers.main hf rfl⟩
  iterate 4
    · -- `sigaction`
      cases h
      exact ⟨⟨hs.1, hs.2⟩, hi.handlers.sigaction hf rfl⟩
  · -- `ParseConf`
    obtain ⟨hg, hfds, hheap, hworker⟩ := hs
    have hbridge : BridgeOk s s.sup :=
      .inr ⟨hg.started, by rw [hfds]; exact withPipe_write _ _ _ _, by rw [hfds]; exact withPipe_read _ hg.ne⟩
    split at h <;> cases h
    · exact ⟨⟨hworker, .inr hg.retval, .inl hbridge⟩, hi.handlers.main hf rfl⟩
    · exact ⟨⟨hg, hfds, by simp [hheap], hworker⟩, hi.handlers.main hf rfl⟩
  · -- `fork` fails
    obtain ⟨hg, hfds, -, hworker⟩ := hs
    cases h
    exact ⟨⟨hworker, .inr hg.retval,
      .inl (.inr ⟨hg.started, by rw [hfds]; exact withPipe_write _ _ _ _, by rw [hfds]; exact withPipe_read _ hg.ne⟩)⟩,
      hi.handlers.main hf rfl⟩
  · -- `fork` starts the worker
    obtain ⟨hg, hfds, hheap, -⟩ := hs
    cases h
    refine ⟨⟨hg, hfds, hheap, _, rfl, ⟨hg.started, ?_, ?_, hi.handlers.main hf rfl⟩⟩,
      hi.handlers.main hf rfl⟩
    · show s.sup.fds s.sup.signalfd0 = _
      rw [hfds]
      exact withPipe_read _ hg.ne
    · show s.sup.fds s.sup.signalfd1 = _
      rw [hfds]
      exact withPipe_write _ _ _ _
  · -- `free (conf.ifname)`
    obtain ⟨hg, hfds, hheap, w, hworker, hw⟩ := hs
    cases h
    refine ⟨⟨hg, hfds, ?_, w, hworker, hw⟩, hi.handlers.main hf rfl⟩
    dsimp only
    rw [hheap]
    rcases s.sup.conf.ifname <;> simp
  · -- `waitpid`
    obtain ⟨hg, hfds, hheap, -⟩ := hs
    split at h
    · split at h
      · cases h
        exact ⟨⟨hg, hfds, hheap, rfl⟩, hi.handlers.main hf rfl⟩
      · cases h
    · cases h
  · -- `buf_fd = fd`
    cases h
    exact ⟨⟨hs.1, hs.2.1, hs.2.2.1, hs.2.2.2, rfl⟩, hi.handlers.main hf rfl⟩
  · -- `fd = -1`
    obtain ⟨hg, hfds, hheap, hworker, hbuf⟩ := hs
    rw [← hbuf] at hg hfds
    cases h
    exact ⟨⟨hg, hfds, hheap, hworker, rfl⟩, hi.handlers.main hf rfl⟩
  · -- `close (buf_fd)`
    obtain ⟨hg, hfds, hheap, hworker, hfd1⟩ := hs
    cases h
    refine ⟨⟨hg, ?_, hheap, hworker, hfd1⟩, hi.handlers.main hf rfl⟩
    show s.sup.fds.close s.sup.buf_fd = _
    rw [hfds, withPipe_close_write _ hg.ne hg.closed_w]
    rfl
  · -- `close (signalfd[0])`
    obtain ⟨hg, hfds, hheap, hworker, hfd1⟩ := hs
    cases h
    refine ⟨⟨?_, hheap, hworker, hfd1, hg.retval⟩, hi.handlers.main hf rfl⟩
    show s.sup.fds.close s.sup.signalfd0 = _
    rw [hfds, FdTable.close_open _ hg.closed_r]
  · -- the tests on `should_exit`, `should_reload` and the status
    obtain ⟨hfds, hheap, hworker, hfd1, -⟩ := hs
    cases h
    refine ⟨?_, hi.handlers.main hf rfl⟩
    by_cases h2 : decideRetval s.sup = 2
    · simp only [SupShape, h2, if_true]
      exact ⟨hfds, hheap, hworker, .inl hfd1⟩
    · simp only [SupShape, h2, if_false]
      exact ⟨hworker, (decideRetval_cases s.sup).imp_right fun h => h.resolve_right h2,
        .inl (.inl hfd1)⟩
  · cases h
theorem SupShape.worker_some {fds₀ : FdTable} {s : Sys} {w : Proc} (hs : SupShape fds₀ s)
    (hw : s.worker = some w) : (s.sup.pc = .free ∨ s.sup.pc = .waitpid) ∧ WorkerShape s.nextPipe w := by
  unfold SupShape at hs
  split at hs <;> rename_i hpc <;> simp only [hw, reduceCtorEq, and_false, false_and, Option.some.injEq, exists_eq_left'] at hs
  · exact ⟨.inl hpc, hs.2.2.2⟩
  · exact ⟨.inr hpc, hs.2.2.2⟩

theorem SupShape.set_worker {fds₀ : FdTable} {s : Sys} {w w' : Proc} (hs : SupShape fds₀ s)
    (hw : s.worker = some w) (hw' : WorkerShape s.nextPipe w') (pipes : Nat → List Int) :
    SupShape fds₀ { s with worker := some w', pipes } := by
  obtain ⟨hpc | hpc, -⟩ := hs.worker_some hw <;> simp only [SupShape, hpc] at hs ⊢
  · exact ⟨hs.1, hs.2.1, hs.2.2.1, w', rfl, hw'⟩
  · exact ⟨hs.1, hs.2.1, hs.2.2.1, w', rfl, hw'⟩

/-- A step of the worker's main program keeps it the worker of the current generation. -/
theorem WorkerShape.of_workerMain {e : Endian} {s s' : Sys} {w : Proc} {o : Outcome}
    (hw : WorkerShape s.nextPipe w) (hf : w.frames = []) (h : workerMain e s w o = some s') :
    s' = s ∨ ∃ w', s' = { s with worker := some w' } ∧ WorkerShape s.nextPipe w' := by
  have hpcw := hw.pc
  unfold workerMain at h
  split at h <;> rename_i hpc <;> simp only [WorkerPc, hpc] at hpcw
  · -- `buf_fd = signalfd[1]`
    cases h
    exact .inr ⟨_, rfl, hw.started, hw.read, ⟨hpcw, rfl⟩, hw.handlers.main hf rfl⟩
  · -- `signalfd[1] = -1`
    cases h
    refine .inr ⟨_, rfl, hw.started, hw.read, ⟨rfl, fun heq => ?_⟩, hw.handlers.main hf rfl⟩
    have hread := hw.read
    rw [← heq, hpcw.2, hpcw.1] at hread
    cases hread
  · -- `close (buf_fd)`
    cases h
    refine .inr ⟨_, rfl, hw.started, ?_, hpcw.1, hw.handlers.main hf rfl⟩
    exact (FdTable.close_other _ (Ne.symm hpcw.2)).trans hw.read
  · -- `miredo_run`: `exit (-retval)` with `retval = -1` when it fails
    split at h <;> rename_i hloops <;> cases h
    · exact .inr ⟨_, rfl, hw.started, hw.read, ⟨hpcw, rfl⟩, hw.handlers.main hf rfl⟩
    · refine .inr ⟨_, rfl, hw.started, hw.read, ⟨.inr (.inl ?_), .inl hpcw⟩, hw.handlers.main hf rfl⟩
      rw [miredo_run_retval, if_neg hloops]
      rfl
  · -- one turn of the loop of `teredo_server_relay`, then `exit (0)`
    split at h
    · cases h
    split at h <;> cases h
    · refine .inr ⟨_, rfl, hw.started, hw.read, ⟨.inl ?_, .inl hpcw.1⟩, hw.handlers.main hf rfl⟩
      rw [hpcw.2]
      rfl
    · exact .inl rfl
  · cases h

theorem WorkerShape.handle {n : Nat} {w w' : Proc} {pipes pipes' : Nat → List Int}
    (hw : WorkerShape n w) (h : w.handle pipes = some (w', pipes')) : WorkerShape n w' := by
  obtain ⟨fs, x, y, rfl⟩ := Proc.handle_frames_flags h
  exact ⟨hw.started, hw.read, hw.pc, hw.handlers.handle h⟩

theorem WorkerShape.deliver {n : Nat} {w w' : Proc} {sig : Sig} (hw : WorkerShape n w)
    (h : w.deliver sig = some w') : WorkerShape n w' := by
  obtain ⟨hd, -, -, rfl⟩ := Proc.deliver_cases h
  exact ⟨hw.started, hw.read, hw.pc, hw.handlers.deliver h⟩

/-- Wherever the worker is, its `signalfd[1]` is -1 or the write end of the current pipe. -/
theorem WorkerPc.signalfd1 {k : Nat} {w : Proc} (h : WorkerPc k w) :
    w.signalfd1 = -1 ∨ w.fds w.signalfd1 = some (.pipeWrite k) := by
  unfold WorkerPc at h
  split at h
  · exact .inr h
  · exact .inr h.1
  · exact .inl h.1
  · exact .inl h
  · exact .inl h.1
  · exact h.2
  · exact h.elim

theorem WorkerShape.kill {n : Nat} {w : Proc} (hw : WorkerShape n w) (sig : Nat) :
    WorkerShape n { w with pc := .exited (.signaled sig), frames := [] } := by
  exact ⟨hw.started, hw.read, ⟨.inr (.inr ⟨sig, rfl⟩), hw.pc.signalfd1⟩, hw.handlers.main rfl rfl⟩

/-- Every step keeps the invariant. -/
theorem Inv.step {e : Endian} {fds₀ : FdTable} {s s' : Sys} {a : Action} (hi : Inv fds₀ s)
    (h : step e s a = some s') : Inv fds₀ s' := by
  rcases step_sup_cases h with ⟨hf, o, h⟩ | ⟨sig, p', hp', rfl⟩ | ⟨p', pipes', hp', rfl⟩ | hwho
  · exact hi.of_supMain hf h
  · obtain ⟨hd, -, -, rfl⟩ := Proc.deliver_cases hp'
    exact ⟨hi.shape, hi.handlers.deliver hp'⟩
  · obtain ⟨fs, x, y, rfl⟩ := Proc.handle_frames_flags hp'
    exact ⟨hi.shape, hi.handlers.handle hp'⟩
  -- the worker's actions keep it the worker of the current generation
  obtain ⟨w, hw, ⟨o, -, hf, h⟩ | ⟨sig, w', -, -, hw', rfl⟩ | ⟨w', pipes', -, hw', rfl⟩ | ⟨sig, -, -, rfl⟩⟩ :=
    step_worker_cases hwho h
  all_goals have hws := (hi.shape.worker_some hw).2
  · rcases hws.of_workerMain hf h with rfl | ⟨w', rfl, hw'⟩
    exacts [hi, ⟨hi.shape.set_worker hw hw' s.pipes, hi.handlers⟩]
  · exact ⟨hi.shape.set_worker hw (hws.deliver hw') s.pipes, hi.handlers⟩
  · exact ⟨hi.shape.set_worker hw (hws.handle hw') pipes', hi.handlers⟩
  · exact ⟨hi.shape.set_worker hw (hws.kill sig) s.pipes, hi.handlers⟩

/-- The invariant holds in every reachable state. -/
theorem Reachable.inv {e : Endian} {fds₀ : FdTable} {s : Sys} (hr : Reachable e fds₀ s) :
    Inv fds₀ s := by
  induction hr with
  | init => exact ⟨⟨rfl, rfl, rfl, .inr fun _ => rfl⟩, ⟨fun _ _ h => (by cases h), fun f hf => absurd hf (List.not_mem_nil f),
    fun f hf => absurd hf (List.not_mem_nil f), List.nodup_nil⟩⟩
  | step a _ h ih => exact ih.step h

/-- A supervisor with a handler installed has its `signalfd[1]` at -1 or at the write end of
    the current pipe. -/
theorem SupShape.bridgeOk {fds₀ : FdTable} {s : Sys} (hs : SupShape fds₀ s)
    (hinst : ∃ sig, s.sup.disposition sig ≠ none) : BridgeOk s s.sup := by
  obtain ⟨sig, hsig⟩ := hinst
  have hpipe : ∀ {r w : Int} {ret : Int}, InGeneration fds₀ r w s.nextPipe ret → s.sup.signalfd0 = r →
      s.sup.signalfd1 = w → s.sup.fds = withPipe fds₀ r w s.current → BridgeOk s s.sup := by
    rintro r w ret hg rfl rfl hfds
    exact .inr ⟨hg.started, by rw [hfds]; exact withPipe_write _ _ _ _,
      by rw [hfds]; exact withPipe_read _ hg.ne⟩
  unfold SupShape at hs
  split at hs
  · exact hs.2.2.2.imp_right fun h => absurd (h sig) hsig
  · exact hs.2.2.2.1.imp_right fun h => absurd (h sig) hsig
  iterate 9 exact hpipe hs.1 rfl rfl hs.2.1
  · exact .inl hs.2.2.2.2
  · exact .inl hs.2.2.2.2
  · exact .inl hs.2.2.2.1
  · exact hs.2.2.resolve_right fun h => hsig (h sig)
  · exact hs.elim

/-- Both processes' handlers are as `InitSignals` installs them. -/
theorem Inv.handlersOk {fds₀ : FdTable} {s : Sys} (hi : Inv fds₀ s) {p : Proc}
    (hp : p = s.sup ∨ s.worker = some p) : HandlersOk p := by
  rcases hp with rfl | hw
  exacts [hi.handlers, (hi.shape.worker_some hw).2.handlers]

/-- A process with a handler installed, the supervisor or the worker, has its `signalfd[1]`
    at -1 or at the write end of the current pipe. -/
theorem Inv.bridgeOk {fds₀ : FdTable} {s : Sys} (hi : Inv fds₀ s) {p : Proc}
    (hp : p = s.sup ∨ s.worker = some p) (hinst : ∃ sig, p.disposition sig ≠ none) :
    BridgeOk s p := by
  rcases hp with rfl | hw
  · exact hi.shape.bridgeOk hinst
  · have hw := (hi.shape.worker_some hw).2
    exact hw.pc.signalfd1.imp_right fun h => ⟨hw.started, h, hw.read⟩

/-- A handler past its test writes to the write end of the current pipe, whose read end the
    same process holds. -/
theorem Inv.write_target {fds₀ : FdTable} {s : Sys} (hi : Inv fds₀ s) {p : Proc}
    (hp : p = s.sup ∨ s.worker = some p) {f : Frame} (hf : f ∈ p.frames) (hpc : f.pc ≠ .check) :
    0 < s.nextPipe ∧ p.fds p.signalfd1 = some (.pipeWrite s.current) ∧
      p.fds p.signalfd0 = some (.pipeRead s.current) := by
  have hhandlers := hi.handlersOk hp
  have hinst : p.disposition f.signum ≠ none := by
    rw [hhandlers.installed f hf]
    exact Option.some_ne_none _
  exact (hi.bridgeOk hp ⟨_, hinst⟩).resolve_left (hhandlers.open_fd f hf hpc)

/-- In every reachable state, in the supervisor and in the worker alike, a handler about
    to `write` writes to the write end of the current bridge pipe, whose read end the same
    process holds open at `signalfd[0]`; and a process with a handler installed has its
    `signalfd[1]` at -1 or at that write end. -/
theorem Reachable.bridge_open {e : Endian} {fds₀ : FdTable} {s : Sys} (hr : Reachable e fds₀ s)
    {p : Proc} (hp : p = s.sup ∨ s.worker = some p) :
    (∀ f ∈ p.frames, f.pc = .write → 0 < s.nextPipe ∧
      p.fds p.signalfd1 = some (.pipeWrite s.current) ∧
      p.fds p.signalfd0 = some (.pipeRead s.current)) ∧
    ((∃ sig, p.disposition sig ≠ none) → BridgeOk s p) :=
  ⟨fun _ hf hpc => hr.inv.write_target hp hf (by rw [hpc]; decide), hr.inv.bridgeOk hp⟩

/-- In the first generation SIGINT's `exit_handler` passes its test; it is about to write to
    the current pipe, whose read end the supervisor holds. -/
theorem Reachable.bridge_open_sample :
    ∃ s, run .little (Sys.init stdio)
        (firstGeneration ++ [.deliver .supervisor .SIGINT, .handle .supervisor]) = some s ∧
      (∃ f ∈ s.sup.frames, f.pc = .write) ∧ s.sup.fds s.sup.signalfd1 = some (.pipeWrite s.current) ∧
      s.sup.fds s.sup.signalfd0 = some (.pipeRead s.current) := by
  obtain ⟨s, hs, hframes⟩ := Option.map_eq_some'.mp
    (show (run .little (Sys.init stdio)
      (firstGeneration ++ [.deliver .supervisor .SIGINT, .handle .supervisor])).map
        (fun s => s.sup.frames) = some [⟨.exit_handler, .SIGINT, .write⟩] by decide)
  have hf : ⟨.exit_handler, .SIGINT, .write⟩ ∈ s.sup.frames := hframes ▸ List.mem_singleton_self _
  exact ⟨s, hs, ⟨_, hf, rfl⟩,
    ((Reachable.bridge_open (Reachable.init.reaches (run_reaches hs)) (.inl rfl)).1 _ hf rfl).2⟩

/-- The bridge joins the two processes of a generation: a handler of the supervisor writes
    into the current pipe, and every turn of the worker's relay loop watches that pipe's read
    end. The read set `teredo_server_relay` builds holds the worker's `signalfd[0]`, open on
    that read end, and the `nfds` it passes to `select` is above every descriptor of the set,
    whatever the server and the relay register, as long as they keep to `Registration.Ok`. -/
theorem Reachable.select_watches_bridge {e : Endian} {fds₀ : FdTable} {s : Sys} {w : Proc}
    (hr : Reachable e fds₀ s) (hw : s.worker = some w) {IFNAMSIZ PBUF : Nat}
    (tunnel : ipv6_tunnel.IPv6Tunnel IFNAMSIZ PBUF) {relay server : Option Registration}
    (hrelay : ∀ r, relay = some r → r.Ok) (hserver : ∀ r, server = some r → r.Ok) :
    (∀ f ∈ s.sup.frames, f.pc = .write → s.sup.fds s.sup.signalfd1 = some (.pipeWrite s.current)) ∧
      w.fds w.signalfd0 = some (.pipeRead s.current) ∧
      w.signalfd0 ∈ (readSet tunnel relay server w.signalfd0).2 ∧
      ∀ fd ∈ (readSet tunnel relay server w.signalfd0).2, fd < (readSet tunnel relay server w.signalfd0).1 :=
  ⟨fun _ hf hpc => (hr.inv.write_target (.inl rfl) hf (by rw [hpc]; decide)).2.1,
    (hr.inv.shape.worker_some hw).2.read, (mem_readSet tunnel relay server _).mpr (.inl rfl),
    readSet_covers tunnel relay server _ hrelay hserver⟩

/-- A tunnel open on descriptor 5. -/
def tunnelOn5 : ipv6_tunnel.IPv6Tunnel 0 0 := ⟨5, none, Buffer.zero 0, 0⟩

/-- In the first generation, with the tunnel open on 5, a relay that registers 6 and a server
    that registers 7 and 8, the worker's read set is 6, 5, 7, 8 and its `signalfd[0]`, 3, and
    `select` gets `nfds` 9. -/
theorem Reachable.select_watches_bridge_sample :
    ∃ s w, run .little (Sys.init stdio) firstGeneration = some s ∧ s.worker = some w ∧
      readSet tunnelOn5 (some ⟨[6], 6⟩) (some ⟨[7, 8], 8⟩) w.signalfd0 = (9, [6, 5, 7, 8, 3]) ∧
      (∀ f ∈ s.sup.frames, f.pc = .write →
        s.sup.fds s.sup.signalfd1 = some (.pipeWrite s.current)) ∧
      w.fds w.signalfd0 = some (.pipeRead s.current) ∧
      w.signalfd0 ∈ (readSet tunnelOn5 (some ⟨[6], 6⟩) (some ⟨[7, 8], 8⟩) w.signalfd0).2 ∧
      ∀ fd ∈ (readSet tunnelOn5 (some ⟨[6], 6⟩) (some ⟨[7, 8], 8⟩) w.signalfd0).2,
        fd < (readSet tunnelOn5 (some ⟨[6], 6⟩) (some ⟨[7, 8], 8⟩) w.signalfd0).1 := by
  obtain ⟨s, hs, hfd⟩ := Option.map_eq_some'.mp
    (show (run .little (Sys.init stdio) firstGeneration).map (fun s => s.worker.map (·.signalfd0)) =
      some (some 3) by decide)
  obtain ⟨w, hw, hw0⟩ := Option.map_eq_some'.mp hfd
  exact ⟨s, w, hs, hw, by rw [hw0]; decide,
    Reachable.select_watches_bridge (Reachable.init.reaches (run_reaches hs)) hw tunnelOn5
      (fun _ h => by cases h; decide) (fun _ h => by cases h; decide)⟩

/-- Once a process's `signalfd[1]` is -1 its handlers are no-ops: none has passed its test,
    and a handler step returns at the test, writing nothing and setting no flag. -/
theorem Reachable.closed_bridge_noop {e : Endian} {fds₀ : FdTable} {s : Sys}
    (hr : Reachable e fds₀ s) {p : Proc} (hp : p = s.sup ∨ s.worker = some p)
    (hfd : p.signalfd1 = -1) :
    (∀ f ∈ p.frames, f.pc = .check) ∧ ∀ pipes p' pipes', p.handle pipes = some (p', pipes') →
      pipes' = pipes ∧ p' = { p with frames := p.frames.tail } := by
  have hhandlers := hr.inv.handlersOk hp
  have hcheck : ∀ f ∈ p.frames, f.pc = .check := fun f hf => by
    by_contra hpc
    exact hhandlers.open_fd f hf hpc hfd
  refine ⟨hcheck, fun pipes p' pipes' h => ?_⟩
  obtain ⟨f, rest, hf, hcase⟩ := Proc.handle_cases h
  have hpc := hcheck f (hf ▸ List.mem_cons_self f rest)
  rcases hcase with ⟨-, -, rfl, rfl⟩ | ⟨-, -, hopen, -⟩ | ⟨hpc', -⟩ | ⟨hpc', -⟩
  · rw [hf]
    exact ⟨rfl, rfl⟩
  · exact absurd hfd hopen
  all_goals rw [hpc] at hpc'; cases hpc'

/-- After the first generation's worker has crashed and `DeinitSignals` has set
    `signalfd[1]` to -1, a SIGTERM to the supervisor starts a handler that can only return. -/
theorem Reachable.closed_bridge_noop_sample :
    ∃ s, run .little (Sys.init stdio) (firstGeneration ++ [.kill 11, .main .supervisor .next,
        .main .supervisor .next, .main .supervisor .next, .main .supervisor .next,
        .deliver .supervisor .SIGTERM]) = some s ∧
      s.sup.signalfd1 = -1 ∧ s.sup.frames ≠ [] ∧ ∀ f ∈ s.sup.frames, f.pc = .check := by
  obtain ⟨s, hs, hend⟩ := Option.map_eq_some'.mp
    (show (run .little (Sys.init stdio) (firstGeneration ++ [.kill 11, .main .supervisor .next,
        .main .supervisor .next, .main .supervisor .next, .main .supervisor .next,
        .deliver .supervisor .SIGTERM])).map (fun s => (s.sup.signalfd1, s.sup.frames.length)) =
      some (-1, 1) by decide)
  have hfd : s.sup.signalfd1 = -1 := congrArg Prod.fst hend
  have hlen : s.sup.frames.length = 1 := congrArg Prod.snd hend
  exact ⟨s, hs, hfd, fun h => by simp [h] at hlen,
    (Reachable.closed_bridge_noop (Reachable.init.reaches (run_reaches hs)) (.inl rfl) hfd).1⟩

/-- At the call of `miredo`, before any handler is installed, `signalfd[1]` holds the static
    0, neither -1 nor a write end: with the usual inherited descriptors it names standard
    input. -/
theorem Sys.init_signalfd1 :
    Reachable .little stdio (Sys.init stdio) ∧ (Sys.init stdio).sup.signalfd1 ≠ -1 ∧
      (Sys.init stdio).sup.fds (Sys.init stdio).sup.signalfd1 = some .other :=
  ⟨.init, by decide, rfl⟩

/-- Every generation starts, at `retval = 1`, with the descriptors `miredo` inherited, no
    block on the heap and no worker: on every path to another generation both ends of the
    pipe were closed and `conf.ifname` freed. -/
theorem Reachable.generation_start {e : Endian} {fds₀ : FdTable} {s : Sys}
    (hr : Reachable e fds₀ s) (htop : s.sup.pc = .top) :
    s.sup.fds = fds₀ ∧ s.sup.heap = [] ∧ s.worker = none := by
  have hs := hr.inv.shape
  simp only [SupShape, htop] at hs
  exact ⟨hs.1, hs.2.1, hs.2.2.1⟩

/-- After a first generation whose worker crashes, the supervisor starts a second one with
    the descriptors it inherited. -/
theorem Reachable.generation_start_sample :
    ∃ s, run .little (Sys.init stdio) crashedGeneration = some s ∧
      s.sup.pc = .top ∧ s.sup.fds = stdio ∧ s.sup.heap = [] ∧ s.worker = none := by
  obtain ⟨s, hs, hpc⟩ := Option.map_eq_some'.mp
    (show (run .little (Sys.init stdio) crashedGeneration).map (fun s => s.sup.pc) = some .top by
      decide)
  exact ⟨s, hs, hpc, Reachable.generation_start (Reachable.init.reaches (run_reaches hs)) hpc⟩

end miredo.supervisor
