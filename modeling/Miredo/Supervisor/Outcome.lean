import Miredo.Supervisor.Signals

namespace miredo.supervisor

open miredo miredo.worker

/-- The statements from `DeinitSignals` to the decision, where `status` is that of the
    worker `waitpid` reaped. -/
def Pc.reaped : Pc → Bool
  | .deinit _ | .closeRead | .decide => true
  | _ => false

/-- Only `waitpid` leads into that stretch, and it ends at the decision. -/
theorem Pc.reaped_succ (p : Pc) :
    (∀ q ∈ p.succ, q.reaped → p = .waitpid ∨ p.reaped) ∧
      (p.reaped → p = .decide ∨ ∀ q ∈ p.succ, q.reaped) := by
  cases p <;> (try rename_i x; cases x) <;> first | decide | simp [Pc.succ, Pc.reaped]

/-- After `waitpid` no worker is left, so a main-program step keeps the status it
    collected. -/
theorem Inv.supMain_status {e : Endian} {fds₀ : FdTable} {s s' : Sys} {o : Outcome}
    (hi : Inv fds₀ s) (hp : s.sup.pc.reaped) (h : supMain e s o = some s') :
    s'.sup.status = s.sup.status :=
  (supMain_bridge h).2.2.resolve_right fun ⟨w, hw, _⟩ => by
    rcases (hi.shape.worker_some hw).1 with hpc | hpc <;> rw [hpc] at hp <;> cases hp

/-- The step `a` from `s` ends the worker with status `st`: `exit (0)` once the loop of
    `teredo_server_relay` breaks on what `select` returned, `exit (1)` when `miredo_run`
    returns -1 before that loop, or the signal of a kill. -/
inductive ExitStep (e : Endian) (s : Sys) : Action → WaitStatus → Prop
  | relay {w : Proc} {IFNAMSIZ PBUF : Nat} (tunnel : ipv6_tunnel.IPv6Tunnel IFNAMSIZ PBUF)
      (relay server : Option Registration) (n : Int) (ready : List Int) (hw : s.worker = some w)
      (hpc : w.pc = .select) (hbreak : selectBreaks n ready w.signalfd0 = true) :
      ExitStep e s (.main .worker (.select tunnel relay server n ready)) (.exited 0)
  | setup {w : Proc} (env : RunEnv) (hw : s.worker = some w) (hpc : w.pc = .run)
      (hret : (miredo_run e w.conf env).2 = -1) :
      ExitStep e s (.main .worker (.run env)) (.exited 1)
  | kill (n : Nat) : ExitStep e s (.kill n) (.signaled n)

/-- `st` is the status the worker of the generation of `s` ended with: an `ExitStep` of that
    generation lies on the way to `s`. -/
def ExitedBy (e : Endian) (fds₀ : FdTable) (s : Sys) (st : WaitStatus) : Prop :=
  ∃ s₀ a s₁, Reachable e fds₀ s₀ ∧ step e s₀ a = some s₁ ∧
    ExitStep e s₀ a st ∧ ReachesInGeneration e s₁ s

theorem ExitedBy.ofWorker {e : Endian} {fds₀ : FdTable} {s : Sys} {st : WaitStatus}
    (hx : ExitedBy e fds₀ s st) : st.OfWorker := by
  obtain ⟨_, _, _, -, -, hx, -⟩ := hx
  cases hx
  exacts [.inl rfl, .inr (.inl rfl), .inr (.inr ⟨_, rfl⟩)]

theorem ExitedBy.step {e : Endian} {fds₀ : FdTable} {s s' : Sys} {st : WaitStatus} {a : Action}
    (hx : ExitedBy e fds₀ s st) (htop : s.sup.pc ≠ .top) (h : step e s a = some s') :
    ExitedBy e fds₀ s' st := by
  obtain ⟨s₀, a₀, s₁, hr, h₀, hx, hg⟩ := hx
  exact ⟨s₀, a₀, s₁, hr, h₀, hx, hg.tail ⟨⟨a, h⟩, htop⟩⟩

/-- A step of the worker's main program that terminates it is an `ExitStep`. -/
theorem WorkerShape.exitStep {e : Endian} {s s' : Sys} {w w' : Proc} {o : Outcome}
    {st : WaitStatus} (hws : WorkerShape s.nextPipe w) (hw : s.worker = some w)
    (h : workerMain e s w o = some s') (hw' : s'.worker = some w') (hst : w'.pc = .exited st) :
    ExitStep e s (.main .worker o) st := by
  have hpcw := hws.pc
  unfold workerMain at h
  split at h <;> rename_i hpc
  · cases h; cases hw'; cases hst
  · cases h; cases hw'; cases hst
  · cases h; cases hw'; cases hst
  · -- `miredo_run` returns -1 unless it reaches the loop
    split at h <;> rename_i hloops <;> cases h <;> cases hw' <;> cases hst
    have hret := (miredo_run_retval e w.conf _).trans (if_neg hloops)
    rw [hret, exitStatus_neg_one]
    exact .setup _ hw hpc hret
  · -- the loop breaks with `retval = 0`
    simp only [WorkerPc, hpc] at hpcw
    split at h
    · cases h
    split at h <;> rename_i hbreak <;> cases h
    · cases hw'
      cases hst
      rw [hpcw.2, exitStatus_zero]
      exact .relay _ _ _ _ _ hw hpc hbreak
    · rw [hw] at hw'
      cases hw'
      rw [hpc] at hst
      cases hst
  · cases h

/-- Every status the supervisor collects with `waitpid`, and every status an exited worker
    holds, is one the worker of its generation left: `exit (0)` once its relay loop broke,
    `exit (1)` when `miredo_run` returned -1, or the signal that killed it. -/
theorem Reachable.worker_status {e : Endian} {fds₀ : FdTable} {s : Sys}
    (hr : Reachable e fds₀ s) :
    s.sup.status.OfWorker ∧ (s.sup.pc.reaped → ExitedBy e fds₀ s s.sup.status) ∧
      ∀ w, s.worker = some w → ∀ st, w.pc = .exited st → ExitedBy e fds₀ s st := by
  induction hr with
  | init => exact ⟨.inl rfl, fun h => (by cases h), fun w hw => (by cases hw)⟩
  | @step s s' a hr h ih =>
    obtain ⟨hst, hreap, hexit⟩ := ih
    have hi := hr.inv
    -- what held before a step inside the generation still holds after it
    have hkeep : (s.sup.pc.reaped → ExitedBy e fds₀ s' s.sup.status) ∧
        ∀ w, s.worker = some w → ∀ st, w.pc = .exited st → ExitedBy e fds₀ s' st := by
      refine ⟨fun hp => (hreap hp).step (fun htop => ?_) h, fun w hw st hpc => ?_⟩
      · rw [htop] at hp
        cases hp
      · refine (hexit w hw st hpc).step (fun htop => ?_) h
        rcases (hi.shape.worker_some hw).1 with hpc | hpc <;> rw [hpc] at htop <;> cases htop
    rcases step_sup_cases h with ⟨-, o, h'⟩ | ⟨sig, p', hp', rfl⟩ | ⟨p', pipes', hp', rfl⟩ | hwho
    · -- only `waitpid` sets `status`, to that of the worker it reaps and forgets
      obtain ⟨-, hworker, hstatus⟩ := supMain_bridge h'
      refine ⟨?_, fun hp => ?_, fun w' hw' st hpc => ?_⟩
      · rcases hstatus with hst' | ⟨w, hw, hpc⟩
        exacts [hst' ▸ hst, (hexit w hw _ hpc).ofWorker]
      · rcases (Pc.reaped_succ _).1 _ (supMain_frame h').1 hp with hpc | hpc
        · obtain ⟨-, w, hw, hpcw⟩ := supMain_waitpid h' hpc
          exact hkeep.2 w hw _ hpcw
        · rw [hi.supMain_status hpc h']
          exact hkeep.1 hpc
      · rcases hworker with hw | hw | ⟨-, hw⟩ <;> rw [hw] at hw'
        · exact hkeep.2 w' hw' st hpc
        · cases hw'
        · cases hw'
          cases hpc
    · obtain ⟨_, -, -, rfl⟩ := Proc.deliver_cases hp'
      exact ⟨hst, hkeep⟩
    · obtain ⟨_, _, _, rfl⟩ := Proc.handle_frames_flags hp'
      exact ⟨hst, hkeep⟩
    · -- the worker's own exit starts the record
      have hsup := (step_worker_sup hwho h).1
      refine ⟨hsup ▸ hst, fun hp => ?_, fun w' hw' st hpc => ?_⟩
      · rw [hsup] at hp ⊢
        exact hkeep.1 hp
      obtain ⟨w, hw, ⟨o, rfl, -, h'⟩ | ⟨sig, w'', -, -, hd, rfl⟩ | ⟨w'', pipes', -, hh, rfl⟩ |
          ⟨n, rfl, -, rfl⟩⟩ := step_worker_cases hwho h
      · exact ⟨s, _, s', hr, h, (hi.shape.worker_some hw).2.exitStep hw h' hw' hpc, .refl⟩
      · cases hw'
        obtain ⟨_, -, -, rfl⟩ := Proc.deliver_cases hd
        exact hkeep.2 w hw st hpc
      · cases hw'
        obtain ⟨_, _, _, rfl⟩ := Proc.handle_frames_flags hh
        exact hkeep.2 w hw st hpc
      · cases hw'
        cases hpc
        exact ⟨s, _, _, hr, h, .kill n, .refl⟩

/-- The failed setup's worker leaves `exit (1)`, which the supervisor holds after
    `waitpid`. -/
theorem Reachable.worker_status_failedSetup :
    ∃ s, run .little (Sys.init stdio) (failedSetup.take 16) = some s ∧
      s.sup.pc.reaped = true ∧ s.sup.status = .exited 1 ∧ ExitedBy .little stdio s (.exited 1) := by
  obtain ⟨s, hs, hend⟩ := Option.map_eq_some'.mp
    (show (run .little (Sys.init stdio) (failedSetup.take 16)).map
      (fun s => (s.sup.pc.reaped, s.sup.status)) = some (true, .exited 1) by decide)
  have hp : s.sup.pc.reaped = true := congrArg Prod.fst hend
  have hst : s.sup.status = .exited 1 := congrArg Prod.snd hend
  exact ⟨s, hs, hp, hst,
    hst ▸ (Reachable.worker_status (Reachable.init.reaches (run_reaches hs))).2.1 hp⟩

/-- After a failed `miredo_run` the generation is bound to end `miredo` with -1 unless a
    signal asks otherwise: the worker has left `exit (1)`, the supervisor holds that status
    after `waitpid`, and it returns with `retval = 1`, or 0 on a terminal signal, or comes
    back to the top of the loop on a reload request. -/
def FailCommitted (s : Sys) : Prop :=
  ((s.sup.pc = .free ∨ s.sup.pc = .waitpid) ∧
      ∃ w, s.worker = some w ∧ w.pc = .exited (.exited 1)) ∨
    (s.sup.pc.reaped ∧ s.sup.status = .exited 1) ∨
    (s.sup.pc = .returned ∧
      (s.sup.retval = 1 ∨ s.sup.retval = 0 ∧ s.sup.should_exit ≠ 0)) ∨
    (s.sup.pc = .top ∧ s.sup.should_reload ≠ 0)

/-- The decision on a worker that left `exit (1)`. -/
theorem decideRetval_exit_one {p : Proc} (hst : p.status = .exited 1) :
    decideRetval p = 0 ∧ p.should_exit ≠ 0 ∨ decideRetval p = 2 ∧ p.should_reload ≠ 0 ∨
      decideRetval p = 1 := by
  unfold decideRetval
  by_cases hx : p.should_exit ≠ 0
  · exact .inl ⟨if_pos hx, hx⟩
  by_cases hy : p.should_reload ≠ 0
  · exact .inr (.inl ⟨by rw [if_neg hx, if_pos hy], hy⟩)
  · rw [if_neg hx, if_neg hy, hst]
    exact .inr (.inr rfl)

theorem FailCommitted.of_supMain {e : Endian} {fds₀ : FdTable} {s s' : Sys} {o : Outcome}
    (hi : Inv fds₀ s) (hi' : Inv fds₀ s') (hc : FailCommitted s) (htop : s.sup.pc ≠ .top)
    (h : supMain e s o = some s') : FailCommitted s' := by
  obtain ⟨hsucc, -, -, -, hdec⟩ := supMain_frame h
  rcases hc with ⟨hpc | hpc, w, hw, hpcw⟩ | ⟨hp, hst⟩ | ⟨hret, -⟩ | ⟨hpc, -⟩
  · -- `free` keeps the worker for `waitpid`
    rw [hpc] at hsucc
    have hpc' : s'.sup.pc = .waitpid := List.mem_singleton.mp hsucc
    refine .inl ⟨.inr hpc', w, ?_, hpcw⟩
    rcases (supMain_bridge h).2.1 with hw' | hw' | ⟨hfork, -⟩
    · rw [hw', hw]
    · have hs' := hi'.shape
      simp only [SupShape, hpc', hw', reduceCtorEq, false_and, exists_false, and_false] at hs'
    · rw [hpc] at hfork
      cases hfork
  · -- `waitpid` collects the status
    obtain ⟨-, w', hw', hpcw'⟩ := supMain_waitpid h hpc
    rw [hw] at hw'
    cases hw'
    rw [hpc] at hsucc
    exact .inr (.inl ⟨by rw [List.mem_singleton.mp hsucc]; rfl,
      (Pc.exited.inj (hpcw'.symm.trans hpcw))⟩)
  · -- the statements after `waitpid` keep it, and the decision acts on it
    rcases (Pc.reaped_succ _).2 hp with hpc | hreaped
    · obtain ⟨hret, hpc'⟩ := hdec hpc
      have hexit : s'.sup.should_exit = s.sup.should_exit :=
        supMain_flag h .exit_handler (by rw [hpc]; decide)
      have hreload : s'.sup.should_reload = s.sup.should_reload :=
        supMain_flag h .reload_handler (by rw [hpc]; decide)
      rcases decideRetval_exit_one hst with ⟨h0, hx⟩ | ⟨h2, hy⟩ | h1
      · rw [h0, if_neg (by decide)] at hpc'
        exact .inr (.inr (.inl ⟨hpc', .inr ⟨hret.trans h0, hexit ▸ hx⟩⟩))
      · rw [h2, if_pos rfl] at hpc'
        exact .inr (.inr (.inr ⟨hpc', hreload ▸ hy⟩))
      · rw [h1, if_neg (by decide)] at hpc'
        exact .inr (.inr (.inl ⟨hpc', .inl (hret.trans h1)⟩))
    · exact .inr (.inl ⟨hreaped _ hsucc, (hi.supMain_status hp h).trans hst⟩)
  · rw [hret] at hsucc
    cases hsucc
  · exact absurd hpc htop

/-- Every step taken before the top of the loop keeps the generation committed. -/
theorem FailCommitted.step {e : Endian} {fds₀ : FdTable} {s s' : Sys} {a : Action}
    (hi : Inv fds₀ s) (hi' : Inv fds₀ s') (hc : FailCommitted s) (htop : s.sup.pc ≠ .top)
    (h : step e s a = some s') : FailCommitted s' := by
  rcases step_sup_cases h with ⟨-, o, h⟩ | ⟨sig, p', hp', rfl⟩ | ⟨p', pipes', hp', rfl⟩ | hwho
  · exact hc.of_supMain hi hi' htop h
  · obtain ⟨_, -, -, rfl⟩ := Proc.deliver_cases hp'
    exact hc
  · -- a handler only sets flags
    have hexit := (Proc.handle_pending hp' .exit_handler).2.2.1
    obtain ⟨_, _, _, rfl⟩ := Proc.handle_frames_flags hp'
    rcases hc with hc | hc | ⟨hpc, hret⟩ | ⟨hpc, -⟩
    · exact .inl hc
    · exact .inr (.inl hc)
    · exact .inr (.inr (.inl ⟨hpc, hret.imp_right fun ⟨h0, hx⟩ => ⟨h0, hexit hx⟩⟩))
    · exact absurd hpc htop
  · -- the worker's steps leave the supervisor alone, and an exited worker only runs handlers
    rcases hc with ⟨hpc, w, hw, hpcw⟩ | hc
    · obtain ⟨w₀, hw₀, hcases⟩ := step_worker_cases hwho h
      obtain rfl : w = w₀ := Option.some.inj (hw.symm.trans hw₀)
      have hdead : w.alive = false := by simp [Proc.alive, hpcw]
      rcases hcases with ⟨o, -, -, h'⟩ | ⟨-, -, -, halive, -⟩ | ⟨w', pipes', -, hh, rfl⟩ |
          ⟨-, -, halive, -⟩
      · rw [workerMain_exited o hpcw] at h'
        cases h'
      · exact absurd halive (by rw [hdead]; decide)
      · obtain ⟨_, _, _, rfl⟩ := Proc.handle_frames_flags hh
        exact .inl ⟨hpc, _, rfl, hpcw⟩
      · exact absurd halive (by rw [hdead]; decide)
    · rw [FailCommitted, (step_worker_sup hwho h).1]
      exact .inr hc

theorem Reachable.failCommitted_reaches {e : Endian} {fds₀ : FdTable} {s s' : Sys}
    (hr : Reachable e fds₀ s) (hc : FailCommitted s) (h : ReachesInGeneration e s s') :
    FailCommitted s' := by
  induction h with
  | refl => exact hc
  | tail hreach hnext ih =>
    obtain ⟨⟨a, ha⟩, htop⟩ := hnext
    have hr₁ := hr.reaches (ReachesInGeneration.reaches hreach)
    exact ih.step hr₁.inv (Reachable.step a hr₁ ha).inv htop ha

/-- `miredo` returns `-retval` with `retval` 0 or 1: the 2 that makes it loop is never
    returned. A worker whose `miredo_run` fails leaves `exit (1)`; until the top of the loop
    the supervisor then returns only with `retval = 1`, or 0 on a terminal signal, and starts
    another generation only on a reload request. -/
theorem returned_retval {e : Endian} {fds₀ : FdTable} {s : Sys}
    (hr : Reachable e fds₀ s) :
    (s.sup.pc = .returned → s.sup.retval = 0 ∨ s.sup.retval = 1) ∧
      ∀ w env s₁ s', s.worker = some w → miredo_run_loops e w.conf env = false →
        step e s (.main .worker (.run env)) = some s₁ → ReachesInGeneration e s₁ s' →
        s₁.worker = some { w with pc := .exited (.exited 1) } ∧
          (s'.sup.pc = .returned →
            s'.sup.retval = 1 ∨ s'.sup.retval = 0 ∧ s'.sup.should_exit ≠ 0) ∧
          (s'.sup.pc = .top → s'.sup.should_reload ≠ 0) := by
  refine ⟨fun hret => ?_, fun w env s₁ s' hw hfail hrun hs' => ?_⟩
  · have hs := hr.inv.shape
    simp only [SupShape, hret] at hs
    exact hs.2.1
  obtain ⟨-, h⟩ := step_main_worker hw hrun
  have hw₁ := workerMain_run_failed h hfail
  have hc₁ : FailCommitted s₁ :=
    .inl ⟨(workerMain_sup h).1 ▸ (hr.inv.shape.worker_some hw).1, _, hw₁, rfl⟩
  refine ⟨hw₁, fun hret => ?_, fun htop => ?_⟩ <;>
    rcases (Reachable.step _ hr hrun).failCommitted_reaches hc₁ hs' with
      ⟨hpc | hpc, -⟩ | ⟨hp, -⟩ | ⟨hpc, h1⟩ | ⟨hpc, hy⟩
  all_goals first
    | exact h1
    | exact hy
    | (rw [hret] at hpc; cases hpc)
    | (rw [htop] at hpc; cases hpc)
    | (rw [hret] at hp; cases hp)
    | (rw [htop] at hp; cases hp)

/-- A worker whose tunnel cannot be set up leaves `exit (1)`, and the supervisor returns
    with `retval = 1` instead of starting another generation. -/
theorem returned_retval_failedSetup :
    ∃ s w s₁ s', run .little (Sys.init stdio) (failedSetup.take 13) = some s ∧
      s.worker = some w ∧
      miredo_run_loops .little w.conf { clientEnv with tunnel_failed := true } = false ∧
      step .little s (.main .worker (.run { clientEnv with tunnel_failed := true })) = some s₁ ∧
      runInGeneration .little s₁ (failedSetup.drop 14) = some s' ∧ s'.sup.pc = .returned ∧
      (s'.sup.retval = 1 ∨ s'.sup.retval = 0 ∧ s'.sup.should_exit ≠ 0) := by
  have hrun := show ((run .little (Sys.init stdio) (failedSetup.take 13)).bind fun s =>
      s.worker.bind fun w =>
        (step .little s (.main .worker (.run { clientEnv with tunnel_failed := true }))).bind
          fun s₁ => (runInGeneration .little s₁ (failedSetup.drop 14)).map fun s' =>
            (miredo_run_loops .little w.conf { clientEnv with tunnel_failed := true }, s'.sup.pc)) =
      some (false, .returned) by decide
  simp only [Option.bind_eq_some, Option.map_eq_some', Prod.mk.injEq] at hrun
  obtain ⟨s, hs, w, hw, s₁, h₁, s', h', hfail, hret⟩ := hrun
  have h := (returned_retval (Reachable.init.reaches (run_reaches hs))).2 w _ s₁ s' hw
    hfail h₁ (runInGeneration_reaches h')
  exact ⟨s, w, s₁, s', hs, hw, hfail, h₁, h', hret, h.2.1 hret⟩

/-- The steps that leave the loop: a failed `pipe`, `ParseConf` or `fork`, which changes only
    the program counter, and the decision after `DeinitSignals`. -/
theorem supMain_returned {e : Endian} {s s' : Sys} {o : Outcome} (h : supMain e s o = some s')
    (hret : s'.sup.pc = .returned) :
    (s.sup.pc = .pipe ∨ s.sup.pc = .parseConf ∨ s.sup.pc = .fork) ∧
        s' = { s with sup := { s.sup with pc := .returned } } ∨
      s.sup.pc = .decide ∧
        s' = { s with sup := { s.sup with pc := .returned, retval := decideRetval s.sup } } := by
  have hsucc := (supMain_frame h).1
  rw [hret] at hsucc
  unfold supMain at h
  dsimp only at h
  rcases hpc : s.sup.pc with _ | _ | _ | _ | sig | _ | _ | _ | _ | c | _ | _ | _ | c | _ | _ | st
  all_goals (try cases sig) <;> (try cases c)
  all_goals rw [hpc] at hsucc h
  all_goals first | (simp [Pc.succ] at hsucc; done) | skip
  · -- `pipe`
    cases o with
    | fail => cases h; exact .inl ⟨.inl rfl, rfl⟩
    | pipe r w => dsimp only at h; split at h <;> cases h; simp at hret
    | _ => cases h
  · -- `ParseConf`
    cases o with
    | conf cnf =>
      dsimp only at h
      split at h <;> cases h
      · exact .inl ⟨.inr (.inl rfl), rfl⟩
      · simp at hret
    | _ => cases h
  · -- `fork`
    cases o with
    | fail => cases h; exact .inl ⟨.inr (.inr rfl), rfl⟩
    | next => cases h; simp at hret
    | _ => cases h
  · -- the decision after `DeinitSignals`
    cases o with
    | next =>
      cases h
      exact .inr ⟨rfl, by simp at hret; rw [if_neg hret]⟩
    | _ => cases h

/-- What `miredo` leaves behind when it returns: the descriptors it inherited and no block on
    the heap, always when it returns 0; or, when it returns -1 after a failed `ParseConf` or
    `fork` (the `continue` skips `DeinitSignals`), both ends of the last bridge pipe still
    open with `signalfd[1]` armed for the handlers, and, after a failed `fork`, the
    `InterfaceName` block that `free` never got to. -/
theorem Reachable.returned_resources {e : Endian} {fds₀ : FdTable} {s : Sys}
    (hr : Reachable e fds₀ s) (hret : s.sup.pc = .returned) :
    s.sup.fds = fds₀ ∧ s.sup.heap = [] ∨
      s.sup.retval = 1 ∧ s.sup.signalfd1 ≠ -1 ∧
        s.sup.fds = withPipe fds₀ s.sup.signalfd0 s.sup.signalfd1 s.current ∧
        (s.sup.heap = [] ∨ s.sup.heap = s.sup.conf.ifname.toList) := by
  induction hr with
  | init => cases hret
  | @step s s' a hr h ih =>
    rcases step_sup_cases h with ⟨-, o, h⟩ | ⟨sig, p', hp', rfl⟩ | ⟨p', pipes', hp', rfl⟩ | hwho
    · -- the step that leaves the loop, from the shape of the state before it
      have hs := hr.inv.shape
      rcases supMain_returned h hret with ⟨hpc | hpc | hpc, rfl⟩ | ⟨hpc, rfl⟩ <;>
        simp only [SupShape, hpc] at hs
      · exact .inl ⟨hs.1, hs.2.1⟩
      · obtain ⟨hgen, hfds, hheap, -⟩ := hs
        exact .inr ⟨hgen.retval, (lt_of_lt_of_le (by decide) hgen.nonneg).ne', hfds, .inl hheap⟩
      · obtain ⟨hgen, hfds, hheap, -⟩ := hs
        exact .inr ⟨hgen.retval, (lt_of_lt_of_le (by decide) hgen.nonneg).ne', hfds, .inr hheap⟩
      · exact .inl ⟨hs.1, hs.2.1⟩
    · obtain ⟨_, -, -, rfl⟩ := Proc.deliver_cases hp'
      exact ih hret
    · obtain ⟨_, _, _, rfl⟩ := Proc.handle_frames_flags hp'
      exact ih hret
    · obtain ⟨hsup, hnext, -⟩ := step_worker_sup hwho h
      simp only [Sys.current, hsup, hnext] at hret ⊢
      exact ih hret

/-- A first generation whose file names an interface, stored in block 7, and whose `fork`
    fails. -/
def failedFork : List Action :=
  [.main .supervisor .next, .main .supervisor (.pipe 3 4), .main .supervisor .next,
    .main .supervisor .next, .main .supervisor .next, .main .supervisor .next,
    .main .supervisor .next, .main .supervisor .next,
    .main .supervisor (.conf { emptyFile with InterfaceName := some 7 }), .main .supervisor .fail]

/-- After a failed `fork`, `miredo` returns -1 holding both ends of the bridge pipe and the
    block of the interface name. -/
theorem Reachable.returned_resources_failedFork :
    ∃ s, run .little (Sys.init stdio) failedFork = some s ∧ s.sup.pc = .returned ∧
      s.sup.heap = [7] ∧ s.sup.fds 3 = some (.pipeRead 0) ∧ s.sup.fds 4 = some (.pipeWrite 0) ∧
      (s.sup.fds = stdio ∧ s.sup.heap = [] ∨
        s.sup.retval = 1 ∧ s.sup.signalfd1 ≠ -1 ∧
          s.sup.fds = withPipe stdio s.sup.signalfd0 s.sup.signalfd1 s.current ∧
          (s.sup.heap = [] ∨ s.sup.heap = s.sup.conf.ifname.toList)) := by
  obtain ⟨s, hs, hend⟩ := Option.map_eq_some'.mp
    (show (run .little (Sys.init stdio) failedFork).map
        (fun s => (s.sup.pc, s.sup.heap, s.sup.fds 3, s.sup.fds 4)) =
      some (.returned, [7], some (.pipeRead 0), some (.pipeWrite 0)) by decide)
  simp only [Prod.mk.injEq] at hend
  obtain ⟨hpc, hheap, h3, h4⟩ := hend
  exact ⟨s, hs, hpc, hheap, h3, h4,
    Reachable.returned_resources (Reachable.init.reaches (run_reaches hs)) hpc⟩

theorem Proc.handle_isSome {p : Proc} (hf : p.frames ≠ []) (pipes : Nat → List Int) :
    (p.handle pipes).isSome := by
  unfold Proc.handle
  split
  · contradiction
  · split <;> rfl

/-- The supervisor's main program can move at every point of its loop but two: `waitpid`
    before the worker has terminated, and after it has returned. -/
theorem SupShape.supMain_enabled {e : Endian} {fds₀ : FdTable} {s : Sys} (hs : SupShape fds₀ s)
    (hret : s.sup.pc ≠ .returned)
    (hwait : s.sup.pc = .waitpid → ∃ w st, s.worker = some w ∧ w.pc = .exited st) :
    ∃ o s', supMain e s o = some s' := by
  unfold supMain
  dsimp only
  rcases hpc : s.sup.pc with _ | _ | _ | _ | sig | _ | _ | _ | _ | c | _ | _ | _ | c | _ | _ | st
  all_goals (try cases sig) <;> (try cases c)
  all_goals first
    | exact absurd hpc hret
    | (refine ⟨.next, Option.isSome_iff_exists.mp ?_⟩; rfl)
    | (refine ⟨.fail, Option.isSome_iff_exists.mp ?_⟩; rfl)
    | (simp only [SupShape, hpc] at hs; done)
    | skip
  · -- `ParseConf` succeeds or fails on any file
    refine ⟨.conf emptyFile, ?_⟩
    dsimp only
    split <;> exact ⟨_, rfl⟩
  · obtain ⟨w, st, hw, hwpc⟩ := hwait hpc
    refine ⟨.next, ?_⟩
    rw [hw]
    dsimp only
    rw [hwpc]
    exact ⟨_, rfl⟩

/-- How many main-program steps the supervisor needs at most, from each point of its loop, to
    leave it, when the next `pipe` fails. -/
def Pc.dist : Pc → Nat
  | .returned => 0
  | .pipe => 1
  | .top => 2
  | .decide => 3
  | .closeRead => 4
  | .deinit .close => 5
  | .deinit .clear => 6
  | .deinit .load => 7
  | .waitpid => 8
  | .free => 9
  | .fork => 10
  | .parseConf => 11
  | .sigaction .SIGHUP => 12
  | .sigaction .SIGTERM => 13
  | .sigaction .SIGQUIT => 14
  | .sigaction .SIGINT => 15
  | .clearReload => 16
  | .clearExit => 17
  | _ => 0

/-- Every step of the loop but a successful `pipe` brings the supervisor nearer its end. -/
theorem Pc.dist_succ {p : Pc} (hp : p ≠ .pipe) : ∀ q ∈ p.succ, q.dist < p.dist := by
  cases p <;> (try rename_i x; cases x) <;> first | decide | exact absurd rfl hp | simp [Pc.succ]

/-- What a handler has still to do: three steps at its test, two before the `write`, one
    before the assignment. -/
def Frame.weight (f : Frame) : Nat :=
  match f.pc with
  | .check => 3
  | .write => 2
  | .assign => 1

/-- The weight of a stack of running handlers. -/
@[simp]
def Frame.stackWeight : List Frame → Nat
  | [] => 0
  | f :: fs => f.weight + Frame.stackWeight fs

/-- A handler step lowers the weight of the running handlers. -/
theorem Proc.handle_weight {p p' : Proc} {pipes pipes' : Nat → List Int}
    (h : p.handle pipes = some (p', pipes')) :
    Frame.stackWeight p'.frames < Frame.stackWeight p.frames := by
  obtain ⟨f, rest, hf, hcase⟩ := Proc.handle_cases h
  rw [hf]
  rcases hcase with ⟨hpc, -, rfl, -⟩ | ⟨hpc, -, -, rfl, -⟩ | ⟨hpc, rfl, -⟩ | ⟨hpc, rfl, -⟩ <;>
    simp [Frame.weight, hpc]

/-- A ranking of states that goes down along the way out of the loop: the supervisor's
    handlers run, a live worker is killed, the main program moves on, and the next `pipe`
    fails. -/
def Sys.rank (s : Sys) : Nat :=
  2 * s.sup.pc.dist + Frame.stackWeight s.sup.frames + if s.worker.any Proc.alive then 1 else 0

/-- From every reachable state in which the supervisor has not returned, some action lowers
    the rank. -/
theorem rank_step {e : Endian} {fds₀ : FdTable} {s : Sys} (hr : Reachable e fds₀ s)
    (hret : s.sup.pc ≠ .returned) : ∃ a s', step e s a = some s' ∧ s'.rank < s.rank := by
  have hi := hr.inv
  by_cases hf : s.sup.frames = []
  swap
  · -- the supervisor's innermost handler takes a step
    obtain ⟨⟨p', pipes'⟩, hh⟩ := Option.isSome_iff_exists.mp (Proc.handle_isSome hf s.pipes)
    have hpc : p'.pc = s.sup.pc := by
      obtain ⟨_, _, _, rfl⟩ := Proc.handle_frames_flags hh
      rfl
    refine ⟨.handle .supervisor, { s with sup := p', pipes := pipes' }, by simp [step, hh], ?_⟩
    have hw := Proc.handle_weight hh
    simp only [Sys.rank, hpc]
    omega
  by_cases hlive : ∃ w, s.worker = some w ∧ w.alive
  · -- a live worker is killed
    obtain ⟨w, hw, halive⟩ := hlive
    have hdead : ({ w with pc := .exited (.signaled 9), frames := [] } : Proc).alive = false := rfl
    refine ⟨.kill 9, { s with worker := some { w with pc := .exited (.signaled 9), frames := [] } },
      by simp [step, hw, halive], ?_⟩
    simp [Sys.rank, hw, halive, hdead]
  push_neg at hlive
  have hdead : s.worker.any Proc.alive = false := by
    rcases hws : s.worker with _ | w
    · rfl
    · simpa using hlive w hws
  by_cases hpipe : s.sup.pc = .pipe
  · -- `pipe` fails
    refine ⟨.main .supervisor .fail, { s with sup := { s.sup with pc := .returned } },
      by rw [step, if_pos hf]; unfold supMain; dsimp only; rw [hpipe], ?_⟩
    simp only [Sys.rank, hpipe, hf, hdead]
    decide
  -- the main program moves on; at `waitpid` the worker has terminated
  have hwait : s.sup.pc = .waitpid → ∃ w st, s.worker = some w ∧ w.pc = .exited st := by
    intro hpc
    have hs := hi.shape
    simp only [SupShape, hpc] at hs
    obtain ⟨-, -, -, w, hw, -⟩ := hs
    have hdead := hlive w hw
    unfold Proc.alive at hdead
    split at hdead
    · exact ⟨w, _, hw, ‹_›⟩
    · exact absurd rfl hdead
  obtain ⟨o, s', h⟩ : ∃ o s', supMain e s o = some s' := hi.shape.supMain_enabled hret hwait
  have hdist := Pc.dist_succ hpipe _ (supMain_frame h).1
  refine ⟨.main .supervisor o, s', by simp [step, hf, h], ?_⟩
  simp only [Sys.rank, (supMain_frame h).2.1, hf, hdead]
  split_ifs <;> simp <;> omega

/-- No reachable state is a dead end: from each, some interleaving leads the supervisor out of
    its loop. -/
theorem Reachable.can_return {e : Endian} {fds₀ : FdTable} {s : Sys} (hr : Reachable e fds₀ s) :
    ∃ s', Reaches e s s' ∧ s'.sup.pc = .returned := by
  by_cases hret : s.sup.pc = .returned
  · exact ⟨s, .refl, hret⟩
  obtain ⟨a, s', h, hlt⟩ := rank_step hr hret
  obtain ⟨s'', hreach, hret''⟩ := Reachable.can_return (.step a hr h)
  exact ⟨s'', .head ⟨a, h⟩ hreach, hret''⟩
termination_by s.rank

/-- After the first generation's worker crashed, the supervisor can still leave its loop. -/
theorem Reachable.can_return_crashed :
    ∃ s, run .little (Sys.init stdio) crashedGeneration = some s ∧
      ∃ s', Reaches .little s s' ∧ s'.sup.pc = .returned := by
  obtain ⟨s, hs⟩ := Option.isSome_iff_exists.mp
    (show (run .little (Sys.init stdio) crashedGeneration).isSome by decide)
  exact ⟨s, hs, Reachable.can_return (Reachable.init.reaches (run_reaches hs))⟩

end miredo.supervisor
