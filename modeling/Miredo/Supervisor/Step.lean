import Miredo.Supervisor.State
import Miredo.Tunnel.Handle
import Mathlib.Logic.Relation

namespace miredo.supervisor

open miredo miredo.worker

/-- What `RegisterReadSet` of the Teredo server or relay (outside the sources) did in one turn
    of the loop: the descriptors it added to the read set and the value it returned. -/
structure Registration where
  added : List Int
  val : Int
  deriving DecidableEq, Repr

/-- What the loop expects of a `RegisterReadSet`: it returns a value no smaller than any
    descriptor it adds, as `IPv6Tunnel::RegisterReadSet` does. -/
def Registration.Ok (r : Registration) : Prop :=
  ∀ fd ∈ r.added, fd ≤ r.val

instance : DecidablePred Registration.Ok := fun r =>
  inferInstanceAs (Decidable (∀ fd ∈ r.added, fd ≤ r.val))

/-- What the system call or the call outside the sources at a main-program step returned:
    nothing to choose, `pipe` with its two descriptors, a failure of `pipe` or `fork`, the
    configuration file `ParseConf` reads, the outcomes inside `miredo_run`, or, for one turn
    of the relay loop, the tunnel and what the relay and the server registered, with what
    `select` returned and the descriptors it reported ready. -/
inductive Outcome
  | next
  | pipe (r w : Int)
  | fail
  | conf (cnf : MiredoConf)
  | run (env : RunEnv)
  | select {IFNAMSIZ PBUF : Nat} (tunnel : ipv6_tunnel.IPv6Tunnel IFNAMSIZ PBUF)
      (relay server : Option Registration) (n : Int) (ready : List Int)

/-- The two processes. -/
inductive Who
  | supervisor
  | worker
  deriving DecidableEq, Repr

/-- What can happen next: a step of a process's main program, the delivery of a signal to
    a process, a step of a process's innermost handler, or the end of the worker by a
    signal (a crash, or a signal the worker does not catch). -/
inductive Action
  | main (who : Who) (o : Outcome)
  | deliver (who : Who) (sig : Sig)
  | handle (who : Who)
  | kill (sig : Nat)

/-- The status `exit (-retval)` leaves. -/
def exitStatus (retval : Int) : WaitStatus :=
  .exited ((-retval) % 256).toNat

@[simp] theorem exitStatus_zero : exitStatus 0 = .exited 0 := rfl

@[simp] theorem exitStatus_neg_one : exitStatus (-1) = .exited 1 := rfl

/-- The test that ends the loop of `teredo_server_relay` on what `select` returned. -/
def selectBreaks (n : Int) (ready : List Int) (signalfd0 : Int) : Bool :=
  n < 0 || (1 ≤ n && ready.contains signalfd0)

/-- The read set one turn of `teredo_server_relay (tunnel, relay, server)` builds, and the
    `nfds` it passes to `select`: `signalfd[0]`, then what the server registers, then the
    tunnel and what the relay registers, with `maxfd` raised to every larger value a
    `RegisterReadSet` returns. -/
def readSet {IFNAMSIZ PBUF : Nat} (tunnel : ipv6_tunnel.IPv6Tunnel IFNAMSIZ PBUF)
    (relay server : Option Registration) (signalfd0 : Int) : Int × List Int :=
  let maxfd := signalfd0
  let readset := [signalfd0]
  let (maxfd, readset) := match server with
    | some r => (if r.val > maxfd then r.val else maxfd, r.added ++ readset)
    | none => (maxfd, readset)
  let (maxfd, readset) := match relay with
    | some r =>
      let (val, readset) := tunnel.RegisterReadSet readset
      let maxfd := if val > maxfd then val else maxfd
      (if r.val > maxfd then r.val else maxfd, r.added ++ readset)
    | none => (maxfd, readset)
  (maxfd + 1, readset)

section readSet

/-- `if (val > maxfd) maxfd = val;` keeps the larger of the two. -/
theorem maxfd_update_eq_max (maxfd val : Int) : (if val > maxfd then val else maxfd) = max maxfd val := by
  rw [max_def]
  split_ifs <;> omega

variable {IFNAMSIZ PBUF : Nat} (tunnel : ipv6_tunnel.IPv6Tunnel IFNAMSIZ PBUF)
  (relay server : Option Registration) (signalfd0 : Int)

/-- The read set holds `signalfd[0]`, what the server and the relay add, and the tunnel's
    descriptor when there is a relay and the device is open; never -1 for a closed device. -/
theorem mem_readSet {fd : Int} :
    fd ∈ (readSet tunnel relay server signalfd0).2 ↔
      fd = signalfd0 ∨ (∃ r, server = some r ∧ fd ∈ r.added) ∨
        ∃ r, relay = some r ∧ (fd ∈ r.added ∨ tunnel.fd ≠ -1 ∧ fd = tunnel.fd) := by
  rcases relay with _ | r <;> rcases server with _ | r' <;>
    dsimp only [readSet, ipv6_tunnel.IPv6Tunnel.RegisterReadSet] <;> (try split_ifs) <;>
    simp [*, or_comm, or_left_comm, or_assoc]

/-- `nfds` is above `signalfd[0]` and above every value a `RegisterReadSet` returned. -/
theorem readSet_nfds :
    signalfd0 < (readSet tunnel relay server signalfd0).1 ∧
      (∀ r, server = some r → r.val < (readSet tunnel relay server signalfd0).1) ∧
      ∀ r, relay = some r → tunnel.fd < (readSet tunnel relay server signalfd0).1 ∧
        r.val < (readSet tunnel relay server signalfd0).1 := by
  rcases relay with _ | r <;> rcases server with _ | r' <;>
    simp only [readSet, ipv6_tunnel.IPv6Tunnel.RegisterReadSet, maxfd_update_eq_max,
      Int.lt_add_one_iff, le_max_iff, le_refl, true_or, or_true, forall_eq', Option.some.injEq,
      reduceCtorEq, false_imp_iff, imp_false, forall_const, and_self, implies_true, and_true]

/-- `select` looks at every descriptor of the read set: each is below `nfds`, as long as the
    server and the relay keep to `Registration.Ok`. -/
theorem readSet_covers (hrelay : ∀ r, relay = some r → r.Ok) (hserver : ∀ r, server = some r → r.Ok) :
    ∀ fd ∈ (readSet tunnel relay server signalfd0).2, fd < (readSet tunnel relay server signalfd0).1 := by
  obtain ⟨hsig, hsrv, hrel⟩ := readSet_nfds tunnel relay server signalfd0
  intro fd hfd
  rcases (mem_readSet tunnel relay server signalfd0).mp hfd with rfl | ⟨r, hr, hfd⟩ | ⟨r, hr, hfd | ⟨-, rfl⟩⟩
  · exact hsig
  · exact lt_of_le_of_lt (hserver r hr fd hfd) (hsrv r hr)
  · exact lt_of_le_of_lt (hrelay r hr fd hfd) (hrel r hr).2
  · exact (hrel r hr).1

end readSet

/-- What `select (maxfd + 1, &readset, NULL, NULL, &tv)` may return on the read set and
    `nfds` of `rs`: -1 with no record waiting in the bridge pipe, or the number of descriptors
    it leaves in `readset`, each in the set and below `nfds`, `signalfd[0]` among them exactly
    when a record waits. -/
def SelectOk (s : Sys) (w : Proc) (rs : Int × List Int) (n : Int) (ready : List Int) : Prop :=
  n < 0 ∧ pending s w = false ∨
    0 ≤ n ∧ n = ready.length ∧ (∀ fd ∈ ready, fd ∈ rs.2 ∧ fd < rs.1) ∧
      (w.signalfd0 ∈ ready ↔ pending s w = true)

instance (s : Sys) (w : Proc) (rs : Int × List Int) (n : Int) (ready : List Int) :
    Decidable (SelectOk s w rs n ready) :=
  inferInstanceAs (Decidable (n < 0 ∧ pending s w = false ∨
    0 ≤ n ∧ n = ready.length ∧ (∀ fd ∈ ready, fd ∈ rs.2 ∧ fd < rs.1) ∧
      (w.signalfd0 ∈ ready ↔ pending s w = true)))

/-- The `retval` that the chain of tests after `DeinitSignals` computes. -/
def decideRetval (p : Proc) : Int :=
  if p.should_exit ≠ 0 then 0
  else if p.should_reload ≠ 0 then 2
  else match p.status with
    | .exited code => if code ≠ 0 then 1 else 0
    | .signaled _ => 2

theorem decideRetval_cases (p : Proc) :
    decideRetval p = 0 ∨ decideRetval p = 1 ∨ decideRetval p = 2 := by
  unfold decideRetval
  split_ifs
  · exact .inl rfl
  · exact .inr (.inr rfl)
  · split
    · split_ifs
      · exact .inr (.inl rfl)
      · exact .inl rfl
    · exact .inr (.inr rfl)

/-- One statement of the supervisor's generation loop, on a host of byte order `e`. -/
def supMain (e : Endian) (s : Sys) (o : Outcome) : Option Sys :=
  let p := s.sup
  match p.pc, o with
  | .top, .next => some { s with sup := { p with pc := .pipe, retval := 1 } }
  | .pipe, .pipe r w =>
    if 0 ≤ r ∧ 0 ≤ w ∧ r ≠ w ∧ p.fds r = none ∧ p.fds w = none then
      let k := s.nextPipe
      some { s with
        sup := { p with
          pc := .clearExit, signalfd0 := r, signalfd1 := w
          fds := (p.fds.open r (.pipeRead k)).open w (.pipeWrite k) }
        pipes := Function.update s.pipes k [], nextPipe := k + 1 }
    else none
  | .pipe, .fail => some { s with sup := { p with pc := .returned } }
  | .clearExit, .next => some { s with sup := { p with pc := .clearReload, should_exit := 0 } }
  | .clearReload, .next =>
    some { s with sup := { p with pc := .sigaction .SIGINT, should_reload := 0 } }
  | .sigaction .SIGINT, .next =>
    some { s with sup := { p with
      pc := .sigaction .SIGQUIT
      disposition := Function.update p.disposition .SIGINT (some .exit_handler) } }
  | .sigaction .SIGQUIT, .next =>
    some { s with sup := { p with
      pc := .sigaction .SIGTERM
      disposition := Function.update p.disposition .SIGQUIT (some .exit_handler) } }
  | .sigaction .SIGTERM, .next =>
    some { s with sup := { p with
      pc := .sigaction .SIGHUP
      disposition := Function.update p.disposition .SIGTERM (some .exit_handler) } }
  | .sigaction .SIGHUP, .next =>
    some { s with sup := { p with
      pc := .parseConf
      disposition := Function.update p.disposition .SIGHUP (some .reload_handler) } }
  | .parseConf, .conf cnf =>
    match ParseConf e cnf defaultConf with
    | none => some { s with sup := { p with pc := .returned } }
    | some conf =>
      some { s with sup := { p with pc := .fork, conf, heap := conf.ifname.toList ++ p.heap } }
  | .fork, .fail => some { s with sup := { p with pc := .returned } }
  | .fork, .next =>
    some { s with sup := { p with pc := .free }, worker := some { p with pc := .child .load } }
  | .free, .next =>
    let heap := match p.conf.ifname with
      | some b => p.heap.erase b
      | none => p.heap
    some { s with sup := { p with pc := .waitpid, heap } }
  | .waitpid, .next =>
    match s.worker with
    | some w =>
      match w.pc with
      | .exited st =>
        some { s with sup := { p with pc := .deinit .load, status := st }, worker := none }
      | _ => none
    | none => none
  | .deinit .load, .next =>
    some { s with sup := { p with pc := .deinit .clear, buf_fd := p.signalfd1 } }
  | .deinit .clear, .next => some { s with sup := { p with pc := .deinit .close, signalfd1 := -1 } }
  | .deinit .close, .next =>
    some { s with sup := { p with pc := .closeRead, fds := p.fds.close p.buf_fd } }
  | .closeRead, .next =>
    some { s with sup := { p with pc := .decide, fds := p.fds.close p.signalfd0 } }
  | .decide, .next =>
    let retval := decideRetval p
    some { s with sup := { p with pc := if retval = 2 then .top else .returned, retval } }
  | _, _ => none

/-- Where a main-program step of the supervisor can take its program counter. -/
def Pc.succ : Pc → List Pc
  | .top => [.pipe]
  | .pipe => [.clearExit, .returned]
  | .clearExit => [.clearReload]
  | .clearReload => [.sigaction .SIGINT]
  | .sigaction .SIGINT => [.sigaction .SIGQUIT]
  | .sigaction .SIGQUIT => [.sigaction .SIGTERM]
  | .sigaction .SIGTERM => [.sigaction .SIGHUP]
  | .sigaction .SIGHUP => [.parseConf]
  | .parseConf => [.returned, .fork]
  | .fork => [.returned, .free]
  | .free => [.waitpid]
  | .waitpid => [.deinit .load]
  | .deinit .load => [.deinit .clear]
  | .deinit .clear => [.deinit .close]
  | .deinit .close => [.closeRead]
  | .closeRead => [.decide]
  | .decide => [.top, .returned]
  | _ => []

/-- The statement of `InitSignals` that clears a handler's flag. -/
def Handler.clearPc : Handler → Pc
  | .exit_handler => .clearExit
  | .reload_handler => .clearReload

/-- A main-program step of the supervisor moves its program counter along `Pc.succ`, leaves
    the running handlers alone, changes a handler's flag only where `InitSignals` clears it
    and the pipes only at `pipe`, and after `DeinitSignals` sets `retval` by `decideRetval`,
    looping exactly when it is 2. -/
theorem supMain_frame {e : Endian} {s s' : Sys} {o : Outcome} (h : supMain e s o = some s') :
    s'.sup.pc ∈ s.sup.pc.succ ∧ s'.sup.frames = s.sup.frames ∧
      (∀ hd : Handler, hd.flag s'.sup = if s.sup.pc = hd.clearPc then 0 else hd.flag s.sup) ∧
      (s.sup.pc ≠ .pipe → s'.pipes = s.pipes ∧ s'.nextPipe = s.nextPipe) ∧
      (s.sup.pc = .decide → s'.sup.retval = decideRetval s.sup ∧
        s'.sup.pc = if decideRetval s.sup = 2 then .top else .returned) := by
  unfold supMain at h
  dsimp only at h
  split at h <;> rename_i hpc
  all_goals (try split_ifs at h); (try split at h); (try split at h)
  all_goals cases h
  all_goals dsimp only; rw [hpc]
  all_goals first
    | exact ⟨by decide, rfl, fun hd => by cases hd <;> rfl, fun _ => ⟨rfl, rfl⟩,
        fun h => absurd h (by decide)⟩
    | exact ⟨by decide, rfl, fun hd => by cases hd <;> rfl, fun hne => absurd rfl hne,
        fun h => absurd h (by decide)⟩
    | exact ⟨by decide, rfl, fun hd => by cases hd <;> rfl, fun _ => ⟨rfl, rfl⟩,
        fun _ => ⟨rfl, by split_ifs; rfl⟩⟩

/-- Away from the statement that clears it, a main-program step leaves a handler's flag
    alone. -/
theorem supMain_flag {e : Endian} {s s' : Sys} {o : Outcome} (h : supMain e s o = some s')
    (hd : Handler) (hpc : s.sup.pc ≠ hd.clearPc) : hd.flag s'.sup = hd.flag s.sup := by
  rw [(supMain_frame h).2.2.1 hd, if_neg hpc]

/-- A main-program step of the supervisor moves `signalfd[1]` only at `pipe` and otherwise
    only to -1; it creates the worker only at `fork`, as a copy of itself, and otherwise
    keeps it or drops it; and it sets `status` only to that of the worker it reaps. -/
theorem supMain_bridge {e : Endian} {s s' : Sys} {o : Outcome} (h : supMain e s o = some s') :
    (s.sup.pc = .pipe ∨ s'.sup.signalfd1 = s.sup.signalfd1 ∨ s'.sup.signalfd1 = -1) ∧
      (s'.worker = s.worker ∨ s'.worker = none ∨
        s.sup.pc = .fork ∧ s'.worker = some { s.sup with pc := .child .load }) ∧
      (s'.sup.status = s.sup.status ∨ ∃ w, s.worker = some w ∧ w.pc = .exited s'.sup.status) := by
  unfold supMain at h
  dsimp only at h
  split at h <;> rename_i hpc
  all_goals (try split_ifs at h); (try split at h); (try split at h)
  all_goals cases h
  all_goals first
    | exact ⟨.inr (.inl rfl), .inl rfl, .inl rfl⟩
    | exact ⟨.inr (.inr rfl), .inl rfl, .inl rfl⟩
    | exact ⟨.inr (.inl rfl), .inr (.inr ⟨hpc, rfl⟩), .inl rfl⟩
    | exact ⟨.inl hpc, .inl rfl, .inl rfl⟩
    | exact ⟨.inr (.inl rfl), .inr (.inl rfl), .inr ⟨_, ‹_›, ‹_›⟩⟩

/-- `waitpid` returns once the worker has terminated, takes its status and forgets it. -/
theorem supMain_waitpid {e : Endian} {s s' : Sys} {o : Outcome} (h : supMain e s o = some s')
    (hpc : s.sup.pc = .waitpid) :
    s'.worker = none ∧ ∃ w, s.worker = some w ∧ w.pc = .exited s'.sup.status := by
  unfold supMain at h
  dsimp only at h
  rw [hpc] at h
  cases o with
  | next =>
    dsimp only at h
    split at h <;> rename_i hw
    · split at h <;> cases h
      exact ⟨rfl, _, hw, ‹_›⟩
    · cases h
  | _ => cases h

/-- One statement of the worker `w`: its `asyncsafe_close (signalfd[1])`, `miredo_run`
    up to `teredo_server_relay`, one turn of its loop, and `exit (-retval)`. -/
def workerMain (e : Endian) (s : Sys) (w : Proc) (o : Outcome) : Option Sys :=
  match w.pc, o with
  | .child .load, .next =>
    some { s with worker := some { w with pc := .child .clear, buf_fd := w.signalfd1 } }
  | .child .clear, .next =>
    some { s with worker := some { w with pc := .child .close, signalfd1 := -1 } }
  | .child .close, .next =>
    some { s with worker := some { w with pc := .run, fds := w.fds.close w.buf_fd } }
  | .run, .run env =>
    if miredo_run_loops e w.conf env then
      some { s with worker := some { w with pc := .select, retval := 0 } }
    else
      some { s with worker := some { w with pc := .exited (exitStatus (miredo_run e w.conf env).2) } }
  | .select, .select tunnel relay server n ready =>
    if ¬SelectOk s w (readSet tunnel relay server w.signalfd0) n ready then none
    else if selectBreaks n ready w.signalfd0 then
      some { s with worker := some { w with pc := .exited (exitStatus w.retval) } }
    else some s
  | _, _ => none

/-- Whether a worker has not terminated. -/
def Proc.alive (p : Proc) : Bool :=
  match p.pc with
  | .exited _ => false
  | _ => true

/-- The process an action is about; a kill is about the worker. -/
def Action.who : Action → Who
  | .main who _ | .deliver who _ | .handle who => who
  | .kill _ => .worker

/-- One step of the system. A process's main program moves only when no handler runs on it. -/
def step (e : Endian) (s : Sys) : Action → Option Sys
  | .main .supervisor o => if s.sup.frames = [] then supMain e s o else none
  | .main .worker o =>
    match s.worker with
    | some w => if w.frames = [] then workerMain e s w o else none
    | none => none
  | .deliver .supervisor sig => (s.sup.deliver sig).map fun p => { s with sup := p }
  | .deliver .worker sig =>
    match s.worker with
    | some w => if w.alive then (w.deliver sig).map fun w => { s with worker := some w } else none
    | none => none
  | .handle .supervisor => (s.sup.handle s.pipes).map fun r => { s with sup := r.1, pipes := r.2 }
  | .handle .worker =>
    match s.worker with
    | some w => (w.handle s.pipes).map fun r => { s with worker := some r.1, pipes := r.2 }
    | none => none
  | .kill sig =>
    match s.worker with
    | some w =>
      if w.alive then
        some { s with worker := some { w with pc := .exited (.signaled sig), frames := [] } }
      else none
    | none => none

theorem step_main_worker {e : Endian} {s s' : Sys} {w : Proc} {o : Outcome}
    (hw : s.worker = some w) (h : step e s (.main .worker o) = some s') :
    w.frames = [] ∧ workerMain e s w o = some s' := by
  simp only [step, hw] at h
  split_ifs at h with hf
  exact ⟨hf, h⟩

/-- A step of the worker's main program changes only the worker. -/
theorem workerMain_sup {e : Endian} {s s' : Sys} {w : Proc} {o : Outcome}
    (h : workerMain e s w o = some s') :
    s'.sup = s.sup ∧ s'.pipes = s.pipes ∧ s'.nextPipe = s.nextPipe := by
  unfold workerMain at h
  split at h
  all_goals (try split_ifs at h)
  all_goals cases h
  all_goals exact ⟨rfl, rfl, rfl⟩

/-- A terminated worker's main program takes no step. -/
theorem workerMain_exited {e : Endian} {s : Sys} {w : Proc} {st : WaitStatus} (o : Outcome)
    (hpc : w.pc = .exited st) : workerMain e s w o = none := by
  unfold workerMain
  rw [hpc]

/-- When `miredo_run` does not reach `teredo_server_relay`, the worker leaves `exit (1)`. -/
theorem workerMain_run_failed {e : Endian} {s s' : Sys} {w : Proc} {env : RunEnv}
    (h : workerMain e s w (.run env) = some s') (hfail : miredo_run_loops e w.conf env = false) :
    s'.worker = some { w with pc := .exited (.exited 1) } := by
  unfold workerMain at h
  split at h <;> rename_i ho
  all_goals try (cases ho; done)
  · cases ho
    rw [if_neg (by rw [hfail]; decide)] at h
    cases h
    rw [miredo_run_retval, hfail]
    rfl
  · cases h

/-- What the worker's actions do: a step of its main program, a delivery, a step of its
    innermost handler, or its end by a signal. -/
theorem step_worker_cases {e : Endian} {s s' : Sys} {a : Action} (ha : a.who = .worker)
    (h : step e s a = some s') : ∃ w, s.worker = some w ∧
      ((∃ o, a = .main .worker o ∧ w.frames = [] ∧ workerMain e s w o = some s') ∨
        (∃ sig w', a = .deliver .worker sig ∧ w.alive ∧ w.deliver sig = some w' ∧
          s' = { s with worker := some w' }) ∨
        (∃ w' pipes', a = .handle .worker ∧ w.handle s.pipes = some (w', pipes') ∧
          s' = { s with worker := some w', pipes := pipes' }) ∨
        ∃ sig, a = .kill sig ∧ w.alive ∧ s' = { s with
          worker := some { w with pc := .exited (.signaled sig), frames := [] } }) := by
  rcases a with ⟨_ | _, o⟩ | ⟨_ | _, sig⟩ | (_ | _) | sig <;>
    simp only [Action.who, reduceCtorEq] at ha <;> simp only [step] at h <;> split at h <;>
    (try cases h) <;> rename_i w hw <;> refine ⟨w, hw, ?_⟩
  · split_ifs at h with hf
    exact .inl ⟨o, rfl, hf, h⟩
  · split_ifs at h with halive
    obtain ⟨w', hw', rfl⟩ := Option.map_eq_some'.mp h
    exact .inr (.inl ⟨sig, w', rfl, halive, hw', rfl⟩)
  · obtain ⟨⟨w', pipes'⟩, hw', rfl⟩ := Option.map_eq_some'.mp h
    exact .inr (.inr (.inl ⟨w', pipes', rfl, hw', rfl⟩))
  · split_ifs at h with halive
    cases h
    exact .inr (.inr (.inr ⟨sig, rfl, halive, rfl⟩))

/-- The worker's actions leave the supervisor alone and only append to the pipes. -/
theorem step_worker_sup {e : Endian} {s s' : Sys} {a : Action} (ha : a.who = .worker)
    (h : step e s a = some s') :
    s'.sup = s.sup ∧ s'.nextPipe = s.nextPipe ∧ ∀ k, s.pipes k <+: s'.pipes k := by
  obtain ⟨w, -, ⟨o, -, -, h⟩ | ⟨sig, w', -, -, -, rfl⟩ | ⟨w', pipes', -, hw', rfl⟩ |
      ⟨sig, -, -, rfl⟩⟩ := step_worker_cases ha h
  · obtain ⟨hsup, hpipes, hnext⟩ := workerMain_sup h
    exact ⟨hsup, hnext, fun k => hpipes ▸ List.prefix_refl _⟩
  · exact ⟨rfl, rfl, fun _ => List.prefix_refl _⟩
  · exact ⟨rfl, rfl, Proc.handle_pipes hw'⟩
  · exact ⟨rfl, rfl, fun _ => List.prefix_refl _⟩

/-- What a step does to the supervisor: a step of its main program, a delivery, a step of
    its innermost handler, or, for the worker's actions, nothing. -/
theorem step_sup_cases {e : Endian} {s s' : Sys} {a : Action} (h : step e s a = some s') :
    (s.sup.frames = [] ∧ ∃ o, supMain e s o = some s') ∨
      (∃ sig p', s.sup.deliver sig = some p' ∧ s' = { s with sup := p' }) ∨
      (∃ p' pipes', s.sup.handle s.pipes = some (p', pipes') ∧
        s' = { s with sup := p', pipes := pipes' }) ∨
      a.who = .worker := by
  rcases hwho : a.who
  · rcases a with ⟨_ | _, o⟩ | ⟨_ | _, sig⟩ | (_ | _) | sig <;>
      simp only [Action.who, reduceCtorEq] at hwho <;> simp only [step] at h
    · split_ifs at h with hf
      exact .inl ⟨hf, o, h⟩
    · obtain ⟨p', hp', rfl⟩ := Option.map_eq_some'.mp h
      exact .inr (.inl ⟨sig, p', hp', rfl⟩)
    · obtain ⟨⟨p', pipes'⟩, hp', rfl⟩ := Option.map_eq_some'.mp h
      exact .inr (.inr (.inl ⟨p', pipes', hp', rfl⟩))
  · exact .inr (.inr (.inr rfl))

/-- A sequence of actions from `s`; `none` when one of them cannot happen. -/
def run (e : Endian) : Sys → List Action → Option Sys
  | s, [] => some s
  | s, a :: as => (step e s a).bind fun s => run e s as

/-- The states of `miredo` from the inherited descriptors `fds₀`, under every interleaving. -/
inductive Reachable (e : Endian) (fds₀ : FdTable) : Sys → Prop
  | init : Reachable e fds₀ (Sys.init fds₀)
  | step {s s' : Sys} (a : Action) : Reachable e fds₀ s → step e s a = some s' → Reachable e fds₀ s'

/-- `s'` follows `s` by one action. -/
def Next (e : Endian) (s s' : Sys) : Prop := ∃ a, step e s a = some s'

/-- `s'` follows `s` by any number of actions. -/
def Reaches (e : Endian) : Sys → Sys → Prop := Relation.ReflTransGen (Next e)

/-- `s'` follows `s` by actions none of which is taken at the top of the loop: the path stays
    in the generation of `s`, and ends at the top at the latest. -/
def ReachesInGeneration (e : Endian) : Sys → Sys → Prop :=
  Relation.ReflTransGen fun a b => Next e a b ∧ a.sup.pc ≠ .top

theorem ReachesInGeneration.reaches {e : Endian} {s s' : Sys} (h : ReachesInGeneration e s s') :
    Reaches e s s' :=
  Relation.ReflTransGen.mono (fun _ _ h => h.1) h

theorem Reachable.reaches {e : Endian} {fds₀ : FdTable} {s s' : Sys} (hs : Reachable e fds₀ s)
    (h : Reaches e s s') : Reachable e fds₀ s' := by
  induction h with
  | refl => exact hs
  | tail _ hnext ih =>
    obtain ⟨a, ha⟩ := hnext
    exact .step a ih ha

theorem run_reaches {e : Endian} {s s' : Sys} {as : List Action} (h : run e s as = some s') :
    Reaches e s s' := by
  induction as generalizing s with
  | nil =>
    cases h
    exact .refl
  | cons a as ih =>
    simp only [run, Option.bind_eq_some] at h
    obtain ⟨s₁, h₁, h₂⟩ := h
    exact .head ⟨a, h₁⟩ (ih h₂)

/-- `run`, failing at a step taken at the top of the loop. -/
def runInGeneration (e : Endian) : Sys → List Action → Option Sys
  | s, [] => some s
  | s, a :: as =>
    if s.sup.pc = .top then none else (step e s a).bind fun s => runInGeneration e s as

theorem runInGeneration_reaches {e : Endian} {s s' : Sys} {as : List Action}
    (h : runInGeneration e s as = some s') : ReachesInGeneration e s s' := by
  induction as generalizing s with
  | nil =>
    cases h
    exact .refl
  | cons a as ih =>
    simp only [runInGeneration] at h
    split_ifs at h with htop
    obtain ⟨s₁, h₁, h₂⟩ := Option.bind_eq_some.mp h
    exact .head ⟨⟨a, h₁⟩, htop⟩ (ih h₂)

/-- Running `as ++ bs` runs `as`, then `bs`. -/
theorem run_append (e : Endian) (s : Sys) (as bs : List Action) :
    run e s (as ++ bs) = (run e s as).bind fun s => run e s bs := by
  induction as generalizing s with
  | nil => rfl
  | cons a as ih =>
    rw [List.cons_append, run, run, Option.bind_assoc]
    simp only [ih]

/-- Descriptors 0, 1 and 2 open, as `miredo` usually inherits them. -/
def stdio : FdTable := ((FdTable.empty.open 0 .other).open 1 .other).open 2 .other

/-- A configuration file that sets nothing: client mode, no interface name. -/
def emptyFile : MiredoConf :=
  ⟨true, some none, some none, some none, some none, true, some none, some none, none⟩

/-- The supervisor's first generation up to `fork`: `pipe` returns 3 and 4, the four
    handlers are installed, `ParseConf` reads `emptyFile` and the worker starts. -/
def firstGeneration : List Action :=
  [.main .supervisor .next, .main .supervisor (.pipe 3 4), .main .supervisor .next,
    .main .supervisor .next, .main .supervisor .next, .main .supervisor .next,
    .main .supervisor .next, .main .supervisor .next, .main .supervisor (.conf emptyFile),
    .main .supervisor .next]

/-- The first generation ended by a crash of the worker with signal 11: the supervisor reaps
    it, tears the bridge down and, with `retval = 2`, loops to the next generation. -/
def crashedGeneration : List Action :=
  firstGeneration ++ [.kill 11, .main .supervisor .next, .main .supervisor .next,
    .main .supervisor .next, .main .supervisor .next, .main .supervisor .next,
    .main .supervisor .next, .main .supervisor .next]

/-- Outcomes of the calls of `miredo_run` under which a client reaches
    `teredo_server_relay`: the privileged process answers on descriptor 5 and the client is
    ready. -/
def clientEnv : RunEnv := ⟨false, 0, 5, 0, 0, 0, 0, none, some true⟩

/-- The first generation whose worker cannot set up the tunnel: `miredo_run` returns -1 and
    the worker exits with status 1, which the supervisor passes on. -/
def failedSetup : List Action :=
  firstGeneration ++ [.main .worker .next, .main .worker .next, .main .worker .next,
    .main .worker (.run { clientEnv with tunnel_failed := true }), .main .supervisor .next,
    .main .supervisor .next, .main .supervisor .next, .main .supervisor .next,
    .main .supervisor .next, .main .supervisor .next, .main .supervisor .next]

end miredo.supervisor
