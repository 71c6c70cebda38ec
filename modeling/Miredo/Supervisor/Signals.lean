import Miredo.Supervisor.Invariant

namespace miredo.supervisor

open miredo miredo.worker

/-- The points of the generation loop from `should_reload = 0` to `fd = -1` in
    `DeinitSignals`. -/
def Pc.window : Pc → Bool
  | .clearReload | .sigaction _ | .parseConf | .fork | .free | .waitpid | .deinit .load
  | .deinit .clear => true
  | _ => false

/-- The points of the generation loop after a handler's flag is cleared in `InitSignals`, up
    to `fd = -1` in `DeinitSignals`. -/
def Handler.window : Handler → Pc → Bool
  | .exit_handler, pc => pc.window
  | .reload_handler, .clearReload => false
  | .reload_handler, pc => pc.window

theorem Handler.window_sub (h : Handler) {p : Pc} (hw : h.window p) : p.window := by
  cases h
  · exact hw
  · cases p <;> first | exact hw | simp [Handler.window] at hw

/-- Inside a handler's window the statements that clear its flag and open the pipe are
    behind. -/
theorem Handler.window_ne (h : Handler) {p : Pc} (hw : h.window p) :
    p ≠ h.clearPc ∧ p ≠ .pipe := by
  constructor <;> rintro rfl <;> cases h <;> simp [Handler.window, Handler.clearPc, Pc.window] at hw

/-- A handler's window is entered only from the statement that clears its flag. -/
theorem Handler.window_pred (h : Handler) {p : Pc} :
    ∀ q ∈ p.succ, h.window q → h.window p ∨ p = h.clearPc := by
  cases h <;> cases p <;> (try rename_i x; cases x) <;> first | decide | simp [Pc.succ]

/-- Inside the window the supervisor is inside a generation, with both ends of the current
    pipe open on its `signalfd`. -/
theorem SupShape.window {fds₀ : FdTable} {s : Sys} (hs : SupShape fds₀ s) (hw : s.sup.pc.window) :
    InGeneration fds₀ s.sup.signalfd0 s.sup.signalfd1 s.nextPipe s.sup.retval ∧
      s.sup.fds = withPipe fds₀ s.sup.signalfd0 s.sup.signalfd1 s.current := by
  unfold SupShape at hs
  split at hs
  case h_16 => exact hs.elim
  all_goals rename_i hpc; rw [hpc] at hw
  all_goals first | exact absurd hw (by decide) | exact ⟨hs.1, hs.2.1⟩

theorem SupShape.window_write {fds₀ : FdTable} {s : Sys} (hs : SupShape fds₀ s)
    (hw : s.sup.pc.window) : s.sup.fds s.sup.signalfd1 = some (.pipeWrite s.current) := by
  rw [(hs.window hw).2]
  exact withPipe_write _ _ _ _

theorem SupShape.window_signalfd1 {fds₀ : FdTable} {s : Sys} (hs : SupShape fds₀ s)
    (hw : s.sup.pc.window) : s.sup.signalfd1 ≠ -1 := by
  have := (hs.window hw).1.nonneg
  omega

/-- A handler `h` has assigned its flag, or is about to. -/
def Handler.assigned (h : Handler) (p : Proc) : Prop :=
  h.flag p ≠ 0 ∨ ∃ f ∈ p.frames, f.handler = h ∧ f.pc = .assign

/-- Inside its window, a handler's flag is set only once a record is in the current pipe. -/
def Recorded (h : Handler) (s : Sys) : Prop :=
  h.window s.sup.pc → h.assigned s.sup → s.pipes s.current ≠ []

theorem write_of_pipeWrite {fds : FdTable} {fd : Int} {k : Nat} (hfd : fds fd = some (.pipeWrite k))
    (v : Int) (pipes : Nat → List Int) : write fds fd v pipes k = pipes k ++ [v] := by
  simp [write, hfd]

theorem Recorded.of_supMain {e : Endian} {hd : Handler} {s s' : Sys} {o : Outcome}
    (hx : Recorded hd s) (hf : s.sup.frames = []) (h : supMain e s o = some s') :
    Recorded hd s' := by
  obtain ⟨hsucc, hframes, hflag, hpipes, -⟩ := supMain_frame h
  intro hw' ha
  have hx' : hd.flag s'.sup ≠ 0 := ha.resolve_right (by simp [hframes, hf])
  rw [hflag hd] at hx'
  rcases hd.window_pred _ hsucc hw' with hw | hpc
  · obtain ⟨hclear, hpipe⟩ := hd.window_ne hw
    rw [if_neg hclear] at hx'
    obtain ⟨hp, hn⟩ := hpipes hpipe
    rw [Sys.current, hp, hn]
    exact hx hw (.inl hx')
  · rw [if_pos hpc] at hx'
    exact absurd rfl hx'

/-- A handler step assigns a flag only at a handler that was about to, and adds records to
    the pipes only at a `write`. -/
theorem Proc.handle_assigned {p p' : Proc} {pipes pipes' : Nat → List Int} (hd : Handler)
    (h : p.handle pipes = some (p', pipes')) :
    (hd.assigned p' → hd.assigned p) ∧ pipes' = pipes ∨
      ∃ f rest, p.frames = f :: rest ∧ f.pc = .write ∧
        pipes' = write p.fds p.signalfd1 f.signum.number pipes ∧
        p' = { p with frames := { f with pc := .assign } :: rest } := by
  obtain ⟨f, rest, hf, hcase⟩ := Proc.handle_cases h
  have hsub : ∀ g ∈ rest, g ∈ p.frames := fun g hg => hf ▸ List.mem_cons_of_mem f hg
  rcases hcase with ⟨-, -, rfl, rfl⟩ | ⟨-, -, -, rfl, rfl⟩ | ⟨hpc, rfl, rfl⟩ | ⟨hpc, rfl, rfl⟩
  · refine .inl ⟨?_, rfl⟩
    rintro (hx | ⟨g, hg, hgx⟩)
    exacts [.inl (by simpa using hx), .inr ⟨g, hsub g hg, hgx⟩]
  · refine .inl ⟨?_, rfl⟩
    rintro (hx | ⟨g, hg | ⟨_, hg⟩, hgx⟩)
    exacts [.inl (by simpa using hx), absurd hgx.2 (by simp), .inr ⟨g, hsub g hg, hgx⟩]
  · exact .inr ⟨f, rest, hf, hpc, rfl, rfl⟩
  · refine .inl ⟨fun ha => ?_, rfl⟩
    by_cases hh : f.handler = hd
    · exact .inr ⟨f, hf ▸ List.mem_cons_self f rest, hh, hpc⟩
    · rcases ha with hx | ⟨g, hg, hgx⟩
      · rw [Handler.flag_set_ne (Ne.symm hh), Handler.flag_frames] at hx
        exact .inl hx
      · exact .inr ⟨g, hsub g (by simpa using hg), hgx⟩

theorem Recorded.step {e : Endian} {fds₀ : FdTable} {hd : Handler} {s s' : Sys} {a : Action}
    (hi : Inv fds₀ s) (hx : Recorded hd s) (h : step e s a = some s') : Recorded hd s' := by
  rcases step_sup_cases h with ⟨hf, o, h⟩ | ⟨sig, p', hp', rfl⟩ | ⟨p', pipes', hp', rfl⟩ | hwho
  · exact hx.of_supMain hf h
  · -- a delivery pushes a handler at its test
    obtain ⟨-, -, -, rfl⟩ := Proc.deliver_cases hp'
    rintro hw (hx' | ⟨g, hg | ⟨_, hg⟩, hgx⟩)
    · exact hx hw (.inl (by simpa using hx'))
    · exact absurd hgx.2 (by simp)
    · exact hx hw (.inr ⟨g, hg, hgx⟩)
  · have hpc : p'.pc = s.sup.pc := by
      obtain ⟨_, _, _, rfl⟩ := Proc.handle_frames_flags hp'
      rfl
    rcases Proc.handle_assigned hd hp' with ⟨hflag, rfl⟩ | ⟨f, rest, -, -, rfl, rfl⟩
    · exact fun hw ha => hx (hpc ▸ hw) (hflag ha)
    · intro hw _
      show write s.sup.fds s.sup.signalfd1 f.signum.number s.pipes s.current ≠ []
      rw [write_of_pipeWrite (hi.shape.window_write (hd.window_sub hw))]
      simp
  · -- the worker's actions only append to the pipes
    obtain ⟨hsup, hnext, hpipes⟩ := step_worker_sup hwho h
    intro hw ha
    rw [hsup] at hw ha
    have hne := hx hw ha
    rw [Sys.current, hnext]
    exact fun hnil => hne (List.prefix_nil.mp (hnil ▸ hpipes _))

/-- In every reachable state, inside a handler's window, a record is in the current pipe
    once the handler has set its flag or is about to: each handler writes before it assigns,
    to the pipe the supervisor's `signalfd[1]` names. -/
theorem Reachable.recorded {e : Endian} {fds₀ : FdTable} {s : Sys}
    (hr : Reachable e fds₀ s) (hd : Handler) : Recorded hd s := by
  induction hr with
  | init => exact fun hw => nomatch hd.window_sub hw
  | step a hr' h ih => exact ih.step hr'.inv h

/-- In the first generation, after SIGTERM's `exit_handler` has run, a record is in the
    pipe. -/
theorem Reachable.recorded_sample :
    ∃ s, run .little (Sys.init stdio) (firstGeneration ++ [.deliver .supervisor .SIGTERM,
      .handle .supervisor, .handle .supervisor, .handle .supervisor]) = some s ∧
      s.sup.pc.window = true ∧ s.sup.should_exit = 15 ∧ s.pipes s.current ≠ [] := by
  obtain ⟨s, hs, hend⟩ := Option.map_eq_some'.mp
    (show (run .little (Sys.init stdio) (firstGeneration ++ [.deliver .supervisor .SIGTERM,
      .handle .supervisor, .handle .supervisor, .handle .supervisor])).map
        (fun s => (s.sup.pc.window, s.sup.should_exit)) = some (true, 15) by decide)
  have hwin : s.sup.pc.window = true := congrArg Prod.fst hend
  have hx : s.sup.should_exit = 15 := congrArg Prod.snd hend
  exact ⟨s, hs, hwin, hx, Reachable.recorded (Reachable.init.reaches (run_reaches hs))
    .exit_handler hwin (.inl (by rw [Handler.flag, hx]; decide))⟩

theorem pending_of_read {s : Sys} {w : Proc} {k : Nat}
    (hread : w.fds w.signalfd0 = some (.pipeRead k)) : pending s w = !(s.pipes k).isEmpty := by
  unfold pending
  rw [hread]

/-- A handler `h` has set its flag, or runs and will. -/
def Handler.pending (h : Handler) (p : Proc) : Prop :=
  h.flag p ≠ 0 ∨ ∃ f ∈ p.frames, f.handler = h

/-- While a handler of the supervisor is pending inside its window, the worker has a record
    pending in its pipe unless the handler has still to write it. -/
theorem Recorded.worker_pending {fds₀ : FdTable} {hd : Handler} {s : Sys} {w : Proc}
    (hi : Inv fds₀ s) (hx : Recorded hd s) (hwin : hd.window s.sup.pc)
    (hp : hd.pending s.sup) (hw : s.worker = some w) :
    pending s w = true ∨ ∃ f ∈ s.sup.frames, f.handler = hd := by
  rcases hp with hflag | hrun
  · left
    rw [pending_of_read (hi.shape.worker_some hw).2.read]
    simpa [Sys.current] using hx hwin (.inl hflag)
  · exact .inr hrun

/-- Replacing the innermost handler by a step of itself keeps a handler pending. -/
theorem Handler.pending.cons {hd : Handler} {p : Proc} {f f' : Frame} {rest : List Frame}
    (hf : p.frames = f :: rest) (hh : f'.handler = f.handler) (hx : hd.pending p) :
    hd.pending { p with frames := f' :: rest } := by
  rcases hx with hx | ⟨g, hg, hgx⟩
  · exact .inl (by simpa using hx)
  rw [hf] at hg
  rcases hg with _ | ⟨_, hg⟩
  · exact .inr ⟨f', List.mem_cons_self _ _, hh.trans hgx⟩
  · exact .inr ⟨g, List.mem_cons_of_mem _ hg, hgx⟩

theorem Handler.pending.push {hd : Handler} {p : Proc} (hx : hd.pending p) (f : Frame) :
    hd.pending { p with frames := f :: p.frames } := by
  rcases hx with hx | ⟨g, hg, hgx⟩
  exacts [.inl (by simpa using hx), .inr ⟨g, List.mem_cons_of_mem f hg, hgx⟩]

/-- A handler step keeps the program counter and `retval` where they are and every flag once
    set, and, with `signalfd[1]` open, keeps a handler pending: a handler leaves only once
    its flag is set. -/
theorem Proc.handle_pending {p p' : Proc} {pipes pipes' : Nat → List Int}
    (h : p.handle pipes = some (p', pipes')) (hd : Handler) :
    p'.pc = p.pc ∧ p'.retval = p.retval ∧ (hd.flag p ≠ 0 → hd.flag p' ≠ 0) ∧
      (p.signalfd1 ≠ -1 → hd.pending p → hd.pending p') := by
  have hkeep : p'.pc = p.pc ∧ p'.retval = p.retval := by
    obtain ⟨_, _, _, rfl⟩ := Proc.handle_frames_flags h
    exact ⟨rfl, rfl⟩
  obtain ⟨f, rest, hf, hcase⟩ := Proc.handle_cases h
  refine ⟨hkeep.1, hkeep.2, ?_⟩
  rcases hcase with ⟨-, hc, rfl, -⟩ | ⟨-, -, -, rfl, -⟩ | ⟨-, rfl, -⟩ | ⟨-, rfl, -⟩
  · -- returns at its test
    refine ⟨fun hx => by simpa using hx, fun hfd hx => ?_⟩
    rcases hx with hx | ⟨g, hg, hgx⟩
    · exact .inl (by simpa using hx)
    rw [hf] at hg
    rcases hg with _ | ⟨_, hg⟩
    · rw [hgx] at hc
      exact .inl (by simpa using hc.resolve_right hfd)
    · exact .inr ⟨g, hg, hgx⟩
  · exact ⟨fun hx => by simpa using hx, fun _ => Handler.pending.cons hf rfl⟩
  · exact ⟨fun hx => by simpa using hx, fun _ => Handler.pending.cons hf rfl⟩
  · -- assigns its flag
    by_cases hh : f.handler = hd
    · subst hh
      have hset : f.handler.flag (f.handler.set { p with frames := rest } f.signum.number) ≠ 0 := by
        rw [Handler.flag_set_self]
        exact Sig.number_ne_zero _
      exact ⟨fun _ => hset, fun _ _ => .inl hset⟩
    · have hflag : hd.flag (f.handler.set { p with frames := rest } f.signum.number) =
          hd.flag p := by
        rw [Handler.flag_set_ne (Ne.symm hh), Handler.flag_frames]
      refine ⟨fun hx => hflag ▸ hx, fun _ hx => ?_⟩
      rcases hx with hx | ⟨g, hg, hgx⟩
      · exact .inl (hflag ▸ hx)
      rw [hf] at hg
      rcases hg with _ | ⟨_, hg⟩
      · exact absurd hgx hh
      · exact .inr ⟨g, by simpa using hg, hgx⟩

/-- The supervisor is bound to leave the loop: inside the window with an exit pending, past
    it with `should_exit` set, or out of the loop. -/
def Committed (p : Proc) : Prop :=
  (p.pc.window ∧ Handler.exit_handler.pending p) ∨
    ((p.pc = .deinit .close ∨ p.pc = .closeRead ∨ p.pc = .decide) ∧ p.should_exit ≠ 0) ∨
    p.pc = .returned

/-- From the window the loop moves inside it, to the `close` of `DeinitSignals`, or out. -/
theorem Pc.window_succ {p : Pc} (hp : p.window) :
    ∀ q ∈ p.succ, q.window ∨ q = .deinit .close ∨ q = .returned := by
  cases p <;> (try rename_i x; cases x) <;> first | decide | simp [Pc.window] at hp

theorem Committed.ne_top {p : Proc} (hc : Committed p) : p.pc ≠ .top := by
  intro htop
  rcases hc with ⟨hw, -⟩ | ⟨hpc | hpc | hpc, -⟩ | hpc
  · rw [htop] at hw
    cases hw
  all_goals rw [htop] at hpc; cases hpc

theorem Committed.of_supMain {e : Endian} {s s' : Sys} {o : Outcome} (hc : Committed s.sup)
    (hf : s.sup.frames = []) (h : supMain e s o = some s') : Committed s'.sup := by
  obtain ⟨hsucc, -, -, -, hdec⟩ := supMain_frame h
  have hexit : s.sup.pc ≠ .clearExit → s'.sup.should_exit = s.sup.should_exit :=
    supMain_flag h .exit_handler
  have hx : s.sup.pc ≠ .clearExit → s.sup.should_exit ≠ 0 → s'.sup.should_exit ≠ 0 :=
    fun hpc hx => by rwa [hexit hpc]
  rcases hc with ⟨hw, hx₀⟩ | ⟨hpc | hpc | hpc, hx₀⟩ | hret
  · -- inside the window no handler runs, so `should_exit` is set
    have hx₀ : s.sup.should_exit ≠ 0 := hx₀.resolve_right (by simp [hf])
    have hx' := hx (Handler.exit_handler.window_ne hw).1 hx₀
    rcases Pc.window_succ hw _ hsucc with hw' | hq | hq
    exacts [.inl ⟨hw', .inl hx'⟩, .inr (.inl ⟨.inl hq, hx'⟩), .inr (.inr hq)]
  · rw [hpc] at hsucc
    exact .inr (.inl ⟨.inr (.inl (List.mem_singleton.mp hsucc)), hx (by rw [hpc]; decide) hx₀⟩)
  · rw [hpc] at hsucc
    exact .inr (.inl ⟨.inr (.inr (List.mem_singleton.mp hsucc)), hx (by rw [hpc]; decide) hx₀⟩)
  · -- `should_exit` set makes `retval` 0
    refine .inr (.inr ?_)
    rw [(hdec hpc).2, decideRetval, if_pos hx₀]
    rfl
  · rw [hret] at hsucc
    cases hsucc

/-- Every step keeps the supervisor committed to exit. -/
theorem Committed.step {e : Endian} {fds₀ : FdTable} {s s' : Sys} {a : Action} (hi : Inv fds₀ s)
    (hc : Committed s.sup) (h : step e s a = some s') : Committed s'.sup := by
  rcases step_sup_cases h with ⟨hf, o, h⟩ | ⟨sig, p', hp', rfl⟩ | ⟨p', pipes', hp', rfl⟩ | hwho
  · exact hc.of_supMain hf h
  · obtain ⟨-, -, -, rfl⟩ := Proc.deliver_cases hp'
    rcases hc with ⟨hw, hx⟩ | hc | hc
    exacts [.inl ⟨hw, hx.push _⟩, .inr (.inl hc), .inr (.inr hc)]
  · obtain ⟨hpc, -, hx, hpend⟩ := Proc.handle_pending hp' .exit_handler
    rcases hc with ⟨hw, hx₀⟩ | ⟨hpc₀, hx₀⟩ | hret
    · exact .inl ⟨hpc ▸ hw, hpend (hi.shape.window_signalfd1 hw) hx₀⟩
    · exact .inr (.inl ⟨hpc ▸ hpc₀, hx hx₀⟩)
    · exact .inr (.inr (hpc ▸ hret))
  · rw [(step_worker_sup hwho h).1]
    exact hc

/-- Once committed, the supervisor stays committed along every interleaving. -/
theorem Reachable.committed_reaches {e : Endian} {fds₀ : FdTable} {s s' : Sys}
    (hr : Reachable e fds₀ s) (hc : Committed s.sup) (h : Reaches e s s') : Committed s'.sup := by
  induction h with
  | refl => exact hc
  | tail hreach hnext ih =>
    obtain ⟨a, ha⟩ := hnext
    exact ih.step (hr.reaches hreach).inv ha

theorem SupShape.committed_retval {fds₀ : FdTable} {s : Sys} (hs : SupShape fds₀ s)
    (hc : Committed s.sup) : s.sup.retval ≠ 2 := by
  rcases hc with ⟨hw, -⟩ | ⟨hpc | hpc | hpc, -⟩ | hpc
  · rw [(hs.window hw).1.retval]
    decide
  all_goals simp only [SupShape, hpc] at hs
  · rw [hs.1.retval]
    decide
  · rw [hs.1.retval]
    decide
  · rw [hs.2.2.2.2]
    decide
  · rcases hs.2.1 with h | h <;> rw [h] <;> decide

/-- While the supervisor is committed, its worker has a record pending in its pipe unless
    an `exit_handler` of the supervisor has still to write it. -/
theorem Committed.worker_pending {fds₀ : FdTable} {s : Sys} {w : Proc} (hi : Inv fds₀ s)
    (hx : Recorded .exit_handler s) (hc : Committed s.sup) (hw : s.worker = some w) :
    pending s w = true ∨ ∃ f ∈ s.sup.frames, f.handler = .exit_handler := by
  obtain ⟨hpc, -⟩ := hi.shape.worker_some hw
  rcases hc with ⟨hwin, hp⟩ | ⟨hpc' | hpc' | hpc', -⟩ | hpc'
  · exact hx.worker_pending hi hwin hp hw
  all_goals rcases hpc with hpc | hpc <;> rw [hpc] at hpc' <;> cases hpc'

/-- A worker at `select` with a record pending in its pipe leaves its loop there, with exit
    status 0. -/
theorem WorkerShape.select_pending {e : Endian} {s s' : Sys} {w : Proc} {IFNAMSIZ PBUF : Nat}
    {tunnel : ipv6_tunnel.IPv6Tunnel IFNAMSIZ PBUF} {relay server : Option Registration} {n : Int}
    {ready : List Int} (hw : WorkerShape s.nextPipe w) (hsel : w.pc = .select)
    (hp : pending s w = true) (h : workerMain e s w (.select tunnel relay server n ready) = some s') :
    s'.worker = some { w with pc := .exited (.exited 0) } := by
  have hret := hw.pc
  simp only [WorkerPc, hsel] at hret
  unfold workerMain at h
  rw [hsel] at h
  dsimp only at h
  split_ifs at h with hok hbreak
  · cases h
    rw [hret.2, exitStatus_zero]
  · rcases hok with ⟨-, hnp⟩ | ⟨-, hlen, -, hmem⟩
    · rw [hp] at hnp
      cases hnp
    · have h0 := hmem.mpr hp
      have hn : 1 ≤ n := by rw [hlen]; exact_mod_cast List.length_pos_of_mem h0
      refine absurd ?_ hbreak
      simp only [selectBreaks, hn, decide_True, List.contains, List.elem_eq_true_of_mem h0,
        Bool.and_self, Bool.or_true]

theorem Sig.handler_of_ne {sig : Sig} (h : sig ≠ .SIGHUP) : sig.handler = .exit_handler := by
  cases sig
  exacts [absurd rfl h, rfl, rfl, rfl]

/-- A delivery to the supervisor starts the handler `InitSignals` installed for the
    signal. -/
theorem deliver_handler {e : Endian} {fds₀ : FdTable} {s s₁ : Sys} {sig : Sig}
    (hr : Reachable e fds₀ s) (hd : step e s (.deliver .supervisor sig) = some s₁) :
    s₁.sup = { s.sup with frames := ⟨sig.handler, sig, .check⟩ :: s.sup.frames } := by
  simp only [step, Option.map_eq_some'] at hd
  obtain ⟨p', hp', rfl⟩ := hd
  obtain ⟨hh, hdisp, -, rfl⟩ := Proc.deliver_cases hp'
  rw [hr.inv.handlers.disposition sig hh hdisp]

/-- A terminal signal delivered to the supervisor inside the window ends `miredo`: along
    every interleaving after it the supervisor never returns to the top of its loop and never
    takes `retval = 2`; while a worker lives, it has a record pending in its pipe unless the
    supervisor's `exit_handler` has still to write it; and a worker at `select` with a record
    pending leaves its loop there with exit status 0. -/
theorem terminal_signal_kept {e : Endian} {fds₀ : FdTable} {s s₁ s' : Sys} {sig : Sig}
    (hr : Reachable e fds₀ s) (hwin : s.sup.pc.window) (hsig : sig ≠ .SIGHUP)
    (hd : step e s (.deliver .supervisor sig) = some s₁) (hs' : Reaches e s₁ s') :
    s'.sup.pc ≠ .top ∧ s'.sup.retval ≠ 2 ∧
      (∀ w, s'.worker = some w →
        pending s' w = true ∨ ∃ f ∈ s'.sup.frames, f.handler = .exit_handler) ∧
      (∀ w, s'.worker = some w → w.pc = .select → pending s' w = true →
        ∀ IFNAMSIZ PBUF (tunnel : ipv6_tunnel.IPv6Tunnel IFNAMSIZ PBUF) relay server n ready s'',
        step e s' (.main .worker (.select tunnel relay server n ready)) = some s'' →
        s''.worker = some { w with pc := .exited (.exited 0) }) := by
  have hr₁ : Reachable e fds₀ s₁ := .step _ hr hd
  have hr' : Reachable e fds₀ s' := hr₁.reaches hs'
  have hc₁ : Committed s₁.sup := by
    rw [deliver_handler hr hd, Sig.handler_of_ne hsig]
    exact .inl ⟨hwin, .inr ⟨_, List.mem_cons_self _ _, rfl⟩⟩
  have hc' := hr₁.committed_reaches hc₁ hs'
  have hi' := hr'.inv
  refine ⟨hc'.ne_top, hi'.shape.committed_retval hc', fun w hw => hc'.worker_pending hi'
    (hr'.recorded .exit_handler) hw, fun w hw hsel hp _ _ _ _ _ _ _ _ h => ?_⟩
  exact (hi'.shape.worker_some hw).2.select_pending hsel hp (step_main_worker hw h).2

/-- SIGTERM delivered to the supervisor of the first generation once its worker runs. -/
theorem terminal_signal_kept_sample :
    ∃ s s₁, run .little (Sys.init stdio) firstGeneration = some s ∧ s.sup.pc.window = true ∧
      step .little s (.deliver .supervisor .SIGTERM) = some s₁ ∧
      s₁.sup.pc ≠ .top ∧ s₁.sup.retval ≠ 2 := by
  obtain ⟨s, hs, hwin⟩ := Option.map_eq_some'.mp
    (show (run .little (Sys.init stdio) firstGeneration).map (fun s => s.sup.pc.window) =
      some true by decide)
  obtain ⟨s₁, hs₁⟩ := Option.isSome_iff_exists.mp
    (show (run .little (Sys.init stdio) (firstGeneration ++ [.deliver .supervisor .SIGTERM])).isSome
      by decide)
  have hd : step .little s (.deliver .supervisor .SIGTERM) = some s₁ := by
    rw [run_append, hs] at hs₁
    simpa [run] using hs₁
  have h := terminal_signal_kept (Reachable.init.reaches (run_reaches hs)) hwin
    (by decide) hd .refl
  exact ⟨s, s₁, hs, hwin, hd, h.1, h.2.1⟩

/-- The first generation's worker crashes, and SIGTERM reaches the supervisor once
    `DeinitSignals` has set `signalfd[1]` to -1. -/
def lateSignal : List Action :=
  firstGeneration ++ [.kill 11, .main .supervisor .next, .main .supervisor .next,
    .main .supervisor .next, .main .supervisor .next, .deliver .supervisor .SIGTERM,
    .handle .supervisor, .main .supervisor .next, .main .supervisor .next,
    .main .supervisor .next]

/-- Its `exit_handler` returns at its test without a record, and the supervisor starts
    another generation, `retval = 2`, with `should_exit` clear. -/
theorem lateSignal_dropped :
    (run .little (Sys.init stdio) lateSignal).map
      (fun s => (s.sup.pc, s.sup.retval, s.sup.should_exit, s.pipes 0)) =
      some (.top, 2, 0, []) := by
  decide

/-- After a crashed first generation, SIGTERM reaches the supervisor between `pipe` and
    `should_exit = 0` in `InitSignals`, and the second worker crashes too. -/
def earlySignal : List Action :=
  crashedGeneration ++ [.main .supervisor .next, .main .supervisor (.pipe 3 4),
    .deliver .supervisor .SIGTERM, .handle .supervisor, .handle .supervisor, .handle .supervisor,
    .main .supervisor .next, .main .supervisor .next, .main .supervisor .next,
    .main .supervisor .next, .main .supervisor .next, .main .supervisor .next,
    .main .supervisor (.conf emptyFile), .main .supervisor .next, .kill 11,
    .main .supervisor .next, .main .supervisor .next, .main .supervisor .next,
    .main .supervisor .next, .main .supervisor .next, .main .supervisor .next,
    .main .supervisor .next]

/-- Its `exit_handler` writes 15 into the new pipe and sets `should_exit`, which
    `InitSignals` then clears: the supervisor starts a third generation, `retval = 2`. -/
theorem earlySignal_dropped :
    (run .little (Sys.init stdio) (earlySignal.take 24)).map
        (fun s => (s.sup.pc, s.sup.should_exit)) = some (.clearExit, 15) ∧
      (run .little (Sys.init stdio) earlySignal).map
        (fun s => (s.sup.pc, s.sup.retval, s.sup.should_exit, s.pipes 1)) =
        some (.top, 2, 0, [15]) := by
  decide

/-- The points of the generation loop from `fork` to `fd = -1` in `DeinitSignals`. -/
def Pc.forked : Pc → Bool
  | .free | .waitpid | .deinit .load | .deinit .clear => true
  | _ => false

/-- From `fork` on, the loop moves on inside that stretch or to the `close` of
    `DeinitSignals`; and the stretch lies inside `reload_handler`'s window. -/
theorem Pc.forked_succ {p : Pc} (hp : p.forked) :
    (∀ q ∈ p.succ, q.forked ∨ q = .deinit .close) ∧ Handler.reload_handler.window p := by
  cases p <;> (try rename_i x; cases x) <;> first | decide | simp [Pc.forked] at hp

/-- The supervisor is bound to start another generation unless a terminal signal ends it:
    after `fork` with a reload pending, past the window with `should_reload` set, at the top
    of the loop with `retval = 2`, or out of the loop on a terminal signal. -/
def ReloadCommitted (p : Proc) : Prop :=
  (p.pc.forked ∧ Handler.reload_handler.pending p) ∨
    ((p.pc = .deinit .close ∨ p.pc = .closeRead ∨ p.pc = .decide) ∧ p.should_reload ≠ 0) ∨
    (p.pc = .top ∧ p.retval = 2) ∨ (p.pc = .returned ∧ p.retval = 0 ∧ p.should_exit ≠ 0)

theorem ReloadCommitted.of_supMain {e : Endian} {s s' : Sys} {o : Outcome}
    (hc : ReloadCommitted s.sup) (htop : s.sup.pc ≠ .top) (hf : s.sup.frames = [])
    (h : supMain e s o = some s') : ReloadCommitted s'.sup := by
  obtain ⟨hsucc, -, -, -, hdec⟩ := supMain_frame h
  have hreload : s.sup.pc ≠ .clearReload → s'.sup.should_reload = s.sup.should_reload :=
    supMain_flag h .reload_handler
  rcases hc with ⟨hw, hx₀⟩ | ⟨hpc | hpc | hpc, hx₀⟩ | ⟨hpc, -⟩ | ⟨hret, -⟩
  · -- after `fork` no handler runs, so `should_reload` is set
    have hx₀ : s.sup.should_reload ≠ 0 := hx₀.resolve_right (by simp [hf])
    obtain ⟨hsucc', hwin⟩ := Pc.forked_succ hw
    have hx' : s'.sup.should_reload ≠ 0 := by
      rwa [hreload (Handler.reload_handler.window_ne hwin).1]
    rcases hsucc' _ hsucc with hw' | hq
    exacts [.inl ⟨hw', .inl hx'⟩, .inr (.inl ⟨.inl hq, hx'⟩)]
  · rw [hpc] at hsucc
    refine .inr (.inl ⟨.inr (.inl (List.mem_singleton.mp hsucc)), ?_⟩)
    rwa [hreload (by rw [hpc]; decide)]
  · rw [hpc] at hsucc
    refine .inr (.inl ⟨.inr (.inr (List.mem_singleton.mp hsucc)), ?_⟩)
    rwa [hreload (by rw [hpc]; decide)]
  · -- the tests after `DeinitSignals`: a terminal signal wins, else the reload
    obtain ⟨hret, hpc'⟩ := hdec hpc
    have hexit : s'.sup.should_exit = s.sup.should_exit :=
      supMain_flag h .exit_handler (by rw [hpc]; decide)
    by_cases hx : s.sup.should_exit ≠ 0
    · have h0 : decideRetval s.sup = 0 := if_pos hx
      rw [h0] at hret hpc'
      exact .inr (.inr (.inr ⟨hpc', hret, by rwa [hexit]⟩))
    · have h2 : decideRetval s.sup = 2 := by
        rw [decideRetval, if_neg hx, if_pos hx₀]
      rw [h2] at hret hpc'
      exact .inr (.inr (.inl ⟨hpc', hret⟩))
  · exact absurd hpc htop
  · rw [hret] at hsucc
    cases hsucc

/-- Every step taken before the top of the loop keeps the supervisor committed to reload. -/
theorem ReloadCommitted.step {e : Endian} {fds₀ : FdTable} {s s' : Sys} {a : Action}
    (hi : Inv fds₀ s) (hc : ReloadCommitted s.sup) (htop : s.sup.pc ≠ .top)
    (h : step e s a = some s') : ReloadCommitted s'.sup := by
  rcases step_sup_cases h with ⟨hf, o, h⟩ | ⟨sig, p', hp', rfl⟩ | ⟨p', pipes', hp', rfl⟩ | hwho
  · exact hc.of_supMain htop hf h
  · obtain ⟨-, -, -, rfl⟩ := Proc.deliver_cases hp'
    rcases hc with ⟨hw, hx⟩ | hc | hc
    exacts [.inl ⟨hw, hx.push _⟩, .inr (.inl hc), .inr (.inr hc)]
  · obtain ⟨hpc, hret, hx, hpend⟩ := Proc.handle_pending hp' .reload_handler
    have hexit := (Proc.handle_pending hp' .exit_handler).2.2.1
    rcases hc with ⟨hw, hx₀⟩ | ⟨hpc₀, hx₀⟩ | ⟨hpc₀, hret₀⟩ | ⟨hpc₀, hret₀, hx₀⟩
    · have hfd := hi.shape.window_signalfd1
        (Handler.reload_handler.window_sub (Pc.forked_succ hw).2)
      exact .inl ⟨hpc ▸ hw, hpend hfd hx₀⟩
    · exact .inr (.inl ⟨hpc ▸ hpc₀, hx hx₀⟩)
    · exact .inr (.inr (.inl ⟨hpc ▸ hpc₀, hret ▸ hret₀⟩))
    · exact .inr (.inr (.inr ⟨hpc ▸ hpc₀, hret ▸ hret₀, hexit hx₀⟩))
  · rw [(step_worker_sup hwho h).1]
    exact hc

theorem Reachable.reloadCommitted_reaches {e : Endian} {fds₀ : FdTable} {s s' : Sys}
    (hr : Reachable e fds₀ s) (hc : ReloadCommitted s.sup) (h : ReachesInGeneration e s s') :
    ReloadCommitted s'.sup := by
  induction h with
  | refl => exact hc
  | tail hreach hnext ih =>
    obtain ⟨⟨a, ha⟩, htop⟩ := hnext
    exact ih.step (hr.reaches (ReachesInGeneration.reaches hreach)).inv htop ha

/-- A SIGHUP delivered to the supervisor between `fork` and `fd = -1` in `DeinitSignals` is
    honoured: until the supervisor starts another generation, it leaves its loop only on a
    terminal signal, with `retval = 0`; it comes back to the top of the loop with
    `retval = 2`; and while the worker lives, a record is pending in its pipe unless the
    supervisor's `reload_handler` has still to write it. -/
theorem reload_kept {e : Endian} {fds₀ : FdTable} {s s₁ s' : Sys}
    (hr : Reachable e fds₀ s) (hfork : s.sup.pc.forked)
    (hd : step e s (.deliver .supervisor .SIGHUP) = some s₁) (hs' : ReachesInGeneration e s₁ s') :
    (s'.sup.pc = .returned → s'.sup.retval = 0 ∧ s'.sup.should_exit ≠ 0) ∧
      (s'.sup.pc = .top → s'.sup.retval = 2) ∧
      (∀ w, s'.worker = some w →
        pending s' w = true ∨ ∃ f ∈ s'.sup.frames, f.handler = .reload_handler) := by
  have hr₁ : Reachable e fds₀ s₁ := .step _ hr hd
  have hr' : Reachable e fds₀ s' := hr₁.reaches hs'.reaches
  have hc₁ : ReloadCommitted s₁.sup := by
    rw [deliver_handler hr hd]
    exact .inl ⟨hfork, .inr ⟨_, List.mem_cons_self _ _, rfl⟩⟩
  have hc' := hr₁.reloadCommitted_reaches hc₁ hs'
  have hi' := hr'.inv
  refine ⟨fun hret => ?_, fun htop => ?_, fun w hw => ?_⟩
  · rcases hc' with ⟨hpc, -⟩ | ⟨hpc | hpc | hpc, -⟩ | ⟨hpc, -⟩ | ⟨-, h0, hx⟩
    all_goals first | exact ⟨h0, hx⟩ | (rw [hret] at hpc; cases hpc)
  · rcases hc' with ⟨hpc, -⟩ | ⟨hpc | hpc | hpc, -⟩ | ⟨-, h2⟩ | ⟨hpc, -⟩
    all_goals first | exact h2 | (rw [htop] at hpc; cases hpc)
  · obtain ⟨hpcw, -⟩ := hi'.shape.worker_some hw
    rcases hc' with ⟨hpc, hp⟩ | ⟨hpc | hpc | hpc, -⟩ | ⟨hpc, -⟩ | ⟨hpc, -⟩
    · exact (hr'.recorded .reload_handler).worker_pending hi' (Pc.forked_succ hpc).2 hp hw
    all_goals rcases hpcw with hpcw | hpcw <;> rw [hpcw] at hpc <;> cases hpc

/-- SIGHUP delivered to the supervisor of the first generation once its worker runs. -/
theorem reload_kept_sample :
    ∃ s s₁, run .little (Sys.init stdio) firstGeneration = some s ∧ s.sup.pc.forked = true ∧
      step .little s (.deliver .supervisor .SIGHUP) = some s₁ ∧
      (s₁.sup.pc = .top → s₁.sup.retval = 2) := by
  obtain ⟨s, hs, hfork⟩ := Option.map_eq_some'.mp
    (show (run .little (Sys.init stdio) firstGeneration).map (fun s => s.sup.pc.forked) =
      some true by decide)
  obtain ⟨s₁, hs₁⟩ := Option.isSome_iff_exists.mp
    (show (run .little (Sys.init stdio) (firstGeneration ++ [.deliver .supervisor .SIGHUP])).isSome
      by decide)
  have hd : step .little s (.deliver .supervisor .SIGHUP) = some s₁ := by
    rw [run_append, hs] at hs₁
    simpa [run] using hs₁
  exact ⟨s, s₁, hs, hfork, hd,
    (reload_kept (Reachable.init.reaches (run_reaches hs)) hfork hd .refl).2.1⟩

/-- The first generation ended by SIGHUP: `reload_handler` writes 1 into the pipe, the
    worker leaves its loop at its first `select`, and the supervisor reaps it and, with
    `retval = 2`, goes back to the top of its loop. -/
def sighupReload : List Action :=
  firstGeneration ++ [.deliver .supervisor .SIGHUP, .handle .supervisor, .handle .supervisor,
    .handle .supervisor, .main .worker .next, .main .worker .next, .main .worker .next,
    .main .worker (.run clientEnv), .main .worker (.select tunnelOn5 (some ⟨[6], 6⟩) none 1 [3]),
    .main .supervisor .next, .main .supervisor .next, .main .supervisor .next,
    .main .supervisor .next, .main .supervisor .next, .main .supervisor .next,
    .main .supervisor .next]

example :
    (run .little (Sys.init stdio) sighupReload).map
      (fun s => (s.sup.pc, s.sup.retval, s.sup.should_reload, s.pipes 0)) =
      some (.top, 2, 1, [1]) := by
  decide

/-- In the first generation SIGINT reaches the supervisor and its `exit_handler` passes its
    test; SIGTERM interrupts it there, and its own `exit_handler` runs to its end. -/
def nestedExit : List Action :=
  firstGeneration ++ [.deliver .supervisor .SIGINT, .handle .supervisor,
    .deliver .supervisor .SIGTERM, .handle .supervisor, .handle .supervisor, .handle .supervisor]

/-- With `sa_mask` empty the interrupted handler then writes a second record and assigns
    `should_exit` a second time. -/
theorem exit_handler_nested :
    (run .little (Sys.init stdio) nestedExit).map (fun s => (s.pipes 0, s.sup.should_exit)) =
      some ([15], 15) ∧
    (run .little (Sys.init stdio) (nestedExit ++ [.handle .supervisor, .handle .supervisor])).map
      (fun s => (s.pipes 0, s.sup.should_exit, s.sup.frames)) = some ([15, 2], 2, []) := by
  decide

end miredo.supervisor
