import Miredo.Supervisor.Invariant

namespace miredo.supervisor

open miredo miredo.worker

/-- Whether a handler for `sig` runs in `fs` at `pc`. -/
def Frame.runs (fs : List Frame) (sig : Sig) (pc : HandlerPc) : Bool :=
  fs.any fun f => f.signum = sig ∧ f.pc = pc

theorem Frame.runs_cons (f : Frame) (fs : List Frame) (sig : Sig) (pc : HandlerPc) :
    Frame.runs (f :: fs) sig pc = (decide (f.signum = sig ∧ f.pc = pc) || Frame.runs fs sig pc) :=
  List.any_cons

theorem Frame.runs_of_not_mem {fs : List Frame} {sig : Sig} (h : sig ∉ fs.map Frame.signum)
    (pc : HandlerPc) : Frame.runs fs sig pc = false := by
  simp only [Frame.runs, List.any_eq_false, decide_eq_true_eq, not_and]
  exact fun f hf hs => absurd (hs ▸ List.mem_map_of_mem Frame.signum hf) h

/-- A signal's handler runs at one point at most, since it runs once at most. -/
theorem Frame.runs_unique {fs : List Frame} (hnd : (fs.map Frame.signum).Nodup) {sig : Sig}
    {pc pc' : HandlerPc} (h : Frame.runs fs sig pc) (h' : Frame.runs fs sig pc') : pc = pc' := by
  simp only [Frame.runs, List.any_eq_true, decide_eq_true_eq] at h h'
  obtain ⟨f, hf, rfl, rfl⟩ := h
  obtain ⟨g, hg, hs, rfl⟩ := h'
  rw [List.inj_on_of_nodup_map hnd hf hg hs.symm]

/-- The records of `sig` that `p` can still write until its flag for `sig` is cleared: none
    once `signalfd[1]` is -1; while the flag is clear, one unless the handler of `sig` has
    written and not yet assigned; once the flag is set, one if the handler of `sig` is about
    to write. -/
def Proc.credit (p : Proc) (sig : Sig) : Nat :=
  if p.signalfd1 = -1 then 0
  else if sig.handler.flag p = 0 then (if Frame.runs p.frames sig .assign then 0 else 1)
  else if Frame.runs p.frames sig .write then 1 else 0

theorem Proc.credit_le_one (p : Proc) (sig : Sig) : p.credit sig ≤ 1 := by
  unfold Proc.credit
  split_ifs <;> decide

/-- The credit reads only `signalfd[1]`, the flag, and the handlers at `assign` and, once
    the flag is set, at `write`; moving `signalfd[1]` to -1 only lowers it. -/
theorem Proc.credit_le {p p' : Proc} {sig : Sig}
    (hfd : p'.signalfd1 = p.signalfd1 ∨ p'.signalfd1 = -1)
    (hflag : sig.handler.flag p' = sig.handler.flag p)
    (hwrite : sig.handler.flag p ≠ 0 →
      Frame.runs p'.frames sig .write = Frame.runs p.frames sig .write)
    (hassign : Frame.runs p'.frames sig .assign = Frame.runs p.frames sig .assign) :
    p'.credit sig ≤ p.credit sig := by
  rcases hfd with hfd | hfd
  · by_cases h0 : sig.handler.flag p = 0
    · simp only [Proc.credit, hfd, hflag, h0, hassign, if_true, le_refl]
    · simp only [Proc.credit, hfd, hflag, h0, hassign, hwrite h0, if_false, le_refl]
  · simp [Proc.credit, hfd]

/-- A delivery changes no credit: the new handler has not passed its test. -/
theorem Proc.credit_deliver {p p' : Proc} {sig' : Sig} (h : p.deliver sig' = some p')
    (sig : Sig) : p'.credit sig = p.credit sig := by
  obtain ⟨hd, -, -, rfl⟩ := Proc.deliver_cases h
  simp [Proc.credit, Frame.runs_cons]

section HandlerStep

variable {p : Proc} {f : Frame} {rest : List Frame}

theorem HandlersOk.signum_not_mem (hp : HandlersOk p) (hf : p.frames = f :: rest) :
    f.signum ∉ rest.map Frame.signum := by
  have hnd := hp.distinct
  rw [hf, List.map_cons, List.nodup_cons] at hnd
  exact hnd.1

/-- Below `f`, the handlers of signals other than `f`'s are those of `p`. -/
theorem Frame.runs_rest (hf : p.frames = f :: rest) {sig : Sig} (hs : sig ≠ f.signum)
    (pc : HandlerPc) : Frame.runs rest sig pc = Frame.runs p.frames sig pc := by
  rw [hf, Frame.runs_cons]
  simp [Ne.symm hs]

/-- The step of `f` writes `f`'s record: it spends `p`'s credit of `f`'s signal. -/
theorem Proc.credit_write (hp : HandlersOk p) (hf : p.frames = f :: rest) (hpc : f.pc = .write) :
    ({ p with frames := { f with pc := .assign } :: rest } : Proc).credit f.signum + 1 ≤
      p.credit f.signum := by
  have hopen := hp.open_fd f (hf ▸ List.mem_cons_self f rest) (by rw [hpc]; decide)
  have hrest := Frame.runs_of_not_mem (hp.signum_not_mem hf)
  simp [Proc.credit, hopen, hf, Frame.runs_cons, hrest, hpc]

/-- The step of `f` that assigns its flag earns no credit: a handler of the same flag
    that is still to write had a credit already. -/
theorem Proc.credit_assign (hp : HandlersOk p) (hf : p.frames = f :: rest) (hpc : f.pc = .assign)
    (sig : Sig) : (f.handler.set { p with frames := rest } f.signum.number).credit sig ≤
      p.credit sig := by
  have hrest := Frame.runs_of_not_mem (hp.signum_not_mem hf)
  have hhandler : f.handler = f.signum.handler :=
    hp.disposition _ _ (hp.installed f (hf ▸ List.mem_cons_self f rest))
  by_cases hh : sig.handler = f.handler
  · -- the flag of `sig` is now set: only a handler of `sig` about to write keeps a credit
    have hset : sig.handler.flag (f.handler.set { p with frames := rest } f.signum.number) ≠ 0 := by
      rw [hh, Handler.flag_set_self]
      exact Sig.number_ne_zero _
    by_cases hs : sig = f.signum
    · subst hs
      simp [Proc.credit, hset, hrest]
    by_cases hw : Frame.runs p.frames sig .write
    · have hassign : Frame.runs p.frames sig .assign = false := by
        by_contra ha
        exact absurd (Frame.runs_unique hp.distinct hw (Bool.not_eq_false _ ▸ ha)) (by decide)
      calc _ ≤ 1 := Proc.credit_le_one _ _
        _ = p.credit sig := by
          by_cases h0 : sig.handler.flag p = 0 <;> simp [Proc.credit, h0, hw, hassign, hp.open_fd f
            (hf ▸ List.mem_cons_self f rest) (by rw [hpc]; decide)]
    · simp [Proc.credit, hset, Frame.runs_rest hf hs, hw]
  · -- the flag of `sig` is untouched
    have hs : sig ≠ f.signum := fun hs => hh (hs ▸ hhandler.symm)
    exact Proc.credit_le (.inl (by simp)) (by rw [Handler.flag_set_ne hh, Handler.flag_frames])
      (fun _ => by simpa using Frame.runs_rest hf hs .write) (by simpa using Frame.runs_rest hf hs .assign)

end HandlerStep

/-- What a handler step does to the credits: the `write` of a record of a signal spends a
    credit of that signal, and no step earns one. -/
theorem Proc.credit_handle {p p' : Proc} {pipes pipes' : Nat → List Int} (hp : HandlersOk p)
    (h : p.handle pipes = some (p', pipes')) :
    (pipes' = pipes ∧ ∀ sig, p'.credit sig ≤ p.credit sig) ∨
      ∃ f ∈ p.frames, f.pc = .write ∧ pipes' = write p.fds p.signalfd1 f.signum.number pipes ∧
        p'.credit f.signum + 1 ≤ p.credit f.signum ∧
        ∀ sig, sig ≠ f.signum → p'.credit sig ≤ p.credit sig := by
  obtain ⟨f, rest, hf, hcase⟩ := Proc.handle_cases h
  have hhandler : f.handler = f.signum.handler :=
    hp.disposition _ _ (hp.installed f (hf ▸ List.mem_cons_self f rest))
  -- a step that moves `f` on keeps the handlers of the other signals
  have hother : ∀ (pc : HandlerPc) (sig : Sig), sig ≠ f.signum → ∀ pc',
      Frame.runs ({ f with pc } :: rest) sig pc' = Frame.runs p.frames sig pc' := fun pc sig hs pc' => by
    rw [Frame.runs_cons, Frame.runs_rest hf hs]
    simp [Ne.symm hs]
  rcases hcase with ⟨hpc, -, rfl, rfl⟩ | ⟨hpc, hflag, -, rfl, rfl⟩ | ⟨hpc, rfl, rfl⟩ |
    ⟨hpc, rfl, rfl⟩
  · -- the test fails and the handler returns
    refine .inl ⟨rfl, fun sig => Proc.credit_le (.inl rfl) (Handler.flag_frames _ _ _) ?_ ?_⟩ <;>
      simp [hf, Frame.runs_cons, hpc]
  · -- the test passes: `f`'s flag is clear, so its credit does not read `write`
    refine .inl ⟨rfl, fun sig => Proc.credit_le (.inl rfl) (Handler.flag_frames _ _ _) ?_ ?_⟩
    · intro h0
      have hs : sig ≠ f.signum := by
        rintro rfl
        exact h0 (hhandler ▸ hflag)
      exact hother _ _ hs _
    · simp [hf, Frame.runs_cons, hpc]
  · -- the `write`
    exact .inr ⟨f, hf ▸ List.mem_cons_self f rest, hpc, rfl, Proc.credit_write hp hf hpc,
      fun sig hs => Proc.credit_le (.inl rfl) (Handler.flag_frames _ _ _)
        (fun _ => hother _ _ hs _) (hother _ _ hs _)⟩
  · -- the assignment
    exact .inl ⟨rfl, Proc.credit_assign hp hf hpc⟩

/-- The credit of the worker, if there is one; a worker that has terminated writes
    nothing. -/
def workerCredit : Option Proc → Sig → Nat
  | some w, sig => if w.alive then w.credit sig else 0
  | none, _ => 0

theorem workerCredit_le_one (w : Option Proc) (sig : Sig) : workerCredit w sig ≤ 1 := by
  unfold workerCredit
  split
  · split_ifs
    exacts [Proc.credit_le_one _ _, Nat.zero_le 1]
  · exact Nat.zero_le 1

/-- The records of `sig` that the epochs still to come in a generation can add to its pipe:
    one once `InitSignals` clears the flag of `sig`'s handler, and one for the worker that
    `fork` copies the supervisor into. -/
def Pc.reserve : Pc → Sig → Nat
  | .clearExit, _ => 2
  | .clearReload, sig => if sig.handler = .reload_handler then 2 else 1
  | .sigaction _, _ | .parseConf, _ | .fork, _ => 1
  | _, _ => 0

/-- A main-program step past `pipe` spends the reserve of the epoch it ends: at the
    statement that clears the flag of `sig`'s handler, and at `fork`. -/
theorem Pc.reserve_succ {p : Pc} (hp : p ≠ .pipe) (sig : Sig) : ∀ q ∈ p.succ,
    q.reserve sig + (if p = sig.handler.clearPc then 1 else 0) + (if p = .fork then 1 else 0) ≤
      p.reserve sig := by
  cases p <;> (try rename_i x; cases x) <;> cases sig <;>
    first | decide | exact absurd rfl hp | simp [Pc.succ]

/-- What the two processes can still add to the current pipe for `sig`: their credits and
    the supervisor's reserve. -/
def Sys.headroom (s : Sys) (sig : Sig) : Nat :=
  s.sup.credit sig + workerCredit s.worker sig + s.sup.pc.reserve sig

/-- How full the pipes are: every record is a signal number, each pipe holds at most three
    records of each signal, and on the current pipe the records and the headroom add up to
    at most three for each signal; a worker that has terminated runs no handler. -/
structure Room (s : Sys) : Prop where
  records : ∀ k, ∀ v ∈ s.pipes k, ∃ sig : Sig, v = sig.number
  bound : ∀ k (sig : Sig), (s.pipes k).count sig.number ≤ 3
  current : ∀ sig : Sig, (s.pipes s.current).count sig.number + s.headroom sig ≤ 3
  idle : ∀ w, s.worker = some w → w.alive = false → w.frames = []

theorem Room.init (fds₀ : FdTable) : Room (Sys.init fds₀) where
  records _ _ h := absurd h (List.not_mem_nil _)
  bound _ _ := Nat.zero_le 3
  current sig := by
    have := Proc.credit_le_one (Sys.init fds₀).sup sig
    simp only [Sys.headroom, Sys.init, workerCredit, Pc.reserve, List.count_nil] at this ⊢
    omega
  idle _ h := absurd h (by simp [Sys.init])

variable {s s' : Sys}

/-- A step that adds no record and does not raise the headroom keeps the room. -/
theorem Room.of_le (hroom : Room s) (hpipes : s'.pipes = s.pipes) (hnext : s'.nextPipe = s.nextPipe)
    (hle : ∀ sig, s'.headroom sig ≤ s.headroom sig)
    (hidle : ∀ w, s'.worker = some w → w.alive = false → w.frames = []) : Room s' where
  records := hpipes ▸ hroom.records
  bound := hpipes ▸ hroom.bound
  current sig := by
    have h := hroom.current sig
    have h' := hle sig
    rw [Sys.current, hpipes, hnext]
    rw [Sys.current] at h
    omega
  idle := hidle

theorem count_number_append (l : List Int) (sig₀ sig : Sig) :
    (l ++ [sig₀.number]).count sig.number = l.count sig.number + if sig₀ = sig then 1 else 0 := by
  rw [List.count_append, List.count_singleton]
  simp only [beq_iff_eq, Sig.number_inj]

/-- A step that appends a record of `sig₀` to the current pipe keeps the room when it
    lowers the headroom of `sig₀` and raises no other. -/
theorem Room.of_write (hroom : Room s) (sig₀ : Sig)
    (hpipes : s'.pipes = Function.update s.pipes s.current (s.pipes s.current ++ [sig₀.number]))
    (hnext : s'.nextPipe = s.nextPipe)
    (hspent : ∀ sig, s'.headroom sig + (if sig₀ = sig then 1 else 0) ≤ s.headroom sig)
    (hidle : ∀ w, s'.worker = some w → w.alive = false → w.frames = []) : Room s' := by
  have hcount : ∀ sig, (s'.pipes s.current).count sig.number =
      (s.pipes s.current).count sig.number + if sig₀ = sig then 1 else 0 := fun sig => by
    rw [hpipes, Function.update_same, count_number_append]
  refine ⟨fun k v hv => ?_, fun k sig => ?_, fun sig => ?_, hidle⟩
  · rw [hpipes] at hv
    by_cases hk : k = s.current
    · subst hk
      rw [Function.update_same, List.mem_append, List.mem_singleton] at hv
      exact hv.elim (hroom.records _ v) fun hv => ⟨sig₀, hv⟩
    · exact hroom.records k v (by rwa [Function.update_noteq hk] at hv)
  · by_cases hk : k = s.current
    · subst hk
      have := hroom.current sig
      have := hspent sig
      rw [hcount]
      omega
    · rw [hpipes, Function.update_noteq hk]
      exact hroom.bound k sig
  · have := hroom.current sig
    have := hspent sig
    rw [Sys.current, hnext, ← Sys.current, hcount]
    omega

/-- `write` appends to the pipe its descriptor is the write end of. -/
theorem write_eq {fds : FdTable} {fd v : Int} {k : Nat} (h : fds fd = some (.pipeWrite k))
    (pipes : Nat → List Int) : write fds fd v pipes = Function.update pipes k (pipes k ++ [v]) := by
  rw [write, h]

/-- A failed `pipe` changes only the program counter; a successful one starts a generation
    with an empty pipe, one credit at most for the supervisor, no worker, and the reserve of
    two epochs. -/
theorem Room.of_pipe {e : Endian} {o : Outcome} (hroom : Room s) (hpc : s.sup.pc = .pipe)
    (hworker : s.worker = none) (h : supMain e s o = some s') : Room s' := by
  have hcred : ∀ sig, s'.sup.credit sig ≤ 1 := fun sig => Proc.credit_le_one _ sig
  unfold supMain at h
  dsimp only at h
  rw [hpc] at h
  cases o with
  | pipe r w =>
    dsimp only at h
    split_ifs at h
    cases h
    refine ⟨fun k v hv => ?_, fun k sig => ?_, fun sig => ?_, fun _ h => absurd h (by simp [hworker])⟩
    · by_cases hk : k = s.nextPipe
      · subst hk
        simp at hv
      · exact hroom.records k v (by simpa [Function.update_noteq hk] using hv)
    · by_cases hk : k = s.nextPipe
      · subst hk
        simp
      · simpa [Function.update_noteq hk] using hroom.bound k sig
    · have := hcred sig
      dsimp only at this
      simp [Sys.headroom, Sys.current, hworker, workerCredit, Pc.reserve]
      omega
  | fail =>
    cases h
    refine hroom.of_le rfl rfl (fun sig => ?_) hroom.idle
    have : ({ s.sup with pc := .returned } : Proc).credit sig ≤ s.sup.credit sig :=
      Proc.credit_le (.inl rfl) (Handler.flag_congr _ rfl rfl) (fun _ => rfl) rfl
    dsimp only at this
    simp only [Sys.headroom, hpc, Pc.reserve]
    omega
  | _ => cases h

/-- A main-program step past `pipe` does not raise the headroom: clearing a flag earns the
    supervisor a credit and `fork` gives the worker one, each paid from the reserve. -/
theorem Room.of_supMain {e : Endian} {o : Outcome} (hroom : Room s) (hpipe : s.sup.pc ≠ .pipe)
    (h : supMain e s o = some s') : Room s' := by
  obtain ⟨hsucc, hframes, hflag, hpipes, -⟩ := supMain_frame h
  obtain ⟨hpipes, hnext⟩ := hpipes hpipe
  obtain ⟨hfd, hworker, -⟩ := supMain_bridge h
  replace hfd := hfd.resolve_left hpipe
  refine hroom.of_le hpipes hnext (fun sig => ?_) ?_
  · have hres := Pc.reserve_succ hpipe sig _ hsucc
    have hruns : ∀ pc, Frame.runs s'.sup.frames sig pc = Frame.runs s.sup.frames sig pc := by
      simp [hframes]
    have hcred : s'.sup.credit sig ≤ s.sup.credit sig +
        if s.sup.pc = sig.handler.clearPc then 1 else 0 := by
      by_cases hc : s.sup.pc = sig.handler.clearPc
      · simpa [hc] using (Proc.credit_le_one _ sig).trans (Nat.le_add_left 1 (s.sup.credit sig))
      · rw [if_neg hc, Nat.add_zero]
        exact Proc.credit_le hfd (by rw [hflag, if_neg hc]) (fun _ => hruns _) (hruns _)
    have hwc : workerCredit s'.worker sig ≤ workerCredit s.worker sig +
        if s.sup.pc = .fork then 1 else 0 := by
      rcases hworker with hw | hw | ⟨hfork, -⟩
      · rw [hw]
        exact Nat.le_add_right _ _
      · rw [hw, workerCredit]
        exact Nat.zero_le _
      · rw [if_pos hfork]
        exact (workerCredit_le_one _ _).trans (Nat.le_add_left 1 _)
    generalize (if s.sup.pc = sig.handler.clearPc then 1 else 0) = a at hres hcred
    generalize (if s.sup.pc = .fork then 1 else 0) = b at hres hwc
    unfold Sys.headroom
    omega
  · rcases hworker with hw | hw | ⟨-, hw⟩
    · exact hw ▸ hroom.idle
    · exact fun _ h => absurd (hw ▸ h) (by simp)
    · rintro w' hw' hdead
      cases hw.symm.trans hw'
      cases hdead

/-- A step of the worker's main program, which runs only while the worker lives, leaves its
    handlers and flags alone and moves its `signalfd[1]` only to -1. -/
theorem workerMain_credit {e : Endian} {w : Proc} {o : Outcome} (h : workerMain e s w o = some s') :
    w.alive ∧ (s' = s ∨ ∃ w', s' = { s with worker := some w' } ∧ w'.frames = w.frames ∧
      ∀ sig, w'.credit sig ≤ w.credit sig) := by
  unfold workerMain at h
  split at h <;> rename_i hpc
  all_goals (try split_ifs at h)
  all_goals cases h
  all_goals refine ⟨by unfold Proc.alive; rw [hpc], ?_⟩
  all_goals first
    | exact .inl rfl
    | exact .inr ⟨_, rfl, rfl, fun sig =>
        Proc.credit_le (.inl rfl) (Handler.flag_congr _ rfl rfl) (fun _ => rfl) rfl⟩
    | exact .inr ⟨_, rfl, rfl, fun sig =>
        Proc.credit_le (.inr rfl) (Handler.flag_congr _ rfl rfl) (fun _ => rfl) rfl⟩

/-- A handler step of `p`, the supervisor or the worker, in a state where it writes to the
    current pipe: the credits it leaves and what it appends. -/
theorem Inv.credit_handle {fds₀ : FdTable} (hi : Inv fds₀ s) {p p' : Proc}
    {pipes' : Nat → List Int} (hp : p = s.sup ∨ s.worker = some p)
    (h : p.handle s.pipes = some (p', pipes')) :
    (pipes' = s.pipes ∧ ∀ sig, p'.credit sig ≤ p.credit sig) ∨ ∃ sig₀,
      pipes' = Function.update s.pipes s.current (s.pipes s.current ++ [sig₀.number]) ∧
      ∀ sig, p'.credit sig + (if sig₀ = sig then 1 else 0) ≤ p.credit sig := by
  rcases Proc.credit_handle (hi.handlersOk hp) h with hno | ⟨f, hf, hfpc, rfl, hspent, hle⟩
  · exact .inl hno
  refine .inr ⟨f.signum, write_eq (hi.write_target hp hf (by rw [hfpc]; decide)).2.1 _,
    fun sig => ?_⟩
  by_cases hs : f.signum = sig
  · subst hs
    simpa using hspent
  · simpa [hs] using hle sig (Ne.symm hs)

/-- Every step keeps the room. -/
theorem Room.step {e : Endian} {fds₀ : FdTable} {a : Action} (hroom : Room s) (hi : Inv fds₀ s)
    (h : step e s a = some s') : Room s' := by
  rcases step_sup_cases h with ⟨-, o, h⟩ | ⟨sig, p', hp', rfl⟩ | ⟨p', pipes', hp', rfl⟩ | hwho
  · -- a step of the supervisor's main program
    by_cases hpipe : s.sup.pc = .pipe
    · have hs := hi.shape
      simp only [SupShape, hpipe] at hs
      exact hroom.of_pipe hpipe hs.2.2.1 h
    · exact hroom.of_supMain hpipe h
  · -- a delivery to the supervisor
    have hpc : p'.pc = s.sup.pc := by
      obtain ⟨_, -, -, rfl⟩ := Proc.deliver_cases hp'
      rfl
    exact hroom.of_le rfl rfl (fun sig => by
      simp only [Sys.headroom, Proc.credit_deliver hp', hpc, le_refl]) hroom.idle
  · -- a step of the supervisor's innermost handler
    have hpc : p'.pc = s.sup.pc := by
      obtain ⟨_, _, _, rfl⟩ := Proc.handle_frames_flags hp'
      rfl
    rcases hi.credit_handle (.inl rfl) hp' with ⟨rfl, hle⟩ | ⟨sig₀, rfl, hspent⟩
    · refine hroom.of_le rfl rfl (fun sig => ?_) hroom.idle
      have := hle sig
      simp only [Sys.headroom, hpc]
      omega
    · refine hroom.of_write sig₀ rfl rfl (fun sig => ?_) hroom.idle
      have := hspent sig
      simp only [Sys.headroom, hpc]
      omega
  -- the worker's steps leave the supervisor and its reserve alone
  obtain ⟨w, hw, ⟨o, -, hf, h⟩ | ⟨sig, w', -, halive, hw', rfl⟩ | ⟨w', pipes', -, hw', rfl⟩ | ⟨n, -, -, rfl⟩⟩ :=
    step_worker_cases hwho h
  · -- a step of the worker's main program
    obtain ⟨halive, rfl | ⟨w', rfl, hframes, hle⟩⟩ := workerMain_credit h
    · exact hroom
    refine hroom.of_le rfl rfl (fun sig => ?_) ?_
    · have := hle sig
      simp only [Sys.headroom, hw, workerCredit, halive, if_true]
      split_ifs <;> omega
    · rintro _ ⟨⟩ -
      rw [hframes, hf]
  · -- a delivery to the worker
    have halive' : w'.alive := by
      obtain ⟨_, -, -, rfl⟩ := Proc.deliver_cases hw'
      exact halive
    refine hroom.of_le rfl rfl (fun sig => ?_) (fun _ hw'' hdead => ?_)
    · simp only [Sys.headroom, hw, workerCredit, halive, halive', if_true,
        Proc.credit_deliver hw', le_refl]
    · cases hw''
      rw [halive'] at hdead
      cases hdead
  · -- a step of the worker's innermost handler: the worker has not terminated
    have halive : w.alive := by
      by_contra hdead
      rw [Bool.not_eq_true] at hdead
      rw [Proc.handle, hroom.idle w hw hdead] at hw'
      cases hw'
    have halive' : w'.alive := by
      obtain ⟨_, _, _, rfl⟩ := Proc.handle_frames_flags hw'
      exact halive
    have hidle : ∀ w'', some w' = some w'' → w''.alive = false → w''.frames = [] := by
      rintro _ ⟨⟩ hdead
      rw [halive'] at hdead
      cases hdead
    rcases hi.credit_handle (.inr hw) hw' with ⟨rfl, hle⟩ | ⟨sig₀, rfl, hspent⟩
    · refine hroom.of_le rfl rfl (fun sig => ?_) hidle
      have := hle sig
      simp only [Sys.headroom, hw, workerCredit, halive, halive', if_true]
      omega
    · refine hroom.of_write sig₀ rfl rfl (fun sig => ?_) hidle
      have := hspent sig
      simp only [Sys.headroom, hw, workerCredit, halive, halive', if_true]
      omega
  · -- the worker is killed: a terminated worker writes nothing
    refine hroom.of_le rfl rfl (fun sig => ?_) (fun _ hw'' _ => by cases hw''; rfl)
    have hdead : ({ w with pc := .exited (.signaled n), frames := [] } : Proc).alive = false :=
      rfl
    simp only [Sys.headroom, workerCredit, hdead, Bool.false_eq_true, if_false]
    omega

/-- The room is kept in every reachable state. -/
theorem Reachable.room {e : Endian} {fds₀ : FdTable} (hr : Reachable e fds₀ s) : Room s := by
  induction hr with
  | init => exact Room.init fds₀
  | step _ hr h ih => exact ih.step hr.inv h

/-- A list of signal numbers is as long as its counts of the four signals add up to. -/
theorem length_eq_counts {l : List Int} (h : ∀ v ∈ l, ∃ sig : Sig, v = sig.number) :
    l.length = l.count Sig.SIGHUP.number + l.count Sig.SIGINT.number +
      l.count Sig.SIGQUIT.number + l.count Sig.SIGTERM.number := by
  induction l with
  | nil => rfl
  | cons v l ih =>
    obtain ⟨sig, rfl⟩ := h v (List.mem_cons_self v l)
    have ih := ih fun v hv => h v (List.mem_cons_of_mem _ hv)
    cases sig <;> simp [List.count_cons] <;> omega

/-- In every reachable state each bridge pipe holds at most three records of each signal,
    twelve in all: the 4-byte records of the handlers never fill a pipe, though nothing
    reads it. -/
theorem Reachable.pipe_records {e : Endian} {fds₀ : FdTable} (hr : Reachable e fds₀ s)
    (k : Nat) : (∀ sig : Sig, (s.pipes k).count sig.number ≤ 3) ∧ (s.pipes k).length ≤ 12 := by
  have hroom := hr.room
  refine ⟨hroom.bound k, ?_⟩
  rw [length_eq_counts (hroom.records k)]
  have := hroom.bound k .SIGHUP
  have := hroom.bound k .SIGINT
  have := hroom.bound k .SIGQUIT
  have := hroom.bound k .SIGTERM
  omega

/-- The second generation after a crash of the worker, in which SIGINT reaches the
    supervisor before `InitSignals` clears `should_exit`, then the new worker before its
    `asyncsafe_close`, then the supervisor again. -/
def tripleSigint : List Action :=
  crashedGeneration ++ [.main .supervisor .next, .main .supervisor (.pipe 3 4),
    .deliver .supervisor .SIGINT, .handle .supervisor, .handle .supervisor, .handle .supervisor,
    .main .supervisor .next, .main .supervisor .next, .main .supervisor .next,
    .main .supervisor .next, .main .supervisor .next, .main .supervisor .next,
    .main .supervisor (.conf emptyFile), .main .supervisor .next,
    .deliver .worker .SIGINT, .handle .worker, .handle .worker, .handle .worker,
    .deliver .supervisor .SIGINT, .handle .supervisor, .handle .supervisor, .handle .supervisor]

/-- The bound is reached: after `tripleSigint` the second pipe holds three records of
    SIGINT. -/
theorem Reachable.pipe_records_reached :
    ∃ s, run .little (Sys.init stdio) tripleSigint = some s ∧ (s.pipes 1).count 2 = 3 ∧
      (∀ sig : Sig, (s.pipes 1).count sig.number ≤ 3) ∧ (s.pipes 1).length ≤ 12 := by
  obtain ⟨s, hs, hcount⟩ := Option.map_eq_some'.mp
    (show (run .little (Sys.init stdio) tripleSigint).map (fun s => (s.pipes 1).count 2) =
      some 3 by decide)
  exact ⟨s, hs, hcount, Reachable.pipe_records (Reachable.init.reaches (run_reaches hs)) 1⟩

end miredo.supervisor
