import Miredo.Basic

namespace miredo.worker

open miredo

/-- The relay types `conf->mode` takes (`TEREDO_*`, declared in headers that are not among
    the sources). -/
inductive TeredoMode
  | TEREDO_DISABLED
  | TEREDO_CLIENT
  | TEREDO_RESTRICT
  | TEREDO_CONE
  deriving DecidableEq, Repr

/-- `struct miredo_conf` without `prefix`, which only calls outside the sources read.
    `ifname` is the block `GetRawValue` allocated, or `NULL`. -/
structure miredo_conf where
  ifname : Option Nat
  mode : TeredoMode
  server_ip : UInt32
  bind_ip : UInt32
  bind_port : UInt16
  default_route : Bool
  deriving DecidableEq, Repr

/-- The default settings `miredo` gives `conf` before `ParseConf` (`INADDR_ANY` is 0). -/
def defaultConf : miredo_conf :=
  ⟨none, .TEREDO_CLIENT, 0, 0, 0, true⟩

/-- What one accessor of `MiredoConf` did with its output argument: it failed (`none`),
    left the argument as it was (`some none`), or stored a value. -/
def Lookup (α : Type) := Option (Option α)

/-- The value of the output argument after the accessor, `old` before it. -/
def Lookup.read {α : Type} (l : Lookup α) (old : α) : Option α :=
  match l with
  | none => none
  | some none => some old
  | some (some v) => some v

/-- The outcomes of the `MiredoConf` calls `ParseConf` makes (`conf.h` is not among the
    sources): the file read, the accessor for each key, and the block `GetRawValue`
    returns for `InterfaceName`. -/
structure MiredoConf where
  ReadFile : Bool
  RelayType : Lookup TeredoMode
  ServerAddress : Lookup UInt32
  DefaultRoute : Lookup Bool
  ServerBindAddress : Lookup UInt32
  Prefix : Bool
  BindAddress : Lookup UInt32
  BindPort : Lookup UInt16
  InterfaceName : Option Nat

/-- The block of `ParseConf` that reads the server address, and in client mode
    `DefaultRoute`, or else checks `Prefix`. -/
def ParseServer (cnf : MiredoConf) (conf : miredo_conf) : Option miredo_conf :=
  if conf.mode = .TEREDO_CLIENT then do
    let server_ip ← cnf.ServerAddress.read conf.server_ip
    let default_route ← cnf.DefaultRoute.read conf.default_route
    pure { conf with server_ip, default_route }
  else do
    let server_ip ← cnf.ServerBindAddress.read conf.server_ip
    if !cnf.Prefix then none else pure { conf with server_ip }

/-- The block of `ParseConf` that reads `BindAddress` and `BindPort` unless the relay is
    disabled; the port goes through `htons` both ways. -/
def ParseBind (e : Endian) (cnf : MiredoConf) (conf : miredo_conf) : Option miredo_conf :=
  if conf.mode ≠ .TEREDO_DISABLED then do
    let bind_ip ← cnf.BindAddress.read conf.bind_ip
    let port ← cnf.BindPort.read (htons e conf.bind_port)
    pure { conf with bind_ip, bind_port := htons e port }
  else pure conf

/-- `ParseConf (path, &newfac, conf)`: the new `conf` when it returns `true`. The syslog
    facility it also parses is left out. -/
def ParseConf (e : Endian) (cnf : MiredoConf) (conf : miredo_conf) : Option miredo_conf :=
  if !cnf.ReadFile then none
  else do
    let mode ← cnf.RelayType.read conf.mode
    let conf ← ParseServer cnf { conf with mode }
    let conf ← ParseBind e cnf conf
    pure { conf with ifname := cnf.InterfaceName }

/-- The secondary server address `miredo_run` derives from `server_ip`. -/
def server_ip2 (e : Endian) (server_ip : UInt32) : UInt32 :=
  htonl e (ntohl e server_ip + 1)

/-- The outcomes of the calls `miredo_run` makes, taken as inputs: whether `!tunnel` holds
    (`operator!` is declared in a header that is not among the sources), the value
    `SetMTU (1280)` returns (modelled on its own as `IPv6Tunnel.SetMTU`), the values
    `miredo_privileged_process`, `BringUp`, `AddAddress`, `AddRoute` and `setuid` return, and
    for each of `new MiredoServer` and `new MiredoRelay` either `none` (the constructor throws)
    or whether the object is ready (`!*server` is false). -/
structure RunEnv where
  tunnel_failed : Bool
  SetMTU : Int
  miredo_privileged_process : Int
  BringUp : Int
  AddAddress : Int
  AddRoute : Int
  setuid : Int
  MiredoServer : Option Bool
  MiredoRelay : Option Bool
  deriving DecidableEq, Repr

/-- The calls of `miredo_run` that acquire or release something, and the event loop. -/
inductive Event
  | InitNonceGenerator
  | DeinitNonceGenerator
  | IPv6Tunnel
  | «~IPv6Tunnel»
  | miredo_privileged_process (fd : Int)
  | close (fd : Int)
  | wait
  | newMiredoServer (server_ip server_ip2 : UInt32)
  | deleteMiredoServer
  | newMiredoRelay
  | deleteMiredoRelay
  | teredo_server_relay
  deriving DecidableEq, Repr

/-- The locals of `miredo_run` that the `abort:` label reads, with the events so far. -/
structure Locals where
  log : List Event
  fd : Int
  relay : Bool
  server : Bool
  deriving DecidableEq, Repr

/-- The locals `miredo_run` starts its setup with. -/
def Locals.init : Locals := ⟨[], -1, false, false⟩

/-- `miredo_run`'s privileged-process setup in client mode, or else its routing setup. -/
def setUpRouting (conf : miredo_conf) (env : RunEnv) : Except Locals Locals :=
  let l := Locals.init
  if conf.mode = .TEREDO_CLIENT then
    let fd := env.miredo_privileged_process
    if fd = -1 then throw l
    else pure { l with fd, log := l.log ++ [.miredo_privileged_process fd] }
  else if env.BringUp ≠ 0 ∨ env.AddAddress ≠ 0 ∨
      (conf.mode ≠ .TEREDO_DISABLED ∧ env.AddRoute ≠ 0) then throw l
  else pure l

/-- `miredo_run`'s block "Sets up server sockets". -/
def setUpServer (e : Endian) (conf : miredo_conf) (env : RunEnv) (l : Locals) :
    Except Locals Locals :=
  if conf.mode ≠ .TEREDO_CLIENT ∧ conf.server_ip ≠ 0 then
    match env.MiredoServer with
    | none => throw l
    | some ready =>
      let server := Event.newMiredoServer conf.server_ip (server_ip2 e conf.server_ip)
      let l := { l with server := true, log := l.log ++ [server] }
      if ready then pure l else throw l
  else pure l

/-- `miredo_run`'s block "Sets up relay or client". -/
def setUpRelay (conf : miredo_conf) (env : RunEnv) (l : Locals) : Except Locals Locals :=
  let l := if conf.mode = .TEREDO_DISABLED then l
    else match env.MiredoRelay with
      | none => l
      | some _ => { l with relay := true, log := l.log ++ [.newMiredoRelay] }
  if conf.mode ≠ .TEREDO_DISABLED then
    match env.MiredoRelay with
    | none => throw l
    | some ready => if ready then pure l else throw l
  else pure l

/-- `miredo_run` from the privileged-process setup to the call of `teredo_server_relay`:
    `.error` with the locals at a `goto abort`, `.ok` with those at the call. -/
def miredo_run_setup (e : Endian) (conf : miredo_conf) (env : RunEnv) : Except Locals Locals :=
  setUpRouting conf env >>= fun l =>
    if env.setuid ≠ 0 then throw l
    else setUpServer e conf env l >>= setUpRelay conf env

/-- The `abort:` label: release what the locals hold and return `retval`. -/
def abort (conf : miredo_conf) (l : Locals) (retval : Int) : List Event × Int :=
  (l.log ++ (if l.fd ≠ -1 then [.close l.fd] else []) ++
    (if l.relay then [.deleteMiredoRelay] else []) ++
    (if conf.mode = .TEREDO_CLIENT then [.DeinitNonceGenerator] else []) ++
    (if l.server then [.deleteMiredoServer] else []) ++
    (if l.fd ≠ -1 then [.wait] else []), retval)

/-- `miredo_run (conf)` on a host of byte order `e`, with `teredo_server_relay` returning:
    the events in order, the destructor of `tunnel` last, and the return value. -/
def miredo_run (e : Endian) (conf : miredo_conf) (env : RunEnv) : List Event × Int :=
  let nonce := if conf.mode = .TEREDO_CLIENT then [Event.InitNonceGenerator] else []
  let (log, retval) :=
    if env.tunnel_failed ∨ env.SetMTU ≠ 0 then ([], -1)
    else match miredo_run_setup e conf env with
      | .error l => abort conf l (-1)
      | .ok l => abort conf { l with log := l.log ++ [.teredo_server_relay] } 0
  (nonce ++ [.IPv6Tunnel] ++ log ++ [.«~IPv6Tunnel»], retval)

/-- Whether `miredo_run` reaches `teredo_server_relay`. -/
def miredo_run_loops (e : Endian) (conf : miredo_conf) (env : RunEnv) : Bool :=
  !(env.tunnel_failed || decide (env.SetMTU ≠ 0)) && (miredo_run_setup e conf env).toBool

/-- `miredo_run` returns 0 once `teredo_server_relay` has returned, and -1 on every other
    path. -/
theorem miredo_run_retval (e : Endian) (conf : miredo_conf) (env : RunEnv) :
    (miredo_run e conf env).2 = if miredo_run_loops e conf env then 0 else -1 := by
  unfold miredo_run miredo_run_loops
  by_cases hearly : env.tunnel_failed = true ∨ env.SetMTU ≠ 0
  · simp only [hearly, if_true]
    rcases hearly with h | h <;> simp [h]
  · rw [not_or, not_not] at hearly
    simp only [hearly.1, hearly.2]
    rcases miredo_run_setup e conf env with l | l <;> rfl

/-- The locals where the setup, or one block of it, stopped: at a `goto abort` or at its
    end. -/
def stopAt : Except Locals Locals → Locals
  | .ok l => l
  | .error l => l

theorem stopAt_bind (x : Except Locals Locals) (f : Locals → Except Locals Locals) :
    stopAt (x >>= f) = match x with
      | .error l => l
      | .ok l => stopAt (f l) := by
  cases x <;> rfl

@[simp] theorem stopAt_pure (l : Locals) : stopAt (pure l) = l := rfl

@[simp] theorem stopAt_throw (l : Locals) : stopAt (throw l) = l := rfl

/-- The routing block sets `fd` only when it logs the privileged process. -/
theorem setUpRouting_stopAt {conf : miredo_conf} {env : RunEnv} {l : Locals}
    (hl : stopAt (setUpRouting conf env) = l) :
    l.relay = false ∧ l.server = false ∧
      l.log = if l.fd = -1 then [] else [.miredo_privileged_process l.fd] := by
  unfold setUpRouting at hl
  dsimp only at hl
  split_ifs at hl <;> subst hl <;> simp_all [Locals.init]

/-- The server block sets `server` only when it logs the server, built from the configured
    address in a mode other than client. -/
theorem setUpServer_stopAt {e : Endian} {conf : miredo_conf} {env : RunEnv} {l l' : Locals}
    (hrelay : l.relay = false) (hserver : l.server = false)
    (hl : stopAt (setUpServer e conf env l) = l') :
    l'.fd = l.fd ∧ l'.relay = false ∧
      (l'.server = true → conf.mode ≠ .TEREDO_CLIENT ∧ conf.server_ip ≠ 0) ∧
      l'.log = l.log ++ if l'.server then
        [.newMiredoServer conf.server_ip (server_ip2 e conf.server_ip)] else [] := by
  unfold setUpServer at hl
  rcases env with ⟨_, _, _, _, _, _, _, _ | ready, _⟩ <;> dsimp only at hl <;>
    split_ifs at hl with hmode <;> subst hl <;> simp [hserver, hrelay, hmode]

/-- The relay block sets `relay` only when it logs the relay. -/
theorem setUpRelay_stopAt {conf : miredo_conf} {env : RunEnv} {l l' : Locals}
    (hrelay : l.relay = false) (hl : stopAt (setUpRelay conf env l) = l') :
    l'.fd = l.fd ∧ l'.server = l.server ∧
      l'.log = l.log ++ if l'.relay then [.newMiredoRelay] else [] := by
  unfold setUpRelay at hl
  rcases env with ⟨_, _, _, _, _, _, _, _, _ | ready⟩ <;> dsimp only at hl <;>
    split_ifs at hl <;> subst hl <;> simp [hrelay]

/-- What the locals hold, as the `abort:` label reads it: the events are the privileged
    process when `fd` is set, the server when `server` is, the relay when `relay` is; the
    server was built in a mode other than client, from a configured address. -/
def Locals.Acquired (e : Endian) (conf : miredo_conf) (l : Locals) : Prop :=
  l.log = (if l.fd = -1 then [] else [.miredo_privileged_process l.fd]) ++
    (if l.server then [.newMiredoServer conf.server_ip (server_ip2 e conf.server_ip)] else []) ++
    (if l.relay then [.newMiredoRelay] else []) ∧
  (l.server = true → conf.mode ≠ .TEREDO_CLIENT ∧ conf.server_ip ≠ 0)

/-- Wherever the setup stops, the `abort:` label reads locals that say what was acquired. -/
theorem miredo_run_setup_acquired (e : Endian) (conf : miredo_conf) (env : RunEnv) :
    (stopAt (miredo_run_setup e conf env)).Acquired e conf := by
  obtain ⟨hr₁, hs₁, hlog₁⟩ := @setUpRouting_stopAt conf env _ rfl
  unfold miredo_run_setup
  rw [stopAt_bind]
  rcases h₁ : setUpRouting conf env with l₁ | l₁ <;> rw [h₁] at hr₁ hs₁ hlog₁ <;>
    dsimp only [stopAt] at hr₁ hs₁ hlog₁ <;> dsimp only
  · simp [Locals.Acquired, hr₁, hs₁, hlog₁]
  split_ifs
  · simp [Locals.Acquired, hr₁, hs₁, hlog₁]
  rw [stopAt_bind]
  obtain ⟨hfd₂, hr₂, hs₂, hlog₂⟩ := @setUpServer_stopAt e conf env _ _ hr₁ hs₁ rfl
  rcases h₂ : setUpServer e conf env l₁ with l₂ | l₂ <;> rw [h₂] at hfd₂ hr₂ hs₂ hlog₂ <;>
    dsimp only [stopAt] at hfd₂ hr₂ hs₂ hlog₂ <;> dsimp only
  · exact ⟨by simp [hr₂, hlog₂, hfd₂, hlog₁], hs₂⟩
  obtain ⟨hfd₃, hs₃, hlog₃⟩ := @setUpRelay_stopAt conf env _ _ hr₂ rfl
  exact ⟨by simp [hfd₃, hs₃, hlog₃, hlog₂, hfd₂, hlog₁], hs₃ ▸ hs₂⟩

/-- What a process holds that `miredo_run` must give back. -/
inductive Resource
  | nonceGenerator
  | tunnel
  | socket (fd : Int)
  | privilegedProcess
  | relay
  | server
  deriving DecidableEq, Repr

/-- What an event acquires. -/
def Event.acquires : Event → List Resource
  | .InitNonceGenerator => [.nonceGenerator]
  | .IPv6Tunnel => [.tunnel]
  | .miredo_privileged_process fd => [.socket fd, .privilegedProcess]
  | .newMiredoServer _ _ => [.server]
  | .newMiredoRelay => [.relay]
  | _ => []

/-- What an event releases: `wait` reaps the privileged process. -/
def Event.releases : Event → List Resource
  | .DeinitNonceGenerator => [.nonceGenerator]
  | .«~IPv6Tunnel» => [.tunnel]
  | .close fd => [.socket fd]
  | .wait => [.privilegedProcess]
  | .deleteMiredoServer => [.server]
  | .deleteMiredoRelay => [.relay]
  | _ => []

/-- Give back `rs` from `held`; `none` when one of them is not held. -/
def giveBack (held : List Resource) : List Resource → Option (List Resource)
  | [] => some held
  | r :: rs => if r ∈ held then giveBack (held.erase r) rs else none

/-- Replay a log from `held`: what is held at its end, or `none` when the log releases
    something it does not hold. -/
def replay (held : List Resource) : List Event → Option (List Resource)
  | [] => some held
  | ev :: evs => (giveBack (held ++ ev.acquires) ev.releases).bind fun held => replay held evs

/-- A log that releases only what it holds, and all that it acquires. -/
def Balanced (log : List Event) : Prop := replay [] log = some []

instance : DecidablePred Balanced := fun log => inferInstanceAs (Decidable (replay [] log = some []))

theorem replay_append (held : List Resource) (xs ys : List Event) :
    replay held (xs ++ ys) = (replay held xs).bind fun held => replay held ys := by
  induction xs generalizing held with
  | nil => rfl
  | cons ev evs ih =>
    simp only [List.cons_append, replay]
    cases giveBack (held ++ ev.acquires) ev.releases <;> simp [ih]

/-- The `abort:` label, followed by the destructor of `tunnel`, gives back exactly what the
    locals say was acquired, with the nonce generator in client mode and the tunnel. -/
theorem replay_abort (e : Endian) (conf : miredo_conf) {l : Locals} (hl : l.Acquired e conf)
    (extra : List Event) (hextra : ∀ held, replay held extra = some held) (retval : Int) :
    replay [] ((if conf.mode = .TEREDO_CLIENT then [Event.InitNonceGenerator] else []) ++
      [.IPv6Tunnel] ++ (abort conf { l with log := l.log ++ extra } retval).1 ++
      [.«~IPv6Tunnel»]) = some [] := by
  simp only [abort, hl.1]
  by_cases hfd : l.fd = -1 <;> cases l.server <;> cases l.relay <;>
    by_cases hc : conf.mode = .TEREDO_CLIENT <;>
    simp [hfd, hc, replay_append, hextra, replay, giveBack, Event.acquires, Event.releases]

/-- Every path of `miredo_run` releases only what it acquired, and all of it, except the
    early return when the tunnel cannot be set up in client mode, which leaves the nonce
    generator initialised. -/
theorem miredo_run_replay (e : Endian) (conf : miredo_conf) (env : RunEnv) :
    replay [] (miredo_run e conf env).1 =
      some (if conf.mode = .TEREDO_CLIENT ∧ (env.tunnel_failed = true ∨ env.SetMTU ≠ 0)
        then [.nonceGenerator] else []) := by
  unfold miredo_run
  by_cases hearly : env.tunnel_failed = true ∨ env.SetMTU ≠ 0
  · by_cases hc : conf.mode = .TEREDO_CLIENT <;>
      simp [hearly, hc, replay, giveBack, Event.acquires, Event.releases]
  · have hacq := miredo_run_setup_acquired e conf env
    simp only [hearly, if_false, and_false]
    rcases h : miredo_run_setup e conf env with l | l <;> rw [h] at hacq <;>
      dsimp only [stopAt] at hacq
    · simpa using replay_abort e conf hacq [] (fun _ => by simp [replay]) (-1)
    · exact replay_abort e conf hacq [.teredo_server_relay]
        (fun _ => by simp [replay, giveBack, Event.acquires, Event.releases]) 0

/-- In client mode, a tunnel that cannot be opened makes `miredo_run` return -1 right after
    `InitNonceGenerator`, and no `DeinitNonceGenerator` follows. -/
theorem miredo_run_leaks_nonce_generator :
    miredo_run .little defaultConf ⟨true, 0, -1, 0, 0, 0, 0, none, none⟩ =
      ([.InitNonceGenerator, .IPv6Tunnel, .«~IPv6Tunnel»], -1) ∧
    replay [] [.InitNonceGenerator, .IPv6Tunnel, .«~IPv6Tunnel»] = some [.nonceGenerator] := by
  decide

/-- On every path of `miredo_run`, the objects it hands `&tunnel` to, the server through
    `SetTunnel` and the relay through its constructor, are built after the tunnel and deleted
    before the tunnel's destructor runs. The socket `fd` of the privileged process, on which
    the client's relay is built, is closed at the `abort:` label before that relay is
    deleted. -/
theorem miredo_run_lifetimes (e : Endian) (conf : miredo_conf) (env : RunEnv) :
    (∀ a b, Event.newMiredoServer a b ∈ (miredo_run e conf env).1 →
      List.Sublist [.IPv6Tunnel, .newMiredoServer a b, .deleteMiredoServer, .«~IPv6Tunnel»]
        (miredo_run e conf env).1) ∧
    (Event.newMiredoRelay ∈ (miredo_run e conf env).1 →
      List.Sublist [.IPv6Tunnel, .newMiredoRelay, .deleteMiredoRelay, .«~IPv6Tunnel»]
        (miredo_run e conf env).1) ∧
    (∀ fd, Event.miredo_privileged_process fd ∈ (miredo_run e conf env).1 →
      Event.newMiredoRelay ∈ (miredo_run e conf env).1 →
      List.Sublist [.miredo_privileged_process fd, .newMiredoRelay, .close fd, .deleteMiredoRelay]
        (miredo_run e conf env).1) := by
  unfold miredo_run
  by_cases hearly : env.tunnel_failed = true ∨ env.SetMTU ≠ 0
  · simp [hearly]
  have hacq := miredo_run_setup_acquired e conf env
  simp only [hearly, if_false]
  rcases h : miredo_run_setup e conf env with l | l <;> rw [h] at hacq <;>
    dsimp only [stopAt] at hacq <;> simp only [abort, hacq.1]
  all_goals refine ⟨fun a b h => ?_, fun h => ?_, fun fd h' h => ?_⟩
  all_goals
    -- which of the setup's objects the events are, then where they sit in the log
    simp only [List.mem_append, List.mem_ite_nil_right, List.mem_ite_nil_left, List.mem_singleton, List.mem_cons,
      List.not_mem_nil, reduceCtorEq, Event.newMiredoServer.injEq, Event.miredo_privileged_process.injEq,
      and_false, false_and, and_true, or_false, false_or, ne_eq] at h
    (try simp only [List.mem_append, List.mem_ite_nil_right, List.mem_ite_nil_left, List.mem_singleton,
      List.mem_cons, List.not_mem_nil, reduceCtorEq, Event.miredo_privileged_process.injEq,
      and_false, false_and, and_true, or_false, false_or, ne_eq] at h')
    (try obtain ⟨h, rfl, rfl⟩ := h)
    (try obtain ⟨h', rfl⟩ := h')
    (try simp only [h', if_true, if_false, ne_eq, not_false_eq_true])
    simp only [h, if_true, List.append_assoc, List.cons_append, List.singleton_append,
      List.nil_append]
    repeat
      first
      | exact List.nil_sublist _
      | apply List.Sublist.cons₂
      | apply List.Sublist.cons
      | apply List.sublist_append_of_sublist_right

theorem ntohl_zero (e : Endian) : ntohl e 0 = 0 := by
  cases e <;> decide

/-- Below 255.255.255.255 the secondary address is the successor of the primary one in
    network byte order, on either host byte order. -/
theorem server_ip2_spec (e : Endian) {ip : UInt32} (htop : ip ≠ 0xFFFFFFFF) :
    (ntohl e (server_ip2 e ip)).toNat = (ntohl e ip).toNat + 1 ∧ server_ip2 e ip ≠ ip ∧
      server_ip2 e ip ≠ 0 := by
  have hsucc : ntohl e (server_ip2 e ip) = ntohl e ip + 1 := ntohl_htonl e _
  have hv : (ntohl e ip).toNat ≠ 4294967295 := fun h =>
    htop (by rw [← htonl_ntohl e ip, (UInt32.toNat.inj h : ntohl e ip = 0xFFFFFFFF)]; cases e <;> decide)
  have hlt := (ntohl e ip).toNat_lt_size
  have hnat : (ntohl e (server_ip2 e ip)).toNat = (ntohl e ip).toNat + 1 := by
    rw [hsucc, UInt32.toNat_add_one, Nat.mod_eq_of_lt]
    simp only [UInt32.size] at hlt
    omega
  refine ⟨hnat, fun h => ?_, fun h => ?_⟩
  · rw [h] at hnat
    omega
  · rw [h, ntohl_zero] at hnat
    exact absurd hnat (by simp)

/-- The only server `miredo_run` creates is built in a mode other than client from the
    configured nonzero address and its `server_ip2`. -/
theorem miredo_run_newMiredoServer {e : Endian} {conf : miredo_conf} {env : RunEnv}
    {a b : UInt32} (hserver : Event.newMiredoServer a b ∈ (miredo_run e conf env).1) :
    conf.mode ≠ .TEREDO_CLIENT ∧ conf.server_ip ≠ 0 ∧ a = conf.server_ip ∧
      b = server_ip2 e conf.server_ip := by
  unfold miredo_run at hserver
  by_cases hearly : env.tunnel_failed = true ∨ env.SetMTU ≠ 0
  · split_ifs at hserver <;> simp at hserver
  have hacq := miredo_run_setup_acquired e conf env
  simp only [hearly, if_false] at hserver
  rcases h : miredo_run_setup e conf env with l | l <;> rw [h] at hacq hserver <;>
    dsimp only [stopAt] at hacq hserver <;>
    cases hs : l.server <;> split_ifs at hserver <;> simp [abort, hacq.1, hs] at hserver <;>
    exact ⟨(hacq.2 hs).1, (hacq.2 hs).2, hserver.1, hserver.2⟩

/-- When `miredo_run` creates the server from an address other than 255.255.255.255, in
    a mode other than client, the secondary address it passes is the successor of the
    primary one in network byte order: it differs from it and is not 0.0.0.0. -/
theorem miredo_run_server_ip2 (e : Endian) (conf : miredo_conf) (env : RunEnv) {a b : UInt32}
    (hserver : Event.newMiredoServer a b ∈ (miredo_run e conf env).1)
    (htop : conf.server_ip ≠ 0xFFFFFFFF) :
    conf.mode ≠ .TEREDO_CLIENT ∧ a = conf.server_ip ∧ a ≠ 0 ∧
      (ntohl e b).toNat = (ntohl e a).toNat + 1 ∧ b ≠ a ∧ b ≠ 0 := by
  obtain ⟨hmode, hzero, rfl, rfl⟩ := miredo_run_newMiredoServer hserver
  exact ⟨hmode, rfl, hzero, server_ip2_spec e htop⟩

/-- A cone relay serving 1.2.3.4 on a big-endian host passes 1.2.3.5 as the secondary
    address. -/
theorem miredo_run_server_ip2_sample :
    Event.newMiredoServer 0x01020304 0x01020305 ∈ (miredo_run .big
        { defaultConf with mode := .TEREDO_CONE, server_ip := 0x01020304 }
        ⟨false, 0, -1, 0, 0, 0, 0, some true, some true⟩).1 ∧
      (0x01020304 : UInt32) ≠ 0xFFFFFFFF ∧
      (ntohl .big 0x01020305).toNat = (ntohl .big 0x01020304).toNat + 1 :=
  have hserver : Event.newMiredoServer 0x01020304 0x01020305 ∈ (miredo_run .big
      { defaultConf with mode := .TEREDO_CONE, server_ip := 0x01020304 }
      ⟨false, 0, -1, 0, 0, 0, 0, some true, some true⟩).1 := by decide
  ⟨hserver, by decide,
    (miredo_run_server_ip2 .big _ _ hserver (by decide)).2.2.2.1⟩

/-- On 255.255.255.255 the increment wraps: `server_ip2` is 0.0.0.0 on either byte order,
    and `miredo_run` passes it to the server of a cone relay. -/
theorem server_ip2_wraps :
    server_ip2 .little 0xFFFFFFFF = 0 ∧ server_ip2 .big 0xFFFFFFFF = 0 ∧
      Event.newMiredoServer 0xFFFFFFFF 0 ∈ (miredo_run .little
        { defaultConf with mode := .TEREDO_CONE, server_ip := 0xFFFFFFFF }
        ⟨false, 0, -1, 0, 0, 0, 0, some true, some true⟩).1 ∧
      Event.newMiredoServer 0xFFFFFFFF 0 ∈ (miredo_run .big
        { defaultConf with mode := .TEREDO_CONE, server_ip := 0xFFFFFFFF }
        ⟨false, 0, -1, 0, 0, 0, 0, some true, some true⟩).1 := by
  decide

end miredo.worker
