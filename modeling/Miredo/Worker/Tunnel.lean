import Miredo.Worker.Run
import Miredo.Tunnel.Lifetime

namespace miredo.worker

open miredo miredo.ipv6_tunnel

variable {IFNAMSIZ PBUF : Nat}

/-- `miredo_run (conf)` with its tunnel, on the worker's descriptor table `t`:
    `IPv6Tunnel tunnel (conf->ifname)`, with `open` returning `dev` and `TUNSETIFF` giving
    `tunsetiff`; `if (!tunnel || tunnel.SetMTU (1280)) return -1;`, with `socket` returning
    `sock` on the table of the moment and `SIOCSIFMTU` succeeding when `setmtu`; the rest of
    `miredo_run` under `env`; and the destructor of `tunnel` at the return. `operator!` is
    declared in `ipv6-tunnel.h`, which is not among the sources: it is `invalid`. Gives the
    events, the return value and the table. -/
def miredo_run_tunnel (e : Endian) (conf : miredo_conf) (env : RunEnv)
    (mem : IPv6Tunnel IFNAMSIZ PBUF) (t : FdTable) (ifname : Option CString)
    (dev : Option (Fresh t)) (tunsetiff : Option (Buffer IFNAMSIZ))
    (invalid : IPv6Tunnel IFNAMSIZ PBUF → Bool) (sock : (t : FdTable) → Option (Fresh t))
    (setmtu : Bool) : Option (List Event × Int × FdTable) := do
  let (tunnel, t, _) ← mem.new t ifname dev tunsetiff
  let (mtu, t) ← if invalid tunnel then pure (0, t)
    else (tunnel.SetMTU t 1280 (sock t) setmtu).map fun r => (r.ret, r.fds)
  let (log, retval) :=
    miredo_run e conf { env with tunnel_failed := invalid tunnel, SetMTU := mtu }
  let t ← tunnel.«~IPv6Tunnel» t
  pure (log, retval, t)

/-- `miredo_run` with its tunnel always returns, with the events and the return value of
    `miredo_run` under the outcomes the tunnel's calls had: `!tunnel`, and what
    `SetMTU (1280)` returned. When `miredo_run` returns early at that test, the worker gets
    back the descriptor table it started with. Otherwise `SetMTU` succeeded: the events
    give back everything they acquire, yet the worker holds one more descriptor than when it
    started, the UDP socket of `SetMTU`. -/
theorem miredo_run_tunnel_fds (hsize : 0 < IFNAMSIZ) (e : Endian) (conf : miredo_conf)
    (env : RunEnv) (mem : IPv6Tunnel IFNAMSIZ PBUF) (t : FdTable) (ifname : Option CString)
    (dev : Option (Fresh t)) (tunsetiff : Option (Buffer IFNAMSIZ))
    (invalid : IPv6Tunnel IFNAMSIZ PBUF → Bool) (sock : (t : FdTable) → Option (Fresh t))
    (setmtu : Bool) :
    ∃ tunnel t₁ ioctls mtu t', mem.new t ifname dev tunsetiff = some (tunnel, t₁, ioctls) ∧
      (invalid tunnel = false → ∃ r, tunnel.SetMTU t₁ 1280 (sock t₁) setmtu = some r ∧
        mtu = r.ret) ∧
      miredo_run_tunnel e conf env mem t ifname dev tunsetiff invalid sock setmtu =
        some ((miredo_run e conf { env with tunnel_failed := invalid tunnel, SetMTU := mtu }).1,
          (miredo_run e conf { env with tunnel_failed := invalid tunnel, SetMTU := mtu }).2, t') ∧
      (invalid tunnel = true ∨ mtu ≠ 0 → t' = t) ∧
      (invalid tunnel = false → mtu = 0 →
        replay [] (miredo_run e conf { env with tunnel_failed := false, SetMTU := 0 }).1 =
          some [] ∧
        ∃ s, sock t₁ = some s ∧ t s.1 = none ∧ t' = t.open s.1 .udp6) := by
  obtain ⟨tunnel, t₁, ioctls, hnew, hname, hfds⟩ :=
    IPv6Tunnel.new_fds hsize mem t ifname dev tunsetiff
  have hdtor := IPv6Tunnel.destructor_spec hname
  have hreplay : replay [] (miredo_run e conf { env with tunnel_failed := false, SetMTU := 0 }).1 =
      some [] := by
    rw [miredo_run_replay]
    simp
  by_cases hinv : invalid tunnel = true
  · -- `||` skips `SetMTU`
    have hne : invalid tunnel ≠ false := by rw [hinv]; decide
    refine ⟨tunnel, t₁, ioctls, 0, if tunnel.fd = -1 then t₁ else t₁.close tunnel.fd, hnew,
      fun h => absurd h hne, by simp [miredo_run_tunnel, hnew, hinv, hdtor],
      fun _ => (IPv6Tunnel.destructor_closes_device hfds).1, fun h => absurd h hne⟩
  rw [Bool.not_eq_true] at hinv
  obtain ⟨r, hr⟩ := Option.ne_none_iff_exists'.mp
    (IPv6Tunnel.SetMTU_ne_none hname t₁ 1280 (sock t₁) setmtu)
  refine ⟨tunnel, t₁, ioctls, r.ret, if tunnel.fd = -1 then r.fds else r.fds.close tunnel.fd,
    hnew, fun _ => ⟨r, hr, rfl⟩, by simp [miredo_run_tunnel, hnew, hinv, hr, hdtor], ?_⟩
  rw [hinv]
  rcases IPv6Tunnel.SetMTU_fds hr with ⟨hret, hrfds⟩ | ⟨s, hs, hret, hrfds⟩
  · -- `SetMTU` failed and closed its socket
    rw [hret, hrfds]
    exact ⟨fun _ => (IPv6Tunnel.destructor_closes_device hfds).1,
      fun _ h => absurd h (by decide)⟩
  · -- `SetMTU` succeeded and left its socket open
    obtain ⟨hfree, hkept⟩ := (IPv6Tunnel.destructor_closes_device hfds).2 s
    rw [hret, hrfds, hkept]
    exact ⟨fun h => absurd h (by simp), fun _ _ => ⟨hreplay, s, hs, hfree, rfl⟩⟩

/-- `socket` returning descriptor 4 when it is free. -/
def socketFour (t : FdTable) : Option (Fresh t) :=
  if h : t 4 = none then some ⟨4, by decide, h⟩ else none

/-- A client whose tunnel opens on descriptor 3 of an empty table, whose `SetMTU` gets
    descriptor 4 and succeeds, and whose privileged process answers on descriptor 5: its
    events balance, and descriptor 4 stays open. -/
theorem miredo_run_tunnel_fds_sample :
    ∃ log retval t', miredo_run_tunnel .little defaultConf
        ⟨false, 0, 5, 0, 0, 0, 0, none, some true⟩
        (⟨-1, none, Buffer.zero 4, 0⟩ : IPv6Tunnel 16 4) FdTable.empty none
        (some ⟨3, by decide, rfl⟩) (some (Buffer.zero 16)) (fun h => h.fd = -1) socketFour
        true = some (log, retval, t') ∧
      replay [] log = some [] ∧ t' = FdTable.empty.open 4 .udp6 := by
  obtain ⟨tunnel, t₁, ioctls, mtu, t', hnew, hmtu, hrun, -, hleak⟩ :=
    miredo_run_tunnel_fds (by decide) .little defaultConf
      ⟨false, 0, 5, 0, 0, 0, 0, none, some true⟩
      (⟨-1, none, Buffer.zero 4, 0⟩ : IPv6Tunnel 16 4) FdTable.empty none
      (some ⟨3, by decide, rfl⟩) (some (Buffer.zero 16)) (fun h => h.fd = -1) socketFour true
  obtain ⟨rfl, rfl, -⟩ : tunnel = sampleHandle ∧ t₁ = FdTable.empty.open 3 .tun ∧
      ioctls = [.TUNSETIFF (Buffer.zero 16)] := by
    simpa only [Option.some.injEq, Prod.mk.injEq] using hnew.symm.trans
      (show IPv6Tunnel.new ⟨-1, none, Buffer.zero 4, 0⟩ FdTable.empty none
        (some ⟨3, by decide, rfl⟩) (some (Buffer.zero 16)) =
          some (sampleHandle, _, [.TUNSETIFF (Buffer.zero 16)]) from rfl)
  obtain ⟨r, hr, rfl⟩ := hmtu rfl
  have hret : r.ret = 0 := by
    cases hr
    rfl
  obtain ⟨hreplay, s, hs, -, rfl⟩ := hleak rfl hret
  obtain rfl : s = ⟨4, by decide, rfl⟩ := Option.some.inj (hs.symm.trans rfl)
  rw [hret] at hrun
  exact ⟨_, _, _, hrun, hreplay, rfl⟩

end miredo.worker
