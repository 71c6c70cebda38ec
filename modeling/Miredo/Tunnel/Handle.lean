import Miredo.Basic

namespace miredo.ipv6_tunnel

open miredo

/-- An `ioctl` request the tunnel code issues, with the fields of `struct ifreq` or
    `struct in6_ifreq` it fills in. -/
inductive Ioctl (IFNAMSIZ : Nat)
  | TUNSETIFF (ifr_name : Buffer IFNAMSIZ)
  | SIOCGIFFLAGS (ifr_name : Buffer IFNAMSIZ)
  | SIOCSIFFLAGS (ifr_name : Buffer IFNAMSIZ) (ifr_flags : UInt16)
  | SIOCGIFINDEX (ifr_name : Buffer IFNAMSIZ)
  | SIOCSIFADDR (ifr6_ifindex : Int) (ifr6_addr : Buffer 16) (ifr6_prefixlen : Int)
  | SIOCSIFMTU (ifr_name : Buffer IFNAMSIZ) (ifr_mtu : Int)
  deriving DecidableEq

/-- `class IPv6Tunnel`. Its declaration is in `ipv6-tunnel.h`, which is not among the
    sources: `IFNAMSIZ` and `sizeof (pbuf)` are parameters, and `ifname` is `none` while
    it has never been written. -/
structure IPv6Tunnel (IFNAMSIZ PBUF : Nat) where
  fd : Int
  ifname : Option (Buffer IFNAMSIZ)
  pbuf : Buffer PBUF
  plen : Int

variable {IFNAMSIZ PBUF : Nat}

/-- What a call on a handle did: its return value, the descriptor table it left, and the
    `ioctl` requests it issued, in order. -/
structure Effect (IFNAMSIZ : Nat) where
  ret : Int
  fds : FdTable
  ioctls : List (Ioctl IFNAMSIZ)

/-- The handle's name may be read: once the device is open, `ifname` has been written and
    holds a NUL. -/
def IPv6Tunnel.NameReadable (h : IPv6Tunnel IFNAMSIZ PBUF) : Prop :=
  h.fd ≠ -1 → ∃ b, h.ifname = some b ∧ 0 ∈ b.bytes

/-- `socket_udp6`: `socket (PF_INET6, SOCK_DGRAM, 0)`, whose result is `sock`. -/
def socket_udp6 (t : FdTable) (sock : Option (Fresh t)) : Int × FdTable :=
  match sock with
  | none => (-1, t)
  | some s => (s.1, t.open s.1 .udp6)

/-- The `ifr_name` the constructor passes to `TUNSETIFF`: zeroed by `memset`, then the
    requested name copied in with `secure_strncpy` when there is one. -/
def requestName (IFNAMSIZ : Nat) (req_name : Option CString) : Option (Buffer IFNAMSIZ) :=
  match req_name with
  | none => some (Buffer.zero IFNAMSIZ)
  | some s => secure_strncpy (s.1 ++ [0]) IFNAMSIZ

/-- `IPv6Tunnel::IPv6Tunnel (req_name, tundev)` on the uninitialised object `mem`:
    `open` returned `dev`, and `TUNSETIFF` failed (`none`) or wrote back the interface name
    the kernel chose. Returns the handle, the descriptor table and the requests issued;
    `none` when the constructor reads memory it must not. -/
def IPv6Tunnel.new (mem : IPv6Tunnel IFNAMSIZ PBUF) (t : FdTable)
    (req_name : Option CString) (dev : Option (Fresh t)) (tunsetiff : Option (Buffer IFNAMSIZ)) :
    Option (IPv6Tunnel IFNAMSIZ PBUF × FdTable × List (Ioctl IFNAMSIZ)) :=
  match dev with
  | none => some ({ mem with fd := -1, ifname := none }, t, [])
  | some d => do
    let t := t.open d.1 .tun
    let ifr_name ← requestName IFNAMSIZ req_name
    let (fd, t', kernel_name) := match tunsetiff with
      | none => (-1, t.close d.1, ifr_name)
      | some name => (d.1, t, name)
    let ifname ← secure_strncpy kernel_name.bytes IFNAMSIZ
    let _ ← cstr ifname.bytes
    some ({ mem with fd, ifname := some ifname }, t', [.TUNSETIFF ifr_name])

/-- `IPv6Tunnel::~IPv6Tunnel`: log the interface name and close the device. -/
def IPv6Tunnel.«~IPv6Tunnel» (h : IPv6Tunnel IFNAMSIZ PBUF) (t : FdTable) : Option FdTable :=
  if h.fd = -1 then some t
  else do
    let name ← h.ifname
    let _ ← cstr name.bytes
    some (t.close h.fd)

/-- `IPv6Tunnel::RegisterReadSet`: add the device to `readset` and return it. -/
def IPv6Tunnel.RegisterReadSet (h : IPv6Tunnel IFNAMSIZ PBUF) (readset : List Int) :
    Int × List Int :=
  (h.fd, if h.fd ≠ -1 then h.fd :: readset else readset)

theorem cstr_zero {n : Nat} (hn : 0 < n) : cstr (Buffer.zero n).bytes = some [] := by
  obtain ⟨m, rfl⟩ : ∃ m, n = m + 1 := ⟨n - 1, by omega⟩
  exact @cstr_append_zero [] (by simp) _

/-- The name `TUNSETIFF` receives: the requested name cut to `IFNAMSIZ - 1` bytes. -/
theorem requestName_spec (hsize : 0 < IFNAMSIZ) (req_name : Option CString) :
    ∃ ifr, requestName IFNAMSIZ req_name = some ifr ∧
      cstr ifr.bytes = some (req_name.elim [] fun s => s.1.take (IFNAMSIZ - 1)) := by
  rcases req_name with _ | s
  · exact ⟨_, rfl, cstr_zero hsize⟩
  · exact secure_strncpy_cstring hsize s

/-- With `IFNAMSIZ > 0`, a constructor whose `open` succeeds issues one `TUNSETIFF`,
    carrying the requested name cut to `IFNAMSIZ - 1` bytes (empty for `NULL`), and leaves a
    NUL-terminated `ifname`; the device stays open exactly when `TUNSETIFF` succeeds. -/
theorem IPv6Tunnel.new_spec (hsize : 0 < IFNAMSIZ) (mem : IPv6Tunnel IFNAMSIZ PBUF) (t : FdTable)
    (req_name : Option CString) (d : Fresh t) (tunsetiff : Option (Buffer IFNAMSIZ)) :
    ∃ ifr b, IPv6Tunnel.new mem t req_name (some d) tunsetiff =
      some ({ mem with fd := if tunsetiff.isSome then d.1 else -1, ifname := some b },
        if tunsetiff.isSome then t.open d.1 .tun else (t.open d.1 .tun).close d.1,
        [.TUNSETIFF ifr]) ∧
      cstr ifr.bytes = some (req_name.elim [] fun s => s.1.take (IFNAMSIZ - 1)) ∧ 0 ∈ b.bytes := by
  obtain ⟨ifr, hifr, hname⟩ := requestName_spec hsize req_name
  obtain ⟨b, hb⟩ := secure_strncpy_buffer (tunsetiff.getD ifr)
  obtain ⟨c, hc⟩ := cstr_of_mem (secure_strncpy_terminated hsize hb)
  refine ⟨ifr, b, ?_, hname, secure_strncpy_terminated hsize hb⟩
  rcases tunsetiff with _ | name <;>
    simp_all [IPv6Tunnel.new, Option.bind_eq_bind]
/-- The destructor of a handle whose name may be read closes its device, if open. -/
theorem IPv6Tunnel.destructor_spec {h : IPv6Tunnel IFNAMSIZ PBUF} (hname : h.NameReadable)
    (t : FdTable) : h.«~IPv6Tunnel» t = some (if h.fd = -1 then t else t.close h.fd) := by
  by_cases hfd : h.fd = -1
  · simp [IPv6Tunnel.«~IPv6Tunnel», hfd]
  obtain ⟨b, hb, h0⟩ := hname hfd
  obtain ⟨c, hc⟩ := cstr_of_mem h0
  simp [IPv6Tunnel.«~IPv6Tunnel», hfd, hb, hc]

end miredo.ipv6_tunnel
