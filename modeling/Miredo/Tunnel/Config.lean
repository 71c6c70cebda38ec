import Miredo.Tunnel.Handle

namespace miredo.ipv6_tunnel

open miredo

/-- `IFF_UP` from `<net/if.h>`, with its Linux value (as are the flags below). -/
def IFF_UP : UInt16 := 0x1
/-- `IFF_BROADCAST`. -/
def IFF_BROADCAST : UInt16 := 0x2
/-- `IFF_POINTOPOINT`. -/
def IFF_POINTOPOINT : UInt16 := 0x10
/-- `IFF_RUNNING`. -/
def IFF_RUNNING : UInt16 := 0x40
/-- `IFF_NOARP`. -/
def IFF_NOARP : UInt16 := 0x80
/-- `IFF_MULTICAST`. -/
def IFF_MULTICAST : UInt16 := 0x1000

variable {IFNAMSIZ PBUF : Nat}

/-- The flags `SetState` asks for, from the flags `SIOCGIFFLAGS` returned. -/
def stateFlags (up : Bool) (flags : UInt16) : UInt16 :=
  let flags := flags ||| IFF_POINTOPOINT ||| IFF_NOARP
  let flags := if up then flags ||| IFF_UP ||| IFF_RUNNING else flags &&& ~~~IFF_UP
  flags &&& ~~~(IFF_MULTICAST ||| IFF_BROADCAST)

theorem UInt16.toBitVec_land (a b : UInt16) : (a &&& b).toBitVec = a.toBitVec &&& b.toBitVec := rfl

theorem UInt16.toBitVec_lor (a b : UInt16) : (a ||| b).toBitVec = a.toBitVec ||| b.toBitVec := rfl

theorem UInt16.toBitVec_complement (a : UInt16) : (~~~a).toBitVec = ~~~a.toBitVec := rfl

theorem stateFlags_spec (up : Bool) (flags : UInt16) :
    stateFlags up flags &&& (IFF_POINTOPOINT ||| IFF_NOARP) = IFF_POINTOPOINT ||| IFF_NOARP ∧
    stateFlags up flags &&& (IFF_MULTICAST ||| IFF_BROADCAST) = 0 ∧
    stateFlags up flags &&& IFF_UP = (if up then IFF_UP else 0) ∧
    stateFlags up flags &&& IFF_RUNNING = (if up then IFF_RUNNING else flags &&& IFF_RUNNING) ∧
    stateFlags up flags &&& ~~~(IFF_UP ||| IFF_BROADCAST ||| IFF_POINTOPOINT ||| IFF_RUNNING |||
        IFF_NOARP ||| IFF_MULTICAST) =
      flags &&& ~~~(IFF_UP ||| IFF_BROADCAST ||| IFF_POINTOPOINT ||| IFF_RUNNING |||
        IFF_NOARP ||| IFF_MULTICAST) := by
  -- bit by bit: each bit of the result is a Boolean function of the same bit of `flags`
  refine ⟨?_, ?_, ?_, ?_, ?_⟩ <;> apply UInt16.eq_of_toBitVec_eq <;> ext i <;> cases up <;>
    simp only [stateFlags, UInt16.toBitVec_land, UInt16.toBitVec_lor, UInt16.toBitVec_complement,
      BitVec.getLsbD_and, BitVec.getLsbD_or, BitVec.getLsbD_not, apply_ite UInt16.toBitVec,
      if_true, if_false, Bool.false_eq_true] <;>
    generalize flags.toBitVec.getLsbD ↑i = b <;> revert i <;> revert b <;> decide

/-- `IPv6Tunnel::SetState (up)`. `sock` is what `socket` returned, `getflags` the flags
    `SIOCGIFFLAGS` returned (`none` when it failed), `setflags` whether `SIOCSIFFLAGS`
    succeeded. -/
def IPv6Tunnel.SetState (h : IPv6Tunnel IFNAMSIZ PBUF) (t : FdTable) (up : Bool)
    (sock : Option (Fresh t)) (getflags : Option UInt16) (setflags : Bool) :
    Option (Effect IFNAMSIZ) :=
  if h.fd = -1 then some ⟨-1, t, []⟩
  else
    let (reqfd, t) := socket_udp6 t sock
    if reqfd = -1 then some ⟨-1, t, []⟩
    else do
      let name ← h.ifname
      let ifr_name ← secure_strncpy name.bytes IFNAMSIZ
      match getflags with
      | none => some ⟨-1, t.close reqfd, [.SIOCGIFFLAGS ifr_name]⟩
      | some flags =>
        let ifr_name' ← secure_strncpy name.bytes IFNAMSIZ
        let ioctls := [.SIOCGIFFLAGS ifr_name, .SIOCSIFFLAGS ifr_name' (stateFlags up flags)]
        if setflags then some ⟨0, t.close reqfd, ioctls⟩
        else do
          let _ ← cstr name.bytes
          some ⟨-1, t.close reqfd, ioctls⟩

/-- `IPv6Tunnel::SetAddress (addr, prefix_len)`. `getindex` is the interface index
    `SIOCGIFINDEX` returned (`none` when it failed), `setaddr` whether `SIOCSIFADDR`
    succeeded. -/
def IPv6Tunnel.SetAddress (h : IPv6Tunnel IFNAMSIZ PBUF) (t : FdTable) (addr : Buffer 16)
    (prefix_len : Int) (sock : Option (Fresh t)) (getindex : Option Int) (setaddr : Bool) :
    Option (Effect IFNAMSIZ) :=
  if h.fd = -1 ∨ prefix_len < 0 then some ⟨-1, t, []⟩
  else if prefix_len > 128 then some ⟨-1, t, []⟩
  else
    let (reqfd, t) := socket_udp6 t sock
    if reqfd = -1 then some ⟨-1, t, []⟩
    else do
      let name ← h.ifname
      let ifr_name ← secure_strncpy name.bytes IFNAMSIZ
      match getindex with
      | none => some ⟨-1, t.close reqfd, [.SIOCGIFINDEX ifr_name]⟩
      | some ifindex =>
        let ioctls := [.SIOCGIFINDEX ifr_name, .SIOCSIFADDR ifindex addr prefix_len]
        if setaddr then do
          let _ ← cstr name.bytes
          some ⟨0, t.close reqfd, ioctls⟩
        else some ⟨-1, t.close reqfd, ioctls⟩

/-- `IPv6Tunnel::SetMTU (mtu)`. `setmtu` is whether `SIOCSIFMTU` succeeded. On success the
    source returns without closing `reqfd`. -/
def IPv6Tunnel.SetMTU (h : IPv6Tunnel IFNAMSIZ PBUF) (t : FdTable) (mtu : Int)
    (sock : Option (Fresh t)) (setmtu : Bool) : Option (Effect IFNAMSIZ) :=
  if h.fd = -1 then some ⟨-1, t, []⟩
  else if mtu < 1280 then some ⟨-1, t, []⟩
  else if mtu > 65535 then some ⟨-1, t, []⟩
  else
    let (reqfd, t) := socket_udp6 t sock
    if reqfd = -1 then some ⟨-1, t, []⟩
    else do
      let name ← h.ifname
      let ifr_name ← secure_strncpy name.bytes IFNAMSIZ
      let _ ← cstr name.bytes
      if setmtu then some ⟨0, t, [.SIOCSIFMTU ifr_name mtu]⟩
      else some ⟨-1, t.close reqfd, [.SIOCSIFMTU ifr_name mtu]⟩

/-- `SetState` closes its socket on every path. -/
theorem IPv6Tunnel.SetState_fds {h : IPv6Tunnel IFNAMSIZ PBUF} {t : FdTable} {up : Bool}
    {sock : Option (Fresh t)} {getflags : Option UInt16} {setflags : Bool} {e : Effect IFNAMSIZ}
    (hcall : h.SetState t up sock getflags setflags = some e) : e.fds = t := by
  unfold IPv6Tunnel.SetState at hcall
  by_cases hfd : h.fd = -1
  · simp only [hfd, if_true, Option.some.injEq] at hcall; rw [← hcall]
  rcases sock with _ | s
  · simp only [hfd, socket_udp6, if_true, if_false, Option.some.injEq] at hcall; rw [← hcall]
  simp only [hfd, socket_udp6, Fresh.ne_neg_one, Option.bind_eq_bind, if_false,
    Option.bind_eq_some] at hcall
  obtain ⟨_, -, _, -, hcall⟩ := hcall
  rcases getflags with _ | flags
  · cases hcall
    exact FdTable.close_open _ s.2.2
  obtain ⟨_, -, hcall⟩ := Option.bind_eq_some.mp hcall
  split_ifs at hcall
  · cases hcall
    exact FdTable.close_open _ s.2.2
  · obtain ⟨_, -, hr⟩ := Option.bind_eq_some.mp hcall
    cases hr
    exact FdTable.close_open _ s.2.2

/-- `SetAddress` closes its socket on every path. -/
theorem IPv6Tunnel.SetAddress_fds {h : IPv6Tunnel IFNAMSIZ PBUF} {t : FdTable} {addr : Buffer 16}
    {prefix_len : Int} {sock : Option (Fresh t)} {getindex : Option Int} {setaddr : Bool}
    {e : Effect IFNAMSIZ}
    (hcall : h.SetAddress t addr prefix_len sock getindex setaddr = some e) : e.fds = t := by
  unfold IPv6Tunnel.SetAddress at hcall
  by_cases hfd : h.fd = -1 ∨ prefix_len < 0
  · simp only [hfd, if_true, Option.some.injEq] at hcall; rw [← hcall]
  by_cases hlen : prefix_len > 128
  · simp only [hfd, hlen, if_true, if_false, Option.some.injEq] at hcall; rw [← hcall]
  rcases sock with _ | s
  · simp only [hfd, hlen, socket_udp6, if_true, if_false, Option.some.injEq] at hcall
    rw [← hcall]
  simp only [hfd, hlen, socket_udp6, Fresh.ne_neg_one, Option.bind_eq_bind, if_false,
    Option.bind_eq_some] at hcall
  obtain ⟨_, -, _, -, hcall⟩ := hcall
  rcases getindex with _ | ifindex
  · cases hcall
    exact FdTable.close_open _ s.2.2
  split_ifs at hcall
  · obtain ⟨_, -, hr⟩ := Option.bind_eq_some.mp hcall
    cases hr
    exact FdTable.close_open _ s.2.2
  · cases hcall
    exact FdTable.close_open _ s.2.2

/-- `SetMTU` fails and closes its socket on every path but success, where the socket stays
    open. -/
theorem IPv6Tunnel.SetMTU_fds {h : IPv6Tunnel IFNAMSIZ PBUF} {t : FdTable} {mtu : Int}
    {sock : Option (Fresh t)} {setmtu : Bool} {e : Effect IFNAMSIZ}
    (hcall : h.SetMTU t mtu sock setmtu = some e) :
    e.ret = -1 ∧ e.fds = t ∨ ∃ s, sock = some s ∧ e.ret = 0 ∧ e.fds = t.open s.1 .udp6 := by
  unfold IPv6Tunnel.SetMTU at hcall
  by_cases hfd : h.fd = -1
  · simp only [hfd, if_true, Option.some.injEq] at hcall; exact .inl (by rw [← hcall]; simp)
  by_cases hlo : mtu < 1280
  · simp only [hfd, hlo, if_true, if_false, Option.some.injEq] at hcall
    exact .inl (by rw [← hcall]; simp)
  by_cases hhi : mtu > 65535
  · simp only [hfd, hlo, hhi, if_true, if_false, Option.some.injEq] at hcall
    exact .inl (by rw [← hcall]; simp)
  rcases sock with _ | s
  · simp only [hfd, hlo, hhi, socket_udp6, if_true, if_false, Option.some.injEq] at hcall
    exact .inl (by rw [← hcall]; simp)
  cases setmtu <;>
    simp only [hfd, hlo, hhi, socket_udp6, Fresh.ne_neg_one, Option.bind_eq_bind,
      Option.bind_eq_some, if_true, if_false, Bool.false_eq_true, Option.some.injEq] at hcall <;>
    obtain ⟨_, -, _, -, _, -, rfl⟩ := hcall
  · exact .inl ⟨rfl, FdTable.close_open _ s.2.2⟩
  · exact .inr ⟨s, rfl, rfl, rfl⟩

/-- `SetState` reads the name only where it may. -/
theorem IPv6Tunnel.SetState_ne_none {h : IPv6Tunnel IFNAMSIZ PBUF} (hname : h.NameReadable)
    (t : FdTable) (up : Bool) (sock : Option (Fresh t)) (getflags : Option UInt16) (setflags : Bool) :
    h.SetState t up sock getflags setflags ≠ none := by
  unfold IPv6Tunnel.SetState
  by_cases hfd : h.fd = -1
  · simp [hfd]
  obtain ⟨b, hb, h0⟩ := hname hfd
  obtain ⟨r, hr⟩ := secure_strncpy_buffer b
  obtain ⟨c, hc⟩ := cstr_of_mem h0
  rcases sock with _ | s <;> rcases getflags with _ | flags <;> cases setflags <;>
    simp [hfd, hb, hr, hc, socket_udp6, Fresh.ne_neg_one]

/-- `SetAddress` reads the name only where it may. -/
theorem IPv6Tunnel.SetAddress_ne_none {h : IPv6Tunnel IFNAMSIZ PBUF} (hname : h.NameReadable)
    (t : FdTable) (addr : Buffer 16) (prefix_len : Int) (sock : Option (Fresh t))
    (getindex : Option Int) (setaddr : Bool) :
    h.SetAddress t addr prefix_len sock getindex setaddr ≠ none := by
  unfold IPv6Tunnel.SetAddress
  by_cases hfd : h.fd = -1
  · simp [hfd]
  obtain ⟨b, hb, h0⟩ := hname hfd
  obtain ⟨r, hr⟩ := secure_strncpy_buffer b
  obtain ⟨c, hc⟩ := cstr_of_mem h0
  rcases sock with _ | s <;> rcases getindex with _ | ifindex <;> cases setaddr <;>
    simp [hfd, hb, hr, hc, socket_udp6, Fresh.ne_neg_one] <;> split_ifs <;> simp

/-- `SetMTU` reads the name only where it may. -/
theorem IPv6Tunnel.SetMTU_ne_none {h : IPv6Tunnel IFNAMSIZ PBUF} (hname : h.NameReadable)
    (t : FdTable) (mtu : Int) (sock : Option (Fresh t)) (setmtu : Bool) :
    h.SetMTU t mtu sock setmtu ≠ none := by
  unfold IPv6Tunnel.SetMTU
  by_cases hfd : h.fd = -1
  · simp [hfd]
  obtain ⟨b, hb, h0⟩ := hname hfd
  obtain ⟨r, hr⟩ := secure_strncpy_buffer b
  obtain ⟨c, hc⟩ := cstr_of_mem h0
  rcases sock with _ | s <;> cases setmtu <;>
    simp [hfd, hb, hr, hc, socket_udp6, Fresh.ne_neg_one] <;> split_ifs <;> simp

/-- The requests of `SetState`, with `ifr` the copy of the name it puts in `ifr_name`: none,
    `SIOCGIFFLAGS` alone, or then `SIOCSIFFLAGS` with the flags `stateFlags` computes from
    those `SIOCGIFFLAGS` returned. -/
theorem IPv6Tunnel.SetState_ioctls {h : IPv6Tunnel IFNAMSIZ PBUF} {t : FdTable} {up : Bool}
    {sock : Option (Fresh t)} {getflags : Option UInt16} {setflags : Bool} {r : Effect IFNAMSIZ}
    {b ifr : Buffer IFNAMSIZ} (hb : h.ifname = some b)
    (hifr : secure_strncpy b.bytes IFNAMSIZ = some ifr)
    (hcall : h.SetState t up sock getflags setflags = some r) :
    r.ioctls = [] ∨ r.ioctls = [.SIOCGIFFLAGS ifr] ∨
      ∃ flags, getflags = some flags ∧
        r.ioctls = [.SIOCGIFFLAGS ifr, .SIOCSIFFLAGS ifr (stateFlags up flags)] := by
  unfold IPv6Tunnel.SetState at hcall
  by_cases hfd : h.fd = -1
  · simp only [hfd, if_true, Option.some.injEq] at hcall
    exact .inl (by rw [← hcall])
  rcases sock with _ | s
  · simp only [hfd, socket_udp6, if_true, if_false, Option.some.injEq] at hcall
    exact .inl (by rw [← hcall])
  rcases getflags with _ | flags <;>
    simp only [hfd, socket_udp6, Fresh.ne_neg_one, hb, hifr, Option.bind_eq_bind, if_false,
      Option.some_bind] at hcall
  · cases hcall
    exact .inr (.inl rfl)
  · refine .inr (.inr ⟨flags, rfl, ?_⟩)
    split_ifs at hcall
    · cases hcall; rfl
    · obtain ⟨_, -, hr⟩ := Option.bind_eq_some.mp hcall
      cases hr; rfl

/-- The flags word of `SetState`'s `SIOCSIFFLAGS` is `stateFlags` of the word `SIOCGIFFLAGS`
    returned. -/
theorem IPv6Tunnel.SetState_request_flags {h : IPv6Tunnel IFNAMSIZ PBUF} {t : FdTable} {up : Bool}
    {sock : Option (Fresh t)} {getflags : Option UInt16} {setflags : Bool} {r : Effect IFNAMSIZ}
    (hcall : h.SetState t up sock getflags setflags = some r) {ifr : Buffer IFNAMSIZ} {f : UInt16}
    (hreq : Ioctl.SIOCSIFFLAGS ifr f ∈ r.ioctls) :
    ∃ flags, getflags = some flags ∧ f = stateFlags up flags := by
  unfold IPv6Tunnel.SetState at hcall
  by_cases hfd : h.fd = -1
  · simp only [hfd, if_true, Option.some.injEq] at hcall
    rw [← hcall] at hreq
    cases hreq
  rcases sock with _ | s
  · simp only [hfd, socket_udp6, if_true, if_false, Option.some.injEq] at hcall
    rw [← hcall] at hreq
    cases hreq
  simp only [hfd, socket_udp6, Fresh.ne_neg_one, Option.bind_eq_bind, if_false,
    Option.bind_eq_some] at hcall
  obtain ⟨name, -, ifr_name, -, hcall⟩ := hcall
  rcases getflags with _ | flags
  · cases hcall
    simp at hreq
  · refine ⟨flags, rfl, ?_⟩
    simp only [Option.bind_eq_some] at hcall
    obtain ⟨ifr', -, hcall⟩ := hcall
    split_ifs at hcall
    · cases hcall
      exact (by simpa using hreq : ifr = ifr' ∧ _).2
    · obtain ⟨_, -, hr⟩ := Option.bind_eq_some.mp hcall
      cases hr
      exact (by simpa using hreq : ifr = ifr' ∧ _).2

/-- The flags `SetState (up)` asks for with `SIOCSIFFLAGS`: `IFF_POINTOPOINT` and `IFF_NOARP`
    set, `IFF_MULTICAST` and `IFF_BROADCAST` clear, `IFF_UP` exactly when `up`, `IFF_RUNNING`
    set when `up` and otherwise as `SIOCGIFFLAGS` returned it, and every other flag as
    returned. -/
theorem IPv6Tunnel.SetState_flags {h : IPv6Tunnel IFNAMSIZ PBUF} {t : FdTable} {up : Bool}
    {sock : Option (Fresh t)} {getflags : Option UInt16} {setflags : Bool} {r : Effect IFNAMSIZ}
    (hcall : h.SetState t up sock getflags setflags = some r) {ifr : Buffer IFNAMSIZ} {f : UInt16}
    (hreq : Ioctl.SIOCSIFFLAGS ifr f ∈ r.ioctls) :
    ∃ flags, getflags = some flags ∧
      f &&& (IFF_POINTOPOINT ||| IFF_NOARP) = IFF_POINTOPOINT ||| IFF_NOARP ∧
      f &&& (IFF_MULTICAST ||| IFF_BROADCAST) = 0 ∧
      f &&& IFF_UP = (if up then IFF_UP else 0) ∧
      f &&& IFF_RUNNING = (if up then IFF_RUNNING else flags &&& IFF_RUNNING) ∧
      f &&& ~~~(IFF_UP ||| IFF_BROADCAST ||| IFF_POINTOPOINT ||| IFF_RUNNING ||| IFF_NOARP |||
          IFF_MULTICAST) =
        flags &&& ~~~(IFF_UP ||| IFF_BROADCAST ||| IFF_POINTOPOINT ||| IFF_RUNNING ||| IFF_NOARP |||
          IFF_MULTICAST) := by
  obtain ⟨flags, hget, rfl⟩ := IPv6Tunnel.SetState_request_flags hcall hreq
  exact ⟨flags, hget, stateFlags_spec up flags⟩

/-- The requests of `SetAddress`: none, or, for a prefix length from 0 to 128, `SIOCGIFINDEX`
    and then `SIOCSIFADDR` with the index it returned. -/
theorem IPv6Tunnel.SetAddress_ioctls {h : IPv6Tunnel IFNAMSIZ PBUF} {t : FdTable} {addr : Buffer 16}
    {prefix_len : Int} {sock : Option (Fresh t)} {getindex : Option Int} {setaddr : Bool}
    {r : Effect IFNAMSIZ} {b ifr : Buffer IFNAMSIZ} (hb : h.ifname = some b)
    (hifr : secure_strncpy b.bytes IFNAMSIZ = some ifr)
    (hcall : h.SetAddress t addr prefix_len sock getindex setaddr = some r) :
    r.ioctls = [] ∨ 0 ≤ prefix_len ∧ prefix_len ≤ 128 ∧ (r.ioctls = [.SIOCGIFINDEX ifr] ∨
      ∃ ifindex, getindex = some ifindex ∧
        r.ioctls = [.SIOCGIFINDEX ifr, .SIOCSIFADDR ifindex addr prefix_len]) := by
  unfold IPv6Tunnel.SetAddress at hcall
  by_cases hfd : h.fd = -1 ∨ prefix_len < 0
  · simp only [hfd, if_true, Option.some.injEq] at hcall
    exact .inl (by rw [← hcall])
  by_cases hlen : prefix_len > 128
  · simp only [hfd, hlen, if_true, if_false, Option.some.injEq] at hcall
    exact .inl (by rw [← hcall])
  rcases sock with _ | s
  · simp only [hfd, hlen, socket_udp6, if_true, if_false, Option.some.injEq] at hcall
    exact .inl (by rw [← hcall])
  refine .inr ⟨by omega, by omega, ?_⟩
  rcases getindex with _ | ifindex <;>
    simp only [hfd, hlen, socket_udp6, Fresh.ne_neg_one, hb, hifr, Option.bind_eq_bind, if_false,
      Option.some_bind] at hcall
  · cases hcall
    exact .inl rfl
  · refine .inr ⟨ifindex, rfl, ?_⟩
    split_ifs at hcall
    · obtain ⟨_, -, hr⟩ := Option.bind_eq_some.mp hcall
      cases hr; rfl
    · cases hcall; rfl

/-- The requests of `SetMTU`: none, or `SIOCSIFMTU` for an MTU from 1280 to 65535. -/
theorem IPv6Tunnel.SetMTU_ioctls {h : IPv6Tunnel IFNAMSIZ PBUF} {t : FdTable} {mtu : Int}
    {sock : Option (Fresh t)} {setmtu : Bool} {r : Effect IFNAMSIZ} {b ifr : Buffer IFNAMSIZ}
    (hb : h.ifname = some b) (hifr : secure_strncpy b.bytes IFNAMSIZ = some ifr)
    (hcall : h.SetMTU t mtu sock setmtu = some r) :
    r.ioctls = [] ∨ 1280 ≤ mtu ∧ mtu ≤ 65535 ∧ r.ioctls = [.SIOCSIFMTU ifr mtu] := by
  unfold IPv6Tunnel.SetMTU at hcall
  by_cases hfd : h.fd = -1
  · simp only [hfd, if_true, Option.some.injEq] at hcall
    exact .inl (by rw [← hcall])
  by_cases hlo : mtu < 1280
  · simp only [hfd, hlo, if_true, if_false, Option.some.injEq] at hcall
    exact .inl (by rw [← hcall])
  by_cases hhi : mtu > 65535
  · simp only [hfd, hlo, hhi, if_true, if_false, Option.some.injEq] at hcall
    exact .inl (by rw [← hcall])
  rcases sock with _ | s
  · simp only [hfd, hlo, hhi, socket_udp6, if_true, if_false, Option.some.injEq] at hcall
    exact .inl (by rw [← hcall])
  refine .inr ⟨by omega, by omega, ?_⟩
  cases setmtu <;>
    simp only [hfd, hlo, hhi, socket_udp6, Fresh.ne_neg_one, hb, hifr, Option.bind_eq_bind,
      Option.some_bind, Option.bind_eq_some, if_true, if_false, not_false_eq_true, gt_iff_lt,
      not_lt] at hcall <;>
    obtain ⟨_, -, hr⟩ := hcall <;> cases hr <;> rfl

end miredo.ipv6_tunnel
