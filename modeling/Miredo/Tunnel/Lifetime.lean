import Miredo.Tunnel.Config
import Miredo.Tunnel.Packet

namespace miredo.ipv6_tunnel

open miredo

variable {IFNAMSIZ PBUF : Nat}

/-- A call on a constructed handle, with the outcomes of the system calls it makes. -/
inductive Call (IFNAMSIZ PBUF : Nat) (t : FdTable)
  | SetState (up : Bool) (sock : Option (Fresh t)) (getflags : Option UInt16) (setflags : Bool)
  | SetAddress (addr : Buffer 16) (prefix_len : Int) (sock : Option (Fresh t))
      (getindex : Option Int) (setaddr : Bool)
  | SetMTU (mtu : Int) (sock : Option (Fresh t)) (setmtu : Bool)
  | RegisterReadSet (readset : List Int)
  | ReceivePacket (readset : List Int) (r : ReadResult PBUF)
  | SendPacket (packet : List UInt8) (stack : Buffer (65535 + 4)) (written : Int)

/-- The handle and the descriptor table after the call on a host of byte order `e`; `none`
    when the call reads memory it must not. -/
def Call.apply (e : Endian) (h : IPv6Tunnel IFNAMSIZ PBUF) (t : FdTable) :
    Call IFNAMSIZ PBUF t → Option (IPv6Tunnel IFNAMSIZ PBUF × FdTable)
  | .SetState up sock getflags setflags =>
    (h.SetState t up sock getflags setflags).map fun r => (h, r.fds)
  | .SetAddress addr prefix_len sock getindex setaddr =>
    (h.SetAddress t addr prefix_len sock getindex setaddr).map fun r => (h, r.fds)
  | .SetMTU mtu sock setmtu => (h.SetMTU t mtu sock setmtu).map fun r => (h, r.fds)
  | .RegisterReadSet _ => some (h, t)
  | .ReceivePacket readset r => some ((h.ReceivePacket e readset r).1, t)
  | .SendPacket packet stack written => (h.SendPacket e packet stack written).map fun _ => (h, t)

/-- The handles a program reaches from the descriptor table `t₀`, with the table they leave:
    constructed on any storage with any requested name and any outcome of `open` and
    `TUNSETIFF`, then used by any sequence of calls. -/
inductive Reachable (e : Endian) (t₀ : FdTable) : IPv6Tunnel IFNAMSIZ PBUF → FdTable → Prop
  | new {mem : IPv6Tunnel IFNAMSIZ PBUF} {req_name : Option CString} {dev : Option (Fresh t₀)}
      {tunsetiff : Option (Buffer IFNAMSIZ)} {h : IPv6Tunnel IFNAMSIZ PBUF} {t : FdTable}
      {ioctls : List (Ioctl IFNAMSIZ)} :
      IPv6Tunnel.new mem t₀ req_name dev tunsetiff = some (h, t, ioctls) → Reachable e t₀ h t
  | call {h h' : IPv6Tunnel IFNAMSIZ PBUF} {t t' : FdTable} (c : Call IFNAMSIZ PBUF t) :
      Reachable e t₀ h t → c.apply e h t = some (h', t') → Reachable e t₀ h' t'

/-- No call changes the device descriptor or the name. -/
theorem Call.apply_fd_ifname {e : Endian} {h h' : IPv6Tunnel IFNAMSIZ PBUF} {t t' : FdTable}
    {c : Call IFNAMSIZ PBUF t} (hc : c.apply e h t = some (h', t')) :
    h'.fd = h.fd ∧ h'.ifname = h.ifname := by
  cases c with
  | ReceivePacket readset r =>
    simp only [Call.apply, Option.some.injEq, Prod.mk.injEq] at hc
    rw [← hc.1]
    exact h.ReceivePacket_fd_ifname e readset r
  | RegisterReadSet readset =>
    obtain ⟨rfl, -⟩ := Prod.mk.inj (Option.some.inj hc)
    exact ⟨rfl, rfl⟩
  | _ =>
    simp only [Call.apply, Option.map_eq_some', Prod.mk.injEq] at hc
    obtain ⟨_, -, rfl, -⟩ := hc
    exact ⟨rfl, rfl⟩

/-- No call on a handle whose name may be read reads memory it must not. -/
theorem Call.apply_ne_none {e : Endian} {h : IPv6Tunnel IFNAMSIZ PBUF} {t : FdTable}
    (hname : h.NameReadable) (c : Call IFNAMSIZ PBUF t) : c.apply e h t ≠ none := by
  cases c <;> simp [Call.apply, IPv6Tunnel.SetState_ne_none hname,
    IPv6Tunnel.SetAddress_ne_none hname, IPv6Tunnel.SetMTU_ne_none hname,
    IPv6Tunnel.SendPacket_ne_none]

variable {e : Endian} {t₀ : FdTable}

/-- Every reachable handle with an open device has a written, NUL-terminated name. -/
theorem Reachable.nameReadable (hsize : 0 < IFNAMSIZ) {h : IPv6Tunnel IFNAMSIZ PBUF}
    {t : FdTable} (hr : Reachable e t₀ h t) : h.NameReadable := by
  induction hr with
  | @new mem req_name dev tunsetiff h t ioctls hnew =>
    rcases dev with _ | d
    · cases hnew
      exact fun hfd => absurd rfl hfd
    · obtain ⟨ifr, b, hspec, -, hb⟩ := IPv6Tunnel.new_spec hsize mem t₀ req_name d tunsetiff
      cases hspec.symm.trans hnew
      exact fun _ => ⟨b, rfl, hb⟩
  | call c _ hc ih =>
    obtain ⟨hfd, hifname⟩ := Call.apply_fd_ifname hc
    intro hne
    rw [hifname]
    exact ih (hfd ▸ hne)

/-- The interface name is safe to use on every reachable handle: the constructor passes
    `TUNSETIFF` the requested name cut to `IFNAMSIZ - 1` bytes and NUL-terminated (empty for
    `NULL`); on every reachable handle with an open device `ifname` holds a NUL-terminated
    string of at most `IFNAMSIZ - 1` bytes; no call changes `fd` or `ifname`; and neither a
    call nor the destructor reads `ifname` uninitialised or past its end. -/
theorem IPv6Tunnel.ifname_terminated (hsize : 0 < IFNAMSIZ) (e : Endian) (t₀ : FdTable) :
    (∀ (mem : IPv6Tunnel IFNAMSIZ PBUF) (req_name : Option CString) (d : Fresh t₀)
        (tunsetiff : Option (Buffer IFNAMSIZ)), ∃ h t ifr,
      IPv6Tunnel.new mem t₀ req_name (some d) tunsetiff = some (h, t, [.TUNSETIFF ifr]) ∧
      cstr ifr.bytes = some (req_name.elim [] fun s => s.1.take (IFNAMSIZ - 1))) ∧
    (∀ (h : IPv6Tunnel IFNAMSIZ PBUF) (t : FdTable), Reachable e t₀ h t →
      (h.fd ≠ -1 → ∃ b name, h.ifname = some b ∧ cstr b.bytes = some name ∧
        name.length ≤ IFNAMSIZ - 1) ∧
      (∀ c : Call IFNAMSIZ PBUF t, c.apply e h t ≠ none ∧
        ∀ h' t', c.apply e h t = some (h', t') → h'.fd = h.fd ∧ h'.ifname = h.ifname) ∧
      h.«~IPv6Tunnel» t ≠ none) := by
  refine ⟨fun mem req_name d tunsetiff => ?_, fun h t hr => ?_⟩
  · obtain ⟨ifr, b, hspec, hname, -⟩ := IPv6Tunnel.new_spec hsize mem t₀ req_name d tunsetiff
    exact ⟨_, _, ifr, hspec, hname⟩
  · have hname := hr.nameReadable hsize
    refine ⟨fun hfd => ?_, fun c => ⟨Call.apply_ne_none hname c, fun _ _ => Call.apply_fd_ifname⟩,
      by simp [IPv6Tunnel.destructor_spec hname]⟩
    obtain ⟨b, hb, h0⟩ := hname hfd
    obtain ⟨name, hc⟩ := cstr_of_mem h0
    have hlen := cstr_length_lt hc
    rw [b.length_eq] at hlen
    exact ⟨b, name, hb, hc, by omega⟩

/-- What a handle has done to the descriptor table since `t₀`: it has opened only
    descriptors that were closed, namely its device, open while `fd` names it, and UDP
    sockets; it has closed nothing it did not open. -/
def Leaks (t₀ : FdTable) (h : IPv6Tunnel IFNAMSIZ PBUF) (t : FdTable) : Prop :=
  (h.fd ≠ -1 → t₀ h.fd = none ∧ t h.fd = some .tun) ∧
  ∀ n, t n ≠ t₀ n → t₀ n = none ∧ (t n = some .udp6 ∨ (h.fd ≠ -1 ∧ n = h.fd ∧ t n = some .tun))

theorem Leaks.new (hsize : 0 < IFNAMSIZ) {mem : IPv6Tunnel IFNAMSIZ PBUF} {req_name : Option CString}
    {dev : Option (Fresh t₀)} {tunsetiff : Option (Buffer IFNAMSIZ)} {h : IPv6Tunnel IFNAMSIZ PBUF}
    {t : FdTable} {ioctls : List (Ioctl IFNAMSIZ)}
    (hnew : IPv6Tunnel.new mem t₀ req_name dev tunsetiff = some (h, t, ioctls)) : Leaks t₀ h t := by
  rcases dev with _ | d
  · cases hnew
    exact ⟨fun hfd => absurd rfl hfd, fun n hn => absurd rfl hn⟩
  have hd := d.2.2
  obtain ⟨ifr, b, hspec, -, -⟩ := IPv6Tunnel.new_spec hsize mem t₀ req_name d tunsetiff
  cases hspec.symm.trans hnew
  rcases tunsetiff with _ | name
  · simp only [Option.isSome_none, Bool.false_eq_true, if_false, FdTable.close_open _ hd]
    exact ⟨fun hfd => absurd rfl hfd, fun n hn => absurd rfl hn⟩
  · simp only [Option.isSome_some, if_true]
    refine ⟨fun _ => ⟨hd, FdTable.open_self _ _ _⟩, fun n hn => ?_⟩
    by_cases hnd : n = d.1
    · subst hnd
      exact ⟨hd, .inr ⟨d.ne_neg_one, rfl, FdTable.open_self _ _ _⟩⟩
    · exact absurd (FdTable.open_other _ _ hnd) hn

/-- The constructor always gives a handle whose name may be read; it leaves the table as it
    found it, with the device open while `fd` names it. -/
theorem IPv6Tunnel.new_fds (hsize : 0 < IFNAMSIZ) (mem : IPv6Tunnel IFNAMSIZ PBUF) (t : FdTable)
    (req_name : Option CString) (dev : Option (Fresh t)) (tunsetiff : Option (Buffer IFNAMSIZ)) :
    ∃ h t' ioctls, IPv6Tunnel.new mem t req_name dev tunsetiff = some (h, t', ioctls) ∧
      h.NameReadable ∧ (h.fd = -1 ∧ t' = t ∨ h.fd ≠ -1 ∧ t h.fd = none ∧ t' = t.open h.fd .tun) := by
  rcases dev with _ | d
  · exact ⟨_, _, _, rfl, fun hfd => absurd rfl hfd, .inl ⟨rfl, rfl⟩⟩
  obtain ⟨ifr, b, hspec, -, h0⟩ := IPv6Tunnel.new_spec hsize mem t req_name d tunsetiff
  refine ⟨_, _, _, hspec, fun _ => ⟨b, rfl, h0⟩, ?_⟩
  rcases tunsetiff with _ | name
  · exact .inl ⟨rfl, FdTable.close_open _ d.2.2⟩
  · exact .inr ⟨d.ne_neg_one, d.2.2, rfl⟩

/-- The destructor closes the device the constructor opened: the table is back to the one
    the constructor found, with what was opened since. -/
theorem IPv6Tunnel.destructor_closes_device {h : IPv6Tunnel IFNAMSIZ PBUF} {t t₁ : FdTable}
    (hfds : h.fd = -1 ∧ t₁ = t ∨ h.fd ≠ -1 ∧ t h.fd = none ∧ t₁ = t.open h.fd .tun) :
    (if h.fd = -1 then t₁ else t₁.close h.fd) = t ∧
      ∀ s : Fresh t₁, t s.1 = none ∧
        (if h.fd = -1 then t₁.open s.1 .udp6 else (t₁.open s.1 .udp6).close h.fd) =
          t.open s.1 .udp6 := by
  rcases hfds with ⟨hfd, rfl⟩ | ⟨hfd, hfree, rfl⟩
  · simp only [hfd, if_true, and_true, true_and]
    exact fun s => s.2.2
  · simp only [hfd, if_false]
    refine ⟨FdTable.close_open _ hfree, fun s => ?_⟩
    have hs := s.2.2
    have hne : s.1 ≠ h.fd := fun heq => by
      rw [heq, FdTable.open_self] at hs
      cases hs
    rw [FdTable.open_other _ _ hne] at hs
    exact ⟨hs, FdTable.close_open_open _ _ hfree hne⟩

theorem Leaks.openSocket {h : IPv6Tunnel IFNAMSIZ PBUF} {t : FdTable} (hl : Leaks t₀ h t)
    (s : Fresh t) : Leaks t₀ h (t.open s.1 .udp6) := by
  have hs := s.2.2
  have hfd : h.fd ≠ -1 → h.fd ≠ s.1 := fun hne heq => by
    have := (hl.1 hne).2
    rw [heq, hs] at this
    cases this
  refine ⟨fun hne => ?_, fun n hn => ?_⟩
  · rw [FdTable.open_other _ _ (hfd hne)]
    exact hl.1 hne
  · by_cases hns : n = s.1
    · subst hns
      refine ⟨?_, .inl (FdTable.open_self _ _ _)⟩
      by_contra h₀
      exact h₀ (hl.2 _ (by rw [hs]; exact fun h' => h₀ h'.symm)).1
    · rw [FdTable.open_other _ _ hns] at hn ⊢
      exact hl.2 n hn

/-- Every call leaves the descriptor table as it found it, except a successful `SetMTU`,
    which leaves its socket open: `SetState` and `SetAddress` close theirs on every path. -/
theorem Call.apply_fds {h h' : IPv6Tunnel IFNAMSIZ PBUF} {t t' : FdTable} {c : Call IFNAMSIZ PBUF t}
    (hc : c.apply e h t = some (h', t')) :
    t' = t ∨ ∃ mtu sock setmtu s r, c = .SetMTU mtu sock setmtu ∧ sock = some s ∧
      h.SetMTU t mtu sock setmtu = some r ∧ r.ret = 0 ∧ t' = t.open s.1 .udp6 := by
  cases c with
  | SetState up sock getflags setflags =>
    obtain ⟨r, hr, ⟨⟩⟩ := Option.map_eq_some'.mp hc
    exact .inl (IPv6Tunnel.SetState_fds hr)
  | SetAddress addr prefix_len sock getindex setaddr =>
    obtain ⟨r, hr, ⟨⟩⟩ := Option.map_eq_some'.mp hc
    exact .inl (IPv6Tunnel.SetAddress_fds hr)
  | SetMTU mtu sock setmtu =>
    obtain ⟨r, hr, ⟨⟩⟩ := Option.map_eq_some'.mp hc
    rcases IPv6Tunnel.SetMTU_fds hr with ⟨-, hfds⟩ | ⟨s, hs, hret, hfds⟩
    · exact .inl hfds
    · exact .inr ⟨mtu, sock, setmtu, s, r, rfl, hs, hr, hret, hfds⟩
  | RegisterReadSet readset => exact .inl (congrArg Prod.snd (Option.some.inj hc)).symm
  | ReceivePacket readset r => exact .inl (congrArg Prod.snd (Option.some.inj hc)).symm
  | SendPacket packet stack written =>
    obtain ⟨_, -, hrt⟩ := Option.map_eq_some'.mp hc
    exact .inl (congrArg Prod.snd hrt).symm

theorem Leaks.call {h h' : IPv6Tunnel IFNAMSIZ PBUF} {t t' : FdTable} (hl : Leaks t₀ h t)
    {c : Call IFNAMSIZ PBUF t} (hc : c.apply e h t = some (h', t')) : Leaks t₀ h' t' := by
  obtain ⟨hfd, -⟩ := Call.apply_fd_ifname hc
  rcases Call.apply_fds hc with rfl | ⟨-, -, -, s, -, -, -, -, -, rfl⟩
  · simpa only [Leaks, hfd] using hl
  · simpa only [Leaks, hfd] using hl.openSocket s

/-- Over the whole life of a handle, with any calls under any outcomes, every call leaves the
    descriptor table as it found it but a successful `SetMTU`, which leaves its UDP socket
    open; and the destructor closes the device, so the only descriptors then open that were
    not open before the constructor are those UDP sockets. -/
theorem Reachable.destructor_leaves_only_sockets (hsize : 0 < IFNAMSIZ)
    {h : IPv6Tunnel IFNAMSIZ PBUF} {t : FdTable} (hr : Reachable e t₀ h t) :
    (∀ (c : Call IFNAMSIZ PBUF t) h' t', c.apply e h t = some (h', t') →
      t' = t ∨ ∃ mtu sock setmtu s r, c = .SetMTU mtu sock setmtu ∧ sock = some s ∧
        h.SetMTU t mtu sock setmtu = some r ∧ r.ret = 0 ∧ t' = t.open s.1 .udp6) ∧
    ∃ t', h.«~IPv6Tunnel» t = some t' ∧ ∀ n, t' n ≠ t₀ n → t₀ n = none ∧ t' n = some .udp6 := by
  have hl : Leaks t₀ h t := by
    induction hr with
    | new hnew => exact Leaks.new hsize hnew
    | call c _ hc ih => exact ih.call hc
  refine ⟨fun _ _ _ => Call.apply_fds, _, IPv6Tunnel.destructor_spec (hr.nameReadable hsize) t,
    fun n hn => ?_⟩
  by_cases hfd : h.fd = -1
  · simp only [hfd, if_true] at hn ⊢
    obtain ⟨h₀, hu | ⟨hne, -⟩⟩ := hl.2 n hn
    · exact ⟨h₀, hu⟩
    · exact absurd hfd hne
  · simp only [hfd, if_false] at hn ⊢
    by_cases hnd : n = h.fd
    · subst hnd
      rw [FdTable.close_self, (hl.1 hfd).1] at hn
      exact absurd rfl hn
    · rw [FdTable.close_other _ hnd] at hn ⊢
      obtain ⟨h₀, hu | ⟨-, hnd', -⟩⟩ := hl.2 n hn
      · exact ⟨h₀, hu⟩
      · exact absurd hnd' hnd

/-- The `ioctl` requests a call issues. -/
def Call.ioctls (h : IPv6Tunnel IFNAMSIZ PBUF) (t : FdTable) :
    Call IFNAMSIZ PBUF t → List (Ioctl IFNAMSIZ)
  | .SetState up sock getflags setflags =>
    ((h.SetState t up sock getflags setflags).map Effect.ioctls).getD []
  | .SetAddress addr prefix_len sock getindex setaddr =>
    ((h.SetAddress t addr prefix_len sock getindex setaddr).map Effect.ioctls).getD []
  | .SetMTU mtu sock setmtu => ((h.SetMTU t mtu sock setmtu).map Effect.ioctls).getD []
  | _ => []

/-- The index `SIOCGIFINDEX` returned to a call: only `SetAddress` asks for one. -/
def Call.getindex : Call IFNAMSIZ PBUF t → Option Int
  | .SetAddress _ _ _ getindex _ => getindex
  | _ => none

/-- A request for the interface `name`, whose index `SIOCGIFINDEX` returned as `index`: its
    `ifr_name` holds that string, or it carries that index with a prefix length from 0 to 128,
    and an MTU carries a value from 1280 to 65535. `TUNSETIFF` is the constructor's. -/
def Ioctl.ForInterface (name : List UInt8) (index : Option Int) : Ioctl IFNAMSIZ → Prop
  | .TUNSETIFF _ => False
  | .SIOCGIFFLAGS ifr_name | .SIOCSIFFLAGS ifr_name _ | .SIOCGIFINDEX ifr_name =>
    cstr ifr_name.bytes = some name
  | .SIOCSIFADDR ifr6_ifindex _ ifr6_prefixlen =>
    index = some ifr6_ifindex ∧ 0 ≤ ifr6_prefixlen ∧ ifr6_prefixlen ≤ 128
  | .SIOCSIFMTU ifr_name ifr_mtu => cstr ifr_name.bytes = some name ∧ 1280 ≤ ifr_mtu ∧ ifr_mtu ≤ 65535

/-- A request in `Call.ioctls` comes from the effect the call returned. -/
theorem mem_getD_map_ioctls {x : Option (Effect IFNAMSIZ)} {req : Ioctl IFNAMSIZ}
    (h : req ∈ (x.map Effect.ioctls).getD []) : ∃ r, x = some r ∧ req ∈ r.ioctls := by
  rcases x with _ | r
  · exact absurd h (List.not_mem_nil req)
  · exact ⟨r, rfl, h⟩

/-- Over the whole life of a handle, with any calls under any outcomes, every request
    `SetState`, `SetAddress` and `SetMTU` send is for the handle's own interface: by the
    string in `ifname`, or by the index `SIOCGIFINDEX` returned for that string, with a prefix
    length from 0 to 128 or an MTU from 1280 to 65535. A handle whose device is not open sends
    none. -/
theorem Reachable.ioctls_named (hsize : 0 < IFNAMSIZ) {h : IPv6Tunnel IFNAMSIZ PBUF} {t : FdTable}
    (hr : Reachable e t₀ h t) (c : Call IFNAMSIZ PBUF t) :
    ∀ req ∈ c.ioctls h t, h.fd ≠ -1 ∧
      ∃ b name, h.ifname = some b ∧ cstr b.bytes = some name ∧ req.ForInterface name c.getindex := by
  intro req hreq
  by_cases hfd : h.fd = -1
  · cases c <;>
      simp [Call.ioctls, IPv6Tunnel.SetState, IPv6Tunnel.SetAddress, IPv6Tunnel.SetMTU, hfd] at hreq
  obtain ⟨b, hb, h0⟩ := hr.nameReadable hsize hfd
  obtain ⟨name, hname⟩ := cstr_of_mem h0
  obtain ⟨ifr, hifr, hcopy⟩ := secure_strncpy_cstr b hname
  refine ⟨hfd, b, name, hb, hname, ?_⟩
  cases c with
  | SetState up sock getflags setflags =>
    obtain ⟨r, hcall, hreq⟩ := mem_getD_map_ioctls hreq
    rcases IPv6Tunnel.SetState_ioctls hb hifr hcall with hr | hr | ⟨flags, -, hr⟩ <;>
      simp only [hr, List.mem_cons, List.mem_singleton, List.not_mem_nil, or_false] at hreq
    · rw [hreq]; exact hcopy
    · rcases hreq with rfl | rfl <;> exact hcopy
  | SetAddress addr prefix_len sock getindex setaddr =>
    obtain ⟨r, hcall, hreq⟩ := mem_getD_map_ioctls hreq
    rcases IPv6Tunnel.SetAddress_ioctls hb hifr hcall with hr | ⟨hlo, hhi, hr | ⟨i, hi, hr⟩⟩ <;>
      simp only [hr, List.mem_cons, List.mem_singleton, List.not_mem_nil, or_false] at hreq
    · rw [hreq]; exact hcopy
    · rcases hreq with rfl | rfl
      exacts [hcopy, ⟨hi, hlo, hhi⟩]
  | SetMTU mtu sock setmtu =>
    obtain ⟨r, hcall, hreq⟩ := mem_getD_map_ioctls hreq
    rcases IPv6Tunnel.SetMTU_ioctls hb hifr hcall with hr | ⟨hlo, hhi, hr⟩ <;>
      simp only [hr, List.mem_singleton, List.not_mem_nil] at hreq
    rw [hreq]
    exact ⟨hcopy, hlo, hhi⟩
  | _ => simp [Call.ioctls] at hreq

/-- A call on a handle whose device is not open leaves the table and sends nothing. -/
theorem Call.apply_closed {h h' : IPv6Tunnel IFNAMSIZ PBUF} {t t' : FdTable}
    {c : Call IFNAMSIZ PBUF t} (hfd : h.fd = -1) (hc : c.apply e h t = some (h', t')) :
    t' = t ∧ c.ioctls h t = [] := by
  cases c <;> simp [Call.apply, Call.ioctls, IPv6Tunnel.SetState, IPv6Tunnel.SetAddress,
    IPv6Tunnel.SetMTU, hfd] at hc ⊢ <;> simp [hc]

/-- A handle whose device did not open is inert for its whole life: whatever calls it gets,
    under whatever outcomes, the descriptor table stays the one the constructor found, no
    call sends a request, and the destructor closes nothing. -/
theorem Reachable.inert (hsize : 0 < IFNAMSIZ) {h : IPv6Tunnel IFNAMSIZ PBUF} {t : FdTable}
    (hr : Reachable e t₀ h t) (hfd : h.fd = -1) :
    t = t₀ ∧ (∀ c : Call IFNAMSIZ PBUF t, c.ioctls h t = []) ∧ h.«~IPv6Tunnel» t = some t₀ := by
  have ht : t = t₀ := by
    induction hr with
    | @new mem req_name dev tunsetiff h t ioctls hnew =>
      rcases dev with _ | d
      · cases hnew
        rfl
      obtain ⟨ifr, b, hspec, -, -⟩ := IPv6Tunnel.new_spec hsize mem t₀ req_name d tunsetiff
      cases hspec.symm.trans hnew
      rcases tunsetiff with _ | name
      · exact FdTable.close_open _ d.2.2
      · exact absurd hfd d.ne_neg_one
    | call c _ hc ih =>
      rw [(Call.apply_fd_ifname hc).1] at hfd
      exact (Call.apply_closed hfd hc).1.trans (ih hfd)
  subst ht
  refine ⟨rfl, fun c => ?_, by simp [IPv6Tunnel.«~IPv6Tunnel», hfd]⟩
  cases c <;> simp [Call.ioctls, IPv6Tunnel.SetState, IPv6Tunnel.SetAddress, IPv6Tunnel.SetMTU, hfd]

/-- A handle on descriptor 3 constructed from an empty table, with the requested name `NULL`
    and the kernel's name `""`. -/
def sampleHandle : IPv6Tunnel 16 4 :=
  ⟨3, (secure_strncpy (Buffer.zero 16).bytes 16), Buffer.zero 4, 0⟩

theorem sampleHandle_reachable :
    Reachable .little FdTable.empty sampleHandle (FdTable.empty.open 3 .tun) :=
  .new (show IPv6Tunnel.new ⟨-1, none, Buffer.zero 4, 0⟩ FdTable.empty none (some ⟨3, by decide, rfl⟩)
    (some (Buffer.zero 16)) = some (_, _, [.TUNSETIFF (Buffer.zero 16)]) from rfl)

theorem IPv6Tunnel.ifname_terminated_sample :
    0 < 16 ∧ Reachable .little FdTable.empty sampleHandle (FdTable.empty.open 3 .tun) ∧
      ∃ b name, sampleHandle.ifname = some b ∧ cstr b.bytes = some name ∧ name.length ≤ 16 - 1 :=
  ⟨by decide, sampleHandle_reachable,
    ((@IPv6Tunnel.ifname_terminated 16 4 (by decide) .little FdTable.empty).2 _ _
      sampleHandle_reachable).1 (by decide)⟩

/-- The sample handle, destroyed right after its constructor, leaves the table it started
    from. -/
theorem Reachable.destructor_leaves_only_sockets_sample :
    0 < 16 ∧ Reachable .little FdTable.empty sampleHandle (FdTable.empty.open 3 .tun) ∧
      (∀ (c : Call 16 4 (FdTable.empty.open 3 .tun)) h' t',
        c.apply .little sampleHandle (FdTable.empty.open 3 .tun) = some (h', t') →
        t' = FdTable.empty.open 3 .tun ∨ ∃ mtu sock setmtu s r, c = .SetMTU mtu sock setmtu ∧
          sock = some s ∧ sampleHandle.SetMTU (FdTable.empty.open 3 .tun) mtu sock setmtu = some r ∧
          r.ret = 0 ∧ t' = (FdTable.empty.open 3 .tun).open s.1 .udp6) ∧
      ∃ t', sampleHandle.«~IPv6Tunnel» (FdTable.empty.open 3 .tun) = some t' ∧
        ∀ n, t' n ≠ FdTable.empty n → FdTable.empty n = none ∧ t' n = some .udp6 :=
  ⟨by decide, sampleHandle_reachable,
    Reachable.destructor_leaves_only_sockets (by decide) sampleHandle_reachable⟩

/-- `SetMTU (1280)` on the sample handle, with `socket` returning descriptor 4 and
    `SIOCSIFMTU` succeeding, returns 0 with descriptor 4 still open; the destructor closes
    only the device, so descriptor 4, closed before the constructor, stays open. -/
theorem IPv6Tunnel.SetMTU_leaks_socket :
    ∃ r t', sampleHandle.SetMTU (FdTable.empty.open 3 .tun) 1280 (some ⟨4, by decide⟩) true = some r ∧
      r.ret = 0 ∧ r.fds 4 = some .udp6 ∧ sampleHandle.«~IPv6Tunnel» r.fds = some t' ∧
      t' 4 = some .udp6 ∧ FdTable.empty 4 = none :=
  ⟨_, _, rfl, rfl, rfl, rfl, rfl, rfl⟩
/-- `SetAddress` on the sample handle, with `SIOCGIFINDEX` returning 7, sends two requests:
    `SIOCGIFINDEX` for the sample's interface and `SIOCSIFADDR` with index 7. -/
theorem Reachable.ioctls_named_sample :
    0 < 16 ∧ Reachable .little FdTable.empty sampleHandle (FdTable.empty.open 3 .tun) ∧
      (Call.SetAddress (Buffer.zero 16) 64 (some ⟨4, by decide⟩) (some 7) true : Call 16 4 _).ioctls
        sampleHandle (FdTable.empty.open 3 .tun) =
          [.SIOCGIFINDEX (secure_strncpy (Buffer.zero 16).bytes 16 |>.getD (Buffer.zero 16)),
            .SIOCSIFADDR 7 (Buffer.zero 16) 64] ∧
      ∀ req ∈ (Call.SetAddress (Buffer.zero 16) 64 (some ⟨4, by decide⟩) (some 7) true :
          Call 16 4 _).ioctls sampleHandle (FdTable.empty.open 3 .tun), sampleHandle.fd ≠ -1 ∧
        ∃ b name, sampleHandle.ifname = some b ∧ cstr b.bytes = some name ∧
          req.ForInterface name (some 7) :=
  ⟨by decide, sampleHandle_reachable, by decide,
    Reachable.ioctls_named (by decide) sampleHandle_reachable _⟩

/-- A handle whose `open` failed. -/
def closedHandle : IPv6Tunnel 16 4 :=
  ⟨-1, none, Buffer.zero 4, 0⟩

/-- The handle a constructor whose `open` fails leaves, on an empty table, stays inert. -/
theorem Reachable.inert_closedHandle :
    0 < 16 ∧ Reachable .little FdTable.empty closedHandle FdTable.empty ∧ closedHandle.fd = -1 ∧
      (∀ c : Call 16 4 FdTable.empty, c.ioctls closedHandle FdTable.empty = []) ∧
      closedHandle.«~IPv6Tunnel» FdTable.empty = some FdTable.empty :=
  have hr : Reachable .little FdTable.empty closedHandle FdTable.empty :=
    .new (show IPv6Tunnel.new closedHandle FdTable.empty none none none =
      some (closedHandle, FdTable.empty, []) from rfl)
  have h := Reachable.inert (by decide) hr rfl
  ⟨by decide, hr, rfl, h.2⟩

end miredo.ipv6_tunnel
