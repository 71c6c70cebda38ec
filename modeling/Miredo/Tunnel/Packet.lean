import Miredo.Tunnel.Handle

namespace miredo.ipv6_tunnel

open miredo

/-- `L2_PROTO_IPV6`: the IPv6 ethertype, written by hand in host byte order. -/
def L2_PROTO_IPV6 : Endian → UInt16
  | .big => 0x86dd
  | .little => 0xdd86

/-- On either byte order the constant sits in memory as the ethertype in network order. -/
theorem u16Bytes_L2_PROTO_IPV6 (e : Endian) : u16Bytes e (L2_PROTO_IPV6 e) = [0x86, 0xdd] := by
  cases e <;> rfl

@[simp] theorem u16Bytes_zero (e : Endian) : u16Bytes e 0 = [0, 0] := by
  cases e <;> rfl

variable {IFNAMSIZ PBUF : Nat}

/-- What `read (fd, pbuf, sizeof (pbuf))` returned: `-1`, or the bytes it read, never more
    than `sizeof (pbuf)`. -/
def ReadResult (n : Nat) := Option {data : List UInt8 // data.length ≤ n}

/-- What `read` returns on the device the constructor opens with `IFF_TUN` and without
    `IFF_NO_PI`: -1, or a frame led by the four bytes of `struct tun_pi`. -/
def ReadResult.FromTun {n : Nat} (r : ReadResult n) : Prop :=
  ∀ data, r = some data → 4 ≤ data.1.length

/-- `IPv6Tunnel::ReceivePacket (readset)`: read one frame into `pbuf` and accept it when its
    ethertype field is `L2_PROTO_IPV6`. The field is read from `pbuf + 2` whatever the
    length of the read. -/
def IPv6Tunnel.ReceivePacket (e : Endian) (h : IPv6Tunnel IFNAMSIZ PBUF) (readset : List Int)
    (r : ReadResult PBUF) : IPv6Tunnel IFNAMSIZ PBUF × Int :=
  if h.fd = -1 ∨ h.fd ∉ readset then (h, -1)
  else
    match r with
    | none => (h, -1)
    | some data =>
      let h := { h with pbuf := h.pbuf.readInto data.1 data.2, plen := data.1.length }
      let proto := u16Load e (h.pbuf.bytes.drop 2)
      if proto ≠ L2_PROTO_IPV6 e then (h, -1) else (h, 0)

/-- `IPv6Tunnel::SendPacket (packet, len)` with the uninitialised local array `stack` and
    `written` the value `write` returned. Returns the bytes passed to `write` (`none` when
    it is not called) and the return value; `none` when a `memcpy` would leave `buf`. -/
def IPv6Tunnel.SendPacket (e : Endian) (h : IPv6Tunnel IFNAMSIZ PBUF) (packet : List UInt8)
    (stack : Buffer (65535 + 4)) (written : Int) : Option (Option (List UInt8) × Int) :=
  if h.fd ≠ -1 ∧ packet.length ≤ 65535 then do
    let buf ← stack.memcpy 0 (u16Bytes e 0)
    let buf ← buf.memcpy 2 (u16Bytes e (L2_PROTO_IPV6 e))
    let buf ← buf.memcpy 4 packet
    let len := packet.length + 4
    if written = len then some (some (buf.bytes.take len), 0)
    else some (some (buf.bytes.take len), -1)
  else some (none, -1)

/-- `ReceivePacket` changes only `pbuf` and `plen`. -/
theorem IPv6Tunnel.ReceivePacket_fd_ifname (e : Endian) (h : IPv6Tunnel IFNAMSIZ PBUF)
    (readset : List Int) (r : ReadResult PBUF) :
    (h.ReceivePacket e readset r).1.fd = h.fd ∧
      (h.ReceivePacket e readset r).1.ifname = h.ifname := by
  unfold IPv6Tunnel.ReceivePacket
  split_ifs
  · exact ⟨rfl, rfl⟩
  · rcases r with _ | data
    · exact ⟨rfl, rfl⟩
    · dsimp only
      split_ifs <;> exact ⟨rfl, rfl⟩

/-- The frame `SendPacket` hands to `write`: two zero flag bytes, the bytes of
    `L2_PROTO_IPV6`, then the packet. -/
def frame (e : Endian) (packet : List UInt8) : List UInt8 :=
  u16Bytes e 0 ++ u16Bytes e (L2_PROTO_IPV6 e) ++ packet

theorem frame_eq (e : Endian) (packet : List UInt8) :
    frame e packet = [0, 0, 0x86, 0xdd] ++ packet := by
  simp [frame, u16Bytes_L2_PROTO_IPV6]

/-- A packet of at most 65535 bytes goes to one `write` as its frame, all three `memcpy`s
    staying inside `buf`; the call succeeds exactly when `write` took the whole frame. -/
theorem IPv6Tunnel.SendPacket_of_le (e : Endian) (h : IPv6Tunnel IFNAMSIZ PBUF) (hfd : h.fd ≠ -1)
    {packet : List UInt8} (hlen : packet.length ≤ 65535) (stack : Buffer (65535 + 4))
    (written : Int) :
    h.SendPacket e packet stack written =
      some (some (frame e packet), if written = ((packet.length + 4 : Nat) : Int) then 0 else -1) := by
  have hs := stack.length_eq
  obtain ⟨b₁, h₁, hb₁⟩ := @Buffer.memcpy_eq _ stack 0 (u16Bytes e 0) (by simp)
  obtain ⟨b₂, h₂, hb₂⟩ := @Buffer.memcpy_eq _ b₁ 2 (u16Bytes e (L2_PROTO_IPV6 e)) (by simp)
  obtain ⟨b₃, h₃, hb₃⟩ := @Buffer.memcpy_eq _ b₂ 4 packet (by omega)
  have hframe : b₃.bytes.take (packet.length + 4) = frame e packet := by
    rw [hb₃, hb₂, hb₁]
    simp [frame, u16Bytes_L2_PROTO_IPV6, List.take_append_eq_append_take, hs]
  simp only [IPv6Tunnel.SendPacket, if_pos (And.intro hfd hlen), Option.bind_eq_bind, h₁, h₂, h₃,
    Option.some_bind, hframe]
  split_ifs <;> rfl

/-- A packet over 65535 bytes is refused without a `write`. -/
theorem IPv6Tunnel.SendPacket_of_gt (e : Endian) (h : IPv6Tunnel IFNAMSIZ PBUF) {packet : List UInt8}
    (hlen : 65535 < packet.length) (stack : Buffer (65535 + 4)) (written : Int) :
    h.SendPacket e packet stack written = some (none, -1) := by
  simp only [IPv6Tunnel.SendPacket]
  rw [if_neg (by omega)]

/-- `SendPacket` never writes outside its local buffer. -/
theorem IPv6Tunnel.SendPacket_ne_none (e : Endian) (h : IPv6Tunnel IFNAMSIZ PBUF)
    (packet : List UInt8) (stack : Buffer (65535 + 4)) (written : Int) :
    h.SendPacket e packet stack written ≠ none := by
  by_cases hok : h.fd ≠ -1 ∧ packet.length ≤ 65535
  · simp [h.SendPacket_of_le e hok.1 hok.2 stack written]
  · simp [IPv6Tunnel.SendPacket, hok]

/-- A read that returned bytes overwrites the start of `pbuf`, sets `plen`, and is accepted
    exactly when the two bytes at `pbuf + 2` after it hold `L2_PROTO_IPV6`. -/
theorem IPv6Tunnel.ReceivePacket_read (e : Endian) (h : IPv6Tunnel IFNAMSIZ PBUF)
    (hfd : h.fd ≠ -1) {readset : List Int} (hset : h.fd ∈ readset) (data : List UInt8)
    (hdata : data.length ≤ PBUF) :
    h.ReceivePacket e readset (some ⟨data, hdata⟩) =
      ({ h with pbuf := h.pbuf.readInto data hdata, plen := data.length },
        if u16Load e ((data ++ h.pbuf.bytes.drop data.length).drop 2) = L2_PROTO_IPV6 e
        then 0 else -1) := by
  simp only [IPv6Tunnel.ReceivePacket, hfd, hset, not_true_eq_false, or_self, if_false,
    Buffer.readInto, ne_eq, ite_not]
  split_ifs <;> rfl

theorem IPv6Tunnel.ReceivePacket_long_read_eq (e : Endian) (h : IPv6Tunnel IFNAMSIZ PBUF)
    (hfd : h.fd ≠ -1) {readset : List Int} (hset : h.fd ∈ readset) (data : List UInt8)
    (hdata : data.length ≤ PBUF) (hlong : 4 ≤ data.length) :
    h.ReceivePacket e readset (some ⟨data, hdata⟩) =
      ({ h with pbuf := h.pbuf.readInto data hdata, plen := data.length },
        if u16Load e (data.drop 2) = L2_PROTO_IPV6 e then 0 else -1) := by
  rw [IPv6Tunnel.ReceivePacket_read e h hfd hset data hdata, List.drop_append_of_le_length
    (by omega), u16Load_append e (by simp only [List.length_drop]; omega)]

/-- A read of at least four bytes is judged on its own bytes alone, whatever earlier reads
    left in `pbuf`; an accepted read leaves exactly its bytes at the start of `pbuf`. -/
theorem IPv6Tunnel.ReceivePacket_long_read (e : Endian) (h : IPv6Tunnel IFNAMSIZ PBUF)
    (hfd : h.fd ≠ -1) {readset : List Int} (hset : h.fd ∈ readset) (data : List UInt8)
    (hdata : data.length ≤ PBUF) (hlong : 4 ≤ data.length) :
    ((h.ReceivePacket e readset (some ⟨data, hdata⟩)).2 = 0 ↔
      u16Load e (data.drop 2) = L2_PROTO_IPV6 e) ∧
    (h.ReceivePacket e readset (some ⟨data, hdata⟩)).1.plen = data.length ∧
    (h.ReceivePacket e readset (some ⟨data, hdata⟩)).1.pbuf.bytes.take data.length = data := by
  rw [IPv6Tunnel.ReceivePacket_long_read_eq e h hfd hset data hdata hlong]
  refine ⟨?_, rfl, by simp [Buffer.readInto]⟩
  split_ifs <;> simp_all

/-- On the reads the tunnel device gives, `ReceivePacket` returns 0 exactly when its own read
    returned bytes whose bytes 2 and 3 hold `L2_PROTO_IPV6`, and then `plen` is the length of
    that read and `pbuf` starts with it. Whatever earlier reads left in `pbuf` and `plen`, the
    same read gets the same verdict. -/
theorem IPv6Tunnel.ReceivePacket_tun_read (e : Endian) {h : IPv6Tunnel IFNAMSIZ PBUF}
    (hfd : h.fd ≠ -1) {readset : List Int} (hset : h.fd ∈ readset) {r : ReadResult PBUF}
    (hr : r.FromTun) :
    ((h.ReceivePacket e readset r).2 = 0 ↔
      ∃ data, r = some data ∧ 4 ≤ data.1.length ∧ u16Load e (data.1.drop 2) = L2_PROTO_IPV6 e) ∧
    ((h.ReceivePacket e readset r).2 = 0 → ∃ data, r = some data ∧
      (h.ReceivePacket e readset r).1.plen = data.1.length ∧
      (h.ReceivePacket e readset r).1.pbuf.bytes.take data.1.length = data.1) ∧
    ∀ h' : IPv6Tunnel IFNAMSIZ PBUF, h'.fd = h.fd →
      (h'.ReceivePacket e readset r).2 = (h.ReceivePacket e readset r).2 := by
  rcases r with _ | ⟨data, hdata⟩
  · have hnone : ∀ h' : IPv6Tunnel IFNAMSIZ PBUF, (h'.ReceivePacket e readset none).2 = -1 :=
      fun h' => by unfold IPv6Tunnel.ReceivePacket; split_ifs <;> rfl
    simp only [hnone]
    exact ⟨by simp, by simp, fun _ _ => trivial⟩
  have hlong := hr _ rfl
  have hfd' : ∀ h' : IPv6Tunnel IFNAMSIZ PBUF, h'.fd = h.fd →
      h'.ReceivePacket e readset (some ⟨data, hdata⟩) =
        ({ h' with pbuf := h'.pbuf.readInto data hdata, plen := data.length },
          if u16Load e (data.drop 2) = L2_PROTO_IPV6 e then 0 else -1) := fun h' heq =>
    IPv6Tunnel.ReceivePacket_long_read_eq e h' (heq ▸ hfd) (heq ▸ hset) data hdata hlong
  rw [hfd' h rfl]
  refine ⟨?_, fun _ => ⟨_, rfl, rfl, by simp [Buffer.readInto]⟩, fun h' heq => by rw [hfd' h' heq]⟩
  split_ifs with hproto
  · exact ⟨fun _ => ⟨_, rfl, hlong, hproto⟩, fun _ => rfl⟩
  · exact ⟨fun h0 => absurd h0 (by simp), fun ⟨_, hd, _, hp⟩ => absurd (by cases hd; exact hp) hproto⟩

/-- A handle the constructor opens on descriptor 3, with four bytes of `pbuf`, accepts the
    four-byte frame of an empty IPv6 packet. -/
theorem IPv6Tunnel.ReceivePacket_tun_read_sample :
    ∃ h t ioctls,
      IPv6Tunnel.new (⟨-1, none, Buffer.zero 4, 0⟩ : IPv6Tunnel 16 4) FdTable.empty none
        (some ⟨3, by decide, rfl⟩) (some (Buffer.zero 16)) = some (h, t, ioctls) ∧
      h.fd ≠ -1 ∧ h.fd ∈ [3] ∧ ReadResult.FromTun (some ⟨frame .little [], by decide⟩ : ReadResult 4) ∧
      (h.ReceivePacket .little [3] (some ⟨frame .little [], by decide⟩)).2 = 0 ∧
      (((h.ReceivePacket .little [3] (some ⟨frame .little [], by decide⟩)).2 = 0 ↔
        ∃ data, (some ⟨frame .little [], by decide⟩ : ReadResult 4) = some data ∧
          4 ≤ data.1.length ∧ u16Load .little (data.1.drop 2) = L2_PROTO_IPV6 .little) ∧
      ((h.ReceivePacket .little [3] (some ⟨frame .little [], by decide⟩)).2 = 0 →
        ∃ data, (some ⟨frame .little [], by decide⟩ : ReadResult 4) = some data ∧
          (h.ReceivePacket .little [3] (some ⟨frame .little [], by decide⟩)).1.plen = data.1.length ∧
          (h.ReceivePacket .little [3] (some ⟨frame .little [], by decide⟩)).1.pbuf.bytes.take
            data.1.length = data.1) ∧
      ∀ h' : IPv6Tunnel 16 4, h'.fd = h.fd →
        (h'.ReceivePacket .little [3] (some ⟨frame .little [], by decide⟩)).2 =
          (h.ReceivePacket .little [3] (some ⟨frame .little [], by decide⟩)).2) := by
  have hfrom : ReadResult.FromTun (some ⟨frame .little [], by decide⟩ : ReadResult 4) :=
    fun _ hd => by cases hd; decide
  exact ⟨_, _, _, rfl, by decide, by decide, hfrom, by decide,
    IPv6Tunnel.ReceivePacket_tun_read .little (by decide) (by decide) hfrom⟩

/-- A read of fewer than four bytes, which the device never returns, would be judged on the
    bytes an earlier read left at `pbuf + 2`: on a little-endian host and a handle the
    constructor opens, after the frame of an empty IPv6 packet, a read of zero bytes is
    accepted with `plen = 0`, where the same read right after the constructor is refused. -/
theorem IPv6Tunnel.ReceivePacket_short_read_stale :
    ∃ h t ioctls,
      IPv6Tunnel.new (⟨-1, none, Buffer.zero 4, 0⟩ : IPv6Tunnel 16 4) FdTable.empty none
        (some ⟨3, by decide, rfl⟩) (some (Buffer.zero 16)) = some (h, t, ioctls) ∧
      ((h.ReceivePacket .little [3] (some ⟨frame .little [], by decide⟩)).1.ReceivePacket .little [3]
        (some ⟨[], by decide⟩)).2 = 0 ∧
      ((h.ReceivePacket .little [3] (some ⟨frame .little [], by decide⟩)).1.ReceivePacket .little [3]
        (some ⟨[], by decide⟩)).1.plen = 0 ∧
      (h.ReceivePacket .little [3] (some ⟨[], by decide⟩)).2 = -1 :=
  ⟨_, _, _, rfl, by decide⟩

/-- The frame round trip: a packet of at most 65535 bytes leaves `SendPacket` as its frame
    in one `write`, a longer one is refused without a `write`, and a read that returns a
    frame makes `ReceivePacket` accept it with `plen` and `pbuf` holding the frame, on
    either byte order. -/
theorem IPv6Tunnel.SendPacket_ReceivePacket_frame (e : Endian) (packet : List UInt8) :
    (∀ (h : IPv6Tunnel IFNAMSIZ PBUF) (stack : Buffer (65535 + 4)) (written : Int), h.fd ≠ -1 →
      (packet.length ≤ 65535 → h.SendPacket e packet stack written =
        some (some (frame e packet),
          if written = ((packet.length + 4 : Nat) : Int) then 0 else -1)) ∧
      (65535 < packet.length → h.SendPacket e packet stack written = some (none, -1))) ∧
    (∀ (h : IPv6Tunnel IFNAMSIZ PBUF) (readset : List Int) (r : ReadResult PBUF),
      h.fd ≠ -1 → h.fd ∈ readset → r.map Subtype.val = some (frame e packet) →
      (h.ReceivePacket e readset r).2 = 0 ∧
      (h.ReceivePacket e readset r).1.plen = packet.length + 4 ∧
      ((h.ReceivePacket e readset r).1.pbuf.bytes.take (packet.length + 4)).drop 4 = packet) := by
  refine ⟨fun h stack written hfd => ⟨fun hlen => h.SendPacket_of_le e hfd hlen stack written,
    fun hlen => h.SendPacket_of_gt e hlen stack written⟩, ?_⟩
  rintro h readset (_ | ⟨data, hdata⟩) hfd hset hr
  · cases hr
  · obtain rfl : data = frame e packet := Option.some_injective _ hr
    have hlen : (frame e packet).length = packet.length + 4 := by simp [frame]; omega
    obtain ⟨hret, hplen, hbytes⟩ := h.ReceivePacket_long_read e hfd hset _ hdata (by omega)
    refine ⟨hret.2 ?_, by rw [hplen, hlen]; omega, ?_⟩
    · rw [frame, List.append_assoc, List.drop_left' (u16Bytes_length e 0), u16Load_u16Bytes]
    · rw [← hlen, hbytes, frame_eq]; rfl

/-- The round trip of a one-byte packet on a big-endian host, with a `write` that took
    the whole frame. -/
theorem IPv6Tunnel.SendPacket_ReceivePacket_frame_sample :
    let h : IPv6Tunnel 16 8 := ⟨3, none, Buffer.zero 8, 0⟩
    let r : ReadResult 8 := some ⟨frame .big [7], by decide⟩
    h.fd ≠ -1 ∧ [7].length ≤ 65535 ∧ h.fd ∈ [3] ∧ r.map Subtype.val = some (frame .big [7]) ∧
    h.SendPacket .big [7] (Buffer.zero _) 5 =
      some (some (frame .big [7]), if (5 : Int) = (([7].length + 4 : Nat) : Int) then 0 else -1) ∧
    (h.ReceivePacket .big [3] r).2 = 0 ∧ (h.ReceivePacket .big [3] r).1.plen = [7].length + 4 ∧
    ((h.ReceivePacket .big [3] r).1.pbuf.bytes.take ([7].length + 4)).drop 4 = [7] := by
  intro h r
  exact ⟨by decide, by decide, by decide, rfl,
    ((IPv6Tunnel.SendPacket_ReceivePacket_frame .big [7]).1 h _ 5 (by decide)).1 (by decide),
    (IPv6Tunnel.SendPacket_ReceivePacket_frame .big [7]).2 h [3] r (by decide) (by decide) rfl⟩

end miredo.ipv6_tunnel
