import Mathlib.Data.List.Basic
import Mathlib.Data.List.GetD
import Mathlib.Logic.Function.Basic
import Mathlib.Data.UInt

namespace miredo

/-- The host byte order, `WORDS_BIGENDIAN` in the build configuration. -/
inductive Endian
  | little
  | big
  deriving DecidableEq, Repr

/-- The two bytes a `uint16_t` occupies in memory, lowest address first. -/
def u16Bytes (e : Endian) (v : UInt16) : List UInt8 :=
  match e with
  | .little => [UInt8.ofNat (v.toNat % 256), UInt8.ofNat (v.toNat / 256)]
  | .big => [UInt8.ofNat (v.toNat / 256), UInt8.ofNat (v.toNat % 256)]

/-- The `uint16_t` that `memcpy (&v, p, 2)` rebuilds from the memory at `p`. -/
def u16Load (e : Endian) (p : List UInt8) : UInt16 :=
  match e with
  | .little => UInt16.ofNat ((p.getD 0 0).toNat + 256 * (p.getD 1 0).toNat)
  | .big => UInt16.ofNat (256 * (p.getD 0 0).toNat + (p.getD 1 0).toNat)

@[simp] theorem u16Bytes_length (e : Endian) (v : UInt16) : (u16Bytes e v).length = 2 := by
  cases e <;> rfl

/-- Storing a `uint16_t` and loading it back gives the same value on either byte order,
    whatever follows it in memory. -/
theorem u16Load_u16Bytes (e : Endian) (v : UInt16) (rest : List UInt8) :
    u16Load e (u16Bytes e v ++ rest) = v := by
  have hv := v.toNat_lt_size
  simp only [UInt16.size] at hv
  have hlo : (UInt8.ofNat (v.toNat % 256)).toNat = v.toNat % 256 :=
    UInt8.toNat_ofNat_of_lt (by simp only [UInt8.size]; omega)
  have hhi : (UInt8.ofNat (v.toNat / 256)).toNat = v.toNat / 256 :=
    UInt8.toNat_ofNat_of_lt (by simp only [UInt8.size]; omega)
  apply UInt16.toNat.inj
  cases e <;>
  · simp only [u16Load, u16Bytes, List.cons_append, List.nil_append, List.getD_cons_zero,
      List.getD_cons_succ, hlo, hhi]
    exact (UInt16.toNat_ofNat_of_lt (by simp only [UInt16.size]; omega)).trans (by omega)

/-- A load reads only the first two bytes at its address. -/
theorem u16Load_append (e : Endian) {p : List UInt8} (hp : 2 ≤ p.length) (rest : List UInt8) :
    u16Load e (p ++ rest) = u16Load e p := by
  simp only [u16Load, List.getD_append _ _ _ _ (show 0 < p.length by omega),
    List.getD_append _ _ _ _ (show 1 < p.length by omega)]

/-- The byte-reversed `uint32_t`. -/
def bswap32 (v : UInt32) : UInt32 :=
  let n := v.toNat
  UInt32.ofNat (n / 16777216 + 256 * (n / 65536 % 256) + 65536 * (n / 256 % 256) +
    16777216 * (n % 256))

/-- `htonl`: host to network byte order. -/
def htonl : Endian → UInt32 → UInt32
  | .big, v => v
  | .little, v => bswap32 v

/-- `ntohl`: network to host byte order. -/
def ntohl : Endian → UInt32 → UInt32
  | .big, v => v
  | .little, v => bswap32 v

private theorem bytes_of_digits {a b c d : Nat} (ha : a < 256) (hb : b < 256) (hc : c < 256) :
    (a + 256 * b + 65536 * c + 16777216 * d) % 256 = a ∧
    (a + 256 * b + 65536 * c + 16777216 * d) / 256 % 256 = b ∧
    (a + 256 * b + 65536 * c + 16777216 * d) / 65536 % 256 = c ∧
    (a + 256 * b + 65536 * c + 16777216 * d) / 16777216 = d :=
  ⟨by omega, by omega, by omega, by omega⟩

private theorem bswap32_toNat (v : UInt32) : (bswap32 v).toNat =
    v.toNat / 16777216 + 256 * (v.toNat / 65536 % 256) + 65536 * (v.toNat / 256 % 256) +
      16777216 * (v.toNat % 256) := by
  have hv := v.toNat_lt_size
  simp only [UInt32.size] at hv
  exact UInt32.toNat_ofNat_of_lt (by simp only [UInt32.size]; omega)

theorem bswap32_bswap32 (v : UInt32) : bswap32 (bswap32 v) = v := by
  have hv := v.toNat_lt_size
  simp only [UInt32.size] at hv
  apply UInt32.toNat.inj
  obtain ⟨h₀, h₁, h₂, h₃⟩ := @bytes_of_digits _ _ _ (v.toNat % 256)
    (show v.toNat / 16777216 < 256 by omega) (Nat.mod_lt (v.toNat / 65536) (by omega))
    (Nat.mod_lt (v.toNat / 256) (by omega))
  rw [bswap32_toNat, bswap32_toNat, h₀, h₁, h₂, h₃]
  clear h₀ h₁ h₂ h₃
  omega

@[simp] theorem ntohl_htonl (e : Endian) (v : UInt32) : ntohl e (htonl e v) = v := by
  cases e
  · exact bswap32_bswap32 v
  · rfl

@[simp] theorem htonl_ntohl (e : Endian) (v : UInt32) : htonl e (ntohl e v) = v := by
  cases e
  · exact bswap32_bswap32 v
  · rfl

/-- The byte-reversed `uint16_t`. -/
def bswap16 (v : UInt16) : UInt16 :=
  UInt16.ofNat (v.toNat / 256 + 256 * (v.toNat % 256))

/-- `htons`: host to network byte order, which is also `ntohs`. -/
def htons : Endian → UInt16 → UInt16
  | .big, v => v
  | .little, v => bswap16 v

private theorem bswap16_toNat (v : UInt16) :
    (bswap16 v).toNat = v.toNat / 256 + 256 * (v.toNat % 256) := by
  have hv := v.toNat_lt_size
  simp only [UInt16.size] at hv
  exact UInt16.toNat_ofNat_of_lt (by simp only [UInt16.size]; omega)

@[simp] theorem htons_htons (e : Endian) (v : UInt16) : htons e (htons e v) = v := by
  cases e
  · have hv := v.toNat_lt_size
    simp only [UInt16.size] at hv
    apply UInt16.toNat.inj
    simp only [htons, bswap16_toNat]
    omega
  · rfl
@[simp] theorem htons_zero (e : Endian) : htons e 0 = 0 := by
  cases e <;> decide

theorem UInt32.toNat_add_one (v : UInt32) : (v + 1).toNat = (v.toNat + 1) % 2 ^ 32 := by
  simp [UInt32.add_def, UInt32.toNat, BitVec.toNat_add]

/-- A byte array of fixed size, such as `char ifname[IFNAMSIZ]`. -/
structure Buffer (n : Nat) where
  bytes : List UInt8
  length_eq : bytes.length = n
  deriving DecidableEq

/-- A buffer of `n` NUL bytes, as `memset (&req, 0, sizeof (req))` leaves `req.ifr_name`. -/
def Buffer.zero (n : Nat) : Buffer n := ⟨List.replicate n 0, List.length_replicate n 0⟩

/-- The buffer after `read` stored `data` at its start; the bytes after it are left. -/
def Buffer.readInto {n : Nat} (b : Buffer n) (data : List UInt8) (hdata : data.length ≤ n) :
    Buffer n :=
  ⟨data ++ b.bytes.drop data.length, by
    simp only [List.length_append, List.length_drop, b.length_eq]
    omega⟩

/-- `memcpy (b + off, src, src.length)`; `none` when it would write past the end of `b`. -/
def Buffer.memcpy {n : Nat} (b : Buffer n) (off : Nat) (src : List UInt8) : Option (Buffer n) :=
  if hfit : off + src.length ≤ n then
    some ⟨b.bytes.take off ++ src ++ b.bytes.drop (off + src.length), by
      simp only [List.length_append, List.length_take, List.length_drop, b.length_eq]
      omega⟩
  else none

theorem Buffer.memcpy_eq {n : Nat} (b : Buffer n) {off : Nat} {src : List UInt8}
    (hfit : off + src.length ≤ n) :
    ∃ b', b.memcpy off src = some b' ∧
      b'.bytes = b.bytes.take off ++ src ++ b.bytes.drop (off + src.length) :=
  ⟨_, dif_pos hfit, rfl⟩

/-- A C string: the bytes before its terminating NUL, none of which is NUL. -/
def CString := {s : List UInt8 // ∀ b ∈ s, b ≠ 0}

/-- What `printf ("%s", b)` reads: the bytes before the first NUL of `b`, or `none` when `b`
    holds no NUL and the read runs past its end. -/
def cstr (b : List UInt8) : Option (List UInt8) :=
  if 0 ∈ b then some (b.takeWhile (· != 0)) else none

/-- `b` with byte `i` replaced by `x`, as `b[i] = x` does. -/
def Buffer.set {n : Nat} (b : Buffer n) (i : Nat) (x : UInt8) : Buffer n :=
  ⟨b.bytes.set i x, by rw [List.length_set, b.length_eq]⟩

/-- `strncpy (tgt, src, len)`: the `len` bytes it stores in `tgt`, copied from `src` up to
    its first NUL and padded with NULs; `none` when it would read past the end of `src`. -/
def strncpy (src : List UInt8) (len : Nat) : Option (Buffer len) :=
  let body := src.takeWhile (· != 0)
  if hlen : len ≤ body.length then some ⟨body.take len, by simp [hlen]⟩
  else if body.length < src.length then
    some ⟨body ++ List.replicate (len - body.length) 0,
      by simp only [List.length_append, List.length_replicate]; omega⟩
  else none

/-- `secure_strncpy`: `strncpy` into a buffer of `len` bytes, then `tgt[len - 1] = '\0'`. -/
def secure_strncpy (src : List UInt8) (len : Nat) : Option (Buffer len) :=
  (strncpy src len).map (·.set (len - 1) 0)

theorem cstr_append_zero {s : List UInt8} (hs : ∀ b ∈ s, b ≠ 0) (rest : List UInt8) :
    cstr (s ++ 0 :: rest) = some s := by
  have hs' : ∀ b ∈ s, (b != 0) = true := by simpa using hs
  simp [cstr, List.takeWhile_append_of_pos hs']

/-- The string in a list that holds a NUL is shorter than the list. -/
theorem cstr_length_lt {l name : List UInt8} (h : cstr l = some name) : name.length < l.length := by
  simp only [cstr] at h
  split_ifs at h with h0
  cases h
  rcases Nat.lt_or_ge (l.takeWhile (· != 0)).length l.length with hlt | hge
  · exact hlt
  · have heq : l.takeWhile (· != 0) = l :=
      (List.takeWhile_prefix _).eq_of_length (Nat.le_antisymm (List.takeWhile_prefix _).length_le hge)
    have := List.mem_takeWhile_imp (heq ▸ h0)
    simp at this

theorem cstr_isSome_iff {l : List UInt8} : (cstr l).isSome ↔ 0 ∈ l := by
  unfold cstr
  split_ifs <;> simp_all

/-- `strncpy` from a source at least `len` bytes long never reads past it. -/
theorem strncpy_of_le {src : List UInt8} {len : Nat} (h : len ≤ src.length) :
    (strncpy src len).isSome := by
  unfold strncpy
  dsimp only
  split_ifs with h1 h2 <;> try rfl
  have : (src.takeWhile (· != 0)).length ≤ src.length := (List.takeWhile_prefix _).length_le
  omega

/-- `secure_strncpy` always leaves a NUL in the buffer. -/
theorem secure_strncpy_terminated {src : List UInt8} {len : Nat} (hlen : 0 < len) {b : Buffer len}
    (h : secure_strncpy src len = some b) : 0 ∈ b.bytes := by
  obtain ⟨c, -, rfl⟩ := Option.map_eq_some'.1 h
  exact List.mem_iff_getElem.2 ⟨len - 1, by simp [Buffer.set, c.length_eq]; omega, by simp [Buffer.set]⟩

theorem takeWhile_cstring (s : CString) : (s.1 ++ [0]).takeWhile (· != 0) = s.1 := by
  have hs : ∀ b ∈ s.1, (b != 0) = true := by simpa using s.2
  simp [List.takeWhile_append_of_pos hs]

/-- Copying a C string into a buffer of `n > 0` bytes keeps its first `n - 1` bytes,
    NUL-terminated. -/
theorem secure_strncpy_cstring {n : Nat} (hn : 0 < n) (s : CString) :
    ∃ b, secure_strncpy (s.1 ++ [0]) n = some b ∧ cstr b.bytes = some (s.1.take (n - 1)) := by
  have hnz : ∀ b ∈ s.1.take (n - 1), b ≠ 0 := fun b hb => s.2 b (List.mem_of_mem_take hb)
  simp only [secure_strncpy, strncpy, takeWhile_cstring, Option.map_eq_some', exists_exists_and_eq_and]
  by_cases hle : n ≤ s.1.length
  · refine ⟨_, dif_pos hle, ?_⟩
    have : (s.1.take n).set (n - 1) 0 = s.1.take (n - 1) ++ 0 :: [] := by
      rw [List.set_eq_take_append_cons_drop, if_pos (by simp; omega)]
      simp [List.take_take, List.drop_take, show n - 1 + 1 = n by omega]
    simp only [Buffer.set, this, cstr_append_zero hnz]
  · rw [dif_neg hle, if_pos (by simp)]
    refine ⟨_, rfl, ?_⟩
    have hrep : List.replicate (n - s.1.length) (0 : UInt8) = 0 :: List.replicate (n - s.1.length - 1) 0 := by
      rw [← List.replicate_succ]; congr 1; omega
    simp only [Buffer.set]
    rw [List.set_append_right _ _ (by omega), List.set_replicate_self, hrep,
      List.take_of_length_le (by omega)]
    exact cstr_append_zero s.2 _

/-- Copying a buffer into one of the same size never reads past it. -/
theorem secure_strncpy_buffer {n : Nat} (b : Buffer n) :
    ∃ b', secure_strncpy b.bytes n = some b' := by
  obtain ⟨c, hc⟩ := Option.isSome_iff_exists.1 (strncpy_of_le (le_of_eq b.length_eq.symm))
  exact ⟨c.set (n - 1) 0, by simp [secure_strncpy, hc]⟩

theorem cstr_of_mem {l : List UInt8} (h : 0 ∈ l) : ∃ name, cstr l = some name :=
  Option.isSome_iff_exists.1 (cstr_isSome_iff.2 h)

/-- Copying a buffer that holds a string into one of the same size keeps the string. -/
theorem secure_strncpy_cstr {n : Nat} (b : Buffer n) {name : List UInt8}
    (h : cstr b.bytes = some name) :
    ∃ r, secure_strncpy b.bytes n = some r ∧ cstr r.bytes = some name := by
  have hlt := cstr_length_lt h
  rw [b.length_eq] at hlt
  simp only [cstr] at h
  split_ifs at h
  cases h
  have hnz : ∀ x ∈ b.bytes.takeWhile (· != 0), x ≠ 0 := fun x hx => by
    simpa using List.mem_takeWhile_imp hx
  simp only [secure_strncpy, strncpy, Option.map_eq_some', exists_exists_and_eq_and]
  rw [dif_neg (by omega), if_pos (by rw [b.length_eq]; exact hlt)]
  refine ⟨_, rfl, ?_⟩
  -- the final `tgt[len - 1] = '\0'` lands in the NUL padding
  have hrep : List.replicate (n - (b.bytes.takeWhile (· != 0)).length) (0 : UInt8) =
      0 :: List.replicate (n - (b.bytes.takeWhile (· != 0)).length - 1) 0 := by
    rw [← List.replicate_succ]; congr 1; omega
  simp only [Buffer.set]
  rw [List.set_append_right _ _ (by omega), List.set_replicate_self, hrep]
  exact cstr_append_zero hnz _

/-- What an open descriptor refers to. -/
inductive Obj
  | pipeRead (k : Nat)
  | pipeWrite (k : Nat)
  | tun
  | udp6
  | other
  deriving DecidableEq, Repr

/-- A process's descriptor table: what each descriptor refers to, `none` when it is closed. -/
def FdTable := Int → Option Obj

/-- The table of a process with no descriptor open. -/
def FdTable.empty : FdTable := fun _ => none

/-- The table after a call returned the new descriptor `fd` for `o`. -/
def FdTable.open (t : FdTable) (fd : Int) (o : Obj) : FdTable := Function.update t fd (some o)

/-- The table after `close (fd)`; closing a descriptor that is not open changes nothing. -/
def FdTable.close (t : FdTable) (fd : Int) : FdTable := Function.update t fd none

/-- A descriptor that `open`, `socket` or `pipe` may return: one that is not open. -/
def Fresh (t : FdTable) := {fd : Int // 0 ≤ fd ∧ t fd = none}

theorem Fresh.ne_neg_one {t : FdTable} (s : Fresh t) : s.1 ≠ -1 := by
  have := s.2.1
  omega

@[simp] theorem FdTable.open_self (t : FdTable) (fd : Int) (o : Obj) : t.open fd o fd = some o :=
  Function.update_same _ _ _

theorem FdTable.open_other (t : FdTable) {fd n : Int} (o : Obj) (h : n ≠ fd) :
    t.open fd o n = t n :=
  Function.update_noteq h _ _

@[simp] theorem FdTable.close_self (t : FdTable) (fd : Int) : t.close fd fd = none :=
  Function.update_same _ _ _

theorem FdTable.close_other (t : FdTable) {fd n : Int} (h : n ≠ fd) : t.close fd n = t n :=
  Function.update_noteq h _ _

/-- Closing a descriptor that was opened on a free slot gives back the table before. -/
@[simp] theorem FdTable.close_open {t : FdTable} {fd : Int} (o : Obj) (h : t fd = none) :
    (t.open fd o).close fd = t := by
  simp only [FdTable.open, FdTable.close, Function.update_idem]
  rw [← h, Function.update_eq_self]

/-- Closing it after another descriptor was opened leaves only that one. -/
theorem FdTable.close_open_open {t : FdTable} {fd fd' : Int} (o o' : Obj) (h : t fd = none)
    (hne : fd' ≠ fd) : ((t.open fd o).open fd' o').close fd = t.open fd' o' := by
  have h' : t.open fd' o' fd = none := by rw [FdTable.open_other _ _ (Ne.symm hne), h]
  simp only [FdTable.open, FdTable.close] at h' ⊢
  rw [Function.update_comm (Ne.symm hne), Function.update_idem, ← h', Function.update_eq_self]

end miredo
