import Mathlib.Tactic.ByContra
import Nolrem.Vfs.Async

/-!
# A partition of a disk

`Access` of `kernel/dev/partition.c` with the 64-bit arithmetic of the source, and `FileAccess` of
`kernel/vfs/vfs.c`, through which the request reaches the disk driver.
-/

namespace Nolrem.Dev

open Nolrem.Vfs (einval ebadf enomem FileInfo)

/-! ## The data -/

/-- `struct transfer`; the direction is that of the call. -/
structure Transfer where
  address : UInt32
  lengthRemaining : UInt64
  offset : UInt64
  blockable : Bool
deriving DecidableEq, Repr

/-- `struct partition_data`, as far as an access reads it. It lies on a disk of fewer than `2 ^ 64`
bytes. -/
structure Partition where
  startByte : UInt64
  lengthBytes : UInt64
  disk : FileInfo
  on_disk : startByte.toNat + lengthBytes.toNat < 18446744073709551616

/-! ## The code -/

/-- `ReadFile` and `WriteFile` on an open file, up to the transfer that its node is given -/
def fileAccess (allocs : Bool) (write : Bool) (file : FileInfo) (io : Transfer) :
    Except Nat Transfer :=
  if io.address = 0 then .error einval
  else if (!write && !file.canRead) || (write && !file.canWrite) then .error ebadf
  else if allocs then .ok { io with blockable := !file.nonblock }
  else .error enomem

namespace Partition

/-- The length that `Access` asks for. It is an `int64_t`, which the transfer takes as a
`uint64_t`. -/
def accessLength (p : Partition) (tr : Transfer) : UInt64 :=
  if p.lengthBytes < tr.offset + tr.lengthRemaining then
    (p.lengthBytes.toInt64 - tr.offset.toInt64).toUInt64
  else tr.lengthRemaining

/-- `real_transfer` of `Access` -/
def realTransfer (p : Partition) (tr : Transfer) : Transfer :=
  { tr with
    lengthRemaining := p.accessLength tr
    offset := tr.offset + p.startByte }

/-- `Access`: the request that the disk driver gets -/
def access (p : Partition) (allocs : Bool) (write : Bool) (tr : Transfer) : Except Nat Transfer :=
  fileAccess allocs write p.disk (p.realTransfer tr)

/-! ## What a partition is for -/

/-- A request touches no byte outside the partition. -/
def Inside (p : Partition) (request : Transfer) : Prop :=
  ∀ i < request.lengthRemaining.toNat,
    p.startByte.toNat ≤ request.offset.toNat + i ∧
      request.offset.toNat + i < p.startByte.toNat + p.lengthBytes.toNat

/-- A transfer inside the partition is asked of the disk in full, and at the right place. -/
def PassedOn (p : Partition) (tr request : Transfer) : Prop :=
  tr.offset.toNat + tr.lengthRemaining.toNat ≤ p.lengthBytes.toNat →
    request.lengthRemaining = tr.lengthRemaining ∧
      request.offset.toNat = p.startByte.toNat + tr.offset.toNat

/-- The transfer starts in the partition, or at its end, and its own end is a 64-bit number. -/
def StartsInside (p : Partition) (tr : Transfer) : Prop :=
  tr.offset.toNat ≤ p.lengthBytes.toNat ∧
    tr.offset.toNat + tr.lengthRemaining.toNat < 18446744073709551616

/-! ## The arithmetic of `Access` -/

theorem accessLength_eq (p : Partition) (tr : Transfer) :
    p.accessLength tr =
      if p.lengthBytes < tr.offset + tr.lengthRemaining then p.lengthBytes - tr.offset
      else tr.lengthRemaining := by
  unfold accessLength
  split
  · simp
  · rfl

/-- The two cases of the clamp, in natural numbers. The end of the transfer may wrap. -/
theorem accessLength_cases (p : Partition) (tr : Transfer) :
    (p.lengthBytes.toNat < (tr.offset.toNat + tr.lengthRemaining.toNat) % 18446744073709551616 ∧
        (p.accessLength tr).toNat =
          (18446744073709551616 - tr.offset.toNat + p.lengthBytes.toNat) % 18446744073709551616) ∨
      ((tr.offset.toNat + tr.lengthRemaining.toNat) % 18446744073709551616 ≤ p.lengthBytes.toNat ∧
        p.accessLength tr = tr.lengthRemaining) := by
  rw [accessLength_eq, ← UInt64.toNat_add, ← UInt64.lt_iff_toNat_lt]
  split
  · rename_i h
    exact .inl ⟨h, UInt64.toNat_sub _ _⟩
  · rename_i h
    exact .inr ⟨UInt64.not_lt.mp h, rfl⟩

theorem realTransfer_offset (p : Partition) (tr : Transfer) :
    (p.realTransfer tr).offset.toNat = (tr.offset.toNat + p.startByte.toNat) % 18446744073709551616 :=
  UInt64.toNat_add _ _

/-- A request that reaches the disk driver is that of `realTransfer`. -/
theorem access_ok {p : Partition} {allocs write : Bool} {tr request : Transfer}
    (h : p.access allocs write tr = .ok request) :
    request.offset = (p.realTransfer tr).offset ∧
      request.lengthRemaining = p.accessLength tr := by
  unfold access fileAccess at h
  split at h
  · cases h
  · split at h
    · cases h
    · split at h
      · cases h
        exact ⟨rfl, rfl⟩
      · cases h

/-- A transfer that starts inside is cut at the end of the partition. -/
theorem accessLength_of_startsInside {p : Partition} {tr : Transfer} (h : p.StartsInside tr) :
    (p.accessLength tr).toNat =
      min tr.lengthRemaining.toNat (p.lengthBytes.toNat - tr.offset.toNat) := by
  have hl := p.lengthBytes.toNat_lt
  unfold StartsInside at h
  rcases p.accessLength_cases tr with ⟨hlt, heq⟩ | ⟨hle, heq⟩
  · rw [Nat.mod_eq_of_lt h.2] at hlt
    rw [heq]
    omega
  · rw [Nat.mod_eq_of_lt h.2] at hle
    rw [heq]
    omega

/-- A transfer that does not start inside reaches the disk, and its first or its last byte there
is outside the partition. -/
theorem outside_of_not_startsInside {p : Partition} {tr : Transfer} (h : ¬p.StartsInside tr) :
    ∃ i < (p.accessLength tr).toNat,
      (p.realTransfer tr).offset.toNat + i < p.startByte.toNat ∨
        p.startByte.toNat + p.lengthBytes.toNat ≤ (p.realTransfer tr).offset.toNat + i := by
  have hd := p.on_disk
  have hn := tr.lengthRemaining.toNat_lt
  have ho := tr.offset.toNat_lt
  rw [realTransfer_offset]
  unfold StartsInside at h
  by_cases hstart : tr.offset.toNat ≤ p.lengthBytes.toNat
  · -- the end of the transfer wraps, so that nothing is cut off
    have hwrap : 18446744073709551616 ≤ tr.offset.toNat + tr.lengthRemaining.toNat := by
      by_contra hlt
      exact h ⟨hstart, Nat.not_le.mp hlt⟩
    have heq : p.accessLength tr = tr.lengthRemaining := by
      rcases p.accessLength_cases tr with ⟨hlt, -⟩ | ⟨-, heq⟩
      · omega
      · exact heq
    rw [heq]
    refine ⟨tr.lengthRemaining.toNat - 1, ?_, .inr ?_⟩
    · omega
    · omega
  · -- the first byte is past the partition, or wraps to before it
    have hpos : 0 < (p.accessLength tr).toNat := by
      rcases p.accessLength_cases tr with ⟨hlt, heq⟩ | ⟨hle, heq⟩
      · rw [heq]
        omega
      · rw [heq]
        omega
    refine ⟨0, hpos, ?_⟩
    omega

/-! ## When a partition confines a transfer -/

/--
What the disk driver is asked for stays inside the partition, and is all of a transfer that lies
inside it, exactly if the transfer starts inside the partition and its end does not wrap.
-/
theorem access_confined_iff (p : Partition) (allocs write : Bool) (tr request : Transfer)
    (h : p.access allocs write tr = .ok request) :
    p.Inside request ∧ p.PassedOn tr request ↔ p.StartsInside tr := by
  obtain ⟨hoff, hlen⟩ := access_ok h
  constructor
  · rintro ⟨hin, -⟩
    by_contra hns
    obtain ⟨i, hi, hout⟩ := outside_of_not_startsInside hns
    have hbyte := hin i (by rw [hlen]; exact hi)
    rw [hoff] at hbyte
    omega
  · intro hs
    have hcut := accessLength_of_startsInside hs
    have hd := p.on_disk
    have hoffset : request.offset.toNat = p.startByte.toNat + tr.offset.toNat := by
      rw [hoff, realTransfer_offset]
      unfold StartsInside at hs
      omega
    refine ⟨?_, ?_⟩
    · intro i hi
      rw [hlen, hcut] at hi
      rw [hoffset]
      omega
    · intro hwhole
      refine ⟨?_, hoffset⟩
      rw [hlen, ← UInt64.toNat_inj, hcut]
      omega

/-- A transfer in unbounded integers, as the stack of aios has it -/
def Transfer.toVfs (tr : Transfer) : Vfs.Transfer where
  address := tr.address.toNat
  lengthRemaining := tr.lengthRemaining.toNat
  offset := tr.offset.toNat
  blockable := tr.blockable

/-- There the 64-bit arithmetic is that of unbounded integers. -/
theorem realTransfer_toVfs {p : Partition} {tr : Transfer} (h : p.StartsInside tr) :
    Transfer.toVfs (p.realTransfer tr) =
      Vfs.IoState.realTransfer (Transfer.toVfs tr) p.startByte.toNat p.lengthBytes.toNat := by
  have hd := p.on_disk
  have hoff := p.realTransfer_offset tr
  have hcut : ((p.accessLength tr).toNat : Int) = _ :=
    congrArg Nat.cast (accessLength_of_startsInside h)
  unfold StartsInside at h
  rw [Nat.mod_eq_of_lt (by omega)] at hoff
  unfold Transfer.toVfs Vfs.IoState.realTransfer
  simp only [Vfs.Transfer.mk.injEq]
  refine ⟨rfl, ?_, ?_, rfl⟩
  · rw [show (p.realTransfer tr).lengthRemaining = p.accessLength tr from rfl, hcut]
    split <;> omega
  · rw [hoff]
    omega

end Partition

/-- A megabyte at the first megabyte of a disk -/
def secondMegabyte : Partition where
  startByte := 1048576
  lengthBytes := 1048576
  disk := { obj := 0, canRead := true, canWrite := true, nonblock := false }
  on_disk := by decide

theorem Partition.access_confined_iff_last_sector :
    secondMegabyte.Inside ⟨4096, 512, 2096640, true⟩ ∧
        secondMegabyte.PassedOn ⟨4096, 512, 1048064, true⟩ ⟨4096, 512, 2096640, true⟩ ↔
      secondMegabyte.StartsInside ⟨4096, 512, 1048064, true⟩ :=
  Partition.access_confined_iff secondMegabyte true false ⟨4096, 512, 1048064, true⟩
    ⟨4096, 512, 2096640, true⟩ (by decide)

/-- One byte past the end, the clamped length is `-1`: the rest of the disk can be written. -/
theorem Partition.write_past_end :
    secondMegabyte.access true true ⟨4096, 512, 1048577, true⟩ =
        .ok ⟨4096, 18446744073709551615, 2097153, true⟩ ∧
      ¬secondMegabyte.Inside ⟨4096, 18446744073709551615, 2097153, true⟩ := by
  constructor
  · decide
  · intro h
    have hbyte := h 0 (by decide)
    revert hbyte
    decide

end Nolrem.Dev
