import Nolrem.Fs.Chain

/-!
# Reading files

`PerformTransfer` of `kernel/vfs/transfer.c`, and `fat_read_linear` and `fat_read_file_sync` of
`kernel/fs/fat/fat_file.c`.
-/

namespace Nolrem.Fs

/-! ## Transfers -/

/-- Consecutive bytes -/
def slice (p : Bytes) (start n : Nat) : List UInt8 := (List.range n).map fun i => p (start + i)

/-- `struct transfer`, and the bytes that were delivered, each one address after the last -/
structure Transfer where
  address : Nat
  lengthRemaining : Nat
  offset : Nat
  delivered : List UInt8
deriving DecidableEq, Repr

/-- The transfer goes on by these bytes. -/
def Transfer.advance (io : Transfer) (bytes : List UInt8) : Transfer where
  address := io.address + bytes.length
  lengthRemaining := io.lengthRemaining - bytes.length
  offset := io.offset + bytes.length
  delivered := io.delivered ++ bytes

/--
`PerformTransfer` of a read. `copies` says whether bytes may be copied to an address: always in the
kernel, and what `ValidateCopy` says for a user.
-/
def performTransfer (copies : Nat → Nat → Bool) (trusted : Bytes) (io : Transfer) (len : Nat) :
    Option Status × Transfer :=
  if io.address = 0 then (some .einval, io)
  else
    let amount := min len io.lengthRemaining
    if amount = 0 then (none, io)
    else if copies io.address amount then (none, io.advance (slice trusted 0 amount))
    else (some .einval, io)

/-! ## The code -/

namespace FatState

/-- The state after a request was made -/
def asked (s : FatState) : FatState := { s with requests := s.requests + 1 }

/-- `fat_read_linear`. `NULL` transfers and failed copies end it. -/
def fatReadLinear (dev : Device) (copies : Nat → Nat → Bool) (s : FatState) (io : Transfer)
    (diskByte count : Nat) : Option Status × FatState × Transfer :=
  if count = 0 then (none, s, io)
  else
    let sectorOffset := diskByte % sectorSize
    if sectorOffset = 0 ∧ sectorSize ≤ count then
      -- `fat_disk_transfer` of as many whole sectors as there are
      match dev.answer s.requests with
      | .fails code _ => (some (.disk code), s.asked, io)
      | .transfers n _ =>
        let transferred := min n (count - count % sectorSize)
        if transferred = 0 then (some .eio, s.asked, io)
        else
          fatReadLinear dev copies s.asked (io.advance (slice dev.volume diskByte transferred))
            (diskByte + transferred) (count - transferred)
    else
      match dev.readStatus s.requests sectorSize with
      | some status => (some status, s.asked, io)
      | none =>
        let buffer := dev.readBuffer s.requests sectorSize (diskByte - sectorOffset)
        let transferSize := min (sectorSize - sectorOffset) count
        match performTransfer copies (fun i => buffer (sectorOffset + i)) io transferSize with
        | (some status, io) => (some status, s.asked, io)
        | (none, io) =>
          fatReadLinear dev copies s.asked io (diskByte + transferSize) (count - transferSize)
termination_by count
decreasing_by
  · omega
  · have hlt : diskByte % sectorSize < sectorSize := Nat.mod_lt _ (by decide)
    omega

end FatState

/-- A run of clusters next to each other: `last`, `next_cluster`, `run_bytes` and `chain_ended` -/
structure Run where
  last : Nat
  nextCluster : Nat
  runBytes : Nat
  chainEnded : Bool
deriving DecidableEq, Repr

namespace FatState

/--
The inner loop of `fat_read_file_sync`: the chain is followed for as long as it keeps going to the
next cluster along.
-/
def fatRun (fat : Fat) (dev : Device) (want : Nat) :
    Nat → FatState → Run → Option (Except Status Run × FatState)
  | fuel, s, run =>
    if want ≤ run.runBytes then some (.ok run, s)
    else
      match fuel with
      | 0 => none
      | fuel + 1 =>
        match s.fatNextCluster fat dev run.last with
        | (.error .fatEnd, s) => some (.ok { run with chainEnded := true }, s)
        | (.error status, s) => some (.error status, s)
        | (.ok next, s) =>
          if next ≠ wadd run.last 1 then some (.ok { run with nextCluster := next }, s)
          else
            fatRun fat dev want fuel s
              { run with
                last := next
                nextCluster := next
                runBytes := run.runBytes + fat.clusterBytes }

/-- The outer loop of `fat_read_file_sync`, from `within` bytes into a cluster on -/
def fatReadLoop (fat : Fat) (dev : Device) (copies : Nat → Nat → Bool) (firstCluster : Nat) :
    Nat → FatState → Transfer → Nat → Nat → Nat → Nat →
      Option (Option Status × FatState × Transfer)
  | fuel, s, io, index, cluster, within, sizeLeft =>
    if io.lengthRemaining = 0 ∨ sizeLeft = 0 then some (none, s, io)
    else
      match fuel with
      | 0 => none
      | fuel + 1 =>
        let want := min io.lengthRemaining sizeLeft
        match fatRun fat dev want want s ⟨cluster, 0, wsub fat.clusterBytes within, false⟩ with
        | none => none
        | some (.error status, s) => some (some status, s, io)
        | some (.ok run, s) =>
          let count := min want run.runBytes
          match s.fatReadLinear dev copies io (fat.clusterToByte cluster + within) count with
          | (some status, s, io) => some (some status, s, io)
          | (none, s, io) =>
            let hops := (within + count - 1) / fat.clusterBytes % wordSize
            let s := s.fatSetHint firstCluster (wadd index hops) (wadd cluster hops)
            if io.lengthRemaining = 0 ∨ wsub sizeLeft count = 0 then some (none, s, io)
            else if run.chainEnded then some (some .eio, s, io)
            else
              fatReadLoop fat dev copies firstCluster fuel s io
                (wadd index (wadd (wsub run.last cluster) 1)) run.nextCluster 0
                (wsub sizeLeft count)

/-- `fat_read_file_sync`. Each time round the loop takes a byte of `size_left` at least. -/
def fatReadFileSync (fat : Fat) (dev : Device) (copies : Nat → Nat → Bool) (s : FatState)
    (firstCluster fileSize : Nat) (io : Transfer) :
    Option (Option Status × FatState × Transfer) :=
  if fileSize ≤ io.offset then some (none, s, io)
  else
    let sizeLeft := (fileSize - io.offset) % wordSize
    if firstCluster < 2 ∨ fat.maxCluster < firstCluster then some (some .eio, s, io)
    else
      let index := io.offset / fat.clusterBytes % wordSize
      let within := io.offset % fat.clusterBytes % wordSize
      match s.fatClusterAt fat dev firstCluster index with
      | (.error .fatEnd, s) => some (some .eio, s, io)
      | (.error status, s) => some (some status, s, io)
      | (.ok cluster, s) =>
        fatReadLoop fat dev copies firstCluster sizeLeft s io index cluster within sizeLeft

end FatState

end Nolrem.Fs
