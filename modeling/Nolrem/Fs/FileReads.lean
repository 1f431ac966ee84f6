import Nolrem.Fs.File

/-!
# What a read of a file delivers

A file is the concatenation of the clusters of its chain. Each read is judged by the chain alone.
-/

namespace Nolrem.Fs

/-! ## Bytes in a row -/

@[simp] theorem length_slice (p : Bytes) (start n : Nat) : (slice p start n).length = n := by
  simp [slice]

theorem slice_append (p : Bytes) (start m n : Nat) :
    slice p start m ++ slice p (start + m) n = slice p start (m + n) := by
  unfold slice
  rw [List.range_add, List.map_append, List.map_map]
  congr 1
  exact List.map_congr_left fun i _ => by rw [Function.comp_apply, Nat.add_assoc]

theorem slice_drop (p : Bytes) (start n k : Nat) (h : k ≤ n) :
    (slice p start n).drop k = slice p (start + k) (n - k) := by
  have hsplit := slice_append p start k (n - k)
  rw [Nat.add_sub_cancel' h] at hsplit
  rw [← hsplit, List.drop_left' (length_slice p start k)]

theorem slice_take (p : Bytes) (start n k : Nat) (h : k ≤ n) :
    (slice p start n).take k = slice p start k := by
  have hsplit := slice_append p start k (n - k)
  rw [Nat.add_sub_cancel' h] at hsplit
  rw [← hsplit, List.take_left' (length_slice p start k)]

theorem slice_congr {p q : Bytes} {start start' n : Nat}
    (h : ∀ i < n, p (start + i) = q (start' + i)) : slice p start n = slice q start' n :=
  List.map_congr_left fun i hi => h i (List.mem_range.mp hi)

namespace Transfer

theorem advance_nil (io : Transfer) : io.advance [] = io := by
  unfold advance
  simp

theorem advance_append (io : Transfer) (xs ys : List UInt8) :
    (io.advance xs).advance ys = io.advance (xs ++ ys) := by
  unfold advance
  rw [mk.injEq, List.length_append]
  refine ⟨Nat.add_assoc _ _ _, Nat.sub_sub _ _ _, Nat.add_assoc _ _ _, List.append_assoc _ _ _⟩

/-- So many bytes from the address of the transfer on may be copied to. -/
structure Writable (copies : Nat → Nat → Bool) (io : Transfer) (n : Nat) : Prop where
  address : io.address ≠ 0
  room : n ≤ io.lengthRemaining
  copies : ∀ address m, io.address ≤ address → address + m ≤ io.address + n →
    copies address m = true

variable {copies : Nat → Nat → Bool} {io : Transfer}

theorem Writable.mono {m n : Nat} (h : io.Writable copies n) (hmn : m ≤ n) :
    io.Writable copies m :=
  ⟨h.address, hmn.trans h.room, fun address k ha hk => h.copies address k ha (by omega)⟩

/-- After some of the bytes the others are still writable. -/
theorem Writable.advance {n : Nat} (h : io.Writable copies n) {bytes : List UInt8}
    (hlen : bytes.length ≤ n) : (io.advance bytes).Writable copies (n - bytes.length) := by
  have hroom := h.room
  have haddr := h.address
  constructor
  · change io.address + bytes.length ≠ 0
    omega
  · change n - bytes.length ≤ io.lengthRemaining - bytes.length
    omega
  · intro address k ha hk
    change io.address + bytes.length ≤ address at ha
    change address + k ≤ io.address + bytes.length + (n - bytes.length) at hk
    exact h.copies address k (by omega) (by omega)

/-- `PerformTransfer` delivers what it is asked to. -/
theorem Writable.performTransfer {n : Nat} (h : io.Writable copies n) (hn : 0 < n)
    (trusted : Bytes) :
    Fs.performTransfer copies trusted io n = (none, io.advance (slice trusted 0 n)) := by
  have hroom := h.room
  unfold Fs.performTransfer
  rw [if_neg h.address, Nat.min_eq_left hroom]
  simp only [if_neg (Nat.ne_of_gt hn), h.copies io.address n le_rfl le_rfl, if_true]

end Transfer

/-! ## Reading in a row -/

namespace FatState

variable {fat : Fat} {dev : Device} {copies : Nat → Nat → Bool} {s : FatState}

theorem Ready.asked (h : s.Ready fat dev) : s.asked.Ready fat dev :=
  ⟨h.sound.of_cache_eq rfl, h.hint⟩

/-- `fat_read_linear` delivers the bytes of the volume, however the disk splits the transfers. -/
theorem fatReadLinear_spec (hdev : dev.Delivers) (h : s.Ready fat dev) {io : Transfer}
    {diskByte count : Nat} (hio : io.Writable copies count) :
    ∃ s', s.fatReadLinear dev copies io diskByte count =
        (none, s', io.advance (slice dev.volume diskByte count)) ∧ s'.Ready fat dev := by
  induction count using Nat.strong_induction_on generalizing s io diskByte with
  | _ count ih =>
    rw [fatReadLinear]
    by_cases hcount : count = 0
    · rw [if_pos hcount, hcount]
      exact ⟨s, by rw [show slice dev.volume diskByte 0 = [] from rfl, io.advance_nil], h⟩
    -- a first part, and the rest by the hypothesis
    have hrest : ∀ n, 0 < n → n ≤ count → ∃ s', s.asked.fatReadLinear dev copies
        (io.advance (slice dev.volume diskByte n)) (diskByte + n) (count - n) =
          (none, s', io.advance (slice dev.volume diskByte count)) ∧ s'.Ready fat dev := by
      intro n hn hle
      have hio' := @Transfer.Writable.advance copies io count hio (slice dev.volume diskByte n)
        (by rw [length_slice]; exact hle)
      rw [length_slice] at hio'
      obtain ⟨s', heq, hready⟩ := @ih (count - n) (by omega) _ h.asked _ (diskByte + n) hio'
      refine ⟨s', ?_, hready⟩
      rw [heq, Transfer.advance_append, slice_append, Nat.add_sub_cancel' hle]
    rw [if_neg hcount]
    dsimp only
    by_cases halign : diskByte % sectorSize = 0 ∧ sectorSize ≤ count
    · -- whole sectors, of which one at least is delivered
      rw [if_pos halign]
      have hans := hdev s.requests
      cases hcase : dev.answer s.requests with
      | fails code rest =>
        rw [hcase] at hans
        exact hans.elim
      | transfers n rest =>
        rw [hcase] at hans
        simp only at hans ⊢
        have hwhole := Nat.div_add_mod count sectorSize
        have hsome : 0 < count / sectorSize := Nat.div_pos halign.2 (by decide)
        unfold sectorSize at *
        rw [if_neg (by omega)]
        exact hrest _ (by omega) (by omega)
    · -- a part of a sector
      rw [if_neg halign, hdev.readStatus]
      have hoffset : diskByte % sectorSize < sectorSize := Nat.mod_lt _ (by decide)
      have hsize : 0 < min (sectorSize - diskByte % sectorSize) count := by omega
      have hbuffer : slice (fun i => dev.readBuffer s.requests sectorSize
          (diskByte - diskByte % sectorSize) (diskByte % sectorSize + i)) 0
            (min (sectorSize - diskByte % sectorSize) count) =
          slice dev.volume diskByte (min (sectorSize - diskByte % sectorSize) count) := by
        refine slice_congr ?_
        intro i hi
        rw [Device.readBuffer_of_ok (hdev.readStatus _) (by omega)]
        have hle := Nat.mod_le diskByte sectorSize
        congr 1
        omega
      simp only [(hio.mono (Nat.min_le_right _ _)).performTransfer hsize, hbuffer]
      exact hrest _ hsize (Nat.min_le_right _ _)

end FatState

/-! ## The bytes of a chain -/

/-- The concatenation of some clusters -/
def Device.chainBytes (dev : Device) (fat : Fat) (cs : List Nat) : List UInt8 :=
  cs.flatMap fun c => slice dev.volume (fat.clusterToByte c) fat.clusterBytes

theorem length_chainBytes (dev : Device) (fat : Fat) (cs : List Nat) :
    (dev.chainBytes fat cs).length = cs.length * fat.clusterBytes := by
  induction cs with
  | nil => simp [Device.chainBytes]
  | cons c cs ih =>
    unfold Device.chainBytes at *
    rw [List.flatMap_cons, List.length_append, length_slice, ih, List.length_cons, Nat.succ_mul,
      Nat.add_comm]

theorem chainBytes_drop (dev : Device) (fat : Fat) (cs : List Nat) (n : Nat) :
    (dev.chainBytes fat cs).drop (n * fat.clusterBytes) = dev.chainBytes fat (cs.drop n) := by
  induction cs generalizing n with
  | nil => simp [Device.chainBytes]
  | cons c cs ih =>
    cases n with
    | zero => simp
    | succ n =>
      rw [List.drop_succ_cons, ← ih, Nat.succ_mul, Nat.add_comm, ← List.drop_drop]
      congr 1
      exact List.drop_left' (length_slice _ _ _)

namespace Fat.Good

variable {fat : Fat}

theorem clusterBytes_pos (h : fat.Good) : 0 < fat.clusterBytes := by
  rw [h.clusterBytes_eq]
  exact Nat.mul_pos h.cluster_pos (by decide)

/-- Clusters with consecutive numbers follow each other on the volume. -/
theorem clusterToByte_succ (h : fat.Good) {c : Nat} (h2 : 2 ≤ c) (hc : c + 1 ≤ fat.maxCluster) :
    fat.clusterToByte (c + 1) = fat.clusterToByte c + fat.clusterBytes := by
  unfold Fat.clusterToByte
  rw [h.clusterSector c h2 (by omega), h.clusterSector (c + 1) (by omega) hc, h.clusterBytes_eq,
    show c + 1 - 2 = c - 2 + 1 by omega, Nat.succ_mul, ← Nat.add_assoc, Nat.add_mul]

end Fat.Good

/-! ## A run of clusters -/

/--
What the inner loop makes of a run: it goes on by `k` clusters of the chain, which are next to each
other, and stops because there are bytes enough, because the chain ends, or because the next cluster
is elsewhere.
-/
structure Run.Grown (fat : Fat) (dev : Device) (want : Nat) (run : Run) (rest : List Nat)
    (k : Nat) (run' : Run) (rest' : List Nat) : Prop where
  last : run'.last = run.last + k
  valid : run'.last ≤ fat.maxCluster
  runBytes : run'.runBytes = run.runBytes + k * fat.clusterBytes
  hops : ∀ j ≤ k, dev.hops fat j run.last = .ok (run.last + j)
  bytes : dev.chainBytes fat (run.last :: rest) =
    slice dev.volume (fat.clusterToByte run.last) (fat.clusterBytes + k * fat.clusterBytes) ++
      dev.chainBytes fat rest'
  stop : want ≤ run'.runBytes ∨ (run'.chainEnded = true ∧ rest' = []) ∨
    (run'.chainEnded = false ∧ dev.next fat run'.last = .ok run'.nextCluster ∧
      dev.Chain fat run'.nextCluster rest')

namespace Run.Grown

variable {fat : Fat} {dev : Device} {want : Nat} {run run' : Run} {rest rest' : List Nat}

/-- A run that stops where it is -/
theorem zero (hlast : run'.last = run.last) (hbytes : run'.runBytes = run.runBytes)
    (hvalid : run.last ≤ fat.maxCluster)
    (hstop : want ≤ run'.runBytes ∨ (run'.chainEnded = true ∧ rest = []) ∨
      (run'.chainEnded = false ∧ dev.next fat run'.last = .ok run'.nextCluster ∧
        dev.Chain fat run'.nextCluster rest)) :
    Grown fat dev want run rest 0 run' rest := by
  refine ⟨hlast, by omega, by omega, ?_, ?_, hstop⟩
  · intro j hj
    rw [Nat.le_zero.mp hj]
    rfl
  · rw [Nat.zero_mul, Nat.add_zero]
    rfl

/-- A run that goes on by one cluster first -/
theorem succ (hgood : fat.Good) {next : Run} {k : Nat} (h2 : 2 ≤ run.last)
    (hdisk : dev.next fat run.last = .ok next.last) (hnext : next.last = run.last + 1)
    (hbytes : next.runBytes = run.runBytes + fat.clusterBytes)
    (h : Grown fat dev want next rest k run' rest') :
    Grown fat dev want run (next.last :: rest) (k + 1) run' rest' := by
  have hlast := h.last
  have hvalid := h.valid
  refine ⟨by omega, hvalid, ?_, ?_, ?_, h.stop⟩
  · rw [h.runBytes, hbytes, Nat.succ_mul]
    omega
  · intro j hj
    cases j with
    | zero => rfl
    | succ j =>
      have hhops := h.hops j (Nat.le_of_succ_le_succ hj)
      rw [hnext] at hhops hdisk
      rw [Device.hops, hdisk]
      simp only [hhops]
      congr 1
      omega
  · have hbyte := hgood.clusterToByte_succ h2 (show run.last + 1 ≤ fat.maxCluster by omega)
    have hcons : dev.chainBytes fat (run.last :: next.last :: rest) =
        slice dev.volume (fat.clusterToByte run.last) fat.clusterBytes ++
          dev.chainBytes fat (next.last :: rest) := rfl
    rw [hcons, h.bytes, hnext, hbyte, ← List.append_assoc, slice_append, Nat.succ_mul,
      Nat.add_comm (k * fat.clusterBytes)]

end Run.Grown

namespace FatState

variable {fat : Fat} {dev : Device} {copies : Nat → Nat → Bool} {s : FatState}

theorem fatRun_spec (hgood : fat.Good) (hdev : dev.Delivers) {want fuel : Nat}
    (h : s.Ready fat dev) {run : Run} {rest : List Nat}
    (hchain : dev.Chain fat run.last (run.last :: rest)) (hended : run.chainEnded = false)
    (hfuel : want ≤ run.runBytes + fuel) :
    ∃ k run' rest' s', fatRun fat dev want fuel s run = some (.ok run', s') ∧
      s'.Ready fat dev ∧ Run.Grown fat dev want run rest k run' rest' := by
  have hpos := hgood.clusterBytes_pos
  induction fuel generalizing s run rest with
  | zero =>
    obtain ⟨-, -, -, hvalid⟩ := hchain.head
    unfold fatRun
    rw [if_pos (by omega)]
    exact ⟨0, run, rest, s, rfl, h, .zero rfl rfl hvalid (.inl (by omega))⟩
  | succ fuel ih =>
    obtain ⟨-, -, h2, hvalid⟩ := hchain.head
    unfold fatRun
    by_cases hwant : want ≤ run.runBytes
    · rw [if_pos hwant]
      exact ⟨0, run, rest, s, rfl, h, .zero rfl rfl hvalid (.inl hwant)⟩
    rw [if_neg hwant]
    have hnext := fatNextCluster_spec hgood hdev h run.last
    generalize s.fatNextCluster fat dev run.last = next at hnext ⊢
    obtain ⟨result, s'⟩ := next
    obtain ⟨hres, hready⟩ := hnext
    simp only at hres hready
    rcases hchain.tail with ⟨rfl, hend⟩ | ⟨c, hc, hrest⟩
    · rw [hend] at hres
      subst hres
      exact ⟨0, _, [], s', rfl, hready, .zero rfl rfl hvalid (.inr (.inl ⟨rfl, rfl⟩))⟩
    · rw [hc] at hres
      subst hres
      have hadd : wadd run.last 1 = run.last + 1 := wadd_eq (by have := hgood.max_le; omega)
      dsimp only
      rw [hadd]
      by_cases hfar : c ≠ run.last + 1
      · rw [if_pos hfar]
        exact ⟨0, _, rest, s', rfl, hready,
          .zero rfl rfl hvalid (.inr (.inr ⟨hended, hc, hrest⟩))⟩
      · -- the next cluster along
        rw [if_neg hfar]
        have hcl : c = run.last + 1 := not_not.mp hfar
        obtain ⟨rest', rfl, -⟩ := hrest.head
        obtain ⟨k, run', rest'', s'', heq, hready', hgrown⟩ := @ih _ hready
          { run with last := c, nextCluster := c, runBytes := run.runBytes + fat.clusterBytes }
          rest' hrest hended (by dsimp only; omega)
        exact ⟨k + 1, run', rest'', s'', heq, hready', hgrown.succ hgood h2 hc hcl rfl⟩

/-- The bytes left of a chain, from a run on: those of the run, and those after it -/
theorem drop_run {run : Run} {want k within : Nat} {rest rest' : List Nat} {run' : Run}
    (h : Run.Grown fat dev want run rest k run' rest') (hwithin : within < fat.clusterBytes)
    (hbytes : run.runBytes = fat.clusterBytes - within) :
    (dev.chainBytes fat (run.last :: rest)).drop within =
      slice dev.volume (fat.clusterToByte run.last + within) run'.runBytes ++
        dev.chainBytes fat rest' := by
  have hlen : within ≤ (slice dev.volume (fat.clusterToByte run.last)
      (fat.clusterBytes + k * fat.clusterBytes)).length := by
    rw [length_slice]
    omega
  rw [h.bytes, List.drop_append_of_le_length hlen, slice_drop _ _ _ _ (by omega)]
  congr 2
  rw [h.runBytes, hbytes]
  omega

/-- The hint that is left after a run is of the chain. -/
theorem setHint_ready {run : Run} {want k : Nat} {rest rest' : List Nat} {run' : Run}
    (h : s.Ready fat dev) (hrun : Run.Grown fat dev want run rest k run' rest')
    {firstCluster index hops : Nat} (hindex : dev.hops fat index firstCluster = .ok run.last)
    (hhops : hops ≤ k) (hlt : index + hops < 4294967296) (hgood : fat.Good) :
    (s.fatSetHint firstCluster (wadd index hops) (wadd run.last hops)).Ready fat dev := by
  have hlast := hrun.last
  have hvalid := hrun.valid
  have hmax := hgood.max_le
  refine ⟨h.sound.of_cache_eq rfl, ?_⟩
  change dev.hops fat (wadd index hops) firstCluster = .ok (wadd run.last hops)
  rw [wadd_eq hlt, wadd_eq (by omega), Device.hops_add hindex]
  exact hrun.hops hops hhops

/-- How many clusters along the last byte of a run is -/
theorem run_hops {clusterBytes index within count k : Nat} (hcount : 0 < count)
    (hrun : within + count ≤ (k + 1) * clusterBytes)
    (hsize : index * clusterBytes + within + count < 4294967296) :
    (within + count - 1) / clusterBytes % wordSize = (within + count - 1) / clusterBytes ∧
      (within + count - 1) / clusterBytes ≤ k ∧
      index + (within + count - 1) / clusterBytes < 4294967296 := by
  have hpos : 0 < clusterBytes := by
    by_contra hzero
    rw [Nat.eq_zero_of_not_pos hzero, Nat.mul_zero] at hrun
    omega
  have hlt : within + count - 1 < clusterBytes * (k + 1) := by
    rw [Nat.mul_comm]
    omega
  have hle : (within + count - 1) / clusterBytes ≤ k :=
    Nat.le_of_lt_succ (Nat.div_lt_of_lt_mul hlt)
  have hmul : (index + (within + count - 1) / clusterBytes) * clusterBytes ≤
      index * clusterBytes + (within + count - 1) := by
    rw [Nat.add_mul]
    exact Nat.add_le_add_left (Nat.div_mul_le_self _ _) _
  have hone : index + (within + count - 1) / clusterBytes ≤
      (index + (within + count - 1) / clusterBytes) * clusterBytes :=
    Nat.le_mul_of_pos_right _ hpos
  refine ⟨Nat.mod_eq_of_lt ?_, hle, by omega⟩
  unfold wordSize
  omega

/-- The result of a read of `want` bytes where these bytes are left of the chain -/
def readOutcome (left : List UInt8) (want : Nat) (io : Transfer) : Option Status × Transfer :=
  (if left.length < want then some .eio else none, io.advance (left.take want))

/-- One time round the loop, and then the rest -/
theorem readOutcome_append {bytes left : List UInt8} {want : Nat} (io : Transfer)
    (h : bytes.length ≤ want) :
    readOutcome left (want - bytes.length) (io.advance bytes) =
      readOutcome (bytes ++ left) want io := by
  unfold readOutcome
  rw [Transfer.advance_append, List.length_append, List.take_append, List.take_of_length_le h]
  congr 1
  by_cases hlt : left.length < want - bytes.length
  · rw [if_pos hlt, if_pos (by omega)]
  · rw [if_neg hlt, if_neg (by omega)]

theorem readOutcome_zero (left : List UInt8) (io : Transfer) :
    readOutcome left 0 io = (none, io) := by
  unfold readOutcome
  rw [if_neg (Nat.not_lt_zero _), List.take_zero, io.advance_nil]

/-- The chain has ended too early. -/
theorem readOutcome_nil {want : Nat} (h : 0 < want) (io : Transfer) :
    readOutcome [] want io = (some .eio, io) := by
  unfold readOutcome
  rw [List.length_nil, if_pos h, List.take_nil, io.advance_nil]

/-- All that was wanted is in the first bytes. -/
theorem readOutcome_of_le {bytes left : List UInt8} {want : Nat} (io : Transfer)
    (h : want ≤ bytes.length) :
    readOutcome (bytes ++ left) want io = (none, io.advance (bytes.take want)) := by
  unfold readOutcome
  rw [if_neg (by rw [List.length_append]; omega), List.take_append_of_le_length h]

/-- Where the loop goes on behind a run of `k + 1` clusters -/
theorem wadd_run {clusterBytes index cluster last k : Nat} (hpos : 0 < clusterBytes)
    (hlast : last = cluster + k) (hvalid : cluster + k < 4294967296)
    (hsize : (index + (k + 1)) * clusterBytes < 4294967296) :
    wadd index (wadd (wsub last cluster) 1) = index + (k + 1) := by
  have hle : index + (k + 1) ≤ (index + (k + 1)) * clusterBytes := Nat.le_mul_of_pos_right _ hpos
  have hk : wsub last cluster = k := (wsub_eq (by omega) (by omega)).trans (by omega)
  have hk1 : wadd k 1 = k + 1 := wadd_eq (by omega)
  rw [hk, hk1]
  exact wadd_eq (by omega)

theorem fatReadLoop_spec (hgood : fat.Good) (hdev : dev.Delivers) {firstCluster fuel : Nat}
    {io : Transfer} {index cluster within sizeLeft : Nat} {rest : List Nat}
    (h : s.Ready fat dev) (hchain : dev.Chain fat cluster (cluster :: rest))
    (hindex : dev.hops fat index firstCluster = .ok cluster) (hwithin : within < fat.clusterBytes)
    (hio : io.Writable copies (min io.lengthRemaining sizeLeft))
    (hsize : index * fat.clusterBytes + within + sizeLeft < 4294967296)
    (hfuel : sizeLeft ≤ fuel) :
    ∃ s', fatReadLoop fat dev copies firstCluster fuel s io index cluster within sizeLeft =
        some ((readOutcome ((dev.chainBytes fat (cluster :: rest)).drop within)
            (min io.lengthRemaining sizeLeft) io).1, s',
          (readOutcome ((dev.chainBytes fat (cluster :: rest)).drop within)
            (min io.lengthRemaining sizeLeft) io).2) ∧ s'.Ready fat dev := by
  have hpos := hgood.clusterBytes_pos
  induction fuel generalizing s io index cluster within sizeLeft rest with
  | zero =>
    have hzero : sizeLeft = 0 := Nat.le_zero.mp hfuel
    unfold fatReadLoop
    rw [if_pos (.inr hzero), hzero, Nat.min_zero, readOutcome_zero]
    exact ⟨s, rfl, h⟩
  | succ fuel ih =>
    unfold fatReadLoop
    by_cases hdone : io.lengthRemaining = 0 ∨ sizeLeft = 0
    · have hzero : min io.lengthRemaining sizeLeft = 0 := by omega
      rw [if_pos hdone, hzero, readOutcome_zero]
      exact ⟨s, rfl, h⟩
    rw [if_neg hdone]
    -- the run of clusters from this one on
    have hbytes : wsub fat.clusterBytes within = fat.clusterBytes - within :=
      wsub_eq hwithin.le hgood.clusterBytes_lt
    obtain ⟨k, run, rest', s1, hrun, hready1, hgrown⟩ := @fatRun_spec fat dev s hgood hdev
      (min io.lengthRemaining sizeLeft) (min io.lengthRemaining sizeLeft) h
      ⟨cluster, 0, wsub fat.clusterBytes within, false⟩ rest hchain rfl (Nat.le_add_left _ _)
    have hleft := @drop_run fat dev _ _ _ _ _ _ _ hgrown hwithin hbytes
    have hrunBytes : run.runBytes = fat.clusterBytes - within + k * fat.clusterBytes :=
      hgrown.runBytes.trans (by rw [hbytes])
    dsimp only at hleft ⊢
    rw [hrun, hleft]
    dsimp only
    generalize hwant : min io.lengthRemaining sizeLeft = want at hio hgrown ⊢
    have hcount : 0 < min want run.runBytes := by omega
    -- its bytes are delivered
    obtain ⟨s2, hread, hready2⟩ := @fatReadLinear_spec fat dev copies s1 hdev hready1 io
      (fat.clusterToByte cluster + within) (min want run.runBytes)
      (hio.mono (Nat.min_le_left _ _))
    rw [hread]
    dsimp only
    have hsub : wsub sizeLeft (min want run.runBytes) = sizeLeft - min want run.runBytes :=
      wsub_eq (by omega) (by omega)
    have hnew : (io.advance (slice dev.volume (fat.clusterToByte cluster + within)
        (min want run.runBytes))).lengthRemaining =
          io.lengthRemaining - min want run.runBytes := by
      rw [Transfer.advance, length_slice]
    -- the hint is about the cluster of the last byte
    have hmul : (k + 1) * fat.clusterBytes = k * fat.clusterBytes + fat.clusterBytes :=
      Nat.succ_mul _ _
    obtain ⟨hhops, hle, hlt⟩ := @run_hops fat.clusterBytes index within (min want run.runBytes) k
      hcount (by omega) (by omega)
    have hready3 := setHint_ready hready2 hgrown hindex hle hlt hgood
    rw [hhops, hsub, hnew]
    have hcut : min want run.runBytes = want ∨
        min want run.runBytes = run.runBytes ∧ run.runBytes < want := by omega
    rcases hcut with hcut | ⟨hcut, hshort⟩
    · -- all that was wanted is in the run
      rw [hcut] at hready3 ⊢
      rw [if_pos (by omega), readOutcome_of_le io (by rw [length_slice]; omega),
        slice_take _ _ _ _ (by omega)]
      exact ⟨_, rfl, hready3⟩
    · -- the run is used up
      rw [hcut] at hready3 hsub hnew ⊢
      rw [if_neg (by omega)]
      have hrest : want - run.runBytes =
          min (io.lengthRemaining - run.runBytes) (sizeLeft - run.runBytes) := by omega
      have happend := @readOutcome_append (slice dev.volume (fat.clusterToByte cluster + within)
        run.runBytes) (dev.chainBytes fat rest') want io (by rw [length_slice]; omega)
      rw [length_slice, hrest] at happend
      rw [← happend]
      rcases hgrown.stop with hstop | ⟨hended, rfl⟩ | ⟨hended, hnext, hchain'⟩
      · omega
      · have hnone : dev.chainBytes fat [] = [] := rfl
        rw [if_pos hended, hnone, readOutcome_nil (by omega)]
        exact ⟨_, rfl, hready3⟩
      · rw [if_neg (by rw [hended]; exact Bool.false_ne_true)]
        obtain ⟨rest'', rfl, -⟩ := hchain'.head
        have hlast : run.last = cluster + k := hgrown.last
        have hvalid := hgrown.valid
        have hmax := hgood.max_le
        have hmul' : (index + (k + 1)) * fat.clusterBytes =
            index * fat.clusterBytes + within + run.runBytes := by
          rw [Nat.add_mul]
          omega
        have hindex' : wadd index (wadd (wsub run.last cluster) 1) = index + (k + 1) :=
          wadd_run hpos hlast (by omega) (by omega)
        have hio' : (io.advance (slice dev.volume (fat.clusterToByte cluster + within)
            run.runBytes)).Writable copies
              (min (io.lengthRemaining - run.runBytes) (sizeLeft - run.runBytes)) := by
          have hadv := @Transfer.Writable.advance copies io want hio (slice dev.volume
            (fat.clusterToByte cluster + within) run.runBytes) (by rw [length_slice]; omega)
          rwa [length_slice, hrest] at hadv
        rw [hindex']
        have hloop := @ih _ (io.advance (slice dev.volume
          (fat.clusterToByte cluster + within) run.runBytes)) (index + (k + 1)) run.nextCluster 0
          (sizeLeft - run.runBytes) rest'' hready3 hchain'
          (by
            rw [← Nat.add_assoc, Device.hops_succ (d := run.last), hnext]
            rw [Device.hops_add hindex, hlast]
            exact hgrown.hops k le_rfl)
          hpos (by rw [hnew]; exact hio') (by omega) (by omega)
        rw [hnew, List.drop_zero] at hloop
        exact hloop

end FatState

/-! ## A whole read -/

/-- A read of a file, with the clusters of the file -/
structure ReadRequest where
  firstCluster : Nat
  fileSize : Nat
  chain : List Nat
  io : Transfer

namespace ReadRequest

/-- Where the read ends, if it is not cut short -/
def stop (r : ReadRequest) : Nat := min (r.io.offset + r.io.lengthRemaining) r.fileSize

/-- The bytes of the file that the read is about, as far as the chain has them -/
def bytes (fat : Fat) (dev : Device) (r : ReadRequest) : List UInt8 :=
  ((dev.chainBytes fat r.chain).drop r.io.offset).take (r.stop - r.io.offset)

/-- The read starts in the file, and the chain ends before it starts or before it stops. -/
def RunsPast (fat : Fat) (dev : Device) (r : ReadRequest) : Prop :=
  r.io.offset < r.fileSize ∧
    ((dev.chainBytes fat r.chain).length < r.stop ∨
      (dev.chainBytes fat r.chain).length ≤ r.io.offset)

instance (fat : Fat) (dev : Device) (r : ReadRequest) : Decidable (r.RunsPast fat dev) :=
  inferInstanceAs (Decidable (_ ∧ _))

/-- What the read gives: its bytes, and `EIO` if it runs past the chain -/
def expected (fat : Fat) (dev : Device) (r : ReadRequest) : Option Status × Transfer :=
  (if r.RunsPast fat dev then some .eio else none, r.io.advance (r.bytes fat dev))

/-- A read of a file whose chain is in order, into memory that can be written. An empty file has no
chain. -/
structure WellFormed (fat : Fat) (dev : Device) (copies : Nat → Nat → Bool) (r : ReadRequest) :
    Prop where
  size_lt : r.fileSize < 4294967296
  chain : r.fileSize = 0 ∨ dev.Chain fat r.firstCluster r.chain
  writable : r.io.Writable copies (r.stop - r.io.offset)

/-- Where the chain is as long as the file, no read runs past it. -/
theorem not_runsPast {fat : Fat} {dev : Device} {r : ReadRequest}
    (h : r.fileSize ≤ (dev.chainBytes fat r.chain).length) : ¬r.RunsPast fat dev := by
  have hstop : r.stop ≤ r.fileSize := Nat.min_le_right _ _
  rintro ⟨hstart, hshort | hshort⟩
  · omega
  · omega

end ReadRequest

namespace FatState

variable {fat : Fat} {dev : Device} {copies : Nat → Nat → Bool} {s : FatState}

theorem fatReadFileSync_spec (hgood : fat.Good) (hdev : dev.Delivers) (h : s.Ready fat dev)
    {r : ReadRequest} (hr : r.WellFormed fat dev copies) :
    ∃ s', s.fatReadFileSync fat dev copies r.firstCluster r.fileSize r.io =
        some ((r.expected fat dev).1, s', (r.expected fat dev).2) ∧ s'.Ready fat dev := by
  have hpos := hgood.clusterBytes_pos
  have hcb := hgood.clusterBytes_lt
  have hsize := hr.size_lt
  unfold fatReadFileSync ReadRequest.expected
  by_cases hpast : r.fileSize ≤ r.io.offset
  · have hstop : r.stop ≤ r.fileSize := Nat.min_le_right _ _
    rw [if_pos hpast, if_neg fun hrun => Nat.not_le.mpr hrun.1 hpast]
    refine ⟨s, ?_, h⟩
    unfold ReadRequest.bytes
    rw [Nat.sub_eq_zero_of_le (hstop.trans hpast), List.take_zero, r.io.advance_nil]
  rw [if_neg hpast]
  have hchain : dev.Chain fat r.firstCluster r.chain := hr.chain.resolve_left (by omega)
  obtain ⟨rest, hcons, h2, hmax⟩ := hchain.head
  have hindex : r.io.offset / fat.clusterBytes % wordSize = r.io.offset / fat.clusterBytes := by
    have hle := Nat.div_le_self r.io.offset fat.clusterBytes
    exact Nat.mod_eq_of_lt (by unfold wordSize; omega)
  have hwithin : r.io.offset % fat.clusterBytes % wordSize = r.io.offset % fat.clusterBytes := by
    have hlt := Nat.mod_lt r.io.offset hpos
    exact Nat.mod_eq_of_lt (by unfold wordSize; omega)
  have hleft : (r.fileSize - r.io.offset) % wordSize = r.fileSize - r.io.offset :=
    Nat.mod_eq_of_lt (by unfold wordSize; omega)
  have hsplit : r.io.offset / fat.clusterBytes * fat.clusterBytes +
      r.io.offset % fat.clusterBytes = r.io.offset := Nat.div_add_mod' _ _
  have hlength := length_chainBytes dev fat r.chain
  rw [if_neg (by omega), hindex, hwithin, hleft]
  dsimp only
  have hat := fatClusterAt_spec hgood hdev h r.firstCluster (r.io.offset / fat.clusterBytes)
  generalize s.fatClusterAt fat dev r.firstCluster (r.io.offset / fat.clusterBytes) = found
    at hat ⊢
  obtain ⟨result, s1⟩ := found
  obtain ⟨hres, hready⟩ := hat
  simp only at hres hready
  rcases hchain.hops_eq (r.io.offset / fat.clusterBytes) with
    ⟨d, rest', hd, hdrop, hchain'⟩ | ⟨hlen, hend⟩
  · -- the chain has a cluster at the offset
    rw [hd] at hres
    subst hres
    have hbytes : (dev.chainBytes fat (d :: rest')).drop (r.io.offset % fat.clusterBytes) =
        (dev.chainBytes fat r.chain).drop r.io.offset := by
      rw [← hdrop, ← chainBytes_drop, List.drop_drop, hsplit]
    have hwant : min r.io.lengthRemaining (r.fileSize - r.io.offset) = r.stop - r.io.offset := by
      unfold ReadRequest.stop
      omega
    have hlong : r.io.offset < (dev.chainBytes fat r.chain).length := by
      have hdroplen := congrArg List.length hdrop
      rw [List.length_drop, List.length_cons] at hdroplen
      have hmul : (r.io.offset / fat.clusterBytes + 1) * fat.clusterBytes ≤
          r.chain.length * fat.clusterBytes := Nat.mul_le_mul_right _ (by omega)
      rw [Nat.succ_mul] at hmul
      have hlt := Nat.mod_lt r.io.offset hpos
      omega
    obtain ⟨s', hloop, hready'⟩ := @fatReadLoop_spec fat dev copies s1 hgood hdev r.firstCluster
      (r.fileSize - r.io.offset) r.io (r.io.offset / fat.clusterBytes) d
      (r.io.offset % fat.clusterBytes) (r.fileSize - r.io.offset) rest' hready hchain' hd
      (Nat.mod_lt _ hpos) (by rw [hwant]; exact hr.writable) (by omega) le_rfl
    rw [hwant, hbytes] at hloop
    refine ⟨s', ?_, hready'⟩
    dsimp only
    rw [hloop]
    have hiff : ((dev.chainBytes fat r.chain).drop r.io.offset).length < r.stop - r.io.offset ↔
        r.RunsPast fat dev := by
      rw [List.length_drop]
      unfold ReadRequest.RunsPast
      omega
    unfold readOutcome ReadRequest.bytes
    simp only [hiff]
  · -- the chain ends before the offset
    rw [hend] at hres
    subst hres
    have hshort : (dev.chainBytes fat r.chain).length ≤ r.io.offset := by
      have hmul : r.chain.length * fat.clusterBytes ≤
          r.io.offset / fat.clusterBytes * fat.clusterBytes := Nat.mul_le_mul_right _ hlen
      omega
    refine ⟨s1, ?_, hready⟩
    unfold ReadRequest.bytes
    rw [if_pos ⟨by omega, .inr hshort⟩, List.drop_of_length_le hshort, List.take_nil,
      r.io.advance_nil]

/-- Reads one after the other. With `forget`, the hint is dropped before each. -/
def readFiles (forget : Bool) (fat : Fat) (dev : Device) (copies : Nat → Nat → Bool) :
    FatState → List ReadRequest → Option (List (Option Status × Transfer))
  | _, [] => some []
  | s, r :: rs =>
    match fatReadFileSync fat dev copies (if forget then s.fatSetHint 0 0 0 else s)
        r.firstCluster r.fileSize r.io with
    | none => none
    | some (status, s, io) => (readFiles forget fat dev copies s rs).map ((status, io) :: ·)

theorem readFiles_ready (hgood : fat.Good) (hdev : dev.Delivers) (forget : Bool)
    {rs : List ReadRequest} (h : s.Ready fat dev) (hrs : ∀ r ∈ rs, r.WellFormed fat dev copies) :
    readFiles forget fat dev copies s rs = some (rs.map fun r => r.expected fat dev) := by
  induction rs generalizing s with
  | nil => rfl
  | cons r rs ih =>
    have hready : (if forget then s.fatSetHint 0 0 0 else s).Ready fat dev := by
      cases forget with
      | true => exact ⟨h.sound.of_cache_eq rfl, rfl⟩
      | false => exact h
    obtain ⟨s', heq, hready'⟩ :=
      fatReadFileSync_spec hgood hdev hready (hrs r List.mem_cons_self)
    rw [readFiles, heq]
    simp only
    rw [ih hready' fun r' hr' => hrs r' (List.mem_cons_of_mem r hr'), Option.map_some,
      List.map_cons]

end FatState

/--
**Reads return the file.** On a mounted volume whose disk makes progress, any reads of any files in
any order, with the hint or without it, deliver the bytes of the file that the chain has, and return
`EIO` exactly if they run past the chain. Where the chain is as long as the file that is never, and
all the bytes up to the end of the read or of the file are delivered.
-/
theorem readFiles_expected {blockSize : Nat} {boot : Bytes} {allocs : Bool} {fat : Fat}
    (hfat : fatMount blockSize (some boot) allocs = .ok fat) {dev : Device}
    (hdev : dev.Delivers) (copies : Nat → Nat → Bool) (requests : Nat) (rs : List ReadRequest)
    (hrs : ∀ r ∈ rs, r.WellFormed fat dev copies) (forget : Bool) :
    FatState.readFiles forget fat dev copies (.start requests) rs =
        some (rs.map fun r => r.expected fat dev) ∧
      ∀ r ∈ rs, r.fileSize ≤ (dev.chainBytes fat r.chain).length →
        (r.expected fat dev).1 = none ∧
          (r.bytes fat dev).length = r.stop - r.io.offset := by
  have hgood := Fat.Good.of_mount hfat
  refine ⟨FatState.readFiles_ready hgood hdev forget (FatState.start_ready fat dev requests) hrs, ?_⟩
  intro r hr hlong
  have hstop : r.stop ≤ r.fileSize := Nat.min_le_right _ _
  refine ⟨if_neg (ReadRequest.not_runsPast hlong), ?_⟩
  unfold ReadRequest.bytes
  rw [List.length_take, List.length_drop]
  omega

/-- The volume of `fat16Boot`, as it is mounted -/
def fat16 : Fat := ⟨.fat16, 1, 512, 0, 81, 1, 82, 9919, 1, 40⟩

/-- A disk on which cluster 2 is the end of a chain -/
def oneClusterDisk : Device where
  volume i := if i = 516 then 0xFF else if i = 517 then 0xFF else 0
  answer _ := .transfers 512 fun _ => 0

/-- A read in a file of 1024 bytes that has one cluster of 512 -/
def shortRead (offset length : Nat) : ReadRequest where
  firstCluster := 2
  fileSize := 1024
  chain := [2]
  io := ⟨4096, length, offset, []⟩

theorem shortRead_wellFormed (offset length : Nat) :
    (shortRead offset length).WellFormed fat16 oneClusterDisk fun _ _ => true := by
  have hend : oneClusterDisk.next fat16 2 = .error .fatEnd := by decide
  refine ⟨(by decide : 1024 < 4294967296), .inr ⟨rfl, hend⟩, ?_, ?_, fun _ _ _ _ => rfl⟩
  · exact (by decide : (4096 : Nat) ≠ 0)
  · change min (offset + length) 1024 - offset ≤ length
    omega

theorem readFiles_expected_short :
    FatState.readFiles false fat16 oneClusterDisk (fun _ _ => true) (.start 1)
        [shortRead 0 100, shortRead 500 100] =
      some [(shortRead 0 100).expected fat16 oneClusterDisk,
        (shortRead 500 100).expected fat16 oneClusterDisk] :=
  (@readFiles_expected 512 fat16Boot true fat16 (by decide) oneClusterDisk
    (fun request => (by decide : 512 ≤ 512)) (fun _ _ => true) 1
    [shortRead 0 100, shortRead 500 100]
    (fun r hr => by
      rcases List.mem_cons.mp hr with rfl | hr
      · exact shortRead_wellFormed 0 100
      · rw [List.mem_singleton.mp hr]
        exact shortRead_wellFormed 500 100) false).1

/-- The chain is shorter than the file, and a read inside it succeeds. -/
theorem short_chain_read_succeeds :
    oneClusterDisk.Chain fat16 2 [2] ∧ (oneClusterDisk.chainBytes fat16 [2]).length < 1024 ∧
      (FatState.readFiles false fat16 oneClusterDisk (fun _ _ => true) (.start 1)
        [shortRead 0 100]).map (List.map Prod.fst) = some [none] := by
  have hgood : fat16.Good := @Fat.Good.of_mount 512 fat16Boot true fat16 (by decide)
  have hnot : ¬(shortRead 0 100).RunsPast fat16 oneClusterDisk := by
    unfold ReadRequest.RunsPast
    rw [length_chainBytes]
    decide
  refine ⟨⟨rfl, by decide⟩, by rw [length_chainBytes]; decide, ?_⟩
  rw [FatState.readFiles_ready hgood (fun request => (by decide : 512 ≤ 512)) false
    (FatState.start_ready fat16 oneClusterDisk 1) (fun r hr => by
      rw [List.mem_singleton.mp hr]
      exact shortRead_wellFormed 0 100)]
  simp only [Option.map_some, List.map_cons, List.map_nil, ReadRequest.expected, if_neg hnot]

end Nolrem.Fs
