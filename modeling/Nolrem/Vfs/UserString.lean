import Mathlib.Data.List.GetD
import Nolrem.Vfs.Transfer

/-!
# Strings of users

The two functions of `kernel/vfs/transfer.c` that move a string. The local variable whose address
they give to `PerformTransfer` is at `slot`.
-/

namespace Nolrem.Vfs.Copy

/-! ## The code -/

/-- `CreateTransferWritingToUser`, from the start of the buffer -/
def createTransferWritingToUser (addr : UInt32) (length : UInt64) : Transfer where
  address := addr
  lengthRemaining := length
  offset := 0
  direction := .read
  type := .usermode

/-- `CreateTransferReadingFromUser`, from the start of the buffer -/
def createTransferReadingFromUser (addr : UInt32) (length : UInt64) : Transfer :=
  { createTransferWritingToUser addr length with direction := .write }

/-- `WriteStringToUsermode`, where `strlen` is the length of the string -/
def writeStringToUsermode (m : Memory) (slot trustedString : UInt32) (strlen : UInt64)
    (untrusted : UInt32) (maxLength : UInt64) : Nat × Memory × Transfer :=
  let tr := createTransferWritingToUser untrusted maxLength
  let size := if strlen < maxLength then strlen else maxLength - 1
  let (result, m, tr) := performTransfer m trustedString tr size
  if result ≠ 0 then (result, m, tr)
  else
    let m := Function.update m slot 0
    performTransfer m slot tr 1

/-- What reading a string leaves; `written` is how many bytes of the kernel were stored to. -/
structure StringRead where
  status : Nat
  memory : Memory
  transfer : Transfer
  written : Nat

/--
The loop of `ReadStringFromUsermode`; `n` is how many times `max_length-- > 1` still holds, and `i`
bytes are there.
-/
def readLoop (slot trusted : UInt32) : Nat → Memory → Transfer → Nat → StringRead
  | 0, m, tr, i => ⟨0, m, tr, i⟩
  | n + 1, m, tr, i =>
    let m := Function.update m slot 0
    let (result, m, tr) := performTransfer m slot tr 1
    if result ≠ 0 then ⟨result, m, tr, i⟩
    else
      let c := m slot
      let m := Function.update m (place trusted i) c
      if c = 0 then ⟨0, m, tr, i + 1⟩ else readLoop slot trusted n m tr (i + 1)

/-- `ReadStringFromUsermode` -/
def readStringFromUsermode (m : Memory) (slot trusted untrusted : UInt32) (maxLength : UInt64) :
    StringRead :=
  let tr := createTransferReadingFromUser untrusted maxLength
  let r := readLoop slot trusted (maxLength.toNat - 1) m tr 0
  if r.status ≠ 0 then r
  else
    { r with
      memory := Function.update r.memory (place trusted r.written) 0
      written := r.written + 1 }

/-! ## What they are for -/

/-- The bytes from `p` on -/
def HasBytes (m : Memory) (p : UInt32) (bytes : List UInt8) : Prop :=
  ∀ i < bytes.length, m (place p i) = bytes.getD i 0

/-- A C string -/
structure HasString (m : Memory) (p : UInt32) (s : List UInt8) : Prop where
  bytes : HasBytes m p s
  ends : m (place p s.length) = 0

/-- The bytes of a string that fit into `max` bytes together with the zero that ends them -/
def fitted (s : List UInt8) (max : Nat) : List UInt8 :=
  if max = 0 then [] else s.take (max - 1) ++ [0]

/-- The string is written, and nothing else but the local variable. -/
structure Writes (slot untrusted : UInt32) (bytes : List UInt8) (m : Memory)
    (r : Nat × Memory × Transfer) : Prop where
  status : r.1 = 0
  stored : HasBytes r.2.1 untrusted bytes
  kept : ∀ x ≠ slot, (∀ i < bytes.length, x ≠ place untrusted i) → r.2.1 x = m x

/-- At most `max` bytes are read and stored, and the last of them is zero if there is one. -/
structure Reads (slot trusted : UInt32) (max : Nat) (m : Memory) (r : StringRead) : Prop where
  status : r.status = 0
  reads : r.transfer.offset.toNat ≤ max
  writes : r.written ≤ max
  ends : 1 ≤ max → 1 ≤ r.written ∧ r.memory (place trusted (r.written - 1)) = 0
  kept : ∀ x ≠ slot, (∀ i < r.written, x ≠ place trusted i) → r.memory x = m x

/--
Where everything is: a string in the kernel, a buffer of a user and one of the kernel with
`maxLength` bytes each, and the local variables.
-/
structure Laid (m : Memory) (slot str : UInt32) (s : List UInt8) (untrusted trusted : UInt32)
    (maxLength : UInt64) : Prop where
  nonzero : 0 ∉ s
  string : HasString m str s
  stringAt : archUserAreaLimit ≤ str ∧ str.toNat + s.length < 4294967296
  untrustedAt : InUserArea untrusted maxLength.toNat
  trustedAt : archUserAreaLimit ≤ trusted ∧ trusted.toNat + maxLength.toNat ≤ 4294967296
  slotAt : archUserAreaLimit ≤ slot
  slotTrusted : ∀ i < maxLength.toNat, slot ≠ place trusted i

/-- The copies do what they should do, and one is the inverse of the other. -/
structure StringsCopied (m : Memory) (slot str : UInt32) (s : List UInt8)
    (untrusted trusted : UInt32) (maxLength : UInt64) : Prop where
  write : Writes slot untrusted (fitted s maxLength.toNat) m
    (writeStringToUsermode m slot str (UInt64.ofNat s.length) untrusted maxLength)
  read : ∀ m, Reads slot trusted maxLength.toNat m
    (readStringFromUsermode m slot trusted untrusted maxLength)
  readBack : HasString
    (readStringFromUsermode
      (writeStringToUsermode m slot str (UInt64.ofNat s.length) untrusted maxLength).2.1
      slot trusted untrusted maxLength).memory
    trusted (s.take (maxLength.toNat - 1))

/-! ## Places -/

theorem toNat_archUserAreaLimit : archUserAreaLimit.toNat = 3221225472 := rfl

theorem place_add_zero (p : UInt32) : place p 0 = p := UInt32.add_zero p

/-- A place of the kernel is none of the user's. -/
theorem ne_of_userArea {p q : UInt32} {n i : Nat} (hp : InUserArea p n) (hi : i < n)
    (hq : archUserAreaLimit ≤ q) : place p i ≠ q := by
  have hl := toNat_archUserAreaLimit
  obtain ⟨-, hp⟩ := hp
  rw [UInt32.le_iff_toNat_le] at hq
  intro h
  have ht := congrArg UInt32.toNat h
  rw [place_toNat (by omega)] at ht
  omega

theorem limit_le_place {p : UInt32} {i : Nat} (hp : archUserAreaLimit ≤ p)
    (hi : p.toNat + i < 4294967296) : archUserAreaLimit ≤ place p i := by
  rw [UInt32.le_iff_toNat_le] at hp ⊢
  rw [place_toNat hi]
  omega

theorem place_inj {p : UInt32} {i j : Nat} (hi : i < 4294967296) (hj : j < 4294967296)
    (h : place p i = place p j) : i = j :=
  place_distinct (Nat.le_refl _) i hi j hj h

theorem InUserArea.ne_zero {p : UInt32} {n : Nat} (h : InUserArea p n) : p ≠ 0 := by
  rintro rfl
  exact absurd h.1 (by decide)

/-! ## One byte -/

theorem count_one {io : Transfer} (h : 1 ≤ io.lengthRemaining.toNat) : io.count 1 = 1 :=
  Nat.min_eq_left h

/-- The state of a transfer from or to a user after `i` bytes -/
theorem moved_ofNat_succ (io : Transfer) (i : Nat) :
    (io.moved (UInt64.ofNat i)).moved (UInt64.ofNat 1) = io.moved (UInt64.ofNat (i + 1)) := by
  rw [Transfer.moved_moved, UInt64.ofNat_add]

/-! ## Reading -/

/-- One byte is read into the local variable. -/
theorem readByte_done (m : Memory) (slot : UInt32) {untrusted : UInt32} {maxLength : UInt64}
    {i : Nat} (hbuf : InUserArea untrusted maxLength.toNat) (hi : i + 1 < maxLength.toNat)
    (hslot : archUserAreaLimit ≤ slot) :
    ∃ m', performTransfer m slot
        ((createTransferReadingFromUser untrusted maxLength).moved (UInt64.ofNat i)) 1 =
          (0, m', (createTransferReadingFromUser untrusted maxLength).moved
            (UInt64.ofNat (i + 1))) ∧
      m' slot = m (place untrusted i) ∧ ∀ x ≠ slot, m' x = m x := by
  have hl := toNat_archUserAreaLimit
  set io := (createTransferReadingFromUser untrusted maxLength).moved (UInt64.ofNat i) with hio
  have haddr : io.address = place untrusted i := by
    rw [hio, Transfer.moved, UInt64.toUInt32_ofNat']
    rfl
  have hplace : (place untrusted i).toNat = untrusted.toNat + i :=
    place_toNat (by have := hbuf.2; omega)
  have hrem : 1 ≤ io.lengthRemaining.toNat := by
    rw [hio, Transfer.moved_lengthRemaining _ (by exact Nat.le_of_lt (Nat.lt_of_succ_lt hi))]
    exact Nat.le_sub_of_add_le (by rw [Nat.add_comm]; exact Nat.le_of_lt hi)
  have hallowed : io.Allowed 1 := by
    have hb := UInt32.le_iff_toNat_le.mp hbuf.1
    refine ⟨?_, fun _ _ => ⟨?_, ?_⟩⟩
    · rw [haddr]
      intro h0
      rw [h0] at hplace
      have hbase : archUserAreaBase.toNat = 134217728 := rfl
      have hz : (0 : UInt32).toNat = 0 := rfl
      omega
    · rw [haddr, UInt32.le_iff_toNat_le, hplace]
      omega
    · rw [haddr, hplace]
      have := hbuf.2
      omega
  have hc := count_one hrem
  have hdone := @performTransfer_done io 1 m slot (by rw [hc]; decide) (by rw [hc]; exact hallowed)
  rw [hc] at hdone
  obtain ⟨hs, hcopy, hmoved⟩ := hdone
  generalize performTransfer m slot io 1 = r at hs hcopy hmoved
  obtain ⟨status, m', io'⟩ := r
  obtain rfl : status = 0 := hs
  obtain rfl : io' = _ := hmoved
  have hcopied := hcopy (.inl fun a ha b hb => by
    obtain rfl : a = 0 := by omega
    obtain rfl : b = 0 := by omega
    rw [haddr, place_add_zero, place_add_zero]
    exact ne_of_userArea hbuf (by omega) hslot)
  refine ⟨m', by rw [hio, moved_ofNat_succ], ?_, ?_⟩
  · have h0 := hcopied.copied 0 (by decide)
    rw [place_add_zero, place_add_zero] at h0
    exact h0.trans (by rw [← haddr]; rfl)
  · intro x hx
    refine hcopied.kept x fun a ha => ?_
    obtain rfl : a = 0 := by omega
    rw [place_add_zero]
    exact hx

/--
What the loop leaves: it has read `j` bytes, and it stopped before it had to only if the last of
them was zero.
-/
structure LoopDone (slot trusted untrusted : UInt32) (maxLength : UInt64) (n : Nat) (m : Memory)
    (i j : Nat) (r : StringRead) : Prop where
  status : r.status = 0
  le : j ≤ n
  transfer : r.transfer =
    (createTransferReadingFromUser untrusted maxLength).moved (UInt64.ofNat (i + j))
  written : r.written = i + j
  copied : ∀ t < j, r.memory (place trusted (i + t)) = m (place untrusted (i + t))
  kept : ∀ x ≠ slot, (∀ t < j, x ≠ place trusted (i + t)) → r.memory x = m x
  going : ∀ t, t + 1 < j → m (place untrusted (i + t)) ≠ 0
  stopped : j < n → 0 < j ∧ m (place untrusted (i + (j - 1))) = 0

/-- The buffers of a read and its local variable -/
structure ReadLaid (slot untrusted trusted : UInt32) (maxLength : UInt64) : Prop where
  untrustedAt : InUserArea untrusted maxLength.toNat
  trustedAt : archUserAreaLimit ≤ trusted ∧ trusted.toNat + maxLength.toNat ≤ 4294967296
  slotAt : archUserAreaLimit ≤ slot
  slotTrusted : ∀ i < maxLength.toNat, slot ≠ place trusted i

theorem readLoop_done {slot trusted untrusted : UInt32} {maxLength : UInt64}
    (h : ReadLaid slot untrusted trusted maxLength) (n : Nat) (m : Memory) (i : Nat)
    (hn : i + n + 1 ≤ maxLength.toNat) :
    ∃ j, LoopDone slot trusted untrusted maxLength n m i j
      (readLoop slot trusted n m
        ((createTransferReadingFromUser untrusted maxLength).moved (UInt64.ofNat i)) i) := by
  induction n generalizing m i with
  | zero =>
    exact ⟨0, rfl, Nat.le_refl _, rfl, rfl, fun t ht => absurd ht (Nat.not_lt_zero t),
      fun _ _ _ => rfl, fun t ht => absurd ht (Nat.not_lt_zero _),
      fun h => absurd h (Nat.lt_irrefl _)⟩
  | succ n ih =>
    obtain ⟨m', hm', hslot', hkept'⟩ := readByte_done (Function.update m slot 0) slot
      h.untrustedAt (i := i) (by omega) h.slotAt
    have hbuf {k : Nat} (hk : k < maxLength.toNat) : place untrusted k ≠ slot :=
      ne_of_userArea h.untrustedAt hk h.slotAt
    rw [Function.update_of_ne (hbuf (by omega))] at hslot'
    have hmem (x : UInt32) (hx : x ≠ slot) : m' x = m x := by
      rw [hkept' x hx, Function.update_of_ne hx]
    have hti : trusted.toNat + i < 4294967296 := by
      have := h.trustedAt.2
      omega
    have hlimit := limit_le_place h.trustedAt.1 hti
    rw [readLoop, hm']
    simp only [ne_eq, not_true_eq_false, if_false]
    by_cases hc : m' slot = 0
    · rw [if_pos hc]
      refine ⟨1, rfl, by omega, rfl, rfl, ?_, ?_, fun t ht => by omega,
        fun _ => ⟨Nat.one_pos, hslot'.symm.trans hc⟩⟩
      · intro t ht
        obtain rfl : t = 0 := by omega
        exact (Function.update_self ..).trans hslot'
      · intro x hx hxt
        exact (Function.update_of_ne (hxt 0 Nat.one_pos) _ _).trans (hmem x hx)
    · rw [if_neg hc]
      obtain ⟨j, hj⟩ := ih (Function.update m' (place trusted i) (m' slot)) (i + 1) (by omega)
      have husr {k : Nat} (hk : k < maxLength.toNat) :
          Function.update m' (place trusted i) (m' slot) (place untrusted k) =
            m (place untrusted k) := by
        rw [Function.update_of_ne (ne_of_userArea h.untrustedAt hk hlimit), hmem _ (hbuf hk)]
      have hle := hj.le
      refine ⟨j + 1, hj.status, by omega, ?_, ?_, ?_, ?_, ?_, ?_⟩
      · rw [hj.transfer, Nat.add_right_comm, Nat.add_assoc]
      · rw [hj.written, Nat.add_right_comm, Nat.add_assoc]
      · intro t ht
        cases t with
        | zero =>
          refine (hj.kept (place trusted i) (h.slotTrusted i (by omega)).symm ?_).trans ?_
          · intro t ht he
            have := h.trustedAt.2
            have := place_inj (by omega) (by omega) he
            omega
          · exact (Function.update_self ..).trans hslot'
        | succ t =>
          have := hj.copied t (by omega)
          rw [husr (by omega), Nat.add_right_comm] at this
          exact this
      · intro x hx hxt
        have hx0 : x ≠ place trusted i := hxt 0 (by omega)
        rw [hj.kept x hx fun t ht he => hxt (t + 1) (by omega) (by
          rw [he, Nat.add_right_comm, Nat.add_assoc])]
        rw [Function.update_of_ne hx0, hmem x hx]
      · intro t ht
        cases t with
        | zero => exact fun h0 => hc (hslot'.trans h0)
        | succ t =>
          have := hj.going t (by omega)
          rw [husr (by omega), Nat.add_right_comm] at this
          exact this
      · intro hlt
        obtain ⟨hpos, hz⟩ := hj.stopped (by omega)
        refine ⟨Nat.succ_pos _, ?_⟩
        rw [husr (by omega)] at hz
        rw [show i + (j + 1 - 1) = i + 1 + (j - 1) by omega]
        exact hz

/-- What is read, for a `maxLength` that is not 0 -/
theorem readString_done {slot trusted untrusted : UInt32} {maxLength : UInt64}
    (h : ReadLaid slot untrusted trusted maxLength) (h1 : 1 ≤ maxLength.toNat) (m : Memory) :
    ∃ j, j + 1 ≤ maxLength.toNat ∧
      (∀ t, t + 1 < j → m (place untrusted t) ≠ 0) ∧
      (j + 1 < maxLength.toNat → 0 < j ∧ m (place untrusted (j - 1)) = 0) ∧
      let r := readStringFromUsermode m slot trusted untrusted maxLength
      r.status = 0 ∧ r.transfer.offset = UInt64.ofNat j ∧ r.written = j + 1 ∧
        (∀ t < j, r.memory (place trusted t) = m (place untrusted t)) ∧
        r.memory (place trusted j) = 0 ∧
        ∀ x ≠ slot, (∀ t < j + 1, x ≠ place trusted t) → r.memory x = m x := by
  obtain ⟨j, hj⟩ := readLoop_done h (maxLength.toNat - 1) m 0 (by omega)
  have hstart : (createTransferReadingFromUser untrusted maxLength).moved (UInt64.ofNat 0) =
      createTransferReadingFromUser untrusted maxLength := Transfer.moved_zero _
  rw [hstart] at hj
  obtain ⟨hs, hle, htr, hw, hcopied, hkept, hgoing, hstopped⟩ := hj
  simp only [Nat.zero_add] at htr hw hcopied hkept hgoing hstopped
  have hlt : maxLength.toNat ≤ 4294967296 := by
    have := h.untrustedAt.2
    have := toNat_archUserAreaLimit
    omega
  refine ⟨j, by omega, hgoing, fun hl => hstopped (by omega), ?_⟩
  unfold readStringFromUsermode
  simp only [hs, ne_eq, not_true_eq_false, if_false, hw, true_and]
  refine ⟨?_, ?_, Function.update_self .., ?_⟩
  · rw [htr]
    exact UInt64.zero_add _
  · intro t ht
    rw [Function.update_of_ne, hcopied t ht]
    intro he
    have := place_inj (by omega) (by omega) he
    omega
  · intro x hx hxt
    rw [Function.update_of_ne (hxt j (Nat.lt_succ_self j)),
      hkept x hx fun t ht => hxt t (by omega)]

/-- Nothing is read into a buffer of no bytes, and a byte is stored. -/
theorem readString_zero (m : Memory) (slot trusted untrusted : UInt32) :
    (readStringFromUsermode m slot trusted untrusted 0).written = 1 := rfl

/-! ## Writing -/

section Writing

variable {m : Memory} {slot str untrusted trusted : UInt32} {s : List UInt8} {maxLength : UInt64}

theorem Laid.readLaid (h : Laid m slot str s untrusted trusted maxLength) :
    ReadLaid slot untrusted trusted maxLength :=
  ⟨h.untrustedAt, h.trustedAt, h.slotAt, h.slotTrusted⟩

/-- How many characters are written -/
def charsWritten (s : List UInt8) (maxLength : UInt64) : Nat :=
  min s.length (maxLength.toNat - 1)

theorem take_charsWritten (s : List UInt8) (maxLength : UInt64) :
    s.take (maxLength.toNat - 1) = s.take (charsWritten s maxLength) := by
  unfold charsWritten
  by_cases h : s.length ≤ maxLength.toNat - 1
  · rw [Nat.min_eq_left h, List.take_of_length_le h, List.take_length]
  · rw [Nat.min_eq_right (Nat.le_of_not_le h)]

theorem length_take_charsWritten (s : List UInt8) (maxLength : UInt64) :
    (s.take (charsWritten s maxLength)).length = charsWritten s maxLength := by
  rw [List.length_take]
  exact Nat.min_eq_left (Nat.min_le_left _ _)

/-- The characters are copied, and the terminator is next. -/
theorem writeString_eq (h : Laid m slot str s untrusted trusted maxLength)
    (h1 : 1 ≤ maxLength.toNat) :
    let n := charsWritten s maxLength
    ∃ m', CopiedBytes untrusted str n m m' ∧
      writeStringToUsermode m slot str (UInt64.ofNat s.length) untrusted maxLength =
        performTransfer (Function.update m' slot 0) slot
          ((createTransferWritingToUser untrusted maxLength).moved (UInt64.ofNat n)) 1 := by
  intro n
  have hl := toNat_archUserAreaLimit
  have hbuf := h.untrustedAt.2
  have hstr := h.stringAt.2
  set io := createTransferWritingToUser untrusted maxLength
  have hlen : (UInt64.ofNat s.length).toNat = s.length := by
    rw [UInt64.toNat_ofNat']
    omega
  have hsize : (if UInt64.ofNat s.length < maxLength then UInt64.ofNat s.length
      else maxLength - 1).toNat = n := by
    have hone : (1 : UInt64).toNat = 1 := rfl
    split
    · next hlt =>
      rw [UInt64.lt_iff_toNat_lt, hlen] at hlt
      rw [hlen]
      exact (Nat.min_eq_left (by omega)).symm
    · next hlt =>
      rw [UInt64.lt_iff_toNat_lt, hlen] at hlt
      rw [UInt64.toNat_sub_of_le _ 1 (UInt64.le_iff_toNat_le.mpr h1), hone]
      exact (Nat.min_eq_right (by omega)).symm
  have hn1 : n + 1 ≤ maxLength.toNat := by
    have : n ≤ maxLength.toNat - 1 := Nat.min_le_right _ _
    omega
  unfold writeStringToUsermode
  generalize (if UInt64.ofNat s.length < maxLength then UInt64.ofNat s.length
      else maxLength - 1) = size at hsize
  have hcount : io.count size = n := by
    rw [Transfer.count, hsize]
    exact Nat.min_eq_left (Nat.le_of_succ_le hn1)
  have hdone := @performTransfer_done io size m str (by rw [hcount]; omega)
    (by
      rw [hcount]
      refine ⟨h.untrustedAt.ne_zero, fun _ _ => ⟨h.untrustedAt.1, ?_⟩⟩
      exact Nat.lt_of_lt_of_le (by change untrusted.toNat + n < _; omega) hbuf)
  rw [hcount] at hdone
  obtain ⟨hs, hcopy, hmoved⟩ := hdone
  simp only
  generalize performTransfer m str io size = r at hs hcopy hmoved
  obtain ⟨status, m', io'⟩ := r
  obtain rfl : status = 0 := hs
  obtain rfl : io' = _ := hmoved
  refine ⟨m', hcopy (.inl fun a ha b hb => ?_), rfl⟩
  refine ne_of_userArea h.untrustedAt (by omega) (limit_le_place h.stringAt.1 ?_)
  have : n ≤ s.length := Nat.min_le_left _ _
  omega

/-- The terminator is allowed if it is not at the very end of the user's area. -/
theorem terminator_allowed_iff (h : InUserArea untrusted maxLength.toNat)
    (h1 : 1 ≤ maxLength.toNat) (s : List UInt8) :
    ((createTransferWritingToUser untrusted maxLength).moved
        (UInt64.ofNat (charsWritten s maxLength))).Allowed 1 ↔
      untrusted.toNat + charsWritten s maxLength + 1 < archUserAreaLimit.toNat := by
  have hl := toNat_archUserAreaLimit
  have hb := UInt32.le_iff_toNat_le.mp h.1
  have hu := h.2
  have hn : charsWritten s maxLength ≤ maxLength.toNat - 1 := Nat.min_le_right _ _
  have haddr : ((createTransferWritingToUser untrusted maxLength).moved
      (UInt64.ofNat (charsWritten s maxLength))).address.toNat =
        untrusted.toNat + charsWritten s maxLength :=
    Transfer.moved_address _ (by unfold Whole createTransferWritingToUser; simp only; omega)
  constructor
  · intro ha
    have := (ha.user (by decide) rfl).2
    omega
  · intro hlt
    refine ⟨fun h0 => ?_, fun _ _ => ⟨?_, by omega⟩⟩
    · rw [h0] at haddr
      have hbase : archUserAreaBase.toNat = 134217728 := rfl
      have hz : (0 : UInt32).toNat = 0 := rfl
      omega
    · rw [UInt32.le_iff_toNat_le]
      omega

theorem fitted_eq (s : List UInt8) (h1 : 1 ≤ maxLength.toNat) :
    fitted s maxLength.toNat = s.take (charsWritten s maxLength) ++ [0] := by
  rw [fitted, if_neg (by omega), take_charsWritten]

/-- The string is written if its terminator may be. -/
theorem writes_of_allowed (h : Laid m slot str s untrusted trusted maxLength)
    (h1 : 1 ≤ maxLength.toNat)
    (hlt : untrusted.toNat + charsWritten s maxLength + 1 < archUserAreaLimit.toNat) :
    Writes slot untrusted (fitted s maxLength.toNat) m
      (writeStringToUsermode m slot str (UInt64.ofNat s.length) untrusted maxLength) := by
  obtain ⟨m', hcopied, heq⟩ := writeString_eq h h1
  have hn : charsWritten s maxLength + 1 ≤ maxLength.toNat := by
    have : charsWritten s maxLength ≤ maxLength.toNat - 1 := Nat.min_le_right _ _
    omega
  have hlimit := toNat_archUserAreaLimit
  set n := charsWritten s maxLength with hndef
  set io := (createTransferWritingToUser untrusted maxLength).moved (UInt64.ofNat n) with hio
  have hcount : io.count 1 = 1 := by
    refine count_one ?_
    rw [hio, Transfer.moved_lengthRemaining _ (by exact Nat.le_of_succ_le hn)]
    exact Nat.le_sub_of_add_le (by rw [Nat.add_comm]; exact hn)
  have hallowed : io.Allowed 1 := (terminator_allowed_iff h.untrustedAt h1 s).mpr hlt
  have haddr : io.address = place untrusted n := by
    rw [hio, Transfer.moved, UInt64.toUInt32_ofNat']
    rfl
  have hdone := @performTransfer_done io 1 (Function.update m' slot 0) slot
    (by rw [hcount]; decide) (by rw [hcount]; exact hallowed)
  rw [hcount] at hdone
  obtain ⟨hs, hcopy, -⟩ := hdone
  have hzero := hcopy (.inl fun a ha b hb => by
    obtain rfl : a = 0 := by omega
    obtain rfl : b = 0 := by omega
    rw [haddr, place_add_zero, place_add_zero]
    exact ne_of_userArea h.untrustedAt (by omega) h.slotAt)
  have hdst : io.destination slot = place untrusted n := haddr
  have hsrc : io.source slot = slot := rfl
  rw [hdst, hsrc] at hzero
  rw [heq]
  generalize performTransfer (Function.update m' slot 0) slot io 1 = r at hs hzero
  have hplain (x : UInt32) (hx : x ≠ slot) (hxn : x ≠ place untrusted n) : r.2.1 x = m' x := by
    rw [hzero.kept x fun a ha => ?_, Function.update_of_ne hx]
    obtain rfl : a = 0 := by omega
    rw [place_add_zero]
    exact hxn
  have hlen : (s.take n).length = n := length_take_charsWritten s maxLength
  rw [fitted_eq s h1, ← hndef]
  refine ⟨hs, fun i hi => ?_, fun x hx hxi => ?_⟩
  · rw [List.length_append, hlen, List.length_singleton] at hi
    by_cases hin : i < n
    · have hsl : i < s.length := Nat.lt_of_lt_of_le hin (Nat.min_le_left _ _)
      rw [List.getD_append _ _ _ _ (by omega), List.getD_eq_getElem _ _ (by omega),
        List.getElem_take, hplain _ (ne_of_userArea h.untrustedAt (by omega) h.slotAt),
        hcopied.copied i hin, h.string.bytes i hsl, List.getD_eq_getElem _ _ hsl]
      intro he
      have := place_inj (by have := h.untrustedAt.2; omega) (by have := h.untrustedAt.2; omega) he
      omega
    · obtain rfl : i = n := by omega
      rw [List.getD_append_right _ _ _ _ (by omega), hlen, Nat.sub_self]
      have h0 := hzero.copied 0 (by decide)
      rw [place_add_zero, place_add_zero, Function.update_self] at h0
      exact h0
  · rw [List.length_append, hlen, List.length_singleton] at hxi
    rw [hplain x hx (hxi n (Nat.lt_succ_self n)),
      hcopied.kept x fun a ha => hxi a (Nat.lt_succ_of_lt ha)]

/-- A string whose terminator is not allowed is left without it. -/
theorem writes_fails (h : Laid m slot str s untrusted trusted maxLength)
    (h1 : 1 ≤ maxLength.toNat)
    (hge : ¬untrusted.toNat + charsWritten s maxLength + 1 < archUserAreaLimit.toNat) :
    (writeStringToUsermode m slot str (UInt64.ofNat s.length) untrusted maxLength).1 ≠ 0 := by
  obtain ⟨m', -, heq⟩ := writeString_eq h h1
  have hn : charsWritten s maxLength + 1 ≤ maxLength.toNat := by
    have : charsWritten s maxLength ≤ maxLength.toNat - 1 := Nat.min_le_right _ _
    omega
  have hcount : ((createTransferWritingToUser untrusted maxLength).moved
      (UInt64.ofNat (charsWritten s maxLength))).count 1 = 1 := by
    refine count_one ?_
    rw [Transfer.moved_lengthRemaining _ (by exact Nat.le_of_succ_le hn)]
    exact Nat.le_sub_of_add_le (by rw [Nat.add_comm]; exact hn)
  obtain ⟨status, hs, he⟩ := performTransfer_fails (Function.update m' slot 0) slot
    (by rw [hcount]; decide)
    (by rw [hcount]; exact mt (terminator_allowed_iff h.untrustedAt h1 s).mp hge)
  rw [heq, he]
  exact hs

end Writing

/-! ## Both ways -/

/-- What is read of a string that was written is the part of it that fits. -/
theorem readBack {m : Memory} {slot str untrusted trusted : UInt32} {s : List UInt8}
    {maxLength : UInt64} (h : Laid m slot str s untrusted trusted maxLength)
    (h1 : 1 ≤ maxLength.toNat) {m' : Memory}
    (hm : HasBytes m' untrusted (fitted s maxLength.toNat)) :
    HasString (readStringFromUsermode m' slot trusted untrusted maxLength).memory trusted
      (s.take (maxLength.toNat - 1)) := by
  have hlen := length_take_charsWritten s maxLength
  have hn1 : charsWritten s maxLength ≤ maxLength.toNat - 1 := Nat.min_le_right _ _
  have hchar (i : Nat) (hi : i < charsWritten s maxLength) :
      m' (place untrusted i) = (s.take (charsWritten s maxLength)).getD i 0 := by
    have hi' := hm i (by rw [fitted_eq s h1, List.length_append, hlen]; omega)
    rw [fitted_eq s h1, List.getD_append _ _ _ _ (by omega)] at hi'
    exact hi'
  have hne (i : Nat) (hi : i < charsWritten s maxLength) : m' (place untrusted i) ≠ 0 := by
    rw [hchar i hi, List.getD_eq_getElem _ _ (by omega)]
    exact fun h0 => h.nonzero (h0 ▸ List.mem_of_mem_take (List.getElem_mem _))
  have hend : m' (place untrusted (charsWritten s maxLength)) = 0 := by
    have hi' := hm (charsWritten s maxLength) (by
      rw [fitted_eq s h1, List.length_append, hlen]
      exact Nat.lt_succ_self _)
    rw [fitted_eq s h1, List.getD_append_right _ _ _ _ (by omega), hlen, Nat.sub_self] at hi'
    exact hi'
  obtain ⟨j, hj1, hgoing, hstopped, -, -, -, hcopied, hzero, -⟩ :=
    readString_done h.readLaid h1 m'
  rw [take_charsWritten]
  generalize charsWritten s maxLength = n at *
  -- The loop stops at the terminator, or just before it if there is no room.
  have hcases : j = n ∨ j = n + 1 := by
    by_cases hj : j + 1 < maxLength.toNat
    · obtain ⟨hpos, hz⟩ := hstopped hj
      have hge : n ≤ j - 1 := by
        by_contra hlt
        exact hne (j - 1) (by omega) hz
      have hle : j ≤ n + 1 := by
        by_contra hgt
        exact hgoing n (by omega) hend
      omega
    · have hle : j ≤ n + 1 := by
        by_contra hgt
        exact hgoing n (by omega) hend
      omega
  refine ⟨fun i hi => ?_, ?_⟩
  · rw [hlen] at hi
    rw [hcopied i (by omega), hchar i hi]
  · rw [hlen]
    rcases hcases with rfl | rfl
    · exact hzero
    · rw [hcopied n (Nat.lt_succ_self n), hend]

/--
**A string gets to a user and back if there is room for a byte, and its copy does not end where the
area of the user ends.**
-/
theorem strings_copied_iff {m : Memory} {slot str untrusted trusted : UInt32} {s : List UInt8}
    {maxLength : UInt64} (h : Laid m slot str s untrusted trusted maxLength) :
    StringsCopied m slot str s untrusted trusted maxLength ↔
      1 ≤ maxLength.toNat ∧
        untrusted.toNat + min s.length (maxLength.toNat - 1) + 1 < archUserAreaLimit.toNat := by
  constructor
  · intro hc
    have h1 : 1 ≤ maxLength.toNat := by
      by_contra h0
      have hz : maxLength = 0 := UInt64.toNat_inj.mp (by change _ = 0; omega)
      have hw := (hc.read m).writes
      rw [hz, readString_zero] at hw
      exact absurd hw (by decide)
    refine ⟨h1, ?_⟩
    by_contra hge
    exact writes_fails h h1 hge hc.write.status
  · rintro ⟨h1, hlt⟩
    have hw := writes_of_allowed h h1 hlt
    refine ⟨hw, fun m => ?_, readBack h h1 hw.stored⟩
    obtain ⟨j, hj1, -, -, hs, hoff, hwr, -, hzero, hkept⟩ := readString_done h.readLaid h1 m
    refine ⟨hs, ?_, by omega, fun _ => ⟨by omega, ?_⟩, ?_⟩
    · rw [hoff, UInt64.toNat_ofNat', Nat.mod_eq_of_lt]
      · omega
      · have := maxLength.toNat_lt
        omega
    · rw [hwr, Nat.add_sub_cancel]
      exact hzero
    · intro x hx hxt
      exact hkept x hx fun t ht => hxt t (by rw [hwr]; exact ht)

/-- A memory with `hi` at the start of the kernel -/
def hiMemory : Memory := fun p => if p = 0xC0001000 then 104 else if p = 0xC0001001 then 105 else 0

theorem hiMemory_laid {untrusted : UInt32} {maxLength : UInt64} (hmax : maxLength.toNat ≤ 4096)
    (h : InUserArea untrusted maxLength.toNat) :
    Laid hiMemory 0xC0004000 0xC0001000 [104, 105] untrusted 0xC0002000 maxLength where
  nonzero := by decide
  string := ⟨fun i hi => by
    match i, hi with
    | 0, _ | 1, _ => rfl, rfl⟩
  stringAt := by decide
  untrustedAt := h
  trustedAt := ⟨by decide, by
    have ht : (0xC0002000 : UInt32).toNat = 3221233664 := rfl
    omega⟩
  slotAt := by decide
  slotTrusted := fun i hi he => by
    have ht : (0xC0002000 : UInt32).toNat = 3221233664 := rfl
    have hp := congrArg UInt32.toNat he
    rw [place_toNat (by omega), ht] at hp
    have hs : (0xC0004000 : UInt32).toNat = 3221241856 := rfl
    omega

/-- Two characters and a buffer of three bytes -/
theorem strings_copied_hi :
    StringsCopied hiMemory 0xC0004000 0xC0001000 [104, 105] 0x08000000 0xC0002000 3 :=
  (strings_copied_iff (hiMemory_laid (by decide) ⟨by decide, by decide⟩)).mpr (by decide)

/--
A buffer of no bytes is stored to, and a string whose terminator would be the last byte of the
user's area is left without one.
-/
theorem strings_not_copied :
    ¬StringsCopied hiMemory 0xC0004000 0xC0001000 [104, 105] 0x08000000 0xC0002000 0 ∧
      ¬StringsCopied hiMemory 0xC0004000 0xC0001000 [104, 105] 0xBFFFFFFD 0xC0002000 3 := by
  constructor
  · intro h
    have hw := (h.read hiMemory).writes
    rw [readString_zero] at hw
    exact absurd hw (by decide)
  · intro h
    exact writes_fails (hiMemory_laid (by decide) ⟨by decide, by decide⟩) (by decide) (by decide)
      h.write.status

end Nolrem.Vfs.Copy
