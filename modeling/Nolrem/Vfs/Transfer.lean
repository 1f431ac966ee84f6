import Mathlib.Algebra.GroupWithZero.Nat
import Nolrem.Lib.Copy
import Nolrem.Vfs.Name

/-!
# Transfers

`kernel/vfs/transfer.c`: bytes are moved between a buffer of the kernel and an address that may come
from a user, and the transfer remembers how far it is.
-/

namespace Nolrem.Vfs.Copy

open Lib

/-! ## Memory -/

/-- The byte at each address -/
abbrev Memory := UInt32 → UInt8

/-- The addresses from `p` on -/
def place (p : UInt32) (i : Nat) : UInt32 := p + UInt32.ofNat i

/-- `memmove` -/
def memmove (m : Memory) (dst src : UInt32) (n : Nat) : Memory :=
  if dst ≤ src then copyUp (place dst) (place src) n m else copyDown (place dst) (place src) n m

/-- `memcpy` -/
def memcpy (m : Memory) (dst src : UInt32) (n : Nat) : Memory := copyUp (place dst) (place src) n m

/-! ## The code -/

inductive TransferType
  | intraKernel
  | usermode
deriving DecidableEq, Repr

inductive TransferDirection
  | read
  | write
deriving DecidableEq, Repr

/-- `struct transfer`. Whether it may block is of no concern here. -/
structure Transfer where
  address : UInt32
  lengthRemaining : UInt64
  offset : UInt64
  direction : TransferDirection
  type : TransferType
deriving DecidableEq, Repr

/-- `ARCH_USER_AREA_BASE` -/
def archUserAreaBase : UInt32 := 0x08000000

/-- `ARCH_USER_AREA_LIMIT` -/
def archUserAreaLimit : UInt32 := 0xC0000000

/-- `ValidateCopy`, which does not look at the access that is asked for -/
def validateCopy (userAddr size : UInt32) : Nat :=
  let finalAddress := userAddr + size
  if userAddr < archUserAreaBase ∨ archUserAreaLimit ≤ userAddr then einval
  else if finalAddress < userAddr then einval
  else if finalAddress < archUserAreaBase ∨ archUserAreaLimit ≤ finalAddress then einval
  else 0

/-- `CopyIntoKernel` -/
def copyIntoKernel (m : Memory) (kernelAddr userAddr size : UInt32) : Nat × Memory :=
  let status := validateCopy userAddr size
  if status ≠ 0 then (status, m) else (0, memcpy m kernelAddr userAddr size.toNat)

/-- `CopyOutOfKernel` -/
def copyOutOfKernel (m : Memory) (kernelAddr userAddr size : UInt32) : Nat × Memory :=
  let status := validateCopy userAddr size
  if status ≠ 0 then (status, m) else (0, memcpy m userAddr kernelAddr size.toNat)

namespace Transfer

/-- The transfer goes on by `amount` bytes. -/
def moved (io : Transfer) (amount : UInt64) : Transfer :=
  { io with
    lengthRemaining := io.lengthRemaining - amount
    offset := io.offset + amount
    address := io.address + amount.toUInt32 }

/-- `RevertTransfer` -/
def revertTransfer (io : Transfer) (amount : UInt64) : Transfer :=
  { io with
    lengthRemaining := io.lengthRemaining + amount
    offset := io.offset - amount
    address := io.address - amount.toUInt32 }

/-- What `PerformTransfer` does with memory -/
def copy (io : Transfer) (m : Memory) (trusted amount : UInt32) : Nat × Memory :=
  match io.type, io.direction with
  | .intraKernel, .read => (0, memmove m io.address trusted amount.toNat)
  | .intraKernel, .write => (0, memmove m trusted io.address amount.toNat)
  | .usermode, .read => copyOutOfKernel m trusted io.address amount
  | .usermode, .write => copyIntoKernel m trusted io.address amount

end Transfer

/-- `PerformTransfer`. The amount is a `size_t`, which is the low half of the least length. -/
def performTransfer (m : Memory) (trusted : UInt32) (io : Transfer) (len : UInt64) :
    Nat × Memory × Transfer :=
  if io.address = 0 then (einval, m, io)
  else
    let amount := (if len < io.lengthRemaining then len else io.lengthRemaining).toUInt32
    if amount = 0 then (0, m, io)
    else
      let (result, m) := io.copy m trusted amount
      if result ≠ 0 then (result, m, io) else (0, m, io.moved amount.toUInt64)

/-- A copy in several calls, each of which goes on where the last one stopped -/
def performTransfers (m : Memory) (trusted : UInt32) (io : Transfer) :
    List UInt64 → Nat × Memory × Transfer
  | [] => (0, m, io)
  | len :: lens =>
    let (result, m, io) := performTransfer m trusted io len
    if result ≠ 0 then (result, m, io)
    else performTransfers m (trusted + len.toUInt32) io lens

/-! ## What one call does -/

namespace Transfer

variable (io : Transfer)

/-- How many bytes a call copies -/
def count (len : UInt64) : Nat := min len.toNat io.lengthRemaining.toNat

/-- Where the bytes come from -/
def source (trusted : UInt32) : UInt32 :=
  match io.direction with
  | .read => trusted
  | .write => io.address

/-- Where the bytes go to -/
def destination (trusted : UInt32) : UInt32 :=
  match io.direction with
  | .read => io.address
  | .write => trusted

/-- `n` bytes may be copied: the address is none of the user's outside of its area. -/
structure Allowed (n : Nat) : Prop where
  address : io.address ≠ 0
  user : n ≠ 0 → io.type = .usermode →
    archUserAreaBase ≤ io.address ∧ io.address.toNat + n < archUserAreaLimit.toNat

end Transfer

/-- `n` bytes at `p` do not run past the end of memory. -/
def Whole (p : UInt32) (n : Nat) : Prop := p.toNat + n < 4294967296

/-- `n` bytes at `p` and `n` bytes at `q` do not overlap. -/
def Apart (p q : UInt32) (n : Nat) : Prop := ∀ i < n, ∀ j < n, place p i ≠ place q j

/-- The bytes are copied. -/
abbrev CopiedBytes (dst src : UInt32) (n : Nat) (m m' : Memory) : Prop :=
  Copied (place dst) (place src) n m m'

/-! ### Copying -/

theorem place_toNat {p : UInt32} {i : Nat} (h : p.toNat + i < 4294967296) :
    (place p i).toNat = p.toNat + i := by
  rw [place, UInt32.toNat_add, UInt32.toNat_ofNat']
  omega

theorem place_add (p : UInt32) (n i : Nat) : place (p + UInt32.ofNat n) i = place p (n + i) := by
  rw [place, place, UInt32.ofNat_add, UInt32.add_assoc]

theorem place_distinct {p : UInt32} {n : Nat} (hn : n ≤ 4294967296) : Distinct (place p) n := by
  intro i hi j hj h
  have hij := congrArg UInt32.toNat ((UInt32.add_right_inj p).mp h)
  rw [UInt32.toNat_ofNat', UInt32.toNat_ofNat'] at hij
  omega

variable {m m' : Memory} {dst src trusted : UInt32} {n : Nat} {io io' : Transfer} {len : UInt64}

/-- Overlapping bytes are copied as they were, in one call. -/
theorem memmove_copied (hn : n < 4294967296)
    (h : Apart dst src n ∨ Whole dst n ∧ Whole src n) :
    CopiedBytes dst src n m (memmove m dst src n) := by
  have hdst : Distinct (place dst) n := place_distinct (by omega)
  unfold memmove
  split
  · next hle =>
    refine copyUp_copied hdst fun j hj i hi he => ?_
    rcases h with h | ⟨hd, hs⟩
    · exact h i (by omega) j hj he
    · have hij := congrArg UInt32.toNat he
      rw [UInt32.le_iff_toNat_le] at hle
      unfold Whole at hd hs
      rw [place_toNat (by omega), place_toNat (by omega)] at hij
      omega
  · next hle =>
    refine copyDown_copied hdst fun j hj i hi he => ?_
    rcases h with h | ⟨hd, hs⟩
    · exact h j hj i (by omega) he
    · have hij := congrArg UInt32.toNat he
      rw [UInt32.le_iff_toNat_le] at hle
      unfold Whole at hd hs
      rw [place_toNat (by omega), place_toNat (by omega)] at hij
      omega

theorem memcpy_copied (hn : n < 4294967296) (h : Apart dst src n) :
    CopiedBytes dst src n m (memcpy m dst src n) :=
  copyUp_copied (place_distinct (by omega)) fun j hj i hi => h i (by omega) j hj

theorem Apart.symm (h : Apart dst src n) : Apart src dst n :=
  fun i hi j hj he => h j hj i hi he.symm

/-! ### Checking -/

theorem validateCopy_eq_zero_iff (userAddr size : UInt32) :
    validateCopy userAddr size = 0 ↔
      archUserAreaBase ≤ userAddr ∧ userAddr.toNat + size.toNat < archUserAreaLimit.toNat := by
  have hbase : archUserAreaBase.toNat = 134217728 := rfl
  have hlimit : archUserAreaLimit.toNat = 3221225472 := rfl
  have ha := userAddr.toNat_lt
  have hs := size.toNat_lt
  unfold validateCopy
  simp only [UInt32.lt_iff_toNat_lt, UInt32.le_iff_toNat_le, UInt32.toNat_add, hbase, hlimit]
  split_ifs with h₁ h₂ h₃
  · exact iff_of_false (by decide) (by omega)
  · exact iff_of_false (by decide) (by omega)
  · exact iff_of_false (by decide) (by omega)
  · exact iff_of_true rfl (by omega)

/-- The status of a copy between two places -/
theorem copy_status (io : Transfer) (m : Memory) (trusted amount : UInt32) :
    (io.copy m trusted amount).1 = 0 ↔
      (io.type = .usermode → archUserAreaBase ≤ io.address ∧
        io.address.toNat + amount.toNat < archUserAreaLimit.toNat) := by
  rw [← validateCopy_eq_zero_iff]
  unfold Transfer.copy copyOutOfKernel copyIntoKernel
  split
  · next h _ => simp [h]
  · next h _ => simp [h]
  all_goals
    next h _ =>
      simp only [h, forall_const, ne_eq]
      split_ifs with hs
      · rw [hs]
      · exact iff_of_false hs hs

/-! ### One call -/

/-- The buffers allow a copy in one call: they do not overlap, or `memmove` copies. -/
def Transfer.Copyable (io : Transfer) (trusted : UInt32) (n : Nat) : Prop :=
  Apart io.address trusted n ∨
    io.type = .intraKernel ∧ Whole io.address n ∧ Whole trusted n

/-- `n` bytes were copied if `P` holds, and the transfer went on by as many. -/
structure Done (P : Prop) (m : Memory) (trusted : UInt32) (io : Transfer) (n : Nat)
    (r : Nat × Memory × Transfer) : Prop where
  status : r.1 = 0
  copied : P → CopiedBytes (io.destination trusted) (io.source trusted) n m r.2.1
  moved : r.2.2 = io.moved (UInt64.ofNat n)

theorem Transfer.moved_zero (io : Transfer) : io.moved 0 = io := by
  simp [Transfer.moved]

/-- A call that copies nothing -/
theorem Done.zero {P : Prop} : Done P m trusted io 0 (0, m, io) where
  status := rfl
  copied := fun _ => Copied.zero
  moved := io.moved_zero.symm

/-- The least length as a `size_t` -/
theorem amount_toNat (hn : io.count len < 4294967296) :
    (if len < io.lengthRemaining then len else io.lengthRemaining).toUInt32.toNat =
      io.count len := by
  rw [UInt64.toNat_toUInt32]
  unfold Transfer.count at hn ⊢
  split
  · next h =>
    rw [UInt64.lt_iff_toNat_lt] at h
    omega
  · next h =>
    rw [UInt64.lt_iff_toNat_lt] at h
    omega

theorem toUInt64_eq_ofNat (amount : UInt32) : amount.toUInt64 = UInt64.ofNat amount.toNat := by
  apply UInt64.toNat_inj.mp
  have := amount.toNat_lt
  rw [UInt32.toNat_toUInt64, UInt64.toNat_ofNat']
  omega

/-- Copying `amount` bytes, when that is allowed -/
theorem copy_copied (amount : UInt32)
    (hs : (io.copy m trusted amount).1 = 0) (h : io.Copyable trusted amount.toNat) :
    CopiedBytes (io.destination trusted) (io.source trusted) amount.toNat m
      (io.copy m trusted amount).2 := by
  have hlt : amount.toNat < 4294967296 := amount.toNat_lt
  unfold Transfer.Copyable at h
  unfold Transfer.copy at hs ⊢
  unfold Transfer.destination Transfer.source
  split at hs
  · next ht hd =>
    rw [hd]
    exact memmove_copied hlt (h.imp_right And.right)
  · next ht hd =>
    rw [hd]
    exact memmove_copied hlt (h.imp Apart.symm fun h => h.2.symm)
  · next ht hd =>
    have hapart := h.resolve_right fun h => by simp [ht] at h
    unfold copyOutOfKernel at hs ⊢
    dsimp only at hs ⊢
    split_ifs at hs ⊢ with hv
    · exact absurd hs hv
    · rw [hd]
      exact memcpy_copied hlt hapart
  · next ht hd =>
    have hapart := h.resolve_right fun h => by simp [ht] at h
    unfold copyIntoKernel at hs ⊢
    dsimp only at hs ⊢
    split_ifs at hs ⊢ with hv
    · exact absurd hs hv
    · rw [hd]
      exact memcpy_copied hlt hapart.symm

/-- A call that fails leaves memory as it was. -/
theorem copy_fails (amount : UInt32) (hs : (io.copy m trusted amount).1 ≠ 0) :
    (io.copy m trusted amount).2 = m := by
  unfold Transfer.copy copyOutOfKernel copyIntoKernel at hs ⊢
  split at hs
  · exact absurd rfl hs
  · exact absurd rfl hs
  all_goals
    dsimp only at hs ⊢
    split_ifs at hs ⊢ with hv
    · rfl
    · exact absurd rfl hs

theorem performTransfer_done (m : Memory) (trusted : UInt32) (hn : io.count len < 4294967296)
    (h : io.Allowed (io.count len)) :
    Done (io.Copyable trusted (io.count len)) m trusted io (io.count len)
      (performTransfer m trusted io len) := by
  have hamount := amount_toNat hn
  unfold performTransfer
  rw [if_neg h.address]
  dsimp only
  generalize UInt64.toUInt32 _ = amount at hamount ⊢
  rw [← hamount] at h ⊢
  split_ifs with h0 hr
  · rw [h0]
    exact Done.zero
  · -- what is allowed does not fail
    refine absurd ((copy_status io m trusted amount).mpr fun hu => ?_) hr
    exact h.user (fun h => h0 (UInt32.toNat_inj.mp h)) hu
  · rw [not_not] at hr
    exact ⟨rfl, copy_copied amount hr, by rw [toUInt64_eq_ofNat]⟩

theorem performTransfer_fails (m : Memory) (trusted : UInt32) (hn : io.count len < 4294967296)
    (h : ¬ io.Allowed (io.count len)) :
    ∃ status, status ≠ 0 ∧ performTransfer m trusted io len = (status, m, io) := by
  have hamount := amount_toNat hn
  unfold performTransfer
  by_cases ha : io.address = 0
  · exact ⟨einval, by decide, if_pos ha⟩
  rw [if_neg ha]
  dsimp only
  generalize UInt64.toUInt32 _ = amount at hamount ⊢
  rw [← hamount] at h
  split_ifs with h0 hr
  · exact (h ⟨ha, fun hne => absurd (by rw [h0]; rfl) hne⟩).elim
  · exact ⟨_, hr, by rw [copy_fails amount hr]⟩
  · rw [not_not, copy_status] at hr
    exact (h ⟨ha, fun _ => hr⟩).elim

/-- A call succeeds when it may copy. -/
theorem performTransfer_status (m : Memory) (trusted : UInt32) (hn : io.count len < 4294967296) :
    (performTransfer m trusted io len).1 = 0 ↔ io.Allowed (io.count len) := by
  constructor
  · intro h
    by_contra hna
    obtain ⟨status, hs, he⟩ := performTransfer_fails m trusted hn hna
    rw [he] at h
    exact hs h
  · intro h
    exact (performTransfer_done m trusted hn h).status

/-! ### Several calls -/

theorem CopiedBytes.comp {k : Nat} {m₁ m₂ : Memory} (hn : n + k < 4294967296)
    (hapart : Apart dst src (n + k)) (h₁ : CopiedBytes dst src n m m₁)
    (h₂ : CopiedBytes (dst + UInt32.ofNat n) (src + UInt32.ofNat n) k m₁ m₂) :
    CopiedBytes dst src (n + k) m m₂ := by
  refine Copied.comp h₁ ?_ (place_distinct (by omega)) fun i hi j hj =>
    hapart i (by omega) (n + j) (by omega)
  have hd : (fun i => place dst (n + i)) = place (dst + UInt32.ofNat n) :=
    funext fun i => (place_add dst n i).symm
  have hs : (fun i => place src (n + i)) = place (src + UInt32.ofNat n) :=
    funext fun i => (place_add src n i).symm
  rw [hd, hs]
  exact h₂

namespace Transfer

variable (io)

theorem moved_moved (a b : UInt64) : (io.moved a).moved b = io.moved (a + b) := by
  simp only [moved, UInt64.toUInt32_add, UInt32.add_assoc, UInt64.add_assoc, Transfer.mk.injEq,
    true_and, and_true]
  rw [UInt64.sub_eq_add_neg _ a, UInt64.sub_eq_add_neg _ b, UInt64.sub_eq_add_neg _ (a + b),
    UInt64.neg_add, UInt64.sub_eq_add_neg, UInt64.add_assoc]

theorem moved_destination (n : Nat) :
    (io.moved (UInt64.ofNat n)).destination (trusted + UInt32.ofNat n) =
      io.destination trusted + UInt32.ofNat n := by
  cases h : io.direction with
  | read => simp only [destination, moved, h, UInt64.toUInt32_ofNat']
  | write => simp only [destination, moved, h]

theorem moved_source (n : Nat) :
    (io.moved (UInt64.ofNat n)).source (trusted + UInt32.ofNat n) =
      io.source trusted + UInt32.ofNat n := by
  cases h : io.direction with
  | read => simp only [source, moved, h]
  | write => simp only [source, moved, h, UInt64.toUInt32_ofNat']

/-- What remains after some bytes -/
theorem moved_lengthRemaining (h : n ≤ io.lengthRemaining.toNat) :
    (io.moved (UInt64.ofNat n)).lengthRemaining.toNat = io.lengthRemaining.toNat - n := by
  have := io.lengthRemaining.toNat_lt
  have hn : (UInt64.ofNat n).toNat = n := by
    rw [UInt64.toNat_ofNat']
    omega
  rw [moved, UInt64.toNat_sub_of_le _ _ (UInt64.le_iff_toNat_le.mpr (by omega)), hn]

theorem moved_address (h : Whole io.address n) :
    (io.moved (UInt64.ofNat n)).address.toNat = io.address.toNat + n := by
  unfold Whole at h
  rw [moved, UInt64.toUInt32_ofNat', UInt32.toNat_add, UInt32.toNat_ofNat']
  omega

theorem revert_moved (a : UInt64) : (io.moved a).revertTransfer a = io := by
  simp only [moved, revertTransfer, UInt64.sub_add_cancel, UInt64.add_sub_cancel,
    UInt32.add_sub_cancel]

end Transfer

theorem Apart.destination_source (h : Apart io.address trusted n) :
    Apart (io.destination trusted) (io.source trusted) n := by
  unfold Transfer.destination Transfer.source
  split
  · exact h
  · exact h.symm

theorem Apart.initial {k : Nat} (h : Apart dst src (n + k)) : Apart dst src n :=
  fun i hi j hj => h i (by omega) j (by omega)

theorem Apart.rest {k : Nat} (h : Apart dst src (n + k)) :
    Apart (dst + UInt32.ofNat n) (src + UInt32.ofNat n) k := by
  intro i hi j hj
  rw [place_add, place_add]
  exact h (n + i) (by omega) (n + j) (by omega)

/-- Copies that are allowed are whole. -/
theorem Transfer.Allowed.whole (h : io.Allowed n)
    (hin : io.type = .intraKernel → Whole io.address n) : Whole io.address n := by
  cases ht : io.type with
  | intraKernel => exact hin ht
  | usermode =>
    have hlimit : archUserAreaLimit.toNat = 3221225472 := rfl
    have ha := io.address.toNat_lt
    unfold Whole
    by_cases h0 : n = 0
    · omega
    · have := (h.user h0 ht).2
      omega

/-- What is allowed may be cut in two. -/
theorem Transfer.allowed_add_iff {k : Nat} (hn : n + k < 4294967296)
    (hin : io.type = .intraKernel → Whole io.address (n + k)) :
    io.Allowed (n + k) ↔ io.Allowed n ∧ (io.moved (UInt64.ofNat n)).Allowed k := by
  have hbase : archUserAreaBase.toNat = 134217728 := rfl
  constructor
  · intro h
    have hw := h.whole hin
    have hmoved := io.moved_address (n := n) (by unfold Whole at hw ⊢; omega)
    have hne : io.address.toNat ≠ 0 := fun h0 => h.address (UInt32.toNat_inj.mp h0)
    refine ⟨⟨h.address, fun h0 hu => ?_⟩, ?_, fun h0 hu => ?_⟩
    · obtain ⟨hb, hl⟩ := h.user (by omega) hu
      exact ⟨hb, by omega⟩
    · intro h0
      have := congrArg UInt32.toNat h0
      rw [hmoved] at this
      exact hne (by simp at this; omega)
    · obtain ⟨hb, hl⟩ := h.user (by omega) hu
      rw [UInt32.le_iff_toNat_le] at hb ⊢
      omega
  · rintro ⟨h₁, h₂⟩
    have hw := h₁.whole fun ht => by have := hin ht; unfold Whole at this ⊢; omega
    have hmoved := io.moved_address hw
    refine ⟨h₁.address, fun h0 hu => ?_⟩
    by_cases hk : k = 0
    · obtain ⟨hb, hl⟩ := h₁.user (by omega) hu
      exact ⟨hb, by omega⟩
    · obtain ⟨hb, hl⟩ := h₂.user hk hu
      by_cases hn0 : n = 0
      · subst hn0
        rw [UInt32.le_iff_toNat_le] at hb ⊢
        omega
      · have := h₁.user hn0 hu
        exact ⟨this.1, by omega⟩

/-- How many bytes some calls copy together -/
def Transfer.countAll (io : Transfer) (lens : List UInt64) : Nat :=
  min (lens.map UInt64.toNat).sum io.lengthRemaining.toNat

theorem Transfer.countAll_cons (lens : List UInt64) :
    io.countAll (len :: lens) =
      io.count len + (io.moved (UInt64.ofNat (io.count len))).countAll lens := by
  have hle : io.count len ≤ io.lengthRemaining.toNat := Nat.min_le_right ..
  unfold countAll
  rw [io.moved_lengthRemaining hle, List.map_cons, List.sum_cons]
  unfold count
  omega

/-- The second part of a copy -/
theorem Done.append {k : Nat} {m₁ : Memory} {r : Nat × Memory × Transfer}
    (hn : n + k < 4294967296)
    (h₁ : Done (io.Copyable trusted n) m trusted io n (0, m₁, io.moved (UInt64.ofNat n)))
    (h₂ : Done (Apart (io.moved (UInt64.ofNat n)).address (trusted + UInt32.ofNat n) k) m₁
      (trusted + UInt32.ofNat n) (io.moved (UInt64.ofNat n)) k r) :
    Done (Apart io.address trusted (n + k)) m trusted io (n + k) r := by
  refine ⟨h₂.status, fun h => ?_, ?_⟩
  · have hrest : Apart (io.moved (UInt64.ofNat n)).address (trusted + UInt32.ofNat n) k := by
      unfold Transfer.moved
      rw [UInt64.toUInt32_ofNat']
      exact h.rest
    have hcopy := h₂.copied hrest
    rw [Transfer.moved_destination, Transfer.moved_source] at hcopy
    exact CopiedBytes.comp hn h.destination_source (h₁.copied (Or.inl h.initial)) hcopy
  · rw [h₂.moved, Transfer.moved_moved, UInt64.ofNat_add]

/-- Where the buffer of a part without bytes lies does not matter. -/
theorem Done.of_zero {trusted' : UInt32} {r : Nat × Memory × Transfer}
    (h : Done (Apart io.address trusted 0) m trusted io 0 r) :
    Done (Apart io.address trusted' 0) m trusted' io 0 r where
  status := h.status
  copied := fun _ => by
    have hcopy := h.copied fun i hi => by omega
    rw [← Copied.unique Copied.zero hcopy]
    exact Copied.zero
  moved := h.moved

/-- A call of several, when its bytes are allowed -/
theorem performTransfers_cons (m : Memory) (trusted : UInt32) (lens : List UInt64)
    (hn : io.count len < 4294967296) (h : io.Allowed (io.count len)) :
    ∃ m₁, Done (io.Copyable trusted (io.count len)) m trusted io (io.count len)
        (0, m₁, io.moved (UInt64.ofNat (io.count len))) ∧
      performTransfers m trusted io (len :: lens) =
        performTransfers m₁ (trusted + len.toUInt32)
          (io.moved (UInt64.ofNat (io.count len))) lens := by
  have hdone := performTransfer_done m trusted hn h
  obtain ⟨hs, hc, hm⟩ := hdone
  rw [performTransfers]
  generalize performTransfer m trusted io len = r at hs hc hm
  obtain ⟨status, m₁, io₁⟩ := r
  obtain rfl : status = 0 := hs
  obtain rfl : io₁ = _ := hm
  exact ⟨m₁, ⟨rfl, hc, rfl⟩, rfl⟩

theorem performTransfers_done (m : Memory) (trusted : UInt32) (lens : List UInt64)
    (hn : io.countAll lens < 4294967296)
    (hin : io.type = .intraKernel → Whole io.address (io.countAll lens))
    (h : io.Allowed (io.countAll lens)) :
    Done (Apart io.address trusted (io.countAll lens)) m trusted io (io.countAll lens)
      (performTransfers m trusted io lens) := by
  induction lens generalizing m trusted io with
  | nil =>
    have h0 : io.countAll [] = 0 := Nat.zero_min _
    rw [h0]
    exact Done.zero
  | cons len lens ih =>
    rw [Transfer.countAll_cons] at hn hin h ⊢
    obtain ⟨h₁, h₂⟩ := (Transfer.allowed_add_iff hn hin).mp h
    have hw := h.whole hin
    obtain ⟨m₁, hdone, heq⟩ :=
      performTransfers_cons m trusted lens (by omega) h₁
    rw [heq]
    refine Done.append hn hdone ?_
    have hrest := ih m₁ (trusted + len.toUInt32) (by omega) (fun _ => ?_) h₂
    · by_cases hall : len.toNat ≤ io.lengthRemaining.toNat
      · -- all of this part was copied
        have hlen : UInt32.ofNat (io.count len) = len.toUInt32 := by
          rw [Transfer.count, Nat.min_eq_left hall, ← UInt64.toUInt32_ofNat', UInt64.ofNat_toNat]
        rwa [hlen]
      · -- nothing is left for the others
        have h0 : (io.moved (UInt64.ofNat (io.count len))).countAll lens = 0 := by
          have hle : io.count len ≤ io.lengthRemaining.toNat := Nat.min_le_right ..
          rw [Transfer.countAll, io.moved_lengthRemaining hle, Transfer.count]
          omega
        rw [h0] at hrest ⊢
        exact hrest.of_zero
    · unfold Whole at hw ⊢
      rw [io.moved_address (by unfold Whole; omega)]
      omega

/-- Calls that all succeed copy what is allowed. -/
theorem performTransfers_allowed (m : Memory) (trusted : UInt32) (lens : List UInt64)
    (hne : lens ≠ []) (hn : io.countAll lens < 4294967296)
    (hin : io.type = .intraKernel → Whole io.address (io.countAll lens))
    (h : (performTransfers m trusted io lens).1 = 0) : io.Allowed (io.countAll lens) := by
  induction lens generalizing m trusted io with
  | nil => exact absurd rfl hne
  | cons len lens ih =>
    rw [Transfer.countAll_cons] at hn hin ⊢
    by_cases h₁ : io.Allowed (io.count len)
    · obtain ⟨m₁, -, heq⟩ :=
        performTransfers_cons m trusted lens (by omega) h₁
      rw [heq] at h
      have hw : Whole io.address (io.count len) := h₁.whole fun ht => by
        have := hin ht
        unfold Whole at this ⊢
        omega
      by_cases hl : lens = []
      · have h0 : (io.moved (UInt64.ofNat (io.count len))).countAll lens = 0 := by
          rw [hl]
          exact Nat.zero_min _
        rwa [h0]
      · refine (Transfer.allowed_add_iff hn hin).mpr ⟨h₁, ih _ _ hl (by omega) (fun ht => ?_) h⟩
        have := hin ht
        unfold Whole at this ⊢
        rw [io.moved_address hw]
        omega
    · obtain ⟨status, hs, he⟩ :=
        performTransfer_fails m trusted (by omega) h₁
      rw [performTransfers, he] at h
      dsimp only at h
      rw [if_pos hs] at h
      exact absurd h hs

/-! ## Transfers stay in bounds -/

/-- The bytes lie in the area of the user. -/
def InUserArea (p : UInt32) (n : Nat) : Prop :=
  archUserAreaBase ≤ p ∧ p.toNat + n ≤ archUserAreaLimit.toNat

/--
What a call of `PerformTransfer` for less than `2 ^ 32` bytes does. A user's bytes are touched in
its area only; a call that fails changes nothing; one that succeeds copies the bytes and can be
taken back; and if the two buffers do not overlap, it may be cut into any calls that follow each
other.
-/
theorem perform_transfer_bounds_undo (m : Memory) (trusted : UInt32) (io : Transfer)
    (len : UInt64) (hn : io.count len < 4294967296) :
    let n := io.count len
    let (status, m', io') := performTransfer m trusted io len
    (io.type = .usermode → m' ≠ m ∨ io' ≠ io → InUserArea io.address n) ∧
    (status ≠ 0 → m' = m ∧ io' = io) ∧
    (status = 0 →
      (io.Copyable trusted n →
        CopiedBytes (io.destination trusted) (io.source trusted) n m m') ∧
      io' = { io with
        address := io.address + UInt32.ofNat n
        offset := io.offset + UInt64.ofNat n
        lengthRemaining := io.lengthRemaining - UInt64.ofNat n } ∧
      io'.revertTransfer (UInt64.ofNat n) = io) ∧
    ∀ lens ≠ [], (lens.map UInt64.toNat).sum = len.toNat → Apart io.address trusted n →
      (io.type = .intraKernel → Whole io.address n) →
      let (status', m'', io'') := performTransfers m trusted io lens
      (status' = 0 ↔ status = 0) ∧ (status = 0 → m'' = m' ∧ io'' = io') := by
  have hstatus := performTransfer_status m trusted hn
  have hfails := performTransfer_fails m trusted hn
  have hdone := performTransfer_done m trusted hn
  generalize performTransfer m trusted io len = r at hstatus hfails hdone ⊢
  obtain ⟨status, m', io'⟩ := r
  dsimp only at hstatus ⊢
  have hkeeps : status ≠ 0 → m' = m ∧ io' = io := by
    intro hs
    obtain ⟨_, -, he⟩ := hfails fun h => hs (hstatus.mpr h)
    simp only [Prod.mk.injEq] at he
    exact he.2
  refine ⟨fun hu hch => ?_, hkeeps, fun hs => ?_, fun lens hne hsum hap hin => ?_⟩
  · -- only a copy that was allowed changes anything
    have hs : status = 0 := by
      by_contra hs
      obtain ⟨hm, hio⟩ := hkeeps hs
      exact hch.elim (fun h => h hm) fun h => h hio
    have hallowed := hstatus.mp hs
    by_cases h0 : io.count len = 0
    · have hd := hdone hallowed
      rw [h0] at hd
      have hm : m' = m := Copied.unique (hd.copied (Or.inl fun i hi => by omega)) Copied.zero
      have hio : io' = io := hd.moved.trans io.moved_zero
      exact hch.elim (fun h => (h hm).elim) fun h => (h hio).elim
    · obtain ⟨hb, hl⟩ := hallowed.user h0 hu
      exact ⟨hb, Nat.le_of_lt hl⟩
  · obtain ⟨-, hc, hm⟩ := hdone (hstatus.mp hs)
    obtain rfl : io' = _ := hm
    refine ⟨hc, ?_, io.revert_moved _⟩
    rw [Transfer.moved, UInt64.toUInt32_ofNat']
  · have hcount : io.countAll lens = io.count len := by
      rw [Transfer.countAll, Transfer.count, hsum]
    have hall := performTransfers_done m trusted lens
      (by rw [hcount]; exact hn) (by rw [hcount]; exact hin)
    have hallowed := performTransfers_allowed m trusted lens hne
      (by rw [hcount]; exact hn) (by rw [hcount]; exact hin)
    rw [hcount] at hall hallowed
    refine ⟨⟨fun h => hstatus.mpr (hallowed h), fun h => (hall (hstatus.mp h)).status⟩, ?_⟩
    intro hs
    have h₁ := hdone (hstatus.mp hs)
    have h₂ := hall (hstatus.mp hs)
    exact ⟨Copied.unique (h₂.copied hap) (h₁.copied (Or.inl hap)), h₂.moved.trans h₁.moved.symm⟩


/-- A read of two bytes to the first address of the user -/
def userRead : Transfer := ⟨archUserAreaBase, 2, 0, .read, .usermode⟩

theorem perform_transfer_bounds_undo_userRead :
    performTransfers (fun x => x.toUInt8) 64 userRead [1, 1] =
        performTransfer (fun x => x.toUInt8) 64 userRead 2 ∧
      (performTransfer (fun x => x.toUInt8) 64 userRead 2).1 = 0 := by
  have hs : (performTransfer (fun x => x.toUInt8) 64 userRead 2).1 = 0 := by decide +kernel
  obtain ⟨-, -, -, hsplit⟩ :=
    perform_transfer_bounds_undo (fun x => x.toUInt8) 64 userRead 2 (by decide +kernel)
  obtain ⟨hiff, heq⟩ := hsplit [1, 1] (by decide) (by decide +kernel) (by
    show ∀ i < 2, ∀ j < 2, place archUserAreaBase i ≠ place 64 j
    decide +kernel) fun h => nomatch h
  obtain ⟨hm, hio⟩ := heq hs
  exact ⟨Prod.ext ((hiff.mpr hs).trans hs.symm) (Prod.ext hm hio), hs⟩

/-- A read of two bytes to the address behind the first of them -/
def overlappingRead : Transfer := ⟨101, 2, 0, .read, .intraKernel⟩

/-- In the kernel buffers may overlap, and then a second call reads what the first one wrote. -/
theorem performTransfers_overlap :
    ∃ lens : List UInt64, lens ≠ [] ∧ (lens.map UInt64.toNat).sum = 2 ∧
      (performTransfer (fun x => x.toUInt8) 100 overlappingRead 2).1 = 0 ∧
      (performTransfers (fun x => x.toUInt8) 100 overlappingRead lens).1 = 0 ∧
      (performTransfers (fun x => x.toUInt8) 100 overlappingRead lens).2.1 ≠
        (performTransfer (fun x => x.toUInt8) 100 overlappingRead 2).2.1 := by
  refine ⟨[1, 1], by decide, by decide +kernel, by decide +kernel, by decide +kernel, fun h => ?_⟩
  have hbyte := congrFun h 102
  revert hbyte
  decide +kernel

end Nolrem.Vfs.Copy
