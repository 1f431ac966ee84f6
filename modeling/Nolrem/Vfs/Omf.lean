import Mathlib.Data.List.Induction
import Nolrem.Vfs.Transfer

/-!
# Mapped files

`kernel/vfs/omf.c`. The cursor of a mapped file may be moved past its end, and then the file is in
error until it is closed. `size_t` and `off_t` are 32 bits wide.
-/

namespace Nolrem.Vfs.Omf

open Copy

/-! ## The code -/

/-- `struct open_mapped_file`; a null `ptr` is 0. -/
structure OpenMappedFile where
  f : Option Nat
  ptr : UInt32
  len : UInt32
  error : Bool
  cursor : UInt32
deriving DecidableEq, Repr

/-- What a call does outside of the structure -/
inductive Effect
  | read (addr : UInt32)
  | freeMemory (ptr len : UInt32)
  | derefObject (f : Nat)
deriving DecidableEq, Repr

/-- What a call leaves -/
structure Outcome (α : Type) where
  value : α
  omf : OpenMappedFile
  effects : List Effect

/--
`OpenAndMapFile` for a path. `file` is what `OpenFile` gives, `size` is `st_size`, and `mapping` is
what `AllocFileMemory` returns.
-/
def openAndMapFile (file : Except Nat Nat) (size mapping : UInt32) : Outcome Nat :=
  let out : OpenMappedFile := { f := none, error := true, ptr := 0, cursor := 0, len := 0 }
  match file with
  | .error res => ⟨res, out, []⟩
  | .ok f =>
    if size ≤ 0 then ⟨einval, out, [.derefObject f]⟩
    else if mapping = 0 then ⟨enomem, { out with len := size }, [.derefObject f]⟩
    else ⟨0, { f := some f, ptr := mapping, len := size, error := false, cursor := 0 }, []⟩

/-- `OmfClose` -/
def omfClose (omf : OpenMappedFile) : Outcome Unit where
  value := ()
  omf := { f := none, ptr := 0, len := 0, error := true, cursor := 0 }
  effects := (if omf.ptr ≠ 0 then [.freeMemory omf.ptr omf.len] else []) ++
    match omf.f with
    | none => []
    | some f => [.derefObject f]

/-- `OmfAdvance` -/
def omfAdvance (omf : OpenMappedFile) (amount : UInt32) : OpenMappedFile :=
  if omf.cursor + amount < omf.cursor then { omf with error := true }
  else
    let cursor := omf.cursor + amount
    { omf with cursor, error := omf.error || decide (omf.len < cursor) }

/-- `OmfJump` -/
def omfJump (omf : OpenMappedFile) (offset : UInt32) : OpenMappedFile :=
  { omf with cursor := offset, error := omf.error || decide (omf.len < offset) }

/-- `ReadUnaligned16LE` -/
def readUnaligned16LE (m : Memory) (p : UInt32) : UInt16 :=
  (m p).toUInt16 ||| (m (p + 1)).toUInt16 <<< 8

/-- `ReadUnaligned32LE` -/
def readUnaligned32LE (m : Memory) (p : UInt32) : UInt32 :=
  (m p).toUInt32 ||| (m (p + 1)).toUInt32 <<< 8 ||| (m (p + 2)).toUInt32 <<< 16 |||
    (m (p + 3)).toUInt32 <<< 24

/-- `ReadUnaligned16BE` -/
def readUnaligned16BE (m : Memory) (p : UInt32) : UInt16 :=
  (m p).toUInt16 <<< 8 ||| (m (p + 1)).toUInt16

/-- `ReadUnaligned32BE` -/
def readUnaligned32BE (m : Memory) (p : UInt32) : UInt32 :=
  (m p).toUInt32 <<< 24 ||| (m (p + 1)).toUInt32 <<< 16 ||| (m (p + 2)).toUInt32 <<< 8 |||
    (m (p + 3)).toUInt32

/-- The bytes that a read of `n` bytes at `p` looks at -/
def bytesRead (p : UInt32) (n : Nat) : List Effect := (List.range n).map fun i => .read (place p i)

/-- A read of `n` bytes, which a file in error or too close to its end does not allow -/
def omfReadWide {α : Type} [OfNat α 0] (value : Memory → UInt32 → α) (n : UInt32) (m : Memory)
    (omf : OpenMappedFile) : Outcome α :=
  if omf.error = true ∨ omf.len < n ∨ omf.len - n < omf.cursor then
    ⟨0, { omf with error := true }, []⟩
  else
    ⟨value m (omf.ptr + omf.cursor), omf, bytesRead (omf.ptr + omf.cursor) n.toNat⟩

/-- `OmfRead8` -/
def omfRead8 (m : Memory) (omf : OpenMappedFile) : Outcome UInt8 :=
  if omf.error = true ∨ omf.len ≤ omf.cursor then ⟨0, { omf with error := true }, []⟩
  else ⟨m (omf.ptr + omf.cursor), omf, bytesRead (omf.ptr + omf.cursor) 1⟩

/-- `OmfRead16LE` -/
def omfRead16LE : Memory → OpenMappedFile → Outcome UInt16 := omfReadWide readUnaligned16LE 2

/-- `OmfRead32LE` -/
def omfRead32LE : Memory → OpenMappedFile → Outcome UInt32 := omfReadWide readUnaligned32LE 4

/-- `OmfRead16BE` -/
def omfRead16BE : Memory → OpenMappedFile → Outcome UInt16 := omfReadWide readUnaligned16BE 2

/-- `OmfRead32BE` -/
def omfRead32BE : Memory → OpenMappedFile → Outcome UInt32 := omfReadWide readUnaligned32BE 4

/-- A read, and then `OmfAdvance` -/
def Outcome.andAdvance {α : Type} (r : Outcome α) (n : UInt32) : Outcome α :=
  { r with omf := omfAdvance r.omf n }

/-- `OmfRead8AndAdvance` -/
def omfRead8AndAdvance (m : Memory) (omf : OpenMappedFile) : Outcome UInt8 :=
  (omfRead8 m omf).andAdvance 1

/-- `OmfRead16AndAdvanceLE` -/
def omfRead16AndAdvanceLE (m : Memory) (omf : OpenMappedFile) : Outcome UInt16 :=
  (omfRead16LE m omf).andAdvance 2

/-- `OmfRead32AndAdvanceLE` -/
def omfRead32AndAdvanceLE (m : Memory) (omf : OpenMappedFile) : Outcome UInt32 :=
  (omfRead32LE m omf).andAdvance 4

/-- `OmfRead16AndAdvanceBE` -/
def omfRead16AndAdvanceBE (m : Memory) (omf : OpenMappedFile) : Outcome UInt16 :=
  (omfRead16BE m omf).andAdvance 2

/-- `OmfRead32AndAdvanceBE` -/
def omfRead32AndAdvanceBE (m : Memory) (omf : OpenMappedFile) : Outcome UInt32 :=
  (omfRead32BE m omf).andAdvance 4

/-! ## Calls -/

/-- The five reads -/
inductive Read
  | read8
  | read16LE
  | read32LE
  | read16BE
  | read32BE
deriving DecidableEq, Repr

inductive Call
  | advance (amount : UInt32)
  | jump (offset : UInt32)
  | read (r : Read)
  | readAndAdvance (r : Read)
  | close
deriving DecidableEq, Repr

/-- What a read returns, as a number -/
def Outcome.number {α : Type} (toNat : α → Nat) (r : Outcome α) : Outcome Nat :=
  { r with value := toNat r.value }

def Read.exec (m : Memory) (omf : OpenMappedFile) : Read → Outcome Nat
  | .read8 => (omfRead8 m omf).number UInt8.toNat
  | .read16LE => (omfRead16LE m omf).number UInt16.toNat
  | .read32LE => (omfRead32LE m omf).number UInt32.toNat
  | .read16BE => (omfRead16BE m omf).number UInt16.toNat
  | .read32BE => (omfRead32BE m omf).number UInt32.toNat

def Read.execAndAdvance (m : Memory) (omf : OpenMappedFile) : Read → Outcome Nat
  | .read8 => (omfRead8AndAdvance m omf).number UInt8.toNat
  | .read16LE => (omfRead16AndAdvanceLE m omf).number UInt16.toNat
  | .read32LE => (omfRead32AndAdvanceLE m omf).number UInt32.toNat
  | .read16BE => (omfRead16AndAdvanceBE m omf).number UInt16.toNat
  | .read32BE => (omfRead32AndAdvanceBE m omf).number UInt32.toNat

/-- A call, and what it returns if it returns something -/
def Call.exec (m : Memory) (omf : OpenMappedFile) : Call → Outcome (Option Nat)
  | .advance amount => ⟨none, omfAdvance omf amount, []⟩
  | .jump offset => ⟨none, omfJump omf offset, []⟩
  | .read r => let out := r.exec m omf; ⟨some out.value, out.omf, out.effects⟩
  | .readAndAdvance r => let out := r.execAndAdvance m omf; ⟨some out.value, out.omf, out.effects⟩
  | .close => let out := omfClose omf; ⟨none, out.omf, out.effects⟩

/-- What a list of calls leaves. Memory may change between two of them. -/
def OpenMappedFile.after (omf : OpenMappedFile) (calls : List (Memory × Call)) : OpenMappedFile :=
  calls.foldl (fun omf c => (c.2.exec c.1 omf).omf) omf

/-! ## What the calls are for -/

/-- How many bytes a read looks at -/
def Read.size : Read → Nat
  | .read8 => 1
  | .read16LE | .read16BE => 2
  | .read32LE | .read32BE => 4

/-- The number that bytes stand for, the least significant one first -/
def littleEndian (bytes : List UInt8) : Nat := bytes.foldr (fun b n => b.toNat + 256 * n) 0

/-- The number that bytes stand for, the most significant one first -/
def bigEndian (bytes : List UInt8) : Nat := bytes.foldl (fun n b => 256 * n + b.toNat) 0

/-- How a read puts its bytes together -/
def Read.decode : Read → List UInt8 → Nat
  | .read8 | .read16LE | .read32LE => littleEndian
  | .read16BE | .read32BE => bigEndian

/-- The bytes of a file from `offset` on -/
def fileBytes (m : Memory) (ptr : UInt32) (offset n : Nat) : List UInt8 :=
  (List.range n).map fun i => m (place ptr (offset + i))

/-- Where the cursor goes, if it may go anywhere -/
def Call.move (position : Nat) : Call → Nat
  | .advance amount => position + amount.toNat
  | .jump offset => offset.toNat
  | .readAndAdvance r => position + r.size
  | .read _ | .close => position

/-- The sum of the moves since the last jump -/
def position (calls : List (Memory × Call)) : Nat := calls.foldl (fun n c => c.2.move n) 0

/-- The call reads a number. -/
def Call.reads (r : Read) (c : Call) : Prop := c = .read r ∨ c = .readAndAdvance r

/-! ## Numbers in memory -/

theorem bigEndian_eq (bytes : List UInt8) : bigEndian bytes = littleEndian bytes.reverse := by
  unfold bigEndian littleEndian
  rw [List.foldr_reverse]
  simp only [Nat.add_comm]

theorem toNat_or_shift16 (low high : UInt8) :
    (low.toUInt16 ||| high.toUInt16 <<< 8).toNat = littleEndian [low, high] := by
  have hl := low.toNat_lt
  have hh := high.toNat_lt
  rw [UInt16.toNat_or, UInt16.toNat_shiftLeft, UInt8.toNat_toUInt16, UInt8.toNat_toUInt16]
  rw [show (8 : UInt16).toNat % 16 = 8 from rfl, Nat.mod_eq_of_lt (by rw [Nat.shiftLeft_eq]; omega)]
  rw [Nat.or_comm, ← Nat.shiftLeft_add_eq_or_of_lt hl, Nat.shiftLeft_eq]
  simp [littleEndian]
  omega

/-- One more byte is put on top of a number of `k` bits. -/
theorem toNat_or_shift32 (word k : UInt32) (byte : UInt8) (hk : k.toNat ≤ 24)
    (h : word.toNat < 2 ^ k.toNat) :
    (word ||| byte.toUInt32 <<< k).toNat = word.toNat + 2 ^ k.toNat * byte.toNat := by
  have hb := byte.toNat_lt
  rw [UInt32.toNat_or, UInt32.toNat_shiftLeft, UInt8.toNat_toUInt32,
    show k.toNat % 32 = k.toNat by omega]
  have hp : 2 ^ k.toNat ≤ 2 ^ 24 := Nat.pow_le_pow_right (by omega) hk
  have hlt : byte.toNat <<< k.toNat < 2 ^ 32 := by
    rw [Nat.shiftLeft_eq]
    calc byte.toNat * 2 ^ k.toNat ≤ 255 * 2 ^ 24 := Nat.mul_le_mul (by omega) hp
      _ < 2 ^ 32 := by decide
  rw [Nat.mod_eq_of_lt hlt, Nat.or_comm, ← Nat.shiftLeft_add_eq_or_of_lt h, Nat.shiftLeft_eq,
    Nat.mul_comm, Nat.add_comm]

theorem toNat_or_shift (b0 b1 b2 b3 : UInt8) :
    (b0.toUInt32 ||| b1.toUInt32 <<< 8 ||| b2.toUInt32 <<< 16 ||| b3.toUInt32 <<< 24).toNat =
      littleEndian [b0, b1, b2, b3] := by
  have l0 := b0.toNat_lt
  have l1 := b1.toNat_lt
  have l2 := b2.toNat_lt
  have h1 : (b0.toUInt32 ||| b1.toUInt32 <<< 8).toNat = b0.toNat + 256 * b1.toNat :=
    toNat_or_shift32 _ 8 b1 (by decide) l0
  have h2 : (b0.toUInt32 ||| b1.toUInt32 <<< 8 ||| b2.toUInt32 <<< 16).toNat =
      _ + 65536 * b2.toNat := toNat_or_shift32 _ 16 b2 (by decide) (show _ < 65536 by omega)
  have h3 :
      (b0.toUInt32 ||| b1.toUInt32 <<< 8 ||| b2.toUInt32 <<< 16 ||| b3.toUInt32 <<< 24).toNat =
        _ + 16777216 * b3.toNat :=
    toNat_or_shift32 _ 24 b3 (by decide) (show _ < 16777216 by omega)
  rw [h3, h2, h1]
  simp [littleEndian]
  omega

theorem toNat_readUnaligned32LE (m : Memory) (p : UInt32) :
    (readUnaligned32LE m p).toNat = littleEndian [m p, m (p + 1), m (p + 2), m (p + 3)] :=
  toNat_or_shift _ _ _ _

theorem toNat_readUnaligned32BE (m : Memory) (p : UInt32) :
    (readUnaligned32BE m p).toNat = bigEndian [m p, m (p + 1), m (p + 2), m (p + 3)] := by
  have h (a b c d : UInt32) : a ||| b ||| c ||| d = d ||| c ||| b ||| a := by ac_rfl
  unfold readUnaligned32BE
  rw [h, toNat_or_shift, bigEndian_eq]
  rfl

theorem toNat_readUnaligned16BE (m : Memory) (p : UInt32) :
    (readUnaligned16BE m p).toNat = bigEndian [m p, m (p + 1)] := by
  rw [bigEndian_eq]
  refine Eq.trans ?_ (toNat_or_shift16 (m (p + 1)) (m p))
  unfold readUnaligned16BE
  rw [UInt16.or_comm]

/-! ## One read -/

namespace OpenMappedFile

variable (omf : OpenMappedFile)

/-- A read of `n` bytes is allowed. -/
def Allows (n : Nat) : Prop := omf.error = false ∧ omf.cursor.toNat + n ≤ omf.len.toNat

theorem place_cursor (i : Nat) :
    place (omf.ptr + omf.cursor) i = place omf.ptr (omf.cursor.toNat + i) := by
  unfold place
  rw [UInt32.ofNat_add, UInt32.ofNat_toNat, UInt32.add_assoc]

theorem fileBytes_cursor (m : Memory) (n : Nat) :
    (List.range n).map (fun i => m (place (omf.ptr + omf.cursor) i)) =
      fileBytes m omf.ptr omf.cursor.toNat n :=
  List.map_congr_left fun i _ => by rw [place_cursor]

end OpenMappedFile

theorem omfReadWide_allowed {α : Type} [OfNat α 0] (value : Memory → UInt32 → α) {n : UInt32}
    (m : Memory) {omf : OpenMappedFile} (h : omf.Allows n.toNat) :
    omfReadWide value n m omf =
      ⟨value m (omf.ptr + omf.cursor), omf, bytesRead (omf.ptr + omf.cursor) n.toNat⟩ := by
  obtain ⟨he, hl⟩ := h
  have hn : n ≤ omf.len := UInt32.le_iff_toNat_le.mpr (by omega)
  refine if_neg ?_
  rintro (hc | hc | hc)
  · rw [he] at hc
    cases hc
  · exact absurd (UInt32.lt_iff_toNat_lt.mp hc) (by omega)
  · rw [UInt32.lt_iff_toNat_lt, UInt32.toNat_sub_of_le _ _ hn] at hc
    omega

theorem omfReadWide_refused {α : Type} [OfNat α 0] (value : Memory → UInt32 → α) {n : UInt32}
    (m : Memory) {omf : OpenMappedFile} (h : ¬omf.Allows n.toNat) :
    omfReadWide value n m omf = ⟨0, { omf with error := true }, []⟩ := by
  refine if_pos ?_
  by_cases he : omf.error = true
  · exact .inl he
  by_cases hn : omf.len < n
  · exact .inr (.inl hn)
  refine .inr (.inr ?_)
  have hl : n ≤ omf.len := UInt32.not_lt.mp hn
  rw [UInt32.lt_iff_toNat_lt, UInt32.toNat_sub_of_le _ _ hl]
  have hle := UInt32.le_iff_toNat_le.mp hl
  have hc : ¬omf.cursor.toNat + n.toNat ≤ omf.len.toNat := fun hc =>
    h ⟨Bool.not_eq_true _ ▸ he, hc⟩
  omega

/-- A read of one byte is like the wider ones. -/
theorem omfRead8_eq (m : Memory) (omf : OpenMappedFile) :
    omfRead8 m omf = omfReadWide (fun m p => m p) 1 m omf := by
  by_cases h : omf.Allows 1
  · rw [omfReadWide_allowed _ m (n := 1) h]
    refine if_neg ?_
    rintro (hc | hc)
    · exact absurd h.1 (by rw [hc]; decide)
    · exact absurd (UInt32.le_iff_toNat_le.mp hc) (by have := h.2; omega)
  · rw [omfReadWide_refused _ m (n := 1) h]
    refine if_pos ?_
    by_cases he : omf.error = true
    · exact .inl he
    refine .inr (UInt32.le_iff_toNat_le.mpr ?_)
    have hc : ¬omf.cursor.toNat + 1 ≤ omf.len.toNat := fun hc => h ⟨Bool.not_eq_true _ ▸ he, hc⟩
    omega

namespace Read

theorem exec_allowed {r : Read} {m : Memory} {omf : OpenMappedFile} (h : omf.Allows r.size) :
    r.exec m omf =
      ⟨r.decode (fileBytes m omf.ptr omf.cursor.toNat r.size), omf,
        bytesRead (omf.ptr + omf.cursor) r.size⟩ := by
  rw [← OpenMappedFile.fileBytes_cursor]
  have h0 (p : UInt32) : place p 0 = p := UInt32.add_zero p
  cases r with
  | read8 =>
    simp only [exec, omfRead8_eq]
    rw [omfReadWide_allowed _ m (n := 1) h]
    simp [Outcome.number, decode, littleEndian, size, List.range_succ, h0]
  | read16LE =>
    simp only [exec, omfRead16LE]
    rw [omfReadWide_allowed _ m (n := 2) h]
    simp only [Outcome.number, readUnaligned16LE, toNat_or_shift16]
    simp [decode, size, List.range_succ, place]
  | read32LE =>
    simp only [exec, omfRead32LE]
    rw [omfReadWide_allowed _ m (n := 4) h]
    simp only [Outcome.number, toNat_readUnaligned32LE]
    simp [decode, size, List.range_succ, place]
  | read16BE =>
    simp only [exec, omfRead16BE]
    rw [omfReadWide_allowed _ m (n := 2) h]
    simp only [Outcome.number, toNat_readUnaligned16BE]
    simp [decode, size, List.range_succ, place]
  | read32BE =>
    simp only [exec, omfRead32BE]
    rw [omfReadWide_allowed _ m (n := 4) h]
    simp only [Outcome.number, toNat_readUnaligned32BE]
    simp [decode, size, List.range_succ, place]

theorem exec_refused {r : Read} {m : Memory} {omf : OpenMappedFile} (h : ¬omf.Allows r.size) :
    r.exec m omf = ⟨0, { omf with error := true }, []⟩ := by
  cases r with
  | read8 =>
    simp only [exec, omfRead8_eq]
    rw [omfReadWide_refused _ m (n := 1) h]
    rfl
  | read16LE | read16BE =>
    simp only [exec, omfRead16LE, omfRead16BE]
    rw [omfReadWide_refused _ m (n := 2) h]
    rfl
  | read32LE | read32BE =>
    simp only [exec, omfRead32LE, omfRead32BE]
    rw [omfReadWide_refused _ m (n := 4) h]
    rfl

theorem execAndAdvance_eq (r : Read) (m : Memory) (omf : OpenMappedFile) :
    r.execAndAdvance m omf = (r.exec m omf).andAdvance (UInt32.ofNat r.size) := by
  cases r <;> rfl

end Read

/-! ## One call -/

/-- The cursor may not leave the file, and a sum that wraps leaves it. -/
theorem omfAdvance_clear {omf : OpenMappedFile} {amount : UInt32} :
    (omfAdvance omf amount).error = false ↔ omf.Allows amount.toNat := by
  have hc := omf.cursor.toNat_lt
  have hl := omf.len.toNat_lt
  unfold OpenMappedFile.Allows omfAdvance
  have hs : (omf.cursor + amount).toNat = (omf.cursor.toNat + amount.toNat) % 4294967296 :=
    UInt32.toNat_add _ _
  by_cases hw : omf.cursor + amount < omf.cursor
  · rw [if_pos hw]
    rw [UInt32.lt_iff_toNat_lt, hs] at hw
    simp only [Bool.true_eq_false, false_iff, not_and]
    omega
  · rw [if_neg hw]
    rw [UInt32.lt_iff_toNat_lt, hs] at hw
    simp only [Bool.or_eq_false_iff, decide_eq_false_iff_not, UInt32.lt_iff_toNat_lt, hs]
    have ha := amount.toNat_lt
    refine and_congr_right fun _ => ?_
    omega

theorem omfAdvance_eq {omf : OpenMappedFile} {amount : UInt32} (h : omf.Allows amount.toNat) :
    omfAdvance omf amount = { omf with cursor := omf.cursor + amount } := by
  have hc := omfAdvance_clear.mpr h
  obtain ⟨he, hl⟩ := h
  unfold omfAdvance at hc ⊢
  split at hc
  · cases hc
  · rename_i hw
    rw [if_neg hw]
    simp only at hc ⊢
    rw [hc, he]

theorem toNat_cursor_add {omf : OpenMappedFile} {amount : UInt32} (h : omf.Allows amount.toNat) :
    (omf.cursor + amount).toNat = omf.cursor.toNat + amount.toNat := by
  have hl := omf.len.toNat_lt
  have ha := h.2
  rw [UInt32.toNat_add, Nat.mod_eq_of_lt (by omega)]

theorem omfAdvance_error {omf : OpenMappedFile} (amount : UInt32) (h : omf.error = true) :
    (omfAdvance omf amount).error = true := by
  by_contra hc
  rw [Bool.not_eq_true, omfAdvance_clear] at hc
  exact absurd hc.1 (by rw [h]; decide)

theorem Read.toNat_size (r : Read) : (UInt32.ofNat r.size).toNat = r.size := by
  cases r <;> rfl

namespace Call

variable {m : Memory} {omf : OpenMappedFile} {r : Read} {c : Call}

theorem exec_allowed (hc : c.reads r) (h : omf.Allows r.size) :
    (c.exec m omf).value = some (r.decode (fileBytes m omf.ptr omf.cursor.toNat r.size)) ∧
      (c.exec m omf).omf.error = false ∧
      (c.exec m omf).effects = bytesRead (omf.ptr + omf.cursor) r.size := by
  rcases hc with rfl | rfl
  · simp only [exec, Read.exec_allowed h, and_true, true_and]
    exact h.1
  · simp only [exec, Read.execAndAdvance_eq, Read.exec_allowed h, Outcome.andAdvance, and_true,
      true_and]
    exact omfAdvance_clear.mpr (by rw [Read.toNat_size]; exact h)

theorem exec_refused (hc : c.reads r) (h : ¬omf.Allows r.size) :
    (c.exec m omf).value = some 0 ∧ (c.exec m omf).omf.error = true ∧
      (c.exec m omf).effects = [] := by
  rcases hc with rfl | rfl
  · simp only [exec, Read.exec_refused h, and_self]
  · simp only [exec, Read.execAndAdvance_eq, Read.exec_refused h, Outcome.andAdvance, and_true,
      true_and]
    exact omfAdvance_error _ rfl

/-- An error is not taken back. -/
theorem exec_error (c : Call) (m : Memory) (h : omf.error = true) :
    (c.exec m omf).omf.error = true := by
  have hn (n : Nat) : ¬omf.Allows n := fun ha => absurd ha.1 (by rw [h]; decide)
  cases c with
  | advance amount => exact omfAdvance_error amount h
  | jump offset => simp [exec, omfJump, h]
  | read r => exact (exec_refused (.inl rfl) (hn _)).2.1
  | readAndAdvance r => exact (exec_refused (.inr rfl) (hn _)).2.1
  | close => rfl

/-- Only reads read. -/
theorem reads_of_effect {addr : UInt32} (h : .read addr ∈ (c.exec m omf).effects) :
    ∃ r, c.reads r ∧ omf.Allows r.size ∧ ∃ i < r.size, addr = place (omf.ptr + omf.cursor) i := by
  have hr {r : Read} (hc : c.reads r) : ∃ r, c.reads r ∧ omf.Allows r.size ∧
      ∃ i < r.size, addr = place (omf.ptr + omf.cursor) i := by
    by_cases ha : omf.Allows r.size
    · rw [(exec_allowed hc ha).2.2] at h
      obtain ⟨i, hi, he⟩ := List.mem_map.mp h
      exact ⟨r, hc, ha, i, List.mem_range.mp hi, (Effect.read.inj he).symm⟩
    · rw [(exec_refused hc ha).2.2] at h
      cases h
  cases c with
  | advance amount => cases h
  | jump offset => cases h
  | read r => exact hr (.inl rfl)
  | readAndAdvance r => exact hr (.inr rfl)
  | close =>
    simp only [exec, omfClose, List.mem_append] at h
    rcases h with h | h
    · split at h <;> simp at h
    · split at h <;> simp at h

end Call

/-! ## Runs -/

theorem position_append (calls : List (Memory × Call)) (m : Memory) (c : Call) :
    position (calls ++ [(m, c)]) = c.move (position calls) := by
  rw [position, List.foldl_append]
  rfl

theorem OpenMappedFile.after_append (omf : OpenMappedFile) (calls : List (Memory × Call))
    (m : Memory) (c : Call) :
    omf.after (calls ++ [(m, c)]) = (c.exec m (omf.after calls)).omf := by
  rw [OpenMappedFile.after, List.foldl_append]
  rfl

/-- While there is no error, the file is the mapping and its cursor is where the moves lead. -/
structure Tracks (mapping size : UInt32) (calls : List (Memory × Call)) (omf : OpenMappedFile) :
    Prop where
  ptr : omf.ptr = mapping
  len : omf.len = size
  cursor : omf.cursor.toNat = position calls
  opened : ∀ c ∈ calls, c.2 ≠ .close

theorem Tracks.exec {mapping size : UInt32} {calls : List (Memory × Call)} {omf : OpenMappedFile}
    (h : omf.error = false → Tracks mapping size calls omf) (m : Memory) (c : Call)
    (hc : (c.exec m omf).omf.error = false) :
    Tracks mapping size (calls ++ [(m, c)]) (c.exec m omf).omf := by
  have he : omf.error = false := by
    by_contra hn
    rw [Bool.not_eq_false] at hn
    exact absurd (Call.exec_error c m hn) (by rw [hc]; decide)
  obtain ⟨hp, hl, hcur, hop⟩ := h he
  have hop' (hne : c ≠ .close) : ∀ d ∈ calls ++ [(m, c)], d.2 ≠ .close := by
    intro d hd
    rcases List.mem_append.mp hd with hd | hd
    · exact hop d hd
    · rw [List.mem_singleton.mp hd]
      exact hne
  have hmove := position_append calls m c
  rw [← hcur] at hmove
  cases c with
  | advance amount =>
    have ha := omfAdvance_clear.mp hc
    simp only [Call.exec, omfAdvance_eq ha]
    exact ⟨hp, hl, by rw [hmove]; exact toNat_cursor_add ha, hop' Call.noConfusion⟩
  | jump offset => exact ⟨hp, hl, hmove.symm, hop' Call.noConfusion⟩
  | read r =>
    have ha : omf.Allows r.size := by
      by_contra hn
      exact absurd (Call.exec_refused (m := m) (.inl rfl) hn).2.1 (by rw [hc]; decide)
    simp only [Call.exec, Read.exec_allowed ha]
    exact ⟨hp, hl, hmove.symm, hop' Call.noConfusion⟩
  | readAndAdvance r =>
    have ha : omf.Allows r.size := by
      by_contra hn
      exact absurd (Call.exec_refused (m := m) (.inr rfl) hn).2.1 (by rw [hc]; decide)
    have ha' : omf.Allows (UInt32.ofNat r.size).toNat := by
      rw [Read.toNat_size]
      exact ha
    simp only [Call.exec, Read.execAndAdvance_eq, Read.exec_allowed ha, Outcome.andAdvance,
      omfAdvance_eq ha']
    refine ⟨hp, hl, ?_, hop' Call.noConfusion⟩
    rw [hmove, toNat_cursor_add ha', Read.toNat_size]
    rfl
  | close => cases hc

/-- A file that could be opened is at its start. -/
theorem openAndMapFile_tracks (file : Except Nat Nat) (size mapping : UInt32)
    (h : (openAndMapFile file size mapping).omf.error = false) :
    Tracks mapping size [] (openAndMapFile file size mapping).omf := by
  unfold openAndMapFile at h ⊢
  split at h
  · cases h
  split at h
  · cases h
  split at h
  · cases h
  rename_i hs hm
  rw [if_neg hs, if_neg hm]
  exact ⟨rfl, rfl, rfl, fun _ hc => absurd hc List.not_mem_nil⟩

theorem tracks_after (file : Except Nat Nat) (size mapping : UInt32)
    (calls : List (Memory × Call)) :
    ((openAndMapFile file size mapping).omf.after calls).error = false →
      Tracks mapping size calls ((openAndMapFile file size mapping).omf.after calls) := by
  induction calls using List.reverseRecOn with
  | nil => exact openAndMapFile_tracks file size mapping
  | append_singleton calls c ih =>
    rw [OpenMappedFile.after_append]
    exact Tracks.exec ih c.1 c.2

theorem after_error {omf : OpenMappedFile} (h : omf.error = true) (calls : List (Memory × Call)) :
    (omf.after calls).error = true := by
  induction calls using List.reverseRecOn with
  | nil => exact h
  | append_singleton calls c ih =>
    rw [OpenMappedFile.after_append]
    exact Call.exec_error c.2 c.1 ih

/--
**A mapped file is read inside of its mapping only, and an error is never lost.**

`omf` is the file after any calls, and `c` is the next one.
-/
theorem omf_reads_sound (file : Except Nat Nat) (size mapping : UInt32)
    (calls : List (Memory × Call)) (m : Memory) (c : Call) :
    let omf := (openAndMapFile file size mapping).omf.after calls
    let out := c.exec m omf
    (∀ addr, .read addr ∈ out.effects →
        (∀ d ∈ calls, d.2 ≠ .close) ∧ ∃ i < size.toNat, addr = place mapping i) ∧
      (omf.error = true → (∀ later, (omf.after later).error = true) ∧
        ∀ r, c.reads r → out.value = some 0) ∧
      (omf.error = false → omf.cursor.toNat = position calls ∧
        ∀ r, c.reads r →
          if position calls + r.size ≤ size.toNat then
            out.value = some (r.decode (fileBytes m mapping (position calls) r.size)) ∧
              out.omf.error = false
          else out.value = some 0 ∧ out.omf.error = true) := by
  intro omf out
  have ht := tracks_after file size mapping calls
  refine ⟨?_, ?_, ?_⟩
  · intro addr ha
    obtain ⟨r, -, hal, i, hi, rfl⟩ := Call.reads_of_effect ha
    obtain ⟨hp, hl, -, hop⟩ := ht hal.1
    refine ⟨hop, omf.cursor.toNat + i, ?_, ?_⟩
    · rw [← hl]
      exact Nat.lt_of_lt_of_le (Nat.add_lt_add_left hi _) hal.2
    · rw [OpenMappedFile.place_cursor, hp]
  · intro he
    refine ⟨after_error he, fun r hr => (Call.exec_refused hr fun ha => ?_).1⟩
    exact absurd ha.1 (by rw [he]; decide)
  · intro he
    obtain ⟨hp, hl, hcur, -⟩ := ht he
    refine ⟨hcur, fun r hr => ?_⟩
    by_cases ha : omf.Allows r.size
    · obtain ⟨hv, hc, -⟩ := Call.exec_allowed (m := m) hr ha
      rw [hp, hcur] at hv
      have hle := ha.2
      rw [hcur, hl] at hle
      rw [if_pos hle]
      exact ⟨hv, hc⟩
    · obtain ⟨hv, hc, -⟩ := Call.exec_refused (m := m) hr ha
      rw [if_neg fun hle => ha ⟨he, by rw [hcur, hl]; exact hle⟩]
      exact ⟨hv, hc⟩

example : (Call.exec UInt32.toUInt8
    ((openAndMapFile (.ok 7) 4 0x1000).omf.after [(UInt32.toUInt8, .advance 1)])
    (.read .read16LE)).value = some 513 := by decide

end Nolrem.Vfs.Omf
