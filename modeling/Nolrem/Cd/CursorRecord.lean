import Mathlib.Data.List.GetD
import Mathlib.Logic.Function.Basic
import Mathlib.Tactic.Common
import Nolrem.Cd.Mouse

/-!
# Reading the records of cursor files

`FindCursorRecord`, the decoding of `ApplyCursorRecord` and `CdSetCursor` of
`kernel/CLIPDRAW/mouse.c`, with every byte that they read and every row that they write.
-/

namespace Nolrem.Cd

/-! ## The code -/

/-- `ReadUnaligned16`, `none` outside the file -/
def readUnaligned16 (data : List Nat) (i : Nat) : Option Nat := do
  let low ← data[i]?
  let high ← data[i + 1]?
  some (low + 256 * high)

/-- `ReadUnaligned32AndAdvanceLE`, `none` outside the file -/
def readUnaligned32 (data : List Nat) (i : Nat) : Option Nat := do
  let low ← readUnaligned16 data i
  let high ← readUnaligned16 data (i + 2)
  some (low + 65536 * high)

/-- `FindCursorRecord` from its look at the offset of the record on -/
def checkRecord (data : List Nat) (entry : Nat) : Option (Except Errno (Nat × Bool)) :=
  let offset := entry % 32768
  if offset = 0 then some (.error .enoent)
  else if data.length < offset + 4 then some (.error .einval)
  else do
    let lines ← data[offset + 2]?
    let flags ← data[offset + 3]?
    if 32 < lines then some (.error .einval)
    else if 32 < flags % 64 then some (.error .einval)
    else if data.length < offset + 4 + lines * rowBytes (flags % 64) * layerCount flags then
      some (.error .einval)
    else some (.ok (offset, entry / 32768 % 2 = 1))

/-- `FindCursorRecord`: where the record is, and `flip_vt`; `none` for a read outside the file. -/
def findRecord (data : List Nat) (cursorIndex : Nat) : Option (Except Errno (Nat × Bool)) :=
  if data.length < 8 ∨ maxCursorIds ≤ cursorIndex then some (.error .einval)
  else do
    let magic ← [0, 1, 2, 3].mapM fun i => data[i]?
    if magic ≠ [67, 85, 82, 0] then some (.error .einval)
    else do
      let numCurs ← data[4]?
      if numCurs = 0 ∨ maxCursorIds < numCurs then some (.error .einval)
      else if data.length < 8 + 2 * numCurs then some (.error .einval)
      else if numCurs ≤ cursorIndex then some (.error .einval)
      else do
        let entry ← readUnaligned16 data (8 + cursorIndex * 2)
        checkRecord data entry

/-- The variables that hold the decoded cursor -/
structure CursorVars where
  hotspotX : Int
  hotspotY : Int
  width : Nat
  lines : Nat
  /-- `decoded_current_cursor_black` -/
  black : List Nat
  /-- `decoded_current_cursor_white` -/
  white : List Nat

/-- A row of a layer, as it is in the file -/
def readRow (data : List Nat) (use32 : Bool) (ptr : Nat) : Option Nat :=
  if use32 then readUnaligned32 data ptr else (readUnaligned16 data ptr).map (· * 65536)

/-- `out[k] = data`, `none` outside the array -/
def storeRow (out : List Nat) (k row : Nat) : Option (List Nat) :=
  if k < out.length then some (out.set k row) else none

/-- The row of the array for the `i`-th row of the file, and the other way round. -/
def flipRow (flipVt : Bool) (lines i : Nat) : Nat := if flipVt then lines - 1 - i else i

/-- The loop over the rows of a layer from the `i`-th on; `n` of them are left. -/
def decodeRows (data : List Nat) (use32 flipVt : Bool) (lines : Nat) :
    Nat → Nat → Nat → List Nat → Option (Nat × List Nat)
  | _, 0, ptr, out => some (ptr, out)
  | i, n + 1, ptr, out => do
    let row ← readRow data use32 ptr
    let out ← storeRow out (flipRow flipVt lines i) row
    decodeRows data use32 flipVt lines (i + 1) n (ptr + if use32 then 4 else 2) out

/-- A layer, which the record may lack. -/
def decodeLayer (data : List Nat) (has use32 flipVt : Bool) (lines ptr : Nat) (out : List Nat) :
    Option (Nat × List Nat) :=
  if has then decodeRows data use32 flipVt lines 0 lines ptr out else some (ptr, out)

/--
The decoding of `ApplyCursorRecord`; `none` for a read outside the file and for a write outside the
arrays.
-/
def applyRecord (data : List Nat) (rec : Nat) (flipVt : Bool) (vars : CursorVars) :
    Option CursorVars := do
  let lines ← data[rec + 2]?
  let flags ← data[rec + 3]?
  let width := flags % 64
  let black := List.replicate vars.black.length 0
  let white := List.replicate vars.white.length 0
  let (ptr, black) ←
    decodeLayer data (flags / 128 % 2 = 1) (17 ≤ width) flipVt lines (rec + 4) black
  let (_, white) ← decodeLayer data (flags / 64 % 2 = 1) (17 ≤ width) flipVt lines ptr white
  let hotspotX ← data[rec]?
  let hotspotY ← data[rec + 1]?
  some
    { hotspotX := Int.bmod hotspotX 256
      hotspotY := Int.bmod hotspotY 256
      width := width
      lines := lines
      black := black
      white := white }

/-- The variables of `mouse.c` that are about the shape, and the references to the cursors. -/
structure CursorState where
  vars : CursorVars
  /-- `prev_cursor` and `prev_cursor_index` -/
  prev : Option (Nat × Nat)
  /-- `pending_cursor`, `pending_cursor_record` and `pending_cursor_flip_vt` -/
  pending : Option (Nat × Nat × Bool)
  refs : Nat → Int

namespace CursorState

/-- `RefObject` -/
def refObject (s : CursorState) (cur : Nat) : CursorState :=
  { s with refs := Function.update s.refs cur (s.refs cur + 1) }

/-- `DerefObject` -/
def derefObject (s : CursorState) (cur : Nat) : CursorState :=
  { s with refs := Function.update s.refs cur (s.refs cur - 1) }

/-- `ApplyPendingCursor`, where the file of each cursor is `files` -/
def applyPending (files : Nat → List Nat) (s : CursorState) : Option CursorState :=
  match s.pending with
  | none => some s
  | some (cur, rec, flipVt) => do
    let vars ← applyRecord (files cur) rec flipVt s.vars
    some ({ s with
      vars := vars
      pending := none }.derefObject cur)

/-- `DerefObject`, unless there is no object -/
def derefOld (s : CursorState) : Option Nat → CursorState
  | none => s
  | some cur => s.derefObject cur

/-- What `CdSetCursor` does with a record: at once, if it `acquired` the lock. -/
def useRecord (files : Nat → List Nat) (s : CursorState) (acquired : Bool) (cur rec : Nat)
    (flipVt : Bool) : Option CursorState :=
  if acquired then do
    let s ← s.applyPending files
    let vars ← applyRecord (files cur) rec flipVt s.vars
    some { s with vars := vars }
  else
    some ({ s.refObject cur with pending := some (cur, rec, flipVt) }.derefOld
      (s.pending.map Prod.fst))

/-- `CdSetCursor`: the state, and the error if any. -/
def setCursor (files : Nat → List Nat) (s : CursorState) (acquired : Bool) (cur : Option Nat)
    (cursorIndex : Nat) : Option (CursorState × Option Errno) :=
  match cur with
  | none => some (s, some .einval)
  | some cur =>
    if s.prev = some (cur, cursorIndex) then some (s, none)
    else do
      let found ← findRecord (files cur) cursorIndex
      match found with
      | .error err => some ((s.refObject cur).derefObject cur, some err)
      | .ok (rec, flipVt) =>
        let used ←
          { s.refObject cur with prev := some (cur, cursorIndex) }.useRecord files acquired cur rec
            flipVt
        some (used.derefOld (s.prev.map Prod.fst), none)

end CursorState

/-! ## Finding a record -/

section Find

variable {data : List Nat} {i cursorIndex : Nat}

theorem getElem?_eq_byteAt (h : i < data.length) : data[i]? = some (byteAt data i) := by
  unfold byteAt
  rw [List.getD_eq_getElem _ _ h]
  exact List.getElem?_eq_getElem h

theorem readUnaligned16_eq (h : i + 2 ≤ data.length) :
    readUnaligned16 data i = some (read16 data i) := by
  unfold readUnaligned16
  rw [getElem?_eq_byteAt (by omega), getElem?_eq_byteAt (by omega)]
  rfl

theorem readUnaligned32_eq (h : i + 4 ≤ data.length) :
    readUnaligned32 data i = some (read32 data i) := by
  unfold readUnaligned32
  rw [readUnaligned16_eq (by omega), readUnaligned16_eq (by omega)]
  rfl

/-- The record that `FindCursorRecord` returns, if it is at `offset`. -/
def foundAt (data : List Nat) : Except Errno (Nat × Bool) → Except Errno (List Nat × Bool)
  | .error err => .error err
  | .ok (offset, flipVt) => .ok (data.drop offset, flipVt)

/-- A record that lies in the file, as `FindCursorRecord` checks it. -/
structure RecordFits (data : List Nat) (rec : Nat) : Prop where
  header : rec + 4 ≤ data.length
  lines : byteAt data (rec + 2) ≤ 32
  width : byteAt data (rec + 3) % 64 ≤ 32
  rows : rec + 4 + byteAt data (rec + 2) * rowBytes (byteAt data (rec + 3) % 64) *
    layerCount (byteAt data (rec + 3)) ≤ data.length

theorem findRecord_spec (data : List Nat) (cursorIndex : Nat) :
    ∃ found, findRecord data cursorIndex = some found ∧
      foundAt data found = findCursorRecord data cursorIndex ∧
      ∀ rec flipVt, found = .ok (rec, flipVt) → RecordFits data rec := by
  have hrefuse (err : Errno) : ∃ found : Except Errno (Nat × Bool), some (.error err) = some found ∧
      foundAt data found = .error err ∧
      ∀ rec flipVt, found = .ok (rec, flipVt) → RecordFits data rec :=
    ⟨_, rfl, rfl, fun _ _ h => nomatch h⟩
  unfold findRecord findCursorRecord
  by_cases hshort : data.length < 8 ∨ maxCursorIds ≤ cursorIndex
  · rw [if_pos hshort, if_pos hshort]
    exact hrefuse _
  obtain ⟨hlen, -⟩ := not_or.mp hshort
  have htake : data.take 4 = [byteAt data 0, byteAt data 1, byteAt data 2, byteAt data 3] := by
    match data, hlen with
    | _ :: _ :: _ :: _ :: _, _ => rfl
    | [_, _, _], h | [_, _], h | [_], h | [], h => simp at h
  have hmagic : ([0, 1, 2, 3].mapM fun i => data[i]?) =
      some [byteAt data 0, byteAt data 1, byteAt data 2, byteAt data 3] := by
    rw [List.mapM_cons, List.mapM_cons, List.mapM_cons, List.mapM_cons, List.mapM_nil,
      getElem?_eq_byteAt (by omega), getElem?_eq_byteAt (by omega), getElem?_eq_byteAt (by omega),
      getElem?_eq_byteAt (by omega)]
    rfl
  rw [if_neg hshort, if_neg hshort, hmagic, htake, Option.bind_eq_bind, Option.bind_some]
  by_cases hcur : [byteAt data 0, byteAt data 1, byteAt data 2, byteAt data 3] ≠ [67, 85, 82, 0]
  · rw [if_pos hcur, if_pos hcur]
    exact hrefuse _
  rw [if_neg hcur, if_neg hcur, getElem?_eq_byteAt (by omega), Option.bind_eq_bind,
    Option.bind_some]
  dsimp only
  by_cases hnum : byteAt data 4 = 0 ∨ maxCursorIds < byteAt data 4
  · rw [if_pos hnum, if_pos hnum]
    exact hrefuse _
  rw [if_neg hnum, if_neg hnum]
  by_cases hdir : data.length < 8 + 2 * byteAt data 4
  · rw [if_pos hdir, if_pos hdir]
    exact hrefuse _
  rw [if_neg hdir, if_neg hdir]
  by_cases hindex : byteAt data 4 ≤ cursorIndex
  · rw [if_pos hindex, if_pos hindex]
    exact hrefuse _
  rw [if_neg hindex, if_neg hindex, readUnaligned16_eq (by omega), Option.bind_some]
  unfold checkRecord
  generalize read16 data (8 + cursorIndex * 2) = entry
  dsimp only
  by_cases hzero : entry % 32768 = 0
  · rw [if_pos hzero, if_pos hzero]
    exact hrefuse _
  rw [if_neg hzero, if_neg hzero]
  by_cases hheader : data.length < entry % 32768 + 4
  · rw [if_pos hheader, if_pos hheader]
    exact hrefuse _
  rw [if_neg hheader, if_neg hheader, getElem?_eq_byteAt (by omega),
    getElem?_eq_byteAt (by omega), Option.bind_eq_bind, Option.bind_some, Option.bind_some]
  split_ifs with hlines hwidth hrows
  · exact hrefuse _
  · exact hrefuse _
  · exact hrefuse _
  refine ⟨_, rfl, rfl, fun rec flipVt h => ?_⟩
  obtain ⟨rfl, -⟩ := Prod.mk.inj (Except.ok.inj h)
  exact ⟨Nat.not_lt.mp hheader, Nat.not_lt.mp hlines, Nat.not_lt.mp hwidth, Nat.not_lt.mp hrows⟩

end Find

/-! ## Decoding a record -/

section Decode

variable {data : List Nat} {use32 flipVt : Bool} {lines i ptr k n : Nat} {out : List Nat}

/-- The bytes of a row -/
def rowSize (use32 : Bool) : Nat := if use32 then 4 else 2

/-- The row at `ptr` of the file -/
def fileRow (data : List Nat) (use32 : Bool) (ptr : Nat) : Nat :=
  if use32 then read32 data ptr else read16 data ptr * 65536

theorem readRow_eq (h : ptr + rowSize use32 ≤ data.length) :
    readRow data use32 ptr = some (fileRow data use32 ptr) := by
  unfold readRow fileRow
  cases use32 with
  | true =>
    rw [if_pos rfl, if_pos rfl]
    exact readUnaligned32_eq h
  | false =>
    rw [if_neg Bool.false_ne_true, if_neg Bool.false_ne_true, readUnaligned16_eq h]
    rfl

theorem flipRow_lt (flipVt : Bool) (h : i < lines) : flipRow flipVt lines i < lines := by
  unfold flipRow
  split_ifs <;> omega

theorem flipRow_flipRow (flipVt : Bool) (h : i < lines) :
    flipRow flipVt lines (flipRow flipVt lines i) = i := by
  unfold flipRow
  split_ifs <;> omega

/-- The array that has the rows of the file from `ptr` on, from the `i`-th row of the layer on. -/
def withRows (data : List Nat) (use32 flipVt : Bool) (lines i ptr : Nat) (out : List Nat) :
    List Nat :=
  (List.range out.length).map fun k =>
    if k < lines ∧ i ≤ flipRow flipVt lines k then
      fileRow data use32 (ptr + (flipRow flipVt lines k - i) * rowSize use32)
    else out.getD k 0

theorem length_withRows : (withRows data use32 flipVt lines i ptr out).length = out.length := by
  simp [withRows]

/-- The induction is on the rows that are left: the next row of the file is stored first. -/
theorem decodeRows_eq (hn : i + n = lines) (hptr : ptr + n * rowSize use32 ≤ data.length)
    (hout : lines ≤ out.length) :
    decodeRows data use32 flipVt lines i n ptr out =
      some (ptr + n * rowSize use32, withRows data use32 flipVt lines i ptr out) := by
  induction n generalizing i ptr out with
  | zero =>
    refine congrArg some (Prod.ext (by simp)
      (List.ext_getElem (by simp [withRows]) fun k h _ => ?_))
    have hnone : ¬(k < lines ∧ i ≤ flipRow flipVt lines k) := fun ⟨hk, hle⟩ =>
      absurd (flipRow_lt flipVt hk) (by omega)
    simp only [withRows, List.getElem_map, List.getElem_range]
    rw [if_neg hnone, List.getD_eq_getElem _ _ h]
  | succ n ih =>
    have hi : i < lines := by omega
    rw [Nat.succ_mul] at hptr
    have hstore : storeRow out (flipRow flipVt lines i) (fileRow data use32 ptr) =
        some (out.set (flipRow flipVt lines i) (fileRow data use32 ptr)) :=
      if_pos (Nat.lt_of_lt_of_le (flipRow_lt flipVt hi) hout)
    rw [decodeRows, readRow_eq (by omega), Option.bind_eq_bind, Option.bind_some, hstore,
      Option.bind_eq_bind, Option.bind_some]
    show decodeRows data use32 flipVt lines (i + 1) n (ptr + rowSize use32) _ = _
    rw [ih (by omega) (by omega) (by rwa [List.length_set])]
    refine congrArg some (Prod.ext (by rw [Nat.succ_mul]; omega)
      (List.ext_getElem (by simp [withRows]) fun k h _ => ?_))
    rw [length_withRows, List.length_set] at h
    simp only [withRows, List.getElem_map, List.getElem_range]
    by_cases hk : k < lines ∧ i + 1 ≤ flipRow flipVt lines k
    · have hsub : flipRow flipVt lines k - i = flipRow flipVt lines k - (i + 1) + 1 := by omega
      rw [if_pos hk, if_pos ⟨hk.1, by omega⟩, hsub, Nat.succ_mul]
      congr 1
      omega
    · rw [if_neg hk]
      by_cases hlast : k < lines ∧ i ≤ flipRow flipVt lines k
      · -- the row that is stored now
        have hrow : flipRow flipVt lines k = i := by
          have := hlast.2
          have := not_and.mp hk hlast.1
          omega
        have hk' : flipRow flipVt lines i = k := by
          rw [← hrow]
          exact flipRow_flipRow flipVt hlast.1
        rw [if_pos hlast, hrow, hk', Nat.sub_self, Nat.zero_mul, Nat.add_zero,
          List.getD_eq_getElem _ _ (by rwa [List.length_set]), List.getElem_set_self]
      · have hne : flipRow flipVt lines i ≠ k := fun h => hlast (by
          rw [← h]
          exact ⟨flipRow_lt flipVt hi, Nat.le_of_eq (flipRow_flipRow flipVt hi).symm⟩)
        rw [if_neg hlast, List.getD_eq_getElem _ _ (by rwa [List.length_set]),
          List.getElem_set_ne hne, List.getD_eq_getElem _ _ h]

/-- An array of 32 rows, zero behind those of a list. -/
def padded (rows : List Nat) : List Nat := (List.range 32).map fun k => rows.getD k 0

/-- The variables after the decoding of a cursor, whatever was in them. -/
def CursorVars.ofShape (shape : Shape) : CursorVars :=
  { hotspotX := shape.hotspotX
    hotspotY := shape.hotspotY
    width := shape.width
    lines := shape.lines
    black := padded shape.black
    white := padded shape.white }

theorem byteAt_drop (rec i : Nat) : byteAt (data.drop rec) i = byteAt data (rec + i) := by
  unfold byteAt
  rw [List.getD_eq_getElem?_getD, List.getD_eq_getElem?_getD, List.getElem?_drop]

theorem read16_drop (rec i : Nat) : read16 (data.drop rec) i = read16 data (rec + i) := by
  unfold read16
  rw [byteAt_drop, byteAt_drop, Nat.add_assoc]

theorem read32_drop (rec i : Nat) : read32 (data.drop rec) i = read32 data (rec + i) := by
  unfold read32
  rw [read16_drop, read16_drop, Nat.add_assoc]

theorem recordRow_drop (rec width k : Nat) : recordRow (data.drop rec) width k =
    fileRow data (17 ≤ width) (rec + 4 + k * rowSize (17 ≤ width)) := by
  unfold recordRow fileRow rowSize
  by_cases hwidth : 17 ≤ width
  · rw [if_pos hwidth, if_pos (by simpa using hwidth), if_pos (by simpa using hwidth), read32_drop,
      show rec + (4 + 4 * k) = rec + 4 + k * 4 by omega]
  · rw [if_neg hwidth, if_neg (by simpa using hwidth), if_neg (by simpa using hwidth), read16_drop,
      show rec + (4 + 2 * k) = rec + 4 + k * 2 by omega]

theorem rowBytes_eq (width : Nat) : rowBytes width = rowSize (17 ≤ width) := by
  unfold rowBytes rowSize
  by_cases hwidth : 17 ≤ width
  · rw [if_pos hwidth, if_pos (by simpa using hwidth)]
  · rw [if_neg hwidth, if_neg (by simpa using hwidth)]

/-- A layer in the array, from its `start`-th row in the record on. -/
theorem withRows_eq_padded {rec width start : Nat}
    (hptr : ptr = rec + 4 + start * rowSize (17 ≤ width)) :
    withRows data (17 ≤ width) flipVt lines 0 ptr (List.replicate 32 0) =
      padded (recordLayer (data.drop rec) width lines start flipVt) := by
  unfold withRows padded
  rw [List.length_replicate]
  refine List.map_congr_left fun k hk => ?_
  have hzero : (List.replicate 32 0).getD k 0 = 0 := by
    rw [List.getD_eq_getElem _ _ (by simpa using hk), List.getElem_replicate]
  rw [hzero, Nat.sub_zero]
  have hlen : (recordLayer (data.drop rec) width lines start flipVt).length = lines := by
    unfold recordLayer
    split_ifs <;> simp
  by_cases hlt : k < lines
  · have hrow : fileRow data (17 ≤ width) (ptr + flipRow flipVt lines k * rowSize (17 ≤ width)) =
        recordRow (data.drop rec) width (start + flipRow flipVt lines k) := by
      rw [recordRow_drop, hptr, Nat.add_mul, Nat.add_assoc]
    rw [if_pos ⟨hlt, Nat.zero_le _⟩, List.getD_eq_getElem _ _ (by rwa [hlen]), hrow]
    unfold recordLayer flipRow
    cases flipVt with
    | true =>
      simp
    | false =>
      simp
  · rw [if_neg fun h => hlt h.1, List.getD_eq_default _ _ (by omega)]

theorem decodeLayer_eq {has : Bool} (hptr : ptr + lines * rowSize use32 * has.toNat ≤ data.length)
    (hout : lines ≤ out.length) :
    decodeLayer data has use32 flipVt lines ptr out =
      some (ptr + lines * rowSize use32 * has.toNat,
        if has then withRows data use32 flipVt lines 0 ptr out else out) := by
  cases has with
  | true =>
    rw [Bool.toNat_true, Nat.mul_one] at hptr ⊢
    exact decodeRows_eq (Nat.zero_add lines) hptr hout
  | false => rfl

theorem padded_nil : padded [] = List.replicate 32 0 := by decide

/--
A record that fits in the file is decoded, and nothing is left of what was in the arrays before.
-/
theorem applyRecord_eq {rec : Nat} (h : RecordFits data rec) {vars : CursorVars}
    (hblack : vars.black.length = 32) (hwhite : vars.white.length = 32) :
    applyRecord data rec flipVt vars =
      some (CursorVars.ofShape (decodeRecord (data.drop rec) flipVt)) := by
  have hheader := h.header
  have hrows := h.rows
  have hlines := h.lines
  unfold applyRecord
  rw [getElem?_eq_byteAt (by omega), getElem?_eq_byteAt (by omega), getElem?_eq_byteAt (by omega),
    getElem?_eq_byteAt (by omega), Option.bind_eq_bind, Option.bind_some, Option.bind_some, hblack,
    hwhite]
  unfold CursorVars.ofShape decodeRecord
  simp only [byteAt_drop]
  generalize byteAt data (rec + 2) = lines at *
  generalize byteAt data (rec + 3) = flags at *
  have hbit (bit : Nat) : bit % 2 = (decide (bit % 2 = 1)).toNat := by
    rcases Nat.mod_two_eq_zero_or_one bit with h | h <;> rw [h] <;> rfl
  unfold layerCount at hrows
  rw [rowBytes_eq, hbit (flags / 128), hbit (flags / 64), Nat.mul_add] at hrows
  have hout : lines ≤ (List.replicate 32 0).length := by rwa [List.length_replicate]
  rw [decodeLayer_eq (by omega) hout, Option.bind_eq_bind, Option.bind_some]
  dsimp only
  rw [decodeLayer_eq (by omega) hout, Option.bind_some]
  refine congrArg some ?_
  rw [CursorVars.mk.injEq]
  refine ⟨rfl, rfl, rfl, rfl, ?_, ?_⟩
  · by_cases hhas : flags / 128 % 2 = 1
    · rw [if_pos hhas, if_pos (decide_eq_true hhas)]
      exact withRows_eq_padded (by omega)
    · rw [if_neg hhas, if_neg (by simpa using hhas), padded_nil]
  · by_cases hhas : flags / 64 % 2 = 1
    · rw [if_pos hhas, if_pos (decide_eq_true hhas)]
      refine withRows_eq_padded ?_
      by_cases hblack : flags / 128 % 2 = 1
      · rw [decide_eq_true hblack, if_pos hblack, Bool.toNat_true, Nat.mul_one]
      · rw [decide_eq_false hblack, if_neg hblack, Bool.toNat_false, Nat.mul_zero, Nat.zero_mul]
    · rw [if_neg hhas, if_neg (by simpa using hhas), padded_nil]

end Decode

/-! ## Setting the cursor -/

/-- What the arrays and the size are like after the decoding of an accepted record. -/
structure CursorVars.Decoded (vars : CursorVars) : Prop where
  black : vars.black.length = 32
  white : vars.white.length = 32
  width : vars.width ≤ 32
  lines : vars.lines ≤ 32
  blank : ∀ k, vars.lines ≤ k → vars.black.getD k 0 = 0 ∧ vars.white.getD k 0 = 0

section Set

variable {data : List Nat} {flipVt : Bool}

theorem length_recordLayer (rec : List Nat) (width lines start : Nat) (flipVt : Bool) :
    (recordLayer rec width lines start flipVt).length = lines := by
  unfold recordLayer
  split_ifs <;> simp

theorem getD_padded {rows : List Nat} {k : Nat} (h : rows.length ≤ k) :
    (padded rows).getD k 0 = 0 := by
  unfold padded
  by_cases hk : k < 32
  · rw [List.getD_eq_getElem _ _ (by simpa using hk), List.getElem_map, List.getElem_range,
      List.getD_eq_default _ _ h]
  · rw [List.getD_eq_default _ _ (by simpa using hk)]

theorem decoded_ofShape {rec : Nat} (h : RecordFits data rec) :
    (CursorVars.ofShape (decodeRecord (data.drop rec) flipVt)).Decoded := by
  have hlines := h.lines
  have hwidth := h.width
  refine ⟨by simp [CursorVars.ofShape, padded], by simp [CursorVars.ofShape, padded], ?_, ?_,
    fun k hk => ⟨getD_padded ?_, getD_padded ?_⟩⟩
  · show byteAt (data.drop rec) 3 % 64 ≤ 32
    rwa [byteAt_drop]
  · show byteAt (data.drop rec) 2 ≤ 32
    rwa [byteAt_drop]
  all_goals
    refine Nat.le_trans ?_ hk
    unfold CursorVars.ofShape decodeRecord
    dsimp only
    split_ifs <;> simp [length_recordLayer]

variable {files : Nat → List Nat} {s : CursorState} {cur rec cursorIndex : Nat}

/-- `CdSetCursor` leaves everything as it was, the references included, if it refuses. -/
theorem setCursor_refused {err : Errno}
    (h : findRecord (files cur) cursorIndex = some (.error err)) (s : CursorState)
    (acquired : Bool) : s.setCursor files acquired (some cur) cursorIndex =
      some (s, if s.prev = some (cur, cursorIndex) then none else some err) := by
  have hrefs : (s.refObject cur).derefObject cur = s := by
    unfold CursorState.refObject CursorState.derefObject
    simp
  unfold CursorState.setCursor
  dsimp only
  split_ifs with hprev
  · rfl
  · rw [h, Option.bind_eq_bind, Option.bind_some]
    dsimp only
    rw [hrefs]

/--
Every record that is found in a file is decoded inside the file and inside the arrays, to the same
cursor whatever the arrays held; and where none is found, nothing changes.
-/
theorem record_decodes (data : List Nat) (cursorIndex : Nat) :
    ∃ found, findRecord data cursorIndex = some found ∧
      foundAt data found = findCursorRecord data cursorIndex ∧
      (∀ rec flipVt, found = .ok (rec, flipVt) → ∀ vars : CursorVars,
        vars.black.length = 32 → vars.white.length = 32 →
        applyRecord data rec flipVt vars =
            some (CursorVars.ofShape (decodeRecord (data.drop rec) flipVt)) ∧
          (CursorVars.ofShape (decodeRecord (data.drop rec) flipVt)).Decoded) ∧
      ∀ err, found = .error err → ∀ (files : Nat → List Nat) (cur : Nat), files cur = data →
        ∀ (s : CursorState) (acquired : Bool),
          s.setCursor files acquired (some cur) cursorIndex =
            some (s, if s.prev = some (cur, cursorIndex) then none else some err) := by
  obtain ⟨found, hfind, hfound, hfits⟩ := findRecord_spec data cursorIndex
  refine ⟨found, hfind, hfound, fun rec flipVt hok vars hblack hwhite => ?_, ?_⟩
  · have hrec := hfits rec flipVt hok
    exact ⟨applyRecord_eq hrec hblack hwhite, decoded_ofShape hrec⟩
  · rintro err rfl files cur rfl s acquired
    exact setCursor_refused hfind s acquired

/-- A cursor of one row, which is stored upside down. -/
example : findRecord [67, 85, 82, 0, 1, 0, 0, 0, 10, 128, 0, 0, 1, 136, 255, 0] 0 =
    some (.ok (10, true)) := rfl

/-! ## Runs -/

/-- The arrays have a cursor, and a record that is pending is one that was found in its file. -/
structure CursorState.Steady (files : Nat → List Nat) (s : CursorState) : Prop where
  decoded : s.vars.Decoded
  pending : ∀ cur rec flipVt, s.pending = some (cur, rec, flipVt) → RecordFits (files cur) rec

/-- A call of `CdSetCursor`, or one of the calls that apply what is pending. -/
inductive CursorCall where
  | setCursor (acquired : Bool) (cur : Option Nat) (cursorIndex : Nat)
  | applyPending

/-- The state after some calls -/
def CursorState.run (files : Nat → List Nat) : List CursorCall → CursorState → Option CursorState
  | [], s => some s
  | .setCursor acquired cur cursorIndex :: calls, s =>
    (s.setCursor files acquired cur cursorIndex).bind fun r => run files calls r.1
  | .applyPending :: calls, s => (s.applyPending files).bind fun s => run files calls s

end Set

end Nolrem.Cd
