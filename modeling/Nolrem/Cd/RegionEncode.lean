import Nolrem.Cd.RegionDecode

/-!
# Encoding the bands of a region

`AddScanline` keeps the bytes of the region decodable: after each band that it writes, the decoder
goes through all of them and has what the encoder has kept of the last one.
-/

namespace Nolrem.Cd

open Nolrem.Lib

variable {points : List (Int × Int)}

/-! ## The block -/

theorem nextAlloc_gt {a : Nat} (h : 32 ≤ a) : a < nextAlloc a := by
  unfold nextAlloc
  rw [Nat.shiftRight_one]
  split_ifs <;> omega

/-- The loop ends with room for what is used. -/
theorem growAlloc_gt {newUsed fuel a : Nat} (h : 32 ≤ a) (hfuel : newUsed < a + fuel) :
    newUsed < growAlloc newUsed fuel a ∧ 32 ≤ growAlloc newUsed fuel a := by
  induction fuel generalizing a with
  | zero => exact ⟨hfuel, h⟩
  | succ fuel ih =>
    have hlt := nextAlloc_gt h
    rw [growAlloc]
    split_ifs with hle
    · exact ih (by omega) (by omega)
    · exact ⟨by omega, h⟩

/-- The bytes `l` are in the block, and there is room for them. -/
structure Written (r : Building) (l : List Nat) : Prop where
  stored : Stored r.data.band 0 l
  currentPtr : r.ctxt.currentPtr = l.length
  usedLength : r.usedLength = sizeofRegionData + l.length
  room : r.usedLength < r.allocatedLength
  least : 32 ≤ r.allocatedLength

namespace Written

variable {r : Building} {l : List Nat}

theorem emit (h : Written r l) (output : List Nat) :
    Written ((r.expandToFit output.length).emit output) (l ++ output) := by
  obtain ⟨hroom, hleast⟩ := growAlloc_gt h.least
    (show r.usedLength + output.length < r.allocatedLength + (r.usedLength + output.length + 1) by
      omega)
  refine ⟨?_, ?_, ?_, hroom, hleast⟩
  · show Stored (store r.data.band r.ctxt.currentPtr output) 0 (l ++ output)
    rw [h.currentPtr, ← Nat.zero_add l.length]
    exact h.stored.append
  · show r.ctxt.currentPtr + output.length = _
    rw [h.currentPtr, List.length_append]
  · show r.usedLength + output.length = _
    rw [h.usedLength, List.length_append, Nat.add_assoc]

theorem patch {a : Nat} (h : Written r (l ++ [a])) (b : Nat) : Written (r.patch b) (l ++ [b]) := by
  have hlen : ∀ x : Nat, (l ++ [x]).length = l.length + 1 := fun x => List.length_append
  refine ⟨?_, ?_, ?_, h.room, h.least⟩
  · show Stored (Function.update r.data.band (r.ctxt.currentPtr - 1) b) 0 (l ++ [b])
    rw [h.currentPtr, hlen, Nat.add_sub_cancel, ← Nat.zero_add l.length]
    exact h.stored.set_last
  · exact h.currentPtr.trans ((hlen a).trans (hlen b).symm)
  · rw [hlen b, ← hlen a]
    exact h.usedLength

end Written

/-! ## The encoder -/

/-- The bands `bs` are encoded, as `bytes` and the repeats that are counted. -/
structure Encoded (r : Building) (bytes : List Nat) (bs : List Band) : Prop where
  written : Written r (bytes ++ repeatBytes r.ctxt.count0x7F)
  count : r.ctxt.count0x7F < 257
  decodes : Decodes r.ctxt bytes bs
  numBands : r.data.numBands = bs.length % 65536
  trans : r.data.transX = 0 ∧ r.data.transY = 0

namespace Encoded

variable {r : Building} {bytes : List Nat} {bs : List Band}

/-- A gap. -/
theorem gap (h : Encoded r bytes bs) :
    Encoded ({ r with ctxt.count0x7F := 0 }.doneEncoding []) (bytes ++ repeatBytes r.ctxt.count0x7F)
      bs := by
  refine ⟨?_, show 0 < 257 by decide, ?_, h.numBands, h.trans⟩
  · have hw := h.written
    rw [← List.append_nil (bytes ++ repeatBytes r.ctxt.count0x7F)] at hw
    exact ⟨hw.stored, hw.currentPtr, hw.usedLength, hw.room, hw.least⟩
  · exact h.decodes.commit (Nat.le_of_lt h.count) rfl fun it hs =>
      ⟨hs.prevX0, hs.prevX1, fun h => absurd rfl h, hs.small⟩

/-- A band whose bytes are `output`. -/
theorem output (h : Encoded r bytes bs) (h0 : points ≠ [])
    (output small : List Nat)
    (hround : ∀ band it, Synced r.ctxt it → it.numRepeats = 0 → it.used0x7E = false →
      Stored band it.ptr output →
        Round band it output.length (r.ctxt.toBand points)
          (r.ctxt.after (r.ctxt.toBand points) small)) :
    Encoded
      ({ (r.expandToFit output.length).emit output with
          ctxt.prevSmallOutput := small, ctxt.count0x7F := 0 }.doneEncoding points)
      (bytes ++ repeatBytes r.ctxt.count0x7F ++ output) (bs ++ [r.ctxt.toBand points]) := by
  have hlength : points.length ≠ 0 := fun h => h0 (List.length_eq_zero_iff.mp h)
  have hdecodes : Decodes { r.ctxt with count0x7F := 0 }
      (bytes ++ repeatBytes r.ctxt.count0x7F) bs :=
    h.decodes.commit (Nat.le_of_lt h.count) rfl fun it hs =>
      ⟨hs.prevX0, hs.prevX1, hs.prevY1, hs.small⟩
  unfold Building.doneEncoding
  rw [if_pos hlength]
  refine ⟨?_, show 0 < 257 by decide, ?_, ?_, h.trans⟩
  · have hw := h.written.emit output
    rw [← List.append_nil (_ ++ output)] at hw
    exact ⟨hw.stored, hw.currentPtr, hw.usedLength, hw.room, hw.least⟩
  · refine hdecodes.append rfl rfl fun band it hs hrep hused hst => ?_
    have hr := hround band it ⟨hs.prevX0, hs.prevX1, hs.prevY1, hs.small⟩ hrep hused hst
    refine ⟨hr.value, ⟨hr.synced.prevX0, hr.synced.prevX1, fun _ => ?_, hr.synced.small⟩, hr.ptr,
      hr.numRepeats, hr.used0x7E, hr.reads⟩
    exact hr.synced.prevY1 hlength
  · show (r.data.numBands + 1) % 65536 = _
    rw [h.numBands, List.length_append, List.length_singleton]
    omega

/-- One more repeat is counted. -/
theorem encodeSmall_again {output : List Nat} (hsame : output = r.ctxt.prevSmallOutput)
    (hw : Written r (bytes ++ repeatBytes r.ctxt.count0x7F)) (hlt : r.ctxt.count0x7F < 257) :
    ∃ r', r.encodeSmall output = r' ∧ Written r' (bytes ++ repeatBytes (r.ctxt.count0x7F + 1)) ∧
      (∃ band, r'.data = { r.data with band }) ∧
      ∃ ptr, r'.ctxt = { r.ctxt with
        currentPtr := ptr
        count0x7F := if r.ctxt.count0x7F = 256 then 0 else r.ctxt.count0x7F + 1 } := by
  refine ⟨_, rfl, ?_⟩
  unfold Building.encodeSmall
  rw [if_pos hsame]
  by_cases h0 : r.ctxt.count0x7F = 0
  · rw [h0, repeatBytes, List.append_nil] at hw
    obtain ⟨h1, h2, h3, h4, h5⟩ := hw.emit [0x7F]
    rw [if_pos h0, h0]
    exact ⟨⟨h1, h2, h3, h4, h5⟩, ⟨_, rfl⟩, _, rfl⟩
  by_cases h1 : r.ctxt.count0x7F = 1
  · rw [h1] at hw
    obtain ⟨h2, h3, h4, h5, h6⟩ := (hw.patch 0x7E).emit [0]
    rw [List.append_assoc] at h2 h3 h4
    rw [if_neg h0, if_pos h1, h1]
    exact ⟨⟨h2, h3, h4, h5, h6⟩, ⟨_, rfl⟩, _, rfl⟩
  obtain ⟨n, hn⟩ := Nat.exists_eq_add_of_le' (show 2 ≤ r.ctxt.count0x7F by omega)
  have hbyte : (r.ctxt.count0x7F + 1 - 2) % 256 = n + 1 := by omega
  have hlist : bytes ++ repeatBytes (r.ctxt.count0x7F + 1) =
      bytes ++ [0x7E] ++ [(r.ctxt.count0x7F + 1 - 2) % 256] := by
    rw [hbyte, hn, List.append_assoc]
    rfl
  rw [hn, repeatBytes, ← List.singleton_append, ← List.append_assoc] at hw
  obtain ⟨h2, h3, h4, h5, h6⟩ := hw.patch ((r.ctxt.count0x7F + 1 - 2) % 256)
  rw [if_neg h0, if_neg h1, hlist]
  refine ⟨⟨h2, h3, h4, h5, h6⟩, ⟨_, rfl⟩, r.ctxt.currentPtr, ?_⟩
  exact congrArg (fun count => { r.ctxt with count0x7F := count })
    (if_congr (show r.ctxt.count0x7F + 1 - 2 = 0xFF ↔ r.ctxt.count0x7F = 256 by omega) rfl rfl)

/-- The last band in small mode again. -/
theorem again (h : Encoded r bytes bs) {numBands : Nat}
    (hfits : Fits r.ctxt points) (huse : r.ctxt.useSmall numBands points = true)
    (hsame : r.ctxt.smallOutput points = r.ctxt.prevSmallOutput) :
    ∃ bytes', Encoded ((r.encodeSmall (r.ctxt.smallOutput points)).doneEncoding points) bytes'
      (bs ++ [r.ctxt.toBand points]) := by
  have hlength : points.length ≠ 0 := (useSmall_spec huse).2.1
  obtain ⟨⟨used, allocated, data, ctxt⟩, hr', ⟨h1, h2, h3, h4, h5⟩, ⟨band, hdata⟩, ptr, hctxt⟩ :=
    encodeSmall_again hsame h.written h.count
  obtain rfl : data = _ := hdata
  obtain rfl : ctxt = _ := hctxt
  rw [hr']
  unfold Building.doneEncoding
  rw [if_pos hlength]
  have hsync (c' : BuildContext) (hc' : c'.prevX0 = setPrev r.ctxt.prevX0 0 (points.map Prod.fst) ∧
      c'.prevX1 = setPrev r.ctxt.prevX1 0 (points.map Prod.snd) ∧
      c'.prevY1 = toInt16 (r.ctxt.prevY1 + r.ctxt.currentHeight) ∧
      c'.prevSmallOutput = r.ctxt.prevSmallOutput) (it : Iter)
      (hs : Synced (r.ctxt.after (r.ctxt.toBand points) (r.ctxt.smallOutput points)) it) :
      Synced c' it := by
    obtain ⟨hx0, hx1, hy, hsmall⟩ := hc'
    refine ⟨hx0 ▸ hs.prevX0, hx1 ▸ hs.prevX1, fun _ => ?_, hsmall ▸ hsame ▸ hs.small⟩
    rw [hy]
    exact hs.prevY1 hlength
  have hnum : (r.data.numBands + 1) % 65536 =
      (bs ++ [r.ctxt.toBand points]).length % 65536 := by
    rw [h.numBands, List.length_append, List.length_singleton]
    omega
  by_cases hlast : r.ctxt.count0x7F = 256
  · simp only [if_pos hlast]
    refine ⟨bytes ++ repeatBytes (r.ctxt.count0x7F + 1), ?_, show 0 < 257 by decide, ?_, hnum,
      h.trans⟩
    · rw [← List.append_nil (bytes ++ _)] at h1 h2 h3
      exact ⟨h1, h2, h3, h4, h5⟩
    · have hdecodes : Decodes
          { r.ctxt.after (r.ctxt.toBand points) (r.ctxt.smallOutput points) with
            count0x7F := r.ctxt.count0x7F + 1 } bytes (bs ++ [r.ctxt.toBand points]) :=
        h.decodes.again hfits huse hsame rfl fun it hs =>
          ⟨hs.prevX0, hs.prevX1, hs.prevY1, hs.small⟩
      refine hdecodes.commit (Nat.succ_le_of_lt h.count) rfl fun it hs => ?_
      refine hsync _ ?_ it ⟨hs.prevX0, hs.prevX1, hs.prevY1, hs.small⟩
      exact ⟨rfl, rfl, rfl, rfl⟩
  · simp only [if_neg hlast]
    have hlt := h.count
    refine ⟨bytes, ⟨h1, h2, h3, h4, h5⟩, show r.ctxt.count0x7F + 1 < 257 by omega, ?_, hnum,
      h.trans⟩
    refine h.decodes.again hfits huse hsame rfl fun it hs => ?_
    refine hsync _ ?_ it hs
    exact ⟨rfl, rfl, rfl, rfl⟩

/-- What is encoded when the rows that are kept are encoded. -/
theorem flush (h : Encoded r bytes bs) (hfits : Fits r.ctxt points) :
    ∃ bytes', Encoded (r.flush points) bytes'
      (bs ++ if points = [] then [] else [r.ctxt.toBand points]) := by
  unfold Building.flush
  dsimp only
  by_cases huse : r.ctxt.useSmall r.data.numBands points = true
  · have h0 : points ≠ [] := fun h => (useSmall_spec huse).2.1 (List.length_eq_zero_iff.mpr h)
    rw [if_pos huse, if_neg h0]
    by_cases hsame : r.ctxt.smallOutput points = r.ctxt.prevSmallOutput
    · exact h.again hfits huse hsame
    · rw [Building.encodeSmall, if_neg hsame]
      exact ⟨_, h.output h0 _ _ fun band it hs hrep hused hst =>
        round_small hfits hs hrep hused huse hst⟩
  rw [if_neg huse]
  unfold Building.encodeRegular
  dsimp only
  by_cases h0 : points = []
  · subst h0
    rw [if_pos rfl, if_pos List.length_nil, List.append_nil]
    exact ⟨_, h.gap⟩
  have hlength : points.length ≠ 0 := fun h => h0 (List.length_eq_zero_iff.mp h)
  rw [if_neg h0, if_neg hlength]
  have hout {k : Nat} {output : List Nat} (hk : output.length = k)
      (hround : ∀ band it, Synced r.ctxt it → it.numRepeats = 0 → it.used0x7E = false →
        Stored band it.ptr output →
          Round band it k (r.ctxt.toBand points)
            (r.ctxt.after (r.ctxt.toBand points) r.ctxt.prevSmallOutput)) :
      ∃ bytes', Encoded
        ((({ r with ctxt.count0x7F := 0 }.expandToFit k).emit output).doneEncoding points) bytes'
        (bs ++ [r.ctxt.toBand points]) := by
    subst hk
    exact ⟨_, h.output h0 output r.ctxt.prevSmallOutput hround⟩
  by_cases hcompact : points.length ≤ 0x1F ∧ r.ctxt.currentHeight = 1 ∧ 0 < r.data.numBands
  · rw [if_pos hcompact]
    by_cases htop : haveTopByte points = true
    · rw [if_pos htop]
      refine hout ?_ fun band it hs hrep hused hst =>
        round_compactSpans hfits hs hrep hused hcompact.2.1 h0 hcompact.1 htop hst
      rw [List.length_append, List.length_cons, List.length_cons, length_lowBytes,
        length_int16Bytes]
      omega
    · rw [if_neg htop]
      refine hout ?_ fun band it hs hrep hused hst =>
        round_compact hfits hs hrep hused hcompact.2.1 hcompact.1 hst
      rw [List.length_append, List.length_cons, length_fullSpans, length_int16Bytes]
      omega
  · rw [if_neg hcompact]
    refine hout ?_ fun band it hs hrep hused hst => round_full hfits hs hrep hused hst
    rw [List.length_append, List.length_append, List.length_cons, List.length_cons,
      length_fullSpans, length_int16Bytes, length_int16Bytes]
    omega

end Encoded

end Nolrem.Cd
