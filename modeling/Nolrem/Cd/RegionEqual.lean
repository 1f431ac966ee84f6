import Nolrem.Cd.Region

/-!
# Equality of regions

`CdIsRegionEqual` and `CdResetRegionOrigin` of `kernel/CLIPDRAW/fully_pageable/rgn_ops.c`. No
allocation fails.
-/

namespace Nolrem.Cd

variable {h : RegionHeap} {a b : Region} {da db : RegionData}

/-! ## The code -/

/--
`CdUnionRegion(a, b)` where `b` is empty: the first lines of `CdGetRegionCombinationEx`, which copy
the other operand.
-/
def cdUnionWithEmpty (h : RegionHeap) (a b : Region) : RegionHeap × Region :=
  if cdIsRegionBad a || cdIsRegionBad b then (h, cdBadRegion) else cdCopyRegion h a

/-- `CdResetRegionOrigin` -/
def cdResetRegionOrigin (h : RegionHeap) (rgn : Region) : RegionHeap × Region :=
  let (h, normalized) := cdUnionWithEmpty h rgn cdEmptyRegion
  (cdFreeRegion h cdEmptyRegion, normalized)

/-- `memcmp` for `n` bytes from number `i` on: whether they are equal, and how many it looks at. -/
def memcmp (x y : Nat → Nat) : Nat → Nat → Bool × Nat
  | 0, i => (true, i)
  | n + 1, i => if x i = y i then memcmp x y n (i + 1) else (false, i + 1)

/-- How a call ends, or that it has not yet. -/
inductive Comparison where
  /-- The result, the heap, and the number of bytes of `band_data` that were compared. -/
  | returned (equal : Bool) (h : RegionHeap) (read : Nat)
  /-- A null pointer is read. -/
  | fault
  | running

/-- The translations are written back. -/
def revert (h : RegionHeap) (pa pb : Nat) (transX transY : BitVec 16) : RegionHeap :=
  let h :=
    match h.block pa with
    | none => h
    | some d => h.set pa { d with transX, transY }
  match h.block pb with
  | none => h
  | some d => h.set pb { d with transX := d.transX + transX, transY := d.transY + transY }

/-- `CdIsRegionEqual`; `fuel` bounds the depth of the recursion. -/
def cdIsRegionEqual : Nat → RegionHeap → Region → Region → Comparison
  | 0, _, _, _ => .running
  | fuel + 1, h, a, b =>
    if a.usedLength ≠ b.usedLength then .returned false h 0
    else
      match a.data, b.data, h.data a, h.data b with
      | some pa, some pb, some da, some db =>
        if da.numBands ≠ db.numBands then .returned false h 0
        else if da.transX = db.transX ∧ da.transY = db.transY then
          let (equal, read) := memcmp da.band db.band a.usedLength 0
          .returned equal h read
        else
          let h := h.set pa { da with transX := 0, transY := 0 }
          let db := { db with transX := db.transX - da.transX, transY := db.transY - da.transY }
          let h := h.set pb db
          let result :=
            if db.transX ≠ 0 ∨ db.transY ≠ 0 then
              let (h, resetB) := cdResetRegionOrigin h b
              match cdIsRegionEqual fuel h a resetB with
              | .returned equal h read => .returned equal (cdFreeRegion h resetB) read
              | r => r
            else cdIsRegionEqual fuel h a b
          match result with
          | .returned equal h read => .returned equal (revert h pa pb da.transX da.transY) read
          | r => r
      | _, _, _, _ => .fault

/-- `CdIsSubRegion`, once `combined` is the union of the two regions. -/
def cdIsSubRegion (fuel : Nat) (h : RegionHeap) (combined super : Region) : Comparison :=
  match cdIsRegionEqual fuel h combined super with
  | .returned equal h read => .returned equal (cdFreeRegion h combined) read
  | r => r

/-! ## What is asked of it -/

/-- A region that owns nothing, or one with its block. -/
inductive IsRegion (h : RegionHeap) (rgn : Region) : Prop
  | empty (heq : rgn = cdEmptyRegion)
  | block (p : Nat) (d : RegionData) (hp : rgn.data = some p) (hd : h.block p = some d)
      (hbands : 0 < d.numBands) (hused : sizeofRegionData ≤ rgn.usedLength)

/--
The call comes to an end, decides whether the pixels are the same, compares no byte behind the used
part, and leaves both regions as they were.
-/
def Decides (h : RegionHeap) (a b : Region) : Prop :=
  ∃ fuel equal h' read, cdIsRegionEqual fuel h a b = .returned equal h' read ∧
    (equal = true ↔ pixels h a = pixels h b) ∧
    (0 < read → sizeofRegionData + read ≤ a.usedLength ∧ sizeofRegionData + read ≤ b.usedLength) ∧
    h'.data a = h.data a ∧ h'.data b = h.data b

/-- The same of `CdIsSubRegion`, for the question whether `sub` lies in `super`. -/
def DecidesSub (h : RegionHeap) (combined super sub : Region) : Prop :=
  ∃ fuel equal h' read, cdIsSubRegion fuel h combined super = .returned equal h' read ∧
    (equal = true ↔ pixels h sub ⊆ pixels h super) ∧
    (0 < read → sizeofRegionData + read ≤ combined.usedLength ∧
      sizeofRegionData + read ≤ super.usedLength)

/--
The lengths differ; or the numbers of bands; or, with the same translation, a byte of the used part.
-/
inductive Told (h : RegionHeap) (a b : Region) : Prop
  | length (hne : a.usedLength ≠ b.usedLength)
  | numBands (da db : RegionData) (ha : h.data a = some da) (hb : h.data b = some db)
      (hne : da.numBands ≠ db.numBands)
  | byte (da db : RegionData) (ha : h.data a = some da) (hb : h.data b = some db)
      (hx : da.transX = db.transX) (hy : da.transY = db.transY) (i : Nat)
      (hi : sizeofRegionData + i < a.usedLength) (hne : da.band i ≠ db.band i)

/-! ## The comparison of the bytes -/

theorem memcmp_read_ge {x y : Nat → Nat} {n i : Nat} : i ≤ (memcmp x y n i).2 := by
  induction n generalizing i with
  | zero => exact Nat.le_refl i
  | succ n ih =>
    rw [memcmp]
    split_ifs
    · exact Nat.le_of_succ_le ih
    · exact Nat.le_succ i

/-- The first byte that differs is the last one that is looked at. -/
theorem memcmp_of_ne {x y : Nat → Nat} {n i j : Nat} (hij : i ≤ j) (hj : j < i + n)
    (hne : x j ≠ y j) : ∃ k, i ≤ k ∧ k ≤ j ∧ x k ≠ y k ∧ memcmp x y n i = (false, k + 1) := by
  induction n generalizing i with
  | zero => omega
  | succ n ih =>
    rw [memcmp]
    by_cases hi : x i = y i
    · have hlt : i ≠ j := fun h => hne (h ▸ hi)
      obtain ⟨k, h1, h2, hk, hm⟩ := ih (i := i + 1) (by omega) (by omega)
      exact ⟨k, by omega, h2, hk, by rw [if_pos hi, hm]⟩
    · exact ⟨i, Nat.le_refl i, hij, hi, if_neg hi⟩

/-- Bytes that are equal are looked at, and the one after them. -/
theorem le_memcmp_read {x y : Nat → Nat} {n i k : Nat} (hik : i ≤ k) (hk : k < i + n)
    (heq : ∀ j, i ≤ j → j < k → x j = y j) : k + 1 ≤ (memcmp x y n i).2 := by
  induction n generalizing i with
  | zero => omega
  | succ n ih =>
    rw [memcmp]
    by_cases hlast : i = k
    · subst hlast
      by_cases hx : x i = y i
      · rw [if_pos hx]
        exact memcmp_read_ge
      · rw [if_neg hx]
    · rw [if_pos (heq i (Nat.le_refl i) (by omega))]
      exact ih (by omega) (by omega) fun j h1 h2 => heq j (by omega) h2

/-! ## The recursion does not end -/

/-- The two regions that differ in their translations only as far as the code can see. -/
structure Shifted (h : RegionHeap) (a b : Region) : Prop where
  usedLength : a.usedLength = b.usedLength
  blocks : ∃ pa pb da db, a.data = some pa ∧ b.data = some pb ∧ pa < h.next ∧ pb < h.next ∧
    h.block pa = some da ∧ h.block pb = some db ∧ da.numBands = db.numBands ∧ 0 < db.numBands ∧
      ¬ (da.transX = db.transX ∧ da.transY = db.transY)

theorem data_eq {rgn : Region} {p : Nat} (hp : rgn.data = some p) : h.data rgn = h.block p := by
  rw [RegionHeap.data, hp]
  rfl

/-- A copy has the translation of the original. -/
theorem cdResetRegionOrigin_eq {p : Nat} {d : RegionData} (hp : b.data = some p)
    (hd : h.block p = some d) (hbands : 0 < d.numBands) :
    cdResetRegionOrigin h b =
      (h.allocCopy b.allocatedLength d, { b with data := some h.next }) := by
  have hbad : cdIsRegionBad b = false := by
    rw [cdIsRegionBad, hp]
    rfl
  have h0 : d.numBands ≠ 0 := by omega
  unfold cdResetRegionOrigin cdUnionWithEmpty cdCopyRegion
  rw [hbad, data_eq hp, hd]
  simp only [h0, if_false]
  rfl

theorem data_ne (hs : ¬ (da.transX = db.transX ∧ da.transY = db.transY)) {pa pb : Nat}
    (ha : h.block pa = some da) (hb : h.block pb = some db) : pa ≠ pb := by
  rintro rfl
  have hd : da = db := Option.some.inj (ha.symm.trans hb)
  exact hs ⟨by rw [hd], by rw [hd]⟩

/-- The translation that is left to `b` is not zero. -/
theorem sub_ne_zero_of_shifted (hs : ¬ (da.transX = db.transX ∧ da.transY = db.transY)) :
    db.transX - da.transX ≠ 0 ∨ db.transY - da.transY ≠ 0 := by
  by_contra hz
  rw [not_or, not_not, not_not] at hz
  have hx := hz.1
  have hy := hz.2
  exact hs ⟨by bv_omega, by bv_omega⟩

/--
The union with the empty region is a copy, so `b` keeps its translation and the next call has the
same to do.
-/
theorem Shifted.running (hs : Shifted h a b) (fuel : Nat) :
    cdIsRegionEqual fuel h a b = .running := by
  induction fuel generalizing h b with
  | zero => rfl
  | succ fuel ih =>
    obtain ⟨hused, pa, pb, da, db, hpa, hpb, hna, hnb, ha, hb, hbands, hpos, hne⟩ := hs
    have hab := data_ne hne ha hb
    have hz := sub_ne_zero_of_shifted hne
    rw [cdIsRegionEqual, if_neg (not_not.mpr hused), hpa, hpb, data_eq hpa, data_eq hpb, ha, hb]
    dsimp only
    rw [if_neg (not_not.mpr hbands), if_neg hne, if_pos hz]
    have hblock : RegionHeap.block
        ((h.set pa { da with transX := 0, transY := 0 }).set pb
          { db with transX := db.transX - da.transX, transY := db.transY - da.transY }) pb =
        some { db with transX := db.transX - da.transX, transY := db.transY - da.transY } :=
      Function.update_self ..
    rw [cdResetRegionOrigin_eq hpb hblock hpos]
    dsimp only
    rw [ih]
    refine ⟨hused, pa, h.next, { da with transX := 0, transY := 0 }, _, hpa, rfl,
      Nat.lt_succ_of_lt hna, Nat.lt_succ_self _, ?_, Function.update_self .., hbands, hpos, ?_⟩
    · simp only [RegionHeap.allocCopy, RegionHeap.set]
      rw [Function.update_of_ne (Nat.ne_of_lt hna), Function.update_of_ne hab,
        Function.update_self]
    · rintro ⟨hx, hy⟩
      exact hz.elim (fun h => h hx.symm) fun h => h hy.symm

/-! ## When the regions are told apart -/

theorem IsRegion.cases (hr : IsRegion h a) :
    (a = cdEmptyRegion ∧ h.data a = none) ∨
      ∃ p d, a.data = some p ∧ h.block p = some d ∧ 0 < d.numBands ∧
        sizeofRegionData ≤ a.usedLength := by
  cases hr with
  | empty heq =>
    subst heq
    exact Or.inl ⟨rfl, rfl⟩
  | block p d hp hd hbands hused => exact Or.inr ⟨p, d, hp, hd, hbands, hused⟩

/-- The first step of the call, for two regions that have blocks and the same length. -/
theorem cdIsRegionEqual_blocks {pa pb fuel : Nat} (hused : a.usedLength = b.usedLength)
    (hpa : a.data = some pa) (hpb : b.data = some pb) (ha : h.block pa = some da)
    (hb : h.block pb = some db) (hne : da.numBands ≠ db.numBands) :
    cdIsRegionEqual (fuel + 1) h a b = .returned false h 0 := by
  rw [cdIsRegionEqual, if_neg (not_not.mpr hused), hpa, hpb, data_eq hpa, data_eq hpb, ha, hb]
  dsimp only
  rw [if_pos hne]

theorem cdIsRegionEqual_memcmp {pa pb fuel : Nat} (hused : a.usedLength = b.usedLength)
    (hpa : a.data = some pa) (hpb : b.data = some pb) (ha : h.block pa = some da)
    (hb : h.block pb = some db) (hbands : da.numBands = db.numBands)
    (hx : da.transX = db.transX) (hy : da.transY = db.transY) :
    cdIsRegionEqual (fuel + 1) h a b =
      .returned (memcmp da.band db.band a.usedLength 0).1 h
        (memcmp da.band db.band a.usedLength 0).2 := by
  rw [cdIsRegionEqual, if_neg (not_not.mpr hused), hpa, hpb, data_eq hpa, data_eq hpb, ha, hb]
  dsimp only
  rw [if_neg (not_not.mpr hbands), if_pos ⟨hx, hy⟩]

/-- The regions are told apart before anything is read that should not be. -/
theorem Told.returned (ht : Told h a b) :
    ∃ read, (∀ fuel, cdIsRegionEqual (fuel + 1) h a b = .returned false h read) ∧
      (0 < read → sizeofRegionData + read ≤ a.usedLength ∧
        sizeofRegionData + read ≤ b.usedLength) := by
  by_cases hused : a.usedLength = b.usedLength
  · have hblock : ∀ {r : Region} {d : RegionData}, h.data r = some d →
        ∃ p, r.data = some p ∧ h.block p = some d := by
      intro r d hd
      exact Option.bind_eq_some_iff.mp hd
    cases ht with
    | length hne => exact absurd hused hne
    | numBands da db hda hdb hne =>
      obtain ⟨pa, hpa, hba⟩ := hblock hda
      obtain ⟨pb, hpb, hbb⟩ := hblock hdb
      exact ⟨0, fun _ => cdIsRegionEqual_blocks hused hpa hpb hba hbb hne,
        fun h0 => absurd h0 (by decide)⟩
    | byte da db hda hdb hx hy i hi hne =>
      obtain ⟨pa, hpa, hba⟩ := hblock hda
      obtain ⟨pb, hpb, hbb⟩ := hblock hdb
      by_cases hbands : da.numBands = db.numBands
      · obtain ⟨k, -, hk, -, hm⟩ := memcmp_of_ne (n := a.usedLength) (Nat.zero_le i) (by omega) hne
        refine ⟨k + 1, fun fuel => ?_, fun _ => by omega⟩
        rw [cdIsRegionEqual_memcmp hused hpa hpb hba hbb hbands hx hy, hm]
      · exact ⟨0, fun _ => cdIsRegionEqual_blocks hused hpa hpb hba hbb hbands,
          fun h0 => absurd h0 (by decide)⟩
  · refine ⟨0, fun fuel => ?_, fun h0 => absurd h0 (by decide)⟩
    rw [cdIsRegionEqual, if_pos hused]

/-- Otherwise the call reads what it should not, or does not end. -/
theorem Told.of_returned {fuel read : Nat} {equal : Bool} {h' : RegionHeap} (ha : IsRegion h a)
    (hb : IsRegion h b) (hfresh : ∀ p, h.next ≤ p → h.block p = none)
    (hret : cdIsRegionEqual fuel h a b = .returned equal h' read)
    (hread : 0 < read → sizeofRegionData + read ≤ a.usedLength ∧
      sizeofRegionData + read ≤ b.usedLength) : Told h a b := by
  by_contra hnot
  have hused : a.usedLength = b.usedLength := by
    by_contra hne
    exact hnot (.length hne)
  cases fuel with
  | zero => cases hret
  | succ fuel =>
    rcases ha.cases with ⟨rfl, -⟩ | ⟨pa, da, hpa, hba, -, hlena⟩
    · rcases hb.cases with ⟨rfl, -⟩ | ⟨pb, db, -, -, -, hlenb⟩
      · cases hret
      · -- only the empty region has the length 0
        rw [← hused] at hlenb
        exact absurd hlenb (by decide)
    · rcases hb.cases with ⟨rfl, -⟩ | ⟨pb, db, hpb, hbb, hposb, -⟩
      · rw [hused] at hlena
        exact absurd hlena (by decide)
      · have hda : h.data a = some da := (data_eq hpa).trans hba
        have hdb : h.data b = some db := (data_eq hpb).trans hbb
        have hbands : da.numBands = db.numBands := by
          by_contra hne
          exact hnot (.numBands da db hda hdb hne)
        by_cases htrans : da.transX = db.transX ∧ da.transY = db.transY
        · -- all bytes of the used part are equal, and `memcmp` goes on behind it
          have heq : ∀ j, 0 ≤ j → j < a.usedLength - sizeofRegionData →
              da.band j = db.band j := by
            intro j _ hj
            by_contra hne
            exact hnot (.byte da db hda hdb htrans.1 htrans.2 j (by omega) hne)
          have hpos : 0 < sizeofRegionData := by decide
          have hge := le_memcmp_read (n := a.usedLength) (Nat.zero_le _) (by omega) heq
          rw [cdIsRegionEqual_memcmp hused hpa hpb hba hbb hbands htrans.1 htrans.2] at hret
          obtain ⟨-, -, rfl⟩ := Comparison.returned.inj hret
          have := hread (by omega)
          omega
        · have hlt : ∀ {p d}, h.block p = some d → p < h.next := by
            intro p d hp
            by_contra hle
            rw [hfresh p (by omega)] at hp
            cases hp
          have hs : Shifted h a b := ⟨hused, pa, pb, da, db, hpa, hpb, hlt hba, hlt hbb, hba, hbb,
            hbands, hposb, htrans⟩
          rw [hs.running] at hret
          cases hret

theorem cdIsSubRegion_returned {fuel read : Nat} {equal : Bool} {h' : RegionHeap}
    (hret : cdIsSubRegion fuel h a b = .returned equal h' read) :
    ∃ h'', cdIsRegionEqual fuel h a b = .returned equal h'' read := by
  unfold cdIsSubRegion at hret
  cases hr : cdIsRegionEqual fuel h a b with
  | returned equal' h'' read' =>
    rw [hr] at hret
    obtain ⟨rfl, -, rfl⟩ := Comparison.returned.inj hret
    exact ⟨h'', rfl⟩
  | fault =>
    rw [hr] at hret
    cases hret
  | running =>
    rw [hr] at hret
    cases hret

/-- Whatever is returned is `false`, and in time. -/
theorem Told.returned_false (ht : Told h a b) {fuel read : Nat} {equal : Bool} {h' : RegionHeap}
    (hret : cdIsRegionEqual fuel h a b = .returned equal h' read) : equal = false := by
  obtain ⟨read', hall, -⟩ := ht.returned
  cases fuel with
  | zero => cases hret
  | succ fuel =>
    rw [hall fuel] at hret
    exact (Comparison.returned.inj hret).1.symm

theorem decides_iff (ha : IsRegion h a) (hb : IsRegion h b)
    (hfresh : ∀ p, h.next ≤ p → h.block p = none) :
    Decides h a b ↔ pixels h a ≠ pixels h b ∧ Told h a b := by
  constructor
  · rintro ⟨fuel, equal, h', read, hret, hiff, hread, -, -⟩
    have ht := Told.of_returned ha hb hfresh hret hread
    have hfalse := ht.returned_false hret
    exact ⟨fun heq => Bool.false_ne_true (hfalse.symm.trans (hiff.mpr heq)), ht⟩
  · rintro ⟨hne, ht⟩
    obtain ⟨read, hall, hread⟩ := ht.returned
    exact ⟨1, false, h, read, hall 0, iff_of_false Bool.false_ne_true hne, hread, rfl, rfl⟩

theorem decidesSub_iff {sub : Region} (ha : IsRegion h a) (hb : IsRegion h b)
    (hfresh : ∀ p, h.next ≤ p → h.block p = none) :
    DecidesSub h a b sub ↔ ¬ pixels h sub ⊆ pixels h b ∧ Told h a b := by
  constructor
  · rintro ⟨fuel, equal, h', read, hret, hiff, hread⟩
    obtain ⟨h'', hret⟩ := cdIsSubRegion_returned hret
    have ht := Told.of_returned ha hb hfresh hret hread
    have hfalse := ht.returned_false hret
    exact ⟨fun hsub => Bool.false_ne_true (hfalse.symm.trans (hiff.mpr hsub)), ht⟩
  · rintro ⟨hsub, ht⟩
    obtain ⟨read, hall, hread⟩ := ht.returned
    refine ⟨1, false, cdFreeRegion h a, read, ?_, iff_of_false Bool.false_ne_true hsub, hread⟩
    rw [cdIsSubRegion, hall 0]

/--
`CdIsRegionEqual` decides whether two regions have the same pixels if and only if they have not and
are told apart by a length, a number of bands or a byte of the used part. So does `CdIsSubRegion`
for a region in another, with the union in the place of the first region.
-/
theorem is_region_equal_iff (h : RegionHeap) (a b : Region) (ha : IsRegion h a)
    (hb : IsRegion h b) (hfresh : ∀ p, h.next ≤ p → h.block p = none) :
    (Decides h a b ↔ pixels h a ≠ pixels h b ∧ Told h a b) ∧
      ∀ sub, pixels h a = pixels h b ∪ pixels h sub →
        (DecidesSub h a b sub ↔ ¬ pixels h sub ⊆ pixels h b ∧ Told h a b) :=
  ⟨decides_iff ha hb hfresh, fun _ _ => decidesSub_iff ha hb hfresh⟩

/-- A region of one pixel, as `CdCreateRectRegion` makes it. -/
def onePixel : RegionData where
  numBands := 1
  transX := 0
  transY := 0
  band := fun i => [193, 0, 0, 0, 1, 0, 0, 0, 1, 0].getD i 0

/-- `onePixel` at the addresses 1 and 2, the second time moved to the right. -/
def twoPixels : RegionHeap where
  block := fun p => if p = 1 then some onePixel else
    if p = 2 then some { onePixel with transX := 1 } else none
  next := 3
  behind := fun _ => 0

def atAddress (p : Nat) : Region := { data := some p, usedLength := 16, allocatedLength := 16 }

theorem isRegion_atAddress (p : Nat) (hp : p = 1 ∨ p = 2) : IsRegion twoPixels (atAddress p) := by
  rcases hp with rfl | rfl
  · exact .block 1 onePixel rfl rfl (by decide) (by decide)
  · exact .block 2 { onePixel with transX := 1 } rfl rfl (by decide) (by decide)

theorem is_region_equal_iff_twoPixels :
    (Decides twoPixels (atAddress 1) (atAddress 2) ↔
        pixels twoPixels (atAddress 1) ≠ pixels twoPixels (atAddress 2) ∧
          Told twoPixels (atAddress 1) (atAddress 2)) ∧
      ∀ sub, pixels twoPixels (atAddress 1) =
          pixels twoPixels (atAddress 2) ∪ pixels twoPixels sub →
        (DecidesSub twoPixels (atAddress 1) (atAddress 2) sub ↔
          ¬ pixels twoPixels sub ⊆ pixels twoPixels (atAddress 2) ∧
            Told twoPixels (atAddress 1) (atAddress 2)) :=
  is_region_equal_iff twoPixels (atAddress 1) (atAddress 2)
    (isRegion_atAddress 1 (Or.inl rfl)) (isRegion_atAddress 2 (Or.inr rfl)) fun p hp => by
      have h1 : p ≠ 1 := by
        rintro rfl
        exact absurd hp (by decide)
      have h2 : p ≠ 2 := by
        rintro rfl
        exact absurd hp (by decide)
      exact (if_neg h1).trans (if_neg h2)

/--
Two empty regions: a null pointer is read. A region and itself moved: the recursion does not end. A
region and itself: more is compared than is used.
-/
theorem is_region_equal_fails :
    ¬ Decides twoPixels cdEmptyRegion cdEmptyRegion ∧
      ¬ Decides twoPixels (atAddress 1) (atAddress 2) ∧
        ¬ Decides twoPixels (atAddress 1) (atAddress 1) := by
  refine ⟨?_, ?_, ?_⟩
  · rintro ⟨fuel, equal, h', read, hret, -⟩
    cases fuel <;> cases hret
  · rintro ⟨fuel, equal, h', read, hret, -⟩
    have hs : Shifted twoPixels (atAddress 1) (atAddress 2) :=
      ⟨rfl, 1, 2, onePixel, { onePixel with transX := 1 }, rfl, rfl, by decide, by decide, rfl, rfl,
        rfl, by decide, by decide⟩
    rw [hs.running] at hret
    cases hret
  · rintro ⟨fuel, equal, h', read, hret, -, hread, -⟩
    cases fuel with
    | zero => cases hret
    | succ fuel =>
      have hm : cdIsRegionEqual (fuel + 1) twoPixels (atAddress 1) (atAddress 1) =
          .returned (memcmp onePixel.band onePixel.band 16 0).1 twoPixels
            (memcmp onePixel.band onePixel.band 16 0).2 :=
        cdIsRegionEqual_memcmp rfl rfl rfl rfl rfl rfl rfl rfl
      rw [hm] at hret
      obtain ⟨-, -, rfl⟩ := Comparison.returned.inj hret
      exact absurd (hread (by decide)) (by decide)

end Nolrem.Cd
