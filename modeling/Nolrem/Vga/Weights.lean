import Mathlib.Algebra.BigOperators.Group.List.Basic
import Mathlib.Algebra.Order.BigOperators.Group.Finset
import Mathlib.Data.List.Count
import Mathlib.Data.List.Perm.Basic
import Nolrem.Vga.Dither

/-!
# The weights of a dither

What `GetDither` of `kernel/CLIPDRAW/driver/vga16/superdither.c` makes of a colour: the weights of
the colours of the palette, the pixels that each of them gets, and the cells that are written.
-/

namespace Nolrem.Vga

/-! ## Normalising -/

section Normalise

variable {w rem : Nat → Int}

/-- Of the 16 remainders, no other one is larger. -/
theorem le_largest (rem : Nat → Int) {i : Nat} (hi : i < 16) : rem i ≤ rem (largest rem) := by
  have hinv (l : List Nat) (best : Nat) :
      rem best ≤ rem (l.foldl (fun best i => if rem (i + 1) > rem best then i + 1 else best) best) ∧
        ∀ i ∈ l, rem (i + 1) ≤
          rem (l.foldl (fun best i => if rem (i + 1) > rem best then i + 1 else best) best) := by
    induction l generalizing best with
    | nil => exact ⟨le_rfl, nofun⟩
    | cons j l ih =>
      rw [List.foldl_cons]
      obtain ⟨hbest, hall⟩ := ih (if rem (j + 1) > rem best then j + 1 else best)
      have hmax : rem best ≤ rem (if rem (j + 1) > rem best then j + 1 else best) ∧
          rem (j + 1) ≤ rem (if rem (j + 1) > rem best then j + 1 else best) := by
        split_ifs with h
        · exact ⟨h.le, le_rfl⟩
        · exact ⟨le_rfl, not_lt.mp h⟩
      exact ⟨hmax.1.trans hbest, List.forall_mem_cons.mpr ⟨hmax.2.trans hbest, hall⟩⟩
  obtain ⟨hfirst, hrest⟩ := hinv (List.range 15) 0
  cases i with
  | zero => exact hfirst
  | succ i => exact hrest i (List.mem_range.mpr (by omega))

/--
What the rounds of `NormaliseWeights` keep: `taken` are the colours that have their pixel. The other
remainders are there still, and none of them is larger than one that was taken.
-/
structure HandedOut (floors rem : Nat → Int) (w : (Nat → Int) × (Nat → Int))
    (taken : Finset Nat) : Prop where
  inside : taken ⊆ Finset.range 16
  weights : ∀ i, w.1 i = floors i + if i ∈ taken then 1 else 0
  rems : ∀ i, w.2 i = if i ∈ taken then -1 else rem i
  largest : ∀ i ∈ taken, ∀ j < 16, j ∉ taken → rem j ≤ rem i

theorem HandedOut.step {floors : Nat → Int} {w : (Nat → Int) × (Nat → Int)} {taken : Finset Nat}
    (h : HandedOut floors rem w taken) (hrem : ∀ i, 0 ≤ rem i) (hcard : taken.card < 16) :
    ∃ i ∉ taken, HandedOut floors rem (handOut w) (insert i taken) := by
  -- one that is left has a remainder, those that are taken have -1
  have hnew : Vga.largest w.2 ∉ taken := by
    intro hmem
    obtain ⟨j, hj, hno⟩ := Finset.exists_mem_notMem_of_card_lt_card
      (show taken.card < (Finset.range 16).card by rwa [Finset.card_range])
    have hle := le_largest w.2 (Finset.mem_range.mp hj)
    rw [h.rems, h.rems, if_neg hno, if_pos hmem] at hle
    have := hrem j
    omega
  refine ⟨Vga.largest w.2, hnew, ⟨?_, fun i => ?_, fun i => ?_, fun i hi j hj hno => ?_⟩⟩
  · exact Finset.insert_subset (Finset.mem_range.mpr (largest_lt _)) h.inside
  · unfold handOut
    dsimp only
    by_cases hi : i = Vga.largest w.2
    · subst hi
      rw [Function.update_self, h.weights, if_neg hnew, if_pos (Finset.mem_insert_self _ _)]
      omega
    · rw [Function.update_of_ne hi, h.weights]
      simp only [Finset.mem_insert, hi, false_or]
  · unfold handOut
    dsimp only
    by_cases hi : i = Vga.largest w.2
    · subst hi
      rw [Function.update_self, if_pos (Finset.mem_insert_self _ _)]
    · rw [Function.update_of_ne hi, h.rems]
      simp only [Finset.mem_insert, hi, false_or]
  · obtain ⟨-, hno'⟩ := not_or.mp (fun hor => hno (Finset.mem_insert.mpr hor))
    rcases Finset.mem_insert.mp hi with rfl | hi
    · have hle := le_largest w.2 hj
      rwa [h.rems, h.rems, if_neg hno', if_neg hnew] at hle
    · exact h.largest i hi j hj hno'

theorem HandedOut.iterate (floors : Nat → Int) (hrem : ∀ i, 0 ≤ rem i) (n : Nat) (hn : n ≤ 16) :
    ∃ taken : Finset Nat, taken.card = n ∧
      HandedOut floors rem (handOut^[n] (floors, rem)) taken := by
  induction n with
  | zero =>
    exact ⟨∅, rfl, ⟨Finset.empty_subset _, fun i => by simp, fun i => by simp, nofun⟩⟩
  | succ n ih =>
    obtain ⟨taken, hcard, h⟩ := ih (by omega)
    obtain ⟨i, hno, h'⟩ := h.step hrem (by omega)
    rw [Function.iterate_succ_apply']
    exact ⟨insert i taken, by rw [Finset.card_insert_of_notMem hno, hcard], h'⟩

/-- What the weights are rounded to. -/
structure Apportions (weights normal : Nat → Int) : Prop where
  nonneg : ∀ i < 16, 0 ≤ normal i
  total : Vga.total normal = 64
  floors : ∀ i < 16, normal i = weights i / 32768 ∨ normal i = weights i / 32768 + 1
  /-- A colour that gets a pixel more has a remainder as large as one that does not. -/
  largest : ∀ i < 16, ∀ j < 16, normal i = weights i / 32768 + 1 → normal j = weights j / 32768 →
    weights j % 32768 ≤ weights i % 32768

/-- The floors are short of 64 by less than 16. -/
theorem deficit_le (h : total w = 2097152) :
    0 ≤ 64 - total (fun i => w i / 32768) ∧ 64 - total (fun i => w i / 32768) ≤ 15 := by
  have hsplit : total w = 32768 * total (fun i => w i / 32768) + total fun i => w i % 32768 := by
    unfold total
    rw [Finset.mul_sum, ← Finset.sum_add_distrib]
    exact Finset.sum_congr rfl fun i _ => (Int.mul_ediv_add_emod (w i) 32768).symm
  have hlow : 0 ≤ total fun i => w i % 32768 :=
    Finset.sum_nonneg fun i _ => Int.emod_nonneg _ (by decide)
  have hhigh : total (fun i => w i % 32768) ≤ 16 * 32767 := by
    have hle : ∀ i ∈ Finset.range 16, w i % 32768 ≤ 32767 := fun i _ => by omega
    have hsum := Finset.sum_le_card_nsmul (Finset.range 16) (fun i => w i % 32768) 32767 hle
    rw [Finset.card_range] at hsum
    exact hsum
  omega

theorem handedOut_normaliseWeights (hsum : total w = 2097152) :
    ∃ rem taken, HandedOut (fun i => w i / 32768) (fun i => w i % 32768)
      (normaliseWeights w, rem) taken := by
  have hdeficit := deficit_le hsum
  obtain ⟨taken, -, h⟩ := HandedOut.iterate (fun i => w i / 32768)
    (fun i => Int.emod_nonneg (w i) (show (32768 : Int) ≠ 0 by decide))
    (64 - total fun i => w i / 32768).toNat (by omega)
  exact ⟨_, taken, h⟩

theorem total_normaliseWeights (hsum : total w = 2097152) : total (normaliseWeights w) = 64 := by
  have hdeficit := deficit_le hsum
  unfold normaliseWeights
  dsimp only
  rw [total_iterate]
  dsimp only
  omega

theorem normaliseWeights_nonneg {i : Nat} (hsum : total w = 2097152) (h : 0 ≤ w i) :
    0 ≤ normaliseWeights w i := by
  obtain ⟨rem, taken, hout⟩ := handedOut_normaliseWeights hsum
  have hfloor := Int.ediv_nonneg h (show (0 : Int) ≤ 32768 by decide)
  have hweights : normaliseWeights w i = w i / 32768 + if i ∈ taken then 1 else 0 := hout.weights i
  rw [hweights]
  split_ifs <;> omega

theorem normaliseWeights_apportions (hnonneg : ∀ i < 16, 0 ≤ w i) (hsum : total w = 2097152) :
    Apportions w (normaliseWeights w) := by
  obtain ⟨rem, taken, h⟩ := handedOut_normaliseWeights hsum
  have hweights (i : Nat) : normaliseWeights w i = w i / 32768 + if i ∈ taken then 1 else 0 :=
    h.weights i
  refine ⟨fun i hi => normaliseWeights_nonneg hsum (hnonneg i hi), total_normaliseWeights hsum,
    fun i hi => ?_, fun i hi j hj hmore hless => ?_⟩
  · rw [hweights]
    split_ifs
    · exact Or.inr rfl
    · exact Or.inl (Int.add_zero _)
  · rw [hweights] at hmore hless
    refine h.largest i ?_ j hj fun hj => ?_
    · by_contra hno
      rw [if_neg hno] at hmore
      omega
    · rw [if_pos hj] at hless
      omega

end Normalise

/-! ## The eight corners -/

/-- What a channel of a corner may be. -/
def levels : List Nat := [0, 0x80, 0xFF]

/-- The colour that is given to `AddColour` for a corner. -/
def cornerColour (rgb : Nat × Nat × Nat) : Nat :=
  0xFF000000 + rgb.1 * 65536 + rgb.2.1 * 256 + rgb.2.2

/-- `pseduo_colours` and `pseduo_weights` -/
def corners (col : Nat) : List ((Nat × Nat × Nat) × Nat) :=
  let (ra, rb, rw) := getColourForChannel (getRed col)
  let (ga, gb, gw) := getColourForChannel (getGreen col)
  let (ba, bb, bw) := getColourForChannel (getBlue col)
  (List.range 8).map fun i =>
    ((if i % 2 = 1 then rb else ra, if i / 2 % 2 = 1 then gb else ga,
        if i / 4 % 2 = 1 then bb else ba),
      (if i % 2 = 1 then rw else 128 - rw) * (if i / 2 % 2 = 1 then gw else 128 - gw) *
        if i / 4 % 2 = 1 then bw else 128 - bw)

section Corners

variable {col c : Nat} {w : Int} {weights : Nat → Int}

theorem vgaWeights_eq (col : Nat) : vgaWeights col =
    (corners col).foldl (fun weights k => addColour (cornerColour k.1) k.2 weights) fun _ => 0 := by
  unfold vgaWeights corners
  rw [List.foldl_map]
  rfl

theorem getColourForChannel_spec {channel : Nat} (h : channel < 256) :
    (getColourForChannel channel).1 ∈ levels ∧ (getColourForChannel channel).2.1 ∈ levels ∧
      (getColourForChannel channel).2.2 ≤ 128 := by
  revert channel
  decide +kernel

theorem getRed_lt (col : Nat) : getRed col < 256 := Nat.mod_lt _ (by decide)

theorem getGreen_lt (col : Nat) : getGreen col < 256 := Nat.mod_lt _ (by decide)

theorem getBlue_lt (col : Nat) : getBlue col < 256 := Nat.mod_lt _ (by decide)

theorem corners_levels {k : (Nat × Nat × Nat) × Nat} (hk : k ∈ corners col) :
    k.1.1 ∈ levels ∧ k.1.2.1 ∈ levels ∧ k.1.2.2 ∈ levels := by
  have hite {p : Prop} [Decidable p] {m n : Nat} (hm : m ∈ levels) (hn : n ∈ levels) :
      (if p then m else n) ∈ levels := by
    split_ifs <;> assumption
  obtain ⟨hra, hrb, -⟩ := getColourForChannel_spec (getRed_lt col)
  obtain ⟨hga, hgb, -⟩ := getColourForChannel_spec (getGreen_lt col)
  obtain ⟨hba, hbb, -⟩ := getColourForChannel_spec (getBlue_lt col)
  obtain ⟨i, -, rfl⟩ := List.mem_map.mp hk
  exact ⟨hite hrb hra, hite hgb hga, hite hbb hba⟩

/-- The weights of the corners are those of a product of three sums of 128. -/
theorem sum_corners (col : Nat) : ((corners col).map fun k => (k.2 : Int)).sum = 2097152 := by
  obtain ⟨-, -, hr⟩ := getColourForChannel_spec (getRed_lt col)
  obtain ⟨-, -, hg⟩ := getColourForChannel_spec (getGreen_lt col)
  obtain ⟨-, -, hb⟩ := getColourForChannel_spec (getBlue_lt col)
  unfold corners
  dsimp only
  generalize (getColourForChannel (getRed col)).2.2 = rw at hr
  generalize (getColourForChannel (getGreen col)).2.2 = gw at hg
  generalize (getColourForChannel (getBlue col)).2.2 = bw at hb
  simp only [List.range_succ, List.range_zero, List.nil_append, List.cons_append, List.map_cons,
    List.map_nil, List.sum_cons, List.sum_nil]
  norm_num [hr, hg, hb]
  ring

theorem addPaletteColour_of_some {i : Nat} (hi : paletteIndex c = some i) :
    addPaletteColour c w weights = Function.update weights i (weights i + w) := by
  unfold addPaletteColour
  rw [hi]

theorem addColour_of_some {i : Nat} (hi : paletteIndex c = some i) :
    addColour c w weights = addPaletteColour c w weights := by
  unfold addColour
  rw [hi]

theorem addColour_of_none (hnone : paletteIndex c = none) :
    addColour c w weights = addPaletteColour (shade 0xFF c) (w.tdiv 4)
      (addPaletteColour (shade 0 c) (w - w.tdiv 4) weights) := by
  unfold addColour
  rw [hnone]

theorem total_addPaletteColour {i : Nat} (hi : paletteIndex c = some i) (hlt : i < 16) :
    total (addPaletteColour c w weights) = total weights + w := by
  have hmem : i ∈ Finset.range 16 := Finset.mem_range.mpr hlt
  rw [addPaletteColour_of_some hi]
  unfold total
  rw [Finset.sum_update_of_mem hmem, Finset.sdiff_singleton_eq_erase,
    ← Finset.add_sum_erase _ _ hmem]
  ring

theorem addPaletteColour_nonneg (h : ∀ i, 0 ≤ weights i) (hw : 0 ≤ w) (i : Nat) :
    0 ≤ addPaletteColour c w weights i := by
  unfold addPaletteColour
  cases paletteIndex c with
  | none => exact h i
  | some j =>
    dsimp only
    by_cases hij : i = j
    · rw [hij, Function.update_self]
      exact Int.add_nonneg (h j) hw
    · rw [Function.update_of_ne hij]
      exact h i

/-- A corner is a colour of the palette, or what is darker and what is lighter both are. -/
theorem paletteIndex_corner {r g b : Nat} (hr : r ∈ levels) (hg : g ∈ levels) (hb : b ∈ levels) :
    (∃ i < 16, paletteIndex (cornerColour (r, g, b)) = some i) ∨
      paletteIndex (cornerColour (r, g, b)) = none ∧
        (∃ i < 16, paletteIndex (shade 0 (cornerColour (r, g, b))) = some i) ∧
          ∃ i < 16, paletteIndex (shade 0xFF (cornerColour (r, g, b))) = some i := by
  have hall : ∀ r ∈ levels, ∀ g ∈ levels, ∀ b ∈ levels,
      (∃ i < 16, paletteIndex (cornerColour (r, g, b)) = some i) ∨
        paletteIndex (cornerColour (r, g, b)) = none ∧
          (∃ i < 16, paletteIndex (shade 0 (cornerColour (r, g, b))) = some i) ∧
            ∃ i < 16, paletteIndex (shade 0xFF (cornerColour (r, g, b))) = some i := by
    decide +kernel
  exact hall r hr g hg b hb

theorem addColour_corner {r g b : Nat} (hr : r ∈ levels) (hg : g ∈ levels) (hb : b ∈ levels)
    (hw : 0 ≤ w) (h : ∀ i, 0 ≤ weights i) :
    total (addColour (cornerColour (r, g, b)) w weights) = total weights + w ∧
      ∀ i, 0 ≤ addColour (cornerColour (r, g, b)) w weights i := by
  have hquarter : 0 ≤ w.tdiv 4 ∧ 0 ≤ w - w.tdiv 4 := by
    rw [Int.tdiv_eq_ediv_of_nonneg hw]
    omega
  rcases paletteIndex_corner hr hg hb with ⟨i, hi, heq⟩ | ⟨heq, ⟨i, hi, hdark⟩, j, hj, hlight⟩
  · rw [addColour_of_some heq]
    exact ⟨total_addPaletteColour heq hi, addPaletteColour_nonneg h hw⟩
  · rw [addColour_of_none heq]
    refine ⟨?_, addPaletteColour_nonneg (addPaletteColour_nonneg h hquarter.2) hquarter.1⟩
    rw [total_addPaletteColour hlight hj, total_addPaletteColour hdark hi]
    omega

/-- All of the weight is given to colours of the palette. -/
theorem vgaWeights_spec (col : Nat) :
    total (vgaWeights col) = 2097152 ∧ ∀ i, 0 ≤ vgaWeights col i := by
  have hfold (l : List ((Nat × Nat × Nat) × Nat))
      (hl : ∀ k ∈ l, k.1.1 ∈ levels ∧ k.1.2.1 ∈ levels ∧ k.1.2.2 ∈ levels)
      (weights : Nat → Int) (h : ∀ i, 0 ≤ weights i) :
      total (l.foldl (fun weights k => addColour (cornerColour k.1) k.2 weights) weights) =
          total weights + (l.map fun k => (k.2 : Int)).sum ∧
        ∀ i, 0 ≤ l.foldl (fun weights k => addColour (cornerColour k.1) k.2 weights) weights i := by
    induction l generalizing weights with
    | nil => exact ⟨(Int.add_zero _).symm, h⟩
    | cons k l ih =>
      obtain ⟨⟨hr, hg, hb⟩, hl⟩ := List.forall_mem_cons.mp hl
      obtain ⟨htotal, hnonneg⟩ := addColour_corner hr hg hb (Int.natCast_nonneg k.2) h
      obtain ⟨htotal', hnonneg'⟩ := ih hl _ hnonneg
      refine ⟨htotal'.trans ?_, hnonneg'⟩
      rw [htotal, List.map_cons, List.sum_cons, Int.add_assoc]
  rw [vgaWeights_eq]
  obtain ⟨htotal, hnonneg⟩ := hfold (corners col) (fun k hk => corners_levels hk) (fun _ => 0)
    fun _ => le_rfl
  refine ⟨htotal.trans ?_, hnonneg⟩
  rw [sum_corners]
  rfl

end Corners

/-! ## The cells -/

/-- A place and a colour that is written there. -/
def store (out : Nat → Nat) (cell : Nat × Nat) : Nat → Nat := Function.update out cell.1 cell.2

/-- What `FillDitherUsingWeights` writes. -/
def fillCells (weights : Nat → Int) : List (Nat × Nat) :=
  bayerInverse.zip (vgaLumOrder.flatMap fun c => List.replicate (rounds (weights c)) c)

/-- What `memset(outbuffer, c, 64)` writes. -/
def memsetCells (c : Nat) : List (Nat × Nat) := (List.range 64).map fun p => (p, c)

/-- What `GetGreyDither` writes. -/
def greyCells (channel : Nat) : List (Nat × Nat) :=
  if channel = 0xFF then memsetCells 15
  else if channel = 0 then memsetCells 0
  else if channel = 0x80 then memsetCells 8
  else if channel = 0xC0 then memsetCells 7
  else if channel > 0xC0 then
    fillCells (twoWeights 7 (0x40 - correctGamma64 (channel - 0xC0)) 15
      (correctGamma64 (channel - 0xC0 + 1)))
  else if channel > 0x80 then
    fillCells (twoWeights 7 (correctGamma64 (channel - 0x80)) 8
      (0x40 - correctGamma64 (channel - 0x80)))
  else
    fillCells (twoWeights 8 (correctGamma64 (channel / 2)) 0 (0x40 - correctGamma64 (channel / 2)))

/-- The channels are equal. -/
def Grey (col : Nat) : Prop := getRed col = getGreen col ∧ getGreen col = getBlue col

instance (col : Nat) : Decidable (Grey col) := inferInstanceAs (Decidable (_ ∧ _))

/-- What `GetDither` writes, in order. -/
def ditherCells (col : Nat) : List (Nat × Nat) :=
  if Grey col then greyCells (getRed col) else fillCells (normaliseWeights (vgaWeights col))

/-- How a colour is dithered. -/
structure FillsTile (col : Nat) : Prop where
  writes : ∀ out, getDither col out = (ditherCells col).foldl store out
  once : ((ditherCells col).map Prod.fst).Perm (List.range 64)
  palette : ∀ cell ∈ ditherCells col, cell.2 < 16
  fair : ¬ Grey col → ∀ out, ∀ c < 16, (((List.range 64).countP fun p => getDither col out p = c :
    Nat) : Int) = normaliseWeights (vgaWeights col) c

section Cells

variable {weights : Nat → Int} {c : Nat}

theorem writeTile_eq (cs ps : List Nat) (out : Nat → Nat) :
    writeTile cs ps out = (ps.zip cs).foldl store out := by
  induction cs generalizing ps out with
  | nil =>
    rw [List.zip_nil_right]
    rfl
  | cons c cs ih =>
    cases ps with
    | nil => rfl
    | cons p ps => exact ih ps _

theorem foldl_store_of_notMem {cells : List (Nat × Nat)} {p : Nat}
    (h : p ∉ cells.map Prod.fst) (out : Nat → Nat) : cells.foldl store out p = out p := by
  induction cells generalizing out with
  | nil => rfl
  | cons cell cells ih =>
    rw [List.map_cons, List.mem_cons, not_or] at h
    rw [List.foldl_cons, ih h.2, store, Function.update_of_ne h.1]

theorem foldl_store_of_mem {cells : List (Nat × Nat)} (hnodup : (cells.map Prod.fst).Nodup)
    {cell : Nat × Nat} (h : cell ∈ cells) (out : Nat → Nat) :
    cells.foldl store out cell.1 = cell.2 := by
  induction cells generalizing out with
  | nil => exact absurd h List.not_mem_nil
  | cons first cells ih =>
    rw [List.map_cons, List.nodup_cons] at hnodup
    rw [List.foldl_cons]
    rcases List.mem_cons.mp h with rfl | h
    · rw [foldl_store_of_notMem hnodup.1, store, Function.update_self]
    · exact ih hnodup.2 h _

theorem memsetTile_eq (c : Nat) (out : Nat → Nat) :
    memsetTile c out = (memsetCells c).foldl store out := by
  have hplaces : (memsetCells c).map Prod.fst = List.range 64 := by
    unfold memsetCells
    rw [List.map_map]
    exact List.map_id _
  have hnodup : ((memsetCells c).map Prod.fst).Nodup := hplaces ▸ List.nodup_range
  funext p
  unfold memsetTile
  split_ifs with hp
  · have hmem : (p, c) ∈ memsetCells c := List.mem_map.mpr ⟨p, List.mem_range.mpr hp, rfl⟩
    exact (foldl_store_of_mem hnodup hmem out).symm
  · refine (foldl_store_of_notMem ?_ out).symm
    rw [hplaces]
    exact fun hmem => hp (List.mem_range.mp hmem)

theorem getDither_eq (col : Nat) (out : Nat → Nat) :
    getDither col out = (ditherCells col).foldl store out := by
  have hfill (weights : Nat → Int) :
      fillDitherUsingWeights weights out = (fillCells weights).foldl store out :=
    writeTile_eq _ _ out
  have hgrey (channel : Nat) :
      getGreyDither channel out = (greyCells channel).foldl store out := by
    unfold getGreyDither greyCells
    split_ifs
    · exact memsetTile_eq 15 out
    · exact memsetTile_eq 0 out
    · exact memsetTile_eq 8 out
    · exact memsetTile_eq 7 out
    · exact hfill _
    · exact hfill _
    · exact hfill _
  unfold getDither ditherCells
  by_cases h : Grey col
  · rw [if_pos h]
    exact (if_pos h).trans (hgrey _)
  · rw [if_neg h]
    exact (if_neg h).trans (hfill _)

theorem perm_bayerInverse : bayerInverse.Perm (List.range 64) := by decide

theorem perm_vgaLumOrder : vgaLumOrder.Perm (List.range 16) := by decide

/-- How many pixels there are colours for. -/
theorem length_colours (h : ∀ i, 0 ≤ weights i) :
    ((vgaLumOrder.flatMap fun c => List.replicate (rounds (weights c)) c).length : Int) =
      total weights := by
  have hrounds (c : Nat) : (rounds (weights c) : Int) = weights c := by
    have := h c
    unfold rounds
    rw [if_neg (by omega)]
    omega
  have hlen : (vgaLumOrder.flatMap fun c => List.replicate (rounds (weights c)) c).length =
      ((List.range 16).map fun c => rounds (weights c)).sum := by
    rw [List.length_flatMap, ← (perm_vgaLumOrder.map fun c => rounds (weights c)).sum_eq]
    simp only [List.length_replicate]
  have hcast : (((List.range 16).map fun c => rounds (weights c)).sum : Int) =
      ((List.range 16).map fun c => weights c).sum := by
    simp only [List.range_succ, List.range_zero, List.nil_append, List.cons_append, List.map_cons,
      List.map_nil, List.sum_cons, List.sum_nil, Int.natCast_add, hrounds]
    rfl
  rw [hlen, hcast]
  rfl

/-- Each place has one colour if there are colours enough. -/
theorem fillCells_places (h : ∀ i, 0 ≤ weights i) (htotal : 64 ≤ total weights) :
    ((fillCells weights).map Prod.fst).Perm (List.range 64) := by
  have hlen := length_colours h
  unfold fillCells
  rw [List.map_fst_zip (by rw [show bayerInverse.length = 64 from rfl]; omega)]
  exact perm_bayerInverse

theorem fillCells_lt {cell : Nat × Nat} (h : cell ∈ fillCells weights) : cell.2 < 16 := by
  obtain ⟨-, hc⟩ := List.of_mem_zip (a := cell.1) (b := cell.2) h
  obtain ⟨c, hc, hcell⟩ := List.mem_flatMap.mp hc
  rw [List.eq_of_mem_replicate hcell]
  exact List.mem_range.mp (perm_vgaLumOrder.mem_iff.mp hc)

/-- If there are just as many colours as places, each is used as often as its weight says. -/
theorem count_fillCells (h : ∀ i, 0 ≤ weights i) (htotal : total weights = 64) (hc : c < 16) :
    (((fillCells weights).countP fun cell => cell.2 = c : Nat) : Int) = weights c := by
  have hlen := length_colours h
  have hsnd : (fillCells weights).map Prod.snd =
      vgaLumOrder.flatMap fun c => List.replicate (rounds (weights c)) c := by
    unfold fillCells
    exact List.map_snd_zip (by rw [show bayerInverse.length = 64 from rfl]; omega)
  have hcount : ((fillCells weights).countP fun cell => cell.2 = c) =
      ((fillCells weights).map Prod.snd).count c := by
    rw [List.count, List.countP_map]
    exact List.countP_congr fun cell _ => by simp
  have hone : (vgaLumOrder.map fun d => if d = c then rounds (weights d) else 0).sum =
      rounds (weights c) := by
    rw [(perm_vgaLumOrder.map _).sum_eq]
    show ∑ d ∈ Finset.range 16, (if d = c then rounds (weights d) else 0) = _
    rw [Finset.sum_ite_eq', if_pos (Finset.mem_range.mpr hc)]
  rw [hcount, hsnd, List.count_flatMap]
  have hmap : (List.count c ∘ fun c => List.replicate (rounds (weights c)) c) =
      fun d => if d = c then rounds (weights d) else 0 := by
    funext d
    rw [Function.comp_apply, List.count_replicate]
    simp only [beq_iff_eq]
  have := h c
  rw [hmap, hone]
  unfold rounds
  rw [if_neg (by omega)]
  omega

/-- A grey tile has as many colours as places, or more. -/
theorem greyCells_spec {channel : Nat} (h : channel < 256) :
    ((greyCells channel).map Prod.fst).Perm (List.range 64) ∧
      ∀ cell ∈ greyCells channel, cell.2 < 16 := by
  have hmemset {c : Nat} (hc : c < 16) : ((memsetCells c).map Prod.fst).Perm (List.range 64) ∧
      ∀ cell ∈ memsetCells c, cell.2 < 16 := by
    unfold memsetCells
    rw [List.map_map]
    refine ⟨List.Perm.of_eq (List.map_id _), fun cell hcell => ?_⟩
    obtain ⟨p, -, rfl⟩ := List.mem_map.mp hcell
    exact hc
  have hfill {i j : Nat} {wi wj : Int} (hi : i < 16) (hj : j < 16) (hij : i ≠ j) (hwi : 0 ≤ wi)
      (hwj : 0 ≤ wj) (hsum : 64 ≤ wi + wj) :
      ((fillCells (twoWeights i wi j wj)).map Prod.fst).Perm (List.range 64) ∧
        ∀ cell ∈ fillCells (twoWeights i wi j wj), cell.2 < 16 := by
    refine ⟨fillCells_places (fun c => ?_) ?_, fun cell => fillCells_lt⟩
    · unfold twoWeights
      split_ifs <;> omega
    · have htwo : total (twoWeights i wi j wj) = wi + wj := by
        have hsplit (c : Nat) : twoWeights i wi j wj c =
            (if c = i then wi else 0) + if c = j then wj else 0 := by
          unfold twoWeights
          split_ifs <;> omega
        unfold total
        simp only [hsplit]
        rw [Finset.sum_add_distrib, Finset.sum_ite_eq', Finset.sum_ite_eq',
          if_pos (Finset.mem_range.mpr hi), if_pos (Finset.mem_range.mpr hj)]
      omega
  have hgamma : ∀ n ≤ 64, correctGamma64 n ≤ 64 := by decide
  have hmono : correctGamma64 (channel - 0xC0) ≤ correctGamma64 (channel - 0xC0 + 1) :=
    Nat.div_le_div_right (Nat.mul_le_mul (Nat.le_succ _) (Nat.le_succ _))
  have h1 := hgamma (channel - 0xC0) (by omega)
  unfold greyCells
  split_ifs with h2 h3 h4 h5 h6 h7
  · exact hmemset (by decide)
  · exact hmemset (by decide)
  · exact hmemset (by decide)
  · exact hmemset (by decide)
  · exact hfill (by decide) (by decide) (by decide) (by omega) (by omega) (by omega)
  · have h8 := hgamma (channel - 0x80) (by omega)
    exact hfill (by decide) (by decide) (by decide) (by omega) (by omega) (by omega)
  · have h8 := hgamma (channel / 2) (by omega)
    exact hfill (by decide) (by decide) (by decide) (by omega) (by omega) (by omega)

end Cells

/-! ## The colours of the corners -/

/-- The weight is added to the colour of the palette. -/
def addEntry (rgb : Nat × Nat × Nat) (w : Int) (weights : Nat → Int) : Nat → Int :=
  Function.update weights (vgaPalette.idxOf rgb) (weights (vgaPalette.idxOf rgb) + w)

/-- Some channels are half as bright as can be, and some are as bright as can be. -/
def Mixed (rgb : Nat × Nat × Nat) : Prop :=
  (rgb.1 = 0x80 ∨ rgb.2.1 = 0x80 ∨ rgb.2.2 = 0x80) ∧
    (rgb.1 = 0xFF ∨ rgb.2.1 = 0xFF ∨ rgb.2.2 = 0xFF)

instance (rgb : Nat × Nat × Nat) : Decidable (Mixed rgb) := inferInstanceAs (Decidable (_ ∧ _))

/-- The channels that are half as bright as can be are set to `v`. -/
def halves (v : Nat) (rgb : Nat × Nat × Nat) : Nat × Nat × Nat :=
  (if rgb.1 = 0x80 then v else rgb.1, if rgb.2.1 = 0x80 then v else rgb.2.1,
    if rgb.2.2 = 0x80 then v else rgb.2.2)

/-- Where the weight of a corner belongs. -/
def addCorner (rgb : Nat × Nat × Nat) (w : Int) (weights : Nat → Int) : Nat → Int :=
  if Mixed rgb then
    addEntry (halves 0xFF rgb) (w / 4) (addEntry (halves 0 rgb) (w - w / 4) weights)
  else addEntry rgb w weights

/-- The weights of the palette by the corners around the colour. -/
def trilinear (col : Nat) : Nat → Int :=
  (corners col).foldl (fun weights k => addCorner k.1 k.2 weights) fun _ => 0

theorem fillsTile (col : Nat) : FillsTile col := by
  obtain ⟨htotal, hnonneg⟩ := vgaWeights_spec col
  have hnormal (i : Nat) := normaliseWeights_nonneg htotal (hnonneg i)
  have hsum := total_normaliseWeights htotal
  have hcells : ((ditherCells col).map Prod.fst).Perm (List.range 64) ∧
      ∀ cell ∈ ditherCells col, cell.2 < 16 := by
    unfold ditherCells
    split_ifs
    · exact greyCells_spec (getRed_lt col)
    · exact ⟨fillCells_places hnormal hsum.ge, fun cell => fillCells_lt⟩
  refine ⟨getDither_eq col, hcells.1, hcells.2, fun hgrey out c hc => ?_⟩
  have hnodup : ((ditherCells col).map Prod.fst).Nodup :=
    hcells.1.nodup_iff.mpr List.nodup_range
  have hcount := count_fillCells hnormal hsum hc
  rw [← hcount, ← hcells.1.countP_eq, List.countP_map, Nat.cast_inj]
  have hfill : ditherCells col = fillCells (normaliseWeights (vgaWeights col)) := if_neg hgrey
  rw [← hfill]
  refine List.countP_congr fun cell hcell => ?_
  rw [Function.comp_apply, getDither_eq, foldl_store_of_mem hnodup hcell]

/--
**Tiles.** The weights are rounded to numbers that add up to 64, the largest remainders up, and a
tile has each of its cells written once, with the colours as often as these numbers say.
-/
theorem dither_filled {weights : Nat → Int} (hnonneg : ∀ i < 16, 0 ≤ weights i)
    (hsum : total weights = 2097152) (col : Nat) :
    Apportions weights (normaliseWeights weights) ∧ FillsTile col :=
  ⟨normaliseWeights_apportions hnonneg hsum, fillsTile col⟩

theorem dither_filled_purple :
    Apportions (vgaWeights 0xFF903060) (normaliseWeights (vgaWeights 0xFF903060)) ∧
      FillsTile 0xFF903060 :=
  dither_filled (fun i _ => (vgaWeights_spec 0xFF903060).2 i) (vgaWeights_spec 0xFF903060).1
    0xFF903060

/-! ## Where the weights go -/

/-- The weights differ in `g`, which is at 7 in the place of 8. -/
def Astray (weights weights' : Nat → Int) (g : Int) : Prop :=
  ∀ i, weights i + (if i = 8 then g else 0) = weights' i + if i = 7 then g else 0

section Astray

variable {weights weights' : Nat → Int} {g w : Int}

theorem Astray.add (h : Astray weights weights' g) (j : Nat) (w : Int) :
    Astray (Function.update weights j (weights j + w))
      (Function.update weights' j (weights' j + w)) g := by
  intro i
  have hi := h i
  by_cases hij : i = j
  · subst hij
    rw [Function.update_self, Function.update_self]
    omega
  · rw [Function.update_of_ne hij, Function.update_of_ne hij]
    exact hi

theorem Astray.stray (h : Astray weights weights' g) (w : Int) :
    Astray (Function.update weights 7 (weights 7 + w))
      (Function.update weights' 8 (weights' 8 + w)) (g + w) := by
  intro i
  have hi := h i
  by_cases h7 : i = 7
  · subst h7
    rw [Function.update_self, Function.update_of_ne (by decide)]
    simp only [if_true] at hi ⊢
    omega
  · rw [Function.update_of_ne h7, if_neg h7]
    rw [if_neg h7] at hi
    by_cases h8 : i = 8
    · subst h8
      rw [Function.update_self]
      simp only [if_true] at hi ⊢
      omega
    · rw [Function.update_of_ne h8, if_neg h8]
      rwa [if_neg h8] at hi

/-- How the tests of `AddColour` tell the corners apart: only the grey one is taken for another. -/
theorem paletteIndex_corner_eq {r g b : Nat} (hr : r ∈ levels) (hg : g ∈ levels) (hb : b ∈ levels)
    (hne : (r, g, b) ≠ (0x80, 0x80, 0x80)) :
    if Mixed (r, g, b) then
      paletteIndex (cornerColour (r, g, b)) = none ∧
        (∀ v ∈ [0, 0xFF], paletteIndex (shade v (cornerColour (r, g, b))) =
          some (vgaPalette.idxOf (halves v (r, g, b))))
    else paletteIndex (cornerColour (r, g, b)) = some (vgaPalette.idxOf (r, g, b)) := by
  have hall : ∀ r ∈ levels, ∀ g ∈ levels, ∀ b ∈ levels, (r, g, b) ≠ (0x80, 0x80, 0x80) →
      if Mixed (r, g, b) then
        paletteIndex (cornerColour (r, g, b)) = none ∧
          (∀ v ∈ [0, 0xFF], paletteIndex (shade v (cornerColour (r, g, b))) =
            some (vgaPalette.idxOf (halves v (r, g, b))))
      else paletteIndex (cornerColour (r, g, b)) = some (vgaPalette.idxOf (r, g, b)) := by
    decide +kernel
  exact hall r hr g hg b hb hne

theorem Astray.corner (h : Astray weights weights' g) {rgb : Nat × Nat × Nat}
    (hr : rgb.1 ∈ levels) (hg : rgb.2.1 ∈ levels) (hb : rgb.2.2 ∈ levels) (hw : 0 ≤ w) :
    Astray (addColour (cornerColour rgb) w weights) (addCorner rgb w weights')
      (g + if rgb = (0x80, 0x80, 0x80) then w else 0) := by
  by_cases hgrey : rgb = (0x80, 0x80, 0x80)
  · subst hgrey
    have hsilver : paletteIndex (cornerColour (0x80, 0x80, 0x80)) = some 7 := by decide
    rw [if_pos rfl, addColour_of_some hsilver, addPaletteColour_of_some hsilver]
    exact h.stray w
  · have htests := paletteIndex_corner_eq hr hg hb hgrey
    rw [if_neg hgrey, Int.add_zero]
    unfold addCorner
    by_cases hmixed : Mixed rgb
    · rw [if_pos hmixed] at htests ⊢
      obtain ⟨hnone, hshades⟩ := htests
      have hdark := hshades 0 List.mem_cons_self
      have hlight := hshades 0xFF (List.mem_cons_of_mem _ List.mem_cons_self)
      rw [addColour_of_none hnone, addPaletteColour_of_some hlight,
        addPaletteColour_of_some hdark, Int.tdiv_eq_ediv_of_nonneg hw]
      exact (h.add _ _).add _ _
    · rw [if_neg hmixed] at htests ⊢
      rw [addColour_of_some htests, addPaletteColour_of_some htests]
      exact h.add _ _

end Astray

/-- The weight of the corner `0x808080`. -/
def greyWeight (col : Nat) : Int :=
  ((corners col).map fun k => if k.1 = (0x80, 0x80, 0x80) then (k.2 : Int) else 0).sum

theorem vgaWeights_astray (col : Nat) :
    Astray (vgaWeights col) (trilinear col) (greyWeight col) := by
  have hfold (l : List ((Nat × Nat × Nat) × Nat))
      (hl : ∀ k ∈ l, k.1.1 ∈ levels ∧ k.1.2.1 ∈ levels ∧ k.1.2.2 ∈ levels)
      {weights weights' : Nat → Int} {g : Int} (h : Astray weights weights' g) :
      Astray (l.foldl (fun weights k => addColour (cornerColour k.1) k.2 weights) weights)
        (l.foldl (fun weights k => addCorner k.1 k.2 weights) weights')
        (g + (l.map fun k => if k.1 = (0x80, 0x80, 0x80) then (k.2 : Int) else 0).sum) := by
    induction l generalizing weights weights' g with
    | nil => rwa [List.map_nil, List.sum_nil, Int.add_zero]
    | cons k l ih =>
      obtain ⟨⟨hr, hg, hb⟩, hl⟩ := List.forall_mem_cons.mp hl
      rw [List.map_cons, List.sum_cons, ← Int.add_assoc]
      exact ih hl (h.corner hr hg hb (Int.natCast_nonneg k.2))
  have hzero : Astray (fun _ => 0) (fun _ => 0) 0 := fun i => by simp
  have hall := hfold (corners col) (fun k hk => corners_levels hk) hzero
  rw [vgaWeights_eq]
  rwa [Int.zero_add] at hall

/-- How much of a channel goes to the corners where it is `0x80`. -/
def halfWeight (channel : Nat) : Int :=
  let (a, b, w) := getColourForChannel channel
  (if a = 0x80 then 128 - w else 0) + if b = 0x80 then (w : Int) else 0

theorem halfWeight_eq_zero {channel : Nat} (h : channel < 256) :
    halfWeight channel = 0 ↔ channel ≤ 10 ∨ channel = 255 := by
  revert channel
  decide +kernel

theorem greyWeight_eq (col : Nat) : greyWeight col =
    halfWeight (getRed col) * halfWeight (getGreen col) * halfWeight (getBlue col) := by
  obtain ⟨-, -, hr⟩ := getColourForChannel_spec (getRed_lt col)
  obtain ⟨-, -, hg⟩ := getColourForChannel_spec (getGreen_lt col)
  obtain ⟨-, -, hb⟩ := getColourForChannel_spec (getBlue_lt col)
  have hterm (x y z u v w : Nat) :
      (if (x, y, z) = (0x80, 0x80, 0x80) then ((u * v * w : Nat) : Int) else 0) =
        (if x = 0x80 then (u : Int) else 0) * (if y = 0x80 then (v : Int) else 0) *
          if z = 0x80 then (w : Int) else 0 := by
    by_cases h : x = 0x80 ∧ y = 0x80 ∧ z = 0x80
    · obtain ⟨rfl, rfl, rfl⟩ := h
      simp
    · rw [if_neg (by simpa using h)]
      by_cases hx : x = 0x80
      · by_cases hy : y = 0x80
        · rw [if_neg fun hz => h ⟨hx, hy, hz⟩, mul_zero]
        · rw [if_neg hy, mul_zero, zero_mul]
      · rw [if_neg hx, zero_mul, zero_mul]
  unfold greyWeight corners halfWeight
  dsimp only
  generalize getColourForChannel (getRed col) = r at hr
  generalize getColourForChannel (getGreen col) = g at hg
  generalize getColourForChannel (getBlue col) = b at hb
  rw [List.map_map]
  refine (congrArg List.sum (List.map_congr_left fun i _ => hterm _ _ _ _ _ _)).trans ?_
  simp only [List.range_succ, List.range_zero, List.nil_append, List.cons_append, List.map_cons,
    List.map_nil, List.sum_cons, List.sum_nil]
  norm_num [hr, hg, hb, -mul_ite, -ite_mul]
  ring

/--
**Corners.** The weights are those of the corners around the colour, unless some of the weight is
that of the corner `0x808080`, which goes to the silver entry. A colour has none of it if one of its
channels is next to nothing, or as bright as can be.
-/
theorem vgaWeights_trilinear_iff (col : Nat) :
    (∀ i < 16, vgaWeights col i = trilinear col i) ↔
      ∃ channel ∈ [getRed col, getGreen col, getBlue col], channel ≤ 10 ∨ channel = 255 := by
  have hastray := vgaWeights_astray col
  have hzero : (∀ i < 16, vgaWeights col i = trilinear col i) ↔ greyWeight col = 0 := by
    constructor
    · intro h
      have h7 := hastray 7
      rw [h 7 (by decide)] at h7
      simpa using h7.symm
    · intro h i _
      have hi := hastray i
      rw [h] at hi
      simpa using hi
  rw [hzero, greyWeight_eq, mul_eq_zero, mul_eq_zero, halfWeight_eq_zero (getRed_lt col),
    halfWeight_eq_zero (getGreen_lt col), halfWeight_eq_zero (getBlue_lt col)]
  simp only [List.mem_cons, List.not_mem_nil, or_false, exists_eq_or_imp, exists_eq_left, or_assoc]

theorem not_trilinear_dark : ¬ ∀ col, ¬ Grey col → ∀ i < 16, vgaWeights col i = trilinear col i :=
  fun h => absurd (h 0xFF404041 (by decide) 8 (by decide)) (by decide +kernel)

end Nolrem.Vga
