import Mathlib.Data.List.TakeWhile
import Mathlib.Tactic.Common
import Nolrem.Word
import Nolrem.Lib.Tiling
import Nolrem.Lib.Transition

/-!
# Virtual arenas

`kernel/mem/allocvirtex.c`. An arena is a list of free ranges sorted by address.
`AllocVirtEx` takes the first range that is large enough; `FreeVirtEx` puts a range back
and merges it with its neighbours.

The list is the chain of `struct virt_range` nodes from `free_list_head` on. `node` is the
address of the node itself, which the VMM heap gives out and takes back.
-/

namespace Nolrem.Virt

open Nolrem.Lib

/-! ## The code -/

/-- `struct virt_range`, together with its own address. -/
structure VirtRange where
  node : Nat
  startAddr : Nat
  pages : Nat
deriving DecidableEq, Repr

/-- `(bytes + PAGE_SIZE - 1) / PAGE_SIZE` on `size_t`. -/
def pagesFor (bytes : Nat) : Nat := wsub (wadd bytes pageSize) 1 / pageSize

/-- `InitVirtArena`: one free range. `node` is what `AllocVmmHeap` returned for it. -/
def initVirtArena (node start bytes : Nat) : List VirtRange :=
  [{ node, startAddr := start, pages := pagesFor bytes }]

/--
The scan of `AllocVirtEx`: the address found, the list after it, and the node to give back
to the VMM heap when the range was used up.
-/
def takeFirstFit (pages : Nat) : List VirtRange → Option (Nat × List VirtRange × Option Nat)
  | [] => none
  | curr :: rest =>
    if pages ≤ curr.pages then
      if curr.pages = pages then
        some (curr.startAddr, rest, some curr.node)
      else
        some (curr.startAddr,
          { curr with
            startAddr := wadd curr.startAddr (wmul pages pageSize)
            pages := wsub curr.pages pages } :: rest, none)
    else
      match takeFirstFit pages rest with
      | none => none
      | some (retv, rest', freed) => some (retv, curr :: rest', freed)

/-- `AllocVirtEx`: 0 when no range is large enough. -/
def allocVirtEx (freeList : List VirtRange) (bytes : Nat) : Nat × List VirtRange :=
  match takeFirstFit (pagesFor bytes) freeList with
  | none => (0, freeList)
  | some (retv, freeList', _) => (retv, freeList')

/-- What `FreeVirtEx` does once `prev` and `curr` are found. -/
inductive FreePlan where
  | mergeBoth (freed : Nat) (freeList : List VirtRange)
  | mergeOne (freeList : List VirtRange)
  | insert (freeList : Nat → List VirtRange)

/-- `prev` of the scan: the last range that starts below `startAddr`. -/
def prevOf (freeList : List VirtRange) (startAddr : Nat) : Option VirtRange :=
  (freeList.takeWhile fun r => r.startAddr < startAddr).getLast?

/-- `curr` of the scan and what follows it. -/
def currOf (freeList : List VirtRange) (startAddr : Nat) : List VirtRange :=
  freeList.dropWhile fun r => r.startAddr < startAddr

/-- The ranges in front of `prev`. -/
def beforePrev (freeList : List VirtRange) (startAddr : Nat) : List VirtRange :=
  (freeList.takeWhile fun r => r.startAddr < startAddr).dropLast

/-- `merged_left` of `FreeVirtEx`. -/
def mergedLeft (freeList : List VirtRange) (startAddr : Nat) : Bool :=
  match prevOf freeList startAddr with
  | none => false
  | some prev => wadd prev.startAddr (wmul prev.pages pageSize) = startAddr

/-- `merged_right` of `FreeVirtEx`. -/
def mergedRight (freeList : List VirtRange) (startAddr endAddr : Nat) : Bool :=
  match currOf freeList startAddr with
  | [] => false
  | curr :: _ => endAddr = curr.startAddr

/-- The part of `FreeVirtEx` under the arena's lock, up to the allocation of a new node. -/
def freePlan (freeList : List VirtRange) (startAddr bytes : Nat) : FreePlan :=
  let pages := pagesFor bytes
  let endAddr := wadd startAddr (wmul pages pageSize)
  let left := mergedLeft freeList startAddr
  let right := mergedRight freeList startAddr endAddr
  let before := beforePrev freeList startAddr
  match prevOf freeList startAddr, currOf freeList startAddr with
  | some prev, curr :: after =>
    if left && right then
      .mergeBoth curr.node
        (before ++ { prev with pages := wadd prev.pages (wadd pages curr.pages) } :: after)
    else if left then
      .mergeOne (before ++ { prev with pages := wadd prev.pages pages } :: curr :: after)
    else if right then
      .mergeOne
        (before ++ prev :: { curr with startAddr, pages := wadd curr.pages pages } :: after)
    else .insert fun node => before ++ prev :: { node, startAddr, pages } :: curr :: after
  | some prev, [] =>
    if left then .mergeOne (before ++ [{ prev with pages := wadd prev.pages pages }])
    else .insert fun node => before ++ [prev, { node, startAddr, pages }]
  | none, curr :: after =>
    if right then
      .mergeOne ({ curr with startAddr, pages := wadd curr.pages pages } :: after)
    else .insert fun node => { node, startAddr, pages } :: curr :: after
  | none, [] => .insert fun node => [{ node, startAddr, pages }]

/-- `FreeVirtEx`, where `AllocVmmHeap` returns `node` when a new node is needed. -/
def freeVirtEx (freeList : List VirtRange) (startAddr bytes node : Nat) : List VirtRange :=
  match freePlan freeList startAddr bytes with
  | .mergeBoth _ l => l
  | .mergeOne l => l
  | .insert l => l node

/-! ## Ranges as sets of addresses -/

/-- The first address after the range. -/
def VirtRange.endAddr (r : VirtRange) : Nat := r.startAddr + r.pages * 4096

/-- The addresses of a range. -/
def VirtRange.span (r : VirtRange) : Nat × Nat := (r.startAddr, r.endAddr)

/-- Sorted by address, no two ranges overlapping or adjacent, none empty. -/
structure Separated (l : List VirtRange) : Prop where
  apart : l.Pairwise fun a b => a.endAddr < b.startAddr
  nonempty : ∀ r ∈ l, 0 < r.pages

theorem separated_cons {r : VirtRange} {l : List VirtRange} :
    Separated (r :: l) ↔
      0 < r.pages ∧ (∀ q ∈ l, r.endAddr < q.startAddr) ∧ Separated l := by
  constructor
  · rintro ⟨ha, hn⟩
    obtain ⟨h1, h2⟩ := List.pairwise_cons.mp ha
    exact ⟨hn r (by simp), h1, h2, fun q hq => hn q (by simp [hq])⟩
  · rintro ⟨h1, h2, h3, h4⟩
    refine ⟨List.pairwise_cons.mpr ⟨h2, h3⟩, ?_⟩
    intro q hq
    rcases List.mem_cons.mp hq with rfl | hq
    · exact h1
    · exact h4 q hq

theorem pagesFor_eq {bytes : Nat} (h : bytes ≤ 4294963200) :
    pagesFor bytes = (bytes + 4095) / 4096 := by
  unfold pagesFor wsub wadd pageSize
  omega

/-! ## `AllocVirtEx` -/

/-- What the scan of `AllocVirtEx` takes out is exactly the range it returns. -/
theorem takeFirstFit_spec {pages : Nat} (hp : 0 < pages) :
    ∀ {l : List VirtRange} {retv : Nat} {l' : List VirtRange} {freed : Option Nat},
    Separated l → (∀ r ∈ l, r.endAddr ≤ 4294967296) →
    takeFirstFit pages l = some (retv, l', freed) →
    Separated l' ∧
      (∀ x, cover VirtRange.span l x
        = cover VirtRange.span l' x + hit retv (retv + pages * 4096) x) ∧
      (∀ b, (∀ r ∈ l, b < r.startAddr) → ∀ r ∈ l', b < r.startAddr) ∧
      ∃ r ∈ l, retv = r.startAddr := by
  intro l
  induction l with
  | nil => intro retv l' freed _ _ h; simp [takeFirstFit] at h
  | cons curr rest ih =>
    intro retv l' freed hsep hle h
    obtain ⟨hpos, hlt, hrest⟩ := separated_cons.mp hsep
    have hcle : curr.startAddr + curr.pages * 4096 ≤ 4294967296 := hle curr (by simp)
    rw [takeFirstFit] at h
    split at h
    · next hfit =>
      split at h
      · next heq =>
        simp only [Option.some.injEq, Prod.mk.injEq] at h
        obtain ⟨rfl, rfl, _⟩ := h
        refine ⟨hrest, ?_, fun b hb r hr => hb r (by simp [hr]), curr, by simp, rfl⟩
        intro x
        rw [cover_cons, Nat.add_comm]
        simp only [VirtRange.span, VirtRange.endAddr, heq]
      · next hne =>
        simp only [Option.some.injEq, Prod.mk.injEq] at h
        obtain ⟨rfl, rfl, _⟩ := h
        have hmul : wmul pages pageSize = pages * 4096 := wmul_eq (by unfold pageSize; omega)
        have hadd : wadd curr.startAddr (pages * 4096) = curr.startAddr + pages * 4096 :=
          wadd_eq (by omega)
        have hsub : wsub curr.pages pages = curr.pages - pages := wsub_eq hfit (by omega)
        rw [hmul, hadd, hsub]
        have hend : curr.startAddr + pages * 4096 + (curr.pages - pages) * 4096 = curr.endAddr := by
          unfold VirtRange.endAddr; omega
        refine ⟨separated_cons.mpr ⟨?_, ?_, hrest⟩, ?_, ?_, curr, by simp, rfl⟩
        · show 0 < curr.pages - pages
          omega
        · intro q hq
          show curr.startAddr + pages * 4096 + (curr.pages - pages) * 4096 < q.startAddr
          rw [hend]
          exact hlt q hq
        · intro x
          rw [cover_cons, cover_cons]
          show hit curr.startAddr curr.endAddr x + _
            = hit (curr.startAddr + pages * 4096)
                (curr.startAddr + pages * 4096 + (curr.pages - pages) * 4096) x + _ + _
          have hmid : curr.startAddr + pages * 4096 ≤ curr.endAddr := by
            rw [← hend]; exact Nat.le_add_right _ _
          have hcut := hit_split (Nat.le_add_right curr.startAddr (pages * 4096)) hmid x
          rw [hend, hcut]
          omega
        · intro b hb r hr
          rcases List.mem_cons.mp hr with rfl | hr
          · have := hb curr (by simp)
            show b < curr.startAddr + pages * 4096
            omega
          · exact hb r (by simp [hr])
    · next hfit =>
      cases hrec : takeFirstFit pages rest with
      | none => rw [hrec] at h; simp at h
      | some found =>
        obtain ⟨retv₀, rest', freed₀⟩ := found
        rw [hrec] at h
        simp only [Option.some.injEq, Prod.mk.injEq] at h
        obtain ⟨rfl, rfl, rfl⟩ := h
        obtain ⟨hs, hc, hb, r, hr, hretv⟩ := ih hrest (fun r hr => hle r (by simp [hr])) hrec
        refine ⟨separated_cons.mpr ⟨hpos, hb _ hlt, hs⟩, ?_, ?_, r, by simp [hr], hretv⟩
        · intro x
          rw [cover_cons, cover_cons, hc x]
          omega
        · intro b hbd q hq
          rcases List.mem_cons.mp hq with rfl | hq
          · exact hbd q (by simp)
          · exact hb b (fun r hr => hbd r (by simp [hr])) q hq

/-! ## `FreeVirtEx` -/

/-- How the scan of `FreeVirtEx` cuts the list. -/
theorem scan_split (l : List VirtRange) (s : Nat) :
    (l.takeWhile (fun r => r.startAddr < s) = [] ∧ prevOf l s = none) ∨
      ∃ prev, prevOf l s = some prev ∧ prev.startAddr < s ∧
        l.takeWhile (fun r => r.startAddr < s) = beforePrev l s ++ [prev] := by
  unfold prevOf beforePrev
  rcases List.eq_nil_or_concat (l.takeWhile fun r => r.startAddr < s) with hnil | ⟨pre, prev, hc⟩
  · exact Or.inl ⟨hnil, by rw [hnil]; rfl⟩
  · have hmem : prev ∈ l.takeWhile fun r => r.startAddr < s := by rw [hc]; simp
    exact Or.inr ⟨prev, by rw [hc]; simp, by simpa using List.mem_takeWhile_imp hmem,
      by rw [hc]; simp⟩

theorem currOf_head {l : List VirtRange} {s : Nat} {curr : VirtRange} {after : List VirtRange}
    (h : currOf l s = curr :: after) : s ≤ curr.startAddr := by
  have hnot := List.head?_dropWhile_not (fun r : VirtRange => decide (r.startAddr < s)) l
  unfold currOf at h
  rw [h] at hnot
  simpa using hnot

theorem separated_append {l l' : List VirtRange} :
    Separated (l ++ l') ↔
      Separated l ∧ Separated l' ∧ ∀ a ∈ l, ∀ b ∈ l', a.endAddr < b.startAddr := by
  induction l with
  | nil => simp [show Separated [] from ⟨List.Pairwise.nil, by simp⟩]
  | cons r l ih =>
    simp only [List.cons_append, separated_cons, ih, List.mem_append, List.mem_cons]
    constructor
    · rintro ⟨h1, h2, h3, h4, h5⟩
      refine ⟨⟨h1, fun q hq => h2 q (Or.inl hq), h3⟩, h4, ?_⟩
      rintro a (rfl | ha) b hb
      · exact h2 b (Or.inr hb)
      · exact h5 a ha b hb
    · rintro ⟨⟨h1, h2, h3⟩, h4, h5⟩
      refine ⟨h1, ?_, h3, h4, fun a ha b hb => h5 a (Or.inr ha) b hb⟩
      rintro q (hq | hq)
      · exact h2 q hq
      · exact h5 r (Or.inl rfl) q hq

section Free

variable {l : List VirtRange} {s bytes : Nat}

/-- A range that starts below a free interval ends at or before it. -/
theorem endAddr_le_of_uncovered {e : Nat} (hse : s < e)
    (hfree : ∀ x, s ≤ x → x < e → cover VirtRange.span l x = 0)
    {r : VirtRange} (hr : r ∈ l) (hlt : r.startAddr < s) : r.endAddr ≤ s := by
  by_contra hcon
  have h0 := (cover_eq_zero_iff _).mp (hfree s (le_refl s) hse) r hr
  exact h0 ⟨by show r.startAddr ≤ s; omega, by show s < r.endAddr; omega⟩

/-- A range that starts at or above a free interval starts at or after its end. -/
theorem le_startAddr_of_uncovered {e : Nat}
    (hfree : ∀ x, s ≤ x → x < e → cover VirtRange.span l x = 0)
    {r : VirtRange} (hr : r ∈ l) (hpos : 0 < r.pages) (hle : s ≤ r.startAddr) :
    e ≤ r.startAddr := by
  by_contra hcon
  have h0 := (cover_eq_zero_iff _).mp (hfree r.startAddr hle (by omega)) r hr
  exact h0 ⟨le_refl r.startAddr, by
    show r.startAddr < r.startAddr + r.pages * 4096
    omega⟩

/-- `merged_left` compares the true end of `prev`, which never wraps past `start_addr`. -/
theorem mergedLeft_iff {prev : VirtRange} (hprev : prevOf l s = some prev)
    (hle : prev.endAddr ≤ s) (hs : s < 4294967296) :
    mergedLeft l s = true ↔ prev.endAddr = s := by
  have h : prev.startAddr + prev.pages * 4096 ≤ s := hle
  have hmul : wmul prev.pages pageSize = prev.pages * 4096 := wmul_eq (by unfold pageSize; omega)
  have hadd : wadd prev.startAddr (prev.pages * 4096) = prev.endAddr := wadd_eq (by omega)
  simp only [mergedLeft, hprev, hmul, hadd, decide_eq_true_eq]

/-- `merged_right` is right too: an end of `2 ^ 32` wraps to 0, where no range starts. -/
theorem mergedRight_iff {curr : VirtRange} {after : List VirtRange} {p : Nat}
    (hcurr : currOf l s = curr :: after) (hpos : 0 < curr.startAddr)
    (hle : s + p * 4096 ≤ curr.startAddr) (hlt : curr.startAddr < 4294967296) :
    mergedRight l s (wadd s (wmul p pageSize)) = true ↔ s + p * 4096 = curr.startAddr := by
  have hmul : wmul p pageSize = p * 4096 := wmul_eq (by unfold pageSize; omega)
  have hadd : wadd s (p * 4096) = s + p * 4096 := wadd_eq (by omega)
  simp only [mergedRight, hcurr, hmul, hadd, decide_eq_true_eq]

/-- The part of the list from `curr` on after `FreeVirtEx`, when `prev` does not take the range. -/
def freeTail (l : List VirtRange) (s p node : Nat) : List VirtRange :=
  match currOf l s with
  | [] => [{ node, startAddr := s, pages := p }]
  | curr :: after =>
    if mergedRight l s (wadd s (wmul p pageSize)) then
      { curr with startAddr := s, pages := wadd curr.pages p } :: after
    else { node, startAddr := s, pages := p } :: curr :: after

theorem freeVirtEx_of_not_left {node : Nat} (h : mergedLeft l s = false) :
    freeVirtEx l s bytes node
      = (l.takeWhile fun r => r.startAddr < s) ++ freeTail l s (pagesFor bytes) node := by
  unfold freeVirtEx freePlan freeTail
  rcases scan_split l s with ⟨hnil, hprev⟩ | ⟨prev, hprev, _, hpre⟩
  · rw [hnil]
    cases hcurr : currOf l s with
    | nil => simp only [hprev, List.nil_append]
    | cons curr after =>
      cases hm : mergedRight l s (wadd s (wmul (pagesFor bytes) pageSize)) <;> simp [hprev, hm]
  · rw [hpre]
    cases hcurr : currOf l s with
    | nil => simp [hprev, h]
    | cons curr after =>
      cases hm : mergedRight l s (wadd s (wmul (pagesFor bytes) pageSize)) <;> simp [hprev, h, hm]

/-- From `curr` on, the list takes the freed range and stays sorted and separated. -/
theorem freeTail_spec {p : Nat} (node : Nat) (hp : 0 < p) (hs : 0 < s)
    (hend : s + p * 4096 ≤ 4294967296) (hsep : Separated (currOf l s))
    (hle : ∀ r ∈ currOf l s, s + p * 4096 ≤ r.startAddr ∧ r.endAddr ≤ 4294967296) :
    Separated (freeTail l s p node) ∧
      (∀ x, cover VirtRange.span (freeTail l s p node) x
        = cover VirtRange.span (currOf l s) x + hit s (s + p * 4096) x) ∧
      ∀ q ∈ freeTail l s p node, s ≤ q.startAddr := by
  unfold freeTail
  cases hc : currOf l s with
  | nil =>
    refine ⟨separated_cons.mpr ⟨hp, by simp, List.Pairwise.nil, by simp⟩, fun x => ?_, by simp⟩
    simp [VirtRange.span, VirtRange.endAddr]
  | cons curr after =>
    rw [hc] at hsep hle
    obtain ⟨hcp, hca, hsa⟩ := separated_cons.mp hsep
    obtain ⟨hge, hce⟩ := hle curr (by simp)
    have hcend : curr.startAddr + curr.pages * 4096 ≤ 4294967296 := hce
    have hmr := mergedRight_iff (l := l) hc (by omega) hge (by omega)
    by_cases hm : mergedRight l s (wadd s (wmul p pageSize)) = true
    · have htouch := hmr.mp hm
      have hadd : wadd curr.pages p = curr.pages + p := wadd_eq (by omega)
      have hgrow : s + (curr.pages + p) * 4096 = curr.endAddr := by
        rw [Nat.add_mul, Nat.add_left_comm, htouch, Nat.add_comm]
        rfl
      simp only [hm, if_true, hadd]
      refine ⟨separated_cons.mpr ⟨Nat.add_pos_right _ hp, ?_, hsa⟩, fun x => ?_, ?_⟩
      · intro q hq
        show s + (curr.pages + p) * 4096 < q.startAddr
        rw [hgrow]
        exact hca q hq
      · rw [cover_cons, cover_cons]
        show hit s (s + (curr.pages + p) * 4096) x + _ = hit curr.startAddr curr.endAddr x + _ + _
        have hmid : s + p * 4096 ≤ curr.endAddr := by
          rw [htouch]
          exact Nat.le_add_right _ _
        rw [hgrow, hit_split (Nat.le_add_right s (p * 4096)) hmid x, htouch]
        omega
      · intro q hq
        rcases List.mem_cons.mp hq with rfl | hq
        · exact le_refl s
        · have := (hle q (by simp [hq])).1
          omega
    · have hapart : s + p * 4096 ≠ curr.startAddr := fun h => hm (hmr.mpr h)
      simp only [hm, Bool.false_eq_true, if_false]
      refine ⟨separated_cons.mpr ⟨hp, ?_, hsep⟩, fun x => ?_, ?_⟩
      · intro q hq
        show s + p * 4096 < q.startAddr
        rcases List.mem_cons.mp hq with rfl | hq
        · omega
        · have hlt := hca q hq
          unfold VirtRange.endAddr at hlt
          omega
      · rw [cover_cons]
        exact Nat.add_comm _ _
      · intro q hq
        rcases List.mem_cons.mp hq with rfl | hq
        · exact le_refl s
        · have := (hle q hq).1
          omega

/-- What `prev` becomes when it takes the freed range, and what then follows it. -/
def growPrev (l : List VirtRange) (s p : Nat) (prev : VirtRange) : List VirtRange :=
  match currOf l s with
  | [] => [{ prev with pages := wadd prev.pages p }]
  | curr :: after =>
    if mergedRight l s (wadd s (wmul p pageSize)) then
      { prev with pages := wadd prev.pages (wadd p curr.pages) } :: after
    else { prev with pages := wadd prev.pages p } :: curr :: after

theorem freeVirtEx_of_left {node : Nat} {prev : VirtRange} (hprev : prevOf l s = some prev)
    (h : mergedLeft l s = true) :
    freeVirtEx l s bytes node = beforePrev l s ++ growPrev l s (pagesFor bytes) prev := by
  unfold freeVirtEx freePlan growPrev
  cases hcurr : currOf l s with
  | nil => simp only [hprev, h, if_true]
  | cons curr after =>
    cases hm : mergedRight l s (wadd s (wmul (pagesFor bytes) pageSize)) <;> simp [hprev, h, hm]

/-- When `prev` ends where the freed range starts, it takes the range, and `curr` if that touches. -/
theorem growPrev_spec {p : Nat} {prev : VirtRange} (hp : 0 < p) (htl : prev.endAddr = s)
    (hs : 0 < s) (hend : s + p * 4096 ≤ 4294967296) (hsep : Separated (currOf l s))
    (hle : ∀ r ∈ currOf l s, s + p * 4096 ≤ r.startAddr ∧ r.endAddr ≤ 4294967296) :
    Separated (growPrev l s p prev) ∧
      (∀ x, cover VirtRange.span (growPrev l s p prev) x
        = cover VirtRange.span (prev :: currOf l s) x + hit s (s + p * 4096) x) ∧
      ∀ q ∈ growPrev l s p prev, prev.startAddr ≤ q.startAddr := by
  have hpend : prev.startAddr + prev.pages * 4096 = s := htl
  have hadd : wadd prev.pages p = prev.pages + p := wadd_eq (by omega)
  have hgrow : prev.startAddr + (prev.pages + p) * 4096 = s + p * 4096 := by
    rw [Nat.add_mul, ← Nat.add_assoc, hpend]
  have hps : prev.startAddr ≤ s := by omega
  unfold growPrev
  cases hc : currOf l s with
  | nil =>
    rw [hadd]
    refine ⟨separated_cons.mpr ⟨Nat.add_pos_right _ hp, by simp, List.Pairwise.nil, by simp⟩,
      fun x => ?_, by simp⟩
    rw [cover_cons, cover_cons, cover_nil]
    show hit prev.startAddr (prev.startAddr + (prev.pages + p) * 4096) x + 0
      = hit prev.startAddr prev.endAddr x + 0 + _
    rw [hgrow, htl, hit_split hps (Nat.le_add_right s (p * 4096)) x]
    omega
  | cons curr after =>
    rw [hc] at hsep hle
    obtain ⟨hcp, hca, hsa⟩ := separated_cons.mp hsep
    obtain ⟨hge, hce⟩ := hle curr (by simp)
    have hcend : curr.startAddr + curr.pages * 4096 ≤ 4294967296 := hce
    have hmr := mergedRight_iff (l := l) hc (by omega) hge (by omega)
    by_cases hm : mergedRight l s (wadd s (wmul p pageSize)) = true
    · have htouch := hmr.mp hm
      have hadd' : wadd p curr.pages = p + curr.pages := wadd_eq (by omega)
      have hadd'' : wadd prev.pages (p + curr.pages) = prev.pages + (p + curr.pages) :=
        wadd_eq (by omega)
      have hgrow' : prev.startAddr + (prev.pages + (p + curr.pages)) * 4096 = curr.endAddr := by
        rw [← Nat.add_assoc, Nat.add_mul, ← Nat.add_assoc, hgrow, htouch]
        rfl
      have hmid : s + p * 4096 ≤ curr.endAddr := by
        rw [htouch]
        exact Nat.le_add_right _ _
      simp only [hm, if_true, hadd', hadd'']
      refine ⟨separated_cons.mpr ⟨Nat.add_pos_right _ (Nat.add_pos_left hp _), ?_, hsa⟩, fun x => ?_, ?_⟩
      · intro q hq
        show prev.startAddr + (prev.pages + (p + curr.pages)) * 4096 < q.startAddr
        rw [hgrow']
        exact hca q hq
      · rw [cover_cons, cover_cons, cover_cons]
        show hit prev.startAddr (prev.startAddr + (prev.pages + (p + curr.pages)) * 4096) x + _
          = hit prev.startAddr prev.endAddr x + (hit curr.startAddr curr.endAddr x + _) + _
        rw [hgrow', htl, hit_split hps (Nat.le_trans (Nat.le_add_right _ _) hmid) x,
          hit_split (Nat.le_add_right s (p * 4096)) hmid x, htouch]
        omega
      · intro q hq
        rcases List.mem_cons.mp hq with rfl | hq
        · exact le_refl _
        · have := (hle q (by simp [hq])).1
          omega
    · have hapart : s + p * 4096 ≠ curr.startAddr := fun h => hm (hmr.mpr h)
      simp only [hm, hadd, Bool.false_eq_true, if_false]
      refine ⟨separated_cons.mpr ⟨Nat.add_pos_right _ hp, ?_, hsep⟩, fun x => ?_, ?_⟩
      · intro q hq
        show prev.startAddr + (prev.pages + p) * 4096 < q.startAddr
        rw [hgrow]
        rcases List.mem_cons.mp hq with rfl | hq
        · omega
        · have hlt := hca q hq
          unfold VirtRange.endAddr at hlt
          omega
      · rw [cover_cons, cover_cons _ prev]
        show hit prev.startAddr (prev.startAddr + (prev.pages + p) * 4096) x + _
          = hit prev.startAddr prev.endAddr x + _ + _
        rw [hgrow, htl, hit_split hps (Nat.le_add_right s (p * 4096)) x]
        omega
      · intro q hq
        rcases List.mem_cons.mp hq with rfl | hq
        · exact le_refl _
        · have := (hle q hq).1
          omega

/--
**`FreeVirtEx` adds exactly the freed range.** The list stays sorted and separated in all
four merge cases.
-/
theorem freeVirtEx_spec (node : Nat) (hp : 0 < pagesFor bytes) (hs : 0 < s)
    (hend : s + pagesFor bytes * 4096 ≤ 4294967296) (hsep : Separated l)
    (hle : ∀ r ∈ l, r.endAddr ≤ 4294967296)
    (hfree : ∀ x, s ≤ x → x < s + pagesFor bytes * 4096 → cover VirtRange.span l x = 0) :
    Separated (freeVirtEx l s bytes node) ∧
      ∀ x, cover VirtRange.span (freeVirtEx l s bytes node) x
        = cover VirtRange.span l x + hit s (s + pagesFor bytes * 4096) x := by
  have hcut : (l.takeWhile fun r => r.startAddr < s) ++ currOf l s = l :=
    List.takeWhile_append_dropWhile
  rw [← hcut] at hsep
  obtain ⟨hbsep, hcsep, hbc⟩ := separated_append.mp hsep
  -- everything from `curr` on starts after the freed range
  have hright : ∀ r ∈ currOf l s, s + pagesFor bytes * 4096 ≤ r.startAddr ∧
      r.endAddr ≤ 4294967296 := by
    intro r hr
    have hrl : r ∈ l := by rw [← hcut]; simp [hr]
    refine ⟨le_startAddr_of_uncovered hfree hrl (hcsep.nonempty r hr) ?_, hle r hrl⟩
    cases hc : currOf l s with
    | nil => rw [hc] at hr; simp at hr
    | cons curr after =>
      have hhead := currOf_head hc
      rw [hc] at hr hcsep
      rcases List.mem_cons.mp hr with rfl | hr
      · exact hhead
      · have hlt := (separated_cons.mp hcsep).2.1 r hr
        unfold VirtRange.endAddr at hlt
        omega
  -- everything before it ends at or before the freed range
  have hleft : ∀ r ∈ l.takeWhile (fun r => r.startAddr < s), r.endAddr ≤ s := by
    intro r hr
    have hrl : r ∈ l := by rw [← hcut]; simp [hr]
    exact endAddr_le_of_uncovered (by omega) hfree hrl
      (by simpa using List.mem_takeWhile_imp hr)
  cases hm : mergedLeft l s with
  | false =>
    obtain ⟨htsep, htc, htge⟩ := freeTail_spec node hp hs hend hcsep hright
    rw [freeVirtEx_of_not_left hm]
    refine ⟨separated_append.mpr ⟨hbsep, htsep, ?_⟩, fun x => ?_⟩
    · intro a ha b hb
      refine lt_of_lt_of_le ?_ (htge b hb)
      rcases scan_split l s with ⟨hnil, _⟩ | ⟨prev, hprev, _, hpre⟩
      · rw [hnil] at ha; simp at ha
      · rw [hpre] at ha hbsep hleft
        have hple := hleft prev (by simp)
        have hne : prev.endAddr ≠ s := by
          intro he
          rw [(mergedLeft_iff hprev hple (by omega)).mpr he] at hm
          exact absurd hm (by simp)
        rcases List.mem_append.mp ha with ha | ha
        · have hlt := (separated_append.mp hbsep).2.2 a ha prev (by simp)
          unfold VirtRange.endAddr at hple hlt ⊢
          omega
        · obtain rfl : a = prev := by simpa using ha
          omega
    · rw [cover_append, htc x, ← Nat.add_assoc, ← cover_append, hcut]
  | true =>
    rcases scan_split l s with ⟨_, hprev⟩ | ⟨prev, hprev, hplt, hpre⟩
    · simp [mergedLeft, hprev] at hm
    · rw [hpre] at hcut hbsep hleft
      have htl := (mergedLeft_iff hprev (hleft prev (by simp)) (by omega)).mp hm
      obtain ⟨hgsep, hgc, hgge⟩ := growPrev_spec hp htl hs hend hcsep hright
      obtain ⟨hb, -, hbp⟩ := separated_append.mp hbsep
      rw [freeVirtEx_of_left hprev hm]
      refine ⟨separated_append.mpr ⟨hb, hgsep, ?_⟩, fun x => ?_⟩
      · intro a ha b hb
        exact lt_of_lt_of_le (hbp a ha prev (by simp)) (hgge b hb)
      · have hcl : cover VirtRange.span l x
            = cover VirtRange.span (beforePrev l s) x + cover VirtRange.span (prev :: currOf l s) x := by
          rw [← cover_append]
          exact congrArg (fun l => cover VirtRange.span l x) (by simpa using hcut.symm)
        rw [cover_append, hgc x, hcl, Nat.add_assoc]

end Free

/-! ## Runs -/

/-- A range a caller holds: the address it got and the size it asked for. -/
structure Grant where
  addr : Nat
  bytes : Nat
deriving DecidableEq, Repr

/-- The first address after the pages that `bytes` bytes from `addr` take, without wrapping. -/
def Grant.endAddr (g : Grant) : Nat := g.addr + (g.bytes + 4095) / 4096 * 4096

def Grant.span (g : Grant) : Nat × Nat := (g.addr, g.endAddr)

/-- An arena and the ranges handed out of it. -/
structure ArenaState where
  freeList : List VirtRange
  granted : List Grant

/-- One call on the arena, where `AllocVirtEx` is only asked for sizes that meet `asked`. -/
inductive ArenaStep (asked : Nat → Prop) : ArenaState → ArenaState → Prop where
  | alloc (st : ArenaState) (bytes : Nat) (h : asked bytes) :
      ArenaStep asked st
        { freeList := (allocVirtEx st.freeList bytes).2
          granted :=
            if (allocVirtEx st.freeList bytes).1 = 0 then st.granted
            else { addr := (allocVirtEx st.freeList bytes).1, bytes } :: st.granted }
  | free (st : ArenaState) (g : Grant) (node : Nat) (hg : g ∈ st.granted) :
      ArenaStep asked st
        { freeList := freeVirtEx st.freeList g.addr g.bytes node
          granted := st.granted.erase g }

/-- Every size a `size_t` can hold, 0 apart. -/
def AnySize (bytes : Nat) : Prop := 1 ≤ bytes ∧ bytes < wordSize

/--
Sizes whose round-up to pages does not wrap. A larger size is taken for one of zero pages.
-/
def RoundUpFits (bytes : Nat) : Prop := 1 ≤ bytes ∧ bytes ≤ wordSize - pageSize

/-- An arena that lies in the address space, above the address 0 that stands for failure. -/
structure ArenaFits (start bytes : Nat) : Prop where
  start_pos : 0 < start
  bytes_fit : RoundUpFits bytes
  end_le : start + (bytes + 4095) / 4096 * 4096 ≤ wordSize

/-- The arena right after `InitVirtArena`. -/
def freshArena (node start bytes : Nat) : ArenaState :=
  { freeList := initVirtArena node start bytes, granted := [] }

/--
Conservation. The free list is sorted, separated and without empty ranges, and each address
of the initial arena `[start, stop)` lies in exactly one free or granted range, and no other
address in any.
-/
structure Conserved (start stop : Nat) (st : ArenaState) : Prop where
  separated : Separated st.freeList
  partition : ∀ x, cover VirtRange.span st.freeList x + cover Grant.span st.granted x
    = hit start stop x

/-- What `AllocVirtEx(bytes)` promises in a state: 0, or a new range away from all granted ones. -/
def AllocSound (start stop : Nat) (st : ArenaState) (bytes : Nat) : Prop :=
  ∀ retv, (allocVirtEx st.freeList bytes).1 = retv → retv ≠ 0 →
    start ≤ retv ∧ retv + bytes ≤ stop ∧
      ∀ g ∈ st.granted, g.endAddr ≤ retv ∨ retv + bytes ≤ g.addr

section Runs

variable {start stop : Nat} {st : ArenaState}

theorem hit_eq_one_iff {lo hi x : Nat} : hit lo hi x = 1 ↔ lo ≤ x ∧ x < hi := by
  unfold hit
  split
  · next h => simp [h]
  · next h => simp [h]

/-- A point of a free or granted range lies in the arena. -/
theorem Conserved.inside_of_pos (h : Conserved start stop st) {x : Nat}
    (hx : 0 < cover VirtRange.span st.freeList x + cover Grant.span st.granted x) :
    start ≤ x ∧ x < stop := by
  have hp := h.partition x
  have hle := hit_le_one start stop x
  exact hit_eq_one_iff.mp (by omega)

theorem Conserved.free_inside (h : Conserved start stop st) {r : VirtRange}
    (hr : r ∈ st.freeList) : start ≤ r.startAddr ∧ r.endAddr ≤ stop := by
  have hpos := h.separated.nonempty r hr
  have hlt : r.startAddr < r.endAddr := by unfold VirtRange.endAddr; omega
  have hlo := cover_pos_of_mem VirtRange.span (x := r.startAddr) hr ⟨le_refl r.startAddr, hlt⟩
  have hhi := cover_pos_of_mem VirtRange.span (x := r.endAddr - 1) hr
    ⟨by show r.startAddr ≤ r.endAddr - 1; omega, by show r.endAddr - 1 < r.endAddr; omega⟩
  have h1 := h.inside_of_pos (Nat.add_pos_left hlo _)
  have h2 := h.inside_of_pos (Nat.add_pos_left hhi _)
  omega

theorem Conserved.granted_inside (h : Conserved start stop st) {g : Grant}
    (hg : g ∈ st.granted) (hb : 1 ≤ g.bytes) : start ≤ g.addr ∧ g.endAddr ≤ stop := by
  have hlt : g.addr < g.endAddr := by unfold Grant.endAddr; omega
  have hlo := cover_pos_of_mem Grant.span (x := g.addr) hg ⟨le_refl g.addr, hlt⟩
  have hhi := cover_pos_of_mem Grant.span (x := g.endAddr - 1) hg
    ⟨by show g.addr ≤ g.endAddr - 1; omega, by show g.endAddr - 1 < g.endAddr; omega⟩
  have h1 := h.inside_of_pos (Nat.add_pos_right _ hlo)
  have h2 := h.inside_of_pos (Nat.add_pos_right _ hhi)
  omega

/-- The invariant of a run: conservation, and every grant was of a size that did not wrap. -/
structure ArenaInv (start stop : Nat) (st : ArenaState) : Prop extends Conserved start stop st where
  granted_fit : ∀ g ∈ st.granted, RoundUpFits g.bytes

/-- What a successful `AllocVirtEx` takes from the free list and where it lies. -/
theorem allocVirtEx_spec (h : Conserved start stop st)
    (hstop : stop ≤ 4294967296) {bytes : Nat} (hb : RoundUpFits bytes) :
    (allocVirtEx st.freeList bytes).1 = 0 ∧ (allocVirtEx st.freeList bytes).2 = st.freeList ∨
      start ≤ (allocVirtEx st.freeList bytes).1 ∧
      Separated (allocVirtEx st.freeList bytes).2 ∧
      ∀ x, cover VirtRange.span st.freeList x
        = cover VirtRange.span (allocVirtEx st.freeList bytes).2 x
          + hit (allocVirtEx st.freeList bytes).1
              ((allocVirtEx st.freeList bytes).1 + (bytes + 4095) / 4096 * 4096) x := by
  obtain ⟨hb1, hb2⟩ := hb
  have hpages : pagesFor bytes = (bytes + 4095) / 4096 := pagesFor_eq hb2
  unfold allocVirtEx
  rw [hpages]
  cases hf : takeFirstFit ((bytes + 4095) / 4096) st.freeList with
  | none => exact Or.inl ⟨rfl, rfl⟩
  | some found =>
    obtain ⟨retv, l', freed⟩ := found
    obtain ⟨hsep, hcover, -, r, hr, rfl⟩ := takeFirstFit_spec (by omega) h.separated
      (fun r hr => le_trans (h.free_inside hr).2 hstop) hf
    exact Or.inr ⟨(h.free_inside hr).1, hsep, hcover⟩

/-- One call keeps the invariant. -/
theorem arenaStep_inv (hstart : 0 < start) (hstop : stop ≤ 4294967296) {st' : ArenaState}
    (h : ArenaInv start stop st) (hstep : ArenaStep RoundUpFits st st') :
    ArenaInv start stop st' := by
  cases hstep with
  | alloc bytes hb =>
    have hspec := allocVirtEx_spec h.toConserved hstop hb
    generalize (allocVirtEx st.freeList bytes).1 = retv at hspec ⊢
    generalize (allocVirtEx st.freeList bytes).2 = freeList' at hspec ⊢
    rcases hspec with ⟨h0, hl⟩ | ⟨hge, hsep, hcover⟩
    · rw [if_pos h0, hl]
      exact h
    · rw [if_neg (by omega)]
      refine ⟨⟨hsep, fun x => ?_⟩, ?_⟩
      · have hp := h.partition x
        rw [hcover x] at hp
        rw [cover_cons]
        show cover VirtRange.span freeList' x
          + (hit retv (retv + (bytes + 4095) / 4096 * 4096) x + _) = _
        omega
      · intro g hg
        rcases List.mem_cons.mp hg with rfl | hg
        · exact hb
        · exact h.granted_fit g hg
  | free g node hg =>
    obtain ⟨hb1, hb2⟩ := h.granted_fit g hg
    have hpages : pagesFor g.bytes = (g.bytes + 4095) / 4096 := pagesFor_eq hb2
    obtain ⟨hlo, hhi⟩ := h.granted_inside hg hb1
    have hsplit : ∀ x, cover Grant.span st.granted x
        = hit g.addr g.endAddr x + cover Grant.span (st.granted.erase g) x := by
      intro x
      rw [cover_perm Grant.span (List.perm_cons_erase hg) x, cover_cons]
      rfl
    have hfree : ∀ x, g.addr ≤ x → x < g.addr + pagesFor g.bytes * 4096 →
        cover VirtRange.span st.freeList x = 0 := by
      intro x hx1 hx2
      rw [hpages] at hx2
      have hone : hit g.addr g.endAddr x = 1 := hit_eq_one_iff.mpr ⟨hx1, hx2⟩
      have hp := h.partition x
      have hle := hit_le_one start stop x
      rw [hsplit x] at hp
      omega
    have hend : g.addr + pagesFor g.bytes * 4096 ≤ 4294967296 := by
      rw [hpages]
      exact le_trans hhi hstop
    obtain ⟨hsep, hcover⟩ := freeVirtEx_spec node (by omega) (by omega) hend h.separated
      (fun r hr => le_trans (h.free_inside hr).2 hstop) hfree
    refine ⟨⟨hsep, fun x => ?_⟩, fun q hq => h.granted_fit q (List.mem_of_mem_erase hq)⟩
    have hp := h.partition x
    rw [hsplit x] at hp
    show cover VirtRange.span (freeVirtEx st.freeList g.addr g.bytes node) x
      + cover Grant.span (st.granted.erase g) x = _
    have hc := hcover x
    rw [hpages] at hc
    have he : g.endAddr = g.addr + (g.bytes + 4095) / 4096 * 4096 := rfl
    rw [he] at hp
    omega

theorem freshArena_inv {node bytes : Nat} (h : ArenaFits start bytes) :
    ArenaInv start (start + (bytes + 4095) / 4096 * 4096) (freshArena node start bytes) := by
  obtain ⟨hpos, ⟨hb1, hb2⟩, hend⟩ := h
  refine ⟨⟨?_, fun x => ?_⟩, by simp [freshArena]⟩
  · refine separated_cons.mpr ⟨?_, by simp, List.Pairwise.nil, by simp⟩
    show 0 < pagesFor bytes
    rw [pagesFor_eq hb2]
    omega
  · show cover VirtRange.span [_] x + 0 = _
    rw [cover_cons, cover_nil]
    show hit start (start + pagesFor bytes * 4096) x + 0 + 0 = _
    rw [pagesFor_eq hb2]
    rfl

/-- An address that `AllocVirtEx` returns starts a range away from all granted ones. -/
theorem ArenaInv.allocSound (h : ArenaInv start stop st)
    (hstop : stop ≤ 4294967296) {bytes : Nat} (hb : RoundUpFits bytes) :
    AllocSound start stop st bytes := by
  have hspec := allocVirtEx_spec h.toConserved hstop hb
  intro retv hretv hne
  rw [hretv] at hspec
  rcases hspec with ⟨h0, -⟩ | ⟨hge, -, hcover⟩
  · exact absurd h0 hne
  · obtain ⟨hb1, -⟩ := hb
    -- a point of the new range was free, so it is in the arena and in no granted range
    have hpoint : ∀ x, retv ≤ x → x < retv + (bytes + 4095) / 4096 * 4096 →
        x < stop ∧ cover Grant.span st.granted x = 0 := by
      intro x hx1 hx2
      have hone : hit retv (retv + (bytes + 4095) / 4096 * 4096) x = 1 :=
        hit_eq_one_iff.mpr ⟨hx1, hx2⟩
      have hc := hcover x
      rw [hone] at hc
      have hp := h.partition x
      have hle := hit_le_one start stop x
      have hin : hit start stop x = 1 := by omega
      exact ⟨(hit_eq_one_iff.mp hin).2, by omega⟩
    refine ⟨hge, ?_, fun g hg => ?_⟩
    · have := (hpoint (retv + bytes - 1) (by omega) (by omega)).1
      omega
    · by_contra hcon
      rw [not_or, not_le, not_le] at hcon
      obtain ⟨h1, h2⟩ := hcon
      have hglt : g.addr < g.endAddr := by
        have := (h.granted_fit g hg).1
        unfold Grant.endAddr
        omega
      have hz := (hpoint (max retv g.addr) (by omega) (by omega)).2
      exact (cover_eq_zero_iff _).mp hz g hg
        ⟨le_max_right _ _, by show max retv g.addr < g.endAddr; omega⟩

/--
**Arena conservation.** In every run from `InitVirtArena` whose requests do not wrap when
they are rounded up to pages, the free list stays sorted and separated, free and granted
ranges partition the initial arena, and every non-zero address `AllocVirtEx` returns starts
a new range of at least the size asked for.
-/
theorem arena_conservation {node bytes : Nat} (h : ArenaFits start bytes)
    (hrun : Reaches (ArenaStep RoundUpFits) (freshArena node start bytes) st) :
    Conserved start (start + (bytes + 4095) / 4096 * 4096) st ∧
      ∀ n, RoundUpFits n → AllocSound start (start + (bytes + 4095) / 4096 * 4096) st n := by
  have hinv : ArenaInv start (start + (bytes + 4095) / 4096 * 4096) st :=
    hrun.invariant (freshArena_inv h) fun a b ha hab => arenaStep_inv h.start_pos h.end_le ha hab
  exact ⟨hinv.toConserved, fun n hn => hinv.allocSound h.end_le hn⟩

end Runs

/-- The kernel's own arena: one page asked for, then the page given back. -/
theorem arena_conservation_kernel :
    Conserved 0xC8000000 0xF8000000
      { freeList := [⟨16, 0xC8000000, 196608⟩], granted := [] } := by
  have hfit : ArenaFits 0xC8000000 0x30000000 :=
    ⟨by decide, ⟨by decide, by decide⟩, by decide⟩
  have hrun : Reaches (ArenaStep RoundUpFits) (freshArena 16 0xC8000000 0x30000000)
      { freeList := [⟨16, 0xC8000000, 196608⟩], granted := [] } :=
    (Relation.ReflTransGen.single (.alloc _ 100 ⟨by decide, by decide⟩)).tail
      (.free _ ⟨0xC8000000, 100⟩ 32 (by decide))
  exact (arena_conservation hfit hrun).1

/--
A request for `SIZE_MAX` bytes wraps to one for no pages. `AllocVirtEx` then returns the
start of the first free range and takes nothing out of it.
-/
theorem alloc_size_max_not_sound :
    ¬ (∀ (start bytes : Nat) (st : ArenaState), ArenaFits start bytes →
        Reaches (ArenaStep AnySize) (freshArena 16 start bytes) st →
        Conserved start (start + (bytes + 4095) / 4096 * 4096) st ∧
          ∀ n, AnySize n → AllocSound start (start + (bytes + 4095) / 4096 * 4096) st n) := by
  intro h
  have hfit : ArenaFits 0xC8000000 0x30000000 :=
    ⟨by decide, ⟨by decide, by decide⟩, by decide⟩
  have hsound := (h 0xC8000000 0x30000000 _ hfit Relation.ReflTransGen.refl).2 0xFFFFFFFF
    ⟨by decide, by decide⟩
  exact absurd (hsound 0xC8000000 (by decide) (by decide)).2.1 (by decide)

end Nolrem.Virt
