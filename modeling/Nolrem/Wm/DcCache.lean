import Mathlib.Algebra.BigOperators.Group.Finset.Basic
import Nolrem.Lib.Transition
import Nolrem.Wm.Window

/-!
# Cached drawing contexts

`kernel/_WINMGR/dccache.c`, with `kernel/CLIPDRAW/dc.c` as far as it takes and releases regions and
references to brushes and pens. A region is the set of its pixels, and `AllocHeap` always succeeds.
DCs and the storage of regions are numbered in the order in which they are made.
-/

namespace Nolrem.Wm.DcCache

open Nolrem.Lib

/-! ## The data -/

/-- What a DC takes: the storage of a region, and references to brushes and pens -/
inductive Resource
  | storage (block : Nat)
  | object (obj : Nat)
deriving DecidableEq, Repr

/-- `struct region`. A region without `data` is bad or empty. -/
inductive ClipRgn
  | bad
  | empty
  | stored (block : Nat) (shape : Region)
deriving DecidableEq

/-- `struct dc` without its driver -/
structure Dc where
  brush : Nat
  pen : Nat
  cliprgn : ClipRgn
  transX : Int
  transY : Int

/-- `struct dc_cache_entry` -/
structure CacheEntry where
  dc : Nat
  allocated : Bool
deriving DecidableEq, Repr

/-- `DC_CACHE_SIZE` -/
def dcCacheSize : Nat := 8

/-- `CdGetStockBrush(STOCK_BRUSH_SYSTEM)` -/
def stockBrush : Nat := 0

/-- `CdGetStockPen(STOCK_PEN_BLACK_1)` -/
def stockPen : Nat := 1

/-- The cache, the DCs whose memory is not free, and how often each resource was taken for a DC and
released again -/
structure Kernel where
  cache : List CacheEntry
  dcs : Nat → Dc
  alive : Finset Nat
  made : Nat
  blocks : Nat
  taken : Resource → Nat
  released : Resource → Nat

namespace Kernel

def take (k : Kernel) (res : Resource) : Kernel :=
  { k with taken := Function.update k.taken res (k.taken res + 1) }

def release (k : Kernel) (res : Resource) : Kernel :=
  { k with released := Function.update k.released res (k.released res + 1) }

/-- `RefObject` of a brush or a pen -/
def refObject (k : Kernel) (obj : Nat) : Kernel := k.take (.object obj)

/-- `DerefObject` of a brush or a pen -/
def derefObject (k : Kernel) (obj : Nat) : Kernel := k.release (.object obj)

def setDc (k : Kernel) (dc : Nat) (value : Dc) : Kernel :=
  { k with dcs := Function.update k.dcs dc value }

/-! ## Regions -/

/-- A region with storage of its own -/
def newRegion (k : Kernel) (shape : Region) : ClipRgn × Kernel :=
  (.stored k.blocks shape, { k.take (.storage k.blocks) with blocks := k.blocks + 1 })

/-- The pixels of `CdEverythingRegion` -/
def everything : Region := cdCreateRectRegion (-32768) (-32768) 65535 65535

/-- `CdEverythingRegion` -/
def cdEverythingRegion (k : Kernel) : ClipRgn × Kernel := k.newRegion everything

/-- `CdFreeRegion` -/
def cdFreeRegion (k : Kernel) : ClipRgn → Kernel
  | .bad | .empty => k
  | .stored block _ => k.release (.storage block)

/-- `CdCopyRegion` -/
def cdCopyRegion (k : Kernel) : ClipRgn → ClipRgn × Kernel
  | .bad => (.bad, k)
  | .empty => (.empty, k)
  | .stored _ shape => if shape = ∅ then (.empty, k) else k.newRegion shape

/-- `CdGetRegionCombination` for an intersection. `keeps` says whether an intersection of two
regions that turns out empty has storage. -/
def cdIntersectRegion (k : Kernel) (keeps : Bool) : ClipRgn → ClipRgn → ClipRgn × Kernel
  | .bad, _ | _, .bad => (.bad, k)
  | .empty, _ | _, .empty => (.empty, k)
  | .stored _ a, .stored _ b =>
    if a = ∅ ∨ b = ∅ ∨ (a ∩ b = ∅ ∧ !keeps) then (.empty, k) else k.newRegion (a ∩ b)

/-! ## Drawing contexts -/

/-- `CdSetTranslation` -/
def cdSetTranslation (k : Kernel) (dc : Nat) (x y : Int) : Kernel :=
  k.setDc dc { k.dcs dc with transX := int16 x, transY := int16 y }

/-- `CdSetClipRegion` -/
def cdSetClipRegion (k : Kernel) (dc : Nat) (rgn : ClipRgn) : Kernel :=
  let k := k.cdFreeRegion (k.dcs dc).cliprgn
  let copy := k.cdCopyRegion rgn
  copy.2.setDc dc { copy.2.dcs dc with cliprgn := copy.1 }

/-- `CdRestrictClipRegion` -/
def cdRestrictClipRegion (k : Kernel) (dc : Nat) (keeps : Bool) (rgn : ClipRgn) : Kernel :=
  let c := k.cdIntersectRegion keeps (k.dcs dc).cliprgn rgn
  if c.1 = .bad then c.2
  else
    let k := c.2.cdFreeRegion (c.2.dcs dc).cliprgn
    k.setDc dc { k.dcs dc with cliprgn := c.1 }

/-- What `CdSetGraphicsObject` switches on -/
inductive UserType
  | brush
  | pen
  | other
deriving DecidableEq, Repr

/-- `CdSetGraphicsObject` -/
def cdSetGraphicsObject (k : Kernel) (dc : Nat) (userType : UserType) (obj : Nat) : Kernel :=
  match userType with
  | .brush =>
    let k := (k.refObject obj).derefObject (k.dcs dc).brush
    k.setDc dc { k.dcs dc with brush := obj }
  | .pen =>
    let k := (k.refObject obj).derefObject (k.dcs dc).pen
    k.setDc dc { k.dcs dc with pen := obj }
  | .other => k

/-- `CleanupDc` -/
def cleanupDc (k : Kernel) (dc : Nat) : Kernel :=
  let k := (k.derefObject (k.dcs dc).brush).derefObject (k.dcs dc).pen
  { k with alive := k.alive.erase dc }

/-- `CdCreateDc` -/
def cdCreateDc (k : Kernel) : Nat × Kernel :=
  let dc := k.made
  let k := (k.refObject stockBrush).refObject stockPen
  let clip := k.cdEverythingRegion
  (dc,
    { clip.2 with
      dcs := Function.update clip.2.dcs dc ⟨stockBrush, stockPen, clip.1, 0, 0⟩
      alive := insert dc clip.2.alive
      made := dc + 1 })

/-- `CdResetDC` -/
def cdResetDC (k : Kernel) (dc : Nat) : Kernel :=
  let k := k.cdFreeRegion (k.dcs dc).cliprgn
  let clip := k.cdEverythingRegion
  let k := (clip.2.derefObject (clip.2.dcs dc).brush).derefObject (clip.2.dcs dc).pen
  let k := k.setDc dc ⟨stockBrush, stockPen, clip.1, 0, 0⟩
  (k.refObject stockBrush).refObject stockPen

/-! ## The cache -/

/-- The loop of `WmGetDC`: the first DC that is not allocated, which then is. -/
def getLoop : List CacheEntry → Option (Nat × List CacheEntry)
  | [] => none
  | e :: es =>
    if !e.allocated then some (e.dc, { e with allocated := true } :: es)
    else (getLoop es).map fun found => (found.1, e :: found.2)

/-- `WmGetDC` -/
def wmGetDC (k : Kernel) : Nat × Kernel :=
  match getLoop k.cache with
  | some found => (found.1, { k with cache := found.2 })
  | none => k.cdCreateDc

/-- The loop of `WmReturnDC`: the entry of the DC, which then is not allocated. -/
def returnLoop (dc : Nat) : List CacheEntry → Option (List CacheEntry)
  | [] => none
  | e :: es =>
    if e.dc = dc then some ({ e with allocated := false } :: es)
    else (returnLoop dc es).map fun es => e :: es

/-- `WmReturnDC`. The reference that it drops is the only one of the DC. -/
def wmReturnDC (k : Kernel) (dc : Nat) : Kernel :=
  match returnLoop dc k.cache with
  | some cache => { k with cache }.cdResetDC dc
  | none => k.cleanupDc dc

/-- The loop of `WmInitDcCache` -/
def initLoop : Nat → Kernel → Kernel
  | 0, k => k
  | n + 1, k =>
    let dc := k.cdCreateDc
    initLoop n { dc.2 with cache := dc.2.cache ++ [⟨dc.1, false⟩] }

/-- `WmInitDcCache`, before which no DC was made -/
def wmInitDcCache (dcs : Nat → Dc) : Kernel :=
  initLoop dcCacheSize ⟨[], dcs, ∅, 0, 0, fun _ => 0, fun _ => 0⟩

end Kernel

/-! ## What is held -/

/-- The storage of a region -/
def ClipRgn.holds : ClipRgn → List Resource
  | .bad | .empty => []
  | .stored block _ => [.storage block]

/-- The references and the storage that a DC has to release -/
def Dc.holds (dc : Dc) : List Resource :=
  .object dc.brush :: .object dc.pen :: dc.cliprgn.holds

namespace Kernel

variable {k mid next : Kernel} {gains losses : List Resource} {dc obj : Nat} {value : Dc}

/-- How often the DCs hold a resource -/
def held (k : Kernel) (res : Resource) : Nat := ∑ dc ∈ k.alive, (k.dcs dc).holds.count res

/-- Every resource that was taken is released or held, but for what is lost. -/
def Ledger (k : Kernel) (lost : List Resource) : Prop :=
  ∀ res, k.taken res = k.released res + k.held res + lost.count res

/-- From `k` to `next`, resources are taken and released and no DC changes. -/
structure Spent (k next : Kernel) (gains losses : List Resource) : Prop where
  cache_eq : next.cache = k.cache
  dcs_eq : next.dcs = k.dcs
  alive_eq : next.alive = k.alive
  made_eq : next.made = k.made
  taken_eq : ∀ res, next.taken res = k.taken res + gains.count res
  released_eq : ∀ res, next.released res = k.released res + losses.count res

theorem Spent.trans {gains' losses' : List Resource} (h : Spent k mid gains losses)
    (h' : Spent mid next gains' losses') : Spent k next (gains ++ gains') (losses ++ losses') where
  cache_eq := h'.cache_eq.trans h.cache_eq
  dcs_eq := h'.dcs_eq.trans h.dcs_eq
  alive_eq := h'.alive_eq.trans h.alive_eq
  made_eq := h'.made_eq.trans h.made_eq
  taken_eq := fun res => by rw [h'.taken_eq, h.taken_eq, List.count_append, Nat.add_assoc]
  released_eq := fun res => by
    rw [h'.released_eq, h.released_eq, List.count_append, Nat.add_assoc]

theorem update_succ (f : Resource → Nat) (res other : Resource) :
    Function.update f res (f res + 1) other = f other + [res].count other := by
  rw [Function.update_apply, List.count_singleton]
  by_cases h : other = res
  · simp [h]
  · simp [h, Ne.symm h]

theorem spent_self (k : Kernel) : Spent k k [] [] :=
  ⟨rfl, rfl, rfl, rfl, fun _ => rfl, fun _ => rfl⟩

theorem spent_refObject (k : Kernel) (obj : Nat) : Spent k (k.refObject obj) [.object obj] [] :=
  ⟨rfl, rfl, rfl, rfl, update_succ _ _, fun _ => rfl⟩

theorem spent_derefObject (k : Kernel) (obj : Nat) :
    Spent k (k.derefObject obj) [] [.object obj] :=
  ⟨rfl, rfl, rfl, rfl, fun _ => rfl, update_succ _ _⟩

theorem spent_cdFreeRegion (k : Kernel) (rgn : ClipRgn) :
    Spent k (k.cdFreeRegion rgn) [] rgn.holds := by
  cases rgn with
  | bad | empty => exact spent_self k
  | stored block shape => exact ⟨rfl, rfl, rfl, rfl, fun _ => rfl, update_succ _ _⟩

theorem spent_newRegion (k : Kernel) (shape : Region) :
    Spent k (k.newRegion shape).2 (k.newRegion shape).1.holds [] :=
  ⟨rfl, rfl, rfl, rfl, update_succ _ _, fun _ => rfl⟩

theorem spent_cdCopyRegion (k : Kernel) (rgn : ClipRgn) :
    Spent k (k.cdCopyRegion rgn).2 (k.cdCopyRegion rgn).1.holds [] := by
  cases rgn with
  | bad | empty => exact spent_self k
  | stored block shape =>
    by_cases hempty : shape = ∅
    · rw [cdCopyRegion, if_pos hempty]
      exact spent_self k
    · rw [cdCopyRegion, if_neg hempty]
      exact spent_newRegion ..

theorem spent_cdIntersectRegion (k : Kernel) (keeps : Bool) (a b : ClipRgn) :
    Spent k (k.cdIntersectRegion keeps a b).2 (k.cdIntersectRegion keeps a b).1.holds [] := by
  unfold cdIntersectRegion
  split
  · exact spent_self k
  · exact spent_self k
  · exact spent_self k
  · exact spent_self k
  · split
    · exact spent_self k
    · exact spent_newRegion ..

/-! ## Changes of a DC -/

/-- From `k` to `next` one DC changes, and what it takes and releases is the difference in what it
holds. -/
structure Change (k next : Kernel) (dc : Nat) (value : Dc) : Prop where
  cache_eq : next.cache = k.cache
  dcs_eq : next.dcs = Function.update k.dcs dc value
  alive_eq : next.alive = k.alive
  made_eq : next.made = k.made
  balance : ∀ res, next.taken res + k.released res + (k.dcs dc).holds.count res =
    k.taken res + next.released res + value.holds.count res

theorem change_setDc_spent {gains' losses' : List Resource} (h : Spent k mid gains losses)
    (h' : Spent (mid.setDc dc value) next gains' losses')
    (hbalance : ∀ res, gains.count res + gains'.count res + (k.dcs dc).holds.count res =
      losses.count res + losses'.count res + value.holds.count res) : Change k next dc value where
  cache_eq := h'.cache_eq.trans h.cache_eq
  dcs_eq := by rw [h'.dcs_eq, setDc, h.dcs_eq]
  alive_eq := h'.alive_eq.trans h.alive_eq
  made_eq := h'.made_eq.trans h.made_eq
  balance := by
    intro res
    have htaken : (mid.setDc dc value).taken res = _ := h.taken_eq res
    have hreleased : (mid.setDc dc value).released res = _ := h.released_eq res
    have := hbalance res
    rw [h'.taken_eq, h'.released_eq]
    omega

theorem change_setDc (h : Spent k mid gains losses)
    (hbalance : ∀ res, gains.count res + (k.dcs dc).holds.count res =
      losses.count res + value.holds.count res) : Change k (mid.setDc dc value) dc value :=
  change_setDc_spent h (spent_self _) hbalance

theorem change_cdSetTranslation (k : Kernel) (dc : Nat) (x y : Int) :
    Change k (k.cdSetTranslation dc x y) dc
      { k.dcs dc with transX := int16 x, transY := int16 y } :=
  change_setDc (spent_self k) fun _ => rfl

theorem change_cdSetClipRegion (k : Kernel) (dc : Nat) (rgn : ClipRgn) :
    ∃ value, Change k (k.cdSetClipRegion dc rgn) dc value := by
  have hfree := spent_cdFreeRegion k (k.dcs dc).cliprgn
  have hall := hfree.trans (spent_cdCopyRegion _ rgn)
  refine ⟨_, change_setDc hall fun res => ?_⟩
  simp only [hall.dcs_eq, Dc.holds, List.count_cons, List.nil_append, List.append_nil]
  omega

theorem change_cdRestrictClipRegion (k : Kernel) (dc : Nat) (keeps : Bool) (rgn : ClipRgn) :
    ∃ value, Change k (k.cdRestrictClipRegion dc keeps rgn) dc value := by
  have hinter := spent_cdIntersectRegion k keeps (k.dcs dc).cliprgn rgn
  unfold cdRestrictClipRegion
  simp only
  split
  next hbad =>
    rw [hbad] at hinter
    have hself : Change k (_ : Kernel) dc (k.dcs dc) := change_setDc hinter fun _ => rfl
    refine ⟨k.dcs dc, hself.cache_eq, ?_, hself.alive_eq, hself.made_eq, hself.balance⟩
    rw [hinter.dcs_eq, Function.update_eq_self]
  next hgood =>
    have hall := hinter.trans (spent_cdFreeRegion _ (k.dcs dc).cliprgn)
    rw [hinter.dcs_eq]
    refine ⟨_, change_setDc hall fun res => ?_⟩
    simp only [hall.dcs_eq, Dc.holds, List.count_cons, List.nil_append, List.append_nil]
    omega

theorem change_cdSetGraphicsObject (k : Kernel) (dc : Nat) (userType : UserType) (obj : Nat) :
    ∃ value, Change k (k.cdSetGraphicsObject dc userType obj) dc value := by
  have href := spent_refObject k obj
  cases userType with
  | brush =>
    have hall := href.trans (spent_derefObject (k.refObject obj) (k.dcs dc).brush)
    refine ⟨_, change_setDc hall fun res => ?_⟩
    simp only [hall.dcs_eq, Dc.holds, List.count_cons, List.count_append, List.count_nil]
    omega
  | pen =>
    have hall := href.trans (spent_derefObject (k.refObject obj) (k.dcs dc).pen)
    refine ⟨_, change_setDc hall fun res => ?_⟩
    simp only [hall.dcs_eq, Dc.holds, List.count_cons, List.count_append, List.count_nil]
    omega
  | other =>
    refine ⟨k.dcs dc, rfl, ?_, rfl, rfl, fun _ => rfl⟩
    exact (Function.update_eq_self ..).symm

/-- Everything may be drawn on, and nothing was changed. -/
structure Clean (dc : Dc) : Prop where
  clip : ∃ block, dc.cliprgn = .stored block everything
  transX : dc.transX = 0
  transY : dc.transY = 0
  brush : dc.brush = stockBrush
  pen : dc.pen = stockPen

theorem change_cdResetDC (k : Kernel) (dc : Nat) :
    ∃ value, Clean value ∧ Change k (k.cdResetDC dc) dc value := by
  have hfree := spent_cdFreeRegion k (k.dcs dc).cliprgn
  have hclip := hfree.trans (spent_newRegion _ everything)
  have hbrush := hclip.trans (spent_derefObject _ (k.dcs dc).brush)
  have hall := hbrush.trans (spent_derefObject _ (k.dcs dc).pen)
  have href (k : Kernel) := (spent_refObject k stockBrush).trans (spent_refObject _ stockPen)
  unfold cdResetDC cdEverythingRegion
  simp only
  rw [hclip.dcs_eq]
  refine ⟨_, ⟨⟨_, rfl⟩, rfl, rfl, rfl, rfl⟩, change_setDc_spent hall (href _) fun res => ?_⟩
  simp only [Dc.holds, List.count_cons, List.count_append, List.count_nil]
  omega

theorem Ledger.change {lost : List Resource} (h : k.Ledger lost) (hdc : dc ∈ k.alive)
    (hc : Change k next dc value) : next.Ledger lost := by
  intro res
  have hheld : k.held res = (k.dcs dc).holds.count res +
      ∑ d ∈ k.alive.erase dc, (k.dcs d).holds.count res := (Finset.add_sum_erase _ _ hdc).symm
  have hheld' : next.held res = value.holds.count res +
      ∑ d ∈ k.alive.erase dc, (k.dcs d).holds.count res := by
    rw [held, hc.alive_eq, ← Finset.add_sum_erase _ _ hdc, hc.dcs_eq, Function.update_self]
    congr 1
    refine Finset.sum_congr rfl fun d hd => ?_
    rw [Function.update_of_ne (Finset.ne_of_mem_erase hd)]
  have := h res
  have := hc.balance res
  omega

/-- What `CdCreateDc` leaves -/
structure Created (k next : Kernel) (dc : Nat) (value : Dc) : Prop where
  dc_eq : dc = k.made
  clean : Clean value
  cache_eq : next.cache = k.cache
  dcs_eq : next.dcs = Function.update k.dcs dc value
  alive_eq : next.alive = insert dc k.alive
  made_eq : next.made = dc + 1
  balance : ∀ res, next.taken res + k.released res =
    k.taken res + next.released res + value.holds.count res

theorem created_cdCreateDc (k : Kernel) :
    ∃ value, Created k k.cdCreateDc.2 k.cdCreateDc.1 value := by
  have href := (spent_refObject k stockBrush).trans (spent_refObject _ stockPen)
  have hall := href.trans (spent_newRegion _ everything)
  refine ⟨_, rfl, ⟨⟨_, rfl⟩, rfl, rfl, rfl, rfl⟩, rfl, rfl, rfl, rfl, fun res => ?_⟩
  have htaken : k.cdCreateDc.2.taken res = _ := hall.taken_eq res
  have hreleased : k.cdCreateDc.2.released res = _ := hall.released_eq res
  rw [htaken, hreleased]
  simp only [cdEverythingRegion, Dc.holds, List.count_cons, List.count_append, List.count_nil]
  omega

theorem Ledger.create {lost : List Resource} (h : k.Ledger lost) (hnew : dc ∉ k.alive)
    (hc : Created k next dc value) : next.Ledger lost := by
  intro res
  have hheld : next.held res = value.holds.count res + k.held res := by
    rw [held, held, hc.alive_eq, Finset.sum_insert hnew, hc.dcs_eq, Function.update_self]
    congr 1
    refine Finset.sum_congr rfl fun d hd => ?_
    rw [Function.update_of_ne (ne_of_mem_of_not_mem hd hnew)]
  have := h res
  have := hc.balance res
  omega

/-- A DC that is destroyed releases its brush and its pen, and loses its region. -/
theorem Ledger.cleanup {lost : List Resource} (h : k.Ledger lost) (hdc : dc ∈ k.alive) :
    (k.cleanupDc dc).Ledger (lost ++ (k.dcs dc).cliprgn.holds) := by
  intro res
  have hspent := (spent_derefObject k (k.dcs dc).brush).trans (spent_derefObject _ (k.dcs dc).pen)
  have htaken : (k.cleanupDc dc).taken res = _ := hspent.taken_eq res
  have hreleased : (k.cleanupDc dc).released res = _ := hspent.released_eq res
  have hheld : k.held res = (k.dcs dc).holds.count res + (k.cleanupDc dc).held res :=
    (Finset.add_sum_erase _ _ hdc).symm
  have hrow := h res
  rw [htaken, hreleased, List.count_append]
  simp only [hheld, Dc.holds, List.count_cons, List.count_append, List.count_nil] at hrow ⊢
  omega

/-! ## The loops over the cache -/

variable {entries rest : List CacheEntry} {e : CacheEntry}

/-- The entry of one DC with `allocated` set -/
def setAllocated (dc : Nat) (allocated : Bool) (e : CacheEntry) : CacheEntry :=
  if e.dc = dc then { e with allocated } else e

theorem map_setAllocated (allocated : Bool) (h : dc ∉ entries.map CacheEntry.dc) :
    entries.map (setAllocated dc allocated) = entries := by
  conv_rhs => rw [← List.map_id entries]
  refine List.map_congr_left fun e he => if_neg ?_
  rintro rfl
  exact h (List.mem_map_of_mem he)

theorem map_dc_setAllocated (dc : Nat) (allocated : Bool) (entries : List CacheEntry) :
    (entries.map (setAllocated dc allocated)).map CacheEntry.dc = entries.map CacheEntry.dc := by
  rw [List.map_map]
  refine List.map_congr_left fun e _ => ?_
  rw [Function.comp_apply, setAllocated]
  split <;> rfl

theorem getLoop_some {found : Nat × List CacheEntry} (hn : (entries.map CacheEntry.dc).Nodup)
    (h : getLoop entries = some found) :
    (∃ e ∈ entries, e.dc = found.1 ∧ e.allocated = false) ∧
      found.2 = entries.map (setAllocated found.1 true) := by
  induction entries generalizing found with
  | nil => cases h
  | cons e rest ih =>
    rw [List.map_cons, List.nodup_cons] at hn
    rw [getLoop] at h
    split at h
    next hfree =>
      obtain rfl := Option.some.inj h
      refine ⟨⟨e, List.mem_cons_self .., rfl, by simpa using hfree⟩, ?_⟩
      rw [List.map_cons, map_setAllocated true hn.1, setAllocated, if_pos rfl]
    next hused =>
      obtain ⟨found', hfound, rfl⟩ := Option.map_eq_some_iff.mp h
      obtain ⟨⟨e', he', hdc, hfree⟩, hrest⟩ := ih hn.2 hfound
      refine ⟨⟨e', List.mem_cons_of_mem _ he', hdc, hfree⟩, ?_⟩
      have hne : e.dc ≠ found'.1 := by
        rintro heq
        exact hn.1 (heq ▸ hdc ▸ List.mem_map_of_mem he')
      rw [List.map_cons, setAllocated, if_neg hne, hrest]

theorem getLoop_none (h : getLoop entries = none) : ∀ e ∈ entries, e.allocated = true := by
  induction entries with
  | nil => nofun
  | cons e rest ih =>
    rw [getLoop] at h
    split at h
    · cases h
    next hused =>
      refine List.forall_mem_cons.mpr ⟨by simpa using hused, ih ?_⟩
      exact Option.map_eq_none_iff.mp h

theorem returnLoop_eq (hn : (entries.map CacheEntry.dc).Nodup) :
    returnLoop dc entries =
      if dc ∈ entries.map CacheEntry.dc then some (entries.map (setAllocated dc false))
      else none := by
  induction entries with
  | nil => rfl
  | cons e rest ih =>
    rw [List.map_cons, List.nodup_cons] at hn
    rw [returnLoop, List.map_cons, List.map_cons, setAllocated]
    by_cases hdc : e.dc = dc
    · rw [if_pos hdc, if_pos hdc, if_pos (by rw [hdc]; exact List.mem_cons_self ..),
        map_setAllocated false (hdc ▸ hn.1)]
    · rw [if_neg hdc, if_neg hdc, ih hn.2]
      by_cases hmem : dc ∈ rest.map CacheEntry.dc
      · rw [if_pos hmem, if_pos (List.mem_cons_of_mem _ hmem), Option.map_some]
      · rw [if_neg hmem, if_neg (by simp [Ne.symm hdc, hmem]), Option.map_none]

end Kernel

/-! ## Runs -/

/-- The DCs that were obtained and not yet returned, and what the regions of returned DCs outside
the cache held -/
structure DcRun where
  kernel : Kernel
  outstanding : List Nat
  lost : List Resource

/-- What returning a DC loses: its region, if it is not in the cache. -/
def DcRun.losses (r : DcRun) (dc : Nat) : List Resource :=
  if dc ∈ r.kernel.cache.map CacheEntry.dc then [] else (r.kernel.dcs dc).cliprgn.holds

/-- What the users of DCs do -/
inductive Step : DcRun → DcRun → Prop
  | get (r : DcRun) :
    Step r
      { r with
        kernel := r.kernel.wmGetDC.2
        outstanding := r.kernel.wmGetDC.1 :: r.outstanding }
  | giveBack (r : DcRun) (dc : Nat) (h : dc ∈ r.outstanding) :
    Step r
      { kernel := r.kernel.wmReturnDC dc
        outstanding := r.outstanding.erase dc
        lost := r.lost ++ r.losses dc }
  | clip (r : DcRun) (dc : Nat) (rgn : ClipRgn) (h : dc ∈ r.outstanding) :
    Step r { r with kernel := r.kernel.cdSetClipRegion dc rgn }
  | restrict (r : DcRun) (dc : Nat) (keeps : Bool) (rgn : ClipRgn) (h : dc ∈ r.outstanding) :
    Step r { r with kernel := r.kernel.cdRestrictClipRegion dc keeps rgn }
  | translate (r : DcRun) (dc : Nat) (x y : Int) (h : dc ∈ r.outstanding) :
    Step r { r with kernel := r.kernel.cdSetTranslation dc x y }
  | setObject (r : DcRun) (dc : Nat) (userType : Kernel.UserType) (obj : Nat)
    (h : dc ∈ r.outstanding) :
    Step r { r with kernel := r.kernel.cdSetGraphicsObject dc userType obj }

def DcRun.start (dcs : Nat → Dc) : DcRun := ⟨Kernel.wmInitDcCache dcs, [], []⟩

/-- The cache knows which of its DCs are outstanding, and the others are clean. -/
structure DcRun.Inv (r : DcRun) : Prop where
  cached : r.kernel.cache.map CacheEntry.dc = List.range dcCacheSize
  allocated : ∀ e ∈ r.kernel.cache, e.allocated = true ↔ e.dc ∈ r.outstanding
  clean : ∀ e ∈ r.kernel.cache, e.allocated = false → Kernel.Clean (r.kernel.dcs e.dc)
  nodup : r.outstanding.Nodup
  alive : ∀ dc, dc ∈ r.kernel.alive ↔ dc < dcCacheSize ∨ dc ∈ r.outstanding
  made : ∀ dc ∈ r.kernel.alive, dc < r.kernel.made
  full : dcCacheSize ≤ r.kernel.made
  ledger : r.kernel.Ledger r.lost

namespace DcRun.Inv

variable {r : DcRun} {next : Kernel} {dc : Nat} {value : Dc}

theorem nodup_cache (h : r.Inv) : (r.kernel.cache.map CacheEntry.dc).Nodup := by
  rw [h.cached]
  exact List.nodup_range

theorem mem_cache_iff (h : r.Inv) : dc ∈ r.kernel.cache.map CacheEntry.dc ↔ dc < dcCacheSize := by
  rw [h.cached, List.mem_range]

theorem dc_lt (h : r.Inv) {e : CacheEntry} (he : e ∈ r.kernel.cache) : e.dc < dcCacheSize :=
  h.mem_cache_iff.mp (List.mem_map_of_mem he)

theorem change (h : r.Inv) (hdc : dc ∈ r.outstanding) (hc : Kernel.Change r.kernel next dc value) :
    ({ r with kernel := next } : DcRun).Inv where
  cached := by rw [hc.cache_eq, h.cached]
  allocated := by
    rw [hc.cache_eq]
    exact h.allocated
  clean := by
    intro e he hfree
    simp only [hc.cache_eq] at he
    have hne : e.dc ≠ dc := by
      rintro rfl
      rw [(h.allocated e he).mpr hdc] at hfree
      cases hfree
    simp only [hc.dcs_eq]
    rw [Function.update_of_ne hne]
    exact h.clean e he hfree
  nodup := h.nodup
  alive := by
    simp only [hc.alive_eq]
    exact h.alive
  made := by
    simp only [hc.alive_eq, hc.made_eq]
    exact h.made
  full := by
    simp only [hc.made_eq]
    exact h.full
  ledger := h.ledger.change ((h.alive dc).mpr (.inr hdc)) hc

/-- The DC that is handed out is no outstanding one, and it is clean. -/
theorem wmGetDC_clean (h : r.Inv) : r.kernel.wmGetDC.1 ∉ r.outstanding ∧
    Kernel.Clean (r.kernel.wmGetDC.2.dcs r.kernel.wmGetDC.1) := by
  unfold Kernel.wmGetDC
  cases hloop : Kernel.getLoop r.kernel.cache with
  | some found =>
    obtain ⟨⟨e, he, hdc, hfree⟩, -⟩ := Kernel.getLoop_some h.nodup_cache hloop
    rw [← hdc]
    refine ⟨fun hout => ?_, h.clean e he hfree⟩
    rw [(h.allocated e he).mpr hout] at hfree
    cases hfree
  | none =>
    obtain ⟨value, hc⟩ := Kernel.created_cdCreateDc r.kernel
    simp only
    rw [hc.dcs_eq, Function.update_self, hc.dc_eq]
    refine ⟨fun hout => ?_, hc.clean⟩
    exact absurd (h.made _ ((h.alive _).mpr (.inr hout))) (Nat.lt_irrefl _)

/-- An entry is set, and its DC is the only one that changes hands. -/
theorem allocated_set (h : r.Inv) {allocated : Bool} {outstanding : List Nat}
    (hset : allocated = true ↔ dc ∈ outstanding)
    (hrest : ∀ d, d ≠ dc → (d ∈ r.outstanding ↔ d ∈ outstanding)) :
    ∀ e ∈ r.kernel.cache.map (Kernel.setAllocated dc allocated),
      e.allocated = true ↔ e.dc ∈ outstanding := by
  intro e hmap
  obtain ⟨e, he, rfl⟩ := List.mem_map.mp hmap
  unfold Kernel.setAllocated
  split
  next heq =>
    rw [heq]
    exact hset
  next hne => exact (h.allocated e he).trans (hrest _ hne)

/-- A DC of the cache is handed out. -/
theorem get_cached (h : r.Inv) {e : CacheEntry} (he : e ∈ r.kernel.cache)
    (hnodup : (e.dc :: r.outstanding).Nodup) :
    ({ r with
      kernel := { r.kernel with cache := r.kernel.cache.map (Kernel.setAllocated e.dc true) }
      outstanding := e.dc :: r.outstanding } : DcRun).Inv where
  cached := (Kernel.map_dc_setAllocated ..).trans h.cached
  allocated := h.allocated_set (by simp) fun d hd => by simp [hd]
  clean := by
    intro e' hmap hfree
    obtain ⟨e', he', rfl⟩ := List.mem_map.mp hmap
    unfold Kernel.setAllocated at hfree ⊢
    split at hfree
    · cases hfree
    next hne =>
      rw [if_neg hne]
      exact h.clean e' he' hfree
  nodup := hnodup
  alive := by
    intro d
    rw [List.mem_cons]
    refine (h.alive d).trans ⟨?_, ?_⟩
    · rintro (hd | hd)
      · exact .inl hd
      · exact .inr (.inr hd)
    · rintro (hd | rfl | hd)
      · exact .inl hd
      · exact .inl (h.dc_lt he)
      · exact .inr hd
  made := h.made
  full := h.full
  ledger := h.ledger

/-- A DC is created and handed out. -/
theorem get_created (h : r.Inv) (hnodup : (dc :: r.outstanding).Nodup)
    (hc : Kernel.Created r.kernel next dc value) :
    ({ r with
      kernel := next
      outstanding := dc :: r.outstanding } : DcRun).Inv := by
  have hfull := h.full
  -- a DC that is made now is none of those made before
  have hdead : dc ∉ r.kernel.alive := by
    rw [hc.dc_eq]
    exact fun halive => absurd (h.made _ halive) (Nat.lt_irrefl _)
  have hne {e : CacheEntry} (he : e ∈ r.kernel.cache) : e.dc ≠ dc := by
    have := h.dc_lt he
    rw [hc.dc_eq]
    omega
  refine ⟨?_, ?_, ?_, hnodup, ?_, ?_, ?_, h.ledger.create hdead hc⟩
  · simp only [hc.cache_eq]
    exact h.cached
  · intro e he
    simp only [hc.cache_eq] at he
    simp [h.allocated e he, hne he]
  · intro e he hfree
    simp only [hc.cache_eq] at he
    simp only [hc.dcs_eq]
    rw [Function.update_of_ne (hne he)]
    exact h.clean e he hfree
  · intro d
    simp only [hc.alive_eq, Finset.mem_insert, h.alive, List.mem_cons]
    tauto
  · intro d hd
    simp only [hc.alive_eq, Finset.mem_insert] at hd
    simp only [hc.made_eq, hc.dc_eq] at hd ⊢
    obtain rfl | hd := hd
    · exact Nat.lt_succ_self _
    · exact Nat.lt_succ_of_lt (h.made d hd)
  · simp only [hc.made_eq, hc.dc_eq]
    omega

theorem get (h : r.Inv) :
    ({ r with
      kernel := r.kernel.wmGetDC.2
      outstanding := r.kernel.wmGetDC.1 :: r.outstanding } : DcRun).Inv := by
  have hnodup : (r.kernel.wmGetDC.1 :: r.outstanding).Nodup :=
    List.nodup_cons.mpr ⟨h.wmGetDC_clean.1, h.nodup⟩
  unfold Kernel.wmGetDC at hnodup ⊢
  cases hloop : Kernel.getLoop r.kernel.cache with
  | some found =>
    obtain ⟨⟨e, he, hdc, -⟩, hcache⟩ := Kernel.getLoop_some h.nodup_cache hloop
    simp only [hloop, ← hdc] at hnodup hcache ⊢
    rw [hcache]
    exact h.get_cached he hnodup
  | none =>
    obtain ⟨value, hc⟩ := Kernel.created_cdCreateDc r.kernel
    simp only [hloop] at hnodup
    exact h.get_created hnodup hc

/-- A DC of the cache is reset, and its entry is free. -/
theorem giveBack_cached (h : r.Inv) (hdc : dc ∈ r.outstanding) (hclean : Kernel.Clean value)
    (hc : Kernel.Change
      { r.kernel with cache := r.kernel.cache.map (Kernel.setAllocated dc false) } next dc value)
    (hlt : dc < dcCacheSize) :
    ({ r with
      kernel := next
      outstanding := r.outstanding.erase dc } : DcRun).Inv := by
  have hmem (d : Nat) : d ∈ r.outstanding.erase dc ↔ d ≠ dc ∧ d ∈ r.outstanding :=
    h.nodup.mem_erase_iff
  refine ⟨?_, ?_, ?_, h.nodup.erase dc, ?_, ?_, ?_, ?_⟩
  · simp only [hc.cache_eq, Kernel.map_dc_setAllocated]
    exact h.cached
  · simp only [hc.cache_eq]
    exact h.allocated_set (by simp [hmem]) fun d hd => by simp [hmem, hd]
  · intro e hmap hfree
    simp only [hc.cache_eq] at hmap
    obtain ⟨e, he, rfl⟩ := List.mem_map.mp hmap
    simp only [hc.dcs_eq]
    unfold Kernel.setAllocated at hfree ⊢
    split at hfree
    next heq =>
      -- the DC itself, which `CdResetDC` has cleaned
      rw [if_pos heq]
      simp only [heq, Function.update_self]
      exact hclean
    next hne =>
      rw [if_neg hne, Function.update_of_ne hne]
      exact h.clean e he hfree
  · intro d
    simp only [hc.alive_eq, h.alive, hmem]
    constructor
    · rintro (hd | hd)
      · exact .inl hd
      · by_cases heq : d = dc
        · exact .inl (heq ▸ hlt)
        · exact .inr ⟨heq, hd⟩
    · rintro (hd | hd)
      · exact .inl hd
      · exact .inr hd.2
  · simp only [hc.alive_eq, hc.made_eq]
    exact h.made
  · simp only [hc.made_eq]
    exact h.full
  · have hledger : ({ r.kernel with
        cache := r.kernel.cache.map (Kernel.setAllocated dc false) } : Kernel).Ledger r.lost :=
      h.ledger
    exact hledger.change ((h.alive dc).mpr (.inr hdc)) hc

/-- A DC from outside the cache is destroyed, and what its clip region holds is lost. -/
theorem giveBack_created (h : r.Inv) (hdc : dc ∈ r.outstanding) (hlarge : ¬ dc < dcCacheSize) :
    ({ kernel := r.kernel.cleanupDc dc
       outstanding := r.outstanding.erase dc
       lost := r.lost ++ (r.kernel.dcs dc).cliprgn.holds } : DcRun).Inv := by
  have hmem (d : Nat) : d ∈ r.outstanding.erase dc ↔ d ≠ dc ∧ d ∈ r.outstanding :=
    h.nodup.mem_erase_iff
  have hne {e : CacheEntry} (he : e ∈ r.kernel.cache) : e.dc ≠ dc := by
    have := h.dc_lt he
    omega
  refine ⟨h.cached, fun e he => ?_, h.clean, h.nodup.erase dc, fun d => ?_, fun d hd => ?_,
    h.full, h.ledger.cleanup ((h.alive dc).mpr (.inr hdc))⟩
  · rw [hmem, h.allocated e he]
    simp [hne he]
  · rw [hmem, Kernel.cleanupDc, Finset.mem_erase]
    have hd : d ∈ r.kernel.alive ↔ _ := h.alive d
    show d ≠ dc ∧ d ∈ r.kernel.alive ↔ _
    rw [hd]
    constructor
    · rintro ⟨hne, hd | hd⟩
      · exact .inl hd
      · exact .inr ⟨hne, hd⟩
    · rintro (hd | hd)
      · exact ⟨by omega, .inl hd⟩
      · exact ⟨hd.1, .inr hd.2⟩
  · exact h.made d (Finset.mem_of_mem_erase hd)

theorem giveBack (h : r.Inv) (hdc : dc ∈ r.outstanding) :
    ({ kernel := r.kernel.wmReturnDC dc
       outstanding := r.outstanding.erase dc
       lost := r.lost ++ r.losses dc } : DcRun).Inv := by
  unfold Kernel.wmReturnDC DcRun.losses
  rw [Kernel.returnLoop_eq h.nodup_cache]
  by_cases hcached : dc ∈ r.kernel.cache.map CacheEntry.dc
  · simp only [if_pos hcached, List.append_nil]
    obtain ⟨value, hclean, hc⟩ := Kernel.change_cdResetDC
      { r.kernel with cache := r.kernel.cache.map (Kernel.setAllocated dc false) } dc
    exact h.giveBack_cached hdc hclean hc (h.mem_cache_iff.mp hcached)
  · simp only [if_neg hcached]
    exact h.giveBack_created hdc (mt h.mem_cache_iff.mpr hcached)

theorem step {r r' : DcRun} (h : r.Inv) (hstep : Step r r') : r'.Inv := by
  cases hstep with
  | get => exact h.get
  | giveBack dc hdc => exact h.giveBack hdc
  | clip dc rgn hdc =>
    obtain ⟨value, hc⟩ := Kernel.change_cdSetClipRegion r.kernel dc rgn
    exact h.change hdc hc
  | restrict dc keeps rgn hdc =>
    obtain ⟨value, hc⟩ := Kernel.change_cdRestrictClipRegion r.kernel dc keeps rgn
    exact h.change hdc hc
  | translate dc x y hdc => exact h.change hdc (Kernel.change_cdSetTranslation r.kernel dc x y)
  | setObject dc userType obj hdc =>
    obtain ⟨value, hc⟩ := Kernel.change_cdSetGraphicsObject r.kernel dc userType obj
    exact h.change hdc hc

end DcRun.Inv

/-! ## The start -/

/-- The first `n` DCs were made, and are in the cache. -/
structure Kernel.Ready (k : Kernel) (n : Nat) : Prop where
  cached : k.cache.map CacheEntry.dc = List.range n
  free : ∀ e ∈ k.cache, e.allocated = false
  clean : ∀ dc < n, Kernel.Clean (k.dcs dc)
  alive : ∀ dc, dc ∈ k.alive ↔ dc < n
  made : k.made = n
  ledger : k.Ledger []

theorem Kernel.Ready.create {k : Kernel} {n : Nat} (h : k.Ready n) :
    ({ k.cdCreateDc.2 with
      cache := k.cdCreateDc.2.cache ++ [⟨k.cdCreateDc.1, false⟩] } : Kernel).Ready (n + 1) := by
  obtain ⟨value, hc⟩ := Kernel.created_cdCreateDc k
  have hdc : k.cdCreateDc.1 = n := hc.dc_eq.trans h.made
  have hdead : k.cdCreateDc.1 ∉ k.alive := by
    rw [h.alive, hdc]
    exact Nat.lt_irrefl n
  have hledger : k.cdCreateDc.2.Ledger [] := h.ledger.create hdead hc
  refine ⟨?_, ?_, ?_, ?_, ?_, hledger⟩
  · simp only [hc.cache_eq]
    rw [List.map_append, h.cached, List.map_singleton, hdc, List.range_succ]
  · intro e he
    simp only [hc.cache_eq, List.mem_append, List.mem_singleton] at he
    obtain he | rfl := he
    · exact h.free e he
    · rfl
  · intro dc hlt
    simp only [hc.dcs_eq, hdc]
    by_cases heq : dc = n
    · rw [heq, Function.update_self]
      exact hc.clean
    · rw [Function.update_of_ne heq]
      exact h.clean dc (by omega)
  · intro dc
    simp only [hc.alive_eq, Finset.mem_insert, h.alive, hdc]
    omega
  · simp only [hc.made_eq, hdc]

theorem Kernel.Ready.initLoop {k : Kernel} {n : Nat} (h : k.Ready n) (m : Nat) :
    (Kernel.initLoop m k).Ready (n + m) := by
  induction m generalizing k n with
  | zero => exact h
  | succ m ih =>
    have hnext := ih h.create
    rw [show n + (m + 1) = n + 1 + m by omega]
    exact hnext

theorem DcRun.inv_start (dcs : Nat → Dc) : (DcRun.start dcs).Inv := by
  have hempty : Kernel.Ready ⟨[], dcs, ∅, 0, 0, fun _ => 0, fun _ => 0⟩ 0 :=
    ⟨rfl, nofun, nofun, fun _ => by simp, rfl, fun _ => by simp [Kernel.held]⟩
  have hready := hempty.initLoop dcCacheSize
  rw [Nat.zero_add] at hready
  have hkernel : (DcRun.start dcs).kernel = Kernel.initLoop dcCacheSize _ := rfl
  refine ⟨hready.cached, fun e he => ?_, fun e he _ => ?_, List.nodup_nil, fun dc => ?_,
    fun dc hdc => ?_, ?_, hready.ledger⟩
  · rw [hready.free e he]
    simp [DcRun.start]
  · have hmem : e.dc ∈ List.range dcCacheSize := hready.cached ▸ List.mem_map_of_mem he
    exact hready.clean e.dc (List.mem_range.mp hmem)
  · rw [hkernel, hready.alive]
    simp [DcRun.start]
  · rw [hkernel, hready.made]
    exact (hready.alive dc).mp hdc
  · rw [hkernel, hready.made]

/-- Every reference and every region that was taken was released once, but for those of the DCs in
the cache. -/
def Kernel.Balanced (k : Kernel) : Prop :=
  ∀ res, k.taken res =
    k.released res + ∑ dc ∈ Finset.range dcCacheSize, (k.dcs dc).holds.count res

theorem DcRun.Inv.balanced_iff {r : DcRun} (h : r.Inv) (hnone : r.outstanding = []) :
    r.kernel.Balanced ↔ r.lost = [] := by
  have halive : r.kernel.alive = Finset.range dcCacheSize := by
    ext dc
    rw [h.alive, hnone, Finset.mem_range]
    simp
  have hledger := h.ledger
  unfold Kernel.Ledger Kernel.held at hledger
  rw [halive] at hledger
  constructor
  · intro hbal
    refine List.eq_nil_iff_forall_not_mem.mpr fun res hres => ?_
    have := List.count_pos_iff.mpr hres
    have := hledger res
    have := hbal res
    omega
  · intro hlost res
    rw [hledger res, hlost, List.count_nil, Nat.add_zero]

/-- While fewer DCs are outstanding than the cache has, the next one is in the cache. -/
theorem DcRun.Inv.wmGetDC_cached {r : DcRun} (h : r.Inv)
    (hfew : r.outstanding.length < dcCacheSize) : r.kernel.wmGetDC.1 < dcCacheSize := by
  unfold Kernel.wmGetDC
  cases hloop : Kernel.getLoop r.kernel.cache with
  | some found =>
    obtain ⟨⟨e, he, hdc, -⟩, -⟩ := Kernel.getLoop_some h.nodup_cache hloop
    exact hdc ▸ h.dc_lt he
  | none =>
    have hsub : List.range dcCacheSize ⊆ r.outstanding := by
      intro dc hdc
      rw [← h.cached] at hdc
      obtain ⟨e, he, rfl⟩ := List.mem_map.mp hdc
      exact (h.allocated e he).mp (Kernel.getLoop_none hloop e he)
    have := (List.nodup_range.subperm hsub).length_le
    rw [List.length_range] at this
    omega

theorem inv_of_reaches {dcs : Nat → Dc} {r : DcRun} (h : Reaches Step (DcRun.start dcs) r) :
    r.Inv := h.invariant (DcRun.inv_start dcs) fun _ _ => DcRun.Inv.step

/-- In every state of a run no DC is outstanding twice, and the next one is new to its user, and
clean. When all are returned, what was taken for them was released exactly if no DC from outside the
cache was returned with a region that had storage. -/
theorem wmGetDC_balanced_iff (dcs : Nat → Dc) (r : DcRun) (h : Reaches Step (DcRun.start dcs) r) :
    r.outstanding.Nodup ∧
    (r.kernel.wmGetDC.1 ∉ r.outstanding ∧
      Kernel.Clean (r.kernel.wmGetDC.2.dcs r.kernel.wmGetDC.1)) ∧
    (r.outstanding = [] → (r.kernel.Balanced ↔ r.lost = [])) :=
  ⟨(inv_of_reaches h).nodup, (inv_of_reaches h).wmGetDC_clean, (inv_of_reaches h).balanced_iff⟩

/-- A DC that is obtained and returned loses nothing if it is one of the cache. -/
theorem exists_one_returned (r : DcRun) (h : r.Inv) (hfew : r.outstanding.length < dcCacheSize) :
    ∃ r', Reaches Step r r' ∧ r'.kernel = r.kernel.wmGetDC.2.wmReturnDC r.kernel.wmGetDC.1 ∧
      r'.outstanding = r.outstanding ∧ r'.lost = r.lost := by
  have hcached := h.get.mem_cache_iff.mpr (h.wmGetDC_cached hfew)
  have hback := Step.giveBack
    { r with kernel := r.kernel.wmGetDC.2, outstanding := r.kernel.wmGetDC.1 :: r.outstanding }
    r.kernel.wmGetDC.1 (List.mem_cons_self ..)
  refine ⟨_, (Relation.ReflTransGen.single (.get r)).tail hback, rfl, List.erase_cons_head .., ?_⟩
  rw [DcRun.losses, if_pos hcached, List.append_nil]

theorem wmGetDC_balanced_iff_one :
    ∃ r : DcRun, (∃ k : Kernel, r.kernel = k.wmGetDC.2.wmReturnDC k.wmGetDC.1) ∧
      r.kernel.Balanced := by
  obtain ⟨r, hrun, hkernel, hnone, hlost⟩ := exists_one_returned
    (DcRun.start fun _ => ⟨0, 0, .empty, 0, 0⟩) (DcRun.inv_start _) (Nat.succ_pos 7)
  exact ⟨r, ⟨_, hkernel⟩, ((wmGetDC_balanced_iff _ r hrun).2.2 hnone).mpr hlost⟩

/-- All DCs that are outstanding can be returned. -/
theorem exists_returned (r : DcRun) :
    ∃ r', Reaches Step r r' ∧ r'.outstanding = [] ∧ r.lost <+: r'.lost := by
  generalize hn : r.outstanding.length = n
  induction n generalizing r with
  | zero => exact ⟨r, .refl, List.length_eq_zero_iff.mp hn, List.prefix_rfl⟩
  | succ n ih =>
    obtain ⟨dc, hdc⟩ := List.exists_mem_of_length_pos (l := r.outstanding) (by omega)
    have hlength := List.length_erase_of_mem hdc
    obtain ⟨r', hrun, hnone, hlost⟩ := ih
      ⟨r.kernel.wmReturnDC dc, r.outstanding.erase dc, r.lost ++ r.losses dc⟩
      (by simp only; omega)
    exact ⟨r', .head (.giveBack r dc hdc) hrun, hnone, (List.prefix_append ..).trans hlost⟩

/-- `n` calls of `WmGetDC` -/
def getMany : Nat → DcRun → DcRun
  | 0, r => r
  | n + 1, r => getMany n ⟨r.kernel.wmGetDC.2, r.kernel.wmGetDC.1 :: r.outstanding, r.lost⟩

theorem reaches_getMany (n : Nat) (r : DcRun) : Reaches Step r (getMany n r) := by
  induction n generalizing r with
  | zero => exact .refl
  | succ n ih => exact .head (.get r) (ih _)

namespace DcRun.Inv

variable {r : DcRun}

/-- `WmGetDC` does not touch the DCs that others have. -/
theorem dcs_wmGetDC (h : r.Inv) {dc : Nat} (hdc : dc ∈ r.outstanding) :
    r.kernel.wmGetDC.2.dcs dc = r.kernel.dcs dc := by
  unfold Kernel.wmGetDC
  cases Kernel.getLoop r.kernel.cache with
  | some found => rfl
  | none =>
    obtain ⟨value, hc⟩ := Kernel.created_cdCreateDc r.kernel
    have hlt := h.made dc ((h.alive dc).mpr (.inr hdc))
    simp only
    rw [hc.dcs_eq, Function.update_of_ne (by rw [hc.dc_eq]; omega)]

theorem getMany (h : r.Inv) (hclean : ∀ dc ∈ r.outstanding, Kernel.Clean (r.kernel.dcs dc))
    (n : Nat) :
    (DcCache.getMany n r).Inv ∧ (DcCache.getMany n r).outstanding.length =
        n + r.outstanding.length ∧
      ∀ dc ∈ (DcCache.getMany n r).outstanding,
        Kernel.Clean ((DcCache.getMany n r).kernel.dcs dc) := by
  induction n generalizing r with
  | zero => exact ⟨h, (Nat.zero_add _).symm, hclean⟩
  | succ n ih =>
    obtain ⟨hinv, hlength, hall⟩ := ih h.get (by
      intro dc hdc
      obtain rfl | hdc := List.mem_cons.mp hdc
      · exact h.wmGetDC_clean.2
      · simp only [h.dcs_wmGetDC hdc]
        exact hclean dc hdc)
    refine ⟨hinv, ?_, hall⟩
    rw [DcCache.getMany, hlength, List.length_cons]
    omega

/-- More DCs than the cache has: one of them is not in it. -/
theorem exists_uncached (h : r.Inv) (hlength : dcCacheSize < r.outstanding.length) :
    ∃ dc ∈ r.outstanding, dc ∉ r.kernel.cache.map CacheEntry.dc := by
  by_contra hall
  push Not at hall
  have hsub : r.outstanding ⊆ List.range dcCacheSize := fun dc hdc => h.cached ▸ hall dc hdc
  have := (h.nodup.subperm hsub).length_le
  rw [List.length_range] at this
  omega

end DcRun.Inv

/-- Nine calls of `WmGetDC`, and then returns of what they gave, can leave a region behind. -/
theorem exists_leak (dcs : Nat → Dc) :
    ∃ r, Reaches Step (getMany 9 (DcRun.start dcs)) r ∧ r.outstanding = [] ∧
      ¬ r.kernel.Balanced := by
  obtain ⟨hinv, hlength, hclean⟩ := (DcRun.inv_start dcs).getMany nofun 9
  have hmore : dcCacheSize < (getMany 9 (DcRun.start dcs)).outstanding.length := by
    rw [hlength]
    exact Nat.lt_of_lt_of_le (by decide) (Nat.le_add_right 9 _)
  obtain ⟨dc, hdc, huncached⟩ := hinv.exists_uncached hmore
  obtain ⟨block, hclip⟩ := (hclean dc hdc).clip
  have hstep := Step.giveBack _ dc hdc
  obtain ⟨r, hrun, hnone, hlost⟩ := exists_returned _
  have hall : Reaches Step (getMany 9 (DcRun.start dcs)) r := .head hstep hrun
  refine ⟨r, hall, hnone, fun hbal => ?_⟩
  have hend := hall.invariant hinv fun _ _ => DcRun.Inv.step
  have hempty := (hend.balanced_iff hnone).mp hbal
  rw [hempty, List.prefix_nil, List.append_eq_nil_iff, DcRun.losses, if_neg huncached, hclip]
    at hlost
  cases hlost.2

theorem wmGetDC_nine_leaks :
    ∃ r, Reaches Step (DcRun.start fun _ => ⟨0, 0, .empty, 0, 0⟩) r ∧
      Reaches Step (getMany 9 (DcRun.start fun _ => ⟨0, 0, .empty, 0, 0⟩)) r ∧
      r.outstanding = [] ∧ ¬ r.kernel.Balanced := by
  obtain ⟨r, hrun, hnone, hbal⟩ := exists_leak fun _ => ⟨0, 0, .empty, 0, 0⟩
  exact ⟨r, (reaches_getMany 9 _).trans hrun, hrun, hnone, hbal⟩

end Nolrem.Wm.DcCache
