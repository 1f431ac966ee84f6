import Mathlib.Data.Fintype.Basic
import Mathlib.Logic.Function.Basic
import Nolrem.Vmm.HarvestRuns

/-!
# The page that is discarded

`FindDiscardPage` of `kernel/mem/vmm.c` with the critical sections that it enters and leaves, over
the table of physical pages of `kernel/mem/phys.c`. Which bits a harvest finds is up to the page
tables of `Nolrem.Vmm.Harvest`. Here it is given for each virtual user, and the hardware sets none
while the scan runs.
-/

namespace Nolrem.Vmm

/-! ## The data -/

/--
A virtual page that uses a physical page. `found` is the accessed and the dirty bit that
`ArchReadVirtDirtyAndAccessed` finds next, or nothing where the page has no table. `busy` is not
bounded: an assertion keeps it from overflowing.
-/
structure PageUser where
  busy : Nat
  accessed : Bool
  dirty : Bool
  found : Option (Bool × Bool)
deriving DecidableEq, Repr

/-- What a harvest changes of a physical page: `dirty`, and the bit `LRU_REFERENCED` of `lru` -/
structure PageMarks where
  dirty : Bool
  referenced : Bool
deriving DecidableEq, Repr

/--
`struct phys_page`, as far as `FindDiscardPage` reads it: `origin` says whether it is a file, and
`vp` is there if `vas` is.
-/
structure PhysPage where
  wired : Nat
  marks : PageMarks
  origin : Option Bool
  vp : Option PageUser
  chain : List PageUser
deriving DecidableEq, Repr

/--
The table of physical pages, whose index goes up to `last`, and the clock hand. `held` are the critical
sections that a scan has entered and not left, and `visits` counts how often it came to each page.
-/
structure DiscardState (last : Nat) where
  page : Fin (last + 1) → PhysPage
  held : Fin (last + 1) → Bool
  clockHand : Option (Fin (last + 1))
  visits : Fin (last + 1) → Nat

/-! ## The code -/

namespace PageUser

/-- What `ArchReadVirtDirtyAndAccessed` leaves in `vp->accessed` and `vp->dirty` -/
def read (vp : PageUser) : Bool × Bool := vp.found.getD (vp.accessed, vp.dirty)

/-- `EnterCriticalVirt`. `SynchroniseVirt` writes an entry with neither bit. -/
def enterCriticalVirt (marks : PageMarks) (vp : PageUser) : PageMarks × PageUser :=
  if vp.busy = 0 then
    ({ dirty := marks.dirty || vp.read.2, referenced := marks.referenced || vp.read.1 },
      { busy := 1, accessed := false, dirty := vp.read.2, found := some (false, false) })
  else (marks, { vp with busy := vp.busy + 1 })

/-- `LeaveCriticalVirt` -/
def leaveCriticalVirt (marks : PageMarks) (vp : PageUser) : PageMarks × PageUser :=
  (marks, { vp with busy := vp.busy - 1 })

end PageUser

namespace PhysPage

/-- The loop of `CallOnVirtualUsers` over the chain -/
def callOnChain (func : PageMarks → PageUser → PageMarks × PageUser) :
    PageMarks → List PageUser → PageMarks × List PageUser
  | marks, [] => (marks, [])
  | marks, vp :: chain =>
    let called := func marks vp
    let rest := callOnChain func called.1 chain
    (rest.1, called.2 :: rest.2)

/-- `CallOnVirtualUsers` -/
def callOnVirtualUsers (pp : PhysPage) (func : PageMarks → PageUser → PageMarks × PageUser) :
    PhysPage :=
  let pp :=
    match pp.vp with
    | none => pp
    | some vp => { pp with marks := (func pp.marks vp).1, vp := some (func pp.marks vp).2 }
  { pp with
    marks := (callOnChain func pp.marks pp.chain).1
    chain := (callOnChain func pp.marks pp.chain).2 }

/-- `pp->vas != NULL || pp->chain != NULL` -/
def hasUser (pp : PhysPage) : Bool := pp.vp.isSome || !pp.chain.isEmpty

/-- `candidate` of `FindDiscardPage` -/
def candidate (pp : PhysPage) : Bool :=
  pp.wired = 0 && pp.origin = some true && pp.hasUser

/-- `usable` of `FindDiscardPage`, in the critical section -/
def usable (pp : PhysPage) : Bool :=
  pp.wired = 0 && !pp.marks.dirty && pp.origin = some true && pp.hasUser

end PhysPage

variable {last : Nat}

/-- `GetNextPhysPage` -/
def getNextPhysPage (pp : Fin (last + 1)) : Option (Fin (last + 1)) :=
  if h : pp.val < last then some ⟨pp.val + 1, by omega⟩ else none

namespace DiscardState

/-- Changes one page. -/
def setPage (st : DiscardState last) (pp : Fin (last + 1)) (page : PhysPage) :
    DiscardState last :=
  { st with page := Function.update st.page pp page }

/-- `EnterPhysPageCriticalSection` -/
def enterCritical (st : DiscardState last) (pp : Fin (last + 1)) : DiscardState last :=
  { st.setPage pp ((st.page pp).callOnVirtualUsers PageUser.enterCriticalVirt) with
    held := Function.update st.held pp true }

/-- `LeavePhysPageCriticalSection` -/
def leaveCritical (st : DiscardState last) (pp : Fin (last + 1)) : DiscardState last :=
  { st.setPage pp ((st.page pp).callOnVirtualUsers PageUser.leaveCriticalVirt) with
    held := Function.update st.held pp false }

/-- `pp->lru &= ~LRU_REFERENCED` -/
def secondChance (st : DiscardState last) (pp : Fin (last + 1)) : DiscardState last :=
  st.setPage pp { st.page pp with marks := { (st.page pp).marks with referenced := false } }

/-- The body of the loop of `FindDiscardPage`: whether the page is the victim -/
def visit (st : DiscardState last) (pp : Fin (last + 1)) : Bool × DiscardState last :=
  let st := { st with visits := Function.update st.visits pp (st.visits pp + 1) }
  if (st.page pp).candidate = false then (false, st)
  else
    let st := st.enterCritical pp
    if (st.page pp).usable && !(st.page pp).marks.referenced then (true, st)
    else
      let st := if (st.page pp).usable then st.secondChance pp else st
      (false, st.leaveCritical pp)

/-- The loop of `FindDiscardPage` -/
def scan (st : DiscardState last) (pp : Fin (last + 1)) (wraps : Nat) :
    Option (Fin (last + 1)) × DiscardState last :=
  match hnext : getNextPhysPage pp with
  | none =>
    if 2 < wraps + 1 then (none, { st with clockHand := some 0 })
    else
      let visited := st.visit pp
      if visited.1 then (some pp, { visited.2 with clockHand := some 0 })
      else scan visited.2 0 (wraps + 1)
  | some next =>
    let visited := st.visit pp
    if visited.1 then (some pp, { visited.2 with clockHand := some next })
    else scan visited.2 next wraps
termination_by (3 - wraps, last - pp.val)
decreasing_by
  · exact Prod.Lex.left _ _ (by omega)
  · unfold getNextPhysPage at hnext
    split at hnext
    · cases hnext
      exact Prod.Lex.right _ (by simp only; omega)
    · cases hnext

end DiscardState

/-! ## What the scan is for -/

namespace PhysPage

/-- The virtual users, in the order of `CallOnVirtualUsers` -/
def users (pp : PhysPage) : List PageUser := pp.vp.toList ++ pp.chain

/-- Dirty once its users' bits are harvested -/
def Dirty (pp : PhysPage) : Prop :=
  pp.marks.dirty = true ∨ ∃ vp ∈ pp.users, vp.busy = 0 ∧ vp.read.2 = true

/-- Not wired, not dirty once its users' bits are harvested, with a file origin, and used -/
structure Usable (pp : PhysPage) : Prop where
  unwired : pp.wired = 0
  clean : ¬pp.Dirty
  file : pp.origin = some true
  used : pp.users ≠ []

/-- Referenced once its users' bits are harvested -/
def Referenced (pp : PhysPage) : Prop :=
  pp.marks.referenced = true ∨ ∃ vp ∈ pp.users, vp.busy = 0 ∧ vp.read.1 = true

/-- The page is used as before: so are its tests, and the busy counts of its users. -/
structure Alike (pp pp' : PhysPage) : Prop where
  wired : pp'.wired = pp.wired
  origin : pp'.origin = pp.origin
  busy : pp'.users.map PageUser.busy = pp.users.map PageUser.busy
  dirty : pp'.Dirty ↔ pp.Dirty

/-- The page is in its critical section: each user is busy once more, and its bits are harvested. -/
structure Entered (pp pp' : PhysPage) : Prop where
  wired : pp'.wired = pp.wired
  origin : pp'.origin = pp.origin
  busy : pp'.users.map PageUser.busy = pp.users.map fun vp => vp.busy + 1
  dirty : pp'.marks.dirty = true ↔ pp.Dirty
  referenced : pp'.marks.referenced = true ↔ pp.Referenced

theorem Alike.refl (pp : PhysPage) : Alike pp pp := ⟨rfl, rfl, rfl, Iff.rfl⟩

theorem Alike.trans {a b c : PhysPage} (h : Alike a b) (h' : Alike b c) : Alike a c :=
  ⟨h'.wired.trans h.wired, h'.origin.trans h.origin, h'.busy.trans h.busy,
    h'.dirty.trans h.dirty⟩

theorem Alike.usable {a b : PhysPage} (h : Alike a b) : b.Usable ↔ a.Usable := by
  have hused : b.users ≠ [] ↔ a.users ≠ [] := by
    have hlen := congrArg List.length h.busy
    rw [List.length_map, List.length_map] at hlen
    rw [← List.length_pos_iff, ← List.length_pos_iff, hlen]
  constructor
  · intro hu
    exact ⟨h.wired ▸ hu.unwired, mt h.dirty.mpr hu.clean, h.origin ▸ hu.file, hused.mp hu.used⟩
  · intro hu
    exact ⟨h.wired ▸ hu.unwired, mt h.dirty.mp hu.clean, h.origin ▸ hu.file, hused.mpr hu.used⟩

/-! ## Calling a function on the users -/

section Calls

variable {func : PageMarks → PageUser → PageMarks × PageUser} {g : PageUser → PageUser}

theorem callOnChain_eq (hg : ∀ marks vp, (func marks vp).2 = g vp) (marks : PageMarks)
    (chain : List PageUser) :
    callOnChain func marks chain =
      (chain.foldl (fun m vp => (func m vp).1) marks, chain.map g) := by
  induction chain generalizing marks with
  | nil => rfl
  | cons vp chain ih =>
    rw [callOnChain, ih, hg]
    rfl

theorem callOnVirtualUsers_users (hg : ∀ marks vp, (func marks vp).2 = g vp) (pp : PhysPage) :
    (pp.callOnVirtualUsers func).users = pp.users.map g := by
  unfold callOnVirtualUsers users
  cases hvp : pp.vp with
  | none => simp [hvp, callOnChain_eq hg]
  | some vp => simp [hg, callOnChain_eq hg]

theorem callOnVirtualUsers_marks (hg : ∀ marks vp, (func marks vp).2 = g vp) (pp : PhysPage) :
    (pp.callOnVirtualUsers func).marks =
      pp.users.foldl (fun m vp => (func m vp).1) pp.marks := by
  unfold callOnVirtualUsers users
  cases hvp : pp.vp with
  | none => simp [callOnChain_eq hg]
  | some vp => simp [callOnChain_eq hg]

theorem callOnVirtualUsers_frame (pp : PhysPage) :
    (pp.callOnVirtualUsers func).wired = pp.wired ∧
      (pp.callOnVirtualUsers func).origin = pp.origin := by
  unfold callOnVirtualUsers
  cases pp.vp with
  | none => exact ⟨rfl, rfl⟩
  | some vp => exact ⟨rfl, rfl⟩

end Calls

theorem hasUser_iff (pp : PhysPage) : pp.hasUser = true ↔ pp.users ≠ [] := by
  unfold hasUser users
  cases pp.vp with
  | none => cases pp.chain <;> simp
  | some vp => simp

end PhysPage

/-! ## Harvests of the page tables -/

section Tables

/-- The bits that a harvest of a page finds in the page tables -/
def foundIn (pt : PageTables) (vp : VirtPage) : Option (Bool × Bool) :=
  (entryAt pt vp.level1 vp.level2).map fun e => (hasFlag e pageAccessed, hasFlag e pageDirty)

/-- A virtual page and its entry, as a user of its physical page -/
def userOf (pt : PageTables) (vp : VirtPage) : PageUser where
  busy := vp.busy
  accessed := vp.accessed
  dirty := vp.dirty
  found := foundIn pt vp

/-- `dirty` and `lru` of a physical page -/
def marksOf (pp : Bool × BitVec 16) : PageMarks where
  dirty := pp.1
  referenced := pp.2.getLsbD 15

/-- The entry that `SynchroniseVirt` writes has neither bit. -/
theorem unmarked_translate (vp : VirtPage) : Unmarked (translateToEntry vp) := by
  have hbit : ∀ k, k = 6 ∨ k = 5 → (translateToEntry vp).getLsbD k = false := by
    intro k hk
    unfold translateToEntry
    simp only [BitVec.getLsbD_or, BitVec.getLsbD_and, apply_ite
      (fun b : BitVec 32 => b.getLsbD k), BitVec.getLsbD_zero]
    rcases hk with rfl | rfl
    · rw [show (~~~0xFFF#32).getLsbD 6 = false by decide,
        show pagePresent.getLsbD 6 = false by decide, show pageWrite.getLsbD 6 = false by decide,
        show pageUser.getLsbD 6 = false by decide, show pageGlobal.getLsbD 6 = false by decide]
      simp
    · rw [show (~~~0xFFF#32).getLsbD 5 = false by decide,
        show pagePresent.getLsbD 5 = false by decide, show pageWrite.getLsbD 5 = false by decide,
        show pageUser.getLsbD 5 = false by decide, show pageGlobal.getLsbD 5 = false by decide]
      simp
  exact ⟨(hasFlag_dirty _).trans (hbit 6 (.inl rfl)), (hasFlag_accessed _).trans (hbit 5 (.inr rfl))⟩

/-- After `SynchroniseVirt` a harvest of the page finds nothing. -/
theorem foundIn_synchroniseVirt {pt : PageTables} {vp : VirtPage} {frame : Nat} (h : Separate pt)
    (hl : vp.level1 < 1023) (hf : UnusedFrame pt frame) :
    foundIn (synchroniseVirt pt vp frame) vp = some (false, false) := by
  have hentry : entryAt (synchroniseVirt pt vp frame) vp.level1 vp.level2 =
      if vp.level1 = vp.level1 ∧ vp.level2 = vp.level2 then some (translateToEntry vp) else _ :=
    (h.setPte hl hf).2 vp.level1 hl vp.level2 (level2_lt vp)
  rw [if_pos ⟨rfl, rfl⟩] at hentry
  obtain ⟨hdirty, haccessed⟩ := unmarked_translate vp
  unfold foundIn
  rw [hentry, Option.map_some, hdirty, haccessed]

/-- What `ArchReadVirtDirtyAndAccessed` leaves in the page is what is found in its entry. -/
theorem archRead_read (pt : PageTables) (vp : VirtPage) :
    ((archReadVirtDirtyAndAccessed pt vp).2.accessed,
      (archReadVirtDirtyAndAccessed pt vp).2.dirty) = (userOf pt vp).read := by
  unfold archReadVirtDirtyAndAccessed PageUser.read userOf foundIn entryAt
  cases tablePresent pt vp.level1 with
  | true => rfl
  | false => rfl

/-- `EnterCriticalVirt` on the page tables is `EnterCriticalVirt` on the bits that are found. -/
theorem enterCriticalVirt_userOf {pt : PageTables} {vp : VirtPage} {frame : Nat} (h : Separate pt)
    (hl : vp.level1 < 1023) (hf : UnusedFrame pt frame) (pp : Bool × BitVec 16) :
    (userOf pt vp).enterCriticalVirt (marksOf pp) =
      (marksOf (enterCriticalVirt pt pp vp frame).2.1,
        userOf (enterCriticalVirt pt pp vp frame).1 (enterCriticalVirt pt pp vp frame).2.2) := by
  by_cases hbusy : vp.busy = 0
  · -- the page as the harvest leaves it, before `SynchroniseVirt`
    generalize hread : archReadVirtDirtyAndAccessed pt { vp with busy := vp.busy + 1 } = read
    have hl' : ({ vp with busy := vp.busy + 1 } : VirtPage).level1 < 1023 := hl
    have hfound := archRead_read pt { vp with busy := vp.busy + 1 }
    have hsame := (h.archRead hl').1
    have hsep := (h.archRead hl').2.1
    have hvirt := archRead_virt pt { vp with busy := vp.busy + 1 }
    have hcount : (archReadVirtDirtyAndAccessed pt
        { vp with busy := vp.busy + 1 }).2.busy = vp.busy + 1 := by
      unfold archReadVirtDirtyAndAccessed
      split <;> rfl
    rw [hread] at hfound hsame hsep hvirt hcount
    have hlevel : ({ read.2 with accessed := false } : VirtPage).level1 < 1023 := by
      unfold VirtPage.level1
      rw [show ({ read.2 with accessed := false } : VirtPage).virt = vp.virt from hvirt]
      exact hl
    have hafter := foundIn_synchroniseVirt hsep hlevel (hf.sameTables hsame)
    have henter : enterCriticalVirt pt pp vp frame =
        (synchroniseVirt read.1 { read.2 with accessed := false } frame,
          (pp.1 || read.2.dirty, if read.2.accessed then pp.2 ||| 0x8000#16 else pp.2),
          { read.2 with accessed := false }) := by
      unfold enterCriticalVirt
      rw [if_pos hbusy, hread]
    rw [henter]
    unfold PageUser.enterCriticalVirt
    rw [if_pos (show (userOf pt vp).busy = 0 from hbusy)]
    have hdirty : (userOf pt vp).read.2 = read.2.dirty := (congrArg Prod.snd hfound).symm
    have haccessed : (userOf pt vp).read.1 = read.2.accessed := (congrArg Prod.fst hfound).symm
    rw [hdirty, haccessed, Prod.mk.injEq]
    constructor
    · unfold marksOf
      rw [PageMarks.mk.injEq]
      refine ⟨rfl, ?_⟩
      cases read.2.accessed <;> simp
    · unfold userOf
      rw [PageUser.mk.injEq]
      exact ⟨by rw [hcount, hbusy], rfl, rfl, hafter.symm⟩
  · unfold PageUser.enterCriticalVirt enterCriticalVirt
    rw [if_neg (show ¬(userOf pt vp).busy = 0 from hbusy), if_neg hbusy]
    rfl

theorem enterCriticalVirt_userOf_twoPages :
    (userOf twoPages.pt (twoPages.page true)).enterCriticalVirt (marksOf (false, 0)) =
      (marksOf (enterCriticalVirt twoPages.pt (false, 0) (twoPages.page true) 9).2.1,
        userOf (enterCriticalVirt twoPages.pt (false, 0) (twoPages.page true) 9).1
          (enterCriticalVirt twoPages.pt (false, 0) (twoPages.page true) 9).2.2) :=
  enterCriticalVirt_userOf twoPages_start.separate (by decide) twoPages_unused _

end Tables

/-! ## One visit -/

namespace PageUser

/-- A user in the critical section of its page -/
def entered (vp : PageUser) : PageUser := (vp.enterCriticalVirt ⟨false, false⟩).2

/-- A user that was in the critical section of its page and left it -/
def swept (vp : PageUser) : PageUser := { vp.entered with busy := vp.entered.busy - 1 }

theorem enterCriticalVirt_snd (marks : PageMarks) (vp : PageUser) :
    (vp.enterCriticalVirt marks).2 = vp.entered := by
  unfold entered enterCriticalVirt
  split <;> rfl

theorem enterCriticalVirt_dirty (marks : PageMarks) (vp : PageUser) :
    (vp.enterCriticalVirt marks).1.dirty = true ↔
      marks.dirty = true ∨ (vp.busy = 0 ∧ vp.read.2 = true) := by
  unfold enterCriticalVirt
  by_cases hb : vp.busy = 0
  · simp [hb]
  · simp [hb]

theorem enterCriticalVirt_referenced (marks : PageMarks) (vp : PageUser) :
    (vp.enterCriticalVirt marks).1.referenced = true ↔
      marks.referenced = true ∨ (vp.busy = 0 ∧ vp.read.1 = true) := by
  unfold enterCriticalVirt
  by_cases hb : vp.busy = 0
  · simp [hb]
  · simp [hb]

theorem entered_busy (vp : PageUser) : vp.entered.busy = vp.busy + 1 := by
  unfold entered enterCriticalVirt
  by_cases hb : vp.busy = 0
  · simp [hb]
  · simp [hb]

theorem swept_busy (vp : PageUser) : vp.swept.busy = vp.busy := by
  unfold swept
  rw [entered_busy]
  exact Nat.add_sub_cancel _ _

/-- The next harvest finds nothing. -/
theorem swept_read {vp : PageUser} (h : vp.swept.busy = 0) : vp.swept.read = (false, false) := by
  rw [swept_busy] at h
  unfold swept entered enterCriticalVirt read
  rw [if_pos h]
  rfl

end PageUser

namespace PhysPage

/-- A mark gathered from the users in turn -/
theorem foldl_mark {mark : PageMarks → Bool} {func : PageMarks → PageUser → PageMarks}
    {P : PageUser → Prop} (h : ∀ m vp, mark (func m vp) = true ↔ mark m = true ∨ P vp)
    (users : List PageUser) (marks : PageMarks) :
    mark (users.foldl func marks) = true ↔ mark marks = true ∨ ∃ vp ∈ users, P vp := by
  induction users generalizing marks with
  | nil => simp
  | cons vp users ih =>
    rw [List.foldl_cons, ih, h, List.exists_mem_cons_iff, or_assoc]

theorem enter_users (pp : PhysPage) :
    (pp.callOnVirtualUsers PageUser.enterCriticalVirt).users = pp.users.map PageUser.entered :=
  callOnVirtualUsers_users PageUser.enterCriticalVirt_snd pp

theorem entered_enter (pp : PhysPage) :
    Entered pp (pp.callOnVirtualUsers PageUser.enterCriticalVirt) := by
  have hframe := @callOnVirtualUsers_frame PageUser.enterCriticalVirt pp
  have hmarks := callOnVirtualUsers_marks PageUser.enterCriticalVirt_snd pp
  constructor
  · exact hframe.1
  · exact hframe.2
  · rw [enter_users, List.map_map]
    exact List.map_congr_left fun vp _ => vp.entered_busy
  · rw [hmarks]
    exact foldl_mark PageUser.enterCriticalVirt_dirty _ _
  · rw [hmarks]
    exact foldl_mark PageUser.enterCriticalVirt_referenced _ _

/-- In its critical section, a page is found usable if it is. -/
theorem Entered.usable_iff {pp e : PhysPage} (h : Entered pp e) : e.usable = true ↔ pp.Usable := by
  have hused : e.users ≠ [] ↔ pp.users ≠ [] := by
    have hlen := congrArg List.length h.busy
    rw [List.length_map, List.length_map] at hlen
    rw [← List.length_pos_iff, ← List.length_pos_iff, hlen]
  unfold usable
  simp only [Bool.and_eq_true, decide_eq_true_eq, Bool.not_eq_true', hasUser_iff]
  rw [h.wired, h.origin, hused, ← Bool.not_eq_true, h.dirty]
  constructor
  · rintro ⟨⟨⟨hwired, hclean⟩, hfile⟩, hused⟩
    exact ⟨hwired, hclean, hfile, hused⟩
  · rintro ⟨hwired, hclean, hfile, hused⟩
    exact ⟨⟨⟨hwired, hclean⟩, hfile⟩, hused⟩

/-- A usable page is a candidate. -/
theorem Usable.candidate {pp : PhysPage} (h : pp.Usable) : pp.candidate = true := by
  unfold PhysPage.candidate
  simp only [Bool.and_eq_true, decide_eq_true_eq, hasUser_iff]
  exact ⟨⟨h.unwired, h.file⟩, h.used⟩

/-- Leaving a critical section, whatever became of the bit `LRU_REFERENCED` in it -/
theorem leave_spec (pp : PhysPage) (marks : PageMarks)
    (hdirty : marks.dirty = (pp.callOnVirtualUsers PageUser.enterCriticalVirt).marks.dirty) :
    Alike pp (({ pp.callOnVirtualUsers PageUser.enterCriticalVirt with
        marks := marks } : PhysPage).callOnVirtualUsers PageUser.leaveCriticalVirt) ∧
      ((({ pp.callOnVirtualUsers PageUser.enterCriticalVirt with
        marks := marks } : PhysPage).callOnVirtualUsers PageUser.leaveCriticalVirt).Referenced ↔
          marks.referenced = true) := by
  have henter := pp.entered_enter
  have hframe := @callOnVirtualUsers_frame PageUser.leaveCriticalVirt
    { pp.callOnVirtualUsers PageUser.enterCriticalVirt with marks := marks }
  have husers : (({ pp.callOnVirtualUsers PageUser.enterCriticalVirt with
      marks := marks } : PhysPage).callOnVirtualUsers PageUser.leaveCriticalVirt).users =
        pp.users.map PageUser.swept := by
    rw [callOnVirtualUsers_users (fun _ _ => rfl : ∀ m vp, (PageUser.leaveCriticalVirt m vp).2 =
      { vp with busy := vp.busy - 1 })]
    change ((pp.callOnVirtualUsers PageUser.enterCriticalVirt).users).map _ = _
    rw [enter_users, List.map_map]
    rfl
  have hmarks : (({ pp.callOnVirtualUsers PageUser.enterCriticalVirt with
      marks := marks } : PhysPage).callOnVirtualUsers PageUser.leaveCriticalVirt).marks = marks := by
    rw [callOnVirtualUsers_marks (fun _ _ => rfl : ∀ m vp, (PageUser.leaveCriticalVirt m vp).2 =
      { vp with busy := vp.busy - 1 })]
    exact List.foldl_fixed' (fun _ => rfl) _
  -- no user has a bit left to harvest
  have hread : ∀ vp ∈ pp.users.map PageUser.swept, vp.busy = 0 → vp.read = (false, false) := by
    intro vp hvp hbusy
    obtain ⟨u, -, rfl⟩ := List.mem_map.mp hvp
    exact PageUser.swept_read hbusy
  refine ⟨⟨hframe.1.trans henter.wired, hframe.2.trans henter.origin, ?_, ?_⟩, ?_⟩
  · rw [husers, List.map_map]
    exact List.map_congr_left fun vp _ => vp.swept_busy
  · unfold Dirty
    rw [husers, hmarks, hdirty, henter.dirty]
    refine ⟨fun h => h.resolve_right ?_, .inl⟩
    rintro ⟨vp, hvp, hbusy, hfound⟩
    rw [hread vp hvp hbusy] at hfound
    cases hfound
  · unfold Referenced
    rw [husers, hmarks]
    refine ⟨fun h => h.resolve_right ?_, .inl⟩
    rintro ⟨vp, hvp, hbusy, hfound⟩
    rw [hread vp hvp hbusy] at hfound
    cases hfound

end PhysPage

namespace DiscardState

open PhysPage (Alike Entered)

/-- What a visit does that does not find a victim. -/
structure Passed (st st' : DiscardState last) (pp : Fin (last + 1)) : Prop where
  alike : ∀ f, Alike (st.page f) (st'.page f)
  other : ∀ f, f ≠ pp → st'.page f = st.page f
  /-- A usable page was referenced, and is not any more. -/
  chance : (st.page pp).Usable → (st.page pp).Referenced ∧ ¬(st'.page pp).Referenced
  held : ∀ f, st.held f = false → st'.held f = false
  visits : st'.visits = Function.update st.visits pp (st.visits pp + 1)

/-- What a visit does that finds a victim. -/
structure Taken (st st' : DiscardState last) (pp : Fin (last + 1)) : Prop where
  usable : (st.page pp).Usable
  entered : Entered (st.page pp) (st'.page pp)
  other : ∀ f, f ≠ pp → st'.page f = st.page f
  held : st'.held = Function.update st.held pp true
  visits : st'.visits = Function.update st.visits pp (st.visits pp + 1)

/-- A visit to a page that is given back: its marks are those of the harvest, or have had
`LRU_REFERENCED` cleared. -/
theorem passed_of_leave (st : DiscardState last) (pp : Fin (last + 1)) {st' : DiscardState last}
    {marks : PageMarks}
    (hdirty : marks.dirty =
      ((st.page pp).callOnVirtualUsers PageUser.enterCriticalVirt).marks.dirty)
    (hpage : st'.page = Function.update st.page pp
      (({ (st.page pp).callOnVirtualUsers PageUser.enterCriticalVirt with
        marks := marks } : PhysPage).callOnVirtualUsers PageUser.leaveCriticalVirt))
    (hheld : st'.held = Function.update st.held pp false)
    (hvisits : st'.visits = Function.update st.visits pp (st.visits pp + 1))
    (hchance : (st.page pp).Usable → (st.page pp).Referenced ∧ marks.referenced = false) :
    Passed st st' pp := by
  obtain ⟨halike, href⟩ := (st.page pp).leave_spec marks hdirty
  have hother : ∀ f, f ≠ pp → st'.page f = st.page f := by
    intro f hf
    rw [hpage, Function.update_of_ne hf]
  have hself : st'.page pp = _ := (congrFun hpage pp).trans (Function.update_self _ _ _)
  constructor
  · intro f
    by_cases hf : f = pp
    · subst hf
      rw [hself]
      exact halike
    · rw [hother f hf]
      exact Alike.refl _
  · exact hother
  · intro hu
    refine ⟨(hchance hu).1, ?_⟩
    rw [hself, href, (hchance hu).2]
    exact Bool.false_ne_true
  · intro f hf
    rw [hheld]
    by_cases hfp : f = pp
    · subst hfp
      exact Function.update_self _ _ _
    · rw [Function.update_of_ne hfp]
      exact hf
  · exact hvisits

theorem visit_spec (st : DiscardState last) (pp : Fin (last + 1)) :
    if (st.visit pp).1 then Taken st (st.visit pp).2 pp else Passed st (st.visit pp).2 pp := by
  have henter := (st.page pp).entered_enter
  unfold visit
  dsimp only
  by_cases hcand : (st.page pp).candidate = false
  · rw [if_pos hcand, if_neg (by simp)]
    constructor
    · exact fun f => Alike.refl _
    · exact fun f _ => rfl
    · intro hu
      rw [hu.candidate] at hcand
      cases hcand
    · exact fun f hf => hf
    · rfl
  · rw [if_neg hcand]
    have hself : (enterCritical { st with
        visits := Function.update st.visits pp (st.visits pp + 1) } pp).page pp =
          (st.page pp).callOnVirtualUsers PageUser.enterCriticalVirt :=
      Function.update_self _ _ _
    rw [hself]
    by_cases husable : ((st.page pp).callOnVirtualUsers
        PageUser.enterCriticalVirt).usable = true
    · by_cases href : ((st.page pp).callOnVirtualUsers
          PageUser.enterCriticalVirt).marks.referenced = true
      · -- usable, but it was referenced: a second chance
        simp only [husable, href, Bool.not_true, Bool.and_false, Bool.false_eq_true, if_false,
          if_true]
        refine @passed_of_leave _ st pp _ { ((st.page pp).callOnVirtualUsers
          PageUser.enterCriticalVirt).marks with referenced := false } rfl ?_ ?_ rfl ?_
        · unfold leaveCritical secondChance setPage enterCritical setPage
          simp only [Function.update_self, Function.update_idem]
        · unfold leaveCritical secondChance setPage enterCritical setPage
          simp only [Function.update_idem]
        · exact fun _ => ⟨henter.referenced.mp href, rfl⟩
      · rw [Bool.not_eq_true] at href
        simp only [husable, href, Bool.not_false, Bool.and_self, if_true]
        constructor
        · exact henter.usable_iff.mp husable
        · rw [hself]
          exact henter
        · exact fun f hf => Function.update_of_ne hf _ _
        · rfl
        · rfl
    · have hun : ¬(st.page pp).Usable := mt henter.usable_iff.mpr husable
      rw [Bool.not_eq_true] at husable
      simp only [husable, Bool.false_and, Bool.false_eq_true, if_false]
      refine @passed_of_leave _ st pp _ ((st.page pp).callOnVirtualUsers
        PageUser.enterCriticalVirt).marks rfl ?_ ?_ rfl (fun hu => absurd hu hun)
      · unfold leaveCritical setPage enterCritical setPage
        simp only [Function.update_self, Function.update_idem]
      · unfold leaveCritical setPage enterCritical setPage
        simp only [Function.update_idem]

/-! ## The scan -/

/-- How often the scan still comes to page `f`. The third time round it stops before the last page. -/
def visitsLeft (f pp : Fin (last + 1)) (wraps : Nat) : Nat :=
  if f.val = last then 2 - wraps else (if pp.val ≤ f.val then 1 else 0) + (2 - wraps)

/-- What the rest of the scan does, from page `pp` on. -/
structure Scanned (st : DiscardState last) (pp : Fin (last + 1)) (wraps : Nat)
    (result : Option (Fin (last + 1))) (st' : DiscardState last) : Prop where
  visits : ∀ f, st'.visits f ≤ st.visits f + visitsLeft f pp wraps
  /-- With two visits to come a usable page is found, and with one if it is not referenced. -/
  missed : result = none → ∀ f, (st.page f).Usable →
    visitsLeft f pp wraps = 0 ∨ visitsLeft f pp wraps = 1 ∧ (st.page f).Referenced
  found : ∀ f, result = some f → (st.page f).Usable ∧ st'.held f = true ∧
    ∃ page, Alike (st.page f) page ∧ Entered page (st'.page f)
  rest : ∀ f, result ≠ some f →
    Alike (st.page f) (st'.page f) ∧ (st.held f = false → st'.held f = false)

/-- The victim is the page that is visited. -/
theorem Scanned.of_taken {st st' : DiscardState last} {pp : Fin (last + 1)} {wraps : Nat}
    {hand : Option (Fin (last + 1))} (h : Taken st st' pp)
    (hleft : 1 ≤ visitsLeft pp pp wraps) :
    Scanned st pp wraps (some pp) { st' with clockHand := hand } := by
  constructor
  · intro f
    change st'.visits f ≤ _
    rw [h.visits]
    by_cases hf : f = pp
    · subst hf
      rw [Function.update_self]
      omega
    · rw [Function.update_of_ne hf]
      omega
  · intro hnone
    cases hnone
  · intro f hf
    cases hf
    refine ⟨h.usable, ?_, _, Alike.refl _, h.entered⟩
    change st'.held pp = true
    rw [h.held]
    exact Function.update_self _ _ _
  · intro f hf
    have hne : f ≠ pp := fun heq => hf (by rw [heq])
    change Alike (st.page f) (st'.page f) ∧ (st.held f = false → st'.held f = false)
    rw [h.other f hne, h.held, Function.update_of_ne hne]
    exact ⟨Alike.refl _, fun hh => hh⟩

/-- The scan goes on after a page. -/
theorem Scanned.of_passed {st mid st' : DiscardState last} {pp next : Fin (last + 1)}
    {wraps wraps' : Nat} {result : Option (Fin (last + 1))} (h : Passed st mid pp)
    (hleft : ∀ f, visitsLeft f pp wraps = (if f = pp then 1 else 0) + visitsLeft f next wraps')
    (hrest : Scanned mid next wraps' result st') : Scanned st pp wraps result st' := by
  constructor
  · intro f
    refine (hrest.visits f).trans ?_
    rw [h.visits, hleft f]
    by_cases hf : f = pp
    · subst hf
      rw [Function.update_self, if_pos rfl]
      omega
    · rw [Function.update_of_ne hf, if_neg hf]
      omega
  · intro hnone f hu
    have hmissed := hrest.missed hnone f ((h.alike f).usable.mpr hu)
    rw [hleft f]
    by_cases hf : f = pp
    · subst hf
      obtain ⟨href, hnot⟩ := h.chance hu
      rw [if_pos rfl]
      rcases hmissed with hzero | ⟨-, href'⟩
      · exact .inr ⟨by omega, href⟩
      · exact absurd href' hnot
    · rw [if_neg hf, Nat.zero_add]
      rwa [h.other f hf] at hmissed
  · intro f hf
    obtain ⟨hu, hheld, page, halike, hentered⟩ := hrest.found f hf
    exact ⟨(h.alike f).usable.mp hu, hheld, page, (h.alike f).trans halike, hentered⟩
  · intro f hf
    obtain ⟨halike, hheld⟩ := hrest.rest f hf
    exact ⟨(h.alike f).trans halike, fun hh => hheld (h.held f hh)⟩

/-- A visit and what comes after it -/
theorem Scanned.step {st : DiscardState last} {pp next : Fin (last + 1)} {wraps wraps' : Nat}
    (hleft : ∀ f, visitsLeft f pp wraps = (if f = pp then 1 else 0) + visitsLeft f next wraps') :
    ((st.visit pp).1 = true → ∀ hand,
      Scanned st pp wraps (some pp) { (st.visit pp).2 with clockHand := hand }) ∧
    ((st.visit pp).1 = false → ∀ result st', Scanned (st.visit pp).2 next wraps' result st' →
      Scanned st pp wraps result st') := by
  have hvisit := st.visit_spec pp
  constructor
  · intro htaken hand
    rw [if_pos htaken] at hvisit
    refine Scanned.of_taken hvisit ?_
    rw [hleft pp, if_pos rfl]
    exact Nat.le_add_right _ _
  · intro hpassed result st' hrest
    rw [if_neg (by rw [hpassed]; exact Bool.false_ne_true)] at hvisit
    exact Scanned.of_passed hvisit hleft hrest

end DiscardState

end Nolrem.Vmm
