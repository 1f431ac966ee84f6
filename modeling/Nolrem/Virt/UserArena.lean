import Nolrem.Virt.Arena

/-!
# The arena of a user address space

`CreateVas` of `kernel/mem/vmm.c` sets up the arena that user mappings come from. Callers may
ask for any size here, so the free list can hold ranges of zero pages, which are out of order;
the invariant of this file allows for them.
-/

namespace Nolrem.Virt

open Nolrem.Lib

/-- `ARCH_USER_AREA_BASE` -/
def userAreaBase : Nat := 0x08000000

/-- `ARCH_USER_AREA_LIMIT` -/
def userAreaLimit : Nat := 0xC0000000

/-- The arena that `CreateVas` makes: the limit is passed as the number of bytes. -/
def createVas (node : Nat) : ArenaState := freshArena node userAreaBase userAreaLimit

/-- The addresses that were handed out: none when the round-up to pages wrapped to zero. -/
def Grant.handed (g : Grant) : Nat × Nat := (g.addr, g.addr + pagesFor g.bytes * 4096)

/-- Every non-empty range that is handed out lies in the user area. -/
def InUserArea (st : ArenaState) : Prop :=
  ∀ g ∈ st.granted, 0 < pagesFor g.bytes → userAreaBase ≤ g.addr ∧ g.handed.2 ≤ userAreaLimit

/-- One call on the arena; `asked` says which requests are made in which states. -/
def UserStep (asked : ArenaState → Nat → Prop) (st st' : ArenaState) : Prop :=
  ArenaStep (asked st) st st'

/-- Any `size_t` may be asked for. -/
def AnyRequest (_ : ArenaState) (bytes : Nat) : Prop := bytes < wordSize

/-- A free range has room for the request below the limit, or none has room anywhere. -/
def RoomBelowLimit (st : ArenaState) (bytes : Nat) : Prop :=
  bytes < wordSize ∧ (pagesFor bytes = 0 ∨
    (∃ r ∈ st.freeList, pagesFor bytes ≤ r.pages ∧
      r.startAddr + pagesFor bytes * 4096 ≤ userAreaLimit) ∨
    ∀ r ∈ st.freeList, r.pages < pagesFor bytes)

/-! ## Lists with empty ranges -/

/-- Every range ends before each later one that is not empty. -/
def Ordered (l : List VirtRange) : Prop :=
  l.Pairwise fun a b => 0 < b.pages → a.endAddr ≤ b.startAddr

/-- The ranges lie in `[start, stop)`. -/
def Within (start stop : Nat) (l : List VirtRange) : Prop :=
  ∀ r ∈ l, start ≤ r.startAddr ∧ r.endAddr ≤ stop

section Alloc

variable {start stop pages : Nat}

/--
What the scan of `AllocVirtEx` takes out of an ordered list. No range that is large enough
starts below the one it takes.
-/
theorem takeFirstFit_ordered (hstop : stop < 4294967296) :
    ∀ {l : List VirtRange} {retv : Nat} {l' : List VirtRange} {freed : Option Nat},
    Ordered l → Within start stop l → takeFirstFit pages l = some (retv, l', freed) →
    Ordered l' ∧ Within start stop l' ∧
      (∀ x, cover VirtRange.span l x
        = cover VirtRange.span l' x + hit retv (retv + pages * 4096) x) ∧
      (∀ b, (∀ r ∈ l, 0 < r.pages → b ≤ r.startAddr) → ∀ r ∈ l', 0 < r.pages → b ≤ r.startAddr) ∧
      ∃ r ∈ l, retv = r.startAddr ∧ pages ≤ r.pages ∧
        ∀ q ∈ l, 0 < pages → pages ≤ q.pages → q = r ∨ r.endAddr ≤ q.startAddr := by
  intro l
  induction l with
  | nil => intro retv l' freed _ _ h; simp [takeFirstFit] at h
  | cons curr rest ih =>
    intro retv l' freed hord hin h
    obtain ⟨hlt, hrest⟩ := List.pairwise_cons.mp hord
    obtain ⟨hlo, hhi⟩ := hin curr (by simp)
    have hinr : Within start stop rest := fun r hr => hin r (by simp [hr])
    have hfirst : pages ≤ curr.pages → ∀ q ∈ curr :: rest, 0 < pages → pages ≤ q.pages →
        q = curr ∨ curr.endAddr ≤ q.startAddr := by
      intro _ q hq hp hpq
      rcases List.mem_cons.mp hq with rfl | hq
      · exact Or.inl rfl
      · exact Or.inr (hlt q hq (by omega))
    rw [takeFirstFit] at h
    split at h
    · next hle =>
      split at h
      · next heq =>
        simp only [Option.some.injEq, Prod.mk.injEq] at h
        obtain ⟨rfl, rfl, -⟩ := h
        refine ⟨hrest, hinr, fun x => ?_, fun b hb r hr => hb r (by simp [hr]), curr, by simp, rfl,
          hle, hfirst hle⟩
        rw [cover_cons, ← heq]
        exact Nat.add_comm _ _
      · next hne =>
        simp only [Option.some.injEq, Prod.mk.injEq] at h
        obtain ⟨rfl, rfl, -⟩ := h
        have hend : curr.startAddr + curr.pages * 4096 ≤ stop := hhi
        have hmul : wmul pages pageSize = pages * 4096 := wmul_eq (by unfold pageSize; omega)
        have hadd : wadd curr.startAddr (pages * 4096) = curr.startAddr + pages * 4096 :=
          wadd_eq (by omega)
        have hsub : wsub curr.pages pages = curr.pages - pages := wsub_eq hle (by omega)
        rw [hmul, hadd, hsub]
        -- the rest of the range ends where the range did
        have hrem : curr.startAddr + pages * 4096 + (curr.pages - pages) * 4096 = curr.endAddr := by
          show _ = curr.startAddr + curr.pages * 4096
          omega
        refine ⟨List.pairwise_cons.mpr ⟨fun q hq hp => ?_, hrest⟩, fun r hr => ?_, fun x => ?_,
          fun b hb r hr hp => ?_, curr, by simp, rfl, hle, hfirst hle⟩
        · show curr.startAddr + pages * 4096 + (curr.pages - pages) * 4096 ≤ q.startAddr
          rw [hrem]
          exact hlt q hq hp
        · rcases List.mem_cons.mp hr with rfl | hr
          · refine ⟨by show start ≤ curr.startAddr + pages * 4096; omega, ?_⟩
            show curr.startAddr + pages * 4096 + (curr.pages - pages) * 4096 ≤ stop
            rw [hrem]
            exact hhi
          · exact hinr r hr
        · rw [cover_cons, cover_cons]
          show hit curr.startAddr curr.endAddr x + _ =
            hit (curr.startAddr + pages * 4096)
              (curr.startAddr + pages * 4096 + (curr.pages - pages) * 4096) x + _ + _
          have hmid : curr.startAddr + pages * 4096 ≤ curr.endAddr := hrem ▸ Nat.le_add_right _ _
          rw [hrem, hit_split (Nat.le_add_right curr.startAddr (pages * 4096)) hmid x]
          omega
        · rcases List.mem_cons.mp hr with rfl | hr
          · have := hb curr (by simp) (by omega)
            show b ≤ curr.startAddr + pages * 4096
            omega
          · exact hb r (by simp [hr]) hp
    · next hgt =>
      cases hrec : takeFirstFit pages rest with
      | none => rw [hrec] at h; simp at h
      | some found =>
        obtain ⟨retv₀, rest', freed₀⟩ := found
        rw [hrec] at h
        simp only [Option.some.injEq, Prod.mk.injEq] at h
        obtain ⟨rfl, rfl, rfl⟩ := h
        obtain ⟨h1, h2, h3, h4, r, hr, hretv, hrp, hfit⟩ := ih hrest hinr hrec
        refine ⟨List.pairwise_cons.mpr ⟨h4 _ hlt, h1⟩, fun q hq => ?_, fun x => ?_,
          fun b hb q hq hp => ?_, r, by simp [hr], hretv, hrp, fun q hq hp hpq => ?_⟩
        · rcases List.mem_cons.mp hq with rfl | hq
          · exact ⟨hlo, hhi⟩
          · exact h2 q hq
        · rw [cover_cons, cover_cons, h3 x]
          omega
        · rcases List.mem_cons.mp hq with rfl | hq
          · exact hb q (by simp) hp
          · exact h4 b (fun r hr => hb r (by simp [hr])) q hq hp
        · rcases List.mem_cons.mp hq with rfl | hq
          · omega
          · exact hfit q hq hp hpq

theorem takeFirstFit_eq_none {l : List VirtRange} :
    takeFirstFit pages l = none ↔ ∀ r ∈ l, r.pages < pages := by
  induction l with
  | nil => simp [takeFirstFit]
  | cons curr rest ih =>
    rw [takeFirstFit, List.forall_mem_cons]
    split
    · next hle =>
      split <;> simp [show ¬ curr.pages < pages by omega]
    · next hgt =>
      rw [← ih]
      cases takeFirstFit pages rest <;> simp [show curr.pages < pages by omega]

end Alloc

section Free

variable {start stop : Nat} {l : List VirtRange} {s bytes : Nat}

/-- What `FreeVirtEx` leaves: the list covers the freed range as well. -/
structure Refilled (start stop s p : Nat) (l l' : List VirtRange) : Prop where
  ordered : Ordered l'
  within : Within start stop l'
  cover : ∀ x, cover VirtRange.span l' x = cover VirtRange.span l x + hit s (s + p * 4096) x

theorem ordered_append {l l' : List VirtRange} : Ordered (l ++ l') ↔
    Ordered l ∧ Ordered l' ∧ ∀ a ∈ l, ∀ b ∈ l', 0 < b.pages → a.endAddr ≤ b.startAddr :=
  List.pairwise_append

theorem ordered_cons {r : VirtRange} {l : List VirtRange} : Ordered (r :: l) ↔
    (∀ b ∈ l, 0 < b.pages → r.endAddr ≤ b.startAddr) ∧ Ordered l := List.pairwise_cons

/-- Where the ranges lie around a range that is not free. -/
theorem around_uncovered {p : Nat} (hord : Ordered l)
    (hfree : ∀ x, s ≤ x → x < s + p * 4096 → cover VirtRange.span l x = 0) :
    (∀ r ∈ l.takeWhile (fun r => r.startAddr < s), r.startAddr < s ∧ (0 < p → r.endAddr ≤ s)) ∧
      ∀ r ∈ currOf l s, 0 < r.pages → s + p * 4096 ≤ r.startAddr := by
  have hsplit : l = l.takeWhile (fun r => r.startAddr < s) ++ currOf l s :=
    List.takeWhile_append_dropWhile.symm
  refine ⟨fun r hr => ?_, fun r hr hp => ?_⟩
  · have hlt : r.startAddr < s := by simpa using List.mem_takeWhile_imp hr
    have hrl : r ∈ l := (List.takeWhile_prefix _).subset hr
    exact ⟨hlt, fun hp => endAddr_le_of_uncovered (by omega) hfree hrl hlt⟩
  · have hrl : r ∈ l := (List.dropWhile_suffix _).subset hr
    refine le_startAddr_of_uncovered hfree hrl hp ?_
    rw [hsplit] at hord
    cases hc : currOf l s with
    | nil => rw [hc] at hr; simp at hr
    | cons curr after =>
      have hge := currOf_head hc
      rw [hc] at hr hord
      rcases List.mem_cons.mp hr with rfl | hr
      · exact hge
      · have hca : curr.endAddr ≤ r.startAddr :=
          (ordered_cons.mp (ordered_append.mp hord).2.1).1 r hr hp
        exact le_trans hge (le_trans (Nat.le_add_right _ _) hca)

/-- `merged_right` compares true ends, since the arena ends below the top of the address space. -/
theorem mergedRight_eq {p : Nat} {curr : VirtRange} {after : List VirtRange}
    (hc : currOf l s = curr :: after) (he : s + p * 4096 < 4294967296) :
    mergedRight l s (wadd s (wmul p pageSize)) = decide (s + p * 4096 = curr.startAddr) := by
  have hmul : wmul p pageSize = p * 4096 := wmul_eq (by unfold pageSize; omega)
  simp only [mergedRight, hc, hmul, wadd_eq he]

/-- From `curr` on, the list takes the freed range and stays ordered. -/
theorem freeTail_ordered {p : Nat} (node : Nat) (hs : start ≤ s) (he : s + p * 4096 ≤ stop)
    (hstop : stop < 4294967296) (hord : Ordered (currOf l s))
    (hin : Within start stop (currOf l s))
    (hafter : ∀ r ∈ currOf l s, 0 < r.pages → s + p * 4096 ≤ r.startAddr) :
    Refilled start stop s p (currOf l s) (freeTail l s p node) ∧
      ∀ e, (0 < p → e ≤ s) → (∀ b ∈ currOf l s, 0 < b.pages → e ≤ b.startAddr) →
        ∀ b ∈ freeTail l s p node, 0 < b.pages → e ≤ b.startAddr := by
  unfold freeTail
  cases hc : currOf l s with
  | nil =>
    refine ⟨⟨List.pairwise_singleton .., ?_, fun x => ?_⟩, fun e h1 _ b hb hp => ?_⟩
    · simpa [Within, VirtRange.endAddr] using ⟨hs, he⟩
    · simp [VirtRange.span, VirtRange.endAddr]
    · obtain rfl := List.mem_singleton.mp hb
      exact h1 hp
  | cons curr after =>
    rw [hc] at hord hin hafter
    obtain ⟨hca, hoa⟩ := ordered_cons.mp hord
    obtain ⟨hclo, hchi⟩ := hin curr (by simp)
    have hcend : curr.startAddr + curr.pages * 4096 ≤ stop := hchi
    simp only [mergedRight_eq hc (show s + p * 4096 < 4294967296 by omega), decide_eq_true_eq]
    split
    · next htouch =>
      have hadd : wadd curr.pages p = curr.pages + p := wadd_eq (by omega)
      have hgrow : s + (curr.pages + p) * 4096 = curr.endAddr := by
        rw [Nat.add_mul, Nat.add_left_comm, htouch, Nat.add_comm]
        rfl
      rw [hadd]
      refine ⟨⟨ordered_cons.mpr ⟨fun q hq hp => ?_, hoa⟩, fun r hr => ?_, fun x => ?_⟩,
        fun e h1 h2 b hb hp => ?_⟩
      · show s + (curr.pages + p) * 4096 ≤ q.startAddr
        rw [hgrow]
        exact hca q hq hp
      · rcases List.mem_cons.mp hr with rfl | hr
        · refine ⟨hs, ?_⟩
          show s + (curr.pages + p) * 4096 ≤ stop
          rw [hgrow]
          exact hchi
        · exact hin r (by simp [hr])
      · rw [cover_cons, cover_cons]
        show hit s (s + (curr.pages + p) * 4096) x + _ = hit curr.startAddr curr.endAddr x + _ + _
        have hmid : s + p * 4096 ≤ curr.endAddr := htouch ▸ Nat.le_add_right _ _
        rw [hgrow, hit_split (Nat.le_add_right s (p * 4096)) hmid x, htouch]
        omega
      · rcases List.mem_cons.mp hb with rfl | hb
        · by_cases hp0 : 0 < p
          · exact h1 hp0
          · have hcp : 0 < curr.pages := by
              simp only at hp
              omega
            have := h2 curr (by simp) hcp
            show e ≤ s
            omega
        · exact h2 b (by simp [hb]) hp
    · next hapart =>
      refine ⟨⟨ordered_cons.mpr ⟨hafter, hord⟩, fun r hr => ?_, fun x => ?_⟩,
        fun e h1 h2 b hb hp => ?_⟩
      · rcases List.mem_cons.mp hr with rfl | hr
        · exact ⟨hs, he⟩
        · exact hin r hr
      · rw [cover_cons]
        exact Nat.add_comm _ _
      · rcases List.mem_cons.mp hb with rfl | hb
        · exact h1 hp
        · exact h2 b hb hp

/-- When `prev` ends where the freed range starts, it takes the range, and `curr` if that touches. -/
theorem growPrev_ordered {p : Nat} {prev : VirtRange} (htl : prev.endAddr = s)
    (hps : start ≤ prev.startAddr) (he : s + p * 4096 ≤ stop)
    (hstop : stop < 4294967296) (hord : Ordered (currOf l s))
    (hin : Within start stop (currOf l s))
    (hafter : ∀ r ∈ currOf l s, 0 < r.pages → s + p * 4096 ≤ r.startAddr) :
    Refilled start stop s p (prev :: currOf l s) (growPrev l s p prev) ∧
      ∀ e, e ≤ prev.startAddr → (∀ b ∈ currOf l s, 0 < b.pages → e ≤ b.startAddr) →
        ∀ b ∈ growPrev l s p prev, 0 < b.pages → e ≤ b.startAddr := by
  have hpend : prev.startAddr + prev.pages * 4096 = s := htl
  have hadd : wadd prev.pages p = prev.pages + p := wadd_eq (by omega)
  have hgrow : prev.startAddr + (prev.pages + p) * 4096 = s + p * 4096 := by
    rw [Nat.add_mul, ← Nat.add_assoc, hpend]
  have hcover : ∀ x, hit prev.startAddr (s + p * 4096) x =
      hit prev.startAddr prev.endAddr x + hit s (s + p * 4096) x := by
    intro x
    rw [htl]
    exact hit_split (hpend ▸ Nat.le_add_right _ _) (Nat.le_add_right _ _) x
  unfold growPrev
  cases hc : currOf l s with
  | nil =>
    rw [hadd]
    refine ⟨⟨List.pairwise_singleton .., fun r hr => ?_, fun x => ?_⟩, fun e h1 _ b hb _ => ?_⟩
    · obtain rfl := List.mem_singleton.mp hr
      refine ⟨hps, ?_⟩
      show prev.startAddr + (prev.pages + p) * 4096 ≤ stop
      omega
    · rw [cover_cons, cover_cons, cover_nil]
      show hit prev.startAddr (prev.startAddr + (prev.pages + p) * 4096) x + 0 =
        hit prev.startAddr prev.endAddr x + 0 + _
      rw [hgrow, hcover x]
      omega
    · obtain rfl := List.mem_singleton.mp hb
      exact h1
  | cons curr after =>
    rw [hc] at hord hin hafter
    obtain ⟨hca, hoa⟩ := ordered_cons.mp hord
    obtain ⟨hclo, hchi⟩ := hin curr (by simp)
    have hcend : curr.startAddr + curr.pages * 4096 ≤ stop := hchi
    simp only [mergedRight_eq hc (show s + p * 4096 < 4294967296 by omega), decide_eq_true_eq]
    split
    · next htouch =>
      have hadd2 : wadd p curr.pages = p + curr.pages := wadd_eq (by omega)
      have hadd3 : wadd prev.pages (p + curr.pages) = prev.pages + (p + curr.pages) :=
        wadd_eq (by omega)
      have hall : prev.startAddr + (prev.pages + (p + curr.pages)) * 4096 = curr.endAddr := by
        calc prev.startAddr + (prev.pages + (p + curr.pages)) * 4096
          _ = prev.startAddr + prev.pages * 4096 + p * 4096 + curr.pages * 4096 := by
            rw [Nat.add_mul, Nat.add_mul, ← Nat.add_assoc, ← Nat.add_assoc]
          _ = curr.endAddr := by
            rw [hpend, htouch]
            rfl
      rw [hadd2, hadd3]
      refine ⟨⟨ordered_cons.mpr ⟨fun q hq hp => ?_, hoa⟩, fun r hr => ?_, fun x => ?_⟩,
        fun e h1 h2 b hb hp => ?_⟩
      · show prev.startAddr + (prev.pages + (p + curr.pages)) * 4096 ≤ q.startAddr
        rw [hall]
        exact hca q hq hp
      · rcases List.mem_cons.mp hr with rfl | hr
        · refine ⟨hps, ?_⟩
          show prev.startAddr + (prev.pages + (p + curr.pages)) * 4096 ≤ stop
          rw [hall]
          exact hchi
        · exact hin r (by simp [hr])
      · rw [cover_cons, cover_cons, cover_cons]
        show hit prev.startAddr (prev.startAddr + (prev.pages + (p + curr.pages)) * 4096) x + _ =
          hit prev.startAddr prev.endAddr x + (hit curr.startAddr curr.endAddr x + _) + _
        have hmid : prev.startAddr ≤ s + p * 4096 := by omega
        have hmid' : s + p * 4096 ≤ curr.endAddr := htouch ▸ Nat.le_add_right _ _
        rw [hall, hit_split hmid hmid' x, hcover x, htouch]
        omega
      · rcases List.mem_cons.mp hb with rfl | hb
        · exact h1
        · exact h2 b (by simp [hb]) hp
    · next hapart =>
      rw [hadd]
      refine ⟨⟨ordered_cons.mpr ⟨fun q hq hp => ?_, hord⟩, fun r hr => ?_, fun x => ?_⟩,
        fun e h1 h2 b hb hp => ?_⟩
      · show prev.startAddr + (prev.pages + p) * 4096 ≤ q.startAddr
        rw [hgrow]
        exact hafter q hq hp
      · rcases List.mem_cons.mp hr with rfl | hr
        · refine ⟨hps, ?_⟩
          show prev.startAddr + (prev.pages + p) * 4096 ≤ stop
          omega
        · exact hin r hr
      · rw [cover_cons, cover_cons (a := prev)]
        show hit prev.startAddr (prev.startAddr + (prev.pages + p) * 4096) x + _ =
          hit prev.startAddr prev.endAddr x + _ + _
        rw [hgrow, hcover x]
        omega
      · rcases List.mem_cons.mp hb with rfl | hb
        · exact h1
        · exact h2 b hb hp

/-- `FreeVirtEx` puts a range back and keeps the list ordered. -/
theorem freeVirtEx_ordered (node : Nat) (hs : start ≤ s)
    (he : s + pagesFor bytes * 4096 ≤ stop) (hstop : stop < 4294967296) (hord : Ordered l)
    (hin : Within start stop l)
    (hfree : ∀ x, s ≤ x → x < s + pagesFor bytes * 4096 → cover VirtRange.span l x = 0) :
    Refilled start stop s (pagesFor bytes) l (freeVirtEx l s bytes node) := by
  obtain ⟨hbefore, hafter⟩ := around_uncovered hord hfree
  have hsplit : l = l.takeWhile (fun r => r.startAddr < s) ++ currOf l s :=
    List.takeWhile_append_dropWhile.symm
  have hordl := hord
  rw [hsplit] at hordl
  obtain ⟨hoW, hoC, hWC⟩ := ordered_append.mp hordl
  have hinC : Within start stop (currOf l s) :=
    fun r hr => hin r ((List.dropWhile_suffix _).subset hr)
  have hinW : Within start stop (l.takeWhile fun r => r.startAddr < s) :=
    fun r hr => hin r ((List.takeWhile_prefix _).subset hr)
  have hcov : ∀ x, cover VirtRange.span l x =
      cover VirtRange.span (l.takeWhile fun r => r.startAddr < s) x +
        cover VirtRange.span (currOf l s) x := by
    intro x
    rw [← cover_append, ← hsplit]
  cases hm : mergedLeft l s with
  | false =>
    obtain ⟨ht, hlow⟩ := freeTail_ordered node hs he hstop hoC hinC hafter
    rw [freeVirtEx_of_not_left hm]
    refine ⟨ordered_append.mpr ⟨hoW, ht.ordered, fun a ha => ?_⟩, fun r hr => ?_, fun x => ?_⟩
    · exact hlow _ (hbefore a ha).2 (hWC a ha)
    · rcases List.mem_append.mp hr with hr | hr
      · exact hinW r hr
      · exact ht.within r hr
    · rw [cover_append, ht.cover, hcov x]
      omega
  | true =>
    rcases scan_split l s with ⟨-, hprev⟩ | ⟨prev, hprev, hlt, hpre⟩
    · simp [mergedLeft, hprev] at hm
    · rw [hpre] at hoW hinW hWC
      obtain ⟨hoB, -, hBP⟩ := ordered_append.mp hoW
      obtain ⟨hplo, hphi⟩ := hinW prev (by simp)
      have hpend : prev.startAddr + prev.pages * 4096 ≤ stop := hphi
      have htl : prev.endAddr = s := by
        have hmul : wmul prev.pages pageSize = prev.pages * 4096 :=
          wmul_eq (by unfold pageSize; omega)
        show prev.startAddr + prev.pages * 4096 = s
        simpa only [mergedLeft, hprev, hmul, decide_eq_true_eq,
          wadd_eq (show prev.startAddr + prev.pages * 4096 < 4294967296 by omega)] using hm
      have hpp : 0 < prev.pages := by
        unfold VirtRange.endAddr at htl
        omega
      obtain ⟨ht, hlow⟩ := growPrev_ordered htl hplo he hstop hoC hinC hafter
      rw [freeVirtEx_of_left hprev hm]
      refine ⟨ordered_append.mpr ⟨hoB, ht.ordered, fun a ha => ?_⟩, fun r hr => ?_, fun x => ?_⟩
      · exact hlow _ (hBP a ha prev (by simp) hpp) (hWC a (by simp [ha]))
      · rcases List.mem_append.mp hr with hr | hr
        · exact hinW r (by simp [hr])
        · exact ht.within r hr
      · rw [cover_append, ht.cover, hcov x, hpre, cover_append, cover_cons, cover_cons, cover_nil]
        omega

end Free

/-! ## Runs -/

section Runs

variable {start stop : Nat} {st st' : ArenaState}

/-- The invariant of a run in which any sizes are asked for. -/
structure AnySizeInv (start stop : Nat) (st : ArenaState) : Prop where
  ordered : Ordered st.freeList
  within : Within start stop st.freeList
  granted : ∀ g ∈ st.granted, start ≤ g.handed.1 ∧ g.handed.2 ≤ stop
  partition : ∀ x, cover VirtRange.span st.freeList x + cover Grant.handed st.granted x
    = hit start stop x

/-- What `AllocVirtEx` returns is the start of the first free range that is large enough. -/
theorem allocVirtEx_cases (hstop : stop < 4294967296) (h : AnySizeInv start stop st)
    (bytes : Nat) :
    (allocVirtEx st.freeList bytes = (0, st.freeList) ∧
      ∀ r ∈ st.freeList, r.pages < pagesFor bytes) ∨
    ∃ retv l', allocVirtEx st.freeList bytes = (retv, l') ∧ Ordered l' ∧ Within start stop l' ∧
      (∀ x, cover VirtRange.span st.freeList x
        = cover VirtRange.span l' x + hit retv (retv + pagesFor bytes * 4096) x) ∧
      ∃ r ∈ st.freeList, retv = r.startAddr ∧ pagesFor bytes ≤ r.pages ∧
        ∀ q ∈ st.freeList, 0 < pagesFor bytes → pagesFor bytes ≤ q.pages →
          q = r ∨ r.endAddr ≤ q.startAddr := by
  unfold allocVirtEx
  cases hf : takeFirstFit (pagesFor bytes) st.freeList with
  | none => exact Or.inl ⟨rfl, takeFirstFit_eq_none.mp hf⟩
  | some found =>
    obtain ⟨retv, l', freed⟩ := found
    obtain ⟨h1, h2, h3, -, h4⟩ := takeFirstFit_ordered hstop h.ordered h.within hf
    exact Or.inr ⟨retv, l', rfl, h1, h2, h3, h4⟩

/-- One call keeps the invariant, whatever is asked for. -/
theorem userStep_inv (hstart : 0 < start) (hstop : stop < 4294967296)
    {asked : ArenaState → Nat → Prop} (h : AnySizeInv start stop st)
    (hstep : UserStep asked st st') : AnySizeInv start stop st' := by
  cases hstep with
  | alloc bytes _ =>
    rcases allocVirtEx_cases hstop h bytes with
      ⟨heq, -⟩ | ⟨retv, l', heq, h1, h2, h3, r, hr, rfl, hrp, -⟩
    · rw [heq, if_pos rfl]
      exact h
    · obtain ⟨hlo, hend⟩ : start ≤ r.startAddr ∧ r.startAddr + r.pages * 4096 ≤ stop :=
        h.within r hr
      rw [heq, if_neg (show r.startAddr ≠ 0 by omega)]
      refine ⟨h1, h2, fun g hg => ?_, fun x => ?_⟩
      · rcases List.mem_cons.mp hg with rfl | hg
        · refine ⟨hlo, ?_⟩
          exact le_trans (Nat.add_le_add_left (Nat.mul_le_mul_right _ hrp) _) hend
        · exact h.granted g hg
      · have hp := h.partition x
        rw [h3 x] at hp
        rw [cover_cons]
        show cover VirtRange.span l' x
          + (hit r.startAddr (r.startAddr + pagesFor bytes * 4096) x + _) = _
        omega
  | free g node hg =>
    obtain ⟨hlo, hhi⟩ := h.granted g hg
    have hsplit : ∀ x, cover Grant.handed st.granted x
        = hit g.addr (g.addr + pagesFor g.bytes * 4096) x
          + cover Grant.handed (st.granted.erase g) x := by
      intro x
      rw [cover_perm Grant.handed (List.perm_cons_erase hg) x, cover_cons]
      rfl
    have hfree : ∀ x, g.addr ≤ x → x < g.addr + pagesFor g.bytes * 4096 →
        cover VirtRange.span st.freeList x = 0 := by
      intro x hx1 hx2
      have hone : hit g.addr (g.addr + pagesFor g.bytes * 4096) x = 1 :=
        hit_eq_one_iff.mpr ⟨hx1, hx2⟩
      have hp := h.partition x
      have hle := hit_le_one start stop x
      rw [hsplit x] at hp
      omega
    have hr := freeVirtEx_ordered node hlo hhi hstop h.ordered h.within hfree
    refine ⟨hr.ordered, hr.within, fun q hq => h.granted q (List.mem_of_mem_erase hq),
      fun x => ?_⟩
    have hp := h.partition x
    rw [hsplit x] at hp
    show cover VirtRange.span (freeVirtEx st.freeList g.addr g.bytes node) x
      + cover Grant.handed (st.granted.erase g) x = _
    have hc : cover VirtRange.span (freeVirtEx st.freeList g.addr g.bytes node) x =
        cover VirtRange.span st.freeList x + hit g.addr (g.addr + pagesFor g.bytes * 4096) x :=
      hr.cover x
    rw [hc]
    omega

theorem createVas_inv (node : Nat) :
    AnySizeInv userAreaBase 0xC8000000 (createVas node) := by
  have hpages : pagesFor userAreaLimit = 0xC0000 := by decide
  refine ⟨List.pairwise_singleton .., fun r hr => ?_, by simp [createVas, freshArena],
    fun x => ?_⟩
  · obtain rfl := List.mem_singleton.mp hr
    show userAreaBase ≤ userAreaBase ∧ userAreaBase + pagesFor userAreaLimit * 4096 ≤ _
    rw [hpages]
    decide
  · show cover VirtRange.span [_] x + 0 = _
    rw [cover_cons, cover_nil]
    show hit userAreaBase (userAreaBase + pagesFor userAreaLimit * 4096) x + 0 + 0 = _
    rw [hpages]
    rfl

/-- A request for which there is room below the limit is served there. -/
theorem allocVirtEx_below (hstop : stop < 4294967296) (h : AnySizeInv start stop st)
    {bytes : Nat} (hroom : RoomBelowLimit st bytes) (hp : 0 < pagesFor bytes) :
    (allocVirtEx st.freeList bytes).1 = 0 ∨
      (start ≤ (allocVirtEx st.freeList bytes).1 ∧
        (allocVirtEx st.freeList bytes).1 + pagesFor bytes * 4096 ≤ userAreaLimit) := by
  rcases allocVirtEx_cases hstop h bytes with
    ⟨heq, -⟩ | ⟨retv, l', heq, -, -, -, r, hr, rfl, hrp, hfirst⟩
  · exact Or.inl (by rw [heq])
  · rw [heq]
    refine Or.inr ⟨(h.within r hr).1, ?_⟩
    rcases hroom.2 with h0 | ⟨q, hq, hqp, hqe⟩ | hnone
    · omega
    · rcases hfirst q hq hp hqp with rfl | hle
      · exact hqe
      · calc r.startAddr + pagesFor bytes * 4096
          _ ≤ r.startAddr + r.pages * 4096 := Nat.add_le_add_left (Nat.mul_le_mul_right _ hrp) _
          _ ≤ q.startAddr := hle
          _ ≤ userAreaLimit := le_trans (Nat.le_add_right _ _) hqe
    · have := hnone r hr
      omega

/-- A request for which there is room above the limit only is served across it. -/
theorem allocVirtEx_across (hstop : stop < 4294967296) (h : AnySizeInv start stop st)
    {bytes : Nat} (hb : bytes < wordSize) (hroom : ¬ RoomBelowLimit st bytes) :
    userAreaLimit < (allocVirtEx st.freeList bytes).1 + pagesFor bytes * 4096 := by
  unfold RoomBelowLimit at hroom
  rcases allocVirtEx_cases hstop h bytes with
    ⟨-, hnone⟩ | ⟨retv, l', heq, -, -, -, r, hr, rfl, hrp, -⟩
  · exact absurd ⟨hb, Or.inr (Or.inr hnone)⟩ hroom
  · rw [heq]
    by_contra hle
    exact hroom ⟨hb, Or.inr (Or.inl ⟨r, hr, hrp, by simpa using hle⟩)⟩

/--
**User arenas.** In every run on the arena of `CreateVas` in which each request finds room
below the limit of the user area, or no room at all, every non-empty range that is handed out
lies in the user area.
-/
theorem user_arena_below_kernel {node : Nat}
    (hrun : Reaches (UserStep RoomBelowLimit) (createVas node) st) : InUserArea st := by
  have hboth : AnySizeInv userAreaBase 0xC8000000 st ∧ InUserArea st := by
    refine hrun.invariant (P := fun st => AnySizeInv userAreaBase 0xC8000000 st ∧ InUserArea st)
      ⟨createVas_inv node, by simp [InUserArea, createVas, freshArena]⟩ ?_
    rintro a b ⟨hinv, huser⟩ hab
    refine ⟨userStep_inv (by decide) (by decide) hinv hab, ?_⟩
    cases hab with
    | alloc bytes hroom =>
      have hbelow := allocVirtEx_below (by decide) hinv hroom
      intro g hg hp
      simp only at hg
      split at hg
      · exact huser g hg hp
      · next hne =>
        rcases List.mem_cons.mp hg with rfl | hg
        · rcases hbelow hp with h0 | hle
          · exact absurd h0 hne
          · exact hle
        · exact huser g hg hp
    | free g' node' _ => exact fun g hg => huser g (List.mem_of_mem_erase hg)
  exact hboth.2

end Runs

/-- The first page of the user area is handed out. -/
theorem user_arena_first_page : InUserArea
    { freeList := [⟨16, 0x08001000, 0xBFFFF⟩], granted := [⟨0x08000000, 4096⟩] } := by
  have hroom : RoomBelowLimit (createVas 16) 4096 :=
    ⟨by decide, Or.inr (Or.inl ⟨⟨16, 0x08000000, 0xC0000⟩, by decide, by decide, by decide⟩)⟩
  exact user_arena_below_kernel (Relation.ReflTransGen.single (.alloc (createVas 16) 4096 hroom))

/--
The arena ends at `0xC8000000`, so a single request can reach past `ARCH_USER_AREA_LIMIT`
into the kernel's mapping.
-/
theorem user_arena_shadows_kernel : ¬ (∀ (node : Nat) (st : ArenaState),
    Reaches (UserStep AnyRequest) (createVas node) st → InUserArea st) := by
  intro h
  have hrun : Reaches (UserStep AnyRequest) (createVas 16)
      { freeList := [⟨16, 0xC0001000, 0x7FFF⟩], granted := [⟨0x08000000, 0xB8001000⟩] } :=
    Relation.ReflTransGen.single (.alloc _ 0xB8001000 (show 0xB8001000 < wordSize by decide))
  have hg : (⟨0x08000000, 0xB8001000⟩ : Grant).handed.2 ≤ userAreaLimit :=
    (h 16 _ hrun _ List.mem_cons_self (by decide)).2
  exact absurd hg (by decide)

end Nolrem.Virt
