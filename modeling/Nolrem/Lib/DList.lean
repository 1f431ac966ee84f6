import Nolrem.Lib.Chain

/-!
# Doubly linked lists

`DSeg next prev p s l q e`: from `s` the nodes `l` are visited, each names the node before it
(`p` before the first), `q` is the last node met and `e` is next. A `DChain` is such a list
from nothing to nothing.
-/

namespace Nolrem.Lib

variable {α : Type*} {next next' prev prev' : α → Option α}

/-- The part of a doubly linked list that holds `l`. -/
def DSeg (next prev : α → Option α) :
    Option α → Option α → List α → Option α → Option α → Prop
  | p, s, [], q, e => q = p ∧ e = s
  | p, s, a :: l, q, e => s = some a ∧ prev a = p ∧ DSeg next prev (some a) (next a) l q e

/-- A doubly linked list that holds exactly `l`. -/
def DChain (next prev : α → Option α) (s : Option α) (l : List α) : Prop :=
  ∃ q, DSeg next prev none s l q none

@[simp] theorem dseg_nil {p s q e : Option α} :
    DSeg next prev p s [] q e ↔ q = p ∧ e = s := Iff.rfl

@[simp] theorem dseg_cons {p s q e : Option α} {a : α} {l : List α} :
    DSeg next prev p s (a :: l) q e ↔
      s = some a ∧ prev a = p ∧ DSeg next prev (some a) (next a) l q e := Iff.rfl

@[simp] theorem dchain_nil {s : Option α} : DChain next prev s [] ↔ s = none := by
  simp [DChain, eq_comm]

theorem dseg_append {q e : Option α} {r : List α} : ∀ {l : List α} {p s : Option α},
    DSeg next prev p s (l ++ r) q e ↔
      ∃ q' e', DSeg next prev p s l q' e' ∧ DSeg next prev q' e' r q e
  | [], p, s => by simp
  | a :: l, p, s => by
    simp only [List.cons_append, dseg_cons, dseg_append (l := l)]
    constructor
    · rintro ⟨hs, hp, q', e', h1, h2⟩
      exact ⟨q', e', ⟨hs, hp, h1⟩, h2⟩
    · rintro ⟨q', e', ⟨hs, hp, h1⟩, h2⟩
      exact ⟨hs, hp, q', e', h1, h2⟩

theorem DSeg.seg {q e : Option α} : ∀ {l : List α} {p s : Option α},
    DSeg next prev p s l q e → Seg next s l e
  | [], _, _, h => h.2.symm
  | _ :: _, _, _, h => ⟨h.1, h.2.2.seg⟩

/-- The links forward alone make a chain. -/
theorem DChain.chain {s : Option α} {l : List α} (h : DChain next prev s l) : Chain next s l := by
  obtain ⟨q, h⟩ := h
  exact h.seg

theorem DChain.nodup {s : Option α} {l : List α} (h : DChain next prev s l) : l.Nodup :=
  h.chain.nodup

/-- Only the links of the nodes themselves matter. -/
theorem DSeg.congr {q e : Option α} : ∀ {l : List α} {p s : Option α},
    (∀ a ∈ l, next' a = next a ∧ prev' a = prev a) → DSeg next prev p s l q e →
    DSeg next' prev' p s l q e
  | [], _, _, _, h => h
  | a :: l, _, _, hl, ⟨hs, hp, h⟩ => by
    obtain ⟨h1, h2⟩ := hl a (by simp)
    refine ⟨hs, h2.trans hp, ?_⟩
    rw [h1]
    exact DSeg.congr (fun b hb => hl b (by simp [hb])) h

theorem DChain.congr {s : Option α} {l : List α}
    (hl : ∀ a ∈ l, next' a = next a ∧ prev' a = prev a) (h : DChain next prev s l) :
    DChain next' prev' s l := by
  obtain ⟨q, h⟩ := h
  exact ⟨q, h.congr hl⟩

/-- The nodes next to a node are nodes, and no node is next to itself. -/
theorem DChain.neighbours {s : Option α} {l : List α} {a : α} (h : DChain next prev s l)
    (ha : a ∈ l) : (∀ b, next a = some b → b ∈ l ∧ b ≠ a) ∧
      ∀ b, prev a = some b → b ∈ l ∧ b ≠ a := by
  have hnd := h.nodup
  obtain ⟨x, y, rfl⟩ := List.append_of_mem ha
  obtain ⟨q, h⟩ := h
  obtain ⟨q', e', h1, -, hq, h2⟩ := dseg_append.mp h
  have hnd' := List.nodup_append.mp hnd
  constructor
  · intro b hb
    cases y with
    | nil => simp [hb] at h2
    | cons c y =>
      obtain ⟨hc, -⟩ := h2
      obtain rfl : b = c := by simpa [hb] using hc
      refine ⟨by simp, ?_⟩
      rintro rfl
      simpa using hnd'.2.1
  · intro b hb
    rcases List.eq_nil_or_concat x with rfl | ⟨x, c, rfl⟩
    · simp [← hq, hb] at h1
    · rw [List.concat_eq_append] at h1 hnd' ⊢
      obtain ⟨q2, e2, -, h3⟩ := dseg_append.mp h1
      simp only [dseg_cons, dseg_nil] at h3
      obtain rfl : b = c := by
        have := h3.2.2.1
        rw [← hq, hb] at this
        exact Option.some.inj this
      exact ⟨by simp, hnd'.2.2 b (by simp) a (by simp)⟩

/-- The first node has none before it, and only the first. -/
theorem DChain.prev_eq_none_iff {s : Option α} {l : List α} {a : α} (h : DChain next prev s l)
    (ha : a ∈ l) : prev a = none ↔ s = some a := by
  have hnd := h.nodup
  obtain ⟨x, y, rfl⟩ := List.append_of_mem ha
  obtain ⟨q, h⟩ := h
  obtain ⟨q', e', h1, he, hq, -⟩ := dseg_append.mp h
  cases x with
  | nil =>
    obtain ⟨rfl, rfl⟩ := h1
    exact ⟨fun _ => he, fun _ => hq⟩
  | cons b x =>
    obtain ⟨hs, -, h3⟩ := h1
    have hne : b ≠ a := (List.nodup_append.mp hnd).2.2 b (by simp) a (by simp)
    refine ⟨fun hnone => ?_, fun ha => absurd (Option.some.inj (hs.symm.trans ha)) hne⟩
    rcases List.eq_nil_or_concat x with rfl | ⟨x, c, rfl⟩
    · simp [← hq, hnone] at h3
    · rw [List.concat_eq_append] at h3
      obtain ⟨q2, e2, -, h4⟩ := dseg_append.mp h3
      simp [← hq, hnone] at h4

/-- Unlinking a node. -/
theorem DChain.unlink {s : Option α} {l : List α} {a : α} [DecidableEq α]
    (h : DChain next prev s l) (ha : a ∈ l)
    (hn : ∀ b, prev a = some b → next' b = next a)
    (hp : ∀ b, next a = some b → prev' b = prev a)
    (hno : ∀ b ∈ l, b ≠ a → prev a ≠ some b → next' b = next b)
    (hpo : ∀ b ∈ l, b ≠ a → next a ≠ some b → prev' b = prev b) :
    DChain next' prev' (if prev a = none then next a else s) (l.erase a) := by
  have hnd := h.nodup
  have hfirst := h.prev_eq_none_iff ha
  obtain ⟨x, y, rfl⟩ := List.append_of_mem ha
  have hnd' := List.nodup_append.mp hnd
  have hax : a ∉ x := fun hx => hnd'.2.2 a hx a (by simp) rfl
  have hay := (List.nodup_cons.mp hnd'.2.1).1
  have hxy : ∀ b ∈ x, b ∉ y := fun b hb hby => hnd'.2.2 b hb b (by simp [hby]) rfl
  rw [List.erase_append_right _ hax, List.erase_cons_head]
  obtain ⟨q, h⟩ := h
  obtain ⟨q', e', h1, he, hq, h2⟩ := dseg_append.mp h
  subst he hq
  -- the part after `a` now starts behind the node before `a`
  have hright : ∃ q2, DSeg next' prev' (prev a) (next a) y q2 none := by
    cases y with
    | nil => exact ⟨prev a, rfl, h2.2⟩
    | cons c y =>
      obtain ⟨hc, hca, h3⟩ := h2
      have hyc := List.nodup_cons.mp (List.nodup_cons.mp hnd'.2.1).2
      have hacy : ∀ b ∈ c :: y, b ≠ a ∧ prev a ≠ some b := by
        intro b hb
        refine ⟨fun hba => hay (hba ▸ hb), fun hpb => ?_⟩
        rcases List.eq_nil_or_concat x with rfl | ⟨x, d, rfl⟩
        · simp [hpb] at h1
        · rw [List.concat_eq_append] at h1 hxy
          obtain ⟨-, -, -, -, -, hd, -⟩ := dseg_append.mp h1
          obtain rfl := Option.some.inj (hpb.symm.trans hd)
          exact hxy _ (by simp) hb
      refine ⟨q, hc, hp c hc, ?_⟩
      rw [hno c (by simp) (hacy c (by simp)).1 (hacy c (by simp)).2]
      refine DSeg.congr (fun b hb => ?_) h3
      have hb' : b ∈ c :: y := by simp [hb]
      refine ⟨hno b (by simp [hb]) (hacy b hb').1 (hacy b hb').2,
        hpo b (by simp [hb]) (hacy b hb').1 ?_⟩
      rw [hc]
      rintro hcb
      exact hyc.1 (Option.some.inj hcb ▸ hb)
  obtain ⟨q2, hright⟩ := hright
  refine ⟨q2, dseg_append.mpr ⟨prev a, next a, ?_, hright⟩⟩
  have hnx : ∀ b ∈ x, next a ≠ some b := by
    intro b hb hnb
    cases y with
    | nil => simp [hnb] at h2
    | cons c y =>
      obtain rfl := Option.some.inj (hnb.symm.trans h2.1)
      exact hxy b hb (by simp)
  rcases List.eq_nil_or_concat x with rfl | ⟨x, d, rfl⟩
  · obtain ⟨hq, -⟩ := h1
    rw [if_pos hq]
    exact ⟨hq, rfl⟩
  · rw [List.concat_eq_append] at h1 hax hnx hnd' ⊢
    obtain ⟨q3, e3, h4, he3, hd, hpa, hnd3⟩ := dseg_append.mp h1
    rw [if_neg (by simp [hpa])]
    have hxd := List.nodup_append.mp hnd'.1
    have hda : d ≠ a := fun hda => hax (by simp [hda])
    refine dseg_append.mpr ⟨q3, e3, DSeg.congr (fun b hb => ⟨?_, ?_⟩) h4, he3, ?_, ?_⟩
    · refine hno b (by simp [hb]) (fun hba => hax (by simp [← hba, hb])) ?_
      rw [hpa]
      intro hdb
      exact hxd.2.2 b hb d (by simp) (Option.some.inj hdb).symm
    · exact hpo b (by simp [hb]) (fun hba => hax (by simp [← hba, hb])) (hnx b (by simp [hb]))
    · rw [hpo d (by simp) hda (hnx d (by simp))]
      exact hd
    · exact ⟨hpa, (hn d hpa).symm⟩

/-- Linking a new first node in. -/
theorem DChain.link {s : Option α} {l : List α} {x : α} (h : DChain next prev s l)
    (hxn : next' x = s) (hxp : prev' x = none) (hs : ∀ b, s = some b → prev' b = some x)
    (hno : ∀ b ∈ l, next' b = next b) (hpo : ∀ b ∈ l, s ≠ some b → prev' b = prev b) : DChain next' prev' (some x) (x :: l) := by
  have hnd := h.nodup
  obtain ⟨q, h⟩ := h
  cases l with
  | nil =>
    obtain ⟨-, he⟩ := h
    exact ⟨some x, rfl, hxp, rfl, he.trans hxn.symm⟩
  | cons c l =>
    obtain ⟨hc, -, h1⟩ := h
    refine ⟨q, rfl, hxp, hxn.trans hc, hs c hc, ?_⟩
    rw [hno c (by simp)]
    refine DSeg.congr (fun b hb => ⟨hno b (by simp [hb]), hpo b (by simp [hb]) ?_⟩) h1
    rw [hc]
    intro hcb
    exact (List.nodup_cons.mp hnd).1 (Option.some.inj hcb ▸ hb)

end Nolrem.Lib
