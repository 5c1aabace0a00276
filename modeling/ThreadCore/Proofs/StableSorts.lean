import Mathlib.Data.List.Sort
import ThreadCore.Queue

/-!
# Taking out the foremost, again and again

A queue is emptied by taking out its foremost entry as long as there is one. The entries come out
sorted, and those of equal rank in the order in which they arrived: this is the stable sort of the
queue (`sortedBy_split`).
-/

namespace ThreadCore

section

variable {α β : Type} [LinearOrder β] {key : α → β} {a : α} {xs ys before after : List α}

/-- The stable sort by a key, the least first. -/
def sortedBy (key : α → β) (xs : List α) : List α := xs.mergeSort fun x y => key x ≤ key y

theorem sortedBy_perm (key : α → β) (xs : List α) : (sortedBy key xs).Perm xs :=
  List.mergeSort_perm _ _

theorem mem_sortedBy : a ∈ sortedBy key xs ↔ a ∈ xs := (sortedBy_perm key xs).mem_iff

theorem decide_le_trans (key : α → β) (x y z : α) (hxy : decide (key x ≤ key y) = true)
    (hyz : decide (key y ≤ key z) = true) : decide (key x ≤ key z) = true :=
  decide_eq_true ((of_decide_eq_true hxy).trans (of_decide_eq_true hyz))

theorem decide_le_total (key : α → β) (x y : α) :
    (decide (key x ≤ key y) || decide (key y ≤ key x)) = true := by
  simpa using le_total (key x) (key y)

theorem sortedBy_pairwise (key : α → β) (xs : List α) :
    (sortedBy key xs).Pairwise fun x y => key x ≤ key y :=
  (List.pairwise_mergeSort (decide_le_trans key) (decide_le_total key) xs).imp fun h =>
    of_decide_eq_true h

/-- Those of equal keys keep their order. -/
theorem filter_sortedBy (key : α → β) (xs : List α) (v : β) :
    (sortedBy key xs).filter (fun x => key x = v) = xs.filter fun x => key x = v := by
  have hequal : (xs.filter fun x => key x = v).Pairwise fun x y =>
    decide (key x ≤ key y) = true := by
    refine List.pairwise_of_forall_mem_list fun x hx y hy => ?_
    have hx : key x = v := by simpa using (List.mem_filter.mp hx).2
    have hy : key y = v := by simpa using (List.mem_filter.mp hy).2
    simp [hx, hy]
  have hsub :=
    List.sublist_mergeSort (decide_le_trans key) (decide_le_total key) hequal List.filter_sublist
  have hfilter := hsub.filter fun x => key x = v
  rw [List.filter_filter] at hfilter
  simp only [Bool.and_self] at hfilter
  exact (hfilter.eq_of_length ((sortedBy_perm key xs).filter _).length_eq.symm).symm

/-- Two sorted lists that agree for each key are the same. -/
theorem eq_of_filter_eq (key : α → β) (hx : xs.Pairwise fun x y => key x ≤ key y)
    (hy : ys.Pairwise fun x y => key x ≤ key y)
    (h : ∀ v, xs.filter (fun x => key x = v) = ys.filter fun x => key x = v) : xs = ys := by
  induction xs generalizing ys with
  | nil =>
    cases ys with
    | nil => rfl
    | cons y ys => simpa using h (key y)
  | cons x xs ih =>
    cases ys with
    | nil => simpa using h (key x)
    | cons y ys =>
      obtain ⟨hfirst, hxs⟩ := List.pairwise_cons.mp hx
      obtain ⟨hfirst', hys⟩ := List.pairwise_cons.mp hy
      -- Each head is in the other list.
      have hmem : x ∈ (y :: ys).filter fun z => key z = key x := by
        rw [← h]
        simp
      have hmem' : y ∈ (x :: xs).filter fun z => key z = key y := by
        rw [h]
        simp
      have hle : key y ≤ key x := by
        rcases List.mem_cons.mp (List.mem_filter.mp hmem).1 with hxy | hxy
        · exact (congrArg key hxy).ge
        · exact hfirst' x hxy
      have hle' : key x ≤ key y := by
        rcases List.mem_cons.mp (List.mem_filter.mp hmem').1 with hyx | hyx
        · exact (congrArg key hyx).ge
        · exact hfirst y hyx
      have hkey : key y = key x := le_antisymm hle hle'
      have hheads := h (key x)
      rw [List.filter_cons_of_pos (by simp), List.filter_cons_of_pos (by simp [hkey])] at hheads
      obtain rfl := (List.cons.inj hheads).1
      refine congrArg (x :: ·) (ih hxs hys fun v => ?_)
      have hv := h v
      by_cases hxv : key x = v
      · rw [List.filter_cons_of_pos (by simp [hxv]), List.filter_cons_of_pos (by simp [hxv])] at hv
        exact (List.cons.inj hv).2
      · rwa [List.filter_cons_of_neg (by simp [hxv]), List.filter_cons_of_neg (by simp [hxv])] at hv

/-- The first of the least key comes first, and then the others. -/
theorem sortedBy_split (hb : ∀ b ∈ before, key a < key b) (ha : ∀ b ∈ after, key a ≤ key b) :
    sortedBy key (before ++ a :: after) = a :: sortedBy key (before ++ after) := by
  refine eq_of_filter_eq key (sortedBy_pairwise _ _)
    (List.pairwise_cons.mpr ⟨fun x hx => ?_, sortedBy_pairwise _ _⟩) fun v => ?_
  · rcases List.mem_append.mp (mem_sortedBy.mp hx) with hx | hx
    · exact (hb x hx).le
    · exact ha x hx
  · rw [filter_sortedBy, List.filter_append]
    by_cases hav : key a = v
    · -- Nobody before has this key.
      have hnone : before.filter (fun x => key x = v) = [] := by
        rw [List.filter_eq_nil_iff]
        intro x hx hxv
        exact absurd ((hb x hx).trans_eq (of_decide_eq_true hxv)) (by simp [hav])
      rw [List.filter_cons_of_pos (by simp [hav]), List.filter_cons_of_pos (by simp [hav]),
        filter_sortedBy, List.filter_append, hnone]
      rfl
    · rw [List.filter_cons_of_neg (by simp [hav]), List.filter_cons_of_neg (by simp [hav]),
        filter_sortedBy, List.filter_append]

theorem sortedBy_nil : sortedBy key [] = [] := List.mergeSort_nil

/-- What is sorted by keys that tell all apart may come in any order. -/
theorem sortedBy_eq_of_perm (h : xs.Perm ys) (hkey : ∀ x ∈ xs, ∀ y ∈ xs, key x = key y → x = y) :
    sortedBy key xs = sortedBy key ys := by
  have hperm : (sortedBy key xs).Perm (sortedBy key ys) :=
    (sortedBy_perm key xs).trans (h.trans (sortedBy_perm key ys).symm)
  refine hperm.eq_of_pairwise (fun x y hx hy hxy hyx => ?_) (sortedBy_pairwise key xs)
    (sortedBy_pairwise key ys)
  exact hkey x (mem_sortedBy.mp hx) y (h.mem_iff.mpr (mem_sortedBy.mp hy)) (le_antisymm hxy hyx)

theorem sortedBy_of_pairwise (h : xs.Pairwise fun x y => key x ≤ key y) : sortedBy key xs = xs :=
  List.mergeSort_of_pairwise (h.imp decide_eq_true)

/-- Nothing is left once all have been taken out, in whatever order. -/
theorem diff_sortedBy [DecidableEq α] (key : α → β) (xs : List α) :
    xs.diff (sortedBy key xs) = [] := by
  rw [(sortedBy_perm key xs).diff_left]
  induction xs with
  | nil => rfl
  | cons x xs ih =>
    rw [List.diff_cons, List.erase_cons_head]
    exact ih

theorem sortedBy_congr {key' : α → β} (h : ∀ x ∈ xs, key' x = key x) :
    sortedBy key' xs = sortedBy key xs := by
  refine eq_of_filter_eq key ?_ (sortedBy_pairwise _ _) fun v => ?_
  · refine (sortedBy_pairwise key' xs).imp_of_mem fun hx hy hxy => ?_
    rwa [h _ (mem_sortedBy.mp hx), h _ (mem_sortedBy.mp hy)] at hxy
  · have hsame : ∀ ts : List α, (∀ t ∈ ts, t ∈ xs) →
        ts.filter (fun x => key x = v) = ts.filter fun x => key' x = v := fun ts hts =>
      List.filter_congr fun t ht => by rw [h t (hts t ht)]
    rw [hsame _ fun t => mem_sortedBy.mp, filter_sortedBy, filter_sortedBy, hsame xs fun _ => id]

end

end ThreadCore
