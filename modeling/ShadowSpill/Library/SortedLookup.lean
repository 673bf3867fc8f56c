import Mathlib

/-!
# Looking a key up in a stable sort

Sorting entries by their keys keeps the order of entries with one key.  The place at which a
bisection would insert a key on the left therefore holds the first entry with that key, if
there is one.
-/

namespace ShadowSpill.Library.SortedLookup

variable {α : Type}

/-- The leftmost place for a key in an ascending list of keys. -/
def searchSorted (keys : List Int) (wanted : Int) : Nat :=
  (keys.takeWhile (· < wanted)).length

/-- The value at the place of a key, if the key is there. -/
def valueAt (sorted : List (Int × α)) (wanted : Int) : Option α :=
  match sorted[min (searchSorted (sorted.map Prod.fst) wanted) (sorted.length - 1)]? with
  | none => none
  | some (key, value) => if key = wanted then some value else none

/-- The order of the keys. -/
def keyOrder (first second : Int × α) : Bool :=
  decide (first.1 ≤ second.1)

/-- A stable sort. -/
def sortByKey (entries : List (Int × α)) : List (Int × α) :=
  entries.mergeSort keyOrder

theorem keyOrder_trans (first second third : Int × α) (left : keyOrder first second)
    (right : keyOrder second third) : keyOrder first third :=
  decide_eq_true ((of_decide_eq_true left).trans (of_decide_eq_true right))

theorem keyOrder_total (first second : Int × α) :
    keyOrder first second || keyOrder second first := by
  unfold keyOrder
  rw [Bool.or_eq_true, decide_eq_true_eq, decide_eq_true_eq]
  exact le_total _ _

theorem pairwise_sortByKey (entries : List (Int × α)) :
    (sortByKey entries).Pairwise fun first second => first.1 ≤ second.1 :=
  (List.pairwise_mergeSort keyOrder_trans keyOrder_total entries).imp
    fun ordered => of_decide_eq_true ordered

/-- The entries with one key keep their order. -/
theorem filter_sortByKey (entries : List (Int × α)) (wanted : Int) :
    (sortByKey entries).filter (fun entry => entry.1 = wanted) =
      entries.filter fun entry => entry.1 = wanted := by
  have level : (entries.filter fun entry => entry.1 = wanted).Pairwise
      fun first second => keyOrder first second := by
    apply List.Pairwise.imp_of_mem (R := fun _ _ => True)
    · intro first second inFirst inSecond _
      have left := of_decide_eq_true (List.mem_filter.mp inFirst).2
      have right := of_decide_eq_true (List.mem_filter.mp inSecond).2
      exact decide_eq_true (left.trans right.symm).le
    · exact List.pairwise_of_forall fun _ _ => trivial
  have kept : (entries.filter fun entry => entry.1 = wanted).Sublist (sortByKey entries) :=
    List.sublist_mergeSort keyOrder_trans keyOrder_total level List.filter_sublist
  have inside := kept.filter fun entry => decide (entry.1 = wanted)
  rw [List.filter_filter] at inside
  simp only [Bool.and_self] at inside
  apply (inside.eq_of_length _).symm
  exact ((List.mergeSort_perm entries keyOrder).filter _).length_eq.symm

/-- In an ascending list the entry at the place is the first with the key. -/
theorem valueAt_eq_find {sorted : List (Int × α)} {wanted : Int}
    (ascending : sorted.Pairwise fun first second => first.1 ≤ second.1) :
    valueAt sorted wanted = (sorted.find? fun entry => entry.1 = wanted).map Prod.snd := by
  induction sorted with
  | nil => rfl
  | cons head rest ih =>
      rcases List.pairwise_cons.mp ascending with ⟨first, later⟩
      by_cases below : head.1 < wanted
      · have apart : ¬head.1 = wanted := Int.ne_of_lt below
        have place : searchSorted ((head :: rest).map Prod.fst) wanted =
            searchSorted (rest.map Prod.fst) wanted + 1 := by
          unfold searchSorted
          rw [List.map_cons, List.takeWhile_cons_of_pos (by simpa using below),
            List.length_cons]
        rw [List.find?_cons_of_neg (by simpa using apart), ← ih later]
        unfold valueAt
        rw [place]
        cases rest with
        | nil =>
            show (if head.1 = wanted then some head.2 else none) = none
            rw [if_neg apart]
        | cons next rest =>
            have shift : min (searchSorted ((next :: rest).map Prod.fst) wanted + 1)
                ((head :: next :: rest).length - 1) =
                min (searchSorted ((next :: rest).map Prod.fst) wanted)
                  ((next :: rest).length - 1) + 1 := by
              simp only [List.length_cons]
              omega
            rw [shift, List.getElem?_cons_succ]
      · have place : searchSorted ((head :: rest).map Prod.fst) wanted = 0 := by
          unfold searchSorted
          rw [List.map_cons, List.takeWhile_cons_of_neg (by simpa using below)]
          rfl
        unfold valueAt
        rw [place, Nat.zero_min, List.getElem?_cons_zero]
        dsimp only
        by_cases here : head.1 = wanted
        · rw [if_pos here, List.find?_cons_of_pos (by simpa using here)]
          rfl
        · rw [if_neg here, List.find?_cons_of_neg (by simpa using here)]
          symm
          rw [Option.map_eq_none_iff, List.find?_eq_none]
          intro entry mem
          have above := first entry mem
          simp only [decide_eq_true_eq]
          omega

/-- The lookup finds the first of all entries with the key. -/
theorem lookup_eq_find (entries : List (Int × α)) (wanted : Int) :
    valueAt (sortByKey entries) wanted =
      (entries.find? fun entry => entry.1 = wanted).map Prod.snd := by
  rw [valueAt_eq_find (pairwise_sortByKey entries), ← List.head?_filter, ← List.head?_filter,
    filter_sortByKey]

end ShadowSpill.Library.SortedLookup
