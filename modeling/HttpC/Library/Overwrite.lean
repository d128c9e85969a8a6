import Mathlib.Data.List.Basic
import Mathlib.Tactic.Common

/-!
# Writing into a block of memory

A block is a list of cells. `overwrite` stores a run of values at an offset; a store past
the end makes the block longer, so an overrun shows in the length. `window` reads a run.
-/

namespace Block

variable {α : Type*}

/-- Store `d` at offset `i`. -/
def overwrite (l : List α) (i : Nat) (d : List α) : List α := l.take i ++ d ++ l.drop (i + d.length)

/-- The `n` cells from offset `i` on. -/
def window (l : List α) (i n : Nat) : List α := (l.drop i).take n

/-- `memmove` inside one block. -/
def move (l : List α) (dst src n : Nat) : List α := overwrite l dst (window l src n)

@[simp] theorem overwrite_nil (l : List α) (i : Nat) : overwrite l i [] = l := by
  simp [overwrite]

theorem length_overwrite {l d : List α} {i : Nat} (h : i + d.length ≤ l.length) :
    (overwrite l i d).length = l.length := by
  simp [overwrite]
  omega

theorem length_window {l : List α} {i n : Nat} (h : i + n ≤ l.length) :
    (window l i n).length = n := by
  simp [window]
  omega

@[simp] theorem window_zero_length (l : List α) (i : Nat) : window l i 0 = [] := by simp [window]

theorem getElem?_overwrite {l d : List α} {i j : Nat} (h : i ≤ l.length) :
    (overwrite l i d)[j]? =
      if j < i then l[j]? else if j < i + d.length then d[j - i]? else l[j]? := by
  have hlen : (l.take i).length = i := by simp [h]
  unfold overwrite
  split_ifs with h1 h2
  · rw [List.append_assoc, List.getElem?_append_left (by omega), List.getElem?_take_of_lt h1]
  · rw [List.append_assoc, List.getElem?_append_right (by omega), hlen,
      List.getElem?_append_left (by omega)]
  · rw [List.append_assoc, List.getElem?_append_right (by omega), hlen,
      List.getElem?_append_right (by omega), List.getElem?_drop]
    congr 1
    omega

theorem getElem?_window {l : List α} {i n j : Nat} :
    (window l i n)[j]? = if j < n then l[i + j]? else none := by
  simp [window, List.getElem?_take, List.getElem?_drop]

/-- Reading back what was stored. -/
theorem window_overwrite_self {l d : List α} {i : Nat} (h : i ≤ l.length) :
    window (overwrite l i d) i d.length = d := by
  have hlen : (l.take i).length = i := by simp [h]
  rw [window, overwrite, List.append_assoc, List.drop_append_of_le_length (by omega),
    List.drop_eq_nil_of_le (by omega), List.nil_append, List.take_left]

/-- A read that ends before the store does not see it. -/
theorem window_overwrite_before {l d : List α} {i j n : Nat} (hi : i ≤ l.length)
    (h : j + n ≤ i) : window (overwrite l i d) j n = window l j n := by
  apply List.ext_getElem?
  intro k
  rw [getElem?_window, getElem?_window, getElem?_overwrite hi]
  split_ifs <;> first | rfl | omega

/-- A read that starts after the store does not see it. -/
theorem window_overwrite_after {l d : List α} {i j n : Nat} (hi : i ≤ l.length)
    (h : i + d.length ≤ j) : window (overwrite l i d) j n = window l j n := by
  apply List.ext_getElem?
  intro k
  rw [getElem?_window, getElem?_window, getElem?_overwrite hi]
  split_ifs <;> first | rfl | omega

theorem window_add (l : List α) (i n m : Nat) :
    window l i (n + m) = window l i n ++ window l (i + n) m := by
  simp [window, List.take_add, List.drop_drop]

/-- A read inside a common start. -/
theorem window_eq_of_take {l l' : List α} {k i n : Nat} (h : l.take k = l'.take k)
    (hle : i + n ≤ k) : window l i n = window l' i n := by
  have hwindow := congrArg (fun m => window m i n) h
  simp only [window, List.drop_take, List.take_take] at hwindow
  rwa [Nat.min_eq_left (by omega)] at hwindow

theorem take_eq_of_take {l l' : List α} {k n : Nat} (h : l.take k = l'.take k) (hle : n ≤ k) :
    l.take n = l'.take n := by
  have htake := congrArg (List.take n) h
  rwa [List.take_take, List.take_take, Nat.min_eq_left hle] at htake

theorem take_overwrite {l d : List α} {i : Nat} (h : i ≤ l.length) :
    (overwrite l i d).take i = l.take i := by
  have hlen : (l.take i).length = i := by simp [h]
  rw [overwrite, List.append_assoc, List.take_append_of_le_length (by omega),
    List.take_of_length_le (by omega)]

/-- Storing right behind a prefix extends what is read from its start. -/
theorem take_overwrite_append {l d : List α} {i : Nat} (h : i ≤ l.length) :
    (overwrite l i d).take (i + d.length) = l.take i ++ d := by
  have hlen : (l.take i).length = i := by simp [h]
  have hend : (l.take i ++ d).length = i + d.length := by rw [List.length_append, hlen]
  rw [overwrite, List.take_append_of_le_length (by omega), List.take_of_length_le (by omega)]

theorem drop_overwrite {l d : List α} {i j : Nat} (hi : i ≤ l.length) (h : i + d.length ≤ j) :
    (overwrite l i d).drop j = l.drop j := by
  apply List.ext_getElem?
  intro k
  rw [List.getElem?_drop, List.getElem?_drop, getElem?_overwrite hi, if_neg (by omega),
    if_neg (by omega)]

/-- Two stores side by side are one store. -/
theorem overwrite_overwrite {l d e : List α} {i : Nat} (h : i ≤ l.length) :
    overwrite (overwrite l i d) (i + d.length) e = overwrite l i (d ++ e) := by
  have hdrop := drop_overwrite (d := d) (j := i + d.length + e.length) h (by omega)
  rw [overwrite, take_overwrite_append h, hdrop, overwrite, List.length_append, Nat.add_assoc]
  simp only [List.append_assoc]

end Block
