import Mathlib.Data.List.Nodup
import Mathlib.Data.List.Perm.Basic
import Mathlib.Logic.Function.Basic

/-!
# Lists of rows with a key, read as finite maps

Rows are kept in a list and found by the first one with a given key. Appending a
row with a new key, swapping a row with the last one before dropping the last,
and rewriting a row in place are related to the corresponding operations on
partial maps. As long as the keys are distinct, the order of the rows is
irrelevant to the map.
-/

namespace Notebook

/-! ## Splitting at the first match -/

/-- Split a list around its first element that satisfies a predicate. -/
def splitFirst (p : α → Bool) : List α → Option (List α × α × List α)
  | [] => none
  | x :: xs =>
      if p x then some ([], x, xs)
      else (splitFirst p xs).map fun (before, y, after) => (x :: before, y, after)

theorem splitFirst_eq_none_iff {p : α → Bool} {xs : List α} :
    splitFirst p xs = none ↔ ∀ x ∈ xs, p x = false := by
  induction xs with
  | nil => simp [splitFirst]
  | cons x xs inductionHypothesis =>
      cases here : p x <;>
        simp [splitFirst, here, inductionHypothesis]

theorem splitFirst_eq_some_iff
    {p : α → Bool}
    {xs before after : List α}
    {y : α} :
    splitFirst p xs = some (before, y, after) ↔
      xs = before ++ y :: after ∧ p y = true ∧ ∀ x ∈ before, p x = false := by
  induction xs generalizing before with
  | nil => simp [splitFirst]
  | cons x xs inductionHypothesis =>
      cases here : p x with
      | true =>
          simp only [splitFirst, here, if_true, Option.some.injEq,
            Prod.mk.injEq]
          constructor
          · rintro ⟨rfl, rfl, rfl⟩
            exact ⟨rfl, here, by simp⟩
          · rintro ⟨equal, _, none⟩
            cases before with
            | nil => simpa using equal
            | cons z before =>
                have : p z = false := none z List.mem_cons_self
                simp only [List.cons_append, List.cons.injEq] at equal
                rw [← equal.1, here] at this
                cases this
      | false =>
          simp only [splitFirst, here, Bool.false_eq_true, if_false,
            Option.map_eq_some_iff, Prod.exists, Prod.mk.injEq]
          constructor
          · rintro ⟨front, z, back, found, rfl, rfl, rfl⟩
            obtain ⟨rfl, holds, none⟩ := inductionHypothesis.mp found
            refine ⟨rfl, holds, ?_⟩
            simp only [List.mem_cons, forall_eq_or_imp]
            exact ⟨here, none⟩
          · rintro ⟨equal, holds, none⟩
            cases before with
            | nil =>
                simp only [List.nil_append, List.cons.injEq] at equal
                rw [equal.1, holds] at here
                cases here
            | cons z before =>
                simp only [List.cons_append, List.cons.injEq] at equal
                refine ⟨before, y, after, inductionHypothesis.mpr
                  ⟨equal.2, holds, fun w member =>
                    none w (List.mem_cons_of_mem z member)⟩,
                  by rw [equal.1], rfl, rfl⟩

/-- The split at the only element that satisfies the predicate. -/
theorem splitFirst_append_cons
    {p : α → Bool}
    {before : List α}
    {y : α}
    (holds : p y = true)
    (none : ∀ x ∈ before, p x = false)
    (after : List α) :
    splitFirst p (before ++ y :: after) = some (before, y, after) :=
  splitFirst_eq_some_iff.mpr ⟨rfl, holds, none⟩

/-- The index of the first match is the length of what precedes it. -/
theorem findIdx?_eq_some_iff_split
    {p : α → Bool}
    {xs : List α}
    {i : Nat} :
    xs.findIdx? p = some i ↔
      ∃ before y after, xs = before ++ y :: after ∧ before.length = i ∧
        p y = true ∧ ∀ x ∈ before, p x = false := by
  induction xs generalizing i with
  | nil => simp
  | cons x xs inductionHypothesis =>
      rw [List.findIdx?_cons]
      cases here : p x with
      | true =>
          simp only [if_true, Option.some.injEq]
          constructor
          · rintro rfl
            exact ⟨[], x, xs, rfl, rfl, here, by simp⟩
          · rintro ⟨before, y, after, equal, rfl, _, none⟩
            cases before with
            | nil => rfl
            | cons z before =>
                have : p z = false := none z List.mem_cons_self
                simp only [List.cons_append, List.cons.injEq] at equal
                rw [← equal.1, here] at this
                cases this
      | false =>
          simp only [Bool.false_eq_true, if_false, Option.map_eq_some_iff]
          constructor
          · rintro ⟨j, found, rfl⟩
            obtain ⟨before, y, after, rfl, rfl, holds, none⟩ :=
              inductionHypothesis.mp found
            refine ⟨x :: before, y, after, rfl, rfl, holds, ?_⟩
            simp only [List.mem_cons, forall_eq_or_imp]
            exact ⟨here, none⟩
          · rintro ⟨before, y, after, equal, rfl, holds, none⟩
            cases before with
            | nil =>
                simp only [List.nil_append, List.cons.injEq] at equal
                rw [equal.1, holds] at here
                cases here
            | cons z before =>
                simp only [List.cons_append, List.cons.injEq] at equal
                exact ⟨before.length, inductionHypothesis.mpr
                  ⟨before, y, after, equal.2, rfl, holds, fun w member =>
                    none w (List.mem_cons_of_mem z member)⟩, rfl⟩

/-- An element that is read at an index splits the list there. -/
theorem exists_split_of_getElem? {xs : List α} {i : Nat} {x : α}
    (read : xs[i]? = some x) :
    ∃ before after, xs = before ++ x :: after ∧ before.length = i := by
  obtain ⟨inside, rfl⟩ := List.getElem?_eq_some_iff.mp read
  refine ⟨xs.take i, xs.drop (i + 1), ?_, by rw [List.length_take]; omega⟩
  rw [List.getElem_cons_drop, List.take_append_drop]

/-! ## Swap with the last element -/

/-- Exchange two elements. Indices outside the list leave it unchanged. -/
def swapElements (i j : Nat) (xs : List α) : List α :=
  match xs[i]?, xs[j]? with
  | some x, some y => (xs.set i y).set j x
  | _, _ => xs

/-- Swap an element with the last one, then drop the last one. -/
def swapRemove (i : Nat) (xs : List α) : List α :=
  (swapElements i (xs.length - 1) xs).dropLast

/-- The last element moves into the place of the removed one. -/
theorem swapRemove_append_cons
    (before : List α)
    (x : α)
    (after : List α) :
    swapRemove before.length (before ++ x :: after) =
      before ++ (after.getLast?.toList ++ after.dropLast) := by
  rcases List.eq_nil_or_concat' after with rfl | ⟨middle, last, rfl⟩
  · simp [swapRemove, swapElements]
  · have lengthEq : (before ++ x :: (middle ++ [last])).length - 1 =
        before.length + (middle.length + 1) := by
      simp
    have first : (before ++ x :: (middle ++ [last]))[before.length]? = some x := by
      simp
    have final : (before ++ x :: (middle ++ [last]))[
        before.length + (middle.length + 1)]? = some last := by
      simp
    rw [swapRemove, swapElements, lengthEq, first, final]
    simp only [List.set_append_right _ _ (Nat.le_refl _), Nat.sub_self,
      List.set_cons_zero]
    simp
    change ((last :: middle) ++ [x]).dropLast = last :: middle
    rw [List.dropLast_concat]

/-- Swapping out an element leaves the remaining ones, in some order. -/
theorem swapRemove_perm
    (before : List α)
    (x : α)
    (after : List α) :
    (swapRemove before.length (before ++ x :: after)).Perm (before ++ after) := by
  rw [swapRemove_append_cons]
  apply List.Perm.append_left
  rcases List.eq_nil_or_concat' after with rfl | ⟨middle, last, rfl⟩
  · simp
  · simpa using (List.perm_append_singleton last middle).symm

/-- Exchange two elements, if both indices lie inside the list. -/
def swapElements? (i j : Nat) (xs : List α) : Option (List α) :=
  match xs[i]?, xs[j]? with
  | some x, some y => some ((xs.set i y).set j x)
  | _, _ => none

/-- Drop the last element, if there is one. -/
def removeLast? (xs : List α) : Option (List α) :=
  if xs = [] then none else some xs.dropLast

/-- Swap an element with the last one and drop the last one, if neither step acts on an
index outside the list. -/
def swapRemove? (i : Nat) (xs : List α) : Option (List α) :=
  (swapElements? i (xs.length - 1) xs).bind removeLast?

/-- The checked steps go through exactly for an index of the list, and then they are the
unchecked ones. -/
theorem swapRemove?_eq_some_iff {i : Nat} {xs ys : List α} :
    swapRemove? i xs = some ys ↔ i < xs.length ∧ ys = swapRemove i xs := by
  by_cases inside : i < xs.length
  · have first : xs[i]? = some xs[i] := List.getElem?_eq_getElem inside
    have lastInside : xs.length - 1 < xs.length := by omega
    have last : xs[xs.length - 1]? = some xs[xs.length - 1] :=
      List.getElem?_eq_getElem lastInside
    have swapped : (xs.set i xs[xs.length - 1]).set (xs.length - 1) xs[i] ≠ [] := by
      intro empty
      have noLength := congrArg List.length empty
      simp only [List.length_set, List.length_nil] at noLength
      omega
    rw [swapRemove?, swapElements?, swapRemove, swapElements, first, last]
    simp only [Option.bind_some, removeLast?, if_neg swapped, Option.some.injEq, inside,
      true_and]
    exact eq_comm
  · have outside : xs[i]? = none := List.getElem?_eq_none (Nat.le_of_not_lt inside)
    rw [swapRemove?, swapElements?, outside]
    simp [inside]

/-! ## Rows found by their key -/

/-- At most one element of a list without repetitions satisfies a predicate that one
element only can satisfy. -/
theorem length_filter_le_one {xs : List α} {p : α → Bool} {x : α}
    (nodup : xs.Nodup)
    (only : ∀ y ∈ xs, p y = true → y = x) :
    (xs.filter p).length ≤ 1 := by
  have same : xs.filter p = List.replicate (xs.filter p).length x := by
    rw [List.eq_replicate_iff]
    refine ⟨rfl, ?_⟩
    intro y member
    exact only y (List.mem_filter.mp member).1 (List.mem_filter.mp member).2
  have distinct := nodup.filter p
  rw [same, List.nodup_replicate] at distinct
  exact distinct

namespace KeyedList

variable [DecidableEq κ]

/-- First row with a given key. -/
def find (key : α → κ) (k : κ) (rows : List α) : Option α :=
  rows.find? fun row => key row = k

/-- No two rows have the same key. -/
def DistinctKeys (key : α → κ) (rows : List α) : Prop :=
  (rows.map key).Nodup

variable {key : α → κ}

theorem find_eq_none_iff {k : κ} {rows : List α} :
    find key k rows = none ↔ ∀ row ∈ rows, key row ≠ k := by
  simp [find]

theorem mem_of_find {k : κ} {rows : List α} {row : α}
    (found : find key k rows = some row) : row ∈ rows :=
  List.mem_of_find?_eq_some found

theorem key_of_find {k : κ} {rows : List α} {row : α}
    (found : find key k rows = some row) : key row = k := by
  simpa using List.find?_some found

/-- With distinct keys a row is found exactly when it is present. -/
theorem find_eq_some_iff
    {rows : List α}
    (distinct : DistinctKeys key rows)
    {k : κ}
    {row : α} :
    find key k rows = some row ↔ row ∈ rows ∧ key row = k := by
  constructor
  · intro found
    exact ⟨mem_of_find found, key_of_find found⟩
  · rintro ⟨present, rfl⟩
    cases found : find key (key row) rows with
    | none => exact absurd rfl (find_eq_none_iff.mp found row present)
    | some other =>
        have equal := List.inj_on_of_nodup_map distinct (mem_of_find found)
          present (key_of_find found)
        rw [equal]

/-- With distinct keys only the set of rows matters. -/
theorem find_congr
    {rows others : List α}
    (distinct : DistinctKeys key rows)
    (distinct' : DistinctKeys key others)
    (same : ∀ row, row ∈ rows ↔ row ∈ others)
    (k : κ) :
    find key k rows = find key k others := by
  apply Option.ext
  intro row
  rw [find_eq_some_iff distinct, find_eq_some_iff distinct', same]

omit [DecidableEq κ] in
theorem DistinctKeys.perm
    {rows others : List α}
    (distinct : DistinctKeys key rows)
    (perm : rows.Perm others) :
    DistinctKeys key others :=
  (perm.map key).nodup_iff.mp distinct

theorem find_perm
    {rows others : List α}
    (distinct : DistinctKeys key rows)
    (perm : rows.Perm others)
    (k : κ) :
    find key k rows = find key k others :=
  find_congr distinct (distinct.perm perm) (fun _ => perm.mem_iff) k

/-- Among the rows whose keys are kept, a kept key finds the same row and no other key
finds any. -/
theorem find_filter (keep : κ → Bool) (k : κ) (rows : List α) :
    find key k (rows.filter fun row => keep (key row)) =
      if keep k then find key k rows else none := by
  rw [find, List.find?_filter]
  cases kept : keep k with
  | true =>
      rw [if_pos rfl, find]
      congr 1
      funext row
      by_cases isKey : key row = k <;> simp [isKey, kept]
  | false =>
      rw [if_neg (by simp), List.find?_eq_none]
      intro row _
      by_cases isKey : key row = k <;> simp [isKey, kept]

theorem DistinctKeys.append_new
    {rows : List α}
    (distinct : DistinctKeys key rows)
    {row : α}
    (isNew : find key (key row) rows = none) :
    DistinctKeys key (rows ++ [row]) := by
  have absent := find_eq_none_iff.mp isNew
  rw [DistinctKeys, List.map_append, List.nodup_append]
  refine ⟨distinct, by simp, ?_⟩
  intro a ha b hb
  obtain ⟨other, present, rfl⟩ := List.mem_map.mp ha
  rw [List.map_singleton, List.mem_singleton] at hb
  rw [hb]
  exact absent other present

omit [DecidableEq κ] in
theorem DistinctKeys.append_sublist
    {before after : List α}
    {x : α}
    (distinct : DistinctKeys key (before ++ x :: after)) :
    DistinctKeys key (before ++ after) :=
  List.Nodup.sublist
    (((List.sublist_cons_self x after).append_left before).map key) distinct

omit [DecidableEq κ] in
/-- No other row has the key of a row. -/
theorem DistinctKeys.apart
    {before after : List α}
    {x : α}
    (distinct : DistinctKeys key (before ++ x :: after)) :
    ∀ row ∈ before ++ after, key row ≠ key x := by
  have moved : DistinctKeys key (x :: (before ++ after)) :=
    distinct.perm List.perm_middle
  rw [DistinctKeys, List.map_cons, List.nodup_cons] at moved
  intro row present equal
  exact moved.1 (List.mem_map.mpr ⟨row, present, equal⟩)

/-- A row is the only one with its key. -/
theorem DistinctKeys.filter_eq
    {rows : List α}
    (distinct : DistinctKeys key rows)
    {x : α}
    (present : x ∈ rows) :
    rows.filter (fun row => key row = key x) = [x] := by
  obtain ⟨before, after, rfl⟩ := List.append_of_mem present
  have others := distinct.apart
  simp only [List.mem_append, or_imp, forall_and] at others
  rw [List.filter_append, List.filter_cons_of_pos (by simp),
    List.filter_eq_nil_iff.mpr (by simpa using others.1),
    List.filter_eq_nil_iff.mpr (by simpa using others.2), List.nil_append]

/-- The rows with other keys are those around a row. -/
theorem DistinctKeys.filter_ne
    {before after : List α}
    {x : α}
    (distinct : DistinctKeys key (before ++ x :: after)) :
    (before ++ x :: after).filter (fun row => key row ≠ key x) = before ++ after := by
  have others := distinct.apart
  simp only [List.mem_append, or_imp, forall_and] at others
  rw [List.filter_append, List.filter_cons_of_neg (by simp),
    List.filter_eq_self.mpr (by simpa using others.1),
    List.filter_eq_self.mpr (by simpa using others.2)]

/-- The index of a key is that of the row found for it. -/
theorem findIdx?_cases (key : α → κ) (k : κ) (rows : List α) :
    (rows.findIdx? (fun row => key row = k) = none ∧ find key k rows = none) ∨
      ∃ before x after, rows = before ++ x :: after ∧
        rows.findIdx? (fun row => key row = k) = some before.length ∧
        find key k rows = some x ∧ key x = k ∧ ∀ other ∈ before, key other ≠ k := by
  cases index : rows.findIdx? (fun row => key row = k) with
  | none =>
      left
      refine ⟨rfl, find_eq_none_iff.mpr ?_⟩
      simpa using index
  | some i =>
      right
      obtain ⟨before, x, after, rfl, rfl, holds, none⟩ :=
        findIdx?_eq_some_iff_split.mp index
      have absent : before.find? (fun row => decide (key row = k)) = Option.none := by
        simpa using none
      refine ⟨before, x, after, rfl, rfl, ?_, by simpa using holds, by simpa using none⟩
      rw [find, List.find?_append, absent, List.find?_cons]
      simp [holds]

/-- With distinct keys a row is found at its own index. -/
theorem DistinctKeys.findIdx?_eq
    {before after : List α}
    {x : α}
    (distinct : DistinctKeys key (before ++ x :: after)) :
    (before ++ x :: after).findIdx? (fun row => key row = key x) = some before.length := by
  rw [findIdx?_eq_some_iff_split]
  refine ⟨before, x, after, rfl, rfl, by simp, ?_⟩
  intro row member
  simpa using distinct.apart row (List.mem_append_left after member)

/-- Rewriting the row at the end of a prefix. -/
theorem modify_append_cons (f : α → α) (before : List α) (x : α) (after : List α) :
    (before ++ x :: after).modify before.length f = before ++ f x :: after := by
  induction before with
  | nil => simp
  | cons y before inductionHypothesis => simpa using inductionHypothesis

/-- Taking out the row at the end of a prefix. -/
theorem eraseIdx_append_cons (before : List α) (x : α) (after : List α) :
    (before ++ x :: after).eraseIdx before.length = before ++ after := by
  rw [List.eraseIdx_append_of_length_le (Nat.le_refl _), Nat.sub_self, List.eraseIdx_cons_zero]

/-- Appending a row with a new key sets that key. -/
theorem find_append_new
    {rows : List α}
    {row : α}
    (isNew : find key (key row) rows = none) :
    (fun k => find key k (rows ++ [row])) =
      Function.update (fun k => find key k rows) (key row) (some row) := by
  funext k
  by_cases same : k = key row
  · subst same
    rw [Function.update_self, find, List.find?_append,
      show rows.find? (fun other => decide (key other = key row)) = none from isNew]
    simp
  · rw [Function.update_of_ne same, find, List.find?_append]
    simp [Ne.symm same, find]

/-- Taking out the row of a key clears that key. -/
theorem find_remove
    {before after : List α}
    {x : α}
    (distinct : DistinctKeys key (before ++ x :: after)) :
    (fun k => find key k (before ++ after)) =
      Function.update (fun k => find key k (before ++ x :: after))
        (key x) none := by
  have rest := distinct.append_sublist
  funext k
  by_cases same : k = key x
  · subst same
    rw [Function.update_self, find_eq_none_iff]
    exact distinct.apart
  · rw [Function.update_of_ne same, find_perm distinct List.perm_middle]
    simp [find, Ne.symm same]

/-- A key is found at the first row that has it. -/
theorem find_append_cons
    {before : List α}
    {x : α}
    (first : ∀ other ∈ before, key other ≠ key x)
    (after : List α) :
    find key (key x) (before ++ x :: after) = some x := by
  have absent : before.find? (fun row => decide (key row = key x)) = none := by
    simpa using first
  rw [find, List.find?_append, absent, List.find?_cons]
  simp

/-- Replacing a row by one with the same key changes that key only. -/
theorem find_replace
    {before after : List α}
    {x y : α}
    (distinct : DistinctKeys key (before ++ x :: after))
    (sameKey : key y = key x) :
    (fun k => find key k (before ++ y :: after)) =
      Function.update (fun k => find key k (before ++ x :: after))
        (key x) (some y) := by
  have distinct' : DistinctKeys key (before ++ y :: after) := by
    simpa [DistinctKeys, sameKey] using distinct
  funext k
  rw [find_perm distinct' List.perm_middle]
  by_cases same : k = key x
  · subst same
    rw [Function.update_self]
    simp [find, sameKey]
  · rw [Function.update_of_ne same, find_perm distinct List.perm_middle]
    simp [find, Ne.symm same, sameKey]

/-! ## Lists of the entries of a map -/

omit [DecidableEq κ] in
/-- A list holds the entries of a map, each once. -/
structure Lists (key : α → κ) (rows : List α) (m : κ → Option α) : Prop where
  distinct : DistinctKeys key rows
  mem_iff : ∀ k row, m k = some row ↔ row ∈ rows ∧ key row = k

/-- Rows with distinct keys list the map of what is found. -/
theorem lists_find {rows : List α} (distinct : DistinctKeys key rows) :
    Lists key rows fun k => find key k rows :=
  ⟨distinct, fun _ _ => find_eq_some_iff distinct⟩

namespace Lists

theorem find_eq {rows : List α} {m : κ → Option α} (lists : Lists key rows m) :
    (fun k => find key k rows) = m := by
  funext k
  apply Option.ext
  intro row
  rw [lists.mem_iff, find_eq_some_iff lists.distinct]

omit [DecidableEq κ] in
/-- Two lists of the entries of one map are permutations of each other. -/
theorem perm {rows rows' : List α} {m : κ → Option α} (lists : Lists key rows m)
    (lists' : Lists key rows' m) : rows.Perm rows' := by
  rw [List.perm_ext_iff_of_nodup lists.distinct.of_map lists'.distinct.of_map]
  intro row
  constructor
  · intro member
    exact ((lists'.mem_iff (key row) row).mp
      ((lists.mem_iff (key row) row).mpr ⟨member, rfl⟩)).1
  · intro member
    exact ((lists.mem_iff (key row) row).mp
      ((lists'.mem_iff (key row) row).mpr ⟨member, rfl⟩)).1

omit [DecidableEq κ] in
/-- The order of the rows does not matter. -/
theorem of_perm {rows rows' : List α} {m : κ → Option α} (lists : Lists key rows m)
    (same : rows.Perm rows') : Lists key rows' m where
  distinct := lists.distinct.perm same
  mem_iff k row := by rw [lists.mem_iff, same.mem_iff]

/-- A change of the rows under one key, if there is any, is a change of its entry. -/
theorem map_at {rows : List α} {m : κ → Option α} (lists : Lists key rows m) (k : κ)
    {f : α → α} (sameKey : ∀ row, key (f row) = key row) :
    Lists key (rows.map fun row => if key row = k then f row else row)
      (Function.update m k ((m k).map f)) where
  distinct := by
    have same : (key ∘ fun row => if key row = k then f row else row) = key := by
      funext row
      rw [Function.comp]
      split
      · exact sameKey row
      · rfl
    rw [DistinctKeys, List.map_map, same]
    exact lists.distinct
  mem_iff i row := by
    rw [List.mem_map]
    by_cases here : i = k
    · subst here
      rw [Function.update_self, Option.map_eq_some_iff]
      constructor
      · rintro ⟨old, value, rfl⟩
        obtain ⟨member, isKey⟩ := (lists.mem_iff i old).mp value
        exact ⟨⟨old, member, if_pos isKey⟩, (sameKey old).trans isKey⟩
      · rintro ⟨⟨old, member, rfl⟩, isKey⟩
        have oldKey : key old = i := by
          split at isKey
          · rwa [sameKey] at isKey
          · exact isKey
        rw [if_pos oldKey]
        exact ⟨old, (lists.mem_iff i old).mpr ⟨member, oldKey⟩, rfl⟩
    · rw [Function.update_of_ne here, lists.mem_iff]
      constructor
      · rintro ⟨member, isKey⟩
        exact ⟨⟨row, member, if_neg (isKey ▸ here)⟩, isKey⟩
      · rintro ⟨⟨old, member, rfl⟩, isKey⟩
        have oldKey : key old ≠ k := by
          rintro rfl
          rw [if_pos rfl, sameKey] at isKey
          exact here isKey.symm
        rw [if_neg oldKey] at isKey ⊢
        exact ⟨member, isKey⟩

/-- Appending a row with a new key inserts its entry. -/
theorem append_new {rows : List α} {m : κ → Option α} (lists : Lists key rows m)
    {row : α} (isNew : m (key row) = none) :
    Lists key (rows ++ [row]) (Function.update m (key row) (some row)) := by
  rw [← lists.find_eq] at isNew ⊢
  rw [← find_append_new isNew]
  exact lists_find (lists.distinct.append_new isNew)

/-- Taking out a row deletes its entry. -/
theorem erase {rest : List α} {x : α} {m : κ → Option α} (lists : Lists key (rest ++ [x]) m) :
    Lists key rest (Function.update m (key x) none) where
  distinct := (List.nodup_append.mp (by simpa [DistinctKeys] using lists.distinct)).1
  mem_iff k row := by
    have keys := lists.distinct
    rw [DistinctKeys, List.map_append, List.nodup_append] at keys
    by_cases here : k = key x
    · subst here
      rw [Function.update_self]
      refine iff_of_false (by simp) ?_
      rintro ⟨member, isKey⟩
      exact keys.2.2 _ (List.mem_map_of_mem member) (key x) (by simp) isKey
    · rw [Function.update_of_ne here, lists.mem_iff, List.mem_append, List.mem_singleton]
      constructor
      · rintro ⟨member | rfl, isKey⟩
        · exact ⟨member, isKey⟩
        · exact absurd isKey.symm here
      · rintro ⟨member, isKey⟩
        exact ⟨Or.inl member, isKey⟩

omit [DecidableEq κ] in
/-- Taking out all rows under some keys deletes their entries. -/
theorem restrict {rest gone : List α} {m : κ → Option α}
    (lists : Lists key (rest ++ gone) m) {taken : κ → Prop} [DecidablePred taken]
    (areTaken : ∀ row ∈ gone, taken (key row)) (areKept : ∀ row ∈ rest, ¬ taken (key row)) :
    Lists key rest fun k => if taken k then none else m k where
  distinct := by
    have keys := lists.distinct
    rw [DistinctKeys, List.map_append] at keys
    exact (List.nodup_append.mp keys).1
  mem_iff k row := by
    by_cases isTaken : taken k
    · rw [if_pos isTaken]
      refine iff_of_false (by simp) ?_
      rintro ⟨member, rfl⟩
      exact areKept row member isTaken
    · rw [if_neg isTaken, lists.mem_iff, List.mem_append]
      constructor
      · rintro ⟨member | member, rfl⟩
        · exact ⟨member, rfl⟩
        · exact absurd (areTaken row member) isTaken
      · rintro ⟨member, isKey⟩
        exact ⟨Or.inl member, isKey⟩

omit [DecidableEq κ] in
/-- Rewriting all rows under their keys rewrites all entries. -/
theorem map {β : Type*} {rows : List α} {m : κ → Option α} (lists : Lists key rows m)
    {f : α → β} {key' : β → κ} (sameKey : ∀ row, key' (f row) = key row) :
    Lists key' (rows.map f) fun k => (m k).map f where
  distinct := by
    have same : key' ∘ f = key := funext sameKey
    rw [DistinctKeys, List.map_map, same]
    exact lists.distinct
  mem_iff k row := by
    rw [Option.map_eq_some_iff, List.mem_map]
    constructor
    · rintro ⟨old, value, rfl⟩
      obtain ⟨member, isKey⟩ := (lists.mem_iff k old).mp value
      exact ⟨⟨old, member, rfl⟩, (sameKey old).trans isKey⟩
    · rintro ⟨⟨old, member, rfl⟩, isKey⟩
      exact ⟨old, (lists.mem_iff k old).mpr ⟨member, (sameKey old).symm.trans isKey⟩, rfl⟩

omit [DecidableEq κ] in
/-- Lists of entries inside the rows of a list are listed by pairs of keys. -/
theorem nested {β γ ι : Type*} {rows : List α} {m : κ → Option α} (lists : Lists key rows m)
    {inner : α → List β} {innerMap : α → ι → Option β} {innerKey : β → ι}
    (each : ∀ row ∈ rows, Lists innerKey (inner row) (innerMap row))
    {pair : α → β → γ} {pairKey : γ → κ × ι}
    (keys : ∀ row b, pairKey (pair row b) = (key row, innerKey b)) :
    Lists pairKey (rows.flatMap fun row => (inner row).map (pair row)) fun k =>
      (m k.1).bind fun row => (innerMap row k.2).map (pair row) where
  distinct := by
    have pairs : (rows.flatMap fun row => (inner row).map (pair row)).map pairKey =
        rows.flatMap fun row => (inner row).map fun b => (key row, innerKey b) := by
      simp only [List.map_flatMap, List.map_map, Function.comp_def, keys]
    rw [DistinctKeys, pairs, List.nodup_flatMap]
    constructor
    · intro row member
      have distinct := (each row member).distinct
      rw [DistinctKeys] at distinct
      have mapped := distinct.map (f := fun i => (key row, i)) fun _ _ same =>
        (Prod.mk.inj same).2
      rwa [List.map_map] at mapped
    · have distinct := lists.distinct
      rw [DistinctKeys, List.nodup_iff_pairwise_ne, List.pairwise_map] at distinct
      refine distinct.imp ?_
      intro row row' different both inRow inRow'
      obtain ⟨b, _, rfl⟩ := List.mem_map.mp inRow
      obtain ⟨b', _, same⟩ := List.mem_map.mp inRow'
      exact different (Prod.mk.inj same).1.symm
  mem_iff k row := by
    obtain ⟨k, i⟩ := k
    simp only [Option.bind_eq_some_iff, Option.map_eq_some_iff, List.mem_flatMap, List.mem_map]
    constructor
    · rintro ⟨outer, value, b, isInner, rfl⟩
      obtain ⟨member, isKey⟩ := (lists.mem_iff k outer).mp value
      obtain ⟨inOuter, isInnerKey⟩ := ((each outer member).mem_iff i b).mp isInner
      exact ⟨⟨outer, member, b, inOuter, rfl⟩, by rw [keys, isKey, isInnerKey]⟩
    · rintro ⟨⟨outer, member, b, inOuter, rfl⟩, isKey⟩
      rw [keys] at isKey
      obtain ⟨sameKey, sameInner⟩ := Prod.mk.inj isKey
      exact ⟨outer, (lists.mem_iff k outer).mpr ⟨member, sameKey⟩, b,
        ((each outer member).mem_iff i b).mpr ⟨inOuter, sameInner⟩, rfl⟩

/-- Moving the last row into the place of another one deletes the entry of that one. -/
theorem remove {before after : List α} {x : α} {m : κ → Option α}
    (lists : Lists key (before ++ x :: after) m) :
    Lists key (before ++ (after.getLast?.toList ++ after.dropLast))
      (Function.update m (key x) none) := by
  have perm := swapRemove_perm before x after
  rw [swapRemove_append_cons] at perm
  have rest := lists.distinct.append_sublist
  rw [← lists.find_eq, ← find_remove lists.distinct]
  have moved := lists_find (rest.perm perm.symm)
  rwa [show (fun k => find key k (before ++ (after.getLast?.toList ++ after.dropLast))) =
    fun k => find key k (before ++ after) from
      funext fun k => (find_perm rest perm.symm k).symm] at moved

/-- Rewriting a row under its key rewrites its entry. -/
theorem replace {before after : List α} {x y : α} {m : κ → Option α}
    (lists : Lists key (before ++ x :: after) m) (sameKey : key y = key x) :
    Lists key (before ++ y :: after) (Function.update m (key x) (some y)) := by
  rw [← lists.find_eq, ← find_replace lists.distinct sameKey]
  apply lists_find
  have distinct := lists.distinct
  simpa [DistinctKeys, sameKey] using distinct

end Lists

end KeyedList

/-! ## Reference operations on partial maps -/

namespace PartialMap

variable {κ : Type u} {α : Type v} [DecidableEq κ]

/-- Change the value at one key, or refuse: `change` gives the new value, if any,
for the old one. -/
def alter (m : κ → Option α) (k : κ) (change : Option α → Option (Option α)) :
    Bool × (κ → Option α) :=
  match change (m k) with
  | some value => (true, Function.update m k value)
  | none => (false, m)

/-- Insert a value at a key that has none. -/
def insertIfAbsent (m : κ → Option α) (k : κ) (a : α) :
    Bool × (κ → Option α) :=
  alter m k fun
    | some _ => none
    | none => some (some a)

/-- Rewrite the value at a key that has one. -/
def updateIfPresent (m : κ → Option α) (k : κ) (f : α → α) :
    Bool × (κ → Option α) :=
  alter m k fun
    | some a => some (some (f a))
    | none => none

/-- Clear a key that has a value. -/
def deleteIfPresent (m : κ → Option α) (k : κ) :
    Bool × (κ → Option α) :=
  alter m k fun
    | some _ => some none
    | none => none

/-- A property of all values is one of the changed map when the new value has it. -/
theorem alter_forall {m : κ → Option α} {k : κ} {change : Option α → Option (Option α)}
    {property : α → Prop}
    (before : ∀ j a, m j = some a → property a)
    (changed : ∀ a, change (m k) = some (some a) → property a)
    {j : κ}
    {a : α}
    (value : (alter m k change).2 j = some a) :
    property a := by
  unfold alter at value
  split at value
  · rename_i next changes
    simp only [Function.update_apply] at value
    split at value
    · exact changed a (by rw [changes, value])
    · exact before j a value
  · exact before j a value

/-- Replace the part of a map on pairs that has a given first component. -/
def patch {ι : Type w} [DecidableEq ι] (m : ι × κ → Option α) (i : ι)
    (part : κ → Option α) : ι × κ → Option α :=
  fun ik => if ik.1 = i then part ik.2 else m ik

/-- A change at a pair is a change of the part with its first component. -/
theorem alter_pair {ι : Type w} [DecidableEq ι]
    (m : ι × κ → Option α)
    (i : ι)
    (k : κ)
    (change : Option α → Option (Option α)) :
    alter m (i, k) change =
      ((alter (fun k => m (i, k)) k change).1,
        patch m i (alter (fun k => m (i, k)) k change).2) := by
  unfold alter
  cases changed : change (m (i, k)) with
  | none =>
      refine Prod.ext rfl ?_
      funext ⟨j, l⟩
      by_cases same : j = i <;> simp [patch, same]
  | some value =>
      refine Prod.ext rfl ?_
      funext ⟨j, l⟩
      by_cases same : j = i <;> simp [patch, same, Function.update_apply]

end PartialMap

end Notebook
