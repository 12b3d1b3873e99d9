import Mathlib.Data.List.Basic

/-!
# Lists cut at a separator

A list of names with a separator between them, as paths are: scans that walk over it by indices, and
what it comes to when the names that stand for nothing or for one step up are worked off.

* `findFrom`, `slice`: the next separator and what lies before it; `splitOn_drop`: one turn of a scan
  takes the first piece off.
* `normal`: the lexical normal form of a path. `normal_join`, `normal_append`: the names of a path that
  is appended come behind those before it.
-/

namespace Segments

variable {α : Type} [DecidableEq α]

/-! ## Scanning -/

/-- The index of the first `sep` from `start` on. -/
def findFrom (sep : α) (xs : List α) (start : Nat) : Option Nat :=
  ((xs.drop start).findIdx? (· == sep)).map (start + ·)

/-- The elements from `start` up to `stop`, or to the end. -/
def slice (xs : List α) (start : Nat) : Option Nat → List α
  | none => xs.drop start
  | some stop => (xs.drop start).take (stop - start)

variable {sep : α} {xs : List α} {start : Nat}

theorem findFrom_none (h : findFrom sep xs start = none) : sep ∉ xs.drop start := by
  intro hmem
  have hnone := List.findIdx?_eq_none_iff.mp (Option.map_eq_none_iff.mp h) sep hmem
  simp at hnone

theorem findFrom_some {stop : Nat} (h : findFrom sep xs start = some stop) :
    start ≤ stop ∧ stop < xs.length ∧ sep ∉ slice xs start (some stop) ∧
      xs.drop start = slice xs start (some stop) ++ sep :: xs.drop (stop + 1) := by
  obtain ⟨i, hi, rfl⟩ := Option.map_eq_some_iff.mp h
  obtain ⟨hlt, hsep, hbefore⟩ := List.findIdx?_eq_some_iff_getElem.mp hi
  have hlen : i < xs.length - start := by rwa [List.length_drop] at hlt
  have hslice : slice xs start (some (start + i)) = (xs.drop start).take i := by
    rw [slice, Nat.add_sub_cancel_left]
  refine ⟨Nat.le_add_right start i, by omega, ?_, ?_⟩
  · rw [hslice]
    intro hmem
    obtain ⟨j, hj, hget⟩ := List.getElem_of_mem hmem
    rw [List.length_take] at hj
    rw [List.getElem_take] at hget
    exact hbefore j (by omega) (by simp [hget])
  · have hdrop : (xs.drop start).drop i = sep :: xs.drop (start + i + 1) := by
      rw [List.drop_eq_getElem_cons hlt, eq_of_beq hsep, List.drop_drop]
      rfl
    rw [hslice, ← hdrop, List.take_append_drop]

theorem splitOn_drop (sep : α) (xs : List α) (start : Nat) :
    (xs.drop start).splitOn sep =
      slice xs start (findFrom sep xs start) ::
        match findFrom sep xs start with
        | none => []
        | some stop => (xs.drop (stop + 1)).splitOn sep := by
  cases hfind : findFrom sep xs start with
  | none => exact List.splitOn_eq_singleton (findFrom_none hfind)
  | some stop =>
    obtain ⟨-, -, hnot, heq⟩ := findFrom_some hfind
    rw [heq, List.splitOn_append_cons_self_of_not_mem hnot]

theorem sep_notMem_of_mem_splitOn {name : List α} (h : name ∈ xs.splitOn sep) : sep ∉ name := by
  induction xs generalizing name with
  | nil =>
    rw [List.splitOn_nil, List.mem_singleton] at h
    subst h
    exact List.not_mem_nil
  | cons x xs ih =>
    rw [List.splitOn_cons_eq_if_modifyHead] at h
    split at h
    · rcases List.mem_cons.mp h with rfl | h
      · exact List.not_mem_nil
      · exact ih h
    · rename_i hx
      cases hsplit : xs.splitOn sep with
      | nil => exact absurd hsplit (List.splitOn_ne_nil sep xs)
      | cons first rest =>
        rw [hsplit, List.modifyHead_cons] at h
        rw [hsplit] at ih
        rcases List.mem_cons.mp h with rfl | h
        · intro hmem
          rcases List.mem_cons.mp hmem with rfl | hmem
          · exact hx (beq_self_eq_true _)
          · exact ih List.mem_cons_self hmem
        · exact ih (List.mem_cons_of_mem _ h)

/-- The last piece, and what stands before it. -/
theorem splitOn_last (sep : α) (xs : List α) :
    (sep ∉ xs ∧ xs.splitOn sep = [xs]) ∨
    ∃ front last, xs = front ++ sep :: last ∧ sep ∉ last ∧ xs.splitOn sep = front.splitOn sep ++ [last] := by
  by_cases hmem : sep ∈ xs
  · right
    obtain ⟨before, after, heq, hnot⟩ := List.eq_append_cons_of_mem (List.mem_reverse.mpr hmem)
    have hxs : xs = after.reverse ++ sep :: before.reverse := by
      rw [← List.reverse_reverse xs, heq]
      simp
    have hlast : sep ∉ before.reverse := fun h => hnot (List.mem_reverse.mp h)
    refine ⟨after.reverse, before.reverse, hxs, hlast, ?_⟩
    rw [hxs, List.splitOn_append_cons_self, List.splitOn_eq_singleton hlast]
  · exact .inl ⟨hmem, List.splitOn_eq_singleton hmem⟩

/-! ## Normal forms -/

/-- A name that stands for itself. -/
def Plain (dot : α) (name : List α) : Prop := name ≠ [] ∧ name ≠ [dot] ∧ name ≠ [dot, dot]

/-- One more name at the end of a normal form: nothing and `.` add nothing, and `..` takes the last name
off, if there is one to take off. -/
def push (dot : α) (absolute : Bool) (names : List (List α)) (name : List α) : List (List α) :=
  if name = [] ∨ name = [dot] then names
  else if name = [dot, dot] then
    match names.getLast? with
    | none => if absolute then [] else [name]
    | some last => if last = [dot, dot] then names ++ [name] else names.dropLast
  else names ++ [name]

/-- The lexical normal form of a path: whether it starts at the root, and its names. -/
def normal (sep dot : α) (path : List α) : Bool × List (List α) :=
  (path.head? == some sep, (path.splitOn sep).foldl (push dot (path.head? == some sep)) [])

variable {dot : α} {absolute : Bool} {names : List (List α)}

theorem push_plain {name : List α} (h : Plain dot name) :
    push dot absolute names name = names ++ [name] := by
  rw [push, if_neg (not_or.mpr ⟨h.1, h.2.1⟩), if_neg h.2.2]

theorem foldl_push_plain {more : List (List α)} (h : ∀ name ∈ more, Plain dot name) :
    more.foldl (push dot absolute) names = names ++ more := by
  induction more generalizing names with
  | nil => exact (List.append_nil names).symm
  | cons name more ih =>
    rw [List.foldl_cons, push_plain (h name List.mem_cons_self),
      ih fun m hm => h m (List.mem_cons_of_mem _ hm), List.append_assoc]
    rfl

/-- Empty names do not count. -/
theorem foldl_push_filter (more : List (List α)) :
    (more.filter (· != [])).foldl (push dot absolute) names = more.foldl (push dot absolute) names := by
  induction more generalizing names with
  | nil => rfl
  | cons name more ih =>
    cases name with
    | nil => exact ih
    | cons a name => exact ih

/-- What is appended behind a separator comes behind what was there. -/
theorem normal_join {front : List α} (hfront : front ≠ []) (more : List α) :
    normal sep dot (front ++ sep :: more) =
      ((normal sep dot front).1,
        (more.splitOn sep).foldl (push dot (normal sep dot front).1) (normal sep dot front).2) := by
  have hhead : (front ++ sep :: more).head? = front.head? := by
    cases front with
    | nil => exact absurd rfl hfront
    | cons a front => rfl
  rw [normal, hhead, List.splitOn_append_cons_self, List.foldl_append]
  rfl

/-- So does what is appended to a path that ends with a separator. -/
theorem normal_append {front : List α} (hlast : front.getLast? = some sep) (more : List α) :
    normal sep dot (front ++ more) =
      ((normal sep dot front).1,
        (more.splitOn sep).foldl (push dot (normal sep dot front).1) (normal sep dot front).2) := by
  obtain ⟨init, rfl⟩ := List.getLast?_eq_some_iff.mp hlast
  have hhead : (init ++ sep :: more).head? = (init ++ [sep]).head? := by cases init <;> rfl
  rw [List.append_assoc, List.singleton_append, normal, normal, hhead, List.splitOn_append_cons_self,
    List.splitOn_append_cons_self, List.foldl_append, List.foldl_append, List.splitOn_nil]
  rfl

end Segments
