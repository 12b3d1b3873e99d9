import DropZone.Lib.Segments
import DropZone.Transfer.Manifest

/-!
# Where files are put

A sender names its files; the receiver puts them under its output directory. What stands between is
`is_safe_relative_path`.

* `SafePath`: what a path has to be; `isSafeRelativePath_iff`: that is what the check lets through.
  `safeFrom` is the loop of the check with its indices.
* `makeDirectories`: the directories that are made for an output, in the order in which they are made.
* `safe_paths`: an output is at the names of its path behind those of the output directory, and so is
  every directory that is made for it below that directory.
-/

namespace DropZone

open LittleEndian Segments

/-! ## The check -/

/-- A path of names that stand for themselves. -/
def SafePath (path : Bytes) : Prop :=
  1 ≤ path.length ∧ path.length ≤ 1024 ∧ 92 ∉ path ∧ 0 ∉ path ∧
    ∀ name ∈ path.splitOn 47, name ≠ [] ∧ name ≠ text "." ∧ name ≠ text ".."

/-- The loop of `is_safe_relative_path` from `start` on, for so many turns. -/
def safeFrom (path : Bytes) : (turns start : Nat) → Bool
  | 0, _ => true
  | turns + 1, start =>
    if start ≤ path.length then
      let slash := findFrom 47 path start
      let component := slice path start slash
      if component = [] then false
      else if component = text "." ∨ component = text ".." then false
      else
        match slash with
        | none => true
        | some slash => safeFrom path turns (slash + 1)
    else true

/-- `is_safe_relative_path` as it is written. There are no more turns than components. -/
def isSafeRelativePathLoop (path : Bytes) : Bool :=
  if path = [] ∨ kMaxPathLength < path.length then false
  else if path.head? = some 47 then false
  else if 92 ∈ path then false
  else if 0 ∈ path then false
  else safeFrom path (path.length + 1) 0

theorem safeComponent_iff {name : Bytes} :
    safeComponent name = true ↔ name ≠ [] ∧ name ≠ text "." ∧ name ≠ text ".." := by
  simp only [safeComponent, Bool.and_eq_true, bne_iff_ne, and_assoc]

variable {path : Bytes} {names : List Bytes}

theorem safeFrom_eq {turns start : Nat} (hstart : start ≤ path.length)
    (hturns : path.length - start < turns) :
    safeFrom path turns start = ((path.drop start).splitOn 47).all safeComponent := by
  induction turns generalizing start with
  | zero => omega
  | succ turns ih =>
    rw [safeFrom, if_pos hstart, splitOn_drop, List.all_cons]
    dsimp only
    split
    · rename_i hnil
      rw [hnil]
      rfl
    · rename_i hne
      split
      · rename_i hdots
        have hrefused : safeComponent (slice path start (findFrom 47 path start)) = false := by
          rcases hdots with hdot | hdot <;> rw [hdot] <;> rfl
        rw [hrefused, Bool.false_and]
      · rename_i hdots
        have hsafe : safeComponent (slice path start (findFrom 47 path start)) = true :=
          safeComponent_iff.mpr ⟨hne, not_or.mp hdots⟩
        rw [hsafe, Bool.true_and]
        cases hfind : findFrom 47 path start with
        | none => rfl
        | some slash =>
          obtain ⟨hle, hlt, -⟩ := findFrom_some hfind
          exact ih (by omega) (by omega)

theorem safeComponents_eq (path component : Bytes) :
    safeComponents component path = ((path.splitOn 47).modifyHead (component ++ ·)).all safeComponent := by
  induction path generalizing component with
  | nil => simp [safeComponents]
  | cons c path ih =>
    rw [safeComponents, List.splitOn_cons_eq_if_modifyHead]
    by_cases hc : c = 47
    · rw [if_pos hc, if_pos (by simp [hc]), ih]
      cases path.splitOn 47 <;> simp
    · rw [if_neg hc, if_neg (by simp [hc]), ih]
      cases path.splitOn 47 with
      | nil => rfl
      | cons name names => simp

theorem safeComponents_iff : safeComponents [] path = true ↔
    ∀ name ∈ path.splitOn 47, name ≠ [] ∧ name ≠ text "." ∧ name ≠ text ".." := by
  have hall := safeComponents_eq path []
  have hsame : (path.splitOn 47).modifyHead ([] ++ ·) = path.splitOn 47 := by
    cases path.splitOn 47 <;> rfl
  rw [hall, hsame, List.all_eq_true]
  exact forall₂_congr fun _ _ => safeComponent_iff

theorem head_of_names (h : ∀ name ∈ path.splitOn 47, name ≠ []) :
    path.head? ≠ some 47 := by
  cases path with
  | nil => simp
  | cons c path =>
    intro hc
    cases hc
    refine h [] ?_ rfl
    rw [List.splitOn_cons_eq_if_modifyHead, if_pos (by rfl)]
    exact List.mem_cons_self

theorem isSafeRelativePath_iff : isSafeRelativePath path = true ↔ SafePath path := by
  have hpos : path ≠ [] ↔ 1 ≤ path.length := List.length_pos_iff.symm
  have hmax : kMaxPathLength = 1024 := rfl
  simp only [isSafeRelativePath, Bool.and_eq_true, bne_iff_ne, decide_eq_true_eq, Bool.not_eq_true',
    List.contains_eq_mem, decide_eq_false_iff_not, safeComponents_iff, hmax]
  constructor
  · rintro ⟨⟨⟨⟨⟨hne, hlen⟩, -⟩, hbackslash⟩, hnul⟩, hnames⟩
    exact ⟨hpos.mp hne, hlen, hbackslash, hnul, hnames⟩
  · rintro ⟨hlen, hle, hbackslash, hnul, hnames⟩
    exact ⟨⟨⟨⟨⟨hpos.mpr hlen, hle⟩, head_of_names fun name h => (hnames name h).1⟩, hbackslash⟩, hnul⟩, hnames⟩

/-- The check as it is written. -/
theorem isSafeRelativePathLoop_eq (path : Bytes) :
    isSafeRelativePathLoop path = isSafeRelativePath path := by
  have hloop : safeFrom path (path.length + 1) 0 = safeComponents [] path := by
    rw [safeFrom_eq (Nat.zero_le _) (by omega), List.drop_zero, safeComponents_eq]
    cases path.splitOn 47 <;> rfl
  rw [isSafeRelativePathLoop, hloop, isSafeRelativePath]
  by_cases hne : path = []
  · simp [hne]
  by_cases hlen : kMaxPathLength < path.length
  · simp [hlen, Nat.not_le.mpr hlen]
  by_cases hhead : path.head? = some 47
  · simp [hne, hlen, hhead]
  by_cases hbackslash : 92 ∈ path
  · simp [hne, hlen, hhead, hbackslash]
  by_cases hnul : 0 ∈ path
  · simp [hne, hlen, hhead, hbackslash, hnul]
  · simp [hne, hlen, hhead, hbackslash, hnul, Nat.not_lt.mp hlen]

/-! ## Directories -/

/-- The index of the last `c`. -/
def rfind (c : UInt8) (path : Bytes) : Option Nat :=
  (path.reverse.findIdx? (· == c)).map (path.length - 1 - ·)

def parentPath (path : Bytes) : Bytes :=
  let path := stripSlashes path
  match rfind 47 path with
  | none => text "."
  | some 0 => text "/"
  | some slash => path.take slash

/-- One more component behind the directories made so far. -/
def extendPath (made component : Bytes) : Bytes :=
  if made = [] then component
  else if made.getLast? = some 47 then made ++ component
  else made ++ (text "/" ++ component)

/-- The loop of `make_directories` from `index` on: the paths that `mkdir` is called with. -/
def makeFrom (path : Bytes) : (turns index : Nat) → (made : Bytes) → List Bytes
  | 0, _, _ => []
  | turns + 1, index, made =>
    if index ≤ path.length then
      let slash := findFrom 47 path index
      let component := slice path index slash
      let made' := if component = [] then made else extendPath made component
      (if component = [] then [] else [made']) ++
        match slash with
        | none => []
        | some slash => makeFrom path turns (slash + 1) made'
    else []

/-- `make_directories`, where no `mkdir` fails but for directories that are there. -/
def makeDirectories (path : Bytes) : List Bytes :=
  if path = [] ∨ path = text "." ∨ path = text "/" then []
  else if path.head? = some 47 then makeFrom path (path.length + 1) 1 (text "/")
  else makeFrom path (path.length + 1) 0 []

/-- The paths that lead over the names, one after the other. -/
def extensions (made : Bytes) : List Bytes → List Bytes
  | [] => []
  | name :: names => extendPath made name :: extensions (extendPath made name) names

/-- The names of a path that are not empty. -/
def namesOf (path : Bytes) : List Bytes := (path.splitOn 47).filter (· != [])

/-- Where a path starts. -/
def rootOf (path : Bytes) : Bytes := if path.head? = some 47 then text "/" else []

/-- The directories on the way to a path, and the path itself. -/
def wayTo (path : Bytes) : List Bytes := extensions (rootOf path) (namesOf path)

theorem makeFrom_eq {path made : Bytes} {turns index : Nat} (hindex : index ≤ path.length)
    (hturns : path.length - index < turns) :
    makeFrom path turns index made = extensions made (namesOf (path.drop index)) := by
  induction turns generalizing index made with
  | zero => omega
  | succ turns ih =>
    have hrest : ∀ made', (match findFrom 47 path index with
        | none => []
        | some slash => makeFrom path turns (slash + 1) made') =
        extensions made' ((match findFrom 47 path index with
          | none => []
          | some slash => (path.drop (slash + 1)).splitOn 47).filter (· != [])) := by
      intro made'
      cases hfind : findFrom 47 path index with
      | none => rfl
      | some slash =>
        obtain ⟨hle, hlt, -⟩ := findFrom_some hfind
        exact ih (by omega) (by omega)
    rw [makeFrom, if_pos hindex, namesOf, splitOn_drop]
    dsimp only
    rw [hrest]
    by_cases hnil : slice path index (findFrom 47 path index) = []
    · rw [if_pos hnil, if_pos hnil, hnil]
      rfl
    · rw [if_neg hnil, if_neg hnil, List.filter_cons_of_pos (by simpa using hnil)]
      rfl

theorem makeDirectories_subset (path : Bytes) : makeDirectories path ⊆ wayTo path := by
  unfold makeDirectories
  split
  · exact List.nil_subset _
  · rename_i hne
    split
    · rename_i hhead
      cases path with
      | nil => cases hhead
      | cons c path =>
        cases hhead
        have hturns : (47 :: path).length - 1 < (47 :: path).length + 1 := by omega
        rw [makeFrom_eq (by simp) hturns, wayTo, rootOf, if_pos (by rfl), namesOf, namesOf,
          List.splitOn_cons_eq_if_modifyHead, if_pos (by rfl)]
        exact List.Subset.refl _
    · rename_i hhead
      rw [makeFrom_eq (Nat.zero_le _) (by omega), wayTo, rootOf, if_neg hhead]
      exact List.Subset.refl _

/-! ## Where they are -/

/-- What stands before the last slash, where something stands behind it. -/
theorem parentPath_eq {front name : Bytes} (hname : name ≠ []) (hslash : 47 ∉ name) :
    parentPath (front ++ 47 :: name) = if front = [] then text "/" else front := by
  have hstrip : stripSlashes (front ++ 47 :: name) = front ++ 47 :: name := by
    have hself : (front ++ 47 :: name).rdropWhile (· == 47) = front ++ 47 :: name := by
      rw [List.rdropWhile_eq_self_iff]
      intro hne
      have hlast : (front ++ 47 :: name).getLast hne ∈ name := by
        rw [List.getLast_append_of_ne_nil _ (List.cons_ne_nil _ _), List.getLast_cons hname]
        exact List.getLast_mem hname
      simpa using fun h : (front ++ 47 :: name).getLast hne = 47 => hslash (h ▸ hlast)
    rw [stripSlashes, hself, if_neg (by simp)]
  have hfind : rfind 47 (front ++ 47 :: name) = some front.length := by
    have hindex : (front ++ 47 :: name).reverse.findIdx? (· == 47) = some name.length := by
      rw [List.reverse_append, List.reverse_cons, List.append_assoc, List.findIdx?_append,
        List.findIdx?_eq_none_iff.mpr fun x hx => ?_]
      · simp [List.findIdx?_cons]
      · have hne : x ≠ 47 := fun h => hslash (h ▸ List.mem_reverse.mp hx)
        simpa using hne
    rw [rfind, hindex, Option.map_some, List.length_append, List.length_cons]
    congr 1
    omega
  rw [parentPath, hstrip, hfind]
  cases front with
  | nil => rfl
  | cons c front =>
    rw [if_neg (List.cons_ne_nil _ _), List.length_cons]
    exact List.take_left' rfl

theorem extensions_append (made : Bytes) (names more : List Bytes) :
    extensions made (names ++ more) =
      extensions made names ++ extensions (names.foldl extendPath made) more := by
  induction names generalizing made with
  | nil => rfl
  | cons name names ih => rw [List.cons_append, extensions, ih, extensions, List.foldl_cons, List.cons_append]

theorem mem_extensions {made q : Bytes} (h : q ∈ extensions made names) :
    ∃ k, 0 < k ∧ k ≤ names.length ∧ q = (names.take k).foldl extendPath made := by
  induction names generalizing made with
  | nil => cases h
  | cons name names ih =>
    rcases List.mem_cons.mp h with rfl | h
    · exact ⟨1, Nat.one_pos, by simp, by simp⟩
    · obtain ⟨k, -, hle, rfl⟩ := ih h
      exact ⟨k + 1, Nat.succ_pos k, by simpa using hle, rfl⟩

/-- The normal form of a path with `/` and `.`. -/
def normalPath (path : Bytes) : Bool × List Bytes := normal 47 46 path

theorem normalPath_extend (made : Bytes) {name : Bytes} (hslash : 47 ∉ name) :
    normalPath (extendPath made name) =
      ((normalPath made).1, push 46 (normalPath made).1 (normalPath made).2 name) := by
  have hsplit : name.splitOn 47 = [name] := List.splitOn_eq_singleton hslash
  unfold extendPath normalPath
  split
  · rename_i hmade
    have hhead : name.head? ≠ some 47 := fun h => hslash (List.mem_of_head? h)
    rw [hmade, normal, normal, hsplit, beq_eq_false_iff_ne.mpr hhead]
    rfl
  · rename_i hmade
    split
    · rename_i hlast
      rw [normal_append hlast, hsplit]
      rfl
    · change normal 47 46 (made ++ 47 :: name) = _
      rw [normal_join hmade, hsplit]
      rfl

theorem normalPath_extensions (made : Bytes) (h : ∀ name ∈ names, 47 ∉ name) :
    normalPath (names.foldl extendPath made) =
      ((normalPath made).1, names.foldl (push 46 (normalPath made).1) (normalPath made).2) := by
  induction names generalizing made with
  | nil => rfl
  | cons name names ih =>
    rw [List.foldl_cons, ih _ fun m hm => h m (List.mem_cons_of_mem _ hm),
      normalPath_extend made (h name List.mem_cons_self)]
    rfl

theorem notMem_of_mem_namesOf {path name : Bytes} (h : name ∈ namesOf path) : 47 ∉ name :=
  sep_notMem_of_mem_splitOn (List.mem_filter.mp h).1

theorem normalPath_way (path : Bytes) :
    normalPath ((namesOf path).foldl extendPath (rootOf path)) = normalPath path := by
  rw [normalPath_extensions _ fun _ => notMem_of_mem_namesOf]
  have hroot : normalPath (rootOf path) = (path.head? == some 47, []) := by
    unfold rootOf
    split
    · rename_i hhead
      rw [hhead]
      rfl
    · rename_i hhead
      rw [beq_eq_false_iff_ne.mpr hhead]
      rfl
  rw [hroot, namesOf, foldl_push_filter]
  rfl

/-- The directory with one slash behind it is `base ++ "/"`. -/
theorem exists_base {directory : Bytes} (hne : directory ≠ []) : ∃ base,
    (∀ path, isSafeRelativePath path = true → joinPath directory path = base ++ 47 :: path) ∧
    (∀ rest, rootOf (base ++ 47 :: rest) = rootOf directory) ∧
    (base ≠ [] → rootOf base = rootOf directory) ∧ namesOf base = namesOf directory := by
  by_cases hlast : directory.getLast? = some 47
  · obtain ⟨base, rfl⟩ := List.getLast?_eq_some_iff.mp hlast
    refine ⟨base, fun path hpath => ?_, fun rest => ?_, fun hbase => ?_, ?_⟩
    · rw [joinPath_of_safe hpath, if_neg hne, if_pos hlast, List.append_assoc]
      rfl
    · cases base <;> rfl
    · cases base with
      | nil => exact absurd rfl hbase
      | cons c base => rfl
    · rw [namesOf, namesOf, List.splitOn_append_cons_self, List.filter_append]
      exact (List.append_nil _).symm
  · refine ⟨directory, fun path hpath => ?_, fun rest => ?_, fun _ => rfl, rfl⟩
    · rw [joinPath_of_safe hpath, if_neg hne, if_neg hlast, List.append_assoc]
      rfl
    · cases directory with
      | nil => exact absurd rfl hne
      | cons c directory => rfl

/-- `output` is under `directory` at the names of `path`, and so is what is made for it. -/
structure Lands (directory path output : Bytes) : Prop where
  file : normalPath output = ((normalPath directory).1, (normalPath directory).2 ++ path.splitOn 47)
  directories : ∀ q ∈ makeDirectories (parentPath output), q ∈ wayTo directory ∨
    ∃ k, 0 < k ∧ k < (path.splitOn 47).length ∧
      normalPath q = ((normalPath directory).1, (normalPath directory).2 ++ (path.splitOn 47).take k)

theorem SafePath.plain (h : SafePath path) : ∀ name ∈ path.splitOn 47, Plain 46 name :=
  h.2.2.2.2

/-- The directories below `directory` are at the first names of the path. -/
theorem way_below {directory : Bytes} (hplain : ∀ name ∈ names, Plain 46 name)
    (hslash : ∀ name ∈ names, 47 ∉ name) {q : Bytes}
    (hq : q ∈ extensions (rootOf directory) (namesOf directory ++ names)) :
    q ∈ wayTo directory ∨ ∃ k, 0 < k ∧ k ≤ names.length ∧
      normalPath q = ((normalPath directory).1, (normalPath directory).2 ++ names.take k) := by
  rw [extensions_append] at hq
  rcases List.mem_append.mp hq with hq | hq
  · exact .inl hq
  · right
    obtain ⟨k, hpos, hle, rfl⟩ := mem_extensions hq
    refine ⟨k, hpos, hle, ?_⟩
    rw [normalPath_extensions _ fun name h => hslash name (List.mem_of_mem_take h), normalPath_way,
      foldl_push_plain fun name h => hplain name (List.mem_of_mem_take h)]

theorem joinPath_lands {directory path : Bytes} (hne : directory ≠ []) (hpath : SafePath path) :
    Lands directory path (joinPath directory path) := by
  obtain ⟨base, hjoin, hroot, hbase, hnames⟩ := exists_base hne
  have hsafe := isSafeRelativePath_iff.mpr hpath
  constructor
  · rw [joinPath_of_safe hsafe, if_neg hne]
    unfold normalPath
    split
    · rename_i hlast
      rw [normal_append hlast, foldl_push_plain hpath.plain]
    · rw [List.append_assoc, List.singleton_append, normal_join hne, foldl_push_plain hpath.plain]
  · intro q hq
    rw [hjoin path hsafe] at hq
    rcases splitOn_last 47 path with ⟨hslash, hsplit⟩ | ⟨front, name, rfl, hslash, hsplit⟩
    · -- a path of one name: nothing is made below the directory
      left
      rw [parentPath_eq (hpath.plain path (by rw [hsplit]; exact List.mem_cons_self)).1 hslash] at hq
      split at hq
      · cases hq
      · rename_i hbase'
        have hway := makeDirectories_subset _ hq
        rwa [wayTo, hbase hbase', hnames] at hway
    · have hfront : ∀ n ∈ front.splitOn 47, n ∈ (front ++ 47 :: name).splitOn 47 := fun n hn => by
        rw [hsplit]
        exact List.mem_append_left _ hn
      have hname : name ≠ [] :=
        (hpath.plain name (by rw [hsplit]; exact List.mem_append_right _ List.mem_cons_self)).1
      have hparent : parentPath (base ++ 47 :: (front ++ 47 :: name)) = base ++ 47 :: front := by
        have heq : base ++ 47 :: (front ++ 47 :: name) = (base ++ 47 :: front) ++ 47 :: name := by simp
        rw [heq, parentPath_eq hname hslash, if_neg (by simp)]
      have hall : namesOf (base ++ 47 :: front) = namesOf directory ++ front.splitOn 47 := by
        rw [namesOf, List.splitOn_append_cons_self, List.filter_append, ← namesOf, hnames]
        congr 1
        refine List.filter_eq_self.mpr fun n hn => ?_
        simpa using (hpath.plain n (hfront n hn)).1
      rw [hparent] at hq
      have hway := makeDirectories_subset _ hq
      rw [wayTo, hroot, hall] at hway
      rcases way_below (fun n hn => hpath.plain n (hfront n hn))
        (fun n hn => sep_notMem_of_mem_splitOn hn) hway with h | ⟨k, hpos, hle, hnormal⟩
      · exact .inl h
      · refine .inr ⟨k, hpos, ?_, ?_⟩
        · rw [hsplit, List.length_append, List.length_singleton]
          omega
        · rw [hnormal, hsplit, List.take_append_of_le_length hle]

/-- The check lets through exactly the safe paths, and the outputs of an offer with safe paths are under
the output directory, with every directory that is made for them below it. -/
theorem safe_paths {directory : Bytes} (hne : directory ≠ []) (entries : List ManifestEntry) :
    (∀ path, (isSafeRelativePathLoop path = true ↔ SafePath path) ∧
      isSafeRelativePathLoop path = isSafeRelativePath path) ∧
    ((∀ entry ∈ entries, SafePath entry.path) →
      ∃ outputs, resolveOutputPaths directory entries = .ok outputs ∧
        List.Forall₂ (fun entry output => Lands directory entry.path output) entries outputs) := by
  refine ⟨fun path => ⟨?_, isSafeRelativePathLoop_eq path⟩, fun hsafe => ?_⟩
  · rw [isSafeRelativePathLoop_eq]
    exact isSafeRelativePath_iff
  · refine ⟨_, resolveOutputPaths_of_safe fun entry h => isSafeRelativePath_iff.mpr (hsafe entry h), ?_⟩
    rw [List.forall₂_map_right_iff]
    exact List.forall₂_same.mpr fun entry h => joinPath_lands hne (hsafe entry h)

/-- An output directory with steps up in it. -/
theorem safe_paths_up : ∃ outputs, resolveOutputPaths (text "../in/./x/..//")
      [⟨text "photos/one.jpg", 1, 0o644, List.Vector.replicate 32 0⟩] = .ok outputs ∧
    outputs.map normalPath = [(false, [text "..", text "in", text "photos", text "one.jpg"])] := by
  have hsafe : SafePath (text "photos/one.jpg") := isSafeRelativePath_iff.mp (by decide)
  obtain ⟨outputs, hresolve, hlands⟩ := (safe_paths (by decide : text "../in/./x/..//" ≠ [])
    [⟨text "photos/one.jpg", 1, 0o644, List.Vector.replicate 32 0⟩]).2 (by simpa using hsafe)
  cases hlands with
  | cons hfirst hrest =>
    cases hrest
    refine ⟨_, hresolve, ?_⟩
    rw [List.map_cons, hfirst.file]
    decide +kernel

end DropZone
