import ProcessNetwork.Base64
import ProcessNetwork.Lib.Backward

/-!
# `PathUtils`

The splitting of paths of `utils/PathUtils.cc`, compared with `dirname` and `basename` of POSIX.  An iterator is the
position in
the path.  `DirName` is right for every path.  `BaseName` loses the name when it is a single character at the begin of
the path.
-/

namespace ProcessNetwork.PathUtils

/-- `'/'`. -/
def pathSep : Byte := 47

/-! ### The functions -/

/-- `*cur == PATH_SEP`. -/
def isSep (path : List Byte) (cur : ℕ) : Bool := path[cur]? = some pathSep

/-- `std::string(first, last)`. -/
def substring (path : List Byte) (first last : ℕ) : List Byte := (path.take last).drop first

def dirName (path : List Byte) : List Byte :=
  if path = [] then bytes "."
  else
    let cur := scanBack (isSep path) (path.length - 1)
    if cur = 0 then
      if isSep path cur then substring path cur (cur + 1) else bytes "."
    else
      let cur := scanBack (fun i => !isSep path i) cur
      if cur = 0 then
        if isSep path cur then substring path cur (cur + 1) else bytes "."
      else
        let cur := scanBack (isSep path) cur
        substring path 0 (cur + 1)

def baseName (path : List Byte) : List Byte :=
  if path = [] then []
  else
    let last := scanBack (isSep path) (path.length - 1)
    if last = 0 then
      if isSep path last then substring path last (last + 1) else []
    else
      let start := scanBack (fun i => !isSep path i) last
      let start := if isSep path start then start + 1 else start
      substring path start (last + 1)

def pathConcat (dir file : List Byte) : List Byte := dir ++ pathSep :: file

def isAbsPath (path : List Byte) : Bool := path[0]? = some pathSep

/-! ### POSIX -/

/-- The path without the slashes at its end. -/
def withoutSlashes (path : List Byte) : List Byte := path.rdropWhile (· = pathSep)

/-- What is in front of the last component. -/
def parent (path : List Byte) : List Byte := (withoutSlashes path).rdropWhile (· ≠ pathSep)

/-- The path has only slashes. -/
def OnlySlashes (path : List Byte) : Prop := path ≠ [] ∧ path.all (· = pathSep) = true

instance (path : List Byte) : Decidable (OnlySlashes path) := inferInstanceAs (Decidable (_ ∧ _))

/-- `dirname`: the parent without slashes at its end, `"."` when there is none. -/
def posixDirname (path : List Byte) : List Byte :=
  if OnlySlashes path then [pathSep]
  else if parent path = [] then bytes "."
  else if withoutSlashes (parent path) = [] then [pathSep]
  else withoutSlashes (parent path)

/-- `basename`: the last component, empty for the empty path. -/
def posixBasename (path : List Byte) : List Byte :=
  if OnlySlashes path then [pathSep] else (withoutSlashes path).rtakeWhile (· ≠ pathSep)

/-- The names between the slashes. -/
def components (path : List Byte) : List (List Byte) := (path.splitOn pathSep).filter (· ≠ [])

/-- The paths name the same components, up to a leading `"."`; both start at the root, or none does. -/
def SamePath (path path' : List Byte) : Prop :=
  isAbsPath path = isAbsPath path' ∧
    (components path = components path' ∨ components path = bytes "." :: components path')

/-- The path is split as POSIX specifies, and so that its parts make it up. -/
structure Splits (path : List Byte) : Prop where
  dirName : dirName path = posixDirname path
  baseName : baseName path = posixBasename path
  samePath : path ≠ [] → ¬ OnlySlashes path → SamePath (pathConcat (PathUtils.dirName path) (PathUtils.baseName path)) path

/-! ### The scans -/

variable {path s s' : List Byte} {cur : ℕ} {c : Byte}

private theorem isSep_eq (i : ℕ) (h : i < path.length) : isSep path i = decide (path[i] = pathSep) := by
  rw [isSep, decide_eq_decide, List.getElem?_eq_getElem h, Option.some_inj]

private theorem withoutSlashes_take (h : cur < path.length) : withoutSlashes (path.take (cur + 1)) =
    if isSep path (scanBack (isSep path) cur) then [] else path.take (scanBack (isSep path) cur + 1) :=
  rdropWhile_take isSep_eq h

private theorem withoutName_take (h : cur < path.length) : (path.take (cur + 1)).rdropWhile (· ≠ pathSep) =
    if isSep path (scanBack (fun i => !isSep path i) cur) then path.take (scanBack (fun i => !isSep path i) cur + 1)
    else [] := by
  have hname (i : ℕ) (hi : i < path.length) : (fun i => !isSep path i) i = decide (path[i] ≠ pathSep) := by
    dsimp only
    rw [isSep_eq i hi, ← decide_not]
  rw [rdropWhile_take hname h]
  cases isSep path (scanBack (fun i => !isSep path i) cur) <;> rfl

/-- The first scan of both functions. -/
theorem withoutSlashes_eq (hpath : path ≠ []) : withoutSlashes path =
    if isSep path (scanBack (isSep path) (path.length - 1)) then []
    else path.take (scanBack (isSep path) (path.length - 1) + 1) := by
  have hpos := List.length_pos_iff.2 hpath
  have htake : path.take (path.length - 1 + 1) = path := List.take_of_length_le (by omega)
  rw [← withoutSlashes_take (by omega), htake]

private theorem onlySlashes_iff (hpath : path ≠ []) : OnlySlashes path ↔ withoutSlashes path = [] := by
  rw [OnlySlashes, withoutSlashes, List.rdropWhile_eq_nil_iff, List.all_eq_true]
  exact and_iff_right hpath

private theorem take_one (h : isSep path 0 = true) : path.take 1 = [pathSep] := by
  cases path with
  | nil => cases h
  | cons c path =>
    obtain rfl : c = pathSep := Option.some.inj (of_decide_eq_true h)
    rfl

private theorem take_ne_nil (hpath : path ≠ []) (cur : ℕ) : path.take (cur + 1) ≠ [] := by
  cases path with
  | nil => exact absurd rfl hpath
  | cons c path => exact List.cons_ne_nil _ _

private theorem lt_length (hpath : path ≠ []) (h : cur ≤ path.length - 1) : cur < path.length := by
  have hpos := List.length_pos_iff.2 hpath
  omega

/-- The first scan, over the slashes at the end. -/
theorem scan_spec (hpath : path ≠ []) (hcur : scanBack (isSep path) (path.length - 1) = cur) : cur < path.length ∧
    ((isSep path cur = true ∧ cur = 0 ∧ OnlySlashes path) ∨
      (isSep path cur = false ∧ withoutSlashes path = path.take (cur + 1) ∧ ¬ OnlySlashes path)) := by
  have hwithout := withoutSlashes_eq hpath
  have hle := scanBack_le (isSep path) (path.length - 1)
  rw [hcur] at hwithout hle
  refine ⟨lt_length hpath hle, ?_⟩
  cases hsep : isSep path cur with
  | true =>
    rw [hsep, if_pos rfl] at hwithout
    refine .inl ⟨rfl, ?_, (onlySlashes_iff hpath).2 hwithout⟩
    rw [← hcur] at hsep ⊢
    exact scanBack_eq_zero hsep
  | false =>
    rw [hsep, if_neg Bool.false_ne_true] at hwithout
    exact .inr ⟨rfl, hwithout, fun h => take_ne_nil hpath cur (hwithout.symm.trans ((onlySlashes_iff hpath).1 h))⟩

/-- The second scan, over the name in front of them. -/
theorem parent_eq (hcur : cur < path.length) (hwithout : withoutSlashes path = path.take (cur + 1)) : parent path =
    if isSep path (scanBack (fun i => !isSep path i) cur) then path.take (scanBack (fun i => !isSep path i) cur + 1)
    else [] := by
  rw [parent, hwithout]
  exact withoutName_take hcur

private theorem eq_zero_of_not_isSep (h : isSep path (scanBack (fun i => !isSep path i) cur) = false) :
    scanBack (fun i => !isSep path i) cur = 0 := scanBack_eq_zero (by rw [h]; rfl)

/-! ### `DirName` -/

theorem dirName_eq (path : List Byte) : dirName path = posixDirname path := by
  by_cases hpath : path = []
  · rw [hpath]
    rfl
  unfold dirName
  rw [if_neg hpath]
  dsimp only
  generalize hfirst : scanBack (isSep path) (path.length - 1) = cur
  obtain ⟨hcur, ⟨hsep, rfl, honly⟩ | ⟨hsep, hwithout, honly⟩⟩ := scan_spec hpath hfirst
  · rw [posixDirname, if_pos honly, if_pos rfl, if_pos hsep]
    exact take_one hsep
  have hparent := parent_eq hcur hwithout
  have hle := scanBack_le (fun i => !isSep path i) cur
  rw [posixDirname, if_neg honly]
  by_cases hzero : cur = 0
  · subst hzero
    rw [scanBack, hsep, if_neg Bool.false_ne_true] at hparent
    rw [if_pos rfl, hsep, if_neg Bool.false_ne_true, if_pos hparent]
  rw [if_neg hzero]
  have hstop := @eq_zero_of_not_isSep path cur
  generalize scanBack (fun i => !isSep path i) cur = cur' at hparent hle hstop ⊢
  cases hsep' : isSep path cur' with
  | false =>
    rw [hsep', if_neg Bool.false_ne_true] at hparent
    rw [if_pos (hstop hsep'), if_neg Bool.false_ne_true, if_pos hparent]
  | true =>
    rw [hsep', if_pos rfl] at hparent
    have hname : parent path ≠ [] := hparent ▸ take_ne_nil hpath cur'
    have hthird := withoutSlashes_take (hle.trans_lt hcur)
    rw [← hparent] at hthird
    rw [if_neg hname]
    by_cases hzero' : cur' = 0
    · subst hzero'
      rw [scanBack, hsep', if_pos rfl] at hthird
      rw [if_pos rfl, if_pos rfl, if_pos hthird]
      exact take_one hsep'
    rw [if_neg hzero']
    have hstop' := @scanBack_eq_zero (isSep path) cur'
    generalize scanBack (isSep path) cur' = cur'' at hthird hstop' ⊢
    cases hsep'' : isSep path cur'' with
    | true =>
      obtain rfl := hstop' hsep''
      rw [hsep'', if_pos rfl] at hthird
      rw [if_pos hthird]
      exact take_one hsep''
    | false =>
      rw [hsep'', if_neg Bool.false_ne_true] at hthird
      rw [if_neg (hthird ▸ take_ne_nil hpath cur''), hthird]
      rfl

/-! ### `BaseName` -/

/-- The name is lost when it is a single character at the begin of the path. -/
theorem baseName_eq (path : List Byte) : baseName path =
    if (withoutSlashes path).length = 1 then [] else posixBasename path := by
  by_cases hpath : path = []
  · rw [hpath]
    rfl
  unfold baseName
  rw [if_neg hpath]
  dsimp only
  generalize hfirst : scanBack (isSep path) (path.length - 1) = cur
  obtain ⟨hcur, ⟨hsep, rfl, honly⟩ | ⟨hsep, hwithout, honly⟩⟩ := scan_spec hpath hfirst
  · rw [posixBasename, if_pos honly, if_pos rfl, if_pos hsep, (onlySlashes_iff hpath).1 honly]
    exact take_one hsep
  have hlength : (withoutSlashes path).length = cur + 1 := by
    rw [hwithout, List.length_take]
    omega
  rw [posixBasename, if_neg honly, hlength]
  by_cases hzero : cur = 0
  · subst hzero
    rw [if_pos rfl, if_pos rfl, hsep]
    rfl
  have hparent := parent_eq hcur hwithout
  have hle := scanBack_le (fun i => !isSep path i) cur
  have hstop := @eq_zero_of_not_isSep path cur
  have hone : ¬ cur + 1 = 1 := by omega
  rw [if_neg hzero, if_neg hone, rtakeWhile_eq_drop, ← parent, hparent, hwithout, substring]
  generalize scanBack (fun i => !isSep path i) cur = cur' at hle hstop ⊢
  cases hsep' : isSep path cur' with
  | true =>
    have hlength' : (path.take (cur' + 1)).length = cur' + 1 := by
      rw [List.length_take]
      omega
    rw [if_pos rfl, if_pos rfl, hlength']
  | false =>
    rw [if_neg Bool.false_ne_true, if_neg Bool.false_ne_true, hstop hsep']
    rfl

/-! ### Components -/

theorem components_append_sep (a b : List Byte) : components (a ++ pathSep :: b) = components a ++ components b := by
  unfold components
  rw [List.splitOn_append_cons_self, List.filter_append]

/-- Slashes name nothing. -/
theorem components_slashes_append (hs : ∀ c ∈ s, c = pathSep) (b : List Byte) : components (s ++ b) = components b := by
  induction s with
  | nil => rfl
  | cons c s ih =>
    rw [List.forall_mem_cons] at hs
    rw [hs.1, List.cons_append, ← ih hs.2]
    exact components_append_sep [] (s ++ b)

private theorem components_append_slashes_append (hs : ∀ c ∈ s, c = pathSep) (hne : s ≠ []) (a b : List Byte) :
    components (a ++ s ++ b) = components a ++ components b := by
  cases s with
  | nil => exact absurd rfl hne
  | cons c s =>
    rw [List.forall_mem_cons] at hs
    rw [hs.1, List.append_assoc, List.cons_append, components_append_sep, components_slashes_append hs.2]

private theorem components_append_slashes (hs : ∀ c ∈ s, c = pathSep) (a : List Byte) :
    components (a ++ s) = components a := by
  by_cases hne : s = []
  · rw [hne, List.append_nil]
  · have happend := components_append_slashes_append hs hne a []
    rw [List.append_nil] at happend
    rw [happend]
    exact List.append_nil _

private theorem isAbsPath_append (h : s ≠ []) (b : List Byte) : isAbsPath (s ++ b) = isAbsPath s := by
  cases s with
  | nil => exact absurd rfl h
  | cons c s => rfl

private theorem isAbsPath_of_forall (h : ∀ c ∈ s, c ≠ pathSep) : isAbsPath s = false := by
  cases s with
  | nil => rfl
  | cons c s => exact decide_eq_false fun hc => h c List.mem_cons_self (Option.some.inj hc)

private theorem isAbsPath_of_slashes (hs : ∀ c ∈ s, c = pathSep) (hne : s ≠ []) : isAbsPath s = true := by
  cases s with
  | nil => exact absurd rfl hne
  | cons c s => exact decide_eq_true (congrArg some (hs c List.mem_cons_self))

/-- A path without the slashes at its end, and these slashes. -/
theorem exists_slashes (path : List Byte) : ∃ s, path = withoutSlashes path ++ s ∧ ∀ c ∈ s, c = pathSep :=
  ⟨_, List.rdropWhile_append_rtakeWhile.symm, fun _ hc => by simpa using List.mem_rtakeWhile_imp hc⟩

/-- The parent and the name. -/
theorem exists_name (path : List Byte) : ∃ s, (withoutSlashes path).rtakeWhile (· ≠ pathSep) = s ∧
    withoutSlashes path = parent path ++ s ∧ ∀ c ∈ s, c ≠ pathSep :=
  ⟨_, rfl, List.rdropWhile_append_rtakeWhile.symm, fun _ hc => by simpa using List.mem_rtakeWhile_imp hc⟩

/-- The parent ends with a slash. -/
theorem withoutSlashes_parent_ne (h : parent path ≠ []) : withoutSlashes (parent path) ≠ parent path := by
  intro hself
  have hlast := List.rdropWhile_last_not _ _ h
  have hnot := List.rdropWhile_eq_self_iff.1 hself h
  simp only [decide_eq_true_eq, ne_eq, not_not] at hlast hnot
  exact hnot hlast

/-- The parts that POSIX specifies make up the path. -/
theorem samePath_posix (hpath : path ≠ []) (honly : ¬ OnlySlashes path) :
    SamePath (pathConcat (posixDirname path) (posixBasename path)) path := by
  obtain ⟨s, hs, hslashes⟩ := exists_slashes path
  obtain ⟨name, hname, hw, hnoSep⟩ := exists_name path
  have hne : withoutSlashes path ≠ [] := fun h => honly ((onlySlashes_iff hpath).2 h)
  have hcomponents : components path = components (parent path ++ name) := by
    rw [← hw]
    conv_lhs => rw [hs]
    exact components_append_slashes hslashes _
  have habs : isAbsPath path = isAbsPath (parent path ++ name) := by
    rw [← hw]
    conv_lhs => rw [hs]
    exact isAbsPath_append hne _
  rw [posixDirname, posixBasename, if_neg honly, if_neg honly, hname, SamePath, hcomponents, habs, pathConcat,
    components_append_sep]
  by_cases hparent : parent path = []
  · rw [if_pos hparent, hparent, List.nil_append, isAbsPath_of_forall hnoSep]
    exact ⟨rfl, .inr rfl⟩
  rw [if_neg hparent]
  obtain ⟨s', hs', hslashes'⟩ := exists_slashes (parent path)
  have hne' : s' ≠ [] := by
    rintro rfl
    rw [List.append_nil] at hs'
    exact withoutSlashes_parent_ne hparent hs'.symm
  by_cases hroot : withoutSlashes (parent path) = []
  · rw [if_pos hroot]
    rw [hroot, List.nil_append] at hs'
    rw [hs', components_slashes_append hslashes', isAbsPath_append hne', isAbsPath_of_slashes hslashes' hne']
    exact ⟨rfl, .inl rfl⟩
  · rw [if_neg hroot, hs', components_append_slashes_append hslashes' hne', List.append_assoc, ← hs',
      isAbsPath_append hroot, isAbsPath_append hroot]
    exact ⟨rfl, .inl rfl⟩

/-! ### Splitting -/

/-- The name is a single character at the begin of the path. -/
theorem length_withoutSlashes_eq_one : (withoutSlashes path).length = 1 ↔
    ∃ c n, c ≠ pathSep ∧ path = c :: List.replicate n pathSep := by
  constructor
  · intro hlength
    obtain ⟨c, hc⟩ := List.length_eq_one_iff.1 hlength
    obtain ⟨s, hs, hslashes⟩ := exists_slashes path
    have hne : withoutSlashes path ≠ [] := fun h => absurd (hc.symm.trans h) (List.cons_ne_nil _ _)
    have hlast := List.rdropWhile_last_not _ _ hne
    refine ⟨c, s.length, ?_, ?_⟩
    · have hget : (withoutSlashes path).getLast hne = c := by simp [hc]
      rintro rfl
      exact hlast (decide_eq_true hget)
    · rw [hs, hc, List.singleton_append, List.eq_replicate_of_mem hslashes, List.length_replicate]
  · rintro ⟨c, n, hc, rfl⟩
    have hwithout : withoutSlashes (c :: List.replicate n pathSep) = [c] := by
      induction n with
      | zero => exact (List.rdropWhile_singleton _ c).trans (if_neg (by simpa using hc))
      | succ n ih =>
        rw [List.replicate_succ', ← List.cons_append, withoutSlashes, List.rdropWhile_concat_pos _ _ _ (by simp)]
        exact ih
    rw [hwithout, List.length_singleton]

private theorem posixBasename_ne_nil (hpath : path ≠ []) : posixBasename path ≠ [] := by
  unfold posixBasename
  split_ifs with honly
  · exact List.cons_ne_nil _ _
  · intro hnil
    have hne : withoutSlashes path ≠ [] := fun h => honly ((onlySlashes_iff hpath).2 h)
    have hlast := List.rdropWhile_last_not _ _ hne
    exact List.rtakeWhile_eq_nil_iff.1 hnil hne (decide_eq_true fun h => hlast (decide_eq_true h))

/-- A path is split as POSIX specifies unless it is a single character that may have slashes behind it. -/
theorem splits_iff (path : List Byte) : Splits path ↔ ¬ ∃ c n, c ≠ pathSep ∧ path = c :: List.replicate n pathSep := by
  rw [← length_withoutSlashes_eq_one]
  constructor
  · intro h hone
    have hbase := h.baseName
    rw [baseName_eq, if_pos hone] at hbase
    have hpath : path ≠ [] := by
      rintro rfl
      cases hone
    exact posixBasename_ne_nil hpath hbase.symm
  · intro hone
    have hbase : baseName path = posixBasename path := by rw [baseName_eq, if_neg hone]
    refine ⟨dirName_eq path, hbase, fun hpath honly => ?_⟩
    rw [dirName_eq, hbase]
    exact samePath_posix hpath honly

theorem not_forall_splits : ¬ ∀ path, Splits path := fun h => absurd (h (bytes "a")).baseName (by decide)

end ProcessNetwork.PathUtils
