import LineBasic.FileTree

/-!
Normal forms of paths. A path is resolved segment by segment, so resolving a path and then
another one is resolving the two joined by a slash. What a path resolves to is normal: it
holds names only, and written down as an absolute path it resolves to itself, from wherever.
Two dots lead up, and from the root they lead nowhere.
-/

namespace LineBasic

namespace Text

section Fields

variable {separator : Char} {cs ds : List Char}

theorem fields_eq_splitOn (separator : Char) (cs : List Char) :
    fields separator cs = cs.splitOn separator := by
  induction cs with
  | nil => rfl
  | cons c cs ih =>
    rw [fields, List.splitOn_cons_eq_if_modifyHead, ih]
    simp only [beq_iff_eq]
    split
    · rfl
    · obtain ⟨first, others, hsplit⟩ :=
        List.exists_cons_of_ne_nil (List.splitOn_ne_nil separator cs)
      rw [hsplit]
      rfl

/-- No field holds the separator. -/
theorem notMem_of_mem_fields (h : ds ∈ fields separator cs) : separator ∉ ds := by
  induction cs generalizing ds with
  | nil =>
    rw [List.mem_singleton.mp h]
    exact List.not_mem_nil
  | cons c cs ih =>
    rw [fields] at h
    split at h
    · rcases List.mem_cons.mp h with rfl | h
      · exact List.not_mem_nil
      · exact ih h
    · next hc =>
      cases hfields : fields separator cs with
      | nil =>
        rw [hfields] at h
        rw [List.mem_singleton.mp h]
        exact fun hmem => hc (List.mem_singleton.mp hmem).symm
      | cons first others =>
        rw [hfields] at h ih
        rcases List.mem_cons.mp h with rfl | h
        · have hfirst := ih List.mem_cons_self
          exact List.not_mem_cons_of_ne_of_not_mem (Ne.symm hc) hfirst
        · exact ih (List.mem_cons_of_mem first h)

end Fields

section Strings

variable {separator : Char} {s : String}

theorem stringFields_of_notMem (h : separator ∉ s.toList) : stringFields separator s = [s] := by
  rw [stringFields, fields_eq_splitOn, List.splitOn_eq_singleton h, List.map_singleton,
    String.ofList_toList]

/-- A separator between two texts separates their fields. -/
theorem stringFields_append (separator : Char) (s t : String) :
    stringFields separator (s ++ String.singleton separator ++ t) =
      stringFields separator s ++ stringFields separator t := by
  have htext : (s ++ String.singleton separator ++ t).toList =
      s.toList ++ separator :: t.toList := by simp
  simp only [stringFields, fields_eq_splitOn, htext, List.splitOn_append_cons_self, List.map_append]

/-- Texts without the separator are the fields of what they are joined to. -/
theorem stringFields_intercalate {parts : List String} (hne : parts ≠ [])
    (h : ∀ s ∈ parts, separator ∉ s.toList) :
    stringFields separator ((String.singleton separator).intercalate parts) = parts := by
  have hparts : ∀ cs ∈ parts.map String.toList, separator ∉ cs := by simpa using h
  rw [stringFields, fields_eq_splitOn, String.toList_intercalate, String.toList_singleton,
    List.splitOn_intercalate separator hparts (by simpa using hne), List.map_map]
  simp

theorem notMem_of_mem_stringFields {t : String} (h : t ∈ stringFields separator s) :
    separator ∉ t.toList := by
  obtain ⟨cs, hcs, rfl⟩ := List.mem_map.mp h
  rw [String.toList_ofList]
  exact notMem_of_mem_fields hcs

end Strings

end Text

open Text

namespace Path

structure IsName (segment : String) : Prop where
  ne_empty : segment ≠ ""
  ne_dot : segment ≠ "."
  ne_dots : segment ≠ ".."
  slash_notMem : '/' ∉ segment.toList

def IsNormal (parts : Path) : Prop := ∀ segment ∈ parts, IsName segment

def IsAbsolute (path : String) : Prop := path.toList.head? = some '/'

instance (path : String) : Decidable (IsAbsolute path) :=
  inferInstanceAs (Decidable (path.toList.head? = some '/'))

def absolute (parts : Path) : String := "/" ++ "/".intercalate parts

def climb : Nat → String
  | 0 => ""
  | n + 1 => "../" ++ climb n

section Segments

variable {parts directory : Path} {segment path : String}

theorem IsName.enter (h : IsName segment) (parts : Path) :
    enter parts segment = parts ++ [segment] := by
  rw [Path.enter, if_neg (not_or_intro h.ne_empty h.ne_dot), if_neg h.ne_dots]

/-- Names are entered one behind the other. -/
theorem IsNormal.foldl_enter (h : IsNormal parts) (start : Path) :
    parts.foldl Path.enter start = start ++ parts := by
  induction parts generalizing start with
  | nil => rw [List.foldl_nil, List.append_nil]
  | cons segment parts ih =>
    obtain ⟨hsegment, hparts⟩ := List.forall_mem_cons.mp h
    rw [List.foldl_cons, hsegment.enter, ih hparts, List.append_assoc, List.singleton_append]

theorem isNormal_enter (h : IsNormal parts) (hslash : '/' ∉ segment.toList) :
    IsNormal (enter parts segment) := by
  unfold enter
  split
  · exact h
  · next hplain =>
    split
    · exact fun s hs => h s ((List.dropLast_sublist parts).subset hs)
    · next hdots =>
      obtain ⟨hempty, hdot⟩ := not_or.mp hplain
      intro s hs
      rcases List.mem_append.mp hs with hs | hs
      · exact h s hs
      · rw [List.mem_singleton.mp hs]
        exact ⟨hempty, hdot, hdots, hslash⟩

theorem isNormal_foldl_enter {segments : List String} (h : IsNormal parts)
    (hslash : ∀ s ∈ segments, '/' ∉ s.toList) : IsNormal (segments.foldl enter parts) := by
  induction segments generalizing parts with
  | nil => exact h
  | cons s segments ih =>
    obtain ⟨hs, hsegments⟩ := List.forall_mem_cons.mp hslash
    exact ih (isNormal_enter h hs) hsegments

/-- Going up leaves the first segments, and none when there is nothing to leave. -/
theorem foldl_enter_dots (n : Nat) (parts : Path) :
    (List.replicate n "..").foldl enter parts = parts.take (parts.length - n) := by
  induction n generalizing parts with
  | zero => simp
  | succ n ih =>
    have hup : enter parts ".." = parts.dropLast := rfl
    rw [List.replicate_succ, List.foldl_cons, hup, ih, List.length_dropLast, List.dropLast_eq_take,
      List.take_take]
    congr 1
    omega

end Segments

section Resolution

variable {directory other parts : Path} {path further : String}

theorem resolve_of_isAbsolute (h : IsAbsolute path) (directory : Path) :
    resolve directory path = (stringFields '/' path).foldl enter [] := by
  rw [IsAbsolute] at h
  rw [resolve, if_pos h]

theorem resolve_of_not_isAbsolute (h : ¬ IsAbsolute path) (directory : Path) :
    resolve directory path = (stringFields '/' path).foldl enter directory := by
  rw [IsAbsolute] at h
  rw [resolve, if_neg h]

/-- A slash in front of a path leads to the root. -/
theorem resolve_slash (directory : Path) (path : String) :
    resolve directory ("/" ++ path) = (stringFields '/' path).foldl enter [] := by
  have habsolute : IsAbsolute ("/" ++ path) := by simp [IsAbsolute]
  have hfields : stringFields '/' ("/" ++ path) = "" :: stringFields '/' path :=
    stringFields_append '/' "" path
  rw [resolve_of_isAbsolute habsolute, hfields]
  rfl

/-- What a path resolves to is normal. -/
theorem isNormal_resolve (h : IsNormal directory) (path : String) :
    IsNormal (resolve directory path) := by
  refine isNormal_foldl_enter ?_ fun s hs => notMem_of_mem_stringFields hs
  split
  · exact fun s hs => absurd hs List.not_mem_nil
  · exact h

/-- A normal form is what its absolute path resolves to, from any directory. -/
theorem resolve_absolute (h : IsNormal parts) (other : Path) :
    resolve other (absolute parts) = parts := by
  rw [absolute, resolve_slash]
  cases parts with
  | nil => rfl
  | cons segment parts =>
    have hfields : stringFields '/' ("/".intercalate (segment :: parts)) = segment :: parts :=
      stringFields_intercalate (by simp) fun s hs => (h s hs).slash_notMem
    rw [hfields, h.foldl_enter, List.nil_append]

/-- A path behind a slash goes on where the path before it has led to. -/
theorem resolve_join (hpath : path ≠ "") (hfurther : ¬ IsAbsolute further) (directory : Path) :
    resolve directory (path ++ "/" ++ further) = resolve (resolve directory path) further := by
  have hstart : IsAbsolute (path ++ "/" ++ further) ↔ IsAbsolute path := by
    obtain ⟨c, cs, hcs⟩ := List.exists_cons_of_ne_nil (mt String.toList_eq_nil_iff.mp hpath)
    simp [IsAbsolute, hcs]
  have hfields : stringFields '/' (path ++ "/" ++ further) =
      stringFields '/' path ++ stringFields '/' further := stringFields_append '/' path further
  rw [resolve_of_not_isAbsolute hfurther]
  by_cases habsolute : IsAbsolute path
  · rw [resolve_of_isAbsolute (hstart.mpr habsolute), resolve_of_isAbsolute habsolute, hfields,
      List.foldl_append]
  · rw [resolve_of_not_isAbsolute (mt hstart.mp habsolute), resolve_of_not_isAbsolute habsolute,
      hfields, List.foldl_append]

theorem stringFields_climb (n : Nat) (path : String) :
    stringFields '/' (climb n ++ path) = List.replicate n ".." ++ stringFields '/' path := by
  induction n with
  | zero => simp [climb]
  | succ n ih =>
    have htext : climb (n + 1) ++ path = ".." ++ "/" ++ (climb n ++ path) := by
      rw [climb, String.append_assoc]
      rfl
    have hfields : stringFields '/' (".." ++ "/" ++ (climb n ++ path)) =
        stringFields '/' ".." ++ stringFields '/' (climb n ++ path) :=
      stringFields_append '/' ".." (climb n ++ path)
    rw [htext, hfields, ih, stringFields_of_notMem (by decide)]
    rfl

/-- From the root there is no way up. -/
theorem resolve_climb_of_root (n : Nat) (directory : Path) (path : String) :
    resolve directory ("/" ++ climb n ++ path) = resolve directory ("/" ++ path) := by
  rw [String.append_assoc, resolve_slash, resolve_slash, stringFields_climb, List.foldl_append,
    foldl_enter_dots, List.take_nil]

/-- Elsewhere the way up ends at the root. -/
theorem resolve_climb (hpath : ¬ IsAbsolute path) (n : Nat) (directory : Path) :
    resolve directory (climb n ++ path) =
      resolve (directory.take (directory.length - n)) path := by
  have hclimb : ¬ IsAbsolute (climb n ++ path) := by
    cases n with
    | zero => simpa [climb] using hpath
    | succ n => simp [IsAbsolute, climb]
  rw [resolve_of_not_isAbsolute hclimb, resolve_of_not_isAbsolute hpath, stringFields_climb,
    List.foldl_append, foldl_enter_dots]

end Resolution

/-- What a path resolves to is a normal form, and resolving composes. From a normal directory
every path leads to a normal one, which its absolute path leads to from anywhere. A path behind
a slash is resolved from where the path before it leads to, an absolute path from the root, and
no number of ways up leads out of the root. Two paths with the same normal form have the same
text, or fail for the same reason, and so has the absolute path of their normal form. -/
theorem resolve_normalizes {directory : Path} (hdirectory : IsNormal directory) (path : String) :
    IsNormal (resolve directory path) ∧
      (∀ other, resolve other (absolute (resolve directory path)) = resolve directory path ∧
        resolve other (absolute directory) = directory) ∧
      (path ≠ "" → ∀ further, ¬ IsAbsolute further →
        resolve directory (path ++ "/" ++ further) = resolve (resolve directory path) further) ∧
      (IsAbsolute path → ∀ other, resolve other path = resolve directory path) ∧
      (∀ n, resolve directory ("/" ++ climb n ++ path) = resolve directory ("/" ++ path) ∧
        (¬ IsAbsolute path → resolve directory (climb n ++ path) =
          resolve (directory.take (directory.length - n)) path)) ∧
      ∀ (tree : FileTree) other,
        tree.read other (absolute (resolve directory path)) = tree.read directory path ∧
        ∀ path', resolve other path' = resolve directory path →
          tree.read other path' = tree.read directory path := by
  have hnormal := isNormal_resolve hdirectory path
  have hread (tree : FileTree) (other : Path) (path' : String)
      (h : resolve other path' = resolve directory path) :
      tree.read other path' = tree.read directory path := by
    rw [FileTree.read, h, FileTree.read]
  refine ⟨hnormal, fun other => ⟨resolve_absolute hnormal other, resolve_absolute hdirectory other⟩,
    fun hpath further hfurther => resolve_join hpath hfurther directory, fun habsolute other => ?_,
    fun n => ⟨resolve_climb_of_root n directory path, fun hpath => resolve_climb hpath n directory⟩,
    fun tree other => ⟨hread tree other _ (resolve_absolute hnormal other), hread tree other⟩⟩
  rw [resolve_of_isAbsolute habsolute, resolve_of_isAbsolute habsolute]

/-- A way up, a doubled slash and a dot, and more ways up than there are directories. -/
theorem resolve_normalizes_at_mixedPath :
    IsNormal ["usr", "etc"] ∧ resolve ["home"] "/usr/etc" = ["usr", "etc"] ∧
      resolve ["usr", "lib"] "..//./etc//../a" = resolve ["usr", "etc"] "../a" ∧
      resolve ["home"] "/../b/" = resolve ["usr", "lib"] "/../b/" ∧
      resolve ["usr", "lib"] "../../../..//./etc/" = resolve [] "..//./etc/" ∧
      ∀ tree : FileTree, tree.read ["home"] "/usr/etc" = tree.read ["usr", "lib"] "..//./etc/" ∧
        tree.read ["usr"] "etc" = tree.read ["usr", "lib"] "..//./etc/" := by
  have hdirectory : IsNormal ["usr", "lib"] := by
    refine List.forall_mem_cons.mpr ⟨?_, List.forall_mem_singleton.mpr ?_⟩ <;>
      exact ⟨by decide, by decide, by decide, by decide⟩
  have hetc : resolve ["usr", "lib"] "..//./etc/" = ["usr", "etc"] := by decide +kernel
  have hwritten : absolute ["usr", "etc"] = "/usr/etc" := by decide +kernel
  obtain ⟨hnormal, hback, hjoin, -, hclimb, hread⟩ :=
    resolve_normalizes hdirectory "..//./etc/"
  obtain ⟨-, -, -, habsolute, -, -⟩ := resolve_normalizes hdirectory "/../b/"
  rw [hetc] at hnormal hback hjoin hread
  rw [hwritten] at hback hread
  refine ⟨hnormal, (hback ["home"]).1, hjoin (by decide) "../a" (by decide), ?_, ?_, fun tree => ?_⟩
  · exact habsolute (by decide) ["home"]
  · exact (hclimb 3).2 (by decide)
  · exact ⟨(hread tree ["home"]).1, (hread tree ["usr"]).2 "etc" (by decide +kernel)⟩

end Path

end LineBasic
