import StackPrimer.Command.Job
import StackPrimer.Proofs.Listing.Line

/-!
# Paths as texts

A text stands for a path, and the path has a text, which is not the same in general but stands for the same
path. So a file that has been written can be asked for by the text of its path.

Results:
* `Proper.ofText`, `Proper.withSuffix`: paths come from texts, and stay so with another suffix.
* `ofText_text`: the text of a path stands for it.
* `Command.ofText_text_objectPath`: the file that the command writes can be asked for.
-/

namespace StackPrimer.Command

namespace Path

/-- The path is one that a text stands for. -/
structure Proper (p : Path) : Prop where
  root : p.root = "" ∨ p.root = "/" ∨ p.root = "//"
  names : ∀ name ∈ p.names, name ≠ "" ∧ name ≠ "." ∧ '/' ∉ name.toList

/-! ## Names between slashes -/

/-- The names between the slashes of a text. -/
def namesOf (cs : List Char) : List String :=
  ((cs.splitOn '/').map String.ofList).filter fun name => name ≠ "" && name ≠ "."

/-- A slash in front makes no difference. -/
theorem namesOf_slash (cs : List Char) : namesOf ('/' :: cs) = namesOf cs := by
  rw [namesOf, namesOf, List.splitOn, List.splitOnP_cons_eq_if_modifyHead]
  simp [List.splitOn]

theorem slash_not_mem_namesOf {cs : List Char} {name : String} (h : name ∈ namesOf cs) :
    '/' ∉ name.toList := by
  obtain ⟨w, hw, rfl⟩ := List.mem_map.mp (List.mem_filter.mp h).1
  rw [String.toList_ofList]
  intro hslash
  have hcut := Text.eq_false_of_mem_splitOnP hw '/' hslash
  simp at hcut

/-- Names come back from a text in which slashes separate them. -/
theorem namesOf_intercalate {names : List String}
    (h : ∀ name ∈ names, name ≠ "" ∧ name ≠ "." ∧ '/' ∉ name.toList) :
    namesOf (['/'].intercalate (names.map String.toList)) = names := by
  cases names with
  | nil => decide +kernel
  | cons first rest =>
    have hsplit : (['/'].intercalate ((first :: rest).map String.toList)).splitOn '/' =
        (first :: rest).map String.toList := by
      refine List.splitOn_intercalate '/' ?_ (by simp)
      rw [List.forall_mem_map]
      exact fun name hname => (h name hname).2.2
    have hnames : ((first :: rest).map String.toList).map String.ofList = first :: rest := by
      simp [List.map_map, Function.comp_def]
    rw [namesOf, hsplit, hnames, List.filter_eq_self]
    intro name hname
    have hname := h name hname
    simp [hname.1, hname.2.1]

theorem ofText_eq (s : String) : ofText s = ⟨rootOf s.toList, namesOf s.toList⟩ := rfl

/-! ## Slashes in front -/

theorem rootOf_of_ne {cs : List Char} (h : cs.head? ≠ some '/') : rootOf cs = "" := by
  cases cs with
  | nil => rfl
  | cons c cs =>
    have hc : c ≠ '/' := by simpa using h
    unfold rootOf
    split
    · simp_all
    · simp_all
    · simp_all
    · rfl

theorem rootOf_slash {cs : List Char} (h : cs.head? ≠ some '/') : rootOf ('/' :: cs) = "/" := by
  cases cs with
  | nil => rfl
  | cons c cs =>
    have hc : c ≠ '/' := by simpa using h
    unfold rootOf
    split
    · simp_all
    · simp_all
    · rfl
    · simp_all

theorem rootOf_slashes {cs : List Char} (h : cs.head? ≠ some '/') : rootOf ('/' :: '/' :: cs) = "//" := by
  cases cs with
  | nil => rfl
  | cons c cs =>
    have hc : c ≠ '/' := by simpa using h
    simp [rootOf, hc]

/-- No slash is in front of the first name. -/
theorem head?_intercalate {names : List String}
    (h : ∀ name ∈ names, name ≠ "" ∧ name ≠ "." ∧ '/' ∉ name.toList) :
    (['/'].intercalate (names.map String.toList)).head? ≠ some '/' := by
  cases names with
  | nil => simp
  | cons first rest =>
    obtain ⟨hne, -, hslash⟩ := h first (by simp)
    obtain ⟨c, cs, hfirst⟩ := List.exists_cons_of_ne_nil (mt String.toList_eq_nil_iff.mp hne)
    rw [hfirst] at hslash
    have hc : c ≠ '/' := fun hc => hslash (by simp [hc])
    cases rest <;> simp [List.intercalate, hfirst, hc]

/-! ## Paths and their texts -/

theorem Proper.ofText (s : String) : (ofText s).Proper where
  root := by
    rw [ofText_eq]
    dsimp only
    unfold rootOf
    split
    · simp
    · split <;> simp
    · simp
    · simp
  names := by
    intro name hname
    have h := names_ofText hname
    exact ⟨h.1, h.2, slash_not_mem_namesOf hname⟩

theorem mem_of_mem_stem {name : String} {c : Char} (h : c ∈ (stem name).toList) : c ∈ name.toList := by
  unfold stem at h
  dsimp only at h
  split at h
  · exact h
  · rw [String.toList_ofList, List.mem_reverse] at h
    exact List.mem_reverse.mp (List.mem_of_mem_drop h)

/-- A suffix that has no slash and is longer than one character makes a name. -/
theorem Proper.withSuffix {p : Path} (h : p.Proper) {suffix : String} (hlength : 2 ≤ suffix.toList.length)
    (hslash : '/' ∉ suffix.toList) : (p.withSuffix suffix).Proper := by
  unfold Path.withSuffix
  split
  · exact h
  · rename_i last before hnames
    have hmem (name : String) (hname : name ∈ last :: before) : name ∈ p.names := by
      rw [← List.mem_reverse, hnames]
      exact hname
    refine ⟨h.root, fun name hname => ?_⟩
    rcases List.mem_cons.mp (List.mem_reverse.mp hname) with rfl | hname
    · have hlong : 2 ≤ (stem last ++ suffix).toList.length := by
        rw [String.toList_append, List.length_append]
        omega
      refine ⟨?_, ?_, ?_⟩
      · intro heq
        rw [heq] at hlong
        simp at hlong
      · intro heq
        rw [heq] at hlong
        simp at hlong
      · rw [String.toList_append, List.mem_append]
        rintro (hmem' | hmem')
        · exact (h.names last (hmem last (by simp))).2.2 (mem_of_mem_stem hmem')
        · exact hslash hmem'
    · exact h.names name (hmem name (by simp [hname]))

/-- The text of a path stands for it. -/
theorem ofText_text {p : Path} (h : p.Proper) : Path.ofText p.text = p := by
  obtain ⟨root, names⟩ := p
  have hroot : root = "" ∨ root = "/" ∨ root = "//" := h.root
  have hnames := namesOf_intercalate h.names
  have hhead := head?_intercalate h.names
  have hchars : ("/".intercalate names).toList = ['/'].intercalate (names.map String.toList) := by
    rw [String.toList_intercalate]
    rfl
  by_cases hnone : root = "" ∧ names = []
  · obtain ⟨rfl, rfl⟩ := hnone
    decide +kernel
  · have htext : (Path.text ⟨root, names⟩).toList =
        root.toList ++ ['/'].intercalate (names.map String.toList) := by
      rw [Path.text, if_neg hnone, String.toList_append, hchars]
    rw [ofText_eq, htext]
    rcases hroot with rfl | rfl | rfl
    · rw [String.toList_empty, List.nil_append, rootOf_of_ne hhead, hnames]
    · rw [show "/".toList = ['/'] from rfl, List.singleton_append, rootOf_slash hhead, namesOf_slash,
        hnames]
    · rw [show "//".toList = ['/', '/'] from rfl, List.cons_append, List.singleton_append,
        rootOf_slashes hhead, namesOf_slash, namesOf_slash, hnames]

end Path

/-- The file that the command writes can be asked for by the text of its path. -/
theorem ofText_text_objectPath (o : Options) : Path.ofText (objectPath o).text = objectPath o := by
  have hsuffix : ((Path.ofText o.program).withSuffix ".obj").Proper :=
    (Path.Proper.ofText _).withSuffix (by simp) (by simp)
  refine Path.ofText_text ?_
  unfold objectPath
  split
  · split
    · exact hsuffix
    · exact .ofText _
  · exact hsuffix

end StackPrimer.Command
