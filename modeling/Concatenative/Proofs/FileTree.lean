import Concatenative.Console
import Concatenative.Session

/-!
# Files that exist

Whether there is a script is asked of the normal form of its path, and the script is read at the
path as it stands. A null character survives in the normal form. So no path of a script that is
there holds one, and whatever keeps such a script from being read is reported.
-/

namespace Concatenative

/-! ## Characters of a path -/

theorem Path.mem_intercalate_iff
    {separator c : Char}
    {pieces : List (List Char)}
    (other : c ≠ separator) :
    c ∈ [separator].intercalate pieces ↔ ∃ piece ∈ pieces, c ∈ piece := by
  induction pieces with
  | nil => simp
  | cons piece rest inductionHypothesis =>
      cases rest with
      | nil => simp
      | cons next later =>
          rw [List.intercalate_cons_cons, List.append_assoc, List.mem_append, List.mem_append,
            inductionHypothesis]
          simp [other]

/-- A character that is neither a slash nor a dot is kept in the normal form of a path. -/
theorem Path.mem_normal
    {path : String}
    {c : Char}
    (noSlash : c ≠ '/')
    (noDot : c ≠ '.')
    (member : c ∈ path.toList) :
    c ∈ (normal path).toList := by
  have whole : ['/'].intercalate (path.toList.splitOn '/') = path.toList :=
    List.intercalate_splitOn '/'
  rw [← whole, mem_intercalate_iff noSlash] at member
  obtain ⟨piece, among, inside⟩ := member
  have leads : isIdle (String.ofList piece) = false := by
    have nonempty : piece ≠ [] := List.ne_nil_of_mem inside
    have noStay : piece ≠ ['.'] := by
      rintro rfl
      exact noDot (List.mem_singleton.mp inside)
    simp [isIdle, ← String.toList_inj, nonempty, noStay]
  have named : String.ofList piece ∈ names path :=
    List.mem_filter.mpr ⟨List.mem_map_of_mem among, by rw [leads]; rfl⟩
  have some : (names path).isEmpty = false :=
    List.isEmpty_eq_false_iff.mpr (List.ne_nil_of_mem named)
  have slash : "/".toList = ['/'] := rfl
  rw [normal, some, Bool.and_false, if_neg Bool.false_ne_true, String.toList_append,
    String.toList_intercalate, slash, List.mem_append, mem_intercalate_iff noSlash]
  exact .inr ⟨piece, List.mem_map.mpr ⟨_, named, String.toList_ofList⟩, inside⟩

namespace FileTree

variable {tree : FileTree} {path : String}

/-- Walking on from a place does not fail because of a null character. -/
theorem enter_ne_nullCharacter (place : Place) (name : String) :
    tree.enter place name ≠ .error .nullCharacter := by
  unfold enter child
  repeat' split
  all_goals rintro ⟨⟩

theorem foldlM_enter_ne_nullCharacter (place : Place) (names : List String) :
    names.foldlM tree.enter place ≠ .error .nullCharacter := by
  induction names generalizing place with
  | nil => rintro ⟨⟩
  | cons name rest inductionHypothesis =>
      rw [List.foldlM_cons]
      cases entered : tree.enter place name with
      | error error =>
          rintro ⟨⟩
          exact enter_ne_nullCharacter place name entered
      | ok next => exact inductionHypothesis next

/-- A path is refused because of a null character only if it holds one. -/
theorem contents_ne_nullCharacter (free : '\x00' ∉ path.toList) :
    tree.contents path ≠ .error .nullCharacter := by
  have walks : tree.walk path ≠ .error .nullCharacter := by
    rw [walk, if_neg (by simpa using free)]
    split
    · rintro ⟨⟩
    · split
      · rintro ⟨⟩
      · exact foldlM_enter_ne_nullCharacter _ _
  cases walked : tree.walk path with
  | error error =>
      rw [contents, walked]
      rintro ⟨⟩
      exact walks walked
  | ok place =>
      cases place with
      | outside =>
          rw [contents, walked]
          rintro ⟨⟩
      | inside names =>
          simp only [contents, walked]
          split <;> rintro ⟨⟩

theorem contents_of_mem (null : '\x00' ∈ path.toList) :
    tree.contents path = .error .nullCharacter := by
  have walked : tree.walk path = .error .nullCharacter := if_pos (by simpa using null)
  rw [contents, walked]

/-- A path at which a script was found holds no null character. -/
theorem null_notMem_of_present
    (present : Session.presence (tree.contents (Path.normal path)) = .ok true) :
    '\x00' ∉ path.toList := by
  intro null
  rw [contents_of_mem (Path.mem_normal (by decide) (by decide) null)] at present
  cases present

end FileTree

/-- A script that was found is read, or there is a cause that can be described. -/
theorem Console.load_present
    {console : Console}
    {path : String}
    {error : HostError}
    (present : Session.presence (console.files.contents (Path.normal path)) = .ok true)
    (refused : (Console.host.load path console).1 = .error error) :
    ∃ cause, error = .unavailable cause := by
  have free : console.files.contents path ≠ .error .nullCharacter :=
    FileTree.contents_ne_nullCharacter (FileTree.null_notMem_of_present present)
  change openedText path (console.files.contents path) = .error error at refused
  cases opened : console.files.contents path with
  | error cause =>
      rw [opened] at refused free
      cases cause with
      | nullCharacter => exact absurd rfl free
      | missing | denied | notDirectory | directory | tooLong =>
          cases refused
          exact ⟨_, rfl⟩
  | ok bytes =>
      rw [opened, openedText] at refused
      cases decoded : fileText bytes with
      | error cause =>
          rw [decoded] at refused
          cases refused
          exact ⟨cause, rfl⟩
      | ok text =>
          rw [decoded] at refused
          cases refused

end Concatenative
