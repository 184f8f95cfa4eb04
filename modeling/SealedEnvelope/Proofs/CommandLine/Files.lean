import SealedEnvelope.CommandLine
import SealedEnvelope.Proofs.Sequence
import Mathlib.Tactic.SplitIfs

set_option autoImplicit false

/-! # Files that have been written

Writing a file takes nothing away: what could be followed can be followed still, and the file is
found under the text that it was placed with (`find_write_of_place`). As the source of a stream a
file is what it holds when the stream starts to read, and a stream whose output is its own input
starts with an empty file. -/

namespace SealedEnvelope.CommandLine

namespace Files

variable {files : Files} {p q : Path} {contents : Bytes} {text : String}

theorem checkDirectory_eq_ok_iff :
    files.checkDirectory p = .ok () ↔ files.isDirectory p = true := by
  simp [checkDirectory]

theorem checkPresent_eq_ok_iff :
    files.checkPresent p = .ok ()
      ↔ files.isDirectory p = true ∨ (files.contents? p).isSome = true := by
  by_cases h : files.isDirectory p = true ∨ (files.contents? p).isSome = true <;>
    simp [checkPresent, h]

@[simp] theorem isDirectory_write (files : Files) (p q : Path) (contents : Bytes) :
    (files.write p contents).isDirectory q = files.isDirectory q := rfl

theorem checkDirectory_write (h : files.checkDirectory q = .ok ()) :
    (files.write p contents).checkDirectory q = .ok () :=
  checkDirectory_eq_ok_iff.2 (checkDirectory_eq_ok_iff.1 h)

/-- What is there stays there. -/
theorem checkPresent_write (h : files.checkPresent q = .ok ()) :
    (files.write p contents).checkPresent q = .ok () := by
  rw [checkPresent_eq_ok_iff] at h ⊢
  rw [isDirectory_write, contents?_write]
  split
  · exact Or.inr rfl
  · exact h

/-- A written file is there. -/
theorem checkPresent_write_self (files : Files) (p : Path) (contents : Bytes) :
    (files.write p contents).checkPresent p = .ok () := by
  rw [checkPresent_eq_ok_iff, contents?_write, if_pos rfl]
  exact Or.inr rfl

theorem follow_cons_eq_ok_iff {name : String} {names : List String} :
    files.follow p (name :: names) = .ok q
      ↔ files.checkDirectory p = .ok () ∧ checkName name = .ok ()
        ∧ files.checkPresent (p.step name) = .ok ()
        ∧ files.follow (p.step name) names = .ok q := by
  rw [follow, check_bind_eq_ok, check_bind_eq_ok, check_bind_eq_ok]

theorem follow_append_eq_ok_iff {front back : List String} :
    files.follow p (front ++ back) = .ok q
      ↔ ∃ stop, files.follow p front = .ok stop ∧ files.follow stop back = .ok q := by
  induction front generalizing p with
  | nil => simp [follow]
  | cons name rest ih =>
    rw [List.cons_append]
    simp only [follow_cons_eq_ok_iff, ih, and_assoc, exists_and_left]

/-- Names that lead somewhere lead there still. -/
theorem follow_write {names : List String} {stop : Path} (h : files.follow q names = .ok stop) :
    (files.write p contents).follow q names = .ok stop := by
  induction names generalizing q with
  | nil => exact h
  | cons name rest ih =>
    obtain ⟨hdirectory, hname, hpresent, hrest⟩ := follow_cons_eq_ok_iff.1 h
    exact follow_cons_eq_ok_iff.2
      ⟨checkDirectory_write hdirectory, hname, checkPresent_write hpresent, ih hrest⟩

/-- A place is a name in a directory that a path leads to. -/
theorem exists_of_place (h : files.place text = .ok p) :
    checkPathText text = .ok () ∧ (Route.ofText text).endsInSlash = false
      ∧ ∃ front name directory, (Route.ofText text).names = front ++ [name]
        ∧ files.follow (Route.ofText text).start front = .ok directory
        ∧ files.checkDirectory directory = .ok () ∧ checkName name = .ok ()
        ∧ directory.step name = p := by
  rw [place, check_bind_eq_ok] at h
  obtain ⟨htext, h⟩ := h
  rcases List.eq_nil_or_concat (Route.ofText text).names with hnil | ⟨front, name, hnames⟩
  · simp [hnil, throw_eq_ok] at h
  · rw [List.concat_eq_append] at hnames
    simp only [hnames, List.getLast?_concat, List.dropLast_concat, bind_eq_ok] at h
    obtain ⟨directory, hfollow, _, hdirectory, h⟩ := h
    by_cases hdots : name = "." ∨ name = ".." ∨ (Route.ofText text).endsInSlash = true
    · rw [if_pos hdots] at h
      cases h
    · rw [if_neg hdots, check_bind_eq_ok] at h
      obtain ⟨hname, h⟩ := h
      split at h
      · cases h
      · obtain rfl := pure_eq_ok.1 h
        simp only [not_or] at hdots
        obtain ⟨hdot, hup, hslash⟩ := hdots
        refine ⟨htext, Bool.eq_false_iff.2 hslash, front, name, directory, hnames, hfollow,
          hdirectory, hname, ?_⟩
        rw [Path.step, if_neg hdot, if_neg hup]

/-- What has been written is found under the text that it was placed with. -/
theorem find_write_of_place (h : files.place text = .ok p) :
    (files.write p contents).find text = .ok p := by
  obtain ⟨htext, hslash, front, name, directory, hnames, hfollow, hdirectory, hname, rfl⟩ :=
    exists_of_place h
  have hlast : (files.write (directory.step name) contents).follow directory [name]
      = .ok (directory.step name) :=
    follow_cons_eq_ok_iff.2
      ⟨checkDirectory_write hdirectory, hname, checkPresent_write_self .., rfl⟩
  have hroute : (files.write (directory.step name) contents).follow (Route.ofText text).start
      (Route.ofText text).names = .ok (directory.step name) := by
    rw [hnames]
    exact follow_append_eq_ok_iff.2 ⟨directory, follow_write hfollow, hlast⟩
  rw [find, check_bind_eq_ok]
  refine ⟨htext, bind_eq_ok.2 ⟨_, hroute, ?_⟩⟩
  rw [hslash]
  rfl

/-- A file can be placed where it could be placed before. -/
theorem place_write (h : files.place text = .ok q) :
    (files.write p contents).place text = .ok q := by
  unfold place at h ⊢
  rw [check_bind_eq_ok] at h ⊢
  refine ⟨h.1, ?_⟩
  cases hlast : (Route.ofText text).names.getLast? with
  | none =>
    simp only [hlast, throw_eq_ok] at h
    exact h.2.elim
  | some name =>
    simp only [hlast] at h ⊢
    obtain ⟨directory, hfollow, hrest⟩ := bind_eq_ok.1 h.2
    exact bind_eq_ok.2 ⟨directory, follow_write hfollow, hrest⟩

/-! ## Contents -/

theorem read_eq_ok_iff :
    files.read text = .ok contents
      ↔ ∃ p, files.find text = .ok p ∧ files.contents? p = some contents := by
  simp only [read, bind_eq_ok]
  refine exists_congr fun p => and_congr_right fun _ => ?_
  cases files.contents? p <;> simp [throw_eq_ok, pure_eq_ok]

/-- A file is a source of what it holds. -/
theorem source_eq (h : files.contents? p = some contents) :
    files.source p = .ofBytes contents := by
  rw [source, h]

/-- A file that is emptied to write another is a source of what it holds. -/
theorem source_write_of_ne (h : files.contents? p = some contents) (hne : p ≠ q) :
    (files.write q []).source p = .ofBytes contents := by
  refine source_eq ?_
  rw [contents?_write, if_neg hne.symm, h]

/-- A file that is emptied to be written itself is a source of nothing. -/
theorem source_write_self (files : Files) (p : Path) :
    (files.write p []).source p = .ofBytes [] := by
  refine source_eq ?_
  rw [contents?_write, if_pos rfl]

end Files

end SealedEnvelope.CommandLine
