import Gemfile.Proofs.Requirement

/-!
# Versions that are printed and read again

* `Version.chars_eq`           a version is printed as its numbers, and its prerelease behind a hyphen
* `Version.proper_prerelease`  the prerelease of a version that was read has proper segments
* `Version.read?_chars`        so it is found again, behind the word that the hyphen stands for
* `Version.ofValue_text`       which is the same version for releases, and for no others
-/

namespace Gemfile.Version
variable {s : String} {v : Version}

lemma proper_prerelease (h : ofValue (.str s) = .ok v) : ∀ i ∈ v.prerelease, i.Proper := by
  obtain ⟨_, rfl⟩ := read?_eq_some.mp (ofValue_eq_ok.mp h)
  intro i hi
  refine @proper_of_mem_segments (Text.strip s.toList) i ?_
  rw [← release_append_prerelease (segments _)]
  exact List.mem_append_right _ hi

lemma releaseChars_eq (v : Version) : v.releaseChars = writtenNumbers v.numbers :=
  List.append_assoc _ _ _

lemma chars_eq (v : Version) : v.chars =
    if v.prerelease = [] then writtenNumbers v.numbers
    else writtenNumbers v.numbers ++ '-' :: written v.prerelease := by
  unfold chars isPrerelease
  rw [releaseChars_eq]
  cases v.prerelease <;> rfl

/-- the prerelease that is found when `p` has been printed -/
def reread (p : List Identifier) : List Identifier := if p = [] then [] else pre :: p

lemma read?_chars (h : ∀ i ∈ v.prerelease, i.Proper) :
    read? v.chars = some { v with prerelease := reread v.prerelease } := by
  rw [chars_eq]
  unfold reread
  split
  · exact read?_writtenNumbers (List.cons_ne_nil _ _)
  · next hp =>
    have release : IsRelease (writtenNumbers v.numbers) := isRelease_writtenNumbers (List.cons_ne_nil _ _)
    rw [read?_of_wellFormed ((wellFormed_iff _).mpr (.prerelease release (isSuffix_written h hp)))]
    unfold writtenNumbers
    rw [segments_hyphen (proper_numbers _) h (by simp [numbers]) hp]
    rfl

/-- **Printed versions are read again**: with the same numbers, as the same version if it is a release, and
otherwise with the word `pre` in front of the prerelease.  So every dependency admits the version that
was printed and the one that is read if it is a release, and only then. -/
theorem ofValue_text (name : Value) (h : ofValue (.str s) = .ok v) :
    ∃ w, ofValue (.str v.text) = .ok w ∧ w.numbers = v.numbers ∧
      (v.prerelease = [] → w = v) ∧
      (v.prerelease ≠ [] → w.prerelease = .word ['p', 'r', 'e'] :: v.prerelease) ∧
      ((∀ xs d, Dependency.ofValues name xs = .ok d → d.admits w = d.admits v) ↔
        v.prerelease = []) := by
  have read : ofValue (.str v.text) = .ok { v with prerelease := reread v.prerelease } := by
    rw [ofValue_eq_ok, text, String.toList_ofList]
    exact read?_chars (proper_prerelease h)
  have same (hp : v.prerelease = []) : { v with prerelease := reread v.prerelease } = v := by
    obtain ⟨a, b, c, p⟩ := v
    obtain rfl : p = [] := hp
    rfl
  refine ⟨_, read, rfl, same, fun hp => if_neg hp, fun agree => ?_, fun hp xs d _ => by rw [same hp]⟩
  by_contra hp
  -- the requirement of the version itself tells the two apart
  have own := agree _ _ (Dependency.ofValues_signed name (.compare .equal) h)
  rw [Dependency.admits_one name (List.cons_ne_nil _ _),
    Dependency.admits_one name (List.cons_ne_nil _ _)] at own
  have other : { v with prerelease := reread v.prerelease } ≠ v := by
    intro e
    have length := congrArg (fun w => w.prerelease.length) e
    simp [reread, hp] at length
  have yes : Clause.admits ⟨.equal, v⟩ v = true := decide_eq_true rfl
  have no : Clause.admits ⟨.equal, v⟩ { v with prerelease := reread v.prerelease } = false :=
    decide_eq_false other
  simp only [Requirement.clausesOf, List.all_cons, List.all_nil, yes, no] at own
  cases own

/-- a hyphen, letters next to digits, and four numbers -/
theorem ofValue_text_fourth :
    ofValue (.str " 1.02.3.4-rc1 ") =
        .ok ⟨1, 2, 3, [.word ['p', 'r', 'e'], .word ['r', 'c'], .number 1]⟩ ∧
      ∃ w, ofValue (.str "1.2.3-pre.rc.1") = .ok w ∧
        w.prerelease = [.word ['p', 'r', 'e'], .word ['p', 'r', 'e'], .word ['r', 'c'], .number 1] := by
  have h : ofValue (.str " 1.02.3.4-rc1 ") =
      .ok ⟨1, 2, 3, [.word ['p', 'r', 'e'], .word ['r', 'c'], .number 1]⟩ := by
    decide +kernel
  have text : Version.text ⟨1, 2, 3, [.word ['p', 'r', 'e'], .word ['r', 'c'], .number 1]⟩ =
      "1.2.3-pre.rc.1" := by
    decide +kernel
  obtain ⟨w, hw, -, -, prerelease, -⟩ := ofValue_text (.str "a") h
  rw [text] at hw
  exact ⟨h, w, hw, prerelease (List.cons_ne_nil _ _)⟩

end Gemfile.Version
